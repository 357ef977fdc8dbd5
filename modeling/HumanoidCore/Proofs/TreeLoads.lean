import HumanoidCore.BehaviorTreeLoader

namespace HumanoidCore.BehaviorTrees

variable {ν : Type} {factory : BehaviorTreeFactory ν}

section Rules

inductive NodeKind where
  | composite | decorator | leaf
  deriving DecidableEq

def BTNode.kind : BTNode ν → NodeKind
  | .composite _ _ => .composite
  | .decorator _ _ => .decorator
  | .leaf _ => .leaf

def BTNode.childless : BTNode ν → Prop
  | .composite _ children => children = []
  | .decorator _ child => child = none
  | .leaf _ => True

/-- Each registered creator returns a node without children, always of the same kind. -/
def Fresh (factory : BehaviorTreeFactory ν) (kind : String → NodeKind) : Prop :=
  ∀ type ∈ factory.nodeTypes, ∀ calls, ∃ node, factory.creator type calls = some node ∧
    node.kind = kind type ∧ node.childless

mutual
/-- The definition with all that are under it. -/
def TreeNodeDefinition.all : TreeNodeDefinition → List TreeNodeDefinition
  | ⟨type, children⟩ => ⟨type, children⟩ :: allOf children

def allOf : List TreeNodeDefinition → List TreeNodeDefinition
  | [] => []
  | definition :: rest => definition.all ++ allOf rest
end

variable (factory : BehaviorTreeFactory ν) (kind : String → NodeKind)

/-- What a definition has to be like, but for a decorator that has no child. -/
structure Tolerated (definition : TreeNodeDefinition) : Prop where
  registered : definition.type ∈ factory.nodeTypes
  decorator : kind definition.type = .decorator → definition.children.length ≤ 1
  leaf : kind definition.type = .leaf → definition.children = []

/-- The rules for a definition. -/
structure WellFormed (definition : TreeNodeDefinition) : Prop where
  registered : definition.type ∈ factory.nodeTypes
  decorator : kind definition.type = .decorator → definition.children.length = 1
  leaf : kind definition.type = .leaf → definition.children = []

/-- A decorator that has no child. -/
def Childless (definition : TreeNodeDefinition) : Prop :=
  kind definition.type = .decorator ∧ definition.children = []

mutual
/-- The node is what a creator of its type made, with the nodes of the children in order. -/
inductive Built : TreeNodeDefinition → BTNode ν → Prop where
  | composite {type : String} {children : List TreeNodeDefinition} {calls : Nat} {own : ν}
      {nodes : List (BTNode ν)} (made : factory.createNode type calls = some (.composite own []))
      (h : BuiltAll children nodes) : Built ⟨type, children⟩ (.composite own nodes)
  | decorator {type : String} {child : TreeNodeDefinition} {calls : Nat} {own : ν}
      {node : BTNode ν} (made : factory.createNode type calls = some (.decorator own none))
      (h : Built child node) : Built ⟨type, [child]⟩ (.decorator own (some node))
  | leaf {type : String} {calls : Nat} {own : ν}
      (made : factory.createNode type calls = some (.leaf own)) : Built ⟨type, []⟩ (.leaf own)

inductive BuiltAll : List TreeNodeDefinition → List (BTNode ν) → Prop where
  | nil : BuiltAll [] []
  | cons {definition : TreeNodeDefinition} {node : BTNode ν} {rest : List TreeNodeDefinition}
      {nodes : List (BTNode ν)} (h : Built definition node) (tail : BuiltAll rest nodes) :
      BuiltAll (definition :: rest) (node :: nodes)
end

end Rules

section Building
variable {kind : String → NodeKind} {definition : TreeNodeDefinition} {type : String}
  {children rest : List TreeNodeDefinition} {calls : Nat}

theorem create_registered (hfresh : Fresh factory kind) (htype : type ∈ factory.nodeTypes)
    (calls : Nat) : ∃ node, create factory type calls = .ok (node, calls + 1) ∧
      factory.createNode type calls = some node ∧ node.kind = kind type ∧ node.childless := by
  obtain ⟨node, hmade, hkind, hchildless⟩ := hfresh type htype calls
  have hnode : factory.createNode type calls = some node := by
    rw [BehaviorTreeFactory.createNode, BehaviorTreeFactory.contains, if_pos (by simpa using htype),
      hmade]
  exact ⟨node, by rw [create, hnode], hnode, hkind, hchildless⟩

theorem create_unknown (htype : type ∉ factory.nodeTypes) (calls : Nat) :
    create factory type calls =
      .error ("Unable to create behavior tree node: " ++ type) := by
  have hnode : factory.createNode type calls = none := by
    rw [BehaviorTreeFactory.createNode, BehaviorTreeFactory.contains, if_neg (by simpa using htype)]
  rw [create, hnode]

/-- A first part that succeeds hands its result on. -/
theorem building_bind {α β : Type} {x : Building α} {f : α → Building β} {a : α} {calls next : Nat}
    (h : x calls = .ok (a, next)) : (x >>= f) calls = f a next := by
  show (x calls >>= fun r => f r.1 r.2) = f a next
  rw [h]
  rfl

theorem building_fails {α β : Type} {x : Building α} {f : α → Building β} {e : String} {calls : Nat}
    (h : x calls = .error e) : (x >>= f) calls = .error e := by
  show (x calls >>= fun r => f r.1 r.2) = .error e
  rw [h]
  rfl

theorem tolerated_here (h : ∀ d ∈ TreeNodeDefinition.all ⟨type, children⟩, Tolerated factory kind d) :
    Tolerated factory kind ⟨type, children⟩ ∧ ∀ d ∈ allOf children, Tolerated factory kind d := by
  rw [TreeNodeDefinition.all] at h
  exact ⟨h _ (by simp), fun d hd => h d (List.mem_cons_of_mem _ hd)⟩

theorem tolerated_cons (h : ∀ d ∈ allOf (definition :: rest), Tolerated factory kind d) :
    (∀ d ∈ definition.all, Tolerated factory kind d) ∧ ∀ d ∈ allOf rest, Tolerated factory kind d := by
  rw [allOf] at h
  exact ⟨fun d hd => h d (List.mem_append_left _ hd), fun d hd => h d (List.mem_append_right _ hd)⟩

/-- Tolerated definitions under decorators keep at most one child. -/
theorem decorator_children (h : Tolerated factory kind ⟨type, children⟩)
    (hkind : kind type = .decorator) (hne : children ≠ []) : ∃ child, children = [child] := by
  have hlength := h.decorator hkind
  obtain ⟨child, rest, rfl⟩ := List.exists_cons_of_ne_nil hne
  cases rest with
  | nil => exact ⟨child, rfl⟩
  | cons d rest => simp at hlength

mutual
theorem tolerated_builds (hfresh : Fresh factory kind) : ∀ (definition : TreeNodeDefinition),
    (∀ d ∈ definition.all, Tolerated factory kind d) → ∀ calls,
      ∃ node next, buildNode factory definition calls = .ok (node, next) ∧
        ((∀ d ∈ definition.all, ¬ Childless kind d) → Built factory definition node)
  | ⟨type, children⟩, htolerated, calls => by
    obtain ⟨hhere, hbelow⟩ := tolerated_here htolerated
    obtain ⟨node, hcreate, hmade, hkind, hchildless⟩ :=
      create_registered hfresh hhere.registered calls
    rw [buildNode, building_bind hcreate]
    cases children with
    | nil =>
      refine ⟨node, calls + 1, rfl, fun hnone => ?_⟩
      have hfull := hnone ⟨type, []⟩ (by simp [TreeNodeDefinition.all])
      cases node with
      | composite own present =>
        obtain rfl : present = [] := hchildless
        exact .composite hmade .nil
      | decorator own child => exact absurd ⟨hkind.symm, rfl⟩ hfull
      | leaf own => exact .leaf hmade
    | cons child rest =>
      cases node with
      | composite own present =>
        obtain rfl : present = [] := hchildless
        obtain ⟨nodes, next, hnodes, hbuilt⟩ :=
          tolerated_all_build hfresh (child :: rest) hbelow (calls + 1)
        refine ⟨.composite own nodes, next, ?_, fun hnone => .composite hmade (hbuilt ?_)⟩
        · exact building_bind hnodes
        · exact fun d hd => hnone d (by rw [TreeNodeDefinition.all]; exact List.mem_cons_of_mem _ hd)
      | decorator own present =>
        obtain rfl : present = none := hchildless
        obtain ⟨only, honly⟩ := decorator_children hhere hkind.symm (by simp)
        obtain ⟨rfl, rfl⟩ := List.cons.inj honly
        obtain ⟨node, next, hnode, hbuilt⟩ :=
          tolerated_builds hfresh child (tolerated_cons hbelow).1 (calls + 1)
        refine ⟨.decorator own (some node), next, ?_, fun hnone => .decorator hmade (hbuilt ?_)⟩
        · exact building_bind hnode
        · intro d hd
          apply hnone d
          rw [TreeNodeDefinition.all, allOf]
          exact List.mem_cons_of_mem _ (List.mem_append_left _ hd)
      | leaf own => cases hhere.leaf hkind.symm

theorem tolerated_all_build (hfresh : Fresh factory kind) : ∀ (definitions : List TreeNodeDefinition),
    (∀ d ∈ allOf definitions, Tolerated factory kind d) → ∀ calls,
      ∃ nodes next, buildNodes factory definitions calls = .ok (nodes, next) ∧
        ((∀ d ∈ allOf definitions, ¬ Childless kind d) → BuiltAll factory definitions nodes)
  | [], _, calls => ⟨[], calls, rfl, fun _ => .nil⟩
  | definition :: rest, htolerated, calls => by
    obtain ⟨hfirst, hrest⟩ := tolerated_cons htolerated
    obtain ⟨node, next, hnode, hbuilt⟩ := tolerated_builds hfresh definition hfirst calls
    obtain ⟨nodes, last, hnodes, hall⟩ := tolerated_all_build hfresh rest hrest next
    refine ⟨node :: nodes, last, ?_, fun hnone => .cons (hbuilt ?_) (hall ?_)⟩
    · rw [buildNodes, building_bind hnode]
      exact building_bind hnodes
    · exact fun d hd => hnone d (by rw [allOf]; exact List.mem_append_left _ hd)
    · exact fun d hd => hnone d (by rw [allOf]; exact List.mem_append_right _ hd)
end

theorem building_ok {α β : Type} {x : Building α} {f : α → Building β} {b : β} {calls last : Nat}
    (h : (x >>= f) calls = .ok (b, last)) :
    ∃ a next, x calls = .ok (a, next) ∧ f a next = .ok (b, last) := by
  cases hx : x calls with
  | error e =>
    rw [building_fails hx] at h
    cases h
  | ok r =>
    obtain ⟨a, next⟩ := r
    rw [building_bind hx] at h
    exact ⟨a, next, rfl, h⟩

/-- A node that was created belongs to a registered type and is of its kind. -/
theorem create_ok (hfresh : Fresh factory kind) {node : BTNode ν} {next : Nat}
    (h : create factory type calls = .ok (node, next)) :
    type ∈ factory.nodeTypes ∧ node.kind = kind type := by
  by_cases htype : type ∈ factory.nodeTypes
  · obtain ⟨node', hcreate, -, hkind, -⟩ := create_registered hfresh htype calls
    rw [hcreate] at h
    obtain ⟨rfl, -⟩ := Prod.mk.inj (Except.ok.inj h)
    exact ⟨htype, hkind⟩
  · rw [create_unknown htype] at h
    cases h

theorem forall_all {P : TreeNodeDefinition → Prop} (hhere : P ⟨type, children⟩)
    (hbelow : ∀ d ∈ allOf children, P d) : ∀ d ∈ TreeNodeDefinition.all ⟨type, children⟩, P d := by
  intro d hd
  rw [TreeNodeDefinition.all] at hd
  rcases List.mem_cons.mp hd with rfl | hd
  · exact hhere
  · exact hbelow d hd

mutual
theorem built_tolerated (hfresh : Fresh factory kind) : ∀ (definition : TreeNodeDefinition)
    {calls next : Nat} {node : BTNode ν}, buildNode factory definition calls = .ok (node, next) →
      ∀ d ∈ definition.all, Tolerated factory kind d
  | ⟨type, children⟩, calls, next, node, h => by
    rw [buildNode] at h
    obtain ⟨made, mid, hcreate, h⟩ := building_ok h
    obtain ⟨htype, hkind⟩ := create_ok hfresh hcreate
    cases children with
    | nil => exact forall_all ⟨htype, fun _ => Nat.zero_le 1, fun _ => rfl⟩ (fun d hd => by cases hd)
    | cons child rest =>
      cases made with
      | composite own present =>
        obtain ⟨nodes, last, hnodes, -⟩ := building_ok h
        have hnotDecorator : kind type ≠ .decorator := fun heq => by rw [heq] at hkind; cases hkind
        have hnotLeaf : kind type ≠ .leaf := fun heq => by rw [heq] at hkind; cases hkind
        exact forall_all ⟨htype, fun heq => absurd heq hnotDecorator, fun heq => absurd heq hnotLeaf⟩
          (built_all_tolerated hfresh (child :: rest) hnodes)
      | decorator own present =>
        obtain ⟨only, last, honly, -⟩ := building_ok h
        have hnotLeaf : kind type ≠ .leaf := fun heq => by rw [heq] at hkind; cases hkind
        cases rest with
        | nil =>
          refine forall_all ⟨htype, fun _ => Nat.le_refl 1, fun heq => absurd heq hnotLeaf⟩ ?_
          intro d hd
          rw [allOf, allOf, List.append_nil] at hd
          exact built_tolerated hfresh child honly d hd
        | cons second rest => cases honly
      | leaf own => cases h

theorem built_all_tolerated (hfresh : Fresh factory kind) : ∀ (definitions : List TreeNodeDefinition)
    {calls next : Nat} {nodes : List (BTNode ν)},
      buildNodes factory definitions calls = .ok (nodes, next) →
        ∀ d ∈ allOf definitions, Tolerated factory kind d
  | [], _, _, _, _ => fun d hd => by cases hd
  | definition :: rest, calls, next, nodes, h => by
    rw [buildNodes] at h
    obtain ⟨node, mid, hnode, h⟩ := building_ok h
    obtain ⟨later, last, hlater, -⟩ := building_ok h
    intro d hd
    rw [allOf] at hd
    rcases List.mem_append.mp hd with hd | hd
    · exact built_tolerated hfresh definition hnode d hd
    · exact built_all_tolerated hfresh rest hlater d hd
end

mutual
/-- The validator asks for registered types, and for nothing else. -/
theorem validated_iff : ∀ (definition : TreeNodeDefinition) (path : String),
    (validateNode factory path definition).success = true ↔
      ∀ d ∈ definition.all, d.type ∈ factory.nodeTypes
  | ⟨type, children⟩, path => by
    have hchildren := validated_all_iff children path 0
    rw [validateNode, TreeNodeDefinition.all, List.forall_mem_cons]
    by_cases htype : type ∈ factory.nodeTypes
    · have hnamed : type ≠ "" := fun heq => factory.named (heq ▸ htype)
      have hcontains : factory.contains type = true := decide_eq_true htype
      simp only [if_neg hnamed, hcontains, Bool.not_true, Bool.false_eq_true, if_false, hchildren]
      exact ⟨fun h => ⟨htype, h⟩, fun h => h.2⟩
    · have hcontains : factory.contains type = false := decide_eq_false htype
      refine ⟨fun h => ?_, fun h => absurd h.1 htype⟩
      split at h
      case isTrue => cases h
      case isFalse =>
        simp only [hcontains, Bool.not_false, if_true, Bool.false_eq_true] at h

theorem validated_all_iff : ∀ (definitions : List TreeNodeDefinition) (path : String) (index : Nat),
    (validateChildren factory path index definitions).success = true ↔
      ∀ d ∈ allOf definitions, d.type ∈ factory.nodeTypes
  | [], _, _ => by simp [validateChildren, allOf]
  | definition :: rest, path, index => by
    have hfirst := validated_iff definition (path ++ ".children[" ++ toString index ++ "]")
    have hrest := validated_all_iff rest path (index + 1)
    rw [validateChildren, allOf, List.forall_mem_append, ← hfirst, ← hrest]
    cases hv : (validateNode factory (path ++ ".children[" ++ toString index ++ "]")
        definition).success with
    | true => simp
    | false => simpa using hv
end

theorem building_decided (hfresh : Fresh factory kind) (definition : TreeNodeDefinition) :
    (∃ root last, (buildNode factory definition).run 0 = .ok (root, last) ∧
      (∀ d ∈ definition.all, Tolerated factory kind d) ∧
      ((∀ d ∈ definition.all, ¬ Childless kind d) → Built factory definition root)) ∨
    (∃ error, (buildNode factory definition).run 0 = .error error) ∧
      ¬ ∀ d ∈ definition.all, Tolerated factory kind d := by
  by_cases htolerated : ∀ d ∈ definition.all, Tolerated factory kind d
  · obtain ⟨root, last, hroot, hbuilt⟩ := tolerated_builds hfresh definition htolerated 0
    exact .inl ⟨root, last, hroot, htolerated, hbuilt⟩
  · refine .inr ⟨?_, htolerated⟩
    cases hbuild : (buildNode factory definition).run 0 with
    | error error => exact ⟨error, rfl⟩
    | ok r =>
      obtain ⟨root, last⟩ := r
      exact absurd (built_tolerated hfresh definition hbuild) htolerated

end Building

section Loading
variable {kind : String → NodeKind}

/-- The loader gives a tree exactly for the well-formed documents, in the shape of the document,
and otherwise none. -/
structure BuildsExactly (factory : BehaviorTreeFactory ν) (kind : String → NodeKind)
    (document : TreeDocument) (result : TreeLoadResult ν) : Prop where
  accepts : result.success = true ↔ ∀ d ∈ document.root.all, WellFormed factory kind d
  shape : result.success = true →
    ∃ tree root, result.tree = some tree ∧ tree.root = some root ∧ Built factory document.root root
  nothing : result.success = false → result.tree = none

theorem well_formed_iff (definition : TreeNodeDefinition) :
    (∀ d ∈ definition.all, WellFormed factory kind d) ↔
      (∀ d ∈ definition.all, Tolerated factory kind d) ∧
        ∀ d ∈ definition.all, ¬ Childless kind d := by
  constructor
  · intro h
    refine ⟨fun d hd => ⟨(h d hd).registered, fun hk => Nat.le_of_eq ((h d hd).decorator hk),
      (h d hd).leaf⟩, ?_⟩
    rintro d hd ⟨hk, hnil⟩
    have hone := (h d hd).decorator hk
    rw [hnil] at hone
    cases hone
  · rintro ⟨htolerated, hnone⟩ d hd
    refine ⟨(htolerated d hd).registered, fun hk => ?_, (htolerated d hd).leaf⟩
    have hle := (htolerated d hd).decorator hk
    have hne : d.children ≠ [] := fun hnil => hnone d hd ⟨hk, hnil⟩
    have hpos := List.length_pos_of_ne_nil hne
    omega

/-- Where every creator works, the loader builds exactly the well-formed trees unless a decorator
has no child and nothing else is wrong with the document. -/
theorem builds_exactly_iff (hfresh : Fresh factory kind) (document : TreeDocument) (message : String) :
    BuildsExactly factory kind document (build (some factory) ⟨document, true, message⟩) ↔
      (∀ d ∈ document.root.all, ¬ Childless kind d) ∨
        ∃ d ∈ document.root.all, ¬ Tolerated factory kind d := by
  rcases building_decided hfresh document.root with
    ⟨root, last, hroot, htolerated, hbuilt⟩ | ⟨⟨error, herror⟩, hnot⟩
  · have hvalid := (validated_iff document.root "root").mpr
      (fun d hd => (htolerated d hd).registered)
    have hbuild : build (some factory) ⟨document, true, message⟩ =
        { tree := some { root := some root }, success := true
          message := "Behavior tree loaded successfully" } := by
      simp [build, hvalid, hroot]
    rw [hbuild]
    constructor
    · intro h
      exact .inl ((well_formed_iff _).mp (h.accepts.mp rfl)).2
    · rintro (hnone | ⟨d, hd, hwrong⟩)
      · refine ⟨⟨fun _ => (well_formed_iff _).mpr ⟨htolerated, hnone⟩, fun _ => rfl⟩, fun _ => ?_, ?_⟩
        · exact ⟨_, root, rfl, rfl, hbuilt hnone⟩
        · intro h
          cases h
      · exact absurd (htolerated d hd) hwrong
  · have hbuild : (build (some factory) ⟨document, true, message⟩).success = false ∧
        (build (some factory) ⟨document, true, message⟩).tree = none := by
      unfold build
      simp only [Bool.not_true, Bool.false_eq_true, if_false, herror]
      split
      case isTrue => exact ⟨rfl, rfl⟩
      case isFalse => exact ⟨rfl, rfl⟩
    refine ⟨fun _ => .inr (by simpa using hnot), fun _ => ⟨?_, ?_, fun _ => hbuild.2⟩⟩
    · rw [hbuild.1]
      refine ⟨fun h => absurd h Bool.false_ne_true, fun h => ?_⟩
      exact absurd ((well_formed_iff _).mp h).1 hnot
    · intro h
      rw [hbuild.1] at h
      cases h

end Loading

section Examples

def kindOf (type : String) : NodeKind :=
  if type = "Sequence" then .composite else if type = "Inverter" then .decorator else .leaf

/-- Every node is numbered by the call that made it. -/
def builtInTypes : BehaviorTreeFactory Nat where
  nodeTypes := ["Sequence", "Inverter", "Action"]
  creator type calls :=
    match kindOf type with
    | .composite => some (.composite calls [])
    | .decorator => some (.decorator calls none)
    | .leaf => some (.leaf calls)
  named := by decide

theorem built_in_fresh : Fresh builtInTypes kindOf := by
  intro type _ calls
  simp only [builtInTypes]
  cases kindOf type with
  | composite => exact ⟨_, rfl, rfl, rfl⟩
  | decorator => exact ⟨_, rfl, rfl, rfl⟩
  | leaf => exact ⟨_, rfl, rfl, trivial⟩

def guarded : TreeDocument := ⟨⟨"Sequence", [⟨"Inverter", [⟨"Action", []⟩]⟩, ⟨"Action", []⟩]⟩⟩

theorem builds_exactly_iff_guarded :
    BuildsExactly builtInTypes kindOf guarded (build (some builtInTypes) ⟨guarded, true, ""⟩) := by
  refine (builds_exactly_iff built_in_fresh guarded "").mpr (.inl ?_)
  have hall : ∀ d ∈ guarded.root.all, ¬ (kindOf d.type = .decorator ∧ d.children.isEmpty = true) := by
    decide
  rintro d hd ⟨hkind, hnil⟩
  exact hall d hd ⟨hkind, List.isEmpty_iff.mpr hnil⟩

/-- A decorator without a child. -/
def unguarded : TreeDocument := ⟨⟨"Inverter", []⟩⟩

theorem childless_decorator_builds :
    (build (some builtInTypes) ⟨unguarded, true, ""⟩).success = true ∧
      ¬ ∀ d ∈ unguarded.root.all, WellFormed builtInTypes kindOf d := by
  refine ⟨by decide +kernel, fun h => ?_⟩
  have hone := (h ⟨"Inverter", []⟩ (by simp [unguarded, TreeNodeDefinition.all])).decorator rfl
  cases hone

end Examples

end HumanoidCore.BehaviorTrees
