import HumanoidCore.BehaviorTreeFormats
import HumanoidCore.Proofs.DocumentTexts

namespace HumanoidCore.BehaviorTrees
open Documents

/-- Induction over an entry, with what holds below it field by field. -/
theorem Entry.induct {P : Entry → Prop} (name : ∀ text, P (.name text))
    (node : ∀ fields : NodeFields, (∀ f ∈ fields, P f.2) → P (.node fields))
    (nodes : ∀ list : List NodeFields, (∀ fields ∈ list, ∀ f ∈ fields, P f.2) → P (.nodes list)) :
    ∀ entry, P entry
  | .name text => name text
  | .node fields => node fields fun f hf =>
    have hsmaller := List.sizeOf_lt_of_mem hf
    have : sizeOf f.2 < sizeOf fields := by
      obtain ⟨name, entry⟩ := f
      simp only [Prod.mk.sizeOf_spec] at hsmaller ⊢
      omega
    Entry.induct name node nodes f.2
  | .nodes list => nodes list fun fields hfields f hf =>
    have hlist := List.sizeOf_lt_of_mem hfields
    have hsmaller := List.sizeOf_lt_of_mem hf
    have : sizeOf f.2 < sizeOf list := by
      obtain ⟨name, entry⟩ := f
      simp only [Prod.mk.sizeOf_spec] at hsmaller ⊢
      omega
    Entry.induct name node nodes f.2
termination_by entry => sizeOf entry
decreasing_by
  · simp only [Entry.node.sizeOf_spec]
    omega
  · simp only [Entry.nodes.sizeOf_spec]
    omega

section Texts
variable {style : Style} {name text tail : Text}

/-- The name of a field ends at its colon. -/
theorem name_before_colon (h : ':' ∉ name) (tail : Text) :
    (name ++ ':' :: tail).takeWhile (· ≠ ':') = name := by
  rw [List.takeWhile_append_of_pos]
  · simp
  · intro c hc
    have hne : c ≠ ':' := fun heq => h (heq ▸ hc)
    simp [hne]

theorem starts_type (h : ':' ∉ name) (tail : Text) :
    startsWith (name ++ ':' :: tail) "type:" = true ↔ name = "type".toList := by
  rw [startsWith, List.isPrefixOf_iff_prefix]
  constructor
  · rintro ⟨rest, hrest⟩
    rw [← name_before_colon h tail, ← hrest]
    rfl
  · rintro rfl
    exact ⟨tail, rfl⟩

theorem starts_dash (h : name.head? ≠ some '-') (tail : Text) :
    startsWith (name ++ ':' :: tail) "-" = false := by
  cases name with
  | nil => rfl
  | cons c name =>
    have hc : c ≠ '-' := by simpa using h
    have hne : ('-' == c) = false := by simpa using hc.symm
    rw [startsWith, List.cons_append, show "-".toList = ['-'] from rfl, List.isPrefixOf_cons_cons, hne]
    rfl

theorem exact_name (h : ':' ∉ name) (known : String) (hknown : ':' ∉ known.toList) :
    name ++ ':' :: tail = known.toList ++ [':'] ↔ name = known.toList ∧ tail = [] := by
  constructor
  · intro heq
    have hname := congrArg (List.takeWhile (· ≠ ':')) heq
    rw [name_before_colon h, name_before_colon hknown] at hname
    subst hname
    simpa using heq
  · rintro ⟨rfl, rfl⟩
    rfl

theorem scalar_bare (h : style.typeName text = true) : Bare (style.scalar text) := by
  unfold Style.scalar
  split
  case isTrue => exact bare_between (by decide) (by decide) text
  case isFalse hquotes =>
    simp only [Style.typeName, hquotes, Bool.false_or, Bool.and_eq_true, decide_eq_true_eq] at h
    exact bare_iff.mpr h.2

theorem unquote_scalar (h : style.typeName text = true) :
    unquoteScalar (style.scalar text) = text := by
  unfold Style.scalar
  split
  case isTrue =>
    rw [unquoteScalar, if_pos]
    · simp
    · refine ⟨by simp, .inl ⟨rfl, ?_⟩⟩
      rw [← List.cons_append, List.getLast?_concat]
  case isFalse =>
    -- the characters of a name are no quotes
    rw [unquoteScalar, if_neg]
    rintro ⟨-, ⟨hhead, -⟩ | ⟨hhead, -⟩⟩
    all_goals
      obtain ⟨rest, rfl⟩ := List.head?_eq_some_iff.mp hhead
      simp [Style.typeName, nameChar] at h

theorem field_value (h : style.typeName text = true) :
    (fieldValue (style.field "type".toList text) "type:").toOption =
      if text = [] then none else some (String.ofList text) := by
  have hvalue : unquoteScalar
      (trim ((style.field "type".toList text).drop "type:".toList.length)) = text := by
    have hdrop : (style.field "type".toList text).drop "type:".toList.length =
        if style.scalar text = [] then [] else ' ' :: style.scalar text := rfl
    rw [hdrop]
    split
    case isTrue hnil =>
      have htext := unquote_scalar h
      rw [hnil] at htext
      exact htext
    case isFalse => rw [trim_space, (scalar_bare h).trim, unquote_scalar h]
  rw [fieldValue, hvalue]
  split
  case isTrue => rfl
  case isFalse => rfl

theorem field_value_none : (fieldValue ("type".toList ++ [':']) "type:").toOption = none := by
  decide

end Texts

section Refusals

/-- A node that the reader of YAML refuses for its own fields. -/
def yamlRefuses (fields : NodeFields) : Bool := malformed fields || beyondSubset fields

/-- So is a field, with all that is below it. -/
def fieldRefused (name : Text) (entry : Entry) : Bool :=
  illShaped name entry || unknownField name || name = "children".toList && emptyList entry ||
    entry.anyNode yamlRefuses name

theorem any_below (p : NodeFields → Bool) (fields : NodeFields) :
    anyBelow p fields = fields.any (fun f => f.2.anyNode p f.1) := by
  induction fields with
  | nil => rfl
  | cons f fields ih => simp [anyBelow, ih]

theorem any_node_refused (fields : NodeFields) :
    anyNode yamlRefuses fields =
      (fields.isEmpty || fields.any (fun f => fieldRefused f.1 f.2)) := by
  rw [Bool.eq_iff_iff]
  simp only [anyNode, yamlRefuses, malformed, beyondSubset, any_below, fieldRefused,
    Bool.or_eq_true, List.any_eq_true]
  constructor
  · rintro (((hempty | ⟨f, hf, h⟩) | ⟨f, hf, h⟩) | ⟨f, hf, h⟩)
    · exact .inl hempty
    · exact .inr ⟨f, hf, .inl (.inl (.inl h))⟩
    · rcases h with h | h
      · exact .inr ⟨f, hf, .inl (.inl (.inr h))⟩
      · exact .inr ⟨f, hf, .inl (.inr h)⟩
    · exact .inr ⟨f, hf, .inr h⟩
  · rintro (hempty | ⟨f, hf, ((h | h) | h) | h⟩)
    · exact .inl (.inl (.inl hempty))
    · exact .inl (.inl (.inr ⟨f, hf, h⟩))
    · exact .inl (.inr ⟨f, hf, .inl h⟩)
    · exact .inl (.inr ⟨f, hf, .inr h⟩)
    · exact .inr ⟨f, hf, h⟩

end Refusals

section Reading
variable {style : Style} {name tail : Text} {fuel k : Nat} {any : Bool} {node : TreeNodeDefinition}
  {more : List YamlLine}

/-- What follows is not as deep as `k`. -/
def Below (k : Nat) (rest : List YamlLine) : Prop := ∀ l, rest.head? = some l → l.indent < k

theorem Below.mono {j : Nat} (h : Below k more) (hj : k ≤ j) : Below j more :=
  fun l hl => Nat.lt_of_lt_of_le (h l hl) hj

/-- A loop over fields leaves at what is not as deep. -/
theorem fields_leave (h : Below k more) :
    parseYamlNodeFields (fuel + 1) k any node more =
      if any then .ok (node, more) else fail "Expected YAML behavior tree node fields" := by
  cases more with
  | nil => simp [parseYamlNodeFields]
  | cons line more => simp [parseYamlNodeFields, h line rfl]

theorem list_leaves {children : List TreeNodeDefinition} (h : Below k more) :
    parseYamlNodeList (fuel + 1) k any children more =
      if any then .ok (children, more)
      else fail "YAML behavior tree children list must contain at least one node" := by
  cases more with
  | nil => simp [parseYamlNodeList]
  | cons line more => simp [parseYamlNodeList, h line rfl]

/-- One round of the loop over fields. -/
theorem fields_line (hname : fieldName name = true) :
    parseYamlNodeFields (fuel + 1) k any node (⟨k, name ++ ':' :: tail⟩ :: more) =
      if name = "type".toList then
        if node.type ≠ "" then fail "Duplicate YAML behavior tree node type"
        else do
          let type ← fieldValue (name ++ ':' :: tail) "type:"
          parseYamlNodeFields fuel k true { node with type } more
      else if name = "child".toList ∧ tail = [] then do
        let (child, rest) ← parseYamlNodeFields fuel (k + 2) false {} more
        parseYamlNodeFields fuel k true { node with children := node.children ++ [child] } rest
      else if name = "children".toList ∧ tail = [] then do
        let (children, rest) ← parseYamlNodeList fuel (k + 2) false node.children more
        parseYamlNodeFields fuel k true { node with children } rest
      else fail ("Unsupported YAML behavior tree field: " ++ String.ofList (name ++ ':' :: tail)) := by
  simp only [fieldName, Bool.and_eq_true, Bool.not_eq_true', List.contains_eq_mem,
    decide_eq_false_iff_not, decide_eq_true_eq] at hname
  have hcolon := hname.1.2
  have hchild : name ++ ':' :: tail = "child:".toList ↔ name = "child".toList ∧ tail = [] :=
    exact_name hcolon "child" (by decide)
  have hchildren :
      name ++ ':' :: tail = "children:".toList ↔ name = "children".toList ∧ tail = [] :=
    exact_name hcolon "children" (by decide)
  simp only [parseYamlNodeFields, Nat.lt_irrefl, if_false, starts_dash hname.2,
    starts_type hcolon, hchild, hchildren, Bool.false_eq_true]

/-- The fields are read, or one of them is refused. -/
def FieldsRead (style : Style) (fields : NodeFields) : Prop :=
  fieldsFit style fields = true → (fields.map Prod.fst).Nodup →
    ∀ (fuel k : Nat) (any : Bool) (node : TreeNodeDefinition) (more : List YamlLine),
      ("type".toList ∈ fields.map Prod.fst → node.type = "") → Below k more →
      (fieldsYaml style k fields ++ more).length < fuel →
      (parseYamlNodeFields fuel k any node (fieldsYaml style k fields ++ more)).toOption =
        if (fields.isEmpty && !any) || fields.any (fun f => fieldRefused f.1 f.2) then none
        else some (⟨node.type ++ typeOf fields, node.children ++ treesBelow fields⟩, more)

def NodesRead (style : Style) (list : List NodeFields) : Prop :=
  nodesFit style list = true →
    ∀ (fuel k : Nat) (any : Bool) (children : List TreeNodeDefinition) (more : List YamlLine),
      Below k more → (nodesYaml style k list ++ more).length < fuel →
      (parseYamlNodeList fuel k any children (nodesYaml style k list ++ more)).toOption =
        if (list.isEmpty && !any) || anyOf yamlRefuses list then none
        else some (children ++ treesOf list, more)

def EntryRead (style : Style) : Entry → Prop
  | .name _ => True
  | .node fields => FieldsRead style fields
  | .nodes list => NodesRead style list

theorem entry_lines (style : Style) (k : Nat) (name : Text) (entry : Entry) :
    ∃ tail lines, entry.yaml style k name = ⟨k, name ++ ':' :: tail⟩ :: lines := by
  cases entry with
  | name text => exact ⟨_, [], rfl⟩
  | node fields => exact ⟨[], _, rfl⟩
  | nodes list => exact ⟨[], _, rfl⟩

theorem item_lines (style : Style) (k : Nat) (fields : NodeFields) (lines : List YamlLine) :
    ∃ tail rest, style.item k fields lines = ⟨k, '-' :: tail⟩ :: rest := by
  unfold Style.item
  split
  case h_1 => exact ⟨[], [], rfl⟩
  case h_2 first rest =>
    split
    case isTrue => exact ⟨_, rest, rfl⟩
    case isFalse => exact ⟨[], _, rfl⟩

theorem fields_below (style : Style) (fields : NodeFields) (h : Below k more) :
    Below (k + 1) (fieldsYaml style k fields ++ more) := by
  cases fields with
  | nil => exact h.mono (by omega)
  | cons f fields =>
    obtain ⟨tail, lines, heq⟩ := entry_lines style k f.1 f.2
    rw [fieldsYaml, heq]
    intro l hl
    cases hl
    exact Nat.lt_succ_self k

theorem nodes_below (style : Style) (list : List NodeFields) (h : Below k more) :
    Below (k + 1) (nodesYaml style k list ++ more) := by
  cases list with
  | nil => exact h.mono (by omega)
  | cons fields list =>
    obtain ⟨tail, lines, heq⟩ := item_lines style k fields (fieldsYaml style (k + 2) fields)
    rw [nodesYaml, heq]
    intro l hl
    cases hl
    exact Nat.lt_succ_self k

/-- A list where a node should be. -/
theorem fields_on_list (list : List NodeFields) (h : Below k more) :
    (parseYamlNodeFields fuel k false node (nodesYaml style k list ++ more)).toOption = none := by
  cases fuel with
  | zero => rfl
  | succ fuel =>
    cases list with
    | nil =>
      rw [nodesYaml, List.nil_append, fields_leave h]
      rfl
    | cons fields list =>
      obtain ⟨tail, lines, heq⟩ := item_lines style k fields (fieldsYaml style (k + 2) fields)
      have hdash : startsWith ('-' :: tail) "-" = true := by simp [startsWith]
      simp [nodesYaml, heq, parseYamlNodeFields, hdash]

/-- A node where a list should be. -/
theorem list_on_fields {fields : NodeFields} (hfit : fieldsFit style fields = true)
    (h : Below k more) (children : List TreeNodeDefinition) :
    (parseYamlNodeList fuel k false children (fieldsYaml style k fields ++ more)).toOption =
      none := by
  cases fuel with
  | zero => rfl
  | succ fuel =>
    cases fields with
    | nil =>
      rw [fieldsYaml, List.nil_append, list_leaves h]
      rfl
    | cons f fields =>
      obtain ⟨tail, lines, heq⟩ := entry_lines style k f.1 f.2
      simp only [fieldsFit, fieldName, Bool.and_eq_true, decide_eq_true_eq] at hfit
      simp [fieldsYaml, heq, parseYamlNodeList, starts_dash hfit.1.1.2]

variable {entry : Entry}

/-- What a field adds to the node. -/
def withField (node : TreeNodeDefinition) (name : Text) (entry : Entry) : TreeNodeDefinition :=
  ⟨node.type ++ typeOf [(name, entry)], node.children ++ entry.trees name⟩

theorem unknown_iff : unknownField name = true ↔
    name ≠ "type".toList ∧ name ≠ "child".toList ∧ name ≠ "children".toList := by
  simp only [unknownField, Bool.and_eq_true, decide_eq_true_eq, and_assoc]

/-- The four kinds of names. -/
theorem name_cases (name : Text) : name = "type".toList ∨ name = "child".toList ∨
    name = "children".toList ∨ unknownField name = true := by
  by_cases htype : name = "type".toList
  · exact .inl htype
  · by_cases hchild : name = "child".toList
    · exact .inr (.inl hchild)
    · by_cases hchildren : name = "children".toList
      · exact .inr (.inr (.inl hchildren))
      · exact .inr (.inr (.inr (unknown_iff.mpr ⟨htype, hchild, hchildren⟩)))

/-- A name no reader knows ends the reading. -/
theorem unknown_refused (hname : fieldName name = true) (hunknown : unknownField name = true) :
    (parseYamlNodeFields (fuel + 1) k any node (⟨k, name ++ ':' :: tail⟩ :: more)).toOption =
      none := by
  obtain ⟨htype, hchild, hchildren⟩ := unknown_iff.mp hunknown
  rw [fields_line hname, if_neg htype, if_neg (fun h => hchild h.1),
    if_neg (fun h => hchildren h.1), to_option_fail]

section Rounds

theorem type_named : fieldName "type".toList = true := by decide

theorem child_named : fieldName "child".toList = true := by decide

theorem children_named : fieldName "children".toList = true := by decide

theorem type_round {text : Text} (htext : style.typeName text = true) (hnode : node.type = "") :
    (parseYamlNodeFields (fuel + 1) k any node
      (⟨k, style.field "type".toList text⟩ :: more)).toOption =
    if text = [] then none
    else (parseYamlNodeFields fuel k true ⟨String.ofList text, node.children⟩ more).toOption := by
  have hvalue := field_value htext
  unfold Style.field at hvalue ⊢
  rw [fields_line type_named, if_pos rfl, if_neg (by simp [hnode]), to_option_bind, hvalue]
  split
  case isTrue => rfl
  case isFalse => rfl

/-- The field `type` with a node or a list under it. -/
theorem type_refused :
    (parseYamlNodeFields (fuel + 1) k any node (⟨k, "type".toList ++ [':']⟩ :: more)).toOption =
      none := by
  rw [fields_line type_named, if_pos rfl]
  split
  case isTrue => rfl
  case isFalse => rw [to_option_bind, field_value_none, Option.bind_none]

theorem child_round :
    (parseYamlNodeFields (fuel + 1) k any node (⟨k, "child".toList ++ [':']⟩ :: more)).toOption =
      (parseYamlNodeFields fuel (k + 2) false {} more).toOption.bind fun read =>
        (parseYamlNodeFields fuel k true ⟨node.type, node.children ++ [read.1]⟩ read.2).toOption := by
  rw [fields_line child_named, if_neg (by decide), if_pos ⟨rfl, rfl⟩, to_option_bind]

theorem children_round :
    (parseYamlNodeFields (fuel + 1) k any node
      (⟨k, "children".toList ++ [':']⟩ :: more)).toOption =
      (parseYamlNodeList fuel (k + 2) false node.children more).toOption.bind fun read =>
        (parseYamlNodeFields fuel k true ⟨node.type, read.1⟩ read.2).toOption := by
  rw [fields_line children_named, if_neg (by decide), if_neg (by decide), if_pos ⟨rfl, rfl⟩,
    to_option_bind]

/-- A scalar where a node or a list should be. -/
theorem scalar_refused {text : Text} (hmore : Below (k + 2) more)
    (hname : name = "child".toList ∨ name = "children".toList) :
    (parseYamlNodeFields (fuel + 1) k any node (⟨k, style.field name text⟩ :: more)).toOption =
      none := by
  unfold Style.field
  by_cases htail : style.scalar text = []
  · -- without a text the line opens a block, and no deeper line follows
    rw [if_pos htail]
    rcases hname with rfl | rfl
    · rw [child_round]
      cases fuel with
      | zero => rfl
      | succ fuel =>
        rw [fields_leave hmore]
        rfl
    · rw [children_round]
      cases fuel with
      | zero => rfl
      | succ fuel =>
        rw [list_leaves hmore]
        rfl
  · rw [if_neg htail]
    rcases hname with rfl | rfl
    · rw [fields_line child_named, if_neg (by decide), if_neg (by simp),
        if_neg (fun h => absurd h.2 (by simp)), to_option_fail]
    · rw [fields_line children_named, if_neg (by decide),
        if_neg (fun h => absurd h.2 (by simp)), if_neg (by simp), to_option_fail]

/-- One round of the loop over fields, whatever stands under the field. -/
theorem field_round (hname : fieldName name = true) (hfit : entry.fits style = true)
    (hread : EntryRead style entry) (hnode : name = "type".toList → node.type = "")
    (hmore : Below (k + 1) more) (hfuel : (entry.yaml style k name ++ more).length < fuel + 1) :
    (parseYamlNodeFields (fuel + 1) k any node (entry.yaml style k name ++ more)).toOption =
      if fieldRefused name entry then none
      else (parseYamlNodeFields fuel k true (withField node name entry) more).toOption := by
  have hdeep : Below (k + 2) more := hmore.mono (by omega)
  rcases name_cases name with rfl | rfl | rfl | hunknown
  · cases entry with
    | name text =>
      have hrefused : fieldRefused "type".toList (.name text) = decide (text = []) := by
        simp [fieldRefused, illShaped, unknownField, Entry.anyNode, emptyList]
      simp only [Entry.yaml, List.singleton_append]
      rw [type_round hfit (hnode rfl), hrefused]
      simp [withField, typeOf, Entry.trees, hnode rfl]
    | node fields =>
      rw [Entry.yaml, List.cons_append, type_refused, if_pos (by simp [fieldRefused, illShaped])]
    | nodes list =>
      rw [Entry.yaml, List.cons_append, type_refused, if_pos (by simp [fieldRefused, illShaped])]
  · cases entry with
    | name text =>
      rw [Entry.yaml, List.singleton_append, scalar_refused hdeep (.inl rfl),
        if_pos (by simp [fieldRefused, illShaped])]
    | node fields =>
      simp only [Entry.fits, Bool.and_eq_true, decide_eq_true_eq] at hfit
      simp only [Entry.yaml, List.cons_append, List.length_cons] at hfuel
      have hinner := hread hfit.1 hfit.2 fuel (k + 2) false {} more (fun _ => rfl) hdeep (by omega)
      have hrefused : fieldRefused "child".toList (.node fields) =
          (fields.isEmpty || fields.any (fun f => fieldRefused f.1 f.2)) := by
        rw [← any_node_refused]
        simp [fieldRefused, illShaped, unknownField, Entry.anyNode, anyNode]
      rw [Entry.yaml, List.cons_append, child_round, hinner, hrefused]
      simp only [Bool.not_false, Bool.and_true]
      split
      case isTrue => rfl
      case isFalse => simp [withField, typeOf, Entry.trees]
    | nodes list =>
      rw [Entry.yaml, List.cons_append, child_round, fields_on_list list hdeep, Option.bind_none,
        if_pos (by simp [fieldRefused, illShaped])]
  · cases entry with
    | name text =>
      rw [Entry.yaml, List.singleton_append, scalar_refused hdeep (.inr rfl),
        if_pos (by simp [fieldRefused, illShaped])]
    | node fields =>
      simp only [Entry.fits, Bool.and_eq_true] at hfit
      rw [Entry.yaml, List.cons_append, children_round, list_on_fields hfit.1 hdeep,
        Option.bind_none, if_pos (by simp [fieldRefused, illShaped])]
    | nodes list =>
      simp only [Entry.yaml, List.cons_append, List.length_cons] at hfuel
      have hinner := hread hfit fuel (k + 2) false node.children more hdeep (by omega)
      have hrefused : fieldRefused "children".toList (.nodes list) =
          (list.isEmpty || anyOf yamlRefuses list) := by
        cases list with
        | nil => rfl
        | cons fields list =>
          simp [fieldRefused, illShaped, unknownField, Entry.anyNode, emptyList]
      rw [Entry.yaml, List.cons_append, children_round, hinner, hrefused]
      simp only [Bool.not_false, Bool.and_true]
      split
      case isTrue => rfl
      case isFalse => simp [withField, typeOf, Entry.trees]
  · obtain ⟨tail, lines, heq⟩ := entry_lines style k name entry
    rw [heq, List.cons_append, unknown_refused hname hunknown,
      if_pos (by simp [fieldRefused, hunknown])]

end Rounds

theorem type_absent {fields : NodeFields} (h : "type".toList ∉ fields.map Prod.fst) :
    typeOf fields = "" := by
  induction fields with
  | nil => rfl
  | cons f fields ih =>
    obtain ⟨name, entry⟩ := f
    simp only [List.map_cons, List.mem_cons, not_or] at h
    cases entry with
    | name text => rw [typeOf, if_neg (fun heq => h.1 heq.symm), ih h.2]
    | node => exact ih h.2
    | nodes => exact ih h.2

/-- The type stands in the first field or after it. -/
theorem type_first {fields : NodeFields} (h : ((name, entry) :: fields).map Prod.fst |>.Nodup) :
    typeOf ((name, entry) :: fields) = typeOf [(name, entry)] ++ typeOf fields := by
  simp only [List.map_cons, List.nodup_cons] at h
  cases entry with
  | name text =>
    by_cases hname : name = "type".toList
    · subst hname
      rw [typeOf, if_pos rfl, typeOf, if_pos rfl, type_absent h.1, String.append_empty]
    · rw [typeOf, if_neg hname, typeOf, if_neg hname]
      simp [typeOf]
  | node => simp [typeOf]
  | nodes => simp [typeOf]

theorem fields_read {fields : NodeFields} (hall : ∀ f ∈ fields, EntryRead style f.2) :
    FieldsRead style fields := by
  induction fields with
  | nil =>
    intro _ _ fuel k any node more _ hmore hfuel
    obtain ⟨fuel, rfl⟩ := Nat.exists_eq_succ_of_ne_zero (Nat.ne_of_gt (Nat.zero_lt_of_lt hfuel))
    rw [fieldsYaml, List.nil_append, fields_leave hmore]
    cases any with
    | true =>
      cases node
      simp [typeOf, treesBelow]
    | false => rfl
  | cons f fields ih =>
    obtain ⟨name, entry⟩ := f
    intro hfit hnames fuel k any node more hnode hmore hfuel
    obtain ⟨fuel, rfl⟩ := Nat.exists_eq_succ_of_ne_zero (Nat.ne_of_gt (Nat.zero_lt_of_lt hfuel))
    simp only [fieldsFit, Bool.and_eq_true] at hfit
    have hparts := List.nodup_cons.mp hnames
    rw [fieldsYaml, List.append_assoc] at hfuel ⊢
    have hlater := fields_below style fields hmore
    have htyped : "type".toList ∈ fields.map Prod.fst → (withField node name entry).type = "" := by
      intro hmem
      have hname : "type".toList ∉ [(name, entry)].map Prod.fst := by
        intro hname
        rw [List.map_singleton, List.mem_singleton] at hname
        exact hparts.1 (hname ▸ hmem)
      rw [withField, hnode (List.mem_cons_of_mem _ hmem), type_absent hname]
      rfl
    have hlines : 0 < (entry.yaml style k name).length := by
      obtain ⟨tail, lines, heq⟩ := entry_lines style k name entry
      simp [heq]
    have hrest := ih (fun f hf => hall f (List.mem_cons_of_mem _ hf)) hfit.2 hparts.2 fuel k true
      (withField node name entry) more htyped hmore (by
        simp only [List.length_append] at hfuel ⊢
        omega)
    rw [field_round hfit.1.1 hfit.1.2 (hall (name, entry) (by simp))
      (fun hname => hnode (List.mem_cons.mpr (.inl hname.symm))) hlater hfuel, hrest]
    simp only [List.isEmpty_cons, Bool.false_and, Bool.false_or, List.any_cons, Bool.not_true,
      Bool.and_false]
    cases fieldRefused name entry with
    | true => rfl
    | false =>
      simp only [Bool.false_eq_true, if_false, Bool.false_or]
      rw [type_first hnames]
      simp [withField, treesBelow, String.append_assoc]

/-- One round of the loop over list items. -/
theorem list_line {children : List TreeNodeDefinition} :
    parseYamlNodeList (fuel + 1) k any children (⟨k, '-' :: tail⟩ :: more) = (do
      let type ← itemType (trim tail)
      if trim tail = [] ∨ goesDeeper k more then
        let (child, rest) ← parseYamlNodeFields fuel (k + 2) false { type } more
        parseYamlNodeList fuel k true (children ++ [child]) rest
      else parseYamlNodeList fuel k true (children ++ [⟨type, []⟩]) more) := by
  have hdash : startsWith ('-' :: tail) "-" = true := by simp [startsWith]
  simp [parseYamlNodeList, hdash]

theorem goes_deeper_none (h : Below (k + 1) more) : goesDeeper k more = false := by
  cases more with
  | nil => rfl
  | cons line more =>
    have hline := h line rfl
    simp only [goesDeeper, List.head?_cons, Option.any_some, decide_eq_false_iff_not]
    omega

theorem goes_deeper_fields {f : Text × Entry} (fields : NodeFields) :
    goesDeeper k (fieldsYaml style (k + 2) (f :: fields) ++ more) = true := by
  obtain ⟨tail, lines, heq⟩ := entry_lines style (k + 2) f.1 f.2
  simp [fieldsYaml, heq, goesDeeper]

theorem field_bare {text : Text} (htext : style.typeName text = true) :
    Bare (style.field "type".toList text) := by
  unfold Style.field
  have hname : Bare ("type".toList ++ [':']) := bare_between (by decide) (by decide) _
  split
  case isTrue => exact hname
  case isFalse hne =>
    have hscalar := scalar_bare htext
    refine ⟨fun c hc => hname.1 c hc, fun c hc => hscalar.2 c ?_⟩
    rw [← hc, show "type".toList ++ ':' :: ' ' :: style.scalar text =
      ("type".toList ++ [':', ' ']) ++ style.scalar text from rfl,
      List.getLast?_append_of_ne_nil _ hne]

theorem item_type {text : Text} (htext : style.typeName text = true) :
    (itemType (style.field "type".toList text)).toOption =
      if text = [] then none else some (String.ofList text) := by
  have hstarts : startsWith (style.field "type".toList text) "type:" = true :=
    (starts_type (by decide) _).mpr rfl
  rw [itemType, if_neg (by simp [Style.field]), if_pos hstarts, field_value htext]

/-- An item with its type on the line of the dash. -/
theorem inline_round {text : Text} {fields : NodeFields} {children : List TreeNodeDefinition}
    (htext : style.typeName text = true) (hfit : fieldsFit style fields = true)
    (hnames : (("type".toList, Entry.name text) :: fields).map Prod.fst |>.Nodup)
    (hread : FieldsRead style fields) (hmore : Below (k + 1) more)
    (hfuel : (fieldsYaml style (k + 2) fields ++ more).length < fuel) :
    (parseYamlNodeList (fuel + 1) k any children
      (⟨k, '-' :: ' ' :: style.field "type".toList text⟩ ::
        (fieldsYaml style (k + 2) fields ++ more))).toOption =
      if text = [] ∨ fields.any (fun f => fieldRefused f.1 f.2) = true then none
      else (parseYamlNodeList fuel k true
        (children ++ [⟨String.ofList text, treesBelow fields⟩]) more).toOption := by
  have hparts := List.nodup_cons.mp hnames
  rw [list_line, to_option_bind, trim_space, (field_bare htext).trim, item_type htext]
  by_cases hnil : text = []
  · rw [if_pos hnil, if_pos (.inl hnil), Option.bind_none]
  · rw [if_neg hnil, Option.bind_some]
    have hfield : style.field "type".toList text ≠ [] := by simp [Style.field]
    cases fields with
    | nil =>
      have hstays : ¬(style.field "type".toList text = [] ∨ false = true) := by
        rintro (h | h)
        · exact hfield h
        · cases h
      rw [fieldsYaml, List.nil_append, goes_deeper_none hmore, if_neg hstays,
        if_neg (by simp [hnil])]
      rfl
    | cons f fields =>
      have hinner := hread hfit hparts.2 fuel (k + 2) false ⟨String.ofList text, []⟩ more
        (fun hmem => absurd hmem hparts.1) (hmore.mono (by omega)) hfuel
      rw [if_pos (.inr (goes_deeper_fields fields)), to_option_bind, hinner,
        type_absent hparts.1, String.append_empty]
      simp only [List.isEmpty_cons, Bool.false_and, Bool.false_or, hnil, false_or]
      split
      case isTrue => rfl
      case isFalse => rfl

/-- An item whose fields all stand under the dash. -/
theorem dash_round {fields : NodeFields} {children : List TreeNodeDefinition}
    (hfit : fieldsFit style fields = true) (hnames : (fields.map Prod.fst).Nodup)
    (hread : FieldsRead style fields) (hmore : Below (k + 1) more)
    (hfuel : (fieldsYaml style (k + 2) fields ++ more).length < fuel) :
    (parseYamlNodeList (fuel + 1) k any children
      (⟨k, ['-']⟩ :: (fieldsYaml style (k + 2) fields ++ more))).toOption =
      if anyNode yamlRefuses fields then none
      else (parseYamlNodeList fuel k true (children ++ [treeOf fields]) more).toOption := by
  have hinner := hread hfit hnames fuel (k + 2) false {} more (fun _ => rfl)
    (hmore.mono (by omega)) hfuel
  rw [list_line, to_option_bind, show itemType (trim []) = .ok "" from rfl, to_option_ok,
    Option.bind_some, if_pos (.inl rfl), to_option_bind, hinner, any_node_refused]
  simp only [Bool.not_false, Bool.and_true]
  split
  case isTrue => rfl
  case isFalse => simp [treeOf]

theorem item_round {fields : NodeFields} {children : List TreeNodeDefinition}
    (hfit : fieldsFit style fields = true) (hnames : (fields.map Prod.fst).Nodup)
    (hall : ∀ f ∈ fields, EntryRead style f.2) (hmore : Below (k + 1) more)
    (hfuel : (style.item k fields (fieldsYaml style (k + 2) fields) ++ more).length < fuel + 1) :
    (parseYamlNodeList (fuel + 1) k any children
      (style.item k fields (fieldsYaml style (k + 2) fields) ++ more)).toOption =
      if anyNode yamlRefuses fields then none
      else (parseYamlNodeList fuel k true (children ++ [treeOf fields]) more).toOption := by
  have hread := fields_read hall
  by_cases hinline : style.inlines fields = true
  · obtain ⟨text, rest, rfl⟩ : ∃ text rest, fields = ("type".toList, .name text) :: rest := by
      unfold Style.inlines at hinline
      split at hinline
      case h_1 name text rest =>
        rw [Bool.and_eq_true, decide_eq_true_eq] at hinline
        exact ⟨text, rest, by rw [hinline.1]⟩
      case h_2 => cases hinline
    simp only [fieldsFit, Bool.and_eq_true] at hfit
    have hitem : style.item k (("type".toList, .name text) :: rest)
        (fieldsYaml style (k + 2) (("type".toList, .name text) :: rest)) =
        ⟨k, '-' :: ' ' :: style.field "type".toList text⟩ :: fieldsYaml style (k + 2) rest := by
      simp only [fieldsYaml, Entry.yaml, List.singleton_append, Style.item, hinline, if_true]
    rw [hitem] at hfuel ⊢
    have hrefused : fieldRefused "type".toList (.name text) = decide (text = []) := by
      simp [fieldRefused, illShaped, unknownField, Entry.anyNode, emptyList]
    have htype : treeOf (("type".toList, .name text) :: rest) =
        ⟨String.ofList text, treesBelow rest⟩ := by
      simp [treeOf, typeOf, treesBelow, Entry.trees]
    rw [List.cons_append, inline_round hfit.1.2 hfit.2 hnames
      (fields_read fun f hf => hall f (List.mem_cons_of_mem _ hf)) hmore
      (by simpa using hfuel), any_node_refused, htype]
    simp only [List.isEmpty_cons, List.any_cons, hrefused, Bool.false_or, Bool.or_eq_true,
      decide_eq_true_eq]
  · have hitem : style.item k fields (fieldsYaml style (k + 2) fields) =
        ⟨k, ['-']⟩ :: fieldsYaml style (k + 2) fields := by
      unfold Style.item
      split
      case h_1 hlines => rw [hlines]
      case h_2 first rest hlines => rw [if_neg hinline, hlines]
    rw [hitem] at hfuel ⊢
    rw [List.cons_append, dash_round hfit hnames hread hmore (by simpa using hfuel)]

theorem nodes_read {list : List NodeFields}
    (hall : ∀ fields ∈ list, ∀ f ∈ fields, EntryRead style f.2) : NodesRead style list := by
  induction list with
  | nil =>
    intro _ fuel k any children more hmore hfuel
    obtain ⟨fuel, rfl⟩ := Nat.exists_eq_succ_of_ne_zero (Nat.ne_of_gt (Nat.zero_lt_of_lt hfuel))
    rw [nodesYaml, List.nil_append, list_leaves hmore]
    cases any with
    | true => simp [treesOf, anyOf]
    | false => rfl
  | cons fields list ih =>
    intro hfit fuel k any children more hmore hfuel
    obtain ⟨fuel, rfl⟩ := Nat.exists_eq_succ_of_ne_zero (Nat.ne_of_gt (Nat.zero_lt_of_lt hfuel))
    simp only [nodesFit, Bool.and_eq_true, decide_eq_true_eq] at hfit
    rw [nodesYaml, List.append_assoc] at hfuel ⊢
    have hlater := nodes_below style list hmore
    have hlines : 0 < (style.item k fields (fieldsYaml style (k + 2) fields)).length := by
      obtain ⟨tail, rest, heq⟩ := item_lines style k fields (fieldsYaml style (k + 2) fields)
      simp [heq]
    have hrest := ih (fun fields hfields => hall fields (List.mem_cons_of_mem _ hfields)) hfit.2
      fuel k true (children ++ [treeOf fields]) more hmore (by
        simp only [List.length_append] at hfuel ⊢
        omega)
    rw [item_round hfit.1.1 hfit.1.2 (hall fields (by simp)) hlater hfuel, hrest]
    simp only [List.isEmpty_cons, Bool.false_and, Bool.false_or, Bool.not_true, Bool.and_false,
      anyOf, anyNode]
    cases yamlRefuses fields || anyBelow yamlRefuses fields with
    | true => rfl
    | false => simp [treesOf, treeOf]

theorem entry_read (style : Style) (entry : Entry) : EntryRead style entry := by
  induction entry using Entry.induct with
  | name text => trivial
  | node fields hall => exact fields_read hall
  | nodes list hall => exact nodes_read hall

end Reading

section Lines
variable {style : Style} {name text : Text}

/-- A line whose text is read as it stands. -/
structure Tidy (l : YamlLine) : Prop where
  nonempty : l.text ≠ []
  bare : Bare l.text
  plain : ∀ c ∈ l.text, c ≠ '#' ∧ c ≠ '\n'

theorem line_read {l : YamlLine} (h : Tidy l) : lineFromYaml l.raw = .ok (some l) := by
  obtain ⟨indent, text⟩ := l
  obtain ⟨c, tail, rfl⟩ := List.exists_cons_of_ne_nil h.nonempty
  have hc : isSpace c = false := h.bare.1 c rfl
  have hspace : c ≠ ' ' := by
    rintro rfl
    cases hc
  have htab : c ≠ '\t' := by
    rintro rfl
    cases hc
  have htake : ((YamlLine.raw ⟨indent, c :: tail⟩).takeWhile (· = ' ')).length = indent := by
    rw [YamlLine.raw, List.takeWhile_append_of_pos (by simp)]
    simp [hspace]
  have hdrop : (YamlLine.raw ⟨indent, c :: tail⟩).drop indent = c :: tail := by
    simp [YamlLine.raw]
  have hcomment : '#' ∉ c :: tail := fun hmem => (h.plain '#' hmem).1 rfl
  simp only [lineFromYaml, htake, hdrop, List.head?_cons, Option.some.injEq, htab, if_false,
    h.bare.trim, hcomment]
  simp

theorem lines_read {lines : List YamlLine} (h : ∀ l ∈ lines, Tidy l) (hne : lines ≠ []) :
    linesFromYaml (['\n'].intercalate (lines.map YamlLine.raw)) = .ok lines := by
  have hsplit : (['\n'].intercalate (lines.map YamlLine.raw)).splitOn '\n' =
      lines.map YamlLine.raw := by
    apply List.splitOn_intercalate
    · intro raw hraw hmem
      obtain ⟨l, hl, rfl⟩ := List.mem_map.mp hraw
      rcases List.mem_append.mp hmem with hmem | hmem
      · cases (List.mem_replicate.mp hmem).2
      · exact ((h l hl).plain _ hmem).2 rfl
    · simpa using hne
  have hmap : (lines.map YamlLine.raw).mapM lineFromYaml = .ok (lines.map some) := by
    clear hsplit hne
    induction lines with
    | nil => rfl
    | cons l lines ih =>
      rw [List.map_cons, List.mapM_cons, line_read (h l (by simp)),
        ih (fun l hl => h l (List.mem_cons_of_mem _ hl))]
      rfl
  rw [linesFromYaml, hsplit, hmap, ok_bind, List.flatMap_map]
  simp

theorem name_char {c : Char} (h : nameChar c = true) : c ≠ '#' ∧ c ≠ '\n' := by
  simp only [nameChar, Bool.and_eq_true, decide_eq_true_eq] at h
  refine ⟨h.2, ?_⟩
  rintro rfl
  exact absurd h.1.1.1.1 (by decide)

theorem scalar_plain (h : style.typeName text = true) :
    ∀ c ∈ style.scalar text, c ≠ '#' ∧ c ≠ '\n' := by
  simp only [Style.typeName, Bool.and_eq_true, List.all_eq_true] at h
  intro c hc
  unfold Style.scalar at hc
  split at hc
  case isTrue =>
    simp only [List.mem_cons, List.mem_append, List.not_mem_nil, or_false] at hc
    rcases hc with rfl | hc | rfl
    · decide
    · exact name_char (h.1 c hc)
    · decide
  case isFalse => exact name_char (h.1 c hc)

/-- A line that begins with the name of a field. -/
theorem named_tidy (hname : fieldName name = true) {tail : Text} (htail : Bare (':' :: tail))
    (hplain : ∀ c ∈ tail, c ≠ '#' ∧ c ≠ '\n') (k : Nat) : Tidy ⟨k, name ++ ':' :: tail⟩ := by
  simp only [fieldName, Bool.and_eq_true, List.all_eq_true, decide_eq_true_eq] at hname
  refine ⟨by simp, (bare_iff.mpr hname.1.1.2).append htail, ?_⟩
  intro c hc
  rcases List.mem_append.mp hc with hc | hc
  · exact name_char (hname.1.1.1 c hc)
  · rcases List.mem_cons.mp hc with rfl | hc
    · decide
    · exact hplain c hc

theorem field_tidy (hname : fieldName name = true) (htext : style.typeName text = true) (k : Nat) :
    Tidy ⟨k, style.field name text⟩ := by
  apply named_tidy hname
  · split
    case isTrue => exact bare_iff.mpr (by decide)
    case isFalse hne =>
      refine ⟨fun c hc => ?_, fun c hc => (scalar_bare htext).2 c ?_⟩
      · cases hc
        decide
      · rw [← hc, show ':' :: ' ' :: style.scalar text = [':', ' '] ++ style.scalar text from rfl,
          List.getLast?_append_of_ne_nil _ hne]
  · intro c hc
    split at hc
    case isTrue => cases hc
    case isFalse =>
      rcases List.mem_cons.mp hc with rfl | hc
      · decide
      · exact scalar_plain htext c hc

theorem block_tidy (hname : fieldName name = true) (k : Nat) : Tidy ⟨k, name ++ [':']⟩ :=
  named_tidy hname (bare_iff.mpr (by decide)) (fun c hc => by cases hc) k

theorem item_tidy {fields : NodeFields} {lines : List YamlLine} (h : ∀ l ∈ lines, Tidy l)
    (k : Nat) : ∀ l ∈ style.item k fields lines, Tidy l := by
  have hdash : Tidy ⟨k, ['-']⟩ :=
    ⟨by simp, bare_iff.mpr (show trim ['-'] = ['-'] by decide), fun c hc => by
      obtain rfl := List.mem_singleton.mp hc
      decide⟩
  intro l hl
  unfold Style.item at hl
  split at hl
  case h_1 =>
    obtain rfl := List.mem_singleton.mp hl
    exact hdash
  case h_2 first rest =>
    split at hl
    case isTrue =>
      rcases List.mem_cons.mp hl with rfl | hl
      · obtain ⟨hne, hbare, hplain⟩ := h first (by simp)
        refine ⟨by simp, ⟨fun c hc => ?_, fun c hc => hbare.2 c ?_⟩, ?_⟩
        · cases hc
          decide
        · rw [← hc, show '-' :: ' ' :: first.text = ['-', ' '] ++ first.text from rfl,
            List.getLast?_append_of_ne_nil _ hne]
        · intro c hc
          rcases List.mem_cons.mp hc with rfl | hc
          · decide
          · rcases List.mem_cons.mp hc with rfl | hc
            · decide
            · exact hplain c hc
      · exact h l (List.mem_cons_of_mem _ hl)
    case isFalse =>
      rcases List.mem_cons.mp hl with rfl | hl
      · exact hdash
      · exact h l hl

def EntryTidy (style : Style) (entry : Entry) : Prop :=
  ∀ k name, fieldName name = true → entry.fits style = true → ∀ l ∈ entry.yaml style k name, Tidy l

theorem fields_tidy {fields : NodeFields} (hall : ∀ f ∈ fields, EntryTidy style f.2)
    (hfit : fieldsFit style fields = true) (k : Nat) : ∀ l ∈ fieldsYaml style k fields, Tidy l := by
  induction fields with
  | nil =>
    intro l hl
    cases hl
  | cons f fields ih =>
    simp only [fieldsFit, Bool.and_eq_true] at hfit
    intro l hl
    rcases List.mem_append.mp hl with hl | hl
    · exact hall f (by simp) k f.1 hfit.1.1 hfit.1.2 l hl
    · exact ih (fun f hf => hall f (List.mem_cons_of_mem _ hf)) hfit.2 l hl

theorem nodes_tidy {list : List NodeFields}
    (hall : ∀ fields ∈ list, ∀ f ∈ fields, EntryTidy style f.2)
    (hfit : nodesFit style list = true) (k : Nat) : ∀ l ∈ nodesYaml style k list, Tidy l := by
  induction list with
  | nil =>
    intro l hl
    cases hl
  | cons fields list ih =>
    simp only [nodesFit, Bool.and_eq_true] at hfit
    intro l hl
    rw [nodesYaml] at hl
    rcases List.mem_append.mp hl with hl | hl
    · exact item_tidy (fields_tidy (hall fields (by simp)) hfit.1.1 (k + 2)) k l hl
    · exact ih (fun fields hf => hall fields (List.mem_cons_of_mem _ hf)) hfit.2 l hl

theorem entry_tidy (style : Style) (entry : Entry) : EntryTidy style entry := by
  induction entry using Entry.induct with
  | name text =>
    intro k name hname htext l hl
    obtain rfl := List.mem_singleton.mp hl
    exact field_tidy hname htext k
  | node fields hall =>
    intro k name hname hfit l hl
    simp only [Entry.fits, Bool.and_eq_true] at hfit
    rcases List.mem_cons.mp hl with rfl | hl
    · exact block_tidy hname k
    · exact fields_tidy hall hfit.1 (k + 2) l hl
  | nodes list hall =>
    intro k name hname hfit l hl
    rcases List.mem_cons.mp hl with rfl | hl
    · exact block_tidy hname k
    · exact nodes_tidy hall hfit (k + 2) l hl

end Lines

/-- The reader of YAML gives the tree of the document, or refuses one of its nodes. -/
theorem yaml_document {style : Style} {root : NodeFields} (hfit : (Entry.node root).fits style = true) :
    (documentFromYaml (documentYaml style root)).toOption =
      if anyNode yamlRefuses root then none else some ⟨treeOf root⟩ := by
  simp only [Entry.fits, Bool.and_eq_true, decide_eq_true_eq] at hfit
  have htidy : ∀ l ∈ (⟨0, "root:".toList⟩ :: fieldsYaml style 2 root : List YamlLine), Tidy l := by
    intro l hl
    rcases List.mem_cons.mp hl with rfl | hl
    · exact block_tidy (show fieldName "root".toList = true by decide) 0
    · exact fields_tidy (fun f _ => entry_tidy style f.2) hfit.1 2 l hl
  have hread := fields_read (fun f _ => entry_read style f.2) hfit.1 hfit.2
    ((fieldsYaml style 2 root).length + 1) 2 false {} [] (fun _ => rfl)
    (fun l hl => by cases hl) (by simp)
  rw [List.append_nil] at hread
  rw [documentFromYaml, documentYaml, lines_read htidy (by simp), ok_bind]
  simp only [ne_eq, not_true_eq_false, or_self, if_false]
  rw [to_option_bind, hread, any_node_refused]
  simp only [Bool.not_false, Bool.and_true]
  split
  case isTrue => rfl
  case isFalse => simp [treeOf]

end HumanoidCore.BehaviorTrees
