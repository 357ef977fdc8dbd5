import HumanoidCore.Proofs.TreeYaml

namespace HumanoidCore.BehaviorTrees
open Documents

section Renderings

def typeField (type : String) : Text := "type: ".toList ++ type.toList

mutual
/-- The lines of a node `k` columns in, its type before or after its children. -/
inductive NodeLines : Nat → TreeNodeDefinition → List YamlLine → Prop where
  | leaf (k : Nat) (type : String) : NodeLines k ⟨type, []⟩ [⟨k, typeField type⟩]
  | typeFirst {k : Nat} {children : List TreeNodeDefinition} {lines : List YamlLine} (type : String)
      (h : ChildrenLines k children lines) :
      NodeLines k ⟨type, children⟩ (⟨k, typeField type⟩ :: lines)
  | typeLast {k : Nat} {children : List TreeNodeDefinition} {lines : List YamlLine} (type : String)
      (h : ChildrenLines k children lines) :
      NodeLines k ⟨type, children⟩ (lines ++ [⟨k, typeField type⟩])

/-- Children stand in a list; an only child may also stand under `child`. -/
inductive ChildrenLines : Nat → List TreeNodeDefinition → List YamlLine → Prop where
  | child {k : Nat} {node : TreeNodeDefinition} {lines : List YamlLine}
      (h : NodeLines (k + 2) node lines) :
      ChildrenLines k [node] (⟨k, "child:".toList⟩ :: lines)
  | children {k : Nat} {nodes : List TreeNodeDefinition} {lines : List YamlLine}
      (h : ItemsLines (k + 2) nodes lines) :
      ChildrenLines k nodes (⟨k, "children:".toList⟩ :: lines)

inductive ItemsLines : Nat → List TreeNodeDefinition → List YamlLine → Prop where
  | last {k : Nat} {node : TreeNodeDefinition} {lines : List YamlLine}
      (h : ItemLines k node lines) : ItemsLines k [node] lines
  | more {k : Nat} {node : TreeNodeDefinition} {nodes : List TreeNodeDefinition}
      {lines rest : List YamlLine} (h : ItemLines k node lines) (tail : ItemsLines k nodes rest) :
      ItemsLines k (node :: nodes) (lines ++ rest)

/-- An item has its type on the line of the dash, or all its fields below it. -/
inductive ItemLines : Nat → TreeNodeDefinition → List YamlLine → Prop where
  | bare {k : Nat} {node : TreeNodeDefinition} {lines : List YamlLine}
      (h : NodeLines (k + 2) node lines) : ItemLines k node (⟨k, ['-']⟩ :: lines)
  | leaf (k : Nat) (type : String) : ItemLines k ⟨type, []⟩ [⟨k, '-' :: ' ' :: typeField type⟩]
  | inline {k : Nat} {children : List TreeNodeDefinition} {lines : List YamlLine} (type : String)
      (h : ChildrenLines (k + 2) children lines) :
      ItemLines k ⟨type, children⟩ (⟨k, '-' :: ' ' :: typeField type⟩ :: lines)
end

/-- A document in the two-space form, with or without a line end after its last line. -/
structure Rendering (document : TreeDocument) (text : Text) : Prop where
  lines : ∃ lines ending, NodeLines 2 document.root lines ∧ (ending = [] ∨ ending = ['\n']) ∧
    text = ['\n'].intercalate ((⟨0, "root:".toList⟩ :: lines).map YamlLine.raw) ++ ending

/-- A type name that a rendering can hold as it is. -/
structure PlainType (type : String) : Prop where
  nonempty : type ≠ ""
  trimmed : trim type.toList = type.toList
  plain : ∀ c ∈ type.toList, c ≠ '\n' ∧ c ≠ '#' ∧ c ≠ '"' ∧ c ≠ '\''

mutual
def TreeNodeDefinition.types : TreeNodeDefinition → List String
  | ⟨type, children⟩ => type :: typesOf children

def typesOf : List TreeNodeDefinition → List String
  | [] => []
  | node :: nodes => node.types ++ typesOf nodes
end

end Renderings

section Reading
variable {type : String} {k : Nat} {any : Bool} {node : TreeNodeDefinition} {fuel : Nat}
  {lines more : List YamlLine} {nodes children : List TreeNodeDefinition}

theorem type_field (type : String) : typeField type = "type: ".toList ++ type.toList := rfl

theorem type_value (h : PlainType type) : fieldValue (typeField type) "type:" = .ok type := by
  have hbare : Bare type.toList := bare_iff.mpr h.trimmed
  have htext : trim ((typeField type).drop "type:".toList.length) = type.toList := by
    show trim (' ' :: type.toList) = type.toList
    rw [trim_space, hbare.trim]
  have hscalar : unquoteScalar type.toList = type.toList := by
    apply if_neg
    rintro ⟨-, ⟨hhead, -⟩ | ⟨hhead, -⟩⟩
    · exact (h.plain _ (List.mem_of_mem_head? hhead)).2.2.1 rfl
    · exact (h.plain _ (List.mem_of_mem_head? hhead)).2.2.2 rfl
  have hne : type.toList ≠ [] := by
    rw [ne_eq, String.toList_eq_nil_iff]
    exact h.nonempty
  rw [fieldValue, htext]
  simp only [hscalar, if_neg hne, String.ofList_toList]

theorem type_read (h : PlainType type) (hnode : node.type = "") :
    parseYamlNodeFields (fuel + 1) k any node (⟨k, typeField type⟩ :: more) =
      parseYamlNodeFields fuel k true { node with type } more := by
  have hdash : startsWith (typeField type) "-" = false := rfl
  have htype : startsWith (typeField type) "type:" = true := rfl
  simp only [parseYamlNodeFields, Nat.lt_irrefl, if_false, hdash, htype, if_true, hnode, ne_eq,
    not_true_eq_false, type_value h, ok_bind, Bool.false_eq_true]

theorem type_trimmed (h : PlainType type) : trim (' ' :: typeField type) = typeField type := by
  have hne : type.toList ≠ [] := by
    rw [ne_eq, String.toList_eq_nil_iff]
    exact h.nonempty
  have hbare : Bare (typeField type) := by
    refine ⟨fun c hc => ?_, fun c hc => (bare_iff.mpr h.trimmed).2 c ?_⟩
    · cases hc
      rfl
    · rwa [type_field, List.getLast?_append_of_ne_nil _ hne] at hc
  rw [trim_space, hbare.trim]

theorem type_item (h : PlainType type) : itemType (trim (' ' :: typeField type)) = .ok type := by
  have hstart : startsWith (typeField type) "type:" = true := rfl
  rw [type_trimmed h, itemType, if_neg (by simp [type_field]), if_pos hstart, type_value h]

theorem child_step :
    parseYamlNodeFields (fuel + 1) k any node (⟨k, "child:".toList⟩ :: more) = (do
      let (child, rest) ← parseYamlNodeFields fuel (k + 2) false {} more
      parseYamlNodeFields fuel k true { node with children := node.children ++ [child] } rest) := by
  rw [show "child:".toList = "child".toList ++ ':' :: [] from rfl, fields_line child_named,
    if_neg (by decide), if_pos ⟨rfl, rfl⟩]

theorem children_step :
    parseYamlNodeFields (fuel + 1) k any node (⟨k, "children:".toList⟩ :: more) = (do
      let (children, rest) ← parseYamlNodeList fuel (k + 2) false node.children more
      parseYamlNodeFields fuel k true { node with children } rest) := by
  rw [show "children:".toList = "children".toList ++ ':' :: [] from rfl,
    fields_line children_named, if_neg (by decide), if_neg (by decide), if_pos ⟨rfl, rfl⟩]

theorem children_start (h : ChildrenLines k children lines) :
    ∃ text rest, lines = ⟨k, text⟩ :: rest := by
  cases h with
  | child => exact ⟨_, _, rfl⟩
  | children => exact ⟨_, _, rfl⟩

theorem item_start (h : ItemLines k node lines) : ∃ text rest, lines = ⟨k, text⟩ :: rest := by
  cases h with
  | bare => exact ⟨_, _, rfl⟩
  | leaf => exact ⟨_, _, rfl⟩
  | inline => exact ⟨_, _, rfl⟩

theorem items_start (h : ItemsLines k nodes lines) : ∃ text rest, lines = ⟨k, text⟩ :: rest := by
  cases h with
  | last h => exact item_start h
  | more h =>
    obtain ⟨text, rest, rfl⟩ := item_start h
    exact ⟨_, _, rfl⟩

/-- A line at `k` ends what is deeper. -/
theorem line_below (text : Text) (more : List YamlLine) : Below (k + 1) (⟨k, text⟩ :: more) := by
  intro l hl
  cases hl
  exact Nat.lt_succ_self k

theorem items_below (h : ItemsLines k nodes lines) (more : List YamlLine) :
    Below (k + 1) (lines ++ more) := by
  obtain ⟨text, rest, rfl⟩ := items_start h
  exact line_below text (rest ++ more)

theorem children_deeper (h : ChildrenLines (k + 2) children lines) (more : List YamlLine) :
    goesDeeper k (lines ++ more) = true := by
  obtain ⟨text, rest, rfl⟩ := children_start h
  exact decide_eq_true (Nat.lt_add_of_pos_right (Nat.zero_lt_succ 1))

def AllPlain (types : List String) : Prop := ∀ type ∈ types, PlainType type

theorem AllPlain.parts (h : AllPlain (TreeNodeDefinition.types ⟨type, children⟩)) :
    PlainType type ∧ AllPlain (typesOf children) := by
  rw [TreeNodeDefinition.types] at h
  exact ⟨h type (by simp), fun t ht => h t (List.mem_cons_of_mem _ ht)⟩

theorem AllPlain.cons (h : AllPlain (typesOf (node :: nodes))) :
    AllPlain node.types ∧ AllPlain (typesOf nodes) := by
  rw [typesOf] at h
  exact ⟨fun t ht => h t (List.mem_append_left _ ht), fun t ht => h t (List.mem_append_right _ ht)⟩

mutual
theorem node_read : ∀ {k : Nat} {node : TreeNodeDefinition} {lines : List YamlLine},
    NodeLines k node lines → AllPlain node.types → ∀ {fuel : Nat} {more : List YamlLine},
      Below k more → (lines ++ more).length < fuel →
      parseYamlNodeFields fuel k false {} (lines ++ more) = .ok (node, more)
  | _, _, _, .leaf k type, htypes, fuel, more, hmore, hfuel => by
    obtain ⟨fuel, rfl⟩ : ∃ n, fuel = n + 2 := ⟨fuel - 2, by simp at hfuel; omega⟩
    rw [List.singleton_append, type_read htypes.parts.1 rfl, fields_leave hmore]
    rfl
  | _, _, _, .typeFirst (k := k) type h, htypes, fuel, more, hmore, hfuel => by
    obtain ⟨text, rest, hstart⟩ := children_start h
    rw [List.cons_append, List.length_cons] at hfuel
    obtain ⟨fuel, rfl⟩ : ∃ n, fuel = n + 3 := ⟨fuel - 3, by
      rw [hstart] at hfuel
      simp only [List.cons_append, List.length_cons] at hfuel
      omega⟩
    rw [List.cons_append, type_read htypes.parts.1 rfl,
      children_read h htypes.parts.2 (hmore.mono (by omega)) (by omega), fields_leave hmore]
    rfl
  | _, _, _, .typeLast (k := k) type h, htypes, fuel, more, hmore, hfuel => by
    obtain ⟨text, rest, hstart⟩ := children_start h
    rw [List.append_assoc, List.singleton_append] at hfuel ⊢
    obtain ⟨fuel, rfl⟩ : ∃ n, fuel = n + 3 := ⟨fuel - 3, by
      rw [hstart] at hfuel
      simp only [List.cons_append, List.length_cons, List.length_append] at hfuel
      omega⟩
    rw [children_read h htypes.parts.2 (line_below _ _) (by omega),
      type_read htypes.parts.1 rfl, fields_leave hmore]
    rfl

theorem children_read : ∀ {k : Nat} {children : List TreeNodeDefinition} {lines : List YamlLine},
    ChildrenLines k children lines → AllPlain (typesOf children) →
      ∀ {fuel : Nat} {any : Bool} {type : String} {more : List YamlLine},
      Below (k + 1) more → (lines ++ more).length < fuel + 1 →
      parseYamlNodeFields (fuel + 1) k any ⟨type, []⟩ (lines ++ more) =
        parseYamlNodeFields fuel k true ⟨type, children⟩ more
  | _, _, _, .child h, htypes, fuel, any, type, more, hmore, hfuel => by
    rw [List.cons_append, List.length_cons] at hfuel
    rw [List.cons_append, child_step,
      node_read h htypes.cons.1 (hmore.mono (by omega)) (by omega), ok_bind]
    rfl
  | _, _, _, .children h, htypes, fuel, any, type, more, hmore, hfuel => by
    rw [List.cons_append, List.length_cons] at hfuel
    rw [List.cons_append, children_step,
      items_read h htypes (hmore.mono (by omega)) (by omega), ok_bind]
    rfl

theorem items_read : ∀ {k : Nat} {nodes : List TreeNodeDefinition} {lines : List YamlLine},
    ItemsLines k nodes lines → AllPlain (typesOf nodes) →
      ∀ {fuel : Nat} {any : Bool} {children : List TreeNodeDefinition} {more : List YamlLine},
      Below k more → (lines ++ more).length < fuel →
      parseYamlNodeList fuel k any children (lines ++ more) = .ok (children ++ nodes, more)
  | _, _, _, .last h, htypes, fuel, any, children, more, hmore, hfuel => by
    obtain ⟨text, rest, hstart⟩ := item_start h
    obtain ⟨fuel, rfl⟩ : ∃ n, fuel = n + 2 := ⟨fuel - 2, by
      rw [hstart] at hfuel
      simp only [List.cons_append, List.length_cons] at hfuel
      omega⟩
    rw [item_read h htypes.cons.1 (hmore.mono (by omega)) hfuel, list_leaves hmore]
    rfl
  | _, _, _, .more h htail, htypes, fuel, any, children, more, hmore, hfuel => by
    obtain ⟨text, rest, hstart⟩ := item_start h
    rw [List.append_assoc] at hfuel ⊢
    obtain ⟨fuel, rfl⟩ : ∃ n, fuel = n + 1 := ⟨fuel - 1, by omega⟩
    rw [item_read h htypes.cons.1 (items_below htail more) hfuel, items_read htail htypes.cons.2 hmore
      (by
        rw [hstart] at hfuel
        simp only [List.cons_append, List.length_cons, List.length_append] at hfuel ⊢
        omega), List.append_assoc]
    rfl

theorem item_read : ∀ {k : Nat} {node : TreeNodeDefinition} {lines : List YamlLine},
    ItemLines k node lines → AllPlain node.types →
      ∀ {fuel : Nat} {any : Bool} {children : List TreeNodeDefinition} {more : List YamlLine},
      Below (k + 1) more → (lines ++ more).length < fuel + 1 →
      parseYamlNodeList (fuel + 1) k any children (lines ++ more) =
        parseYamlNodeList fuel k true (children ++ [node]) more
  | _, _, _, .bare h, htypes, fuel, any, children, more, hmore, hfuel => by
    rw [List.cons_append, List.length_cons] at hfuel
    rw [List.cons_append, list_line, show itemType (trim []) = .ok "" from rfl, ok_bind,
      if_pos (.inl rfl), node_read h htypes (hmore.mono (by omega)) (by omega), ok_bind]
  | _, _, _, .leaf k type, htypes, fuel, any, children, more, hmore, hfuel => by
    have hstays : ¬(trim (' ' :: typeField type) = [] ∨ goesDeeper k more = true) := by
      rw [goes_deeper_none hmore, type_trimmed htypes.parts.1]
      simp [type_field]
    rw [List.singleton_append, list_line, type_item htypes.parts.1, ok_bind, if_neg hstays]
  | _, _, _, .inline type h, htypes, fuel, any, children, more, hmore, hfuel => by
    obtain ⟨text, rest, hstart⟩ := children_start h
    rw [List.cons_append, List.length_cons] at hfuel
    obtain ⟨fuel, rfl⟩ : ∃ n, fuel = n + 2 := ⟨fuel - 2, by
      rw [hstart] at hfuel
      simp only [List.cons_append, List.length_cons] at hfuel
      omega⟩
    rw [List.cons_append, list_line, type_item htypes.parts.1, ok_bind, if_pos (.inr (children_deeper h more)),
      children_read h htypes.parts.2 (hmore.mono (by omega)) (by omega),
      fields_leave (hmore.mono (by omega))]
    rfl
end

end Reading

section Lines
variable {type : String} {k : Nat}

theorem type_tidy (h : PlainType type) (k : Nat) : Tidy ⟨k, typeField type⟩ := by
  refine ⟨by simp [type_field], bare_iff.mpr ?_, ?_⟩
  · rw [← trim_space, type_trimmed h]
  · intro c hc
    rcases List.mem_append.mp hc with hc | hc
    · have hplain : ∀ c ∈ "type: ".toList, c ≠ '#' ∧ c ≠ '\n' := by decide
      exact hplain c hc
    · exact ⟨(h.plain c hc).2.1, (h.plain c hc).1⟩

theorem dash_tidy (k : Nat) : Tidy ⟨k, ['-']⟩ := by
  refine ⟨by simp, bare_iff.mpr (show trim ['-'] = ['-'] by decide), ?_⟩
  intro c hc
  obtain rfl := List.mem_singleton.mp hc
  decide

theorem item_type_tidy (h : PlainType type) (k : Nat) : Tidy ⟨k, '-' :: ' ' :: typeField type⟩ := by
  obtain ⟨hne, hbare, hplain⟩ := type_tidy h k
  refine ⟨by simp, ⟨fun c hc => ?_, fun c hc => hbare.2 c ?_⟩, ?_⟩
  · cases hc
    rfl
  · rwa [show '-' :: ' ' :: typeField type = ['-', ' '] ++ typeField type from rfl,
      List.getLast?_append_of_ne_nil _ hne] at hc
  · intro c hc
    simp only [List.mem_cons] at hc
    rcases hc with rfl | rfl | hc
    · decide
    · decide
    · exact hplain c hc

mutual
theorem node_tidy : ∀ {k : Nat} {node : TreeNodeDefinition} {lines : List YamlLine},
    NodeLines k node lines → AllPlain node.types → ∀ l ∈ lines, Tidy l
  | _, _, _, .leaf k type, htypes, l, hl => by
    obtain rfl := List.mem_singleton.mp hl
    exact type_tidy htypes.parts.1 k
  | _, _, _, .typeFirst (k := k) type h, htypes, l, hl => by
    rcases List.mem_cons.mp hl with rfl | hl
    · exact type_tidy htypes.parts.1 k
    · exact children_tidy h htypes.parts.2 l hl
  | _, _, _, .typeLast (k := k) type h, htypes, l, hl => by
    rcases List.mem_append.mp hl with hl | hl
    · exact children_tidy h htypes.parts.2 l hl
    · obtain rfl := List.mem_singleton.mp hl
      exact type_tidy htypes.parts.1 k

theorem children_tidy : ∀ {k : Nat} {children : List TreeNodeDefinition} {lines : List YamlLine},
    ChildrenLines k children lines → AllPlain (typesOf children) → ∀ l ∈ lines, Tidy l
  | _, _, _, .child (k := k) h, htypes, l, hl => by
    rcases List.mem_cons.mp hl with rfl | hl
    · exact block_tidy child_named k
    · exact node_tidy h htypes.cons.1 l hl
  | _, _, _, .children (k := k) h, htypes, l, hl => by
    rcases List.mem_cons.mp hl with rfl | hl
    · exact block_tidy children_named k
    · exact items_tidy h htypes l hl

theorem items_tidy : ∀ {k : Nat} {nodes : List TreeNodeDefinition} {lines : List YamlLine},
    ItemsLines k nodes lines → AllPlain (typesOf nodes) → ∀ l ∈ lines, Tidy l
  | _, _, _, .last h, htypes, l, hl => item_lines_tidy h htypes.cons.1 l hl
  | _, _, _, .more h htail, htypes, l, hl => by
    rcases List.mem_append.mp hl with hl | hl
    · exact item_lines_tidy h htypes.cons.1 l hl
    · exact items_tidy htail htypes.cons.2 l hl

theorem item_lines_tidy : ∀ {k : Nat} {node : TreeNodeDefinition} {lines : List YamlLine},
    ItemLines k node lines → AllPlain node.types → ∀ l ∈ lines, Tidy l
  | _, _, _, .bare (k := k) h, htypes, l, hl => by
    rcases List.mem_cons.mp hl with rfl | hl
    · exact dash_tidy k
    · exact node_tidy h htypes l hl
  | _, _, _, .leaf k type, htypes, l, hl => by
    obtain rfl := List.mem_singleton.mp hl
    exact item_type_tidy htypes.parts.1 k
  | _, _, _, .inline (k := k) type h, htypes, l, hl => by
    rcases List.mem_cons.mp hl with rfl | hl
    · exact item_type_tidy htypes.parts.1 k
    · exact children_tidy h htypes.parts.2 l hl
end

/-- A line end after the last line adds nothing. -/
theorem lines_ended (text : Text) : linesFromYaml (text ++ ['\n']) = linesFromYaml text := by
  have hblank : lineFromYaml [] = .ok none := rfl
  rw [linesFromYaml, linesFromYaml, List.splitOn_append_cons_self, List.splitOn_nil,
    List.mapM_append]
  cases (text.splitOn '\n').mapM lineFromYaml with
  | error => rfl
  | ok lines =>
    simp only [ok_bind, List.mapM_cons, List.mapM_nil, hblank, pure_eq, List.flatMap_append]
    simp

end Lines

/-- Every rendering of a document is accepted and read as the document. -/
theorem yaml_round_trip {document : TreeDocument} {text : Text}
    (htypes : ∀ type ∈ document.root.types, PlainType type) (h : Rendering document text) :
    parseYaml text = ⟨document, true, "Behavior tree parsed successfully"⟩ := by
  obtain ⟨lines, ending, hlines, hending, rfl⟩ := h.lines
  have htidy : ∀ l ∈ (⟨0, "root:".toList⟩ :: lines : List YamlLine), Tidy l := by
    intro l hl
    rcases List.mem_cons.mp hl with rfl | hl
    · exact block_tidy (show fieldName "root".toList = true by decide) 0
    · exact node_tidy hlines htypes l hl
  have hread : linesFromYaml (['\n'].intercalate
      ((⟨0, "root:".toList⟩ :: lines).map YamlLine.raw) ++ ending) =
        .ok (⟨0, "root:".toList⟩ :: lines) := by
    rcases hending with rfl | rfl
    · rw [List.append_nil, lines_read htidy (by simp)]
    · rw [lines_ended, lines_read htidy (by simp)]
  have hnode : parseYamlNodeFields (lines.length + 1) 2 false {} (lines ++ []) =
      .ok (document.root, []) := node_read hlines htypes (fun l hl => by cases hl) (by simp)
  rw [List.append_nil] at hnode
  rw [parseYaml, documentFromYaml, hread, ok_bind]
  simp only [ne_eq, not_true_eq_false, or_self, if_false, hnode, ok_bind, if_true]
  rfl

section Examples

def nested : TreeDocument := ⟨⟨"Sequence", [⟨"Action", []⟩, ⟨"Inverter", [⟨"Condition", []⟩]⟩]⟩⟩

/-- The type of the root stands last, the items in both forms. -/
def nestedText : Text :=
  ("root:\n  children:\n    - type: Action\n    -\n      type: Inverter\n" ++
    "      child:\n        type: Condition\n  type: Sequence\n").toList

theorem yaml_round_trip_nested :
    parseYaml nestedText = ⟨nested, true, "Behavior tree parsed successfully"⟩ := by
  have htypes : ∀ type ∈ nested.root.types, PlainType type := by
    have hall : ∀ type ∈ nested.root.types, type ≠ "" ∧ trim type.toList = type.toList ∧
        ∀ c ∈ type.toList, c ≠ '\n' ∧ c ≠ '#' ∧ c ≠ '"' ∧ c ≠ '\'' := by decide
    exact fun type ht => ⟨(hall type ht).1, (hall type ht).2.1, (hall type ht).2.2⟩
  have hinverter : ItemLines 4 ⟨"Inverter", [⟨"Condition", []⟩]⟩ _ :=
    .bare (.typeFirst "Inverter" (.child (.leaf 8 "Condition")))
  have hnodes : NodeLines 2 nested.root _ :=
    .typeLast "Sequence" (.children (.more (.leaf 4 "Action") (.last hinverter)))
  have hchars : nestedText = _ := chars_append String.toList_ofList String.toList_ofList
  rw [hchars]
  exact yaml_round_trip htypes ⟨_, ['\n'], hnodes, .inr rfl, by decide +kernel⟩

end Examples

end HumanoidCore.BehaviorTrees
