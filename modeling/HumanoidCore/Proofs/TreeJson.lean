import HumanoidCore.Lib.Entries
import HumanoidCore.Proofs.JsonRecovered
import HumanoidCore.Proofs.TreeYaml

namespace HumanoidCore.BehaviorTrees
open Documents Lib
open Missions (asObject asArray required jsonString)

section Reader

/-- The children of a node, from its two fields. -/
def childrenFromJson (object : JsonObject) : Reading (List TreeNodeDefinition) :=
  match object.lookup "child", object.lookup "children" with
  | some _, some _ => fail "Behavior tree node cannot contain both child and children"
  | some child, none => do
    let node ← nodeFromJson child "child"
    return [node]
  | none, some (.array elements) => elements.mapM (fun child => nodeFromJson child "children[]")
  | none, some _ => fail "children must be an array"
  | none, none => return []

theorem node_from_json (object : JsonObject) (what : String) :
    nodeFromJson (.object object) what = (do
      let type ← nodeTypeFromJson object
      let children ← childrenFromJson object
      return { type, children }) := by
  rw [nodeFromJson]
  congr 1
  funext type
  unfold childrenFromJson
  split
  case h_1 hchild hchildren => rw [hchild, hchildren]; rfl
  case h_2 child hchild hchildren =>
    rw [hchild, hchildren]
    simp
  case h_3 elements hchild hchildren =>
    rw [hchild, hchildren]
    simp
  case h_4 value hnot hchild hchildren =>
    rw [hchild, hchildren]
    cases value with
    | array elements => exact absurd rfl (hnot elements)
    | _ => rfl
  case h_5 hchild hchildren => rw [hchild, hchildren]; rfl

end Reader

section Lookup
variable {fields : NodeFields} {name : Text} {entry : Entry}

theorem lookup_json (fields : NodeFields) (key : String) :
    (fieldsJson fields).lookup key = (fields.lookup key.toList).map Entry.json := by
  induction fields with
  | nil => rfl
  | cons f fields ih =>
    obtain ⟨name, entry⟩ := f
    have hkey : (key == String.ofList name) = (key.toList == name) := by
      rw [Bool.eq_iff_iff, beq_iff_eq, beq_iff_eq]
      constructor
      · rintro rfl
        exact String.toList_ofList
      · rintro rfl
        exact String.ofList_toList.symm
    rw [fieldsJson, List.lookup_cons, List.lookup_cons, hkey, ih]
    split <;> rfl

theorem has_field (fields : NodeFields) (key : String) :
    hasField key fields = (fields.lookup key.toList).isSome := by
  rw [Bool.eq_iff_iff, List.lookup_isSome_iff, hasField, List.any_eq_true]
  constructor
  · rintro ⟨f, hf, h⟩
    exact ⟨f, hf, beq_iff_eq.mpr (of_decide_eq_true h).symm⟩
  · rintro ⟨f, hf, h⟩
    exact ⟨f, hf, decide_eq_true (beq_iff_eq.mp h).symm⟩

theorem type_of_lookup {text : Text} (h : fields.lookup "type".toList = some (.name text)) :
    typeOf fields = String.ofList text := by
  induction fields with
  | nil => cases h
  | cons f fields ih =>
    obtain ⟨name, entry⟩ := f
    rw [List.lookup_cons] at h
    split at h
    case h_1 heq =>
      cases h
      rw [typeOf, if_pos (beq_iff_eq.mp heq).symm]
    case h_2 hne =>
      have hname : name ≠ "type".toList := fun heq => by simp [heq] at hne
      cases entry with
      | name text' => rw [typeOf, if_neg hname, ih h]
      | node => exact ih h
      | nodes => exact ih h

theorem trees_other (entry : Entry) (hchild : name ≠ "child".toList)
    (hchildren : name ≠ "children".toList) : entry.trees name = [] := by
  cases entry with
  | name => rfl
  | node => rw [Entry.trees, if_neg hchild]
  | nodes => rw [Entry.trees, if_neg hchildren]

theorem trees_none (h : ∀ f ∈ fields, f.2.trees f.1 = []) : treesBelow fields = [] := by
  induction fields with
  | nil => rfl
  | cons f fields ih =>
    rw [treesBelow, h f (by simp), ih (fun f hf => h f (List.mem_cons_of_mem _ hf))]
    rfl

/-- The trees below a node whose other fields have none. -/
theorem trees_of_lookup (hnames : (fields.map Prod.fst).Nodup) (h : fields.lookup name = some entry)
    (hother : ∀ f ∈ fields, f.1 ≠ name → f.2.trees f.1 = []) :
    treesBelow fields = entry.trees name := by
  induction fields with
  | nil => cases h
  | cons f fields ih =>
    obtain ⟨name', entry'⟩ := f
    have hparts := List.nodup_cons.mp hnames
    rw [List.lookup_cons] at h
    split at h
    case h_1 heq =>
      cases h
      obtain rfl := beq_iff_eq.mp heq
      have hrest : treesBelow fields = [] := by
        apply trees_none
        intro f hf
        apply hother f (List.mem_cons_of_mem _ hf)
        intro hname
        exact hparts.1 (List.mem_map.mpr ⟨f, hf, hname⟩)
      rw [treesBelow, hrest, List.append_nil]
    case h_2 hne =>
      have hname : name' ≠ name := fun heq => by simp [heq] at hne
      rw [treesBelow, hother (name', entry') (by simp) hname,
        ih hparts.2 h (fun f hf => hother f (List.mem_cons_of_mem _ hf))]
      rfl

/-- What only the three known fields can satisfy is decided by looking them up. -/
theorem any_known {q : Text → Entry → Bool} (hnames : (fields.map Prod.fst).Nodup)
    (hq : ∀ name entry, unknownField name = true → q name entry = false) :
    fields.any (fun f => q f.1 f.2) =
      ((fields.lookup "type".toList).any (q "type".toList) ||
        (fields.lookup "child".toList).any (q "child".toList) ||
        (fields.lookup "children".toList).any (q "children".toList)) := by
  rw [Bool.eq_iff_iff]
  simp only [Bool.or_eq_true, List.any_eq_true, Option.any_eq_true]
  constructor
  · rintro ⟨⟨name, entry⟩, hmem, h⟩
    have hlookup := lookup_of_mem hnames hmem
    rcases name_cases name with rfl | rfl | rfl | hunknown
    · exact .inl (.inl ⟨entry, hlookup, h⟩)
    · exact .inl (.inr ⟨entry, hlookup, h⟩)
    · exact .inr ⟨entry, hlookup, h⟩
    · rw [hq name entry hunknown] at h
      cases h
  · rintro ((⟨entry, hlookup, h⟩ | ⟨entry, hlookup, h⟩) | ⟨entry, hlookup, h⟩)
    · exact ⟨_, mem_of_lookup hlookup, h⟩
    · exact ⟨_, mem_of_lookup hlookup, h⟩
    · exact ⟨_, mem_of_lookup hlookup, h⟩

theorem known_ill (name : Text) (entry : Entry) (h : unknownField name = true) :
    illShaped name entry = false := by
  obtain ⟨htype, hchild, hchildren⟩ := unknown_iff.mp h
  cases entry with
  | name => simp only [illShaped, htype, hchild, hchildren, decide_false, Bool.false_and,
      Bool.or_self]
  | node => simp only [illShaped, htype, hchildren, decide_false, Bool.or_self]
  | nodes => simp only [illShaped, htype, hchild, decide_false, Bool.or_self]

theorem known_below (p : NodeFields → Bool) (name : Text) (entry : Entry)
    (h : unknownField name = true) : entry.anyNode p name = false := by
  obtain ⟨-, hchild, hchildren⟩ := unknown_iff.mp h
  cases entry with
  | name => rfl
  | node => simp only [Entry.anyNode, hchild, decide_false, Bool.false_and]
  | nodes => simp only [Entry.anyNode, hchildren, decide_false, Bool.false_and]

end Lookup

section Reading

/-- A node that the reader of JSON refuses for its own fields. -/
def jsonRefuses (fields : NodeFields) : Bool := malformed fields || undetermined fields

/-- The node is read, or it or one below it is refused. -/
def NodeRead (fields : NodeFields) : Prop :=
  ∀ what, (nodeFromJson (.object (fieldsJson fields)) what).toOption =
    if anyNode jsonRefuses fields then none else some (treeOf fields)

def EntryJson (style : Style) (entry : Entry) : Prop :=
  entry.fits style = true →
    match entry with
    | .name _ => True
    | .node fields => NodeRead fields
    | .nodes list => ∀ fields ∈ list, NodeRead fields

theorem nodes_json (list : List NodeFields) (hall : ∀ fields ∈ list, NodeRead fields) :
    ((nodesJson list).mapM (fun child => nodeFromJson child "children[]")).toOption =
      if anyOf jsonRefuses list then none else some (treesOf list) := by
  induction list with
  | nil => rfl
  | cons fields list ih =>
    have hread := hall fields (by simp) "children[]"
    have hrest := ih (fun fields hf => hall fields (List.mem_cons_of_mem _ hf))
    rw [nodesJson, List.mapM_cons, to_option_bind, hread]
    cases hany : anyNode jsonRefuses fields with
    | true =>
      rw [anyNode] at hany
      simp [anyOf, hany]
    | false =>
      rw [anyNode] at hany
      simp only [Bool.false_eq_true, if_false, Option.bind_some, to_option_bind, hrest, anyOf,
        hany, Bool.false_or]
      split
      case isTrue => rfl
      case isFalse => rfl

theorem type_json (fields : NodeFields) :
    (nodeTypeFromJson (fieldsJson fields)).toOption =
      match fields.lookup "type".toList with
      | some (.name text) => if text = [] then none else some (String.ofList text)
      | _ => none := by
  rw [nodeTypeFromJson, required, lookup_json]
  cases fields.lookup "type".toList with
  | none => rfl
  | some entry =>
    cases entry with
    | name text =>
      by_cases htext : text = []
      · simp [Entry.json, jsonString, htext]
      · simp [Entry.json, jsonString, htext]
    | node => rfl
    | nodes => rfl

theorem below_known {fields : NodeFields} (hnames : (fields.map Prod.fst).Nodup)
    (p : NodeFields → Bool) :
    anyBelow p fields = ((fields.lookup "child".toList).any (Entry.anyNode p "child".toList) ||
      (fields.lookup "children".toList).any (Entry.anyNode p "children".toList)) := by
  rw [any_below, any_known hnames (known_below p)]
  have htype : (fields.lookup "type".toList).any (Entry.anyNode p "type".toList) = false := by
    cases fields.lookup "type".toList with
    | none => rfl
    | some entry => cases entry <;> rfl
  rw [htype, Bool.false_or]

theorem fit_of_mem {style : Style} {fields : NodeFields} {f : Text × Entry}
    (hfit : fieldsFit style fields = true) (hf : f ∈ fields) : f.2.fits style = true := by
  induction fields with
  | nil => cases hf
  | cons g fields ih =>
    simp only [fieldsFit, Bool.and_eq_true] at hfit
    rcases List.mem_cons.mp hf with rfl | hf
    · exact hfit.1.2
    · exact ih hfit.2 hf

theorem absent_of_lookup {fields : NodeFields} {name : Text} (h : fields.lookup name = none)
    {f : Text × Entry} (hf : f ∈ fields) : f.1 ≠ name := by
  have hne := List.lookup_eq_none_iff.mp h f hf
  rw [bne_iff_ne] at hne
  exact hne.symm

theorem child_json {style : Style} {fields : NodeFields} {entry : Entry}
    (hnames : (fields.map Prod.fst).Nodup) (hentry : EntryJson style entry)
    (hfit : entry.fits style = true) (hchild : fields.lookup "child".toList = some entry)
    (hchildren : fields.lookup "children".toList = none) :
    (childrenFromJson (fieldsJson fields)).toOption =
      if illShaped "child".toList entry || entry.anyNode jsonRefuses "child".toList then none
      else some (treesBelow fields) := by
  rw [childrenFromJson, lookup_json, lookup_json, hchild, hchildren]
  simp only [Option.map_some, Option.map_none]
  cases entry with
  | name text =>
    rw [Entry.json, nodeFromJson]
    · rfl
    · intro object heq
      cases heq
  | nodes list =>
    rw [Entry.json, nodeFromJson]
    · rfl
    · intro object heq
      cases heq
  | node inner =>
    have htrees : treesBelow fields = [treeOf inner] :=
      trees_of_lookup hnames hchild fun f hf hne =>
        trees_other f.2 hne (absent_of_lookup hchildren hf)
    have hrefused : (illShaped "child".toList (.node inner) ||
        (Entry.node inner).anyNode jsonRefuses "child".toList) = anyNode jsonRefuses inner := rfl
    rw [hrefused, htrees, Entry.json, to_option_bind, hentry hfit "child"]
    split
    case isTrue => rfl
    case isFalse => rfl

theorem list_json {style : Style} {fields : NodeFields} {entry : Entry}
    (hnames : (fields.map Prod.fst).Nodup) (hentry : EntryJson style entry)
    (hfit : entry.fits style = true) (hchild : fields.lookup "child".toList = none)
    (hchildren : fields.lookup "children".toList = some entry) :
    (childrenFromJson (fieldsJson fields)).toOption =
      if illShaped "children".toList entry || entry.anyNode jsonRefuses "children".toList then none
      else some (treesBelow fields) := by
  rw [childrenFromJson, lookup_json, lookup_json, hchild, hchildren]
  simp only [Option.map_some, Option.map_none]
  cases entry with
  | name text => rfl
  | node inner => rfl
  | nodes list =>
    have htrees : treesBelow fields = treesOf list :=
      trees_of_lookup hnames hchildren fun f hf hne =>
        trees_other f.2 (absent_of_lookup hchild hf) hne
    have hrefused : (illShaped "children".toList (.nodes list) ||
        (Entry.nodes list).anyNode jsonRefuses "children".toList) = anyOf jsonRefuses list := rfl
    rw [hrefused, htrees, Entry.json]
    exact nodes_json list (hentry hfit)

theorem node_json {style : Style} {fields : NodeFields} (hfit : fieldsFit style fields = true)
    (hnames : (fields.map Prod.fst).Nodup) (hall : ∀ f ∈ fields, EntryJson style f.2) :
    NodeRead fields := by
  intro what
  have hread (entry : Entry) (name : Text) (h : fields.lookup name = some entry) :
      EntryJson style entry ∧ entry.fits style = true :=
    ⟨hall _ (mem_of_lookup h), fit_of_mem hfit (mem_of_lookup h)⟩
  rw [node_from_json, to_option_bind, type_json, anyNode, jsonRefuses, malformed, undetermined,
    any_known hnames known_ill, below_known hnames jsonRefuses, has_field, has_field, has_field]
  cases htype : fields.lookup "type".toList with
  | none => simp
  | some entry =>
    cases entry with
    | node => simp [illShaped]
    | nodes => simp [illShaped]
    | name text =>
      by_cases htext : text = []
      · simp [illShaped, htext]
      · have hempty : fields.isEmpty = false := by
          cases fields with
          | nil => cases htype
          | cons => rfl
        have hill : illShaped "type".toList (.name text) = false := by
          simp [illShaped, htext]
        have htree : treeOf fields = ⟨String.ofList text, treesBelow fields⟩ := by
          rw [treeOf, type_of_lookup htype]
        simp only [if_neg htext, Option.bind_some, to_option_bind, hempty, Option.any_some, hill,
          htree, Option.isSome_some, Bool.not_true, Bool.false_or]
        cases hchild : fields.lookup "child".toList with
        | none =>
          cases hchildren : fields.lookup "children".toList with
          | none =>
            have htrees : treesBelow fields = [] := trees_none fun f hf =>
              trees_other f.2 (absent_of_lookup hchild hf) (absent_of_lookup hchildren hf)
            rw [childrenFromJson, lookup_json, lookup_json, hchild, hchildren, htrees]
            rfl
          | some entry =>
            obtain ⟨hentry, hfits⟩ := hread entry _ hchildren
            rw [list_json hnames hentry hfits hchild hchildren]
            simp only [Option.any_none, Option.any_some, Option.isSome_none, Option.isSome_some,
              Bool.false_and, Bool.or_false, Bool.false_or]
            split
            case isTrue => rfl
            case isFalse => rfl
        | some entry =>
          cases hchildren : fields.lookup "children".toList with
          | none =>
            obtain ⟨hentry, hfits⟩ := hread entry _ hchild
            rw [child_json hnames hentry hfits hchild hchildren]
            simp only [Option.any_none, Option.any_some, Option.isSome_none, Option.isSome_some,
              Bool.and_false, Bool.or_false]
            split
            case isTrue => rfl
            case isFalse => rfl
          | some other =>
            rw [childrenFromJson, lookup_json, lookup_json, hchild, hchildren]
            simp

theorem entry_json (style : Style) (entry : Entry) : EntryJson style entry := by
  induction entry using Entry.induct with
  | name text => exact fun _ => trivial
  | node fields hall =>
    intro hfit
    simp only [Entry.fits, Bool.and_eq_true, decide_eq_true_eq] at hfit
    exact node_json hfit.1 hfit.2 hall
  | nodes list hall =>
    intro hfit
    simp only [Entry.fits] at hfit
    induction list with
    | nil =>
      intro fields hfields
      cases hfields
    | cons first list ih =>
      simp only [nodesFit, Bool.and_eq_true, decide_eq_true_eq] at hfit
      intro fields hfields
      rcases List.mem_cons.mp hfields with rfl | hfields
      · exact node_json hfit.1.1 hfit.1.2 (hall fields (by simp))
      · exact ih (fun fields hf => hall fields (List.mem_cons_of_mem _ hf)) hfit.2 fields hfields

end Reading

/-- The reader of JSON gives the tree of the document, or refuses one of its nodes. -/
theorem json_document {style : Style} {root : NodeFields} {convert : Convert} {text : Text}
    (hfit : (Entry.node root).fits style = true)
    (hwritten : WrittenElement convert (documentJson root) text) :
    (parse (treeDialect convert) text >>= documentFromJson).toOption =
      if anyNode jsonRefuses root then none else some ⟨treeOf root⟩ := by
  have hparse : parse (treeDialect convert) text = .ok (documentJson root) := by
    apply parse_written _ hwritten
    intro literal value _ hvalue
    simp only [treeDialect, hvalue]
  have hread := entry_json style (.node root) hfit "root"
  rw [hparse, ok_bind, documentFromJson, documentJson]
  simp only [asObject, required, ok_bind, List.lookup_cons_self, to_option_bind, hread]
  split
  case isTrue => rfl
  case isFalse => rfl

end HumanoidCore.BehaviorTrees
