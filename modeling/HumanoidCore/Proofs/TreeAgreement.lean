import HumanoidCore.Proofs.TreeJson
import Mathlib.Data.List.Nodup

namespace HumanoidCore.BehaviorTrees
open Documents

section Written
variable {convert : Convert} {style : Style} {fields : NodeFields}

theorem written_body {text : Text} (h : text.all nameChar = true) : StringBody text text := by
  induction text with
  | nil => exact .nil
  | cons c text ih =>
    simp only [List.all_cons, Bool.and_eq_true] at h
    apply StringBody.plain c _ (ih h.2)
    have hc := h.1
    simp only [nameChar, Bool.and_eq_true, decide_eq_true_eq] at hc
    simp [plainChar, hc.1.1.1.1, hc.1.1.1.2, hc.1.2]

theorem written_alone {value : JsonValue} {text : Text} (h : Written convert value text) :
    WrittenElement convert value text := by
  have hblank : Blank [] := fun c hc => by cases hc
  have helement := WrittenElement.mk hblank h hblank
  rwa [List.nil_append, List.append_nil] at helement

def EntryWritten (convert : Convert) (style : Style) (entry : Entry) : Prop :=
  entry.fits style = true → Written convert entry.json entry.jsonText

theorem fields_written (hne : fields ≠ []) (hfit : fieldsFit style fields = true)
    (hall : ∀ f ∈ fields, EntryWritten convert style f.2) :
    WrittenMembers convert (fieldsJson fields) (fieldsText fields) := by
  induction fields with
  | nil => exact absurd rfl hne
  | cons f fields ih =>
    obtain ⟨name, entry⟩ := f
    simp only [fieldsFit, fieldName, Bool.and_eq_true] at hfit
    have hblank : Blank [] := fun c hc => by cases hc
    have hname := written_body hfit.1.1.1.1.1
    have hentry := written_alone (hall (name, entry) (by simp) hfit.1.2)
    cases fields with
    | nil =>
      have hone := WrittenMembers.one hblank hname hblank hentry
      simpa [fieldsText, fieldsJson] using hone
    | cons g fields =>
      have hrest := ih (by simp) hfit.2 (fun f hf => hall f (List.mem_cons_of_mem _ hf))
      exact WrittenMembers.more hblank hname hblank hentry hrest

theorem keys_json (fields : NodeFields) :
    (fieldsJson fields).map Prod.fst = (fields.map Prod.fst).map String.ofList := by
  induction fields with
  | nil => rfl
  | cons f fields ih => rw [fieldsJson, List.map_cons, ih]; rfl

theorem node_written (hfit : fieldsFit style fields = true) (hnames : (fields.map Prod.fst).Nodup)
    (hall : ∀ f ∈ fields, EntryWritten convert style f.2) :
    Written convert (.object (fieldsJson fields)) ('{' :: (fieldsText fields ++ ['}'])) := by
  cases fields with
  | nil =>
    have hblank : Blank [] := fun c hc => by cases hc
    exact .emptyObject hblank
  | cons f fields =>
    apply Written.object (fields_written (by simp) hfit hall)
    rw [keys_json]
    exact List.Nodup.map (fun a b h => String.ofList_injective h) hnames

theorem nodes_written {list : List NodeFields} (hne : list ≠ []) (hfit : nodesFit style list = true)
    (hall : ∀ fields ∈ list, ∀ f ∈ fields, EntryWritten convert style f.2) :
    WrittenElements convert (nodesJson list) (nodesText list) := by
  induction list with
  | nil => exact absurd rfl hne
  | cons fields list ih =>
    simp only [nodesFit, Bool.and_eq_true, decide_eq_true_eq] at hfit
    have hnode := written_alone (node_written hfit.1.1 hfit.1.2 (hall fields (by simp)))
    cases list with
    | nil =>
      have hone := WrittenElements.one hnode
      simpa [nodesText, nodesJson] using hone
    | cons next list =>
      have hrest := ih (by simp) hfit.2 (fun f hf => hall f (List.mem_cons_of_mem _ hf))
      exact WrittenElements.more hnode hrest

theorem entry_written (convert : Convert) (style : Style) (entry : Entry) :
    EntryWritten convert style entry := by
  induction entry using Entry.induct with
  | name text =>
    intro hfit
    simp only [Entry.fits, Style.typeName, Bool.and_eq_true] at hfit
    exact .string (written_body hfit.1)
  | node fields hall =>
    intro hfit
    simp only [Entry.fits, Bool.and_eq_true, decide_eq_true_eq] at hfit
    exact node_written hfit.1 hfit.2 hall
  | nodes list hall =>
    intro hfit
    cases list with
    | nil =>
      have hblank : Blank [] := fun c hc => by cases hc
      exact .emptyArray hblank
    | cons fields list => exact .array (nodes_written (by simp) hfit hall)

theorem document_written (convert : Convert) {root : NodeFields}
    (hfit : (Entry.node root).fits style = true) :
    WrittenElement convert (documentJson root) (documentText root) := by
  have hblank : Blank [] := fun c hc => by cases hc
  have hname : StringBody "root".toList "root".toList := written_body (by decide)
  have hroot := WrittenMembers.one hblank hname hblank
    (written_alone (entry_written convert style (.node root) hfit))
  rw [show String.ofList "root".toList = "root" from String.ofList_toList] at hroot
  exact written_alone (Written.object hroot (List.nodup_singleton _))

end Written

section Agreement

theorem below_or (p q : NodeFields → Bool) {fields : NodeFields}
    (hall : ∀ f ∈ fields, ∀ name, f.2.anyNode (fun g => p g || q g) name =
      (f.2.anyNode p name || f.2.anyNode q name)) :
    anyBelow (fun g => p g || q g) fields = (anyBelow p fields || anyBelow q fields) := by
  induction fields with
  | nil => rfl
  | cons f fields ih =>
    rw [anyBelow, anyBelow, anyBelow, hall f (by simp),
      ih (fun f hf => hall f (List.mem_cons_of_mem _ hf))]
    ac_rfl

theorem of_or (p q : NodeFields → Bool) {list : List NodeFields}
    (hall : ∀ fields ∈ list, ∀ f ∈ fields, ∀ name, f.2.anyNode (fun g => p g || q g) name =
      (f.2.anyNode p name || f.2.anyNode q name)) :
    anyOf (fun g => p g || q g) list = (anyOf p list || anyOf q list) := by
  induction list with
  | nil => rfl
  | cons fields list ih =>
    rw [anyOf, anyOf, anyOf, below_or p q (hall fields (by simp)),
      ih (fun fields hf => hall fields (List.mem_cons_of_mem _ hf))]
    ac_rfl

theorem entry_or (p q : NodeFields → Bool) (entry : Entry) (name : Text) :
    entry.anyNode (fun g => p g || q g) name = (entry.anyNode p name || entry.anyNode q name) := by
  induction entry using Entry.induct generalizing name with
  | name text => rfl
  | node fields hall =>
    rw [Entry.anyNode, Entry.anyNode, Entry.anyNode, below_or p q hall, ← Bool.and_or_distrib_left]
    ac_rfl
  | nodes list hall =>
    rw [Entry.anyNode, Entry.anyNode, Entry.anyNode, of_or p q hall, Bool.and_or_distrib_left]

theorem any_node_or (p q : NodeFields → Bool) (root : NodeFields) :
    anyNode (fun g => p g || q g) root = (anyNode p root || anyNode q root) := by
  rw [anyNode, anyNode, anyNode, below_or p q (fun f _ => entry_or p q f.2)]
  ac_rfl

/-- The formats accept the same and give the same document. -/
def Agree (json yaml : TreeParseResult) : Prop :=
  (json.success = true ↔ yaml.success = true) ∧
    (json.success = true → json.document = yaml.document)

theorem agree_iff {json yaml : Reading TreeDocument} {tree : TreeDocument} {b c : Bool}
    (hjson : json.toOption = if b then none else some tree)
    (hyaml : yaml.toOption = if c then none else some tree) :
    Agree (treeParseResult "JSON" json) (treeParseResult "YAML" yaml) ↔ b = c := by
  cases json with
  | error =>
    cases b with
    | false => cases hjson
    | true =>
      cases yaml with
      | error =>
        cases c with
        | false => cases hyaml
        | true => simp [Agree, treeParseResult]
      | ok t =>
        cases c with
        | false => simp [Agree, treeParseResult]
        | true => cases hyaml
  | ok t =>
    cases b with
    | true => cases hjson
    | false =>
      cases hjson
      cases yaml with
      | error =>
        cases c with
        | false => cases hyaml
        | true => simp [Agree, treeParseResult]
      | ok t =>
        cases c with
        | false =>
          cases hyaml
          simp [Agree, treeParseResult]
        | true => cases hyaml

/-- However a document is written in the two formats, they agree on it exactly where one of its
nodes is malformed, or it has both what only JSON refuses and what only YAML refuses, or
neither. -/
theorem formats_agree_iff (convert : Convert) (style : Style) (root : NodeFields) (text : Text)
    (hfit : (Entry.node root).fits style = true)
    (hwritten : WrittenElement convert (documentJson root) text) :
    Agree (parseJson convert text) (parseYaml (documentYaml style root)) ↔
      anyNode malformed root = true ∨ anyNode undetermined root = anyNode beyondSubset root := by
  have hjson : anyNode jsonRefuses root = (anyNode malformed root || anyNode undetermined root) :=
    any_node_or malformed undetermined root
  have hyaml : anyNode yamlRefuses root = (anyNode malformed root || anyNode beyondSubset root) :=
    any_node_or malformed beyondSubset root
  rw [parseJson, parseYaml, agree_iff (json_document hfit hwritten) (yaml_document hfit), hjson,
    hyaml]
  cases anyNode malformed root with
  | true => simp
  | false => simp

end Agreement

section Examples

/-- The documented tree. -/
def documented : NodeFields :=
  [("type".toList, .name "Sequence".toList),
    ("children".toList, .nodes [[("type".toList, .name "Action".toList)],
      [("type".toList, .name "Condition".toList)]])]

theorem formats_agree_iff_documented :
    Agree (parseJson (fun _ => none) (documentText documented))
      (parseYaml (documentYaml {} documented)) := by
  have hfit : (Entry.node documented).fits {} = true := by decide
  exact (formats_agree_iff (fun _ => none) {} documented _ hfit
    (document_written _ hfit)).mpr (.inr (by decide))

/-- A field that is in no schema. -/
def extraField : NodeFields :=
  [("type".toList, .name "Action".toList), ("note".toList, .name "x".toList)]

def emptyChildren : NodeFields :=
  [("type".toList, .name "Sequence".toList), ("children".toList, .nodes [])]

/-- The node under `child` has no type. -/
def untypedChild : NodeFields :=
  [("type".toList, .name "Inverter".toList),
    ("child".toList, .node [("child".toList, .node [("type".toList, .name "Action".toList)])])]

def childAndChildren : NodeFields :=
  [("type".toList, .name "Sequence".toList),
    ("child".toList, .node [("type".toList, .name "Action".toList)]),
    ("children".toList, .nodes [[("type".toList, .name "Condition".toList)]])]

/-- The two texts of the tree are not read alike. -/
def Disagree (root : NodeFields) : Prop :=
  (Entry.node root).fits {} = true ∧
    WrittenElement (fun _ => none) (documentJson root) (documentText root) ∧
    ¬ Agree (parseJson (fun _ => none) (documentText root)) (parseYaml (documentYaml {} root))

theorem disagree_of {root : NodeFields} (hfit : (Entry.node root).fits {} = true)
    (hne : (parseJson (fun _ => none) (documentText root)).success ≠
      (parseYaml (documentYaml {} root)).success) : Disagree root := by
  refine ⟨hfit, document_written _ hfit, fun hagree => hne ?_⟩
  exact Bool.eq_iff_iff.mpr hagree.1

/-- JSON accepts the first two, YAML the last two. -/
theorem formats_disagree :
    Disagree extraField ∧ Disagree emptyChildren ∧ Disagree untypedChild ∧
      Disagree childAndChildren := by
  refine ⟨?_, ?_, ?_, ?_⟩
  all_goals exact disagree_of (by decide +kernel) (by decide +kernel)

end Examples

end HumanoidCore.BehaviorTrees
