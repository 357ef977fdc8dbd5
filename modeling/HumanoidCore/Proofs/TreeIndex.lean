import HumanoidCore.BehaviorTreeIndex
import HumanoidCore.Proofs.DocumentLines

namespace HumanoidCore.BehaviorTrees.Indexed
open Documents Lib

section Lines
variable {text content : Text} {fieldName : String}

theorem starts_length (h : startsWith text fieldName = true) :
    fieldName.toList.length ≤ text.length :=
  (List.isPrefixOf_iff_prefix.mp h).length_le

theorem field_value_eq (h : startsWith text fieldName = true) :
    fieldValue text fieldName = BehaviorTrees.fieldValue text fieldName := by
  rw [fieldValue, substr_ok (starts_length h), ok_bind, List.take_of_length_le (by simp),
    BehaviorTrees.fieldValue]
  rfl

theorem value_raises (text : Text) (fieldName : String) :
    Raises IsParseError (BehaviorTrees.fieldValue text fieldName) := by
  unfold BehaviorTrees.fieldValue
  dsimp only
  split
  · exact fail_raises _
  · exact raises_ok _ _

theorem item_type_eq (item : Text) : itemType item = BehaviorTrees.itemType item := by
  rw [itemType, BehaviorTrees.itemType]
  split_ifs
  case pos => rfl
  case pos h => exact field_value_eq h
  case neg => rfl

theorem item_type_raises (item : Text) : Raises IsParseError (BehaviorTrees.itemType item) := by
  unfold BehaviorTrees.itemType
  split_ifs
  · exact raises_ok _ _
  · exact value_raises _ _
  · exact fail_raises _

theorem before_comment (content : Text) :
    beforeComment content =
      .ok (if '#' ∈ content then trim (content.takeWhile (· ≠ '#')) else content) := by
  rw [beforeComment]
  split
  case h_1 hnone =>
    have hfree := find_none hnone
    rw [List.drop_zero] at hfree
    rw [if_neg hfree]
    rfl
  case h_2 comment hsome =>
    obtain ⟨-, -, hsplit⟩ := find_some hsome
    have hin : '#' ∈ content := by
      rw [List.drop_zero] at hsplit
      rw [hsplit]
      simp
    rw [if_pos hin, (find_while hsome).1, substr_ok (Nat.zero_le _), ok_bind, List.drop_zero]
    rfl

theorem line_alike (raw : Text) :
    Matches IsParseError (· = ·) (BehaviorTrees.lineFromYaml raw) (lineFromYaml raw) := by
  have hindent := (List.takeWhile_prefix (· = ' ') (l := raw)).length_le
  rw [BehaviorTrees.lineFromYaml, lineFromYaml]
  dsimp only
  rw [substr_ok hindent, ok_bind, List.take_of_length_le (by simp)]
  split
  · exact fail_alike _
  · rw [before_comment, ok_bind]
    exact .ok _ _ rfl

theorem lines_alike (document : Text) :
    Matches IsParseError (· = ·) (BehaviorTrees.linesFromYaml document) (linesFromYaml document) := by
  have hpieces : ∀ (pieces : List Text) (number : Nat),
      (do
        let lines ← pieces.mapM BehaviorTrees.lineFromYaml
        return lines.flatMap Option.toList) =
        readPieces (fun _ => BehaviorTrees.lineFromYaml) number pieces := by
    intro pieces
    induction pieces with
    | nil => exact fun _ => rfl
    | cons piece pieces ih =>
      intro number
      rw [readPieces, ← ih, List.mapM_cons]
      cases BehaviorTrees.lineFromYaml piece with
      | error e => rfl
      | ok line =>
        rw [ok_bind, ok_bind]
        cases pieces.mapM BehaviorTrees.lineFromYaml <;> rfl
  have halike := Documents.lines_alike (fun _ piece => line_alike piece) 1 0
    (Nat.zero_le document.length)
  rw [List.drop_zero, ← hpieces] at halike
  exact halike

end Lines

section Nodes
variable {lines : List YamlLine} {fuel index indent : Nat} {parsedAny : Bool}

theorem goes_deeper (indent index : Nat) :
    goesDeeper lines indent index =
      .ok (BehaviorTrees.goesDeeper indent (lines.drop index)) := by
  rw [goesDeeper, BehaviorTrees.goesDeeper]
  split
  case isTrue hlt =>
    obtain ⟨line, -, hdrop⟩ := drop_next hlt
    rw [access_next hdrop, hdrop]
    rfl
  case isFalse hge =>
    rw [drop_nil_iff.mpr (Nat.not_lt.mp hge)]
    rfl

/-- The two readers go on from where a part they read ended. -/
theorem read_then {x : Reading (α × List YamlLine)} {y : Reading (α × Nat)}
    {f : α × List YamlLine → Reading (β × List YamlLine)} {g : α × Nat → Reading (β × Nat)}
    (h : Matches IsParseError (ReadAt lines (index + 1)) x y)
    (hf : ∀ a next, index < next → next ≤ lines.length →
      Matches IsParseError (ReadAt lines next) (f (a, lines.drop next)) (g (a, next))) :
    Matches IsParseError (ReadAt lines index) (x >>= f) (y >>= g) := by
  refine h.bind fun a b hread => ?_
  obtain ⟨a, rest⟩ := a
  obtain ⟨_, next⟩ := b
  obtain ⟨rfl, hleft⟩ := hread
  have hforward : index < next := hleft.forward
  obtain rfl : rest = lines.drop next := hleft.left
  exact (hf a next hforward hleft.within).mono fun _ _ h => h.later (Nat.le_of_lt hforward)

/-- With fuel for the lines that are left the indexes follow the rest of the lines. -/
structure Follows (lines : List YamlLine) (fuel : Nat) : Prop where
  fields : ∀ indent parsedAny node index, index ≤ lines.length →
    lines.length - index + 1 ≤ fuel →
    Matches IsParseError (ReadAt lines index)
      (BehaviorTrees.parseYamlNodeFields fuel indent parsedAny node (lines.drop index))
      (parseYamlNodeFields lines fuel indent parsedAny node index)
  list : ∀ indent parsedAny children index, index ≤ lines.length →
    lines.length - index + 1 ≤ fuel →
    Matches IsParseError (ReadAt lines index)
      (BehaviorTrees.parseYamlNodeList fuel indent parsedAny children (lines.drop index))
      (parseYamlNodeList lines fuel indent parsedAny children index)

theorem fields_follow (ih : Follows lines fuel) {node : TreeNodeDefinition}
    (hindex : index ≤ lines.length) (hfuel : lines.length - index + 1 ≤ fuel + 1) :
    Matches IsParseError (ReadAt lines index)
      (BehaviorTrees.parseYamlNodeFields (fuel + 1) indent parsedAny node (lines.drop index))
      (parseYamlNodeFields lines (fuel + 1) indent parsedAny node index) := by
  by_cases hlt : index < lines.length
  · obtain ⟨line, -, hdrop⟩ := drop_next hlt
    have hnext : Nat.succ index ≤ lines.length := hlt
    rw [parseYamlNodeFields, if_pos hlt, access_next hdrop, ok_bind, hdrop,
      BehaviorTrees.parseYamlNodeFields]
    refine .ite (.ite (.ok _ _ ⟨rfl, hdrop.symm, Nat.le_refl _, hindex⟩) (fail_alike _)) <|
      .ite (fail_alike _) <| .ite (fail_alike _) ?_
    split
    case isTrue hstarts =>
      rw [field_value_eq hstarts]
      refine .ite (fail_alike _) ((value_raises _ _).alike fun type _ => ?_)
      exact (ih.fields _ _ _ _ hnext (by omega)).mono fun _ _ h => h.later (Nat.le_succ _)
    refine .ite ?child <| .ite ?children (fail_alike _)
    case child =>
      refine read_then (ih.fields _ _ _ _ hnext (by omega)) fun child next hforward hwithin => ?_
      exact ih.fields _ _ _ _ hwithin (by omega)
    case children =>
      refine read_then (ih.list _ _ _ _ hnext (by omega)) fun children next hforward hwithin => ?_
      exact ih.fields _ _ _ _ hwithin (by omega)
  · have hnil := drop_nil_iff.mpr (Nat.not_lt.mp hlt)
    rw [parseYamlNodeFields, if_neg hlt, hnil, BehaviorTrees.parseYamlNodeFields]
    split
    · exact .ok _ _ ⟨rfl, hnil.symm, Nat.le_refl _, hindex⟩
    · exact fail_alike _

theorem list_follow (ih : Follows lines fuel) {children : List TreeNodeDefinition}
    (hindex : index ≤ lines.length) (hfuel : lines.length - index + 1 ≤ fuel + 1) :
    Matches IsParseError (ReadAt lines index)
      (BehaviorTrees.parseYamlNodeList (fuel + 1) indent parsedAny children (lines.drop index))
      (parseYamlNodeList lines (fuel + 1) indent parsedAny children index) := by
  by_cases hlt : index < lines.length
  · obtain ⟨line, -, hdrop⟩ := drop_next hlt
    have hnext : Nat.succ index ≤ lines.length := hlt
    rw [parseYamlNodeList, if_pos hlt, access_next hdrop, ok_bind, hdrop,
      BehaviorTrees.parseYamlNodeList]
    split_ifs with hleaves hany hdeep
    case pos => exact .ok _ _ ⟨rfl, hdrop.symm, Nat.le_refl _, hindex⟩
    case neg => exact fail_alike _
    case pos => exact fail_alike _
    case neg =>
      obtain ⟨hnotless, hdash⟩ := not_or.mp hleaves
      have hsame : line.indent = indent := by omega
      have hstarts : startsWith line.text "-" = true := by
        simpa using fun h => hdash ⟨hsame, h⟩
      have hone : 1 ≤ line.text.length := starts_length hstarts
      rw [substr_ok hone, ok_bind, List.take_of_length_le (by simp)]
      dsimp only
      rw [item_type_eq]
      refine (item_type_raises _).alike fun type _ => ?_
      rw [goes_deeper, ok_bind]
      split
      · refine read_then (ih.fields _ _ _ _ hnext (by omega)) fun child next hforward hwithin => ?_
        exact ih.list _ _ _ _ hwithin (by omega)
      · exact (ih.list _ _ _ _ hnext (by omega)).mono fun _ _ h => h.later (Nat.le_succ _)
  · have hnil := drop_nil_iff.mpr (Nat.not_lt.mp hlt)
    rw [parseYamlNodeList, if_neg hlt, hnil, BehaviorTrees.parseYamlNodeList]
    split
    · exact .ok _ _ ⟨rfl, hnil.symm, Nat.le_refl _, hindex⟩
    · exact fail_alike _

theorem follows (fuel : Nat) : Follows lines fuel := by
  induction fuel with
  | zero => exact ⟨fun _ _ _ _ _ h => by omega, fun _ _ _ _ _ h => by omega⟩
  | succ fuel ih =>
    exact ⟨fun _ _ _ _ hindex hfuel => fields_follow ih hindex hfuel,
      fun _ _ _ _ hindex hfuel => list_follow ih hindex hfuel⟩

end Nodes

/-- The tree reader by indexes is the one over the rest of the lines, and what it raises is a
`ParseError`. -/
theorem document_alike (document : Text) :
    Matches IsParseError (· = ·) (BehaviorTrees.documentFromYaml document)
      (documentFromYaml document) := by
  refine (lines_alike document).bind fun lines lines' hlines => ?_
  rw [hlines]
  cases lines' with
  | nil => exact fail_alike _
  | cons first rest =>
    have haccess : access (first :: rest) 0 = .ok first := rfl
    rw [if_neg (List.cons_ne_nil _ _), haccess, ok_bind]
    dsimp only
    split
    · exact fail_alike _
    · have hfollows : Follows (first :: rest) (rest.length + 1) := follows _
      have hfields := hfollows.fields 2 false {} 1 (by simp) (by simp)
      refine hfields.bind fun x y hread => ?_
      obtain ⟨root, left⟩ := x
      obtain ⟨_, index⟩ := y
      obtain ⟨rfl, hleft⟩ := hread
      dsimp only at hleft ⊢
      have hend : left = [] ↔ ¬index ≠ (first :: rest).length := by
        rw [hleft.left, drop_nil_iff, not_not]
        exact ⟨fun h => Nat.le_antisymm hleft.within h, fun h => h.ge⟩
      by_cases he : left = []
      · rw [if_pos he, if_neg (hend.mp he)]
        exact .ok _ _ rfl
      · rw [if_neg he, if_pos (not_not.mp (mt hend.mpr he))]
        exact fail_alike _

end HumanoidCore.BehaviorTrees.Indexed
