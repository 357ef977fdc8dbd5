import HumanoidCore.BehaviorTreeParser
import HumanoidCore.MissionLoader
import HumanoidCore.Proofs.YamlComments
import HumanoidCore.Proofs.YamlNumbers

namespace HumanoidCore.Documents

/-- The document with these lines. -/
def joinLines (lines : List Text) : Text := ['\n'].intercalate lines

/-- A line that is blank or consists of blanks and a comment. -/
def Silent (line : Text) : Prop :=
  ∃ blank rest, line = blank ++ rest ∧ (∀ c ∈ blank, c = ' ' ∨ c = '\r') ∧
    (rest = [] ∨ ∃ comment, rest = '#' :: comment ∧ '\t' ∉ comment)

variable {blank line rest : Text}

theorem blanks_space (h : ∀ c ∈ blank, c = ' ' ∨ c = '\r') : ∀ c ∈ blank, isSpace c = true := by
  intro c hc
  rcases h c hc with rfl | rfl <;> decide

theorem Silent.no_tab (h : Silent line) : '\t' ∉ line := by
  obtain ⟨blank, rest, rfl, hblank, hrest⟩ := h
  intro hmem
  rcases List.mem_append.mp hmem with hmem | hmem
  · rcases hblank _ hmem with he | he <;> revert he <;> decide
  · rcases hrest with rfl | ⟨comment, rfl, htab⟩
    · cases hmem
    · simp [htab] at hmem

end HumanoidCore.Documents

namespace HumanoidCore.Missions
open Documents Lib

section Lines
variable {line comment : Text} {before after lines : List Text} {number : Nat}

theorem Silent.raw (h : Silent line) : Silent (rawLine line) := by
  unfold rawLine
  split
  case isFalse => exact h
  case isTrue hend =>
    obtain ⟨blank, rest, rfl, hblank, hrest⟩ := h
    rcases hrest with rfl | ⟨comment, rfl, htab⟩
    · rw [List.append_nil]
      exact ⟨blank.dropLast, [], (List.append_nil _).symm,
        fun c hc => hblank c (List.dropLast_subset _ hc), .inl rfl⟩
    · rcases List.eq_nil_or_concat comment with rfl | ⟨front, c, rfl⟩
      · simp at hend
      · refine ⟨blank, '#' :: front, ?_, hblank, .inr ⟨front, rfl, fun hmem => htab (by simp [hmem])⟩⟩
        have hlast : blank ++ '#' :: front.concat c = (blank ++ '#' :: front) ++ [c] := by simp
        rw [hlast, List.dropLast_concat]

/-- A line without content gives no line to read. -/
theorem silent_line (h : Silent line) (number : Nat) : yamlLine number line = .ok none := by
  have hraw := Silent.raw h
  rw [yaml_line_eq, if_neg hraw.no_tab]
  obtain ⟨blank, rest, hline, hblank, hrest⟩ := hraw
  have hspace := blanks_space hblank
  have hstrip : stripYamlComment (rawLine line) = blank := by
    rw [hline, stripYamlComment, strip_append, scan_blank hspace]
    rcases hrest with rfl | ⟨comment, rfl, -⟩
    · exact List.append_nil blank
    · simp [stripYamlCommentFrom, singleQuote, doubleQuote]
  have hnothing : shownLine number ([] ++ blank) = shownLine number [] := shown_blank hspace
  rw [List.nil_append] at hnothing
  rw [hstrip, hnothing]
  rfl

theorem yaml_lines_join (h : ∀ l ∈ lines, '\n' ∉ l) :
    yamlLines (joinLines lines) = yamlLinesFrom 1 lines := by
  by_cases hne : lines = []
  · rw [hne]
    rfl
  · rw [yamlLines, joinLines, List.splitOn_intercalate '\n' h hne]

theorem lines_commented (hends : CommentEnds line) (hcomment : '\t' ∉ comment) :
    yamlLinesFrom number (before ++ commented line comment :: after) =
      yamlLinesFrom number (before ++ line :: after) := by
  induction before generalizing number with
  | nil =>
    rw [List.nil_append, List.nil_append, yamlLinesFrom, yamlLinesFrom,
      (commented_line_iff number line hcomment).mpr hends]
  | cons first before ih => rw [List.cons_append, List.cons_append, yamlLinesFrom, yamlLinesFrom, ih]

/-- The lines are the same wherever they stand in the document. -/
theorem lines_renumbered (number number' : Nat) :
    Agree (List.Forall₂ Renumbered) (yamlLinesFrom number lines) (yamlLinesFrom number' lines) := by
  induction lines generalizing number number' with
  | nil => exact .ok _ _ .nil
  | cons first lines ih =>
    have hfirst : Agree (fun l l' => List.Forall₂ Renumbered l.toList l'.toList)
        (yamlLine number first) (yamlLine number' first) := by
      rw [yaml_line_eq, yaml_line_eq]
      split
      · exact agree_fail _ _
      · unfold shownLine
        dsimp only
        split_ifs
        · exact .ok _ _ .nil
        · exact agree_fail _ _
        · exact .ok _ _ (.cons ⟨rfl, rfl⟩ .nil)
    rw [yamlLinesFrom, yamlLinesFrom]
    refine hfirst.bind fun line line' hline => (ih _ _).bind fun rest rest' hrest => ?_
    exact .ok _ _ (List.rel_append hline hrest)

theorem lines_inserted (h : Silent line) :
    Agree (List.Forall₂ Renumbered) (yamlLinesFrom number (before ++ line :: after))
      (yamlLinesFrom number (before ++ after)) := by
  induction before generalizing number with
  | nil =>
    rw [List.nil_append, List.nil_append, yamlLinesFrom, silent_line h, ok_bind]
    have hsame : (yamlLinesFrom (number + 1) after >>= fun lines =>
        return Option.toList (none : Option YamlLine) ++ lines) = yamlLinesFrom (number + 1) after := by
      cases yamlLinesFrom (number + 1) after <;> rfl
    rw [hsame]
    exact lines_renumbered (number + 1) number
  | cons first before ih =>
    rw [List.cons_append, List.cons_append, yamlLinesFrom, yamlLinesFrom]
    refine agree_then _ fun l _ => ih.bind fun rest rest' hrest => ?_
    exact .ok _ _ (List.rel_append (List.forall₂_same.mpr fun _ _ => ⟨rfl, rfl⟩) hrest)

end Lines

section Documents
variable {convert : Convert} {line comment : Text} {before after : List Text}

theorem commented_lines (hlines : ∀ l ∈ before ++ line :: after, '\n' ∉ l)
    (hcomment : '\n' ∉ comment) : ∀ l ∈ before ++ commented line comment :: after, '\n' ∉ l := by
  intro l hl
  rcases List.mem_append.mp hl with hl | hl
  · exact hlines l (List.mem_append_left _ hl)
  rcases List.mem_cons.mp hl with rfl | hl
  · have hline := hlines line (by simp)
    simp [commented, hline, hcomment]
  · exact hlines l (by simp [hl])

theorem fewer_lines (hlines : ∀ l ∈ before ++ line :: after, '\n' ∉ l) :
    ∀ l ∈ before ++ after, '\n' ∉ l := by
  intro l hl
  refine hlines l ?_
  rcases List.mem_append.mp hl with hl | hl
  · exact List.mem_append_left _ hl
  · simp [hl]

theorem parse_commented (hlines : ∀ l ∈ before ++ line :: after, '\n' ∉ l)
    (hcomment : '\n' ∉ comment) (htab : '\t' ∉ comment) (hends : CommentEnds line) :
    parseYaml convert (joinLines (before ++ commented line comment :: after)) =
      parseYaml convert (joinLines (before ++ line :: after)) := by
  rw [parseYaml, parseYaml, missionFromYaml, missionFromYaml, yaml_lines_join (commented_lines hlines hcomment),
    yaml_lines_join hlines, lines_commented hends htab]

theorem result_agree {format : String} {x y : Reading Mission} (h : Agree (· = ·) x y) :
    (parseResult format x).success = (parseResult format y).success ∧
      (parseResult format x).mission = (parseResult format y).mission := by
  cases h with
  | error e e' => exact ⟨rfl, rfl⟩
  | ok mission mission' he =>
    rw [he]
    exact ⟨rfl, rfl⟩

theorem parse_inserted (hlines : ∀ l ∈ before ++ line :: after, '\n' ∉ l)
    (hsilent : Silent line) :
    (parseYaml convert (joinLines (before ++ line :: after))).success =
        (parseYaml convert (joinLines (before ++ after))).success ∧
      (parseYaml convert (joinLines (before ++ line :: after))).mission =
        (parseYaml convert (joinLines (before ++ after))).mission := by
  have hagree : Agree (· = ·)
      (missionFromYaml convert (joinLines (before ++ line :: after)))
      (missionFromYaml convert (joinLines (before ++ after))) := by
    rw [missionFromYaml, missionFromYaml, yaml_lines_join hlines, yaml_lines_join (fewer_lines hlines)]
    refine (lines_inserted hsilent).bind fun lines lines' hsame => ?_
    have hnil : lines = [] ↔ lines' = [] := by
      rw [← List.length_eq_zero_iff, ← List.length_eq_zero_iff, hsame.length_eq]
    by_cases hempty : lines = []
    · rw [if_pos hempty, if_pos (hnil.mp hempty)]
      exact agree_fail _ _
    · rw [if_neg hempty, if_neg (mt hnil.mpr hempty)]
      exact (mission_agree hsame).bind fun r r' hread => .ok _ _ hread.1
  exact result_agree hagree

end Documents

end HumanoidCore.Missions

namespace HumanoidCore.BehaviorTrees
open Documents
open Missions (commented trim_append_blank trim_blank)

section Lines
variable {line comment text : Text} {before after lines : List Text}

/-- What is cut off at the first hash, before or after the blanks are off. -/
theorem cut_trimmed (text : Text) :
    (if '#' ∈ trim text then trim ((trim text).takeWhile (· ≠ '#')) else trim text) =
      trim (text.takeWhile (· ≠ '#')) := by
  have hfront : ∀ c ∈ text.takeWhile isSpace, isSpace c = true := fun c hc =>
    List.mem_takeWhile_imp hc
  have hback : ∀ c ∈ (text.dropWhile isSpace).rtakeWhile isSpace, isSpace c = true := fun c hc =>
    List.mem_rtakeWhile_imp hc
  have hsplit : text = text.takeWhile isSpace ++ (trim text ++
      (text.dropWhile isSpace).rtakeWhile isSpace) := by
    rw [trim, List.rdropWhile_append_rtakeWhile, List.takeWhile_append_dropWhile]
  have hplain : ∀ c ∈ text.takeWhile isSpace, decide (c ≠ '#') = true := fun c hc =>
    decide_eq_true (Missions.blank_plain (hfront c hc)).2.2
  have hprepend : ∀ rest, trim (text.takeWhile isSpace ++ rest) = trim rest := fun rest => by
    rw [trim, List.dropWhile_append_of_pos hfront, ← trim]
  split
  case isTrue hin =>
    conv => rhs; rw [hsplit]
    have hstop : ¬∀ c ∈ trim text, decide (c ≠ '#') = true := fun hall => by
      simpa using hall '#' hin
    have hshort : ((trim text).takeWhile (· ≠ '#')).length ≠ (trim text).length := fun hlen => by
      have hall := (List.takeWhile_prefix (· ≠ '#') (l := trim text)).eq_of_length hlen
      exact hstop fun c hc => List.mem_takeWhile_imp (p := (· ≠ '#')) (hall ▸ hc)
    rw [List.takeWhile_append_of_pos hplain, hprepend, List.takeWhile_append, if_neg hshort]
  case isFalse hout =>
    have hall : ∀ c ∈ text, decide (c ≠ '#') = true := fun c hc => by
      rw [hsplit] at hc
      rcases List.mem_append.mp hc with hc | hc
      · exact hplain c hc
      rcases List.mem_append.mp hc with hc | hc
      · exact decide_eq_true fun he => hout (he ▸ hc)
      · exact decide_eq_true (Missions.blank_plain (hback c hc)).2.2
    rw [List.takeWhile_eq_self_iff.mpr hall]

/-- One round of the loop, with the comment off before the blanks. -/
theorem line_from_yaml (raw : Text) :
    lineFromYaml raw =
      if (raw.dropWhile (· = ' ')).head? = some '\t' then
        fail "YAML behavior tree indentation must use spaces"
      else
        let content := trim ((raw.dropWhile (· = ' ')).takeWhile (· ≠ '#'))
        .ok (if content = [] then none
          else some ⟨(raw.takeWhile (· = ' ')).length, content⟩) := by
  rw [lineFromYaml]
  simp only [Missions.drop_indent, cut_trimmed]

/-- Whatever stands on a line, a comment after it is cut off. -/
theorem line_commented (line comment : Text) :
    lineFromYaml (commented line comment) = lineFromYaml line := by
  rw [line_from_yaml, line_from_yaml]
  by_cases hspaces : ∀ c ∈ line, (decide (c = ' ')) = true
  · have hnone : line.dropWhile (· = ' ') = [] := List.dropWhile_eq_nil_iff.mpr hspaces
    have hrest : (commented line comment).dropWhile (· = ' ') = '#' :: comment := by
      rw [commented, List.dropWhile_append_of_pos hspaces]
      simp
    rw [hnone, hrest]
    simp
    rfl
  · obtain ⟨htake, hdrop⟩ := Missions.indent_append hspaces (' ' :: '#' :: comment)
    have hne : line.dropWhile (· = ' ') ≠ [] := fun h => hspaces (List.dropWhile_eq_nil_iff.mp h)
    rw [commented, htake, hdrop, List.head?_append_of_ne_nil _ hne]
    have hcut : trim ((line.dropWhile (· = ' ') ++ ' ' :: '#' :: comment).takeWhile (· ≠ '#')) =
        trim ((line.dropWhile (· = ' ')).takeWhile (· ≠ '#')) := by
      rw [List.takeWhile_append]
      split
      case isTrue hall =>
        have hwhole := (List.takeWhile_prefix (· ≠ '#') (l := line.dropWhile (· = ' '))).eq_of_length hall
        rw [hwhole]
        exact trim_append_blank fun c hc => by
          have he : c = ' ' := by simpa using hc
          rw [he]
          decide
      case isFalse => rfl
    rw [hcut]

theorem line_silent (h : Silent line) : lineFromYaml line = .ok none := by
  have htab : (line.dropWhile (· = ' ')).head? ≠ some '\t' := fun hhead =>
    h.no_tab ((List.dropWhile_sublist _).subset (List.mem_of_head? hhead))
  rw [line_from_yaml, if_neg htab]
  obtain ⟨blank, rest, rfl, hblank, hrest⟩ := h
  have hcut : rest.takeWhile (· ≠ '#') = [] ∧ rest.dropWhile (· = ' ') = rest := by
    rcases hrest with rfl | ⟨comment, rfl, -⟩ <;> simp
  have hspace : ∀ c ∈ ((blank ++ rest).dropWhile (· = ' ')).takeWhile (· ≠ '#'),
      isSpace c = true := by
    rw [List.dropWhile_append]
    split
    case isTrue =>
      rw [hcut.2, hcut.1]
      exact fun c hc => by cases hc
    case isFalse =>
      have hplain : ∀ c ∈ blank.dropWhile (· = ' '), decide (c ≠ '#') = true := fun c hc =>
        decide_eq_true (Missions.blank_plain
          (blanks_space hblank c ((List.dropWhile_sublist _).subset hc))).2.2
      rw [List.takeWhile_append_of_pos hplain, hcut.1, List.append_nil]
      exact fun c hc => blanks_space hblank c ((List.dropWhile_sublist _).subset hc)
  simp only [trim_blank hspace, if_true]

/-- No hash is ever read. -/
theorem line_hash {raw : Text} {read : YamlLine} (h : lineFromYaml raw = .ok (some read)) :
    '#' ∉ read.text := by
  rw [line_from_yaml] at h
  split_ifs at h with htab
  · simp at h
  have hread := Except.ok.inj h
  split_ifs at hread with hempty
  obtain rfl := Option.some.inj hread
  intro hmem
  have hin : '#' ∈ (raw.dropWhile (· = ' ')).takeWhile (· ≠ '#') :=
    (List.dropWhile_sublist _).subset ((List.rdropWhile_prefix _ _).subset hmem)
  simpa using List.mem_takeWhile_imp hin

theorem lines_join (h : ∀ l ∈ lines, '\n' ∉ l) :
    linesFromYaml (joinLines lines) =
      (lines.mapM lineFromYaml >>= fun read => .ok (read.flatMap Option.toList)) := by
  by_cases hne : lines = []
  · rw [hne]
    rfl
  · rw [linesFromYaml, joinLines, List.splitOn_intercalate '\n' h hne]
    rfl

theorem parse_commented (hlines : ∀ l ∈ before ++ line :: after, '\n' ∉ l)
    (hcomment : '\n' ∉ comment) :
    parseYaml (joinLines (before ++ commented line comment :: after)) =
      parseYaml (joinLines (before ++ line :: after)) := by
  have hread : linesFromYaml (joinLines (before ++ commented line comment :: after)) =
      linesFromYaml (joinLines (before ++ line :: after)) := by
    rw [lines_join (Missions.commented_lines hlines hcomment), lines_join hlines, List.mapM_append,
      List.mapM_append, List.mapM_cons, List.mapM_cons, line_commented]
  rw [parseYaml, parseYaml, documentFromYaml, documentFromYaml, hread]

theorem parse_inserted (hlines : ∀ l ∈ before ++ line :: after, '\n' ∉ l) (hsilent : Silent line) :
    parseYaml (joinLines (before ++ line :: after)) = parseYaml (joinLines (before ++ after)) := by
  have hread : linesFromYaml (joinLines (before ++ line :: after)) =
      linesFromYaml (joinLines (before ++ after)) := by
    rw [lines_join hlines, lines_join (Missions.fewer_lines hlines), List.mapM_append,
      List.mapM_append, List.mapM_cons, line_silent hsilent]
    cases before.mapM lineFromYaml with
    | error e => rfl
    | ok front =>
      cases after.mapM lineFromYaml with
      | error e => rfl
      | ok back => simp
  rw [parseYaml, parseYaml, documentFromYaml, documentFromYaml, hread]

end Lines
end HumanoidCore.BehaviorTrees

namespace HumanoidCore.Documents
open Missions (YamlLine commented CommentEnds inQuotes stripYamlComment yamlLine)

end HumanoidCore.Documents
