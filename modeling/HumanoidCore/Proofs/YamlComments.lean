import HumanoidCore.MissionYaml
import Mathlib.Data.List.Count

namespace HumanoidCore.Missions
open Documents

/-- The two flags of `StripYamlComment` after a text; `none` once a comment has begun. -/
def scanFrom (inSingle inDouble : Bool) : Text → Option (Bool × Bool)
  | [] => some (inSingle, inDouble)
  | current :: rest =>
    if current = singleQuote && !inDouble then scanFrom (!inSingle) inDouble rest
    else if current = doubleQuote && !inSingle then scanFrom inSingle (!inDouble) rest
    else if current = '#' && !inSingle && !inDouble then none
    else scanFrom inSingle inDouble rest

/-- A quote that was opened in the line has not been closed. -/
def inQuotes (text : Text) : Bool := (scanFrom false false text).any (fun q => q.1 || q.2)

/-- The line with a blank and a comment after it. -/
def commented (line comment : Text) : Text := line ++ ' ' :: '#' :: comment

section Trim
variable {text blank : Text}

theorem trim_blank (h : ∀ c ∈ blank, isSpace c = true) : trim blank = [] := by
  have hdrop : blank.dropWhile isSpace = [] := List.dropWhile_eq_nil_iff.mpr h
  rw [trim, hdrop]
  rfl

/-- Blanks at the end do not count. -/
theorem trim_append_blank (h : ∀ c ∈ blank, isSpace c = true) : trim (text ++ blank) = trim text := by
  rw [trim, trim, List.dropWhile_append]
  split
  case isTrue hnone =>
    have hdrop : blank.dropWhile isSpace = [] := List.dropWhile_eq_nil_iff.mpr h
    rw [hdrop, List.isEmpty_iff.mp hnone]
  case isFalse =>
    rw [List.rdropWhile, List.reverse_append, List.dropWhile_append_of_pos (by simpa using h),
      ← List.rdropWhile]

/-- Only blanks are taken off. -/
theorem trim_filter (text : Text) :
    (trim text).filter (fun c => !isSpace c) = text.filter (fun c => !isSpace c) := by
  have hfront : (text.takeWhile isSpace).filter (fun c => !isSpace c) = [] := by
    refine List.filter_eq_nil_iff.mpr fun c hc => ?_
    simp [List.mem_takeWhile_imp hc]
  have hback : ((text.dropWhile isSpace).rtakeWhile isSpace).filter (fun c => !isSpace c) = [] := by
    refine List.filter_eq_nil_iff.mpr fun c hc => ?_
    simp [List.mem_rtakeWhile_imp hc]
  have hsplit : text = text.takeWhile isSpace ++ (trim text ++
      (text.dropWhile isSpace).rtakeWhile isSpace) := by
    rw [trim, List.rdropWhile_append_rtakeWhile, List.takeWhile_append_dropWhile]
  conv => rhs; rw [hsplit]
  rw [List.filter_append, List.filter_append, hfront, hback, List.nil_append, List.append_nil]

end Trim

section Scan
variable {inSingle inDouble : Bool} {text front tail : Text}

/-- What is cut off after a text depends on where the scan is there. -/
theorem strip_append (inSingle inDouble : Bool) (front tail : Text) :
    stripYamlCommentFrom inSingle inDouble (front ++ tail) =
      match scanFrom inSingle inDouble front with
      | none => stripYamlCommentFrom inSingle inDouble front
      | some (single, double) => front ++ stripYamlCommentFrom single double tail := by
  induction front generalizing inSingle inDouble with
  | nil => rfl
  | cons current front ih =>
    rw [List.cons_append, stripYamlCommentFrom, scanFrom, stripYamlCommentFrom]
    split_ifs
    · rw [ih]
      cases scanFrom (!inSingle) inDouble front <;> rfl
    · rw [ih]
      cases scanFrom inSingle (!inDouble) front <;> rfl
    · rfl
    · rw [ih]
      cases scanFrom inSingle inDouble front <;> rfl

/-- Without a comment nothing is cut off. -/
theorem strip_scanned {single double : Bool}
    (h : scanFrom inSingle inDouble text = some (single, double)) :
    stripYamlCommentFrom inSingle inDouble text = text := by
  have happend := strip_append inSingle inDouble text []
  rw [List.append_nil, h] at happend
  simpa [stripYamlCommentFrom] using happend

theorem strip_length (inSingle inDouble : Bool) (text : Text) :
    (stripYamlCommentFrom inSingle inDouble text).length ≤ text.length := by
  induction text generalizing inSingle inDouble with
  | nil => exact Nat.le_refl _
  | cons current rest ih =>
    rw [stripYamlCommentFrom]
    split_ifs
    · exact Nat.succ_le_succ (ih _ _)
    · exact Nat.succ_le_succ (ih _ _)
    · exact Nat.zero_le _
    · exact Nat.succ_le_succ (ih _ _)

/-- A hash is kept where a quote is open, and only there. -/
theorem hash_kept_iff (left right : Text) :
    left ++ ['#'] <+: stripYamlComment (left ++ '#' :: right) ↔ inQuotes left = true := by
  rw [stripYamlComment, strip_append, inQuotes]
  cases hscan : scanFrom false false left with
  | none =>
    refine iff_of_false (fun hstart => ?_) (by simp)
    have hlong := hstart.length_le
    have hshort := strip_length false false left
    simp only [List.length_append, List.length_singleton] at hlong
    omega
  | some q =>
    obtain ⟨single, double⟩ := q
    rw [Option.any_some, List.prefix_append_right_inj, stripYamlCommentFrom]
    cases single <;> cases double <;> simp [singleQuote, doubleQuote]

theorem blank_plain {c : Char} (h : isSpace c = true) :
    c ≠ singleQuote ∧ c ≠ doubleQuote ∧ c ≠ '#' := by
  refine ⟨?_, ?_, ?_⟩ <;> rintro rfl <;> revert h <;> decide

theorem scan_cons_plain {c : Char} (hsingle : c ≠ singleQuote) (hdouble : c ≠ doubleQuote)
    (hhash : c ≠ '#') (inSingle inDouble : Bool) (rest : Text) :
    scanFrom inSingle inDouble (c :: rest) = scanFrom inSingle inDouble rest := by
  simp [scanFrom, hsingle, hdouble, hhash]

theorem scan_blank (h : ∀ c ∈ text, isSpace c = true) (inSingle inDouble : Bool) :
    scanFrom inSingle inDouble text = some (inSingle, inDouble) := by
  induction text with
  | nil => rfl
  | cons c rest ih =>
    obtain ⟨hsingle, hdouble, hhash⟩ := blank_plain (h c (List.mem_cons_self ..))
    rw [scan_cons_plain hsingle hdouble hhash]
    exact ih fun c hc => h c (List.mem_cons_of_mem _ hc)

end Scan

/-- The rest of a round of `YamlLines`, once the comment is off. -/
def shownLine (number : Nat) (withoutComment : Text) : Reading (Option YamlLine) :=
  let indent := (withoutComment.takeWhile (· = ' ')).length
  let content := trim (withoutComment.drop indent)
  if content = [] then .ok none
  else if indent % 2 ≠ 0 then
    fail ("YAML indentation must use multiples of two spaces at line " ++ toString number)
  else .ok (some ⟨indent, content, number⟩)

section Lines
variable {number : Nat} {line comment text blank tail : Text}

theorem yaml_line_eq (number : Nat) (piece : Text) :
    yamlLine number piece =
      if '\t' ∈ rawLine piece then
        fail ("YAML tabs are not supported at line " ++ toString number)
      else shownLine number (stripYamlComment (rawLine piece)) := rfl

/-- What is taken off the end of a line. -/
theorem raw_line (piece : Text) : ∃ ending, (ending = [] ∨ ending = ['\r']) ∧
    piece = rawLine piece ++ ending := by
  unfold rawLine
  split
  case isTrue h => exact ⟨['\r'], .inr rfl, (List.dropLast_append_getLast? '\r' h).symm⟩
  case isFalse => exact ⟨[], .inl rfl, (List.append_nil piece).symm⟩

theorem raw_commented (line comment : Text) (htab : '\t' ∉ comment) :
    ∃ comment', '\t' ∉ comment' ∧ rawLine (commented line comment) = commented line comment' := by
  unfold rawLine
  split
  case isTrue h =>
    rcases List.eq_nil_or_concat comment with rfl | ⟨front, c, rfl⟩
    · simp [commented] at h
    · refine ⟨front, fun hmem => htab (by simp [hmem]), ?_⟩
      have hlast : commented line (front.concat c) = commented line front ++ [c] := by
        simp [commented]
      rw [hlast, List.dropLast_concat]
  case isFalse => exact ⟨comment, htab, rfl⟩

theorem drop_indent (text : Text) :
    text.drop (text.takeWhile (· = ' ')).length = text.dropWhile (· = ' ') := by
  have hleft : (text.takeWhile (· = ' ') ++ text.dropWhile (· = ' ')).drop
      (text.takeWhile (· = ' ')).length = text.dropWhile (· = ' ') := List.drop_left
  rwa [List.takeWhile_append_dropWhile] at hleft

/-- What is appended does not change how far a line that is not blank is in. -/
theorem indent_append (h : ¬∀ c ∈ text, (decide (c = ' ')) = true) (tail : Text) :
    (text ++ tail).takeWhile (· = ' ') = text.takeWhile (· = ' ') ∧
      (text ++ tail).dropWhile (· = ' ') = text.dropWhile (· = ' ') ++ tail := by
  constructor
  · have hshort : (text.takeWhile (· = ' ')).length ≠ text.length := fun hlen => by
      have hall := (List.takeWhile_prefix (· = ' ') (l := text)).eq_of_length hlen
      exact h fun c hc => List.mem_takeWhile_imp (p := (· = ' ')) (hall ▸ hc)
    rw [List.takeWhile_append, if_neg hshort]
  · have hleft : (text.dropWhile (· = ' ')).isEmpty = false := by
      rw [Bool.eq_false_iff, ne_eq, List.isEmpty_iff, List.dropWhile_eq_nil_iff]
      exact h
    rw [List.dropWhile_append, hleft, if_neg Bool.false_ne_true]

/-- Blanks after the content of a line do not count. -/
theorem shown_blank (h : ∀ c ∈ blank, isSpace c = true) :
    shownLine number (text ++ blank) = shownLine number text := by
  unfold shownLine
  simp only [drop_indent]
  by_cases hspaces : ∀ c ∈ text, (decide (c = ' ')) = true
  · have hnone : trim (text.dropWhile (· = ' ')) = [] := by
      rw [List.dropWhile_eq_nil_iff.mpr hspaces]
      rfl
    have hnone' : trim ((text ++ blank).dropWhile (· = ' ')) = [] := by
      rw [List.dropWhile_append_of_pos hspaces]
      exact trim_blank fun c hc => h c ((List.dropWhile_sublist _).subset hc)
    rw [if_pos hnone, if_pos hnone']
  · obtain ⟨htake, hdrop⟩ := indent_append hspaces blank
    rw [hdrop, htake, trim_append_blank h]

theorem plain_space {c : Char} (h : isSpace c = false) : c ≠ ' ' := by
  rintro rfl
  revert h
  decide

/-- A hash that is kept shows in the content, unless the indentation is refused. -/
theorem shown_hash (h : ∃ c ∈ text, isSpace c = false) (hhash : '#' ∈ tail) :
    shownLine number (text ++ tail) = shownLine number text ↔
      (text.takeWhile (· = ' ')).length % 2 ≠ 0 := by
  obtain ⟨c, hc, hplain⟩ := h
  have hspaces : ¬∀ c ∈ text, (decide (c = ' ')) = true := fun hall =>
    plain_space hplain (of_decide_eq_true (hall c hc))
  obtain ⟨htake, hdrop⟩ := indent_append hspaces tail
  have hin : c ∈ text.dropWhile (· = ' ') := by
    have hsplit := List.takeWhile_append_dropWhile (p := (· = ' ')) (l := text)
    rw [← hsplit] at hc
    rcases List.mem_append.mp hc with hc | hc
    · exact absurd (by simpa using List.mem_takeWhile_imp hc) (plain_space hplain)
    · exact hc
  have hkept : ∀ rest : Text, c ∈ rest → trim rest ≠ [] := fun rest hc hnil => by
    have hfilter := trim_filter rest
    rw [hnil, List.filter_nil] at hfilter
    have hmem : c ∈ rest.filter (fun c => !isSpace c) := List.mem_filter.mpr ⟨hc, by simp [hplain]⟩
    rw [← hfilter] at hmem
    cases hmem
  unfold shownLine
  simp only [drop_indent]
  rw [hdrop, htake, if_neg (hkept _ hin), if_neg (hkept _ (List.mem_append_left _ hin))]
  by_cases hodd : (text.takeWhile (· = ' ')).length % 2 ≠ 0
  · rw [if_pos hodd, if_pos hodd]
    exact iff_of_true rfl hodd
  · rw [if_neg hodd, if_neg hodd]
    refine iff_of_false (fun he => ?_) hodd
    -- the blanks apart, the content has become longer
    have hcontent : trim (text.dropWhile (· = ' ') ++ tail) = trim (text.dropWhile (· = ' ')) := by
      simpa using he
    have hfilter := congrArg (List.filter fun c => !isSpace c) hcontent
    rw [trim_filter, trim_filter, List.filter_append, List.append_right_eq_self] at hfilter
    have hmem : '#' ∈ tail.filter (fun c => !isSpace c) :=
      List.mem_filter.mpr ⟨hhash, by decide⟩
    rw [hfilter] at hmem
    cases hmem

/-- Where the reader of a line stands: it is refused, or no quote is open at its end. -/
def CommentEnds (line : Text) : Prop :=
  '\t' ∈ line ∨ inQuotes (rawLine line) = false ∨
    ((rawLine line).takeWhile (· = ' ')).length % 2 ≠ 0

theorem commented_line_iff (number : Nat) (line : Text) (hcomment : '\t' ∉ comment) :
    yamlLine number (commented line comment) = yamlLine number line ↔ CommentEnds line := by
  obtain ⟨comment', htab', hraw⟩ := raw_commented line comment hcomment
  obtain ⟨ending, hending, hline⟩ := raw_line line
  have hblank : ∀ c ∈ ending, isSpace c = true := by
    rcases hending with rfl | rfl
    · exact fun c hc => by cases hc
    · exact fun c hc => by rw [List.mem_singleton.mp hc]; decide
  have htab : ('\t' ∈ commented line comment' ↔ '\t' ∈ rawLine line) ∧
      ('\t' ∈ line ↔ '\t' ∈ rawLine line) := by
    have hnot : '\t' ∉ ending := by rcases hending with rfl | rfl <;> decide
    have hmem : '\t' ∈ line ↔ '\t' ∈ rawLine line := by
      conv => lhs; rw [hline]
      simp [hnot]
    refine ⟨?_, hmem⟩
    rw [← hmem]
    simp [commented, htab']
  rw [yaml_line_eq, yaml_line_eq, hraw, CommentEnds]
  by_cases hline' : '\t' ∈ rawLine line
  · rw [if_pos (htab.1.mpr hline'), if_pos hline']
    exact iff_of_true rfl (.inl (htab.2.mpr hline'))
  rw [if_neg (mt htab.1.mp hline'), if_neg hline']
  have hwhole : commented line comment' = rawLine line ++ (ending ++ ' ' :: '#' :: comment') := by
    conv => lhs; rw [commented, hline]
    rw [List.append_assoc]
  rw [hwhole, stripYamlComment, stripYamlComment, strip_append]
  have hnone : '\t' ∉ line := mt htab.2.mp hline'
  cases hscan : scanFrom false false (rawLine line) with
  | none =>
    exact iff_of_true rfl (.inr (.inl (by rw [inQuotes, hscan]; rfl)))
  | some q =>
    obtain ⟨single, double⟩ := q
    rw [strip_scanned hscan]
    have htail : stripYamlCommentFrom single double (ending ++ ' ' :: '#' :: comment') =
        ending ++ ' ' :: stripYamlCommentFrom single double ('#' :: comment') := by
      have hrest := strip_append single double (ending ++ [' ']) ('#' :: comment')
      rw [scan_blank (by simpa [or_imp, forall_and] using ⟨hblank, by decide⟩)] at hrest
      simpa using hrest
    dsimp only
    rw [htail]
    cases hopen : single || double with
    | false =>
      obtain ⟨rfl, rfl⟩ := Bool.or_eq_false_iff.mp hopen
      refine iff_of_true ?_ (.inr (.inl (by rw [inQuotes, hscan]; rfl)))
      refine shown_blank fun c hc => ?_
      have hcut : stripYamlCommentFrom false false ('#' :: comment') = [] := by
        simp [stripYamlCommentFrom, singleQuote, doubleQuote]
      rw [hcut] at hc
      rcases List.mem_append.mp hc with hc | hc
      · exact hblank c hc
      · rw [List.mem_singleton.mp hc]
        decide
    | true =>
      have hplain : ∃ c ∈ rawLine line, isSpace c = false := by
        by_contra hall
        have hspace : ∀ c ∈ rawLine line, isSpace c = true := fun c hc => by
          simpa using fun h => hall ⟨c, hc, h⟩
        rw [scan_blank hspace] at hscan
        cases hscan
        cases hopen
      have hkept : '#' ∈ ending ++ ' ' :: stripYamlCommentFrom single double ('#' :: comment') := by
        have hfirst : stripYamlCommentFrom single double ('#' :: comment') =
            '#' :: stripYamlCommentFrom single double comment' := by
          rw [stripYamlCommentFrom]
          revert hopen
          cases single <;> cases double <;> simp [singleQuote, doubleQuote]
        rw [hfirst]
        simp
      rw [shown_hash hplain hkept]
      have hquotes : inQuotes (rawLine line) = true := by
        rw [inQuotes, hscan]
        exact hopen
      rw [hquotes]
      simp [hnone]

end Lines
end HumanoidCore.Missions
