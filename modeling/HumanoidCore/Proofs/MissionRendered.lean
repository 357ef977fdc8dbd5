import HumanoidCore.Proofs.StepRoundTrip

namespace HumanoidCore.Missions
open Core Documents

section Fields
variable {convert : Convert} {b : Nat} {m m' : Mission} {lines more : List YamlLine}

theorem leaves_mission_here (text : Text) (n : Nat) :
    leavesMission b ⟨0 + b, text, n⟩ = .ok false := by
  rw [leavesMission, logical_indent_at]
  rfl

theorem mission_scalar {key : String} {value : Text}
    (hblock : key ≠ "metadata" ∧ key ≠ "steps" ∧ KeyText key) (hvalue : ValueText value)
    (happly : ∀ n, applyYamlMissionField m key value n = .ok m') :
    Reads (leavesMission b) (missionRound convert b) (Near b 0) b m [scalarRow 0 key value] m' := by
  obtain ⟨hmetadata, hsteps, hkey⟩ := hblock
  refine .row (leaves_mission_here _) (fun n rest => ?_)
  simp only [missionRound, split_row hkey hvalue, ok_bind, hmetadata, hsteps, if_false,
    scalar_round_at hkey hvalue (happly n)]

theorem mission_metadata {metadata : MissionMetadata} (h : PlainMap PlainText metadata)
    (hm : m.metadata = []) :
    Reads (leavesMission b) (missionRound convert b) (Near b 0) b m
      (blockRows 0 "metadata" (metadataRows 2 metadata)) { m with metadata } := by
  refine .optional (fun hrows => ?_) (.fields (leaves_mission_here _) ?_)
  · rw [List.map_eq_nil_iff.mp hrows, ← hm]
  · intro n inner more hinner hmore
    simp only [missionRound, split_block (show KeyText "metadata" by decide), ok_bind, if_true,
      nested, ne_eq, not_true_eq_false, if_false, hm, metadata_read h hinner hmore (by omega),
      pure_eq]

theorem step_rows_ne (s : MissionStep) : stepRows s ≠ [] := by
  simp [stepRows, entryRows]

theorem mission_steps {steps : List MissionStep} (h : ∀ s ∈ steps, PlainStep convert s)
    (hm : m.steps = []) :
    Reads (leavesMission b) (missionRound convert b) (Near b 0) b m
      (blockRows 0 "steps" (steps.flatMap stepRows))
      { m with steps := steps.map MissionStep.untimed } := by
  refine .optional (fun hrows => ?_) (.fields (leaves_mission_here _) ?_)
  · cases steps with
    | nil => rw [List.map_nil, ← hm]
    | cons s steps =>
      rw [List.flatMap_cons, List.append_eq_nil_iff] at hrows
      exact absurd hrows.1 (step_rows_ne s)
  · intro n inner more hinner hmore
    simp only [missionRound, split_block (show KeyText "steps" by decide), ok_bind,
      String.reduceEq, if_true, nested, ne_eq, not_true_eq_false, if_false, hm,
      steps_read h hinner hmore, pure_eq]

/-- The lines of a mission, however far in, are read as the mission. -/
theorem mission_read (h : PlainMission convert m) (hlines : Shown b (missionRows m) lines) :
    readWhile (leavesMission b) (missionRound convert b) {} lines = .ok (m.untimed, []) := by
  have hid : ∀ d n, applyYamlMissionField d "id" (natText m.id) n = .ok { d with id := m.id } := by
    intro d n
    simp only [applyYamlMissionField, if_true, read_uint64 h.id, ok_bind, pure_eq]
  have hname : ∀ d n, applyYamlMissionField d "name" m.name.toList n =
      .ok { d with name := m.name } := by
    intro d n
    simp [applyYamlMissionField, h.name.read]
  have hdescription : ∀ d n, applyYamlMissionField d "description" m.description.toList n =
      .ok { d with description := m.description } := by
    intro d n
    simp [applyYamlMissionField, h.description.read]
  have hversion : ∀ d n, applyYamlMissionField d "version" m.version.toList n =
      .ok { d with version := m.version } := by
    intro d n
    simp [applyYamlMissionField, h.version.read]
  have hauthor : ∀ d n, applyYamlMissionField d "author" m.author.toList n =
      .ok { d with author := m.author } := by
    intro d n
    simp [applyYamlMissionField, h.author.read]
  have hreads : Reads (leavesMission b) (missionRound convert b) (Near b 0) b {} (missionRows m)
      m.untimed :=
    .append (.cons (mission_scalar (by decide) (nat_value _) (hid _)) <|
      .cons (mission_scalar (by decide) h.name.fits (hname _)) <|
      .cons (mission_scalar (by decide) h.description.fits (hdescription _)) <|
      .cons (mission_scalar (by decide) h.version.fits (hversion _)) <|
      mission_scalar (by decide) h.author.fits (hauthor _)) <|
      .append (mission_metadata h.metadata rfl) (mission_steps h.steps rfl)
  have hend : ∀ l, ([] : List YamlLine).head? ≠ some l := fun l hl => by cases hl
  have hread := hreads.read hlines (fun l hl => absurd hl (hend l))
    (fun l hl => absurd hl (hend l))
  rwa [List.append_nil] at hread

end Fields

section Lines
variable {b e k n : Nat} {text value : Text} {key : String} {r : Row} {rows rows' : List Row}

theorem strip_plain (h : ∀ c ∈ text, c ≠ '#' ∧ c ≠ singleQuote ∧ c ≠ doubleQuote) :
    stripYamlComment text = text := by
  unfold stripYamlComment
  induction text with
  | nil => rfl
  | cons c text ih =>
    obtain ⟨hcomment, hsingle, hdouble⟩ := h c (by simp)
    simp only [stripYamlCommentFrom, hcomment, hsingle, hdouble, decide_false, Bool.false_and,
      Bool.false_eq_true, if_false, ih (fun d hd => h d (List.mem_cons_of_mem _ hd))]

/-- A plain text some blanks in makes a line as it stands. -/
theorem plain_line (h : ValueText text) (hk : k % 2 = 0) :
    yamlLine n (List.replicate k ' ' ++ text) = .ok (some ⟨k, text, n⟩) := by
  obtain ⟨c, tail, rfl⟩ := List.exists_cons_of_ne_nil h.nonempty
  have hc : isSpace c = false := h.bare.1 c rfl
  have hspace : c ≠ ' ' := by
    rintro rfl
    cases hc
  have hraw : rawLine (List.replicate k ' ' ++ c :: tail) = List.replicate k ' ' ++ c :: tail := by
    refine if_neg (fun hlast => ?_)
    rw [List.getLast?_append_of_ne_nil _ (by simp)] at hlast
    cases h.bare.2 _ hlast
  have hplain : ∀ d ∈ List.replicate k ' ' ++ c :: tail,
      d ≠ '\t' ∧ d ≠ '#' ∧ d ≠ singleQuote ∧ d ≠ doubleQuote := by
    intro d hd
    rcases List.mem_append.mp hd with hd | hd
    · obtain rfl := (List.mem_replicate.mp hd).2
      decide
    · exact (h.plain d hd).2
  have htab : '\t' ∉ List.replicate k ' ' ++ c :: tail := fun hmem => (hplain _ hmem).1 rfl
  have htake : ((List.replicate k ' ' ++ c :: tail).takeWhile (· = ' ')).length = k := by
    rw [List.takeWhile_append_of_pos (by simp)]
    simp [hspace]
  have hdrop : (List.replicate k ' ' ++ c :: tail).drop k = c :: tail := by simp
  simp only [yamlLine, hraw, htab, if_false, strip_plain (fun d hd => (hplain d hd).2), htake,
    hdrop, h.bare.trim, reduceCtorEq, hk, ne_eq, not_true_eq_false]

/-- A row that makes a line as it stands. -/
structure TidyRow (r : Row) : Prop where
  even : r.1 % 2 = 0
  text : ValueText r.2

/-- Every line end stands after a row; nothing stands after the last. -/
theorem split_rows (h : ∀ r ∈ rows, TidyRow r) :
    (rows.flatMap (Row.line b)).splitOn '\n' =
      rows.map (fun r => List.replicate (r.1 + b) ' ' ++ r.2) ++ [[]] := by
  induction rows with
  | nil => rfl
  | cons r rows ih =>
    have hend : '\n' ∉ List.replicate (r.1 + b) ' ' ++ r.2 := by
      intro hmem
      rcases List.mem_append.mp hmem with hmem | hmem
      · cases (List.mem_replicate.mp hmem).2
      · exact ((h r (by simp)).text.plain _ hmem).1 rfl
    rw [List.flatMap_cons, Row.line, List.append_assoc, List.singleton_append,
      List.splitOn_append_cons_self, List.splitOn_eq_singleton hend,
      ih (fun r hr => h r (List.mem_cons_of_mem _ hr))]
    rfl

theorem rows_shown (h : ∀ r ∈ rows, TidyRow r) (hb : b % 2 = 0) (n : Nat) :
    ∃ lines, yamlLinesFrom n (rows.map (fun r => List.replicate (r.1 + b) ' ' ++ r.2) ++ [[]]) =
      .ok lines ∧ Shown b rows lines := by
  induction rows generalizing n with
  | nil => exact ⟨[], rfl, rfl⟩
  | cons r rows ih =>
    obtain ⟨lines, hread, hshown⟩ := ih (fun r hr => h r (List.mem_cons_of_mem _ hr)) (n + 1)
    have heven : (r.1 + b) % 2 = 0 := by
      have := (h r (by simp)).even
      omega
    refine ⟨⟨r.1 + b, r.2, n⟩ :: lines, ?_, ?_⟩
    · rw [List.map_cons, List.cons_append, yamlLinesFrom, plain_line (h r (by simp)).text heven,
        ok_bind, hread]
      rfl
    · rw [Shown, List.map_cons, List.map_cons, show lines.map _ = _ from hshown]

theorem scalar_text (hkey : PlainKey key) (hvalue : ValueText value) :
    ValueText (key.toList ++ ':' :: ' ' :: value) := by
  refine ⟨by simp, row_bare hkey.key hkey.nonempty hvalue, fun c hc => ?_⟩
  simp only [List.mem_append, List.mem_cons] at hc
  rcases hc with hc | rfl | rfl | hc
  · exact hkey.plain c hc
  · decide
  · decide
  · exact hvalue.plain c hc

def TidyRows (rows : List Row) : Prop := ∀ r ∈ rows, TidyRow r

theorem TidyRows.nil : TidyRows [] := fun _ hr => by cases hr

theorem TidyRows.cons (h : TidyRow r) (hrows : TidyRows rows) : TidyRows (r :: rows) :=
  List.forall_mem_cons.mpr ⟨h, hrows⟩

theorem TidyRows.append (h : TidyRows rows) (h' : TidyRows rows') : TidyRows (rows ++ rows') :=
  List.forall_mem_append.mpr ⟨h, h'⟩

theorem TidyRows.scalar (he : e % 2 = 0) (hkey : PlainKey key) (hvalue : ValueText value)
    (hrows : TidyRows rows) : TidyRows (scalarRow e key value :: rows) :=
  .cons ⟨he, scalar_text hkey hvalue⟩ hrows

theorem TidyRows.block (he : e % 2 = 0) (hkey : PlainKey key) (hrows : TidyRows rows) :
    TidyRows (blockRows e key rows) := by
  unfold blockRows
  split
  · exact .nil
  · refine .cons ⟨he, by simp, (bare_iff.mpr hkey.trimmed).append ?_, fun c hc => ?_⟩ hrows
    · exact bare_iff.mpr (show trim [':'] = [':'] by decide)
    · rcases List.mem_append.mp hc with hc | hc
      · exact hkey.plain c hc
      · obtain rfl := List.mem_singleton.mp hc
        decide

theorem TidyRows.entry (he : e % 2 = 0) (hkey : PlainKey key) (hvalue : ValueText value)
    (hrows : TidyRows rows) : TidyRows (entryRows e key value rows) := by
  obtain ⟨hne, hbare, hplain⟩ := scalar_text hkey hvalue
  refine .cons ⟨he, by simp, ⟨fun c hc => ?_, fun c hc => hbare.2 c ?_⟩, fun c hc => ?_⟩ hrows
  · cases hc
    rfl
  · rwa [show '-' :: ' ' :: (scalarRow e key value).2 =
      ['-', ' '] ++ (key.toList ++ ':' :: ' ' :: value) from rfl,
      List.getLast?_append_of_ne_nil _ hne] at hc
  · simp only [List.mem_cons] at hc
    rcases hc with rfl | rfl | hc
    · decide
    · decide
    · exact hplain c hc

theorem TidyRows.entries {α : Type} {rowsOf : α → List Row} {xs : List α}
    (h : ∀ x ∈ xs, TidyRows (rowsOf x)) : TidyRows (xs.flatMap rowsOf) := by
  intro r hr
  obtain ⟨x, hx, hr⟩ := List.mem_flatMap.mp hr
  exact h x hx r hr

theorem TidyRows.map {α : Type} {plain : α → Prop} {text : α → Text}
    {entries : List (String × α)} (he : e % 2 = 0) (h : PlainMap plain entries)
    (hvalue : ∀ v, plain v → ValueText (text v)) :
    TidyRows (entries.map (fun x => scalarRow e x.1 (text x.2))) := by
  intro r hr
  obtain ⟨x, hx, rfl⟩ := List.mem_map.mp hr
  obtain ⟨hkey, hplain⟩ := h.plain x hx
  exact ⟨he, scalar_text hkey (hvalue x.2 hplain)⟩

end Lines

section Tidy
variable {convert : Convert} {e : Nat}

theorem metadata_tidy {metadata : MissionMetadata} (he : e % 2 = 0)
    (h : PlainMap PlainText metadata) : TidyRows (metadataRows e metadata) :=
  .map he h (fun _ hv => hv.fits)

theorem command_tidy {c : Command} (h : PlainCommand convert c) : TidyRows (commandRows 6 c) :=
  .append (.scalar (by decide) (by decide) (nat_value _) <|
    .scalar (by decide) (by decide) (command_type_word _).fits <|
    .scalar (by decide) (by decide) (priority_word _).fits <|
    .scalar (by decide) (by decide) (int_value _) .nil) <|
    .append (.block (by decide) (by decide) (.map (by decide) h.payload (fun _ => payload_value)))
      (.block (by decide) (by decide) (metadata_tidy (by decide) h.metadata))

theorem condition_tidy {c : MissionCondition} (h : PlainCondition c) :
    TidyRows (conditionRows 6 c) :=
  .entry (by decide) (by decide) (nat_value _) <|
    .append (.scalar (by decide) (by decide) h.name.fits <|
      .scalar (by decide) (by decide) (condition_type_word _).fits <|
      .scalar (by decide) (by decide) (comparison_word _).fits <|
      .scalar (by decide) (by decide) (bool_value _) <|
      .scalar (by decide) (by decide) (int_value _) <|
      .scalar (by decide) (by decide) (command_type_word _).fits <|
      .scalar (by decide) (by decide) (failure_action_word _).fits .nil)
      (.block (by decide) (by decide) (metadata_tidy (by decide) h.metadata))

theorem retry_policy_tidy (p : RetryPolicy) : TidyRows (retryPolicyRows 6 p) :=
  .scalar (by decide) (by decide) (nat_value _) <|
    .scalar (by decide) (by decide) (int_value _) <|
    .scalar (by decide) (by decide) (bool_value _) <|
    .scalar (by decide) (by decide) (bool_value _) .nil

theorem timeout_policy_tidy (p : TimeoutPolicy) : TidyRows (timeoutPolicyRows 6 p) :=
  .scalar (by decide) (by decide) (int_value _) <|
    .scalar (by decide) (by decide) (bool_value _) .nil

theorem loop_policy_tidy (p : LoopPolicy) : TidyRows (loopPolicyRows 6 p) :=
  .scalar (by decide) (by decide) (nat_value _) .nil

theorem duration_tidy (duration : Option Int) : TidyRows (durationRows 6 duration) := by
  cases duration with
  | none => exact .nil
  | some duration => exact .scalar (by decide) (by decide) (int_value _) .nil

theorem step_tidy {s : MissionStep} (h : PlainStep convert s) : TidyRows (stepRows s) :=
  .entry (by decide) (by decide) (nat_value _) <|
    .append (.scalar (by decide) (by decide) h.name.fits <|
      .scalar (by decide) (by decide) (int_value _) <|
      .scalar (by decide) (by decide) (nat_value _) <|
      .scalar (by decide) (by decide) (bool_value _) <|
      .scalar (by decide) (by decide) (bool_value _) <|
      .scalar (by decide) (by decide) (bool_value _) .nil) <|
    .append (.block (by decide) (by decide) (command_tidy h.command)) <|
    .append (.block (by decide) (by decide) (retry_policy_tidy _)) <|
    .append (.block (by decide) (by decide) (loop_policy_tidy _)) <|
    .append (.block (by decide) (by decide) (timeout_policy_tidy _)) <|
    .append (.block (by decide) (by decide) (duration_tidy _)) <|
    .append (.block (by decide) (by decide) (duration_tidy _)) <|
    .append (.block (by decide) (by decide)
      (.entries (fun c hc => condition_tidy (h.conditions c hc))))
      (.block (by decide) (by decide) (metadata_tidy (by decide) h.metadata))

theorem mission_tidy {m : Mission} (h : PlainMission convert m) : TidyRows (missionRows m) :=
  .append (.scalar (by decide) (by decide) (nat_value _) <|
    .scalar (by decide) (by decide) h.name.fits <|
    .scalar (by decide) (by decide) h.description.fits <|
    .scalar (by decide) (by decide) h.version.fits <|
    .scalar (by decide) (by decide) h.author.fits .nil) <|
    .append (.block (by decide) (by decide) (metadata_tidy (by decide) h.metadata))
      (.block (by decide) (by decide) (.entries (fun s hs => step_tidy (h.steps s hs))))

end Tidy

section RoundTrip
variable {convert : Convert} {m : Mission}

theorem keyed_lines (h : TidyRows (missionRows m)) :
    ∃ lines, yamlLines (renderYaml true m) = .ok (⟨0, "mission:".toList, 1⟩ :: lines) ∧
      Shown 2 (missionRows m) lines := by
  obtain ⟨lines, hread, hshown⟩ := rows_shown h (b := 2) (by decide) 2
  have hsplit : (renderYaml true m).splitOn '\n' = "mission:".toList ::
      ((missionRows m).map (fun r => List.replicate (r.1 + 2) ' ' ++ r.2) ++ [[]]) := by
    rw [renderYaml, if_pos rfl, Row.line, List.append_assoc, List.singleton_append,
      List.splitOn_append_cons_self, split_rows h]
    rfl
  have hkey : yamlLine 1 "mission:".toList = .ok (some ⟨0, "mission:".toList, 1⟩) := by decide
  refine ⟨lines, ?_, hshown⟩
  rw [yamlLines, hsplit, yamlLinesFrom, hkey, ok_bind, hread]
  rfl

/-- Without the key the first line is that of the id. -/
theorem bare_lines (h : TidyRows (missionRows m)) :
    ∃ lines, yamlLines (renderYaml false m) = .ok lines ∧ lines ≠ [] ∧
      missionLines lines = (0, lines) ∧ Shown 0 (missionRows m) lines := by
  rw [yamlLines, renderYaml, if_neg (by decide), split_rows h]
  obtain ⟨lines, hread, hshown⟩ := rows_shown h (b := 0) (by decide) 1
  obtain ⟨n, tail, rfl, -⟩ := Shown.cons hshown
  have hid : (scalarRow 0 "id" (natText m.id)).2 ≠ "mission:".toList := by
    intro hkey
    cases hkey
  refine ⟨_, hread, by simp, ?_, hshown⟩
  rw [missionLines, if_neg (fun hfirst => hid hfirst.2)]

/-- The canonical rendering of a mission is read as the mission. -/
theorem mission_round_trip (h : PlainMission convert m) (keyed : Bool) :
    parseYaml convert (renderYaml keyed m) = ⟨m.untimed, true, "Mission parsed successfully"⟩ := by
  have hread : missionFromYaml convert (renderYaml keyed m) = .ok m.untimed := by
    unfold missionFromYaml
    cases keyed with
    | true =>
      obtain ⟨lines, hlines, hshown⟩ := keyed_lines (mission_tidy h)
      have hroot : missionLines (⟨0, "mission:".toList, 1⟩ :: lines) = (2, lines) := rfl
      rw [hlines, ok_bind, if_neg (by simp), hroot, mission_read h hshown]
      rfl
    | false =>
      obtain ⟨lines, hlines, hne, hroot, hshown⟩ := bare_lines (mission_tidy h)
      rw [hlines, ok_bind, if_neg hne, hroot, mission_read h hshown]
      rfl
  rw [parseYaml, hread]
  rfl

end RoundTrip

section Examples

/-- Two steps, the first with entries of every kind. -/
def patrol : Mission where
  id := 7
  name := "patrol"
  description := "walk around"
  version := "1.0"
  author := "staff"
  metadata := [("site", "hall")]
  steps := [
    { id := 1
      name := "go"
      command := {
        id := 9
        type := .walk
        payload := [("fast", .bool true), ("gait", .string "slow"), ("steps", .int64 (-3))] }
      wait := some 5
      conditions := [{ id := 2, name := "ready" }, { id := 3, name := "upright" }] },
    { id := 2, name := "stay" }]

theorem mission_round_trip_patrol : parseYaml (fun _ => none) (renderYaml true patrol) =
    ⟨patrol.untimed, true, "Mission parsed successfully"⟩ :=
  mission_round_trip (by decide +kernel) true

end Examples

end HumanoidCore.Missions
