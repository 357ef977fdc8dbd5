import HumanoidCore.Proofs.MissionRoundTrip

namespace HumanoidCore.Missions
open Core Documents

section Sequences
variable {convert : Convert} {b e e' : Nat} {lines more : List YamlLine} {expected : String}

theorem entry_ends (n : Nat) (text : Text) (rest : List YamlLine) :
    Ended b e (⟨e + b, '-' :: ' ' :: text, n⟩ :: rest) := by
  intro l hl
  cases hl
  exact ⟨Nat.le_add_left b e, .inr ⟨rfl, starts_entry text⟩⟩

theorem leaves_sequence_here (n : Nat) (text : Text) :
    leavesSequence expected e b ⟨e + b, '-' :: ' ' :: text, n⟩ = .ok false := by
  simp [leavesSequence, logical_indent_at, starts_entry]

theorem leaves_sequence_outside (h : Near b e' more) (he : e' < e) :
    Stops (leavesSequence expected e b) more := by
  intro l hl
  obtain ⟨hlow, hhigh⟩ := h l hl
  have hin : ¬ l.indent < b := by omega
  have hout : l.indent - b < e := by omega
  simp [leavesSequence, logicalIndent, hin, hout]

/-- A sequence is read entry by entry, each from its dash to the next. -/
theorem sequence_read {α β : Type} {xs : List α} {key : String} {value : α → Text}
    {rows : α → List Row} {read : List YamlLine → Reading (β × List YamlLine)} {f : α → β}
    (hread : ∀ x ∈ xs, ∀ n inner more, Shown b (rows x) inner → Ended b e more →
      read (⟨e + b, '-' :: ' ' :: (scalarRow e key (value x)).2, n⟩ :: (inner ++ more)) =
        .ok (f x, more))
    (hlines : Shown b (xs.flatMap (fun x => entryRows e key (value x) (rows x))) lines)
    (hmore : Near b e' more) (he : e' < e) :
    readWhile (leavesSequence expected e b) (fun acc line rest => do
      let (y, rest) ← read (line :: rest)
      return (acc ++ [y], rest)) [] (lines ++ more) = .ok (xs.map f, more) := by
  have hentries : Reads (leavesSequence expected e b) (fun (acc : List β) line rest => do
      let (y, rest) ← read (line :: rest)
      return (acc ++ [y], rest)) (Ended b e) b []
      (xs.flatMap (fun x => entryRows e key (value x) (rows x)))
      (xs.foldl (fun acc x => acc ++ [f x]) []) := by
    refine Reads.entries xs ?_
    intro acc x hx
    refine .block (fun n => entry_ends n _) (fun n => leaves_sequence_here n _) ?_
    intro n inner more hinner hmore
    simp only [hread x hx n inner more hinner hmore, ok_bind, pure_eq]
  have hsnoc : xs.foldl (fun acc x => acc ++ [f x]) [] = xs.map f := by
    rw [List.foldl_append_eq_append, List.nil_append, ← List.flatMap_def, List.map_eq_flatMap]
  rw [hsnoc] at hentries
  exact hentries.read hlines (hmore.ended he) (leaves_sequence_outside hmore he)

theorem conditions_read {conditions : List MissionCondition}
    (h : ∀ c ∈ conditions, PlainCondition c)
    (hlines : Shown b (conditions.flatMap (conditionRows e)) lines) (hmore : Near b e' more)
    (he : e' < e) :
    parseYamlConditions convert e b [] (lines ++ more) = .ok (conditions, more) := by
  have hall : parseYamlConditions convert e b [] (lines ++ more) =
      .ok (conditions.map id, more) :=
    sequence_read (fun c hc _ _ _ hinner hend => condition_read (h c hc) rfl hinner hend) hlines
      hmore he
  rwa [List.map_id] at hall

end Sequences

section Steps
variable {convert : Convert} {b : Nat} {s s' : MissionStep} {lines more : List YamlLine}

theorem leaves_step_here (text : Text) (n : Nat) :
    leavesStep b ⟨4 + b, text, n⟩ = .ok false := by
  simp [leavesStep, logical_indent_at]

theorem leaves_step_outside (h : Ended b 2 more) : Stops (leavesStep b) more := by
  intro l hl
  obtain ⟨hlow, hhigh⟩ := h l hl
  have hin : ¬ l.indent < b := by omega
  have hout : l.indent - b < 4 := by omega
  simp [leavesStep, logicalIndent, hin, hout]

/-- The keys of a step that open a block. -/
def stepBlocks : List String :=
  ["command", "retry_policy", "loop_policy", "timeout_policy", "wait", "delay", "conditions",
    "metadata"]

theorem step_scalar {key : String} {value : Text} (hblock : key ∉ stepBlocks) (hkey : KeyText key)
    (hvalue : ValueText value) (happly : ∀ n, applyYamlStepField s key value n = .ok s') :
    Reads (leavesStep b) (stepRound convert b) (Near b 4) b s [scalarRow 4 key value] s' := by
  refine .row (leaves_step_here _) (fun n rest => ?_)
  simp only [stepBlocks, List.mem_cons, List.not_mem_nil, or_false, not_or] at hblock
  simp only [stepRound, split_row hkey hvalue, ok_bind, hblock, if_false,
    scalar_round_at hkey hvalue (happly n)]

theorem step_block {key : String} {rows : List Row} (hempty : rows = [] → s = s')
    (hround : ∀ n inner more, Shown b rows inner → Near b 4 more →
      stepRound convert b s ⟨4 + b, key.toList ++ [':'], n⟩ (inner ++ more) = .ok (s', more)) :
    Reads (leavesStep b) (stepRound convert b) (Near b 4) b s (blockRows 4 key rows) s' :=
  .optional hempty (.fields (leaves_step_here _) hround)

theorem step_command {c : Command} (h : PlainCommand convert c) (hs : s.command = { id := 0 }) :
    Reads (leavesStep b) (stepRound convert b) (Near b 4) b s
      (blockRows 4 "command" (commandRows 6 c)) { s with command := { c with timestamp := 0 } } := by
  refine step_block (by simp [commandRows]) ?_
  intro n inner more hinner hmore
  simp only [stepRound, split_block (show KeyText "command" by decide), ok_bind, if_true, nested,
    ne_eq, not_true_eq_false, if_false, hs, command_read h hinner hmore (by omega), pure_eq]

theorem step_retry_policy {p : RetryPolicy} (h : IsInt64 p.delayBetweenAttempts)
    (hs : s.retryPolicy = {}) :
    Reads (leavesStep b) (stepRound convert b) (Near b 4) b s
      (blockRows 4 "retry_policy" (retryPolicyRows 6 p)) { s with retryPolicy := p } := by
  refine step_block (by simp [retryPolicyRows]) ?_
  intro n inner more hinner hmore
  simp only [stepRound, split_block (show KeyText "retry_policy" by decide), ok_bind,
    String.reduceEq, if_true, nested, ne_eq, not_true_eq_false, if_false, hs,
    retry_policy_read h hinner hmore (by omega), pure_eq]

theorem step_loop_policy {p : LoopPolicy} (hs : s.loopPolicy = {}) :
    Reads (leavesStep b) (stepRound convert b) (Near b 4) b s
      (blockRows 4 "loop_policy" (loopPolicyRows 6 p)) { s with loopPolicy := p } := by
  refine step_block (by simp [loopPolicyRows]) ?_
  intro n inner more hinner hmore
  simp only [stepRound, split_block (show KeyText "loop_policy" by decide), ok_bind,
    String.reduceEq, if_true, nested, ne_eq, not_true_eq_false, if_false, hs,
    loop_policy_read hinner hmore (by omega), pure_eq]

theorem step_timeout_policy {p : TimeoutPolicy} (h : IsInt64 p.timeout)
    (hs : s.timeoutPolicy = {}) :
    Reads (leavesStep b) (stepRound convert b) (Near b 4) b s
      (blockRows 4 "timeout_policy" (timeoutPolicyRows 6 p)) { s with timeoutPolicy := p } := by
  refine step_block (by simp [timeoutPolicyRows]) ?_
  intro n inner more hinner hmore
  simp only [stepRound, split_block (show KeyText "timeout_policy" by decide), ok_bind,
    String.reduceEq, if_true, nested, ne_eq, not_true_eq_false, if_false, hs,
    timeout_policy_read h hinner hmore (by omega), pure_eq]

/-- A step that does not wait has no row for it. -/
theorem step_wait {wait : Option Int} (h : ∀ duration ∈ wait, IsInt64 duration)
    (hs : s.wait = none) :
    Reads (leavesStep b) (stepRound convert b) (Near b 4) b s
      (blockRows 4 "wait" (durationRows 6 wait)) { s with wait } := by
  cases wait with
  | none =>
    have hsame : { s with wait := none } = s := by rw [← hs]
    rw [hsame]
    exact .nil
  | some duration =>
    refine step_block (by simp [durationRows]) ?_
    intro n inner more hinner hmore
    simp only [stepRound, split_block (show KeyText "wait" by decide), ok_bind, String.reduceEq,
      if_true, nested, ne_eq, not_true_eq_false, if_false,
      wait_step_read (h duration rfl) hinner hmore (by omega), pure_eq]

theorem step_delay {delay : Option Int} (h : ∀ duration ∈ delay, IsInt64 duration)
    (hs : s.delay = none) :
    Reads (leavesStep b) (stepRound convert b) (Near b 4) b s
      (blockRows 4 "delay" (durationRows 6 delay)) { s with delay } := by
  cases delay with
  | none =>
    have hsame : { s with delay := none } = s := by rw [← hs]
    rw [hsame]
    exact .nil
  | some duration =>
    refine step_block (by simp [durationRows]) ?_
    intro n inner more hinner hmore
    simp only [stepRound, split_block (show KeyText "delay" by decide), ok_bind, String.reduceEq,
      if_true, nested, ne_eq, not_true_eq_false, if_false,
      delay_step_read (h duration rfl) hinner hmore (by omega), pure_eq]

theorem condition_rows_ne (e : Nat) (c : MissionCondition) : conditionRows e c ≠ [] := by
  simp [conditionRows, entryRows]

theorem step_conditions {conditions : List MissionCondition}
    (h : ∀ c ∈ conditions, PlainCondition c) (hs : s.conditions = []) :
    Reads (leavesStep b) (stepRound convert b) (Near b 4) b s
      (blockRows 4 "conditions" (conditions.flatMap (conditionRows 6))) { s with conditions } := by
  refine step_block (fun hrows => ?_) ?_
  · cases conditions with
    | nil => rw [← hs]
    | cons c conditions =>
      rw [List.flatMap_cons, List.append_eq_nil_iff] at hrows
      exact absurd hrows.1 (condition_rows_ne 6 c)
  · intro n inner more hinner hmore
    simp only [stepRound, split_block (show KeyText "conditions" by decide), ok_bind,
      String.reduceEq, if_true, nested, ne_eq, not_true_eq_false, if_false, hs,
      conditions_read h hinner hmore (by omega), pure_eq]

theorem step_metadata {metadata : MissionMetadata} (h : PlainMap PlainText metadata)
    (hs : s.metadata = []) :
    Reads (leavesStep b) (stepRound convert b) (Near b 4) b s
      (blockRows 4 "metadata" (metadataRows 6 metadata)) { s with metadata } := by
  refine step_block (fun hrows => ?_) ?_
  · rw [List.map_eq_nil_iff.mp hrows, ← hs]
  · intro n inner more hinner hmore
    simp only [stepRound, split_block (show KeyText "metadata" by decide), ok_bind,
      String.reduceEq, if_true, nested, ne_eq, not_true_eq_false, if_false, hs,
      metadata_read h hinner hmore (by omega), pure_eq]

def MissionStep.untimed (s : MissionStep) : MissionStep :=
  { s with command := { s.command with timestamp := 0 } }

theorem step_read (h : PlainStep convert s) {n : Nat} {inner : List YamlLine} {r : Row}
    {rows : List Row} (hrows : stepRows s = r :: rows) (hinner : Shown b rows inner)
    (hmore : Ended b 2 more) :
    parseYamlStep convert b (⟨r.1 + b, r.2, n⟩ :: (inner ++ more)) = .ok (s.untimed, more) := by
  cases hrows
  have hid : ∀ d n, applyYamlStepField d "id" (natText s.id) n = .ok { d with id := s.id } := by
    intro d n
    simp only [applyYamlStepField, if_true, read_uint64 h.id, ok_bind, pure_eq]
  have hname : ∀ d n, applyYamlStepField d "name" s.name.toList n =
      .ok { d with name := s.name } := by
    intro d n
    simp [applyYamlStepField, h.name.read]
  have htimeout : ∀ d n, applyYamlStepField d "timeout_ms" (intText s.timeout) n =
      .ok { d with timeout := s.timeout } := by
    intro d n
    simp [applyYamlStepField, read_int64 h.timeout]
  have hretry : ∀ d n, applyYamlStepField d "retry" (natText s.retry.toNat) n =
      .ok { d with retry := s.retry } := by
    intro d n
    simp [applyYamlStepField, read_uint32]
  have henabled : ∀ d n, applyYamlStepField d "enabled" (boolText s.enabled) n =
      .ok { d with enabled := s.enabled } := by
    intro d n
    simp [applyYamlStepField, read_bool]
  have hskip : ∀ d n, applyYamlStepField d "skip" (boolText s.skip) n =
      .ok { d with skip := s.skip } := by
    intro d n
    simp [applyYamlStepField, read_bool]
  have habort : ∀ d n, applyYamlStepField d "abort" (boolText s.abort) n =
      .ok { d with abort := s.abort } := by
    intro d n
    simp [applyYamlStepField, read_bool]
  rw [parseYamlStep, scalarRow, first_field_at (by decide) (by decide) (nat_value s.id), hid,
    ok_bind]
  refine Reads.read ?_ hinner (hmore.near.mono (show 2 ≤ 4 by decide)) (leaves_step_outside hmore)
  exact .append (.cons (step_scalar (by decide) (by decide) h.name.fits (hname _)) <|
    .cons (step_scalar (by decide) (by decide) (int_value _) (htimeout _)) <|
    .cons (step_scalar (by decide) (by decide) (nat_value _) (hretry _)) <|
    .cons (step_scalar (by decide) (by decide) (bool_value _) (henabled _)) <|
    .cons (step_scalar (by decide) (by decide) (bool_value _) (hskip _)) <|
    step_scalar (by decide) (by decide) (bool_value _) (habort _)) <|
    .append (step_command h.command rfl) <|
    .append (step_retry_policy h.delayBetweenAttempts rfl) <|
    .append (step_loop_policy rfl) <|
    .append (step_timeout_policy h.policyTimeout rfl) <|
    .append (step_wait h.wait rfl) <|
    .append (step_delay h.delay rfl) <|
    .append (step_conditions h.conditions rfl) (step_metadata h.metadata rfl)

theorem steps_read {steps : List MissionStep} (h : ∀ s ∈ steps, PlainStep convert s)
    (hlines : Shown b (steps.flatMap stepRows) lines) (hmore : Near b 0 more) :
    parseYamlSteps convert b [] (lines ++ more) = .ok (steps.map MissionStep.untimed, more) :=
  sequence_read (fun s hs _ _ _ hinner hend => step_read (h s hs) rfl hinner hend) hlines hmore
    (by decide)

end Steps

end HumanoidCore.Missions
