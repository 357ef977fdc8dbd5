import HumanoidCore.MissionYamlIndex
import HumanoidCore.Proofs.DocumentLines
import HumanoidCore.Proofs.YamlFields

namespace HumanoidCore.Missions
open Core Documents Lib

section Raises
variable {α : Type} {line : YamlLine} {e b : Nat}

theorem known_raises (found : Option α) (message : String) :
    Raises IsParseError (known found message) := by
  unfold known
  split
  · exact raises_ok _ _
  · exact fail_raises _

theorem uint64_raises (text : Text) (field : String) :
    Raises IsParseError (parseUint64 text field) := by
  unfold parseUint64
  split
  · split
    · exact raises_ok _ _
    · exact fail_raises _
  · exact fail_raises _

theorem int64_raises (text : Text) (field : String) :
    Raises IsParseError (parseInt64 text field) := by
  unfold parseInt64
  split
  · exact raises_ok _ _
  · exact fail_raises _

theorem double_raises (convert : Convert) (text : Text) (field : String) :
    Raises IsParseError (parseDouble convert text field) := by
  unfold parseDouble
  split
  · exact raises_ok _ _
  · exact fail_raises _

theorem uint32_raises (text : Text) (field : String) :
    Raises IsParseError (parseUint32 text field) := by
  refine (uint64_raises text field).bind fun value _ => ?_
  split
  · exact fail_raises _
  · exact raises_ok _ _

theorem bool_raises (value : Text) (field : String) :
    Raises IsParseError (yamlBool value field) := by
  unfold yamlBool
  split
  · exact raises_ok _ _
  · split
    · exact raises_ok _ _
    · exact fail_raises _

/-- A field that is stored once it was read. -/
theorem stored_raises {σ : Type} {x : Reading α} (h : Raises IsParseError x) (f : α → σ) :
    Raises IsParseError (x >>= fun a => .ok (f a)) :=
  h.bind fun _ _ => raises_ok _ _

theorem command_field_raises (command : Command) (key : String) (value : Text) (n : Nat) :
    Raises IsParseError (applyYamlCommandField command key value n) := by
  unfold applyYamlCommandField
  exact .ite (stored_raises (uint64_raises _ _) _) <| .ite (stored_raises (known_raises _ _) _) <|
    .ite (stored_raises (known_raises _ _) _) <| .ite (stored_raises (int64_raises _ _) _)
    (fail_raises _)

theorem retry_field_raises (policy : RetryPolicy) (key : String) (value : Text) (n : Nat) :
    Raises IsParseError (applyYamlRetryPolicyField policy key value n) := by
  unfold applyYamlRetryPolicyField
  exact .ite (stored_raises (uint32_raises _ _) _) <| .ite (stored_raises (int64_raises _ _) _) <|
    .ite (stored_raises (bool_raises _ _) _) <| .ite (stored_raises (bool_raises _ _) _)
    (fail_raises _)

theorem timeout_field_raises (policy : TimeoutPolicy) (key : String) (value : Text) (n : Nat) :
    Raises IsParseError (applyYamlTimeoutPolicyField policy key value n) := by
  unfold applyYamlTimeoutPolicyField
  exact .ite (stored_raises (int64_raises _ _) _) <| .ite (stored_raises (bool_raises _ _) _)
    (fail_raises _)

theorem condition_field_raises (convert : Convert) (condition : MissionCondition) (key : String)
    (value : Text) (n : Nat) :
    Raises IsParseError (applyYamlConditionField convert condition key value n) := by
  unfold applyYamlConditionField
  exact .ite (stored_raises (uint64_raises _ _) _) <| .ite (raises_ok _ _) <|
    .ite (stored_raises (known_raises _ _) _) <| .ite (stored_raises (known_raises _ _) _) <|
    .ite (.ite (stored_raises (bool_raises _ _) _) (stored_raises (double_raises _ _ _) _)) <|
    .ite (stored_raises (int64_raises _ _) _) <| .ite (stored_raises (known_raises _ _) _) <|
    .ite (stored_raises (known_raises _ _) _) (fail_raises _)

theorem step_field_raises (step : MissionStep) (key : String) (value : Text) (n : Nat) :
    Raises IsParseError (applyYamlStepField step key value n) := by
  unfold applyYamlStepField
  exact .ite (stored_raises (uint64_raises _ _) _) <| .ite (raises_ok _ _) <|
    .ite (stored_raises (int64_raises _ _) _) <| .ite (stored_raises (uint32_raises _ _) _) <|
    .ite (stored_raises (bool_raises _ _) _) <| .ite (stored_raises (bool_raises _ _) _) <|
    .ite (stored_raises (bool_raises _ _) _) (fail_raises _)

theorem mission_field_raises (mission : Mission) (key : String) (value : Text) (n : Nat) :
    Raises IsParseError (applyYamlMissionField mission key value n) := by
  unfold applyYamlMissionField
  exact .ite (stored_raises (uint64_raises _ _) _) <| .ite (raises_ok _ _) <|
    .ite (raises_ok _ _) <| .ite (raises_ok _ _) <| .ite (raises_ok _ _) (fail_raises _)

theorem indent_raises (line : YamlLine) (b : Nat) : Raises IsParseError (logicalIndent line b) := by
  unfold logicalIndent
  split
  · exact fail_raises _
  · exact raises_ok _ _

theorem block_raises (unexpected : String) (e b : Nat) (line : YamlLine) :
    Raises IsParseError (leavesBlock unexpected e b line) := by
  refine (indent_raises line b).bind fun indent _ => ?_
  split_ifs
  · exact raises_ok _ _
  · exact fail_raises _
  · exact raises_ok _ _

theorem string_map_raises (e b : Nat) (line : YamlLine) :
    Raises IsParseError (leavesStringMap e b line) := by
  refine (block_raises _ e b line).bind fun leaves _ => ?_
  split_ifs
  · exact raises_ok _ _
  · exact raises_ok _ _

theorem condition_raises (e b : Nat) (line : YamlLine) :
    Raises IsParseError (leavesCondition e b line) := by
  refine (indent_raises line b).bind fun indent _ => ?_
  split_ifs
  · exact raises_ok _ _
  · exact fail_raises _
  · exact raises_ok _ _

theorem sequence_raises (expected : String) (e b : Nat) (line : YamlLine) :
    Raises IsParseError (leavesSequence expected e b line) := by
  refine (indent_raises line b).bind fun indent _ => ?_
  split_ifs
  · exact raises_ok _ _
  · exact fail_raises _
  · exact raises_ok _ _

theorem step_raises (b : Nat) (line : YamlLine) : Raises IsParseError (leavesStep b line) := by
  refine (indent_raises line b).bind fun indent _ => ?_
  split_ifs
  · exact raises_ok _ _
  · exact fail_raises _
  · exact raises_ok _ _

theorem mission_raises (b : Nat) (line : YamlLine) :
    Raises IsParseError (leavesMission b line) := by
  refine (indent_raises line b).bind fun indent _ => ?_
  split_ifs
  · exact fail_raises _
  · exact raises_ok _ _

theorem split_raises (line : YamlLine) : Raises IsParseError (splitYamlKeyValue line) := by
  unfold splitYamlKeyValue
  split
  · exact raises_ok _ _
  · exact fail_raises _

end Raises

namespace Indexed

theorem yaml_line_alike (number : Nat) (piece : Text) :
    Matches IsParseError (· = ·) (Missions.yamlLine number piece) (yamlLine number piece) := by
  rw [Missions.yamlLine, yamlLine]
  split
  case isTrue => exact fail_alike _
  case isFalse =>
    dsimp only
    have hindent := List.takeWhile_prefix (· = ' ') (l := stripYamlComment (rawLine piece))
    rw [substr_ok hindent.length_le, ok_bind, List.take_of_length_le (by simp)]
    split_ifs
    · exact .ok _ _ rfl
    · exact fail_alike _
    · exact .ok _ _ rfl

theorem yaml_lines_alike (document : Text) :
    Matches IsParseError (· = ·) (Missions.yamlLines document) (yamlLines document) := by
  have hpieces : ∀ (pieces : List Text) (number : Nat),
      yamlLinesFrom number pieces = readPieces Missions.yamlLine number pieces := by
    intro pieces
    induction pieces with
    | nil => exact fun _ => rfl
    | cons piece pieces ih =>
      intro number
      rw [yamlLinesFrom, readPieces, ih]
  rw [Missions.yamlLines, hpieces]
  have halike := lines_alike yaml_line_alike 1 0 (Nat.zero_le document.length)
  rwa [List.drop_zero] at halike

theorem split_eq (line : YamlLine) : splitYamlKeyValue line = Missions.splitYamlKeyValue line := by
  rw [splitYamlKeyValue, Missions.splitYamlKeyValue]
  split
  case h_1 hnone =>
    have hfree := find_none hnone
    rw [List.drop_zero] at hfree
    rw [if_neg hfree]
  case h_2 separator hsome =>
    obtain ⟨hlt, -, hsplit⟩ := find_some hsome
    obtain ⟨htake, hdrop⟩ := find_while hsome
    have hin : ':' ∈ line.content := by
      rw [List.drop_zero] at hsplit
      rw [hsplit]
      simp
    rw [if_pos hin, htake, hdrop, List.drop_one, List.tail_cons, substr_ok (Nat.zero_le _), ok_bind,
      substr_ok (Nat.succ_le_of_lt hlt), ok_bind, List.drop_zero,
      List.take_of_length_le (by simp : (line.content.drop (separator + 1)).length ≤ _)]
    rfl

section Loops
variable {lines : List YamlLine} {σ τ : Type} {stops : YamlLine → Reading Bool} {index : Nat}
  {round : σ → YamlLine → List YamlLine → Reading (σ × List YamlLine)}
  {round' : σ → Nat → Reading (σ × Nat)} {line : YamlLine} {key : String} {value : Text}

/-- A round does the same by the line and the rest as by the index, and goes to the next line
at least. -/
def RoundAlike (lines : List YamlLine) (stops : YamlLine → Reading Bool)
    (round : σ → YamlLine → List YamlLine → Reading (σ × List YamlLine))
    (round' : σ → Nat → Reading (σ × Nat)) : Prop :=
  ∀ s index line, lines.drop index = line :: lines.drop (index + 1) → stops line = .ok false →
    Matches IsParseError (ReadAt lines (index + 1)) (round s line (lines.drop (index + 1)))
      (round' s index)

theorem loop_at (hstops : ∀ line, Raises IsParseError (stops line))
    (hround : RoundAlike lines stops round round') (fuel : Nat) (s : σ) (index : Nat)
    (hindex : index ≤ lines.length) (hfuel : lines.length - index ≤ fuel) :
    Matches IsParseError (ReadAt lines index) (readLines stops round fuel s (lines.drop index))
      (loopAt lines stops round' fuel s index) := by
  induction fuel generalizing s index with
  | zero =>
    have hge : lines.length ≤ index := by omega
    rw [drop_nil_iff.mpr hge, loopAt, if_neg (Nat.not_lt.mpr hge), readLines]
    exact .ok _ _ ⟨rfl, (drop_nil_iff.mpr hge).symm, Nat.le_refl index, hindex⟩
  | succ fuel ih =>
    by_cases hlt : index < lines.length
    · obtain ⟨line, -, hdrop⟩ := drop_next hlt
      rw [loopAt, if_pos hlt, access_next hdrop, ok_bind, hdrop, readLines]
      refine (hstops line).alike fun stop hstop => ?_
      cases stop with
      | true => exact .ok _ _ ⟨rfl, hdrop.symm, Nat.le_refl index, hindex⟩
      | false =>
        rw [if_neg Bool.false_ne_true, if_neg Bool.false_ne_true]
        refine (hround s index line hdrop hstop).bind fun x y hread => ?_
        obtain ⟨s', rest⟩ := x
        obtain ⟨s'', next⟩ := y
        obtain ⟨rfl, hleft⟩ := hread
        dsimp only at hleft ⊢
        obtain rfl := hleft.left
        have hforward := hleft.forward
        exact (ih s' next hleft.within (by omega)).mono fun _ _ h => h.later (by omega)
    · rw [drop_nil_iff.mpr (Nat.not_lt.mp hlt), loopAt, if_neg hlt, readLines]
      exact .ok _ _ ⟨rfl, (drop_nil_iff.mpr (Nat.not_lt.mp hlt)).symm, Nat.le_refl index, hindex⟩

theorem loop_alike (hstops : ∀ line, Raises IsParseError (stops line))
    (hround : RoundAlike lines stops round round') (s : σ) (hindex : index ≤ lines.length) :
    Matches IsParseError (ReadAt lines index) (readWhile stops round s (lines.drop index))
      (loop lines stops round' s index) := by
  rw [readWhile, loop, List.length_drop]
  exact loop_at hstops hround _ s index hindex (Nat.le_refl _)

theorem scalar_round_alike {missing : String} {apply : σ → String → Text → Nat → Reading σ}
    (happly : ∀ s key value n, Raises IsParseError (apply s key value n)) :
    RoundAlike lines stops (Missions.scalarRound missing apply) (scalarRound lines missing apply) := by
  intro s index line hdrop _
  rw [scalarRound, access_next hdrop, ok_bind, split_eq, Missions.scalarRound]
  refine (split_raises line).alike fun x _ => ?_
  obtain ⟨key, value⟩ := x
  dsimp only
  split_ifs
  · exact fail_alike _
  · refine (happly _ _ _ _).alike fun s' _ => ?_
    exact .ok _ _ ⟨rfl, rfl, Nat.le_refl _, Nat.succ_le_of_lt (drop_cons hdrop).1⟩

theorem only_field_alike {field path : String} {apply : σ → Text → Reading σ}
    (happly : ∀ s value, Raises IsParseError (apply s value)) :
    RoundAlike lines stops (fun s => Missions.onlyField field path (apply s))
      (fun s => onlyField lines field path (apply s)) := by
  intro s index line hdrop _
  dsimp only
  rw [onlyField, access_next hdrop, ok_bind, split_eq, Missions.onlyField]
  refine (split_raises line).alike fun x _ => ?_
  obtain ⟨key, value⟩ := x
  dsimp only
  split_ifs
  · exact fail_alike _
  · refine (happly _ _).alike fun s' _ => ?_
    exact .ok _ _ ⟨rfl, rfl, Nat.le_refl _, Nat.succ_le_of_lt (drop_cons hdrop).1⟩

/-- The last branch of a round that has gone to the next line. -/
theorem scalar_field_alike {missing : String} {apply : σ → String → Text → Nat → Reading σ}
    (happly : ∀ s key value n, Raises IsParseError (apply s key value n)) (s : σ)
    (hdrop : lines.drop index = line :: lines.drop (index + 1))
    (hsplit : Missions.splitYamlKeyValue line = .ok (key, value)) :
    Matches IsParseError (ReadAt lines (index + 1))
      (Missions.scalarRound missing apply s line (lines.drop (index + 1)))
      (scalarField lines missing apply s key value (index + 1)) := by
  rw [scalarField, Nat.add_sub_cancel, access_next hdrop, ok_bind, Missions.scalarRound, hsplit,
    ok_bind]
  dsimp only
  split_ifs
  · exact fail_alike _
  · refine (happly _ _ _ _).alike fun s' _ => ?_
    exact .ok _ _ ⟨rfl, rfl, Nat.le_refl _, Nat.succ_le_of_lt (drop_cons hdrop).1⟩

/-- A nested block, whose result is stored. -/
theorem nested_alike {x : Reading (τ × List YamlLine)} {y : Reading (τ × Nat)} (message : String)
    (store : τ → σ) (h : Matches IsParseError (ReadAt lines index) x y) :
    Matches IsParseError (ReadAt lines index)
      (Missions.nested value message (x >>= fun r => .ok (store r.1, r.2)))
      (nested value message (y >>= fun r => .ok (store r.1, r.2))) := by
  unfold Missions.nested nested
  split
  · exact fail_alike _
  · refine h.bind fun r r' hread => ?_
    exact .ok _ _ ⟨congrArg store hread.1, hread.2⟩

end Loops

section Readers
variable {convert : Convert} {lines : List YamlLine} {index e b : Nat} {line : YamlLine}

theorem string_map_alike (output : MissionMetadata) (hindex : index ≤ lines.length) :
    Matches IsParseError (ReadAt lines index)
      (Missions.parseYamlStringMap e b output (lines.drop index))
      (parseYamlStringMap lines e b output index) :=
  loop_alike (string_map_raises e b)
    (scalar_round_alike fun _ _ _ _ => raises_ok _ _) output hindex

theorem payload_alike (output : List (String × CommandPayloadValue))
    (hindex : index ≤ lines.length) :
    Matches IsParseError (ReadAt lines index)
      (Missions.parseYamlPayload convert e b output (lines.drop index))
      (parseYamlPayload convert lines e b output index) :=
  loop_alike (block_raises _ e b)
    (scalar_round_alike fun _ _ _ _ => raises_ok _ _) output hindex

theorem command_alike (command : Command) (hindex : index ≤ lines.length) :
    Matches IsParseError (ReadAt lines index)
      (Missions.parseYamlCommand convert e b command (lines.drop index))
      (parseYamlCommand convert lines e b command index) := by
  refine loop_alike (block_raises _ e b) (fun command index line hdrop _ => ?_) command hindex
  have hnext : index + 1 ≤ lines.length := Nat.succ_le_of_lt (drop_cons hdrop).1
  rw [access_next hdrop, ok_bind, split_eq]
  refine (split_raises line).alike fun x hsplit => ?_
  obtain ⟨key, value⟩ := x
  dsimp only
  split_ifs
  · exact nested_alike _ (fun payload => { command with payload })
      (payload_alike command.payload hnext)
  · exact nested_alike _ (fun metadata => { command with metadata })
      (string_map_alike command.metadata hnext)
  · exact scalar_field_alike command_field_raises command hdrop hsplit

theorem retry_policy_alike (policy : RetryPolicy) (hindex : index ≤ lines.length) :
    Matches IsParseError (ReadAt lines index)
      (Missions.parseYamlRetryPolicy e b policy (lines.drop index))
      (parseYamlRetryPolicy lines e b policy index) :=
  loop_alike (block_raises _ e b) (scalar_round_alike retry_field_raises) policy hindex

theorem loop_policy_alike (policy : LoopPolicy) (hindex : index ≤ lines.length) :
    Matches IsParseError (ReadAt lines index)
      (Missions.parseYamlLoopPolicy e b policy (lines.drop index))
      (parseYamlLoopPolicy lines e b policy index) :=
  loop_alike (block_raises _ e b)
    (only_field_alike fun _ _ => stored_raises (uint32_raises _ _) _) policy hindex

theorem timeout_policy_alike (policy : TimeoutPolicy) (hindex : index ≤ lines.length) :
    Matches IsParseError (ReadAt lines index)
      (Missions.parseYamlTimeoutPolicy e b policy (lines.drop index))
      (parseYamlTimeoutPolicy lines e b policy index) :=
  loop_alike (block_raises _ e b) (scalar_round_alike timeout_field_raises) policy hindex

theorem wait_alike (wait : Int) (hindex : index ≤ lines.length) :
    Matches IsParseError (ReadAt lines index)
      (Missions.parseYamlWaitStep e b wait (lines.drop index))
      (parseYamlWaitStep lines e b wait index) :=
  loop_alike (block_raises _ e b) (only_field_alike fun _ _ => int64_raises _ _) wait hindex

theorem delay_alike (delay : Int) (hindex : index ≤ lines.length) :
    Matches IsParseError (ReadAt lines index)
      (Missions.parseYamlDelayStep e b delay (lines.drop index))
      (parseYamlDelayStep lines e b delay index) :=
  loop_alike (block_raises _ e b) (only_field_alike fun _ _ => int64_raises _ _) delay hindex

/-- The line of an entry starts with a dash and a blank, so it has the two characters that are
taken off. -/
theorem first_field_alike {σ : Type} {message : String}
    {apply : σ → String → Text → Nat → Reading σ}
    (happly : ∀ s key value n, Raises IsParseError (apply s key value n)) (s : σ)
    (hstarts : startsEntry line = true) :
    Matches IsParseError (· = ·) (Missions.firstField message apply s line)
      (firstField message apply s line) := by
  have hlen : 2 ≤ line.content.length := (List.isPrefixOf_iff_prefix.mp hstarts).length_le
  rw [Missions.firstField, firstField, afterDash, if_neg (Nat.not_lt.mpr hlen), ok_bind,
    substr_ok hlen, ok_bind, List.take_of_length_le (by simp)]
  split_ifs
  · exact .ok _ _ rfl
  · rw [split_eq]
    refine (split_raises _).alike fun x _ => ?_
    obtain ⟨key, value⟩ := x
    dsimp only
    split_ifs
    · exact fail_alike _
    · have hsame := (happly s key value line.number).alike (f := pure) (g := pure)
        fun s' _ => Matches.ok (P := IsParseError) (R := (· = ·)) s' s' rfl
      simpa using hsame

theorem condition_alike (hdrop : lines.drop index = line :: lines.drop (index + 1))
    (hstarts : startsEntry line = true) :
    Matches IsParseError (ReadAt lines (index + 1))
      (Missions.parseYamlCondition convert e b (line :: lines.drop (index + 1)))
      (parseYamlCondition convert lines e b index) := by
  have hnext : index + 1 ≤ lines.length := Nat.succ_le_of_lt (drop_cons hdrop).1
  rw [parseYamlCondition, access_next hdrop, ok_bind, Missions.parseYamlCondition]
  refine (first_field_alike (condition_field_raises convert) _ hstarts).bind fun s s' hs => ?_
  rw [hs]
  refine loop_alike (condition_raises e b) (fun condition index line hdrop _ => ?_) s' hnext
  have hnext : index + 1 ≤ lines.length := Nat.succ_le_of_lt (drop_cons hdrop).1
  rw [access_next hdrop, ok_bind, split_eq]
  refine (split_raises line).alike fun x hsplit => ?_
  obtain ⟨key, value⟩ := x
  dsimp only
  split_ifs
  · exact nested_alike _ (fun metadata => { condition with metadata })
      (string_map_alike condition.metadata hnext)
  · exact scalar_field_alike (condition_field_raises convert) condition hdrop hsplit

theorem conditions_alike (conditions : List MissionCondition) (hindex : index ≤ lines.length) :
    Matches IsParseError (ReadAt lines index)
      (Missions.parseYamlConditions convert e b conditions (lines.drop index))
      (parseYamlConditions convert lines e b conditions index) := by
  refine loop_alike (sequence_raises _ e b) (fun conditions index line hdrop hgoes => ?_)
    conditions hindex
  refine (condition_alike hdrop (leaves_sequence hgoes).2).bind fun r r' hread => ?_
  exact .ok _ _ ⟨congrArg (fun c => conditions ++ [c]) hread.1, hread.2⟩

theorem step_round_alike :
    RoundAlike lines (leavesStep b) (Missions.stepRound convert b) (stepRound convert lines b) := by
  intro step index line hdrop _
  have hnext : index + 1 ≤ lines.length := Nat.succ_le_of_lt (drop_cons hdrop).1
  rw [stepRound, access_next hdrop, ok_bind, split_eq, Missions.stepRound]
  refine (split_raises line).alike fun x hsplit => ?_
  obtain ⟨key, value⟩ := x
  dsimp only
  exact
    .ite (nested_alike _ (fun command => { step with command })
      (command_alike step.command hnext)) <|
    .ite (nested_alike _ (fun policy => { step with retryPolicy := policy })
      (retry_policy_alike step.retryPolicy hnext)) <|
    .ite (nested_alike _ (fun policy => { step with loopPolicy := policy })
      (loop_policy_alike step.loopPolicy hnext)) <|
    .ite (nested_alike _ (fun policy => { step with timeoutPolicy := policy })
      (timeout_policy_alike step.timeoutPolicy hnext)) <|
    .ite (nested_alike _ (fun wait => { step with wait := some wait }) (wait_alike 0 hnext)) <|
    .ite (nested_alike _ (fun delay => { step with delay := some delay }) (delay_alike 0 hnext)) <|
    .ite (nested_alike _ (fun conditions => { step with conditions })
      (conditions_alike step.conditions hnext)) <|
    .ite (nested_alike _ (fun metadata => { step with metadata })
      (string_map_alike step.metadata hnext))
    (scalar_field_alike step_field_raises step hdrop hsplit)

theorem step_alike (hdrop : lines.drop index = line :: lines.drop (index + 1))
    (hstarts : startsEntry line = true) :
    Matches IsParseError (ReadAt lines (index + 1))
      (Missions.parseYamlStep convert b (line :: lines.drop (index + 1)))
      (parseYamlStep convert lines b index) := by
  have hnext : index + 1 ≤ lines.length := Nat.succ_le_of_lt (drop_cons hdrop).1
  rw [parseYamlStep, access_next hdrop, ok_bind, Missions.parseYamlStep]
  refine (first_field_alike step_field_raises _ hstarts).bind fun s s' hs => ?_
  rw [hs]
  exact loop_alike (step_raises b) step_round_alike s' hnext

theorem steps_alike (steps : List MissionStep) (hindex : index ≤ lines.length) :
    Matches IsParseError (ReadAt lines index)
      (Missions.parseYamlSteps convert b steps (lines.drop index))
      (parseYamlSteps convert lines b steps index) := by
  refine loop_alike (sequence_raises _ 2 b) (fun steps index line hdrop hgoes => ?_) steps hindex
  refine (step_alike hdrop (leaves_sequence hgoes).2).bind fun r r' hread => ?_
  exact .ok _ _ ⟨congrArg (fun s => steps ++ [s]) hread.1, hread.2⟩

theorem mission_round_alike :
    RoundAlike lines (leavesMission b) (Missions.missionRound convert b)
      (missionRound convert lines b) := by
  intro mission index line hdrop _
  have hnext : index + 1 ≤ lines.length := Nat.succ_le_of_lt (drop_cons hdrop).1
  rw [missionRound, access_next hdrop, ok_bind, split_eq, Missions.missionRound]
  refine (split_raises line).alike fun x hsplit => ?_
  obtain ⟨key, value⟩ := x
  dsimp only
  exact
    .ite (nested_alike _ (fun metadata => { mission with metadata })
      (string_map_alike mission.metadata hnext)) <|
    .ite (nested_alike _ (fun steps => { mission with steps }) (steps_alike mission.steps hnext))
    (scalar_field_alike mission_field_raises mission hdrop hsplit)

theorem mission_start (h : lines ≠ []) : ∃ index, index ≤ lines.length ∧
    missionStart lines = .ok ((missionLines lines).1, index) ∧
      (missionLines lines).2 = lines.drop index := by
  cases lines with
  | nil => exact absurd rfl h
  | cons first rest =>
    have haccess : access (first :: rest) 0 = .ok first := rfl
    rw [missionStart, haccess, ok_bind, missionLines]
    split
    · exact ⟨1, by simp, rfl, rfl⟩
    · exact ⟨0, Nat.zero_le _, rfl, rfl⟩

end Readers

/-- The mission reader by indexes is the one over the rest of the lines, and what it raises is a
`ParseError`. -/
theorem mission_from_yaml_alike (convert : Convert) (document : Text) :
    Matches IsParseError (· = ·) (Missions.missionFromYaml convert document)
      (missionFromYaml convert document) := by
  refine (yaml_lines_alike document).bind fun lines lines' hlines => ?_
  rw [hlines]
  split
  case isTrue => exact fail_alike _
  case isFalse hne =>
    obtain ⟨index, hindex, hstart, hrest⟩ := mission_start hne
    rw [hstart, ok_bind, hrest]
    refine (loop_alike (mission_raises _) mission_round_alike {} hindex).bind fun r r' hread => ?_
    exact .ok _ _ hread.1

end Indexed
end HumanoidCore.Missions
