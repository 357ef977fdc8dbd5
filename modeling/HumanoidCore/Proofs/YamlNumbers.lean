import HumanoidCore.Lib.Cursor
import HumanoidCore.MissionYaml
import Mathlib.Data.List.Forall2

namespace HumanoidCore.Missions
open Core Documents Lib

/-- The same line, perhaps with another number. -/
def Renumbered (line line' : YamlLine) : Prop :=
  line.indent = line'.indent ∧ line.content = line'.content

/-- Something was read, and what is left is the same up to the numbers. -/
def ReadAlike {σ : Type} (r r' : σ × List YamlLine) : Prop :=
  r.1 = r'.1 ∧ List.Forall₂ Renumbered r.2 r'.2

section Fields
variable {α σ : Type}

theorem agree_fail {β : Type} {R : α → β → Prop} (message message' : String) :
    Agree R (fail message) (fail message') :=
  .error _ _

theorem agree_rfl (x : Reading α) : Agree (· = ·) x x := by
  cases x with
  | error e => exact .error e e
  | ok a => exact .ok a a rfl

/-- A name that is looked up; only the message has the number. -/
theorem known_agree (found : Option α) (message message' : String) (f : α → σ) :
    Agree (· = ·) (known found message >>= fun a => .ok (f a))
      (known found message' >>= fun a => .ok (f a)) := by
  cases found with
  | none => exact agree_fail _ _
  | some a => exact .ok _ _ rfl

theorem command_field_agree (command : Command) (key : String) (value : Text) (n n' : Nat) :
    Agree (· = ·) (applyYamlCommandField command key value n)
      (applyYamlCommandField command key value n') := by
  unfold applyYamlCommandField
  exact .ite (agree_rfl _) <| .ite (known_agree _ _ _ _) <| .ite (known_agree _ _ _ _) <|
    .ite (agree_rfl _) (agree_fail _ _)

theorem retry_field_agree (policy : RetryPolicy) (key : String) (value : Text) (n n' : Nat) :
    Agree (· = ·) (applyYamlRetryPolicyField policy key value n)
      (applyYamlRetryPolicyField policy key value n') := by
  unfold applyYamlRetryPolicyField
  exact .ite (agree_rfl _) <| .ite (agree_rfl _) <| .ite (agree_rfl _) <| .ite (agree_rfl _)
    (agree_fail _ _)

theorem timeout_field_agree (policy : TimeoutPolicy) (key : String) (value : Text) (n n' : Nat) :
    Agree (· = ·) (applyYamlTimeoutPolicyField policy key value n)
      (applyYamlTimeoutPolicyField policy key value n') := by
  unfold applyYamlTimeoutPolicyField
  exact .ite (agree_rfl _) <| .ite (agree_rfl _) (agree_fail _ _)

theorem condition_field_agree (convert : Convert) (condition : MissionCondition) (key : String)
    (value : Text) (n n' : Nat) :
    Agree (· = ·) (applyYamlConditionField convert condition key value n)
      (applyYamlConditionField convert condition key value n') := by
  unfold applyYamlConditionField
  exact .ite (agree_rfl _) <| .ite (agree_rfl _) <| .ite (known_agree _ _ _ _) <|
    .ite (known_agree _ _ _ _) <| .ite (agree_rfl _) <| .ite (agree_rfl _) <|
    .ite (known_agree _ _ _ _) <| .ite (known_agree _ _ _ _) (agree_fail _ _)

theorem step_field_agree (step : MissionStep) (key : String) (value : Text) (n n' : Nat) :
    Agree (· = ·) (applyYamlStepField step key value n)
      (applyYamlStepField step key value n') := by
  unfold applyYamlStepField
  exact .ite (agree_rfl _) <| .ite (agree_rfl _) <| .ite (agree_rfl _) <| .ite (agree_rfl _) <|
    .ite (agree_rfl _) <| .ite (agree_rfl _) <| .ite (agree_rfl _) (agree_fail _ _)

theorem mission_field_agree (mission : Mission) (key : String) (value : Text) (n n' : Nat) :
    Agree (· = ·) (applyYamlMissionField mission key value n)
      (applyYamlMissionField mission key value n') := by
  unfold applyYamlMissionField
  exact .ite (agree_rfl _) <| .ite (agree_rfl _) <| .ite (agree_rfl _) <| .ite (agree_rfl _) <|
    .ite (agree_rfl _) (agree_fail _ _)

end Fields

section Lines
variable {line line' : YamlLine} {e b : Nat}

theorem indent_agree (h : Renumbered line line') :
    Agree (· = ·) (logicalIndent line b) (logicalIndent line' b) := by
  unfold logicalIndent
  rw [h.1]
  split
  · exact agree_fail _ _
  · exact .ok _ _ rfl

theorem block_agree (unexpected : String) (h : Renumbered line line') :
    Agree (· = ·) (leavesBlock unexpected e b line) (leavesBlock unexpected e b line') := by
  refine (indent_agree h).bind fun indent indent' he => ?_
  rw [he]
  split_ifs
  · exact .ok _ _ rfl
  · exact agree_fail _ _
  · exact .ok _ _ rfl

theorem starts_renumbered (h : Renumbered line line') : startsEntry line = startsEntry line' := by
  rw [startsEntry, startsEntry, h.2]

theorem string_map_agree (h : Renumbered line line') :
    Agree (· = ·) (leavesStringMap e b line) (leavesStringMap e b line') := by
  refine (block_agree _ h).bind fun leaves leaves' he => ?_
  rw [he, starts_renumbered h]
  exact agree_rfl _

theorem condition_agree (h : Renumbered line line') :
    Agree (· = ·) (leavesCondition e b line) (leavesCondition e b line') := by
  refine (indent_agree h).bind fun indent indent' he => ?_
  rw [he, starts_renumbered h]
  split_ifs
  · exact .ok _ _ rfl
  · exact agree_fail _ _
  · exact .ok _ _ rfl

theorem sequence_agree (expected : String) (h : Renumbered line line') :
    Agree (· = ·) (leavesSequence expected e b line) (leavesSequence expected e b line') := by
  refine (indent_agree h).bind fun indent indent' he => ?_
  rw [he, starts_renumbered h]
  split_ifs
  · exact .ok _ _ rfl
  · exact agree_fail _ _
  · exact .ok _ _ rfl

theorem leaves_step_agree (h : Renumbered line line') :
    Agree (· = ·) (leavesStep b line) (leavesStep b line') := by
  refine (indent_agree h).bind fun indent indent' he => ?_
  rw [he, starts_renumbered h]
  split_ifs
  · exact .ok _ _ rfl
  · exact agree_fail _ _
  · exact .ok _ _ rfl

theorem leaves_mission_agree (h : Renumbered line line') :
    Agree (· = ·) (leavesMission b line) (leavesMission b line') := by
  refine (indent_agree h).bind fun indent indent' he => ?_
  rw [he]
  split_ifs
  · exact agree_fail _ _
  · exact .ok _ _ rfl

theorem split_agree (h : Renumbered line line') :
    Agree (· = ·) (splitYamlKeyValue line) (splitYamlKeyValue line') := by
  unfold splitYamlKeyValue
  rw [h.2]
  split
  · exact .ok _ _ rfl
  · exact agree_fail _ _

end Lines

section Loops
variable {σ τ : Type} {stops : YamlLine → Reading Bool} {lines lines' : List YamlLine}
  {round : σ → YamlLine → List YamlLine → Reading (σ × List YamlLine)} {value : Text}

/-- A round reads the same whatever the numbers are. -/
def RoundAgrees (round : σ → YamlLine → List YamlLine → Reading (σ × List YamlLine)) : Prop :=
  ∀ s line line' rest rest', Renumbered line line' → List.Forall₂ Renumbered rest rest' →
    Agree ReadAlike (round s line rest) (round s line' rest')

theorem read_agree
    (hstops : ∀ line line', Renumbered line line' → Agree (· = ·) (stops line) (stops line'))
    (hround : RoundAgrees round) (fuel : Nat) (s : σ) (h : List.Forall₂ Renumbered lines lines') :
    Agree ReadAlike (readLines stops round fuel s lines) (readLines stops round fuel s lines') := by
  induction fuel generalizing s lines lines' with
  | zero =>
    cases h with
    | nil => exact .ok _ _ ⟨rfl, .nil⟩
    | cons hline hrest => exact .error _ _
  | succ fuel ih =>
    cases h with
    | nil => exact .ok _ _ ⟨rfl, .nil⟩
    | cons hline hrest =>
      rw [readLines, readLines]
      refine (hstops _ _ hline).bind fun stop stop' he => ?_
      rw [he]
      split
      · exact .ok _ _ ⟨rfl, .cons hline hrest⟩
      · refine (hround s _ _ _ _ hline hrest).bind fun x y hread => ?_
        obtain ⟨s', rest⟩ := x
        obtain ⟨s'', rest'⟩ := y
        obtain ⟨rfl, hrest'⟩ := hread
        exact ih s' hrest'

theorem while_agree
    (hstops : ∀ line line', Renumbered line line' → Agree (· = ·) (stops line) (stops line'))
    (hround : RoundAgrees round) (s : σ) (h : List.Forall₂ Renumbered lines lines') :
    Agree ReadAlike (readWhile stops round s lines) (readWhile stops round s lines') := by
  rw [readWhile, readWhile, ← h.length_eq]
  exact read_agree hstops hround _ s h

theorem scalar_round_agree {missing : String} {apply : σ → String → Text → Nat → Reading σ}
    (happly : ∀ s key value n n', Agree (· = ·) (apply s key value n) (apply s key value n')) :
    RoundAgrees (scalarRound missing apply) := by
  intro s line line' rest rest' hline hrest
  refine (split_agree hline).bind fun x y he => ?_
  obtain ⟨key, value⟩ := x
  obtain ⟨key', value'⟩ := y
  cases he
  dsimp only
  split_ifs
  · exact agree_fail _ _
  · refine (happly s key value line.number line'.number).bind fun s' s'' hs => ?_
    rw [hs]
    exact .ok _ _ ⟨rfl, hrest⟩

theorem only_field_agree {field path : String} {apply : σ → Text → Reading σ} :
    RoundAgrees (fun s => onlyField field path (apply s)) := by
  intro s line line' rest rest' hline hrest
  refine (split_agree hline).bind fun x y he => ?_
  obtain ⟨key, value⟩ := x
  obtain ⟨key', value'⟩ := y
  cases he
  dsimp only
  split_ifs
  · exact agree_fail _ _
  · exact agree_then _ fun s' _ => .ok _ _ ⟨rfl, hrest⟩

theorem nested_agree {x y : Reading (τ × List YamlLine)} (message : String) (store : τ → σ)
    (h : Agree ReadAlike x y) :
    Agree ReadAlike (nested value message (x >>= fun r => .ok (store r.1, r.2)))
      (nested value message (y >>= fun r => .ok (store r.1, r.2))) := by
  unfold nested
  split
  · exact agree_fail _ _
  · exact h.bind fun r r' hread => .ok _ _ ⟨congrArg store hread.1, hread.2⟩

end Loops

section Readers
variable {convert : Convert} {lines lines' : List YamlLine} {line line' : YamlLine} {e b : Nat}

theorem read_string_map_agree (output : MissionMetadata) (h : List.Forall₂ Renumbered lines lines') :
    Agree ReadAlike (parseYamlStringMap e b output lines) (parseYamlStringMap e b output lines') :=
  while_agree (fun _ _ => string_map_agree) (scalar_round_agree fun _ _ _ _ _ => agree_rfl _)
    output h

theorem read_payload_agree (output : List (String × CommandPayloadValue))
    (h : List.Forall₂ Renumbered lines lines') :
    Agree ReadAlike (parseYamlPayload convert e b output lines)
      (parseYamlPayload convert e b output lines') :=
  while_agree (fun _ _ => block_agree _) (scalar_round_agree fun _ _ _ _ _ => agree_rfl _) output h

theorem read_command_agree (command : Command) (h : List.Forall₂ Renumbered lines lines') :
    Agree ReadAlike (parseYamlCommand convert e b command lines)
      (parseYamlCommand convert e b command lines') := by
  refine while_agree (fun _ _ => block_agree _)
    (fun command line line' rest rest' hline hrest => ?_) command h
  refine (split_agree hline).bind fun x y he => ?_
  obtain ⟨key, value⟩ := x
  obtain ⟨key', value'⟩ := y
  cases he
  dsimp only
  split_ifs
  · exact nested_agree _ (fun payload => { command with payload })
      (read_payload_agree command.payload hrest)
  · exact nested_agree _ (fun metadata => { command with metadata })
      (read_string_map_agree command.metadata hrest)
  · exact scalar_round_agree command_field_agree command line line' rest rest'
      hline hrest

theorem read_retry_policy_agree (policy : RetryPolicy) (h : List.Forall₂ Renumbered lines lines') :
    Agree ReadAlike (parseYamlRetryPolicy e b policy lines)
      (parseYamlRetryPolicy e b policy lines') :=
  while_agree (fun _ _ => block_agree _) (scalar_round_agree retry_field_agree)
    policy h

theorem read_loop_policy_agree (policy : LoopPolicy) (h : List.Forall₂ Renumbered lines lines') :
    Agree ReadAlike (parseYamlLoopPolicy e b policy lines)
      (parseYamlLoopPolicy e b policy lines') :=
  while_agree (fun _ _ => block_agree _) only_field_agree policy h

theorem read_timeout_policy_agree (policy : TimeoutPolicy)
    (h : List.Forall₂ Renumbered lines lines') :
    Agree ReadAlike (parseYamlTimeoutPolicy e b policy lines)
      (parseYamlTimeoutPolicy e b policy lines') :=
  while_agree (fun _ _ => block_agree _) (scalar_round_agree timeout_field_agree)
    policy h

theorem read_wait_agree (wait : Int) (h : List.Forall₂ Renumbered lines lines') :
    Agree ReadAlike (parseYamlWaitStep e b wait lines) (parseYamlWaitStep e b wait lines') :=
  while_agree (fun _ _ => block_agree _) only_field_agree wait h

theorem read_delay_agree (delay : Int) (h : List.Forall₂ Renumbered lines lines') :
    Agree ReadAlike (parseYamlDelayStep e b delay lines) (parseYamlDelayStep e b delay lines') :=
  while_agree (fun _ _ => block_agree _) only_field_agree delay h

theorem first_field_agree {σ : Type} {message : String}
    {apply : σ → String → Text → Nat → Reading σ}
    (happly : ∀ s key value n n', Agree (· = ·) (apply s key value n) (apply s key value n')) (s : σ)
    (h : Renumbered line line') :
    Agree (· = ·) (firstField message apply s line) (firstField message apply s line') := by
  rw [firstField, firstField, afterDash, afterDash, h.2]
  refine agree_then _ fun firstContent _ => ?_
  split_ifs
  · exact .ok _ _ rfl
  · have hfirst : Renumbered { line with content := trim firstContent }
        { line' with content := trim firstContent } := ⟨h.1, rfl⟩
    refine (split_agree hfirst).bind fun x y he => ?_
    obtain ⟨key, value⟩ := x
    obtain ⟨key', value'⟩ := y
    cases he
    dsimp only
    split_ifs
    · exact agree_fail _ _
    · exact happly s key value line.number line'.number

theorem read_condition_agree (hline : Renumbered line line')
    (h : List.Forall₂ Renumbered lines lines') :
    Agree ReadAlike (parseYamlCondition convert e b (line :: lines))
      (parseYamlCondition convert e b (line' :: lines')) := by
  refine (first_field_agree (condition_field_agree convert) _ hline).bind
    fun s s' hs => ?_
  rw [hs]
  refine while_agree (fun _ _ => condition_agree)
    (fun condition line line' rest rest' hline hrest => ?_) s' h
  refine (split_agree hline).bind fun x y he => ?_
  obtain ⟨key, value⟩ := x
  obtain ⟨key', value'⟩ := y
  cases he
  dsimp only
  split_ifs
  · exact nested_agree _ (fun metadata => { condition with metadata })
      (read_string_map_agree condition.metadata hrest)
  · exact scalar_round_agree (condition_field_agree convert) condition line line'
      rest rest' hline hrest

theorem read_conditions_agree (conditions : List MissionCondition)
    (h : List.Forall₂ Renumbered lines lines') :
    Agree ReadAlike (parseYamlConditions convert e b conditions lines)
      (parseYamlConditions convert e b conditions lines') := by
  refine while_agree (fun _ _ => sequence_agree _)
    (fun conditions line line' rest rest' hline hrest => ?_) conditions h
  refine (read_condition_agree hline hrest).bind fun r r' hread => ?_
  exact .ok _ _ ⟨congrArg (fun c => conditions ++ [c]) hread.1, hread.2⟩

theorem step_round_agree : RoundAgrees (stepRound convert b) := by
  intro step line line' rest rest' hline hrest
  refine (split_agree hline).bind fun x y he => ?_
  obtain ⟨key, value⟩ := x
  obtain ⟨key', value'⟩ := y
  cases he
  dsimp only
  exact
    .ite (nested_agree _ (fun command => { step with command })
      (read_command_agree step.command hrest)) <|
    .ite (nested_agree _ (fun policy => { step with retryPolicy := policy })
      (read_retry_policy_agree step.retryPolicy hrest)) <|
    .ite (nested_agree _ (fun policy => { step with loopPolicy := policy })
      (read_loop_policy_agree step.loopPolicy hrest)) <|
    .ite (nested_agree _ (fun policy => { step with timeoutPolicy := policy })
      (read_timeout_policy_agree step.timeoutPolicy hrest)) <|
    .ite (nested_agree _ (fun wait => { step with wait := some wait }) (read_wait_agree 0 hrest)) <|
    .ite (nested_agree _ (fun delay => { step with delay := some delay })
      (read_delay_agree 0 hrest)) <|
    .ite (nested_agree _ (fun conditions => { step with conditions })
      (read_conditions_agree step.conditions hrest)) <|
    .ite (nested_agree _ (fun metadata => { step with metadata })
      (read_string_map_agree step.metadata hrest))
    (scalar_round_agree step_field_agree step line line' rest rest' hline hrest)

theorem read_step_agree (hline : Renumbered line line') (h : List.Forall₂ Renumbered lines lines') :
    Agree ReadAlike (parseYamlStep convert b (line :: lines))
      (parseYamlStep convert b (line' :: lines')) := by
  refine (first_field_agree step_field_agree _ hline).bind fun s s' hs => ?_
  rw [hs]
  exact while_agree (fun _ _ => leaves_step_agree) step_round_agree s' h

theorem read_steps_agree (steps : List MissionStep) (h : List.Forall₂ Renumbered lines lines') :
    Agree ReadAlike (parseYamlSteps convert b steps lines) (parseYamlSteps convert b steps lines') := by
  refine while_agree (fun _ _ => sequence_agree _)
    (fun steps line line' rest rest' hline hrest => ?_) steps h
  refine (read_step_agree hline hrest).bind fun r r' hread => ?_
  exact .ok _ _ ⟨congrArg (fun s => steps ++ [s]) hread.1, hread.2⟩

theorem mission_round_agree : RoundAgrees (missionRound convert b) := by
  intro mission line line' rest rest' hline hrest
  refine (split_agree hline).bind fun x y he => ?_
  obtain ⟨key, value⟩ := x
  obtain ⟨key', value'⟩ := y
  cases he
  dsimp only
  exact
    .ite (nested_agree _ (fun metadata => { mission with metadata })
      (read_string_map_agree mission.metadata hrest)) <|
    .ite (nested_agree _ (fun steps => { mission with steps })
      (read_steps_agree mission.steps hrest))
    (scalar_round_agree mission_field_agree mission line line' rest rest' hline hrest)

/-- Whether the lines make a mission, and which, does not depend on their numbers. -/
theorem mission_agree (h : List.Forall₂ Renumbered lines lines') :
    Agree ReadAlike
      (readWhile (leavesMission (missionLines lines).1) (missionRound convert (missionLines lines).1)
        {} (missionLines lines).2)
      (readWhile (leavesMission (missionLines lines').1)
        (missionRound convert (missionLines lines').1) {} (missionLines lines').2) := by
  have hstart : (missionLines lines).1 = (missionLines lines').1 ∧
      List.Forall₂ Renumbered (missionLines lines).2 (missionLines lines').2 := by
    cases h with
    | nil => exact ⟨rfl, .nil⟩
    | cons hline hrest =>
      rw [missionLines, missionLines, hline.1, hline.2]
      split
      · exact ⟨rfl, hrest⟩
      · exact ⟨rfl, .cons hline hrest⟩
  rw [hstart.1]
  exact while_agree (fun _ _ => leaves_mission_agree) mission_round_agree {} hstart.2

end Readers

end HumanoidCore.Missions
