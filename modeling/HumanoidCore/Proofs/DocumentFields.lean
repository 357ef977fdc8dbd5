import HumanoidCore.MissionExecutor
import HumanoidCore.MissionSchema

namespace HumanoidCore.Missions
open Documents

/-- What a step says of the mapping it was read from. -/
structure ReadStep (entry : JsonValue) (step : MissionStep) : Prop where
  id : step.id ≠ 0 → has entry "id" = true
  name : step.name ≠ "" → has entry "name" = true
  enabled : step.enabled = flag entry "enabled" true
  skip : step.skip = flag entry "skip" false
  abort : step.abort = flag entry "abort" false
  wait : step.wait.isSome = has entry "wait"
  delay : step.delay.isSome = has entry "delay"
  command : step.command.id ≠ 0 → hasCommandField entry "id" = true

structure ReadMission (body : JsonValue) (mission : Mission) : Prop where
  id : mission.id ≠ 0 → has body "id" = true
  name : mission.name ≠ "" → has body "name" = true
  version : mission.version ≠ "" → has body "version" = true
  author : mission.author ≠ "" → has body "author" = true
  present : mission.steps ≠ [] → has body "steps" = true
  steps : List.Forall₂ ReadStep (stepEntries body) mission.steps

theorem ReadStep.isCommand {entry : JsonValue} {step : MissionStep} (read : ReadStep entry step) :
    (step.skip || step.abort || step.wait.isSome || step.delay.isSome) =
      !isCommandEntry entry := by
  rw [read.skip, read.abort, read.wait, read.delay]
  simp only [isCommandEntry, Bool.not_and, Bool.not_not]

/-- What neither format takes from the author: a description and the types of commands. -/
structure Given (body : JsonValue) : Prop where
  description : has body "description" = true
  types : ∀ entry ∈ stepEntries body, entryEnabled entry = true → isCommandEntry entry = true →
    hasCommandField entry "type" = true

theorem exists_related {α β : Type} {R : α → β → Prop} {xs : List α} {ys : List β}
    (h : List.Forall₂ R xs ys) {x : α} (hx : x ∈ xs) : ∃ y ∈ ys, R x y := by
  induction h with
  | nil => simp at hx
  | cons hr _ ih =>
    obtain rfl | hx := List.mem_cons.mp hx
    · exact ⟨_, List.mem_cons_self, hr⟩
    · obtain ⟨y, hy, hr⟩ := ih hx
      exact ⟨y, List.mem_cons_of_mem _ hy, hr⟩

/-- The validator notices every missing field but a description and a type. -/
theorem required_iff {body : JsonValue} {mission : Mission} (read : ReadMission body mission)
    (checked : MissionChecked mission) : RequiredPresent body ↔ Given body := by
  constructor
  · intro required
    exact ⟨required.fields _ (by simp), fun entry he enabled command =>
      ((required.steps entry he enabled).2.2 command).2⟩
  · intro given
    refine ⟨?_, fun entry he enabled => ?_⟩
    · intro name hn
      simp only [List.mem_cons, List.not_mem_nil, or_false] at hn
      obtain rfl | rfl | rfl | rfl | rfl | rfl := hn
      · exact read.id checked.id
      · exact read.name checked.name
      · exact given.description
      · exact read.version checked.version
      · exact read.author checked.author
      · exact read.present checked.nonempty
    · obtain ⟨step, hs, hr⟩ := exists_related read.steps he
      have stepChecked := checked.steps step hs (hr.enabled.trans enabled)
      refine ⟨hr.id stepChecked.id, hr.name stepChecked.name, fun command => ⟨?_, ?_⟩⟩
      · have flow := hr.isCommand
        rw [command] at flow
        have valid : step.command.id ≠ 0 ∧ 0 ≤ step.command.timeout := by
          simpa [Core.Command.isValid] using (stepChecked.command flow).1
        exact hr.command valid.1
      · exact given.types entry he enabled command

end HumanoidCore.Missions
