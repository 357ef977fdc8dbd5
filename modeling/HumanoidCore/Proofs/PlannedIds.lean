import Mathlib.Data.List.Lattice
import Mathlib.Data.List.Nodup
import HumanoidCore.RuleBasedPlanner

namespace HumanoidCore.Planner
open Core

/-- The numbers from `first + 1` to `last`. -/
structure Span where
  first : Nat
  last : Nat
  deriving DecidableEq

def Span.Holds (s : Span) (id : Nat) : Prop := s.first < id ∧ id ≤ s.last

def Span.Apart (s t : Span) : Prop := min s.last t.last ≤ max s.first t.first

instance (s t : Span) : Decidable (s.Apart t) := inferInstanceAs (Decidable (_ ≤ _))

/-- The identifiers of a plan with `length` commands: those above the goal's own number, and
those that would pass the largest number, which start at one again. A goal of no more than
`maxId / 1000` counts in thousands. -/
def spans (goalId length : Nat) : List Span :=
  let seed := if goalId ≤ maxId / 1000 then goalId * 1000 else goalId
  [⟨seed, min (seed + length) maxId⟩, ⟨maxId - seed, length⟩]

def PlansApart (goalId length goalId' length' : Nat) : Prop :=
  ∀ s ∈ spans goalId length, ∀ t ∈ spans goalId' length', s.Apart t

instance (goalId length goalId' length' : Nat) :
    Decidable (PlansApart goalId length goalId' length') :=
  inferInstanceAs (Decidable (∀ s ∈ spans goalId length, ∀ t ∈ spans goalId' length', s.Apart t))

def commandIds (mission : Missions.Mission) : List CommandId :=
  mission.steps.map (·.command.id)

section Ids
variable {request : PlanningRequest} {rule : RuleBasedPlannerRule}
  {clock : Nat → CommandTimestamp} {seed offset length id : Nat}

theorem derived_cases (hseed : seed ≠ 0) (hoffset : offset ≠ 0) :
    (seed + offset ≤ maxId ∧ derivedId seed offset = seed + offset) ∨
      (maxId < seed + offset ∧ derivedId seed offset = offset) := by
  unfold derivedId
  by_cases h : seed ≤ maxId - offset
  · rw [if_pos ⟨hseed, h⟩]
    exact .inl ⟨by omega, rfl⟩
  · rw [if_neg (fun he => h he.2), if_neg hoffset]
    exact .inr ⟨by omega, rfl⟩

theorem command_ids (request : PlanningRequest) (rule : RuleBasedPlannerRule)
    (clock : Nat → CommandTimestamp) :
    commandIds (makeMission request rule clock) =
      (List.range' 1 rule.commandSequence.length).map (derivedId (commandSeed request.goal.id)) := by
  have hsteps : ∀ (sequence : List CommandType) (stepIndex : Nat),
      (makeSteps request.goal rule clock stepIndex sequence).map (·.command.id) =
        (List.range' stepIndex sequence.length).map (derivedId (commandSeed request.goal.id)) := by
    intro sequence
    induction sequence with
    | nil => exact fun _ => rfl
    | cons type sequence ih =>
      intro stepIndex
      rw [makeSteps, List.map_cons, ih, List.length_cons, List.range'_succ, List.map_cons]
      rfl
  exact hsteps rule.commandSequence 1

theorem mem_command_ids : id ∈ commandIds (makeMission request rule clock) ↔
    ∃ offset, offset ≠ 0 ∧ offset ≤ rule.commandSequence.length ∧
      derivedId (commandSeed request.goal.id) offset = id := by
  rw [command_ids, List.mem_map]
  refine exists_congr (fun offset => ?_)
  rw [List.mem_range'_1, ← and_assoc]
  refine and_congr_left' ?_
  omega

theorem seed_range (hne : request.goal.id ≠ 0) (hmax : request.goal.id ≤ maxId) :
    commandSeed request.goal.id ≠ 0 ∧ commandSeed request.goal.id ≤ maxId ∧
      commandSeed request.goal.id =
        if request.goal.id ≤ maxId / 1000 then request.goal.id * 1000 else request.goal.id := by
  have hscale : maxId / 1000 * 1000 ≤ maxId := Nat.div_mul_le_self maxId 1000
  unfold commandSeed
  by_cases h : request.goal.id ≤ maxId / 1000
  · rw [if_pos ⟨hne, h⟩, if_pos h]
    refine ⟨?_, Nat.le_trans (Nat.mul_le_mul_right 1000 h) hscale, rfl⟩
    exact Nat.mul_ne_zero hne (by decide)
  · rw [if_neg (fun hs => h hs.2), if_neg h]
    exact ⟨hne, hmax, rfl⟩

theorem mem_spans (hne : request.goal.id ≠ 0) (hmax : request.goal.id ≤ maxId) :
    id ∈ commandIds (makeMission request rule clock) ↔
      ∃ s ∈ spans request.goal.id rule.commandSequence.length, s.Holds id := by
  obtain ⟨hseed, hle, he⟩ := seed_range hne hmax
  simp only [mem_command_ids, spans, ← he, List.mem_cons, List.not_mem_nil, or_false,
    exists_eq_or_imp, exists_eq_left, Span.Holds]
  generalize commandSeed request.goal.id = seed at *
  constructor
  · rintro ⟨offset, hoffset, hlength, hid⟩
    rcases derived_cases hseed hoffset with ⟨hfits, hd⟩ | ⟨hfits, hd⟩ <;> omega
  · rintro (⟨hlow, hhigh⟩ | ⟨hlow, hhigh⟩)
    · refine ⟨id - seed, by omega, by omega, ?_⟩
      rcases derived_cases hseed (show id - seed ≠ 0 by omega) with ⟨hfits, hd⟩ | ⟨hfits, hd⟩ <;>
        omega
    · refine ⟨id, by omega, hhigh, ?_⟩
      rcases derived_cases hseed (show id ≠ 0 by omega) with ⟨hfits, hd⟩ | ⟨hfits, hd⟩ <;> omega

/-- No sequence is as long as half of the numbers. -/
theorem ids_distinct (hne : request.goal.id ≠ 0) (hmax : request.goal.id ≤ maxId)
    (hlength : rule.commandSequence.length < 2 ^ 63) :
    (commandIds (makeMission request rule clock)).Nodup ∧
      ∀ id ∈ commandIds (makeMission request rule clock), id ≠ 0 := by
  obtain ⟨hseed, hle, -⟩ := seed_range hne hmax
  constructor
  · rw [command_ids]
    refine List.Nodup.map_on (fun i hi j hj he => ?_) List.nodup_range'
    rw [List.mem_range'_1] at hi hj
    have hi0 : i ≠ 0 := Nat.ne_of_gt hi.1
    have hj0 : j ≠ 0 := Nat.ne_of_gt hj.1
    generalize commandSeed request.goal.id = seed at *
    have he' : derivedId seed i = derivedId seed j := he
    unfold maxId at *
    rcases derived_cases hseed hi0 with ⟨hfits, hd⟩ | ⟨hfits, hd⟩ <;>
      rcases derived_cases hseed hj0 with ⟨hfits', hd'⟩ | ⟨hfits', hd'⟩ <;>
      rw [hd, hd'] at he' <;> unfold maxId at hfits hfits' <;> omega
  · intro id hid
    obtain ⟨offset, hoffset, -, rfl⟩ := mem_command_ids.mp hid
    rcases derived_cases hseed hoffset with ⟨-, hd⟩ | ⟨-, hd⟩
    · rw [hd]
      exact Nat.ne_of_gt (Nat.add_pos_left (Nat.pos_of_ne_zero hseed) offset)
    · rw [hd]
      exact hoffset

theorem Span.apart_iff (s t : Span) : s.Apart t ↔ ∀ id, ¬(s.Holds id ∧ t.Holds id) := by
  unfold Span.Apart Span.Holds
  constructor
  · intro h id hid
    omega
  · intro h
    have := h (max s.first t.first + 1)
    omega

end Ids

/-- The commands of a plan have identifiers of their own; two plans share none exactly where
their spans are apart. -/
theorem planned_ids_iff (request request' : PlanningRequest) (rule rule' : RuleBasedPlannerRule)
    (clock clock' : Nat → CommandTimestamp) (hne : request.goal.id ≠ 0)
    (hne' : request'.goal.id ≠ 0) (hmax : request.goal.id ≤ maxId)
    (hmax' : request'.goal.id ≤ maxId) (hlength : rule.commandSequence.length < 2 ^ 63) :
    ((commandIds (makeMission request rule clock)).Nodup ∧
        ∀ id ∈ commandIds (makeMission request rule clock), id ≠ 0) ∧
      ((commandIds (makeMission request rule clock)).Disjoint
          (commandIds (makeMission request' rule' clock')) ↔
        PlansApart request.goal.id rule.commandSequence.length request'.goal.id
          rule'.commandSequence.length) := by
  refine ⟨ids_distinct hne hmax hlength, ?_⟩
  simp only [PlansApart, Span.apart_iff]
  constructor
  · intro h s hs t ht id hid
    exact h ((mem_spans hne hmax).mpr ⟨s, hs, hid.1⟩) ((mem_spans hne' hmax').mpr ⟨t, ht, hid.2⟩)
  · intro h id hid hid'
    obtain ⟨s, hs, hholds⟩ := (mem_spans hne hmax).mp hid
    obtain ⟨t, ht, hholds'⟩ := (mem_spans hne' hmax').mp hid'
    exact h s hs t ht id ⟨hholds, hholds'⟩

def goalOf (id : GoalId) : PlanningRequest := { goal := { id, description := "go" } }

def twoCommands : RuleBasedPlannerRule := { ruleId := "r", commandSequence := [.stand, .sit] }

theorem planned_ids_iff_neighbours :
    ((commandIds (makeMission (goalOf 1) twoCommands (fun _ => 0))).Nodup ∧
        ∀ id ∈ commandIds (makeMission (goalOf 1) twoCommands (fun _ => 0)), id ≠ 0) ∧
      ((commandIds (makeMission (goalOf 1) twoCommands (fun _ => 0))).Disjoint
          (commandIds (makeMission (goalOf 2) twoCommands (fun _ => 0))) ↔
        PlansApart 1 2 2 2) :=
  planned_ids_iff (goalOf 1) (goalOf 2) twoCommands twoCommands _ _ (by decide) (by decide)
    (by decide) (by decide) (by decide)

/-- Goals beyond `maxId / 1000` are not scaled. -/
theorem planned_ids_shared : (goalOf (2 ^ 60)).goal.id ≠ (goalOf (2 ^ 60 + 1)).goal.id ∧
    ¬ (commandIds (makeMission (goalOf (2 ^ 60)) twoCommands (fun _ => 0))).Disjoint
      (commandIds (makeMission (goalOf (2 ^ 60 + 1)) twoCommands (fun _ => 0))) := by
  refine ⟨by decide, fun h => ?_⟩
  exact @h (2 ^ 60 + 2) (by decide) (by decide)

end HumanoidCore.Planner
