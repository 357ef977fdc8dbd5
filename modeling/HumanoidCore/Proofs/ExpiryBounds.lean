import HumanoidCore.CommandDispatcher
import HumanoidCore.ResourceManager

namespace HumanoidCore.Proofs.ExpiryBounds
open Core

/-- The values of a signed 64-bit count. -/
def Fits64 (x : Int) : Prop := -2 ^ 63 ≤ x ∧ x < 2 ^ 63

instance (x : Int) : Decidable (Fits64 x) := inferInstanceAs (Decidable (_ ∧ _))

theorem wrap64_of_fits {x : Int} (h : Fits64 x) : wrap64 x = x := by
  obtain ⟨hlow, hhigh⟩ := h
  apply Int.bmod_eq_of_le <;> omega

/-- The command has a timeout, and it is over. -/
def Overdue (c : Command) (now : CommandTimestamp) : Prop :=
  0 < c.timeout ∧ c.timeout * 1000000 ≤ now - c.timestamp

instance (c : Command) (now : CommandTimestamp) : Decidable (Overdue c now) :=
  inferInstanceAs (Decidable (_ ∧ _))

/-- What the test computes, before it is wrapped; without a timeout it is not made. -/
def expiryIntermediates (c : Command) (now : CommandTimestamp) : List Int :=
  if c.hasTimeout then [now - c.timestamp, c.timeout * 1000000] else []

/-- What a timed `Acquire` computes; without a timeout it is `TryAcquire`. -/
def deadlineIntermediates (now timeout : Int) : List Int :=
  if timeout ≤ 0 then [] else [timeout * 1000000, now + timeout * 1000000]

/-- Every check of the queue and of the dispatcher decides as over the integers. -/
structure ExactExpiry (c : Command) (now : CommandTimestamp) : Prop where
  queue : c.id ≠ 0 → isKnownPriority c.priority = true →
    CommandQueue.validateForQueue c now =
      if Overdue c now then some ⟨.timeout, "Command expired before queue acceptance"⟩ else none
  dispatcher : c.id ≠ 0 → isKnownCommandType c.type = true → isKnownPriority c.priority = true →
    CommandDispatcher.validateCommand c now =
      if Overdue c now then some ⟨.timeout, "Command expired before execution"⟩
      else CommandDispatcher.validatePayload c
  expired : hasExpired c now = decide (Overdue c now)
  fits : ∀ x ∈ expiryIntermediates c now, Fits64 x

structure ExactDeadline (now timeout : Int) : Prop where
  value : 0 < timeout → ResourceManager.deadline now timeout = now + timeout * 1000000
  fits : ∀ x ∈ deadlineIntermediates now timeout, Fits64 x

/-- What every check has asked before it makes the test, of 64-bit counts. -/
structure Admitted (c : Command) (now : CommandTimestamp) : Prop where
  clock : Fits64 now
  stamp : Fits64 c.timestamp
  nonzero : c.timestamp ≠ 0
  past : c.timestamp ≤ now
  timeout : 0 ≤ c.timeout
  bounded : Fits64 c.timeout

/-- An age and a timeout that is converted to nanoseconds. -/
theorem test_fits {age timeout : Int} (hage : 0 ≤ age) (hpos : 0 < timeout) :
    Fits64 age ∧ Fits64 (timeout * 1000000) ↔ timeout ≤ 9223372036854 ∧ age < 2 ^ 63 := by
  unfold Fits64
  omega

theorem sum_fits {now timeout : Int} (hnow : Fits64 now) (hpos : 0 < timeout) :
    Fits64 (timeout * 1000000) ∧ Fits64 (now + timeout * 1000000) ↔
      timeout ≤ 9223372036854 ∧ now + timeout * 1000000 < 2 ^ 63 := by
  unfold Fits64 at *
  omega

theorem zero_or_pos {timeout : Int} (h : 0 ≤ timeout) : timeout = 0 ∨ 0 < timeout := by omega

theorem intermediates_fit {c : Command} {now : CommandTimestamp} (h : Admitted c now) :
    (∀ x ∈ expiryIntermediates c now, Fits64 x) ↔
      c.timeout = 0 ∨ c.timeout ≤ 9223372036854 ∧ now - c.timestamp < 2 ^ 63 := by
  rcases zero_or_pos h.timeout with hzero | hpos
  · simp [expiryIntermediates, Command.hasTimeout, hzero]
  · have hage : 0 ≤ now - c.timestamp := Int.sub_nonneg_of_le h.past
    have hzero : c.timeout ≠ 0 := Int.ne_of_gt hpos
    simp only [expiryIntermediates, Command.hasTimeout, hpos, decide_true, ↓reduceIte,
      List.forall_mem_cons, List.not_mem_nil, false_implies, implies_true, and_true,
      hzero, false_or]
    exact test_fits hage hpos

/-- Where nothing overflows the test is the comparison of the integers. -/
theorem test_exact {c : Command} {now : CommandTimestamp} (hsome : c.hasTimeout = true)
    (hfits : ∀ x ∈ expiryIntermediates c now, Fits64 x) :
    timeoutElapsed c now = decide (Overdue c now) := by
  simp only [expiryIntermediates, hsome, ↓reduceIte, List.forall_mem_cons] at hfits
  obtain ⟨hage, hduration, -⟩ := hfits
  have hpos : 0 < c.timeout := by simpa [Command.hasTimeout] using hsome
  rw [timeoutElapsed, wrap64_of_fits hage, wrap64_of_fits hduration]
  simp [Overdue, hpos]

/-- The three checks make the same test. -/
theorem checks_exact {c : Command} {now : CommandTimestamp} (h : Admitted c now)
    (hfits : ∀ x ∈ expiryIntermediates c now, Fits64 x) : ExactExpiry c now := by
  have hpast := h.past
  have hnegative : ¬ c.timeout < 0 := Int.not_lt.mpr h.timeout
  have hfuture : ¬ now < c.timestamp := Int.not_lt.mpr hpast
  cases hsome : c.hasTimeout with
  | false =>
    have hnever : ¬ Overdue c now := by
      have hnone : ¬ 0 < c.timeout := by simpa [Command.hasTimeout] using hsome
      exact fun hover => hnone hover.1
    refine ⟨fun hid hpriority => ?_, fun hid htype hpriority => ?_, ?_, hfits⟩
    · simp [CommandQueue.validateForQueue, hid, hpriority, hsome, hnegative, hnever]
    · simp [CommandDispatcher.validateCommand, hid, htype, hpriority, hsome, hnegative, hnever]
    · simp [hasExpired, hsome, hnever]
  | true =>
    have htest := test_exact hsome hfits
    refine ⟨fun hid hpriority => ?_, fun hid htype hpriority => ?_, ?_, hfits⟩
    · simp [CommandQueue.validateForQueue, hid, hpriority, hsome, hnegative, h.nonzero, hfuture,
        htest]
    · simp [CommandDispatcher.validateCommand, hid, htype, hpriority, hsome, hnegative, h.nonzero,
        hfuture, htest]
    · simp [hasExpired, hsome, h.nonzero, hpast, htest]

theorem deadline_fits {now timeout : Int} (hnow : Fits64 now) :
    (∀ x ∈ deadlineIntermediates now timeout, Fits64 x) ↔
      timeout ≤ 0 ∨ timeout ≤ 9223372036854 ∧ now + timeout * 1000000 < 2 ^ 63 := by
  by_cases hnone : timeout ≤ 0
  · simp [deadlineIntermediates, hnone]
  · simp only [deadlineIntermediates, hnone, ↓reduceIte, List.forall_mem_cons, List.not_mem_nil,
      false_implies, implies_true, and_true, false_or]
    exact sum_fits hnow (Int.not_le.mp hnone)

theorem deadline_exact {now timeout : Int}
    (hfits : ∀ x ∈ deadlineIntermediates now timeout, Fits64 x) : ExactDeadline now timeout := by
  refine ⟨fun hpos => ?_, hfits⟩
  have hsome : ¬ timeout ≤ 0 := by omega
  simp only [deadlineIntermediates, hsome, ↓reduceIte, List.forall_mem_cons] at hfits
  obtain ⟨hduration, hsum, -⟩ := hfits
  rw [ResourceManager.deadline, wrap64_of_fits hduration, wrap64_of_fits hsum]

/-- The expiry checks of an admitted command are exact for timeouts up to 292 years of a
command no older than that, and so is the deadline if it is a 64-bit count. -/
theorem arithmetic_exact (c : Command) (now : CommandTimestamp) (h : Admitted c now)
    (start wait : Int) (hstart : Fits64 start) :
    (ExactExpiry c now ↔
      c.timeout = 0 ∨ c.timeout ≤ 9223372036854 ∧ now - c.timestamp < 2 ^ 63) ∧
    (ExactDeadline start wait ↔
      wait ≤ 0 ∨ wait ≤ 9223372036854 ∧ start + wait * 1000000 < 2 ^ 63) := by
  constructor
  · rw [← intermediates_fit h]
    exact ⟨ExactExpiry.fits, checks_exact h⟩
  · rw [← deadline_fits hstart]
    exact ⟨ExactDeadline.fits, deadline_exact⟩

/-- A minute, and a command a second old. -/
theorem arithmetic_exact_minute :
    let c : Command := { id := 1, timestamp := 5000000000, timeout := 60000 }
    Admitted c 6000000000 ∧ Fits64 6000000000 ∧
      (ExactExpiry c 6000000000 ↔
        c.timeout = 0 ∨ c.timeout ≤ 9223372036854 ∧ 6000000000 - c.timestamp < 2 ^ 63) ∧
      (ExactDeadline 6000000000 60000 ↔
        (60000 : Int) ≤ 0 ∨
          (60000 : Int) ≤ 9223372036854 ∧ (6000000000 : Int) + 60000 * 1000000 < 2 ^ 63) := by
  intro c
  have h : Admitted c 6000000000 := ⟨by decide, by decide, by decide, by decide, by decide, by decide⟩
  have hclock : Fits64 6000000000 := by decide
  exact ⟨h, hclock, arithmetic_exact c 6000000000 h 6000000000 60000 hclock⟩

/-- The longest timeout there is, a nanosecond after the command was made: it is over, and
the deadline of such a wait is in the past. -/
theorem longest_timeout_is_over :
    let c : Command :=
      { id := 1, type := .stand, timestamp := 5000000000, timeout := 9223372036854775807 }
    Admitted c 5000000001 ∧ ¬ Overdue c 5000000001 ∧ hasExpired c 5000000001 = true ∧
      CommandQueue.validateForQueue c 5000000001 =
        some ⟨.timeout, "Command expired before queue acceptance"⟩ ∧
      CommandDispatcher.validateCommand c 5000000001 =
        some ⟨.timeout, "Command expired before execution"⟩ ∧
      ResourceManager.deadline 5000000001 9223372036854775807 < 5000000001 := by
  refine ⟨⟨by decide, by decide, by decide, by decide, by decide, by decide⟩, by decide, by decide,
    by decide, by decide, by decide⟩

end HumanoidCore.Proofs.ExpiryBounds
