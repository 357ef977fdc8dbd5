import Mathlib.Algebra.Order.Ring.Rat
import Mathlib.Algebra.Order.Group.Abs
import HumanoidCore.G1Adapter
import HumanoidCore.G1FactoryAdapter

namespace HumanoidCore.Proofs.G1Velocity
open Core Sdk G1Factory Float.Model

def isVelocityCommand : CommandType → Bool
  | .walk | .move | .velocity | .rotate => true
  | _ => false

/-- The numbers that a velocity command needs. -/
def requiredKeys : CommandType → List String
  | .rotate => ["angular_z"]
  | _ => ["linear_x", "linear_y", "angular_z"]

def complete (command : Command) : Bool :=
  (requiredKeys command.type).all fun key => (G1.numberPayload command key).isSome

/-- No speed beyond what the robot may be asked for. -/
structure WithinLimits (velocity : SdkVelocityCommand) : Prop where
  finite : isFinite velocity = true
  linearX : |floatValue velocity.linearX| ≤ 3 / 2
  linearY : |floatValue velocity.linearY| ≤ 3 / 2
  angularZ : |floatValue velocity.angularZ| ≤ 2

theorem at_most_iff (x : FloatBits) (limit : Rat) :
    atMost x limit = true ↔ |floatValue x| ≤ limit := by
  rw [atMost, Bool.and_eq_true, decide_eq_true_eq, decide_eq_true_eq]
  exact abs_le.symm

/-- The check of the factory adapter is the limits. -/
theorem valid_velocity_iff (velocity : SdkVelocityCommand) :
    isValidVelocity velocity = true ↔ WithinLimits velocity := by
  simp only [isValidVelocity, Bool.and_eq_true, at_most_iff, kMaxLinearVelocityMetersPerSecond,
    kMaxYawVelocityRadiansPerSecond]
  constructor
  · rintro ⟨⟨⟨hfinite, hx⟩, hy⟩, hz⟩
    exact ⟨hfinite, hx, hy, hz⟩
  · intro h
    exact ⟨⟨⟨h.finite, h.linearX⟩, h.linearY⟩, h.angularZ⟩

section Adapters
variable (toFloat : Rat → FloatBits) (s : G1.State) (a : Adapter) (command : Command)
variable (velocity : SdkVelocityCommand)

/-- The velocity that a command asks for, where what is missing is zero. -/
def requested : SdkVelocityCommand :=
  match command.type with
  | .rotate => ⟨0, 0, toFloat (Adapter.number command "angular_z")⟩
  | _ =>
    ⟨toFloat (Adapter.number command "linear_x"), toFloat (Adapter.number command "linear_y"),
      toFloat (Adapter.number command "angular_z")⟩

/-- The plugin adapter calls `SdkWrapper::Move` with the velocity. -/
def PluginReaches : Prop :=
  ∃ input t, G1.enterCall toFloat s input (.executeCommand command) =
    some (t, .inSdk (.move velocity) .executeCommand)

/-- The factory adapter calls the `Move` of its wrapper with the velocity. -/
def FactoryReaches : Prop :=
  ∃ answer, .move velocity ∈ (a.executeCommand toFloat command answer).2.2

/-- The two adapters forward the same velocities, and none beyond the limits. -/
structure Agree : Prop where
  same : ∀ velocity, PluginReaches toFloat s command velocity ↔
    FactoryReaches toFloat a command velocity
  plugin : ∀ velocity, PluginReaches toFloat s command velocity → WithinLimits velocity
  factory : ∀ velocity, FactoryReaches toFloat a command velocity → WithinLimits velocity

variable {toFloat s a command velocity}

/-- What the plugin adapter makes of a velocity command. -/
theorem execute_velocity_iff (hcommand : isVelocityCommand command.type = true) :
    G1.executeCommand toFloat command = .ok (.sdk (.move velocity)) ↔
      complete command = true ∧ velocity = requested toFloat command := by
  have hnumber : ∀ key, Adapter.number command key = (G1.numberPayload command key).getD 0 :=
    fun _ => rfl
  have hthree : requiredKeys command.type = ["linear_x", "linear_y", "angular_z"] →
      requested toFloat command = ⟨toFloat (Adapter.number command "linear_x"),
        toFloat (Adapter.number command "linear_y"),
        toFloat (Adapter.number command "angular_z")⟩ →
      (G1.executeVelocity toFloat command = .ok (.sdk (.move velocity)) ↔
        complete command = true ∧ velocity = requested toFloat command) := by
    intro hkeys hrequested
    rw [complete, hkeys, hrequested, G1.executeVelocity]
    simp only [hnumber, List.all_cons, List.all_nil]
    cases G1.numberPayload command "linear_x" <;> cases G1.numberPayload command "linear_y" <;>
      cases G1.numberPayload command "angular_z" <;> simp
    exact eq_comm
  have hone : requiredKeys command.type = ["angular_z"] →
      requested toFloat command = ⟨0, 0, toFloat (Adapter.number command "angular_z")⟩ →
      (G1.executeRotate toFloat command = .ok (.sdk (.move velocity)) ↔
        complete command = true ∧ velocity = requested toFloat command) := by
    intro hkeys hrequested
    rw [complete, hkeys, hrequested, G1.executeRotate]
    simp only [hnumber, List.all_cons, List.all_nil]
    cases G1.numberPayload command "angular_z" <;> simp
    exact eq_comm
  unfold G1.executeCommand
  cases htype : command.type with
  | walk => exact hthree (by rw [htype]; rfl) (by simp only [requested, htype])
  | move => exact hthree (by rw [htype]; rfl) (by simp only [requested, htype])
  | velocity => exact hthree (by rw [htype]; rfl) (by simp only [requested, htype])
  | rotate => exact hone (by rw [htype]; rfl) (by simp only [requested, htype])
  | _ =>
    rw [htype] at hcommand
    cases hcommand

/-- The plugin adapter forwards whatever a complete payload asks for. -/
theorem plugin_reaches_iff (hfree : s.locked = false)
    (hcommand : isVelocityCommand command.type = true) :
    PluginReaches toFloat s command velocity ↔
      (s.initialized = true ∧ complete command = true) ∧
        velocity = requested toFloat command := by
  have hexecute : G1.executeCommand toFloat command = .ok (.sdk (.move velocity)) ↔
      complete command = true ∧ velocity = requested toFloat command :=
    execute_velocity_iff hcommand
  rw [and_assoc, ← hexecute]
  constructor
  · rintro ⟨input, t, h⟩
    simp only [G1.enterCall, hfree, Bool.false_eq_true, if_false] at h
    split at h
    · cases h
    rename_i hinitialized
    refine ⟨by simpa using hinitialized, ?_⟩
    split at h
    · cases h
    · rename_i call hcall
      simp only [Option.some.injEq, Prod.mk.injEq, G1.Position.inSdk.injEq, and_true] at h
      cases call <;> cases h.2
      exact hcall
    · cases h
  · rintro ⟨hinitialized, hcall⟩
    exact ⟨{}, _, by
      simp only [G1.enterCall, hfree, hinitialized, hcall, Bool.false_eq_true, Bool.not_true,
        if_false, Sdk.Call.enter]
      rfl⟩

/-- The factory adapter forwards what is within the limits, with zeros for what is
missing. -/
theorem factory_reaches_iff (hcommand : isVelocityCommand command.type = true) :
    FactoryReaches toFloat a command velocity ↔
      (a.client = true ∧ isValidVelocity (requested toFloat command) = true) ∧
        velocity = requested toFloat command := by
  have hmove : ∀ answer, (a.executeCommand toFloat command answer).2.2 =
      (a.move (requested toFloat command) answer).calls := by
    intro answer
    unfold Adapter.executeCommand Adapter.route
    cases htype : command.type with
    | walk => simp only [requested, htype]
    | move => simp only [requested, htype]
    | velocity => simp only [requested, htype]
    | rotate => simp only [requested, htype]
    | _ =>
      rw [htype] at hcommand
      cases hcommand
  simp only [FactoryReaches, hmove, Adapter.move, Adapter.clientCommand,
    Adapter.unavailable]
  cases isValidVelocity (requested toFloat command) <;> cases a.client <;> simp
  exact fun _ => ⟨{}⟩

end Adapters

/-- The two adapters agree on a velocity command exactly when the one forwards it and the
other does, or neither does: the plugin adapter where it is initialised and the payload is
complete, the factory adapter where it has its wrapper and the limits are kept. -/
theorem velocity_agreement (toFloat : Rat → FloatBits) (s : G1.State) (a : Adapter)
    (command : Command) (hfree : s.locked = false)
    (hcommand : isVelocityCommand command.type = true) :
    Agree toFloat s a command ↔
      ((s.initialized = true ∧ complete command = true) ↔
        (a.client = true ∧ isValidVelocity (requested toFloat command) = true)) := by
  constructor
  · intro h
    have hsame := h.same (requested toFloat command)
    rw [plugin_reaches_iff hfree hcommand, factory_reaches_iff hcommand] at hsame
    simpa using hsame
  · intro h
    have hsame : ∀ velocity, PluginReaches toFloat s command velocity ↔
        FactoryReaches toFloat a command velocity := by
      intro velocity
      rw [plugin_reaches_iff hfree hcommand, factory_reaches_iff hcommand, h]
    have hfactory : ∀ velocity, FactoryReaches toFloat a command velocity →
        WithinLimits velocity := by
      intro velocity hv
      obtain ⟨⟨-, hvalid⟩, rfl⟩ := (factory_reaches_iff hcommand).mp hv
      exact (valid_velocity_iff _).mp hvalid
    exact ⟨hsame, fun velocity hv => hfactory velocity ((hsame velocity).mp hv), hfactory⟩

/-- The nearest float, ties to even. -/
def nearestFloat (x : Rat) : FloatBits :=
  if x = 0 then 0
  else
    let (mantissa, exponent, accuracy) :=
      UnpackedFloat.divCore .binary32 x.num.natAbs 0 x.den 0
    UnpackedFloat.pack .binary32
      (UnpackedFloat.roundWithAccuracy .binary32 (if x < 0 then .negative else .positive) mantissa
        exponent accuracy)

/-- An initialised plugin adapter, a factory adapter with its wrapper, and a walk. -/
def walking (linearX : Rat) : Command :=
  { id := 1, type := .walk,
    payload := [("angular_z", .double 0), ("linear_x", .double linearX), ("linear_y", .int64 0)] }

theorem velocity_agreement_walk :
    complete (walking (1 / 2)) = true ∧
      Agree nearestFloat { initialized := true } { client := true } (walking (1 / 2)) := by
  have hvalid : isValidVelocity (requested nearestFloat (walking (1 / 2))) = true := by
    decide +kernel
  exact ⟨rfl, (velocity_agreement nearestFloat { initialized := true } { client := true }
    (walking (1 / 2)) rfl rfl).mpr ⟨fun _ => ⟨rfl, hvalid⟩, fun _ => ⟨rfl, rfl⟩⟩⟩

/-- Two metres a second. -/
def fast : SdkVelocityCommand := ⟨0x40000000, 0, 0⟩

/-- A walk at two metres a second reaches the SDK through the plugin adapter alone, and a
walk without a payload through the factory adapter alone. -/
theorem velocity_disagreement :
    (PluginReaches nearestFloat { initialized := true } (walking 2) fast ∧ ¬ WithinLimits fast ∧
      ∀ velocity, ¬ FactoryReaches nearestFloat { client := true } (walking 2) velocity) ∧
    (∀ velocity, ¬ PluginReaches nearestFloat { initialized := true } { id := 1, type := .walk }
      velocity) ∧
    FactoryReaches nearestFloat { client := true } { id := 1, type := .walk } {} := by
  have hinvalid : isValidVelocity fast = false := by decide +kernel
  have hfast : fast = requested nearestFloat (walking 2) := by decide +kernel
  refine ⟨⟨?_, ?_, ?_⟩, ?_, ?_⟩
  · exact (plugin_reaches_iff rfl rfl).mpr ⟨⟨rfl, rfl⟩, hfast⟩
  · intro hlimits
    rw [(valid_velocity_iff fast).mpr hlimits] at hinvalid
    cases hinvalid
  · intro velocity hreaches
    obtain ⟨⟨-, hvalid⟩, -⟩ := (factory_reaches_iff rfl).mp hreaches
    rw [← hfast, hinvalid] at hvalid
    cases hvalid
  · intro velocity hreaches
    obtain ⟨⟨-, hcomplete⟩, -⟩ := (plugin_reaches_iff rfl rfl).mp hreaches
    cases hcomplete
  · exact (factory_reaches_iff rfl).mpr ⟨⟨rfl, by decide +kernel⟩, rfl⟩

end HumanoidCore.Proofs.G1Velocity
