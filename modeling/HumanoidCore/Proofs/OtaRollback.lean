import HumanoidCore.OtaManager

namespace HumanoidCore.Proofs.OtaRollback
open Lib OtaManager

/-- The package of the plan cannot be rolled back. -/
def refuses (packageId : String) (plan : UpdatePlan) : Bool :=
  decide (plan.package.packageId = packageId) && !plan.package.rollbackSupported

/-- What the loop of `Rollback` makes of a plan that it does not refuse. -/
def withdraw (packageId : String) (plan : UpdatePlan) : UpdatePlan :=
  if plan.package.packageId = packageId then { plan with status := .rolledBack } else plan

/-- A rollback that fails changes no plan, one that succeeds changes those of the package. -/
def AllOrNothing (m : Manager) (packageId : String) : Prop :=
  ((rollback m packageId).2.ok = false → (rollback m packageId).1.plans = m.plans) ∧
    ((rollback m packageId).2.ok = true →
      (rollback m packageId).1.plans = m.plans.map (withdraw packageId))

/-- If a plan refuses, those of the package before the first such plan are rolled back
already. -/
def Undivided (packageId : String) (plans : List UpdatePlan) : Prop :=
  plans.any (refuses packageId) = true →
    ∀ plan ∈ plans.takeWhile (fun plan => !refuses packageId plan),
      plan.package.packageId = packageId → plan.status = .rolledBack

section Loop
variable {packageId : String} {plans : List UpdatePlan} {found : Bool}

theorem loop_willing (h : plans.any (refuses packageId) = false) :
    rollbackLoop packageId found plans = (plans.map (withdraw packageId),
      if found || plans.any (fun plan => decide (plan.package.packageId = packageId)) then
        ⟨.success, "rollback planned"⟩
      else ⟨.notFound, "update plan is not registered"⟩) := by
  induction plans generalizing found with
  | nil => simp [rollbackLoop]
  | cons plan plans ih =>
    rw [List.any_cons, Bool.or_eq_false_iff] at h
    obtain ⟨hplan, hrest⟩ := h
    by_cases hid : plan.package.packageId = packageId
    · simp [refuses, hid] at hplan
      simp [rollbackLoop, withdraw, hid, hplan, ih hrest]
    · simp [rollbackLoop, withdraw, hid, ih hrest]

theorem loop_refused (h : plans.any (refuses packageId) = true) :
    rollbackLoop packageId found plans =
      ((plans.takeWhile (fun plan => !refuses packageId plan)).map (withdraw packageId) ++
        plans.dropWhile (fun plan => !refuses packageId plan),
      ⟨.invalidInput, "rollback is not supported by package"⟩) := by
  induction plans generalizing found with
  | nil => cases h
  | cons plan plans ih =>
    by_cases hplan : refuses packageId plan = true
    · have hid : plan.package.packageId = packageId ∧ plan.package.rollbackSupported = false := by
        simpa [refuses] using hplan
      simp [rollbackLoop, hid.1, hid.2, hplan]
    · have hrest : plans.any (refuses packageId) = true := by
        simpa [hplan] using h
      by_cases hid : plan.package.packageId = packageId
      · have hsupported : plan.package.rollbackSupported = true := by
          simpa [refuses, hid] using hplan
        simp [rollbackLoop, withdraw, hid, hsupported, hplan, ih hrest]
      · simp [rollbackLoop, withdraw, hid, hplan, ih hrest]

theorem withdraw_self {plan : UpdatePlan} : withdraw packageId plan = plan ↔
    (plan.package.packageId = packageId → plan.status = .rolledBack) := by
  unfold withdraw
  by_cases hid : plan.package.packageId = packageId
  · rw [if_pos hid]
    refine ⟨fun he _ => ?_, fun h => ?_⟩
    · rw [← he]
    · rw [← h hid]
  · rw [if_neg hid]
    exact ⟨fun _ h => absurd h hid, fun _ => rfl⟩

theorem withdraw_all : plans.map (withdraw packageId) = plans ↔
    ∀ plan ∈ plans, plan.package.packageId = packageId → plan.status = .rolledBack := by
  induction plans with
  | nil => simp
  | cons plan plans ih => rw [List.map_cons, List.cons_eq_cons, ih, withdraw_self,
      List.forall_mem_cons]

end Loop

theorem undivided_iff (m : Manager) (packageId : String) :
    AllOrNothing m packageId ↔ Undivided packageId m.plans := by
  by_cases h : m.plans.any (refuses packageId) = true
  · have hsplit := List.takeWhile_append_dropWhile
      (p := fun plan => !refuses packageId plan) (l := m.plans)
    have hunchanged : (m.plans.takeWhile (fun plan => !refuses packageId plan)).map
          (withdraw packageId) ++ m.plans.dropWhile (fun plan => !refuses packageId plan) =
        m.plans ↔ ∀ plan ∈ m.plans.takeWhile (fun plan => !refuses packageId plan),
          plan.package.packageId = packageId → plan.status = .rolledBack := by
      conv_lhs => rhs; rw [← hsplit]
      rw [List.append_left_inj, withdraw_all]
    simp [AllOrNothing, Undivided, rollback, loop_refused h, h, CloudResult.ok, hunchanged]
  · rw [Bool.not_eq_true] at h
    refine ⟨fun _ hany => ?_, fun _ => ?_⟩
    · rw [h] at hany
      cases hany
    · simp only [AllOrNothing, rollback, loop_willing h, Bool.false_or]
      refine ⟨fun hfailed => ?_, fun _ => trivial⟩
      refine withdraw_all.mpr (fun plan hplan hid => ?_)
      have hfound : m.plans.any (fun plan => decide (plan.package.packageId = packageId)) = true :=
        List.any_eq_true.mpr ⟨plan, hplan, decide_eq_true hid⟩
      simp [hfound, CloudResult.ok] at hfailed

/-- After any calls a rollback is all or nothing exactly where it does not meet a plan that
refuses behind one that is still to be rolled back. -/
theorem rollback_all_or_nothing_iff (calls : List Call) (packageId : String) :
    AllOrNothing (after calls) packageId ↔ Undivided packageId (after calls).plans :=
  undivided_iff (after calls) packageId

/-- The package is registered anew, without support for a rollback, between two plans. -/
def mixedCalls : List Call :=
  [.registerPackage { packageId := "app", version := "1", rollbackSupported := true },
    .planUpdate "app" ["robot"] 1, .registerPackage { packageId := "app", version := "2" },
    .planUpdate "app" ["robot"] 2]

theorem rollback_half_done : ¬ AllOrNothing (after mixedCalls) "app" := by
  intro h
  have hplans := h.1 (by decide)
  revert hplans
  decide

end HumanoidCore.Proofs.OtaRollback
