import Mathlib.Data.List.Induction
import HumanoidCore.OtaManager
import HumanoidCore.Lib.Machine

namespace HumanoidCore.Proofs.OtaHistory
open Lib OtaManager

/-- What became of a plan in a call. -/
inductive Change (m : Manager) (c : Call) (p q : UpdatePlan) : Prop where
  | kept (same : q = p)
  | verified (digest : String) (asked : c = .verifyPackage p.package.packageId digest)
      (accepted : (verifyPackage m p.package.packageId digest).2.ok = true)
      (now : q = { p with status := .verified })
  | rolledBack (now : q = { p with status := .rolledBack })

theorem rollback_plan {packageId : String} {plans : List UpdatePlan} {found : Bool} {i : Nat}
    {q : UpdatePlan} (h : (rollbackLoop packageId found plans).1[i]? = some q) :
    ∃ p, plans[i]? = some p ∧ (q = p ∨ q = { p with status := .rolledBack }) := by
  induction plans generalizing found i with
  | nil => simp [rollbackLoop] at h
  | cons plan plans ih =>
    simp only [rollbackLoop] at h
    split at h
    · cases i with
      | zero => exact ⟨plan, rfl, .inl (Option.some.inj h).symm⟩
      | succ i => exact ih (by simpa using h)
    · split at h
      · exact ⟨q, h, .inl rfl⟩
      · cases i with
        | zero => exact ⟨plan, rfl, .inr (Option.some.inj h).symm⟩
        | succ i => exact ih (by simpa using h)

theorem rollback_length (packageId : String) (found : Bool) (plans : List UpdatePlan) :
    (rollbackLoop packageId found plans).1.length = plans.length := by
  induction plans generalizing found with
  | nil => simp [rollbackLoop]
  | cons plan plans ih =>
    simp only [rollbackLoop]
    split
    · simp [ih]
    · split
      · rfl
      · simp [ih]

/-- A plan after a call is new and planned, or what the call made of the plan at its place. -/
theorem call_plan {m : Manager} {c : Call} {i : Nat} {q : UpdatePlan}
    (h : (m.call c).1.plans[i]? = some q) :
    (i = m.plans.length ∧ q.status = .planned) ∨ ∃ p, m.plans[i]? = some p ∧ Change m c p q := by
  have hsame (hplans : m.plans[i]? = some q) :
      (i = m.plans.length ∧ q.status = .planned) ∨ ∃ p, m.plans[i]? = some p ∧ Change m c p q :=
    .inr ⟨q, hplans, .kept rfl⟩
  cases c with
  | registerPackage package =>
    simp only [Manager.call, registerPackage] at h
    split at h <;> exact hsame h
  | planUpdate packageId robotIds now =>
    simp only [Manager.call, planUpdate] at h
    split at h
    · exact hsame h
    · split at h
      · exact hsame h
      · rcases get_of_get_snoc h with ⟨hi, hq⟩ | hold
        · subst q
          exact .inl ⟨hi, rfl⟩
        · exact hsame hold
  | verifyPackage packageId digest =>
    simp only [Manager.call, verifyPackage] at h
    split at h
    · exact hsame h
    · rename_i package hfind
      split at h
      · exact hsame h
      · rename_i hdigest
        rw [List.getElem?_map, Option.map_eq_some_iff] at h
        obtain ⟨p, hp, hq⟩ := h
        refine .inr ⟨p, hp, ?_⟩
        unfold UpdatePlan.verify at hq
        split at hq
        · rename_i hid
          subst packageId
          refine .verified digest rfl ?_ hq.symm
          simp only [verifyPackage, hfind, hdigest, ↓reduceIte, CloudResult.ok, decide_true]
        · exact .kept hq.symm
  | rollback packageId =>
    simp only [Manager.call, rollback] at h
    obtain ⟨p, hp, hq⟩ := rollback_plan h
    rcases hq with hq | hq
    · exact .inr ⟨p, hp, .kept hq⟩
    · exact .inr ⟨p, hp, .rolledBack hq⟩

theorem call_length (m : Manager) (c : Call) : m.plans.length ≤ (m.call c).1.plans.length := by
  cases c with
  | registerPackage package =>
    simp only [Manager.call, registerPackage]
    split <;> exact Nat.le_refl _
  | planUpdate packageId robotIds now =>
    simp only [Manager.call, planUpdate]
    split
    · exact Nat.le_refl _
    · split
      · exact Nat.le_refl _
      · simp
  | verifyPackage packageId digest =>
    simp only [Manager.call, verifyPackage]
    split
    · exact Nat.le_refl _
    · split
      · exact Nat.le_refl _
      · simp
  | rollback packageId =>
    simp only [Manager.call, rollback]
    exact Nat.le_of_eq (rollback_length packageId false m.plans).symm

/-- An accepted verification marks every plan of the package. -/
theorem accepted_marks {m : Manager} {packageId digest : String} {i : Nat} {p : UpdatePlan}
    (haccepted : (verifyPackage m packageId digest).2.ok = true) (hp : m.plans[i]? = some p)
    (hid : p.package.packageId = packageId) :
    (verifyPackage m packageId digest).1.plans[i]? = some { p with status := .verified } := by
  unfold verifyPackage at haccepted ⊢
  split
  · rename_i hfind
    simp [hfind, CloudResult.ok] at haccepted
  · rename_i package hfind
    split
    · rename_i hdigest
      simp [hfind, hdigest, CloudResult.ok] at haccepted
    · simp [hp, UpdatePlan.verify, hid]

/-- `VerifyPackage` was called for the package with the digest of the plan's own descriptor
when plan `i` was already there. -/
def Asked (calls : List Call) (i : Nat) (d : PackageDescriptor) : Prop :=
  ∃ earlier later, calls = earlier ++ later ∧ i < (after earlier).plans.length ∧
    .verifyPackage d.packageId d.verificationDigest ∈ later

theorem after_length_le (earlier later : List Call) :
    (after earlier).plans.length ≤ (after (earlier ++ later)).plans.length := by
  induction later using List.reverseRecOn with
  | nil => rw [List.append_nil]
  | append_singleton later c ih =>
    rw [← List.append_assoc, after_snoc]
    exact Nat.le_trans ih (call_length _ c)

/-- A verified plan was verified by its own digest, and what was rolled back stays so. -/
structure Sound (calls : List Call) : Prop where
  asked : ∀ (i : Nat) (p : UpdatePlan), (after calls).plans[i]? = some p →
    p.status = .verified → Asked calls i p.package
  withdrawn : ∀ earlier later : List Call, calls = earlier ++ later → ∀ (i : Nat) (p q : UpdatePlan),
    (after earlier).plans[i]? = some p → p.status = .rolledBack →
      (after calls).plans[i]? = some q → q.status ≠ .verified

/-- An accepted verification finds no plan of the package that was rolled back, and none that
expects another digest, unless that was asked for, too. -/
def Honest (before : List Call) : Call → Prop
  | .verifyPackage packageId digest =>
    (verifyPackage (after before) packageId digest).2.ok = true →
      ∀ i p, (after before).plans[i]? = some p → p.package.packageId = packageId →
        p.status ≠ .rolledBack ∧
          (p.package.verificationDigest = digest ∨ Asked before i p.package)
  | _ => True

theorem Asked.snoc {calls : List Call} {i : Nat} {d : PackageDescriptor} (h : Asked calls i d)
    (c : Call) : Asked (calls ++ [c]) i d := by
  obtain ⟨earlier, later, rfl, hlen, hmem⟩ := h
  exact ⟨earlier, later ++ [c], by simp, hlen, List.mem_append_left _ hmem⟩

/-- The last call asks for the digest of every plan that was there before it. -/
theorem asked_last {calls : List Call} {i : Nat} {d : PackageDescriptor}
    (hlen : i < (after calls).plans.length) :
    Asked (calls ++ [.verifyPackage d.packageId d.verificationDigest]) i d :=
  ⟨calls, [.verifyPackage d.packageId d.verificationDigest], rfl, hlen, List.mem_singleton_self _⟩

/-- Who was asked for by the end was asked for before the last call, or by it. -/
theorem Asked.unsnoc {calls : List Call} {c : Call} {i : Nat} {d : PackageDescriptor}
    (h : Asked (calls ++ [c]) i d) :
    Asked calls i d ∨ c = .verifyPackage d.packageId d.verificationDigest := by
  obtain ⟨earlier, later, hsplit, hlen, hmem⟩ := h
  induction later using List.reverseRecOn with
  | nil => cases hmem
  | append_singleton later b _ =>
    rw [← List.append_assoc] at hsplit
    obtain ⟨hcalls, hb⟩ := List.append_inj' hsplit rfl
    cases hb
    rcases List.mem_append.mp hmem with hmem | hmem
    · exact .inl ⟨earlier, later, hcalls, hlen, hmem⟩
    · exact .inr (List.mem_singleton.mp hmem).symm

/-- What an honest run keeps: a plan once rolled back stays rolled back. -/
structure Steady (calls : List Call) : Prop where
  asked : ∀ (i : Nat) (p : UpdatePlan), (after calls).plans[i]? = some p →
    p.status = .verified → Asked calls i p.package
  withdrawn : ∀ earlier later : List Call, calls = earlier ++ later → ∀ (i : Nat) (p q : UpdatePlan),
    (after earlier).plans[i]? = some p → p.status = .rolledBack →
      (after calls).plans[i]? = some q → q.status = .rolledBack

theorem Steady.sound {calls : List Call} (h : Steady calls) : Sound calls := by
  refine ⟨h.asked, fun earlier later hsplit i p q hp hrolled hq hverified => ?_⟩
  have hstays := h.withdrawn earlier later hsplit i p q hp hrolled hq
  rw [hverified] at hstays
  cases hstays

theorem steady_nil : Steady [] := by
  refine ⟨fun i p hp _ => ?_, fun earlier later hsplit i p q hp _ hq => ?_⟩
  · simp [after] at hp
  · simp [after] at hq

/-- An honest call finds what was rolled back and leaves it. -/
theorem withdrawn_call {calls : List Call} {c : Call} (hhonest : Honest calls c) {i : Nat}
    {p q : UpdatePlan} (hp : (after calls).plans[i]? = some p) (hrolled : p.status = .rolledBack)
    (hq : ((after calls).call c).1.plans[i]? = some q) : q.status = .rolledBack := by
  rcases call_plan hq with ⟨hnew, -⟩ | ⟨p', hp', hchange⟩
  · have hlt := (List.getElem?_eq_some_iff.mp hp).1
    omega
  · rw [hp] at hp'
    obtain rfl := Option.some.inj hp'
    cases hchange with
    | kept same => rw [same, hrolled]
    | verified digest asked accepted now =>
      subst c
      exact absurd hrolled (hhonest accepted i p hp rfl).1
    | rolledBack now => rw [now]

theorem steady_snoc {calls : List Call} {c : Call} (h : Steady calls) (hhonest : Honest calls c) :
    Steady (calls ++ [c]) := by
  constructor
  · intro i q hq hverified
    rw [after_snoc] at hq
    rcases call_plan hq with ⟨-, hplanned⟩ | ⟨p, hp, hchange⟩
    · rw [hverified] at hplanned
      cases hplanned
    · have hlen := (List.getElem?_eq_some_iff.mp hp).1
      cases hchange with
      | kept same =>
        subst q
        exact (h.asked i p hp hverified).snoc c
      | verified digest asked accepted now =>
        subst c q
        rcases (hhonest accepted i p hp rfl).2 with hdigest | hbefore
        · subst digest
          exact asked_last hlen
        · exact hbefore.snoc _
      | rolledBack now =>
        subst q
        cases hverified
  · intro earlier later hsplit i p q hp hrolled hq
    induction later using List.reverseRecOn with
    | nil =>
      rw [List.append_nil] at hsplit
      rw [hsplit, hp] at hq
      rw [← Option.some.inj hq, hrolled]
    | append_singleton later b _ =>
      rw [← List.append_assoc] at hsplit
      obtain ⟨hcalls, -⟩ := List.append_inj' hsplit rfl
      rw [after_snoc] at hq
      have hlt : i < (after calls).plans.length := by
        have hlen := (List.getElem?_eq_some_iff.mp hp).1
        have hgrown := after_length_le earlier later
        rw [← hcalls] at hgrown
        omega
      obtain ⟨r, hr⟩ : ∃ r, (after calls).plans[i]? = some r := ⟨_, List.getElem?_eq_getElem hlt⟩
      have hstays := h.withdrawn earlier later hcalls i p r hp hrolled hr
      exact withdrawn_call hhonest hr hstays hq

/-- A call that was followed by a sound state was honest. -/
theorem honest_of_sound {before : List Call} {c : Call} (h : Sound (before ++ [c])) :
    Honest before c := by
  cases c with
  | registerPackage => trivial
  | planUpdate => trivial
  | rollback => trivial
  | verifyPackage packageId digest =>
    intro haccepted i p hp hid
    have hmarked := accepted_marks haccepted hp hid
    have hafter : (after (before ++ [.verifyPackage packageId digest])).plans[i]? =
        some { p with status := .verified } := by
      rw [after_snoc]
      exact hmarked
    constructor
    · intro hrolled
      exact h.withdrawn before _ rfl i p _ hp hrolled hafter rfl
    · rcases (h.asked i _ hafter rfl).unsnoc with hbefore | hcall
      · exact .inr hbefore
      · cases hcall
        exact .inl rfl

/-- The states of a run are sound exactly if its calls are honest. -/
theorem verification_sound_iff (calls : List Call) :
    (∀ before, before <+: calls → Sound before) ↔
      ∀ before c, before ++ [c] <+: calls → Honest before c := by
  constructor
  · intro h before c hpre
    exact honest_of_sound (h _ hpre)
  · intro h before hpre
    have hsteady : Steady before := by
      induction before using List.reverseRecOn with
      | nil => exact steady_nil
      | append_singleton before c ih =>
        apply steady_snoc
        · exact ih ((List.prefix_append before [c]).trans hpre)
        · exact h before c hpre
    exact hsteady.sound

/-- The digest of a package that was registered anew verifies the plan of the old one, and
the digest of a package verifies its plan after the rollback. -/
theorem verification_unsound :
    (¬ Sound [.registerPackage { packageId := "app", version := "1", verificationDigest := "a" },
        .planUpdate "app" ["robot"] 1,
        .registerPackage { packageId := "app", version := "2", verificationDigest := "b" },
        .verifyPackage "app" "b"]) ∧
      ¬ Sound [.registerPackage
          { packageId := "app", version := "1", verificationDigest := "a",
            rollbackSupported := true },
        .planUpdate "app" ["robot"] 1, .rollback "app", .verifyPackage "app" "a"] := by
  constructor
  · intro h
    obtain ⟨earlier, later, hsplit, -, hmem⟩ := h.asked 0 _ rfl rfl
    have hcall := hsplit ▸ List.mem_append_right earlier hmem
    revert hcall
    decide
  · intro h
    exact h.withdrawn
      [.registerPackage
          { packageId := "app", version := "1", verificationDigest := "a",
            rollbackSupported := true },
        .planUpdate "app" ["robot"] 1, .rollback "app"]
      [.verifyPackage "app" "a"] rfl 0 _ _ rfl rfl rfl rfl

end HumanoidCore.Proofs.OtaHistory
