import HumanoidCore.Proofs.G1Calls

namespace HumanoidCore.Proofs.G1Destruction
open Lib Core G1 SdkMoves G1Moves G1Calls
open Sdk hiding State Input Call Action Returned step

section Registered
variable {toFloat : Rat → FloatBits} {s t : State}

/-- `Initialize` was called: the callback is registered, or the call has still to begin. -/
def Asked (s : State) : Prop :=
  s.wrapper.stateUpdateCallback ≠ none ∨ .enter .initializeG1 ∈ s.calls

theorem moved_asked {a : Action} (hs : Known s) (hasked : Asked s) (h : Moved toFloat s a t) :
    Asked t := by
  rcases hasked with hregistered | hmem
  · exact .inl (registered_kept hs.fit h hregistered)
  cases h with
  | call => exact .inr (List.mem_append_left _ hmem)
  | destroy => exact .inr (List.mem_append_left _ hmem)
  | own hp hnone hsection =>
    rename_i i input p p' t'
    by_cases hpe : p = .enter .initializeG1
    · subst hpe
      left
      simp only [adapterSection, enterCall] at hsection
      split at hsection
      · cases hsection
      · split at hsection <;> cases hsection
        · rename_i hinitialized
          intro hnone
          rw [(hs.unregistered hnone).initialized] at hinitialized
          cases hinitialized
        · exact Option.some_ne_none _
    · right
      rw [(section_own hsection).1.calls]
      exact mem_set_of_ne hp p' hmem (Ne.symm hpe)
  | client hp hnone hw => exact .inr (mem_set_of_ne hp _ hmem Position.noConfusion)
  | updated hx hcarried hstored hleft =>
    cases hleft with
    | adapter hp => exact .inr (mem_set_of_ne hp _ hmem Position.noConfusion)
    | reader => exact .inr hmem
    | worker => exact .inr hmem
  | _ => exact .inr hmem

/-- What the wrapper's destructor has done when it is at a place. -/
def Last (s : State) (i : Nat) : Client → Prop
  | .publish callback _ _ => callback ≠ none ∧ (.adapter i ∈ s.stored → s.late = true)
  | .returned _ => s.late = true
  | _ => True

/-- With a registered callback the destructor cannot come to its end without calling it
late. -/
structure Doomed (s : State) : Prop where
  members : .destroyMembers [] ∈ s.calls → s.destroyed ≠ []
  last : ∀ i c, s.calls[i]? = some (.inSdk c .destroyed) →
    s.destroyed ≠ [] ∧ (s.wrapper.stateUpdateCallback ≠ none → Last s i c)
  done : s.wrapper.stateUpdateCallback ≠ none → .returned .nothing ∈ s.calls → s.late = true

/-- As long as the adapter is not being destroyed there is nothing to show. -/
theorem doomed_of_open (h : Alone s) (hd : s.destroying = false) : Doomed s := by
  constructor
  · intro hmem
    exact (h.open_elsewhere hd hmem rfl).elim
  · intro i c hi
    exact (h.open_elsewhere hd (List.mem_of_getElem? hi) rfl).elim
  · intro _ hmem
    exact (h.open_elsewhere hd hmem rfl).elim

/-- A step that leaves the calls of the adapter where they are. -/
theorem Doomed.frame (h : Doomed s) (hcalls : t.calls = s.calls)
    (hcallback : t.wrapper.stateUpdateCallback = s.wrapper.stateUpdateCallback)
    (hdestroyed : t.destroyed = s.destroyed) (hlate : s.late = true → t.late = true)
    (hstored : ∀ i, .adapter i ∈ t.stored → s.destroyed ≠ [] →
      .adapter i ∈ s.stored ∨ t.late = true) : Doomed t := by
  constructor
  · rw [hcalls, hdestroyed]
    exact h.members
  · intro i c hi
    rw [hcalls] at hi
    obtain ⟨hne, hlast⟩ := h.last i c hi
    rw [hdestroyed, hcallback]
    refine ⟨hne, fun hregistered => ?_⟩
    have hl := hlast hregistered
    cases c with
    | publish callback state value =>
      refine ⟨hl.1, fun hmem => ?_⟩
      rcases hstored i hmem hne with hmem | hnow
      · exact hlate (hl.2 hmem)
      · exact hnow
    | returned value => exact hlate hl
    | _ => trivial
  · intro hregistered hmem
    rw [hcallback] at hregistered
    rw [hcalls] at hmem
    exact hlate (h.done hregistered hmem)

/-- A step of the destructor, from one of its positions to the next. -/
theorem Doomed.set (h : Doomed s) {i : Nat} {p p' : Position} (hp : s.calls[i]? = some p)
    (hcalls : t.calls = s.calls.set i p')
    (hcallback : t.wrapper.stateUpdateCallback = s.wrapper.stateUpdateCallback)
    (hdestroyed : s.destroyed ≠ [] → t.destroyed ≠ []) (hlate : t.late = s.late)
    (hstored : ∀ y ∈ t.stored, y ∈ s.stored)
    (hmembers : p' = .destroyMembers [] → t.destroyed ≠ [])
    (hlast : ∀ c, p' = .inSdk c .destroyed →
      t.destroyed ≠ [] ∧ (s.wrapper.stateUpdateCallback ≠ none → Last t i c))
    (hdone : p' = .returned .nothing → s.wrapper.stateUpdateCallback ≠ none → s.late = true) :
    Doomed t := by
  have hlt : i < s.calls.length := (List.getElem?_eq_some_iff.mp hp).1
  constructor
  · intro hmem
    rw [hcalls] at hmem
    rcases List.mem_or_eq_of_mem_set hmem with hmem | he
    · exact hdestroyed (h.members hmem)
    · exact hmembers he.symm
  · intro j c hj
    rw [hcalls] at hj
    rw [hcallback]
    by_cases hij : i = j
    · subst hij
      rw [List.getElem?_set_self hlt] at hj
      exact hlast c (Option.some.inj hj)
    · rw [List.getElem?_set_ne hij] at hj
      obtain ⟨hne, hold⟩ := h.last j c hj
      refine ⟨hdestroyed hne, fun hregistered => ?_⟩
      have hl := hold hregistered
      cases c with
      | publish callback state value =>
        exact ⟨hl.1, fun hmem => hlate.trans (hl.2 (hstored _ hmem))⟩
      | returned value => exact hlate.trans hl
      | _ => trivial
  · intro hregistered hmem
    rw [hcallback] at hregistered
    rw [hcalls] at hmem
    rcases List.mem_or_eq_of_mem_set hmem with hmem | he
    · exact hlate.trans (h.done hregistered hmem)
    · exact hlate.trans (hdone he.symm hregistered)

/-- Where the wrapper's destructor goes from a place: it publishes before it returns. -/
theorem last_section {w : Sdk.State} {sdk : Sdk.Input} {c c' : Client}
    (hfit : fits .destroyed c = true) (hnone : delivering c = none)
    (hregistered : s.wrapper.stateUpdateCallback ≠ none) {i : Nat}
    (hlast : Last s i c) (hfree : .adapter i ∉ t.stored)
    (hw : clientStep s.wrapper sdk c = some (w, c')) : Last t i c' := by
  cases c with
  | stopCommunication after =>
    simp only [clientStep, stopCommunication, Option.some.injEq] at hw
    cases after with
    | shutdown => split at hw <;> cases hw <;> trivial
    | _ => cases hfit
  | joinCommunication worker after =>
    cases worker with
    | none =>
      cases hw
      trivial
    | some worker =>
      simp only [clientStep] at hw
      split at hw <;> cases hw
      trivial
  | stopFinish after =>
    cases hw
    cases after with
    | shutdown => trivial
    | _ => cases hfit
  | shutdown =>
    cases hw
    exact ⟨hregistered, fun hmem => absurd hmem hfree⟩
  | publish callback state value =>
    cases callback with
    | none => exact absurd rfl hlast.1
    | some callback => cases hnone
  | returned value => cases hw
  | _ => cases hfit

/-- What a section of the destructor's own leads to. -/
theorem Doomed.own (h : Doomed s) {i : Nat} {input : Input} {p p' : Position}
    (hclosing : closing p = true) (hp : s.calls[i]? = some p)
    (hsection : adapterSection toFloat s input p = some (t, p')) :
    Doomed { t with calls := t.calls.set i p' } := by
  cases p with
  | enter call => cases hclosing
  | inSdk c next =>
    cases c with
    | returned value =>
      cases next with
      | shutdown destructor =>
        cases destructor with
        | false => cases hclosing
        | true =>
          simp only [adapterSection, afterSdk] at hsection
          split at hsection <;> cases hsection
          refine h.set hp rfl rfl id rfl (fun _ => id) ?_ ?_ ?_
          · intro he
            cases he
          · intro c he
            cases he
          · intro he
            cases he
      | destroyed =>
        cases hsection
        obtain ⟨hne, hlast⟩ := h.last i _ hp
        refine h.set hp rfl rfl id rfl (fun _ => id) ?_ ?_ ?_
        · intro he
          cases he
        · intro c he
          cases he
        · intro _ hregistered
          exact hlast hregistered
      | _ => cases hclosing
    | _ => cases hsection
  | destroyMembers left =>
    cases left with
    | nil =>
      cases hsection
      have hne := h.members (List.mem_of_getElem? hp)
      refine h.set hp rfl rfl id rfl (fun _ => id) ?_ ?_ ?_
      · intro he
        cases he
      · intro c he
        cases he
        exact ⟨hne, fun _ => trivial⟩
      · intro he
        cases he
    | cons member left =>
      cases hsection
      refine h.set hp rfl rfl ?_ rfl (fun _ => id) ?_ ?_ ?_
      · intro hne
        simp
      · intro _
        simp
      · intro c he
        cases he
      · intro he
        cases he
  | _ => cases hclosing

theorem moved_doomed {a : Action} (hs : Doomed s) (halone : Alone s) (hknown : Known s)
    (hstored : StoredCarried s) (h : Moved toFloat s a t) : Doomed t := by
  by_cases hd : t.destroying = false
  · exact doomed_of_open (moved_alone halone h) hd
  have hclosing : ∀ {i : Nat} {p : Position}, s.destroying = true → s.calls[i]? = some p →
      p.isReturned = false → closing p = true := by
    intro i p hdestroying hp hnot
    rcases halone.others hdestroying p (List.mem_of_getElem? hp) with hr | hc
    · rw [hnot] at hr
      cases hr
    · exact hc
  cases h with
  | call hdestroying => exact absurd hdestroying hd
  | destroy hdestroying hreturned =>
    constructor
    · intro hmem
      rcases List.mem_append.mp hmem with hmem | hmem
      · exact (halone.open_elsewhere hdestroying hmem rfl).elim
      · cases List.mem_singleton.mp hmem
    · intro i c hi
      rcases List.mem_append.mp (List.mem_of_getElem? hi) with hmem | hmem
      · exact (halone.open_elsewhere hdestroying hmem rfl).elim
      · cases List.mem_singleton.mp hmem
    · intro _ hmem
      rcases List.mem_append.mp hmem with hmem | hmem
      · exact (halone.open_elsewhere hdestroying hmem rfl).elim
      · cases List.mem_singleton.mp hmem
  | message => exact hs.frame rfl rfl rfl id fun _ hmem _ => .inl hmem
  | own hp hnone hsection =>
    rename_i i input p p' t'
    have hdestroying : s.destroying = true := by
      rw [← (section_own hsection).1.destroying]
      simpa using hd
    refine hs.own (hclosing hdestroying hp ?_) hp hsection
    cases p with
    | returned value => cases hsection
    | _ => rfl
  | client hp hnone hw =>
    rename_i i input c c' next w
    have hc := hclosing (by simpa using hd) hp rfl
    have hfit := hknown.fit.calls _ _ (List.mem_of_getElem? hp)
    have hkept := callback_kept (fits_not_set hfit) hw
    have hfree : .adapter i ∉ s.stored := by
      intro hmem
      exact hstored _ hmem ((carried_adapter hp).trans hnone)
    refine hs.set hp rfl hkept id rfl (fun _ => id) Position.noConfusion ?_ Position.noConfusion
    intro d he
    obtain ⟨rfl, rfl⟩ := Position.inSdk.inj he
    obtain ⟨hne, hlast⟩ := hs.last i c hp
    refine ⟨hne, fun hregistered => ?_⟩
    exact last_section hfit hnone hregistered (hlast hregistered) hfree hw
  | reader hc hnone hw =>
    have hkept := callback_kept
      (reader_not_set (hknown.fit.readers _ (List.mem_of_getElem? hc))) hw
    exact hs.frame rfl hkept rfl id fun _ hmem _ => .inl hmem
  | worker hk hnone hw =>
    have hkept := worker_callback_kept hw
    exact hs.frame rfl hkept rfl id fun _ hmem _ => .inl hmem
  | stored hx hcarried hfree hlocked =>
    refine hs.frame rfl rfl rfl ?_ ?_
    · intro hlate
      simp [callbackStored, hlate]
    · intro i _ hne
      right
      simp [callbackStored, hne]
  | updated hx hcarried hmem hleft =>
    cases hleft with
    | adapter hp =>
      rename_i i callback value next
      refine hs.set hp rfl rfl id rfl (fun y hy => (List.mem_filter.mp hy).1) Position.noConfusion
        ?_ Position.noConfusion
      intro d he
      obtain ⟨rfl, rfl⟩ := Position.inSdk.inj he
      obtain ⟨hne, hlast⟩ := hs.last i _ hp
      exact ⟨hne, fun hregistered => (hlast hregistered).2 hmem⟩
    | reader => exact hs.frame rfl rfl rfl id fun _ hy _ => .inl (List.mem_filter.mp hy).1
    | worker => exact hs.frame rfl rfl rfl id fun _ hy _ => .inl (List.mem_filter.mp hy).1

/-- What holds along every run. -/
structure Ends (s : State) : Prop where
  alone : Alone s
  known : Known s
  stored : StoredCarried s
  doomed : Doomed s

theorem step_ends {a : Action} (hs : Ends s) (h : step toFloat s a = some t) : Ends t := by
  have hmoved := moved_of_step h
  exact ⟨moved_alone hs.alone hmoved, moved_known hs.known hmoved, moved_stored hs.stored hmoved,
    moved_doomed hs.doomed hs.alone hs.known hs.stored hmoved⟩

end Registered

theorem start_ends (configuration : SdkConfiguration) (injected : Bool) :
    Ends (start configuration injected) := by
  have halone := start_alone configuration injected
  refine ⟨halone, start_known configuration injected, ?_, doomed_of_open halone rfl⟩
  intro x hx
  cases hx

/-- When the destructor has come to its end, the state callback has begun after one of its
members was destroyed exactly if `Initialize` was ever called. -/
theorem callback_outlived {toFloat : Rat → FloatBits} {configuration : SdkConfiguration}
    {injected : Bool} {t : State} {as : List Action}
    (h : run (step toFloat) (start configuration injected) as = some t)
    (hdone : .returned .nothing ∈ t.calls) :
    t.late = false ↔ .call .initializeG1 ∉ as := by
  constructor
  · intro hlate hmem
    have hasked : Asked t := by
      refine run_establishes (fun s a u hs hstep => step_ends hs hstep) ?_ ?_ h
        (start_ends configuration injected) hmem
      · intro s u hs hstep
        cases moved_of_step hstep with
        | call => exact .inr (List.mem_append_right _ (List.mem_singleton.mpr rfl))
        | stored hx => cases hx
        | updated hx => cases hx
      · intro s a u hs hasked hstep
        exact moved_asked hs.known hasked (moved_of_step hstep)
    have hends : Ends t := run_preserves (fun s a u hs hstep => step_ends hs hstep) h
      (start_ends configuration injected)
    have hregistered : t.wrapper.stateUpdateCallback ≠ none := by
      rcases hasked with hregistered | hentering
      · exact hregistered
      · have hdestroying := hends.alone.begun _ hdone rfl
        rcases hends.alone.others hdestroying _ hentering with hr | hc
        · cases hr
        · cases hc
    rw [hends.doomed.done hregistered hdone] at hlate
    cases hlate
  · intro hnever
    have hunregistered : Unregistered false t := by
      refine run_preserves_of_mem (fun s a u ha hs hstep => ?_) h
        (start_unregistered configuration injected)
      apply unregistered_kept hs (by simp) ?_ (moved_of_step hstep)
      intro he
      exact absurd (he ▸ ha) hnever
    exact hunregistered.late

/-- An adapter that is made and destroyed. -/
def unusedRun : List Action := .destroy :: List.replicate 12 (.adapter 0 {})

theorem callback_outlived_unused :
    ∃ t, run (step fun _ => 0) (start {} true) unusedRun = some t ∧
      .returned .nothing ∈ t.calls ∧ t.late = false := by
  have hs : (run (step fun _ => 0) (start {} true) unusedRun).isSome = true := by decide
  have hrun := (Option.some_get hs).symm
  have hdone : .returned .nothing ∈ (Option.get _ hs).calls := List.mem_singleton.mpr rfl
  refine ⟨_, hrun, hdone, (callback_outlived hrun hdone).mpr ?_⟩
  intro hmem
  simp [unusedRun] at hmem

/-- An adapter that is initialised and destroyed. -/
def usedRun : List Action :=
  Action.call .initializeG1 :: List.replicate 5 (.adapter 0 {}) ++
    Action.destroy :: List.replicate 14 (.adapter 1 {})

/-- The state callback begins after the mutex, the latest state and the state manager
were destroyed. -/
theorem callback_not_outlived :
    ∃ t, run (step fun _ => 0) (start {} true) usedRun = some t ∧
      t.destroyed = [.latestState, .stateManager, .mutex] ∧ t.late = true := by
  exact ⟨_, (Option.some_get (by decide)).symm, rfl, rfl⟩

end HumanoidCore.Proofs.G1Destruction
