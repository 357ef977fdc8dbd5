import HumanoidCore.Proofs.G1Moves

namespace HumanoidCore.Proofs.G1Calls
open Lib Core G1 SdkMoves G1Moves
open Sdk hiding State Input Call Action Returned step

/-- A call of the wrapper that no callback and no initialisation is part of. -/
def harmless : Client → Bool
  | .stopCommunication _ | .joinCommunication _ _ | .stopFinish _ | .disconnect | .shutdown
  | .publish none _ _ | .returned _ => true
  | _ => false

/-- The positions that calls can be at while no callback is registered; `asked` tells
whether an `Initialize` may be about to begin. -/
def idle (asked : Bool) : Position → Bool
  | .enter .initializeG1 => asked
  | .enter _ => true
  | .inSdk c next => harmless c && (next = .disconnect || ending next)
  | .destroyMembers _ | .returned _ => true
  | _ => false

/-- A state of the wrapper in which there is no robot and no fault. -/
structure Blank (state : SdkRobotState) : Prop where
  connection : state.connectionState ≠ .connected
  emergencyStop : state.emergencyStop = false
  faultCode : state.faultCode = 0

/-- An adapter that was never initialised. -/
structure Unregistered (asked : Bool) (s : State) : Prop where
  callback : s.wrapper.stateUpdateCallback = none
  latest : Blank s.wrapper.latestState
  initialized : s.initialized = false
  clients : s.wrapper.clients = []
  workers : s.wrapper.workers = []
  channels : s.wrapper.channels = []
  calls : ∀ p ∈ s.calls, idle asked p = true
  late : s.late = false

section Registration
variable {toFloat : Rat → FloatBits} {s t : State} {input : Input} {asked : Bool}
variable {w w' : Sdk.State} {sdk : Sdk.Input} {c c' : Client}

/-- What a call leaves alone while no callback is registered. -/
structure Unmoved (w w' : Sdk.State) : Prop where
  callback : w'.stateUpdateCallback = none
  latest : Blank w.latestState → Blank w'.latestState
  clients : w'.clients = w.clients
  workers : w'.workers = w.workers
  channels : w.channels = [] → w'.channels = []

theorem harmless_kept (hcallback : w.stateUpdateCallback = none) (hc : harmless c = true)
    (h : clientStep w sdk c = some (w', c')) : Unmoved w w' ∧ harmless c' = true := by
  cases c with
  | stopCommunication after =>
    simp only [clientStep, stopCommunication, Option.some.injEq] at h
    split at h
    · cases h
      refine ⟨⟨hcallback, id, rfl, rfl, id⟩, ?_⟩
      cases after <;> rfl
    · cases h
      exact ⟨⟨hcallback, id, rfl, rfl, id⟩, rfl⟩
  | joinCommunication worker after =>
    cases worker with
    | none =>
      cases h
      exact ⟨⟨hcallback, id, rfl, rfl, id⟩, rfl⟩
    | some worker =>
      simp only [clientStep] at h
      split at h <;> cases h
      exact ⟨⟨hcallback, id, rfl, rfl, id⟩, rfl⟩
  | stopFinish after =>
    cases h
    refine ⟨⟨hcallback, id, rfl, rfl, id⟩, ?_⟩
    cases after <;> rfl
  | disconnect =>
    cases h
    refine ⟨⟨hcallback, fun _ => ⟨by simp [updateStateSample], rfl, rfl⟩, rfl, rfl, id⟩, ?_⟩
    simp only [hcallback, Sdk.State.used, harmless]
  | shutdown =>
    cases h
    refine ⟨⟨hcallback, fun _ => ⟨by simp [updateStateSample], rfl, rfl⟩, rfl, rfl, ?_⟩, ?_⟩
    · intro hchannels
      simp only [hchannels, List.filter_nil]
    · simp only [hcallback, Sdk.State.used, harmless]
  | publish callback state value =>
    cases callback with
    | none =>
      cases h
      exact ⟨⟨hcallback, id, rfl, rfl, id⟩, rfl⟩
    | some callback => cases hc
  | returned value => cases h
  | _ => cases hc

theorem harmless_delivering (hc : harmless c = true) : delivering c = none := by
  cases c with
  | publish callback state value =>
    cases callback with
    | none => rfl
    | some callback => cases hc
  | _ => rfl

theorem Unmoved.same (hcallback : w.stateUpdateCallback = none) : Unmoved w w :=
  ⟨hcallback, id, rfl, rfl, id⟩

theorem Unregistered.move (h : Unregistered asked s) {calls : List Position}
    (hcalls : ∀ p ∈ calls, idle asked p = true) {t : State} (hw : Unmoved s.wrapper t.wrapper)
    (hinitialized : t.initialized = false) (hlate : t.late = false) (ht : t.calls = calls) :
    Unregistered asked t := by
  subst ht
  exact ⟨hw.callback, hw.latest h.latest, hinitialized, hw.clients.trans h.clients, hw.workers.trans h.workers,
    hw.channels h.channels, hcalls, hlate⟩

/-- A section of the adapter's own does not register the callback. -/
theorem idle_section {p p' : Position} (h : Unregistered asked s) (hp : idle asked p = true)
    (hcallback : asked = true → t.wrapper.stateUpdateCallback = none)
    (hsection : adapterSection toFloat s input p = some (t, p')) :
    t.wrapper = s.wrapper ∧ t.initialized = false ∧ idle asked p' = true := by
  cases p with
  | enter call =>
    cases call with
    | initializeG1 =>
      have hnone := hcallback hp
      simp only [adapterSection, enterCall, h.initialized, Bool.false_eq_true, if_false] at hsection
      split at hsection <;> cases hsection
      cases hnone
    | shutdown =>
      cases hsection
      exact ⟨rfl, h.initialized, rfl⟩
    | connect =>
      simp only [adapterSection, enterCall, h.initialized, Bool.not_false, if_true] at hsection
      split at hsection <;> cases hsection
      exact ⟨rfl, h.initialized, rfl⟩
    | disconnect =>
      cases hsection
      exact ⟨rfl, h.initialized, rfl⟩
    | executeCommand command =>
      simp only [adapterSection, enterCall, h.initialized, Bool.not_false, if_true] at hsection
      split at hsection <;> cases hsection
      exact ⟨rfl, h.initialized, rfl⟩
    | update =>
      simp only [adapterSection, enterCall, h.initialized, Bool.not_false, if_true] at hsection
      split at hsection <;> cases hsection
      exact ⟨rfl, h.initialized, rfl⟩
  | inSdk c next =>
    cases c with
    | returned value =>
      cases next with
      | disconnect =>
        simp only [adapterSection, afterSdk] at hsection
        split at hsection
        · split at hsection <;> cases hsection
          exact ⟨rfl, h.initialized, rfl⟩
        · cases hsection
      | shutdown destructor =>
        simp only [adapterSection, afterSdk] at hsection
        split at hsection <;> cases hsection
        refine ⟨rfl, rfl, ?_⟩
        cases destructor <;> rfl
      | destroyed =>
        cases hsection
        exact ⟨rfl, h.initialized, rfl⟩
      | _ => cases hp
    | _ => cases hsection
  | destroyMembers left => cases left <;> cases hsection <;> exact ⟨rfl, h.initialized, rfl⟩
  | returned value => cases hsection
  | _ => cases hp

theorem unregistered_carried (h : Unregistered asked s) (x : Thread) : carried s x = none := by
  cases x with
  | adapter i =>
    simp only [carried]
    cases hp : s.calls[i]? with
    | none => rfl
    | some p =>
      have hidle := h.calls p (List.mem_of_getElem? hp)
      cases p with
      | inSdk c next =>
        simp only [idle, Bool.and_eq_true] at hidle
        rw [Option.bind_some, position_delivering]
        exact harmless_delivering hidle.1
      | _ => rfl
  | reader i =>
    rw [carried, h.clients]
    rfl
  | worker i =>
    rw [carried, h.workers]
    rfl

theorem unregistered_kept {a : Action} (h : Unregistered asked s)
    (hcallback : asked = true → t.wrapper.stateUpdateCallback = none)
    (ha : a = .call .initializeG1 → asked = true)
    (hmoved : Moved toFloat s a t) : Unregistered asked t := by
  have hset : ∀ {i p'}, idle asked p' = true → ∀ p ∈ s.calls.set i p', idle asked p = true := by
    intro i p' hp' p hp
    rcases List.mem_or_eq_of_mem_set hp with hp | rfl
    · exact h.calls p hp
    · exact hp'
  have hsnoc : ∀ {p'}, idle asked p' = true → ∀ p ∈ s.calls ++ [p'], idle asked p = true := by
    intro p' hp' p hp
    rcases List.mem_append.mp hp with hp | hp
    · exact h.calls p hp
    · rw [List.mem_singleton.mp hp]
      exact hp'
  cases hmoved with
  | call =>
    rename_i c hdestroying
    refine h.move (hsnoc ?_) (.same h.callback) h.initialized h.late rfl
    cases c with
    | initializeG1 => exact ha rfl
    | _ => rfl
  | destroy => exact h.move (hsnoc rfl) (.same h.callback) h.initialized h.late rfl
  | message hmem =>
    rw [h.channels] at hmem
    cases hmem
  | own hp hnone hsection =>
    rename_i i input p p' t'
    have hidle := h.calls _ (List.mem_of_getElem? hp)
    have hnone' : asked = true → t'.wrapper.stateUpdateCallback = none := hcallback
    obtain ⟨hwrapper, hinitialized, hp'⟩ := idle_section h hidle hnone' hsection
    have hown := (section_own hsection).1
    refine h.move (hset (i := i) hp') ?_ hinitialized (hown.late.trans h.late) ?_
    · rw [hwrapper]
      exact .same h.callback
    · rw [hown.calls]
  | client hp hnone hw =>
    have hidle := h.calls _ (List.mem_of_getElem? hp)
    simp only [idle, Bool.and_eq_true] at hidle
    obtain ⟨hunmoved, hc'⟩ := harmless_kept h.callback hidle.1 hw
    refine h.move (hset ?_) hunmoved h.initialized h.late rfl
    simp only [idle, Bool.and_eq_true]
    exact ⟨hc', hidle.2⟩
  | reader hc =>
    rw [h.clients] at hc
    cases hc
  | worker hk =>
    rw [h.workers] at hk
    cases hk
  | stored hx hcarried =>
    rw [unregistered_carried h] at hcarried
    cases hcarried
  | updated hx hcarried =>
    rw [unregistered_carried h] at hcarried
    cases hcarried

theorem start_unregistered (configuration : SdkConfiguration) (injected : Bool) :
    Unregistered asked (start configuration injected) := by
  refine ⟨rfl, ⟨SdkConnectionState.noConfusion, rfl, rfl⟩, rfl, rfl, rfl, rfl, ?_, rfl⟩
  intro p hp
  cases hp

/-- As long as no callback is registered the adapter was never initialised. -/
structure Known (s : State) : Prop where
  fit : AllFit s
  unregistered : s.wrapper.stateUpdateCallback = none → Unregistered true s

theorem registered_kept {a : Action} (hs : AllFit s) (h : Moved toFloat s a t)
    (hregistered : s.wrapper.stateUpdateCallback ≠ none) :
    t.wrapper.stateUpdateCallback ≠ none := by
  rcases moved_callback hs h with hsame | hsome
  · rw [hsame]
    exact hregistered
  · rw [hsome]
    exact Option.some_ne_none _

theorem moved_known {a : Action} (hs : Known s) (h : Moved toFloat s a t) : Known t := by
  refine ⟨moved_fits hs.fit h, fun hnone => ?_⟩
  have hbefore : s.wrapper.stateUpdateCallback = none := by
    by_contra hregistered
    exact registered_kept hs.fit h hregistered hnone
  exact unregistered_kept (hs.unregistered hbefore) (fun _ => hnone) (fun _ => rfl) h

theorem start_known (configuration : SdkConfiguration) (injected : Bool) :
    Known (start configuration injected) := by
  refine ⟨⟨?_, ?_⟩, fun _ => start_unregistered configuration injected⟩
  · intro c next hp
    cases hp
  · intro c hc
    cases hc

end Registration

section Destructor
variable {toFloat : Rat → FloatBits} {s t : State}

/-- The positions of the destructor. -/
def closing : Position → Bool
  | .inSdk _ (.shutdown true) | .inSdk _ .destroyed | .destroyMembers _ => true
  | _ => false

/-- A position of another call. -/
def elsewhere (p : Position) : Bool := !closing p && p ≠ .returned .nothing

theorem enter_elsewhere {input : Input} {call : Call} {p' : Position}
    (h : enterCall toFloat s input call = some (t, p')) : elsewhere p' = true := by
  cases call with
  | shutdown =>
    cases h
    rfl
  | disconnect =>
    cases h
    rfl
  | executeCommand command =>
    simp only [enterCall] at h
    repeat' split at h
    all_goals
      cases h
      try rfl
  | _ =>
    simp only [enterCall] at h
    repeat' split at h
    all_goals
      cases h
      try rfl

/-- The destructor's sections lead to its positions or to its end, the others elsewhere. -/
theorem section_closing {input : Input} {p p' : Position}
    (h : adapterSection toFloat s input p = some (t, p')) :
    if closing p then p'.isReturned = true ∨ closing p' = true else elsewhere p' = true := by
  cases p with
  | enter call => exact enter_elsewhere h
  | inSdk c next =>
    cases c with
    | returned value =>
      cases next with
      | shutdown destructor =>
        simp only [adapterSection, afterSdk] at h
        split at h
        · cases h
        · cases destructor <;> cases h
          · rfl
          · exact .inr rfl
      | destroyed =>
        cases h
        exact .inl rfl
      | _ =>
        simp only [adapterSection, afterSdk] at h
        repeat' split at h
        all_goals
          cases h
          try rfl
    | _ => cases h
  | connectHands hand audio =>
    simp only [adapterSection] at h
    split at h <;> cases h
    rfl
  | destroyMembers left => cases left <;> cases h <;> exact .inr rfl
  | returned value => cases h
  | _ =>
    cases h
    rfl

/-- The destructor runs alone. -/
structure Alone (s : State) : Prop where
  others : s.destroying = true → ∀ p ∈ s.calls, p.isReturned = true ∨ closing p = true
  begun : ∀ p ∈ s.calls, elsewhere p = false → s.destroying = true

theorem moved_alone {a : Action} (hs : Alone s) (h : Moved toFloat s a t) : Alone t := by
  have hset : ∀ {i p p'}, s.calls[i]? = some p → t.calls = s.calls.set i p' →
      t.destroying = s.destroying → p.isReturned = false →
      (if closing p then p'.isReturned = true ∨ closing p' = true else elsewhere p' = true) →
      Alone t := by
    intro i p p' hp ht hdestroying hnot hp'
    have hmem := List.mem_of_getElem? hp
    constructor
    · intro hd q hq
      rw [hdestroying] at hd
      rw [ht] at hq
      rcases List.mem_or_eq_of_mem_set hq with hq | rfl
      · exact hs.others hd q hq
      · rcases hs.others hd p hmem with hr | hc
        · rw [hnot] at hr
          cases hr
        · simpa [hc] using hp'
    · intro q hq helse
      rw [hdestroying]
      rw [ht] at hq
      rcases List.mem_or_eq_of_mem_set hq with hq | rfl
      · exact hs.begun q hq helse
      · by_cases hc : closing p = true
        · exact hs.begun p hmem (by simp [elsewhere, hc])
        · simp [hc, helse] at hp'
  cases h with
  | call hdestroying =>
    refine ⟨fun hd => absurd (hdestroying.symm.trans hd) (by decide), ?_⟩
    intro p hp helse
    rcases List.mem_append.mp hp with hp | hp
    · exact hs.begun p hp helse
    · rw [List.mem_singleton.mp hp] at helse
      cases helse
  | destroy hdestroying hreturned =>
    refine ⟨fun _ p hp => ?_, fun _ _ _ => rfl⟩
    rcases List.mem_append.mp hp with hp | hp
    · exact .inl (hreturned p hp)
    · rw [List.mem_singleton.mp hp]
      exact .inr rfl
  | own hp hnone hsection =>
    rename_i i input p p' t'
    have hown := (section_own hsection).1
    refine hset hp (by rw [hown.calls]) hown.destroying ?_ (section_closing hsection)
    cases p with
    | returned value => cases hsection
    | _ => rfl
  | client hp hnone hw =>
    refine hset hp rfl rfl rfl ?_
    rename_i i input c c' next w
    cases next with
    | shutdown destructor => cases destructor <;> simp [closing, elsewhere]
    | _ => simp [closing, elsewhere]
  | updated hx hcarried hmem hleft =>
    cases hleft with
    | adapter hp =>
      refine hset hp rfl rfl rfl ?_
      rename_i i callback value next
      cases next with
      | shutdown destructor => cases destructor <;> simp [closing, elsewhere]
      | _ => simp [closing, elsewhere]
    | reader => exact ⟨hs.others, hs.begun⟩
    | worker => exact ⟨hs.others, hs.begun⟩
  | _ => exact ⟨hs.others, hs.begun⟩

theorem Alone.open_elsewhere (h : Alone s) (hd : s.destroying = false) {p : Position}
    (hp : p ∈ s.calls) (helse : elsewhere p = false) : False := by
  have hbegun := h.begun p hp helse
  rw [hd] at hbegun
  cases hbegun

theorem start_alone (configuration : SdkConfiguration) (injected : Bool) :
    Alone (start configuration injected) := by
  constructor
  · intro _ p hp
    cases hp
  · intro p hp
    cases hp

end Destructor

/-- The positions that hold the mutex. -/
def holds : Position → List Unit
  | .inSdk _ .initializeG1 | .inSdk _ .executeCommand | .connectStore _ | .updateRead _ _
  | .updateStore _ _ _ => [()]
  | _ => []

section Mutex
variable {toFloat : Rat → FloatBits} {s t : State} {input : Input} {p p' : Position}

/-- The mutex is held by one call, or it is free. -/
def Exclusive (s : State) : Prop := tally holds s.calls () = s.locked.toNat

/-- A section takes the mutex or gives it back with the position. -/
theorem section_holds (hheld : (holds p).count () ≤ s.locked.toNat)
    (h : adapterSection toFloat s input p = some (t, p')) :
    t.locked.toNat + (holds p).count () = s.locked.toNat + (holds p').count () := by
  have hlocked : holds p = [()] → s.locked = true := by
    intro hp
    rw [hp] at hheld
    cases hl : s.locked with
    | true => rfl
    | false =>
      rw [hl] at hheld
      cases hheld
  cases p with
  | enter call =>
    cases call with
    | shutdown =>
      cases h
      rfl
    | disconnect =>
      cases h
      rfl
    | _ =>
      simp only [adapterSection, enterCall] at h
      repeat' split at h
      all_goals
        cases h
        try simp_all [holds]
  | inSdk c next =>
    cases c with
    | returned value =>
      cases next with
      | shutdown destructor =>
        simp only [adapterSection, afterSdk] at h
        split at h <;> cases h
        cases destructor <;> rfl
      | destroyed =>
        cases h
        rfl
      | _ =>
        simp only [adapterSection, afterSdk] at h
        repeat' split at h
        all_goals
          cases h
          try simp_all [holds, State.updateManager]
    | _ => cases h
  | connectHands hand audio =>
    simp only [adapterSection] at h
    split at h <;> cases h
    simp_all [holds]
  | connectStore state =>
    cases h
    simp [holds, hlocked rfl, State.updateManager]
  | updateRead result state =>
    cases h
    rfl
  | updateStore result state connected =>
    cases h
    simp [holds, hlocked rfl, State.updateManager]
  | destroyMembers left => cases left <;> cases h <;> rfl
  | returned value => cases h

theorem holds_in_sdk (c c' : Client) (next : Next) :
    holds (.inSdk c' next) = holds (.inSdk c next) := by
  cases next <;> rfl

theorem moved_exclusive {a : Action} (hs : Exclusive s) (h : Moved toFloat s a t) :
    Exclusive t := by
  have hset : ∀ {i : Nat} {p p' : Position} {locked : Bool}, s.calls[i]? = some p →
      locked.toNat + (holds p).count () = s.locked.toNat + (holds p').count () →
      tally holds (s.calls.set i p') () = locked.toNat := by
    intro i p p' locked hp hp'
    have hmoved := tally_set holds hp p' ()
    have hbefore : tally holds s.calls () = s.locked.toNat := hs
    omega
  have hin : ∀ {i : Nat} {c c' : Client} {next : Next}, s.calls[i]? = some (.inSdk c next) →
      tally holds (s.calls.set i (.inSdk c' next)) () = s.locked.toNat := by
    intro i c c' next hp
    apply hset hp
    rw [holds_in_sdk]
  have hsnoc : ∀ p', holds p' = [] → tally holds (s.calls ++ [p']) () = s.locked.toNat := by
    intro p' hp'
    rw [tally_append, tally_singleton, hp']
    exact hs
  cases h with
  | call => exact hsnoc _ rfl
  | destroy => exact hsnoc _ rfl
  | own hp hnone hsection =>
    have hmoved := section_holds (hs ▸ tally_mem_le (List.mem_of_getElem? hp)) hsection
    unfold Exclusive
    rw [(section_own hsection).1.calls]
    exact hset hp hmoved
  | client hp hnone hw => exact hin hp
  | updated hx hcarried hmem hleft =>
    cases hleft with
    | adapter hp => exact hin hp
    | reader => exact hs
    | worker => exact hs
  | _ => exact hs

/-- While the mutex is free nobody holds it. -/
theorem Exclusive.free (h : Exclusive s) (hlocked : s.locked = false) :
    ∀ p ∈ s.calls, holds p = [] := by
  intro p hp
  have hle : (holds p).count () ≤ tally holds s.calls () := tally_mem_le hp
  rw [h, hlocked] at hle
  cases hh : holds p with
  | nil => rfl
  | cons u us =>
    rw [hh, List.count_cons_self] at hle
    cases hle

theorem start_exclusive (configuration : SdkConfiguration) (injected : Bool) :
    Exclusive (start configuration injected) := rfl

end Mutex

end HumanoidCore.Proofs.G1Calls
