import HumanoidCore.Lib.Machine
import HumanoidCore.ROS2Bridge

namespace HumanoidCore.Proofs.BridgeLife
open Lib ROS2Bridge

variable {setup : Setup} {s t u : State} {a : Action} {i j k : Nat} {c d : Caller} {place : Place}

/-- No listener of a destroyed bridge begins, and after a `Stop` nothing is recorded until the
next `Start`. -/
def Safe (s t : State) : Prop :=
  (s.destroyed = true → t.begun = s.begun) ∧
    (s.quiet = true → t.lastTelemetryState = s.lastTelemetryState)

/-- The bridge's listener is not in the table, no worker holds a copy of it, and none is in it
before its write. -/
def gone (s : State) : Bool :=
  s.bridgeListeners.isEmpty && s.copies.isEmpty && s.recording.isEmpty

/-- A `Stop`, or the destructor, that leaves the bridge stopped returns only when its listener
is gone. -/
def permitted (s : State) : Action → Bool
  | .bridge i =>
    match s.callers[i]? with
    | some { place := .returning, .. } => s.running || gone s
    | _ => true
  | _ => true

theorem gone_iff : gone s = true ↔ s.bridgeListeners = [] ∧ s.copies = [] ∧ s.recording = [] := by
  simp [gone, and_assoc]

/-- What a step of the service leaves of the bridge as it was. -/
structure Serviced (s t : State) : Prop where
  callers : t.callers = s.callers
  running : t.running = s.running
  quiet : t.quiet = s.quiet
  destroyed : t.destroyed = s.destroyed
  recorded : t.lastTelemetryState = s.lastTelemetryState
  gone : gone s = true → gone t = true ∧ t.begun = s.begun

theorem with_service (s : State) (service : Telemetry.State) :
    Serviced s (s.withService service) := by
  refine ⟨rfl, rfl, rfl, rfl, rfl, fun h => ⟨?_, rfl⟩⟩
  obtain ⟨hentries, hcopies, hrecording⟩ := gone_iff.mp h
  exact gone_iff.mpr ⟨by simp [State.withService, hentries], hcopies, hrecording⟩

theorem worker_moved (input : Telemetry.Input) (h : Serviced s t) :
    Serviced s (workerMoved s t k input) := by
  obtain ⟨hcallers, hrunning, hquiet, hdestroyed, hrecorded, hgone⟩ := h
  unfold workerMoved
  split
  case h_1 =>
    split
    case h_1 order =>
      refine ⟨hcallers, hrunning, hquiet, hdestroyed, hrecorded, fun h => ?_⟩
      obtain ⟨hentries, hcopies, -⟩ := gone_iff.mp h
      obtain ⟨hentries', -, hrecording'⟩ := gone_iff.mp (hgone h).1
      -- a table without the bridge's listener gives no copies of it
      exact ⟨gone_iff.mpr ⟨hentries', by simp [hentries, hcopies], hrecording'⟩, (hgone h).2⟩
    case h_2 => exact ⟨hcallers, hrunning, hquiet, hdestroyed, hrecorded, hgone⟩
  case h_2 =>
    split
    case isTrue hcopy =>
      refine ⟨hcallers, hrunning, hquiet, hdestroyed, hrecorded, fun h => ?_⟩
      rw [(gone_iff.mp h).2.1] at hcopy
      exact absurd hcopy List.not_mem_nil
    case isFalse => exact ⟨hcallers, hrunning, hquiet, hdestroyed, hrecorded, hgone⟩
  case h_3 =>
    refine ⟨hcallers, hrunning, hquiet, hdestroyed, hrecorded, fun h => ⟨?_, (hgone h).2⟩⟩
    obtain ⟨hentries', hcopies', -⟩ := gone_iff.mp (hgone h).1
    exact gone_iff.mpr ⟨hentries', hcopies', by simp [(gone_iff.mp h).2.2]⟩
  case h_4 => exact ⟨hcallers, hrunning, hquiet, hdestroyed, hrecorded, hgone⟩

theorem service_step {b : Telemetry.Action} (h : step setup s (.service b) = some t) :
    Serviced s t := by
  obtain ⟨service, -, rfl⟩ := Option.map_eq_some_iff.mp h
  cases b with
  | worker k input => exact worker_moved input (with_service s service)
  | call thread c => exact with_service s service
  | client i fails => exact with_service s service

/-- While a `Stop` has returned and no `Start` has come the listener is gone; while the
destructor runs there is no other call, and none after it. -/
structure Quieted (s : State) : Prop where
  gone : s.quiet = true → s.running = false ∧ gone s = true
  leaving : ∀ (i : Nat) (c : Caller), s.callers[i]? = some c → c.call = .destructor →
    c.place ≠ .start ∧ (c.place ≠ .stop → s.running = false) ∧
      ∀ (j : Nat) (d : Caller), s.callers[j]? = some d → j ≠ i → d.place.isReturned = true
  destroyed : s.destroyed = true → s.quiet = true ∧
    ∃ (i : Nat) (c : Caller), s.callers[i]? = some c ∧ c.call = .destructor ∧
      c.place.isReturned = true

/-- A destructor among the calls is the one call that has not returned. -/
theorem Quieted.sole (h : Quieted s) (hc : s.callers[i]? = some c)
    (hplace : c.place.isReturned = false) (hd : s.callers[j]? = some d)
    (hcall : d.call = .destructor) : j = i := by
  by_contra hne
  have hreturned := (h.leaving j d hd hcall).2.2 i c hc (Ne.symm hne)
  rw [hplace] at hreturned
  cases hreturned

theorem Quieted.alive (h : Quieted s) (hc : s.callers[i]? = some c)
    (hplace : c.place.isReturned = false) : s.destroyed = false := by
  rw [← Bool.not_eq_true]
  intro hdestroyed
  obtain ⟨-, j, d, hd, hcall, hreturned⟩ := h.destroyed hdestroyed
  obtain rfl := h.sole hc hplace hd hcall
  obtain rfl : d = c := Option.some.inj (hd.symm.trans hc)
  rw [hplace] at hreturned
  cases hreturned

theorem Quieted.enter {call : Call} (h : Quieted s) (hcan : canCall s call = true) :
    Quieted { s with callers := s.callers ++ [⟨call, call.enter⟩] } := by
  obtain ⟨hnone, hlast⟩ := Bool.and_eq_true_iff.mp hcan
  have hother : ∀ (i : Nat) (c : Caller), s.callers[i]? = some c → c.call ≠ .destructor := by
    intro i c hc
    simpa using List.all_eq_true.mp hnone c (List.mem_of_getElem? hc)
  refine ⟨h.gone, fun i c hc hcall => ?_, fun hdestroyed => ?_⟩
  · rcases get_of_get_snoc hc with ⟨rfl, rfl⟩ | hc'
    · obtain rfl : call = .destructor := hcall
      refine ⟨Place.noConfusion, fun hne => absurd rfl hne, fun j d hd hne => ?_⟩
      rcases get_of_get_snoc hd with ⟨rfl, -⟩ | hd'
      · exact absurd rfl hne
      · exact List.all_eq_true.mp hlast d (List.mem_of_getElem? hd')
    · exact absurd hcall (hother i c hc')
  · obtain ⟨-, i, c, hc, hcall, -⟩ := h.destroyed hdestroyed
    exact absurd hcall (hother i c hc)

/-- What a call that moves has to see to. -/
theorem Quieted.moved (h : Quieted s) (hc : s.callers[i]? = some c)
    (hplace : c.place.isReturned = false) (hcallers : t.callers = s.callers)
    (hgone : t.quiet = true → t.running = false ∧ BridgeLife.gone t = true)
    (hleaving : c.call = .destructor → place ≠ .start ∧ (place ≠ .stop → t.running = false))
    (hdestroyed : t.destroyed = true →
      c.call = .destructor ∧ t.quiet = true ∧ place.isReturned = true) :
    Quieted { t with callers := t.callers.set i { c with place } } := by
  have hlt : i < t.callers.length := hcallers ▸ (List.getElem?_eq_some_iff.mp hc).1
  have hself : (t.callers.set i { c with place })[i]? = some { c with place } :=
    List.getElem?_set_self hlt
  have hothers : ∀ (j : Nat) (d : Caller), j ≠ i →
      (t.callers.set i { c with place })[j]? = some d → s.callers[j]? = some d := by
    intro j d hne hd
    rwa [List.getElem?_set_ne (Ne.symm hne), hcallers] at hd
  refine ⟨hgone, fun j d hd hcall => ?_, fun hdead => ?_⟩
  · by_cases hj : j = i
    · subst hj
      obtain rfl : { c with place } = d := Option.some.inj (hself.symm.trans hd)
      obtain ⟨hstart, hstop⟩ := hleaving hcall
      refine ⟨hstart, hstop, fun k e he hne => ?_⟩
      exact (h.leaving j c hc hcall).2.2 k e (hothers k e hne he) hne
    · exact absurd (h.sole hc hplace (hothers j d hj hd) hcall) hj
  · obtain ⟨hcall, hquiet, hreturned⟩ := hdestroyed hdead
    exact ⟨hquiet, i, _, hself, hcall, hreturned⟩

theorem Quieted.served (h : Quieted s) (hs : Serviced s t) : Quieted t := by
  obtain ⟨hcallers, hrunning, hquiet, hdestroyed, -, hgone⟩ := hs
  refine ⟨fun hq => ?_, ?_, ?_⟩
  · obtain ⟨hstopped, hg⟩ := h.gone (hquiet ▸ hq)
    exact ⟨hrunning.trans hstopped, (hgone hg).1⟩
  · rw [hcallers, hrunning]
    exact h.leaving
  · rw [hcallers, hquiet, hdestroyed]
    exact h.destroyed

theorem bridge_step (h : step setup s (.bridge i) = some t) :
    ∃ c u place, s.callers[i]? = some c ∧ callStep setup s c.call c.place = some (u, place) ∧
      t = { u with callers := u.callers.set i { c with place } } := by
  simp only [step] at h
  split at h
  case h_1 => cases h
  case h_2 c hc =>
    obtain ⟨⟨u, place⟩, hu, rfl⟩ := Option.map_eq_some_iff.mp h
    exact ⟨c, u, place, hc, hu, rfl⟩

/-- A section of a call neither begins a callback nor records a state. -/
theorem call_step {call : Call} {place' : Place}
    (h : callStep setup s call place = some (t, place')) :
    t.callers = s.callers ∧ t.begun = s.begun ∧ t.lastTelemetryState = s.lastTelemetryState := by
  cases place with
  | start =>
    obtain ⟨rfl, -⟩ := Prod.mk.inj (Option.some.inj h)
    unfold start
    split
    · exact ⟨rfl, rfl, rfl⟩
    · dsimp only
      split
      · split <;> exact ⟨rfl, rfl, rfl⟩
      · exact ⟨rfl, rfl, rfl⟩
  | stop =>
    have he : stop setup s = (t, place') := Option.some.inj h
    unfold stop at he
    split at he <;> cases he <;> exact ⟨rfl, rfl, rfl⟩
  | unsubscribing id =>
    obtain ⟨rfl, -⟩ := Prod.mk.inj (Option.some.inj h)
    exact ⟨rfl, rfl, rfl⟩
  | returning =>
    obtain ⟨rfl, -⟩ := Prod.mk.inj (Option.some.inj h)
    exact ⟨rfl, rfl, rfl⟩
  | returned value => cases h

/-- `Start` begins anew, or finds the bridge running. -/
theorem start_runs (setup : Setup) (s : State) :
    (start setup s).1 = s ∧ s.running = true ∨
      (start setup s).1.quiet = false ∧ (start setup s).1.destroyed = s.destroyed := by
  unfold start
  split
  case isTrue hrunning => exact .inl ⟨rfl, hrunning⟩
  case isFalse =>
    refine .inr ?_
    dsimp only
    split
    · split <;> exact ⟨rfl, rfl⟩
    · exact ⟨rfl, rfl⟩

/-- What `Stop` leaves under its lock. -/
theorem stop_section (setup : Setup) (s : State) :
    (stop setup s).1.running = false ∧ gone (stop setup s).1 = gone s ∧
      (stop setup s).1.quiet = s.quiet ∧ (stop setup s).1.destroyed = s.destroyed ∧
      (stop setup s).2 ≠ .start := by
  unfold stop
  split
  case isTrue hidle =>
    have hstopped : s.running = false := by
      simpa using (Bool.and_eq_true_iff.mp hidle).1
    exact ⟨hstopped, rfl, rfl, rfl, Place.noConfusion⟩
  case isFalse =>
    refine ⟨rfl, rfl, rfl, rfl, ?_⟩
    dsimp only
    split
    · split <;> exact Place.noConfusion
    · exact Place.noConfusion

theorem Quieted.bridged (h : Quieted s) (hok : permitted s (.bridge i) = true)
    (hstep : step setup s (.bridge i) = some t) : Quieted t := by
  obtain ⟨c, u, place', hc, hu, rfl⟩ := bridge_step hstep
  have hcallers := (call_step hu).1
  obtain ⟨call, place⟩ := c
  cases place with
  | start =>
    obtain ⟨rfl, rfl⟩ := Prod.mk.inj (Option.some.inj hu)
    have halive := h.alive hc rfl
    have hstarts : call ≠ .destructor := fun hcall => (h.leaving i _ hc hcall).1 rfl
    refine h.moved hc rfl hcallers (fun hq => ?_) (fun hcall => absurd hcall hstarts) fun hd => ?_
    · rcases start_runs setup s with ⟨he, hrunning⟩ | ⟨hloud, -⟩
      · rw [he] at hq
        rw [(h.gone hq).1] at hrunning
        cases hrunning
      · rw [hloud] at hq
        cases hq
    · rcases start_runs setup s with ⟨he, -⟩ | ⟨-, he⟩
      · rw [he, halive] at hd
        cases hd
      · rw [he, halive] at hd
        cases hd
  | stop =>
    have he : stop setup s = (u, place') := Option.some.inj hu
    have halive := h.alive hc rfl
    have hsection := stop_section setup s
    rw [he] at hsection
    obtain ⟨hstopped, hg, hquiet, hdestroyed, hstart⟩ := hsection
    refine h.moved hc rfl hcallers (fun hq => ?_) (fun _ => ⟨hstart, fun _ => hstopped⟩)
      fun hd => ?_
    · rw [hquiet] at hq
      exact ⟨hstopped, hg.trans (h.gone hq).2⟩
    · rw [hdestroyed, halive] at hd
      cases hd
  | unsubscribing id =>
    obtain ⟨rfl, rfl⟩ := Prod.mk.inj (Option.some.inj hu)
    have halive := h.alive hc rfl
    have hs := with_service s (Telemetry.unsubscribe s.service id).1
    refine h.moved hc rfl hcallers (fun hq => ?_) (fun hcall => ?_) fun hd => ?_
    · exact ⟨(h.gone hq).1, (hs.gone (h.gone hq).2).1⟩
    · exact ⟨Place.noConfusion, fun _ => (h.leaving i _ hc hcall).2.1 Place.noConfusion⟩
    · rw [hs.destroyed, halive] at hd
      cases hd
  | returning =>
    obtain ⟨rfl, rfl⟩ := Prod.mk.inj (Option.some.inj hu)
    have halive := h.alive hc rfl
    simp only [permitted, hc, Bool.or_eq_true] at hok
    have hquiet : (!s.running) = true → s.running = false ∧ BridgeLife.gone s = true := by
      intro hq
      have hstopped : s.running = false := by simpa using hq
      exact ⟨hstopped, hok.resolve_left (by rw [hstopped]; exact Bool.noConfusion)⟩
    have hleaving : call = .destructor → s.running = false := fun hcall =>
      (h.leaving i _ hc hcall).2.1 Place.noConfusion
    refine h.moved hc rfl hcallers hquiet (fun hcall => ⟨Place.noConfusion, fun _ => hleaving hcall⟩)
      fun hd => ?_
    have hcall : call = .destructor := by simpa [halive] using hd
    exact ⟨hcall, by simpa using hleaving hcall, rfl⟩
  | returned value => cases hu

theorem Quieted.step (h : Quieted s) (hok : permitted s a = true)
    (hstep : ROS2Bridge.step setup s a = some t) : Quieted t := by
  cases a with
  | call c =>
    obtain ⟨hcan, he⟩ := Option.ite_none_right_eq_some.mp hstep
    cases he
    exact h.enter hcan
  | bridge i => exact h.bridged hok hstep
  | record k message =>
    obtain ⟨hin, he⟩ := Option.ite_none_right_eq_some.mp hstep
    cases he
    refine ⟨fun hq => ?_, h.leaving, h.destroyed⟩
    rw [(gone_iff.mp (h.gone hq).2).2.2] at hin
    exact absurd hin List.not_mem_nil
  | service b => exact h.served (service_step hstep)

/-- In every run in which a `Stop` returns only when the listener is gone, no callback begins
after the destructor and no state is recorded between a `Stop` and the next `Start`. -/
theorem bridge_listener_ends (setup : Setup) {actions : List Action} {s t : State} {a : Action}
    (hrun : run (restrict permitted (step setup)) {} actions = some s)
    (hstep : step setup s a = some t) : Safe s t := by
  have hquieted : Quieted s := by
    refine run_preserves (fun u b v hu huv => ?_) hrun ?_
    · obtain ⟨hok, hs⟩ := restrict_eq_some.mp huv
      exact hu.step hok hs
    · refine ⟨Bool.noConfusion, fun i c hc => ?_, Bool.noConfusion⟩
      cases hc
  have hgone := fun hq => (hquieted.gone hq).2
  have hdead := fun hd => hgone (hquieted.destroyed hd).1
  cases a with
  | call c =>
    obtain ⟨-, he⟩ := Option.ite_none_right_eq_some.mp hstep
    cases he
    exact ⟨fun _ => rfl, fun _ => rfl⟩
  | bridge i =>
    obtain ⟨c, u, place, -, hu, rfl⟩ := bridge_step hstep
    obtain ⟨-, hbegun, hrecorded⟩ := call_step hu
    exact ⟨fun _ => hbegun, fun _ => hrecorded⟩
  | record k message =>
    obtain ⟨hin, he⟩ := Option.ite_none_right_eq_some.mp hstep
    cases he
    refine ⟨fun _ => rfl, fun hq => ?_⟩
    rw [(gone_iff.mp (hgone hq)).2.2] at hin
    exact absurd hin List.not_mem_nil
  | service b =>
    have hserved := service_step hstep
    exact ⟨fun hd => (hserved.gone (hdead hd)).2, fun _ => hserved.recorded⟩

/-- The bridge starts, its service's worker calls the listener, and it is stopped between two
publications. -/
def stoppedBetween : List Action :=
  [.call .start, .bridge 0, .service (.call none .start), .service (.client 0 false),
    .service (.worker 0 .go), .service (.worker 0 (.copied [1])), .service (.worker 0 .go),
    .record 0 7, .service (.worker 0 .finish), .call .destructor, .bridge 1, .bridge 1, .bridge 1]

theorem bridge_listener_ends_between : ∃ s t : State,
    run (restrict permitted (step {})) {} stoppedBetween = some s ∧
      step {} s (.service (.worker 0 .go)) = some t ∧ s.destroyed = true ∧ Safe s t := by
  have hrun : (run (restrict permitted (step {})) {} stoppedBetween).isSome = true := by
    decide +kernel
  obtain ⟨s, hs⟩ := Option.isSome_iff_exists.mp hrun
  have hlast : ((run (restrict permitted (step {})) {} stoppedBetween).bind fun s =>
      (step {} s (.service (.worker 0 .go))).filter fun _ => s.destroyed).isSome = true := by
    decide +kernel
  rw [hs, Option.bind_some] at hlast
  obtain ⟨t, ht⟩ := Option.isSome_iff_exists.mp hlast
  obtain ⟨hstep, hdestroyed⟩ := Option.filter_eq_some_iff.mp ht
  exact ⟨s, t, hs, hstep, hdestroyed, bridge_listener_ends {} hs hstep⟩

/-- The worker has copied the listener before the destructor erases it. -/
def copiedBefore : List Action :=
  [.call .start, .bridge 0, .service (.call none .start), .service (.client 0 false),
    .service (.worker 0 .go), .service (.worker 0 (.copied [1])), .call .destructor, .bridge 1,
    .bridge 1, .bridge 1]

theorem bridge_listener_outlives : ∃ s t : State,
    run (step {}) {} copiedBefore = some s ∧ step {} s (.service (.worker 0 .go)) = some t ∧
      ¬Safe s t := by
  have hlast : ((run (step {}) {} copiedBefore).bind fun s =>
      (step {} s (.service (.worker 0 .go))).filter fun t =>
        s.destroyed && t.begun != s.begun).isSome = true := by
    decide +kernel
  obtain ⟨t, ht⟩ := Option.isSome_iff_exists.mp hlast
  obtain ⟨s, hs, hfilter⟩ := Option.bind_eq_some_iff.mp ht
  obtain ⟨hstep, hwrong⟩ := Option.filter_eq_some_iff.mp hfilter
  obtain ⟨hdestroyed, hbegun⟩ := Bool.and_eq_true_iff.mp hwrong
  refine ⟨s, t, hs, hstep, fun hsafe => ?_⟩
  rw [hsafe.1 hdestroyed] at hbegun
  simp at hbegun

end HumanoidCore.Proofs.BridgeLife
