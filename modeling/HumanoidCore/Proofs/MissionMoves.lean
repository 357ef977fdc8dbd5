import HumanoidCore.MissionExecutor

namespace HumanoidCore.Proofs.MissionMoves
open Lib Core Missions

/-- The operation is inside a section of `control_mutex_`. -/
def holds : Client → Bool
  | .startJoin _ | .startJoining _ | .startCheck _ | .startThread _ => true
  | .stopLocked | .stopCancel _ | .stopJoin | .stopResult => true
  | _ => false

/-- `Start` passes its checks and begins a run. -/
def opens (services : Services) (s : State) (mission : Mission) : Bool :=
  services.dispatcher && mission.isValid && s.worker.isNone

/-- `Cancel` or `Stop` takes its request. -/
def accepted (s : State) : Client → Bool
  | .cancel => s.status ≠ .pending && !s.status.isTerminal
  | .stopLocked => s.worker.isSome && !s.status.isTerminal
  | _ => false

section Moves
variable {services : Services} {environment : Environment} {s t : State} {input : Input}

theorem perform_frame {e : Request} {answer : Answer e}
    (h : perform s input e = some (t, answer)) :
    t.worker = s.worker ∧ t.clients = s.clients ∧ t.interrupted = s.interrupted ∧
      t.control = s.control ∧ t.seen = s.seen ∧ t.pauseRequested = s.pauseRequested := by
  cases e <;> simp only [perform] at h
  case waitUntilRunnable =>
    split at h
    · cases h
      exact ⟨rfl, rfl, rfl, rfl, rfl, rfl⟩
    · split at h
      · cases h
      · cases h
        exact ⟨rfl, rfl, rfl, rfl, rfl, rfl⟩
  case waitForDuration =>
    split at h
    · cases h
      exact ⟨rfl, rfl, rfl, rfl, rfl, rfl⟩
    · split at h
      · cases h
        exact ⟨rfl, rfl, rfl, rfl, rfl, rfl⟩
      · cases h
  all_goals
    cases h
    exact ⟨rfl, rfl, rfl, rfl, rfl, rfl⟩

theorem worker_step_cases {elapsed : Bool} (h : workerStep environment s elapsed = some t) :
    ∃ e k answer u, s.worker = some (.ask e k) ∧
      perform s { evaluation := environment.conditions s.seen.evaluations
                  result := environment.results s.seen.dispatches
                  now := environment.clock s.seen.readings, elapsed := elapsed } e =
        some (u, answer) ∧
      t = { u with worker := some (k answer), seen := s.seen.after e } := by
  unfold workerStep at h
  split at h
  · rename_i e k hworker
    obtain ⟨⟨u, answer⟩, hu, rfl⟩ := Option.map_eq_some_iff.mp h
    exact ⟨e, k, answer, u, hworker, hu, rfl⟩
  · cases h

theorem client_step_cases {i : Nat} (h : step services environment s (.client i input) = some t) :
    ∃ c u c', s.clients[i]? = some c ∧ clientStep services s input c = some (u, c') ∧
      t = { u with clients := u.clients.set i c' } := by
  simp only [step] at h
  split at h
  · cases h
  · rename_i c hc
    obtain ⟨⟨u, c'⟩, hu, rfl⟩ := Option.map_eq_some_iff.mp h
    exact ⟨c, u, c', hc, hu, rfl⟩

theorem cancel_command_eq (services : Services) (s : State) (id : Option CommandId) :
    ∃ ids, cancelCommandIfPossible services s id = { s with cancelledCommands := ids } := by
  cases id with
  | none => exact ⟨_, rfl⟩
  | some id =>
    simp only [cancelCommandIfPossible]
    split
    · exact ⟨_, rfl⟩
    · exact ⟨_, rfl⟩

/-- All that one section of a public operation can do to the worker, to the flags it
polls and to `control_mutex_`. -/
structure Move (services : Services) (s : State) (input : Input) (c : Client) (t : State)
    (c' : Client) : Prop where
  clients : t.clients = s.clients
  control : (holds c).toNat + t.control.toNat = (holds c').toNat + s.control.toNat
  worker : t.worker = s.worker ∨ (workerFinished s = true ∧ holds c = true ∧ t.worker = none) ∨
    ∃ mission, c = .startThread mission ∧ input.threadStarts = .ok () ∧
      t.worker = some (runMission services mission)
  seen : t.seen = s.seen ∨ ∃ mission, c' = .startThread mission ∧
    t.seen = { s.seen with dispatched := [], finished := none }
  interrupted : t.interrupted = s.interrupted ∨ accepted s c = true ∨
    ∃ mission, c' = .startThread mission ∧ t.interrupted = false
  thread : ∀ mission, c' = .startThread mission →
    c = .startCheck mission ∧ opens services s mission = true ∧ t.worker = none ∧
      t.seen = { s.seen with dispatched := [], finished := none } ∧ t.interrupted = false

/-- A section that leaves worker, flags and trace alone. -/
theorem Move.plain {c c' : Client} (hclients : t.clients = s.clients)
    (hcontrol : (holds c).toNat + t.control.toNat = (holds c').toNat + s.control.toNat)
    (hworker : t.worker = s.worker) (hseen : t.seen = s.seen)
    (hinterrupted : t.interrupted = s.interrupted) (hnew : ∀ mission, c' ≠ .startThread mission) :
    Move services s input c t c' :=
  ⟨hclients, hcontrol, .inl hworker, .inl hseen, .inl hinterrupted,
    fun mission h => absurd h (hnew mission)⟩

theorem start_check_move {mission : Mission} {c' : Client}
    (h : startCheck services s mission = (t, c'))
    (hcontrol : s.control = true) : Move services s input (.startCheck mission) t c' := by
  simp only [startCheck] at h
  split at h
  · cases h
    exact .plain rfl (by simp [holds, hcontrol]) rfl rfl rfl (by simp)
  · split at h
    · cases h
      exact .plain rfl (by simp [holds, hcontrol]) rfl rfl rfl (by simp)
    · split at h
      · cases h
        exact .plain rfl (by simp [holds, hcontrol]) rfl rfl rfl (by simp)
      · rename_i hdispatcher hvalid hworker
        cases h
        have hnone : s.worker = none := by simpa using hworker
        refine ⟨rfl, by simp [holds], .inl rfl, .inr ⟨mission, rfl, rfl⟩,
          .inr (.inr ⟨mission, rfl, rfl⟩), ?_⟩
        intro mission' he
        cases he
        exact ⟨rfl, by simp_all [opens], hnone, rfl, rfl⟩

theorem client_move {c c' : Client} (hcontrol : holds c = true → s.control = true)
    (h : clientStep services s input c = some (t, c')) : Move services s input c t c' := by
  cases c <;> simp only [clientStep] at h
  case startCheck mission => exact start_check_move (Option.some.inj h) (hcontrol rfl)
  case startThread mission =>
    have hheld := hcontrol rfl
    simp only [startThread] at h
    split at h
    · rename_i hstarts
      cases h
      exact ⟨rfl, by simp [holds, hheld], .inr (.inr ⟨mission, rfl, hstarts, rfl⟩), .inl rfl,
        .inl rfl, by simp⟩
    · cases h
      exact .plain rfl (by simp [holds, hheld]) rfl rfl rfl (by simp)
  case executing rest =>
    cases rest with
    | pure r =>
      cases h
      exact .plain rfl rfl rfl rfl rfl (by simp)
    | throw x => cases x
    | ask e k =>
      obtain ⟨⟨u, answer⟩, hu, he⟩ := Option.map_eq_some_iff.mp h
      cases he
      obtain ⟨hworker, hclients, hinterrupted, hc, hseen, -⟩ := perform_frame hu
      exact .plain hclients (by simp [holds, hc]) hworker hseen hinterrupted (by simp)
  case startJoin mission =>
    cases h
    split
    · exact .plain rfl rfl rfl rfl rfl (by simp)
    · exact .plain rfl rfl rfl rfl rfl (by simp)
  case startJoining mission =>
    split at h
    · rename_i hfinished
      cases h
      exact ⟨rfl, rfl, .inr (.inl ⟨hfinished, rfl, rfl⟩), .inl rfl, .inl rfl, by simp⟩
    · cases h
  case stopJoin =>
    split at h
    · cases h
      exact .plain rfl rfl rfl rfl rfl (by simp)
    · split at h
      · rename_i hfinished
        cases h
        exact ⟨rfl, rfl, .inr (.inl ⟨hfinished, rfl, rfl⟩), .inl rfl, .inl rfl, by simp⟩
      · cases h
  case cancel =>
    simp only [cancel] at h
    split at h
    · cases h
      exact .plain rfl rfl rfl rfl rfl (by simp)
    · rename_i hactive
      cases h
      exact ⟨rfl, rfl, .inl rfl, .inl rfl, .inr (.inl (by simpa [accepted] using hactive)), by simp⟩
  case stopLocked =>
    have hheld := hcontrol rfl
    simp only [stopLocked] at h
    split at h
    · split at h
      · cases h
        exact .plain rfl (by simp [holds, hheld]) rfl rfl rfl (by simp)
      · cases h
        exact .plain rfl (by simp [holds, hheld]) rfl rfl rfl (by simp)
    · rename_i hworker
      split at h
      · cases h
        exact .plain rfl rfl rfl rfl rfl (by simp)
      · rename_i hactive
        cases h
        refine ⟨rfl, rfl, .inl rfl, .inl rfl, .inr (.inl ?_), by simp⟩
        simp_all [accepted, Option.isSome_iff_ne_none]
  case cancelCommand id r =>
    obtain ⟨ids, hids⟩ := cancel_command_eq services s id
    rw [hids] at h
    cases h
    exact .plain rfl rfl rfl rfl rfl (by simp)
  case stopCancel id =>
    obtain ⟨ids, hids⟩ := cancel_command_eq services s id
    rw [hids] at h
    cases h
    exact .plain rfl rfl rfl rfl rfl (by simp)
  case stopResult =>
    cases h
    exact .plain rfl (by simp [holds, hcontrol rfl]) rfl rfl rfl (by simp)
  case start mission =>
    split at h
    · cases h
    · rename_i hfree
      cases h
      exact .plain rfl (by simp [holds, hfree]) rfl rfl rfl (by simp)
  case stop =>
    split at h
    · cases h
    · rename_i hfree
      cases h
      exact .plain rfl (by simp [holds, hfree]) rfl rfl rfl (by simp)
  case pause =>
    simp only [pause] at h
    repeat' split at h
    all_goals
      cases h
      exact .plain rfl rfl rfl rfl rfl (by simp)
  case resume =>
    simp only [resume] at h
    split at h
    all_goals
      cases h
      exact .plain rfl rfl rfl rfl rfl (by simp)
  case executeStep step =>
    cases h
    exact .plain rfl rfl rfl rfl rfl (by simp)
  case getStatus =>
    cases h
    exact .plain rfl rfl rfl rfl rfl (by simp)
  case returned => cases h

/-- Its token, if an operation is inside a section of `control_mutex_`. -/
def token (c : Client) : List Unit := if holds c then [()] else []

@[simp] theorem count_token (c : Client) : (token c).count () = (holds c).toNat := by
  unfold token
  cases holds c <;> rfl

theorem mem_token {c : Client} : () ∈ token c ↔ holds c = true := by
  unfold token
  cases holds c <;> simp

/-- `control_mutex_` excludes, and a `Start` about to create its worker finds everything as
it left it: a valid mission, no worker and an empty trace. -/
structure Controlled (services : Services) (s : State) : Prop where
  exclusive : tally token s.clients () = s.control.toNat
  worker : ∀ q, s.worker = some q → ∃ mission : Mission,
    services.dispatcher = true ∧ mission.isValid = true ∧ Prog.Rest (runMission services mission) q
  thread : ∀ mission, Client.startThread mission ∈ s.clients →
    services.dispatcher = true ∧ mission.isValid = true ∧ s.worker = none ∧
      s.seen.dispatched = [] ∧ s.seen.finished = none

theorem initial_controlled (services : Services) : Controlled services {} := by
  refine ⟨rfl, ?_, ?_⟩
  · intro q hq
    cases hq
  · intro mission hm
    cases hm

theorem held_control {c : Client} (he : tally token s.clients () = s.control.toNat)
    (hc : c ∈ s.clients) (h : holds c = true) : s.control = true := by
  have hpos : 0 < tally token s.clients () := tally_pos.mpr ⟨c, hc, mem_token.mpr h⟩
  rw [he] at hpos
  cases hcontrol : s.control with
  | true => rfl
  | false => simp [hcontrol] at hpos

/-- Two operations inside the section are one. -/
theorem held_unique {c d : Client} (he : tally token s.clients () = s.control.toNat)
    (hc : c ∈ s.clients) (hd : d ∈ s.clients) (hcheld : holds c = true) (hdheld : holds d = true) :
    c = d := by
  by_contra hne
  have htwo := tally_two hc hd hne (mem_token.mpr hcheld) (mem_token.mpr hdheld)
  have hle := Bool.toNat_le s.control
  rw [he] at htwo
  omega

theorem client_controlled {i : Nat} {c c' : Client} (hi : Controlled services s)
    (hc : s.clients[i]? = some c) (hm : Move services s input c t c') :
    Controlled services { t with clients := t.clients.set i c' } := by
  have hmem := List.mem_of_getElem? hc
  have hexclusive : tally token (t.clients.set i c') () = t.control.toNat := by
    have hset := tally_set token hc c' ()
    have hcontrol := hm.control
    rw [hm.clients]
    simp only [count_token, hi.exclusive] at hset
    omega
  refine ⟨hexclusive, ?_, ?_⟩
  · intro q hq
    rcases hm.worker with hworker | ⟨-, -, hworker⟩ | ⟨mission, rfl, -, hworker⟩
    · exact hi.worker q (hworker ▸ hq)
    · rw [show t.worker = some q from hq] at hworker
      cases hworker
    · rw [show t.worker = some q from hq] at hworker
      cases hworker
      obtain ⟨hdispatcher, hvalid, -⟩ := hi.thread mission hmem
      exact ⟨mission, hdispatcher, hvalid, .refl _⟩
  · intro mission hthread
    by_cases hnew : c' = .startThread mission
    · obtain ⟨-, hopens, hworker, hseen, -⟩ := hm.thread mission hnew
      simp only [opens, Bool.and_eq_true] at hopens
      exact ⟨hopens.1.1, hopens.1.2, hworker, by rw [hseen], by rw [hseen]⟩
    · -- another operation waits inside the section, so the one that moved is outside it
      have hold : Client.startThread mission ∈ s.clients := by
        rcases mem_of_mem_set hthread with h | h
        · exact absurd h.symm hnew
        · exact hm.clients ▸ h
      have hlt : i < t.clients.length := by
        rw [hm.clients]
        exact (List.getElem?_eq_some_iff.mp hc).1
      have hout' : holds c' = false := by
        by_contra hheld
        have hself : c' ∈ t.clients.set i c' := List.mem_set hlt c'
        exact hnew (held_unique (s := { t with clients := t.clients.set i c' }) hexclusive hself
          hthread (by simpa using hheld) rfl)
      have hout : holds c = false := by
        by_contra hheld
        have hsame := held_unique hi.exclusive hmem hold (by simpa using hheld) rfl
        have hs := held_control hi.exclusive hmem (by simpa using hheld)
        have ht := held_control (s := { t with clients := t.clients.set i c' }) hexclusive
          hthread rfl
        have hcontrol := hm.control
        simp [hout', hs, show t.control = true from ht, by simpa using hheld] at hcontrol
      obtain ⟨hdispatcher, hvalid, hworker, hdispatched, hfinished⟩ := hi.thread mission hold
      have hseen : t.seen = s.seen := by
        rcases hm.seen with h | ⟨m, h, -⟩
        · exact h
        · simp [h, holds] at hout'
      refine ⟨hdispatcher, hvalid, ?_, by rw [hseen]; exact hdispatched,
        by rw [hseen]; exact hfinished⟩
      rcases hm.worker with h | ⟨-, h, -⟩ | ⟨m, h, -, -⟩
      · exact h.trans hworker
      · rw [hout] at h
        cases h
      · simp [h, holds] at hout

theorem step_controlled {a : Action} (hi : Controlled services s)
    (h : step services environment s a = some t) : Controlled services t := by
  cases a with
  | call c =>
    cases h
    have hout : holds c.enter = false := by cases c <;> rfl
    refine ⟨by simp [hout, hi.exclusive], hi.worker, ?_⟩
    intro mission hm
    rcases List.mem_append.mp hm with hm | hm
    · exact hi.thread mission hm
    · rw [← List.mem_singleton.mp hm] at hout
      cases hout
  | client i input =>
    obtain ⟨c, u, c', hc, hu, rfl⟩ := client_step_cases h
    exact client_controlled hi hc
      (client_move (held_control hi.exclusive (List.mem_of_getElem? hc)) hu)
  | worker elapsed =>
    obtain ⟨e, k, answer, u, hworker, hu, rfl⟩ := worker_step_cases h
    obtain ⟨-, hclients, -, hcontrol, -, -⟩ := perform_frame hu
    refine ⟨?_, ?_, ?_⟩
    · rw [show u.clients = s.clients from hclients, show u.control = s.control from hcontrol]
      exact hi.exclusive
    · intro q hq
      cases hq
      obtain ⟨mission, hdispatcher, hvalid, hrest⟩ := hi.worker _ hworker
      exact ⟨mission, hdispatcher, hvalid, hrest.answer answer⟩
    · intro mission hm
      obtain ⟨-, -, hnone, -⟩ := hi.thread mission (hclients ▸ hm)
      rw [hworker] at hnone
      cases hnone

theorem run_controlled {as : List Action} (h : run (step services environment) {} as = some t) :
    Controlled services t :=
  run_preserves (fun _ _ _ hi h => step_controlled hi h) h (initial_controlled services)

end Moves

end HumanoidCore.Proofs.MissionMoves
