import HumanoidCore.Proofs.G1Mirror

namespace HumanoidCore.Proofs.G1Agreement
open Lib Core G1 SdkMoves G1Moves G1Calls G1Mirror
open Sdk hiding State Input Call Action Returned step

section Steps
variable {toFloat : Rat → FloatBits} {w w' : Watched} {s t : State} {p p' : Position} {i : Nat}
variable {x : Thread}

theorem promised_set (h : Promised s) (hp : s.calls[i]? = some p)
    (hcalls : t.calls = s.calls.set i p')
    (hconnected : (sdkView t.wrapper.latestState).connected =
      (sdkView s.wrapper.latestState).connected)
    (hflag : t.connected = (sdkView s.wrapper.latestState).connected ∨
      t.connected = s.connected ∧ ∀ b, promise p = some b →
        b = (sdkView s.wrapper.latestState).connected → promise p' = some b) : Promised t := by
  unfold Promised
  rw [hconnected, hcalls]
  rcases hflag with hnow | ⟨hsame, hkeep⟩
  · exact .inl hnow
  rcases h with hold | ⟨q, hq, hpromise⟩
  · exact .inl (hsame.trans hold)
  · right
    by_cases hqp : q = p
    · subst hqp
      have hlt : i < s.calls.length := (List.getElem?_eq_some_iff.mp hp).1
      exact ⟨p', List.mem_set hlt p', hkeep _ hpromise rfl⟩
    · exact ⟨q, mem_set_of_ne hp p' hq hqp, hpromise⟩

theorem own_copies {input : Input} (hs : Copies w) (hp : w.adapter.calls[i]? = some p)
    (hnone : p.client = none) (hok : writeExpected w p = true)
    (hsection : adapterSection toFloat w.adapter input p = some (t, p')) :
    Copies ⟨{ t with calls := t.calls.set i p' }, w.newest⟩ := by
  have hown := (section_own hsection).1
  have hwrote := section_wrote hs (List.mem_of_getElem? hp) hok hsection
  have hlatest : t.wrapper.latestState = w.wrapper.latestState := by rw [hown.wrapper]
  have hsource : sdkView t.wrapper.latestState = w.source := congrArg sdkView hlatest
  have hrelay : relay ⟨{ t with calls := t.calls.set i p' }, w.newest⟩ = { relay w with
      first := view t.latestState, second := t.stateManager.map fun m => view m.state } :=
    relay_eq hsource (own_carried hp hnone hsection) hown.stored rfl
  constructor
  · rw [Watched.wrapper, hown.wrapper]
    exact ⟨hs.sound.latest, hs.sound.connected⟩
  · rw [hrelay]
    rcases hwrote.copies with ⟨hfirst, hsecond⟩ | ⟨hallowed, hsecond | hsecond⟩
    · rw [hfirst, hsecond]
      exact hs.tracks
    · rw [hsecond]
      exact hs.tracks.writeFirst hallowed
    · have hwrite := hs.tracks.write hallowed
      rw [hsecond, Option.map_map]
      simp only [Relay.write, relay, Option.map_map] at hwrite
      exact hwrite
  · exact promised_set hs.flag hp (by rw [hown.calls]) (congrArg View.connected hsource)
      hwrote.flag
  · intro q hq v hv
    simp only [hown.calls] at hq
    have hallowed : Allowed w v := by
      rcases List.mem_or_eq_of_mem_set hq with hq | rfl
      · exact hs.writes q hq v hv
      · exact hwrote.writes v hv
    exact hallowed.of_eq hsource hown.stored rfl

/-- What a turn of a thread in the wrapper makes of the copies: the fields stay, or the
thread has the newest snapshot of them. -/
theorem turned_copies (hs : Copies w) (hknown : Known w.adapter) (hknown' : Known t)
    (hcallback : t.wrapper.stateUpdateCallback = w.wrapper.stateUpdateCallback)
    (hsound : Sound t.wrapper) (hfree : carried w.adapter x = none)
    (hmem : x ∉ w.adapter.stored) (hothers : ∀ y, y ≠ x → carried t y = carried w.adapter y)
    (hlatest : t.latestState = w.adapter.latestState)
    (hmanager : t.stateManager = w.adapter.stateManager)
    (hstored : t.stored = w.adapter.stored)
    (hrelays : sdkView t.wrapper.latestState = w.source ∧ carried t x = none ∨
      carried t x = t.wrapper.stateUpdateCallback.map fun _ => t.wrapper.latestState)
    (hflag : Promised t) (hcalls : ∀ p ∈ t.calls, writing p ≠ none → p ∈ w.adapter.calls) :
    Copies ⟨t, noted w t x⟩ := by
  have hcases : sdkView t.wrapper.latestState = w.source ∧ carried t x = none ∨
      carried t x = some t.wrapper.latestState := by
    rcases hrelays with hsilent | hsome
    · exact .inl hsilent
    · cases hc : t.wrapper.stateUpdateCallback with
      | none =>
        have hclear := blank_view (hknown'.unregistered hc).latest
        have hclear' := blank_view (hknown.unregistered (hcallback.symm.trans hc)).latest
        rw [hc] at hsome
        exact .inl ⟨hclear.trans hclear'.symm, hsome⟩
      | some callback =>
        rw [hc] at hsome
        exact .inr hsome
  rcases hcases with ⟨hsource, hnone⟩ | hsome
  · have hnewest : noted w t x = w.newest := by simp [noted, hfree, hnone]
    have hcarried : ∀ y, carried t y = carried w.adapter y := by
      intro y
      by_cases hy : y = x
      · rw [hy, hnone, hfree]
      · exact hothers y hy
    rw [hnewest]
    have hrelay : relay ⟨t, w.newest⟩ = relay w :=
      relay_same hsource hcarried hstored rfl hlatest hmanager
    refine ⟨hsound, hrelay ▸ hs.tracks, hflag, fun p hp v hv => ?_⟩
    have hold := hs.writes p (hcalls p hp (by simp [hv])) v hv
    exact hold.of_eq hsource hstored rfl
  · have hnewest : noted w t x = some x := by simp [noted, hfree, hsome]
    rw [hnewest]
    have hrelay : relay ⟨t, some x⟩ = (relay w).publish x (sdkView t.wrapper.latestState) := by
      refine Relay.ext rfl (congrArg view hlatest) ?_ ?_ hstored rfl
      · simp only [relay, Relay.publish, hmanager]
      · funext y
        simp only [relay, Relay.publish]
        by_cases hy : y = x
        · subst hy
          rw [Function.update_self, hsome]
          rfl
        · rw [Function.update_of_ne hy, hothers y hy]
    refine ⟨hsound, ?_, hflag, fun p hp v hv => .inr ?_⟩
    · rw [hrelay]
      exact Relay.tracks_publish hmem
    · rw [hrelay]
      exact Relay.due_publish hmem

theorem stored_copies {state : SdkRobotState} (hs : Copies w) (hexclusive : Exclusive w.adapter)
    (hcarried : carried w.adapter x = some state) (hfree : x ∉ w.adapter.stored)
    (hlocked : w.adapter.locked = false) (hok : inOrder w x = true) :
    Copies ⟨callbackStored w.adapter x state, w.newest⟩ := by
  have hallowed : sdkView state = w.source ∨ (relay w).Due := by
    simp only [inOrder, hcarried, Bool.or_eq_true, decide_eq_true_eq, hfree, if_false] at hok
    exact hok.imp_right due_iff.mp
  have hrelay : relay ⟨callbackStored w.adapter x state, w.newest⟩ =
      (relay w).store x (sdkView state) := by
    refine Relay.ext rfl rfl rfl ?_ rfl rfl
    funext y
    cases y <;> rfl
  refine ⟨hs.sound, ?_, hs.flag, fun p hp v hv => ?_⟩
  · rw [hrelay]
    exact hs.tracks.store (by simp [relay, hcarried]) hallowed
  · have hnone := hexclusive.free hlocked p hp
    cases p with
    | connectStore state => cases hnone
    | updateRead result state => cases hnone
    | updateStore result state connected => cases hnone
    | _ => cases hv

/-- Leaving the state callback the thread changes nothing but its own place. -/
theorem left_frame {state : SdkRobotState} {u : State} (h : Left s x state u) :
    u.wrapper.latestState = s.wrapper.latestState ∧ u.latestState = s.latestState ∧
      u.stateManager = s.stateManager ∧ u.stored = s.stored ∧ (Sound s.wrapper → Sound u.wrapper) := by
  cases h <;> exact ⟨rfl, rfl, rfl, rfl, fun hs => ⟨hs.latest, hs.connected⟩⟩

theorem updated_copies {state : SdkRobotState} {u : State} (hs : Copies w)
    (hcarried : carried w.adapter x = some state) (hmem : x ∈ w.adapter.stored)
    (hleft : Left w.adapter x state u) (hok : inOrder w x = true) :
    Copies ⟨callbackUpdated u x state, noted w (callbackUpdated u x state) x⟩ := by
  obtain ⟨hlatest, hfirst, hmanager, hstored, hsound⟩ := left_frame hleft
  obtain ⟨hnone, hothers⟩ := left_carried hleft
  have hupdated : ∀ y, carried (callbackUpdated u x state) y = carried u y := by
    intro y
    cases y <;> rfl
  have hnewest : noted w (callbackUpdated u x state) x =
      if w.newest = some x then none else w.newest := by
    simp only [noted, hcarried, hupdated, hnone]
  rw [hnewest]
  have hrelay : relay ⟨callbackUpdated u x state, if w.newest = some x then none else w.newest⟩ =
      (relay w).update x (sdkView state) := by
    refine Relay.ext (congrArg sdkView hlatest) (congrArg view hfirst) ?_ ?_ ?_ rfl
    · simp only [relay, Relay.update, callbackUpdated, hmanager, Option.map_map]
      rfl
    · funext y
      simp only [relay, Relay.update, hupdated]
      by_cases hy : y = x
      · subst hy
        rw [Function.update_self, hnone]
        rfl
      · rw [Function.update_of_ne hy, hothers y hy]
    · simp only [relay, Relay.update, callbackUpdated, hstored]
  have hallowed : sdkView state = (relay w).source ∨ ∃ z, z ≠ x ∧ (relay w).newest = some z := by
    simp only [inOrder, hcarried, Bool.or_eq_true, decide_eq_true_eq, hmem, if_true,
      Option.isSome_iff_exists] at hok
    rcases hok with hview | ⟨z, hz⟩
    · exact .inl hview
    · by_cases hzx : z = x
      · subst hzx
        have hview := hs.tracks.carries z hz
        simp only [relay, hcarried, Option.map_some, Option.some.injEq] at hview
        exact .inl hview
      · exact .inr ⟨z, hzx, hz⟩
  have hsource : sdkView (callbackUpdated u x state).wrapper.latestState = w.source :=
    congrArg sdkView hlatest
  have hwrites : ∀ p ∈ w.adapter.calls, ∀ v, writing p = some v →
      Allowed ⟨callbackUpdated u x state, if w.newest = some x then none else w.newest⟩ v := by
    intro p hp v hv
    rcases hs.writes p hp v hv with hview | hdue
    · exact .inl (hview.trans hsource.symm)
    · right
      rw [hrelay]
      exact Relay.due_update hmem hdue
  refine ⟨hsound hs.sound, ?_, ?_, ?_⟩
  · rw [hrelay]
    exact hs.tracks.update (by simp [relay, hcarried]) hmem hallowed
  · cases hleft with
    | adapter hp =>
      apply promised_set hs.flag hp rfl (congrArg View.connected hsource)
      exact .inr ⟨rfl, fun b hb _ => hb⟩
    | reader => exact hs.flag
    | worker => exact hs.flag
  · cases hleft with
    | adapter hp =>
      intro q hq v hv
      rcases List.mem_or_eq_of_mem_set hq with hq | rfl
      · exact hwrites q hq v hv
      · cases hv
    | reader => exact hwrites
    | worker => exact hwrites

/-- What a call has promised it still promises after its next section in the wrapper. -/
theorem client_promise {sdk : Sdk.Input} {c c' : Client} {next : Next} {u : Sdk.State} {b : Bool}
    (hfit : fits next c = true) (hok : sectionExpected w sdk c = true)
    (hstep : clientStep w.wrapper sdk c = some (u, c')) (hb : promise (.inSdk c next) = some b)
    (hsource : b = w.source.connected) : promise (.inSdk c' next) = some b := by
  cases c with
  | publish callback state value =>
    cases hstep
    exact hb
  | startCommunication options =>
    cases hb
    obtain rfl : next = .startCommunication := by simpa [fits] using hfit
    simp only [sectionExpected, ← hsource, Bool.not_true, Bool.false_or, Bool.and_eq_true,
      Bool.or_eq_true] at hok
    obtain ⟨hready, hstarts⟩ := hok
    simp only [clientStep, startCommunication, hready, Bool.not_true, Bool.false_eq_true, if_false,
      Option.some.injEq] at hstep
    split at hstep
    · cases hstep
      rfl
    · rename_i hrunning
      have hstarts' : sdk.threadStarts.isOk = true := by simpa [hrunning] using hstarts
      split at hstep
      · cases hstep
        rfl
      · rename_i hthread
        rw [hthread] at hstarts'
        cases hstarts'
      · rename_i hthread
        rw [hthread] at hstarts'
        cases hstarts'
  | returned value => cases hstep
  | _ => cases hb

/-- What holds of the calls along every run. -/
structure Base (s : State) : Prop where
  known : Known s
  alone : Alone s
  opened : s.destroying = false
  stored : StoredCarried s
  exclusive : Exclusive s

theorem moved_base {a : Action} (hs : Base s) (ha : a ≠ .destroy) (h : Moved toFloat s a t) :
    Base t := by
  refine ⟨moved_known hs.known h, moved_alone hs.alone h, ?_, moved_stored hs.stored h,
    moved_exclusive hs.exclusive h⟩
  cases h with
  | destroy => exact absurd rfl ha
  | own hp hnone hsection => exact (section_own hsection).1.destroying.trans hs.opened
  | updated hx hcarried hmem hleft => cases hleft <;> exact hs.opened
  | _ => exact hs.opened

theorem Base.free (h : Base s) (hx : carried s x = none) : x ∉ s.stored :=
  fun hmem => h.stored x hmem hx

/-- The copies are right, or will be, along every run whose steps are mirrored. -/
structure Mirrors (w : Watched) : Prop where
  base : Base w.adapter
  copies : Copies w

theorem client_copies {input : Input} {c c' : Client} {next : Next} {u : Sdk.State}
    (hs : Mirrors w) (hp : w.adapter.calls[i]? = some (.inSdk c next)) (hnone : delivering c = none)
    (hok : sectionExpected w input.sdk c = true)
    (hw : clientStep w.wrapper input.sdk c = some (u, c'))
    (hmoved : Moved toFloat w.adapter (.adapter i input)
      { w.adapter with wrapper := u, calls := w.adapter.calls.set i (.inSdk c' next) }) :
    Copies ⟨{ w.adapter with wrapper := u, calls := w.adapter.calls.set i (.inSdk c' next) },
      noted w { w.adapter with wrapper := u, calls := w.adapter.calls.set i (.inSdk c' next) }
        (.adapter i)⟩ := by
  have hfit := hs.base.known.fit.calls c next (List.mem_of_getElem? hp)
  have hdiscover : c ≠ .discoverRobot := by
    rintro rfl
    cases hfit
  obtain ⟨hsound, hsection⟩ := client_section hs.copies.sound hdiscover hok hw
  have hfree : carried w.adapter (.adapter i) = none := (carried_adapter hp).trans hnone
  have hnow : carried { w.adapter with wrapper := u, calls := w.adapter.calls.set i (.inSdk c' next) }
      (.adapter i) = delivering c' := by
    rw [carried_set hp rfl, position_delivering]
  have hopen : next ≠ .destroyed := by
    rintro rfl
    exact hs.base.alone.open_elsewhere hs.base.opened (List.mem_of_getElem? hp) rfl
  apply turned_copies hs.copies hs.base.known (moved_known hs.base.known hmoved)
    (callback_kept (fits_not_set hfit) hw) hsound hfree (hs.base.free hfree)
  · intro y hy
    exact moved_others hmoved fun he => hy (Option.some.inj he).symm
  · rfl
  · rfl
  · rfl
  · rw [hnow]
    cases hsection with
    | silent hview hsilent => exact .inl ⟨hview, hsilent⟩
    | published hsome => exact .inr hsome
  · have hsame : (sdkView u.latestState).connected = w.source.connected →
        Promised { w.adapter with
          wrapper := u, calls := w.adapter.calls.set i (.inSdk c' next) } := by
      intro he
      apply promised_set hs.copies.flag hp rfl he
      exact .inr ⟨rfl, fun b hb hsource => client_promise hfit hok hw hb hsource⟩
    cases hsection with
    | silent hview => exact hsame (congrArg View.connected hview)
    | published hsome hconnected =>
      rcases hconnected with hold | hflag | hpromise
      · exact hsame hold
      · exact .inl hflag.symm
      · have hlt : i < w.adapter.calls.length := (List.getElem?_eq_some_iff.mp hp).1
        exact .inr ⟨_, List.mem_set hlt _, hpromise next hfit hopen⟩
  · intro p hp' hwriting
    rcases List.mem_or_eq_of_mem_set hp' with hp' | rfl
    · exact hp'
    · exact absurd rfl hwriting

theorem reader_copies {sdk : Sdk.Input} {c c' : Client} {u : Sdk.State} (hs : Mirrors w)
    (hc : w.wrapper.clients[i]? = some c) (hnone : delivering c = none)
    (hw : clientStep w.wrapper sdk c = some (u, c'))
    (hmoved : Moved toFloat w.adapter (.reader i sdk)
      { w.adapter with wrapper := { u with clients := w.wrapper.clients.set i c' } }) :
    Copies ⟨{ w.adapter with wrapper := { u with clients := w.wrapper.clients.set i c' } },
      noted w { w.adapter with wrapper := { u with clients := w.wrapper.clients.set i c' } }
        (.reader i)⟩ := by
  have hfrom := hs.base.known.fit.readers c (List.mem_of_getElem? hc)
  obtain ⟨hsound, hconnected, hrelays⟩ := reader_section hs.copies.sound hfrom hnone hw
  have hfree : carried w.adapter (.reader i) = none := (carried_reader hc).trans hnone
  have hnow : carried { w.adapter with wrapper := { u with clients := w.wrapper.clients.set i c' } }
      (.reader i) = delivering c' := by
    have hlt : i < w.wrapper.clients.length := (List.getElem?_eq_some_iff.mp hc).1
    exact carried_reader (List.getElem?_set_self hlt)
  have hcallback := callback_kept (reader_not_set hfrom) hw
  apply turned_copies hs.copies hs.base.known (moved_known hs.base.known hmoved)
    hcallback ⟨hsound.latest, hsound.connected⟩ hfree
    (hs.base.free hfree)
  · intro y hy
    exact moved_others hmoved fun he => hy (Option.some.inj he).symm
  · rfl
  · rfl
  · rfl
  · rw [hnow]
    exact hrelays
  · unfold Promised
    rw [hconnected]
    exact hs.copies.flag
  · exact fun p hp _ => hp

theorem worker_copies {sdk : Sdk.Input} {timer : Bool} {k k' : Worker} {u : Sdk.State}
    (hs : Mirrors w) (hk : w.wrapper.workers[i]? = some k) (hnone : workerDelivering k = none)
    (hok : k = .synchronize → beatExpected w sdk = true)
    (hw : workerStep w.wrapper sdk timer k = some (u, k'))
    (hmoved : Moved toFloat w.adapter (.worker i sdk timer)
      { w.adapter with wrapper := { u with workers := w.wrapper.workers.set i k' } }) :
    Copies ⟨{ w.adapter with wrapper := { u with workers := w.wrapper.workers.set i k' } },
      noted w { w.adapter with wrapper := { u with workers := w.wrapper.workers.set i k' } }
        (.worker i)⟩ := by
  obtain ⟨hsound, hcases⟩ := worker_section hs.copies.sound hok hnone hw
  have hfree : carried w.adapter (.worker i) = none := (carried_worker hk).trans hnone
  have hnow : carried { w.adapter with wrapper := { u with workers := w.wrapper.workers.set i k' } }
      (.worker i) = workerDelivering k' := by
    have hlt : i < w.wrapper.workers.length := (List.getElem?_eq_some_iff.mp hk).1
    exact carried_worker (List.getElem?_set_self hlt)
  have hcallback := worker_callback_kept hw
  apply turned_copies hs.copies hs.base.known (moved_known hs.base.known hmoved)
    hcallback ⟨hsound.latest, hsound.connected⟩ hfree (hs.base.free hfree)
  · intro y hy
    exact moved_others hmoved fun he => hy (Option.some.inj he).symm
  · rfl
  · rfl
  · rfl
  · rw [hnow]
    exact hcases.imp_right And.left
  · have hsame : (sdkView u.latestState).connected = w.source.connected →
        Promised { w.adapter with
          wrapper := { u with workers := w.wrapper.workers.set i k' } } := by
      intro he
      unfold Promised
      rw [he]
      exact hs.copies.flag
    rcases hcases with ⟨hview, -⟩ | ⟨-, hold | hflag⟩
    · exact hsame (congrArg View.connected hview)
    · exact hsame hold
    · exact .inl hflag.symm
  · exact fun p hp _ => hp

/-- Calls that are appended, and messages, change no copy. -/
theorem grown_copies (hs : Copies w) (hcarried : ∀ y, carried t y = carried w.adapter y)
    (hstored : t.stored = w.adapter.stored) (hlatest : t.latestState = w.adapter.latestState)
    (hmanager : t.stateManager = w.adapter.stateManager)
    (hwrapper : t.wrapper.latestState = w.wrapper.latestState) (hsound : Sound t.wrapper)
    (hconnected : t.connected = w.adapter.connected) {p : Position}
    (hcalls : t.calls = w.adapter.calls ∨ t.calls = w.adapter.calls ++ [p])
    (hp : writing p = none) : Copies ⟨t, w.newest⟩ := by
  have hsource : sdkView t.wrapper.latestState = w.source := congrArg sdkView hwrapper
  have hrelay : relay ⟨t, w.newest⟩ = relay w :=
    relay_same hsource hcarried hstored rfl hlatest hmanager
  refine ⟨hsound, hrelay ▸ hs.tracks, ?_, ?_⟩
  · unfold Promised
    rw [hwrapper, hconnected]
    rcases hs.flag with hflag | ⟨q, hq, hpromise⟩
    · exact .inl hflag
    · refine .inr ⟨q, ?_, hpromise⟩
      rcases hcalls with he | he <;> rw [he]
      · exact hq
      · exact List.mem_append_left _ hq
  · intro q hq v hv
    have hold : q ∈ w.adapter.calls := by
      rcases hcalls with he | he
      · exact he ▸ hq
      · rcases List.mem_append.mp (he ▸ hq) with hq | hq
        · exact hq
        · rw [List.mem_singleton.mp hq, hp] at hv
          cases hv
    exact (hs.writes q hold v hv).of_eq hsource hstored rfl

theorem noted_none (hbefore : carried w.adapter x = none) (hafter : carried t x = none) :
    noted w t x = w.newest := by
  simp only [noted, hbefore, hafter]

theorem noted_some {state state' : SdkRobotState} (hbefore : carried w.adapter x = some state)
    (hafter : carried t x = some state') : noted w t x = w.newest := by
  simp only [noted, hbefore, hafter]

/-- A snapshot is only given on in order. -/
theorem mirrored_order {a : Action} {state : SdkRobotState} (hok : mirrored w a = true)
    (hx : mover a = some x) (hcarried : carried w.adapter x = some state) :
    inOrder w x = true := by
  cases a with
  | adapter i input =>
    cases hx
    simp only [mirrored] at hok
    simp only [carried] at hcarried
    obtain ⟨p, hp, hdelivering⟩ := Option.bind_eq_some_iff.mp hcarried
    obtain ⟨⟨c, next⟩, hclient, -⟩ := Option.bind_eq_some_iff.mp hdelivering
    simp only [hp, hclient, Bool.and_eq_true] at hok
    exact hok.1
  | reader i sdk =>
    cases hx
    exact hok
  | worker i sdk timer =>
    cases hx
    simp only [mirrored, Bool.and_eq_true] at hok
    exact hok.1
  | _ => cases hx

theorem watch_mirrors {a : Action} (hs : Mirrors w)
    (hstep : restrict mirrored (watch toFloat) w a = some w') : Mirrors w' := by
  obtain ⟨hok, hwatch⟩ := restrict_eq_some.mp hstep
  clear hstep
  obtain ⟨t, ht, rfl⟩ := Option.map_eq_some_iff.mp hwatch
  have hmoved := moved_of_step ht
  have hdestroy : a ≠ .destroy := by
    rintro rfl
    cases hok
  refine ⟨moved_base hs.base hdestroy hmoved, ?_⟩
  have hcases := hmoved
  cases hcases with
  | destroy => exact absurd rfl hdestroy
  | call =>
    exact grown_copies hs.copies (fun y => snoc_carried rfl) rfl rfl rfl rfl hs.copies.sound rfl
      (.inr rfl) rfl
  | message =>
    refine grown_copies hs.copies (fun y => moved_others hmoved (by simp [mover])) rfl rfl rfl rfl
      ⟨hs.copies.sound.latest, hs.copies.sound.connected⟩ rfl (.inl rfl) (p := .returned .nothing)
      rfl
  | own hp hnone hsection =>
    rename_i i input p p' t'
    have hbefore : carried w.adapter (.adapter i) = none := by
      simp only [carried, hp, Option.bind_some, positionDelivering, hnone, Option.bind_none]
    have hafter := (own_carried hp hnone hsection (.adapter i)).trans hbefore
    have hok' : writeExpected w p = true := by simpa [mirrored, hp, hnone] using hok
    simp only [mover]
    rw [noted_none hbefore hafter]
    exact own_copies hs.copies hp hnone hok' hsection
  | client hp hnone hw =>
    rename_i i input c c' next u
    have hclient : Position.client (.inSdk c next) = some (c, next) := by
      cases c with
      | returned value => cases hw
      | _ => rfl
    simp only [mirrored, hp, hclient, Bool.and_eq_true] at hok
    exact client_copies hs hp hnone hok.2 hw hmoved
  | reader hc hnone hw => exact reader_copies hs hc hnone hw hmoved
  | worker hk hnone hw =>
    rename_i i sdk timer k k' u
    have hbeat : k = .synchronize → beatExpected w sdk = true := by
      rintro rfl
      simp only [mirrored, hk, Bool.and_eq_true, Bool.or_eq_true, decide_eq_true_eq] at hok
      exact hok.2.resolve_left fun hne => hne rfl
    exact worker_copies hs hk hnone hbeat hw hmoved
  | stored hx hcarried hfree hlocked =>
    rename_i x state
    have hafter : carried (callbackStored w.adapter x state) x = some state := by
      cases x <;> exact hcarried
    have horder := mirrored_order hok hx hcarried
    rw [hx]
    simp only [noted_some hcarried hafter]
    exact stored_copies hs.copies hs.base.exclusive hcarried hfree hlocked horder
  | updated hx hcarried hmem hleft =>
    have horder := mirrored_order hok hx hcarried
    rw [hx]
    exact updated_copies hs.copies hcarried hmem hleft horder

end Steps

theorem start_mirrors (configuration : SdkConfiguration) (injected : Bool) :
    Mirrors { adapter := start configuration injected } := by
  constructor
  · refine ⟨start_known configuration injected, start_alone configuration injected, rfl, ?_,
      start_exclusive configuration injected⟩
    intro x hx
    cases hx
  · refine ⟨⟨rfl, by simp [start]⟩, ⟨?_, .inl rfl, ?_⟩, .inl rfl, ?_⟩
    · intro x hx
      cases hx
    · intro v hv
      left
      cases injected <;> cases hv
      rfl
    · intro p hp
      cases hp

/-- In a run whose steps are mirrored, whenever nothing is in progress the adapter, its
flag and the state manager say what `ReadRobotState` says. -/
theorem copies_agree {toFloat : Rat → FloatBits} {configuration : SdkConfiguration}
    {injected : Bool} {w : Watched} {as : List Action}
    (h : run (restrict mirrored (watch toFloat)) { adapter := start configuration injected } as =
      some w) (hquiet : Quiet w.adapter) : Agree w.adapter := by
  have hm : Mirrors w := run_preserves (fun _ _ _ => watch_mirrors) h
    (start_mirrors configuration injected)
  have hnone : ∀ x, (relay w).carried x = none := by
    intro x
    simp only [relay, hquiet.carried x, Option.map_none]
  obtain ⟨hfirst, hsecond⟩ := hm.copies.tracks.settled hnone
  refine ⟨hfirst, fun m hmanager => ?_, ?_⟩
  · apply hsecond
    simp only [relay, hmanager]
    rfl
  · rcases hm.copies.flag with hflag | ⟨p, hp, hpromise⟩
    · exact hflag
    · have hreturned := hquiet.calls p hp
      cases p with
      | returned value => cases hpromise
      | _ => cases hreturned

/-- The adapter is initialised and connects, the robot stands up, reports a fault and
answers a heartbeat, and the adapter is updated. -/
def standingRun : List Action :=
  G1.Action.call .initializeG1 :: List.replicate 5 (.adapter 0 {}) ++
    G1.Action.call .connect :: List.replicate 9 (.adapter 1 {}) ++
    G1.Action.call (.executeCommand { id := 1, type := .stand }) ::
      List.replicate 3 (.adapter 2 {}) ++
    G1.Action.message 0 { motorState := [0, 7] } :: List.replicate 3 (.reader 0 {}) ++
    G1.Action.worker 0 {} false :: .worker 0 {} true :: List.replicate 3 (.worker 0 {} false) ++
    G1.Action.call .update :: List.replicate 7 (.adapter 3 {})

theorem copies_agree_standing :
    ∃ w, run (restrict mirrored (watch fun _ => 0)) { adapter := start {} true } standingRun =
      some w ∧ w.adapter.connected = true ∧ Agree w.adapter := by
  have hs : (run (restrict mirrored (watch fun _ => 0)) { adapter := start {} true }
    standingRun).isSome = true := by decide
  have hrun := (Option.some_get hs).symm
  refine ⟨_, hrun, rfl, copies_agree hrun ⟨?_, ?_, ?_⟩⟩
  · exact List.all_eq_true.mp rfl
  · intro c hc
    cases List.mem_singleton.mp hc
    exact ⟨.nothing, rfl⟩
  · intro k hk
    cases List.mem_singleton.mp hk
    exact .inl rfl

/-- The adapter is initialised, connects and stops in an emergency. -/
def stoppingRun : List Action :=
  G1.Action.call .initializeG1 :: List.replicate 5 (.adapter 0 {}) ++
    G1.Action.call .connect :: List.replicate 9 (.adapter 1 {}) ++
    G1.Action.call (.executeCommand { id := 1, type := .emergencyStop }) ::
      List.replicate 3 (.adapter 2 {})

/-- After the emergency stop nothing is in progress. The wrapper says that the robot was
stopped, the adapter and the state manager that it is connected and healthy, and the
adapter's flag that it is not connected. -/
theorem copies_disagree :
    ∃ s, run (step fun _ => 0) (start {} true) stoppingRun = some s ∧ Quiet s ∧ ¬Agree s ∧
      sdkView s.wrapper.latestState = .stopped ∧ s.isConnected = false ∧
      view s.getRobotState = ⟨true, false, 0⟩ ∧
      s.stateManager.map (fun m => view m.getState) = some ⟨true, false, 0⟩ := by
  have hs : (run (step fun _ => 0) (start {} true) stoppingRun).isSome = true := by decide
  have hlatest : view (Option.get _ hs).getRobotState = ⟨true, false, 0⟩ := rfl
  refine ⟨_, (Option.some_get hs).symm, ⟨?_, ?_, ?_⟩, ?_, rfl, rfl, hlatest, rfl⟩
  · exact List.all_eq_true.mp rfl
  · intro c hc
    cases hc
  · intro k hk
    cases List.mem_singleton.mp hk
    exact .inl rfl
  · intro hagree
    have hsame := hlatest.symm.trans hagree.latest
    cases hsame

end HumanoidCore.Proofs.G1Agreement
