import HumanoidCore.Proofs.PipelineLives

namespace HumanoidCore.Proofs.PipelineTables
open Lib Core Pipeline PipelineMoves PipelineLives

/-- The execution of a `Submit` call that has not been decided yet. -/
def entering : Client → List CommandExecutionId
  | .validate id | .submitLocked id | .completeRejected id _ => [id]
  | _ => []

/-- The execution a worker has taken and not completed yet. -/
def serving : Worker → List CommandExecutionId
  | .emitRunning id _ _ | .callbacksRunning id _ _ | .executing id | .completing id _ => [id]
  | _ => []

def holders (s : State) (id : CommandExecutionId) : Nat :=
  tally entering s.clients id + s.queue.count id + tally drains s.clients id +
    tally serving s.workers id

def commandOf (s : State) (id : CommandExecutionId) : CommandId := (s.heap id).command.id

/-- What the tables need to know of an execution object. -/
def face (e : Execution) : Command × CommandId × Bool := (e.command, e.record.commandId, e.running)

/-- The queue, `executions_` and `command_to_execution_` agree, in every run: also when a
`Cancel` gets hold of an execution that a `Shutdown` has swapped out. -/
structure Indexed (s : State) : Prop where
  commands : ∀ id, (s.heap id).record.commandId = commandOf s id
  once : ∀ id, holders s id ≤ 1
  issued : ∀ id, 0 < holders s id ∨ id ∈ s.executions → id < s.nextExecutionId
  fresh : ∀ id, 0 < tally entering s.clients id → id ∉ s.executions
  queued : ∀ id ∈ s.queue, id ∈ s.executions
  nodup : s.executions.Nodup
  index : ∀ c id, s.commandToExecution.get? c = some id ↔ id ∈ s.executions ∧ commandOf s id = c
  closed : s.accepting = false → s.queue = []
  draining : ∀ id, 0 < tally drains s.clients id → s.accepting = false
  own : ∀ id, 0 < tally drains s.clients id → ∀ id' ∈ s.executions,
    commandOf s id' = commandOf s id → id' = id
  served : ∀ id, 0 < tally serving s.workers id → id ∈ s.executions ∧ (s.heap id).running = true

section Indexed
variable {o : CommandExecutionPipelineOptions} {s t u : State} {c c' : Client} {w w' : Worker}
  {i : Nat} {id : CommandExecutionId} {r : CommandResult}

theorem Indexed.injective (h : Indexed s) {id id' : CommandExecutionId} (hid : id ∈ s.executions)
    (hid' : id' ∈ s.executions) (he : commandOf s id' = commandOf s id) : id' = id := by
  have hget := (h.index (commandOf s id) id).mpr ⟨hid, rfl⟩
  have hget' := (h.index (commandOf s id) id').mpr ⟨hid', he⟩
  rw [hget] at hget'
  exact (Option.some.inj hget').symm

theorem Indexed.queue_nodup (h : Indexed s) : s.queue.Nodup := by
  rw [List.nodup_iff_count_le_one]
  intro id
  have hle := h.once id
  unfold holders at hle
  omega

/-- A section that leaves the tables alone, whoever gives up what he holds. -/
theorem Indexed.quiet (h : Indexed s) (hface : ∀ id, face (t.heap id) = face (s.heap id))
    (hqueue : t.queue = s.queue) (hexecutions : t.executions = s.executions)
    (hindex : t.commandToExecution = s.commandToExecution) (haccepting : t.accepting = s.accepting)
    (hnext : t.nextExecutionId = s.nextExecutionId)
    (hentering : ∀ id, tally entering t.clients id ≤ tally entering s.clients id)
    (hdrains : ∀ id, tally drains t.clients id ≤ tally drains s.clients id)
    (hserving : ∀ id, tally serving t.workers id ≤ tally serving s.workers id) : Indexed t := by
  have hcommand : ∀ id, commandOf t id = commandOf s id := by
    intro id
    have hf := hface id
    simp only [face, Prod.mk.injEq] at hf
    simp only [commandOf, hf.1]
  have hholders : ∀ id, holders t id ≤ holders s id := by
    intro id
    have h1 := hentering id
    have h2 := hdrains id
    have h3 := hserving id
    simp only [holders, hqueue]
    omega
  refine ⟨?_, ?_, ?_, ?_, ?_, ?_, ?_, ?_, ?_, ?_, ?_⟩
  · intro id
    have hf := hface id
    simp only [face, Prod.mk.injEq] at hf
    rw [hcommand, hf.2.1]
    exact h.commands id
  · exact fun id => Nat.le_trans (hholders id) (h.once id)
  · intro id hid
    rw [hnext]
    rw [hexecutions] at hid
    exact h.issued id (hid.imp_left (fun hp => Nat.lt_of_lt_of_le hp (hholders id)))
  · intro id hid
    rw [hexecutions]
    exact h.fresh id (Nat.lt_of_lt_of_le hid (hentering id))
  · rw [hqueue, hexecutions]
    exact h.queued
  · rw [hexecutions]
    exact h.nodup
  · intro c id
    rw [hindex, hexecutions, hcommand]
    exact h.index c id
  · rw [haccepting, hqueue]
    exact h.closed
  · intro id hid
    rw [haccepting]
    exact h.draining id (Nat.lt_of_lt_of_le hid (hdrains id))
  · intro id hid
    simp only [hexecutions, hcommand]
    exact h.own id (Nat.lt_of_lt_of_le hid (hdrains id))
  · intro id hid
    have hf := hface id
    simp only [face, Prod.mk.injEq] at hf
    rw [hexecutions, hf.2.2]
    exact h.served id (Nat.lt_of_lt_of_le hid (hserving id))

/-- A new execution object gets the next number. -/
theorem Indexed.issue (h : Indexed s) {e : Execution}
    (he : e.record.commandId = e.command.id)
    (hheap : t.heap = Function.update s.heap s.nextExecutionId e)
    (hqueue : t.queue = s.queue) (hexecutions : t.executions = s.executions)
    (hindex : t.commandToExecution = s.commandToExecution) (haccepting : t.accepting = s.accepting)
    (hnext : t.nextExecutionId = s.nextExecutionId + 1)
    (hentering : ∀ id, tally entering t.clients id =
      tally entering s.clients id + [s.nextExecutionId].count id)
    (hdrains : ∀ id, tally drains t.clients id = tally drains s.clients id)
    (hserving : ∀ id, tally serving t.workers id = tally serving s.workers id) : Indexed t := by
  have hother : ∀ id, id < s.nextExecutionId → t.heap id = s.heap id := by
    intro id hid
    rw [hheap, Function.update_of_ne (Nat.ne_of_lt hid)]
  have hcommand : ∀ id, id < s.nextExecutionId → commandOf t id = commandOf s id := by
    intro id hid
    simp only [commandOf, hother id hid]
  have hholders : ∀ id, holders t id = holders s id + [s.nextExecutionId].count id := by
    intro id
    simp only [holders, hqueue, hentering, hdrains, hserving]
    omega
  have hzero : holders s s.nextExecutionId = 0 := by
    by_contra hne
    exact Nat.lt_irrefl _ (h.issued s.nextExecutionId (.inl (Nat.pos_of_ne_zero hne)))
  have hone : ∀ id, id ≠ s.nextExecutionId → [s.nextExecutionId].count id = 0 := by
    intro id hid
    simp [Ne.symm hid]
  refine ⟨?_, ?_, ?_, ?_, ?_, ?_, ?_, ?_, ?_, ?_, ?_⟩
  · intro id
    by_cases hid : id = s.nextExecutionId
    · subst hid
      simp only [commandOf, hheap, Function.update_self]
      exact he
    · have hc := h.commands id
      simp only [commandOf, hheap, Function.update_of_ne hid] at hc ⊢
      exact hc
  · intro id
    rw [hholders]
    by_cases hid : id = s.nextExecutionId
    · subst hid
      rw [hzero]
      simp
    · rw [hone id hid]
      exact h.once id
  · intro id hid
    rw [hnext]
    by_cases hn : id = s.nextExecutionId
    · subst hn
      exact Nat.lt_succ_self _
    · rw [hholders, hone id hn, hexecutions] at hid
      exact Nat.lt_succ_of_lt (h.issued id hid)
  · intro id hid
    rw [hexecutions]
    by_cases hn : id = s.nextExecutionId
    · subst hn
      intro hm
      exact Nat.lt_irrefl _ (h.issued _ (.inr hm))
    · rw [hentering, hone id hn] at hid
      exact h.fresh id hid
  · rw [hqueue, hexecutions]
    exact h.queued
  · rw [hexecutions]
    exact h.nodup
  · intro c id
    rw [hindex, hexecutions, h.index c id]
    constructor
    · rintro ⟨hm, hc⟩
      exact ⟨hm, (hcommand id (h.issued id (.inr hm))).trans hc⟩
    · rintro ⟨hm, hc⟩
      exact ⟨hm, (hcommand id (h.issued id (.inr hm))).symm.trans hc⟩
  · rw [haccepting, hqueue]
    exact h.closed
  · intro id hid
    rw [hdrains] at hid
    rw [haccepting]
    exact h.draining id hid
  · intro id hid id' hid'
    rw [hdrains] at hid
    rw [hexecutions] at hid'
    have hlt : id < s.nextExecutionId := by
      refine h.issued id (.inl ?_)
      unfold holders
      omega
    rw [hcommand id hlt, hcommand id' (h.issued id' (.inr hid'))]
    exact h.own id hid id' hid'
  · intro id hid
    rw [hserving] at hid
    obtain ⟨hm, hr⟩ := h.served id hid
    rw [hexecutions, hother id (h.issued id (.inr hm))]
    exact ⟨hm, hr⟩

/-- An entering execution is taken into the queue and both tables. -/
theorem Indexed.accept (h : Indexed s) (haccepting : s.accepting = true)
    (hfree : commandOf s id ∉ s.commandToExecution) (hheld : 0 < tally entering s.clients id)
    (hface : ∀ j, face (t.heap j) = face (s.heap j))
    (hqueue : t.queue = s.queue ++ [id]) (hexecutions : t.executions = s.executions ++ [id])
    (hindex : t.commandToExecution = s.commandToExecution.emplace (commandOf s id) id)
    (haccepting' : t.accepting = s.accepting) (hnext : t.nextExecutionId = s.nextExecutionId)
    (hentering : ∀ j, tally entering t.clients j + [id].count j = tally entering s.clients j)
    (hdrains : ∀ j, tally drains t.clients j = tally drains s.clients j)
    (hserving : ∀ j, tally serving t.workers j = tally serving s.workers j) : Indexed t := by
  have hcommand : ∀ j, commandOf t j = commandOf s j := by
    intro j
    have hf := hface j
    simp only [face, Prod.mk.injEq] at hf
    simp only [commandOf, hf.1]
  have hnew := h.fresh id hheld
  have hlt : id < s.nextExecutionId := by
    refine h.issued id (.inl ?_)
    unfold holders
    omega
  have hholders : ∀ j, holders t j = holders s j := by
    intro j
    have he := hentering j
    simp only [holders, hqueue, hdrains, hserving, List.count_append]
    omega
  have hidle : ∀ j, tally drains s.clients j = 0 := by
    intro j
    by_contra hne
    rw [h.draining j (Nat.pos_of_ne_zero hne)] at haccepting
    cases haccepting
  refine ⟨?_, ?_, ?_, ?_, ?_, ?_, ?_, ?_, ?_, ?_, ?_⟩
  · intro j
    have hf := hface j
    simp only [face, Prod.mk.injEq] at hf
    rw [hcommand, hf.2.1]
    exact h.commands j
  · intro j
    rw [hholders]
    exact h.once j
  · intro j hj
    rw [hnext]
    rw [hholders, hexecutions, List.mem_append, List.mem_singleton] at hj
    rcases hj with hj | hj | rfl
    · exact h.issued j (.inl hj)
    · exact h.issued j (.inr hj)
    · exact hlt
  · intro j hj
    have he := hentering j
    have hle := h.once j
    unfold holders at hle
    have hne : j ≠ id := by
      rintro rfl
      rw [List.count_singleton_self] at he
      omega
    rw [hexecutions, List.mem_append, List.mem_singleton]
    rintro (hm | hm)
    · exact h.fresh j (by omega) hm
    · exact hne hm
  · intro j hj
    rw [hqueue] at hj
    rw [hexecutions]
    rcases List.mem_append.mp hj with hj | hj
    · exact List.mem_append_left _ (h.queued j hj)
    · exact List.mem_append_right _ hj
  · rw [hexecutions, List.nodup_append]
    refine ⟨h.nodup, List.nodup_singleton _, ?_⟩
    intro x hx y hy
    rw [List.mem_singleton.mp hy]
    exact fun he => hnew (he ▸ hx)
  · intro c j
    rw [hindex, Map.emplace, if_neg hfree, Map.get?_insert, hexecutions, hcommand]
    simp only [List.mem_append, List.mem_singleton]
    by_cases hc : c = commandOf s id
    · subst hc
      rw [if_pos rfl]
      constructor
      · intro he
        cases he
        exact ⟨.inr rfl, rfl⟩
      · rintro ⟨hm | hm, he⟩
        · exact absurd (Map.mem_of_get? ((h.index _ j).mpr ⟨hm, he⟩)) hfree
        · rw [hm]
    · rw [if_neg hc, h.index c j]
      constructor
      · rintro ⟨hm, he⟩
        exact ⟨.inl hm, he⟩
      · rintro ⟨hm | hm, he⟩
        · exact ⟨hm, he⟩
        · rw [hm] at he
          exact absurd he.symm hc
  · intro hc
    rw [haccepting', haccepting] at hc
    cases hc
  · intro j hj
    rw [hdrains, hidle] at hj
    cases hj
  · intro j hj
    rw [hdrains, hidle] at hj
    cases hj
  · intro j hj
    rw [hserving] at hj
    have hf := hface j
    simp only [face, Prod.mk.injEq] at hf
    obtain ⟨hm, hr⟩ := h.served j hj
    rw [hexecutions, hf.2.2]
    exact ⟨List.mem_append_left _ hm, hr⟩

/-- An execution leaves the tables. It is one nobody holds as queued or running any more;
the table of commands has it, or nothing, for its command. -/
theorem Indexed.complete (h : Indexed s) (id : CommandExecutionId)
    (hown : ∀ j ∈ s.executions, commandOf s j = commandOf s id → j = id)
    (hheap : ∀ j, j ≠ id → t.heap j = s.heap j) (hself : commandOf t id = commandOf s id)
    (hrecord : (t.heap id).record.commandId = commandOf t id)
    (hexecutions : t.executions = s.executions.erase id)
    (hindex : t.commandToExecution = s.commandToExecution.erase (commandOf s id))
    (haccepting : t.accepting = s.accepting) (hnext : t.nextExecutionId = s.nextExecutionId)
    (hqueue : t.queue = s.queue.erase id)
    (hentering : ∀ j, tally entering t.clients j = tally entering s.clients j)
    (hdrains : ∀ j, tally drains t.clients j ≤ tally drains s.clients j)
    (hserving : ∀ j, tally serving t.workers j ≤ tally serving s.workers j)
    (hdone : tally serving t.workers id = 0) : Indexed t := by
  have hcommand : ∀ j, commandOf t j = commandOf s j := by
    intro j
    by_cases hj : j = id
    · subst j
      exact hself
    · simp only [commandOf, hheap j hj]
  have hcount : ∀ j, (s.queue.erase id).count j ≤ s.queue.count j :=
    fun j => List.Sublist.count_le j List.erase_sublist
  have hholders : ∀ j, holders t j ≤ holders s j := by
    intro j
    have h1 := hcount j
    have h2 := hdrains j
    have h3 := hserving j
    simp only [holders, hqueue, hentering]
    omega
  have hmem : ∀ j, j ∈ t.executions ↔ j ≠ id ∧ j ∈ s.executions := by
    intro j
    rw [hexecutions, h.nodup.mem_erase_iff]
  refine ⟨?_, ?_, ?_, ?_, ?_, ?_, ?_, ?_, ?_, ?_, ?_⟩
  · intro j
    by_cases hj : j = id
    · subst j
      exact hrecord
    · rw [hcommand, hheap j hj]
      exact h.commands j
  · exact fun j => Nat.le_trans (hholders j) (h.once j)
  · intro j hj
    rw [hnext]
    rcases hj with hj | hj
    · exact h.issued j (.inl (Nat.lt_of_lt_of_le hj (hholders j)))
    · exact h.issued j (.inr ((hmem j).mp hj).2)
  · intro j hj hm
    rw [hentering] at hj
    exact h.fresh j hj ((hmem j).mp hm).2
  · intro j hj
    rw [hqueue] at hj
    refine (hmem j).mpr ⟨?_, h.queued j (List.mem_of_mem_erase hj)⟩
    rintro rfl
    exact (List.Nodup.mem_erase_iff h.queue_nodup).mp hj |>.1 rfl
  · rw [hexecutions]
    exact h.nodup.erase id
  · intro c j
    rw [hindex, Map.get?_erase, hmem, hcommand]
    by_cases hc : c = commandOf s id
    · subst hc
      rw [if_pos rfl]
      constructor
      · intro he
        cases he
      · rintro ⟨⟨hne, hm⟩, he⟩
        exact absurd (hown j hm he) hne
    · rw [if_neg hc, h.index c j]
      constructor
      · rintro ⟨hm, he⟩
        refine ⟨⟨?_, hm⟩, he⟩
        rintro rfl
        exact hc he.symm
      · rintro ⟨⟨-, hm⟩, he⟩
        exact ⟨hm, he⟩
  · intro hc
    rw [haccepting] at hc
    rw [hqueue, h.closed hc]
    rfl
  · intro j hj
    rw [haccepting]
    exact h.draining j (Nat.lt_of_lt_of_le hj (hdrains j))
  · intro j hj j' hj' he
    rw [hcommand, hcommand] at he
    exact h.own j (Nat.lt_of_lt_of_le hj (hdrains j)) j' ((hmem j').mp hj').2 he
  · intro j hj
    have hne : j ≠ id := by
      rintro rfl
      omega
    obtain ⟨hm, hr⟩ := h.served j (Nat.lt_of_lt_of_le hj (hserving j))
    exact ⟨(hmem j).mpr ⟨hne, hm⟩, by rw [hheap j hne]; exact hr⟩

/-- `Shutdown` swaps the queue out. -/
theorem Indexed.drain (h : Indexed s) (hheap : t.heap = s.heap)
    (hexecutions : t.executions = s.executions)
    (hindex : t.commandToExecution = s.commandToExecution) (haccepting : t.accepting = false)
    (hnext : t.nextExecutionId = s.nextExecutionId) (hqueue : t.queue = [])
    (hentering : ∀ j, tally entering t.clients j = tally entering s.clients j)
    (hdrains : ∀ j, tally drains t.clients j = tally drains s.clients j + s.queue.count j)
    (hserving : ∀ j, tally serving t.workers j = tally serving s.workers j) : Indexed t := by
  have hcommand : ∀ j, commandOf t j = commandOf s j := by
    intro j
    simp only [commandOf, hheap]
  have hholders : ∀ j, holders t j = holders s j := by
    intro j
    simp only [holders, hqueue, hentering, hdrains, hserving, List.count_nil]
    omega
  refine ⟨?_, ?_, ?_, ?_, ?_, ?_, ?_, ?_, ?_, ?_, ?_⟩
  · intro j
    rw [hcommand, hheap]
    exact h.commands j
  · intro j
    rw [hholders]
    exact h.once j
  · intro j hj
    rw [hnext]
    rw [hholders, hexecutions] at hj
    exact h.issued j hj
  · intro j hj
    rw [hentering] at hj
    rw [hexecutions]
    exact h.fresh j hj
  · intro j hj
    rw [hqueue] at hj
    cases hj
  · rw [hexecutions]
    exact h.nodup
  · intro c j
    rw [hindex, hexecutions, hcommand]
    exact h.index c j
  · exact fun _ => hqueue
  · exact fun j _ => haccepting
  · intro j hj j' hj' he
    rw [hdrains] at hj
    rw [hexecutions] at hj'
    rw [hcommand, hcommand] at he
    by_cases hold : 0 < tally drains s.clients j
    · exact h.own j hold j' hj' he
    · have hm : j ∈ s.queue := List.count_pos_iff.mp (by omega)
      exact h.injective (h.queued j hm) hj' he
  · intro j hj
    rw [hserving] at hj
    rw [hexecutions, hheap]
    exact h.served j hj

/-- A worker takes an entry of the queue. -/
theorem Indexed.take (h : Indexed s) (id : CommandExecutionId) (hid : id ∈ s.queue)
    (hheap : ∀ j, j ≠ id → t.heap j = s.heap j) (hself : commandOf t id = commandOf s id)
    (hrecord : (t.heap id).record.commandId = commandOf t id) (hrunning : (t.heap id).running = true)
    (hexecutions : t.executions = s.executions)
    (hindex : t.commandToExecution = s.commandToExecution) (haccepting : t.accepting = s.accepting)
    (hnext : t.nextExecutionId = s.nextExecutionId) (hqueue : t.queue = s.queue.erase id)
    (hclients : t.clients = s.clients)
    (hserving : ∀ j, tally serving t.workers j = tally serving s.workers j + [id].count j) :
    Indexed t := by
  have hcommand : ∀ j, commandOf t j = commandOf s j := by
    intro j
    by_cases hj : j = id
    · subst j
      exact hself
    · simp only [commandOf, hheap j hj]
  have hholders : ∀ j, holders t j = holders s j := by
    intro j
    have hpos := List.count_pos_iff.mpr hid
    simp only [holders, hqueue, hclients, hserving, List.count_erase, List.count_singleton]
    by_cases hj : id = j
    · subst j
      simp only [beq_self_eq_true, if_true]
      omega
    · simp only [beq_iff_eq, hj, if_false]
      omega
  refine ⟨?_, ?_, ?_, ?_, ?_, ?_, ?_, ?_, ?_, ?_, ?_⟩
  · intro j
    by_cases hj : j = id
    · subst j
      exact hrecord
    · rw [hcommand, hheap j hj]
      exact h.commands j
  · intro j
    rw [hholders]
    exact h.once j
  · intro j hj
    rw [hnext]
    rw [hholders, hexecutions] at hj
    exact h.issued j hj
  · rw [hclients, hexecutions]
    exact h.fresh
  · intro j hj
    rw [hqueue] at hj
    rw [hexecutions]
    exact h.queued j (List.mem_of_mem_erase hj)
  · rw [hexecutions]
    exact h.nodup
  · intro c j
    rw [hindex, hexecutions, hcommand]
    exact h.index c j
  · intro hc
    rw [haccepting] at hc
    rw [hqueue, h.closed hc]
    rfl
  · rw [hclients, haccepting]
    exact h.draining
  · intro j hj j' hj' he
    rw [hclients] at hj
    rw [hexecutions] at hj'
    rw [hcommand, hcommand] at he
    exact h.own j hj j' hj' he
  · intro j hj
    rw [hexecutions]
    by_cases hj' : j = id
    · subst j
      exact ⟨h.queued id hid, hrunning⟩
    · rw [hserving] at hj
      have hzero : [id].count j = 0 := by simp [Ne.symm hj']
      rw [hheap j hj']
      exact h.served j (by omega)

/-- The checks that a submission has passed when its `Queued` event is on the way. -/
theorem submit_accepts {input : Input} {event : CommandExecutionEvent}
    {callbacks : List CommandExecutionCallbackId} {next : Next}
    (h : clientStep o s input (.submitLocked id) = some (u, .emit event callbacks next)) :
    s.accepting = true ∧ commandOf s id ∉ s.commandToExecution := by
  simp only [clientStep, submitLocked] at h
  split at h
  · cases h
  · rename_i haccepting
    split at h
    · cases h
    · rename_i hfree
      exact ⟨by simpa using haccepting, hfree⟩

theorem complete_face (o : CommandExecutionPipelineOptions) (s : State) (id : CommandExecutionId)
    (r : CommandResult) :
    commandOf (completeExecutionLocked o s id r).1 id = commandOf s id ∧
      ((completeExecutionLocked o s id r).1.heap id).record.commandId =
        (s.heap id).record.commandId ∧
      ∀ j, j ≠ id → (completeExecutionLocked o s id r).1.heap j = s.heap j := by
  simp only [commandOf, complete_heap, Function.update_self, true_and]
  intro j hj
  rw [Function.update_of_ne hj]

theorem complete_index (o : CommandExecutionPipelineOptions) (s : State) (id : CommandExecutionId)
    (r : CommandResult) (hc : (s.heap id).record.commandId = commandOf s id) :
    (completeExecutionLocked o s id r).1.commandToExecution =
      s.commandToExecution.erase (commandOf s id) := by
  simp [completeExecutionLocked, pruneHistoryLocked, recordTerminalMetricsLocked, State.note,
    State.modify, State.storeRecord, completeRecordLocked, hc]

theorem client_indexed {input : Input} (h : Indexed s) (hc : s.clients[i]? = some c)
    (hstep : clientStep o s input c = some (u, c')) :
    Indexed { u with clients := u.clients.set i c' } := by
  have hentering := fun j => tally_set entering hc c' j
  have hdrains := fun j => tally_set drains hc c' j
  have hheld : ∀ j, (entering c).count j ≤ tally entering s.clients j :=
    fun j => tally_mem_le (List.mem_of_getElem? hc)
  have hmine : ∀ j, (drains c).count j ≤ tally drains s.clients j :=
    fun j => tally_mem_le (List.mem_of_getElem? hc)
  -- the sections that only hand on what the call already has
  have hand : ∀ v : State, (∀ id, face (v.heap id) = face (s.heap id)) → v.queue = s.queue →
      v.executions = s.executions → v.commandToExecution = s.commandToExecution →
      v.accepting = s.accepting → v.nextExecutionId = s.nextExecutionId → v.clients = s.clients →
      v.workers = s.workers → entering c' ⊆ entering c → drains c' = drains c →
      (entering c').length ≤ 1 →
      Indexed { v with clients := v.clients.set i c' } := by
    intro v hface hqueue hexec hindex hacc hnext hclients hworkers hsub hsame hlen
    refine h.quiet hface hqueue hexec hindex hacc hnext ?_ ?_ ?_
    · intro j
      have hj := hentering j
      have hle : (entering c').count j ≤ (entering c).count j := by
        by_cases hm : j ∈ entering c'
        · have h1 := List.count_pos_iff.mpr (hsub hm)
          have h2 := List.count_le_length (a := j) (l := entering c')
          omega
        · rw [List.count_eq_zero.mpr hm]
          exact Nat.zero_le _
      show tally entering (v.clients.set i c') j ≤ _
      rw [hclients]
      omega
    · intro j
      have hj := hdrains j
      rw [hsame] at hj
      show tally drains (v.clients.set i c') j ≤ _
      rw [hclients]
      omega
    · intro j
      show tally serving v.workers j ≤ _
      rw [hworkers]
  have hm := client_move hstep
  cases hm with
  | @submit command =>
    refine h.issue (e := makeExecution s.nextExecutionId command) rfl rfl rfl rfl rfl rfl rfl ?_ ?_
      (fun j => rfl)
    · intro j
      have hj := hentering j
      simpa [entering] using hj
    · intro j
      have hj := hdrains j
      simpa [drains] using hj
  | pass =>
    exact hand s (fun _ => rfl) rfl rfl rfl rfl rfl rfl rfl (fun _ hx => hx) rfl (by simp [entering])
  | refuse entered =>
    rcases entered with rfl | rfl <;>
      exact hand s (fun _ => rfl) rfl rfl rfl rfl rfl rfl rfl (fun _ hx => hx) rfl
        (by simp [entering])
  | @accept id =>
    obtain ⟨hacc, hfree⟩ := submit_accepts hstep
    have hface : ∀ j, face ((acceptExecution s id).heap j) = face (s.heap j) := by
      intro j
      by_cases hj : j = id
      · subst j
        simp [acceptExecution, State.modify, face]
      · simp [acceptExecution, State.modify, Function.update_of_ne hj]
    have hindex : (acceptExecution s id).commandToExecution =
        s.commandToExecution.emplace (commandOf s id) id := by
      simp [acceptExecution, State.modify, h.commands id]
    refine h.accept hacc hfree ?_ hface rfl rfl hindex rfl rfl ?_ ?_ (fun j => rfl)
    · have hj := hheld id
      simp only [entering, List.count_singleton_self] at hj
      omega
    · exact hentering
    · exact hdrains
  | @reject id r =>
    refine hand _ ?_ rfl rfl rfl rfl rfl rfl rfl (List.nil_subset _) rfl (by simp [entering])
    intro j
    rw [reject_heap]
    by_cases hj : j = id
    · subst j
      simp [face]
    · rw [Function.update_of_ne hj]
  | answer asked =>
    rcases asked with ⟨id, rfl⟩ | ⟨thread, rfl⟩ | rfl <;>
      exact hand s (fun _ => rfl) rfl rfl rfl rfl rfl rfl rfl (List.nil_subset _) rfl
        (by simp [entering])
  | @cancel id r outstanding idle status =>
    obtain ⟨hself, hrecord, hheap⟩ := complete_face o { s with queue := s.queue.erase id } id r
    have hindex := complete_index o { s with queue := s.queue.erase id } id r (h.commands id)
    refine h.complete id (fun j hj he => h.injective outstanding hj he) hheap hself
      ?_ rfl hindex rfl rfl rfl ?_ ?_ (fun j => Nat.le_refl _) ?_
    · show ((completeExecutionLocked o { s with queue := s.queue.erase id } id r).1.heap id
        ).record.commandId = commandOf (completeExecutionLocked o _ id r).1 id
      rw [hrecord, hself]
      exact h.commands id
    · exact hentering
    · intro j
      have hj := hdrains j
      simp only [drains, completion, nextDrains, List.count_nil] at hj
      exact Nat.le_of_eq hj
    · by_contra hne
      have hserved := h.served id (Nat.pos_of_ne_zero hne)
      rw [idle] at hserved
      cases hserved.2
  | wait =>
    exact hand s (fun _ => rfl) rfl rfl rfl rfl rfl rfl rfl (List.nil_subset _) rfl
      (by simp [entering])
  | drain =>
    refine h.drain rfl rfl rfl rfl rfl rfl ?_ ?_ (fun j => rfl)
    · intro j
      have hj := hentering j
      simpa [entering] using hj
    · intro j
      have hj := hdrains j
      simpa [drains] using hj
  | @drainNext id ids r status =>
    obtain ⟨hself, hrecord, hheap⟩ := complete_face o s id r
    have hindex := complete_index o s id r (h.commands id)
    have hpos : 0 < tally drains s.clients id := by
      have hj := hmine id
      simp only [drains, List.count_cons_self] at hj
      omega
    have hempty := h.closed (h.draining id hpos)
    refine h.complete id (h.own id hpos) hheap hself ?_ rfl hindex rfl rfl ?_ ?_ ?_
      (fun j => Nat.le_refl _) ?_
    · show ((completeExecutionLocked o s id r).1.heap id).record.commandId =
        commandOf (completeExecutionLocked o s id r).1 id
      rw [hrecord, hself]
      exact h.commands id
    · rw [hempty]
      exact hempty
    · exact hentering
    · intro j
      have hj := hdrains j
      simp only [drains, completion, nextDrains] at hj
      show tally drains (s.clients.set i (completion o s id r (.draining ids))) j ≤ _
      have hle : ids.count j ≤ (id :: ids).count j := List.Sublist.count_le j (List.sublist_cons_self _ _)
      simp only [completion] at hj ⊢
      omega
    · have hle := h.once id
      unfold holders at hle
      show tally serving s.workers id = 0
      omega
  | @callbacksDone event next =>
    cases next <;>
      exact hand s (fun _ => rfl) rfl rfl rfl rfl rfl rfl rfl (List.nil_subset _) rfl
        (by simp [entering, Next.enter])
  | _ =>
    exact hand _ (fun _ => rfl) rfl rfl rfl rfl rfl rfl rfl (List.nil_subset _) rfl
      (by simp [entering])

theorem worker_indexed (h : Indexed s) (hw : s.workers[i]? = some w)
    (hm : WorkerMove o s w u w') : Indexed { u with workers := u.workers.set i w' } := by
  have hserving := fun j => tally_set serving hw w' j
  have hmine : ∀ j, (serving w).count j ≤ tally serving s.workers j :=
    fun j => tally_mem_le (List.mem_of_getElem? hw)
  have hand : ∀ v : State, v.heap = s.heap → v.queue = s.queue → v.executions = s.executions →
      v.commandToExecution = s.commandToExecution → v.accepting = s.accepting →
      v.nextExecutionId = s.nextExecutionId → v.clients = s.clients → v.workers = s.workers →
      serving w' = serving w → Indexed { v with workers := v.workers.set i w' } := by
    intro v hheap hqueue hexec hindex hacc hnext hclients hworkers hsame
    refine h.quiet (fun id => by rw [hheap]) hqueue hexec hindex hacc hnext ?_ ?_ ?_
    · exact fun j => Nat.le_of_eq (by rw [hclients])
    · exact fun j => Nat.le_of_eq (by rw [hclients])
    · intro j
      have hj := hserving j
      rw [hsame] at hj
      show tally serving (v.workers.set i w') j ≤ _
      rw [hworkers]
      omega
  cases hm with
  | @take id chosen =>
    refine h.take id (highest_priority_queued chosen) ?_ ?_ ?_ ?_ rfl rfl rfl rfl rfl rfl ?_
    · intro j hj
      simp [takeExecution, State.modify, State.storeRecord, Function.update_of_ne hj]
    · simp [commandOf, takeExecution, State.modify, State.storeRecord]
    · have hcommands := h.commands id
      simpa [commandOf, takeExecution, State.modify, State.storeRecord] using hcommands
    · simp [takeExecution, State.modify, State.storeRecord]
    · intro j
      have hj := hserving j
      simp only [serving, List.count_nil, Nat.add_zero] at hj
      exact hj
  | @complete id r =>
    obtain ⟨hself, hrecord, hheap⟩ := complete_face o s id r
    have hindex := complete_index o s id r (h.commands id)
    have hj := hserving id
    have hpos := hmine id
    have hle := h.once id
    simp only [serving, List.count_singleton_self, List.count_nil] at hj hpos
    unfold holders at hle
    obtain ⟨hexec, -⟩ := h.served id (by omega)
    have hqueue : id ∉ s.queue := by
      intro hq
      have hcount := List.count_pos_iff.mpr hq
      omega
    refine h.complete id (fun j hj he => h.injective hexec hj he) hheap hself ?_ rfl hindex
      rfl rfl ?_ (fun j => rfl) (fun j => Nat.le_refl _) ?_ ?_
    · show ((completeExecutionLocked o s id r).1.heap id).record.commandId =
        commandOf (completeExecutionLocked o s id r).1 id
      rw [hrecord, hself]
      exact h.commands id
    · exact (List.erase_of_not_mem hqueue).symm
    · intro j
      have hall := hserving j
      simp only [serving, List.count_nil] at hall
      show tally serving (s.workers.set i _) j ≤ _
      omega
    · show tally serving (s.workers.set i _) id = 0
      omega
  | _ => exact hand _ rfl rfl rfl rfl rfl rfl rfl rfl rfl

theorem step_indexed (s : State) (a : Action) (t : State) (h : Indexed s)
    (hstep : step o s a = some t) : Indexed t := by
  cases a with
  | call c =>
    cases hstep
    refine h.quiet (fun _ => rfl) rfl rfl rfl rfl rfl ?_ ?_ (fun j => Nat.le_refl _)
    · intro j
      cases c <;> simp [Call.enter, entering]
    · intro j
      cases c <;> simp [Call.enter, drains]
  | client i input =>
    simp only [step] at hstep
    split at hstep
    · cases hstep
    · rename_i c hc
      obtain ⟨⟨u, c'⟩, hu, rfl⟩ := Option.map_eq_some_iff.mp hstep
      exact client_indexed h hc hu
  | worker i input =>
    simp only [step] at hstep
    split at hstep
    · cases hstep
    · rename_i w hw
      obtain ⟨⟨u, w'⟩, hu, rfl⟩ := Option.map_eq_some_iff.mp hstep
      exact worker_indexed h hw (worker_move hu)

theorem initial_indexed (o : CommandExecutionPipelineOptions) : Indexed (initial o) := by
  have hserving : ∀ id, tally serving (initial o).workers id = 0 := by
    intro id
    rw [tally_eq_zero]
    intro w hw
    rw [List.eq_of_mem_replicate hw]
    exact List.not_mem_nil
  have hholders : ∀ id, holders (initial o) id = 0 := by
    intro id
    rw [holders, hserving]
    rfl
  refine ⟨fun id => rfl, ?_, ?_, ?_, ?_, List.nodup_nil, ?_, fun _ => rfl, ?_, ?_, ?_⟩
  · intro id
    rw [hholders]
    exact Nat.zero_le 1
  · intro id hid
    rw [hholders] at hid
    rcases hid with hid | hid
    · cases hid
    · cases hid
  · intro id hid
    cases hid
  · intro id hid
    cases hid
  · intro c id
    simp [initial]
  · intro id hid
    cases hid
  · intro id hid
    cases hid
  · intro id hid
    rw [hserving] at hid
    cases hid

end Indexed

end HumanoidCore.Proofs.PipelineTables
