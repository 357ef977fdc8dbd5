import HumanoidCore.Scheduler

namespace HumanoidCore.Proofs.SchedulerBooks
open Lib Scheduler

/-- The three containers that must stay in step: every record belongs to an
outstanding job or to exactly one place in the completion order. -/
structure Books (records : Map RuntimeJobId RuntimeJobSnapshot)
    (outstanding : Map RuntimeJobId RuntimeJobSequence) (order : List RuntimeJobId) : Prop where
  keys : ∀ id, id ∈ records ↔ id ∈ outstanding ∨ id ∈ order
  disjoint : ∀ id ∈ order, id ∉ outstanding
  nodup : order.Nodup

@[simp] theorem prune_nil (limit : Nat) (outstanding : Map RuntimeJobId RuntimeJobSequence)
    (records : Map RuntimeJobId RuntimeJobSnapshot) :
    pruneCompleted limit outstanding [] records = ([], records) := rfl

theorem prune_cons (limit : Nat) (outstanding : Map RuntimeJobId RuntimeJobSequence)
    (oldest : RuntimeJobId) (rest : List RuntimeJobId)
    (records : Map RuntimeJobId RuntimeJobSnapshot) :
    pruneCompleted limit outstanding (oldest :: rest) records =
      if 0 < limit ∧ limit < (oldest :: rest).length then
        pruneCompleted limit outstanding rest
          (if oldest ∈ outstanding then records else records.erase oldest)
      else (oldest :: rest, records) := rfl

theorem prune_length (limit : Nat) (outstanding : Map RuntimeJobId RuntimeJobSequence)
    (order : List RuntimeJobId) (records : Map RuntimeJobId RuntimeJobSnapshot) (hl : 0 < limit) :
    (pruneCompleted limit outstanding order records).1.length ≤ limit := by
  induction order generalizing records with
  | nil => simp
  | cons oldest rest ih =>
    rw [prune_cons]
    split
    · exact ih _
    · rename_i hn
      simp only [not_and, not_lt] at hn
      exact hn hl

/-- Pruning keeps the books: it drops an identifier from the order together
with its record, because no identifier in the order is outstanding. -/
theorem Books.prune {records : Map RuntimeJobId RuntimeJobSnapshot}
    {outstanding : Map RuntimeJobId RuntimeJobSequence} {order : List RuntimeJobId}
    (h : Books records outstanding order) (limit : Nat) :
    Books (pruneCompleted limit outstanding order records).2 outstanding
      (pruneCompleted limit outstanding order records).1 := by
  induction order generalizing records with
  | nil => simpa using h
  | cons oldest rest ih =>
    rw [prune_cons]
    split
    · have hout : oldest ∉ outstanding := h.disjoint oldest (by simp)
      obtain ⟨hfresh, hrest⟩ := List.nodup_cons.mp h.nodup
      rw [if_neg hout]
      apply ih
      refine ⟨?_, fun id hm => h.disjoint id (List.mem_cons_of_mem _ hm), hrest⟩
      intro id
      by_cases he : id = oldest
      · subst id
        simp [Map.mem_erase, hout, hfresh]
      · simp [Map.mem_erase, he, h.keys id]
    · exact h

/-- A record that survives pruning is the one that was there before. -/
theorem prune_lookup (limit : Nat) (outstanding : Map RuntimeJobId RuntimeJobSequence)
    (order : List RuntimeJobId) (records : Map RuntimeJobId RuntimeJobSnapshot) (id : RuntimeJobId)
    (record : RuntimeJobSnapshot)
    (h : (pruneCompleted limit outstanding order records).2.get? id = some record) :
    records.get? id = some record := by
  induction order generalizing records with
  | nil => simpa using h
  | cons oldest rest ih =>
    rw [prune_cons] at h
    split at h
    · have hr := ih _ h
      split at hr
      · exact hr
      · rw [Map.get?_erase] at hr
        split at hr
        · cases hr
        · exact hr
    · exact h

/-- The record of an outstanding job is never pruned. -/
theorem prune_lookup_outstanding (limit : Nat) (outstanding : Map RuntimeJobId RuntimeJobSequence)
    (order : List RuntimeJobId) (records : Map RuntimeJobId RuntimeJobSnapshot) (id : RuntimeJobId)
    (h : id ∈ outstanding) :
    (pruneCompleted limit outstanding order records).2.get? id = records.get? id := by
  induction order generalizing records with
  | nil => simp
  | cons oldest rest ih =>
    rw [prune_cons]
    split
    · rw [ih]
      split
      · rfl
      · rename_i hn
        have he : id ≠ oldest := by
          intro he
          exact hn (he ▸ h)
        rw [Map.get?_erase, if_neg he]
    · rfl

section Complete
variable {o : RuntimeSchedulerOptions} {s : State} {id : RuntimeJobId} {r : RuntimeJobResult}

/-- The whole effect of `CompleteRecordLocked` when its lookup succeeds. -/
theorem complete_record_eq {record : RuntimeJobSnapshot} (h : s.records.get? id = some record) :
    completeRecordLocked o s id r =
      { s with
        completedOrder := (pruneCompleted o.maximumCompletedHistorySize s.outstanding
          (s.completedOrder ++ [id])
          (s.records.insert id (record.report r))).1
        records := (pruneCompleted o.maximumCompletedHistorySize s.outstanding
          (s.completedOrder ++ [id])
          (s.records.insert id (record.report r))).2 } := by
  simp [completeRecordLocked, h, pruneCompletedHistoryLocked]

/-- `CompleteRecordLocked` changes the history and the records, or notes that its lookup failed. -/
theorem complete_changes : completeRecordLocked o s id r =
    { s with
      completedOrder := (completeRecordLocked o s id r).completedOrder
      records := (completeRecordLocked o s id r).records
      lookupFailed := (completeRecordLocked o s id r).lookupFailed } := by
  unfold completeRecordLocked
  split <;> rfl

@[simp] theorem complete_heap : (completeRecordLocked o s id r).heap = s.heap := by
  rw [complete_changes]

@[simp] theorem complete_queue : (completeRecordLocked o s id r).queue = s.queue := by
  rw [complete_changes]

@[simp] theorem complete_outstanding : (completeRecordLocked o s id r).outstanding = s.outstanding := by
  rw [complete_changes]

@[simp] theorem complete_nextSequence : (completeRecordLocked o s id r).nextSequence = s.nextSequence := by
  rw [complete_changes]

@[simp] theorem complete_runningCount : (completeRecordLocked o s id r).runningCount = s.runningCount := by
  rw [complete_changes]

@[simp] theorem complete_sequentialRunning : (completeRecordLocked o s id r).sequentialRunning = s.sequentialRunning := by
  rw [complete_changes]

@[simp] theorem complete_workers : (completeRecordLocked o s id r).workers = s.workers := by
  rw [complete_changes]

@[simp] theorem complete_clients : (completeRecordLocked o s id r).clients = s.clients := by
  rw [complete_changes]

@[simp] theorem complete_promises : (completeRecordLocked o s id r).promises = s.promises := by
  rw [complete_changes]

@[simp] theorem complete_statistics : (completeRecordLocked o s id r).statistics = s.statistics := by
  rw [complete_changes]

@[simp] theorem complete_accepting : (completeRecordLocked o s id r).accepting = s.accepting := by
  rw [complete_changes]

@[simp] theorem complete_shutdownComplete : (completeRecordLocked o s id r).shutdownComplete = s.shutdownComplete := by
  rw [complete_changes]

@[simp] theorem complete_shutdownInProgress : (completeRecordLocked o s id r).shutdownInProgress = s.shutdownInProgress := by
  rw [complete_changes]

/-- Completing a job that has left the outstanding jobs moves its identifier
to the completion order. -/
theorem Books.complete {records : Map RuntimeJobId RuntimeJobSnapshot}
    {outstanding : Map RuntimeJobId RuntimeJobSequence} {order : List RuntimeJobId}
    (h : Books records outstanding order) (hid : id ∈ outstanding) (limit : Nat)
    (record : RuntimeJobSnapshot) :
    Books (pruneCompleted limit (outstanding.erase id) (order ++ [id]) (records.insert id record)).2
      (outstanding.erase id)
      (pruneCompleted limit (outstanding.erase id) (order ++ [id]) (records.insert id record)).1 := by
  have hfresh : id ∉ order := fun hm => h.disjoint id hm hid
  apply Books.prune
  refine ⟨?_, ?_, ?_⟩
  · intro k
    by_cases he : k = id
    · subst k
      simp
    · simp [Map.mem_insert, Map.mem_erase, he, h.keys k]
  · intro k hk
    rcases List.mem_append.mp hk with hk | hk
    · simp [Map.mem_erase, h.disjoint k hk]
    · simp [Map.mem_erase, List.mem_singleton.mp hk]
  · refine List.nodup_append.mpr ⟨h.nodup, by simp, ?_⟩
    intro a ha b hb hab
    rw [List.mem_singleton.mp hb] at hab
    exact hfresh (hab ▸ ha)

end Complete

section Update
variable {s : State} {id : RuntimeJobId} {f : RuntimeJobSnapshot → RuntimeJobSnapshot}

theorem update_changes : s.updateRecord id f =
    { s with
      records := (s.updateRecord id f).records
      lookupFailed := (s.updateRecord id f).lookupFailed } := by
  unfold State.updateRecord
  split <;> rfl

@[simp] theorem update_heap : (s.updateRecord id f).heap = s.heap := by
  rw [update_changes]

@[simp] theorem update_queue : (s.updateRecord id f).queue = s.queue := by
  rw [update_changes]

@[simp] theorem update_outstanding : (s.updateRecord id f).outstanding = s.outstanding := by
  rw [update_changes]

@[simp] theorem update_nextSequence : (s.updateRecord id f).nextSequence = s.nextSequence := by
  rw [update_changes]

@[simp] theorem update_runningCount : (s.updateRecord id f).runningCount = s.runningCount := by
  rw [update_changes]

@[simp] theorem update_sequentialRunning : (s.updateRecord id f).sequentialRunning = s.sequentialRunning := by
  rw [update_changes]

@[simp] theorem update_workers : (s.updateRecord id f).workers = s.workers := by
  rw [update_changes]

@[simp] theorem update_clients : (s.updateRecord id f).clients = s.clients := by
  rw [update_changes]

@[simp] theorem update_promises : (s.updateRecord id f).promises = s.promises := by
  rw [update_changes]

@[simp] theorem update_statistics : (s.updateRecord id f).statistics = s.statistics := by
  rw [update_changes]

@[simp] theorem update_accepting : (s.updateRecord id f).accepting = s.accepting := by
  rw [update_changes]

@[simp] theorem update_shutdownComplete : (s.updateRecord id f).shutdownComplete = s.shutdownComplete := by
  rw [update_changes]

@[simp] theorem update_shutdownInProgress : (s.updateRecord id f).shutdownInProgress = s.shutdownInProgress := by
  rw [update_changes]

@[simp] theorem update_completedOrder : (s.updateRecord id f).completedOrder = s.completedOrder := by
  rw [update_changes]

end Update

/-- The scan only ever keeps an entry of the queue that may start. -/
theorem fold_better_some {s : State} {entries : List RuntimeJobSequence}
    {best : Option RuntimeJobSequence} {q : RuntimeJobSequence}
    (h : entries.foldl (betterJob s) best = some q) :
    best = some q ∨ (q ∈ entries ∧ canStartLocked s q = true) := by
  induction entries generalizing best with
  | nil => exact .inl h
  | cons e entries ih =>
    rcases ih h with hb | ⟨hm, hc⟩
    · unfold betterJob at hb
      split at hb
      · exact .inl hb
      · rename_i hc
        simp only [Bool.not_eq_true, Bool.not_eq_false'] at hc
        cases best with
        | none =>
          simp only [Option.some.injEq] at hb
          subst e
          exact .inr ⟨by simp, hc⟩
        | some b =>
          simp only at hb
          split at hb
          · simp only [Option.some.injEq] at hb
            subst e
            exact .inr ⟨by simp, hc⟩
          · exact .inl hb
    · exact .inr ⟨List.mem_cons_of_mem _ hm, hc⟩

theorem find_next_some {s : State} {q : RuntimeJobSequence} (h : findNextJobLocked s = some q) :
    q ∈ s.queue ∧ canStartLocked s q = true := by
  rcases fold_better_some h with h | h
  · cases h
  · exact h

end HumanoidCore.Proofs.SchedulerBooks
