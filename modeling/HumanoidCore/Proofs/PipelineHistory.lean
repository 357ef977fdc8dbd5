import HumanoidCore.Proofs.PipelineOnce
import HumanoidCore.Proofs.PipelineTables

namespace HumanoidCore.Proofs.PipelineHistory
open Lib Core Pipeline PipelineMoves PipelineLives PipelineOnce PipelineTables

/-- What is left of `order` has lost its oldest entries first: an entry that stays, although
a younger one is gone, is still outstanding. -/
def OldestFirst (executions order kept : List CommandExecutionId) : Prop :=
  ∀ y x, [y, x].Sublist order → x ∉ kept → y ∈ kept → y ∈ executions

section Prune
variable {o : CommandExecutionPipelineOptions} {executions order : List CommandExecutionId}
  {records : Map CommandExecutionId CommandExecutionRecord}

theorem oldest_first_refl : OldestFirst executions order order := by
  intro y x hsub hx
  exact absurd (hsub.subset (by simp)) hx

/-- What stands before an entry that occurs once. -/
theorem before_of_sublist {before after : List CommandExecutionId} {y x : CommandExecutionId}
    (hnodup : (before ++ x :: after).Nodup) (h : [y, x].Sublist (before ++ x :: after)) :
    y ∈ before := by
  obtain ⟨hbefore, hafter, hdisjoint⟩ := List.nodup_append.mp hnodup
  have hx : x ∉ after := (List.nodup_cons.mp hafter).1
  obtain ⟨l₁, l₂, he, h₁, h₂⟩ := List.sublist_append_iff.mp h
  cases l₁ with
  | nil =>
    simp only [List.nil_append] at he
    rw [← he] at h₂
    cases h₂ with
    | cons _ hs => exact absurd (hs.subset (by simp)) hx
    | cons_cons _ hs => exact absurd (hs.subset (by simp)) hx
  | cons z l₁ =>
    simp only [List.cons_append, List.cons.injEq] at he
    rw [he.1]
    exact h₁.subset (by simp)

theorem keys_length (hsame : ∀ id, id ∈ records ↔ id ∈ order) (hnodup : order.Nodup) :
    records.keys.length = order.length := by
  have hperm : records.keys.Perm order := by
    rw [List.perm_ext_iff_of_nodup records.keys_nodup hnodup]
    intro id
    rw [← hsame id]
    exact AList.mem_keys.symm
  exact hperm.length_eq

/-- What the pruning loop leaves of the history. -/
structure Pruned (o : CommandExecutionPipelineOptions) (executions order : List CommandExecutionId)
    (records : Map CommandExecutionId CommandExecutionRecord) (kept : List CommandExecutionId)
    (records' : Map CommandExecutionId CommandExecutionRecord) : Prop where
  same : ∀ id, id ∈ records' ↔ id ∈ kept
  sublist : kept.Sublist order
  active : ∀ id ∈ order, id ∈ executions → id ∈ kept
  bound : (kept.filter (fun id => id ∉ executions)).length ≤ o.maximumHistorySize
  values : ∀ id ∈ kept, records'.get? id = records.get? id
  oldest : OldestFirst executions order kept

theorem pruned_refl (hsame : ∀ id, id ∈ records ↔ id ∈ order)
    (hbound : (order.filter (fun id => id ∉ executions)).length ≤ o.maximumHistorySize) :
    Pruned o executions order records order records :=
  ⟨hsame, List.Sublist.refl _, fun _ hid _ => hid, hbound, fun _ _ => rfl, oldest_first_refl⟩

/-- One turn of the loop: the first entry that is not outstanding goes. -/
theorem pruned_cons {candidate : CommandExecutionId} {kept : List CommandExecutionId}
    {records' : Map CommandExecutionId CommandExecutionRecord} (hnodup : order.Nodup)
    (hfind : order.find? (fun id => id ∉ executions) = some candidate)
    (h : Pruned o executions (order.erase candidate) (records.erase candidate) kept records') :
    Pruned o executions order records kept records' := by
  obtain ⟨hterminal, before, after, horder, hbefore⟩ := List.find?_eq_some_iff_append.mp hfind
  have hgone : candidate ∉ kept := by
    intro hm
    exact (hnodup.mem_erase_iff.mp (h.sublist.subset hm)).1 rfl
  have hne : ∀ id ∈ kept, id ≠ candidate := by
    rintro id hid rfl
    exact hgone hid
  refine ⟨h.same, h.sublist.trans List.erase_sublist, ?_, h.bound, ?_, ?_⟩
  · intro id hid hexec
    refine h.active id (hnodup.mem_erase_iff.mpr ⟨?_, hid⟩) hexec
    rintro rfl
    simp [hexec] at hterminal
  · intro id hid
    rw [h.values id hid, Map.get?_erase, if_neg (hne id hid)]
  · intro y x hsub hx hy
    by_cases hxc : x = candidate
    · subst x
      rw [horder] at hsub hnodup
      have hyb := before_of_sublist hnodup hsub
      simpa using hbefore y hyb
    · refine h.oldest y x ?_ hx hy
      rw [hnodup.erase_eq_filter]
      have hfilter := hsub.filter (fun id => id != candidate)
      simpa [hxc, hne y hy] using hfilter

theorem prune_pruned (o : CommandExecutionPipelineOptions) (executions : List CommandExecutionId)
    (fuel : Nat) (hsame : ∀ id, id ∈ records ↔ id ∈ order) (hnodup : order.Nodup)
    (hfuel : order.length ≤ fuel) :
    Pruned o executions order records (pruneHistory o executions fuel order records).1
      (pruneHistory o executions fuel order records).2 := by
  induction fuel generalizing order records with
  | zero =>
    have hnil := List.length_eq_zero_iff.mp (Nat.le_zero.mp hfuel)
    subst hnil
    exact pruned_refl hsame (Nat.zero_le _)
  | succ fuel ih =>
    simp only [pruneHistory]
    split
    · split
      · rename_i hfind
        refine pruned_refl hsame ?_
        rw [List.find?_eq_none] at hfind
        rw [List.filter_eq_nil_iff.mpr hfind]
        exact Nat.zero_le _
      · rename_i candidate hfind
        have hmem := List.mem_of_find?_eq_some hfind
        refine pruned_cons hnodup hfind (ih ?_ (hnodup.erase _) ?_)
        · intro id
          rw [Map.mem_erase, hnodup.mem_erase_iff, hsame id]
        · rw [List.length_erase_of_mem hmem]
          omega
    · rename_i hstop
      refine pruned_refl hsame ?_
      rw [keys_length hsame hnodup, not_and_or, not_not] at hstop
      have hle := List.length_filter_le (fun id => decide (id ∉ executions)) order
      rcases hstop with hsmall | rfl
      · omega
      · exact Nat.zero_le _

end Prune

section Listed
variable {o : CommandExecutionPipelineOptions} {executions order : List CommandExecutionId}
  {records : Map CommandExecutionId CommandExecutionRecord} {next : CommandExecutionId}
  {id : CommandExecutionId} {record : CommandExecutionRecord}

/-- The records are those of the history, and the outstanding executions are among them. -/
structure Listed (records : Map CommandExecutionId CommandExecutionRecord)
    (order executions : List CommandExecutionId) (next : CommandExecutionId) : Prop where
  same : ∀ id, id ∈ records ↔ id ∈ order
  nodup : order.Nodup
  issued : ∀ id ∈ order, id < next
  active : ∀ id ∈ executions, ∃ record, records.get? id = some record ∧
    record.status.isTerminal = false
  named : ∀ id record, records.get? id = some record → record.executionId = id

theorem named_insert (h : Listed records order executions next) (hrecord : record.executionId = id)
    (j : CommandExecutionId) (record' : CommandExecutionRecord)
    (hj : (records.insert id record).get? j = some record') : record'.executionId = j := by
  rw [Map.get?_insert] at hj
  split at hj
  · rename_i he
    cases hj
    exact hrecord.trans he.symm
  · exact h.named j record' hj

theorem Listed.mem_order (h : Listed records order executions next) (hid : id ∈ executions) :
    id ∈ order := by
  obtain ⟨record, hrecord, -⟩ := h.active id hid
  exact (h.same id).mp (Map.mem_of_get? hrecord)

/-- The record of an execution is written while it is outstanding. -/
theorem Listed.start (h : Listed records order executions next) (hid : id ∈ executions)
    (hrecord : record.executionId = id) (hstatus : record.status.isTerminal = false) :
    Listed (records.insert id record) order executions next := by
  refine ⟨?_, h.nodup, h.issued, ?_, named_insert h hrecord⟩
  · intro j
    rw [Map.mem_insert, h.same j]
    constructor
    · rintro (rfl | hj)
      · exact h.mem_order hid
      · exact hj
    · exact .inr
  · intro j hj
    rw [Map.get?_insert]
    split
    · exact ⟨record, rfl, hstatus⟩
    · exact h.active j hj

/-- The record of an execution gets its final state, and the execution is not outstanding
any more. -/
theorem Listed.finish (h : Listed records order executions next)
    (record : CommandExecutionRecord) (hnodup : executions.Nodup)
    (hid : id ∈ order) (hrecord : record.executionId = id) :
    Listed (records.insert id record) order (executions.erase id) next := by
  refine ⟨?_, h.nodup, h.issued, ?_, named_insert h hrecord⟩
  · intro j
    rw [Map.mem_insert, h.same j]
    constructor
    · rintro (rfl | hj)
      · exact hid
      · exact hj
    · exact .inr
  · intro j hj
    obtain ⟨hne, hj⟩ := hnodup.mem_erase_iff.mp hj
    rw [Map.get?_insert, if_neg hne]
    exact h.active j hj

/-- A record that is new to the history. -/
theorem Listed.append (h : Listed records order executions next)
    (record : CommandExecutionRecord) (hid : id ∉ order)
    (hissued : id < next) (hrecord : record.executionId = id) :
    Listed (records.insert id record) (order ++ [id]) executions next := by
  refine ⟨?_, ?_, ?_, ?_, named_insert h hrecord⟩
  · intro j
    rw [Map.mem_insert, h.same j, List.mem_append, List.mem_singleton]
    exact or_comm
  · rw [List.nodup_append]
    refine ⟨h.nodup, List.nodup_singleton _, ?_⟩
    intro x hx y hy
    rw [List.mem_singleton.mp hy]
    exact fun he => hid (he ▸ hx)
  · intro j hj
    rcases List.mem_append.mp hj with hj | hj
    · exact h.issued j hj
    · rw [List.mem_singleton.mp hj]
      exact hissued
  · intro j hj
    have hne : j ≠ id := by
      rintro rfl
      exact hid (h.mem_order hj)
    rw [Map.get?_insert, if_neg hne]
    exact h.active j hj

theorem Listed.prune (h : Listed records order executions next) {kept : List CommandExecutionId}
    {records' : Map CommandExecutionId CommandExecutionRecord}
    (hp : Pruned o executions order records kept records') :
    Listed records' kept executions next := by
  refine ⟨hp.same, h.nodup.sublist hp.sublist, ?_, ?_, ?_⟩
  · exact fun j hj => h.issued j (hp.sublist.subset hj)
  · intro j hj
    rw [hp.values j (hp.active j (h.mem_order hj) hj)]
    exact h.active j hj
  · intro j record hj
    have hkept := (hp.same j).mp (Map.mem_of_get? hj)
    rw [hp.values j hkept] at hj
    exact h.named j record hj

end Listed

/-- The history of a state in which no section is in progress. -/
structure Kept (o : CommandExecutionPipelineOptions) (s : State) : Prop where
  listed : Listed s.records s.historyOrder s.executions s.nextExecutionId
  entered : ∀ id ∈ s.historyOrder, tally entering s.clients id = 0
  bound : (s.historyOrder.filter (fun id => id ∉ s.executions)).length ≤ o.maximumHistorySize

/-- What one section does to the history: it may add the execution of an undecided `Submit`
at the end, and it takes entries out oldest first. -/
def Turn (s t : State) : Prop :=
  ∃ new, (∀ id ∈ new, 0 < tally entering s.clients id) ∧
    t.historyOrder.Sublist (s.historyOrder ++ new) ∧
    OldestFirst t.executions (s.historyOrder ++ new) t.historyOrder

section Kept
variable {o : CommandExecutionPipelineOptions} {s t u : State} {c c' : Client} {w w' : Worker}
  {i : Nat} {id : CommandExecutionId} {r : CommandResult}

theorem turn_refl (h : t.historyOrder = s.historyOrder) : Turn s t := by
  refine ⟨[], ?_, ?_, ?_⟩
  · intro id hid
    cases hid
  · rw [h, List.append_nil]
  · rw [h, List.append_nil]
    exact oldest_first_refl

/-- A section that leaves the history alone. -/
theorem Kept.still (h : Kept o s) (hrecords : t.records = s.records)
    (horder : t.historyOrder = s.historyOrder) (hexecutions : t.executions = s.executions)
    (hnext : s.nextExecutionId ≤ t.nextExecutionId)
    (hentering : ∀ j ∈ s.historyOrder, tally entering t.clients j ≤ tally entering s.clients j) :
    Kept o t ∧ Turn s t := by
  refine ⟨⟨?_, ?_, ?_⟩, turn_refl horder⟩
  · rw [hrecords, horder, hexecutions]
    exact { h.listed with issued := fun j hj => Nat.lt_of_lt_of_le (h.listed.issued j hj) hnext }
  · intro j hj
    rw [horder] at hj
    have hle := hentering j hj
    have hzero := h.entered j hj
    omega
  · rw [horder, hexecutions]
    exact h.bound

/-- A section that ends with the pruning loop. -/
theorem Kept.pruned {order executions : List CommandExecutionId} (new : List CommandExecutionId)
    {records : Map CommandExecutionId CommandExecutionRecord}
    (hlisted : Listed records order executions t.nextExecutionId)
    (horder : order = s.historyOrder ++ new) (hnew : ∀ j ∈ new, 0 < tally entering s.clients j)
    (hexecutions : t.executions = executions)
    (hpruned : (t.historyOrder, t.records) =
      pruneHistory o executions order.length order records)
    (hentering : ∀ j ∈ order, tally entering t.clients j = 0) : Kept o t ∧ Turn s t := by
  have hp := prune_pruned o executions order.length hlisted.same
    hlisted.nodup (Nat.le_refl _)
  rw [← hpruned] at hp
  refine ⟨⟨?_, ?_, ?_⟩, new, hnew, ?_, ?_⟩
  · rw [hexecutions]
    exact hlisted.prune hp
  · exact fun j hj => hentering j (hp.sublist.subset hj)
  · rw [hexecutions]
    exact hp.bound
  · rw [← horder]
    exact hp.sublist
  · rw [← horder, hexecutions]
    exact hp.oldest

theorem complete_pruned (o : CommandExecutionPipelineOptions) (s : State) (id : CommandExecutionId)
    (r : CommandResult) :
    ((completeExecutionLocked o s id r).1.historyOrder,
      (completeExecutionLocked o s id r).1.records) =
      pruneHistory o (s.executions.erase id) s.historyOrder.length s.historyOrder
        (s.records.insert id { (s.heap id).record with status := r.status, result := r }) := by
  simp [completeExecutionLocked, pruneHistoryLocked, recordTerminalMetricsLocked, State.note,
    State.modify, State.storeRecord, completeRecordLocked]

/-- An execution of the history is completed. -/
theorem Kept.complete {clients : List Client} {workers : List Worker} (h : Kept o s)
    (hnodup : s.executions.Nodup) (hnamed : (s.heap id).record.executionId = id)
    (hid : id ∈ s.historyOrder)
    (hentering : ∀ j ∈ s.historyOrder, tally entering clients j = 0) :
    Kept o { (completeExecutionLocked o s id r).1 with clients := clients, workers := workers } ∧
      Turn s { (completeExecutionLocked o s id r).1 with clients := clients, workers := workers } := by
  have hlisted := h.listed.finish { (s.heap id).record with status := r.status, result := r }
    hnodup hid hnamed
  exact Kept.pruned [] hlisted (List.append_nil _).symm (fun j hj => by cases hj) rfl
    (complete_pruned o s id r) hentering

theorem accept_record (s : State) (id : CommandExecutionId) :
    ((acceptExecution s id).heap id).record.executionId = (s.heap id).record.executionId ∧
      ((acceptExecution s id).heap id).record.status = .queued := by
  simp [acceptExecution, State.modify]

theorem emplace_insert {records : Map CommandExecutionId CommandExecutionRecord}
    (record record' : CommandExecutionRecord) (h : id ∉ records) :
    (records.emplace id record).insert id record' = records.insert id record' := by
  unfold Map.emplace
  rw [if_neg h]
  exact AList.insert_insert _

theorem reject_pruned (o : CommandExecutionPipelineOptions) (s : State) (id : CommandExecutionId)
    (r : CommandResult) (h : id ∉ s.records) :
    ((completeRejectedExecution o s id r).1.historyOrder,
      (completeRejectedExecution o s id r).1.records) =
      pruneHistory o s.executions (s.historyOrder ++ [id]).length (s.historyOrder ++ [id])
        (s.records.insert id { (s.heap id).record with status := r.status, result := r }) := by
  have hinsert := emplace_insert (s.heap id).record
    { (s.heap id).record with status := r.status, result := r } h
  simp [completeRejectedExecution, pruneHistoryLocked, recordTerminalMetricsLocked, State.note,
    State.modify, State.storeRecord, completeRecordLocked, hinsert]

/-- The executions that a `Shutdown` has swapped out are still outstanding. -/
def Waiting (s : State) : Prop := ∀ id, 0 < tally drains s.clients id → id ∈ s.executions

theorem client_kept {input : Input} (h : Kept o s) (hi : Indexed s) (hf : Faithful s)
    (hwaiting : Waiting s) (hc : s.clients[i]? = some c)
    (hstep : clientStep o s input c = some (u, c')) :
    Kept o { u with clients := u.clients.set i c' } ∧
      Turn s { u with clients := u.clients.set i c' } := by
  have hentering := fun j => tally_set entering hc c' j
  have hheld : ∀ j, (entering c).count j ≤ tally entering s.clients j :=
    fun j => tally_mem_le (List.mem_of_getElem? hc)
  have hstill : ∀ v : State, v.records = s.records → v.historyOrder = s.historyOrder →
      v.executions = s.executions → v.nextExecutionId = s.nextExecutionId →
      v.clients = s.clients → (∀ j, (entering c').count j ≤ (entering c).count j) →
      Kept o { v with clients := v.clients.set i c' } ∧
        Turn s { v with clients := v.clients.set i c' } := by
    intro v hrecords horder hexec hnext hclients hle
    refine h.still hrecords horder hexec (Nat.le_of_eq hnext.symm) ?_
    intro j _
    have hj := hentering j
    have hj' := hle j
    show tally entering (v.clients.set i c') j ≤ _
    rw [hclients]
    omega
  have hmove := client_move hstep
  cases hmove with
  | @submit command =>
    refine h.still rfl rfl rfl (Nat.le_succ _) ?_
    intro j hj
    have hne : j ≠ s.nextExecutionId := Nat.ne_of_lt (h.listed.issued j hj)
    have hset := hentering j
    simp only [entering, List.count_nil, List.count_singleton, beq_iff_eq, Ne.symm hne,
      if_false] at hset
    exact Nat.le_of_eq hset
  | refuse entered =>
    rcases entered with rfl | rfl <;>
      exact hstill s rfl rfl rfl rfl rfl (fun j => Nat.le_refl _)
  | @accept id =>
    have hpos := hheld id
    have honce := hi.once id
    simp only [entering, List.count_singleton_self] at hpos
    unfold holders at honce
    have hnew : id ∉ s.historyOrder := by
      intro hm
      have hzero := h.entered id hm
      omega
    have hrecord := accept_record s id
    have hlisted := h.listed.append ((acceptExecution s id).heap id).record hnew
      (hi.issued id (.inl (by unfold holders; omega))) (hrecord.1.trans (hf.named id))
    have hexec : id ∉ s.executions := hi.fresh id (by omega)
    have hrecords : (acceptExecution s id).records =
        s.records.insert id ((acceptExecution s id).heap id).record := by
      have hfree : id ∉ s.records := fun hm => hnew ((h.listed.same id).mp hm)
      simp [acceptExecution, Map.emplace, hfree, State.modify]
    refine ⟨⟨?_, ?_, ?_⟩, ?_⟩
    · show Listed (acceptExecution s id).records (s.historyOrder ++ [id]) (s.executions ++ [id]) _
      rw [hrecords]
      refine { hlisted with active := ?_ }
      intro j hj
      rcases List.mem_append.mp hj with hj | hj
      · exact hlisted.active j hj
      · rw [List.mem_singleton.mp hj, Map.get?_insert, if_pos rfl]
        exact ⟨_, rfl, by rw [hrecord.2]; rfl⟩
    · intro j hj
      have hset := hentering j
      simp only [entering, List.count_nil, Nat.add_zero] at hset
      show tally entering (s.clients.set i _) j = 0
      rcases List.mem_append.mp hj with hj | hj
      · have hzero := h.entered j hj
        omega
      · rw [List.mem_singleton.mp hj, List.count_singleton_self] at hset
        rw [List.mem_singleton.mp hj]
        omega
    · show ((s.historyOrder ++ [id]).filter (fun j => j ∉ s.executions ++ [id])).length ≤ _
      rw [List.filter_append]
      have hlast : [id].filter (fun j => decide (j ∉ s.executions ++ [id])) = [] := by simp
      rw [hlast, List.append_nil]
      refine Nat.le_trans (List.Sublist.length_le ?_) h.bound
      refine List.monotone_filter_right _ ?_
      intro j hj
      simp only [List.mem_append, not_or, decide_eq_true_eq] at hj ⊢
      exact hj.1
    · refine ⟨[id], ?_, List.Sublist.refl _, oldest_first_refl⟩
      intro j hj
      rw [List.mem_singleton.mp hj]
      omega
  | @reject id r =>
    have hpos := hheld id
    have honce := hi.once id
    simp only [entering, List.count_singleton_self] at hpos
    unfold holders at honce
    have hnew : id ∉ s.historyOrder := by
      intro hm
      have hzero := h.entered id hm
      omega
    have hlisted := h.listed.append
      { (s.heap id).record with status := r.status, result := r } hnew
      (hi.issued id (.inl (by unfold holders; omega))) (hf.named id)
    refine Kept.pruned [id] hlisted rfl ?_ rfl
      (reject_pruned o s id r (fun hm => hnew ((h.listed.same id).mp hm))) ?_
    · intro j hj
      rw [List.mem_singleton.mp hj]
      omega
    · intro j hj
      have hset := hentering j
      simp only [entering, List.count_nil, Nat.add_zero] at hset
      show tally entering (s.clients.set i _) j = 0
      rcases List.mem_append.mp hj with hj | hj
      · have hzero := h.entered j hj
        omega
      · rw [List.mem_singleton.mp hj, List.count_singleton_self] at hset
        rw [List.mem_singleton.mp hj]
        omega
  | answer asked =>
    rcases asked with ⟨id, rfl⟩ | ⟨thread, rfl⟩ | rfl <;>
      exact hstill s rfl rfl rfl rfl rfl (fun j => Nat.le_refl _)
  | @cancel id r outstanding idle status =>
    have hqueue : Kept o { s with queue := s.queue.erase id } := ⟨h.listed, h.entered, h.bound⟩
    refine hqueue.complete hi.nodup (hf.named id) (h.listed.mem_order outstanding) ?_
    intro j hj
    have hset := hentering j
    have hzero := h.entered j hj
    simp only [entering, List.count_nil, Nat.add_zero] at hset
    exact hset.trans hzero
  | @drainNext id ids r status =>
    have hpos : (drains (.draining (id :: ids))).count id ≤ tally drains s.clients id :=
      tally_mem_le (List.mem_of_getElem? hc)
    simp only [drains, List.count_cons_self] at hpos
    refine h.complete hi.nodup (hf.named id) (h.listed.mem_order (hwaiting id (by omega))) ?_
    intro j hj
    have hset := hentering j
    have hzero := h.entered j hj
    simp only [entering, List.count_nil, Nat.add_zero] at hset
    exact hset.trans hzero
  | @callbacksDone event next =>
    cases next <;> exact hstill s rfl rfl rfl rfl rfl (fun j => Nat.le_refl _)
  | finish =>
    refine Kept.pruned [] h.listed (List.append_nil _).symm (fun j hj => by cases hj) rfl
      rfl ?_
    intro j hj
    have hzero := h.entered j hj
    have hset := hentering j
    simp only [entering, List.count_nil, Nat.add_zero] at hset
    exact hset.trans hzero
  | _ => exact hstill _ rfl rfl rfl rfl rfl (fun j => Nat.le_refl _)

theorem take_records (s : State) (id : CommandExecutionId) :
    (takeExecution s id).records =
      s.records.insert id ((takeExecution s id).heap id).record ∧
      ((takeExecution s id).heap id).record.executionId = (s.heap id).record.executionId ∧
      ((takeExecution s id).heap id).record.status = .running := by
  simp [takeExecution, State.modify, State.storeRecord]

theorem worker_kept (h : Kept o s) (hi : Indexed s) (hf : Faithful s)
    (hw : s.workers[i]? = some w) (hm : WorkerMove o s w u w') :
    Kept o { u with workers := u.workers.set i w' } ∧
      Turn s { u with workers := u.workers.set i w' } := by
  cases hm with
  | @take id chosen =>
    obtain ⟨hrecords, hid, hstatus⟩ := take_records s id
    have hexec := hi.queued id (highest_priority_queued chosen)
    refine ⟨⟨?_, h.entered, h.bound⟩, turn_refl rfl⟩
    show Listed (takeExecution s id).records s.historyOrder s.executions _
    rw [hrecords]
    exact h.listed.start hexec (hid.trans (hf.named id)) (by rw [hstatus]; rfl)
  | @complete id r =>
    have hpos : (serving (.completing id r)).count id ≤ tally serving s.workers id :=
      tally_mem_le (List.mem_of_getElem? hw)
    simp only [serving, List.count_singleton_self] at hpos
    have hexec := (hi.served id (by omega)).1
    exact h.complete hi.nodup (hf.named id) (h.listed.mem_order hexec) h.entered
  | _ => exact h.still rfl rfl rfl (Nat.le_refl _) (fun j _ => Nat.le_refl _)

theorem step_kept {a : Action} (h : Kept o s) (hi : Indexed s) (hf : Faithful s)
    (hwaiting : Waiting s) (hstep : step o s a = some t) : Kept o t ∧ Turn s t := by
  cases a with
  | call c =>
    cases hstep
    refine h.still rfl rfl rfl (Nat.le_refl _) ?_
    intro j _
    cases c <;> simp [Call.enter, entering]
  | client i input =>
    simp only [step] at hstep
    split at hstep
    · cases hstep
    · rename_i c hc
      obtain ⟨⟨u, c'⟩, hu, rfl⟩ := Option.map_eq_some_iff.mp hstep
      exact client_kept h hi hf hwaiting hc hu
  | worker i input =>
    simp only [step] at hstep
    split at hstep
    · cases hstep
    · rename_i w hw
      obtain ⟨⟨u, w'⟩, hu, rfl⟩ := Option.map_eq_some_iff.mp hstep
      exact worker_kept h hi hf hw (worker_move hu)

/-- A `Submit` call has got this execution and has decided about it. -/
def Decided (s : State) (id : CommandExecutionId) : Prop :=
  id < s.nextExecutionId ∧ tally entering s.clients id = 0

theorem client_decided {input : Input} (h : Decided s id) (hc : s.clients[i]? = some c)
    (hstep : clientStep o s input c = some (u, c')) :
    Decided { u with clients := u.clients.set i c' } id := by
  obtain ⟨hlt, hzero⟩ := h
  have hset := tally_set entering hc c' id
  have hmine : (entering c).count id = 0 :=
    Nat.le_zero.mp (hzero ▸ tally_mem_le (List.mem_of_getElem? hc))
  rw [hzero, hmine] at hset
  have hand : ∀ v : State, s.nextExecutionId = v.nextExecutionId → v.clients = s.clients →
      (entering c').count id = 0 → Decided { v with clients := v.clients.set i c' } id := by
    intro v hnext hclients hnone
    refine ⟨?_, ?_⟩
    · show id < v.nextExecutionId
      rw [← hnext]
      exact hlt
    · show tally entering (v.clients.set i c') id = 0
      rw [hclients]
      omega
  have hmove := client_move hstep
  cases hmove with
  | submit =>
    refine ⟨Nat.lt_succ_of_lt hlt, ?_⟩
    have hne : s.nextExecutionId ≠ id := (Nat.ne_of_lt hlt).symm
    have hnone : (entering (.validate s.nextExecutionId)).count id = 0 := by
      simp [entering, hne]
    show tally entering (s.clients.set i _) id = 0
    omega
  | pass => exact hand s rfl rfl hmine
  | refuse entered =>
    rcases entered with rfl | rfl <;> exact hand s rfl rfl hmine
  | answer asked =>
    rcases asked with ⟨id, rfl⟩ | ⟨thread, rfl⟩ | rfl <;> exact hand s rfl rfl rfl
  | @callbacksDone event next => cases next <;> exact hand s rfl rfl rfl
  | _ => exact hand _ rfl rfl rfl

theorem step_decided {a : Action} (h : Decided s id) (hstep : step o s a = some t) :
    Decided t id := by
  cases a with
  | call c =>
    cases hstep
    refine ⟨h.1, ?_⟩
    have hzero := h.2
    cases c <;> simpa [Call.enter, entering] using hzero
  | client i input =>
    simp only [step] at hstep
    split at hstep
    · cases hstep
    · rename_i c hc
      obtain ⟨⟨u, c'⟩, hu, rfl⟩ := Option.map_eq_some_iff.mp hstep
      exact client_decided h hc hu
  | worker i input =>
    simp only [step] at hstep
    split at hstep
    · cases hstep
    · rename_i w hw
      obtain ⟨⟨u, w'⟩, hu, rfl⟩ := Option.map_eq_some_iff.mp hstep
      obtain ⟨hnext, hclients⟩ := worker_submits (worker_move hu)
      simpa [Decided, hnext, hclients] using h

/-- All that is known of a state of an orderly run. -/
structure Historical (o : CommandExecutionPipelineOptions) (s : State) : Prop where
  inv : Inv s
  faithful : Faithful s
  indexed : Indexed s
  kept : Kept o s

theorem Historical.waiting (h : Historical o s) : Waiting s := by
  intro id hid
  obtain ⟨c, hc, hm⟩ := tally_pos.mp hid
  have hplace : (id, Life.drained) ∈ places s := by
    refine List.mem_append_left _ (List.mem_append_left _ (List.mem_flatMap.mpr ⟨c, hc, ?_⟩))
    exact List.mem_append_right _ (List.mem_map.mpr ⟨id, hm, rfl⟩)
  have hstage := (h.inv.custody.of_mem hplace).2.1
  exact (h.inv.outstanding id).mpr ⟨.drained, hstage, rfl⟩

theorem Historical.step {a : Action} (h : Historical o s)
    (hstep : restrict orderly (step o) s a = some t) : Historical o t ∧ Turn s t := by
  obtain ⟨horderly, hstep⟩ := restrict_eq_some.mp hstep
  have hkept := step_kept h.kept h.indexed h.faithful h.waiting hstep
  refine ⟨⟨?_, step_faithful h.faithful hstep, step_indexed s a t h.indexed hstep, hkept.1⟩, hkept.2⟩
  exact (step_effect h.inv h.faithful horderly hstep).inv h.inv h.faithful.first

theorem initial_historical (o : CommandExecutionPipelineOptions) : Historical o (initial o) := by
  have hreached := initial_reached o
  refine ⟨hreached.inv, hreached.faithful, initial_indexed o, ⟨⟨?_, List.nodup_nil, ?_, ?_, ?_⟩, ?_, ?_⟩⟩
  · intro id
    simp [initial]
  · intro id hid
    cases hid
  · intro id hid
    cases hid
  · intro id record hid
    cases hid
  · intro id hid
    cases hid
  · exact Nat.zero_le _

/-- Over a run, what is left of the history keeps its order, and entries are added behind it. -/
theorem run_historical {as : List Action} (h : Historical o s)
    (hrun : run (restrict orderly (step o)) s as = some t) :
    Historical o t ∧ ∃ new, (∀ id ∈ new, ¬ Decided s id) ∧
      t.historyOrder.Sublist (s.historyOrder ++ new) := by
  induction as generalizing s with
  | nil =>
    cases hrun
    refine ⟨h, [], ?_, ?_⟩
    · intro id hid
      cases hid
    · rw [List.append_nil]
  | cons a as ih =>
    obtain ⟨u, hu, hrest⟩ := run_cons hrun
    obtain ⟨hu', new, hnew, hsub, -⟩ := h.step hu
    obtain ⟨ht, new', hnew', hsub'⟩ := ih hu' hrest
    refine ⟨ht, new ++ new', ?_, ?_⟩
    · intro id hid hdecided
      rcases List.mem_append.mp hid with hid | hid
      · have hpos := hnew id hid
        rw [hdecided.2] at hpos
        cases hpos
      · exact hnew' id hid (step_decided hdecided (restrict_eq_some.mp hu).2)
    · rw [← List.append_assoc]
      exact hsub'.trans (hsub.append_right new')

theorem history_ids (h : Kept o s) : (getHistory s).map (·.executionId) = s.historyOrder := by
  have hget : ∀ id ∈ s.historyOrder, (s.records.get? id).map (·.executionId) = some id := by
    intro id hid
    obtain ⟨record, hrecord⟩ := Map.mem_iff.mp ((h.listed.same id).mpr hid)
    rw [hrecord, Option.map_some, h.listed.named id record hrecord]
  unfold getHistory
  rw [List.map_filterMap]
  exact (List.filterMap_congr hget).trans (List.filterMap_some (l := s.historyOrder))

theorem terminal_bound (h : Kept o s) :
    ((getHistory s).filter (fun record => record.status.isTerminal)).length ≤
      o.maximumHistorySize := by
  have hsplit : (getHistory s).filter (fun record => record.status.isTerminal) =
      (s.historyOrder.filter (fun id => id ∉ s.executions)).filterMap (fun id =>
        (s.records.get? id).filter (fun record => record.status.isTerminal)) := by
    unfold getHistory
    rw [List.filter_filterMap, List.filterMap_filter]
    apply List.filterMap_congr
    intro id hid
    by_cases hexec : id ∈ s.executions
    · obtain ⟨record, hrecord, hstatus⟩ := h.listed.active id hexec
      simp [hexec, hrecord, hstatus]
    · simp [hexec]
  rw [hsplit]
  exact Nat.le_trans (List.length_filterMap_le _ _) h.bound

/-- The history of an orderly run: one record for every entry, the outstanding executions
among them, at most the configured number of final records, oldest forgotten first, in
the order in which `Submit` calls entered their records. -/
theorem bounded_history {as bs : List Action}
    (h : run (restrict orderly (step o)) (initial o) as = some s)
    (hlater : run (restrict orderly (step o)) s bs = some t) :
    s.historyOrder.Nodup ∧ (∀ id, id ∈ s.records ↔ id ∈ s.historyOrder) ∧
    (∀ id, id ∈ s.executions ↔ ∃ command, s.commandToExecution.get? command = some id) ∧
    (∀ id ∈ s.executions, ∃ record, s.records.get? id = some record ∧
      record.status.isTerminal = false) ∧
    ((getHistory s).filter (fun record => record.status.isTerminal)).length ≤
      o.maximumHistorySize ∧
    (getHistory s).map (·.executionId) = s.historyOrder ∧
    (∀ a u, restrict orderly (step o) s a = some u → Turn s u) ∧
    (∀ a ∈ s.historyOrder, ∀ b, s.nextExecutionId ≤ b → ¬ [b, a].Sublist t.historyOrder) := by
  obtain ⟨hs, -⟩ := run_historical (initial_historical o) h
  obtain ⟨-, new, hnew, hsub⟩ := run_historical hs hlater
  have hlisted := hs.kept.listed
  refine ⟨hlisted.nodup, hlisted.same, ?_, hlisted.active, terminal_bound hs.kept,
    history_ids hs.kept, fun a u hu => (hs.step hu).2, ?_⟩
  · intro id
    constructor
    · exact fun hid => ⟨_, (hs.indexed.index _ id).mpr ⟨hid, rfl⟩⟩
    · rintro ⟨command, hcommand⟩
      exact ((hs.indexed.index command id).mp hcommand).1
  · intro a ha b hb hba
    have hold : a ∉ new :=
      fun hm => hnew a hm ⟨hlisted.issued a ha, hs.kept.entered a ha⟩
    -- what stands behind `b` was added behind the history of `s`, where `a` is not
    obtain ⟨l₁, l₂, he, h₁, h₂⟩ := List.sublist_append_iff.mp (hba.trans hsub)
    cases l₁ with
    | nil =>
      rw [List.nil_append] at he
      rw [← he] at h₂
      exact hold (h₂.subset (by simp))
    | cons c l₁ =>
      simp only [List.cons_append, List.cons.injEq] at he
      have hmem : b ∈ s.historyOrder := by
        rw [he.1]
        exact h₁.subset (by simp)
      exact absurd (hlisted.issued b hmem) (Nat.not_lt.mpr hb)

/-- A submission is rejected while an older one is outstanding, and only one record is kept. -/
def forgottenRun : List Action :=
  [.worker 0 {}, .call (.submit { id := 5 }), .client 0 {}, .client 0 {}, .client 0 {},
    .client 0 {}, .client 0 {}, .call (.submit { id := 0 }), .client 1 {}, .client 1 {},
    .client 1 {}, .worker 0 {}, .worker 0 {}, .worker 0 {}, .worker 0 {}, .worker 0 {}]

theorem bounded_history_forgotten :
    ∃ s, run (restrict orderly (step { maximumHistorySize := 1 }))
        (initial { maximumHistorySize := 1 }) forgottenRun = some s ∧
      (getHistory s).map (·.executionId) = [1] ∧ s.historyOrder.Nodup ∧
      ((getHistory s).filter (fun record => record.status.isTerminal)).length ≤ 1 := by
  have hrun : (run (restrict orderly (step { maximumHistorySize := 1 }))
      (initial { maximumHistorySize := 1 }) forgottenRun).any (fun (s : State) =>
        (getHistory s).map (·.executionId) = [1]) = true := by
    decide +kernel
  obtain ⟨s, hs, hids⟩ := (Option.any_eq_true _ _).mp hrun
  obtain ⟨hnodup, -, -, -, hbound, -⟩ := bounded_history hs (show run _ s [] = some s from rfl)
  exact ⟨s, hs, by simpa using hids, hnodup, hbound⟩

/-- The second `Submit` gets its number last and enters its record first. -/
def overlappingRun : List Action :=
  [.call (.submit { id := 5 }), .call (.submit { id := 6 }), .client 0 {}, .client 1 {},
    .client 1 {}, .client 1 {}, .client 0 {}, .client 0 {}]

theorem history_out_of_order :
    ∃ s, run (step {}) (initial {}) overlappingRun = some s ∧
      (getHistory s).map (·.executionId) = [2, 1] ∧
      ¬ ((getHistory s).map (·.executionId)).Pairwise (· < ·) := by
  have hrun : (run (step {}) (initial {}) overlappingRun).any (fun (s : State) =>
      (getHistory s).map (·.executionId) = [2, 1]) = true := by
    decide +kernel
  obtain ⟨s, hs, hids⟩ := (Option.any_eq_true _ _).mp hrun
  have hids' : (getHistory s).map (·.executionId) = [2, 1] := by simpa using hids
  refine ⟨s, hs, hids', ?_⟩
  rw [hids']
  decide

end Kept

end HumanoidCore.Proofs.PipelineHistory
