import Mathlib.Data.List.Nodup
import HumanoidCore.Lib.Graph
import HumanoidCore.PerceptionPipeline

namespace HumanoidCore.Proofs.StageOrder
open Lib Common Perception

def ids (stages : List StageEntry) : List StageId := stages.map StageEntry.stageId

/-- A stage with that identifier names the other among its dependencies. -/
def DependsOn (stages : List StageEntry) (stageId dependency : StageId) : Prop :=
  ∃ entry ∈ stages, entry.stageId = stageId ∧ dependency ∈ entry.descriptor.dependencies

section Registered
variable {stages : List StageEntry} {stageId : StageId}

theorem is_registered_iff : isRegistered stages stageId = true ↔ stageId ∈ ids stages := by
  simp [isRegistered, ids]

theorem emplace_perm (entry : StageEntry) (stages : List StageEntry) :
    (emplaceStage entry stages).Perm (entry :: stages) := by
  induction stages with
  | nil => exact .refl _
  | cons next stages ih =>
    unfold emplaceStage
    split
    · exact .refl _
    · exact (ih.cons next).trans (.swap entry next stages)

theorem ids_map {f : StageEntry → StageEntry} (hf : ∀ e, (f e).stageId = e.stageId)
    (stages : List StageEntry) : ids (stages.map f) = ids stages := by
  rw [ids, List.map_map]
  exact List.map_congr_left fun e _ => hf e

theorem apply_distinct {p : PerceptionPipeline} (h : (ids p.stages).Nodup) (call : Call) :
    (ids (p.apply call).stages).Nodup := by
  cases call with
  | registerStage descriptor stage =>
    simp only [PerceptionPipeline.apply, registerStage]
    split
    · exact h
    cases stage with
    | none => exact h
    | some stage =>
      dsimp only
      split
      · exact h
      · rename_i hfree
        rw [is_registered_iff] at hfree
        split
        · exact h
        · exact ((emplace_perm _ _).map _).nodup_iff.mpr (List.nodup_cons.mpr ⟨hfree, h⟩)
  | unregisterStage stageId =>
    simp only [PerceptionPipeline.apply, unregisterStage]
    split
    · exact h
    split
    · exact h
    · have hforget := ids_map (f := StageEntry.forget stageId) (fun _ => rfl)
      rw [hforget]
      exact h.sublist (List.filter_sublist.map _)
  | setStageEnabled stageId enabled =>
    simp only [PerceptionPipeline.apply, setStageEnabled]
    split
    · exact h
    · have hset := ids_map
        (f := fun e => if e.stageId = stageId then e.setEnabled enabled else e)
        (fun e => by split <;> rfl)
      rw [hset]
      exact h
  | clear => exact List.nodup_nil

theorem after_distinct (calls : List Call) : (ids (after calls).stages).Nodup := by
  have hrun : ∀ p : PerceptionPipeline, (ids p.stages).Nodup →
      (ids (calls.foldl PerceptionPipeline.apply p).stages).Nodup := by
    induction calls with
    | nil => exact fun _ h => h
    | cons call calls ih => exact fun p h => ih _ (apply_distinct h call)
  exact hrun {} List.nodup_nil

end Registered

section Numbers
variable {incoming : List (StageId × Nat)} {key : StageId} {f g : Nat → Nat}

theorem lookup_adjust (f : Nat → Nat) (key k : StageId) (incoming : List (StageId × Nat)) :
    (adjust f key incoming).lookup k =
      if k = key then (incoming.lookup k).map f else incoming.lookup k := by
  induction incoming with
  | nil => simp [adjust]
  | cons entry rest ih =>
    obtain ⟨id, count⟩ := entry
    unfold adjust
    by_cases hid : id = key <;> by_cases hk : k = id
    · subst hid hk
      simp
    · simp [hid ▸ hk, hid, List.lookup_cons, beq_false_of_ne]
    · subst hk
      simp [hid]
    · rw [if_neg hid, List.lookup_cons, List.lookup_cons, beq_false_of_ne hk]
      exact ih

theorem adjust_twice (f g : Nat → Nat) (key : StageId) (incoming : List (StageId × Nat)) :
    adjust g key (adjust f key incoming) = adjust (fun count => g (f count)) key incoming := by
  induction incoming with
  | nil => rfl
  | cons entry rest ih =>
    obtain ⟨id, count⟩ := entry
    by_cases hid : id = key
    · simp [adjust, hid]
    · simp [adjust, hid, ih]

theorem adjust_last (f : Nat → Nat) (h : key ∉ incoming.map Prod.fst) (count : Nat) :
    adjust f key (incoming ++ [(key, count)]) = incoming ++ [(key, f count)] := by
  induction incoming with
  | nil => simp [adjust]
  | cons entry rest ih =>
    rw [List.map_cons, List.mem_cons, not_or] at h
    simp [adjust, Ne.symm h.1, ih h.2]

theorem adjust_id (key : StageId) (incoming : List (StageId × Nat)) :
    adjust (fun count => count) key incoming = incoming := by
  induction incoming with
  | nil => rfl
  | cons entry rest ih => simp only [adjust, ih, ite_self]

end Numbers

section Edges
variable {snapshot entries : List StageEntry} {edges : Edges} {stageId : StageId}

/-- The dependencies of a stage are counted and noted, unless one is not registered. -/
theorem add_dependencies (snapshot : List StageEntry) (stageId : StageId) (edges : Edges)
    (dependencies : List StageId) : addDependencies snapshot stageId edges dependencies =
      if dependencies.all (isRegistered snapshot) then
        some { incoming := adjust (· + dependencies.length) stageId edges.incoming
               dependents := edges.dependents ++ dependencies.map (fun d => (d, stageId)) }
      else none := by
  induction dependencies generalizing edges with
  | nil => simp [addDependencies, adjust_id]
  | cons dependency rest ih =>
    unfold addDependencies
    cases hregistered : isRegistered snapshot dependency with
    | false => simp [hregistered]
    | true =>
      have hadd : (fun count => count + 1 + rest.length) = fun count => count + (rest.length + 1) := by
        funext count
        omega
      simp [hregistered, ih, adjust_twice, hadd]

def edgesOf (entries : List StageEntry) : Edges :=
  { incoming := entries.map (fun e => (e.stageId, e.descriptor.dependencies.length))
    dependents := entries.flatMap (fun e => e.descriptor.dependencies.map (fun d => (d, e.stageId))) }

/-- Every dependency of every stage is registered. -/
def AllRegistered (snapshot entries : List StageEntry) : Prop :=
  ∀ entry ∈ entries, ∀ dependency ∈ entry.descriptor.dependencies, dependency ∈ ids snapshot

theorem add_stages (edges : Edges) (hfresh : (edges.incoming.map Prod.fst ++ ids entries).Nodup) :
    (AllRegistered snapshot entries ∧ addStages snapshot edges entries =
        some { incoming := edges.incoming ++ (edgesOf entries).incoming
               dependents := edges.dependents ++ (edgesOf entries).dependents }) ∨
      (¬AllRegistered snapshot entries ∧ addStages snapshot edges entries = none) := by
  induction entries generalizing edges with
  | nil =>
    refine .inl ⟨fun entry h => absurd h List.not_mem_nil, ?_⟩
    simp [addStages, edgesOf]
  | cons entry rest ih =>
    have hkey : entry.stageId ∉ edges.incoming.map Prod.fst := fun hin =>
      (List.nodup_append.mp hfresh).2.2 _ hin _ (List.mem_cons_self ..) rfl
    rw [addStages, add_dependencies]
    by_cases hall : entry.descriptor.dependencies.all (isRegistered snapshot) = true
    · rw [if_pos hall, Option.bind_some, adjust_last _ hkey, Nat.zero_add]
      have hfirst : ∀ d ∈ entry.descriptor.dependencies, d ∈ ids snapshot := fun d hd =>
        is_registered_iff.mp (List.all_eq_true.mp hall d hd)
      have hiff : AllRegistered snapshot (entry :: rest) ↔ AllRegistered snapshot rest :=
        List.forall_mem_cons.trans (and_iff_right hfirst)
      rw [hiff]
      have hnext : (((edges.incoming ++ [(entry.stageId, entry.descriptor.dependencies.length)]).map
          Prod.fst) ++ ids rest).Nodup := by
        simpa [ids] using hfresh
      have hrest := ih { incoming := _, dependents := edges.dependents ++
        entry.descriptor.dependencies.map (fun d => (d, entry.stageId)) } hnext
      simpa [edgesOf] using hrest
    · rw [if_neg hall]
      refine .inr ⟨fun h => hall ?_, rfl⟩
      exact List.all_eq_true.mpr fun d hd =>
        is_registered_iff.mpr (h entry (List.mem_cons_self ..) d hd)

theorem dependents_cons (entry : StageEntry) (rest : List StageEntry) (dependency : StageId) :
    (edgesOf (entry :: rest)).dependentsOf dependency =
      List.replicate (entry.descriptor.dependencies.count dependency) entry.stageId ++
        (edgesOf rest).dependentsOf dependency := by
  have hfirst : ∀ dependencies : List StageId,
      ((dependencies.map (fun d => (d, entry.stageId))).filter (·.1 = dependency)).map Prod.snd =
        List.replicate (dependencies.count dependency) entry.stageId := by
    intro dependencies
    induction dependencies with
    | nil => rfl
    | cons d dependencies ih =>
      by_cases hd : d = dependency
      · subst hd
        simp [List.replicate_succ, ih]
      · simp [hd, ih]
  rw [Edges.dependentsOf, edgesOf, List.flatMap_cons, List.filter_append, List.map_append, hfirst]
  rfl

theorem count_absent (dependency : StageId) (h : stageId ∉ ids entries) :
    ((edgesOf entries).dependentsOf dependency).count stageId = 0 := by
  induction entries with
  | nil => rfl
  | cons entry rest ih =>
    rw [ids, List.map_cons, List.mem_cons, not_or] at h
    rw [dependents_cons, List.count_append, ih h.2, List.count_replicate,
      if_neg (by simpa using Ne.symm h.1)]

/-- A stage is a dependent as often as it names the other. -/
theorem count_dependents (hnodup : (ids entries).Nodup) (dependency : StageId)
    {entry : StageEntry} (hentry : entry ∈ entries) :
    ((edgesOf entries).dependentsOf dependency).count entry.stageId =
      entry.descriptor.dependencies.count dependency := by
  induction entries with
  | nil => cases hentry
  | cons first rest ih =>
    obtain ⟨hfirst, hrest⟩ := List.nodup_cons.mp hnodup
    rw [dependents_cons, List.count_append, List.count_replicate]
    rcases List.mem_cons.mp hentry with rfl | hin
    · rw [count_absent dependency hfirst, if_pos (beq_self_eq_true _), Nat.add_zero]
    · have hne : first.stageId ≠ entry.stageId := fun he =>
        hfirst (he ▸ List.mem_map_of_mem hin)
      rw [if_neg (by simpa using hne), Nat.zero_add, ih hrest hin]

end Edges

section Release
variable {dependents ready : List StageId} {incoming : List (StageId × Nat)}

/-- What the loop over the dependents of a stage does: the numbers drop by one for each time that
a stage is in the list, and the stages whose number has come to zero are queued. -/
theorem release_spec (dependents ready : List StageId) (incoming : List (StageId × Nat)) :
    (∀ k, (release dependents incoming ready).1.lookup k =
        (incoming.lookup k).map (· - dependents.count k)) ∧
      ∃ freed, (release dependents incoming ready).2 = ready ++ freed ∧ freed.Nodup ∧
        ∀ k, k ∈ freed ↔ ∃ count, incoming.lookup k = some (count + 1) ∧
          count + 1 ≤ dependents.count k := by
  induction dependents generalizing incoming ready with
  | nil =>
    refine ⟨fun k => ?_, [], by simp [release], List.nodup_nil, fun k => ?_⟩
    · simp [release]
    · simp
  | cons dependent rest ih =>
    have hother : ∀ {k}, k ≠ dependent → (dependent :: rest).count k = rest.count k :=
      fun hk => List.count_cons_of_ne (Ne.symm hk)
    -- a stage with no edge left, or none at all, is passed over
    have hidle : (incoming.lookup dependent).getD 0 = 0 →
        (∀ k, (release rest incoming ready).1.lookup k =
          (incoming.lookup k).map (· - (dependent :: rest).count k)) ∧
        ∃ freed, (release rest incoming ready).2 = ready ++ freed ∧ freed.Nodup ∧
          ∀ k, k ∈ freed ↔ ∃ count, incoming.lookup k = some (count + 1) ∧
            count + 1 ≤ (dependent :: rest).count k := by
      intro hzero
      obtain ⟨hlookup, freed, hready, hnodup, hmem⟩ := ih ready incoming
      refine ⟨fun k => ?_, freed, hready, hnodup, fun k => ?_⟩
      · rw [hlookup]
        by_cases hk : k = dependent
        · subst hk
          cases hcount : incoming.lookup k with
          | none => rfl
          | some count =>
            rw [hcount, Option.getD_some] at hzero
            simp [hzero]
        · rw [hother hk]
      · rw [hmem]
        by_cases hk : k = dependent
        · subst hk
          refine iff_of_false ?_ ?_ <;> rintro ⟨count, hcount, -⟩ <;>
            rw [hcount, Option.getD_some] at hzero <;> omega
        · rw [hother hk]
    unfold release
    split
    · rename_i count hcount
      obtain ⟨hlookup, freed, hready, hnodup, hmem⟩ :=
        ih (if count = 0 then ready ++ [dependent] else ready) (adjust (· - 1) dependent incoming)
      have hnow : (adjust (· - 1) dependent incoming).lookup dependent = some count := by
        rw [lookup_adjust, if_pos rfl, hcount]
        rfl
      refine ⟨fun k => ?_, (if count = 0 then [dependent] else []) ++ freed, ?_, ?_, fun k => ?_⟩
      · rw [hlookup]
        by_cases hk : k = dependent
        · subst hk
          rw [hnow, hcount, List.count_cons_self]
          exact congrArg some (by dsimp only; omega)
        · rw [lookup_adjust, if_neg hk, hother hk]
      · rw [hready]
        split <;> simp
      · split
        · rename_i hzero
          refine List.nodup_cons.mpr ⟨fun hin => ?_, hnodup⟩
          obtain ⟨m, hm, -⟩ := (hmem dependent).mp hin
          rw [hnow, hzero] at hm
          cases hm
        · exact hnodup
      · rw [List.mem_append, hmem]
        by_cases hk : k = dependent
        · subst hk
          rw [hnow, hcount, List.count_cons_self]
          simp only [Option.some.injEq]
          constructor
          · rintro (hin | ⟨m, hm, hle⟩)
            · refine ⟨count, rfl, ?_⟩
              split at hin
              · omega
              · cases hin
            · exact ⟨count, rfl, by omega⟩
          · rintro ⟨m, hm, hle⟩
            obtain rfl : count = m := by omega
            cases count with
            | zero => exact .inl (List.mem_singleton_self k)
            | succ count => exact .inr ⟨count, rfl, by omega⟩
        · rw [lookup_adjust, if_neg hk, hother hk]
          refine ⟨fun h => h.resolve_left fun hin => ?_, .inr⟩
          split at hin
          · exact hk (List.mem_singleton.mp hin)
          · cases hin
    · rename_i hzero
      exact hidle (by simp [hzero])
    · rename_i hnone
      exact hidle (by simp [hnone])

end Release

section Drain
variable {snapshot done : List StageEntry} {incoming : List (StageId × Nat)}
  {ready : List StageId} {stageId : StageId}

/-- The dependencies of a stage that are still to come, as often as it names them. -/
def missing (done : List StageEntry) (entry : StageEntry) : Nat :=
  entry.descriptor.dependencies.countP (· ∉ ids done)

theorem missing_zero {entry : StageEntry} : missing done entry = 0 ↔
    ∀ d ∈ entry.descriptor.dependencies, d ∈ ids done := by
  simp [missing, List.countP_eq_zero]

theorem ids_snoc (done : List StageEntry) (entry : StageEntry) :
    ids (done ++ [entry]) = ids done ++ [entry.stageId] := List.map_append

theorem missing_snoc {first : StageEntry} (h : first.stageId ∉ ids done) (entry : StageEntry) :
    missing done entry = missing (done ++ [first]) entry +
      entry.descriptor.dependencies.count first.stageId := by
  unfold missing
  induction entry.descriptor.dependencies with
  | nil => rfl
  | cons d rest ih =>
    have hsnoc : d ∈ ids (done ++ [first]) ↔ d ∈ ids done ∨ d = first.stageId := by
      rw [ids_snoc, List.mem_append, List.mem_singleton]
    rw [List.countP_cons, List.countP_cons, List.count_cons, ih]
    by_cases hd : d = first.stageId
    · subst hd
      simp [hsnoc, h]
      omega
    · by_cases hin : d ∈ ids done <;> simp [hsnoc, hd, hin]
      omega

/-- Where the loop over the queue is: the numbers count what is missing, and the stages that miss
nothing are done or in the queue, once each. -/
structure Draining (snapshot : List StageEntry) (incoming : List (StageId × Nat))
    (done : List StageEntry) (ready : List StageId) : Prop where
  distinct : (ids done ++ ready).Nodup
  done_known : ∀ entry ∈ done, entry ∈ snapshot
  known : ∀ stageId ∈ ids done ++ ready, stageId ∈ ids snapshot
  counted : ∀ stageId count, incoming.lookup stageId = some count → stageId ∈ ids snapshot
  counts : ∀ entry ∈ snapshot, incoming.lookup entry.stageId = some (missing done entry)
  queued : ∀ entry ∈ snapshot, entry.stageId ∈ ids done ++ ready ↔ missing done entry = 0
  behind : Behind (DependsOn snapshot) (ids done)

theorem Draining.next (hnodup : (ids snapshot).Nodup) {entry : StageEntry}
    (hentry : entry ∈ snapshot)
    (h : Draining snapshot incoming done (entry.stageId :: ready)) :
    Draining snapshot
      (release ((edgesOf snapshot).dependentsOf entry.stageId) incoming ready).1
      (done ++ [entry])
      (release ((edgesOf snapshot).dependentsOf entry.stageId) incoming ready).2 := by
  obtain ⟨hlookup, freed, hready, hfreed, hmem⟩ :=
    release_spec ((edgesOf snapshot).dependentsOf entry.stageId) ready incoming
  have hsplit : ids done ++ entry.stageId :: ready = ids (done ++ [entry]) ++ ready := by
    rw [ids_snoc, List.append_assoc, List.singleton_append]
  have hnew : entry.stageId ∉ ids done := fun hin =>
    (List.nodup_append.mp h.distinct).2.2 _ hin _ (List.mem_cons_self ..) rfl
  have hmissing := missing_snoc hnew
  have hfreed_known : ∀ stageId ∈ freed, stageId ∈ ids snapshot := fun stageId hin => by
    obtain ⟨count, hcount, -⟩ := (hmem stageId).mp hin
    exact h.counted _ _ hcount
  rw [hready]
  constructor
  · rw [← List.append_assoc, ← hsplit]
    refine List.nodup_append.mpr ⟨h.distinct, hfreed, fun stageId hin other hother he => ?_⟩
    subst he
    obtain ⟨count, hcount, -⟩ := (hmem stageId).mp hother
    obtain ⟨e, he, rfl⟩ := List.mem_map.mp (h.known stageId hin)
    rw [h.counts e he, (h.queued e he).mp hin] at hcount
    cases hcount
  · exact List.forall_mem_append.mpr ⟨h.done_known, List.forall_mem_singleton.mpr hentry⟩
  · rw [← List.append_assoc, ← hsplit]
    exact List.forall_mem_append.mpr ⟨h.known, hfreed_known⟩
  · intro stageId count hcount
    rw [hlookup, Option.map_eq_some_iff] at hcount
    obtain ⟨before, hbefore, -⟩ := hcount
    exact h.counted _ _ hbefore
  · intro e he
    rw [hlookup, h.counts e he, count_dependents hnodup _ he, hmissing e]
    exact congrArg some (Nat.add_sub_cancel ..)
  · intro e he
    rw [← List.append_assoc, ← hsplit, List.mem_append, h.queued e he, hmem, h.counts e he,
      count_dependents hnodup _ he, hmissing e]
    constructor
    · rintro (hzero | ⟨count, hcount, hle⟩)
      · omega
      · have := Option.some.inj hcount
        omega
    · intro hzero
      rw [hzero, Nat.zero_add]
      cases entry.descriptor.dependencies.count e.stageId <;>
        cases e.descriptor.dependencies.count entry.stageId with
        | zero => exact .inl rfl
        | succ count => exact .inr ⟨count, rfl, Nat.le_refl _⟩
  · rw [ids_snoc]
    refine h.behind.snoc fun dependency hdepends => ?_
    obtain ⟨e, he, hid, hin⟩ := hdepends
    have hqueued : e.stageId ∈ ids done ++ entry.stageId :: ready := by
      rw [hid]
      exact List.mem_append_right _ (List.mem_cons_self ..)
    exact missing_zero.mp ((h.queued e he).mp hqueued) dependency hin

theorem drain_done (hnodup : (ids snapshot).Nodup)
    (h : Draining snapshot incoming done ready) :
    ∃ order incoming', drain snapshot (edgesOf snapshot) incoming done ready = some order ∧
      Draining snapshot incoming' order [] := by
  fun_induction drain snapshot (edgesOf snapshot) incoming done ready with
  | case1 incoming done => exact ⟨done, incoming, rfl, h⟩
  | case2 incoming done stageId ready hnone =>
    obtain ⟨e, he, hid⟩ := List.mem_map.mp
      (h.known stageId (List.mem_append_right _ (List.mem_cons_self ..)))
    have := List.find?_eq_none.mp hnone e he
    simp [hid] at this
  | case3 incoming done stageId ready entry hfound ih =>
    have hid : entry.stageId = stageId := by simpa using List.find?_some hfound
    subst hid
    exact ih (h.next hnodup (List.mem_of_find?_eq_some hfound))

theorem lookup_edges (hnodup : (ids snapshot).Nodup) {entry : StageEntry}
    (hentry : entry ∈ snapshot) : (edgesOf snapshot).incoming.lookup entry.stageId =
      some entry.descriptor.dependencies.length := by
  induction snapshot with
  | nil => cases hentry
  | cons first rest ih =>
    obtain ⟨hfirst, hrest⟩ := List.nodup_cons.mp hnodup
    simp only [edgesOf, List.map_cons, List.lookup_cons]
    rcases List.mem_cons.mp hentry with rfl | hin
    · rw [beq_self_eq_true]
    · have hne : entry.stageId ≠ first.stageId := fun he =>
        hfirst (he ▸ List.mem_map_of_mem hin)
      rw [beq_false_of_ne hne]
      exact ih hrest hin

theorem missing_nil (entry : StageEntry) : missing [] entry = entry.descriptor.dependencies.length :=
  List.countP_eq_length.mpr fun _ _ => decide_eq_true List.not_mem_nil

/-- The queue before the loop. -/
theorem draining_start (hnodup : (ids snapshot).Nodup) :
    Draining snapshot (edgesOf snapshot).incoming []
      (((edgesOf snapshot).incoming.filter (·.2 = 0)).map Prod.fst) := by
  have hkeys : (edgesOf snapshot).incoming.map Prod.fst = ids snapshot := by
    simp [edgesOf, ids]
  have hsub : (((edgesOf snapshot).incoming.filter (·.2 = 0)).map Prod.fst).Sublist
      (ids snapshot) := hkeys ▸ List.filter_sublist.map _
  constructor
  · exact hnodup.sublist hsub
  · exact fun entry h => absurd h List.not_mem_nil
  · exact fun stageId h => hsub.subset h
  · intro stageId count hcount
    rw [← hkeys]
    obtain ⟨before, after, he, -⟩ := List.lookup_eq_some_iff.mp hcount
    rw [he]
    simp
  · intro entry hentry
    rw [lookup_edges hnodup hentry, missing_nil]
  · intro entry hentry
    rw [missing_nil]
    constructor
    · intro hin
      obtain ⟨⟨key, count⟩, hfilter, rfl⟩ := List.mem_map.mp hin
      obtain ⟨hincoming, hcount⟩ := List.mem_filter.mp hfilter
      obtain ⟨other, hother, he⟩ := List.mem_map.mp hincoming
      obtain ⟨hid, rfl⟩ := Prod.mk.inj he
      obtain rfl := List.inj_on_of_nodup_map hnodup hother hentry hid
      simpa using hcount
    · intro hzero
      refine List.mem_map.mpr ⟨(entry.stageId, 0), List.mem_filter.mpr ⟨?_, by simp⟩, rfl⟩
      exact List.mem_map.mpr ⟨entry, hentry, by rw [hzero]⟩
  · exact behind_nil

theorem Draining.perm (h : Draining snapshot incoming done [])
    (hlength : done.length = snapshot.length) : done.Perm snapshot := by
  have hdistinct : (ids done).Nodup := by simpa using h.distinct
  exact (List.subperm_of_subset hdistinct.of_map h.done_known).perm_of_length_le
    (Nat.le_of_eq hlength.symm)

/-- When the queue is empty every stage is done, or some depend on each other in a cycle. -/
theorem Draining.complete (hnodup : (ids snapshot).Nodup)
    (hregistered : AllRegistered snapshot snapshot) (h : Draining snapshot incoming done []) :
    done.length = snapshot.length ↔ Acyclic (DependsOn snapshot) := by
  have hdistinct : (ids done).Nodup := by simpa using h.distinct
  constructor
  · intro hlength
    refine h.behind.acyclic hdistinct fun stageId dependency hdepends => ?_
    obtain ⟨entry, hentry, rfl, -⟩ := hdepends
    exact List.mem_map_of_mem ((h.perm hlength).mem_iff.mpr hentry)
  · intro hacyclic
    have hall : ids snapshot ⊆ ids done := by
      intro other hother
      by_contra hnot
      have hleft : (ids snapshot).filter (· ∉ ids done) ≠ [] := fun hnil =>
        List.filter_eq_nil_iff.mp hnil other hother (decide_eq_true hnot)
      obtain ⟨stageId, hid, hminimal⟩ := hacyclic.exists_minimal hleft
      obtain ⟨hid, hundone⟩ := List.mem_filter.mp hid
      obtain ⟨entry, hentry, rfl⟩ := List.mem_map.mp hid
      refine of_decide_eq_true hundone ?_
      -- all it depends on is registered, and none of that is left
      have hzero : missing done entry = 0 := missing_zero.mpr fun d hd => by
        by_contra hleft
        exact hminimal d (List.mem_filter.mpr ⟨hregistered entry hentry d hd, decide_eq_true hleft⟩)
          ⟨entry, hentry, rfl, hd⟩
      simpa using (h.queued entry hentry).mpr hzero
    have hle := (List.subperm_of_subset hnodup hall).length_le
    have hge := (List.subperm_of_subset hdistinct.of_map h.done_known).length_le
    rw [ids, ids, List.length_map, List.length_map] at hle
    exact Nat.le_antisymm hge hle

end Drain

/-- What `BuildExecutionOrder` makes of the stages: it comes to an end and does not throw. -/
theorem build_order {p : PerceptionPipeline} (hnodup : (ids p.stages).Nodup) :
    ∃ status order, buildExecutionOrder p = some (status, order) ∧
      (status.isOk = true ↔
        AllRegistered p.stages p.stages ∧ Acyclic (DependsOn p.stages)) ∧
      (status.isOk = true → order.Perm p.stages ∧ Behind (DependsOn p.stages) (ids order)) := by
  have hadd := @add_stages p.stages p.stages {} hnodup
  rcases hadd with ⟨hall, hsome⟩ | ⟨hnot, hnone⟩
  · obtain ⟨order, incoming, hdrain, hdone⟩ := drain_done hnodup (draining_start hnodup)
    have hcomplete := hdone.complete hnodup hall
    simp only [buildExecutionOrder, hsome, List.nil_append, hdrain, Option.map_some]
    by_cases hlength : order.length = p.stages.length
    · rw [if_neg (not_not_intro hlength)]
      refine ⟨_, _, rfl, iff_of_true rfl ⟨hall, hcomplete.mp hlength⟩, fun _ => ?_⟩
      exact ⟨hdone.perm hlength, hdone.behind⟩
    · rw [if_pos hlength]
      refine ⟨_, _, rfl, iff_of_false (by decide) fun h => hlength (hcomplete.mpr h.2), ?_⟩
      exact fun h => absurd h (by decide)
  · simp only [buildExecutionOrder, hnone]
    refine ⟨_, _, rfl, iff_of_false (by decide) fun h => hnot h.1, ?_⟩
    exact fun h => absurd h (by decide)

section Execute
variable {Context : Type}

/-- The calls of stages with what came back. -/
abbrev Calls (Context : Type) := List ((e : Request Context) × Answer e)

def asked : (e : Request Context) × Answer e → Stage
  | ⟨.process stage _, _⟩ => stage

/-- The stage returned a status that is ok. -/
def succeeded : (e : Request Context) × Answer e → Bool
  | ⟨.process _ _, (some status, _)⟩ => status.isOk
  | ⟨.process _ _, (none, _)⟩ => false

/-- The stages are called in order, up to the first that fails or throws. -/
structure Executed (stages : List StageEntry) (calls : Calls Context)
    (result : PerceptionPipelineResult Context) (executed : List StageId) : Prop where
  called : calls.map asked = (stages.take calls.length).map StageEntry.stage
  earlier : ∀ call ∈ calls.dropLast, succeeded call = true
  whole : (∀ call ∈ calls, succeeded call = true) → calls.length = stages.length
  listed : result.executedStages =
    executed ++ ids (stages.take (calls.countP succeeded))
  ok : result.status.isOk = true ↔
    calls.length = stages.length ∧ ∀ call ∈ calls, succeeded call = true

theorem Executed.failed {entry : StageEntry} {rest : List StageEntry} {executed : List StageId}
    {call : (e : Request Context) × Answer e} {result : PerceptionPipelineResult Context}
    (hstage : asked call = entry.stage) (hcall : succeeded call = false)
    (hlisted : result.executedStages = executed) (hok : result.status.isOk = false) :
    Executed (entry :: rest) [call] result executed where
  called := by simp [hstage]
  earlier := by simp
  whole h := by simp [hcall] at h
  listed := by simp [hlisted, hcall, ids]
  ok := by simp [hok, hcall]

theorem Executed.cons {entry : StageEntry} {stages : List StageEntry} {executed : List StageId}
    {call : (e : Request Context) × Answer e} {calls : Calls Context}
    {result : PerceptionPipelineResult Context} (hstage : asked call = entry.stage)
    (hcall : succeeded call = true)
    (h : Executed stages calls result (executed ++ [entry.stageId])) :
    Executed (entry :: stages) (call :: calls) result executed where
  called := by
    rw [List.map_cons, h.called, hstage]
    rfl
  earlier := by
    cases calls with
    | nil => simp
    | cons next calls =>
      rw [List.dropLast_cons_cons]
      exact List.forall_mem_cons.mpr ⟨hcall, h.earlier⟩
  whole hall := by
    rw [List.length_cons, List.length_cons, h.whole (List.forall_mem_cons.mp hall).2]
  listed := by
    rw [h.listed, List.countP_cons_of_pos hcall, List.take_succ_cons, List.append_assoc]
    rfl
  ok := by
    rw [h.ok, List.length_cons, List.length_cons, List.forall_mem_cons, and_iff_right hcall,
      Nat.add_right_cancel_iff]

theorem run_stages (context : Context) (executed : List StageId) (stages : List StageEntry)
    {calls : Calls Context} {o : Except Unit (PerceptionPipelineResult Context)}
    (h : Prog.Runs (runStages context executed stages) calls o) :
    ∃ result, o = .ok result ∧
      Executed (stages.filter (·.descriptor.enabled)) calls result executed := by
  induction stages generalizing context executed calls with
  | nil =>
    cases h
    refine ⟨_, rfl, ?_⟩
    constructor <;> simp [ids, Status.isOk]
  | cons entry rest ih =>
    unfold runStages at h
    cases henabled : entry.descriptor.enabled with
    | false =>
      rw [if_pos (by rw [henabled]; rfl)] at h
      rw [List.filter_cons_of_neg (by simp [henabled])]
      exact ih context executed h
    | true =>
      rw [if_neg (by simp [henabled])] at h
      rw [List.filter_cons_of_pos (by simp [henabled])]
      obtain ⟨⟨answer, context'⟩, calls', rfl, hafter⟩ := h.request_cases
      cases answer with
      | none =>
        have h : Prog.Runs (.pure ⟨⟨.internalError, "perception stage threw an exception"⟩,
          context', executed⟩) calls' o := hafter
        cases h
        exact ⟨_, rfl, .failed rfl rfl rfl rfl⟩
      | some status =>
        have h : Prog.Runs (if !status.isOk then .pure ⟨status, context', executed⟩
          else runStages context' (executed ++ [entry.stageId]) rest) calls' o := hafter
        cases hok : status.isOk with
        | false =>
          rw [hok] at h
          cases h
          exact ⟨_, rfl, .failed rfl hok rfl hok⟩
        | true =>
          rw [hok] at h
          obtain ⟨result, rfl, hrest⟩ := ih context' (executed ++ [entry.stageId]) h
          exact ⟨result, rfl, .cons rfl hok hrest⟩

end Execute

/-- After any calls the order of the stages is found exactly where there is one, it has each stage
behind those it depends on, and an execution follows it up to the first stage that fails. -/
theorem stages_in_order {Context : Type} (history : List Call) :
    let stages := (after history).stages
    ∃ status order, buildExecutionOrder (after history) = some (status, order) ∧
      (status.isOk = true ↔ AllRegistered stages stages ∧ Acyclic (DependsOn stages)) ∧
      (status.isOk = true → order.Perm stages ∧ Behind (DependsOn stages) (ids order)) ∧
      ∀ (context : Context) (calls : Calls Context)
        (o : Except Unit (PerceptionPipelineResult Context)),
        Prog.Runs (execute (after history) context) calls o →
          ∃ result, o = .ok result ∧
            (status.isOk = true →
              Executed (order.filter (·.descriptor.enabled)) calls result []) ∧
            (status.isOk = false → calls = [] ∧ result.status = status) := by
  obtain ⟨status, order, hbuild, hiff, horder⟩ := build_order (after_distinct history)
  refine ⟨status, order, hbuild, hiff, horder, fun context calls o hruns => ?_⟩
  simp only [execute, hbuild] at hruns
  cases hok : status.isOk with
  | false =>
    rw [hok] at hruns
    cases hruns
    exact ⟨_, rfl, nofun, fun _ => ⟨rfl, rfl⟩⟩
  | true =>
    rw [hok] at hruns
    obtain ⟨result, rfl, hexecuted⟩ := run_stages context [] order hruns
    exact ⟨result, rfl, fun _ => hexecuted, nofun⟩

end HumanoidCore.Proofs.StageOrder
