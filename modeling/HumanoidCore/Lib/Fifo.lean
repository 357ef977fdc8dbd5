import HumanoidCore.Lib.Machine
import Mathlib.Data.List.Dedup
import Mathlib.Order.Lattice

namespace HumanoidCore.Lib

section Scan
variable {ν μ ρ : Type} [LinearOrder ρ]

/-- `std::max_element`: the entry on which a scan for something better ends. -/
def firstBest (better : ν → ν → Prop) [DecidableRel better] : List ν → Option ν
  | [] => none
  | a :: rest => some (rest.foldl (fun best b => if better best b then b else best) a)

/-- No entry outranks `x`. -/
def top (rank : ν → ρ) (l : List ν) (x : ν) : Bool := l.all (fun y => rank y ≤ rank x)

theorem top_iff {rank : ν → ρ} {l : List ν} {x : ν} :
    top rank l x = true ↔ ∀ y ∈ l, rank y ≤ rank x := by
  simp [top]

/-- The entry that came first among those of the highest rank. -/
def foremost (rank : ν → ρ) (l : List ν) : Option ν := l.find? (top rank l)

theorem foremost_of_lt {rank : ν → ρ} {a b : ν} (l : List ν) (h : rank a < rank b) :
    foremost rank (a :: b :: l) = foremost rank (b :: l) := by
  have ha : ¬ top rank (a :: b :: l) a = true := by
    rw [top_iff]
    exact fun htop => absurd (htop b (by simp)) (not_le_of_gt h)
  have hsame : top rank (a :: b :: l) = top rank (b :: l) := by
    funext x
    rw [Bool.eq_iff_iff, top_iff, top_iff, List.forall_mem_cons]
    refine and_iff_right_of_imp (fun hx => ?_)
    exact le_of_lt (lt_of_lt_of_le h (hx b (by simp)))
  rw [foremost, List.find?_cons_of_neg ha, hsame]
  rfl

theorem foremost_of_le {rank : ν → ρ} {a b : ν} (l : List ν) (h : rank b ≤ rank a) :
    foremost rank (a :: b :: l) = foremost rank (a :: l) := by
  have hsame : top rank (a :: b :: l) = top rank (a :: l) := by
    funext x
    rw [Bool.eq_iff_iff, top_iff, top_iff]
    simp only [List.forall_mem_cons]
    exact and_congr_right (fun hx => and_iff_right (le_trans h hx))
  rw [foremost, foremost, hsame]
  by_cases ha : top rank (a :: l) a = true
  · rw [List.find?_cons_of_pos ha, List.find?_cons_of_pos ha]
  · -- the second entry would have to share the rank of the first, which is not the highest
    have hb : ¬ top rank (a :: l) b = true := by
      rw [top_iff] at ha ⊢
      exact fun hb => ha (fun y hy => le_trans (hb y hy) h)
    rw [List.find?_cons_of_neg ha, List.find?_cons_of_neg hb, List.find?_cons_of_neg ha]

/-- A scan that compares by rank, at least with the entries behind it, finds the foremost. -/
theorem firstBest_eq_foremost {better : ν → ν → Prop} [DecidableRel better] {rank : ν → ρ}
    {l : List ν} (h : l.Pairwise (fun a b => better a b ↔ rank a < rank b)) :
    firstBest better l = foremost rank l := by
  cases l with
  | nil => rfl
  | cons a rest =>
    induction rest generalizing a with
    | nil => simp [firstBest, foremost, top]
    | cons b rest ih =>
      obtain ⟨hhead, htail⟩ := List.pairwise_cons.mp h
      simp only [firstBest, List.foldl_cons] at ih ⊢
      by_cases hab : better a b
      · rw [if_pos hab, ih b htail, foremost_of_lt rest ((hhead b (by simp)).mp hab)]
      · have hle : rank b ≤ rank a := le_of_not_gt (fun hlt => hab ((hhead b (by simp)).mpr hlt))
        have hskip : (a :: rest).Pairwise (fun a b => better a b ↔ rank a < rank b) :=
          List.pairwise_cons.mpr ⟨fun c hc => hhead c (List.mem_cons_of_mem _ hc),
            (List.pairwise_cons.mp htail).2⟩
        rw [if_neg hab, ih a hskip, foremost_of_le rest hle]

theorem foremost_map (rank : μ → ρ) (f : ν → μ) (l : List ν) :
    foremost rank (l.map f) = (foremost (fun x => rank (f x)) l).map f := by
  have htop : (top rank (l.map f)) ∘ f = top (fun x => rank (f x)) l := by
    funext x
    simp [top, Function.comp_def]
  rw [foremost, foremost, List.find?_map, htop]

end Scan

/-- What is done to a queue of items that wait with a rank. A `take` also says which
items it had to pass over. -/
inductive FifoOp (κ ρ : Type) where
  | accept (k : κ) (r : ρ)
  | withdraw (k : κ)
  | take (k : κ) (skipped : List κ)
  deriving DecidableEq

section Keys
variable {ν κ ρ : Type} {label : ν → κ × ρ} {l : List ν} {q : ν}

/-- The items of a list have distinct keys. -/
def Distinct (label : ν → κ × ρ) (l : List ν) : Prop := (l.map (fun q => (label q).1)).Nodup

theorem Distinct.inj (h : Distinct label l) {p : ν} (hp : p ∈ l) (hq : q ∈ l)
    (he : (label p).1 = (label q).1) : p = q :=
  List.inj_on_of_nodup_map h hp hq he

theorem Distinct.nodup (h : Distinct label l) : l.Nodup := List.Nodup.of_map _ h

theorem Distinct.key_mem (hq : q ∈ l) : (label q).1 ∈ (l.map label).map Prod.fst :=
  List.mem_map_of_mem (List.mem_map_of_mem hq)

theorem Distinct.mem_map (h : Distinct label l) (hq : q ∈ l) {m : List ν} (hm : m ⊆ l) :
    label q ∈ m.map label ↔ q ∈ m := by
  constructor
  · intro he
    obtain ⟨p, hp, he⟩ := List.mem_map.mp he
    rw [← h.inj (hm hp) hq (by rw [he])]
    exact hp
  · exact List.mem_map_of_mem

variable [DecidableEq κ]

/-- The items that may be taken. -/
def eligible (skipped : List κ) (waiting : List (κ × ρ)) : List (κ × ρ) :=
  waiting.filter (fun x => x.1 ∉ skipped)

def dropKey (k : κ) (waiting : List (κ × ρ)) : List (κ × ρ) := waiting.filter (fun x => x.1 ≠ k)

/-- The items passed over are those the scan does not consider. -/
theorem eligible_map (h : Distinct label l) (may : ν → Bool) :
    eligible ((l.filter (fun q => !may q)).map (fun q => (label q).1)) (l.map label) =
      (l.filter may).map label := by
  rw [eligible, List.filter_map]
  congr 1
  refine List.filter_congr (fun p hp => ?_)
  rw [Bool.eq_iff_iff]
  simp only [Function.comp_apply, decide_eq_true_eq, List.mem_map, List.mem_filter, not_exists,
    not_and, and_imp]
  constructor
  · intro hno
    by_contra hmay
    exact hno p hp (by simpa using hmay) rfl
  · intro hmay x hx hnot he
    rw [h.inj hx hp he, hmay] at hnot
    cases hnot

variable [DecidableEq ν]

/-- The item that leaves is the one with its key. -/
theorem Distinct.dropKey (h : Distinct label l) (hq : q ∈ l) :
    dropKey (label q).1 (l.map label) = (l.erase q).map label := by
  rw [Lib.dropKey, List.filter_map, h.nodup.erase_eq_filter]
  congr 1
  refine List.filter_congr (fun p hp => ?_)
  rw [Bool.eq_iff_iff]
  simp only [Function.comp_apply, decide_eq_true_eq, bne_iff_ne, ne_eq]
  exact not_congr ⟨h.inj hp hq, fun he => he ▸ rfl⟩

end Keys

section Queue
variable {κ ρ : Type} [DecidableEq κ] [LinearOrder ρ]

/-- The items wait in the order in which they were accepted; a `take` gets the one that was
accepted earliest among the eligible ones of the highest rank. -/
def fifoStep (waiting : List (κ × ρ)) : FifoOp κ ρ → Option (List (κ × ρ))
  | .accept k r => if k ∈ waiting.map Prod.fst then none else some (waiting ++ [(k, r)])
  | .withdraw k => if k ∈ waiting.map Prod.fst then some (dropKey k waiting) else none
  | .take k skipped =>
    if (foremost Prod.snd (eligible skipped waiting)).map Prod.fst = some k then
      some (dropKey k waiting)
    else none

/-- What turned one queue into another: the items that left it and those that came. -/
def changes (leave : κ → FifoOp κ ρ) (before after : List (κ × ρ)) : List (FifoOp κ ρ) :=
  (before.filter (· ∉ after)).map (fun x => leave x.1) ++
    (after.filter (· ∉ before)).map (fun x => .accept x.1 x.2)

/-- An operation with the choice it makes left open. -/
inductive Demand (κ ρ : Type) where
  | accept (k : κ) (r : ρ)
  | withdraw (k : κ)
  | take
  deriving DecidableEq

def FifoOp.demand : FifoOp κ ρ → Demand κ ρ
  | .accept k r => .accept k r
  | .withdraw k => .withdraw k
  | .take _ _ => .take

def FifoOp.taken : FifoOp κ ρ → Option κ
  | .take k _ => some k
  | .accept _ _ | .withdraw _ => none

/-- The operation passes over nothing. -/
def FifoOp.Plain : FifoOp κ ρ → Prop
  | .take _ skipped => skipped = []
  | .accept _ _ | .withdraw _ => True

section Nodes
variable {ν : Type} [DecidableEq ν] {label : ν → κ × ρ} {l : List ν} {q : ν}

theorem changes_same (leave : κ → FifoOp κ ρ) (w : List (κ × ρ)) : changes leave w w = [] := by
  simp [changes]

theorem changes_accept (leave : κ → FifoOp κ ρ) {w : List (κ × ρ)} {x : κ × ρ}
    (h : x.1 ∉ w.map Prod.fst) : changes leave w (w ++ [x]) = [.accept x.1 x.2] := by
  have hx : x ∉ w := fun hm => h (List.mem_map_of_mem hm)
  have hkeep : w.filter (· ∉ w ++ [x]) = [] := by
    rw [List.filter_eq_nil_iff]
    intro y hy
    simp [hy]
  have hnew : (w ++ [x]).filter (· ∉ w) = [x] := by
    simp [List.filter_append, hx]
  rw [changes, hkeep, hnew]
  rfl

theorem changes_leave (leave : κ → FifoOp κ ρ) (h : Distinct label l) (hq : q ∈ l) :
    changes leave (l.map label) ((l.erase q).map label) = [leave (label q).1] := by
  have hout : (l.map label).filter (· ∉ (l.erase q).map label) = [label q] := by
    rw [List.filter_map]
    have hself : l.filter ((fun x => decide (x ∉ (l.erase q).map label)) ∘ label) =
        l.filter (fun p => p == q) := by
      refine List.filter_congr (fun p hp => ?_)
      rw [Bool.eq_iff_iff]
      simp only [Function.comp_apply, decide_eq_true_eq, beq_iff_eq,
        h.mem_map hp List.erase_subset, h.nodup.mem_erase_iff, hp, and_true, not_not]
    rw [hself, List.filter_beq, h.nodup.count, if_pos hq]
    rfl
  have hin : ((l.erase q).map label).filter (· ∉ l.map label) = [] := by
    rw [List.filter_eq_nil_iff]
    intro x hx
    obtain ⟨p, hp, rfl⟩ := List.mem_map.mp hx
    simp only [decide_eq_true_eq, not_not]
    exact List.mem_map_of_mem (List.mem_of_mem_erase hp)
  rw [changes, hout, hin]
  rfl

/-- Only what leaves could pass over anything. -/
theorem changes_plain {leave : κ → FifoOp κ ρ} {before after : List (κ × ρ)}
    (h : ∀ k, (leave k).Plain) : ∀ op ∈ changes leave before after, op.Plain := by
  intro op hop
  rw [changes, List.mem_append] at hop
  rcases hop with hop | hop
  · obtain ⟨x, -, rfl⟩ := List.mem_map.mp hop
    exact h x.1
  · obtain ⟨x, -, rfl⟩ := List.mem_map.mp hop
    trivial

theorem changes_clear (leave : κ → FifoOp κ ρ) (w : List (κ × ρ)) :
    changes leave w [] = w.map (fun x => leave x.1) := by
  simp [changes]

theorem run_accept {w : List (κ × ρ)} {x : κ × ρ} (h : x.1 ∉ w.map Prod.fst) :
    run fifoStep w [.accept x.1 x.2] = some (w ++ [x]) := by
  simp only [run, fifoStep, if_neg h, Option.bind_some]

theorem run_withdraw (h : Distinct label l) (hq : q ∈ l) :
    run fifoStep (l.map label) [.withdraw (label q).1] = some ((l.erase q).map label) := by
  have hkey : (label q).1 ∈ (l.map label).map Prod.fst := Distinct.key_mem hq
  simp only [run, fifoStep, if_pos hkey, h.dropKey hq, Option.bind_some]

theorem run_clear (h : Distinct label l) :
    run fifoStep (l.map label) ((l.map label).map (fun x => .withdraw x.1)) = some [] := by
  induction l with
  | nil => rfl
  | cons q l ih =>
    have hfirst := run_withdraw h (List.mem_cons_self (a := q) (l := l))
    rw [List.erase_cons_head] at hfirst
    have hsplit := run_append fifoStep ((q :: l).map label) [.withdraw (label q).1]
      ((l.map label).map (fun x => .withdraw x.1))
    rw [hfirst, Option.bind_some, ih (List.nodup_cons.mp h).2] at hsplit
    exact hsplit

/-- A scan over the items that may be taken takes what the queue prescribes. -/
theorem run_take (h : Distinct label l) (may : ν → Bool) (better : ν → ν → Prop)
    [DecidableRel better]
    (hbetter : (l.filter may).Pairwise (fun a b => better a b ↔ (label a).2 < (label b).2))
    (hq : firstBest better (l.filter may) = some q) :
    run fifoStep (l.map label)
      [.take (label q).1 ((l.filter (fun q => !may q)).map (fun q => (label q).1))] =
        some ((l.erase q).map label) := by
  rw [firstBest_eq_foremost hbetter] at hq
  have hmem : q ∈ l := (List.mem_filter.mp (List.mem_of_find?_eq_some hq)).1
  have hnext : (foremost Prod.snd (eligible
      ((l.filter (fun q => !may q)).map (fun q => (label q).1)) (l.map label))).map Prod.fst =
        some (label q).1 := by
    rw [eligible_map h, foremost_map, hq]
    rfl
  simp only [run, fifoStep, if_pos hnext, h.dropKey hmem, Option.bind_some]

/-- With nothing to pass over, the whole queue is scanned. -/
theorem run_take_all (h : Distinct label l) (better : ν → ν → Prop) [DecidableRel better]
    (hbetter : l.Pairwise (fun a b => better a b ↔ (label a).2 < (label b).2))
    (hq : firstBest better l = some q) :
    run fifoStep (l.map label) [.take (label q).1 []] = some ((l.erase q).map label) := by
  have hall : l.filter (fun _ => true) = l := List.filter_true l
  have hnone : l.filter (fun _ => !true) = [] := by simp
  have htake := run_take h (fun _ => true) better (q := q) (by rwa [hall]) (by rwa [hall])
  rwa [hnone] at htake

/-- What a step other than a `take` may do to a queue of nodes. -/
inductive QueueTurn (label label' : ν → κ × ρ) (l l' : List ν) : Prop where
  | keep (queue : l' = l)
  | accept (q : ν) (queue : l' = l ++ [q]) (fresh : (label' q).1 ∉ (l.map label).map Prod.fst)
  | withdraw (q : ν) (queue : l' = l.erase q)
  | clear (queue : l' = [])

theorem QueueTurn.run {label' : ν → κ × ρ} {l' : List ν} (h : QueueTurn label label' l l')
    (hd : Distinct label l) (hlabel : ∀ p ∈ l, label' p = label p) :
    Lib.run fifoStep (l.map label) (changes .withdraw (l.map label) (l'.map label')) =
      some (l'.map label') := by
  have hmap : ∀ m : List ν, m ⊆ l → m.map label' = m.map label :=
    fun m hm => List.map_congr_left (fun p hp => hlabel p (hm hp))
  cases h with
  | keep queue =>
    subst queue
    rw [hmap _ (fun _ hp => hp), changes_same]
    rfl
  | accept q queue fresh =>
    subst queue
    rw [List.map_append, hmap _ (fun _ hp => hp), List.map_singleton, changes_accept _ fresh]
    exact run_accept fresh
  | withdraw q queue =>
    subst queue
    rw [hmap _ List.erase_subset]
    by_cases hq : q ∈ l
    · rw [changes_leave _ hd hq]
      exact run_withdraw hd hq
    · rw [List.erase_of_not_mem hq, changes_same]
      rfl
  | clear queue =>
    subst queue
    rw [List.map_nil, changes_clear]
    exact run_clear hd

end Nodes

/-- Without passing anything over, the demands decide what is taken. -/
theorem takes_unique {ops ops' : List (FifoOp κ ρ)} {w t t' : List (κ × ρ)}
    (h : run fifoStep w ops = some t) (h' : run fifoStep w ops' = some t')
    (hplain : ∀ op ∈ ops, op.Plain) (hplain' : ∀ op ∈ ops', op.Plain)
    (hdemand : ops.map FifoOp.demand = ops'.map FifoOp.demand) : ops = ops' := by
  induction ops generalizing w ops' with
  | nil =>
    cases ops' with
    | nil => rfl
    | cons op' ops' => cases hdemand
  | cons op ops ih =>
    cases ops' with
    | nil => cases hdemand
    | cons op' ops' =>
      simp only [List.map_cons, List.cons.injEq] at hdemand
      obtain ⟨u, hu, hrest⟩ := run_cons h
      obtain ⟨u', hu', hrest'⟩ := run_cons h'
      have hop : op = op' := by
        have hp := hplain op (by simp)
        have hp' := hplain' op' (by simp)
        cases op with
        | accept k r | withdraw k =>
          cases op' <;> cases hdemand.1
          rfl
        | take k skipped =>
          cases op' with
          | accept k' r' => cases hdemand.1
          | withdraw k' => cases hdemand.1
          | take k' skipped' =>
            cases hp
            cases hp'
            simp only [fifoStep, Option.ite_none_right_eq_some] at hu hu'
            rw [hu.1, Option.some.injEq] at hu'
            rw [hu'.1]
      subst op'
      rw [hu, Option.some.injEq] at hu'
      subst u'
      rw [ih hrest hrest' (fun op hm => hplain op (List.mem_cons_of_mem _ hm))
        (fun op hm => hplain' op (List.mem_cons_of_mem _ hm)) hdemand.2]

end Queue

end HumanoidCore.Lib
