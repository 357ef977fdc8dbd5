import HumanoidCore.Proofs.TreeReset

namespace HumanoidCore.BehaviorTrees
open Lib Core Missions

/-- Leaves that keep returning their terminal status until a reset, as long as the
answers are `ok`. -/
structure Latching (ok : (e : Request) → Answer e → Prop) where
  leaf : Leaf → Prop
  holds : Leaf → BTStatus → Prop
  tick : ∀ l : Leaf, leaf l.asBuilt → Ends ok (fun r => r.1.isTerminal = true → holds r.2 r.1) l.tick
  keep : ∀ (l : Leaf) (s : BTStatus), leaf l.asBuilt → holds l s → Ends ok (fun r => r.1 = s ∧ holds r.2 s) l.tick

/-- When a decorator whose child keeps to `s'` keeps to `s`. -/
def Decorator.keeps : Decorator → BTStatus → BTStatus → Prop
  | .limiter _ _, s', s => s' = .failure ∧ s = .failure
  | .repeater _ _, s', s => s' = s ∧ s ≠ .success
  | .retry limit _, s', s => s' = s ∧ (s = .failure → limit.maxAttempts = 1)
  | .timeout duration startTime, s', s => s' = s ∧ startTime = none ∧ 0 < duration
  | d, s', s => d.translate s' = s ∧ s.isTerminal = true

def Decorator.exhausted : Decorator → Prop
  | .limiter maxTicks tickCount => maxTicks ≤ tickCount
  | _ => False

section Stable
variable {ok : (e : Request) → Answer e → Prop} (L : Latching ok)

mutual
/-- The node has ended with `s` and keeps to it. -/
def Node.Rests (s : BTStatus) : Node → Prop
  | .leaf l => L.holds l s
  | .composite (.sequence _ currentIndex) children =>
    currentIndex = 0 ∧ RestInOrder .success s children
  | .composite (.selector _ currentIndex) children =>
    currentIndex = 0 ∧ RestInOrder .failure s children
  | .composite (.parallel policy) children =>
    ∃ ss, AllRest ss children ∧ parallelStatus policy ss (decide (0 < ss.count .aborted)) = s
  | .decorator d child =>
    d.exhausted ∧ s = .failure ∨ ∃ s', child.Rests s' ∧ s'.isTerminal = true ∧ d.keeps s' s
  | .childless _ => s = .failure

/-- All children keep to `goOn`, up to one that keeps to another status `s`. -/
def RestInOrder (goOn s : BTStatus) : List Node → Prop
  | [] => s = goOn
  | n :: ns =>
    n.Rests goOn ∧ RestInOrder goOn s ns ∨ n.Rests s ∧ s ≠ goOn ∧ s.isTerminal = true

def AllRest : List BTStatus → List Node → Prop
  | [], [] => True
  | s :: ss, n :: ns => n.Rests s ∧ s.isTerminal = true ∧ AllRest ss ns
  | _, _ => False
end

/-- No reset is among the visits. -/
def Unreset (v : Visits) : Prop := ∀ p, (p, .reset) ∉ v

theorem unreset_nil : Unreset [] := fun p h => absurd h (by simp)

theorem Unreset.below {v : Visits} (h : Unreset v) (i : Nat) : Unreset (below i v) := by
  intro p hp
  obtain ⟨p', -, hp'⟩ := mem_below.mp hp
  exact h p' hp'

theorem Unreset.append {v w : Visits} (h : Unreset v) (hw : Unreset w) : Unreset (v ++ w) := by
  intro p hp
  rcases List.mem_append.mp hp with hp | hp
  · exact h p hp
  · exact hw p hp

theorem Unreset.record {s : BTStatus} {n : Node} {v : Visits} (h : Unreset v) :
    Unreset (BehaviorTrees.record s n v).visits :=
  h.append fun p hp => by simp at hp

/-- A tick that finds the node at rest. -/
structure Rested (s : BTStatus) (status : BTStatus) (node : Node) (v : Visits) : Prop where
  status : status = s
  rests : node.Rests L s
  unreset : Unreset v

/-- What a leaf of this kind is known by, in every state. -/
abbrev Node.Leaves (n : Node) : Prop := AllLeaves (fun l => L.leaf l.asBuilt) n

section Keep

theorem tick_in_order_rested {goOn s : BTStatus} {ns : List Node}
    (ih : ∀ n ∈ ns, ∀ s, n.Rests L s →
      Ends ok (fun t => Rested L s t.status t.node t.visits) n.tick)
    (h : RestInOrder L goOn s ns) (i : Nat) :
    Ends ok (fun r => r.status = s ∧ r.index = 0 ∧ RestInOrder L goOn s r.children ∧
      Unreset r.visits) (tickInOrder goOn i 0 ns) := by
  induction ns generalizing i with
  | nil =>
    rw [tick_in_order_nil]
    exact ⟨h.symm, rfl, h, unreset_nil⟩
  | cons n ns rest =>
    rw [tick_in_order_next]
    rcases h with ⟨hn, hns⟩ | ⟨hn, hs, hterm⟩
    · refine ends_bind (ih n (by simp) goOn hn) fun t ht => ?_
      rw [if_pos ht.status]
      refine ends_bind (rest (fun m hm => ih m (by simp [hm])) hns (i + 1)) ?_
      rintro r ⟨hr, hindex, hrest, hunreset⟩
      exact ⟨hr, hindex, .inl ⟨ht.rests, hrest⟩, (ht.unreset.below i).append hunreset⟩
    · refine ends_bind (ih n (by simp) s hn) fun t ht => ?_
      rw [if_neg (by rw [ht.status]; exact hs), if_pos (by rw [ht.status]; exact hterm)]
      exact ⟨ht.status, rfl, .inr ⟨ht.rests, hs, hterm⟩, ht.unreset.below i⟩

theorem tick_all_rested {ss : List BTStatus} {ns : List Node}
    (ih : ∀ n ∈ ns, ∀ s, n.Rests L s →
      Ends ok (fun t => Rested L s t.status t.node t.visits) n.tick)
    (h : AllRest L ss ns) (i : Nat) :
    Ends ok (fun r => (r.map fun x => x.2.status) = ss ∧
      AllRest L ss (r.map fun x => x.2.node) ∧
      Unreset (r.flatMap fun x => below x.1 x.2.visits)) (tickAll i ns) := by
  induction ns generalizing i ss with
  | nil =>
    unfold tickAll
    cases ss with
    | nil => exact ⟨rfl, trivial, unreset_nil⟩
    | cons s ss => exact h.elim
  | cons n ns rest =>
    unfold tickAll
    cases ss with
    | nil => exact h.elim
    | cons s ss =>
      obtain ⟨hn, hterm, hns⟩ := h
      refine ends_bind (ih n (by simp) s hn) fun t ht => ?_
      refine ends_bind (rest (fun m hm => ih m (by simp [hm])) hns (i + 1)) ?_
      rintro r ⟨hr, hrest, hunreset⟩
      refine ⟨by simp [ht.status, hr], ⟨ht.rests, hterm, hrest⟩, ?_⟩
      exact (ht.unreset.below i).append hunreset

/-- A decorator's call that finds its child at rest. -/
def RestedOn (s : BTStatus) (r : Decorated Node) : Prop :=
  r.status = s ∧ (Node.decorator r.decorator r.child).Rests L s ∧ Unreset r.visits

theorem timed_out_now {duration : Int} (h : 0 < duration) (now : Int) :
    timedOut duration (some now) now = false := by
  simp [timedOut]
  omega

section Decorators
variable {child : Node} {s s' : BTStatus}
variable (ih : Ends ok (fun t => Rested L s' t.status t.node t.visits) child.tick)
include ih

theorem translate_tick_rested (d : Decorator) (hterm : s'.isTerminal = true)
    (hd : d.keeps s' s) (hs : d.translate s' = s) :
    Ends ok (RestedOn L s) (translateTick child.tick d) := by
  refine ends_bind ih fun t ht => ?_
  refine ⟨by rw [ht.status, hs], ?_, ht.unreset.below 0⟩
  exact .inr ⟨s', ht.rests, hterm, hd⟩

theorem limiter_tick_rested (maxTicks tickCount : Nat) (hs : s' = .failure ∧ s = .failure) :
    Ends ok (RestedOn L s) (limiterTick child.tick maxTicks tickCount child) := by
  obtain ⟨rfl, rfl⟩ := hs
  unfold limiterTick
  split
  case isTrue h => exact ⟨rfl, .inl ⟨h, rfl⟩, unreset_nil⟩
  case isFalse h =>
    refine ends_bind ih fun t ht => ?_
    exact ⟨ht.status, .inr ⟨.failure, ht.rests, rfl, rfl, rfl⟩, ht.unreset.below 0⟩

theorem repeat_tick_rested (repeatCount completedCount : Nat) (hterm : s'.isTerminal = true)
    (hs : s' = s ∧ s ≠ .success) :
    Ends ok (RestedOn L s) (repeatTick Node.reset child.tick repeatCount completedCount) := by
  obtain ⟨rfl, hne⟩ := hs
  refine ends_bind ih fun t ht => ?_
  have hrest := ht.rests
  split
  case h_1 h => exact absurd (ht.status.symm.trans h) hne
  case h_2 h =>
    have hs' := ht.status.symm.trans h
    exact ⟨hs'.symm, .inr ⟨s', ht.rests, hterm, rfl, hne⟩, ht.unreset.below 0⟩
  case h_3 h =>
    have hs' := ht.status.symm.trans h
    exact ⟨hs'.symm, .inr ⟨s', ht.rests, hterm, rfl, hne⟩, ht.unreset.below 0⟩
  case h_4 h =>
    rw [ht.status.symm.trans h] at hterm
    cases hterm
  case h_5 h =>
    rw [ht.status.symm.trans h] at hterm
    cases hterm

theorem retry_tick_rested (limit : RetryLimit) (failedAttempts : Nat)
    (hterm : s'.isTerminal = true)
    (hs : s' = s ∧ (s = .failure → limit.maxAttempts = 1)) :
    Ends ok (RestedOn L s) (retryTick Node.reset child.tick limit failedAttempts) := by
  obtain ⟨rfl, hlimit⟩ := hs
  refine ends_bind ih fun t ht => ?_
  have hrests : ∀ attempts, (Node.decorator (.retry limit attempts) t.node).Rests L s' :=
    fun attempts => .inr ⟨s', ht.rests, hterm, rfl, hlimit⟩
  split
  case h_1 h => exact ⟨(ht.status.symm.trans h).symm, hrests 0, ht.unreset.below 0⟩
  case h_2 h =>
    have hs' := ht.status.symm.trans h
    rw [if_pos (by rw [hlimit hs']; omega)]
    exact ⟨hs'.symm, hrests 0, ht.unreset.below 0⟩
  case h_3 h => exact ⟨(ht.status.symm.trans h).symm, hrests 0, ht.unreset.below 0⟩
  case h_4 h =>
    rw [ht.status.symm.trans h] at hterm
    cases hterm
  case h_5 h =>
    rw [ht.status.symm.trans h] at hterm
    cases hterm

theorem timeout_tick_rested (duration : Int) (startTime : Option Int)
    (hterm : s'.isTerminal = true) (hs : s' = s ∧ startTime = none ∧ 0 < duration) :
    Ends ok (RestedOn L s) (timeoutTick Node.reset child.tick duration startTime child) := by
  obtain ⟨rfl, rfl, hpos⟩ := hs
  refine ends_ask.mpr fun now _ => ?_
  dsimp only [Option.getD_none]
  rw [timed_out_now hpos now, if_neg (by simp)]
  refine ends_bind ih fun t ht => ends_ask.mpr fun afterTick _ => ?_
  rw [ht.status, hterm, if_neg (by simp), if_pos rfl]
  exact ⟨rfl, .inr ⟨s', ht.rests, hterm, rfl, rfl, hpos⟩, ht.unreset.below 0⟩

end Decorators

theorem parallel_status_nil (policy : ParallelPolicy) : parallelStatus policy [] false = .success := by
  have := policy.failureThreshold_pos
  simp [parallelStatus]
  omega

/-- A node at rest answers a tick as before and resets nothing, when nobody cancels. -/
theorem Node.tick_rested (hcalm : ∀ e r, ok e r → calm e r) (n : Node) (hn : n.Leaves L)
    (s : BTStatus) (h : n.Rests L s) :
    Ends ok (fun t => Rested L s t.status t.node t.visits) n.tick := by
  induction n using Node.ind generalizing s with
  | leaf l =>
    unfold Node.tick
    have hl : L.leaf l.asBuilt := (all_leaves_leaf (P := fun l => L.leaf l.asBuilt)).mp hn
    refine ends_bind (L.keep l s hl h) fun r hr => ?_
    exact ⟨hr.1, hr.2, unreset_nil.record⟩
  | composite c children ih =>
    have hn' := all_leaves_composite.mp hn
    have ih' : ∀ m ∈ children, ∀ s, m.Rests L s →
        Ends ok (fun t => Rested L s t.status t.node t.visits) m.tick :=
      fun m hm s hs => ih m hm (hn' m hm) s hs
    cases c with
    | sequence memory currentIndex =>
      obtain ⟨rfl, hrest⟩ := h
      unfold Node.tick
      refine ends_ask.mpr fun cancelled hc => ?_
      cases hcalm _ _ hc
      simp only [ite_self]
      refine ends_bind (tick_in_order_rested L ih' hrest 0) ?_
      rintro r ⟨hr, hindex, hrest', hunreset⟩
      exact ⟨hr, ⟨by simp [rememberedIndex, hindex], hrest'⟩, hunreset.record⟩
    | selector memory currentIndex =>
      obtain ⟨rfl, hrest⟩ := h
      unfold Node.tick
      refine ends_ask.mpr fun cancelled hc => ?_
      cases hcalm _ _ hc
      simp only [ite_self]
      refine ends_bind (tick_in_order_rested L ih' hrest 0) ?_
      rintro r ⟨hr, hindex, hrest', hunreset⟩
      exact ⟨hr, ⟨by simp [rememberedIndex, hindex], hrest'⟩, hunreset.record⟩
    | parallel policy =>
      obtain ⟨ss, hrest, hs⟩ := h
      unfold Node.tick
      refine ends_ask.mpr fun cancelled hc => ?_
      cases hcalm _ _ hc
      cases children with
      | nil =>
        cases ss with
        | nil => exact ⟨(parallel_status_nil policy).symm.trans hs, ⟨[], trivial, hs⟩,
            unreset_nil.record⟩
        | cons s' ss => exact hrest.elim
      | cons m ms =>
        refine ends_bind (tick_all_rested L ih' hrest 0) ?_
        rintro r ⟨rfl, hrest', hunreset⟩
        have hend : ∀ b : Bool, b = decide (0 < (r.map fun x => x.2.status).count .aborted) →
            Ends ok (fun t => Rested L s t.status t.node t.visits) (pure
              (record (parallelStatus policy (r.map fun x => x.2.status) b)
                (.composite (.parallel policy) (r.map fun x => x.2.node))
                (r.flatMap fun x => below x.1 x.2.visits))) := by
          rintro b rfl
          exact ⟨hs, ⟨_, hrest', hs⟩, hunreset.record⟩
        dsimp only
        split
        case isTrue haborted => exact hend true (by simpa using haborted)
        case isFalse haborted =>
          refine ends_ask.mpr fun cancelled hc => ?_
          cases hcalm _ _ hc
          exact hend false (by simpa using haborted)
  | decorator d child ih =>
    have hn' := all_leaves_decorator.mp hn
    unfold Node.tick
    have hend : Ends ok (RestedOn L s) (d.tick Node.reset child.tick child) := by
      refine ends_ask.mpr fun cancelled hc => ?_
      cases hcalm _ _ hc
      rcases h with ⟨hex, rfl⟩ | ⟨s', hchild, hterm, hkeeps⟩
      · cases d with
        | limiter maxTicks tickCount =>
          have hex' : maxTicks ≤ tickCount := hex
          simp only [limiterTick, hex', if_true]
          exact ⟨rfl, .inl ⟨hex, rfl⟩, unreset_nil⟩
        | _ => exact hex.elim
      · have ih' := ih hn' s' hchild
        cases d with
        | limiter maxTicks tickCount => exact limiter_tick_rested L ih' _ _ hkeeps
        | repeater repeatCount completedCount => exact repeat_tick_rested L ih' _ _ hterm hkeeps
        | retry limit failedAttempts => exact retry_tick_rested L ih' _ _ hterm hkeeps
        | timeout duration startTime => exact timeout_tick_rested L ih' _ _ hterm hkeeps
        | inverter => exact translate_tick_rested L ih' _ hterm hkeeps hkeeps.1
        | failer => exact translate_tick_rested L ih' _ hterm hkeeps hkeeps.1
        | succeeder => exact translate_tick_rested L ih' _ hterm hkeeps hkeeps.1
    refine ends_bind hend fun r hr => ?_
    exact ⟨hr.1, hr.2.1, hr.2.2.record⟩
  | childless d =>
    unfold Node.tick
    refine ends_ask.mpr fun cancelled hc => ?_
    cases hcalm _ _ hc
    exact ⟨h.symm, h, unreset_nil.record⟩

end Keep

/-- The children that a composite with memory has come past keep to `goOn`. -/
def CameBy (goOn : BTStatus) (k : Nat) (ns : List Node) : Prop := ∀ m ∈ ns.take k, m.Rests L goOn

mutual
def Node.Kept : Node → Prop
  | .leaf _ | .childless _ => True
  | .composite (.sequence memory currentIndex) children =>
    AllKept children ∧ (memory = true → CameBy L .success currentIndex children)
  | .composite (.selector memory currentIndex) children =>
    AllKept children ∧ (memory = true → CameBy L .failure currentIndex children)
  | .composite (.parallel _) children => AllKept children
  | .decorator _ child => child.Kept

def AllKept : List Node → Prop
  | [] => True
  | n :: ns => n.Kept ∧ AllKept ns
end

theorem all_kept_iff {ns : List Node} : AllKept L ns ↔ ∀ n ∈ ns, n.Kept L := by
  induction ns with
  | nil => simp [AllKept]
  | cons n ns ih => simp [AllKept, ih]

theorem Node.kept_as_built (n : Node) : n.asBuilt.Kept L := by
  induction n using Node.ind with
  | leaf l => trivial
  | childless d => trivial
  | composite c children ih =>
    have hall : AllKept L (childrenAsBuilt children) := by
      rw [all_kept_iff, children_as_built_map]
      simpa using ih
    cases c with
    | sequence memory currentIndex => exact ⟨hall, fun _ => by simp [CameBy]⟩
    | selector memory currentIndex => exact ⟨hall, fun _ => by simp [CameBy]⟩
    | parallel policy => exact hall
  | decorator d child ih => exact ih

end Stable

/-- The ways to end that another tick does not confirm. `p` is the position of the node. -/
def endsShakily (v : Visits) (p : Path) (s : BTStatus) : Node → Prop
  | .decorator (.limiter _ _) _ => s = .success ∨ s = .aborted
  | .decorator (.repeater _ _) _ => s = .success
  | .decorator (.retry limit _) _ => s = .failure ∧ 1 < limit.maxAttempts
  | .decorator (.timeout _ _) _ => s = .failure ∧ (p ++ [0], .reset) ∈ v
  | .decorator .failer _ | .decorator .succeeder _ => (p ++ [0], .ticked .idle) ∈ v
  | .composite (.parallel _) _ =>
    s.isTerminal = true ∧ ∃ i s', s'.isTerminal = false ∧ (p ++ [i], .ticked s') ∈ v
  | _ => False

/-- Some node below `n` ended in such a way in this call. -/
def Shaky (n : Node) (v : Visits) : Prop :=
  ∃ p m s, n.at p = some m ∧ (p, .ticked s) ∈ v ∧ endsShakily v p s m

/-- The same for the children from index `i` on. -/
def ShakyFrom (i : Nat) (ns : List Node) (v : Visits) : Prop :=
  ∃ k n w, ns[k]? = some n ∧ Shaky n w ∧ ∀ p e, (p, e) ∈ w → ((i + k) :: p, e) ∈ v

theorem Shaky.lift {n b : Node} {v w : Visits} {i : Nat} (h : Shaky b w)
    (hb : n.child? i = some b) (hw : ∀ p e, (p, e) ∈ w → (i :: p, e) ∈ v) : Shaky n v := by
  obtain ⟨p, m, s, hat, hv, hend⟩ := h
  refine ⟨i :: p, m, s, by simpa [hb] using hat, hw p _ hv, ?_⟩
  unfold endsShakily at hend ⊢
  split at hend
  · exact hend
  · exact hend
  · exact hend
  · exact ⟨hend.1, hw _ _ hend.2⟩
  · exact hw _ _ hend
  · exact hw _ _ hend
  · obtain ⟨hs, j, s', hs', hj⟩ := hend
    exact ⟨hs, j, s', hs', hw _ _ hj⟩
  · exact hend.elim

theorem ShakyFrom.parent {n : Node} {ns : List Node} {v w : Visits} (h : ShakyFrom 0 ns w)
    (hn : ∀ i, n.child? i = ns[i]?) (hw : ∀ p e, (p, e) ∈ w → (p, e) ∈ v) : Shaky n v := by
  obtain ⟨k, b, u, hk, hshaky, hu⟩ := h
  rw [Nat.zero_add] at hu
  exact hshaky.lift ((hn k).trans hk) fun p e he => hw _ _ (hu p e he)

theorem Shaky.head {i : Nat} {n : Node} {ns : List Node} {v w : Visits} (h : Shaky n w)
    (hw : ∀ p e, (p, e) ∈ below i w → (p, e) ∈ v) : ShakyFrom i (n :: ns) v :=
  ⟨0, n, w, rfl, h, fun p _ he => hw _ _ (mem_below.mpr ⟨p, rfl, he⟩)⟩

theorem ShakyFrom.tail {i : Nat} {n : Node} {ns : List Node} {v w : Visits}
    (h : ShakyFrom (i + 1) ns w) (hw : ∀ p e, (p, e) ∈ w → (p, e) ∈ v) :
    ShakyFrom i (n :: ns) v := by
  obtain ⟨k, b, u, hk, hshaky, hu⟩ := h
  refine ⟨k + 1, b, u, hk, hshaky, fun p e he => ?_⟩
  rw [show i + (k + 1) = i + 1 + k by omega]
  exact hw _ _ (hu p e he)

end HumanoidCore.BehaviorTrees
