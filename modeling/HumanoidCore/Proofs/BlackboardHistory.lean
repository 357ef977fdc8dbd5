import HumanoidCore.Blackboard
import HumanoidCore.Lib.History
import HumanoidCore.Lib.Totals

namespace HumanoidCore.Proofs.BlackboardHistory
open Lib Blackboard

variable {τ ν : Type}

/-- The values of a namespace, whether it is there or not. -/
def named (values : Values τ ν) (n : String) : NamespaceValues τ ν := (values.get? n).getD ∅

/-- A namespace gets these values, and goes with its last one. -/
def put (values : Values τ ν) (n : String) (found : NamespaceValues τ ν) : Values τ ν :=
  if found.entries = [] then values.erase n else values.insert n found

/-- A namespace is there only as long as it has a value. -/
def Tidy (values : Values τ ν) : Prop := ∀ n found, values.get? n = some found → found.entries ≠ []

theorem tidy_empty : Tidy (∅ : Values τ ν) := by
  intro n found h
  simp at h

theorem Tidy.put {values : Values τ ν} (h : Tidy values) (n : String)
    (found : NamespaceValues τ ν) : Tidy (put values n found) := by
  intro n' found' h'
  unfold BlackboardHistory.put at h'
  split at h'
  · rw [Map.get?_erase] at h'
    split at h'
    · cases h'
    · exact h n' found' h'
  · rename_i hne
    rw [Map.get?_insert] at h'
    split at h'
    · cases h'
      exact hne
    · exact h n' found' h'

theorem get?_of_entries {found : NamespaceValues τ ν} (h : found.entries = []) (k : String) :
    found.get? k = none := by
  rw [Map.get?_eq_none, AList.mem_keys, AList.keys, h]
  exact List.not_mem_nil

theorem getValue_of_valid {values : Values τ ν} {n k : String} (h : isValidAddress n k = true) :
    getValue values n k = (named values n).get? k := by
  unfold getValue named
  rw [h]
  cases values.get? n <;> rfl

theorem getValue_put {values : Values τ ν} {n k : String} (h : isValidAddress n k = true)
    (n' : String) (found : NamespaceValues τ ν) :
    getValue (put values n' found) n k = if n' = n then found.get? k else getValue values n k := by
  rw [getValue_of_valid h, getValue_of_valid h]
  unfold put named
  by_cases hn : n' = n
  · subst n'
    split
    · rename_i hempty
      simp [get?_of_entries hempty]
    · simp
  · have hn' : ¬ n = n' := Ne.symm hn
    split <;> simp [hn']

/-- The calls that decide what is at an address. -/
def touches (namespaceName key : String) : Op τ ν → Bool
  | .store n k _ value => value.isSome && n = namespaceName && k = key
  | .remove n k => n = namespaceName && k = key
  | .clear n => n = namespaceName
  | .clearAll => true

/-- A call that finds nothing at the addresses it decides, and does not store there. -/
def Idle (values : Values τ ν) (op : Op τ ν) : Prop :=
  ∀ n k, isValidAddress n k = true → touches n k op = true →
    getValue values n k = none ∧ ∀ type v, op ≠ .store n k type (some v)

/-- How a call changes the values: not at all, in one namespace, or everywhere. -/
inductive Change (values : Values τ ν) : Op τ ν → Values τ ν × Nat → Prop
  | refused (op : Op τ ν) (idle : Idle values op) : Change values op (values, 0)
  | stored (n k : String) (type : τ) (v : ν) (valid : isValidAddress n k = true) :
      Change values (.store n k type (some v))
        (put values n ((named values n).insert k ⟨type, v⟩), 1)
  | removed (n k : String) (held : ValueHolder τ ν) (mine : (named values n).get? k = some held) :
      Change values (.remove n k) (put values n ((named values n).erase k), 1)
  | cleared (n : String) :
      Change values (.clear n) (put values n ∅, (named values n).entries.length)
  | clearedAll :
      Change values .clearAll (∅, values.total (fun found => found.entries.length))

theorem change_store (values : Values τ ν) (n k : String) (type : τ) (value : Option ν) :
    Change values (.store n k type value) (apply values (.store n k type value)) := by
  cases value with
  | none =>
    apply Change.refused
    intro n' k' _ htouch
    simp [touches] at htouch
  | some v =>
    by_cases hvalid : isValidAddress n k = true
    · have hput : put values n ((named values n).insert k ⟨type, v⟩) =
          values.insert n ((named values n).insert k ⟨type, v⟩) := if_neg (by simp [Map.insert])
      have hstored : Change values _ _ := .stored n k type v hvalid
      rw [hput] at hstored
      simp only [apply, storeShared, storeValue, hvalid, Bool.not_true, Bool.false_eq_true, if_false]
      exact hstored
    · simp only [apply, storeShared, storeValue, hvalid, Bool.not_false, if_true]
      apply Change.refused
      intro n' k' hvalid' htouch
      obtain ⟨rfl, rfl⟩ : n = n' ∧ k = k' := by simpa [touches] using htouch
      exact absurd hvalid' hvalid

theorem idle_remove {values : Values τ ν} {n k : String}
    (h : isValidAddress n k = true → getValue values n k = none) :
    Idle values (.remove n k : Op τ ν) := by
  intro n' k' hvalid htouch
  obtain ⟨rfl, rfl⟩ : n = n' ∧ k = k' := by simpa [touches] using htouch
  exact ⟨h hvalid, by simp⟩

theorem change_remove (values : Values τ ν) (n k : String) :
    Change values (.remove n k) (apply values (.remove n k)) := by
  by_cases hvalid : isValidAddress n k = true
  · simp only [apply, remove, hvalid, Bool.not_true, Bool.false_eq_true, if_false]
    cases hn : values.get? n with
    | none =>
      apply Change.refused
      apply idle_remove
      intro _
      simp [getValue_of_valid hvalid, named, hn]
    | some found =>
      have hnamed : named values n = found := by simp [named, hn]
      cases hk : found.get? k with
      | none =>
        simp only [hk, if_true]
        apply Change.refused
        apply idle_remove
        intro _
        rw [getValue_of_valid hvalid, hnamed, hk]
      | some held =>
        have hremoved : Change values _ _ := .removed n k held (hnamed ▸ hk)
        rw [hnamed, put] at hremoved
        simp only [hk, reduceCtorEq, if_false, List.isEmpty_iff]
        split at hremoved <;> rename_i hlast <;> simpa [hlast] using hremoved
  · simp only [apply, remove, hvalid, Bool.not_false, if_true]
    apply Change.refused
    apply idle_remove
    intro h
    exact absurd h hvalid

theorem change_clear (values : Values τ ν) (n : String) :
    Change values (.clear n) (apply values (.clear n)) := by
  simp only [apply, clear]
  by_cases hempty : n = ""
  · rw [if_pos hempty]
    apply Change.refused
    intro n' k hvalid htouch
    obtain rfl : n = n' := by simpa [touches] using htouch
    simp [isValidAddress, hempty] at hvalid
  · have hput : put values n ∅ = values.erase n := if_pos rfl
    have hcleared : Change values _ _ := .cleared n
    rw [hput] at hcleared
    rw [if_neg hempty]
    cases hn : values.get? n with
    | none =>
      rw [Map.erase_of_free hn] at hcleared
      simpa [named, hn] using hcleared
    | some found => simpa [named, hn] using hcleared

/-- Everything a call can do. -/
theorem apply_change (values : Values τ ν) (op : Op τ ν) : Change values op (apply values op) := by
  cases op with
  | store n k type value => exact change_store values n k type value
  | remove n k => exact change_remove values n k
  | clear n => exact change_clear values n
  | clearAll => exact .clearedAll

theorem Tidy.next {values : Values τ ν} (h : Tidy values) (op : Op τ ν) :
    Tidy (next values op) := by
  have hc := apply_change values op
  unfold Blackboard.next
  generalize apply values op = result at hc ⊢
  cases hc with
  | refused _ idle => exact h
  | stored n k type v valid => exact h.put n _
  | removed n k held mine => exact h.put n _
  | cleared n => exact h.put n ∅
  | clearedAll => exact tidy_empty

/-- A value is at an address after the call that stored it, and as long as no call decides
what is there. -/
theorem getValue_next (values : Values τ ν) (op : Op τ ν) {n k : String}
    (h : isValidAddress n k = true) (type : τ) (v : ν) :
    getValue (next values op) n k = some ⟨type, v⟩ ↔ op = .store n k type (some v) ∨
      getValue values n k = some ⟨type, v⟩ ∧ ¬ touches n k op = true := by
  have hc := apply_change values op
  unfold Blackboard.next
  generalize apply values op = result at hc ⊢
  cases hc with
  | refused _ idle =>
    by_cases htouch : touches n k op = true
    · obtain ⟨hnone, hstore⟩ := idle n k h htouch
      simp [hnone, hstore, htouch]
    · have hstore : op ≠ .store n k type (some v) := by
        intro hop
        simp [hop, touches] at htouch
      simp [hstore, htouch]
  | stored n' k' type' v' valid =>
    rw [getValue_put h, Map.get?_insert]
    by_cases hn : n' = n
    · subst n'
      by_cases hk : k = k'
      · simp [hk, touches]
      · have hk' : ¬ k' = k := Ne.symm hk
        simp [hk, hk', touches, getValue_of_valid h]
    · simp [hn, touches]
  | removed n' k' held mine =>
    rw [getValue_put h, Map.get?_erase]
    by_cases hn : n' = n
    · subst n'
      by_cases hk : k = k'
      · simp [hk, touches]
      · have hk' : ¬ k' = k := Ne.symm hk
        simp [hk, hk', touches, getValue_of_valid h]
    · simp [hn, touches]
  | cleared n' =>
    rw [getValue_put h]
    by_cases hn : n' = n <;> simp [hn, touches]
  | clearedAll => simp [getValue_of_valid h, named, touches]

/-- The values held. -/
def held (values : Values τ ν) : Nat := values.total (fun found => found.entries.length)

/-- How many values a call that answers `count` puts where there was none. -/
def filled (values : Values τ ν) : Op τ ν → Nat → Nat
  | .store n k _ _, count => if contains values n k then 0 else count
  | _, _ => 0

/-- How many values a call that answers `count` says it removed. -/
def removed : Op τ ν → Nat → Nat
  | .store _ _ _ _, _ => 0
  | _, count => count

theorem held_put (values : Values τ ν) (n : String) (found : NamespaceValues τ ν) :
    held (put values n found) + (named values n).entries.length =
      held values + found.entries.length := by
  unfold put held named
  split
  · rename_i hempty
    rw [hempty]
    cases hn : values.get? n with
    | none =>
      rw [Map.erase_of_free hn]
      rfl
    | some old => exact Map.total_erase (fun found => found.entries.length) hn
  · have hx := Map.total_insert_exchange (fun found => found.entries.length) values n found
    cases hn : values.get? n with
    | none => simpa [hn] using hx
    | some old => simpa [hn] using hx

theorem length_insert (found : NamespaceValues τ ν) (k : String) (v : ValueHolder τ ν) :
    (found.insert k v).entries.length + (found.get? k).elim 0 (fun _ => 1) =
      found.entries.length + 1 := by
  have hx := Map.total_insert_exchange (fun _ => 1) found k v
  rwa [Map.total_one, Map.total_one] at hx

theorem length_erase {found : NamespaceValues τ ν} {k : String} {v : ValueHolder τ ν}
    (h : found.get? k = some v) : (found.erase k).entries.length + 1 = found.entries.length := by
  have hx := Map.total_erase (fun _ => 1) h
  rwa [Map.total_one, Map.total_one] at hx

/-- What a call takes out and leaves behind is what was there and what it brings. -/
theorem balanced {values : Values τ ν} {op : Op τ ν} {result : Values τ ν × Nat}
    (h : Change values op result) :
    held result.1 + removed op result.2 = held values + filled values op result.2 := by
  cases h with
  | refused _ idle => cases op <;> simp [removed, filled]
  | stored n k type v valid =>
    have hput := held_put values n ((named values n).insert k ⟨type, v⟩)
    have hin := length_insert (named values n) k ⟨type, v⟩
    simp only [removed, filled, contains, getValue_of_valid valid]
    cases hk : (named values n).get? k with
    | none =>
      rw [hk, Option.elim_none] at hin
      simp only [Option.isSome_none, Bool.false_eq_true, if_false]
      omega
    | some old =>
      rw [hk, Option.elim_some] at hin
      simp only [Option.isSome_some, if_true]
      omega
  | removed n k v mine =>
    have hput := held_put values n ((named values n).erase k)
    have hin := length_erase mine
    simp only [BlackboardHistory.removed, filled]
    omega
  | cleared n => exact held_put values n ∅
  | clearedAll => simp [held, removed, filled]

theorem get_eq_some [DecidableEq τ] {values : Values τ ν} {type : τ} {n k : String} {v : ν} :
    Blackboard.get values type n k = some v ↔ getValue values n k = some ⟨type, v⟩ := by
  unfold Blackboard.get
  cases getValue values n k with
  | none => simp
  | some stored =>
    obtain ⟨type', v'⟩ := stored
    by_cases htype : type' = type
    · simp [htype]
    · simp [htype]

theorem get_history [DecidableEq τ] (ops : List (Op τ ν)) (type : τ) (n k : String) (v : ν) :
    Blackboard.get (after ops) type n k = some v ↔ isValidAddress n k = true ∧
      ∃ before later, ops = before ++ .store n k type (some v) :: later ∧
        ∀ op ∈ later, ¬ touches n k op = true := by
  rw [get_eq_some]
  cases hvalid : isValidAddress n k with
  | false => simp [getValue, hvalid]
  | true =>
    have hempty : ¬ getValue (∅ : Values τ ν) n k = some ⟨type, v⟩ := by
      simp [getValue_of_valid hvalid, named]
    have hsince := foldl_since (P := fun values => getValue values n k = some ⟨type, v⟩)
      (I := fun _ => True) (fun _ _ _ => trivial)
      (fun values op _ => getValue_next values op hvalid type v) trivial hempty ops
    rw [after, hsince]
    constructor
    · intro h
      obtain ⟨before, op, later, hops, rfl, hlater⟩ := h
      exact ⟨rfl, before, later, hops, hlater⟩
    · intro h
      obtain ⟨-, before, later, hops, hlater⟩ := h
      exact ⟨before, _, later, hops, rfl, hlater⟩

/-- At every address is what the last call left there, no namespace is kept without a
value, and every value once put at a free address is still held or was reported removed. -/
theorem blackboard_accounts [DecidableEq τ] (ops : List (Op τ ν)) :
    (∀ type n k v, Blackboard.get (after ops) type n k = some v ↔ isValidAddress n k = true ∧
      ∃ before later, ops = before ++ .store n k type (some v) :: later ∧
        ∀ op ∈ later, ¬ touches n k op = true) ∧
    (∀ n found, (after ops).get? n = some found → found.entries ≠ []) ∧
    held (after ops) + along next (fun values op => removed op (apply values op).2) ∅ ops =
      along next (fun values op => filled values op (apply values op).2) ∅ ops := by
  refine ⟨get_history ops, ?_, ?_⟩
  · exact foldl_keeps (fun values op h => h.next op) ops tidy_empty
  · have hsum := foldl_balance (fun values op => balanced (apply_change values op)) ∅ ops
    have hempty : held (∅ : Values τ ν) = 0 := rfl
    rwa [hempty, Nat.zero_add] at hsum

end HumanoidCore.Proofs.BlackboardHistory
