import Mathlib.Data.List.AList

namespace HumanoidCore.Lib

variable {κ ν : Type} [DecidableEq κ]

/-- Finite maps with one value type: at most one value for a key. -/
abbrev Map (κ ν : Type) := AList (fun _ : κ => ν)

namespace Map

/-- `AList.lookup` with a type that does not mention the key. -/
def get? (m : Map κ ν) (k : κ) : Option ν := AList.lookup k m

def insert (m : Map κ ν) (k : κ) (v : ν) : Map κ ν := AList.insert k v m

def erase (m : Map κ ν) (k : κ) : Map κ ν := AList.erase k m

/-- Inserts only where the key is free. -/
def emplace (m : Map κ ν) (k : κ) (v : ν) : Map κ ν := if k ∈ m then m else m.insert k v

@[simp] theorem get?_empty (k : κ) : get? (∅ : Map κ ν) k = none := rfl

@[simp] theorem get?_insert (m : Map κ ν) (k k' : κ) (v : ν) :
    (m.insert k v).get? k' = if k' = k then some v else m.get? k' := by
  unfold get? insert
  split
  · rename_i he
    subst k'
    exact AList.lookup_insert m
  · rename_i hn
    exact AList.lookup_insert_ne hn

@[simp] theorem get?_erase (m : Map κ ν) (k k' : κ) :
    (m.erase k).get? k' = if k' = k then none else m.get? k' := by
  unfold get? erase
  split
  · rename_i he
    subst k'
    exact AList.lookup_erase k m
  · rename_i hn
    exact AList.lookup_erase_ne hn

@[simp] theorem mem_insert {m : Map κ ν} {k k' : κ} {v : ν} :
    k' ∈ m.insert k v ↔ k' = k ∨ k' ∈ m :=
  AList.mem_insert m

@[simp] theorem mem_erase {m : Map κ ν} {k k' : κ} : k' ∈ m.erase k ↔ k' ≠ k ∧ k' ∈ m :=
  AList.mem_erase

theorem mem_iff {m : Map κ ν} {k : κ} : k ∈ m ↔ ∃ v, m.get? k = some v := by
  rw [← AList.lookup_isSome]
  exact Option.isSome_iff_exists

theorem mem_of_get? {m : Map κ ν} {k : κ} {v : ν} (h : m.get? k = some v) : k ∈ m :=
  mem_iff.mpr ⟨v, h⟩

theorem get?_eq_none {m : Map κ ν} {k : κ} : m.get? k = none ↔ k ∉ m :=
  AList.lookup_eq_none

theorem mem_entries {m : Map κ ν} {e : Sigma (fun _ : κ => ν)} :
    e ∈ m.entries ↔ m.get? e.1 = some e.2 := by
  unfold get?
  exact (AList.mem_lookup_iff (s := m) (a := e.1) (b := e.2)).symm

end Map

end HumanoidCore.Lib
