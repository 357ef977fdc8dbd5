import HumanoidCore.Lib.Map
import Mathlib.Algebra.GroupWithZero.Nat

namespace HumanoidCore.Lib.Map

variable {κ ν : Type}

/-- What the values of a map come to. -/
def total (f : ν → Nat) (m : Map κ ν) : Nat := (m.entries.map (fun e => f e.2)).sum

@[simp] theorem total_empty (f : ν → Nat) : total f (∅ : Map κ ν) = 0 := rfl

theorem total_one (m : Map κ ν) : total (fun _ => 1) m = m.entries.length := by
  simp [total]

variable [DecidableEq κ]

/-- A key that is erased takes along what its value came to. -/
theorem total_erase (f : ν → Nat) {m : Map κ ν} {k : κ} {v : ν} (h : m.get? k = some v) :
    total f (m.erase k) + f v = total f m := by
  obtain ⟨w, front, back, -, hm, herase⟩ := List.exists_of_kerase (mem_of_get? h)
  have hmem : (⟨k, w⟩ : Sigma fun _ : κ => ν) ∈ m.entries := by
    rw [hm]
    exact List.mem_append_right front List.mem_cons_self
  have hw : m.get? k = some w := mem_entries.mp hmem
  obtain rfl : v = w := Option.some.inj (h.symm.trans hw)
  have hleft : (m.erase k).entries = front ++ back := herase
  simp only [total, hleft, hm, List.map_append, List.map_cons, List.sum_append, List.sum_cons]
  omega

theorem erase_of_free {m : Map κ ν} {k : κ} (h : m.get? k = none) : m.erase k = m :=
  AList.ext (List.kerase_of_notMem_keys (get?_eq_none.mp h))

theorem total_insert (f : ν → Nat) (m : Map κ ν) (k : κ) (v : ν) :
    total f (m.insert k v) = f v + total f (m.erase k) := by
  unfold total insert
  rw [AList.entries_insert, List.map_cons, List.sum_cons]
  rfl

/-- An insertion exchanges what was under the key for what is now. -/
theorem total_insert_exchange (f : ν → Nat) (m : Map κ ν) (k : κ) (v : ν) :
    total f (m.insert k v) + (m.get? k).elim 0 f = total f m + f v := by
  rw [total_insert]
  cases h : m.get? k with
  | none =>
    rw [erase_of_free h, Option.elim_none]
    omega
  | some w =>
    have he := total_erase f h
    rw [Option.elim_some]
    omega

end HumanoidCore.Lib.Map
