import Mathlib.Data.List.Nodup

namespace HumanoidCore.Lib

/-! Lists of keys and values, read with `List.lookup`. -/

variable {κ ν : Type} [BEq κ] [LawfulBEq κ] {entries : List (κ × ν)} {k : κ} {v : ν}

theorem mem_of_lookup (h : entries.lookup k = some v) : (k, v) ∈ entries := by
  obtain ⟨before, after, rfl, -⟩ := List.lookup_eq_some_iff.mp h
  simp

theorem lookup_of_mem (hkeys : (entries.map Prod.fst).Nodup) (h : (k, v) ∈ entries) :
    entries.lookup k = some v := by
  obtain ⟨before, after, rfl⟩ := List.append_of_mem h
  apply List.lookup_eq_some_iff.mpr
  refine ⟨before, after, rfl, ?_⟩
  intro e he
  rw [List.map_append, List.map_cons] at hkeys
  have hne := (List.nodup_append.mp hkeys).2.2 e.1 (List.mem_map_of_mem he) k (by simp)
  simpa using hne.symm

theorem lookup_absent (h : k ∉ entries.map Prod.fst) : entries.lookup k = none := by
  refine List.lookup_eq_none_iff.mpr fun e he => ?_
  simpa using fun heq : k = e.1 => h (heq ▸ List.mem_map_of_mem he)

end HumanoidCore.Lib
