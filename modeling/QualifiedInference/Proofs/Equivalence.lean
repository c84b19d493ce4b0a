-- SUMMARY: Maps and records with the same contents in different orders.
import Mathlib.Data.List.Nodup
import Mathlib.Data.List.Perm.Basic
import QualifiedInference.Relations
import QualifiedInference.TargetMap
/-!
# Maps and records up to order

Maps that hold the same values are the same up to the order of their entries, and the
comparisons decide just that. Two equal records differ in the order of recording only.
-/

namespace QualifiedInference

namespace OrderedMap

variable {κ α : Type} [DecidableEq κ] {m n : OrderedMap κ α}

theorem get?_eq_some_iff {k : κ} {a : α} : m.get? k = some a ↔ (k, a) ∈ m.entries := by
  constructor
  · intro h
    obtain ⟨e, he, rfl⟩ := List.mem_map.1 (mem_of_get? h)
    have hget := get?_of_mem_entries he
    simp only [h, Option.some.injEq] at hget
    exact hget ▸ he
  · exact get?_of_mem_entries

omit [DecidableEq κ] in
theorem nodup_entries (m : OrderedMap κ α) : m.entries.Nodup := .of_map _ m.nodup_keys

theorem Equiv.mem_iff (h : m.Equiv n) (k : κ) : k ∈ n ↔ k ∈ m := by
  rw [← isSome_get?, ← isSome_get?, h k]

theorem equiv_iff_perm : m.Equiv n ↔ m.entries.Perm n.entries := by
  simp only [List.perm_ext_iff_of_nodup m.nodup_entries n.nodup_entries, Prod.forall,
    ← get?_eq_some_iff]
  exact ⟨fun h k a => by rw [h k], fun h k => Option.ext (h k)⟩

theorem equiv_iff [BEq α] [LawfulBEq α] : m.equiv n = true ↔ m.Equiv n := by
  simp only [equiv, size, Bool.and_eq_true, beq_iff_eq, List.all_eq_true]
  constructor
  · rintro ⟨hlen, hall⟩
    have hsub : m.entries ⊆ n.entries := fun e he => get?_eq_some_iff.1 (hall e he)
    exact equiv_iff_perm.2
      ((List.subperm_of_subset m.nodup_entries hsub).perm_of_length_le (Nat.le_of_eq hlen.symm))
  · intro h
    exact ⟨(equiv_iff_perm.1 h).length_eq, fun e he => h e.1 ▸ get?_of_mem_entries he⟩

end OrderedMap

namespace TargetMap

variable {α : Type} {m n : TargetMap α}

theorem equiv_toOrdered : m.toOrdered.Equiv n.toOrdered ↔ m.Equiv n := by
  simp only [OrderedMap.Equiv, Equiv, get?_toOrdered]

theorem equiv_iff [BEq α] [LawfulBEq α] : m.equiv n = true ↔ m.Equiv n := by
  rw [← equiv_toOrdered, ← OrderedMap.equiv_iff]
  simp only [equiv, OrderedMap.equiv, get?_toOrdered]
  rfl

end TargetMap

end QualifiedInference
