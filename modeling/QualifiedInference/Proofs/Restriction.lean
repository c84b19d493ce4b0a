-- SUMMARY: Restriction of maps and stores to some of their targets.
import QualifiedInference.Answers
import QualifiedInference.Proofs.Maps
import QualifiedInference.Store
/-!
# Restriction to some targets

The part of a map or of a store that is about the targets that `keep` selects, in the same
order. A write to a kept target and its restriction can be swapped; a write to another one is
lost.
-/

namespace QualifiedInference

namespace TargetMap

variable {α : Type}

/-- The entries of the targets that are kept. -/
def restrict (m : TargetMap α) (keep : Target → Bool) : TargetMap α :=
  .ofList (m.entries.filter fun e => keep e.1)

theorem entries_restrict (m : TargetMap α) (keep : Target → Bool) :
    (m.restrict keep).entries = m.entries.filter fun e => keep e.1 := by
  have hnodup : ((m.entries.filter fun e => keep e.1).map Prod.fst).Nodup :=
    (List.filter_sublist.map Prod.fst).nodup m.nodup_keys
  exact entries_ofList hnodup

theorem keys_restrict (m : TargetMap α) (keep : Target → Bool) :
    (m.restrict keep).keys = m.keys.filter keep := by
  simp only [keys, entries_restrict, List.filter_map]
  rfl

theorem mem_restrict {m : TargetMap α} {keep : Target → Bool} {t : Target} :
    t ∈ m.restrict keep ↔ t ∈ m ∧ keep t = true := by
  rw [mem_def, keys_restrict, List.mem_filter]
  rfl

theorem get?_restrict (m : TargetMap α) (keep : Target → Bool) (t : Target) :
    (m.restrict keep).get? t = if keep t then m.get? t else none := by
  split
  · next hk =>
    cases h : m.get? t with
    | none =>
      simp only [get?_eq_none_iff] at h ⊢
      exact fun hmem => h (mem_restrict.1 hmem).1
    | some a =>
      have hmem : (t, a) ∈ (m.restrict keep).entries := by
        simp only [entries_restrict, List.mem_filter]
        exact ⟨mem_entries_of_get? h, hk⟩
      exact get?_of_mem_entries hmem
  · next hk =>
    simp only [get?_eq_none_iff, mem_restrict]
    exact fun h => hk h.2

theorem get?_restrict_of_keep (m : TargetMap α) {keep : Target → Bool} {t : Target}
    (h : keep t = true) : (m.restrict keep).get? t = m.get? t := by
  rw [get?_restrict, if_pos h]

theorem get?_restrict_of_not_keep (m : TargetMap α) {keep : Target → Bool} {t : Target}
    (h : keep t = false) : (m.restrict keep).get? t = none := by
  simp [get?_restrict, h]

/-- Maps with the same keys in the same order and the same values are equal. -/
theorem ext_get? {m m' : TargetMap α} (hkeys : m.keys = m'.keys)
    (hget : ∀ t, m.get? t = m'.get? t) : m = m' := by
  have hentries : ∀ m : TargetMap α,
      m.entries = m.keys.filterMap fun t => (m.get? t).map (t, ·) := fun m => by
    have hsome : m.entries.filterMap some =
        m.entries.filterMap fun e => (m.get? e.1).map (e.1, ·) :=
      List.filterMap_congr fun e he => by rw [get?_of_mem_entries he]; rfl
    simp only [keys, List.filterMap_map]
    exact (List.filterMap_some).symm.trans hsome
  apply ext
  rw [hentries m, hentries m', hkeys]
  exact List.filterMap_congr fun t _ => by rw [hget]

theorem restrict_insert_of_keep (m : TargetMap α) {keep : Target → Bool} {t : Target} (a : α)
    (h : keep t = true) : (m.insert t a).restrict keep = (m.restrict keep).insert t a := by
  refine ext_get? ?_ fun u => ?_
  · simp only [keys_restrict, keys_insert]
    simp only [mem_restrict, h, and_true]
    split
    · rfl
    · rw [List.filter_append, List.filter_cons_of_pos h, List.filter_nil]
  · simp only [get?_restrict, get?_insert]
    rcases eq_or_ne u t with rfl | hut
    · rw [if_pos h, if_pos rfl, if_pos rfl]
    · rw [if_neg hut, if_neg hut]

theorem restrict_insert_of_not_keep (m : TargetMap α) {keep : Target → Bool} {t : Target} (a : α)
    (h : keep t = false) : (m.insert t a).restrict keep = m.restrict keep := by
  refine ext_get? ?_ fun u => ?_
  · simp only [keys_restrict, keys_insert]
    split
    · rfl
    · rw [List.filter_append, List.filter_cons_of_neg (by simp [h]), List.filter_nil,
        List.append_nil]
  · simp only [get?_restrict, get?_insert]
    rcases eq_or_ne u t with rfl | hut
    · simp [h]
    · rw [if_neg hut]

end TargetMap

namespace Answers

theorem typeOf?_restrict (r : Answers) {keep : Target → Bool} {t : Target} (h : keep t = true) :
    Answers.typeOf? (r.restrict keep) t = r.typeOf? t := by
  rw [typeOf?, r.get?_restrict_of_keep h]
  rfl

theorem typeOf?_restrict_of_not_keep (r : Answers) {keep : Target → Bool} {t : Target}
    (h : keep t = false) : Answers.typeOf? (r.restrict keep) t = none := by
  simp [typeOf?, r.get?_restrict_of_not_keep h]

theorem isFinal_restrict (r : Answers) {keep : Target → Bool} {t : Target} (h : keep t = true) :
    Answers.isFinal (r.restrict keep) t = r.isFinal t := by
  rw [isFinal, typeOf?_restrict r h]
  rfl

end Answers

namespace Store

/-- The store of the targets that are kept, with the same records. -/
def restrict (s : Store) (keep : Target → Bool) : Store :=
  { s with slots := s.slots.restrict keep }

theorem targets_restrict (s : Store) (keep : Target → Bool) :
    (s.restrict keep).targets = s.targets.filter keep :=
  s.slots.keys_restrict keep

theorem record?_restrict (s : Store) {keep : Target → Bool} {t : Target} (h : keep t = true) :
    (s.restrict keep).record? t = s.record? t := by
  rw [record?, restrict, s.slots.get?_restrict_of_keep h]
  rfl

end Store

end QualifiedInference
