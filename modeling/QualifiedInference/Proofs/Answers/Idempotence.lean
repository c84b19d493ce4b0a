-- SUMMARY: Idempotence of merging, by saturated answers.
import QualifiedInference.Proofs.Answers.Merge
import QualifiedInference.Proofs.Restriction
/-!
# Merging twice

A merge of `s` leaves answers as they are just if they are `Saturated`, whatever chains and cycles
they have and however deep these are. Merged answers are saturated, so a second merge adds nothing.
-/

namespace QualifiedInference

namespace Answers

/-- Nothing is left that the answers of `s` could add to `r`. -/
structure Saturated (r s : Answers) : Prop where
  collapsed : r.Collapsed
  targets : ∀ t ∈ s, t ∈ r
  types : ∀ t, (s.typeOf? t).isSome → (r.typeOf? t).isSome

variable {s r r' filled : Answers} {path : List Target} {t p : Target} {extra : Qualifiers}
  {found? : Option Ty} {ts : List Target}

theorem Saturated.typeOf?_of_alias (h : r.Saturated s) (ht : r.get? t = some (.alias p extra)) :
    s.typeOf? t = none := by
  cases hs : s.typeOf? t with
  | none => rfl
  | some ty =>
    have hsome := h.types t (hs ▸ rfl)
    rw [typeOf?_of_get?_alias ht] at hsome
    cases hsome

theorem Descends.eq_of_saturated (h : Descends s r path t found? r') (hr : r.Saturated s) :
    r' = r := by
  induction h with
  | absent _ => rfl
  | type _ => rfl
  | refused ht _ => rw [hr.typeOf?_of_alias ht, take]
  | lost ht _ _ _ ih => rw [hr.typeOf?_of_alias ht, take, ih]
  | found ht _ _ hbelow ih =>
    -- The alias would point to a type.
    have hp := hbelow.typeOf?_self
    rw [ih, hr.collapsed _ _ _ ht] at hp
    cases hp

theorem DescendsAll.eq_of_saturated (h : DescendsAll s ts r r') (hr : r.Saturated s) :
    r' = r := by
  induction h with
  | nil => rfl
  | cons hdesc _ ih =>
    obtain rfl := hdesc.eq_of_saturated hr
    exact ih hr

theorem adopt_eq_self (h : ∀ t ∈ s, t ∈ r) : r.adopt s = r := by
  refine TargetMap.ext_get? ?_ fun t => ?_
  · rw [keys_adopt]
    simpa [TargetMap.mem_def] using h
  · rw [get?_adopt]
    cases hr : r.get? t with
    | some a => rfl
    | none =>
      have hs : t ∉ s := fun hmem => TargetMap.get?_eq_none_iff.1 hr (h t hmem)
      exact TargetMap.get?_eq_none_iff.2 hs

theorem DescendsAll.saturated (h : DescendsAll s r.keys r filled) :
    Saturated (filled.adopt s).collapse s where
  collapsed := collapsed_collapse _
  targets t ht := by
    rw [(fills_collapse _).mem_iff, ← TargetMap.isSome_get?, get?_adopt, Option.isSome_or,
      (TargetMap.isSome_get? s t).2 ht, Bool.or_true]
  types _ ht := h.isSome_typeOf?_merge ht

/-- The answers that a merge of `s` leaves as they are. -/
theorem merge_eq_self_iff : r.merge s = .ok r ↔ r.Saturated s := by
  obtain ⟨filled, hall, hmerge⟩ := merge_eq r s
  rw [hmerge, Except.ok.injEq]
  constructor
  · intro heq
    exact heq ▸ hall.saturated
  · intro hr
    rw [hall.eq_of_saturated hr, adopt_eq_self hr.targets, hr.collapsed.collapse_eq]

theorem merge_idempotent (r s : Answers) : ∃ m, r.merge s = .ok m ∧ m.merge s = .ok m := by
  obtain ⟨filled, hall, hmerge⟩ := merge_eq r s
  exact ⟨_, hmerge, merge_eq_self_iff.2 hall.saturated⟩

end Answers

end QualifiedInference
