-- SUMMARY: Collapsing and merging commute with restriction to targets that no alias leads into or out of.
import QualifiedInference.Proofs.Answers.Merge
import QualifiedInference.Proofs.Restriction
/-!
# Answers of unrelated targets

Where no alias leads from the kept targets to the others or back, chains stay on their side.
Then collapsing and merging can be done before a restriction or after it.
-/

namespace QualifiedInference

namespace Answers

variable {keep : Target → Bool} {r r' s : Answers} {t p : Target} {extra : Qualifiers} {ty : Ty}

/-- An alias and its pointee are both kept or both not. -/
def Splits (keep : Target → Bool) (r : Answers) : Prop :=
  ∀ t p extra, r.get? t = some (.alias p extra) → keep t = keep p

theorem Splits.of_fills (h : Splits keep r) (hfills : Fills r r') : Splits keep r' :=
  fun t p extra ht => h t p extra (hfills.aliases ht)

/-! ## Collapsing -/

theorem yields_restrict (h : Splits keep r) (hk : keep t = true) :
    Yields (r.restrict keep) t ty ↔ r.Yields t ty := by
  constructor
  · intro hy
    induction hy with
    | type ht =>
      simp only [r.get?_restrict_of_keep hk] at ht
      exact .type ht
    | link ht _ ih =>
      simp only [r.get?_restrict_of_keep hk] at ht
      exact .link ht (ih (h _ _ _ ht ▸ hk))
  · intro hy
    induction hy with
    | type ht => exact .type (by rwa [r.get?_restrict_of_keep hk])
    | link ht _ ih =>
      exact .link (by rwa [r.get?_restrict_of_keep hk]) (ih (h _ _ _ ht ▸ hk))

theorem restrict_collapse (h : Splits keep r) :
    r.collapse.restrict keep = collapse (r.restrict keep) := by
  refine TargetMap.ext_get? ?_ fun t => ?_
  · rw [TargetMap.keys_restrict, (fills_collapse r).keys, (fills_collapse _).keys,
      TargetMap.keys_restrict]
  · cases hk : keep t with
    | false =>
      have hnone := r.get?_restrict_of_not_keep hk
      rw [TargetMap.get?_restrict_of_not_keep _ hk, (fills_collapse _).get?_eq_none.2 hnone]
    | true =>
      rw [TargetMap.get?_restrict_of_keep _ hk]
      apply Option.ext
      intro a
      cases a with
      | type ty =>
        rw [← typeOf?_eq_some, ← typeOf?_eq_some, typeOf?_collapse, typeOf?_collapse,
          yields_restrict h hk]
      | «alias» p extra =>
        rw [get?_collapse_eq_alias, get?_collapse_eq_alias, r.get?_restrict_of_keep hk]
        simp only [yields_restrict h hk]

/-! ## Merging -/

theorem restrict_take (hk : keep t = true) (ty? : Option Ty) :
    (r.take t ty?).restrict keep = take (r.restrict keep) t ty? := by
  cases ty? with
  | none => rfl
  | some ty => exact TargetMap.restrict_insert_of_keep r _ hk

theorem restrict_take_of_not_keep (hk : keep t = false) (ty? : Option Ty) :
    (r.take t ty?).restrict keep = r.restrict keep := by
  cases ty? with
  | none => rfl
  | some ty => exact TargetMap.restrict_insert_of_not_keep r _ hk

theorem handed_restrict (hk : keep t = true) : handed (s.restrict keep) t ty = s.handed t ty := by
  rw [handed, typeOf?_restrict s hk]
  rfl

/-- A descent from a kept target is a descent in the restrictions. -/
theorem Descends.restrict {path : List Target} {found? : Option Ty}
    (h : Descends s r path t found? r') (hsplit : Splits keep r) (hk : keep t = true) :
    Descends (s.restrict keep) (r.restrict keep) path t found? (r'.restrict keep) := by
  induction h with
  | absent ht => exact .absent (by rwa [r.get?_restrict_of_keep hk])
  | type ht => exact .type (by rwa [r.get?_restrict_of_keep hk])
  | refused ht hcause =>
    rw [restrict_take hk, ← typeOf?_restrict s hk]
    exact .refused (by rwa [r.get?_restrict_of_keep hk]) hcause
  | lost ht hnew hlt _ ih =>
    rw [restrict_take hk, ← typeOf?_restrict s hk]
    exact .lost (by rwa [r.get?_restrict_of_keep hk]) hnew hlt (ih (hsplit _ _ _ ht ▸ hk))
  | found ht hnew hlt _ ih =>
    rw [TargetMap.restrict_insert_of_keep _ _ hk, ← handed_restrict hk]
    exact .found (by rwa [r.get?_restrict_of_keep hk]) hnew hlt (ih (hsplit _ _ _ ht ▸ hk))

/-- A descent from another target does not reach the kept ones. -/
theorem Descends.restrict_eq {path : List Target} {found? : Option Ty}
    (h : Descends s r path t found? r') (hsplit : Splits keep r) (hk : keep t = false) :
    r'.restrict keep = r.restrict keep := by
  induction h with
  | absent => rfl
  | type => rfl
  | refused => exact restrict_take_of_not_keep hk _
  | lost ht _ _ _ ih =>
    exact (restrict_take_of_not_keep hk _).trans (ih (hsplit _ _ _ ht ▸ hk))
  | found ht _ _ _ ih =>
    exact (TargetMap.restrict_insert_of_not_keep _ _ hk).trans (ih (hsplit _ _ _ ht ▸ hk))

theorem DescendsAll.restrict {ts : List Target} (h : DescendsAll s ts r r')
    (hsplit : Splits keep r) :
    DescendsAll (s.restrict keep) (ts.filter keep) (r.restrict keep) (r'.restrict keep) := by
  induction h with
  | nil r => exact .nil _
  | @cons t ts found? r₁ r₂ r₃ hdesc hall ih =>
    have hih := ih (hsplit.of_fills hdesc.fills)
    cases hk : keep t with
    | false =>
      rw [List.filter_cons_of_neg (by simp [hk]), ← hdesc.restrict_eq hsplit hk]
      exact hih
    | true =>
      rw [List.filter_cons_of_pos hk]
      exact .cons (hdesc.restrict hsplit hk) hih

theorem restrict_adopt (r s : Answers) (keep : Target → Bool) :
    (r.adopt s).restrict keep = adopt (r.restrict keep) (s.restrict keep) := by
  refine TargetMap.ext_get? ?_ fun t => ?_
  · rw [TargetMap.keys_restrict, keys_adopt, keys_adopt, TargetMap.keys_restrict,
      TargetMap.keys_restrict, List.filter_append, List.filter_filter, List.filter_filter]
    congr 1
    apply List.filter_congr
    intro t _
    cases hk : keep t <;> simp [TargetMap.mem_restrict, hk]
  · rw [TargetMap.get?_restrict, get?_adopt, get?_adopt, TargetMap.get?_restrict,
      TargetMap.get?_restrict]
    split <;> rfl

/-- Merging the restrictions gives the restriction of what is merged. -/
theorem merge_restrict {m : Answers} (hr : Splits keep r) (hs : Splits keep s)
    (hm : r.merge s = .ok m) :
    merge (r.restrict keep) (s.restrict keep) = .ok (m.restrict keep) ∧ Splits keep m := by
  obtain ⟨filled, hall, hmerge⟩ := merge_eq r s
  simp only [hmerge] at hm
  cases hm
  have hfilled := hr.of_fills hall.fills
  have hadopt : Splits keep (filled.adopt s) := by
    intro t p extra ht
    simp only [get?_adopt] at ht
    rcases Option.or_eq_some_iff.1 ht with ht | ⟨-, ht⟩
    · exact hfilled t p extra ht
    · exact hs t p extra ht
  refine ⟨?_, hadopt.of_fills (fills_collapse _)⟩
  obtain ⟨filled', hall', hmerge'⟩ := merge_eq (r.restrict keep) (s.restrict keep)
  have hkept := hall.restrict hr
  simp only [← TargetMap.keys_restrict] at hkept
  rw [hmerge', hall'.unique hkept, restrict_collapse hadopt, restrict_adopt]

end Answers

end QualifiedInference
