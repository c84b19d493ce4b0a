-- SUMMARY: Solving equalities on a part of the targets to which no relation leads from the rest.
import Mathlib.Data.List.Find
import QualifiedInference.Proofs.Equalities
import QualifiedInference.Proofs.Separation.Solving
/-!
# Equalities of unrelated targets

A sweep over the whole is in step with one over the part that is kept. Where the part is done, its
sweeps are in vain and leave it as it was, so the whole may go on alone.
-/

namespace QualifiedInference

namespace Equalities

open Solving

variable {keep : Target → Bool} {established : Answers} {st w p : Solving} {t : Target}
  {ts all : List Target}

theorem attempt_eq (established : Answers) (st : Solving) (t : Target) :
    attempt established st t =
      if established.isFinal t || (st.found.typeOf? t).isSome then (st, false)
      else conclude equalType? t (st.learn established t .equal (·.targetsIn .equal)) := rfl

/-! ## The whole and the part -/

theorem inStep (keep : Target → Bool) (established : Answers) (all : List Target) :
    InStep keep established all (attempt established) (attempt (established.restrict keep)) where
  kept := fun {w p t} h hk => by
    rw [attempt_eq, attempt_eq, Answers.isFinal_restrict established hk, h.typeOf?_found hk]
    split
    · exact ⟨rfl, h⟩
    · exact (h.learn hk .equal).conclude hk equalType?
  other := fun {w p t} h hk => by
    simp only [attempt_eq]
    split
    · exact h
    · exact (h.learn_other hk .equal _).conclude_other hk equalType?

theorem shows_spread (h : Shows keep established all w p) (ts : List Target) :
    Shows keep established all (spread established ts w)
      (spread (established.restrict keep) (ts.filter keep) p) := by
  -- On the sweeps of the whole. When the part is done, its sweeps are in vain and it stays put.
  induction w using spread.induct established ts generalizing p with
  | case1 w w' heq ih =>
    obtain ⟨hnext, -⟩ := (inStep keep established all).sweep h ts
    simp only [heq] at hnext
    rw [spread_of_answered (by rw [heq]), heq]
    cases hflag : (sweep (attempt (established.restrict keep)) (ts.filter keep) p).2 with
    | true =>
      rw [spread_of_answered hflag]
      exact ih hnext
    | false =>
      simp only [sweep_in_vain hflag] at hnext
      exact ih hnext
  | case2 w w' heq =>
    obtain ⟨-, hmore⟩ := (inStep keep established all).sweep h ts
    simp only [heq] at hmore
    have hflag : (sweep (attempt (established.restrict keep)) (ts.filter keep) p).2 = false :=
      Bool.eq_false_iff.2 fun htrue => Bool.false_ne_true (hmore htrue)
    rw [spread_of_idle (by rw [heq]), spread_of_idle hflag]
    exact h

theorem find?_keys_eq {r : Record} (h : Shows keep established all w p) (hk : keep t = true)
    (hr : w.store.record? t = some r) :
    (r.equalities.targets.keys.find? fun u => u != t && p.store.contains u) =
      r.equalities.targets.keys.find? fun u => u != t && w.store.contains u := by
  refine List.find?_congr fun u hu => ?_
  have hcontains : p.store.contains u = w.store.contains u := by
    rw [Bool.eq_iff_iff, Store.contains_iff, Store.contains_iff, h.part, ← h.whole,
      List.mem_filter]
    exact ⟨And.left, fun hmem => ⟨hmem, h.separated .equal hr hu hmem ▸ hk⟩⟩
  rw [hcontains]

theorem shows_addAlias (h : Shows keep established all w p) (hk : keep t = true) :
    Shows keep established all (addAlias established w t)
      (addAlias (established.restrict keep) p t) := by
  unfold addAlias
  rw [Answers.isFinal_restrict established hk, TargetMap.contains, TargetMap.contains,
    h.get?_found hk, h.record hk]
  split
  · exact h
  · cases hr : w.store.record? t with
    | none => exact h
    | some r =>
      dsimp only
      rw [find?_keys_eq h hk hr]
      cases hu : r.equalities.targets.keys.find? fun u => u != t && w.store.contains u with
      | none => exact h
      | some u =>
        apply h.insert hk (Store.mem_targets_of_record? hr)
        rintro q extra ⟨⟩
        have hfound := List.find?_some hu
        simp only [Bool.and_eq_true, Store.contains_iff] at hfound
        exact h.separated .equal hr (List.mem_of_find?_eq_some hu) hfound.2

theorem shows_addAlias_other (h : Shows keep established all w p) (hk : keep t = false) :
    Shows keep established all (addAlias established w t) p := by
  unfold addAlias
  split
  · exact h
  · cases hr : w.store.record? t with
    | none => exact h
    | some r =>
      dsimp only
      cases hu : r.equalities.targets.keys.find? fun u => u != t && w.store.contains u with
      | none => exact h
      | some u =>
        apply h.insert_other hk (Store.mem_targets_of_record? hr)
        rintro q extra ⟨⟩
        have hfound := List.find?_some hu
        simp only [Bool.and_eq_true, Store.contains_iff] at hfound
        exact h.separated .equal hr (List.mem_of_find?_eq_some hu) hfound.2

theorem shows_foldl_addAlias (h : Shows keep established all w p) (ts : List Target) :
    Shows keep established all (ts.foldl (addAlias established) w)
      ((ts.filter keep).foldl (addAlias (established.restrict keep)) p) := by
  induction ts generalizing w p with
  | nil => exact h
  | cons t ts ih =>
    cases hk : keep t with
    | true =>
      rw [List.filter_cons_of_pos hk]
      exact ih (shows_addAlias h hk)
    | false =>
      rw [List.filter_cons_of_neg (by simp [hk])]
      exact ih (shows_addAlias_other h hk)

theorem separates {s : Store} (hs : s.Separated keep)
    (hest : ∀ {t}, t ∈ established → t ∈ s.targets) :
    Strategy.equalities.Separates keep s established := by
  have hrun := shows_foldl_addAlias (shows_spread (shows_start hs hest) s.targets) s.targets
  simp only [← Store.targets_restrict] at hrun
  refine ⟨?_, ?_, ?_⟩
  · exact (congrArg Answers.collapse hrun.found).trans (Answers.restrict_collapse hrun.splits).symm
  · exact hrun.splits.of_fills (Answers.fills_collapse _)
  · intro t ht
    have hkeys : t ∈ (s.targets.foldl (addAlias established)
        (spread established s.targets ⟨s, ∅⟩)).found.keys := by
      rw [← (Answers.fills_collapse _).keys]
      exact ht
    exact hrun.within hkeys

end Equalities

end QualifiedInference
