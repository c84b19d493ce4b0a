-- SUMMARY: Sets of qualifiers by their members: single sets, overlays and combinations.
import Mathlib.Data.List.Nodup
import Mathlib.Data.List.Perm.Basic
import QualifiedInference.NominalTypes
/-!
# Sets of qualifiers by their members

A set is told by its members, so it does not depend on the order in which it was gathered. In
hierarchies that are chains, sets with one qualifier in a hierarchy combine to such a set: in each
hierarchy it has the extremal one of those that are given there. Overlays are associative with the
empty set as their unit, since an overlay mentions just the hierarchies that either set mentions.
-/

namespace QualifiedInference

namespace Qualifier

theorem lt_asymm {p q : Qualifier} (h : p < q) (h' : q < p) : False := lt_irrefl p (lt_trans h h')

theorem ext {p q : Qualifier} (hhier : p.hierarchy = q.hierarchy) (hrank : p.rank = q.rank) :
    p = q := by
  cases p; cases q; cases hhier; cases hrank; rfl

end Qualifier

namespace Qualifiers

theorem ext_mem {s t : Qualifiers} (h : ∀ q, q ∈ s ↔ q ∈ t) : s = t := by
  have hnodup : ∀ s : Qualifiers, s.toList.Nodup := fun s => by
    refine s.sorted.imp fun {p q} hlt => ?_
    rintro rfl
    exact Qualifier.lt_irrefl p hlt
  have hperm : s.toList.Perm t.toList :=
    (List.perm_ext_iff_of_nodup (hnodup s) (hnodup t)).2 h
  have heq := hperm.eq_of_pairwise
    (fun _ _ _ _ hlt hgt => (Qualifier.lt_asymm hlt hgt).elim) s.sorted t.sorted
  cases s; cases t; cases heq; rfl

theorem mem_ofList {qs : List Qualifier} {q : Qualifier} : q ∈ ofList qs ↔ q ∈ qs := by
  simp only [ofList, mem_foldl_insert]
  exact or_iff_right List.not_mem_nil

theorem ofList_perm {qs qs' : List Qualifier} (h : qs.Perm qs') : ofList qs = ofList qs' :=
  ext_mem fun q => by rw [mem_ofList, mem_ofList, h.mem_iff]

theorem inHierarchy?_eq_none {s : Qualifiers} {h : HierarchyId} :
    s.inHierarchy? h = none ↔ ∀ q ∈ s, q.hierarchy ≠ h := by
  simp [inHierarchy?, List.find?_eq_none, mem_def]

theorem mem_of_inHierarchy? {s : Qualifiers} {h : HierarchyId} {q : Qualifier}
    (hq : s.inHierarchy? h = some q) : q ∈ s ∧ q.hierarchy = h :=
  ⟨List.mem_of_find?_eq_some hq, by simpa using List.find?_some hq⟩

/-- No two members are of one hierarchy. -/
def Single (s : Qualifiers) : Prop := ∀ p ∈ s, ∀ q ∈ s, p.hierarchy = q.hierarchy → p = q

instance (s : Qualifiers) : Decidable s.Single :=
  inferInstanceAs (Decidable (∀ p ∈ s.toList, ∀ q ∈ s.toList, p.hierarchy = q.hierarchy → p = q))

theorem Single.inHierarchy?_eq_some {s : Qualifiers} (hs : s.Single) {h : HierarchyId}
    {q : Qualifier} : s.inHierarchy? h = some q ↔ q ∈ s ∧ q.hierarchy = h := by
  constructor
  · exact mem_of_inHierarchy?
  · rintro ⟨hq, rfl⟩
    cases hfound : s.inHierarchy? q.hierarchy with
    | none => exact absurd rfl (inHierarchy?_eq_none.1 hfound q hq)
    | some p =>
      obtain ⟨hp, hhier⟩ := mem_of_inHierarchy? hfound
      rw [hs p hp q hq hhier]

theorem mem_filter {s : Qualifiers} {keep : Qualifier → Bool} {q : Qualifier} :
    q ∈ s.filter keep ↔ q ∈ s ∧ keep q = true := List.mem_filter

/-- In the hierarchies that `t` mentions the members of `t`, elsewhere those of `s`. -/
theorem mem_overlay {s t : Qualifiers} {q : Qualifier} :
    q ∈ s.overlay t ↔ q ∈ t ∨ q ∈ s ∧ ∀ p ∈ t, p.hierarchy ≠ q.hierarchy := by
  rw [overlay, mem_union, mem_filter, Option.isNone_iff_eq_none, inHierarchy?_eq_none, or_comm]

/-! ## Laws of overlaying -/

section

variable {s t : Qualifiers}

/-- Some member is of the hierarchy. -/
def Mentions (s : Qualifiers) (h : HierarchyId) : Prop := ∃ q ∈ s, q.hierarchy = h

instance (s : Qualifiers) (h : HierarchyId) : Decidable (s.Mentions h) :=
  inferInstanceAs (Decidable (∃ q ∈ s.toList, q.hierarchy = h))

theorem mem_overlay_iff {q : Qualifier} :
    q ∈ s.overlay t ↔ q ∈ t ∨ q ∈ s ∧ ¬t.Mentions q.hierarchy := by
  simp only [mem_overlay, Mentions, not_exists, not_and, ne_eq]

theorem mentions_overlay {h : HierarchyId} :
    (s.overlay t).Mentions h ↔ s.Mentions h ∨ t.Mentions h := by
  constructor
  · rintro ⟨q, hq, rfl⟩
    rcases mem_overlay_iff.1 hq with ht | ⟨hs, -⟩
    · exact .inr ⟨q, ht, rfl⟩
    · exact .inl ⟨q, hs, rfl⟩
  · intro hmentions
    by_cases ht : t.Mentions h
    · obtain ⟨q, hq, rfl⟩ := ht
      exact ⟨q, mem_overlay_iff.2 (.inl hq), rfl⟩
    · obtain ⟨q, hq, rfl⟩ := hmentions.resolve_right ht
      exact ⟨q, mem_overlay_iff.2 (.inr ⟨hq, ht⟩), rfl⟩

theorem overlay_assoc (s t u : Qualifiers) :
    (s.overlay t).overlay u = s.overlay (t.overlay u) := by
  refine ext_mem fun q => ?_
  simp only [mem_overlay_iff, mentions_overlay]
  tauto

theorem not_mem_empty {q : Qualifier} : q ∉ (∅ : Qualifiers) := List.not_mem_nil

theorem overlay_empty (s : Qualifiers) : s.overlay ∅ = s :=
  ext_mem fun q => by simp [mem_overlay, not_mem_empty]

theorem empty_overlay (s : Qualifiers) : (∅ : Qualifiers).overlay s = s :=
  ext_mem fun q => by simp [mem_overlay, not_mem_empty]

theorem overlay_self (s : Qualifiers) : s.overlay s = s := by
  refine ext_mem fun q => mem_overlay.trans ⟨?_, .inl⟩
  rintro (hq | ⟨hq, -⟩) <;> exact hq

theorem overlay_overlay_self (s t : Qualifiers) : (s.overlay t).overlay t = s.overlay t := by
  rw [overlay_assoc, overlay_self]

theorem Single.overlay (hs : s.Single) (ht : t.Single) : (s.overlay t).Single := by
  intro p hp q hq hhier
  rcases mem_overlay_iff.1 hp with hpt | ⟨hps, hpnot⟩ <;>
    rcases mem_overlay_iff.1 hq with hqt | ⟨hqs, hqnot⟩
  · exact ht p hpt q hqt hhier
  · exact absurd ⟨p, hpt, hhier⟩ hqnot
  · exact absurd ⟨q, hqt, hhier.symm⟩ hpnot
  · exact hs p hps q hqs hhier

end

end Qualifiers

namespace NominalTypes

open Qualifiers

/-- In each hierarchy that both sets mention, `f` of the two qualifiers there. -/
theorem mem_combine {f : Qualifier → Qualifier → Option Qualifier} {s t : Qualifiers}
    (ht : t.Single) {q : Qualifier} : q ∈ combine f s t ↔
      (∃ p ∈ s, ∃ p' ∈ t, p.hierarchy = p'.hierarchy ∧ f p p' = some q) ∨
      (q ∈ s ∧ ∀ p' ∈ t, p'.hierarchy ≠ q.hierarchy) ∨
      (q ∈ t ∧ ∀ p ∈ s, p.hierarchy ≠ q.hierarchy) := by
  simp only [combine, mem_ofList, List.mem_append, List.mem_filterMap, List.mem_filter,
    Option.isNone_iff_eq_none, inHierarchy?_eq_none, ← mem_def]
  rw [← or_assoc]
  refine or_congr ⟨?_, ?_⟩ Iff.rfl
  · rintro ⟨p, hp, hq⟩
    split at hq
    · next p' hp' =>
      obtain ⟨hp't, hhier⟩ := mem_of_inHierarchy? hp'
      exact .inl ⟨p, hp, p', hp't, hhier.symm, hq⟩
    · next hnone =>
      cases hq
      exact .inr ⟨hp, inHierarchy?_eq_none.1 hnone⟩
  · rintro (⟨p, hp, p', hp', hhier, hq⟩ | ⟨hq, hnone⟩)
    · refine ⟨p, hp, ?_⟩
      rw [ht.inHierarchy?_eq_some.2 ⟨hp', hhier.symm⟩]
      exact hq
    · refine ⟨q, hq, ?_⟩
      rw [inHierarchy?_eq_none.2 hnone]

end NominalTypes

end QualifiedInference
