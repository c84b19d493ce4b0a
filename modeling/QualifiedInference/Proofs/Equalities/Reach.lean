-- SUMMARY: Which targets a run over equalities answers, and with what.
import Mathlib.Logic.Relation
import QualifiedInference.Proofs.Equalities.Evidence
/-!
# What evidence reaches

Evidence goes along the equalities of targets that are not final. `Evident` says that it reaches a
target from a recorded or an established type. A run over equalities gives such targets types, and
of the others those that equal another target of the store become aliases (`solve_reaches`).
-/

namespace QualifiedInference

namespace Equalities

open Solving

variable {s : Store} {established : Answers} {t u : Target} {ty : Ty} {r : Record}

/-- Evidence for `u` is evidence for `t`, which is no final target and equal to `u`. -/
def Crosses (s : Store) (established : Answers) (t u : Target) : Prop :=
  established.isFinal t = false ∧ ∃ r, s.record? t = some r ∧ u ∈ r.targetsIn .equal

/-- Along equalities of targets that are not final one comes from `t` to a recorded type of such a
    target, or in at least one step to an established type. -/
def Evident (s : Store) (established : Answers) (t : Target) : Prop :=
  (∃ u r, Relation.ReflTransGen (Crosses s established) t u ∧ established.isFinal u = false ∧
    s.record? u = some r ∧ (r.typesIn .equal).keys ≠ []) ∨
  ∃ u, Relation.TransGen (Crosses s established) t u ∧ (established.typeOf? u).isSome

theorem Evident.cross (h : Evident s established u) (htu : Crosses s established t u) :
    Evident s established t := by
  rcases h with ⟨v, r, huv, hv⟩ | ⟨v, huv, hv⟩
  · exact .inl ⟨v, r, .head htu huv, hv⟩
  · exact .inr ⟨v, .head htu huv, hv⟩

/-! ## Types -/

/-- Types of targets that are not final stem from what reaches those targets. -/
theorem Stems.evident {found : Answers} (h : Stems s established found t ty)
    (hfound : ∀ {u uty}, found.typeOf? u = some uty → established.isFinal u = false)
    (hfinal : established.isFinal t = false) : Evident s established t := by
  -- Each step of a derivation of the type is a step on the path.
  induction h with
  | ofRecord hr hty =>
    refine .inl ⟨_, _, .refl, hfinal, hr, ?_⟩
    intro hnil
    rw [hnil] at hty
    cases hty
  | ofEstablished hr _ hu hty =>
    exact .inr ⟨_, .single ⟨hfinal, _, hr, hu⟩, Option.isSome_of_eq_some hty⟩
  | ofFound hr _ hu hty _ ih => exact (ih (hfound hty)).cross ⟨hfinal, _, hr, hu⟩

/-- Where a type is known for `u`, the sweeps find one for `t`. -/
theorem Crosses.answered (h : Crosses s established t u)
    (hu : ((typed s established).typeOf? established u).isSome) :
    ((typed s established).found.typeOf? t).isSome := by
  obtain ⟨hfinal, r, hr, hmem⟩ := h
  by_contra hopen
  have hidle := idle_of_unanswered hr hfinal (Option.not_isSome_iff_eq_none.1 hopen)
  rw [hidle.2 u hmem] at hu
  cases hu

theorem isSome_typeOf?_of_found {st : Solving} (h : (st.found.typeOf? t).isSome) :
    (st.typeOf? established t).isSome := by
  rw [Solving.typeOf?, Option.isSome_or, h]
  rfl

theorem Evident.answered (h : Evident s established t) :
    ((typed s established).found.typeOf? t).isSome := by
  -- From the end of the path to its start, since each target is answered by the next one.
  rcases h with ⟨u, r, htu, hfinal, hr, hkeys⟩ | ⟨u, htu, hu⟩
  · induction htu using Relation.ReflTransGen.head_induction_on with
    | refl =>
      by_contra hopen
      exact hkeys (idle_of_unanswered hr hfinal (Option.not_isSome_iff_eq_none.1 hopen)).1
    | head hcross _ ih => exact hcross.answered (isSome_typeOf?_of_found ih)
  · induction htu using Relation.TransGen.head_induction_on with
    | single hcross =>
      refine hcross.answered ?_
      rw [Solving.typeOf?, Option.isSome_or, hu, Bool.or_true]
    | head hcross _ ih => exact hcross.answered (isSome_typeOf?_of_found ih)

theorem isSome_typeOf?_solve_iff (hfinal : established.isFinal t = false) :
    ((solve s established).2.typeOf? t).isSome ↔ Evident s established t := by
  have hgrounded := grounded_typed s established
  rw [typeOf?_solve]
  refine ⟨fun h => ?_, Evident.answered⟩
  obtain ⟨ty, hty⟩ := Option.isSome_iff_exists.1 h
  exact (hgrounded.stems hty).evident hgrounded.isFinal_eq_false hfinal

/-! ## Aliases -/

/-- `p` is the first of the related targets that is another one than `t` and in the store. -/
def FirstOther (s : Store) (t : Target) (related : List Target) (p : Target) : Prop :=
  p ≠ t ∧ p ∈ s.targets ∧
    ∃ before after, related = before ++ p :: after ∧ ∀ u ∈ before, u ∈ s.targets → u = t

theorem find?_eq_some_iff_firstOther {related : List Target} {p : Target} :
    (related.find? fun u => u != t && s.contains u) = some p ↔ FirstOther s t related p := by
  have hpassed : ∀ u, (!(u != t && s.contains u)) = true ↔ (u ∈ s.targets → u = t) := by
    intro u
    rw [← Store.contains_iff]
    grind
  simp only [List.find?_eq_some_iff_append, FirstOther, hpassed, Bool.and_eq_true, bne_iff_ne,
    Store.contains_iff, and_assoc]

theorem aliasFor?_eq_some_iff (hr : s.record? t = some r) {p : Target} {extra : Qualifiers} :
    aliasFor? s t = some (.alias p extra) ↔
      FirstOther s t (r.targetsIn .equal).keys p ∧ extra = r.equalities.exact := by
  rw [aliasFor?, hr, Option.bind_some, Option.map_eq_some_iff, ← find?_eq_some_iff_firstOther]
  constructor
  · rintro ⟨p', hp, heq⟩
    cases heq
    exact ⟨hp, rfl⟩
  · rintro ⟨hp, rfl⟩
    exact ⟨p, hp, rfl⟩

theorem exists_firstOther_iff {related : List Target} :
    (∃ p, FirstOther s t related p) ↔ ∃ u ∈ related, u ≠ t ∧ u ∈ s.targets := by
  simp only [← find?_eq_some_iff_firstOther, ← Option.isSome_iff_exists, List.find?_isSome,
    Bool.and_eq_true, bne_iff_ne, Store.contains_iff]

theorem get?_solve_of_isFinal (hfinal : established.isFinal t = true) :
    (solve s established).2.get? t = none := by
  rw [solve_eq_aliased, get?_aliased, if_neg fun hopen => by simp [hfinal] at hopen]
  refine Option.eq_none_iff_forall_ne_some.2 fun a ha => ?_
  obtain ⟨hopen, -⟩ := (grounded_typed s established).found ha
  rw [hfinal] at hopen
  cases hopen

theorem get?_solve_of_not_evident (hr : s.record? t = some r)
    (hfinal : established.isFinal t = false) (hnot : ¬Evident s established t) :
    (solve s established).2.get? t = aliasFor? s t := by
  have hnone : (typed s established).found.typeOf? t = none := by
    rw [← typeOf?_solve, ← Option.not_isSome_iff_eq_none, isSome_typeOf?_solve_iff hfinal]
    exact hnot
  have hopen := (grounded_typed s established).get?_eq_none hnone
  rw [solve_eq_aliased, get?_aliased, if_pos ⟨Store.mem_targets_of_record? hr, hfinal, hopen⟩]

/-- Neither the run nor what is established has a type for the target of an alias. -/
theorem typeOf?_pointee {p : Target} {extra : Qualifiers}
    (h : (solve s established).2.get? t = some (.alias p extra)) :
    (solve s established).2.typeOf? p = none ∧ established.typeOf? p = none := by
  rw [typeOf?_solve]
  rw [solve_eq_aliased] at h
  exact Option.or_eq_none_iff.1 (typeOf?_of_alias h)

/-! ## The answers of a run -/

/-- A run over equalities answers no target that is final. It gives another target of the store a
    type just if evidence reaches it. Without evidence, such a target becomes an alias just if it
    equals another target of the store: of the first of them, with the qualifiers that it must
    have. No type is known for the target that it points to, so the collapse at the end changes
    nothing. -/
theorem solve_reaches (s : Store) (established : Answers) :
    (∀ t, established.isFinal t = true → (solve s established).2.get? t = none) ∧
    (∀ t r, s.record? t = some r → established.isFinal t = false →
      (((solve s established).2.typeOf? t).isSome ↔ Evident s established t) ∧
      (¬Evident s established t →
        ((∃ p extra, (solve s established).2.get? t = some (.alias p extra)) ↔
          ∃ u ∈ r.targetsIn .equal, u ≠ t ∧ u ∈ s.targets) ∧
        ∀ p extra, (solve s established).2.get? t = some (.alias p extra) →
          FirstOther s t (r.targetsIn .equal).keys p ∧ extra = r.equalities.exact ∧
          (solve s established).2.typeOf? p = none ∧ established.typeOf? p = none)) ∧
    (solve s established).2 = aliased s established := by
  refine ⟨fun t hfinal => get?_solve_of_isFinal hfinal, fun t r hr hfinal =>
    ⟨isSome_typeOf?_solve_iff hfinal, fun hnot => ?_⟩, solve_eq_aliased s established⟩
  have hget := get?_solve_of_not_evident hr hfinal hnot
  refine ⟨?_, fun p extra ht => ?_⟩
  · simp only [hget, aliasFor?_eq_some_iff hr, exists_and_left, exists_eq, and_true]
    exact exists_firstOther_iff
  · obtain ⟨hfirst, hextra⟩ := (aliasFor?_eq_some_iff hr).1 (hget.symm.trans ht)
    exact ⟨hfirst, hextra, typeOf?_pointee ht⟩

end Equalities

end QualifiedInference
