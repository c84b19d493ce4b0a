-- SUMMARY: Answers over bounds as verdicts on enriched records.
import QualifiedInference.Proofs.Bounds.Attempt
/-!
# Where the answers of a run come from

Each answer of a run over bounds is the verdict on a record of the store, enriched with types that
the run knew. What the types of the store and the established types have in common, and verdicts
keep, all types of the run have.
-/

namespace QualifiedInference

namespace Bounds

open Solving

variable {b : Bounds} {P : Ty → Prop} {s : Store} {established : Answers} {st : Solving}
  {t : Target}

/-- The answer is the verdict on the record of `t`, enriched with types that have the property
    `P`. -/
def IsVerdict (b : Bounds) (P : Ty → Prop) (s : Store) (t : Target) (a : Answer) : Prop :=
  ∃ ty r r', a = .type ty ∧ s.record? t = some r ∧ r.Enriched b.side.relation P r' ∧
    b.typeFor? r' = some ty

/-- Where a run stands whose types all have the property `P`. -/
structure Sourced (b : Bounds) (P : Ty → Prop) (s : Store) (st : Solving) : Prop where
  store : s.Enriched b.side.relation P st.store
  answered : ∀ {t a}, st.found.get? t = some a → b.IsVerdict P s t a
  types : ∀ {t ty}, st.found.typeOf? t = some ty → P ty

section Run

variable
  (hstore : ∀ {t r}, s.record? t = some r → ∀ ty ∈ r.typesIn b.side.relation, P ty)
  (hestablished : ∀ {t ty}, established.typeOf? t = some ty → P ty)
  (hverdict : ∀ {t r r' ty}, s.record? t = some r → r.Enriched b.side.relation P r' →
    b.typeFor? r' = some ty → P ty)

include hstore in
theorem Sourced.start : Sourced b P s ⟨s, ∅⟩ where
  store := .refl hstore
  answered h := absurd h TargetMap.get?_empty_ne_some
  types h := absurd h Answers.typeOf?_empty_ne_some

include hestablished in
theorem Sourced.informed (h : Sourced b P s st) (t : Target) :
    Sourced b P s (b.informed established st t) where
  store := h.store.learn (typeOf?_induction h.types hestablished) t _
  answered hu := h.answered (found_informed ▸ hu)
  types hu := h.types (found_informed ▸ hu)

include hverdict in
theorem Sourced.answer (h : Sourced b P s st) {r' : Record} {ty : Ty}
    (hr' : st.store.record? t = some r') (hty : b.typeFor? r' = some ty) :
    Sourced b P s (st.answer t ty) := by
  obtain ⟨r, hr, henriched⟩ := h.store.record hr'
  refine ⟨h.store, fun {u a} hu => ?_, fun {u uty} hu => ?_⟩
  · rw [Solving.answer, TargetMap.get?_insert] at hu
    split at hu
    · next hut =>
      cases hu
      exact hut ▸ ⟨ty, r, r', rfl, hr, henriched, hty⟩
    · exact h.answered hu
  · rw [Solving.answer, Answers.typeOf?_insert] at hu
    split at hu
    · cases hu
      exact hverdict hr henriched hty
    · exact h.types hu

include hestablished hverdict in
theorem Sourced.attempt (h : Sourced b P s st) (patience : Patience) (t : Target) :
    Sourced b P s (b.attempt established patience st t).1 := by
  rcases attempt_cases b established patience st t with ⟨-, heq⟩ | ⟨-, -, ⟨-, heq⟩ | ⟨ty, hv, heq⟩⟩
  · rwa [heq]
  · rw [heq]
    exact h.informed hestablished t
  · rw [heq]
    obtain ⟨r', hr', hty⟩ := Option.bind_eq_some_iff.1 hv
    exact (h.informed hestablished t).answer hverdict hr' hty

include hstore hestablished hverdict in
theorem sourced_rounds : Sourced b P s (b.rounds established s.targets .waiting ⟨s, ∅⟩) :=
  rounds_induction (Sourced.start hstore) fun patience _ t _ hst =>
    hst.attempt hestablished hverdict patience t

include hstore hestablished hverdict in
/-- Every answer of a run is the verdict on an enriched record, and has the property of all its
    types. -/
theorem isVerdict_of_solve {a : Answer} (h : (b.solve s established).2.get? t = some a) :
    b.IsVerdict P s t a ∧ ∃ ty, a = .type ty ∧ P ty := by
  have hrun := sourced_rounds hstore hestablished hverdict
  obtain ⟨ty, r, r', rfl, hr⟩ := hrun.answered h
  exact ⟨⟨ty, r, r', rfl, hr⟩, ty, rfl, hrun.types (Answers.typeOf?_eq_some.2 h)⟩

end Run

end Bounds

end QualifiedInference
