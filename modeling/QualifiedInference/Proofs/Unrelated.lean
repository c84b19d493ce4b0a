-- SUMMARY: Targets that are related to no other target.
import QualifiedInference.Proofs.Answers.Collapse
import QualifiedInference.Proofs.Bounds.Attempt
import QualifiedInference.Proofs.Equalities
/-!
# Targets on their own

A target that is related to no other one in the relation that a strategy reads learns nothing in a
run. So it is answered just if its record determines a type, and with that type.
-/

namespace QualifiedInference

variable {established : Answers} {st : Solving} {t u : Target} {ts : List Target} {r : Record}

/-- The record of `t` is still `r`, and `t` has no answer but the one given. -/
structure Solving.Alone (t : Target) (r : Record) (answer? : Option Answer) (st : Solving) :
    Prop where
  record : st.store.record? t = some r
  found : ∀ {a}, st.found.get? t = some a → answer? = some a

namespace Solving

theorem evidence_of_unrelated {related : OrderedMap Target Qualifiers} (h : related.keys = []) :
    st.evidence established related = [] := by
  have hentries : related.entries = [] := List.map_eq_nil_iff.1 h
  rw [evidence, hentries]
  rfl

variable {rel : Relation} {related : Record → OrderedMap Target Qualifiers}

theorem record?_learn_of_unrelated (hrelated : (related r).keys = [])
    (h : st.store.record? t = some r) :
    (st.learn established t rel related).store.record? t = some r := by
  rw [record?_learn_self, h, Option.map_some, evidence_of_unrelated hrelated]
  rfl

namespace Alone

variable {answer? : Option Answer} {ty : Ty}

theorem learn (h : st.Alone t r answer?) (hrelated : (related r).keys = []) (u : Target) :
    (st.learn established u rel related).Alone t r answer? := by
  refine ⟨?_, fun ha => h.found (found_learn .. ▸ ha)⟩
  rcases eq_or_ne t u with rfl | htu
  · exact record?_learn_of_unrelated hrelated h.record
  · exact (record?_learn_of_ne _ _ _ _ _ htu).trans h.record

theorem answer (h : st.Alone t r answer?) (hty : t = u → answer? = some (.type ty)) :
    (st.answer u ty).Alone t r answer? := by
  refine ⟨h.record, fun {a} ha => ?_⟩
  rw [Solving.answer, TargetMap.get?_insert] at ha
  split at ha
  · next htu => exact (hty htu).trans ha
  · exact h.found ha

theorem get?_eq (h : st.Alone t r answer?)
    (hanswered : ∀ a, answer? = some a → (st.found.get? t).isSome) :
    st.found.get? t = answer? := by
  cases hget : st.found.get? t with
  | some a => exact (h.found hget).symm
  | none =>
    cases answer? with
    | none => rfl
    | some a =>
      have hsome := hanswered a rfl
      rw [hget] at hsome
      cases hsome

end Alone

end Solving

/-! ## Over bounds -/

namespace Bounds

open Solving

variable {b : Bounds} {patience : Patience}
  (hrelated : (r.targetsIn b.side.relation).keys = [])

include hrelated in
theorem record?_informed_of_unrelated (h : st.store.record? t = some r) :
    (b.informed established st t).store.record? t = some r :=
  record?_learn_of_unrelated (targets_relations b.side r ▸ hrelated) h

include hrelated in
theorem verdict?_of_unrelated (h : st.store.record? t = some r) :
    b.verdict? established st t = b.typeFor? r := by
  rw [verdict?, record?_informed_of_unrelated hrelated h]
  rfl

include hrelated in
theorem alone_attempt (h : st.Alone t r ((b.typeFor? r).map .type)) (u : Target) :
    (b.attempt established patience st u).1.Alone t r ((b.typeFor? r).map .type) := by
  have hinformed : (b.informed established st u).Alone t r ((b.typeFor? r).map .type) :=
    h.learn (targets_relations b.side r ▸ hrelated) u
  rcases attempt_cases b established patience st u with ⟨-, heq⟩ | ⟨-, -, ⟨-, heq⟩ | ⟨ty, hv, heq⟩⟩
  · rwa [heq]
  · rwa [heq]
  · rw [heq]
    refine hinformed.answer ?_
    rintro rfl
    rw [← verdict?_of_unrelated hrelated h.record, hv]
    rfl

/-- An answer stays to the end. -/
theorem isSome_get?_attempt (h : (st.found.get? t).isSome) (u : Target) :
    ((b.attempt established patience st u).1.found.get? t).isSome := by
  rcases attempt_cases b established patience st u with ⟨-, heq⟩ | ⟨-, -, ⟨-, heq⟩ | ⟨ty, -, heq⟩⟩
  · rwa [heq]
  · rwa [heq, found_informed]
  · rw [heq, answer, TargetMap.get?_insert, found_informed]
    split
    · rfl
    · exact h

include hrelated in
/-- With a verdict on its record, the target does not wait and is not stuck. -/
theorem isSome_get?_of_stalls (h : st.store.record? t = some r)
    (hfinal : established.isFinal t = false) {ty : Ty} (hty : b.typeFor? r = some ty)
    (hstalls : b.Stalls established st t) : (st.found.get? t).isSome := by
  rcases hstalls with hskips | hready | hstuck
  · rwa [skips, hfinal, Bool.false_or] at hskips
  · have htrue : b.isReady established st t = true :=
      (isReady_iff h).2 fun u hu => by rw [hrelated] at hu; cases hu
    rw [hready] at htrue
    cases htrue
  · have hnone := hstuck.verdict
    rw [verdict?_of_unrelated hrelated h, hty] at hnone
    cases hnone

include hrelated in
theorem get?_solve_of_unrelated {s : Store} (hr : s.record? t = some r)
    (hfinal : established.isFinal t = false) :
    (b.solve s established).2.get? t = (b.typeFor? r).map .type := by
  have hstart : Solving.Alone t r ((b.typeFor? r).map .type) ⟨s, ∅⟩ :=
    ⟨hr, fun ha => absurd ha TargetMap.get?_empty_ne_some⟩
  have halone : (b.rounds established s.targets .waiting ⟨s, ∅⟩).Alone t r _ :=
    rounds_induction hstart fun _ _ u _ h => alone_attempt hrelated h u
  refine halone.get?_eq fun a ha => ?_
  obtain ⟨ty, hty, -⟩ := Option.map_eq_some_iff.1 ha
  -- All targets stall before the first pressing round, so `t` is answered by then.
  obtain ⟨st, hst, hstalls, hrounds⟩ : ∃ st : Solving, st.Alone t r ((b.typeFor? r).map .type) ∧
      (∀ u ∈ s.targets, b.Stalls established st u) ∧
      b.rounds established s.targets .waiting ⟨s, ∅⟩ =
        b.rounds established s.targets .pressing st :=
    exists_pressing hstart fun _ u _ h => alone_attempt hrelated h u
  rw [hrounds]
  have hanswered : (st.found.get? t).isSome :=
    isSome_get?_of_stalls hrelated hst.record hfinal hty
      (hstalls t (Store.mem_targets_of_record? hr))
  exact rounds_induction (P := fun st => (st.found.get? t).isSome) hanswered
    fun _ _ u _ h => isSome_get?_attempt h u

end Bounds

/-! ## Over equalities -/

namespace Equalities

open Solving

variable (hrelated : (r.targetsIn .equal).keys = [])

include hrelated

theorem record?_informed_of_unrelated (h : st.store.record? t = some r) :
    (informed established st t).store.record? t = some r :=
  record?_learn_of_unrelated hrelated h

theorem verdict?_of_unrelated (h : st.store.record? t = some r) :
    verdict? established st t = equalType? r := by
  rw [verdict?, record?_informed_of_unrelated hrelated h]
  rfl

theorem alone_attempt (h : st.Alone t r ((equalType? r).map .type)) (u : Target) :
    (attempt established st u).1.Alone t r ((equalType? r).map .type) := by
  have hinformed : (informed established st u).Alone t r ((equalType? r).map .type) :=
    h.learn hrelated u
  rcases attempt_cases established st u with ⟨-, heq⟩ | ⟨-, ⟨-, heq⟩ | ⟨ty, hv, heq⟩⟩
  · rwa [heq]
  · rwa [heq]
  · rw [heq]
    refine hinformed.answer ?_
    rintro rfl
    rw [← verdict?_of_unrelated hrelated h.record, hv]
    rfl

/-- The sweeps end when the record of `t` has been heard. -/
theorem get?_spread_of_unrelated {st : Solving} (h : st.Alone t r ((equalType? r).map .type))
    (ht : t ∈ ts) (hfinal : established.isFinal t = false) :
    (spread established ts st).found.get? t = (equalType? r).map .type := by
  have halone : (spread established ts st).Alone t r ((equalType? r).map .type) :=
    spread_induction h fun _ u _ h => alone_attempt hrelated h u
  refine halone.get?_eq fun a ha => ?_
  obtain ⟨ty, hty, -⟩ := Option.map_eq_some_iff.1 ha
  -- The last sweep was in vain, so it passed `t` over.
  have hvain : (attempt established (spread established ts st) t).2 = false :=
    attempt_of_sweep_in_vain sweep_spread ht
  rcases attempt_cases established (spread established ts st) t with
    ⟨hs, -⟩ | ⟨-, ⟨hv, -⟩ | ⟨ty, -, heq⟩⟩
  · rw [skips, hfinal, Bool.false_or] at hs
    obtain ⟨ty, hty⟩ := Option.isSome_iff_exists.1 hs
    exact Option.isSome_iff_exists.2 ⟨_, Answers.typeOf?_eq_some.1 hty⟩
  · rw [verdict?_of_unrelated hrelated halone.record, hty] at hv
    cases hv
  · rw [heq] at hvain
    cases hvain

/-- Aliases are made of other targets only. -/
theorem get?_addAlias_of_unrelated {a? : Option Answer}
    (h : st.store.record? t = some r ∧ st.found.get? t = a?) (u : Target) :
    (addAlias established st u).store.record? t = some r ∧
      (addAlias established st u).found.get? t = a? := by
  rcases addAlias_cases established st u with heq | ⟨r', v, hr', hv, -, -, heq⟩
  · rwa [heq]
  · have htu : t ≠ u := by
      rintro rfl
      obtain rfl := Option.some.inj (h.1.symm.trans hr')
      rw [OrderedMap.mem_def, hrelated] at hv
      cases hv
    rw [heq, TargetMap.get?_insert, if_neg htu]
    exact h

theorem get?_solve_of_unrelated {s : Store} (hr : s.record? t = some r)
    (hfinal : established.isFinal t = false) :
    (solve s established).2.get? t = (equalType? r).map .type := by
  have hstart : Solving.Alone t r ((equalType? r).map .type) ⟨s, ∅⟩ :=
    ⟨hr, fun ha => absurd ha TargetMap.get?_empty_ne_some⟩
  have hspread : (spread established s.targets ⟨s, ∅⟩).found.get? t = _ :=
    get?_spread_of_unrelated hrelated hstart (Store.mem_targets_of_record? hr) hfinal
  have halone : (spread established s.targets ⟨s, ∅⟩).Alone t r _ :=
    spread_induction hstart fun _ u _ h => alone_attempt hrelated h u
  obtain ⟨-, hfound⟩ : (s.targets.foldl (addAlias established)
        (spread established s.targets ⟨s, ∅⟩)).store.record? t = some r ∧
      (s.targets.foldl (addAlias established)
        (spread established s.targets ⟨s, ∅⟩)).found.get? t = (equalType? r).map .type :=
    List.foldlRecOn s.targets (addAlias established)
      (motive := fun st => st.store.record? t = some r ∧ st.found.get? t = _)
      ⟨halone.record, hspread⟩ fun _ hst u _ => get?_addAlias_of_unrelated hrelated hst u
  rw [solve]
  generalize (s.targets.foldl (addAlias established)
    (spread established s.targets ⟨s, ∅⟩)).found = found at hfound
  cases hv : equalType? r with
  | none =>
    rw [hv] at hfound
    exact (Answers.fills_collapse found).get?_eq_none.2 hfound
  | some ty =>
    rw [hv] at hfound
    exact Answers.typeOf?_eq_some.1
      ((Answers.fills_collapse found).types (Answers.typeOf?_eq_some.2 hfound))

end Equalities

end QualifiedInference
