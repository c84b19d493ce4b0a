-- SUMMARY: Runs over bounds stage by stage, with a limit on their rounds.
import Mathlib.Logic.Relation
import QualifiedInference.Proofs.Bounds.Source
import QualifiedInference.Proofs.Bounds.Vain
/-!
# The course of a run over bounds

`advance?` takes a run from one attempt to the next, and from the end of one round to the start of
the next, so that a run is a chain of stages whose rounds can be counted. Its answers are given
one after the other and stay. `solve_exhausts` says how many rounds there are at most, and why a
target may be without an answer in the end.
-/

namespace QualifiedInference

namespace Bounds

open Solving

/-- Where a run stands before an attempt, or at the end of a round. -/
structure Stage where
  /-- How many rounds have begun. -/
  rounds : Nat
  patience : Patience
  /-- The targets that this round has still to try. -/
  ahead : List Target
  /-- This round has answered some target. -/
  progressed : Bool
  run : Solving

/-- The first round begins. -/
def Stage.start (s : Store) : Stage := ⟨1, .waiting, s.targets, false, ⟨s, ∅⟩⟩

/-- The stage after one more attempt, or the start of the next round. There is none after a
    pressing round that has answered nothing. -/
def advance? (b : Bounds) (established : Answers) (ts : List Target) (x : Stage) : Option Stage :=
  match x.ahead with
  | t :: ahead =>
    let (run, answered) := b.attempt established x.patience x.run t
    some {
      x with
      ahead := if answered && x.patience == .pressing then [] else ahead
      progressed := x.progressed || answered
      run }
  | [] =>
    match x.progressed, x.patience with
    | true, _ => some ⟨x.rounds + 1, .waiting, ts, false, x.run⟩
    | false, .waiting => some ⟨x.rounds + 1, .pressing, ts, false, x.run⟩
    | false, .pressing => none

/-- The run comes from one stage to another. -/
def Comes (b : Bounds) (established : Answers) (ts : List Target) : Stage → Stage → Prop :=
  Relation.ReflTransGen fun x y => b.advance? established ts x = some y

variable {b : Bounds} {established : Answers} {s : Store} {patience : Patience} {st : Solving}
  {t : Target} {ts all : List Target} {x y last : Stage}

/-! ## Answers stay -/

/-- An attempt answers nothing, or its target, which is then unsettled and without an answer. -/
theorem attempt_answers (b : Bounds) (established : Answers) (patience : Patience) (st : Solving)
    (t : Target) :
    ((b.attempt established patience st t).2 = false ∧
      (b.attempt established patience st t).1.found = st.found) ∨
    ((b.attempt established patience st t).2 = true ∧ established.isFinal t = false ∧
      t ∉ st.found ∧ ∃ ty, (b.attempt established patience st t).1.found.entries =
        st.found.entries ++ [(t, .type ty)]) := by
  rcases attempt_cases b established patience st t with
    ⟨-, heq⟩ | ⟨hs, -, ⟨-, heq⟩ | ⟨ty, -, heq⟩⟩
  · rw [heq]
    exact .inl ⟨rfl, rfl⟩
  · rw [heq]
    exact .inl ⟨rfl, found_informed⟩
  · obtain ⟨hfinal, hnone⟩ := skips_eq_false_iff.1 hs
    have hnew : t ∉ st.found := TargetMap.get?_eq_none_iff.1 hnone
    rw [heq]
    refine .inr ⟨rfl, hfinal, hnew, ty, ?_⟩
    rw [answer, TargetMap.entries_insert, found_informed]
    exact OrderedMap.upsertEntries_of_not_mem hnew _

/-- What a stage may be followed by. -/
theorem advance?_cases (h : b.advance? established ts x = some y) :
    (∃ t ahead, x.ahead = t :: ahead ∧ (y.ahead = ahead ∨ y.ahead = []) ∧
      y.run = (b.attempt established x.patience x.run t).1) ∨
    (x.ahead = [] ∧ y.ahead = ts ∧ y.run = x.run) := by
  unfold advance? at h
  split at h
  · next t ahead hahead =>
    cases h
    exact .inl ⟨t, ahead, hahead, (ite_eq_or_eq ..).symm, rfl⟩
  · next hahead =>
    split at h
    · cases h
      exact .inr ⟨hahead, rfl, rfl⟩
    · cases h
      exact .inr ⟨hahead, rfl, rfl⟩
    · cases h

theorem attempt_keeps_found (b : Bounds) (established : Answers) (patience : Patience)
    (st : Solving) (t : Target) :
    st.found.entries <+: (b.attempt established patience st t).1.found.entries := by
  rcases attempt_answers b established patience st t with ⟨-, hsame⟩ | ⟨-, -, -, ty, hmore⟩
  · exact hsame ▸ List.prefix_refl _
  · exact hmore ▸ List.prefix_append _ _

theorem Comes.keeps_found (h : b.Comes established ts x y) :
    x.run.found.entries <+: y.run.found.entries := by
  induction h with
  | refl => exact List.prefix_refl _
  | @tail y z _ hstep ih =>
    rcases advance?_cases hstep with ⟨t, _, -, -, hrun⟩ | ⟨-, -, hrun⟩
    · exact hrun ▸ ih.trans (attempt_keeps_found b established y.patience y.run t)
    · exact hrun ▸ ih

theorem Comes.ahead_subset (h : b.Comes established ts x y) (hx : ∀ t ∈ x.ahead, t ∈ ts) :
    ∀ t ∈ y.ahead, t ∈ ts := by
  induction h with
  | refl => exact hx
  | tail _ hstep ih =>
    rcases advance?_cases hstep with ⟨u, ahead, hahead, hrest | hrest, -⟩ | ⟨-, hrest, -⟩
    · exact fun t ht => ih t (hahead ▸ .tail _ (hrest ▸ ht))
    · exact fun t ht => by rw [hrest] at ht; cases ht
    · exact fun t ht => hrest ▸ ht

/-- Every stage of a run is on the way to its last one. -/
theorem Comes.to_last (h : b.Comes established ts x y) (hlast : b.Comes established ts x last)
    (hend : b.advance? established ts last = none) : b.Comes established ts y last := by
  have hunique : Relator.RightUnique fun x y => b.advance? established ts x = some y :=
    fun _ _ _ hy hz => Option.some.inj (hy.symm.trans hz)
  rcases Relation.ReflTransGen.total_of_right_unique hunique h hlast with hyl | hly
  · exact hyl
  · rcases Relation.ReflTransGen.cases_head hly with rfl | ⟨z, hz, -⟩
    · exact .refl
    · rw [hend] at hz
      cases hz

/-! ## Rounds are counted -/

theorem comes_sweep (b : Bounds) (established : Answers) (all ts : List Target) (n : Nat)
    (progressed : Bool) (st : Solving) :
    b.Comes established all ⟨n, .waiting, ts, progressed, st⟩ ⟨n, .waiting, [],
      progressed || (sweep (b.attempt established .waiting) ts st).2,
      (sweep (b.attempt established .waiting) ts st).1⟩ := by
  induction ts generalizing progressed st with
  | nil =>
    rw [sweep, Bool.or_false]
    exact .refl
  | cons t ts ih =>
    have hrest := ih (progressed || (b.attempt established .waiting st t).2)
      (b.attempt established .waiting st t).1
    rw [Bool.or_assoc] at hrest
    refine .head ?_ hrest
    simp [advance?]

theorem comes_sweepFirst (b : Bounds) (established : Answers) (all ts : List Target) (n : Nat)
    (st : Solving) :
    b.Comes established all ⟨n, .pressing, ts, false, st⟩ ⟨n, .pressing, [],
      (sweepFirst (b.attempt established .pressing) ts st).2,
      (sweepFirst (b.attempt established .pressing) ts st).1⟩ := by
  induction ts generalizing st with
  | nil => exact .refl
  | cons t ts ih =>
    cases hflag : (b.attempt established .pressing st t).2 with
    | true =>
      rw [sweepFirst_cons_of_answered hflag]
      refine .single ?_
      simp [advance?, hflag]
    | false =>
      rw [sweepFirst_cons_of_vain hflag]
      refine .head ?_ (ih (b.attempt established .pressing st t).1)
      simp [advance?, hflag]

/-- The stages of one round lead to what the round makes of the run. -/
theorem comes_round (b : Bounds) (established : Answers) (ts : List Target) (n : Nat)
    (patience : Patience) (st : Solving) :
    b.Comes established ts ⟨n, patience, ts, false, st⟩ ⟨n, patience, [],
      (b.round established ts patience st).2, (b.round established ts patience st).1⟩ := by
  cases patience with
  | waiting => exact comes_sweep b established ts ts n false st
  | pressing => exact comes_sweepFirst b established ts ts n st

/-- How many rounds a run makes at most from the start of one: two for each target without an
    answer, since a waiting round may be in vain before the pressing one that answers, and those in
    vain at the end. -/
def roundsLeft (ts : List Target) (patience : Patience) (st : Solving) : Nat :=
  2 * unanswered ts st + if patience = .waiting then 2 else 1

/-- A round that begins as the `n`-th leads to the end of the run, within the rounds left. -/
theorem exists_last (b : Bounds) (established : Answers) (ts : List Target) (n : Nat)
    (patience : Patience) (st : Solving) :
    ∃ last, b.Comes established ts ⟨n, patience, ts, false, st⟩ last ∧
      b.advance? established ts last = none ∧
      last.run = b.rounds established ts patience st ∧
      last.rounds < n + roundsLeft ts patience st := by
  -- Along the recursion of `rounds`, one round after the other.
  induction patience, st using Bounds.rounds.induct b established ts generalizing n with
  | case1 patience st next heq ih =>
    obtain ⟨last, hcomes, hend, hrun, hcount⟩ := ih (n + 1)
    have hround := comes_round b established ts n patience st
    have hfewer := (b.unanswered_round established ts patience st).2 (by rw [heq])
    simp only [heq] at hround hfewer
    refine ⟨last, hround.trans (.head rfl hcomes), hend, ?_, ?_⟩
    · rw [rounds_of_answered (by rw [heq]), heq, hrun]
    · simp only [roundsLeft] at hcount ⊢
      split <;> simp only [if_pos] at hcount <;> omega
  | case2 st next heq ih =>
    obtain ⟨last, hcomes, hend, hrun, hcount⟩ := ih (n + 1)
    have hround := comes_round b established ts n .waiting st
    have hnoMore := (b.unanswered_round established ts .waiting st).1
    simp only [heq] at hround hnoMore
    refine ⟨last, hround.trans (.head rfl hcomes), hend, ?_, ?_⟩
    · rw [rounds_of_idle (by rw [heq]), heq, hrun]
    · simp only [roundsLeft, reduceCtorEq, if_false, if_true] at hcount ⊢
      omega
  | case3 st next heq =>
    have hround := comes_round b established ts n .pressing st
    rw [heq] at hround
    refine ⟨_, hround, rfl, ?_, ?_⟩
    · rw [rounds_of_exhausted (by rw [heq]), heq]
    · simp [roundsLeft]

/-! ## What is left without an answer -/

/-- The record that a run leaves of `t` has the type bounds that it had and the types known for
    all that bounds `t`. Either there are none of both, or they have no common bound. -/
def Exhausted (b : Bounds) (established : Answers) (s : Store) (st : Solving) (t : Target) :
    Prop :=
  ∃ given left, s.record? t = some given ∧ st.store.record? t = some left ∧
    (b.side.relations left).targets = (b.side.relations given).targets ∧
    (∀ ty ∈ (b.side.relations given).types, ty ∈ (b.side.relations left).types) ∧
    (∀ u ∈ (b.side.relations given).targets, ∀ ty, st.typeOf? established u = some ty →
      ty ∈ (b.side.relations left).types) ∧
    ((b.side.relations left).types.keys = [] ∧
        (∀ u ∈ (b.side.relations given).targets, st.typeOf? established u = none) ∨
      ∃ first rest, (b.side.relations left).types.keys = first :: rest ∧
        rest.foldlM (b.side.combineTypes? b.types) first = none)

/-- At the end of a run every target has been passed over, or all that is known of it has been
    tried. -/
theorem tried_rounds (b : Bounds) (established : Answers) (patience : Patience) (st : Solving)
    (ht : t ∈ ts) : b.Tried established (b.rounds established ts patience st) t := by
  induction patience, st using Bounds.rounds.induct b established ts with
  | case1 patience st next heq ih =>
    rw [rounds_of_answered (by rw [heq]), heq]
    exact ih
  | case2 st next heq ih =>
    rw [rounds_of_idle (by rw [heq]), heq]
    exact ih
  | case3 st next heq =>
    have hvain : (b.round established ts .pressing st).2 = false := by rw [heq]
    obtain ⟨hflag, hsame⟩ := sweepFirst_of_vain hvain
    rw [rounds_of_exhausted hvain]
    exact (congrArg Prod.fst hsame) ▸ tried_sweep hflag ht

/-- All that is known of a spent target is in its record, and cannot be combined. -/
theorem Spent.exhausted (h : b.Spent established st t)
    (henriched : s.Enriched b.side.relation (fun _ => True) st.store) {left : Record}
    (hleft : st.store.record? t = some left) : b.Exhausted established s st t := by
  obtain ⟨given, hgiven, hrec⟩ := henriched.record hleft
  have hknown : ∀ u ∈ (b.side.relations given).targets, ∀ ty,
      st.typeOf? established u = some ty → ty ∈ (b.side.relations left).types := by
    intro u hu ty hty
    have hinformed := h.informed
    rw [record?_informed_of_some hleft, hleft, Option.some.injEq] at hinformed
    rw [types_relations, ← hinformed]
    refine Record.mem_typesIn_relateTypes.2 (.inr (mem_evidence.2 ⟨u, ?_, hty⟩))
    rw [hrec.targets, ← targets_relations]
    exact hu
  have hverdict : b.typeFor? left = none := by
    have hnone := h.verdict
    rwa [verdict?, h.informed, hleft] at hnone
  refine ⟨given, left, hgiven, hleft, ?_, ?_, hknown, ?_⟩
  · rw [targets_relations, targets_relations, hrec.targets]
  · rw [types_relations, types_relations]
    exact hrec.keeps
  · rw [typeFor?, Option.map_eq_none_iff] at hverdict
    cases hkeys : (b.side.relations left).types.keys with
    | nil =>
      refine .inl ⟨rfl, fun u hu => ?_⟩
      cases hty : st.typeOf? established u with
      | none => rfl
      | some ty =>
        have hmem := hknown u hu ty hty
        rw [OrderedMap.mem_def, hkeys] at hmem
        cases hmem
    | cons first rest =>
      rw [hkeys] at hverdict
      exact .inr ⟨first, rest, rfl, hverdict⟩

theorem enriched_rounds (b : Bounds) (established : Answers) (s : Store) :
    s.Enriched b.side.relation (fun _ => True)
      (b.rounds established s.targets .waiting ⟨s, ∅⟩).store := by
  have hrun : Sourced b (fun _ => True) s (b.rounds established s.targets .waiting ⟨s, ∅⟩) :=
    sourced_rounds (fun _ _ _ => trivial) (fun _ => trivial) fun _ _ _ => trivial
  exact hrun.store

/-- A run over bounds comes to an end within two rounds for each target and two more. Every attempt
    on the way answers nothing, or its own target, which is an unsettled one of the store and has
    no answer yet, and no answer changes any more. A target of the store that is neither settled
    nor answered has no type bounds, given or known, or its bounds cannot be combined. -/
theorem solve_exhausts (b : Bounds) (s : Store) (established : Answers) :
    ∃ last, b.Comes established s.targets (.start s) last ∧
      b.advance? established s.targets last = none ∧
      b.solve s established = (last.run.store, last.run.found) ∧
      last.rounds ≤ 2 * s.targets.length + 2 ∧
      (∀ x t ahead, b.Comes established s.targets (.start s) x → x.ahead = t :: ahead →
        ((b.attempt established x.patience x.run t).2 = false ∧
          (b.attempt established x.patience x.run t).1.found = x.run.found) ∨
        ((b.attempt established x.patience x.run t).2 = true ∧ t ∈ s.targets ∧
          established.isFinal t = false ∧ t ∉ x.run.found ∧
          ∃ ty, (b.attempt established x.patience x.run t).1.found.entries =
            x.run.found.entries ++ [(t, .type ty)])) ∧
      (∀ x, b.Comes established s.targets (.start s) x →
        x.run.found.entries <+: last.run.found.entries) ∧
      ∀ t ∈ s.targets, established.isFinal t = false → t ∉ last.run.found →
        b.Exhausted established s last.run t := by
  obtain ⟨last, hcomes, hend, hrun, hcount⟩ :=
    exists_last b established s.targets 1 .waiting ⟨s, ∅⟩
  refine ⟨last, hcomes, hend, ?_, ?_, ?_, ?_, ?_⟩
  · rw [hrun]
    rfl
  · have hall : unanswered s.targets ⟨s, ∅⟩ ≤ s.targets.length := List.countP_le_length
    simp only [roundsLeft, if_pos] at hcount
    omega
  · intro x t ahead hx hahead
    have ht : t ∈ s.targets := hx.ahead_subset (fun _ => id) t (hahead ▸ .head _)
    rcases attempt_answers b established x.patience x.run t with hidle | ⟨hflag, hrest⟩
    · exact .inl hidle
    · exact .inr ⟨hflag, ht, hrest⟩
  · exact fun x hx => (hx.to_last hcomes hend).keeps_found
  · intro t ht hfinal hnew
    have htried := tried_rounds b established .waiting ⟨s, ∅⟩ ht
    have henriched := enriched_rounds b established s
    rw [← hrun] at htried henriched
    have hspent := htried.resolve_left fun hs => by
      rw [skips_eq_false_iff.2 ⟨hfinal, TargetMap.get?_eq_none_iff.2 hnew⟩] at hs
      cases hs
    obtain ⟨left, hleft⟩ := Option.isSome_iff_exists.1
      ((Store.isSome_record? last.run.store t).2 (henriched.targets ▸ ht))
    exact hspent.exhausted henriched hleft

end Bounds

end QualifiedInference
