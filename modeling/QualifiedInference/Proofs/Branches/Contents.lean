-- SUMMARY: What a store shows of itself, and solving as a number of additions.
import QualifiedInference.Proofs.Accumulation
import QualifiedInference.Proofs.Bounds.Attempt
import QualifiedInference.Proofs.Equalities
import QualifiedInference.Strategy.BuiltIn
/-!
# What a store shows

A store shows its targets in order, each with its record; branches and versions stay inside.
A built-in strategy sees nothing else of the store it solves on, and it does nothing else to it
than relating targets to types: it makes additions, the same ones to all stores that show the
same (`BuiltIn.exists_additions`).
-/

namespace QualifiedInference

namespace Store

/-- What the store shows. -/
def contents (s : Store) : List (Target × Record) :=
  s.slots.entries.map fun e => (e.1, e.2.record)

theorem contents_eq_filterMap (s : Store) :
    s.contents = s.targets.filterMap fun t => (s.record? t).map (t, ·) := by
  rw [contents, targets, TargetMap.keys, List.filterMap_map, ← List.filterMap_eq_map]
  apply List.filterMap_congr
  intro e he
  simp [record?, TargetMap.get?_of_mem_entries he]

variable {s s' : Store}

theorem contents_congr (htargets : s.targets = s'.targets)
    (hrecord : ∀ t, s.record? t = s'.record? t) : s.contents = s'.contents := by
  simp only [contents_eq_filterMap, htargets, hrecord]

theorem targets_of_contents (h : s.contents = s'.contents) : s.targets = s'.targets := by
  have hmap : ∀ s : Store, s.targets = s.contents.map Prod.fst := fun s => by
    simp [targets, TargetMap.keys, contents]
  rw [hmap, hmap, h]

theorem record?_eq_some_iff {t : Target} {r : Record} :
    s.record? t = some r ↔ (t, r) ∈ s.contents := by
  rw [contents_eq_filterMap]
  simp only [List.mem_filterMap, Option.map_eq_some_iff, Prod.mk.injEq]
  constructor
  · exact fun h => ⟨t, mem_targets_of_record? h, r, h, rfl, rfl⟩
  · rintro ⟨u, -, r', h, rfl, rfl⟩
    exact h

theorem record?_of_contents (h : s.contents = s'.contents) (t : Target) :
    s.record? t = s'.record? t :=
  Option.ext fun r => by rw [record?_eq_some_iff, record?_eq_some_iff, h]

theorem contains_of_contents (h : s.contents = s'.contents) (t : Target) :
    s.contains t = s'.contains t := by
  rw [Bool.eq_iff_iff, contains_iff, contains_iff, targets_of_contents h]

theorem contents_accept (h : s.contents = s'.contents) (a : Addition) :
    (s.accept a).contents = (s'.accept a).contents := by
  have htargets := targets_of_contents h
  by_cases ha : a.target ∈ s.targets
  · rw [accept_of_mem ha, accept_of_mem (htargets ▸ ha)]
    refine contents_congr (by rw [targets_write, targets_write, htargets]) fun t => ?_
    rw [record?_write, record?_write, record?_of_contents h, record?_of_contents h]
  · rwa [accept_of_not_mem ha, accept_of_not_mem (htargets ▸ ha)]

theorem contents_acceptAll (h : s.contents = s'.contents) (as : List Addition) :
    (s.acceptAll as).contents = (s'.acceptAll as).contents := by
  induction as generalizing s s' with
  | nil => exact h
  | cons a as ih => exact ih (contents_accept h a)

theorem acceptAll_append (s : Store) (as as' : List Addition) :
    s.acceptAll (as ++ as') = (s.acceptAll as).acceptAll as' :=
  List.foldl_append

/-- To learn types is to add them. -/
theorem addTypes_eq_acceptAll {t : Target} (ht : t ∈ s.targets) (rel : Relation)
    (types : List (Ty × Qualifiers)) :
    s.addTypes t rel types = s.acceptAll (types.map fun e => ⟨.chains, t, rel, .type e.1 e.2⟩) := by
  induction types generalizing s with
  | nil => rfl
  | cons e types ih =>
    have hstep : s.accept ⟨.chains, t, rel, .type e.1 e.2⟩ =
        s.write t fun r => r.relateType rel e.1 e.2 := accept_of_mem ht
    rw [List.map_cons, acceptAll, List.foldl_cons, hstep]
    exact ih (by rwa [targets_write])

end Store

/-! ## Solving by additions -/

namespace Solving

variable {β γ : Type} {st : Solving} {f : Solving → Solving × β}

/-- On all stores that show what this one does, `f` makes the same additions, finds the same and
    returns the same. -/
def AddsOnly (f : Solving → Solving × β) (st : Solving) : Prop :=
  ∃ as found b, ∀ s : Store, s.contents = st.store.contents →
    f ⟨s, st.found⟩ = (⟨s.acceptAll as, found⟩, b)

theorem AddsOnly.pure (b : β) (st : Solving) : AddsOnly (fun st => (st, b)) st :=
  ⟨[], st.found, b, fun _ _ => rfl⟩

/-- After `f`, which tells by what it returns how to go on. -/
theorem AddsOnly.after {g h : Solving → Solving × γ} (hf : AddsOnly f st)
    (hg : AddsOnly g (f st).1) (heq : ∀ st', (f st').2 = (f st).2 → h st' = g (f st').1) :
    AddsOnly h st := by
  obtain ⟨as, found, b, hf⟩ := hf
  have hst : f st = (⟨st.store.acceptAll as, found⟩, b) := hf st.store rfl
  rw [hst] at hg
  obtain ⟨as', found', c, hg⟩ := hg
  refine ⟨as ++ as', found', c, fun s hs => ?_⟩
  rw [heq _ (by rw [hf s hs, hst]), hf s hs, Store.acceptAll_append]
  exact hg _ (Store.contents_acceptAll hs as)

/-- A case distinction that sees only what a store shows. -/
theorem AddsOnly.ite {c : Solving → Bool} {g : Solving → Solving × β}
    (hc : ∀ s : Store, s.contents = st.store.contents → c ⟨s, st.found⟩ = c st)
    (hf : AddsOnly f st) (hg : AddsOnly g st) :
    AddsOnly (fun st => if c st then f st else g st) st := by
  cases hst : c st with
  | true =>
    obtain ⟨as, found, b, hf⟩ := hf
    exact ⟨as, found, b, fun s hs => by simp only [hc s hs, hst, if_true, hf s hs]⟩
  | false =>
    obtain ⟨as, found, b, hg⟩ := hg
    exact ⟨as, found, b, fun s hs => by
      simp only [hc s hs, hst, Bool.false_eq_true, if_false, hg s hs]⟩

/-- A part that leaves the store alone and sees only what it shows. -/
theorem AddsOnly.of_found (hstore : ∀ st, (f st).1.store = st.store)
    (hsame : ∀ s : Store, s.contents = st.store.contents →
      (f ⟨s, st.found⟩).1.found = (f st).1.found ∧ (f ⟨s, st.found⟩).2 = (f st).2) :
    AddsOnly f st := by
  refine ⟨[], (f st).1.found, (f st).2, fun s hs => ?_⟩
  obtain ⟨hfound, hb⟩ := hsame s hs
  rw [← hfound, ← hb]
  exact Prod.ext (congrArg (mk · _) (hstore ⟨s, st.found⟩)) rfl

theorem addsOnly_learn (established : Answers) (t : Target) (rel : Relation)
    (related : Record → OrderedMap Target Qualifiers) (st : Solving) :
    AddsOnly (fun st => (st.learn established t rel related, ())) st := by
  cases hr : st.store.record? t with
  | none =>
    refine ⟨[], st.found, (), fun s hs => ?_⟩
    simp only [learn, Store.record?_of_contents hs, hr]
    rfl
  | some r =>
    refine ⟨(st.evidence established (related r)).map fun e => ⟨.chains, t, rel, .type e.1 e.2⟩,
      st.found, (), fun s hs => ?_⟩
    have hs' : s.record? t = some r := (Store.record?_of_contents hs t).trans hr
    simp only [learn, hs', Store.addTypes_eq_acceptAll (Store.mem_targets_of_record? hs')]
    rfl

theorem addsOnly_answerBy (verdict : Record → Option Ty) (t : Target) (st : Solving) :
    AddsOnly (answerBy verdict t) st := by
  unfold answerBy
  refine .of_found (fun st => ?_) fun s hs => ?_
  · cases (st.store.record? t).bind verdict <;> rfl
  · simp only [Store.record?_of_contents hs]
    cases (st.store.record? t).bind verdict <;> exact ⟨rfl, rfl⟩

variable {attempt : Attempt}

theorem addsOnly_sweep (h : ∀ st t, AddsOnly (attempt · t) st) (ts : List Target)
    (st : Solving) : AddsOnly (sweep attempt ts) st := by
  induction ts generalizing st with
  | nil => exact .pure false st
  | cons t ts ih =>
    refine (h st t).after (g := fun st' => ((sweep attempt ts st').1,
      (attempt st t).2 || (sweep attempt ts st').2)) ?_ fun st' hflag => ?_
    · exact (ih _).after (.pure _ _) fun st' hflag => by rw [hflag]
    · rw [sweep_cons, hflag]

theorem addsOnly_sweepFirst (h : ∀ st t, AddsOnly (attempt · t) st) (ts : List Target)
    (st : Solving) : AddsOnly (sweepFirst attempt ts) st := by
  induction ts generalizing st with
  | nil => exact .pure false st
  | cons t ts ih =>
    cases hst : (attempt st t).2 with
    | true =>
      exact (h st t).after (.pure true _) fun st' hflag =>
        sweepFirst_cons_of_answered (hflag.trans hst)
    | false =>
      exact (h st t).after (ih _) fun st' hflag => sweepFirst_cons_of_vain (hflag.trans hst)

end Solving

namespace Equalities

open Solving

variable (established : Answers)

theorem addsOnly_attempt (st : Solving) (t : Target) :
    AddsOnly (attempt established · t) st := by
  refine AddsOnly.ite (f := fun st => (st, false))
    (c := fun st => established.isFinal t || (st.found.typeOf? t).isSome) (fun _ _ => rfl)
    (.pure false st) ?_
  exact (addsOnly_learn established t .equal (·.equalities.targets) st).after
    (addsOnly_answerBy equalType? t _) fun _ _ => rfl

theorem addsOnly_spread (ts : List Target) (st : Solving) :
    AddsOnly (fun st => (spread established ts st, ())) st := by
  have hsweep := addsOnly_sweep (addsOnly_attempt established) ts
  induction st using spread.induct established ts with
  | case1 st st' hst ih =>
    refine (hsweep st).after (by rwa [hst]) fun st' hflag => ?_
    rw [spread_of_answered (by rw [hflag, hst])]
  | case2 st st' hst =>
    refine (hsweep st).after (.pure () _) fun st' hflag => ?_
    have hidle : (sweep (attempt established) ts st').2 = false := by rw [hflag, hst]
    rw [spread_of_idle hidle, sweep_in_vain hidle]

theorem addsOnly_aliases (ts : List Target) (st : Solving) :
    AddsOnly (fun st => (ts.foldl (addAlias established) st, ())) st := by
  induction ts generalizing st with
  | nil => exact .pure () st
  | cons t ts ih =>
    have halias : AddsOnly (fun st => (addAlias established st t, ())) st := by
      refine .of_found (fun st => store_addAlias established st t) fun s hs => ⟨?_, rfl⟩
      simp only [addAlias, Store.record?_of_contents hs, Store.contains_of_contents hs]
      grind
    exact halias.after (ih _) fun _ _ => rfl

end Equalities

namespace Bounds

open Solving

variable (b : Bounds) (established : Answers)

theorem isReady_of_contents {s s' : Store} (h : s.contents = s'.contents) (found : Answers)
    (t : Target) : b.isReady established ⟨s, found⟩ t = b.isReady established ⟨s', found⟩ t := by
  simp only [isReady, Store.record?_of_contents h, Store.contains_of_contents h]
  rfl

theorem addsOnly_attempt (patience : Patience) (st : Solving) (t : Target) :
    AddsOnly (b.attempt established patience · t) st := by
  refine AddsOnly.ite (f := fun st => (st, false))
    (c := fun st => established.isFinal t || st.found.contains t) (fun _ _ => rfl)
    (.pure false st) ?_
  refine AddsOnly.ite (f := fun st => (st, false))
    (c := fun st => patience == .waiting && !b.isReady established st t)
    (fun s hs => by rw [b.isReady_of_contents established hs]) (.pure false st) ?_
  exact (addsOnly_learn established t b.side.relation (fun r => (b.side.relations r).targets) st).after
    (addsOnly_answerBy b.typeFor? t _) fun _ _ => rfl

theorem addsOnly_round (ts : List Target) (patience : Patience) (st : Solving) :
    AddsOnly (b.round established ts patience) st := by
  cases patience with
  | waiting => exact addsOnly_sweep (b.addsOnly_attempt established .waiting) ts st
  | pressing => exact addsOnly_sweepFirst (b.addsOnly_attempt established .pressing) ts st

theorem addsOnly_rounds (ts : List Target) (patience : Patience) (st : Solving) :
    AddsOnly (fun st => (b.rounds established ts patience st, ())) st := by
  induction patience, st using Bounds.rounds.induct b established ts with
  | case1 patience st st' hst ih =>
    refine (b.addsOnly_round established ts patience st).after (by rwa [hst]) fun st' hflag => ?_
    rw [rounds_of_answered (by rw [hflag, hst])]
  | case2 st st' hst ih =>
    refine (b.addsOnly_round established ts .waiting st).after (by rwa [hst]) fun st' hflag => ?_
    rw [rounds_of_idle (by rw [hflag, hst])]
  | case3 st st' hst =>
    refine (b.addsOnly_round established ts .pressing st).after (.pure () _) fun st' hflag => ?_
    rw [rounds_of_exhausted (by rw [hflag, hst])]

end Bounds

/-- A strategy makes the same additions to all stores that show the same, and finds the same. -/
theorem BuiltIn.exists_additions (b : BuiltIn) (types : TypeOrder) (order : QualifierOrder)
    (established : Answers) (s : Store) :
    ∃ as found, ∀ s' : Store, s'.contents = s.contents →
      (b.strategy types order).solve s' established = (s'.acceptAll as, found) := by
  have hbounds (bounds : Bounds) : ∃ as found, ∀ s' : Store, s'.contents = s.contents →
      bounds.solve s' established = (s'.acceptAll as, found) := by
    obtain ⟨as, found, _, h⟩ := bounds.addsOnly_rounds established s.targets .waiting ⟨s, ∅⟩
    refine ⟨as, found, fun s' hs' => ?_⟩
    have hst := (Prod.mk.inj (h s' hs')).1
    rw [Bounds.solve, Store.targets_of_contents hs', hst]
  cases b with
  | equalities =>
    obtain ⟨as, found, _, h⟩ :=
      (Equalities.addsOnly_spread established s.targets ⟨s, ∅⟩).after
        (Equalities.addsOnly_aliases established s.targets _) fun _ _ => rfl
    refine ⟨as, found.collapse, fun s' hs' => ?_⟩
    have hst := (Prod.mk.inj (h s' hs')).1
    simp only [strategy, Strategy.equalities, Equalities.solve, Store.targets_of_contents hs', hst]
  | supertypes => exact hbounds ⟨.lower, types, order⟩
  | subtypes => exact hbounds ⟨.upper, types, order⟩

end QualifiedInference
