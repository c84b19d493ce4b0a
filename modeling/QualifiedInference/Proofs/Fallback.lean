-- SUMMARY: Longer lists of strategies only add to the answers of shorter ones.
import Mathlib.Data.List.Basic
import QualifiedInference.Inference
import QualifiedInference.Proofs.Answers.Merge
/-!
# Falling back on further strategies

Strategies always run to an end. What the run of a list makes of the answers before it is
`Extends`: types stay, strategies run in their order, and only complete answers stop the run.
To run a longer list is to go on where the shorter one ended, so a longer list never takes back
what a shorter one has found (`infer_append`).
-/

namespace QualifiedInference

variable {s : Store} {answers m : Answers} {strategy : Strategy}

theorem runStrategies_of_complete (h : answers.isComplete s.targets = true)
    (strategies : List Strategy) (ran : List String) :
    runStrategies s strategies (answers, ran) = .ok (answers, ran) := by
  cases strategies with
  | nil => rfl
  | cons strategy rest => exact if_pos h

theorem runStrategies_cons (h : answers.isComplete s.targets = false)
    (hm : answers.merge (strategy.solve s answers).2 = .ok m) (rest : List Strategy)
    (ran : List String) : runStrategies s (strategy :: rest) (answers, ran) =
      runStrategies s rest (m, ran ++ [strategy.name]) := by
  rw [runStrategies, if_neg (by simp [h]), hm]
  rfl

theorem infer_of_runStrategies {strategies : List Strategy} {out : Answers × List String}
    (h : runStrategies s strategies (∅, []) = .ok out) :
    infer s strategies = .ok ⟨out.1, out.2, s.targets.filter fun t => !out.1.isFinal t⟩ := by
  rw [infer, h]
  rfl

/-! ## What a run keeps -/

/-- The types of `r` are types of `r'` as well. -/
def Answers.KeepsTypes (r r' : Answers) : Prop :=
  ∀ t ty, r.typeOf? t = some ty → r'.typeOf? t = some ty

theorem Answers.keepsTypes_insert {r : Answers} {t : Target} (h : r.typeOf? t = none) (ty : Ty) :
    r.KeepsTypes (r.insert t (.type ty)) := by
  intro u uty hu
  rw [Answers.typeOf?_insert, if_neg]
  · exact hu
  · rintro rfl
    rw [h] at hu
    cases hu

theorem Answers.KeepsTypes.isFinal {r r' : Answers} (h : r.KeepsTypes r') {t : Target}
    (ht : r.isFinal t = true) : r'.isFinal t = true := by
  obtain ⟨ty, hty, hnull⟩ := Answers.isFinal_iff.1 ht
  exact Answers.isFinal_iff.2 ⟨ty, h t ty hty, hnull⟩

/-- What running `strategies` makes of the answers and of the names of those that ran. -/
structure Extends (s : Store) (strategies : List Strategy) (acc out : Answers × List String) :
    Prop where
  keeps : acc.1.KeepsTypes out.1
  /-- Those that ran did so in order; the others were left out because nothing was missing. -/
  ran : ∃ done skipped, strategies = done ++ skipped ∧ out.2 = acc.2 ++ done.map Strategy.name ∧
    (skipped ≠ [] → out.1.isComplete s.targets = true)

theorem extends_of_complete (h : answers.isComplete s.targets = true) (strategies : List Strategy)
    (ran : List String) : Extends s strategies (answers, ran) (answers, ran) where
  keeps := fun _ _ => id
  ran := ⟨[], strategies, rfl, by simp, fun _ => h⟩

theorem Extends.cons {ran : List String} {rest : List Strategy} {out : Answers × List String}
    (hm : answers.merge (strategy.solve s answers).2 = .ok m)
    (h : Extends s rest (m, ran ++ [strategy.name]) out) :
    Extends s (strategy :: rest) (answers, ran) out := by
  obtain ⟨hkeeps, done, skipped, rfl, hran, hstop⟩ := h
  constructor
  · intro t ty ht
    exact hkeeps t ty (Answers.typeOf?_merge hm ht)
  · refine ⟨strategy :: done, skipped, rfl, ?_, hstop⟩
    simpa using hran

theorem runStrategies_extends (s : Store) (strategies : List Strategy)
    (acc : Answers × List String) :
    ∃ out, runStrategies s strategies acc = .ok out ∧ Extends s strategies acc out := by
  -- On the strategies; complete answers end the run early.
  induction strategies generalizing acc with
  | nil => exact ⟨acc, rfl, fun _ _ => id, [], [], rfl, by simp, nofun⟩
  | cons strategy rest ih =>
    obtain ⟨answers, ran⟩ := acc
    cases hcomplete : answers.isComplete s.targets with
    | true =>
      exact ⟨_, runStrategies_of_complete hcomplete _ ran, extends_of_complete hcomplete _ ran⟩
    | false =>
      obtain ⟨filled, -, hm⟩ := answers.merge_eq (strategy.solve s answers).2
      obtain ⟨out, hout, hextends⟩ := ih ((filled.adopt (strategy.solve s answers).2).collapse,
        ran ++ [strategy.name])
      exact ⟨out, (runStrategies_cons hcomplete hm rest ran).trans hout, hextends.cons hm⟩

/-- To run a longer list is to go on where the shorter one ended. -/
theorem runStrategies_append (s : Store) (strategies more : List Strategy)
    (acc : Answers × List String) :
    runStrategies s (strategies ++ more) acc =
      runStrategies s strategies acc >>= runStrategies s more := by
  induction strategies generalizing acc with
  | nil => rfl
  | cons strategy rest ih =>
    obtain ⟨answers, ran⟩ := acc
    cases hcomplete : answers.isComplete s.targets with
    | true =>
      simp only [runStrategies_of_complete hcomplete]
      exact (runStrategies_of_complete hcomplete more ran).symm
    | false =>
      obtain ⟨filled, -, hm⟩ := answers.merge_eq (strategy.solve s answers).2
      simp only [List.cons_append, runStrategies_cons hcomplete hm]
      exact ih _

/-! ## Outcomes -/

theorem Outcome.complete_iff {o : Outcome}
    (h : o.remaining = s.targets.filter fun t => !o.answers.isFinal t) :
    o.complete = true ↔ o.answers.isComplete s.targets = true := by
  simp [Outcome.complete, Answers.isComplete, h]

/-- The names of those that ran are the first of all, and if some are missing nothing else is. -/
theorem Extends.ran_outcome {strategies : List Strategy} {out : Answers × List String}
    (h : Extends s strategies (∅, []) out) {o : Outcome} (hanswers : o.answers = out.1)
    (hran : o.ran = out.2)
    (hremaining : o.remaining = s.targets.filter fun t => !o.answers.isFinal t) :
    o.ran <+: strategies.map Strategy.name ∧
      (o.ran ≠ strategies.map Strategy.name → o.complete = true) := by
  obtain ⟨done, skipped, rfl, hdone, hstop⟩ := h.ran
  simp only [List.nil_append] at hdone
  rw [hran, hdone, List.map_append, Outcome.complete_iff hremaining, hanswers]
  refine ⟨List.prefix_append _ _, fun hne => hstop ?_⟩
  rintro rfl
  simp at hne

/-- Further strategies at the end of a list never take a type back: what remains is a part of
    what remained, in the same order, the strategies that ran are the first of those that run
    now, and a run leaves strategies out only when nothing remains. -/
theorem infer_append (s : Store) (strategies more : List Strategy) :
    ∃ o o', infer s strategies = .ok o ∧ infer s (strategies ++ more) = .ok o' ∧
      (∀ t ty, o.answers.typeOf? t = some ty → o'.answers.typeOf? t = some ty) ∧
      o'.remaining.Sublist o.remaining ∧ o.ran <+: o'.ran ∧
      (o.ran <+: strategies.map Strategy.name ∧
        (o.ran ≠ strategies.map Strategy.name → o.complete = true)) ∧
      (o'.ran <+: (strategies ++ more).map Strategy.name ∧
        (o'.ran ≠ (strategies ++ more).map Strategy.name → o'.complete = true)) := by
  obtain ⟨out, hout, hextends⟩ := runStrategies_extends s strategies (∅, [])
  obtain ⟨out', hout', hextends'⟩ := runStrategies_extends s more out
  have hall : runStrategies s (strategies ++ more) (∅, []) = .ok out' := by
    rw [runStrategies_append, hout]
    exact hout'
  obtain ⟨all, hall', hextendsAll⟩ := runStrategies_extends s (strategies ++ more) (∅, [])
  obtain rfl : out' = all := Except.ok.inj (hall.symm.trans hall')
  refine ⟨_, _, infer_of_runStrategies hout, infer_of_runStrategies hall, hextends'.keeps, ?_, ?_,
    hextends.ran_outcome rfl rfl rfl, hextendsAll.ran_outcome rfl rfl rfl⟩
  · -- What is final stays final, so the longer run filters more out.
    apply List.monotone_filter_right
    intro t ht
    simp only [Bool.not_eq_true'] at ht ⊢
    exact Bool.eq_false_iff.2 fun hfinal =>
      Bool.eq_false_iff.1 ht (hextends'.keeps.isFinal hfinal)
  · obtain ⟨done, -, -, hran, -⟩ := hextends'.ran
    exact ⟨_, hran.symm⟩

end QualifiedInference
