-- SUMMARY: Runs of scenarios with every record access and every guard checked, which are never at fault.
import QualifiedInference.Proofs.Answers.Merge
import QualifiedInference.Proofs.Checked.Strategies
import QualifiedInference.Proofs.WellFormed.Report
/-!
# Runs without faults

Names stand for targets of the store, so constraints are added to such targets only. A walk along
aliases leaves each key that it has entered before it goes back, and a merge closes its guard with
nothing left to leave. With strategies that keep to the records of the store, no run is at fault
(`Scenario.run_never_faults`).
-/

namespace QualifiedInference

/-! ## Merges -/

namespace Answers

/-- One step of a merge whose guard is closed before it is reset. -/
def mergeTargetChecked (s : Answers) (acc : Answers × Guard Target) (t : Target) :
    Except Fault (Answers × Guard Target) := do
  let d ← descend s acc.1 acc.2 t
  d.guard.close
  return (d.answers, d.guard.reset)

def mergeChecked (r s : Answers) : Except Fault Answers := do
  let (filled, guard) ← r.keys.foldlM (mergeTargetChecked s) (r, Guard.new .aliasChain)
  guard.close
  return (filled.adopt s).collapse

theorem mergeTargetChecked_eq (s r : Answers) (t : Target) :
    mergeTargetChecked s (r, .new .aliasChain) t = mergeTarget s (r, .new .aliasChain) t := by
  -- A descent from a new guard ends with a guard that visits nothing, as the new one does.
  obtain ⟨d, hd, -, hbalanced⟩ := descend_eq s r (.new .aliasChain) t Guard.straight_new
  have hclose : d.guard.close = .ok () := by
    rw [Guard.close, hbalanced.visiting]
    rfl
  rw [mergeTargetChecked, mergeTarget, hd]
  dsimp only [bind, Except.bind]
  rw [hclose]

theorem mergeChecked_eq (r s : Answers) : r.mergeChecked s = r.merge s := by
  have hfold : ∀ (ts : List Target) (r : Answers),
      ts.foldlM (mergeTargetChecked s) (r, .new .aliasChain) =
        ts.foldlM (mergeTarget s) (r, .new .aliasChain) := by
    intro ts
    induction ts with
    | nil => exact fun _ => rfl
    | cons t ts ih =>
      intro r
      obtain ⟨-, r', -, hstep⟩ := mergeTarget_eq s r t
      rw [List.foldlM_cons, List.foldlM_cons, mergeTargetChecked_eq, hstep]
      exact ih r'
  rw [mergeChecked, merge, hfold]

end Answers

/-! ## Strategies in turn -/

def runStrategiesChecked (types : TypeOrder) (qualifiers : QualifierOrder) (baseline : Store) :
    List BuiltIn → Answers × List String → Except Fault (Answers × List String)
  | [], acc => .ok acc
  | b :: rest, (answers, ran) =>
    if answers.isComplete baseline.targets then .ok (answers, ran)
    else do
      let (_, found) ← b.solveChecked types qualifiers baseline answers
      let merged ← answers.mergeChecked found
      runStrategiesChecked types qualifiers baseline rest (merged, ran ++ [b.name])

theorem runStrategiesChecked_eq (types : TypeOrder) (qualifiers : QualifierOrder)
    (baseline : Store) (strategies : List BuiltIn) (acc : Answers × List String) :
    runStrategiesChecked types qualifiers baseline strategies acc =
      runStrategies baseline (strategies.map (BuiltIn.strategy types qualifiers)) acc := by
  induction strategies generalizing acc with
  | nil => rfl
  | cons b rest ih =>
    have hname : b.name = (b.strategy types qualifiers).name := by cases b <;> rfl
    rw [runStrategiesChecked, List.map_cons, runStrategies, b.solveChecked_eq]
    dsimp only [bind, Except.bind]
    rw [Answers.mergeChecked_eq]
    simp only [ih, hname]

namespace Problem

def inferChecked (p : Problem) (strategies : List BuiltIn) : Except Fault Outcome := do
  let (answers, ran) ←
    runStrategiesChecked p.typeOrder p.qualifierOrder p.store strategies (∅, [])
  return {
    answers
    ran
    remaining := p.store.targets.filter fun t => !answers.isFinal t }

theorem inferChecked_eq (p : Problem) (strategies : List BuiltIn) :
    p.inferChecked strategies = p.infer strategies := by
  rw [inferChecked, runStrategiesChecked_eq]
  rfl

/-! ## Constraints -/

variable {p : Problem}

/-- Constraints are all added, unless one of them is not valid. -/
theorem addAll_never_faults (h : ∀ t ∈ p.names.targets, t ∈ p.store.targets) (index : Nat)
    (constraints : List StatedConstraint) : (∃ p', p.addAll index constraints = .ok p') ∨
      ∃ e, p.addAll index constraints = .error (.invalid e) := by
  induction constraints generalizing p index with
  | nil => exact .inl ⟨p, rfl⟩
  | cons c rest ih =>
    rw [addAll]
    cases hresolve : p.resolve c with
    | error e => exact .inr ⟨_, rfl⟩
    | ok resolved =>
      obtain ⟨t, operand⟩ := resolved
      dsimp only
      rw [add_of_resolve h hresolve]
      refine ih (fun u hu => ?_) (index + 1)
      rw [Store.targets_write]
      exact h u hu

theorem ofScenario_never_faults (s : Scenario) :
    (∃ p, ofScenario s = .ok p) ∨ ∃ e, ofScenario s = .error (.invalid e) := by
  unfold ofScenario
  cases Hierarchies.registerAll ∅ 0 s.qualifiers with
  | error e => exact .inr ⟨e, rfl⟩
  | ok hierarchies =>
    cases s.types.foldlM NominalTypes.declareNamed ∅ with
    | error e => exact .inr ⟨e, rfl⟩
    | ok types =>
      cases TargetNames.ofList s.targets with
      | error e => exact .inr ⟨.targetName e, rfl⟩
      | ok names =>
        refine addAll_never_faults (fun t ht => ?_) 0 s.constraints
        rw [← Store.isSome_record?, Store.record?_new, if_pos ht]
        rfl

end Problem

/-! ## Scenarios -/

namespace Scenario

/-- The run of a scenario with every access to a record checked and every guard closed. -/
def runChecked (s : Scenario) (strategies : List BuiltIn) : Except Failure Report := do
  let p ← Problem.ofScenario s
  let o ← (p.inferChecked strategies).mapError .fault
  return .ofOutcome o p.names p.hierarchies

theorem runChecked_eq (s : Scenario) (strategies : List BuiltIn) :
    s.runChecked strategies = s.run strategies := by
  unfold runChecked run Problem.report
  cases Problem.ofScenario s with
  | error e => rfl
  | ok p =>
    dsimp only [bind, Except.bind]
    rw [p.inferChecked_eq]
    cases p.infer strategies <;> rfl

/-- A run with any strategies gives a report or says what is wrong with the scenario. It is never at
    fault, not even when it asks the store for every record that it reads or writes and closes the
    guard of a merge each time before it is reset. -/
theorem run_never_faults (s : Scenario) (strategies : List BuiltIn) :
    s.runChecked strategies = s.run strategies ∧
      ((∃ report, s.run strategies = .ok report) ∨
        ∃ e, s.run strategies = .error (.invalid e)) := by
  refine ⟨s.runChecked_eq strategies, ?_⟩
  rcases Problem.ofScenario_never_faults s with ⟨p, hp⟩ | ⟨e, he⟩
  · exact .inl (exists_run hp strategies)
  · refine .inr ⟨e, ?_⟩
    rw [run, he]
    rfl

end Scenario

end QualifiedInference
