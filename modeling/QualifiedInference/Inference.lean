-- SUMMARY: Inference by strategies that run one after the other, each filling the gaps of those before it.
import QualifiedInference.Answers.Merge
import QualifiedInference.Strategy
/-!
# Inference

Strategies run one after the other, each on the baseline store, until every target has a
final type. What a strategy finds fills the gaps that those before it left.
-/

namespace QualifiedInference

structure Outcome where
  answers : Answers
  /-- The names of the strategies that ran, in order. -/
  ran : List String
  /-- The targets without a final type, in the order of the store. -/
  remaining : List Target

/-- Every target has a final type. -/
def Outcome.complete (o : Outcome) : Bool := o.remaining.isEmpty

/-- Runs strategies until the answers are complete. -/
def runStrategies (baseline : Store) :
    List Strategy → Answers × List String → Except Fault (Answers × List String)
  | [], acc => .ok acc
  | strategy :: rest, (answers, ran) =>
    if answers.isComplete baseline.targets then .ok (answers, ran)
    else do
      let merged ← answers.merge (strategy.solve baseline answers).2
      runStrategies baseline rest (merged, ran ++ [strategy.name])

def infer (baseline : Store) (strategies : List Strategy) : Except Fault Outcome := do
  let (answers, ran) ← runStrategies baseline strategies (∅, [])
  return {
    answers
    ran
    remaining := baseline.targets.filter fun t => !answers.isFinal t }

end QualifiedInference
