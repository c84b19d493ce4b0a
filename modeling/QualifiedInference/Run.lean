-- SUMMARY: From a scenario and the names of strategies to a report.
import QualifiedInference.Problem
import QualifiedInference.Report
import QualifiedInference.Strategy.BuiltIn
/-!
# Running scenarios

From a scenario and the strategies to run, in order, to the report.
-/

namespace QualifiedInference

namespace Problem

def infer (p : Problem) (strategies : List BuiltIn) : Except Fault Outcome :=
  QualifiedInference.infer p.store
    (strategies.map (BuiltIn.strategy p.typeOrder p.qualifierOrder))

def report (p : Problem) (strategies : List BuiltIn) : Except Fault Report := do
  return .ofOutcome (← p.infer strategies) p.names p.hierarchies

end Problem

namespace Scenario

def run (s : Scenario) (strategies : List BuiltIn) : Except Failure Report := do
  let p ← Problem.ofScenario s
  (p.report strategies).mapError .fault

end Scenario

end QualifiedInference
