-- SUMMARY: Faults: misuse of a store or of a guard by its caller.
import QualifiedInference.Target
/-!
# Faults

Misuse of a store or of a guard by its caller, as opposed to bad input. A correct caller
never sees one.
-/

namespace QualifiedInference

inductive Fault where
  /-- A store was asked for a target that it was not built for. -/
  | unknownTarget (t : Target)
  /-- A guard was told to leave a key that is not being visited. -/
  | notVisiting
  /-- A guard was closed while it still had keys to leave. -/
  | stillVisiting (count : Nat)
deriving DecidableEq

def Fault.message : Fault → String
  | unknownTarget t => "target " ++ t.describe ++ " is not part of this constraint map"
  | notVisiting =>
    "RecursionGuard::leave() called with a key that is not in the visiting set"
  | stillVisiting count =>
    "RecursionGuard dropped with " ++ toString count ++
      " active entries still in the visiting set"

end QualifiedInference
