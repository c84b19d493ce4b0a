-- SUMMARY: Inference targets.
/-!
# Inference targets

A target is a type parameter whose argument is being inferred. Solving only compares
targets; what they stand for is known to whoever numbered them.
-/

namespace QualifiedInference

structure Target where
  id : UInt32
deriving DecidableEq, Inhabited

def Target.describe (t : Target) : String := "T" ++ toString t.id.toNat

end QualifiedInference
