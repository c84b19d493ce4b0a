-- SUMMARY: Scenarios: inference problems stated with names.
import QualifiedInference.Relations
/-!
# Scenarios

An inference problem as a user writes it, with names in the place of hierarchies, types and
targets. Qualifier hierarchies are listed from top to bottom, types after the types that they
extend. The type name `null` stands for the type of `null`. A constraint relates its target to
one operand: another target, a type or bare qualifiers.
-/

namespace QualifiedInference

structure TypeDeclaration where
  name : String
  super? : Option String
deriving DecidableEq

/-- A use of a type: a name applied to arguments, with qualifiers. -/
inductive TypeUse where
  | mk (name : String) (args : List TypeUse) (qualifiers : List String)

namespace TypeUse

def name : TypeUse → String
  | mk name _ _ => name

def args : TypeUse → List TypeUse
  | mk _ args _ => args

def qualifiers : TypeUse → List String
  | mk _ _ qualifiers => qualifiers

end TypeUse

structure StatedConstraint where
  relation : Relation
  target : String
  otherTarget? : Option String
  type? : Option TypeUse
  qualifiers? : Option (List String)
  /-- The tops of the hierarchies that the constraint is restricted to. -/
  hierarchies? : Option (List String)

structure Scenario where
  qualifiers : List (List String)
  types : List TypeDeclaration
  targets : List String
  constraints : List StatedConstraint

/-- The operand of a constraint, still in names. -/
inductive NamedOperand where
  | target (name : String)
  | type (use : TypeUse)
  | qualifiers (names : List String)

/-- The operand of a constraint that has exactly one. -/
def StatedConstraint.operand? (c : StatedConstraint) : Option NamedOperand :=
  match c.otherTarget?, c.type?, c.qualifiers? with
  | some other, none, none => some (.target other)
  | none, some use, none => some (.type use)
  | none, none, some names => some (.qualifiers names)
  | _, _, _ => none

end QualifiedInference
