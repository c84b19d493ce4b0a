-- SUMMARY: The built-in strategies and their names.
import QualifiedInference.Strategy.Bounds
import QualifiedInference.Strategy.Equalities
/-!
# The built-in strategies

The strategies that a user can name.
-/

namespace QualifiedInference

inductive BuiltIn where
  | equalities
  | supertypes
  | subtypes
deriving DecidableEq

namespace BuiltIn

/-- In the order in which they run unless the user says otherwise. -/
def all : List BuiltIn := [equalities, supertypes, subtypes]

def strategy (types : TypeOrder) (qualifiers : QualifierOrder) : BuiltIn → Strategy
  | equalities => .equalities
  | supertypes => .supertypes types qualifiers
  | subtypes => .subtypes types qualifiers

def name : BuiltIn → String
  | equalities => "equalities"
  | supertypes => "supertypes"
  | subtypes => "subtypes"

def ofName? (s : String) : Option BuiltIn := all.find? fun b => b.name == s

end BuiltIn

end QualifiedInference
