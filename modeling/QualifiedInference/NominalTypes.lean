-- SUMMARY: Declared type names under single inheritance, with subtyping, joins and meets of types.
import QualifiedInference.OrderedMap
import QualifiedInference.QualifierOrder
import QualifiedInference.Ty
/-!
# Declared types and their order

Types are declared by name, each with at most one supertype that is declared before it, so
the declarations form a forest and the ancestors of a name are found by recursion on the
declarations. Arguments are invariant: two uses of one name with different arguments have
no join and no meet. Between different names arguments play no role.
-/

namespace QualifiedInference

/-- Joins and meets of types. -/
structure TypeOrder where
  join? : Ty → Ty → Option Ty
  meet? : Ty → Ty → Option Ty

/-- Each name is declared once, and its supertype before it. The last declaration is first. -/
def DeclaredInOrder : List (String × Option String) → Prop
  | [] => True
  | (name, super?) :: rest =>
    name ∉ rest.map Prod.fst ∧ (∀ s, super? = some s → s ∈ rest.map Prod.fst) ∧
      DeclaredInOrder rest

structure NominalTypes where
  declarations : List (String × Option String)
  inOrder : DeclaredInOrder declarations

inductive DeclarationError where
  | repeated (name : String)
  | unknownSupertype (name super : String)
deriving DecidableEq

def DeclarationError.message : DeclarationError → String
  | repeated name => "type '" ++ name ++ "' is declared twice"
  | unknownSupertype name super =>
    "type '" ++ name ++ "' extends undeclared type '" ++ super ++ "'"

namespace NominalTypes

instance : EmptyCollection NominalTypes := ⟨⟨[], trivial⟩⟩

def names (d : NominalTypes) : List String := d.declarations.map Prod.fst

def isDeclared (d : NominalTypes) (name : String) : Bool := decide (name ∈ d.names)

/-- The declared supertype of a name. -/
def supertype? (d : NominalTypes) (name : String) : Option String :=
  (OrderedMap.valueIn? name d.declarations).join

def declare (d : NominalTypes) (name : String) (super? : Option String) :
    Except DeclarationError NominalTypes :=
  if h : name ∈ d.names then .error (.repeated name)
  else
    match super? with
    | none => .ok ⟨(name, none) :: d.declarations, h, nofun, d.inOrder⟩
    | some super =>
      if hs : super ∈ d.names then
        .ok ⟨(name, some super) :: d.declarations, h,
          fun _ e => Option.some.inj e ▸ hs, d.inOrder⟩
      else .error (.unknownSupertype name super)

/-! ## The order on names -/

def ancestorsIn : List (String × Option String) → String → List String
  | [], name => [name]
  | (n, super?) :: rest, name =>
    if n = name then
      match super? with
      | none => [name]
      | some super => name :: ancestorsIn rest super
    else ancestorsIn rest name

/-- A name, declared or not, followed by its supertypes, nearest first. -/
def ancestors (d : NominalTypes) (name : String) : List String := ancestorsIn d.declarations name

def isSubtype (d : NominalTypes) (sub super : String) : Bool := decide (super ∈ d.ancestors sub)

/-! ## Joins and meets -/

/-- Combines two sets hierarchy by hierarchy; a hierarchy that only one of them mentions
    keeps the qualifiers it has there. -/
def combine (f : Qualifier → Qualifier → Option Qualifier) (s t : Qualifiers) : Qualifiers :=
  .ofList <|
    s.toList.filterMap (fun p =>
      match t.inHierarchy? p.hierarchy with
      | some q => f p q
      | none => some p) ++
    t.toList.filter fun q => (s.inHierarchy? q.hierarchy).isNone

/-- The join of two types, leaving aside the qualifiers. -/
def joinShape? (d : NominalTypes) : Ty → Ty → Option Ty
  | .null _, b => some b
  | .named m as s, .null _ => some (.named m as s)
  | .named m as s, .named n bs t =>
    if m = n then
      if as = bs then some (.named m as s) else none
    else if d.isSubtype n m then some (.named m as s)
    else if d.isSubtype m n then some (.named n bs t)
    else ((d.ancestors m).find? (d.isSubtype n)).map fun common => .named common [] ∅

/-- The meet of two types, leaving aside the qualifiers. -/
def meetShape? (d : NominalTypes) : Ty → Ty → Option Ty
  | .null s, _ => some (.null s)
  | .named .., .null t => some (.null t)
  | .named m as s, .named n bs t =>
    if m = n then
      if as = bs then some (.named m as s) else none
    else if d.isSubtype m n then some (.named m as s)
    else if d.isSubtype n m then some (.named n bs t)
    else none

/-- The order of the declared types over an order on their qualifiers. -/
def typeOrder (d : NominalTypes) (order : QualifierOrder) : TypeOrder where
  join? a b :=
    (d.joinShape? a b).map (·.withQualifiers (combine order.join? a.qualifiers b.qualifiers))
  meet? a b :=
    (d.meetShape? a b).map (·.withQualifiers (combine order.meet? a.qualifiers b.qualifiers))

end NominalTypes

end QualifiedInference
