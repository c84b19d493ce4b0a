-- SUMMARY: Inference problems: scenarios with their names resolved into a store of constraints.
import QualifiedInference.Hierarchies
import QualifiedInference.NominalTypes
import QualifiedInference.Scenario
import QualifiedInference.Store
import QualifiedInference.TargetNames
/-!
# Problems

A scenario with its names resolved: registered hierarchies, declared types, numbered targets and
a store of constraints. Hierarchies are resolved first, then types, targets and constraints, and
the first thing that is wrong is the error.
-/

namespace QualifiedInference

/-! ## Errors -/

inductive QualifierNameError where
  | unknown (name : String)
  /-- The hierarchy has a qualifier in the same list already. -/
  | conflicting (name : String)
deriving DecidableEq

inductive TypeUseError where
  | qualifiers (type : String) (e : QualifierNameError)
  | appliedNull
  | unknown (name : String)
deriving DecidableEq

inductive ConstraintError where
  | unknownTarget (name : String)
  /-- The constraint on the target has no operand or several. -/
  | operandCount (target : String)
  | misplacedHierarchies
  | unknownHierarchy (name : String)
  | notATop (name : String)
  | type (e : TypeUseError)
  | qualifiers (e : QualifierNameError)
deriving DecidableEq

inductive ScenarioError where
  | hierarchy (index : Nat) (e : HierarchyError)
  | reservedTypeName
  | declaration (e : DeclarationError)
  | targetName (e : TargetNameError)
  | constraint (index : Nat) (e : ConstraintError)
deriving DecidableEq

/-- Why a scenario cannot be run: it is not valid, or the program is at fault. -/
inductive Failure where
  | invalid (e : ScenarioError)
  | fault (f : Fault)
deriving DecidableEq

/-- The name that stands for the type of `null`. -/
def nullName : String := "null"

def QualifierNameError.message : QualifierNameError → String
  | unknown name => "unknown qualifier '" ++ name ++ "'"
  | conflicting name =>
    "qualifier '" ++ name ++ "' conflicts with another qualifier of its hierarchy"

def TypeUseError.message : TypeUseError → String
  | qualifiers type e => "in type '" ++ type ++ "': " ++ e.message
  | appliedNull => "the null type takes no type arguments"
  | unknown name => "unknown type '" ++ name ++ "'"

def ConstraintError.message : ConstraintError → String
  | unknownTarget name => "unknown target '" ++ name ++ "'"
  | operandCount target =>
    "constraint on '" ++ target ++ "' needs exactly one of otherTarget, type or qualifiers"
  | misplacedHierarchies => "hierarchies only apply to target and type relations"
  | unknownHierarchy name => "unknown qualifier hierarchy '" ++ name ++ "'"
  | notATop name => "'" ++ name ++ "' is not the top of its qualifier hierarchy"
  | type e => e.message
  | qualifiers e => e.message

def ScenarioError.message : ScenarioError → String
  | hierarchy index e => "invalid qualifier hierarchy #" ++ toString index ++ ": " ++ e.message
  | reservedTypeName => "'" ++ nullName ++ "' is reserved for the null type"
  | declaration e => e.message
  | targetName e => e.message
  | constraint index e => "invalid constraint #" ++ toString index ++ ": " ++ e.message

/-! ## Names -/

namespace Hierarchies

/-- Registers the chains of names, which are numbered from `index`. -/
def registerAll (hs : Hierarchies) (index : Nat) :
    List (List String) → Except ScenarioError Hierarchies
  | [] => .ok hs
  | names :: rest =>
    match hs.register names with
    | (.ok _, hs) => hs.registerAll (index + 1) rest
    | (.error e, _) => .error (.hierarchy index e)

/-- Adds a qualifier by name. A hierarchy may be named once only. -/
def addNamed (hs : Hierarchies) (qs : Qualifiers) (name : String) :
    Except QualifierNameError Qualifiers :=
  match hs.lookup? name with
  | none => .error (.unknown name)
  | some q =>
    if (qs.inHierarchy? q.hierarchy).isSome then .error (.conflicting name) else .ok (qs.insert q)

def resolve (hs : Hierarchies) (names : List String) : Except QualifierNameError Qualifiers :=
  names.foldlM hs.addNamed ∅

def addNamedTop (hs : Hierarchies) (qs : Qualifiers) (name : String) :
    Except ConstraintError Qualifiers :=
  match hs.lookup? name with
  | none => .error (.unknownHierarchy name)
  | some q => if q.isTop then .ok (qs.insert q) else .error (.notATop name)

/-- The hierarchies that a constraint is restricted to; all of them unless it names some. -/
def resolveTops (hs : Hierarchies) : Option (List String) → Except ConstraintError Qualifiers
  | none => .ok hs.tops
  | some names => names.foldlM hs.addNamedTop ∅

end Hierarchies

namespace NominalTypes

def declareNamed (d : NominalTypes) (decl : TypeDeclaration) :
    Except ScenarioError NominalTypes :=
  if decl.name = nullName then .error .reservedTypeName
  else (d.declare decl.name decl.super?).mapError .declaration

mutual

def resolve (d : NominalTypes) (hs : Hierarchies) : TypeUse → Except TypeUseError Ty
  | .mk name args qualifiers => do
    let qs ← (hs.resolve qualifiers).mapError (.qualifiers name)
    if name = nullName then
      if args.isEmpty then return .null qs else throw .appliedNull
    if !d.isDeclared name then throw (.unknown name)
    return .named name (← d.resolveAll hs args) qs

def resolveAll (d : NominalTypes) (hs : Hierarchies) :
    List TypeUse → Except TypeUseError (List Ty)
  | [] => .ok []
  | use :: rest => do
    let ty ← d.resolve hs use
    return ty :: (← d.resolveAll hs rest)

end

end NominalTypes

/-! ## Constraints -/

structure Problem where
  hierarchies : Hierarchies
  types : NominalTypes
  names : TargetNames
  store : Store

/-- The order of the qualifiers of a problem. -/
def Problem.qualifierOrder (_ : Problem) : QualifierOrder := .chains

def Problem.typeOrder (p : Problem) : TypeOrder := p.types.typeOrder p.qualifierOrder

namespace Problem

def target (p : Problem) (name : String) : Except ConstraintError Target :=
  match p.names.id? name with
  | some t => .ok t
  | none => .error (.unknownTarget name)

def resolveOperand (p : Problem) (tops : Qualifiers) :
    NamedOperand → Except ConstraintError Operand
  | .target name => do return .target (← p.target name) tops
  | .type use => do return .type (← (p.types.resolve p.hierarchies use).mapError .type) tops
  | .qualifiers names => do
    return .qualifiers (← (p.hierarchies.resolve names).mapError .qualifiers)

def operandOf (c : StatedConstraint) : Except ConstraintError NamedOperand :=
  match c.operand?, c.hierarchies? with
  | none, _ => .error (.operandCount c.target)
  | some (.qualifiers _), some _ => .error .misplacedHierarchies
  | some operand, _ => .ok operand

/-- The target of a constraint and its operand. -/
def resolve (p : Problem) (c : StatedConstraint) : Except ConstraintError (Target × Operand) := do
  let t ← p.target c.target
  let operand ← operandOf c
  let tops ← p.hierarchies.resolveTops c.hierarchies?
  return (t, ← p.resolveOperand tops operand)

/-- Adds the constraints, which are numbered from `index`. -/
def addAll (p : Problem) (index : Nat) : List StatedConstraint → Except Failure Problem
  | [] => .ok p
  | c :: rest =>
    match p.resolve c with
    | .error e => .error (.invalid (.constraint index e))
    | .ok (t, operand) =>
      match p.store.add p.qualifierOrder t c.relation operand with
      | .error f => .error (.fault f)
      | .ok store => { p with store }.addAll (index + 1) rest

def ofScenario (s : Scenario) : Except Failure Problem := do
  let hierarchies ← (Hierarchies.registerAll ∅ 0 s.qualifiers).mapError .invalid
  let types ← (s.types.foldlM NominalTypes.declareNamed ∅).mapError .invalid
  let names ← (TargetNames.ofList s.targets).mapError fun e => .invalid (.targetName e)
  let empty : Problem := ⟨hierarchies, types, names, .new 0 names.targets⟩
  empty.addAll 0 s.constraints

end Problem

end QualifiedInference
