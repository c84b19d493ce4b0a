-- SUMMARY: Reading scenarios from JSON.
import QualifiedInference.Json.Decoding
import QualifiedInference.Json.Reader
import QualifiedInference.Scenario
/-!
# Reading scenarios

A scenario is written in JSON. Every record in it is an object of its fields or an array of
them; fields that may be left out have a default. A relation is written as its name, or as an
object with that name for its one member, which is null.
-/

namespace QualifiedInference

open Json

/-! ## Relations -/

namespace Relation

def name : Relation → String
  | equal => "equal"
  | subtype => "subtype"
  | supertype => "supertype"

def all : List Relation := [equal, subtype, supertype]

def ofName (s : String) : Except DecodeError Relation :=
  match all.find? fun r => r.name == s with
  | some r => .ok r
  | none => .error (.unknownVariant s (all.map name))

def ofMembers : Members → Except DecodeError Relation
  | .closed => .error (.broken .malformed)
  | .broken b => .error (.broken b)
  | .member key value rest => do
    let r ← ofName (← key.toName)
    value.toUnit
    match rest with
    | .closed => .ok r
    | .broken b => .error (.broken b)
    | .member .. => .error (.broken .malformed)

def ofNode : Node → Except DecodeError Relation
  | .string (.ok s) => ofName s
  | .string (.error b) => .error (.broken b)
  | .absent b => .error (.broken b)
  | .object members => ofMembers members
  | .scalar _ => .error (.broken .malformed)
  | .array _ => .error (.broken .malformed)

end Relation

/-! ## Types -/

namespace TypeDeclaration

def shape : Shape := ⟨"TypeDecl", ["name", "extends"]⟩

structure Draft where
  name? : Option String
  super? : Option String

def Draft.set (d : Draft) (e : String × Node) : Except DecodeError Draft :=
  match e.1 with
  | "name" => return { d with name? := some (← e.2.toString) }
  | _ => return { d with super? := ← e.2.toOption Node.toString }

def ofNode (n : Node) : Except DecodeError TypeDeclaration := do
  let fs ← shape.fieldsOf n
  let d : Draft ← fs.decode ⟨none, none⟩ fun d e _ => d.set e
  return ⟨← fs.require "name" d.name?, d.super?⟩

end TypeDeclaration

namespace TypeUse

def shape : Shape := ⟨"TypeSpec", ["name", "args", "qualifiers"]⟩

structure Draft where
  name? : Option String
  args : List TypeUse
  qualifiers : List String

theorem sizeOf_lt_of_mem_nodes_of_eq {n u v : Node} {items : Items} (hu : sizeOf u < sizeOf n)
    (h : u = .array items) (hv : v ∈ items.nodes) : sizeOf v < sizeOf n := by
  have := Items.sizeOf_lt_of_mem_nodes hv
  subst h
  simp only [Node.array.sizeOf_spec] at hu
  omega

def ofNode (n : Node) : Except DecodeError TypeUse :=
  match _hfs : shape.fieldsOf n with
  | .error e => .error e
  | .ok fs => do
    let d : Draft ← fs.decode ⟨none, [], []⟩ fun d e _he =>
      match e.1 with
      | "name" => return { d with name? := some (← e.2.toString) }
      | "args" =>
        match _hu : e.2 with
        | .array items => return { d with args := ← items.decode fun v _hv => ofNode v }
        | u => .error (u.reject "a sequence")
      | _ => return { d with qualifiers := ← e.2.toList Node.toString }
    return .mk (← fs.require "name" d.name?) d.args d.qualifiers
termination_by sizeOf n
decreasing_by
  exact sizeOf_lt_of_mem_nodes_of_eq (Shape.sizeOf_lt_of_mem_fieldsOf _hfs _he) _hu _hv

end TypeUse

/-! ## Constraints -/

namespace StatedConstraint

def shape : Shape :=
  ⟨"ConstraintSpec",
    ["relation", "target", "otherTarget", "type", "qualifiers", "hierarchies"]⟩

structure Draft where
  relation? : Option Relation
  target? : Option String
  otherTarget? : Option String
  type? : Option TypeUse
  qualifiers? : Option (List String)
  hierarchies? : Option (List String)

def Draft.set (d : Draft) (e : String × Node) : Except DecodeError Draft :=
  match e.1 with
  | "relation" => return { d with relation? := some (← Relation.ofNode e.2) }
  | "target" => return { d with target? := some (← e.2.toString) }
  | "otherTarget" => return { d with otherTarget? := ← e.2.toOption Node.toString }
  | "type" => return { d with type? := ← e.2.toOption TypeUse.ofNode }
  | "qualifiers" => return { d with qualifiers? := ← e.2.toOption (Node.toList Node.toString) }
  | _ => return { d with hierarchies? := ← e.2.toOption (Node.toList Node.toString) }

def ofNode (n : Node) : Except DecodeError StatedConstraint := do
  let fs ← shape.fieldsOf n
  let d : Draft ← fs.decode ⟨none, none, none, none, none, none⟩ fun d e _ => d.set e
  return {
    relation := ← fs.require "relation" d.relation?
    target := ← fs.require "target" d.target?
    otherTarget? := d.otherTarget?
    type? := d.type?
    qualifiers? := d.qualifiers?
    hierarchies? := d.hierarchies? }

end StatedConstraint

/-! ## Scenarios -/

namespace Scenario

def shape : Shape := ⟨"Scenario", ["qualifiers", "types", "targets", "constraints"]⟩

structure Draft where
  qualifiers : List (List String)
  types : List TypeDeclaration
  targets? : Option (List String)
  constraints : List StatedConstraint

def Draft.set (d : Draft) (e : String × Node) : Except DecodeError Draft :=
  match e.1 with
  | "qualifiers" => return { d with qualifiers := ← e.2.toList (Node.toList Node.toString) }
  | "types" => return { d with types := ← e.2.toList TypeDeclaration.ofNode }
  | "targets" => return { d with targets? := some (← e.2.toList Node.toString) }
  | _ => return { d with constraints := ← e.2.toList StatedConstraint.ofNode }

def ofNode (n : Node) : Except DecodeError Scenario := do
  let fs ← shape.fieldsOf n
  let d : Draft ← fs.decode ⟨[], [], none, []⟩ fun d e _ => d.set e
  return ⟨d.qualifiers, d.types, ← fs.require "targets" d.targets?, d.constraints⟩

def ofDocument (d : Document) : Except DecodeError Scenario := do
  let s ← ofNode d.root
  if d.trailing then .error (.broken .malformed) else .ok s

def parse (text : String) : Except DecodeError Scenario := ofDocument (.ofText text)

end Scenario

end QualifiedInference
