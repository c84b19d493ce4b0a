-- SUMMARY: The relations of one target to other targets, to types and to bare qualifiers.
import QualifiedInference.OrderedMap
import QualifiedInference.QualifierOrder
import QualifiedInference.Target
import QualifiedInference.Ty
/-!
# Relations of a target

The constraints on one target come in three kinds: what it equals, what it is a subtype of
and what it is a supertype of. Each kind relates it to other targets, to types and, per
hierarchy, to bare qualifiers. Recording a relation only ever adds to what is known.
-/

namespace QualifiedInference

inductive Relation where
  | equal
  | subtype
  | supertype
deriving DecidableEq

/-- What a target is related to. Targets and types are related in the hierarchies with the
    given tops. -/
inductive Operand where
  | target (other : Target) (tops : Qualifiers)
  | type (ty : Ty) (tops : Qualifiers)
  | qualifiers (qs : Qualifiers)

/-- Relations of one kind. `π` is what is known about the qualifier of one hierarchy. -/
structure Relations (π : Type) where
  targets : OrderedMap Target Qualifiers
  types : OrderedMap Ty Qualifiers
  /-- By the top of the hierarchy. -/
  primaries : OrderedMap Qualifier π

namespace Relations

variable {π : Type}

instance : EmptyCollection (Relations π) := ⟨⟨∅, ∅, ∅⟩⟩

def isEmpty (r : Relations π) : Bool :=
  r.targets.isEmpty && r.types.isEmpty && r.primaries.isEmpty

def addTarget (r : Relations π) (other : Target) (tops : Qualifiers) : Relations π :=
  { r with targets := r.targets.upsert other fun old => (old.getD ∅).union tops }

def addType (r : Relations π) (ty : Ty) (tops : Qualifiers) : Relations π :=
  { r with types := r.types.upsert ty fun old => (old.getD ∅).union tops }

/-- The first qualifier given for a hierarchy stays. -/
def addExact (r : Relations Qualifier) (order : QualifierOrder) (qs : Qualifiers) :
    Relations Qualifier :=
  { r with primaries := qs.toList.foldl (fun ps q => ps.insertIfNew (order.top q) q) r.primaries }

/-- Bounds of a hierarchy gather. -/
def addBounds (r : Relations Qualifiers) (order : QualifierOrder) (qs : Qualifiers) :
    Relations Qualifiers :=
  { r with
    primaries := qs.toList.foldl
      (fun ps q => ps.upsert (order.top q) fun old => (old.getD ∅).insert q) r.primaries }

/-- The qualifiers that a target must have, one for each hierarchy recorded. -/
def exact (r : Relations Qualifier) : Qualifiers := .ofList r.primaries.values

/-- The same relations, in whatever order they were recorded. -/
def equiv [BEq π] (r s : Relations π) : Bool :=
  r.targets.equiv s.targets && r.types.equiv s.types && r.primaries.equiv s.primaries

end Relations

/-- All relations of one target. -/
structure Record where
  target : Target
  equalities : Relations Qualifier
  subtypes : Relations Qualifiers
  supertypes : Relations Qualifiers

namespace Record

/-- The record of a target about which nothing is known. -/
def new (t : Target) : Record := ⟨t, ∅, ∅, ∅⟩

def isEmpty (r : Record) : Bool :=
  r.equalities.isEmpty && r.subtypes.isEmpty && r.supertypes.isEmpty

def relateTarget (r : Record) (rel : Relation) (other : Target) (tops : Qualifiers) : Record :=
  match rel with
  | .equal => { r with equalities := r.equalities.addTarget other tops }
  | .subtype => { r with subtypes := r.subtypes.addTarget other tops }
  | .supertype => { r with supertypes := r.supertypes.addTarget other tops }

def relateType (r : Record) (rel : Relation) (ty : Ty) (tops : Qualifiers) : Record :=
  match rel with
  | .equal => { r with equalities := r.equalities.addType ty tops }
  | .subtype => { r with subtypes := r.subtypes.addType ty tops }
  | .supertype => { r with supertypes := r.supertypes.addType ty tops }

def relateQualifiers (r : Record) (rel : Relation) (order : QualifierOrder) (qs : Qualifiers) :
    Record :=
  match rel with
  | .equal => { r with equalities := r.equalities.addExact order qs }
  | .subtype => { r with subtypes := r.subtypes.addBounds order qs }
  | .supertype => { r with supertypes := r.supertypes.addBounds order qs }

def relate (r : Record) (order : QualifierOrder) (rel : Relation) : Operand → Record
  | .target other tops => r.relateTarget rel other tops
  | .type ty tops => r.relateType rel ty tops
  | .qualifiers qs => r.relateQualifiers rel order qs

def equiv (r s : Record) : Bool :=
  r.target == s.target && r.equalities.equiv s.equalities && r.subtypes.equiv s.subtypes &&
    r.supertypes.equiv s.supertypes

end Record

end QualifiedInference
