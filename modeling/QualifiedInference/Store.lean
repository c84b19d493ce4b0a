-- SUMMARY: Constraint stores: a record for each target, shared between forks until it is written to.
import QualifiedInference.Fault
import QualifiedInference.Relations
import QualifiedInference.TargetMap
/-!
# Constraint stores

A store holds a record for each target of an inference problem; its targets are fixed when
it is made. A store can be forked, and the fork shares every record with it until one of
the two writes to that record. Which records are shared is told by their versions: a write
gives a record a version that names the branch and the number of the write, and no two
branches have one name.
-/

namespace QualifiedInference

structure Version where
  branch : Nat
  write : Nat
deriving DecidableEq

structure Slot where
  record : Record
  version : Version

structure Store where
  branch : Nat
  /-- How many writes this branch has made. -/
  writes : Nat
  slots : TargetMap Slot

namespace Store

/-- An empty record for each of the targets, repetitions aside. -/
def new (branch : Nat) (targets : List Target) : Store :=
  ⟨branch, 0, .ofList (targets.map fun t => (t, ⟨.new t, ⟨branch, 0⟩⟩))⟩

def targets (s : Store) : List Target := s.slots.keys

def records (s : Store) : List Record := s.slots.values.map Slot.record

def contains (s : Store) (t : Target) : Bool := s.slots.contains t

def record? (s : Store) (t : Target) : Option Record := (s.slots.get? t).map Slot.record

def record (s : Store) (t : Target) : Except Fault Record :=
  match s.record? t with
  | some r => .ok r
  | none => .error (.unknownTarget t)

/-! ## Writing -/

/-- Writes to the record of `t`. A write that changes nothing counts as one. -/
def write (s : Store) (t : Target) (f : Record → Record) : Store :=
  let version := ⟨s.branch, s.writes + 1⟩
  { s with
    writes := s.writes + 1
    slots := s.slots.modify t fun slot => ⟨f slot.record, version⟩ }

/-- Records that `t` is in the relation `rel` to an operand. -/
def add (s : Store) (order : QualifierOrder) (t : Target) (rel : Relation) (operand : Operand) :
    Except Fault Store :=
  if s.contains t then .ok (s.write t fun r => r.relate order rel operand)
  else .error (.unknownTarget t)

/-- Relates `t` to types, one after the other. -/
def addTypes (s : Store) (t : Target) (rel : Relation) (types : List (Ty × Qualifiers)) : Store :=
  types.foldl (fun s e => s.write t fun r => r.relateType rel e.1 e.2) s

/-! ## Branches -/

/-- A branch of its own with the same records. -/
def fork (s : Store) (branch : Nat) : Store := { s with branch, writes := 0 }

/-- Neither store has written to its record of `t` since one was forked off the other. -/
def shares (s s' : Store) (t : Target) : Bool :=
  match s.slots.get? t, s'.slots.get? t with
  | some a, some b => a.version == b.version
  | _, _ => false

end Store

/-- Stores by name. It hands out the names of their branches, so that no two are equal. -/
structure Workspace where
  branches : Nat
  stores : OrderedMap String Store

namespace Workspace

instance : EmptyCollection Workspace := ⟨⟨0, ∅⟩⟩

def get? (w : Workspace) (name : String) : Option Store := w.stores.get? name

def create (w : Workspace) (name : String) (targets : List Target) : Workspace :=
  ⟨w.branches + 1, w.stores.insert name (.new w.branches targets)⟩

/-- Names a fork of the store `name`. -/
def fork (w : Workspace) (name as : String) : Workspace :=
  match w.get? name with
  | none => w
  | some s => ⟨w.branches + 1, w.stores.insert as (s.fork w.branches)⟩

/-- Puts what the store `name` has become. -/
def update (w : Workspace) (name : String) (s : Store) : Workspace :=
  { w with stores := w.stores.insert name s }

end Workspace

end QualifiedInference
