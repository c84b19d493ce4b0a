-- SUMMARY: Names of targets and their numbers.
import QualifiedInference.Target
/-!
# Names of targets

The targets of a problem are numbered in the order of their names.
-/

namespace QualifiedInference

structure TargetNames where
  names : List String
  nodup : names.Nodup
  length_le : names.length ≤ UInt32.size

inductive TargetNameError where
  | repeated (name : String)
  | tooMany
deriving DecidableEq

def TargetNameError.message : TargetNameError → String
  | repeated name => "target '" ++ name ++ "' is declared twice"
  | tooMany => "too many targets"

namespace TargetNames

instance : EmptyCollection TargetNames := ⟨⟨[], .nil, Nat.zero_le _⟩⟩

/-- Gives the next number to a name. -/
def declare (n : TargetNames) (name : String) : Except TargetNameError TargetNames :=
  if room : n.names.length < UInt32.size then
    if new : name ∈ n.names then .error (.repeated name)
    else
      .ok {
        names := n.names ++ [name]
        nodup := List.nodup_append.2 ⟨n.nodup, by simp, fun a ha b hb h =>
          new (List.mem_singleton.1 hb ▸ h ▸ ha)⟩
        length_le := by simpa using Nat.succ_le_of_lt room }
  else .error .tooMany

def ofList (names : List String) : Except TargetNameError TargetNames := names.foldlM declare ∅

def id? (n : TargetNames) (name : String) : Option Target :=
  (n.names.idxOf? name).map fun i => ⟨.ofNat i⟩

def name? (n : TargetNames) (t : Target) : Option String := n.names[t.id.toNat]?

/-- The name of a target, also of one that has none. -/
def name (n : TargetNames) (t : Target) : String := (n.name? t).getD "<unknown>"

def targets (n : TargetNames) : List Target :=
  (List.range n.names.length).map fun i => ⟨.ofNat i⟩

end TargetNames

end QualifiedInference
