-- SUMMARY: A registry of qualifier hierarchies, each a chain of names, with tables both ways.
import QualifiedInference.Qualifiers
import Std.Data.HashMap
/-!
# Named qualifier hierarchies

A registry of hierarchies, each a chain of qualifier names from its top downwards. The
hierarchies are numbered in the order of their registration and the names of a chain are
ranked by their position. `register` hands the registry back in any case, unchanged when
it refuses the chain.
-/

namespace QualifiedInference

structure Hierarchies where
  chains : Array (Array String)
  /-- The qualifier that each registered name stands for. -/
  index : Std.HashMap String Qualifier
  size_le : chains.size ≤ UInt16.size

inductive HierarchyError where
  | empty
  | repeated (name : String)
  | tooMany
deriving DecidableEq

def HierarchyError.message : HierarchyError → String
  | empty => "qualifier hierarchy declares no qualifiers"
  | repeated name => "qualifier '" ++ name ++ "' is declared twice"
  | tooMany => "too many qualifier hierarchies"

namespace Hierarchies

instance : EmptyCollection Hierarchies := ⟨⟨#[], ∅, Nat.zero_le _⟩⟩

def count (hs : Hierarchies) : Nat := hs.chains.size

def lookup? (hs : Hierarchies) (name : String) : Option Qualifier := hs.index[name]?

def name? (hs : Hierarchies) (q : Qualifier) : Option String :=
  hs.chains[q.hierarchy.toNat]?.bind (·[q.rank.toNat]?)

/-- The registered name of a qualifier, or its numbers if it has none. -/
def nameOf (hs : Hierarchies) (q : Qualifier) : String := (hs.name? q).getD q.describe

/-! ## Registering a chain -/

/-- The first name that `index` knows or that stands earlier in the list. -/
def firstRepeated? (index : Std.HashMap String Qualifier) (seen : Std.HashSet String) :
    List String → Option String
  | [] => none
  | name :: rest =>
    if index.contains name || seen.contains name then some name
    else firstRepeated? index (seen.insert name) rest

def indexFrom (h : HierarchyId) (rank : Nat) (index : Std.HashMap String Qualifier) :
    List String → Std.HashMap String Qualifier
  | [] => index
  | name :: rest => indexFrom h (rank + 1) (index.insert name ⟨h, .ofNat rank⟩) rest

def register (hs : Hierarchies) (names : List String) :
    Except HierarchyError HierarchyId × Hierarchies :=
  if names.isEmpty then (.error .empty, hs)
  else if room : hs.chains.size < UInt16.size then
    match firstRepeated? hs.index ∅ names with
    | some name => (.error (.repeated name), hs)
    | none =>
      let id := UInt16.ofNat hs.chains.size
      let ⟨chains, index, _⟩ := hs
      (.ok id,
        { chains := chains.push names.toArray
          index := indexFrom id 0 index names
          size_le := by simpa using Nat.succ_le_of_lt room })
  else (.error .tooMany, hs)

/-! ## Tops -/

theorem pairwise_tops {n : Nat} (h : n ≤ UInt16.size) :
    ((List.range n).map fun i => Qualifier.top (.ofNat i)).Pairwise (· < ·) := by
  simp only [List.pairwise_map]
  apply List.pairwise_lt_range.imp_of_mem
  intro i j hi hj hij
  have hi' := Nat.lt_of_lt_of_le (List.mem_range.1 hi) h
  have hj' := Nat.lt_of_lt_of_le (List.mem_range.1 hj) h
  apply Or.inl
  simp only [UInt16.lt_iff_toNat_lt]
  simpa [Qualifier.top, Nat.mod_eq_of_lt hi', Nat.mod_eq_of_lt hj'] using hij

/-- The tops of all registered hierarchies. -/
def tops (hs : Hierarchies) : Qualifiers :=
  ⟨(List.range hs.count).map fun i => Qualifier.top (.ofNat i), pairwise_tops hs.size_le⟩

end Hierarchies

end QualifiedInference
