-- SUMMARY: Guards of recursive walks, with limits on the depth and on the number of entries.
import QualifiedInference.Fault
/-!
# Guards of recursive walks

A guard follows a walk along keys: it refuses a key that is being visited already, a walk
deeper than its depth limit, and entries beyond its count limit. Every entry that is
admitted is left again, in any order.
-/

namespace QualifiedInference

namespace Guard

structure Limits where
  /-- How many keys may be visited at once. -/
  depth : UInt32
  /-- How often the guard may be entered between two resets. -/
  entries : UInt32
deriving DecidableEq

/-- The limits of a walk along a chain of aliases. -/
def Limits.aliasChain : Limits := ⟨512, 100000⟩

inductive Admission where
  | entered
  | cycle
  | tooDeep
  | tooMany
deriving DecidableEq

namespace Admission

def isEntered (a : Admission) : Bool := a == entered

def isCycle (a : Admission) : Bool := a == cycle

/-- The key was refused because of a limit. -/
def isExceeded (a : Admission) : Bool := a == tooDeep || a == tooMany

end Admission

end Guard

structure Guard (κ : Type) where
  limits : Guard.Limits
  visiting : List κ
  depth : UInt32
  /-- Attempts to enter since the last reset, refused ones included; it stops at its
      largest value. -/
  attempts : UInt32
  /-- Some attempt since the last reset was refused because of a limit. -/
  exceeded : Bool

namespace Guard

variable {κ : Type}

def new (limits : Limits) : Guard κ := ⟨limits, [], 0, 0, false⟩

def reset (g : Guard κ) : Guard κ := new g.limits

/-- The end of the guard's use. -/
def close (g : Guard κ) : Except Fault Unit :=
  if g.visiting.isEmpty then .ok () else .error (.stillVisiting g.visiting.length)

variable [DecidableEq κ]

@[inline] def isVisiting (g : Guard κ) (k : κ) : Bool := g.visiting.any fun v => v == k

theorem isVisiting_iff {g : Guard κ} {k : κ} : g.isVisiting k ↔ k ∈ g.visiting := by
  simp [isVisiting]

/-- Counts one attempt more. -/
def count (g : Guard κ) : Guard κ :=
  { g with attempts := if g.attempts = 0xFFFFFFFF then g.attempts else g.attempts + 1 }

@[specialize] def enter (g : Guard κ) (k : κ) : Admission × Guard κ :=
  if g.limits.entries < g.count.attempts then (.tooMany, { g.count with exceeded := true })
  else if g.limits.depth ≤ g.depth then (.tooDeep, { g.count with exceeded := true })
  else if g.isVisiting k then (.cycle, g.count)
  else (.entered, { g.count with visiting := k :: g.visiting, depth := g.depth + 1 })

@[specialize] def leave (g : Guard κ) (k : κ) : Except Fault (Guard κ) :=
  if g.isVisiting k then
    .ok { g with
      visiting := g.visiting.erase k
      depth := if g.depth = 0 then 0 else g.depth - 1 }
  else .error .notVisiting

theorem visiting_of_entered {g g' : Guard κ} {k : κ} (h : g.enter k = (.entered, g')) :
    k ∉ g.visiting ∧ g'.visiting = k :: g.visiting := by
  unfold enter at h
  split at h
  · cases h
  · split at h
    · cases h
    · split at h
      · cases h
      · next hk =>
        injection h with _ h
        exact ⟨fun hm => hk (isVisiting_iff.2 hm), h ▸ rfl⟩

end Guard

end QualifiedInference
