-- SUMMARY: Merges that only stop at cycles, and where the limits of a guard cannot be observed.
import QualifiedInference.Proofs.Answers.Overtaking
/-!
# Merges without limits

`mergeFreely` is a merge whose descents are stopped by cycles alone. A descent that has gone to
the depth limit of its guard without a cycle has passed that many different aliases, so up to that
number of aliases the limits cannot be observed, `merge_eq_mergeFreely`.
-/

namespace QualifiedInference

namespace Answers

open Guard

/-- Follows the chain of `t` as `descend` does, but nothing other than a cycle stops it. -/
def descendFreely (s r : Answers) (visiting : List Target) (t : Target) : Option Ty × Answers :=
  match _ht : r.get? t with
  | none => (none, r)
  | some (.type ty) => (some ty, r)
  | some (.alias pointee _) =>
    if _hv : t ∈ visiting then (none, r.take t (s.typeOf? t))
    else
      match descendFreely s r (t :: visiting) pointee with
      | (none, below) => (none, below.take t (s.typeOf? t))
      | (some ty, below) => (some (s.handed t ty), below.insert t (.type (s.handed t ty)))
termination_by unvisited r.keys visiting
decreasing_by exact unvisited_cons_lt (TargetMap.mem_of_get? _ht) _hv

/-- Fills the gaps of `r` from `s` as `merge` does, by descents without limits. -/
def mergeFreely (r s : Answers) : Answers :=
  ((r.keys.foldl (fun r t => (descendFreely s r [] t).2) r).adopt s).collapse

variable {s r r' : Answers} {path : List Target} {t p : Target} {extra : Qualifiers}
  {found? : Option Ty} {ty : Ty} {ts : List Target}

theorem descendFreely_of_absent (ht : r.get? t = none) :
    descendFreely s r path t = (none, r) := by
  rw [descendFreely]
  split <;> simp_all

theorem descendFreely_of_type (ht : r.get? t = some (.type ty)) :
    descendFreely s r path t = (some ty, r) := by
  rw [descendFreely]
  split <;> simp_all

theorem descendFreely_of_mem (ht : r.get? t = some (.alias p extra)) (hv : t ∈ path) :
    descendFreely s r path t = (none, r.take t (s.typeOf? t)) := by
  rw [descendFreely]
  split <;> simp_all

theorem descendFreely_of_not_mem (ht : r.get? t = some (.alias p extra)) (hv : t ∉ path) :
    descendFreely s r path t = match descendFreely s r (t :: path) p with
      | (none, below) => (none, below.take t (s.typeOf? t))
      | (some ty, below) => (some (s.handed t ty), below.insert t (.type (s.handed t ty))) := by
  rw [descendFreely]
  split <;> simp_all

/-- Where chains are short only a cycle refuses a descent. -/
theorem ShortChains.mem_of_refused (h : r.ShortChains) (htrail : r.Trail path t)
    (hnodup : path.Nodup) (ht : r.get? t = some (.alias p extra))
    (hcause : t ∈ path ∨ maxDepth ≤ path.length) : t ∈ path := by
  by_contra hnew
  have hlong := hcause.resolve_left hnew
  have hlen := h (t :: path) p ⟨⟨extra, ht⟩, htrail⟩ (List.nodup_cons.2 ⟨hnew, hnodup⟩)
  simp only [List.length_cons] at hlen
  omega

theorem Descends.freely (h : Descends s r path t found? r') (hshort : r.ShortChains)
    (htrail : r.Trail path t) (hnodup : path.Nodup) :
    descendFreely s r path t = (found?, r') := by
  -- Along the rules, with the path as the trail that the descent has left.
  induction h with
  | absent ht => exact descendFreely_of_absent ht
  | type ht => exact descendFreely_of_type ht
  | refused ht hcause =>
    exact descendFreely_of_mem ht (hshort.mem_of_refused htrail hnodup ht hcause)
  | @lost path t p extra below ht hnew _ _ ih =>
    rw [descendFreely_of_not_mem ht hnew,
      ih ⟨⟨extra, ht⟩, htrail⟩ (List.nodup_cons.2 ⟨hnew, hnodup⟩)]
  | @found path t p extra ty below ht hnew _ _ ih =>
    rw [descendFreely_of_not_mem ht hnew,
      ih ⟨⟨extra, ht⟩, htrail⟩ (List.nodup_cons.2 ⟨hnew, hnodup⟩)]

theorem DescendsAll.freely (h : DescendsAll s ts r r') (hshort : r.ShortChains) :
    ts.foldl (fun r t => (descendFreely s r [] t).2) r = r' := by
  induction h with
  | nil r => rfl
  | cons hdesc _ ih =>
    rw [List.foldl_cons, hdesc.freely hshort trivial .nil]
    exact ih (hshort.of_fills hdesc.fills)

/-- The limits of a guard cannot be observed by merging into answers with no more aliases than the
    guard lets through. -/
theorem merge_eq_mergeFreely (r s : Answers) (h : r.aliasCount ≤ maxDepth) :
    r.merge s = .ok (r.mergeFreely s) := by
  obtain ⟨filled, hall, hmerge⟩ := merge_eq r s
  rw [hmerge, mergeFreely, hall.freely (shortChains_of_aliasCount h)]

/-- Two aliases of each other, and one that leads to them. -/
def cyclicReceiver : Answers :=
  .ofList [(⟨1⟩, .alias ⟨2⟩ (.singleton ⟨0, 1⟩)), (⟨2⟩, .alias ⟨1⟩ ∅), (⟨3⟩, .alias ⟨1⟩ ∅)]

theorem merge_cyclicReceiver :
    cyclicReceiver.aliasCount ≤ maxDepth ∧
    cyclicReceiver.merge overtakingSubordinate =
      .ok (cyclicReceiver.mergeFreely overtakingSubordinate) := by
  have hcount : cyclicReceiver.aliasCount ≤ maxDepth := by decide +kernel
  exact ⟨hcount, merge_eq_mergeFreely _ _ hcount⟩

end Answers

end QualifiedInference
