-- SUMMARY: Merging one collection of answers into another, by guarded descents along alias chains.
import QualifiedInference.Answers
import QualifiedInference.Guard
/-!
# Merging answers

`merge` fills the gaps of one collection of answers from another. An alias of the first is
followed down its chain under a guard, and on the way back up each target of the chain takes
the type found below it. Where the chain ends without a type, or in the null type, the second
collection is asked. Then its remaining answers are taken over and the aliases collapsed.
-/

namespace QualifiedInference

namespace Answers

/-- The outcome of following one chain. -/
structure Descent where
  /-- The type to hand up to whatever is an alias of the target. -/
  found? : Option Ty
  answers : Answers
  guard : Guard Target

/-- What an alias `t` becomes once its chain has been followed. A null type found below gives
    way to the type that `s` has for `t`, and leaves its qualifiers on it. Without a type from
    below, `t` takes the type that `s` has for it, but hands nothing up. -/
def settle (s : Answers) (t : Target) (found? : Option Ty) (r : Answers) (g : Guard Target) :
    Descent :=
  match found?, s.typeOf? t with
  | none, none => ⟨none, r, g⟩
  | none, some ty => ⟨none, r.insert t (.type ty), g⟩
  | some ty, none => ⟨some ty, r.insert t (.type ty), g⟩
  | some ty, some other =>
    let ty := if ty.isNull then other.overlay ty.qualifiers else ty
    ⟨some ty, r.insert t (.type ty), g⟩

/-- How many of the keys are not being visited; entering one of them leaves fewer. -/
def unvisited (keys visiting : List Target) : Nat := keys.countP fun k => k ∉ visiting

theorem unvisited_cons_lt {keys visiting : List Target} {t : Target} (ht : t ∈ keys)
    (hv : t ∉ visiting) : unvisited keys (t :: visiting) < unvisited keys visiting := by
  induction keys with
  | nil => cases ht
  | cons k rest ih =>
    have hle : unvisited rest (t :: visiting) ≤ unvisited rest visiting :=
      List.countP_mono_left fun x _ hx => by simp_all
    have hcons : ∀ v, unvisited (k :: rest) v = unvisited rest v + if k ∉ v then 1 else 0 :=
      fun v => by simp [unvisited, List.countP_cons]
    rw [hcons, hcons]
    by_cases hk : k = t
    · subst hk
      rw [if_neg (by simp), if_pos hv]
      exact Nat.lt_succ_of_le hle
    · have hlt := ih ((List.mem_cons.1 ht).resolve_left fun h => hk h.symm)
      have hiff : k ∉ t :: visiting ↔ k ∉ visiting := by simp [hk]
      simp only [hiff]
      exact Nat.add_lt_add_right hlt _

/-- Follows the chain of `t` through `r` and settles the aliases on it, last one first. -/
def descend (s r : Answers) (g : Guard Target) (t : Target) : Except Fault Descent :=
  match _ht : r.get? t with
  | none => .ok ⟨none, r, g⟩
  | some (.type ty) => .ok ⟨some ty, r, g⟩
  | some (.alias pointee _) =>
    match _he : g.enter t with
    | (.entered, inside) => do
      let below ← descend s r inside pointee
      let outside ← below.guard.leave t
      return settle s t below.found? below.answers outside
    | (_, refused) => .ok (settle s t none r refused)
termination_by unvisited r.keys g.visiting
decreasing_by
  rw [(Guard.visiting_of_entered _he).2]
  exact unvisited_cons_lt (TargetMap.mem_of_get? _ht) (Guard.visiting_of_entered _he).1

/-- One step of a merge: the chain of `t`, under a guard that is reset afterwards. -/
def mergeTarget (s : Answers) (acc : Answers × Guard Target) (t : Target) :
    Except Fault (Answers × Guard Target) := do
  let d ← descend s acc.1 acc.2 t
  return (d.answers, d.guard.reset)

/-- Adds the answers of `s` for targets that `r` lacks. -/
def adopt (r s : Answers) : Answers := s.entries.foldl (fun r e => r.insertIfNew e.1 e.2) r

/-- Fills the gaps of `r` from `s`. A type that `r` has stays. -/
def merge (r s : Answers) : Except Fault Answers := do
  let (filled, guard) ← r.keys.foldlM (mergeTarget s) (r, Guard.new .aliasChain)
  guard.close
  return (filled.adopt s).collapse

end Answers

end QualifiedInference
