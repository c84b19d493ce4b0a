-- SUMMARY: Solving lower bounds by joins and upper bounds by meets, in waiting and pressing rounds.
import QualifiedInference.NominalTypes
import QualifiedInference.Strategy
/-!
# Solving bounds

A target with lower bounds is given their join, one with upper bounds their meet. The
qualifier bounds of a hierarchy are combined with the qualifier that the type has there.
A target waits until the targets that bound it have types; when every target waits, the
first one that can be answered from what is known is answered.
-/

namespace QualifiedInference

/-- On which side of a target its bounds lie. -/
inductive Side where
  /-- The target is a supertype of its bounds. -/
  | lower
  /-- The target is a subtype of its bounds. -/
  | upper
deriving DecidableEq

namespace Side

def relation : Side → Relation
  | lower => .supertype
  | upper => .subtype

def relations : Side → Record → Relations Qualifiers
  | lower, r => r.supertypes
  | upper, r => r.subtypes

def combineTypes? (side : Side) (order : TypeOrder) : Ty → Ty → Option Ty :=
  match side with
  | lower => order.join?
  | upper => order.meet?

def combineQualifiers? (side : Side) (order : QualifierOrder) :
    Qualifier → Qualifier → Option Qualifier :=
  match side with
  | lower => order.join?
  | upper => order.meet?

end Side

/-- What is solved for: the side of the bounds and the orders they are combined in. -/
structure Bounds where
  side : Side
  types : TypeOrder
  qualifiers : QualifierOrder

namespace Bounds

open Solving

/-- Combines the members of a list from the left. It fails on an empty list, and where two
    cannot be combined. -/
def combineAll? {α : Type} (combine? : α → α → Option α) : List α → Option α
  | [] => none
  | a :: rest => rest.foldlM combine? a

/-- For each hierarchy with qualifier bounds, the bounds combined with the qualifier that
    `qs` has there. A hierarchy where this fails is left out. -/
def qualifiersFor (b : Bounds) (qs : Qualifiers) (bounds : OrderedMap Qualifier Qualifiers) :
    Qualifiers :=
  .ofList <| bounds.entries.filterMap fun e =>
    combineAll? (b.side.combineQualifiers? b.qualifiers)
      ((qs.inHierarchy? e.1.hierarchy).toList ++ e.2.toList)

/-- The type that the bounds in a record determine. -/
def typeFor? (b : Bounds) (r : Record) : Option Ty :=
  let bounds := b.side.relations r
  (combineAll? (b.side.combineTypes? b.types) bounds.types.keys).map fun ty =>
    ty.overlay (b.qualifiersFor ty.qualifiers bounds.primaries)

/-- Every other target of the store that bounds `t` has a type. -/
def isReady (b : Bounds) (established : Answers) (st : Solving) (t : Target) : Bool :=
  match st.store.record? t with
  | none => true
  | some r =>
    (b.side.relations r).targets.keys.all fun u =>
      u == t || !st.store.contains u || (st.typeOf? established u).isSome

/-- When a target may be answered: once it is ready, or in any case. -/
inductive Patience where
  | waiting
  | pressing
deriving DecidableEq

def attempt (b : Bounds) (established : Answers) (patience : Patience) : Attempt := fun st t =>
  if established.isFinal t || st.found.contains t then (st, false)
  else if patience == .waiting && !b.isReady established st t then (st, false)
  else
    let st := st.learn established t b.side.relation fun r => (b.side.relations r).targets
    match (st.store.record? t).bind b.typeFor? with
    | none => (st, false)
    | some ty => (st.answer t ty, true)

theorem honest_attempt (b : Bounds) (established : Answers) (patience : Patience) :
    (b.attempt established patience).Honest := by
  intro st t
  unfold attempt
  split
  · exact Or.inl ⟨rfl, rfl⟩
  · next h =>
    have hnone : (st.found.typeOf? t).isNone := by
      simp only [TargetMap.contains, Bool.or_eq_true, not_or, Bool.not_eq_true,
        Option.isSome_eq_false_iff, Option.isNone_iff_eq_none] at h
      simp [Answers.typeOf?, h.2]
    split
    · exact Or.inl ⟨rfl, rfl⟩
    · dsimp only
      split
      · exact Or.inl ⟨rfl, found_learn ..⟩
      · next ty _ =>
        refine Or.inr ⟨rfl, hnone, ty, ?_⟩
        simp only [answer, found_learn]

/-- One pass over the targets. A pressing pass ends with the first answer. -/
def round (b : Bounds) (established : Answers) (ts : List Target) (patience : Patience)
    (st : Solving) : Solving × Bool :=
  match patience with
  | .waiting => sweep (b.attempt established .waiting) ts st
  | .pressing => sweepFirst (b.attempt established .pressing) ts st

theorem unanswered_round (b : Bounds) (established : Answers) (ts : List Target)
    (patience : Patience) (st : Solving) :
    unanswered ts (b.round established ts patience st).1 ≤ unanswered ts st ∧
      ((b.round established ts patience st).2 = true →
        unanswered ts (b.round established ts patience st).1 < unanswered ts st) := by
  cases patience with
  | waiting => exact unanswered_sweep (b.honest_attempt established .waiting) (fun _ => id) st
  | pressing =>
    exact unanswered_sweepFirst (b.honest_attempt established .pressing) (fun _ => id) st

/-- Rounds until a pressing one answers nothing. A round that answers something is followed
    by a waiting one. -/
def rounds (b : Bounds) (established : Answers) (ts : List Target) (patience : Patience)
    (st : Solving) : Solving :=
  match _h : b.round established ts patience st with
  | (st', true) => b.rounds established ts .waiting st'
  | (st', false) =>
    match patience with
    | .waiting => b.rounds established ts .pressing st'
    | .pressing => st'
termination_by (unanswered ts st, if patience = .waiting then 1 else 0)
decreasing_by
  · have hlt := (b.unanswered_round established ts patience st).2 (by rw [_h])
    simp only [_h] at hlt
    exact Prod.Lex.left _ _ hlt
  · have hle := (b.unanswered_round established ts .waiting st).1
    rw [_h] at hle
    cases Nat.lt_or_eq_of_le hle with
    | inl hlt => exact Prod.Lex.left _ _ hlt
    | inr heq =>
      dsimp only at heq
      rw [heq]
      exact Prod.Lex.right _ (by decide)

def solve (b : Bounds) (s : Store) (established : Answers) : Store × Answers :=
  let st := b.rounds established s.targets .waiting ⟨s, ∅⟩
  (st.store, st.found)

end Bounds

namespace Strategy

def supertypes (types : TypeOrder) (qualifiers : QualifierOrder) : Strategy :=
  ⟨"supertypes", Bounds.solve ⟨.lower, types, qualifiers⟩⟩

def subtypes (types : TypeOrder) (qualifiers : QualifierOrder) : Strategy :=
  ⟨"subtypes", Bounds.solve ⟨.upper, types, qualifiers⟩⟩

end Strategy

end QualifiedInference
