-- SUMMARY: Solving equalities: types spread along them, and what they do not reach becomes an alias.
import QualifiedInference.Strategy
/-!
# Solving equalities

A target that equals a type is given the first such type, under the qualifiers the target
must have. Types spread along equalities between targets until nothing changes. A target
that equals only targets without a type becomes an alias of the first of them.
-/

namespace QualifiedInference

namespace Equalities

open Solving

/-- The first type that a target equals, with the qualifiers the target must have. -/
def equalType? (r : Record) : Option Ty :=
  r.equalities.types.keys.head?.map (·.overlay r.equalities.exact)

def attempt (established : Answers) : Attempt := fun st t =>
  if established.isFinal t || (st.found.typeOf? t).isSome then (st, false)
  else
    let st := st.learn established t .equal (·.equalities.targets)
    match (st.store.record? t).bind equalType? with
    | none => (st, false)
    | some ty => (st.answer t ty, true)

theorem honest_attempt (established : Answers) : (attempt established).Honest := by
  intro st t
  unfold attempt
  split
  · exact Or.inl ⟨rfl, rfl⟩
  · next h =>
    have hnone : (st.found.typeOf? t).isNone := by
      simp only [Bool.or_eq_true, not_or, Bool.not_eq_true, Option.isSome_eq_false_iff] at h
      exact h.2
    dsimp only
    split
    · exact Or.inl ⟨rfl, found_learn ..⟩
    · next ty _ =>
      refine Or.inr ⟨rfl, hnone, ty, ?_⟩
      simp only [answer, found_learn]

/-- Sweeps over the targets until a sweep answers none. -/
def spread (established : Answers) (ts : List Target) (st : Solving) : Solving :=
  match _h : sweep (attempt established) ts st with
  | (st', true) => spread established ts st'
  | (st', false) => st'
termination_by unanswered ts st
decreasing_by
  have hlt := (unanswered_sweep (honest_attempt established) (fun _ => id) st).2 (by rw [_h])
  rwa [_h] at hlt

/-- Makes `t` an alias of the first other target of the store that it equals. -/
def addAlias (established : Answers) (st : Solving) (t : Target) : Solving :=
  if established.isFinal t || st.found.contains t then st
  else
    match st.store.record? t with
    | none => st
    | some r =>
      match r.equalities.targets.keys.find? fun u => u != t && st.store.contains u with
      | none => st
      | some u => { st with found := st.found.insert t (.alias u r.equalities.exact) }

def solve (s : Store) (established : Answers) : Store × Answers :=
  let typed := spread established s.targets ⟨s, ∅⟩
  let st := s.targets.foldl (addAlias established) typed
  (st.store, st.found.collapse)

end Equalities

def Strategy.equalities : Strategy := ⟨"equalities", Equalities.solve⟩

end QualifiedInference
