-- SUMMARY: What strategies have in common: passes over targets, and the measure by which they end.
import QualifiedInference.Answers
import QualifiedInference.Store
/-!
# Strategies

A strategy reads a store and the answers established so far and finds answers for further
targets. It may write types that it learns into the store it is given. The passes of the
strategies over the targets, and the measure by which they end, are in common here.
-/

namespace QualifiedInference

structure Strategy where
  name : String
  /-- From a store and the established answers to the store afterwards and the answers found. -/
  solve : Store → Answers → Store × Answers

/-- A solving run under way. -/
structure Solving where
  store : Store
  found : Answers

namespace Solving

/-- The type known for a target, a type found in this run first. -/
def typeOf? (st : Solving) (established : Answers) (t : Target) : Option Ty :=
  (st.found.typeOf? t).or (established.typeOf? t)

/-- The types known for related targets, with the hierarchies they are related in. -/
def evidence (st : Solving) (established : Answers) (related : OrderedMap Target Qualifiers) :
    List (Ty × Qualifiers) :=
  related.entries.filterMap fun e => (st.typeOf? established e.1).map (·, e.2)

/-- Writes the types known for the targets in relation `rel` to `t` into the record of `t`. -/
def learn (st : Solving) (established : Answers) (t : Target) (rel : Relation)
    (related : Record → OrderedMap Target Qualifiers) : Solving :=
  match st.store.record? t with
  | none => st
  | some r => { st with store := st.store.addTypes t rel (st.evidence established (related r)) }

@[simp] theorem found_learn (st : Solving) (established : Answers) (t : Target) (rel : Relation)
    (related : Record → OrderedMap Target Qualifiers) :
    (st.learn established t rel related).found = st.found := by
  unfold learn
  split <;> rfl

def answer (st : Solving) (t : Target) (ty : Ty) : Solving :=
  { st with found := st.found.insert t (.type ty) }

/-! ## Passes over the targets -/

/-- An attempt to answer one target. The flag tells whether it was answered. -/
abbrev Attempt := Solving → Target → Solving × Bool

/-- Tries every target in turn. The flag tells whether some target was answered. -/
def sweep (attempt : Attempt) : List Target → Solving → Solving × Bool
  | [], st => (st, false)
  | t :: ts, st =>
    let (st, answered) := attempt st t
    let (st, more) := sweep attempt ts st
    (st, answered || more)

/-- Tries the targets in turn until one is answered. -/
def sweepFirst (attempt : Attempt) : List Target → Solving → Solving × Bool
  | [], st => (st, false)
  | t :: ts, st =>
    match attempt st t with
    | (st, true) => (st, true)
    | (st, false) => sweepFirst attempt ts st

/-! ## Progress -/

/-- How many of the targets have not been given a type in this run. -/
def unanswered (ts : List Target) (st : Solving) : Nat :=
  ts.countP fun t => (st.found.typeOf? t).isNone

/-- An attempt that answers at most its own target, and says so. -/
def Attempt.Honest (attempt : Attempt) : Prop :=
  ∀ st t,
    ((attempt st t).2 = false ∧ (attempt st t).1.found = st.found) ∨
      ((attempt st t).2 = true ∧ (st.found.typeOf? t).isNone ∧
        ∃ ty, (attempt st t).1.found = st.found.insert t (.type ty))

theorem unanswered_insert_le {ts : List Target} {st st' : Solving} {t : Target} {ty : Ty}
    (h : st'.found = st.found.insert t (.type ty)) : unanswered ts st' ≤ unanswered ts st := by
  apply List.countP_mono_left
  intro u _ hu
  simp only [h, Answers.typeOf?_insert] at hu
  by_cases hut : u = t
  · simp [hut] at hu
  · rwa [if_neg hut] at hu

theorem unanswered_insert_lt {ts : List Target} {st st' : Solving} {t : Target} {ty : Ty}
    (ht : t ∈ ts) (hnone : (st.found.typeOf? t).isNone)
    (h : st'.found = st.found.insert t (.type ty)) : unanswered ts st' < unanswered ts st := by
  induction ts with
  | nil => cases ht
  | cons u rest ih =>
    have hcons : ∀ st : Solving, unanswered (u :: rest) st =
        unanswered rest st + if (st.found.typeOf? u).isNone then 1 else 0 :=
      fun st => by simp [unanswered, List.countP_cons]
    rw [hcons, hcons]
    by_cases hut : u = t
    · subst hut
      have hsome : ¬(st'.found.typeOf? u).isNone := by rw [h, Answers.typeOf?_insert]; simp
      rw [if_neg hsome, if_pos hnone]
      exact Nat.lt_succ_of_le (unanswered_insert_le h)
    · have hlt := ih ((List.mem_cons.1 ht).resolve_left fun h => hut h.symm)
      have hsame : st'.found.typeOf? u = st.found.typeOf? u := by
        rw [h, Answers.typeOf?_insert, if_neg hut]
      rw [hsame]
      exact Nat.add_lt_add_right hlt _

theorem unanswered_congr (ts : List Target) {st st' : Solving} (h : st'.found = st.found) :
    unanswered ts st' = unanswered ts st := by
  unfold unanswered
  rw [h]

/-- A sweep leaves no more targets unanswered than before, and fewer if it says so. -/
theorem unanswered_sweep {attempt : Attempt} (honest : attempt.Honest) {all ts : List Target}
    (hts : ∀ t ∈ ts, t ∈ all) (st : Solving) :
    unanswered all (sweep attempt ts st).1 ≤ unanswered all st ∧
      ((sweep attempt ts st).2 = true →
        unanswered all (sweep attempt ts st).1 < unanswered all st) := by
  induction ts generalizing st with
  | nil => exact ⟨Nat.le_refl _, nofun⟩
  | cons t ts ih =>
    have ⟨hle, hlt⟩ := ih (fun u hu => hts u (.tail _ hu)) (attempt st t).1
    cases honest st t with
    | inl h =>
      have heq : unanswered all (attempt st t).1 = unanswered all st := unanswered_congr all h.2
      simp only [sweep, h.1, Bool.false_or]
      rw [← heq]
      exact ⟨hle, hlt⟩
    | inr h =>
      obtain ⟨hflag, hnone, ty, hfound⟩ := h
      have hstep : unanswered all (attempt st t).1 < unanswered all st :=
        unanswered_insert_lt (hts t (.head _)) hnone hfound
      exact ⟨Nat.le_trans hle (Nat.le_of_lt hstep), fun _ => Nat.lt_of_le_of_lt hle hstep⟩

theorem unanswered_sweepFirst {attempt : Attempt} (honest : attempt.Honest)
    {all ts : List Target} (hts : ∀ t ∈ ts, t ∈ all) (st : Solving) :
    unanswered all (sweepFirst attempt ts st).1 ≤ unanswered all st ∧
      ((sweepFirst attempt ts st).2 = true →
        unanswered all (sweepFirst attempt ts st).1 < unanswered all st) := by
  induction ts generalizing st with
  | nil => exact ⟨Nat.le_refl _, nofun⟩
  | cons t ts ih =>
    have ⟨hle, hlt⟩ := ih (fun u hu => hts u (.tail _ hu)) (attempt st t).1
    rcases hstep : attempt st t with ⟨st', flag⟩
    have hcase := honest st t
    simp only [hstep] at hcase hle hlt
    cases hcase with
    | inl h =>
      obtain ⟨rfl, hfound⟩ := h
      simp only [sweepFirst, hstep]
      rw [← unanswered_congr all hfound]
      exact ⟨hle, hlt⟩
    | inr h =>
      obtain ⟨rfl, hnone, ty, hfound⟩ := h
      have hlt' : unanswered all st' < unanswered all st :=
        unanswered_insert_lt (hts t (.head _)) hnone hfound
      simp only [sweepFirst, hstep]
      exact ⟨Nat.le_of_lt hlt', fun _ => hlt'⟩

end Solving

end QualifiedInference
