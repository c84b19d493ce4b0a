-- SUMMARY: Checked accesses to the records of a store, and their agreement with unchecked ones.
import QualifiedInference.Proofs.Base.Except
import QualifiedInference.Proofs.Solving
/-!
# Checked accesses to records

A run passes over what it would read from or write to a target that its store does not hold. A
checked run asks the store for every record that it reads and writes by adding relations one by
one, so it faults at the first access outside the store. `Checks` says that the two agree unless
some access is outside, and it is closed under what runs are made of.
-/

namespace QualifiedInference

/-- The checked computation gives `a`. It may fault only where `p` does not hold. -/
def Checks {α : Type} (p : Prop) (x : Except Fault α) (a : α) : Prop :=
  x = .ok a ∨ ¬p ∧ ∃ f, x = .error f

namespace Checks

variable {α β : Type} {p q : Prop} {x : Except Fault α} {a b : α}

theorem pure (p : Prop) (a : α) : Checks p (.ok a) a := .inl rfl

theorem bind {f : α → Except Fault β} {b : β} (h : Checks p x a) (hf : Checks p (f a) b) :
    Checks p (x >>= f) b := by
  rcases h with rfl | ⟨hp, fault, rfl⟩
  · exact hf
  · exact .inr ⟨hp, fault, rfl⟩

theorem imp (h : Checks p x a) (hq : q → p) : Checks q x a :=
  h.imp_right fun hp => ⟨mt hq hp.1, hp.2⟩

theorem eq_ok (h : Checks p x a) (hp : p) : x = .ok a :=
  h.resolve_right fun hnot => hnot.1 hp

theorem eq_of_ok (h : Checks p x a) (hx : x = .ok b) : a = b := by
  rcases h with rfl | ⟨-, f, rfl⟩ <;> cases hx
  rfl

theorem ite {c : Prop} [Decidable c] {y : Except Fault α} (h : c → Checks p x a)
    (h' : ¬c → Checks p y b) : Checks p (if c then x else y) (if c then a else b) := by
  split
  · next hc => exact h hc
  · next hc => exact h' hc

/-- Whatever begins with the record of a target without one faults. -/
theorem of_missing {s : Store} {t : Target} (h : s.record? t = none) {f : Fault} :
    Checks (t ∈ s.targets) (.error f) a := by
  refine .inr ⟨fun ht => ?_, f, rfl⟩
  rw [← Store.isSome_record?, h] at ht
  cases ht

end Checks

namespace Store

variable {s : Store} {t : Target}

theorem foldlM_add_eq_addTypes (ht : t ∈ s.targets) (rel : Relation)
    (types : List (Ty × Qualifiers)) :
    types.foldlM (fun s e => s.add .chains t rel (.type e.1 e.2)) s =
      .ok (s.addTypes t rel types) :=
  Except.foldlM_eq_foldl (P := fun s => t ∈ s.targets) ht fun s e _ hs =>
    ⟨if_pos (contains_iff.2 hs), (targets_write s t fun r => r.relateType rel e.1 e.2) ▸ hs⟩

end Store

namespace Solving

variable {established : Answers} {rel : Relation}
  {related : Record → OrderedMap Target Qualifiers} {verdict : Record → Option Ty}
  {st : Solving} {t : Target} {ts : List Target}

def learnChecked (st : Solving) (established : Answers) (t : Target) (rel : Relation)
    (related : Record → OrderedMap Target Qualifiers) : Except Fault Solving := do
  let r ← st.store.record t
  let types := st.evidence established (related r)
  let store ← types.foldlM (fun s e => s.add .chains t rel (.type e.1 e.2)) st.store
  return { st with store }

def answerByChecked (verdict : Record → Option Ty) (t : Target) (st : Solving) :
    Except Fault (Solving × Bool) := do
  let r ← st.store.record t
  match verdict r with
  | none => return (st, false)
  | some ty => return (st.answer t ty, true)

theorem checks_learn :
    Checks (t ∈ st.store.targets) (st.learnChecked established t rel related)
      (st.learn established t rel related) := by
  unfold learnChecked learn Store.record
  cases hr : st.store.record? t with
  | none => exact .of_missing hr
  | some r =>
    refine .inl ?_
    dsimp only [bind, Except.bind]
    rw [Store.foldlM_add_eq_addTypes (Store.mem_targets_of_record? hr)]
    rfl

theorem checks_answerBy :
    Checks (t ∈ st.store.targets) (answerByChecked verdict t st) (answerBy verdict t st) := by
  unfold answerByChecked answerBy Store.record
  cases hr : st.store.record? t with
  | none => exact .of_missing hr
  | some r =>
    dsimp only [bind, Except.bind, Option.bind_some]
    cases verdict r <;> exact .inl rfl

/-- To learn and then to answer is all that an attempt does to a store. -/
theorem checks_learn_answerBy (st : Solving) (established : Answers) (t : Target) (rel : Relation)
    (related : Record → OrderedMap Target Qualifiers) (verdict : Record → Option Ty) :
    Checks (t ∈ st.store.targets)
      (st.learnChecked established t rel related >>= answerByChecked verdict t)
      (answerBy verdict t (st.learn established t rel related)) :=
  checks_learn.bind (checks_answerBy.imp fun ht => (targets_learn ..).symm ▸ ht)

/-! ## Passes -/

abbrev CheckedAttempt := Solving → Target → Except Fault (Solving × Bool)

def sweepChecked (attempt : CheckedAttempt) : List Target → Solving →
    Except Fault (Solving × Bool)
  | [], st => .ok (st, false)
  | t :: ts, st => do
    let (st, answered) ← attempt st t
    let (st, more) ← sweepChecked attempt ts st
    return (st, answered || more)

def sweepFirstChecked (attempt : CheckedAttempt) : List Target → Solving →
    Except Fault (Solving × Bool)
  | [], st => .ok (st, false)
  | t :: ts, st => do
    match ← attempt st t with
    | (st, true) => return (st, true)
    | (st, false) => sweepFirstChecked attempt ts st

/-- The checked attempt can only fault on a target that the store does not hold. No attempt changes
    which targets the store holds. -/
structure AttemptChecks (checked : CheckedAttempt) (attempt : Attempt) : Prop where
  checks : ∀ st t, Checks (t ∈ st.store.targets) (checked st t) (attempt st t)
  targets : ∀ st t, (attempt st t).1.store.targets = st.store.targets

variable {checked : CheckedAttempt} {attempt : Attempt}

theorem AttemptChecks.targets_sweep (h : AttemptChecks checked attempt) (ts : List Target)
    (st : Solving) : (sweep attempt ts st).1.store.targets = st.store.targets :=
  sweep_induction (P := fun st' => st'.store.targets = st.store.targets) rfl
    fun st' t _ hst' => (h.targets st' t).trans hst'

theorem AttemptChecks.sweep (h : AttemptChecks checked attempt) :
    Checks (∀ t ∈ ts, t ∈ st.store.targets) (sweepChecked checked ts st)
      (sweep attempt ts st) := by
  -- On the targets. After an attempt they are in the store if they were before it.
  induction ts generalizing st with
  | nil => exact .pure _ _
  | cons t ts ih =>
    have hrest : Checks (∀ u ∈ t :: ts, u ∈ st.store.targets)
        (sweepChecked checked ts (attempt st t).1) (Solving.sweep attempt ts (attempt st t).1) :=
      ih.imp fun hts u hu => h.targets st t ▸ hts u (.tail _ hu)
    exact ((h.checks st t).imp fun hts => hts t (.head _)).bind (hrest.bind (.pure _ _))

theorem AttemptChecks.sweepFirst (h : AttemptChecks checked attempt) :
    Checks (∀ t ∈ ts, t ∈ st.store.targets) (sweepFirstChecked checked ts st)
      (sweepFirst attempt ts st) := by
  induction ts generalizing st with
  | nil => exact .pure _ _
  | cons t ts ih =>
    have hrest : Checks (∀ u ∈ t :: ts, u ∈ st.store.targets)
        (sweepFirstChecked checked ts (attempt st t).1)
        (Solving.sweepFirst attempt ts (attempt st t).1) :=
      ih.imp fun hts u hu => h.targets st t ▸ hts u (.tail _ hu)
    refine ((h.checks st t).imp fun hts => hts t (.head _)).bind ?_
    unfold Solving.sweepFirst
    rcases hst : attempt st t with ⟨st', _ | _⟩
    · rw [hst] at hrest
      exact hrest
    · exact .pure _ _

end Solving

end QualifiedInference
