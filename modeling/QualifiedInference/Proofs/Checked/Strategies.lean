-- SUMMARY: The built-in strategies with checked accesses, which never fault on targets of the store.
import QualifiedInference.Proofs.Bounds.Attempt
import QualifiedInference.Proofs.Checked.Solving
import QualifiedInference.Proofs.Equalities
import QualifiedInference.Strategy.BuiltIn
/-!
# Checked strategies

The built-in strategies with all accesses to records checked. What they read and write is the record
of the target that a pass has come to. Passes are over the targets of the store, and no attempt
changes those, so a checked strategy does not fault (`BuiltIn.solveChecked_eq`).
-/

namespace QualifiedInference

variable {established : Answers}

/-! ## Over equalities -/

namespace Equalities

open Solving

def attemptChecked (established : Answers) : CheckedAttempt := fun st t =>
  if established.isFinal t || (st.found.typeOf? t).isSome then .ok (st, false)
  else do
    let st ← st.learnChecked established t .equal (·.equalities.targets)
    answerByChecked equalType? t st

theorem attemptChecks (established : Answers) :
    AttemptChecks (attemptChecked established) (attempt established) where
  checks st t := .ite (fun _ => .pure _ _) fun _ =>
    checks_learn_answerBy st established t .equal (·.equalities.targets) equalType?
  targets _ _ := targets_attempt

/-- Checked sweeps until one of them answers no target. -/
def spreadChecked (established : Answers) (ts : List Target) (st : Solving) :
    Except Fault Solving :=
  match _h : sweepChecked (attemptChecked established) ts st with
  | .error f => .error f
  | .ok (st', true) => spreadChecked established ts st'
  | .ok (st', false) => .ok st'
termination_by unanswered ts st
decreasing_by
  -- Where it does not fault, a checked sweep is the sweep, and that one makes progress.
  have hsweep : sweep (attempt established) ts st = (st', true) :=
    (attemptChecks established).sweep.eq_of_ok _h
  have hlt := (unanswered_sweep (honest_attempt established) (fun _ => id) st).2 (by rw [hsweep])
  rwa [hsweep] at hlt

theorem spreadChecked_eq (established : Answers) (ts : List Target) (st : Solving) :
    spreadChecked established ts st = (do
      let (st', answered) ← sweepChecked (attemptChecked established) ts st
      if answered then spreadChecked established ts st' else return st') := by
  rw [spreadChecked]
  split <;> (next hsweep => rw [hsweep]; rfl)

theorem checks_spread (established : Answers) (ts : List Target) (st : Solving) :
    Checks (∀ t ∈ ts, t ∈ st.store.targets) (spreadChecked established ts st)
      (spread established ts st) := by
  induction st using spread.induct established ts with
  | case1 st st' hsweep ih =>
    have htargets : st'.store.targets = st.store.targets := by
      rw [← (attemptChecks established).targets_sweep ts st, hsweep]
    rw [spreadChecked_eq, spread_of_answered (by rw [hsweep])]
    refine (attemptChecks established).sweep.bind ?_
    rw [hsweep]
    exact ih.imp fun hts t ht => htargets ▸ hts t ht
  | case2 st st' hsweep =>
    have hidle : (sweep (attempt established) ts st).2 = false := by rw [hsweep]
    have hsame := sweep_in_vain hidle
    rw [spreadChecked_eq, spread_of_idle hidle]
    refine (attemptChecks established).sweep.bind ?_
    rw [hsweep] at hsame ⊢
    exact .inl (congrArg Except.ok hsame)

def addAliasChecked (established : Answers) (st : Solving) (t : Target) : Except Fault Solving :=
  if established.isFinal t || st.found.contains t then .ok st
  else do
    let r ← st.store.record t
    match r.equalities.targets.keys.find? fun u => u != t && st.store.contains u with
    | none => return st
    | some u => return { st with found := st.found.insert t (.alias u r.equalities.exact) }

theorem checks_addAlias (st : Solving) (t : Target) : Checks (t ∈ st.store.targets)
    (addAliasChecked established st t) (addAlias established st t) := by
  refine .ite (fun _ => .pure _ _) fun _ => ?_
  unfold Store.record
  cases hr : st.store.record? t with
  | none => exact .of_missing hr
  | some r =>
    dsimp only [bind, Except.bind]
    cases r.equalities.targets.keys.find? fun u => u != t && st.store.contains u <;>
      exact .pure _ _

def solveChecked (s : Store) (established : Answers) : Except Fault (Store × Answers) := do
  let typed ← spreadChecked established s.targets ⟨s, ∅⟩
  let st ← s.targets.foldlM (addAliasChecked established) typed
  return (st.store, st.found.collapse)

theorem solveChecked_eq (s : Store) (established : Answers) :
    solveChecked s established = .ok (solve s established) := by
  have hspread := (checks_spread established s.targets ⟨s, ∅⟩).eq_ok fun _ => id
  have haliases : s.targets.foldlM (addAliasChecked established)
      (spread established s.targets ⟨s, ∅⟩) = .ok (s.targets.foldl (addAlias established)
        (spread established s.targets ⟨s, ∅⟩)) := by
    refine Except.foldlM_eq_foldl (P := fun st => st.store.targets = s.targets) targets_spread
      fun st t ht hst => ⟨(checks_addAlias st t).eq_ok (hst ▸ ht), ?_⟩
    rw [store_addAlias, hst]
  rw [solveChecked, hspread]
  dsimp only [bind, Except.bind]
  rw [haliases]
  rfl

end Equalities

/-! ## Over bounds -/

namespace Bounds

open Solving

variable {b : Bounds}

def isReadyChecked (b : Bounds) (established : Answers) (st : Solving) (t : Target) :
    Except Fault Bool := do
  let r ← st.store.record t
  return (b.side.relations r).targets.keys.all fun u =>
    u == t || !st.store.contains u || (st.typeOf? established u).isSome

def attemptChecked (b : Bounds) (established : Answers) (patience : Patience) :
    CheckedAttempt := fun st t =>
  if established.isFinal t || st.found.contains t then .ok (st, false)
  else do
    let ready ← match patience with
      | .waiting => b.isReadyChecked established st t
      | .pressing => .ok true
    if !ready then return (st, false)
    else do
      let st ← st.learnChecked established t b.side.relation fun r => (b.side.relations r).targets
      answerByChecked b.typeFor? t st

theorem checks_isReady (st : Solving) (t : Target) : Checks (t ∈ st.store.targets)
    (b.isReadyChecked established st t) (b.isReady established st t) := by
  unfold isReadyChecked isReady Store.record
  cases hr : st.store.record? t with
  | none => exact .of_missing hr
  | some r => exact .pure _ _

theorem attemptChecks (b : Bounds) (established : Answers) (patience : Patience) :
    AttemptChecks (b.attemptChecked established patience) (b.attempt established patience) where
  checks st t := by
    have hanswer := checks_learn_answerBy st established t b.side.relation
      (fun r => (b.side.relations r).targets) b.typeFor?
    refine .ite (fun _ => .pure _ _) fun _ => ?_
    cases patience with
    | waiting => exact (checks_isReady st t).bind (.ite (fun _ => .pure _ _) fun _ => hanswer)
    | pressing => exact hanswer
  targets _ _ := targets_attempt

def roundChecked (b : Bounds) (established : Answers) (ts : List Target) (patience : Patience)
    (st : Solving) : Except Fault (Solving × Bool) :=
  match patience with
  | .waiting => sweepChecked (b.attemptChecked established .waiting) ts st
  | .pressing => sweepFirstChecked (b.attemptChecked established .pressing) ts st

theorem checks_round (ts : List Target) (patience : Patience) (st : Solving) :
    Checks (∀ t ∈ ts, t ∈ st.store.targets) (b.roundChecked established ts patience st)
      (b.round established ts patience st) := by
  cases patience with
  | waiting => exact (b.attemptChecks established .waiting).sweep
  | pressing => exact (b.attemptChecks established .pressing).sweepFirst

/-- Checked rounds until a pressing one answers nothing. -/
def roundsChecked (b : Bounds) (established : Answers) (ts : List Target) (patience : Patience)
    (st : Solving) : Except Fault Solving :=
  match _h : b.roundChecked established ts patience st with
  | .error f => .error f
  | .ok (st', true) => b.roundsChecked established ts .waiting st'
  | .ok (st', false) =>
    match patience with
    | .waiting => b.roundsChecked established ts .pressing st'
    | .pressing => .ok st'
termination_by (unanswered ts st, if patience = .waiting then 1 else 0)
decreasing_by
  · have hround : b.round established ts patience st = (st', true) :=
      (checks_round ts patience st).eq_of_ok _h
    have hlt := (b.unanswered_round established ts patience st).2 (by rw [hround])
    rw [hround] at hlt
    exact Prod.Lex.left _ _ hlt
  · have hround : b.round established ts .waiting st = (st', false) :=
      (checks_round ts .waiting st).eq_of_ok _h
    have hle := (b.unanswered_round established ts .waiting st).1
    rw [hround] at hle
    rcases Nat.lt_or_eq_of_le hle with hlt | heq
    · exact Prod.Lex.left _ _ hlt
    · dsimp only at heq
      rw [heq]
      exact Prod.Lex.right _ (by decide)

theorem roundsChecked_eq (b : Bounds) (established : Answers) (ts : List Target)
    (patience : Patience) (st : Solving) :
    b.roundsChecked established ts patience st = (do
      let (st', answered) ← b.roundChecked established ts patience st
      if answered then b.roundsChecked established ts .waiting st'
      else match patience with
        | .waiting => b.roundsChecked established ts .pressing st'
        | .pressing => return st') := by
  rw [roundsChecked]
  split <;> (next hround => simp only [hround]; cases patience <;> rfl)

theorem checks_rounds (b : Bounds) (established : Answers) (ts : List Target)
    (patience : Patience) (st : Solving) :
    Checks (∀ t ∈ ts, t ∈ st.store.targets) (b.roundsChecked established ts patience st)
      (b.rounds established ts patience st) := by
  have htargets : ∀ patience st, (b.round established ts patience st).1.store.targets =
      st.store.targets := fun patience st =>
    round_induction (P := fun st' => st'.store.targets = st.store.targets) patience rfl
      fun _ _ _ _ h => targets_attempt.trans h
  induction patience, st using Bounds.rounds.induct b established ts with
  | case1 patience st st' hround ih =>
    have hsame := htargets patience st
    rw [roundsChecked_eq, rounds_of_answered (by rw [hround])]
    refine (checks_round ts patience st).bind ?_
    rw [hround] at hsame ⊢
    exact ih.imp fun hts t ht => hsame ▸ hts t ht
  | case2 st st' hround ih =>
    have hsame := htargets .waiting st
    rw [roundsChecked_eq, rounds_of_idle (by rw [hround])]
    refine (checks_round ts .waiting st).bind ?_
    rw [hround] at hsame ⊢
    exact ih.imp fun hts t ht => hsame ▸ hts t ht
  | case3 st st' hround =>
    rw [roundsChecked_eq, rounds_of_exhausted (by rw [hround])]
    refine (checks_round ts .pressing st).bind ?_
    rw [hround]
    exact .pure _ _

def solveChecked (b : Bounds) (s : Store) (established : Answers) :
    Except Fault (Store × Answers) := do
  let st ← b.roundsChecked established s.targets .waiting ⟨s, ∅⟩
  return (st.store, st.found)

theorem solveChecked_eq (b : Bounds) (s : Store) (established : Answers) :
    b.solveChecked s established = .ok (b.solve s established) := by
  have hrounds := (b.checks_rounds established s.targets .waiting ⟨s, ∅⟩).eq_ok fun _ => id
  rw [solveChecked, hrounds]
  rfl

end Bounds

/-! ## The built-in strategies -/

namespace BuiltIn

def solveChecked (types : TypeOrder) (qualifiers : QualifierOrder) :
    BuiltIn → Store → Answers → Except Fault (Store × Answers)
  | equalities => Equalities.solveChecked
  | supertypes => Bounds.solveChecked ⟨.lower, types, qualifiers⟩
  | subtypes => Bounds.solveChecked ⟨.upper, types, qualifiers⟩

/-- A built-in strategy reads and writes records of the store only. -/
theorem solveChecked_eq (types : TypeOrder) (qualifiers : QualifierOrder) (b : BuiltIn) (s : Store)
    (established : Answers) : b.solveChecked types qualifiers s established =
      .ok ((b.strategy types qualifiers).solve s established) := by
  cases b with
  | equalities => exact Equalities.solveChecked_eq s established
  | supertypes => exact Bounds.solveChecked_eq _ s established
  | subtypes => exact Bounds.solveChecked_eq _ s established

end BuiltIn

end QualifiedInference
