-- SUMMARY: Attempts and sweeps over equalities, and what a run over them keeps.
import QualifiedInference.Proofs.Enrichment
import QualifiedInference.Strategy.Equalities
/-!
# Runs over equalities

An attempt passes its target over, or records what is known of the targets that equal it and takes
the first type of the record. Where it finds none it has learned nothing, so a sweep in vain leaves
the run as it was. What every attempt keeps is kept to the end of the sweeps.
-/

namespace QualifiedInference

namespace Equalities

open Solving

variable (established : Answers)

/-- The target has a final type, or a type of this run. -/
def skips (st : Solving) (t : Target) : Bool :=
  established.isFinal t || (st.found.typeOf? t).isSome

/-- The run once the types known for the targets that equal `t` are recorded. -/
def informed (st : Solving) (t : Target) : Solving :=
  st.learn established t .equal (·.targetsIn .equal)

/-- The type that an attempt would answer `t` with. -/
def verdict? (st : Solving) (t : Target) : Option Ty :=
  ((informed established st t).store.record? t).bind equalType?

variable {established} {st : Solving} {t u : Target} {ts : List Target}

theorem skips_eq_false_iff : skips established st t = false ↔
    established.isFinal t = false ∧ st.found.typeOf? t = none := by
  simp [skips]

@[simp] theorem found_informed : (informed established st t).found = st.found := found_learn ..

@[simp] theorem targets_informed : (informed established st t).store.targets = st.store.targets :=
  targets_learn ..

theorem record?_informed_of_ne (h : u ≠ t) :
    (informed established st t).store.record? u = st.store.record? u :=
  record?_learn_of_ne st established t .equal _ h

theorem record?_informed_self : (informed established st t).store.record? t =
    (st.store.record? t).map fun r =>
      r.relateTypes .equal (st.evidence established (r.targetsIn .equal)) :=
  record?_learn_self ..

theorem attempt_of_skips (h : skips established st t = true) :
    attempt established st t = (st, false) := if_pos h

theorem attempt_of_tried (h : skips established st t = false) :
    attempt established st t =
      match verdict? established st t with
      | none => (informed established st t, false)
      | some ty => ((informed established st t).answer t ty, true) :=
  if_neg (Bool.not_eq_true _ ▸ h)

/-- Every attempt passes its target over, fails on what it learned, or answers. -/
theorem attempt_cases (established : Answers) (st : Solving) (t : Target) :
    (skips established st t = true ∧ attempt established st t = (st, false)) ∨
    (skips established st t = false ∧
      (verdict? established st t = none ∧
          attempt established st t = (informed established st t, false) ∨
        ∃ ty, verdict? established st t = some ty ∧
          attempt established st t = ((informed established st t).answer t ty, true))) := by
  cases hs : skips established st t with
  | true => exact .inl ⟨rfl, attempt_of_skips hs⟩
  | false =>
    have htried := attempt_of_tried hs
    cases hv : verdict? established st t with
    | none => rw [hv] at htried; exact .inr ⟨rfl, .inl ⟨rfl, htried⟩⟩
    | some ty => rw [hv] at htried; exact .inr ⟨rfl, .inr ⟨ty, rfl, htried⟩⟩

@[simp] theorem targets_attempt :
    (attempt established st t).1.store.targets = st.store.targets := by
  rcases attempt_cases established st t with ⟨-, heq⟩ | ⟨-, ⟨-, heq⟩ | ⟨ty, -, heq⟩⟩
  · rw [heq]
  · rw [heq, targets_informed]
  · rw [heq]
    exact targets_informed

/-! ## Verdicts -/

theorem exists_record_of_verdict? {ty : Ty} (h : verdict? established st t = some ty) :
    ∃ r, st.store.record? t = some r := by
  obtain ⟨r', hr', -⟩ := Option.bind_eq_some_iff.1 h
  rw [record?_informed_self] at hr'
  obtain ⟨r, hr, -⟩ := Option.map_eq_some_iff.1 hr'
  exact ⟨r, hr⟩

/-- The type recorded first, or else the first one known of a target that equals `t`. -/
theorem verdict?_eq {r : Record} (h : st.store.record? t = some r) :
    verdict? established st t = (((r.typesIn .equal).keys.head?).or
      ((st.evidence established (r.targetsIn .equal)).map Prod.fst).head?).map
        (·.overlay r.equalities.exact) := by
  have hkeys := r.head?_typesIn_relateTypes .equal (st.evidence established (r.targetsIn .equal))
  have hexact := r.exact_relateTypes .equal (st.evidence established (r.targetsIn .equal))
  rw [verdict?, record?_informed_self, h, Option.map_some, Option.bind_some, equalType?, ← hkeys,
    Relations.exact, hexact]
  rfl

theorem verdict?_eq_none_iff {r : Record} (h : st.store.record? t = some r) :
    verdict? established st t = none ↔ (r.typesIn .equal).keys = [] ∧
      ∀ u ∈ r.targetsIn .equal, st.typeOf? established u = none := by
  rw [verdict?_eq h, Option.map_eq_none_iff, Option.or_eq_none_iff, List.head?_eq_none_iff,
    List.head?_eq_none_iff, List.map_eq_nil_iff, evidence_eq_nil_iff]
  rfl

/-! ## Attempts in vain -/

/-- Without an equal type there is nothing that a related target could have told. -/
theorem informed_of_verdict?_eq_none (h : verdict? established st t = none) :
    informed established st t = st := by
  cases hr : st.store.record? t with
  | none => rw [informed, learn, hr]
  | some r =>
    have hevidence : st.evidence established (r.targetsIn .equal) = [] :=
      evidence_eq_nil_iff.2 ((verdict?_eq_none_iff hr).1 h).2
    rw [informed, learn, hr]
    dsimp only
    rw [hevidence]
    rfl

theorem attempt_in_vain (h : (attempt established st t).2 = false) :
    (attempt established st t).1 = st := by
  rcases attempt_cases established st t with ⟨-, heq⟩ | ⟨-, ⟨hv, heq⟩ | ⟨ty, -, heq⟩⟩
  · rw [heq]
  · rw [heq]
    exact informed_of_verdict?_eq_none hv
  · rw [heq] at h
    cases h

theorem sweep_in_vain (h : (sweep (attempt established) ts st).2 = false) :
    (sweep (attempt established) ts st).1 = st := by
  induction ts with
  | nil => rfl
  | cons t ts ih =>
    simp only [sweep, Bool.or_eq_false_iff] at h
    simp only [sweep]
    have hvain := attempt_in_vain h.1
    simp only [hvain] at h
    exact (congrArg (fun st => (sweep (attempt established) ts st).1) hvain).trans (ih h.2)

/-- A sweep in vain was a vain attempt at each of the targets. -/
theorem attempt_of_sweep_in_vain (h : (sweep (attempt established) ts st).2 = false) (ht : t ∈ ts) :
    (attempt established st t).2 = false := by
  induction ts with
  | nil => cases ht
  | cons u ts ih =>
    simp only [sweep, Bool.or_eq_false_iff] at h
    rcases List.mem_cons.1 ht with rfl | ht
    · exact h.1
    · simp only [attempt_in_vain h.1] at h
      exact ih h.2 ht

/-! ## Whole runs -/

theorem spread_of_answered (h : (sweep (attempt established) ts st).2 = true) :
    spread established ts st = spread established ts (sweep (attempt established) ts st).1 := by
  rw [spread]
  split
  · next heq => rw [heq]
  · next heq => rw [heq] at h; cases h

theorem spread_of_idle (h : (sweep (attempt established) ts st).2 = false) :
    spread established ts st = st := by
  have hvain := sweep_in_vain h
  rw [spread]
  split
  · next heq => rw [heq] at h; cases h
  · next heq => rw [heq] at hvain; exact hvain

/-- The run ends when a sweep answers no target. -/
theorem sweep_spread :
    (sweep (attempt established) ts (spread established ts st)).2 = false := by
  induction st using spread.induct established ts with
  | case1 st next heq ih =>
    rw [spread_of_answered (by rw [heq]), heq]
    exact ih
  | case2 st _ heq =>
    have hvain : (sweep (attempt established) ts st).2 = false := by rw [heq]
    rwa [spread_of_idle hvain]

/-- What every attempt keeps is kept to the end. -/
theorem spread_induction {P : Solving → Prop} (hst : P st)
    (h : ∀ st, ∀ t ∈ ts, P st → P (attempt established st t).1) :
    P (spread established ts st) := by
  induction st using spread.induct established ts with
  | case1 st st' heq ih =>
    have hsweep : P (sweep (attempt established) ts st).1 := sweep_induction hst h
    rw [spread_of_answered (by rw [heq]), heq]
    simp only [heq] at hsweep
    exact ih hsweep
  | case2 st st' heq => rwa [spread_of_idle (by rw [heq])]

theorem targets_spread : (spread established ts st).store.targets = st.store.targets :=
  spread_induction (P := fun st' => st'.store.targets = st.store.targets) rfl
    fun _ _ _ hst => targets_attempt.trans hst

/-- An alias is made of a target without an answer, and of no other. -/
theorem addAlias_cases (established : Answers) (st : Solving) (t : Target) :
    addAlias established st t = st ∨
      ∃ r u, st.store.record? t = some r ∧ u ∈ r.targetsIn .equal ∧ u ≠ t ∧
        u ∈ st.store.targets ∧
        addAlias established st t =
          { st with found := st.found.insert t (.alias u r.equalities.exact) } := by
  unfold addAlias
  split
  · exact .inl rfl
  · cases hr : st.store.record? t with
    | none => exact .inl rfl
    | some r =>
      dsimp only
      cases hu : r.equalities.targets.keys.find? fun u => u != t && st.store.contains u with
      | none => exact .inl rfl
      | some u =>
        have hfound := List.find?_some hu
        simp only [Bool.and_eq_true, bne_iff_ne, Store.contains_iff] at hfound
        exact .inr ⟨r, u, rfl, List.mem_of_find?_eq_some hu, hfound.1, hfound.2, rfl⟩

@[simp] theorem store_addAlias (established : Answers) (st : Solving) (t : Target) :
    (addAlias established st t).store = st.store := by
  rcases addAlias_cases established st t with heq | ⟨_, _, _, _, _, _, heq⟩ <;> rw [heq]

end Equalities

end QualifiedInference
