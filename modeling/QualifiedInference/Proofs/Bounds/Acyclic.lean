-- SUMMARY: Extremal solutions by runs over acyclic bounds.
import QualifiedInference.Proofs.Bounds.Solution
import QualifiedInference.Proofs.Bounds.Waiting
/-!
# Acyclic bounds

Where no target waits for itself, however indirectly, and a run answers every target that
another one waits for, no target is answered before its time. So the answers of the run are
extremal among the assignments that solve the store.
-/

namespace QualifiedInference

namespace Bounds

open Solving

variable {b : Bounds} {d : NominalTypes} {order : QualifierOrder} {s : Store}
  {established : Answers} {st : Solving}

section Run

variable (hb : b.types = d.typeOrder order)
  (hplain : ∀ t r, s.record? t = some r → ∀ ty ∈ (b.side.relations r).types, ty.IsPlain)
  (hestablished : ∀ t ty, established.typeOf? t = some ty → ty.IsPlain)

include hb hplain hestablished

theorem Sound.attempt (h : Sound b d s established st) (t : Target) :
    Sound b d s established (b.attempt established .waiting st t).1 := by
  rcases attempt_cases b established .waiting st t with
    ⟨-, heq⟩ | ⟨hs, hready, ⟨-, heq⟩ | ⟨ty, hv, heq⟩⟩
  · rw [heq]
    exact h
  · rw [heq]
    exact h.informed t
  · rw [heq]
    obtain ⟨r, hr, hty⟩ := Option.bind_eq_some_iff.1 hv
    have hlearned := hr
    simp only [record?_informed_self] at hlearned
    obtain ⟨r', hr', rfl⟩ := Option.map_eq_some_iff.1 hlearned
    have hinformed := h.informed t
    obtain ⟨hfinal, hnone⟩ := skips_eq_false_iff.1 hs
    have hunestablished :=
      typeOf?_of_not_final (fun t ty ht => (hestablished t ty ht).isNull) hfinal
    refine hinformed.answer ⟨hunestablished, ?_, ?_, hr, ?_, ?_⟩
    · simpa using hnone
    · simpa using hready rfl
    · intro u uty hu huty
      simp only [Record.targetsIn_relateTypes] at hu
      simp only [typeOf?_congr found_informed] at huty
      exact Record.mem_typesIn_relateTypes.2 (.inr (mem_evidence.2 ⟨u, hu, huty⟩))
    · exact Extremal.of_typeFor? hb (hinformed.isPlain_typesIn hplain hestablished hr) hty

/-- The answers of a run come from waiting attempts alone. -/
theorem sound_solve
    (hacyclic : ∀ t, ¬Relation.TransGen (Awaits b.side s established) t t)
    (hanswers : ∀ t u, Awaits b.side s established t u →
      ((b.solve s established).2.typeOf? u).isSome) :
    ∃ st, Sound b d s established st ∧ (b.solve s established).2 = st.found := by
  obtain ⟨st, -, hsound, hfound, -⟩ :=
    exists_settled (fun t ty ht => (hestablished t ty ht).isNull) hacyclic
      (Sound.start b d s established)
      (fun st t _ _ hst => hst.attempt hb hplain hestablished t) hanswers
  exact ⟨st, hsound, hfound⟩

end Run

/-- The answers of a run over acyclic plain bounds are plain types whose names solve the store
    and are extremal among all names that do so: the most specific ones above lower bounds, the
    most general ones below upper bounds. -/
theorem solve_extremal (d : NominalTypes) (order qualifiers : QualifierOrder) (side : Side)
    (s : Store) (established : Answers)
    (hplain : ∀ t r, s.record? t = some r → ∀ ty ∈ (side.relations r).types, ty.IsPlain)
    (hestablished : ∀ t ty, established.typeOf? t = some ty → ty.IsPlain)
    (hacyclic : ∀ t, ¬Relation.TransGen (Awaits side s established) t t)
    (hanswers : ∀ t u, Awaits side s established t u →
      ((solve ⟨side, d.typeOrder order, qualifiers⟩ s established).2.typeOf? u).isSome) :
    let found := (solve ⟨side, d.typeOrder order, qualifiers⟩ s established).2
    (∀ t ty, found.typeOf? t = some ty → ty.IsPlain) ∧
      Solves side d s established found.nameOf? ∧
      ∀ names : Target → Option String, (∀ t, (found.nameOf? t).isSome → (names t).isSome) →
        Solves side d s established names → ∀ t name other, found.nameOf? t = some name →
          names t = some other → side.respects d other name = true := by
  obtain ⟨st, hsound, hfound⟩ := sound_solve (b := ⟨side, d.typeOrder order, qualifiers⟩)
    rfl hplain hestablished hacyclic hanswers
  rw [hfound]
  refine ⟨fun t ty ht => (hsound.typeOf?_found ht).2, hsound.solves, ?_⟩
  intro names hdomain hsolves t name other hname hother
  exact hsound.extremal hdomain hsolves hname hother

/-- Number is above Integer and Float, and nothing else is declared. -/
def numbers : NominalTypes where
  declarations := [("Float", some "Number"), ("Integer", some "Number"), ("Number", none)]
  inOrder := ⟨by decide, by simp, by decide, by simp, by decide, nofun, trivial⟩

/-- The second target has the lower bound Integer; the first one, declared before it, is bounded
    by it and by a target outside the store. -/
def waitingStore : Store :=
  ((Store.new 0 [⟨1⟩, ⟨2⟩]).write ⟨1⟩ fun r =>
    (r.relateTarget .supertype ⟨2⟩ ∅).relateTarget .supertype ⟨3⟩ ∅).write ⟨2⟩ fun r =>
      r.relateType .supertype (.named "Integer" [] ∅) ∅

def floatEstablished : Answers := TargetMap.insert ∅ ⟨3⟩ (.type (.named "Float" [] ∅))

theorem awaits_waitingStore {t u : Target} (h : Awaits .lower waitingStore floatEstablished t u) :
    t = ⟨1⟩ ∧ u = ⟨2⟩ := by
  obtain ⟨hne, hu, -, -, r, hr, hru⟩ := h
  have hall : ∀ t ∈ waitingStore.targets, ∀ u ∈ waitingStore.targets, u ≠ t →
      ∀ r ∈ waitingStore.record? t, u ∈ r.supertypes.targets → t = ⟨1⟩ ∧ u = ⟨2⟩ := by
    decide +kernel
  exact hall t (Store.mem_targets_of_record? hr) u hu hne r hr hru

theorem acyclic_waitingStore (t : Target) :
    ¬Relation.TransGen (Awaits .lower waitingStore floatEstablished) t t := by
  intro ht
  obtain ⟨u, hu, -⟩ := Relation.TransGen.head'_iff.1 ht
  obtain ⟨v, -, hv⟩ := Relation.TransGen.tail'_iff.1 ht
  simp only [(awaits_waitingStore hu).1] at hv
  exact absurd (awaits_waitingStore hv).2 (by decide)

theorem isPlain_floatEstablished {t : Target} {ty : Ty}
    (h : floatEstablished.typeOf? t = some ty) : ty.IsPlain := by
  simp only [floatEstablished, Answers.typeOf?_insert] at h
  split at h
  · cases h
    exact ⟨_, _, rfl⟩
  · cases h

def numberBounds : Bounds := ⟨.lower, numbers.typeOrder .chains, .chains⟩

/-- The second target is answered in the first round and the first one in the second round. -/
theorem solve_waitingStore :
    let round := fun patience st =>
      (numberBounds.round floatEstablished waitingStore.targets patience st).1
    (numberBounds.solve waitingStore floatEstablished).2 =
      (round .pressing
        (round .waiting (round .waiting (round .waiting ⟨waitingStore, ∅⟩)))).found := by
  unfold solve
  rw [rounds_of_answered (by decide +kernel), rounds_of_answered (by decide +kernel),
    rounds_of_idle (by decide +kernel), rounds_of_exhausted (by decide +kernel)]

theorem answers_waitingStore {t u : Target} (h : Awaits .lower waitingStore floatEstablished t u) :
    ((numberBounds.solve waitingStore floatEstablished).2.typeOf? u).isSome := by
  rw [(awaits_waitingStore h).2]
  simp only [solve_waitingStore]
  decide +kernel

theorem solve_extremal_numbers :
    let found := (numberBounds.solve waitingStore floatEstablished).2
    found.nameOf? ⟨1⟩ = some "Number" ∧
      Solves .lower numbers waitingStore floatEstablished found.nameOf? ∧
      ∀ names : Target → Option String, (∀ t, (found.nameOf? t).isSome → (names t).isSome) →
        Solves .lower numbers waitingStore floatEstablished names →
        ∀ other, names ⟨1⟩ = some other → numbers.isSubtype "Number" other = true := by
  have hname : (numberBounds.solve waitingStore floatEstablished).2.nameOf? ⟨1⟩ =
      some "Number" := by
    simp only [solve_waitingStore]
    decide +kernel
  obtain ⟨-, hsolves, hextremal⟩ := solve_extremal numbers .chains .chains .lower waitingStore
    floatEstablished
    (by
      intro t r hr ty hty
      have hall : ∀ t ∈ waitingStore.targets, ∀ r ∈ waitingStore.record? t,
          ∀ ty ∈ r.supertypes.types.keys, ty.IsPlain := by decide +kernel
      exact hall t (Store.mem_targets_of_record? hr) r hr ty hty)
    (fun _ _ hty => isPlain_floatEstablished hty)
    acyclic_waitingStore (fun _ _ h => answers_waitingStore h)
  exact ⟨hname, hsolves, fun names hdomain hnames other hother =>
    hextremal names hdomain hnames ⟨1⟩ "Number" other hname hother⟩

end Bounds

end QualifiedInference
