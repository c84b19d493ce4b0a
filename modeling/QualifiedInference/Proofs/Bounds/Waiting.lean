-- SUMMARY: Answers of waiting attempts as verdicts on the records at the start of a run.
import Mathlib.Order.WellFoundedSet
import QualifiedInference.Proofs.Bounds.Attempt
/-!
# Answers given in due time

As long as a run only makes waiting attempts, each of its answers is the verdict of the record that
the store had at the start, with the types of all that bound the target. What is stuck stays
stuck. So where no target waits for itself, however indirectly, and a run answers every target
that another one waits for, only waiting attempts answer (`exists_settled`).
-/

namespace QualifiedInference

namespace Solving

variable {st st' : Solving}

/-- The run as it would stand had it written to no record of `s`. -/
def unwritten (st : Solving) (s : Store) : Solving := ⟨s, st.found⟩

@[simp] theorem store_unwritten (st : Solving) (s : Store) : (st.unwritten s).store = s := rfl

@[simp] theorem found_unwritten (st : Solving) (s : Store) : (st.unwritten s).found = st.found :=
  rfl

@[simp] theorem typeOf?_unwritten (st : Solving) (s : Store) (established : Answers) (t : Target) :
    (st.unwritten s).typeOf? established t = st.typeOf? established t := rfl

theorem unwritten_congr {s : Store} (h : st'.found = st.found) :
    st'.unwritten s = st.unwritten s := by
  rw [unwritten, h]
  rfl

end Solving

/-- Neither target is settled, and the second one bounds the first. -/
def Awaits (side : Side) (s : Store) (established : Answers) (t u : Target) : Prop :=
  u ≠ t ∧ u ∈ s.targets ∧ established.isFinal t = false ∧ established.isFinal u = false ∧
    ∃ r, s.record? t = some r ∧ u ∈ (side.relations r).targets

namespace Bounds

open Solving

variable {b : Bounds} {s : Store} {established : Answers} {patience : Patience}
  {st : Solving} {t : Target}

/-- Induction along what is awaited, which is well-founded on the targets of the store. -/
theorem awaits_induction {side : Side}
    (hacyclic : ∀ t, ¬Relation.TransGen (Awaits side s established) t t) {P : Target → Prop}
    (h : ∀ t ∈ s.targets, (∀ u, Awaits side s established t u → P u) → P t)
    (ht : t ∈ s.targets) : P t := by
  have : IsStrictOrder Target (Function.swap (Relation.TransGen (Awaits side s established))) :=
    { irrefl := hacyclic
      trans := fun _ _ _ h h' => Relation.TransGen.trans h' h }
  have hwf : Set.WellFoundedOn {t | t ∈ s.targets}
      (Function.swap (Relation.TransGen (Awaits side s established))) :=
    (List.finite_toSet s.targets).wellFoundedOn
  refine hwf.induction (P := P) ht fun t ht ih => h t ht fun u hu => ?_
  exact ih u hu.2.1 (Relation.TransGen.single hu)

/-! ## Verdicts from the records of a store -/

/-- The verdict on `t` from its record in `s` and the types known for the other targets that bound
    it. -/
def verdictFrom? (b : Bounds) (s : Store) (known : Target → Option Ty) (t : Target) : Option Ty :=
  (s.record? t).bind fun r => b.typeFor? <| r.relateTypes b.side.relation <|
    (r.targetsIn b.side.relation).entries.filterMap fun e =>
      if e.1 = t then none else (known e.1).map (·, e.2)

theorem verdictFrom?_congr {s' : Store} {known known' : Target → Option Ty}
    (hrec : s'.record? t = s.record? t)
    (h : ∀ r, s.record? t = some r → ∀ u ∈ (r.targetsIn b.side.relation).keys, u ≠ t →
      known' u = known u) : b.verdictFrom? s' known' t = b.verdictFrom? s known t := by
  unfold verdictFrom?
  rw [hrec]
  apply Option.bind_congr
  intro r hr
  congr 2
  apply List.filterMap_congr
  intro e he
  split
  · rfl
  · next hne => rw [h r hr e.1 (List.mem_map_of_mem he) hne]

/-- A target without a type adds nothing to what is known of those that bound it. -/
theorem verdict?_eq_verdictFrom? (ht : st.typeOf? established t = none) :
    b.verdict? established st t = b.verdictFrom? st.store (st.typeOf? established) t := by
  unfold verdict? verdictFrom?
  rw [record?_informed_self, Option.bind_map]
  apply Option.bind_congr
  intro r _
  have hevidence : st.evidence established (r.targetsIn b.side.relation) =
      (r.targetsIn b.side.relation).entries.filterMap fun e =>
        if e.1 = t then none else (st.typeOf? established e.1).map (·, e.2) := by
    apply List.filterMap_congr
    intro e _
    split
    · next heq => rw [heq, ht]; rfl
    · rfl
  exact congrArg (fun types => b.typeFor? (r.relateTypes b.side.relation types)) hevidence

/-! ## What waiting attempts keep -/

theorem isReady_answer {u : Target} {ty : Ty}
    (h : b.isReady established (st.unwritten s) t = true) :
    b.isReady established ((st.answer u ty).unwritten s) t = true := by
  refine isReady_mono h rfl rfl fun v hv => ?_
  simp only [typeOf?_unwritten, typeOf?_answer] at hv ⊢
  split
  · rfl
  · exact hv

/-- An answer is no news to a target that is ready: all that bounds it had a type before. -/
theorem typeOf?_answer_of_isReady {u v : Target} {ty : Ty}
    (hu : st.typeOf? established u = none) (hmem : u ∈ s.targets) (htu : t ≠ u)
    (hready : b.isReady established (st.unwritten s) t = true) {r : Record}
    (hr : s.record? t = some r) (hv : v ∈ (r.targetsIn b.side.relation).keys) :
    (st.answer u ty).typeOf? established v = st.typeOf? established v := by
  have hvu : v ≠ u := by
    rintro rfl
    have hr' : (st.unwritten s).store.record? t = some r := hr
    have hsome := (isReady_iff hr').1 hready v hv htu.symm hmem
    simp only [typeOf?_unwritten, hu] at hsome
    cases hsome
  rw [typeOf?_answer, if_neg hvu]

/-- Where a run of waiting attempts stands. The record of a target without an answer is that of the
    store, or has been informed of all that bounds it. Every answer is the verdict from the record
    of the store, and all that bounds its target has a type. -/
structure Timely (b : Bounds) (s : Store) (established : Answers) (st : Solving) : Prop where
  targets : st.store.targets = s.targets
  record : ∀ {t}, st.found.get? t = none → st.store.record? t = s.record? t ∨
    b.isReady established (st.unwritten s) t = true ∧
      st.store.record? t = (b.informed established (st.unwritten s) t).store.record? t
  answered : ∀ {t a}, st.found.get? t = some a → t ∈ s.targets ∧ established.typeOf? t = none ∧
    b.isReady established (st.unwritten s) t = true ∧
    ∃ ty, a = .type ty ∧ b.verdictFrom? s (st.typeOf? established) t = some ty

namespace Timely

theorem start (b : Bounds) (s : Store) (established : Answers) :
    Timely b s established ⟨s, ∅⟩ := by
  refine ⟨rfl, fun _ => .inl rfl, fun {t a} h => ?_⟩
  have hnone : (∅ : Answers).get? t = none := TargetMap.get?_eq_none_iff.2 List.not_mem_nil
  simp only [hnone] at h
  cases h

theorem isReady_eq (h : Timely b s established st) (ht : st.found.get? t = none) :
    b.isReady established st t = b.isReady established (st.unwritten s) t := by
  rcases h.record ht with heq | ⟨hready, heq⟩
  · exact isReady_congr h.targets heq fun _ _ _ _ => rfl
  · refine (isReady_congr ?_ heq fun _ _ _ _ => by simp).trans isReady_informed
    simpa using h.targets

theorem record?_informed_eq (h : Timely b s established st) (ht : st.found.get? t = none) :
    (b.informed established st t).store.record? t =
      (b.informed established (st.unwritten s) t).store.record? t := by
  rcases h.record ht with heq | ⟨-, heq⟩
  · exact record?_informed_congr heq fun _ _ _ _ => rfl
  · exact (record?_informed_congr heq fun _ _ _ _ => by simp).trans record?_informed_informed

/-- The verdict on a target without an answer is the one from the record of the store. -/
theorem verdict?_eq (h : Timely b s established st) (ht : st.found.get? t = none)
    (hestablished : established.typeOf? t = none) :
    b.verdict? established st t = b.verdictFrom? s (st.typeOf? established) t := by
  have hnone : (st.unwritten s).typeOf? established t = none :=
    (typeOf?_of_unanswered ht).trans hestablished
  rw [verdict?, h.record?_informed_eq ht]
  exact verdict?_eq_verdictFrom? hnone

theorem informed (h : Timely b s established st) (ht : st.found.get? t = none)
    (hready : b.isReady established st t = true) :
    Timely b s established (b.informed established st t) := by
  refine ⟨targets_informed.trans h.targets, fun {u} hu => ?_, fun {u a} hu => ?_⟩
  · simp only [found_informed] at hu
    rw [unwritten_congr found_informed]
    rcases eq_or_ne u t with rfl | hut
    · simp only [h.isReady_eq ht] at hready
      exact .inr ⟨hready, h.record?_informed_eq ht⟩
    · simp only [record?_informed_of_ne hut]
      exact h.record hu
  · simp only [found_informed] at hu
    have hknown : (b.informed established st t).typeOf? established = st.typeOf? established :=
      funext fun _ => typeOf?_informed
    rw [unwritten_congr found_informed, hknown]
    exact h.answered hu

theorem answer (h : Timely b s established st) {u : Target} {ty : Ty}
    (hu : st.found.get? u = none) (hestablished : established.typeOf? u = none)
    (hready : b.isReady established st u = true)
    (hty : b.verdict? established st u = some ty) :
    Timely b s established (st.answer u ty) := by
  have hunknown := (typeOf?_of_unanswered hu).trans hestablished
  simp only [h.verdict?_eq hu hestablished] at hty
  simp only [h.isReady_eq hu] at hready
  have hmem : u ∈ s.targets := by
    obtain ⟨r, hr, -⟩ := Option.bind_eq_some_iff.1 hty
    exact Store.mem_targets_of_record? hr
  have hget : ∀ t, (st.answer u ty).found.get? t =
      if t = u then some (.type ty) else st.found.get? t := fun t => TargetMap.get?_insert ..
  refine ⟨h.targets, fun {t} ht => ?_, fun {t a} ht => ?_⟩
  · simp only [hget] at ht
    split at ht
    · cases ht
    · next htu =>
      refine (h.record ht).imp_right fun ⟨hr, heq⟩ => ⟨isReady_answer hr, heq.trans ?_⟩
      refine (record?_informed_congr ?_ fun r hr' v hv => ?_).symm
      · rfl
      · exact typeOf?_answer_of_isReady hunknown hmem htu hr hr' hv
  · simp only [hget] at ht
    split at ht
    · next htu =>
      subst htu
      cases ht
      refine ⟨hmem, hestablished, isReady_answer hready, ty, rfl, ?_⟩
      rw [← hty]
      refine verdictFrom?_congr rfl fun r hr v hv hvt => ?_
      rw [typeOf?_answer, if_neg hvt]
    · next htu =>
      obtain ⟨hts, hest, hr, ty', rfl, hverdict⟩ := h.answered ht
      refine ⟨hts, hest, isReady_answer hr, ty', rfl, ?_⟩
      rw [← hverdict]
      exact verdictFrom?_congr rfl fun r hr' v hv _ =>
        typeOf?_answer_of_isReady hunknown hmem htu hr hr' hv

theorem skips_of_unknown (h : Timely b s established st)
    (ht : st.typeOf? established t = none) : skips established st t = false := by
  simp only [Solving.typeOf?, Option.or_eq_none_iff] at ht
  rw [skips_eq_false_iff]
  constructor
  · rw [Answers.isFinal, ht.2]
    rfl
  · cases hget : st.found.get? t with
    | none => rfl
    | some a =>
      obtain ⟨-, -, -, ty, rfl, -⟩ := h.answered hget
      simp only [Answers.typeOf?_eq_some.2 hget] at ht
      cases ht.1

/-- A target that is not ready awaits one that no type is known for. -/
theorem exists_awaited (h : Timely b s established st)
    (hs : skips established st t = false) (hready : b.isReady established st t = false) :
    ∃ u, Awaits b.side s established t u ∧ st.typeOf? established u = none := by
  obtain ⟨hfinal, hnone⟩ := skips_eq_false_iff.1 hs
  cases hr : s.record? t with
  | none =>
    rw [h.isReady_eq hnone, isReady, store_unwritten, hr] at hready
    cases hready
  | some r =>
    have hnot : ¬b.isReady established st t = true := by simp [hready]
    rw [h.isReady_eq hnone, isReady_iff hr] at hnot
    simp only [not_forall, Option.not_isSome_iff_eq_none, typeOf?_unwritten,
      store_unwritten] at hnot
    obtain ⟨u, hu, hut, hmem, hunknown⟩ := hnot
    exact ⟨u, ⟨hut, hmem, hfinal, (skips_eq_false_iff.1 (h.skips_of_unknown hunknown)).1, r, hr,
      targets_relations b.side r ▸ hu⟩, hunknown⟩

end Timely

/-! ## Stuck targets stay stuck -/

section Unsettled

variable (hnull : ∀ t ty, established.typeOf? t = some ty → ty.isNull = false)

include hnull

theorem typeOf?_of_not_final (h : established.isFinal t = false) :
    established.typeOf? t = none := by
  cases ht : established.typeOf? t with
  | none => rfl
  | some ty =>
    simp only [Answers.isFinal_iff.2 ⟨ty, ht, hnull t ty ht⟩] at h
    cases h

theorem Timely.attempt (h : Timely b s established st) (t : Target) :
    Timely b s established (b.attempt established .waiting st t).1 := by
  rcases attempt_cases b established .waiting st t with
    ⟨-, heq⟩ | ⟨hs, hready, hcase⟩
  · rw [heq]
    exact h
  · obtain ⟨hfinal, hnone⟩ := skips_eq_false_iff.1 hs
    have hinformed := h.informed hnone (hready rfl)
    rcases hcase with ⟨-, heq⟩ | ⟨ty, hty, heq⟩
    · rw [heq]
      exact hinformed
    · rw [heq]
      refine hinformed.answer ?_ (typeOf?_of_not_final hnull hfinal) ?_ ?_
      · simpa using hnone
      · simpa using hready rfl
      · rw [verdict?, record?_informed_informed]
        exact hty

theorem Stuck.attempt (h : b.Stuck established st t) (u : Target) :
    b.Stuck established (b.attempt established patience st u).1 t := by
  rcases eq_or_ne t u with rfl | hut
  · rw [attempt_of_none h.skips (fun _ => h.ready) h.verdict]
    exact stuck_informed h.skips h.ready h.verdict
  · rcases attempt_cases b established patience st u with
      ⟨-, heq⟩ | ⟨hs, -, ⟨-, heq⟩ | ⟨ty, hv, heq⟩⟩
    · rw [heq]
      exact h
    · rw [heq]
      refine h.congr targets_informed (record?_informed_of_ne hut) (by simp) ?_
      exact fun _ _ v _ => typeOf?_congr found_informed v
    · obtain ⟨hfinal, hnone⟩ := skips_eq_false_iff.1 hs
      have hunknown := (typeOf?_of_unanswered hnone).trans (typeOf?_of_not_final hnull hfinal)
      have hmem : u ∈ st.store.targets := by
        obtain ⟨r, hr, -⟩ := Option.bind_eq_some_iff.1 hv
        simp only [record?_informed_self] at hr
        obtain ⟨r', hr', -⟩ := Option.map_eq_some_iff.1 hr
        exact Store.mem_targets_of_record? hr'
      rw [heq]
      refine h.congr targets_informed (record?_informed_of_ne hut) ?_ ?_
      · simp [answer, TargetMap.get?_insert, hut]
      · intro r hr v hvr
        -- A ready target was bounded by targets with types, and `u` had none.
        have hvu : v ≠ u := by
          rintro rfl
          have hready := h.ready
          simp only [isReady_iff hr] at hready
          have hsome := hready v hvr (Ne.symm hut) hmem
          simp only [hunknown] at hsome
          cases hsome
        rw [typeOf?_answer, if_neg hvu, typeOf?_congr found_informed]

/-- A stuck target is not answered in the rest of the run. -/
theorem Stuck.not_answered (h : b.Stuck established st t) (ts : List Target) :
    (b.rounds established ts patience st).found.get? t = none := by
  have hstuck : b.Stuck established (b.rounds established ts patience st) t :=
    rounds_induction (P := fun st => b.Stuck established st t) h
      fun _ _ u _ hst => Stuck.attempt hnull hst u
  exact (skips_eq_false_iff.1 hstuck.skips).2

/-! ## Pressing in vain -/

/-- Attempts at targets that are passed over or stuck answer nothing. -/
theorem sweepFirst_of_stuck {ts : List Target}
    (h : ∀ t ∈ ts, skips established st t = true ∨ b.Stuck established st t) :
    (sweepFirst (b.attempt established .pressing) ts st).2 = false ∧
      (sweepFirst (b.attempt established .pressing) ts st).1.found = st.found := by
  induction ts generalizing st with
  | nil => exact ⟨rfl, rfl⟩
  | cons t ts ih =>
    have hrest : ∀ u ∈ ts, skips established st u = true ∨ b.Stuck established st u :=
      fun u hu => h u (.tail _ hu)
    rcases h t (.head _) with hs | hstuck
    · rw [sweepFirst, attempt_of_skips hs]
      exact ih hrest
    · have heq : b.attempt established .pressing st t = (b.informed established st t, false) :=
        attempt_of_none hstuck.skips (fun h => by cases h) hstuck.verdict
      have hrest' : ∀ u ∈ ts, skips established (b.informed established st t) u = true ∨
          b.Stuck established (b.informed established st t) u := by
        intro u hu
        rcases hrest u hu with hs | hstuck
        · exact .inl (by simpa [skips] using hs)
        · have hstep : b.Stuck established (b.attempt established .pressing st t).1 u :=
            hstuck.attempt hnull t
          simp only [heq] at hstep
          exact .inr hstep
      rw [sweepFirst, heq]
      obtain ⟨hflag, hfound⟩ := ih hrest'
      exact ⟨hflag, hfound.trans found_informed⟩

theorem round_of_stuck {ts : List Target}
    (h : ∀ t ∈ ts, skips established st t = true ∨ b.Stuck established st t) :
    (b.round established ts .pressing st).2 = false ∧
      (b.round established ts .pressing st).1.found = st.found :=
  sweepFirst_of_stuck hnull h

/-- Where every target stalls and those waited for will be answered, none is waiting. -/
theorem stuck_of_stalls
    (hacyclic : ∀ t, ¬Relation.TransGen (Awaits b.side s established) t t)
    (htimely : Timely b s established st) (hstalls : ∀ t ∈ s.targets, b.Stalls established st t)
    (hanswers : ∀ t u, Awaits b.side s established t u →
      ((b.rounds established s.targets patience st).found.typeOf? u).isSome)
    (ht : t ∈ s.targets) : skips established st t = true ∨ b.Stuck established st t := by
  refine awaits_induction hacyclic
    (P := fun t => skips established st t = true ∨ b.Stuck established st t) (fun t ht ih => ?_) ht
  rcases hstalls t ht with hs | hready | hstuck
  · exact .inl hs
  · cases hs : skips established st t with
    | true => exact .inl rfl
    | false =>
      -- What `t` waits for is stuck, yet it has an answer in the end.
      obtain ⟨u, hawaits, hunknown⟩ := htimely.exists_awaited hs hready
      have hanswer := hanswers t u hawaits
      rcases ih u hawaits with hskips | hstuck
      · simp only [htimely.skips_of_unknown hunknown] at hskips
        cases hskips
      · simp only [Answers.typeOf?, hstuck.not_answered hnull] at hanswer
        cases hanswer
  · exact .inr hstuck

/-! ## The run -/

theorem found_rounds_of_stuck {ts : List Target}
    (h : ∀ t ∈ ts, skips established st t = true ∨ b.Stuck established st t) :
    (b.rounds established ts .pressing st).found = st.found := by
  obtain ⟨hflag, hfound⟩ := round_of_stuck hnull h
  rw [rounds_of_exhausted hflag, hfound]

/-- Where a run of waiting attempts ends that answers all that is waited for: each target has
    been passed over or is stuck. The invariant `P` is whatever waiting attempts keep. -/
theorem exists_settled {P : Solving → Prop}
    (hacyclic : ∀ t, ¬Relation.TransGen (Awaits b.side s established) t t) (hstart : P ⟨s, ∅⟩)
    (h : ∀ st, ∀ t ∈ s.targets, Timely b s established st → P st →
      P (b.attempt established .waiting st t).1)
    (hanswers : ∀ t u, Awaits b.side s established t u →
      ((b.solve s established).2.typeOf? u).isSome) :
    ∃ st, Timely b s established st ∧ P st ∧ (b.solve s established).2 = st.found ∧
      ∀ t ∈ s.targets, skips established st t = true ∨ b.Stuck established st t := by
  have hkeep : ∀ st, ∀ t ∈ s.targets, Timely b s established st ∧ P st →
      Timely b s established (b.attempt established .waiting st t).1 ∧
        P (b.attempt established .waiting st t).1 := fun st t ht hst =>
    ⟨hst.1.attempt hnull t, h st t ht hst.1 hst.2⟩
  obtain ⟨st, ⟨htimely, hP⟩, hstalls, heq⟩ :=
    exists_pressing (P := fun st => Timely b s established st ∧ P st)
      ⟨Timely.start b s established, hstart⟩ hkeep
  have hfound : (b.solve s established).2 =
      (b.rounds established s.targets .pressing st).found := congrArg Solving.found heq
  have hstuck : ∀ t ∈ s.targets, skips established st t = true ∨ b.Stuck established st t :=
    fun t ht => stuck_of_stalls hnull hacyclic htimely hstalls
      (fun t u hu => hfound ▸ hanswers t u hu) ht
  exact ⟨st, htimely, hP, hfound.trans (found_rounds_of_stuck hnull hstuck), hstuck⟩

end Unsettled

end Bounds

end QualifiedInference
