-- SUMMARY: Independence of answers over acyclic bounds from the order of the targets.
import QualifiedInference.Proofs.Bounds.Acyclic
/-!
# The order of declaration

Where the bounds are acyclic and a run answers all that is waited for, its answers are the one
solution of the equations that the records state: every answer is the verdict on its target, given
the others. The order in which the targets are declared has no part in these equations, so it has
none in the answers.
-/

namespace QualifiedInference

theorem Awaits.of_records {side : Side} {s s' : Store} {established : Answers} {t u : Target}
    (h : Awaits side s' established t u) (hsame : ∀ t, s'.record? t = s.record? t) :
    Awaits side s established t u := by
  obtain ⟨hut, hmem, ht, hu, r, hr, hur⟩ := h
  exact ⟨hut, (Store.mem_targets_congr hsame).1 hmem, ht, hu, r, hsame t ▸ hr, hur⟩

namespace Bounds

open Solving

variable {b : Bounds} {s s' : Store} {established : Answers} {st st' : Solving} {t : Target}

/-- Only unsettled targets of the store are answered. -/
theorem Timely.get?_of_settled (h : Timely b s established st)
    (ht : established.isFinal t = true ∨ t ∉ s.targets) :
    st.found.get? t = none := by
  cases hget : st.found.get? t with
  | none => rfl
  | some a =>
    obtain ⟨hmem, hnone, -⟩ := h.answered hget
    rcases ht with hfinal | hnot
    · obtain ⟨ty, hty, -⟩ := Answers.isFinal_iff.1 hfinal
      simp only [hnone] at hty
      cases hty
    · exact absurd hmem hnot

theorem Timely.typeOf?_of_settled (h : Timely b s established st)
    (h' : Timely b s' established st') (hmem : ∀ {u}, u ∈ s'.targets ↔ u ∈ s.targets)
    (ht : established.isFinal t = true ∨ t ∉ s.targets) :
    st'.typeOf? established t = st.typeOf? established t := by
  rw [typeOf?_of_unanswered (h.get?_of_settled ht),
    typeOf?_of_unanswered (h'.get?_of_settled (ht.imp_right (mt hmem.1)))]

theorem Timely.get?_eq_some_iff (h : Timely b s established st) {a : Answer} :
    st.found.get? t = some a ↔ established.typeOf? t = none ∧
      ∃ ty, a = .type ty ∧ st.typeOf? established t = some ty := by
  constructor
  · intro ht
    obtain ⟨-, hnone, -, ty, rfl, -⟩ := h.answered ht
    exact ⟨hnone, ty, rfl, typeOf?_of_answered (Answers.typeOf?_eq_some.2 ht)⟩
  · rintro ⟨hnone, ty, rfl, hty⟩
    rwa [Solving.typeOf?, hnone, Option.or_none, Answers.typeOf?_eq_some] at hty

section Unsettled

variable (hnull : ∀ t ty, established.typeOf? t = some ty → ty.isNull = false)

include hnull

/-- Where a run of waiting attempts has passed over an unsettled target or is stuck on it, the
    target has the type that the verdict on it gives. -/
theorem Timely.typeOf?_eq_verdictFrom? (h : Timely b s established st)
    (ht : established.isFinal t = false)
    (hdone : skips established st t = true ∨ b.Stuck established st t) :
    st.typeOf? established t = b.verdictFrom? s (st.typeOf? established) t := by
  have hunestablished := typeOf?_of_not_final hnull ht
  cases hget : st.found.get? t with
  | none =>
    have hstuck : b.Stuck established st t :=
      hdone.resolve_left (by simp [skips_eq_false_iff.2 ⟨ht, hget⟩])
    rw [typeOf?_of_unanswered hget, hunestablished, ← h.verdict?_eq hget hunestablished,
      hstuck.verdict]
  | some a =>
    obtain ⟨-, -, -, ty, rfl, hty⟩ := h.answered hget
    rw [hty, typeOf?_of_answered (Answers.typeOf?_eq_some.2 hget)]

/-- Two runs over the same records agree, when the first one has answered all that is waited for
    and every target stalls in the second one. -/
theorem Timely.agree (h : Timely b s established st) (h' : Timely b s' established st')
    (hsame : ∀ t, s'.record? t = s.record? t)
    (hacyclic : ∀ t, ¬Relation.TransGen (Awaits b.side s established) t t)
    (hdone : ∀ t ∈ s.targets, skips established st t = true ∨ b.Stuck established st t)
    (hanswers : ∀ t u, Awaits b.side s established t u → (st.found.typeOf? u).isSome)
    (hstalls : ∀ t ∈ s'.targets, b.Stalls established st' t) (ht : t ∈ s.targets) :
    st'.typeOf? established t = st.typeOf? established t ∧
      (skips established st' t = true ∨ b.Stuck established st' t) := by
  have hmem : ∀ {u}, u ∈ s'.targets ↔ u ∈ s.targets := Store.mem_targets_congr hsame
  refine awaits_induction hacyclic (P := fun t => st'.typeOf? established t =
    st.typeOf? established t ∧ (skips established st' t = true ∨ b.Stuck established st' t))
    (fun t ht ih => ?_) ht
  have hdone' : skips established st' t = true ∨ b.Stuck established st' t := by
    rcases hstalls t (hmem.2 ht) with hs | hready | hstuck
    · exact .inl hs
    · cases hs : skips established st' t with
      | true => exact .inl rfl
      | false =>
        -- What `t` waits for has no type in the second run, so it has none in the first.
        obtain ⟨u, hawaits, hunknown⟩ := h'.exists_awaited hs hready
        have hawaits' := hawaits.of_records hsame
        obtain ⟨ty, hty⟩ := Option.isSome_iff_exists.1 (hanswers t u hawaits')
        rw [(ih u hawaits').1, typeOf?_of_answered hty] at hunknown
        cases hunknown
    · exact .inr hstuck
  refine ⟨?_, hdone'⟩
  cases hfinal : established.isFinal t with
  | true => exact h.typeOf?_of_settled h' hmem (.inl hfinal)
  | false =>
    rw [h.typeOf?_eq_verdictFrom? hnull hfinal (hdone t ht),
      h'.typeOf?_eq_verdictFrom? hnull hfinal hdone']
    refine verdictFrom?_congr (hsame t) fun r hr u hu hut => ?_
    by_cases hus : u ∈ s.targets
    · cases hufinal : established.isFinal u with
      | true => exact h.typeOf?_of_settled h' hmem (.inl hufinal)
      | false =>
        exact (ih u ⟨hut, hus, hfinal, hufinal, r, hr, targets_relations b.side r ▸ hu⟩).1
    · exact h.typeOf?_of_settled h' hmem (.inr hus)

end Unsettled

/-- Where the bounds are acyclic and the run answers all that is waited for, the answers do not
    depend on the order in which the targets are declared. -/
theorem solve_reordered (b : Bounds) (s s' : Store) (established : Answers)
    (hnull : ∀ t ty, established.typeOf? t = some ty → ty.isNull = false)
    (hacyclic : ∀ t, ¬Relation.TransGen (Awaits b.side s established) t t)
    (hanswers : ∀ t u, Awaits b.side s established t u →
      ((b.solve s established).2.typeOf? u).isSome)
    (hsame : ∀ t, s'.record? t = s.record? t) (t : Target) :
    (b.solve s' established).2.get? t = (b.solve s established).2.get? t := by
  obtain ⟨st, htimely, -, hfound, hdone⟩ :=
    exists_settled (P := fun _ => True) hnull hacyclic trivial (fun _ _ _ _ _ => trivial) hanswers
  obtain ⟨st', htimely', hstalls, hrounds⟩ :=
    exists_pressing (P := Timely b s' established) (.start b s' established)
      fun _ t _ hst => hst.attempt hnull t
  have hagree : ∀ u ∈ s.targets, st'.typeOf? established u = st.typeOf? established u ∧
      (skips established st' u = true ∨ b.Stuck established st' u) := fun u hu =>
    htimely.agree hnull htimely' hsame hacyclic hdone (hfound ▸ hanswers) hstalls hu
  have hmem : ∀ {u}, u ∈ s'.targets ↔ u ∈ s.targets := Store.mem_targets_congr hsame
  have hfound' : (b.solve s' established).2 = st'.found :=
    (congrArg Solving.found hrounds).trans
      (found_rounds_of_stuck hnull fun u hu => (hagree u (hmem.1 hu)).2)
  have hknown : st'.typeOf? established t = st.typeOf? established t := by
    by_cases ht : t ∈ s.targets
    · exact (hagree t ht).1
    · exact htimely.typeOf?_of_settled htimely' hmem (.inr ht)
  rw [hfound, hfound']
  apply Option.ext
  intro a
  rw [htimely.get?_eq_some_iff, htimely'.get?_eq_some_iff, hknown]

/-- The targets of `waitingStore` declared the other way round. -/
def reversedStore : Store :=
  ((Store.new 0 [⟨2⟩, ⟨1⟩]).write ⟨1⟩ fun r =>
    (r.relateTarget .supertype ⟨2⟩ ∅).relateTarget .supertype ⟨3⟩ ∅).write ⟨2⟩ fun r =>
      r.relateType .supertype (.named "Integer" [] ∅) ∅

theorem record?_reversedStore (t : Target) : reversedStore.record? t = waitingStore.record? t := by
  have hnew : ∀ t, (Store.new 0 [⟨2⟩, ⟨1⟩]).record? t = (Store.new 0 [⟨1⟩, ⟨2⟩]).record? t := by
    intro t
    simp only [Store.record?, Store.new, TargetMap.ofList, List.map_cons, List.map_nil,
      List.foldl_cons, List.foldl_nil, TargetMap.get?_insert]
    by_cases h₁ : t = ⟨1⟩
    · subst h₁
      rfl
    · simp [h₁]
  simp only [reversedStore, waitingStore, Store.record?_write, hnew]

theorem solve_reordered_numbers :
    (∀ t, (numberBounds.solve reversedStore floatEstablished).2.get? t =
      (numberBounds.solve waitingStore floatEstablished).2.get? t) ∧
    reversedStore.targets ≠ waitingStore.targets :=
  ⟨solve_reordered numberBounds waitingStore reversedStore floatEstablished
    (fun _ _ h => (isPlain_floatEstablished h).isNull) acyclic_waitingStore
    (fun _ _ h => answers_waitingStore h) record?_reversedStore, by decide +kernel⟩

end Bounds

end QualifiedInference
