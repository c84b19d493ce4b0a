-- SUMMARY: Attempts at a bounded target, and the ways in which they pass it over.
import QualifiedInference.Proofs.Enrichment
/-!
# Attempts to solve bounds

An attempt passes its target over, or records what is known of the targets that bound it and
takes the verdict of the record. A target is stuck when it is ready, all that is known is
recorded and the verdict is still out. A waiting sweep that answers nothing leaves every target
passed over, not ready or stuck.
-/

namespace QualifiedInference

namespace Bounds

open Solving

variable (b : Bounds) (established : Answers)

theorem targets_relations (side : Side) (r : Record) :
    (side.relations r).targets = r.targetsIn side.relation := by
  cases side <;> rfl

theorem types_relations (side : Side) (r : Record) :
    (side.relations r).types = r.typesIn side.relation := by
  cases side <;> rfl

/-- The target has a final type, or an answer of this run. -/
def skips (st : Solving) (t : Target) : Bool := established.isFinal t || st.found.contains t

/-- The run once the types known for the targets that bound `t` are recorded. -/
def informed (st : Solving) (t : Target) : Solving :=
  st.learn established t b.side.relation fun r => (b.side.relations r).targets

/-- The type that an attempt would answer `t` with. -/
def verdict? (st : Solving) (t : Target) : Option Ty :=
  ((b.informed established st t).store.record? t).bind b.typeFor?

variable {b established} {patience : Patience} {st st' : Solving} {t u : Target}

theorem skips_eq_false_iff :
    skips established st t = false ↔ established.isFinal t = false ∧ st.found.get? t = none := by
  simp [skips, TargetMap.contains]

theorem typeOf?_congr (h : st'.found = st.found) (u : Target) :
    st'.typeOf? established u = st.typeOf? established u := by
  rw [Solving.typeOf?, h]
  rfl

theorem typeOf?_of_answered {ty : Ty} (h : st.found.typeOf? t = some ty) :
    st.typeOf? established t = some ty := by
  rw [Solving.typeOf?, h]
  rfl

theorem typeOf?_of_unanswered (h : st.found.get? t = none) :
    st.typeOf? established t = established.typeOf? t := by
  rw [Solving.typeOf?, Answers.typeOf?, h]
  rfl

theorem typeOf?_answer {ty : Ty} : (st.answer t ty).typeOf? established u =
    if u = t then some ty else st.typeOf? established u := by
  simp only [Solving.typeOf?, answer, Answers.typeOf?_insert]
  split <;> rfl

/-! ## Being informed -/

@[simp] theorem found_informed : (b.informed established st t).found = st.found :=
  found_learn ..

@[simp] theorem typeOf?_informed :
    (b.informed established st t).typeOf? established u = st.typeOf? established u :=
  typeOf?_congr found_informed u

@[simp] theorem targets_informed :
    (b.informed established st t).store.targets = st.store.targets :=
  targets_learn ..

theorem record?_informed_of_ne (h : u ≠ t) :
    (b.informed established st t).store.record? u = st.store.record? u :=
  record?_learn_of_ne st established t b.side.relation _ h

theorem record?_informed_self :
    (b.informed established st t).store.record? t = (st.store.record? t).map fun r =>
      r.relateTypes b.side.relation
        (st.evidence established (r.targetsIn b.side.relation)) := by
  simp only [informed, record?_learn_self, targets_relations]

theorem record?_informed_of_some {r : Record} (h : st.store.record? t = some r) :
    (b.informed established st t).store.record? t = some (r.relateTypes b.side.relation
      (st.evidence established (r.targetsIn b.side.relation))) := by
  rw [record?_informed_self, h]
  rfl

/-- What an informed record holds depends on the record and the types known for the targets
    that bound its target. -/
theorem record?_informed_congr {established' : Answers}
    (hrec : st'.store.record? t = st.store.record? t)
    (hknown : ∀ r, st.store.record? t = some r → ∀ u ∈ (r.targetsIn b.side.relation).keys,
      st'.typeOf? established' u = st.typeOf? established u) :
    (b.informed established' st' t).store.record? t =
      (b.informed established st t).store.record? t := by
  rw [record?_informed_self, record?_informed_self, hrec]
  cases h : st.store.record? t with
  | none => rfl
  | some r => rw [Option.map_some, Option.map_some, evidence_congr (hknown r h)]

/-- To be informed twice is to be informed once. -/
theorem record?_informed_informed :
    (b.informed established (b.informed established st t) t).store.record? t =
      (b.informed established st t).store.record? t := by
  have hevidence : ∀ related, (b.informed established st t).evidence established related =
      st.evidence established related := fun _ =>
    evidence_congr fun u _ => typeOf?_congr found_informed u
  simp only [record?_informed_self]
  cases st.store.record? t with
  | none => rfl
  | some r =>
    simp only [Option.map_some, hevidence, Record.targetsIn_relateTypes,
      Record.relateTypes_relateTypes]

/-! ## The cases of an attempt -/

theorem attempt_of_skips (h : skips established st t = true) :
    b.attempt established patience st t = (st, false) := if_pos h

theorem attempt_of_not_ready (h : b.isReady established st t = false) :
    b.attempt established .waiting st t = (st, false) := by
  unfold attempt
  split
  · rfl
  · simp [h]

theorem attempt_of_tried (hs : skips established st t = false)
    (hp : patience = .waiting → b.isReady established st t = true) :
    b.attempt established patience st t =
      match b.verdict? established st t with
      | none => (b.informed established st t, false)
      | some ty => ((b.informed established st t).answer t ty, true) := by
  have hwait : (patience == .waiting && !b.isReady established st t) = false := by
    cases patience with
    | waiting => rw [hp rfl]; rfl
    | pressing => rfl
  unfold attempt
  rw [if_neg (Bool.not_eq_true _ ▸ hs), if_neg (Bool.not_eq_true _ ▸ hwait)]
  rfl

theorem attempt_of_none (hs : skips established st t = false)
    (hp : patience = .waiting → b.isReady established st t = true)
    (hv : b.verdict? established st t = none) :
    b.attempt established patience st t = (b.informed established st t, false) := by
  rw [attempt_of_tried hs hp, hv]

theorem attempt_of_some {ty : Ty} (hs : skips established st t = false)
    (hp : patience = .waiting → b.isReady established st t = true)
    (hv : b.verdict? established st t = some ty) :
    b.attempt established patience st t = ((b.informed established st t).answer t ty, true) := by
  rw [attempt_of_tried hs hp, hv]

/-- Every attempt passes its target over, fails on what it learned, or answers. -/
theorem attempt_cases (b : Bounds) (established : Answers) (patience : Patience) (st : Solving)
    (t : Target) :
    ((skips established st t = true ∨
        patience = .waiting ∧ b.isReady established st t = false) ∧
      b.attempt established patience st t = (st, false)) ∨
    (skips established st t = false ∧
      (patience = .waiting → b.isReady established st t = true) ∧
      (b.verdict? established st t = none ∧
          b.attempt established patience st t = (b.informed established st t, false) ∨
        ∃ ty, b.verdict? established st t = some ty ∧
          b.attempt established patience st t =
            ((b.informed established st t).answer t ty, true))) := by
  cases hs : skips established st t with
  | true => exact .inl ⟨.inl rfl, attempt_of_skips hs⟩
  | false =>
    by_cases hp : patience = .waiting ∧ b.isReady established st t = false
    · obtain ⟨rfl, hready⟩ := hp
      exact .inl ⟨.inr ⟨rfl, hready⟩, attempt_of_not_ready hready⟩
    · have hp' : patience = .waiting → b.isReady established st t = true := fun h =>
        Bool.not_eq_false _ ▸ fun hready => hp ⟨h, hready⟩
      refine .inr ⟨rfl, hp', ?_⟩
      cases hv : b.verdict? established st t with
      | none => exact .inl ⟨rfl, attempt_of_none hs hp' hv⟩
      | some ty => exact .inr ⟨ty, rfl, attempt_of_some hs hp' hv⟩

theorem targets_attempt :
    (b.attempt established patience st t).1.store.targets = st.store.targets := by
  rcases attempt_cases b established patience st t with ⟨-, h⟩ | ⟨-, -, ⟨-, h⟩ | ⟨ty, -, h⟩⟩
  · rw [h]
  · rw [h]; exact targets_informed
  · rw [h]; exact targets_informed

theorem record?_attempt_of_ne (hne : u ≠ t) :
    (b.attempt established patience st t).1.store.record? u = st.store.record? u := by
  rcases attempt_cases b established patience st t with ⟨-, h⟩ | ⟨-, -, ⟨-, h⟩ | ⟨ty, -, h⟩⟩
  · rw [h]
  · rw [h]; exact record?_informed_of_ne hne
  · rw [h]; exact record?_informed_of_ne hne

/-! ## Readiness -/

theorem isReady_iff {r : Record} (h : st.store.record? t = some r) :
    b.isReady established st t = true ↔ ∀ u ∈ (r.targetsIn b.side.relation).keys, u ≠ t →
      u ∈ st.store.targets → (st.typeOf? established u).isSome := by
  unfold isReady
  rw [h]
  simp only [targets_relations, List.all_eq_true, Bool.or_eq_true, beq_iff_eq, Bool.not_eq_true',
    ← Store.contains_iff]
  apply forall₂_congr
  intro u _
  cases st.store.contains u <;> simp [or_iff_not_imp_left]

theorem isReady_congr {established' : Answers} (htargets : st'.store.targets = st.store.targets)
    (hrec : st'.store.record? t = st.store.record? t)
    (hknown : ∀ r, st.store.record? t = some r → ∀ u ∈ (r.targetsIn b.side.relation).keys,
      st'.typeOf? established' u = st.typeOf? established u) :
    b.isReady established' st' t = b.isReady established st t := by
  cases h : st.store.record? t with
  | none => rw [h] at hrec; simp only [isReady, h, hrec]
  | some r =>
    rw [Bool.eq_iff_iff, isReady_iff h, isReady_iff (hrec.trans h), htargets]
    apply forall₂_congr
    intro u hu
    rw [hknown r h u hu]

/-- Readiness stays when more becomes known. -/
theorem isReady_mono (h : b.isReady established st t = true)
    (htargets : st'.store.targets = st.store.targets)
    (hrec : st'.store.record? t = st.store.record? t)
    (hknown : ∀ u, (st.typeOf? established u).isSome → (st'.typeOf? established u).isSome) :
    b.isReady established st' t = true := by
  cases hr : st.store.record? t with
  | none => simp only [isReady, hrec, hr]
  | some r =>
    simp only [isReady_iff hr, isReady_iff (hrec.trans hr), htargets] at h ⊢
    exact fun u hu hut hmem => hknown u (h u hu hut hmem)

/-! ## Stuck targets -/

/-- All that is known is in the record of the target and gives no type. -/
structure Spent (b : Bounds) (established : Answers) (st : Solving) (t : Target) : Prop where
  informed : (b.informed established st t).store.record? t = st.store.record? t
  verdict : b.verdict? established st t = none

/-- A spent target that may be tried. -/
structure Stuck (b : Bounds) (established : Answers) (st : Solving) (t : Target) : Prop extends
    b.Spent established st t where
  skips : skips established st t = false
  ready : b.isReady established st t = true

/-- Passed over by waiting attempts, or stuck. -/
def Stalls (b : Bounds) (established : Answers) (st : Solving) (t : Target) : Prop :=
  Bounds.skips established st t = true ∨ b.isReady established st t = false ∨
    b.Stuck established st t

theorem Spent.congr (h : b.Spent established st t)
    (hrec : st'.store.record? t = st.store.record? t)
    (hknown : ∀ r, st.store.record? t = some r → ∀ u ∈ (r.targetsIn b.side.relation).keys,
      st'.typeOf? established u = st.typeOf? established u) : b.Spent established st' t := by
  have hinformed := record?_informed_congr hrec hknown
  constructor
  · rw [hinformed, h.informed, hrec]
  · rw [verdict?, hinformed]
    exact h.verdict

theorem Stuck.congr (h : b.Stuck established st t)
    (htargets : st'.store.targets = st.store.targets)
    (hrec : st'.store.record? t = st.store.record? t)
    (hfound : st'.found.get? t = st.found.get? t)
    (hknown : ∀ r, st.store.record? t = some r → ∀ u ∈ (r.targetsIn b.side.relation).keys,
      st'.typeOf? established u = st.typeOf? established u) : b.Stuck established st' t where
  toSpent := h.toSpent.congr hrec hknown
  skips := by
    rw [skips_eq_false_iff, hfound]
    exact skips_eq_false_iff.1 h.skips
  ready := by
    rw [isReady_congr htargets hrec hknown]
    exact h.ready

theorem Stalls.congr (h : b.Stalls established st t)
    (htargets : st'.store.targets = st.store.targets)
    (hrec : st'.store.record? t = st.store.record? t)
    (hfound : st'.found = st.found) : b.Stalls established st' t := by
  have hknown : ∀ u, st'.typeOf? established u = st.typeOf? established u := typeOf?_congr hfound
  rcases h with h | h | h
  · exact .inl (by rw [Bounds.skips, hfound]; exact h)
  · exact .inr (.inl (by rw [isReady_congr htargets hrec fun _ _ u _ => hknown u]; exact h))
  · exact .inr (.inr (h.congr htargets hrec (by rw [hfound]) fun _ _ u _ => hknown u))

/-- A target that has been tried in vain is spent. -/
theorem spent_informed (h : b.verdict? established st t = none) :
    b.Spent established (b.informed established st t) t :=
  ⟨record?_informed_informed, by rw [verdict?, record?_informed_informed]; exact h⟩

@[simp] theorem isReady_informed :
    b.isReady established (b.informed established st t) t = b.isReady established st t := by
  cases h : st.store.record? t with
  | none =>
    have hnone : (b.informed established st t).store.record? t = none := by
      rw [record?_informed_self, h]
      rfl
    rw [isReady, isReady, hnone, h]
  | some r =>
    rw [Bool.eq_iff_iff, isReady_iff h, isReady_iff (record?_informed_of_some h),
      Record.targetsIn_relateTypes, targets_informed]
    simp only [typeOf?_congr found_informed]

theorem stuck_informed (hs : skips established st t = false)
    (hready : b.isReady established st t = true) (hv : b.verdict? established st t = none) :
    b.Stuck established (b.informed established st t) t where
  toSpent := spent_informed hv
  skips := by
    simp only [skips_eq_false_iff, found_informed]
    exact skips_eq_false_iff.1 hs
  ready := by
    simpa using hready

theorem stalls_attempt (h : (b.attempt established .waiting st t).2 = false) :
    b.Stalls established (b.attempt established .waiting st t).1 t := by
  rcases attempt_cases b established .waiting st t with
    ⟨hpass, heq⟩ | ⟨hs, hready, ⟨hv, heq⟩ | ⟨ty, -, heq⟩⟩
  · rw [heq]
    rcases hpass with hs | ⟨-, hready⟩
    · exact .inl hs
    · exact .inr (.inl hready)
  · rw [heq]
    exact .inr (.inr (stuck_informed hs (hready rfl) hv))
  · simp only [heq] at h
    cases h

theorem targets_sweep {ts : List Target} :
    (sweep (b.attempt established patience) ts st).1.store.targets = st.store.targets :=
  sweep_induction (P := fun st' => st'.store.targets = st.store.targets) rfl
    fun _ _ _ hst => targets_attempt.trans hst

theorem record?_sweep_of_not_mem {ts : List Target} (h : t ∉ ts) :
    (sweep (b.attempt established patience) ts st).1.store.record? t = st.store.record? t := by
  apply sweep_induction (P := fun st' => st'.store.record? t = st.store.record? t) rfl
  intro st' u hu hst
  have hne : t ≠ u := by
    rintro rfl
    exact h hu
  exact (record?_attempt_of_ne hne).trans hst

/-- A waiting sweep that answers nothing shows that every target stalls. -/
theorem stalls_sweep {ts : List Target}
    (h : (sweep (b.attempt established .waiting) ts st).2 = false) (ht : t ∈ ts) :
    b.Stalls established (sweep (b.attempt established .waiting) ts st).1 t := by
  induction ts generalizing st with
  | nil => cases ht
  | cons u ts ih =>
    simp only [sweep_cons, Bool.or_eq_false_iff] at h ⊢
    by_cases hmem : t ∈ ts
    · exact ih h.2 hmem
    · obtain rfl : t = u := (List.mem_cons.1 ht).resolve_right hmem
      -- The rest of the sweep does not come back to the record of `t`.
      exact (stalls_attempt h.1).congr targets_sweep (record?_sweep_of_not_mem hmem)
        (found_sweep (b.honest_attempt established .waiting) h.2)

/-! ## Rounds -/

theorem round_induction (patience : Patience) {P : Solving → Prop} {ts : List Target} (hst : P st)
    (h : ∀ patience st, ∀ t ∈ ts, P st → P (b.attempt established patience st t).1) :
    P (b.round established ts patience st).1 := by
  cases patience with
  | waiting => exact sweep_induction hst (h .waiting)
  | pressing => exact sweepFirst_induction hst (h .pressing)

variable {ts : List Target}

theorem stalls_round (h : (b.round established ts .waiting st).2 = false) (ht : t ∈ ts) :
    b.Stalls established (b.round established ts .waiting st).1 t :=
  stalls_sweep h ht

theorem rounds_of_answered (h : (b.round established ts patience st).2 = true) :
    b.rounds established ts patience st =
      b.rounds established ts .waiting (b.round established ts patience st).1 := by
  rw [rounds]
  split
  · next heq => rw [heq]
  · next heq => rw [heq] at h; cases h

theorem rounds_of_idle (h : (b.round established ts .waiting st).2 = false) :
    b.rounds established ts .waiting st =
      b.rounds established ts .pressing (b.round established ts .waiting st).1 := by
  rw [rounds]
  split
  · next heq => rw [heq] at h; cases h
  · next heq => exact congrArg (b.rounds established ts .pressing) (congrArg Prod.fst heq).symm

theorem rounds_of_exhausted (h : (b.round established ts .pressing st).2 = false) :
    b.rounds established ts .pressing st = (b.round established ts .pressing st).1 := by
  rw [rounds]
  split
  · next heq => rw [heq] at h; cases h
  · next heq => exact (congrArg Prod.fst heq).symm

/-- What every attempt keeps is kept to the end. -/
theorem rounds_induction {P : Solving → Prop} (hst : P st)
    (h : ∀ patience st, ∀ t ∈ ts, P st → P (b.attempt established patience st t).1) :
    P (b.rounds established ts patience st) := by
  -- Along the recursion of `rounds`, whose every step is a round.
  induction patience, st using Bounds.rounds.induct b established ts with
  | case1 patience st st' heq ih =>
    have hround := round_induction patience hst h
    simp only [heq] at hround
    rw [rounds_of_answered (by rw [heq]), heq]
    exact ih hround
  | case2 st st' heq ih =>
    have hround := round_induction .waiting hst h
    simp only [heq] at hround
    rw [rounds_of_idle (by rw [heq]), heq]
    exact ih hround
  | case3 st st' heq =>
    have hround := round_induction .pressing hst h
    simp only [heq] at hround
    rw [rounds_of_exhausted (by rw [heq]), heq]
    exact hround

theorem targets_rounds :
    (b.rounds established ts patience st).store.targets = st.store.targets :=
  rounds_induction (P := fun st' => st'.store.targets = st.store.targets) rfl
    fun _ _ _ _ hst => targets_attempt.trans hst

/-- A run comes to its first pressing round by waiting attempts alone, and there every target
    stalls. -/
theorem exists_pressing {P : Solving → Prop} (hst : P st)
    (h : ∀ st, ∀ t ∈ ts, P st → P (b.attempt established .waiting st t).1) :
    ∃ st', P st' ∧ (∀ t ∈ ts, b.Stalls established st' t) ∧
      b.rounds established ts .waiting st = b.rounds established ts .pressing st' := by
  generalize hpatience : Patience.waiting = patience
  induction patience, st using Bounds.rounds.induct b established ts with
  | case1 patience st st' heq ih =>
    cases hpatience
    have hround : P (b.round established ts .waiting st).1 := sweep_induction hst h
    simp only [heq] at hround
    rw [rounds_of_answered (by rw [heq]), heq]
    exact ih hround rfl
  | case2 st st' heq _ =>
    have hvain : (b.round established ts .waiting st).2 = false := by rw [heq]
    exact ⟨_, sweep_induction hst h, fun t ht => stalls_round hvain ht, rounds_of_idle hvain⟩
  | case3 _ _ _ => cases hpatience

/-! ## Two runs side by side

As for single passes: what the attempts of two runs keep, the runs keep, as far as the last state of
the first one satisfies `C`.
-/

section SideBySide

variable {R : Solving → Solving → Prop} {C : Solving → Prop}
  (hback : ∀ patience st t, C (b.attempt established patience st t).1 → C st)
  (hstep : ∀ patience st st' t, R st st' → C (b.attempt established patience st t).1 →
    (b.attempt established patience st' t).2 = (b.attempt established patience st t).2 ∧
      R (b.attempt established patience st t).1 (b.attempt established patience st' t).1)

include hback hstep

theorem round_sideBySide (hst : R st st') (hC : C (b.round established ts patience st).1) :
    (b.round established ts patience st').2 = (b.round established ts patience st).2 ∧
      R (b.round established ts patience st).1 (b.round established ts patience st').1 := by
  cases patience with
  | waiting => exact sweep_sideBySide (hback .waiting) (hstep .waiting) hst hC
  | pressing => exact sweepFirst_sideBySide (hback .pressing) (hstep .pressing) hst hC

theorem rounds_sideBySide (hst : R st st') (hC : C (b.rounds established ts patience st)) :
    R (b.rounds established ts patience st) (b.rounds established ts patience st') := by
  have hlast : ∀ {patience st}, C (b.rounds established ts patience st) → C st := fun {_ st} =>
    rounds_induction (P := fun last => C last → C st) id fun patience st t _ h hnext =>
      h (hback patience st t hnext)
  -- Along the recursion of the first run, which the second one follows.
  induction patience, st using Bounds.rounds.induct b established ts generalizing st' with
  | case1 patience st next heq ih =>
    have hflag : (b.round established ts patience st).2 = true := by rw [heq]
    rw [rounds_of_answered hflag] at hC ⊢
    obtain ⟨hsame, hnext⟩ := round_sideBySide hback hstep hst (hlast hC)
    rw [rounds_of_answered (hsame.trans hflag)]
    simp only [heq] at hC hnext ⊢
    exact ih hnext hC
  | case2 st next heq ih =>
    have hflag : (b.round established ts .waiting st).2 = false := by rw [heq]
    rw [rounds_of_idle hflag] at hC ⊢
    obtain ⟨hsame, hnext⟩ := round_sideBySide hback hstep hst (hlast hC)
    rw [rounds_of_idle (hsame.trans hflag)]
    simp only [heq] at hC hnext ⊢
    exact ih hnext hC
  | case3 st next heq =>
    have hflag : (b.round established ts .pressing st).2 = false := by rw [heq]
    rw [rounds_of_exhausted hflag] at hC ⊢
    obtain ⟨hsame, hnext⟩ := round_sideBySide hback hstep hst hC
    rw [rounds_of_exhausted (hsame.trans hflag)]
    exact hnext

end SideBySide

end Bounds

end QualifiedInference
