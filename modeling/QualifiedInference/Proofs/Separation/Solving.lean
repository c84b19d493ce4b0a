-- SUMMARY: A run on a whole store as seen from a part of its targets.
import QualifiedInference.Proofs.Answers.Restriction
import QualifiedInference.Proofs.Solving
/-!
# Runs on a whole and on a part

Where no relation crosses from the kept targets to the others, a run on the whole store shows a
run on the part that is kept: the same records and the same answers for the kept targets. What
either run does to a kept target keeps this, and so does what the run on the whole does to
another one.
-/

namespace QualifiedInference

/-- A target and what it is related to are both kept or both not, as far as they are in the
    store. -/
def Store.Separated (s : Store) (keep : Target → Bool) : Prop :=
  ∀ {t u r} (rel : Relation), s.record? t = some r → u ∈ r.targetsIn rel → u ∈ s.targets →
    keep t = keep u

namespace Solving

/-- The part `p` is what the whole `w` has for the kept targets among `all`. Only these have
    answers, and nothing leads across. -/
structure Shows (keep : Target → Bool) (established : Answers) (all : List Target)
    (w p : Solving) : Prop where
  whole : w.store.targets = all
  part : p.store.targets = all.filter keep
  record : ∀ {t}, keep t = true → p.store.record? t = w.store.record? t
  found : p.found = w.found.restrict keep
  separated : w.store.Separated keep
  splits : Answers.Splits keep w.found
  within : ∀ {t}, t ∈ w.found → t ∈ all
  established : ∀ {t}, t ∈ established → t ∈ all

variable {keep : Target → Bool} {established : Answers} {all : List Target} {w p : Solving}
  {t u : Target} {ty : Ty}

theorem record?_learn_targetsIn {rel : Relation} {related : Record → OrderedMap Target Qualifiers}
    {r : Record} (h : (w.learn established t rel related).store.record? u = some r) :
    ∃ r₀, w.store.record? u = some r₀ ∧ ∀ rel', r.targetsIn rel' = r₀.targetsIn rel' := by
  rcases eq_or_ne u t with rfl | hut
  · simp only [record?_learn_self] at h
    obtain ⟨r₀, hr₀, rfl⟩ := Option.map_eq_some_iff.1 h
    exact ⟨r₀, hr₀, fun rel' => Record.targetsIn_relateTypes r₀ rel rel' _⟩
  · simp only [record?_learn_of_ne _ _ _ _ _ hut] at h
    exact ⟨r, h, fun _ => rfl⟩

theorem shows_start {s : Store} (hs : s.Separated keep)
    (hest : ∀ {t}, t ∈ established → t ∈ s.targets) :
    Shows keep established s.targets ⟨s, ∅⟩ ⟨s.restrict keep, ∅⟩ where
  whole := rfl
  part := s.targets_restrict keep
  record := s.record?_restrict
  found := rfl
  separated := hs
  splits := nofun
  within := nofun
  established := hest

namespace Shows

theorem get?_found (h : Shows keep established all w p) (hk : keep t = true) :
    p.found.get? t = w.found.get? t := by
  rw [h.found, TargetMap.get?_restrict_of_keep _ hk]

theorem typeOf?_found (h : Shows keep established all w p) (hk : keep t = true) :
    p.found.typeOf? t = w.found.typeOf? t := by
  rw [Answers.typeOf?, h.get?_found hk]
  rfl

/-- Both runs know the same types for whatever a kept target is related to. -/
theorem known (h : Shows keep established all w p) {rel : Relation} {r : Record}
    (hk : keep t = true) (hr : w.store.record? t = some r) (hu : u ∈ r.targetsIn rel) :
    p.typeOf? (established.restrict keep) u = w.typeOf? established u := by
  cases hku : keep u with
  | true =>
    rw [Solving.typeOf?, h.typeOf?_found hku, Answers.typeOf?_restrict established hku]
    rfl
  | false =>
    -- What is not kept is not in the store, so nobody has a type for it.
    have hmem : u ∉ all := fun hmem => by
      simp only [h.separated rel hr hu (h.whole ▸ hmem), hku] at hk
      cases hk
    have hfound : w.found.typeOf? u = none :=
      Answers.typeOf?_of_not_mem fun hu => hmem (h.within hu)
    have hestablished : established.typeOf? u = none :=
      Answers.typeOf?_of_not_mem fun hu => hmem (h.established hu)
    rw [Solving.typeOf?, Solving.typeOf?, h.found, Answers.typeOf?_restrict_of_not_keep _ hku,
      Answers.typeOf?_restrict_of_not_keep _ hku, hfound, hestablished]

/-! ## Learning and answering -/

theorem separated_learn (h : w.store.Separated keep) (t : Target) (rel : Relation)
    (related : Record → OrderedMap Target Qualifiers) :
    (w.learn established t rel related).store.Separated keep := by
  intro u v r rel' hr hv hmem
  obtain ⟨r₀, hr₀, htargets⟩ := record?_learn_targetsIn hr
  simp only [htargets] at hv
  simp only [targets_learn] at hmem
  exact h rel' hr₀ hv hmem

theorem learn_other (h : Shows keep established all w p) (hk : keep t = false) (rel : Relation)
    (related : Record → OrderedMap Target Qualifiers) :
    Shows keep established all (w.learn established t rel related) p where
  whole := by simp [h.whole]
  part := h.part
  record := fun {u} hu => by
    have hut : u ≠ t := by
      rintro rfl
      simp only [hk] at hu
      cases hu
    rw [record?_learn_of_ne _ _ _ _ _ hut, h.record hu]
  found := by simp [h.found]
  separated := separated_learn h.separated t rel related
  splits := by simpa using h.splits
  within := by
    intro u hu
    simp only [found_learn] at hu
    exact h.within hu
  established := h.established

theorem learn (h : Shows keep established all w p) (hk : keep t = true) (rel : Relation) :
    Shows keep established all (w.learn established t rel (·.targetsIn rel))
      (p.learn (established.restrict keep) t rel (·.targetsIn rel)) where
  whole := by simp [h.whole]
  part := by simp [h.part]
  record := fun {u} hu => by
    rcases eq_or_ne u t with rfl | hut
    · rw [record?_learn_self, record?_learn_self, h.record hu]
      cases hr : w.store.record? u with
      | none => rfl
      | some r =>
        rw [Option.map_some, Option.map_some, evidence_congr fun v hv => h.known hk hr hv]
    · rw [record?_learn_of_ne _ _ _ _ _ hut, record?_learn_of_ne _ _ _ _ _ hut, h.record hu]
  found := by simp [h.found]
  separated := separated_learn h.separated t rel _
  splits := by simpa using h.splits
  within := by
    intro u hu
    simp only [found_learn] at hu
    exact h.within hu
  established := h.established

/-- An answer that leads nowhere across `keep`. -/
def Stays (keep : Target → Bool) (t : Target) (a : Answer) : Prop :=
  ∀ q extra, a = .alias q extra → keep t = keep q

theorem splits_insert (h : Answers.Splits keep w.found) {a : Answer} (ha : Stays keep t a) :
    Answers.Splits keep (w.found.insert t a) := by
  intro u q extra hu
  simp only [TargetMap.get?_insert] at hu
  split at hu
  · next hut =>
    cases hu
    rw [hut]
    exact ha q extra rfl
  · exact h u q extra hu

theorem within_insert (h : Shows keep established all w p) (ht : t ∈ w.store.targets) (a : Answer)
    (hu : u ∈ w.found.insert t a) : u ∈ all := by
  simp only [← TargetMap.isSome_get?, TargetMap.get?_insert] at hu
  split at hu
  · next hut => rwa [hut, ← h.whole]
  · exact h.within ((TargetMap.isSome_get? _ _).1 hu)

theorem insert_other (h : Shows keep established all w p) (hk : keep t = false)
    (ht : t ∈ w.store.targets) {a : Answer} (ha : Stays keep t a) :
    Shows keep established all { w with found := w.found.insert t a } p where
  whole := h.whole
  part := h.part
  record := h.record
  found := by rw [h.found, TargetMap.restrict_insert_of_not_keep _ _ hk]
  separated := h.separated
  splits := splits_insert h.splits ha
  within := h.within_insert ht a
  established := h.established

theorem insert (h : Shows keep established all w p) (hk : keep t = true) (ht : t ∈ w.store.targets)
    {a : Answer} (ha : Stays keep t a) :
    Shows keep established all { w with found := w.found.insert t a }
      { p with found := p.found.insert t a } where
  whole := h.whole
  part := h.part
  record := h.record
  found := by rw [h.found, TargetMap.restrict_insert_of_keep _ _ hk]
  separated := h.separated
  splits := splits_insert h.splits ha
  within := h.within_insert ht a
  established := h.established

end Shows

/-! ## Attempts and sweeps -/

/-- The end of an attempt: `t` is answered with the type that its record gives, if any. -/
def conclude (typeFor? : Record → Option Ty) (t : Target) (st : Solving) : Solving × Bool :=
  match (st.store.record? t).bind typeFor? with
  | none => (st, false)
  | some ty => (st.answer t ty, true)

namespace Shows

theorem conclude (h : Shows keep established all w p) (hk : keep t = true)
    (typeFor? : Record → Option Ty) :
    (conclude typeFor? t p).2 = (conclude typeFor? t w).2 ∧
      Shows keep established all (conclude typeFor? t w).1 (conclude typeFor? t p).1 := by
  unfold Solving.conclude
  rw [h.record hk]
  cases hty : (w.store.record? t).bind typeFor? with
  | none => exact ⟨rfl, h⟩
  | some ty =>
    obtain ⟨r, hr, -⟩ := Option.bind_eq_some_iff.1 hty
    exact ⟨rfl, h.insert hk (Store.mem_targets_of_record? hr) nofun⟩

theorem conclude_other (h : Shows keep established all w p) (hk : keep t = false)
    (typeFor? : Record → Option Ty) :
    Shows keep established all (Solving.conclude typeFor? t w).1 p := by
  unfold Solving.conclude
  cases hty : (w.store.record? t).bind typeFor? with
  | none => exact h
  | some ty =>
    obtain ⟨r, hr, -⟩ := Option.bind_eq_some_iff.1 hty
    exact h.insert_other hk (Store.mem_targets_of_record? hr) nofun

end Shows

/-- Attempts on the whole and on the part that answer the same kept targets alike. -/
structure InStep (keep : Target → Bool) (established : Answers) (all : List Target)
    (whole part : Attempt) : Prop where
  kept : ∀ {w p t}, Shows keep established all w p → keep t = true →
    (part p t).2 = (whole w t).2 ∧ Shows keep established all (whole w t).1 (part p t).1
  other : ∀ {w p t}, Shows keep established all w p → keep t = false →
    Shows keep established all (whole w t).1 p

/-- A sweep over all targets shows a sweep over those that are kept, and says at least as often
    that it answered. -/
theorem InStep.sweep {whole part : Attempt} (hstep : InStep keep established all whole part)
    (h : Shows keep established all w p) (ts : List Target) :
    Shows keep established all (sweep whole ts w).1 (sweep part (ts.filter keep) p).1 ∧
      ((sweep part (ts.filter keep) p).2 = true → (sweep whole ts w).2 = true) := by
  induction ts generalizing w p with
  | nil => exact ⟨h, id⟩
  | cons t ts ih =>
    cases hk : keep t with
    | true =>
      obtain ⟨hflag, hnext⟩ := hstep.kept h hk
      obtain ⟨hrest, hmore⟩ := ih hnext
      rw [List.filter_cons_of_pos hk]
      refine ⟨hrest, fun hsome => ?_⟩
      simp only [Solving.sweep, Bool.or_eq_true, hflag] at hsome
      simp only [Solving.sweep, Bool.or_eq_true]
      exact hsome.imp_right hmore
    | false =>
      obtain ⟨hrest, hmore⟩ := ih (hstep.other h hk)
      rw [List.filter_cons_of_neg (by simp [hk])]
      refine ⟨hrest, fun hsome => ?_⟩
      simp only [Solving.sweep, Bool.or_eq_true]
      exact .inr (hmore hsome)

end Solving

/-- On the part that is kept a strategy finds what it finds on the whole for the kept targets. -/
structure Strategy.Separates (strategy : Strategy) (keep : Target → Bool) (s : Store)
    (established : Answers) : Prop where
  part : (strategy.solve (s.restrict keep) (established.restrict keep)).2 =
    (strategy.solve s established).2.restrict keep
  splits : Answers.Splits keep (strategy.solve s established).2
  within : ∀ {t}, t ∈ (strategy.solve s established).2 → t ∈ s.targets

end QualifiedInference
