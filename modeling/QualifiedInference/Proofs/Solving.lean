-- SUMMARY: Learning types from related targets, and what passes over targets keep.
import Mathlib.Data.List.Basic
import QualifiedInference.Strategy
/-!
# What a run learns, and what its passes keep

To learn is to relate a target to the types known for its related targets. It changes one
record, and of that record only the types in one relation; to learn the same once more changes
nothing. What every attempt keeps, a pass over the targets keeps.
-/

namespace QualifiedInference

namespace Record

/-- The targets in one relation to the target of a record. -/
def targetsIn (r : Record) : Relation → OrderedMap Target Qualifiers
  | .equal => r.equalities.targets
  | .subtype => r.subtypes.targets
  | .supertype => r.supertypes.targets

/-- The types in one relation to the target of a record. -/
def typesIn (r : Record) : Relation → OrderedMap Ty Qualifiers
  | .equal => r.equalities.types
  | .subtype => r.subtypes.types
  | .supertype => r.supertypes.types

/-- Relates the target to types, one after the other. -/
def relateTypes (r : Record) (rel : Relation) (types : List (Ty × Qualifiers)) : Record :=
  types.foldl (fun r e => r.relateType rel e.1 e.2) r

theorem target_relateType (r : Record) (rel : Relation) (ty : Ty) (tops : Qualifiers) :
    (r.relateType rel ty tops).target = r.target := by
  cases rel <;> rfl

theorem targetsIn_relateType (r : Record) (rel rel' : Relation) (ty : Ty) (tops : Qualifiers) :
    (r.relateType rel ty tops).targetsIn rel' = r.targetsIn rel' := by
  cases rel <;> cases rel' <;> rfl

theorem typesIn_relateType (r : Record) (rel : Relation) (ty : Ty) (tops : Qualifiers) :
    (r.relateType rel ty tops).typesIn rel =
      (r.typesIn rel).upsert ty fun old => (old.getD ∅).union tops := by
  cases rel <;> rfl

theorem typesIn_relateType_of_ne {rel rel' : Relation} (h : rel' ≠ rel) (r : Record) (ty : Ty)
    (tops : Qualifiers) : (r.relateType rel ty tops).typesIn rel' = r.typesIn rel' := by
  cases rel <;> cases rel' <;> first | rfl | exact absurd rfl h

@[simp] theorem targetsIn_relateTypes (r : Record) (rel rel' : Relation)
    (types : List (Ty × Qualifiers)) :
    (r.relateTypes rel types).targetsIn rel' = r.targetsIn rel' := by
  induction types generalizing r with
  | nil => rfl
  | cons e types ih => exact (ih _).trans (targetsIn_relateType r rel rel' e.1 e.2)

theorem mem_typesIn_relateTypes {r : Record} {rel : Relation} {types : List (Ty × Qualifiers)}
    {ty : Ty} :
    ty ∈ (r.relateTypes rel types).typesIn rel ↔ ty ∈ r.typesIn rel ∨ ty ∈ types.map Prod.fst := by
  induction types generalizing r with
  | nil => simp [relateTypes]
  | cons e types ih =>
    have hstep : ty ∈ (r.relateType rel e.1 e.2).typesIn rel ↔ ty = e.1 ∨ ty ∈ r.typesIn rel := by
      rw [← OrderedMap.isSome_get?, ← OrderedMap.isSome_get?, typesIn_relateType,
        OrderedMap.get?_upsert]
      split
      · next h => simp [h]
      · next h => simp [h]
    rw [show r.relateTypes rel (e :: types) = (r.relateType rel e.1 e.2).relateTypes rel types
      from rfl, ih, hstep, List.map_cons, List.mem_cons]
    grind

/-! ## Learning once more -/

/-- The type is recorded in the relation, in all the hierarchies given with it. -/
def Knows (r : Record) (rel : Relation) (e : Ty × Qualifiers) : Prop :=
  ∃ tops, (r.typesIn rel).get? e.1 = some tops ∧ ∀ q ∈ e.2, q ∈ tops

variable {r : Record} {rel : Relation}

theorem Knows.relateType {e : Ty × Qualifiers} (h : r.Knows rel e) (ty : Ty) (tops : Qualifiers) :
    (r.relateType rel ty tops).Knows rel e := by
  obtain ⟨known, hget, hsub⟩ := h
  unfold Knows
  simp only [typesIn_relateType, OrderedMap.get?_upsert]
  split
  · next heq =>
    simp only [heq] at hget
    refine ⟨known.union tops, by rw [hget]; rfl, ?_⟩
    exact fun q hq => Qualifiers.mem_union.2 (.inl (hsub q hq))
  · exact ⟨known, hget, hsub⟩

theorem knows_relateType (r : Record) (rel : Relation) (e : Ty × Qualifiers) :
    (r.relateType rel e.1 e.2).Knows rel e := by
  unfold Knows
  rw [typesIn_relateType, OrderedMap.get?_upsert, if_pos rfl]
  exact ⟨_, rfl, fun q hq => Qualifiers.mem_union.2 (.inr hq)⟩

theorem relateType_of_knows {e : Ty × Qualifiers} (h : r.Knows rel e) :
    r.relateType rel e.1 e.2 = r := by
  obtain ⟨known, hget, hsub⟩ := h
  have hsame : ((r.typesIn rel).upsert e.1 fun old => (old.getD ∅).union e.2) = r.typesIn rel :=
    OrderedMap.upsert_of_get? hget (Qualifiers.union_of_subset hsub)
  obtain ⟨t, equalities, subtypes, supertypes⟩ := r
  cases rel with
  | equal =>
    exact congrArg (fun types => mk t { equalities with types } subtypes supertypes) hsame
  | subtype =>
    exact congrArg (fun types => mk t equalities { subtypes with types } supertypes) hsame
  | supertype =>
    exact congrArg (fun types => mk t equalities subtypes { supertypes with types }) hsame

theorem Knows.relateTypes {e : Ty × Qualifiers} (h : r.Knows rel e)
    (types : List (Ty × Qualifiers)) : (r.relateTypes rel types).Knows rel e := by
  induction types generalizing r with
  | nil => exact h
  | cons e' types ih => exact ih (h.relateType e'.1 e'.2)

theorem knows_relateTypes {types : List (Ty × Qualifiers)} {e : Ty × Qualifiers} (he : e ∈ types) :
    (r.relateTypes rel types).Knows rel e := by
  induction types generalizing r with
  | nil => cases he
  | cons e' types ih =>
    rcases List.mem_cons.1 he with rfl | he
    · exact (knows_relateType r rel e).relateTypes types
    · exact ih he

theorem relateTypes_of_knows {types : List (Ty × Qualifiers)} (h : ∀ e ∈ types, r.Knows rel e) :
    r.relateTypes rel types = r := by
  induction types with
  | nil => rfl
  | cons e types ih =>
    have hstep : r.relateTypes rel (e :: types) =
        (r.relateType rel e.1 e.2).relateTypes rel types := rfl
    rw [hstep, relateType_of_knows (h e (.head _))]
    exact ih fun e' he' => h e' (.tail _ he')

theorem relateTypes_relateTypes (r : Record) (rel : Relation) (types : List (Ty × Qualifiers)) :
    (r.relateTypes rel types).relateTypes rel types = r.relateTypes rel types :=
  relateTypes_of_knows fun _ => knows_relateTypes

end Record

/-! ## Stores -/

namespace Store

theorem contains_iff {s : Store} {t : Target} : s.contains t = true ↔ t ∈ s.targets :=
  s.slots.isSome_get? t

theorem mem_targets_of_record? {s : Store} {t : Target} {r : Record} (h : s.record? t = some r) :
    t ∈ s.targets := by
  obtain ⟨slot, hslot, -⟩ := Option.map_eq_some_iff.1 h
  exact TargetMap.mem_of_get? hslot

theorem isSome_record? (s : Store) (t : Target) : (s.record? t).isSome ↔ t ∈ s.targets := by
  rw [record?, Option.isSome_map]
  exact s.slots.isSome_get? t

theorem mem_targets_congr {s s' : Store} (h : ∀ t, s'.record? t = s.record? t) {t : Target} :
    t ∈ s'.targets ↔ t ∈ s.targets := by
  rw [← isSome_record?, ← isSome_record?, h t]

theorem targets_write (s : Store) (t : Target) (f : Record → Record) :
    (s.write t f).targets = s.targets := by
  unfold write targets TargetMap.modify
  dsimp only
  split
  · rfl
  · next h => rw [TargetMap.keys_insert, if_pos (TargetMap.mem_of_get? h)]

theorem record?_write (s : Store) (t u : Target) (f : Record → Record) :
    (s.write t f).record? u = if u = t then (s.record? t).map f else s.record? u := by
  unfold write record? TargetMap.modify
  dsimp only
  split
  · next h =>
    split
    · next hut => rw [hut, h]; rfl
    · rfl
  · next h =>
    simp only [TargetMap.get?_insert]
    split
    · rw [h]; rfl
    · rfl

theorem targets_addTypes (s : Store) (t : Target) (rel : Relation)
    (types : List (Ty × Qualifiers)) : (s.addTypes t rel types).targets = s.targets := by
  induction types generalizing s with
  | nil => rfl
  | cons e types ih => exact (ih _).trans (targets_write s t _)

theorem record?_addTypes (s : Store) (t u : Target) (rel : Relation)
    (types : List (Ty × Qualifiers)) :
    (s.addTypes t rel types).record? u =
      if u = t then (s.record? t).map (·.relateTypes rel types) else s.record? u := by
  induction types generalizing s with
  | nil =>
    split
    · next h => rw [h]; exact Option.map_id'.symm ▸ rfl
    · rfl
  | cons e types ih =>
    apply (ih (s.write t fun r => r.relateType rel e.1 e.2)).trans
    rw [record?_write, if_pos rfl, Option.map_map, record?_write]
    split <;> rfl

end Store

/-! ## Runs -/

namespace Solving

theorem evidence_congr {st st' : Solving} {established established' : Answers}
    {related : OrderedMap Target Qualifiers}
    (h : ∀ u ∈ related.keys, st.typeOf? established u = st'.typeOf? established' u) :
    st.evidence established related = st'.evidence established' related := by
  apply List.filterMap_congr
  intro e he
  rw [h e.1 (List.mem_map_of_mem he)]

theorem mem_evidence {st : Solving} {established : Answers}
    {related : OrderedMap Target Qualifiers} {ty : Ty} :
    ty ∈ (st.evidence established related).map Prod.fst ↔
      ∃ u ∈ related.keys, st.typeOf? established u = some ty := by
  simp only [evidence, OrderedMap.keys, List.mem_map, List.mem_filterMap, Option.map_eq_some_iff]
  constructor
  · rintro ⟨e, ⟨e', he', ty', hty', rfl⟩, rfl⟩
    exact ⟨e'.1, ⟨e', he', rfl⟩, hty'⟩
  · rintro ⟨u, ⟨e, he, rfl⟩, hty⟩
    exact ⟨(ty, e.2), ⟨e, he, ty, hty, rfl⟩, rfl⟩

theorem evidence_eq_nil_iff {st : Solving} {established : Answers}
    {related : OrderedMap Target Qualifiers} :
    st.evidence established related = [] ↔
      ∀ u ∈ related.keys, st.typeOf? established u = none := by
  simp only [evidence, OrderedMap.keys, List.filterMap_eq_nil_iff, Option.map_eq_none_iff,
    List.forall_mem_map]

section Learn

variable (st : Solving) (established : Answers) (t : Target) (rel : Relation)
  (related : Record → OrderedMap Target Qualifiers)

@[simp] theorem targets_learn :
    (st.learn established t rel related).store.targets = st.store.targets := by
  unfold learn
  split
  · rfl
  · exact Store.targets_addTypes ..

theorem record?_learn_self :
    (st.learn established t rel related).store.record? t =
      (st.store.record? t).map fun r =>
        r.relateTypes rel (st.evidence established (related r)) := by
  unfold learn
  split
  · next h => rw [h]; rfl
  · next r h => rw [Store.record?_addTypes, if_pos rfl, h]; rfl

theorem record?_learn_of_ne {u : Target} (h : u ≠ t) :
    (st.learn established t rel related).store.record? u = st.store.record? u := by
  unfold learn
  split
  · rfl
  · rw [Store.record?_addTypes, if_neg h]

end Learn

/-- Answers with what `verdict` makes of the record of the target, if it makes anything. -/
def answerBy (verdict : Record → Option Ty) (t : Target) (st : Solving) : Solving × Bool :=
  match (st.store.record? t).bind verdict with
  | none => (st, false)
  | some ty => (st.answer t ty, true)

/-! ## Passes -/

section Passes

variable {attempt : Attempt} {ts : List Target} {st : Solving}

theorem sweep_cons (attempt : Attempt) (t : Target) (ts : List Target) (st : Solving) :
    sweep attempt (t :: ts) st = ((sweep attempt ts (attempt st t).1).1,
      (attempt st t).2 || (sweep attempt ts (attempt st t).1).2) := rfl

theorem sweep_induction {P : Solving → Prop} (hst : P st)
    (h : ∀ st, ∀ t ∈ ts, P st → P (attempt st t).1) : P (sweep attempt ts st).1 := by
  induction ts generalizing st with
  | nil => exact hst
  | cons t ts ih =>
    exact ih (h st t (.head _) hst) fun st u hu => h st u (.tail _ hu)

theorem sweepFirst_induction {P : Solving → Prop} (hst : P st)
    (h : ∀ st, ∀ t ∈ ts, P st → P (attempt st t).1) : P (sweepFirst attempt ts st).1 := by
  induction ts generalizing st with
  | nil => exact hst
  | cons t ts ih =>
    have hstep := h st t (.head _) hst
    unfold sweepFirst
    split
    · next heq => rwa [heq] at hstep
    · next heq =>
      simp only [heq] at hstep
      exact ih hstep fun st u hu => h st u (.tail _ hu)

theorem found_sweep (honest : attempt.Honest) (h : (sweep attempt ts st).2 = false) :
    (sweep attempt ts st).1.found = st.found := by
  induction ts generalizing st with
  | nil => rfl
  | cons t ts ih =>
    simp only [sweep, Bool.or_eq_false_iff] at h
    rcases honest st t with ⟨-, hfound⟩ | ⟨htrue, -⟩
    · exact (ih h.2).trans hfound
    · simp only [h.1] at htrue
      cases htrue

/-- What attempts in vain keep, a sweep in vain keeps. -/
theorem sweep_induction_of_vain {P : Solving → Prop} (hst : P st)
    (hvain : (sweep attempt ts st).2 = false)
    (h : ∀ st, ∀ t ∈ ts, (attempt st t).2 = false → P st → P (attempt st t).1) :
    P (sweep attempt ts st).1 := by
  induction ts generalizing st with
  | nil => exact hst
  | cons t ts ih =>
    simp only [sweep, Bool.or_eq_false_iff] at hvain
    exact ih (h st t (.head _) hvain.1 hst) hvain.2 fun st u hu => h st u (.tail _ hu)

theorem sweep_concat (attempt : Attempt) (ts : List Target) (t : Target) (st : Solving) :
    sweep attempt (ts ++ [t]) st = ((attempt (sweep attempt ts st).1 t).1,
      (sweep attempt ts st).2 || (attempt (sweep attempt ts st).1 t).2) := by
  induction ts generalizing st with
  | nil => exact Prod.ext rfl (Bool.or_comm ..)
  | cons u ts ih =>
    rw [List.cons_append, sweep_cons, sweep_cons, ih]
    exact Prod.ext rfl (Bool.or_assoc ..).symm

theorem sweepFirst_cons_of_answered {t : Target} (h : (attempt st t).2 = true) :
    sweepFirst attempt (t :: ts) st = ((attempt st t).1, true) := by
  simp only [sweepFirst]
  split
  · next heq => rw [heq]
  · next heq => rw [heq] at h; cases h

theorem sweepFirst_cons_of_vain {t : Target} (h : (attempt st t).2 = false) :
    sweepFirst attempt (t :: ts) st = sweepFirst attempt ts (attempt st t).1 := by
  simp only [sweepFirst]
  split
  · next heq => rw [heq] at h; cases h
  · next heq => rw [heq]

/-- A pass that stops at the first answer goes on behind targets tried in vain. -/
theorem sweepFirst_append_of_vain {ts' : List Target} (h : (sweep attempt ts st).2 = false) :
    sweepFirst attempt (ts ++ ts') st = sweepFirst attempt ts' (sweep attempt ts st).1 := by
  induction ts generalizing st with
  | nil => rfl
  | cons t ts ih =>
    simp only [sweep, Bool.or_eq_false_iff] at h
    rw [List.cons_append, sweepFirst_cons_of_vain h.1, ih h.2]
    rfl

/-- In vain, such a pass tries every target, as a sweep does. -/
theorem sweepFirst_of_vain (h : (sweepFirst attempt ts st).2 = false) :
    (sweep attempt ts st).2 = false ∧ sweepFirst attempt ts st = sweep attempt ts st := by
  induction ts generalizing st with
  | nil => exact ⟨rfl, rfl⟩
  | cons t ts ih =>
    cases hflag : (attempt st t).2 with
    | true =>
      rw [sweepFirst_cons_of_answered hflag] at h
      cases h
    | false =>
      rw [sweepFirst_cons_of_vain hflag] at h ⊢
      rw [sweep_cons, hflag, Bool.false_or]
      exact ih h

/-! ## Two runs side by side

Attempts on states in the relation `R` have outcomes in `R`, provided that the first outcome
satisfies `C`. An outcome satisfies `C` only where the state before did, so for a whole pass it
is enough that the last state of the first run does.
-/

section SideBySide

variable {R : Solving → Solving → Prop} {C : Solving → Prop} {st' : Solving}
  (hback : ∀ st t, C (attempt st t).1 → C st)
  (hstep : ∀ st st' t, R st st' → C (attempt st t).1 →
    (attempt st' t).2 = (attempt st t).2 ∧ R (attempt st t).1 (attempt st' t).1)

include hback hstep

theorem sweep_sideBySide (hst : R st st') (hC : C (sweep attempt ts st).1) :
    (sweep attempt ts st').2 = (sweep attempt ts st).2 ∧
      R (sweep attempt ts st).1 (sweep attempt ts st').1 := by
  induction ts generalizing st st' with
  | nil => exact ⟨rfl, hst⟩
  | cons t ts ih =>
    simp only [sweep_cons] at hC ⊢
    have hC' : C (attempt st t).1 :=
      sweep_induction (P := fun last => C last → C (attempt st t).1) id
        (fun st u _ h hlast => h (hback st u hlast)) hC
    obtain ⟨hflag, hnext⟩ := hstep st st' t hst hC'
    obtain ⟨hmore, hlast⟩ := ih hnext hC
    exact ⟨by rw [hflag, hmore], hlast⟩

theorem sweepFirst_sideBySide (hst : R st st') (hC : C (sweepFirst attempt ts st).1) :
    (sweepFirst attempt ts st').2 = (sweepFirst attempt ts st).2 ∧
      R (sweepFirst attempt ts st).1 (sweepFirst attempt ts st').1 := by
  induction ts generalizing st st' with
  | nil => exact ⟨rfl, hst⟩
  | cons t ts ih =>
    cases hflag : (attempt st t).2 with
    | true =>
      simp only [sweepFirst_cons_of_answered hflag] at hC ⊢
      obtain ⟨hsame, hnext⟩ := hstep st st' t hst hC
      simp only [sweepFirst_cons_of_answered (hsame.trans hflag)]
      exact ⟨trivial, hnext⟩
    | false =>
      simp only [sweepFirst_cons_of_vain hflag] at hC ⊢
      have hC' : C (attempt st t).1 :=
        sweepFirst_induction (P := fun last => C last → C (attempt st t).1) id
          (fun st u _ h hlast => h (hback st u hlast)) hC
      obtain ⟨hsame, hnext⟩ := hstep st st' t hst hC'
      simp only [sweepFirst_cons_of_vain (hsame.trans hflag)]
      exact ih hnext hC

end SideBySide

end Passes

end Solving

end QualifiedInference
