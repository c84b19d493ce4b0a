-- SUMMARY: Assignments of names that solve a store, and the extremal ones among them.
import QualifiedInference.Proofs.Bounds.Attempt
import QualifiedInference.Proofs.NominalTypes
/-!
# Answers as extremal solutions

An assignment of names solves a store when each name lies on the right side of the bounds of its
target. The type that a record determines is extremal among the names on the right side of the
bounds in the record. An answer of a waiting attempt counts the names of all that bound it, so
the answers of a run stay a solution, and stay extremal among the solutions.
-/

namespace QualifiedInference

namespace Side

/-- `name` lies where a target with this bound may lie: above a lower bound, below an upper
    one. -/
def respects (side : Side) (d : NominalTypes) (name bound : String) : Bool :=
  match side with
  | lower => d.isSubtype bound name
  | upper => d.isSubtype name bound

variable {side : Side} {d : NominalTypes}

theorem respects_refl (name : String) : side.respects d name name = true := by
  cases side <;> exact d.isSubtype_refl name

theorem respects_trans {m n k : String} (h : side.respects d m n = true)
    (h' : side.respects d n k = true) : side.respects d m k = true := by
  cases side with
  | lower => exact d.isSubtype_trans h' h
  | upper => exact d.isSubtype_trans h h'

end Side

/-! ## Extremal types -/

/-- A plain type whose name respects the names of all `bounds`, and which every name that does
    so respects. -/
structure Extremal (side : Side) (d : NominalTypes) (bounds : List Ty) (ty : Ty) : Prop where
  plain : ty.IsPlain
  respects : ∀ {name}, ty.name? = some name → ∀ bty ∈ bounds, ∀ bound, bty.name? = some bound →
    side.respects d name bound = true
  extremal : ∀ {name}, ty.name? = some name → ∀ other,
    (∀ bty ∈ bounds, ∀ bound, bty.name? = some bound → side.respects d other bound = true) →
    side.respects d other name = true

namespace Extremal

variable {side : Side} {d : NominalTypes} {order : QualifierOrder}

theorem single {ty : Ty} (h : ty.IsPlain) : Extremal side d [ty] ty := by
  refine ⟨h, ?_, ?_⟩
  · rintro name hname bty (_ | ⟨_, ⟨⟩⟩) bound hbound
    simp only [hname] at hbound
    cases hbound
    exact Side.respects_refl name
  · intro name hname other hother
    exact hother ty (.head _) name hname

theorem combine {bounds : List Ty} {acc ty next : Ty} (h : Extremal side d bounds acc)
    (hnext : next.IsPlain) (hty : side.combineTypes? (d.typeOrder order) acc next = some ty) :
    Extremal side d (bounds ++ [next]) ty := by
  obtain ⟨m, hacc⟩ := h.plain.exists_name
  obtain ⟨n, hnext'⟩ := hnext.exists_name
  -- The join and the meet, told by the side alone.
  have hboth : ty.IsPlain ∧ ∀ k, ty.name? = some k → side.respects d k m = true ∧
      side.respects d k n = true ∧ ∀ x, side.respects d x m = true → side.respects d x n = true →
        side.respects d x k = true := by
    cases side with
    | lower =>
      obtain ⟨hplain, hlub⟩ := d.join?_of_isPlain h.plain hnext hty
      exact ⟨hplain, fun k hk => hlub m n k hacc hnext' hk⟩
    | upper =>
      obtain ⟨hplain, hglb⟩ := d.meet?_of_isPlain h.plain hnext hty
      exact ⟨hplain, fun k hk => hglb m n k hacc hnext' hk⟩
  refine ⟨hboth.1, ?_, ?_⟩
  · intro name hname bty hbty bound hbound
    obtain ⟨hkm, hkn, -⟩ := hboth.2 name hname
    rcases List.mem_append.1 hbty with hbty | hbty
    · exact Side.respects_trans hkm (h.respects hacc bty hbty bound hbound)
    · obtain rfl := List.mem_singleton.1 hbty
      simp only [hnext'] at hbound
      cases hbound
      exact hkn
  · intro name hname other hother
    refine (hboth.2 name hname).2.2 other ?_ ?_
    · exact h.extremal hacc other fun bty hbty => hother bty (List.mem_append_left _ hbty)
    · exact hother next (List.mem_append_right _ (.head _)) n hnext'

theorem foldlM {bounds rest : List Ty} {acc ty : Ty} (h : Extremal side d bounds acc)
    (hrest : ∀ next ∈ rest, next.IsPlain)
    (hty : rest.foldlM (side.combineTypes? (d.typeOrder order)) acc = some ty) :
    Extremal side d (bounds ++ rest) ty := by
  -- On the bounds still to combine; `acc` is extremal for those before them.
  induction rest generalizing bounds acc with
  | nil =>
    cases hty
    rwa [List.append_nil]
  | cons next rest ih =>
    simp only [List.foldlM_cons] at hty
    obtain ⟨acc', hacc', hty⟩ := Option.bind_eq_some_iff.1 hty
    have hstep := ih (h.combine (hrest next (.head _)) hacc')
      (fun x hx => hrest x (.tail _ hx)) hty
    rwa [List.append_assoc] at hstep

theorem overlay {bounds : List Ty} {ty : Ty} (h : Extremal side d bounds ty) (qs : Qualifiers) :
    Extremal side d bounds (ty.overlay qs) := by
  refine ⟨h.plain.overlay qs, ?_, ?_⟩
  · intro name hname
    exact h.respects (Ty.name?_overlay ty qs ▸ hname)
  · intro name hname
    exact h.extremal (Ty.name?_overlay ty qs ▸ hname)

/-- The type that plain bounds determine is extremal. -/
theorem of_typeFor? {b : Bounds} (hb : b.types = d.typeOrder order) {r : Record} {ty : Ty}
    (hplain : ∀ bty ∈ r.typesIn b.side.relation, bty.IsPlain) (hty : b.typeFor? r = some ty) :
    Extremal b.side d (r.typesIn b.side.relation).keys ty := by
  obtain ⟨shape, hshape, rfl⟩ := Option.map_eq_some_iff.1 hty
  refine overlay ?_ _
  simp only [Bounds.types_relations, hb] at hshape
  cases hkeys : (r.typesIn b.side.relation).keys with
  | nil => rw [hkeys] at hshape; cases hshape
  | cons first rest =>
    have hall : ∀ bty ∈ first :: rest, bty.IsPlain := fun bty hbty =>
      hplain bty (by rw [OrderedMap.mem_def, hkeys]; exact hbty)
    simp only [hkeys] at hshape
    exact foldlM (single (hall first (.head _))) (fun x hx => hall x (.tail _ hx)) hshape

end Extremal

/-! ## Solutions -/

/-- The name of the type of a target. -/
def Answers.nameOf? (r : Answers) (t : Target) : Option String := (r.typeOf? t).bind Ty.name?

/-- The established name of a target, or else the assigned one. -/
def nameUnder? (established : Answers) (names : Target → Option String) (t : Target) :
    Option String :=
  (established.nameOf? t).or (names t)

/-- Each assigned name respects the type bounds of its target and the names of the targets that
    bound it. -/
structure Solves (side : Side) (d : NominalTypes) (s : Store) (established : Answers)
    (names : Target → Option String) : Prop where
  types : ∀ {t name r}, names t = some name → s.record? t = some r →
    ∀ ty ∈ (side.relations r).types, ∀ bound, ty.name? = some bound →
      side.respects d name bound = true
  targets : ∀ {t name r}, names t = some name → s.record? t = some r →
    ∀ u ∈ (side.relations r).targets, ∀ bound, nameUnder? established names u = some bound →
      side.respects d name bound = true

namespace Bounds

open Solving

variable {b : Bounds} {d : NominalTypes} {s : Store} {established : Answers}
  {st : Solving} {t u : Target} {ty : Ty}

theorem nameOf?_answer {name : String} (h : ty.name? = some name) :
    (st.answer t ty).found.nameOf? u = if u = t then some name else st.found.nameOf? u := by
  simp only [Answers.nameOf?, answer, Answers.typeOf?_insert]
  split
  · exact h
  · rfl

/-- Where a run with plain types stands: its records hold the bounds of the store and types of
    targets that bound, its answers are plain and the names in them solve the store, extremal
    among all solutions. Every target that bounds an answered one has a type. -/
structure Sound (b : Bounds) (d : NominalTypes) (s : Store) (established : Answers)
    (st : Solving) : Prop where
  targets : st.store.targets = s.targets
  record : ∀ {t r}, st.store.record? t = some r → ∃ r₀, s.record? t = some r₀ ∧
    r.targetsIn b.side.relation = r₀.targetsIn b.side.relation ∧
    (∀ ty ∈ r₀.typesIn b.side.relation, ty ∈ r.typesIn b.side.relation) ∧
    ∀ ty ∈ r.typesIn b.side.relation, ty ∈ r₀.typesIn b.side.relation ∨
      ∃ u ∈ r₀.targetsIn b.side.relation, st.typeOf? established u = some ty
  answered : ∀ {t a}, st.found.get? t = some a → t ∈ s.targets ∧ established.typeOf? t = none ∧
    ∃ ty, a = .type ty ∧ ty.IsPlain
  bounded : ∀ {t r₀}, (st.found.get? t).isSome → s.record? t = some r₀ →
    ∀ u ∈ r₀.targetsIn b.side.relation, u ≠ t → u ∈ s.targets →
      (st.typeOf? established u).isSome
  solves : Solves b.side d s established st.found.nameOf?
  extremal : ∀ {names}, (∀ t, (st.found.nameOf? t).isSome → (names t).isSome) →
    Solves b.side d s established names → ∀ {t name other}, st.found.nameOf? t = some name →
      names t = some other → b.side.respects d other name = true

/-- `ty` is the answer to `t` that the record `r` gives: `t` is ready and has no type, `r` holds
    the types known for all that bound it, and `ty` is extremal for the types in `r`. -/
structure Answerable (b : Bounds) (d : NominalTypes) (established : Answers) (st : Solving)
    (t : Target) (r : Record) (ty : Ty) : Prop where
  unestablished : established.typeOf? t = none
  unanswered : st.found.get? t = none
  ready : b.isReady established st t = true
  record : st.store.record? t = some r
  learned : ∀ {u uty}, u ∈ r.targetsIn b.side.relation → st.typeOf? established u = some uty →
    uty ∈ r.typesIn b.side.relation
  extremal : Extremal b.side d (r.typesIn b.side.relation).keys ty

namespace Answerable

variable {r : Record}

theorem typeOf?_eq_none (h : Answerable b d established st t r ty) :
    st.typeOf? established t = none := by
  rw [Solving.typeOf?, Answers.typeOf?, h.unanswered, h.unestablished]
  rfl

/-- The answer leaves the types that are known as they are. -/
theorem typeOf?_answer_of_some (h : Answerable b d established st t r ty) {uty : Ty}
    (hu : st.typeOf? established u = some uty) :
    (st.answer t ty).typeOf? established u = some uty := by
  have hut : u ≠ t := by
    rintro rfl
    simp only [h.typeOf?_eq_none] at hu
    cases hu
  rw [typeOf?_answer, if_neg hut, hu]

theorem nameUnder?_answer (h : Answerable b d established st t r ty) {name : String}
    (hname : ty.name? = some name) (u : Target) :
    nameUnder? established (st.answer t ty).found.nameOf? u =
      if u = t then some name else nameUnder? established st.found.nameOf? u := by
  rw [nameUnder?, nameOf?_answer hname]
  split
  · next hut => rw [hut, Answers.nameOf?, h.unestablished]; rfl
  · rfl

end Answerable

namespace Sound

theorem start (b : Bounds) (d : NominalTypes) (s : Store) (established : Answers) :
    Sound b d s established ⟨s, ∅⟩ := by
  have hget : ∀ t, (∅ : Answers).get? t = none := fun t =>
    TargetMap.get?_eq_none_iff.2 List.not_mem_nil
  have hname : ∀ t, (∅ : Answers).nameOf? t = none := fun t => by
    rw [Answers.nameOf?, Answers.typeOf?_of_not_mem List.not_mem_nil]
    rfl
  refine ⟨rfl, fun {t r} h => ⟨r, h, rfl, fun _ => id, fun _ => Or.inl⟩, ?_, ?_, ⟨?_, ?_⟩, ?_⟩
  · intro t a h
    simp only [hget] at h
    cases h
  · intro t r₀ h
    simp only [hget] at h
    cases h
  · intro t name r h
    simp only [hname] at h
    cases h
  · intro t name r h
    simp only [hname] at h
    cases h
  · intro names _ _ t name other h
    simp only [hname] at h
    cases h

theorem typeOf?_found (h : Sound b d s established st) (hu : st.found.typeOf? u = some ty) :
    established.typeOf? u = none ∧ ty.IsPlain := by
  obtain ⟨-, hnone, ty', heq, hplain⟩ := h.answered (Answers.typeOf?_eq_some.1 hu)
  cases heq
  exact ⟨hnone, hplain⟩

/-- The name a target has under the answers is that of the type known for it. -/
theorem nameUnder?_found (h : Sound b d s established st) (u : Target) :
    nameUnder? established st.found.nameOf? u = (st.typeOf? established u).bind Ty.name? := by
  unfold nameUnder? Answers.nameOf? Solving.typeOf?
  cases hu : st.found.typeOf? u with
  | none => simp
  | some ty =>
    rw [(h.typeOf?_found hu).1]
    rfl

theorem isPlain_typesIn (h : Sound b d s established st)
    (hplain : ∀ t r, s.record? t = some r → ∀ ty ∈ (b.side.relations r).types, ty.IsPlain)
    (hestablished : ∀ t ty, established.typeOf? t = some ty → ty.IsPlain) {r : Record}
    (hr : st.store.record? t = some r) : ∀ ty ∈ r.typesIn b.side.relation, ty.IsPlain := by
  intro ty hty
  obtain ⟨r₀, hr₀, -, -, hback⟩ := h.record hr
  rcases hback ty hty with hown | ⟨u, -, hu⟩
  · exact hplain t r₀ hr₀ ty (types_relations b.side r₀ ▸ hown)
  · rcases Option.or_eq_some_iff.1 hu with hu | ⟨-, hu⟩
    · exact (h.typeOf?_found hu).2
    · exact hestablished u ty hu

/-- Being informed adds types of targets that bound to one record. -/
theorem informed (h : Sound b d s established st) (t : Target) :
    Sound b d s established (b.informed established st t) := by
  have hknown : ∀ u, (b.informed established st t).typeOf? established u =
      st.typeOf? established u := typeOf?_congr found_informed
  refine ⟨targets_informed.trans h.targets, ?_, ?_, ?_, ?_, ?_⟩
  · intro u r hr
    rcases eq_or_ne u t with rfl | hut
    · simp only [record?_informed_self] at hr
      obtain ⟨r', hr', rfl⟩ := Option.map_eq_some_iff.1 hr
      obtain ⟨r₀, hr₀, htargets, hforth, hback⟩ := h.record hr'
      refine ⟨r₀, hr₀, ?_, ?_, ?_⟩
      · rw [Record.targetsIn_relateTypes, htargets]
      · intro ty hty
        exact Record.mem_typesIn_relateTypes.2 (.inl (hforth ty hty))
      · intro ty hty
        simp only [hknown]
        rcases Record.mem_typesIn_relateTypes.1 hty with hty | hty
        · exact hback ty hty
        · simp only [mem_evidence, htargets] at hty
          exact .inr hty
    · simp only [record?_informed_of_ne hut] at hr
      simpa only [hknown] using h.record hr
  · intro u a hu
    simp only [found_informed] at hu
    exact h.answered hu
  · intro u r₀ hu
    simp only [found_informed] at hu
    simpa only [hknown] using h.bounded hu
  · simpa using h.solves
  · simp only [found_informed]
    exact h.extremal

section Answer

variable {r : Record}

/-- A name that a solution assigns respects all types in the record of its target: they are own
    bounds, or types of targets that bound it. -/
theorem respects_record (h : Sound b d s established st) (hr : st.store.record? t = some r)
    {names : Target → Option String}
    (hdomain : ∀ u, (st.found.nameOf? u).isSome → (names u).isSome)
    (hsolves : Solves b.side d s established names) {name : String} (hname : names t = some name) :
    ∀ bty ∈ r.typesIn b.side.relation, ∀ bound, bty.name? = some bound →
      b.side.respects d name bound = true := by
  intro bty hbty bound hbound
  obtain ⟨r₀, hr₀, -, -, hback⟩ := h.record hr
  rcases hback bty hbty with hown | ⟨u, hu, huty⟩
  · exact hsolves.types hname hr₀ bty (types_relations b.side r₀ ▸ hown) bound hbound
  · have hu' : u ∈ (b.side.relations r₀).targets := targets_relations b.side r₀ ▸ hu
    rcases Option.or_eq_some_iff.1 huty with hfound | ⟨-, hest⟩
    · -- What the solution assigns to `u` lies between the two names.
      have huname : st.found.nameOf? u = some bound := by
        rw [Answers.nameOf?, hfound]
        exact hbound
      obtain ⟨other, hother⟩ := Option.isSome_iff_exists.1 (hdomain u (by rw [huname]; rfl))
      have hunder : nameUnder? established names u = some other := by
        rw [nameUnder?, Answers.nameOf?, (h.typeOf?_found hfound).1]
        exact hother
      exact Side.respects_trans (hsolves.targets hname hr₀ u hu' other hunder)
        (h.extremal hdomain hsolves huname hother)
    · apply hsolves.targets hname hr₀ u hu' bound
      simp [nameUnder?, Answers.nameOf?, hest, hbound]

theorem solves_answer (h : Sound b d s established st)
    (ha : Answerable b d established st t r ty) :
    Solves b.side d s established (st.answer t ty).found.nameOf? := by
  obtain ⟨name, hname⟩ := ha.extremal.plain.exists_name
  obtain ⟨r₀, hr₀, htargets, hforth, -⟩ := h.record ha.record
  constructor
  · intro u uname r' hu hr' bty hbty bound hbound
    simp only [nameOf?_answer hname] at hu
    split at hu
    · next hut =>
      subst hut
      cases hu
      simp only [hr₀] at hr'
      cases hr'
      simp only [types_relations] at hbty
      exact ha.extremal.respects hname bty (hforth bty hbty) bound hbound
    · exact h.solves.types hu hr' bty hbty bound hbound
  · intro u uname r' hu hr' v hv bound hbound
    simp only [ha.nameUnder?_answer hname] at hbound
    simp only [nameOf?_answer hname] at hu
    simp only [targets_relations] at hv
    split at hu
    · next hut =>
      subst hut
      cases hu
      simp only [hr₀] at hr'
      cases hr'
      split at hbound
      · cases hbound
        exact Side.respects_refl name
      · simp only [h.nameUnder?_found] at hbound
        obtain ⟨vty, hvty, hbound⟩ := Option.bind_eq_some_iff.1 hbound
        exact ha.extremal.respects hname vty (ha.learned (htargets ▸ hv) hvty) bound hbound
    · next hut =>
      -- A target that bounds an answered one had a type, so it is not the one answered now.
      have hvt : v ≠ t := by
        rintro rfl
        obtain ⟨uty, huty, -⟩ := Option.bind_eq_some_iff.1 hu
        have hsome := h.bounded (by rw [Answers.typeOf?_eq_some.1 huty]; rfl) hr' v hv
          (Ne.symm hut) (Store.mem_targets_of_record? hr₀)
        simp only [ha.typeOf?_eq_none] at hsome
        cases hsome
      simp only [if_neg hvt] at hbound
      exact h.solves.targets hu hr' v (targets_relations b.side r' ▸ hv) bound hbound

/-- A ready target may take the type that its bounds and all targets that bound it give. -/
theorem answer (h : Sound b d s established st) (ha : Answerable b d established st t r ty) :
    Sound b d s established (st.answer t ty) := by
  obtain ⟨name, hname⟩ := ha.extremal.plain.exists_name
  obtain ⟨r₀, hr₀, htargets, -, -⟩ := h.record ha.record
  have hget : ∀ u, (st.answer t ty).found.get? u =
      if u = t then some (.type ty) else st.found.get? u := fun u => TargetMap.get?_insert ..
  refine ⟨h.targets, ?_, ?_, ?_, h.solves_answer ha, ?_⟩
  · intro u r' hr'
    obtain ⟨r₁, hr₁, htargets', hforth, hback⟩ := h.record hr'
    refine ⟨r₁, hr₁, htargets', hforth, fun uty huty => (hback uty huty).imp_right ?_⟩
    rintro ⟨v, hv, hvty⟩
    exact ⟨v, hv, ha.typeOf?_answer_of_some hvty⟩
  · intro u a hu
    simp only [hget] at hu
    split at hu
    · next hut =>
      cases hu
      rw [hut]
      exact ⟨Store.mem_targets_of_record? hr₀, ha.unestablished, ty, rfl, ha.extremal.plain⟩
    · exact h.answered hu
  · intro u r' hu hr' v hv hvu hvs
    have hbefore : (st.typeOf? established v).isSome := by
      simp only [hget] at hu
      split at hu
      · next hut =>
        subst hut
        simp only [hr₀] at hr'
        cases hr'
        have hready := ha.ready
        simp only [isReady_iff ha.record, htargets, h.targets] at hready
        exact hready v hv hvu hvs
      · exact h.bounded hu hr' v hv hvu hvs
    obtain ⟨vty, hvty⟩ := Option.isSome_iff_exists.1 hbefore
    rw [ha.typeOf?_answer_of_some hvty]
    rfl
  · intro names hdomain hsolves u uname other hu hother
    have hdomain' : ∀ v, (st.found.nameOf? v).isSome → (names v).isSome := fun v hv => by
      apply hdomain v
      rw [nameOf?_answer hname]
      split
      · rfl
      · exact hv
    simp only [nameOf?_answer hname] at hu
    split at hu
    · next hut =>
      subst hut
      cases hu
      exact ha.extremal.extremal hname other
        (h.respects_record ha.record hdomain' hsolves hother)
    · exact h.extremal hdomain' hsolves hu hother

end Answer

end Sound

end Bounds

end QualifiedInference
