-- SUMMARY: Independence of answers over coherent bounds from the order of recording.
import QualifiedInference.Proofs.Bounds.Attempt
import QualifiedInference.Proofs.Bounds.Coherence
import QualifiedInference.Proofs.Equivalence
/-!
# The order of recording

Two runs on stores that hold equal records go side by side: they know the same types, and their
records bound each target alike, though not in the same order. As long as the bounds are coherent
the verdicts are the same, and so are the answers. A store that ends up with incoherent bounds
can be solved otherwise than one equal to it (`solve_depends_on_order`).
-/

namespace QualifiedInference

namespace Record

/-- On one side, the records have the same bounds in whatever order. -/
structure Reordered (side : Side) (r r' : Record) : Prop where
  targets : ∀ u, u ∈ r'.targetsIn side.relation ↔ u ∈ r.targetsIn side.relation
  types : ∀ ty, ty ∈ r'.typesIn side.relation ↔ ty ∈ r.typesIn side.relation
  primaries : (side.relations r').primaries.Equiv (side.relations r).primaries

variable {side : Side} {r r' : Record}

theorem reordered_of_equiv (h : r.equiv r' = true) : r.Reordered side r' := by
  have hrel : (side.relations r).equiv (side.relations r') = true := by
    simp only [equiv, Bool.and_eq_true] at h
    cases side with
    | lower => exact h.2
    | upper => exact h.1.2
  simp only [Relations.equiv, Bool.and_eq_true, OrderedMap.equiv_iff] at hrel
  obtain ⟨⟨htargets, htypes⟩, hprimaries⟩ := hrel
  refine ⟨?_, ?_, fun k => (hprimaries k).symm⟩
  · rw [← Bounds.targets_relations, ← Bounds.targets_relations]
    exact htargets.mem_iff
  · rw [← Bounds.types_relations, ← Bounds.types_relations]
    exact htypes.mem_iff

/-- To relate alike records to the same types leaves them alike. -/
theorem Reordered.relateTypes (h : r.Reordered side r') {types types' : List (Ty × Qualifiers)}
    (hsame : ∀ ty, ty ∈ types'.map Prod.fst ↔ ty ∈ types.map Prod.fst) :
    (r.relateTypes side.relation types).Reordered side (r'.relateTypes side.relation types') where
  targets := by simpa only [targetsIn_relateTypes] using h.targets
  types ty := by
    rw [mem_typesIn_relateTypes, mem_typesIn_relateTypes, h.types, hsame]
  primaries := by simpa only [bounds_relateTypes] using h.primaries

end Record

namespace Bounds

open Solving

section Verdict

variable {d : NominalTypes} {b : Bounds} {r r' : Record}

theorem qualifiersFor_congr (b : Bounds) (qs : Qualifiers)
    {bounds bounds' : OrderedMap Qualifier Qualifiers} (h : bounds'.Equiv bounds) :
    b.qualifiersFor qs bounds' = b.qualifiersFor qs bounds :=
  Qualifiers.ofList_perm ((OrderedMap.equiv_iff_perm.1 h).filterMap _)

/-- Coherent bounds determine the same type in alike records. -/
theorem typeFor?_of_reordered (hb : b.types = d.typeOrder .chains)
    (hcoherent : b.side.Coherent d (r.typesIn b.side.relation).keys)
    (h : r.Reordered b.side r') : b.typeFor? r' = b.typeFor? r := by
  have htypes := Side.combineAll?_congr hcoherent h.types
  simp only [typeFor?, types_relations, hb, htypes]
  congr 1
  funext ty
  rw [qualifiersFor_congr b ty.qualifiers h.primaries]

end Verdict

/-! ## Runs side by side -/

/-- Two runs with the same answers, over alike records. -/
structure Reordered (side : Side) (st st' : Solving) : Prop where
  targets : st'.store.targets = st.store.targets
  found : st'.found = st.found
  records : ∀ {t r r'}, st.store.record? t = some r → st'.store.record? t = some r' →
    r.Reordered side r'

/-- The bounds in each record are coherent. -/
def CoherentIn (side : Side) (d : NominalTypes) (st : Solving) : Prop :=
  ∀ {t r}, st.store.record? t = some r → side.Coherent d (r.typesIn side.relation).keys

variable {b : Bounds} {d : NominalTypes} {established : Answers} {patience : Patience}
  {st st' : Solving} {t u : Target}

namespace Reordered

theorem typeOf? (h : Reordered b.side st st') (u : Target) :
    st'.typeOf? established u = st.typeOf? established u :=
  typeOf?_congr h.found u

theorem exists_record (h : Reordered b.side st st') {r : Record}
    (hr : st.store.record? t = some r) :
    ∃ r', st'.store.record? t = some r' ∧ r.Reordered b.side r' := by
  have hmem : t ∈ st'.store.targets := h.targets ▸ Store.mem_targets_of_record? hr
  obtain ⟨r', hr'⟩ := Option.isSome_iff_exists.1 ((Store.isSome_record? ..).2 hmem)
  exact ⟨r', hr', h.records hr hr'⟩

theorem record?_eq_none (h : Reordered b.side st st') (hr : st.store.record? t = none) :
    st'.store.record? t = none := by
  have hnot : t ∉ st.store.targets := fun hmem => by
    have hsome := (Store.isSome_record? ..).2 hmem
    simp only [hr] at hsome
    cases hsome
  rw [← Option.not_isSome_iff_eq_none, Store.isSome_record?, h.targets]
  exact hnot

theorem informed (h : Reordered b.side st st') (t : Target) :
    Reordered b.side (b.informed established st t) (b.informed established st' t) := by
  refine ⟨by simp [h.targets], by simp [h.found], fun {u r r'} hr hr' => ?_⟩
  rcases eq_or_ne u t with rfl | hut
  · simp only [record?_informed_self] at hr hr'
    obtain ⟨r₀, hr₀, rfl⟩ := Option.map_eq_some_iff.1 hr
    obtain ⟨r₀', hr₀', rfl⟩ := Option.map_eq_some_iff.1 hr'
    -- The two learn the same types, as they are related to the same targets.
    refine (h.records hr₀ hr₀').relateTypes fun ty => ?_
    simp only [mem_evidence, h.typeOf?, ← OrderedMap.mem_def, (h.records hr₀ hr₀').targets]
  · simp only [record?_informed_of_ne hut] at hr hr'
    exact h.records hr hr'

theorem answer (h : Reordered b.side st st') (t : Target) (ty : Ty) :
    Reordered b.side (st.answer t ty) (st'.answer t ty) :=
  ⟨h.targets, by simp only [Solving.answer, h.found], h.records⟩

theorem skips (h : Reordered b.side st st') (t : Target) :
    Bounds.skips established st' t = Bounds.skips established st t := by
  simp only [Bounds.skips, h.found]

theorem isReady (h : Reordered b.side st st') (t : Target) :
    b.isReady established st' t = b.isReady established st t := by
  cases hr : st.store.record? t with
  | none => rw [Bounds.isReady, Bounds.isReady, hr, h.record?_eq_none hr]
  | some r =>
    obtain ⟨r', hr', hrr'⟩ := h.exists_record hr
    rw [Bool.eq_iff_iff, isReady_iff hr, isReady_iff hr']
    simp only [← OrderedMap.mem_def, hrr'.targets, h.targets, h.typeOf?]

theorem verdict? (hb : b.types = d.typeOrder .chains) (h : Reordered b.side st st')
    (hcoherent : CoherentIn b.side d (b.informed established st t)) :
    b.verdict? established st' t = b.verdict? established st t := by
  have hinformed : Reordered b.side (b.informed established st t) (b.informed established st' t) :=
    h.informed t
  unfold Bounds.verdict?
  cases hr : (b.informed established st t).store.record? t with
  | none => rw [hinformed.record?_eq_none hr]
  | some r =>
    obtain ⟨r', hr', hrr'⟩ := hinformed.exists_record hr
    simp only [hr', Option.bind_some]
    exact typeFor?_of_reordered hb (hcoherent hr) hrr'

end Reordered

/-- Records only gain bounds, so those that end up coherent were so before. -/
theorem CoherentIn.of_informed (h : CoherentIn b.side d (b.informed established st t)) :
    CoherentIn b.side d st := by
  intro u r hr
  rcases eq_or_ne u t with rfl | hut
  · refine (h (record?_informed_of_some hr)).mono fun ty hty => ?_
    exact Record.mem_typesIn_relateTypes.2 (.inl hty)
  · exact h ((record?_informed_of_ne hut).trans hr)

theorem CoherentIn.of_attempt
    (h : CoherentIn b.side d (b.attempt established patience st t).1) : CoherentIn b.side d st := by
  rcases attempt_cases b established patience st t with ⟨-, heq⟩ | ⟨-, -, ⟨-, heq⟩ | ⟨ty, -, heq⟩⟩
  · rwa [heq] at h
  · rw [heq] at h
    exact h.of_informed
  · rw [heq] at h
    exact CoherentIn.of_informed (t := t) h

section Runs

variable (hb : b.types = d.typeOrder .chains)

include hb

theorem Reordered.attempt (h : Reordered b.side st st')
    (hcoherent : CoherentIn b.side d (b.attempt established patience st t).1) :
    (b.attempt established patience st' t).2 = (b.attempt established patience st t).2 ∧
      Reordered b.side (b.attempt established patience st t).1
        (b.attempt established patience st' t).1 := by
  -- The second attempt goes the way of the first one.
  rcases attempt_cases b established patience st t with
    ⟨hs | ⟨rfl, hready⟩, heq⟩ | ⟨hs, hready, hverdict⟩
  · rw [heq, attempt_of_skips ((h.skips t).trans hs)]
    exact ⟨rfl, h⟩
  · rw [heq, attempt_of_not_ready ((h.isReady t).trans hready)]
    exact ⟨rfl, h⟩
  · have hs' := (h.skips t).trans hs
    have hready' : patience = .waiting → b.isReady established st' t = true := fun hp =>
      (h.isReady t).trans (hready hp)
    rcases hverdict with ⟨hv, heq⟩ | ⟨ty, hv, heq⟩
    · rw [heq] at hcoherent ⊢
      rw [attempt_of_none hs' hready' ((h.verdict? hb hcoherent).trans hv)]
      exact ⟨rfl, h.informed t⟩
    · rw [heq] at hcoherent ⊢
      rw [attempt_of_some hs' hready' ((h.verdict? hb hcoherent).trans hv)]
      exact ⟨rfl, (h.informed t).answer t ty⟩

theorem Reordered.rounds {ts : List Target} (h : Reordered b.side st st')
    (hcoherent : CoherentIn b.side d (b.rounds established ts patience st)) :
    Reordered b.side (b.rounds established ts patience st) (b.rounds established ts patience st') :=
  rounds_sideBySide (C := CoherentIn b.side d) (fun _ _ _ => CoherentIn.of_attempt)
    (fun _ _ _ _ h hC => h.attempt hb hC) h hcoherent

end Runs

/-- Equal records are solved alike where the bounds that a run ends with are coherent. -/
theorem solve_of_equiv (d : NominalTypes) (qualifiers : QualifierOrder) (side : Side)
    (s s' : Store) (established : Answers) (htargets : s'.targets = s.targets)
    (hequiv : ∀ t r r', s.record? t = some r → s'.record? t = some r' → r.equiv r' = true)
    (hcoherent : ∀ t r,
      (solve ⟨side, d.typeOrder .chains, qualifiers⟩ s established).1.record? t = some r →
        side.Coherent d (side.relations r).types.keys) :
    (solve ⟨side, d.typeOrder .chains, qualifiers⟩ s' established).2 =
      (solve ⟨side, d.typeOrder .chains, qualifiers⟩ s established).2 := by
  have hstart : Reordered side ⟨s, ∅⟩ ⟨s', ∅⟩ :=
    ⟨htargets, rfl, fun hr hr' => Record.reordered_of_equiv (hequiv _ _ _ hr hr')⟩
  have hend : Reordered side
      (rounds ⟨side, d.typeOrder .chains, qualifiers⟩ established s.targets .waiting ⟨s, ∅⟩)
      (rounds ⟨side, d.typeOrder .chains, qualifiers⟩ established s.targets .waiting ⟨s', ∅⟩) :=
    Reordered.rounds rfl hstart fun hr => types_relations side _ ▸ hcoherent _ _ hr
  simp only [solve, htargets]
  exact hend.found

/-! ## Lists and collections -/

/-- `List` is below `Collection`; `String` and `Integer` are unrelated to them and to each
    other. -/
def collections : NominalTypes where
  declarations :=
    [("Integer", none), ("String", none), ("List", some "Collection"), ("Collection", none)]
  inOrder := ⟨by decide, nofun, by decide, nofun, by decide, by simp, by decide, nofun, trivial⟩

def collection : Ty := .named "Collection" [] ∅

def listOf (name : String) : Ty := .named "List" [.named name [] ∅] ∅

/-- One target with the given lower bounds. -/
def boundedBelow (types : List Ty) : Store :=
  (Store.new 0 [⟨1⟩]).addTypes ⟨1⟩ .supertype (types.map (·, ∅))

def collectionBounds : Bounds := ⟨.lower, collections.typeOrder .chains, .chains⟩

theorem targets_boundedBelow (types : List Ty) : (boundedBelow types).targets = [⟨1⟩] :=
  (Store.targets_addTypes ..).trans (by decide +kernel)

theorem equiv_boundedBelow {types types' : List Ty} {t : Target} {r r' : Record}
    (h : ∀ r ∈ (boundedBelow types).record? ⟨1⟩, ∀ r' ∈ (boundedBelow types').record? ⟨1⟩,
      r.equiv r' = true)
    (hr : (boundedBelow types).record? t = some r)
    (hr' : (boundedBelow types').record? t = some r') : r.equiv r' = true := by
  have ht : t ∈ (boundedBelow types).targets := Store.mem_targets_of_record? hr
  simp only [targets_boundedBelow, List.mem_singleton] at ht
  subst ht
  exact h r hr r' hr'

theorem solve_of_equiv_collections :
    (collectionBounds.solve (boundedBelow [collection, listOf "String"]) ∅).2 =
      (collectionBounds.solve (boundedBelow [listOf "String", collection]) ∅).2 ∧
    (collectionBounds.solve (boundedBelow [listOf "String", collection]) ∅).2.get? ⟨1⟩ =
      some (.type collection) := by
  refine ⟨?_, ?_⟩
  · refine solve_of_equiv collections .chains .lower (boundedBelow [listOf "String", collection])
      (boundedBelow [collection, listOf "String"]) ∅ (by simp only [targets_boundedBelow])
      (fun t r r' => equiv_boundedBelow (by decide +kernel)) fun t r hr => ?_
    have ht := Store.mem_targets_of_record? hr
    simp only [solve, targets_rounds, targets_boundedBelow, List.mem_singleton] at ht
    subst ht
    have hall : ∀ r ∈ (collectionBounds.solve
        (boundedBelow [listOf "String", collection]) ∅).1.record? ⟨1⟩,
        Side.lower.Coherent collections (Side.lower.relations r).types.keys := by
      unfold solve
      rw [rounds_of_answered (by decide +kernel), rounds_of_idle (by decide +kernel),
        rounds_of_exhausted (by decide +kernel)]
      decide +kernel
    exact hall r hr
  · unfold solve
    rw [rounds_of_answered (by decide +kernel), rounds_of_idle (by decide +kernel),
      rounds_of_exhausted (by decide +kernel)]
    decide +kernel

/-- The lists join with the collection and not with each other. -/
theorem solve_depends_on_order :
    let s := boundedBelow [listOf "String", listOf "Integer", collection]
    let s' := boundedBelow [listOf "String", collection, listOf "Integer"]
    s'.targets = s.targets ∧
      (∀ t r r', s.record? t = some r → s'.record? t = some r' → r.equiv r' = true) ∧
      (collectionBounds.solve s ∅).2.get? ⟨1⟩ = none ∧
      (collectionBounds.solve s' ∅).2.get? ⟨1⟩ = some (.type collection) := by
  refine ⟨by simp only [targets_boundedBelow],
    fun t r r' => equiv_boundedBelow (by decide +kernel), ?_, ?_⟩
  · unfold solve
    rw [rounds_of_idle (by decide +kernel), rounds_of_exhausted (by decide +kernel)]
    decide +kernel
  · unfold solve
    rw [rounds_of_answered (by decide +kernel), rounds_of_idle (by decide +kernel),
      rounds_of_exhausted (by decide +kernel)]
    decide +kernel

end Bounds

end QualifiedInference
