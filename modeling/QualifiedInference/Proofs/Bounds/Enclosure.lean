-- SUMMARY: Combined types lie on the far side of every bound, qualifiers included.
import QualifiedInference.Proofs.Bounds.Coherence
import QualifiedInference.Proofs.Bounds.RecordingOrder
import QualifiedInference.Proofs.Bounds.Source
/-!
# Types that enclose their bounds

Whatever the types of a record are combined to lies on the far side of each of them, whether or not
they are coherent: absorption is transitive, so it is carried along the fold. In each hierarchy the
qualifier is the extremal one of those that the types and the bare bounds offer there
(`Side.Chosen`).
-/

namespace QualifiedInference

open QualifierOrder

/-! ## The order on types -/

/-- The null type is below every type, a use of a name below the same use and below every use of a
    proper supertype. -/
def NominalTypes.Below (d : NominalTypes) : Ty → Ty → Prop
  | .null _, _ => True
  | .named .., .null _ => False
  | .named m as _, .named n bs _ => m = n ∧ as = bs ∨ m ≠ n ∧ d.isSubtype m n = true

namespace Side

/-- A type on the far side of a bound: above a lower bound, below an upper one. -/
def Admits (side : Side) (d : NominalTypes) (ty bound : Ty) : Prop :=
  match side with
  | lower => d.Below bound ty
  | upper => d.Below ty bound

variable {side : Side} {d : NominalTypes}

/-- To absorb a bound is to lie on its far side. -/
theorem absorbs_iff_admits {ty bound : Ty} : side.Absorbs d ty bound ↔ side.Admits d ty bound := by
  have hnames : ∀ {m n : String} {as bs : List Ty},
      d.isSubtype m n = true ∧ (m = n → as = bs) ↔
        m = n ∧ as = bs ∨ m ≠ n ∧ d.isSubtype m n = true := by
    intro m n as bs
    by_cases h : m = n
    · simp [h, d.isSubtype_refl n]
    · simp [h]
  cases side with
  | lower =>
    cases bound with
    | null t => simp [Admits, NominalTypes.Below]
    | named m as t =>
      cases ty with
      | null s => simp [Admits, NominalTypes.Below]
      | named k cs s =>
        rw [Absorbs.lower_iff, eq_comm (a := k), eq_comm (a := cs)]
        exact hnames
  | upper =>
    cases ty with
    | null s => simp [Admits, NominalTypes.Below]
    | named k cs s =>
      cases bound with
      | null t => simp [Admits, NominalTypes.Below]
      | named m as t =>
        rw [Absorbs.upper_iff]
        exact hnames

end Side

theorem Ty.qualifiers_overlay (ty : Ty) (qs : Qualifiers) :
    (ty.overlay qs).qualifiers = ty.qualifiers.overlay qs := by cases ty <;> rfl

/-! ## Bare bounds -/

theorem QualifierOrder.IsTop.eq {top q : Qualifier} (h : chains.IsTop top q) :
    top = Qualifier.top q.hierarchy := Eq.symm h

theorem QualifierOrder.IsTop.hierarchy_eq {top q : Qualifier} (h : chains.IsTop top q) :
    q.hierarchy = top.hierarchy := (congrArg Qualifier.hierarchy h.eq).symm

/-- The qualifier is among the bare bounds. -/
def Relations.BoundedBy (rel : Relations Qualifiers) (q : Qualifier) : Prop :=
  ∃ top qs, rel.primaries.get? top = some qs ∧ q ∈ qs

namespace Bounds

variable {side : Side} {h : HierarchyId}

/-- Qualifiers of one hierarchy combine to the one that is preferred to all. -/
theorem exists_combineAll?_chains (side : Side) {l : List Qualifier} (hne : l ≠ [])
    (hl : ∀ p ∈ l, p.hierarchy = h) :
    ∃ q ∈ l, combineAll? (side.combineQualifiers? .chains) l = some q ∧
      ∀ p ∈ l, side.Prefers q p := by
  have hfold : ∀ (rest : List Qualifier) (acc : Qualifier), acc.hierarchy = h →
      (∀ p ∈ rest, p.hierarchy = h) → ∃ q ∈ acc :: rest,
        rest.foldlM (side.combineQualifiers? .chains) acc = some q ∧
          ∀ p ∈ acc :: rest, side.Prefers q p := by
    intro rest
    -- On the qualifiers to come; the accumulator is one of those before them, preferred to all.
    induction rest with
    | nil => exact fun acc _ _ => ⟨acc, .head _, rfl, by simp [Side.Prefers.refl]⟩
    | cons next rest ih =>
      intro acc hacc hrest
      have hhier : acc.hierarchy = next.hierarchy := hacc.trans (hrest next (.head _)).symm
      obtain ⟨x, hx, hone, hxacc, hxnext⟩ :
          ∃ x, side.combineQualifiers? .chains acc next = some x ∧ (x = acc ∨ x = next) ∧
            side.Prefers x acc ∧ side.Prefers x next := by
        simp only [Side.combineQualifiers?_eq_some_iff hhier, and_self]
        rcases Side.Prefers.total side acc next with hle | hle
        · exact ⟨acc, .inl rfl, .refl side acc, hle⟩
        · exact ⟨next, .inr rfl, hle, .refl side next⟩
      have hxh : x.hierarchy = h := by
        rcases hone with rfl | rfl
        · exact hacc
        · exact hrest _ (.head _)
      obtain ⟨q, hq, heq, hqp⟩ := ih x hxh fun p hp => hrest p (.tail _ hp)
      have hqx := hqp x (.head _)
      refine ⟨q, ?_, by rw [List.foldlM_cons, hx]; exact heq, ?_⟩
      · rcases List.mem_cons.1 hq with rfl | hq
        · rcases hone with rfl | rfl <;> simp
        · exact .tail _ (.tail _ hq)
      · simp only [List.forall_mem_cons]
        exact ⟨hqx.trans hxacc, hqx.trans hxnext, fun p hp => hqp p (.tail _ hp)⟩
  cases l with
  | nil => exact absurd rfl hne
  | cons acc rest =>
    exact hfold rest acc (hl acc (.head _)) fun p hp => hl p (.tail _ hp)

section QualifiersFor

variable {b : Bounds} (hb : b.qualifiers = .chains) {rel : Relations Qualifiers}
  (hrel : rel.AllBounds chains.IsTop) {qs : Qualifiers}
  (hqs : qs.Single)

include hrel in
/-- The bounds of one hierarchy stand in one place. -/
theorem mem_bounds_iff {top p : Qualifier} {bs : Qualifiers}
    (hget : rel.primaries.get? top = some bs) :
    p ∈ bs ↔ rel.BoundedBy p ∧ p.hierarchy = top.hierarchy := by
  obtain ⟨⟨p₀, hp₀⟩, htop⟩ := hrel top bs hget
  constructor
  · exact fun hp => ⟨⟨top, bs, hget, hp⟩, (htop p hp).hierarchy_eq⟩
  · rintro ⟨⟨top', bs', hget', hp⟩, hhier⟩
    obtain rfl : top' = top := by
      rw [((hrel top' bs' hget').2 p hp).eq, (htop p₀ hp₀).eq, hhier, (htop p₀ hp₀).hierarchy_eq]
    simp only [hget, Option.some.injEq] at hget'
    exact hget' ▸ hp

include hrel hqs in
/-- What is combined in the place of `top`. -/
theorem mem_offered_iff {top p : Qualifier} {bs : Qualifiers}
    (hget : rel.primaries.get? top = some bs) :
    p ∈ (qs.inHierarchy? top.hierarchy).toList ++ bs.toList ↔
      (p ∈ qs ∨ rel.BoundedBy p) ∧ p.hierarchy = top.hierarchy := by
  rw [List.mem_append, Option.mem_toList, hqs.inHierarchy?_eq_some,
    ← Qualifiers.mem_def, mem_bounds_iff hrel hget, ← or_and_right]

include hb hrel hqs in
/-- In each hierarchy with bare bounds stands the one qualifier that is preferred to all that the
    type and the bare bounds have there. -/
theorem mem_qualifiersFor {q : Qualifier} : q ∈ b.qualifiersFor qs rel.primaries ↔
    (∃ p, rel.BoundedBy p ∧ p.hierarchy = q.hierarchy) ∧ (q ∈ qs ∨ rel.BoundedBy q) ∧
      ∀ p, p ∈ qs ∨ rel.BoundedBy p → p.hierarchy = q.hierarchy → b.side.Prefers q p := by
  have hcombined : ∀ {top bs}, rel.primaries.get? top = some bs → ∃ x,
      combineAll? (b.side.combineQualifiers? b.qualifiers)
        ((qs.inHierarchy? top.hierarchy).toList ++ bs.toList) = some x ∧
      ((x ∈ qs ∨ rel.BoundedBy x) ∧ x.hierarchy = top.hierarchy) ∧
      ∀ p, p ∈ qs ∨ rel.BoundedBy p → p.hierarchy = top.hierarchy → b.side.Prefers x p := by
    intro top bs hget
    have hmem : ∀ p, _ ↔ _ := fun p => mem_offered_iff hrel hqs (p := p) hget
    obtain ⟨p₀, hp₀⟩ := (hrel top bs hget).1
    obtain ⟨x, hx, heq, hxp⟩ := exists_combineAll?_chains b.side
      (List.ne_nil_of_mem (List.mem_append_right _ hp₀)) fun p hp => ((hmem p).1 hp).2
    exact ⟨x, hb ▸ heq, (hmem x).1 hx, fun p hp hhier => hxp p ((hmem p).2 ⟨hp, hhier⟩)⟩
  simp only [qualifiersFor, Qualifiers.mem_ofList, List.mem_filterMap]
  constructor
  · rintro ⟨⟨top, bs⟩, he, hq⟩
    have hget : rel.primaries.get? top = some bs := OrderedMap.get?_of_mem_entries he
    obtain ⟨x, heq, ⟨hx, hhier⟩, hpref⟩ := hcombined hget
    obtain rfl : x = q := Option.some.inj (heq.symm.trans hq)
    obtain ⟨p₀, hp₀⟩ := (hrel top bs hget).1
    have hp₀' := (mem_bounds_iff hrel hget).1 hp₀
    exact ⟨⟨p₀, hp₀'.1, hp₀'.2.trans hhier.symm⟩, hx, fun p hp h => hpref p hp (h.trans hhier)⟩
  · rintro ⟨⟨p, ⟨top, bs, hget, hp⟩, hpq⟩, hq, hpref⟩
    obtain ⟨x, heq, ⟨hx, hhier⟩, hxpref⟩ := hcombined hget
    have hqtop : q.hierarchy = top.hierarchy :=
      hpq.symm.trans ((mem_bounds_iff hrel hget).1 hp).2
    have hqx := hpref x hx (hhier.trans hqtop.symm)
    obtain rfl := hqx.antisymm (hqtop.trans hhier.symm) (hxpref q hq hqtop)
    exact ⟨(top, bs), OrderedMap.get?_eq_some_iff.1 hget, heq⟩

include hb hrel hqs in
theorem exists_mem_qualifiersFor {p : Qualifier} (hp : rel.BoundedBy p) :
    ∃ q ∈ b.qualifiersFor qs rel.primaries, q.hierarchy = p.hierarchy := by
  obtain ⟨top, bs, hget, hpbs⟩ := hp
  have hmem : ∀ x, _ ↔ _ := fun x => mem_offered_iff hrel hqs (p := x) hget
  have hhier := ((mem_bounds_iff hrel hget).1 hpbs).2
  obtain ⟨q, hq, -, hqp⟩ := exists_combineAll?_chains b.side
    (List.ne_nil_of_mem (List.mem_append_right _ hpbs)) fun x hx => ((hmem x).1 hx).2
  have hqtop := ((hmem q).1 hq).2
  refine ⟨q, (mem_qualifiersFor hb hrel hqs).2 ⟨⟨p, ⟨top, bs, hget, hpbs⟩,
    hhier.trans hqtop.symm⟩, ((hmem q).1 hq).1, fun x hx h => ?_⟩, hqtop.trans hhier.symm⟩
  exact hqp x ((hmem x).2 ⟨hx, h.trans hqtop⟩)

end QualifiersFor

end Bounds

namespace Side

variable {side : Side} {d : NominalTypes}

/-- Laying what the bare bounds make of the chosen qualifiers over them chooses among both. -/
theorem Chosen.overlay {offered : Qualifier → Prop} {qs : Qualifiers} (h : side.Chosen offered qs)
    {b : Bounds} (hside : b.side = side) (hb : b.qualifiers = .chains) {rel : Relations Qualifiers}
    (hrel : rel.AllBounds chains.IsTop) :
    side.Chosen (fun q => offered q ∨ rel.BoundedBy q)
      (qs.overlay (b.qualifiersFor qs rel.primaries)) := by
  subst hside
  have hfor := fun q => Bounds.mem_qualifiersFor (q := q) hb hrel h.isSingle
  have hcovers : ∀ {p}, rel.BoundedBy p → _ := fun hp =>
    Bounds.exists_mem_qualifiersFor hb hrel h.isSingle hp
  -- A qualifier is laid over or, in a hierarchy without bare bounds, was there before.
  refine ⟨fun q hq => ?_, fun q hq p hp hhier => ?_, fun p hp => ?_⟩
  · rcases Qualifiers.mem_overlay.1 hq with hq | ⟨hq, -⟩
    · exact ((hfor q).1 hq).2.1.imp_left (h.given q)
    · exact .inl (h.given q hq)
  · rcases Qualifiers.mem_overlay.1 hq with hq | ⟨hq, hnone⟩
    · have hpref := ((hfor q).1 hq).2.2
      rcases hp with hp | hp
      · obtain ⟨p', hp', hhier'⟩ := h.covers p hp
        exact (hpref p' (.inl hp') (hhier'.trans hhier.symm)).trans
          (h.preferred p' hp' p hp hhier')
      · exact hpref p (.inr hp) hhier.symm
    · rcases hp with hp | hp
      · exact h.preferred q hq p hp hhier
      · obtain ⟨x, hx, hhier'⟩ := hcovers hp
        exact absurd (hhier'.trans hhier.symm) (hnone x hx)
  · rcases hp with hp | hp
    · obtain ⟨q, hq, hhier⟩ := h.covers p hp
      by_cases hlaid : ∃ x ∈ b.qualifiersFor qs rel.primaries, x.hierarchy = q.hierarchy
      · obtain ⟨x, hx, hxq⟩ := hlaid
        exact ⟨x, Qualifiers.mem_overlay.2 (.inl hx), hxq.trans hhier⟩
      · exact ⟨q, Qualifiers.mem_overlay.2 (.inr ⟨hq, fun x hx hxq => hlaid ⟨x, hx, hxq⟩⟩), hhier⟩
    · obtain ⟨q, hq, hhier⟩ := hcovers hp
      exact ⟨q, Qualifiers.mem_overlay.2 (.inl hq), hhier⟩

/-! ## Enclosing types -/

/-- `ty` absorbs all the types and has gathered their qualifiers. -/
structure Encloses (side : Side) (d : NominalTypes) (types : List Ty) (ty : Ty) : Prop where
  absorbs : ∀ bound ∈ types, side.Absorbs d ty bound
  gathered : side.Gathered types ty.qualifiers

namespace Encloses

variable {types rest : List Ty} {acc next ty : Ty}

theorem single (h : ty.qualifiers.Single) : side.Encloses d [ty] ty :=
  ⟨by simp [Absorbs.refl], .single h⟩

theorem snoc (h : side.Encloses d types acc) (hnext : next.qualifiers.Single)
    (hty : side.combineTypes? (d.typeOrder .chains) acc next = some ty) :
    side.Encloses d (types ++ [next]) ty := by
  obtain ⟨hshape, hqualifiers⟩ := combineTypes?_eq_some_iff.1 hty
  refine ⟨?_, hqualifiers ▸ h.gathered.snoc hnext⟩
  simp only [List.forall_mem_append, List.forall_mem_singleton]
  have hacc : side.Absorbs d ty acc := .of_shape? hshape
  exact ⟨fun bound hbound => hacc.trans (h.absorbs bound hbound),
    .of_shape? ((shape?_comm ..).trans hshape)⟩

theorem foldlM (h : side.Encloses d types acc) (hrest : ∀ next ∈ rest, next.qualifiers.Single)
    (hty : rest.foldlM (side.combineTypes? (d.typeOrder .chains)) acc = some ty) :
    side.Encloses d (types ++ rest) ty := by
  -- On the types still to combine; `acc` encloses those before them.
  induction rest generalizing types acc with
  | nil =>
    cases hty
    rwa [List.append_nil]
  | cons next rest ih =>
    simp only [List.foldlM_cons] at hty
    obtain ⟨acc', hacc', hty⟩ := Option.bind_eq_some_iff.1 hty
    rw [List.append_cons]
    exact ih (h.snoc (hrest next (.head _)) hacc') (fun x hx => hrest x (.tail _ hx)) hty

theorem of_combineAll? (hsingle : ∀ ty ∈ types, ty.qualifiers.Single)
    (hty : Bounds.combineAll? (side.combineTypes? (d.typeOrder .chains)) types = some ty) :
    side.Encloses d types ty := by
  cases types with
  | nil => cases hty
  | cons first rest =>
    exact foldlM (single (hsingle first (.head _))) (fun x hx => hsingle x (.tail _ hx)) hty

end Encloses

/-- The qualifier stands in a type bound of the record or is a bare bound. -/
def Offers (side : Side) (r : Record) (q : Qualifier) : Prop :=
  (∃ bound ∈ (side.relations r).types.keys, q ∈ bound.qualifiers) ∨ (side.relations r).BoundedBy q

end Side

namespace Bounds

variable {d : NominalTypes} {side : Side}

/-- The type that the bounds in a record determine lies on the far side of its type bounds and has
    chosen among its qualifiers. -/
theorem admits_typeFor? {r : Record} {ty : Ty} (hkeyed : (side.relations r).AllBounds chains.IsTop)
    (hsingle : ∀ bound ∈ (side.relations r).types.keys, bound.qualifiers.Single)
    (hty : typeFor? ⟨side, d.typeOrder .chains, .chains⟩ r = some ty) :
    (∀ bound ∈ (side.relations r).types.keys, side.Admits d ty bound) ∧
      side.Chosen (side.Offers r) ty.qualifiers := by
  obtain ⟨shape, hshape, rfl⟩ := Option.map_eq_some_iff.1 hty
  have hencloses : side.Encloses d (side.relations r).types.keys shape :=
    .of_combineAll? hsingle hshape
  constructor
  · intro bound hbound
    rw [← Side.absorbs_iff_admits]
    exact (Side.Absorbs.congr_left (Ty.bare_withQualifiers ..)).2 (hencloses.absorbs bound hbound)
  · rw [Ty.qualifiers_overlay]
    exact hencloses.gathered.chosen.overlay rfl rfl hkeyed

/-- Every answer respects the bounds that the store has for its target. It lies on the far side of
    each type bound, and in each hierarchy in which a type bound or a bare bound has a qualifier it
    has exactly one, which is preferred to all of those. The types that a run learns on its way do
    not change this, whatever the targets that bound one another. -/
theorem solve_admits_bounds (d : NominalTypes) (side : Side) (s : Store) (established : Answers)
    (hs : s.Recorded .chains)
    (hsingle : ∀ t r, s.record? t = some r → ∀ bound ∈ (side.relations r).types,
      bound.qualifiers.Single)
    (hestablished : ∀ t ty, established.typeOf? t = some ty → ty.qualifiers.Single)
    (t : Target) (a : Answer)
    (ha : (solve ⟨side, d.typeOrder .chains, .chains⟩ s established).2.get? t = some a) :
    ∃ ty r, a = .type ty ∧ s.record? t = some r ∧
      (∀ bound ∈ (side.relations r).types, side.Admits d ty bound) ∧
      ∀ p, side.Offers r p → ∃ q ∈ ty.qualifiers, q.hierarchy = p.hierarchy ∧
        side.Prefers q p ∧ ∀ q' ∈ ty.qualifiers, q'.hierarchy = p.hierarchy → q' = q := by
  -- What a verdict says of an enriched record; it keeps the qualifiers single.
  have hverdict : ∀ {t r r' ty}, s.record? t = some r →
      r.Enriched side.relation (·.qualifiers.Single) r' →
      typeFor? ⟨side, d.typeOrder .chains, .chains⟩ r' = some ty →
      (∀ bound ∈ (side.relations r').types.keys, side.Admits d ty bound) ∧
        side.Chosen (side.Offers r') ty.qualifiers := by
    intro t r r' ty hr henriched hty
    have hall := henriched.all
    simp only [← types_relations] at hall
    exact admits_typeFor? (henriched.allBounds ((hs.keyed hr).bounds side)) hall hty
  obtain ⟨⟨ty, r, r', rfl, hr, henriched, hty⟩, -⟩ := isVerdict_of_solve
    (b := ⟨side, d.typeOrder .chains, .chains⟩) (P := (·.qualifiers.Single))
    (fun hr => types_relations side _ ▸ hsingle _ _ hr) (hestablished _ _)
    (fun hr henriched hty => (hverdict hr henriched hty).2.isSingle) ha
  obtain ⟨hadmits, hchosen⟩ := hverdict hr henriched hty
  have hkeeps : ∀ bound ∈ (side.relations r).types.keys,
      bound ∈ (side.relations r').types.keys := by
    have hkeeps := henriched.keeps
    simp only [← types_relations] at hkeeps
    exact hkeeps
  refine ⟨ty, r, rfl, hr, fun bound hbound => hadmits bound (hkeeps bound hbound), fun p hp => ?_⟩
  have hp' : side.Offers r' p := by
    rcases hp with ⟨bound, hbound, hp⟩ | ⟨top, qs, hget, hp⟩
    · exact .inl ⟨bound, hkeeps bound hbound, hp⟩
    · exact .inr ⟨top, qs, henriched.bounds side ▸ hget, hp⟩
  obtain ⟨q, hq, hhier⟩ := hchosen.covers p hp'
  exact ⟨q, hq, hhier, hchosen.preferred q hq p hp' hhier, fun q' hq' hhier' =>
    hchosen.isSingle q' hq' q hq (hhier'.trans hhier.symm)⟩

/-- Two targets that bound each other. The first one is above a list with a qualifier, above the
    null type with a qualifier of another hierarchy, and above the top of the first hierarchy. -/
def mutualStore : Store :=
  (((((Store.new 0 [⟨1⟩, ⟨2⟩]).write ⟨1⟩ fun r =>
    r.relate .chains .supertype (.target ⟨2⟩ ∅)).write ⟨2⟩ fun r =>
    r.relate .chains .supertype (.target ⟨1⟩ ∅)).write ⟨1⟩ fun r =>
    r.relate .chains .supertype (.type ((listOf "String").overlay (.singleton ⟨0, 1⟩)) ∅)).write
      ⟨1⟩ fun r =>
    r.relate .chains .supertype (.type (.null (.singleton ⟨1, 1⟩)) ∅)).write ⟨1⟩ fun r =>
    r.relate .chains .supertype (.qualifiers (.singleton ⟨0, 0⟩))

theorem recorded_mutualStore : mutualStore.Recorded .chains := by
  have hnew : (Store.new 0 [⟨1⟩, ⟨2⟩]).Recorded .chains := .new 0 _
  have h₁ := hnew.write (t := ⟨1⟩) (by decide +kernel) .supertype (.target ⟨2⟩ ∅)
  have h₂ := h₁.write (t := ⟨2⟩) (by decide +kernel) .supertype (.target ⟨1⟩ ∅)
  have h₃ := h₂.write (t := ⟨1⟩) (by decide +kernel) .supertype
    (.type ((listOf "String").overlay (.singleton ⟨0, 1⟩)) ∅)
  have h₄ := h₃.write (t := ⟨1⟩) (by decide +kernel) .supertype
    (.type (.null (.singleton ⟨1, 1⟩)) ∅)
  exact h₄.write (by decide +kernel) .supertype (.qualifiers (.singleton ⟨0, 0⟩))

theorem solve_admits_bounds_mutual :
    let ty := (listOf "String").overlay ((Qualifiers.singleton ⟨0, 0⟩).insert ⟨1, 1⟩)
    (collectionBounds.solve mutualStore ∅).2.get? ⟨1⟩ = some (.type ty) ∧
      ∃ ty' r, Answer.type ty = .type ty' ∧ mutualStore.record? ⟨1⟩ = some r ∧
        (∀ bound ∈ r.supertypes.types, Side.lower.Admits collections ty' bound) ∧
        ∀ p, Side.lower.Offers r p → ∃ q ∈ ty'.qualifiers, q.hierarchy = p.hierarchy ∧
          Side.lower.Prefers q p ∧ ∀ q' ∈ ty'.qualifiers, q'.hierarchy = p.hierarchy → q' = q := by
  intro ty
  have hget : (collectionBounds.solve mutualStore ∅).2.get? ⟨1⟩ = some (.type ty) := by
    unfold solve
    rw [rounds_of_idle (by decide +kernel), rounds_of_answered (by decide +kernel),
      rounds_of_answered (by decide +kernel), rounds_of_idle (by decide +kernel),
      rounds_of_exhausted (by decide +kernel)]
    decide +kernel
  have hsingle : ∀ t ∈ mutualStore.targets, ∀ r ∈ mutualStore.record? t,
      ∀ bound ∈ r.supertypes.types.keys, bound.qualifiers.Single := by decide +kernel
  exact ⟨hget, solve_admits_bounds collections .lower mutualStore ∅ recorded_mutualStore
    (fun t r hr => hsingle t (Store.mem_targets_of_record? hr) r hr)
    (fun t ty h => absurd h Answers.typeOf?_empty_ne_some)
    ⟨1⟩ (.type ty) hget⟩

end Bounds

end QualifiedInference
