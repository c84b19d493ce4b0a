-- SUMMARY: Joins as least upper bounds and meets as greatest lower bounds of qualified types.
import QualifiedInference.Proofs.Bounds.Enclosure
/-!
# Joins and meets are bounds

The join of two types lies above both, and its name below those of all other types above both; the
meet lies below both and above everything else that does. They exist unless the types are in each
other's way: there is no join of applications of one name to different arguments or of names
without a common supertype, and no meet of types of which neither is below the other
(`join_meet_bounds`). In each hierarchy the result has one qualifier, the higher or the lower one of
those given.
-/

namespace QualifiedInference

namespace NominalTypes

variable (d : NominalTypes)

/-- `c` is above both, and its name is the nearest one that any type above both can have. -/
structure IsLeastAbove (a b c : Ty) : Prop where
  left : d.Below a c
  right : d.Below b c
  least : ∀ u, d.Below a u → d.Below b u → ∀ k, c.name? = some k →
    ∃ x, u.name? = some x ∧ d.isSubtype k x = true

/-- `c` is below both, and above whatever else is. -/
structure IsGreatestBelow (a b c : Ty) : Prop where
  left : d.Below c a
  right : d.Below c b
  greatest : ∀ l, d.Below l a → d.Below l b → d.Below l c

/-- The two are applications of one name to different arguments, or no name is above both. -/
def Apart : Ty → Ty → Prop
  | .named m as _, .named n bs _ =>
    m = n ∧ as ≠ bs ∨ ¬∃ x, d.isSubtype m x = true ∧ d.isSubtype n x = true
  | _, _ => False

variable {d} {a b c u : Ty}

/-! ## The order -/

theorem absorbs_lower_iff_below : Side.lower.Absorbs d c a ↔ d.Below a c :=
  Side.absorbs_iff_admits

theorem absorbs_upper_iff_below : Side.upper.Absorbs d c a ↔ d.Below c a :=
  Side.absorbs_iff_admits

theorem Below.refl (a : Ty) : d.Below a a := absorbs_upper_iff_below.1 (.refl a)

theorem Below.trans (hab : d.Below a b) (hbc : d.Below b c) : d.Below a c :=
  absorbs_upper_iff_below.1 <|
    (absorbs_upper_iff_below.2 hab).trans (absorbs_upper_iff_below.2 hbc)

/-- Two types that are below each other differ in their qualifiers at most. -/
theorem Below.antisymm (hab : d.Below a b) (hba : d.Below b a) : a.bare = b.bare :=
  (absorbs_upper_iff_below.2 hab).antisymm (absorbs_upper_iff_below.2 hba)

theorem Below.of_bare_eq (h : a.bare = b.bare) : d.Below a b :=
  absorbs_upper_iff_below.1 ((Side.Absorbs.congr_left h).2 (.refl b))

theorem Below.of_isNull (h : a.isNull = true) : d.Below a b := by
  cases a with
  | null s => trivial
  | named m as s => cases h

theorem Below.exists_name {k : String} (h : d.Below a u) (ha : a.name? = some k) :
    ∃ x, u.name? = some x ∧ d.isSubtype k x = true := by
  cases a with
  | null s => cases ha
  | named m as s =>
    cases u with
    | null t => exact h.elim
    | named n bs t =>
      cases ha
      rcases h with ⟨rfl, -⟩ | ⟨-, hle⟩
      · exact ⟨k, rfl, d.isSubtype_refl k⟩
      · exact ⟨n, rfl, hle⟩

/-! ## Shapes -/

theorem isLeastAbove_of_shape? (h : Side.lower.shape? d a b = some c.bare) :
    d.IsLeastAbove a b c where
  left := absorbs_lower_iff_below.1 (.of_shape? h)
  right := absorbs_lower_iff_below.1 (.of_shape? ((Side.shape?_comm ..).trans h))
  least := by
    intro u hau hbu k hk
    have hname : c.bare.name? = some k := (Ty.name?_withQualifiers c ∅).trans hk
    cases a with
    | null s =>
      rw [Side.shape?_lower_null_left, Option.some.injEq] at h
      rw [← h] at hname
      exact hbu.exists_name ((Ty.name?_withQualifiers b ∅).symm.trans hname)
    | named m as s =>
      cases b with
      | null t =>
        rw [Side.shape?_lower_null_right, Option.some.injEq] at h
        rw [← h] at hname
        exact hau.exists_name hname
      | named n bs t =>
        obtain ⟨k', cs, hc, hjoin, -⟩ := Side.shape?_lower_iff.1 h
        rw [hc] at hname
        cases hname
        obtain ⟨x, hx, hmx⟩ := hau.exists_name rfl
        obtain ⟨x', hx', hnx'⟩ := hbu.exists_name rfl
        obtain rfl : x = x' := Option.some.inj (hx.symm.trans hx')
        exact ⟨x, hx, hjoin.least x hmx hnx'⟩

theorem isGreatestBelow_of_shape? (h : Side.upper.shape? d a b = some c.bare) :
    d.IsGreatestBelow a b c where
  left := absorbs_upper_iff_below.1 (.of_shape? h)
  right := absorbs_upper_iff_below.1 (.of_shape? ((Side.shape?_comm ..).trans h))
  greatest := by
    -- A meet is one of the two, and what is below both is below that one.
    intro l hla hlb
    rcases Side.shape?_upper_eq h with hc | hc
    · exact hla.trans (.of_bare_eq hc.symm)
    · exact hlb.trans (.of_bare_eq hc.symm)

theorem shape?_lower_eq_none_iff : Side.lower.shape? d a b = none ↔ d.Apart a b := by
  cases a with
  | null s => simp [Apart]
  | named m as s =>
    cases b with
    | null t => simp [Apart]
    | named n bs t =>
      constructor
      · intro h
        by_cases hcommon : ∃ x, d.isSubtype m x = true ∧ d.isSubtype n x = true
        · obtain ⟨x, hm, hn⟩ := hcommon
          exact .inl (Side.shape?_lower_eq_none hm hn h)
        · exact .inr hcommon
      · intro hapart
        by_contra hne
        obtain ⟨r, hr⟩ := Option.ne_none_iff_exists'.1 hne
        rcases hapart with ⟨rfl, hargs⟩ | hcommon
        · exact hargs (Side.args_eq_of_shape?_lower hr)
        · obtain ⟨k, cs, -, hjoin, -⟩ := Side.shape?_lower_iff.1 hr
          exact hcommon ⟨k, hjoin.left, hjoin.right⟩

theorem shape?_upper_eq_none_iff :
    Side.upper.shape? d a b = none ↔ ¬d.Below a b ∧ ¬d.Below b a := by
  rw [← absorbs_upper_iff_below, ← absorbs_upper_iff_below]
  constructor
  · intro h
    refine ⟨fun hab => ?_, fun hba => ?_⟩
    · rw [hab] at h
      cases h
    · rw [Side.shape?_comm, hba] at h
      cases h
  · rintro ⟨hab, hba⟩
    by_contra hne
    obtain ⟨r, hr⟩ := Option.ne_none_iff_exists'.1 hne
    rcases Side.shape?_upper_eq hr with rfl | rfl
    · exact hab hr
    · exact hba ((Side.shape?_comm ..).trans hr)

end NominalTypes

/-! ## Combined types -/

namespace Side

variable {side : Side} {d : NominalTypes} {a b c : Ty}

theorem combineTypes?_lower (order : TypeOrder) : lower.combineTypes? order = order.join? := rfl

theorem combineTypes?_upper (order : TypeOrder) : upper.combineTypes? order = order.meet? := rfl

theorem combineTypes?_self (ha : a.qualifiers.Single) :
    side.combineTypes? (d.typeOrder .chains) a a = some a := by
  refine combineTypes?_eq_some_iff.2 ⟨Absorbs.refl a, ?_⟩
  have hself : side.Chosen (· ∈ a.qualifiers) a.qualifiers := .self ha
  exact hself.unique ((hself.combine ha).congr fun q => or_self_iff)

/-- What two types are combined to has chosen among the qualifiers of both. -/
theorem chosen_of_combineTypes? (ha : a.qualifiers.Single) (hb : b.qualifiers.Single)
    (h : side.combineTypes? (d.typeOrder .chains) a b = some c) :
    side.Chosen (fun q => q ∈ a.qualifiers ∨ q ∈ b.qualifiers) c.qualifiers := by
  rw [(combineTypes?_eq_some_iff.1 h).2]
  exact (Chosen.self ha).combine hb

end Side

namespace NominalTypes

/-- The laws of joins and meets, for types that have at most one qualifier of each hierarchy. The
    result has one qualifier in each hierarchy in which one is given: a join the higher of those
    given there, a meet the lower. -/
theorem join_meet_bounds (d : NominalTypes) (a b : Ty) (ha : a.qualifiers.Single)
    (hb : b.qualifiers.Single) :
    let order := d.typeOrder .chains
    let given := fun q => q ∈ a.qualifiers ∨ q ∈ b.qualifiers
    (order.join? a b = order.join? b a ∧ order.join? a a = some a ∧
      (∀ c, order.join? a b = some c →
        d.IsLeastAbove a b c ∧ c.qualifiers.Single ∧ Side.lower.Chosen given c.qualifiers) ∧
      (order.join? a b = none ↔ d.Apart a b)) ∧
    (order.meet? a b = order.meet? b a ∧ order.meet? a a = some a ∧
      (∀ c, order.meet? a b = some c →
        d.IsGreatestBelow a b c ∧ c.qualifiers.Single ∧ Side.upper.Chosen given c.qualifiers) ∧
      (order.meet? a b = none ↔
        a.isNull = false ∧ b.isNull = false ∧ ¬d.Below a b ∧ ¬d.Below b a)) := by
  simp only [← Side.combineTypes?_lower, ← Side.combineTypes?_upper]
  refine ⟨⟨Side.combineTypes?_comm ha hb, Side.combineTypes?_self ha, fun c hc => ?_, ?_⟩,
    ⟨Side.combineTypes?_comm ha hb, Side.combineTypes?_self ha, fun c hc => ?_, ?_⟩⟩
  · have hchosen := Side.chosen_of_combineTypes? ha hb hc
    have hshape := (Side.combineTypes?_eq_some_iff.1 hc).1
    exact ⟨isLeastAbove_of_shape? hshape, hchosen.isSingle, hchosen⟩
  · rw [Side.combineTypes?_eq_none_iff, shape?_lower_eq_none_iff]
  · have hchosen := Side.chosen_of_combineTypes? ha hb hc
    have hshape := (Side.combineTypes?_eq_some_iff.1 hc).1
    exact ⟨isGreatestBelow_of_shape? hshape, hchosen.isSingle, hchosen⟩
  · have hnull : ∀ {a b : Ty}, ¬d.Below a b → a.isNull = false := fun hab =>
      Bool.eq_false_iff.2 fun h => hab (.of_isNull h)
    rw [Side.combineTypes?_eq_none_iff, shape?_upper_eq_none_iff]
    exact ⟨fun ⟨hab, hba⟩ => ⟨hnull hab, hnull hba, hab, hba⟩, fun h => h.2.2⟩

/-- A list of strings with one qualifier and a collection with two: the collection is their join
    and, but for a qualifier, the list is their meet. -/
theorem join_meet_bounds_listOf :
    let order := Bounds.collections.typeOrder .chains
    let list := (Bounds.listOf "String").overlay (.singleton ⟨0, 1⟩)
    let collection := Bounds.collection.overlay ((Qualifiers.singleton ⟨0, 0⟩).insert ⟨1, 1⟩)
    let meet := (Bounds.listOf "String").overlay ((Qualifiers.singleton ⟨0, 1⟩).insert ⟨1, 1⟩)
    let given := fun q => q ∈ list.qualifiers ∨ q ∈ collection.qualifiers
    list.qualifiers.Single ∧ collection.qualifiers.Single ∧
      (order.join? list collection = some collection ∧
        Bounds.collections.IsLeastAbove list collection collection ∧
        Side.lower.Chosen given collection.qualifiers) ∧
      (order.meet? list collection = some meet ∧
        Bounds.collections.IsGreatestBelow list collection meet ∧
        Side.upper.Chosen given meet.qualifiers) := by
  intro order list collection meet given
  have hlist : list.qualifiers.Single := by decide +kernel
  have hcollection : collection.qualifiers.Single := by decide +kernel
  have hjoin : order.join? list collection = some collection := by decide +kernel
  have hmeet : order.meet? list collection = some meet := by decide +kernel
  obtain ⟨⟨-, -, hleast, -⟩, -, -, hgreatest, -⟩ :=
    join_meet_bounds Bounds.collections list collection hlist hcollection
  obtain ⟨hleast, -, hhigher⟩ := hleast collection hjoin
  obtain ⟨hgreatest, -, hlower⟩ := hgreatest meet hmeet
  exact ⟨hlist, hcollection, ⟨hjoin, hleast, hhigher⟩, hmeet, hgreatest, hlower⟩

end NominalTypes

end QualifiedInference
