-- SUMMARY: Types that agree in some hierarchies, and what is combined of them.
import QualifiedInference.Proofs.Base.Option
import QualifiedInference.Proofs.Bounds.Enclosure
/-!
# Types that agree in some hierarchies

Types agree in some hierarchies if they differ in nothing but qualifiers of others. Hierarchies do
not mix: to lay qualifiers over types that agree, or to combine them with types that agree as well,
gives types that agree. A record that has learned one more type determines what it determined
before, combined with that type (`typeFor?_relateType`), so records whose verdicts agree stay such
records when they learn types that agree.
-/

namespace QualifiedInference

open NominalTypes QualifierOrder

variable {keep : HierarchyId → Prop}

/-! ## Qualifiers -/

/-- The same members in the hierarchies that satisfy `keep`. -/
def Qualifiers.AgreeIn (keep : HierarchyId → Prop) (s t : Qualifiers) : Prop :=
  ∀ q, keep q.hierarchy → (q ∈ s ↔ q ∈ t)

namespace Qualifiers.AgreeIn

variable {s s' t t' : Qualifiers} {q : Qualifier}

theorem refl (s : Qualifiers) : AgreeIn keep s s := fun _ _ => Iff.rfl

theorem forall_iff (h : AgreeIn keep s s') (hq : keep q.hierarchy) {C : Qualifier → Prop} :
    (∀ p ∈ s, q.hierarchy = p.hierarchy → C p) ↔ ∀ p ∈ s', q.hierarchy = p.hierarchy → C p := by
  apply forall_congr'
  intro p
  constructor
  · exact fun hC hp hhier => hC ((h p (hhier ▸ hq)).2 hp) hhier
  · exact fun hC hp hhier => hC ((h p (hhier ▸ hq)).1 hp) hhier

theorem overlay (hs : AgreeIn keep s s') (ht : AgreeIn keep t t') :
    AgreeIn keep (s.overlay t) (s'.overlay t') := by
  intro q hq
  have hnone : (∀ p ∈ t, p.hierarchy ≠ q.hierarchy) ↔ ∀ p ∈ t', p.hierarchy ≠ q.hierarchy := by
    simp only [ne_comm (b := q.hierarchy)]
    exact ht.forall_iff hq
  rw [mem_overlay, mem_overlay, ht q hq, hs q hq, hnone]

theorem combine {side : Side} (hs : AgreeIn keep s s') (ht : AgreeIn keep t t') (hsingle : s.Single)
    (hsingle' : s'.Single) (htsingle : t.Single) (htsingle' : t'.Single) :
    AgreeIn keep (NominalTypes.combine (side.combineQualifiers? .chains) s t)
      (NominalTypes.combine (side.combineQualifiers? .chains) s' t') := by
  intro q hq
  rw [Side.mem_combine_chains hsingle htsingle, Side.mem_combine_chains hsingle' htsingle',
    hs q hq, ht q hq, hs.forall_iff hq, ht.forall_iff hq]

theorem qualifiersFor {b : Bounds} (hb : b.qualifiers = .chains) {rel : Relations Qualifiers}
    (hrel : rel.AllBounds chains.IsTop) (hs : AgreeIn keep s s') (hsingle : s.Single)
    (hsingle' : s'.Single) :
    AgreeIn keep (b.qualifiersFor s rel.primaries) (b.qualifiersFor s' rel.primaries) := by
  intro q hq
  have hforall : (∀ p, p ∈ s ∨ rel.BoundedBy p → p.hierarchy = q.hierarchy → b.side.Prefers q p) ↔
      ∀ p, p ∈ s' ∨ rel.BoundedBy p → p.hierarchy = q.hierarchy → b.side.Prefers q p := by
    simp only [or_imp, forall_and, eq_comm (b := q.hierarchy)]
    rw [hs.forall_iff hq]
  rw [Bounds.mem_qualifiersFor hb hrel hsingle, Bounds.mem_qualifiersFor hb hrel hsingle', hs q hq,
    hforall]

end Qualifiers.AgreeIn

/-! ## Types -/

/-- The same type up to qualifiers outside of the hierarchies that satisfy `keep`. -/
structure Ty.AgreesIn (keep : HierarchyId → Prop) (a b : Ty) : Prop where
  bare : a.bare = b.bare
  qualifiers : Qualifiers.AgreeIn keep a.qualifiers b.qualifiers

/-- Types that agree and have at most one qualifier of a hierarchy. -/
structure Ty.AgreesSingly (keep : HierarchyId → Prop) (a b : Ty) : Prop
    extends a.AgreesIn keep b where
  left : a.qualifiers.Single
  right : b.qualifiers.Single

namespace Ty

variable {a a' b b' : Ty}

theorem AgreesIn.refl (a : Ty) : a.AgreesIn keep a := ⟨rfl, .refl _⟩

theorem AgreesSingly.refl (h : a.qualifiers.Single) : a.AgreesSingly keep a := ⟨.refl a, h, h⟩

/-- Types that agree everywhere are the same. -/
theorem AgreesIn.eq (h : a.AgreesIn (fun _ => True) b) : a = b :=
  Ty.ext_bare h.bare (Qualifiers.ext_mem fun q => h.qualifiers q trivial)

theorem bare_overlay (ty : Ty) (qs : Qualifiers) : (ty.overlay qs).bare = ty.bare :=
  bare_withQualifiers ty _

theorem AgreesIn.overlay (h : a.AgreesIn keep b) {qs qs' : Qualifiers}
    (hqs : Qualifiers.AgreeIn keep qs qs') : (a.overlay qs).AgreesIn keep (b.overlay qs') where
  bare := by rw [bare_overlay, bare_overlay, h.bare]
  qualifiers := by
    rw [qualifiers_overlay, qualifiers_overlay]
    exact h.qualifiers.overlay hqs

end Ty

/-! ## Bounds -/

namespace Side

variable {side : Side} {d : NominalTypes} {a a' b b' : Ty}

theorem combineTypes?_agree (ha : a.AgreesSingly keep a') (hb : b.AgreesSingly keep b') :
    Option.Rel (Ty.AgreesSingly keep) (side.combineTypes? (d.typeOrder .chains) a b)
      (side.combineTypes? (d.typeOrder .chains) a' b') := by
  -- Whether the two combine, and to what kind, is told by the bare types.
  have hshape : side.shape? d a' b' = side.shape? d a b := by
    rw [← shape?_bare_left, ← shape?_bare_right, ← ha.bare, ← hb.bare, shape?_bare_left,
      shape?_bare_right]
  cases hc : side.combineTypes? (d.typeOrder .chains) a b with
  | none =>
    rw [combineTypes?_eq_none_iff.2 (hshape.trans (combineTypes?_eq_none_iff.1 hc))]
    exact .none
  | some c =>
    obtain ⟨hbare, hqs⟩ := combineTypes?_eq_some_iff.1 hc
    cases hc' : side.combineTypes? (d.typeOrder .chains) a' b' with
    | none => rw [combineTypes?_eq_none_iff, hshape, hbare] at hc'; cases hc'
    | some c' =>
      obtain ⟨hbare', hqs'⟩ := combineTypes?_eq_some_iff.1 hc'
      refine .some ⟨⟨?_, ?_⟩, ?_, ?_⟩
      · exact Option.some.inj (hbare.symm.trans (hshape.symm.trans hbare'))
      · rw [hqs, hqs']
        exact ha.qualifiers.combine hb.qualifiers ha.left ha.right hb.left hb.right
      · exact hqs ▸ single_combine ha.left hb.left
      · exact hqs' ▸ single_combine ha.right hb.right

end Side

namespace Bounds

/-- To solve bounds on declared types over chains. -/
abbrev declared (side : Side) (d : NominalTypes) : Bounds := ⟨side, d.typeOrder .chains, .chains⟩

variable {side : Side} {d : NominalTypes}

theorem combineAll?_agree {types types' : List Ty}
    (h : List.Forall₂ (Ty.AgreesSingly keep) types types') :
    Option.Rel (Ty.AgreesSingly keep) (combineAll? (side.combineTypes? (d.typeOrder .chains)) types)
      (combineAll? (side.combineTypes? (d.typeOrder .chains)) types') := by
  have hfold : ∀ {rest rest' : List Ty} {acc acc' : Ty},
      List.Forall₂ (Ty.AgreesSingly keep) rest rest' → acc.AgreesSingly keep acc' →
      Option.Rel (Ty.AgreesSingly keep) (rest.foldlM (side.combineTypes? (d.typeOrder .chains)) acc)
        (rest'.foldlM (side.combineTypes? (d.typeOrder .chains)) acc') := by
    intro rest rest' acc acc' hrest
    -- On the types still to combine; what those before them came to agrees.
    induction hrest generalizing acc acc' with
    | nil => exact .some
    | cons hnext _ ih =>
      intro hacc
      exact (side.combineTypes?_agree hacc hnext).bind ih
  cases h with
  | nil => exact .none
  | cons hfirst hrest => exact hfold hrest hfirst

theorem combineAll?_concat {α : Type} (combine? : α → α → Option α) {l : List α} (hl : l ≠ [])
    (a : α) : combineAll? combine? (l ++ [a]) = (combineAll? combine? l).bind (combine? · a) := by
  cases l with
  | nil => exact absurd rfl hl
  | cons first rest =>
    show (rest ++ [a]).foldlM combine? first = _
    rw [List.foldlM_append]
    simp [combineAll?]

section Verdict

variable {r : Record} {ty : Ty} (hkeyed : (side.relations r).AllBounds chains.IsTop)

/-- The bare bounds of a record make types that agree of types that agree. -/
theorem overlay_qualifiersFor_agree (hkeyed : (side.relations r).AllBounds chains.IsTop)
    {a a' : Ty} (h : a.AgreesSingly keep a') :
    (a.overlay ((declared side d).qualifiersFor a.qualifiers
        (side.relations r).primaries)).AgreesSingly keep
      (a'.overlay ((declared side d).qualifiersFor a'.qualifiers
        (side.relations r).primaries)) := by
  have hsingle : ∀ {a : Ty}, a.qualifiers.Single → (a.overlay ((declared side d).qualifiersFor
      a.qualifiers (side.relations r).primaries)).qualifiers.Single := by
    intro a ha
    rw [Ty.qualifiers_overlay]
    exact ((Side.Gathered.single ha).chosen.overlay rfl rfl hkeyed).isSingle
  have hfor := h.qualifiers.qualifiersFor (b := declared side d) rfl hkeyed h.left h.right
  exact ⟨h.toAgreesIn.overlay hfor, hsingle h.left, hsingle h.right⟩

theorem map_bare_typeFor? (b : Bounds) (r : Record) : (b.typeFor? r).map Ty.bare =
    (combineAll? (b.side.combineTypes? b.types) (b.side.relations r).types.keys).map Ty.bare := by
  rw [typeFor?, Option.map_map]
  congr 1
  funext ty
  exact Ty.bare_overlay ty _

theorem keys_relateType (side : Side) (r : Record) (ty : Ty) (tops : Qualifiers) :
    (side.relations (r.relateType side.relation ty tops)).types.keys =
      if ty ∈ (side.relations r).types then (side.relations r).types.keys
      else (side.relations r).types.keys ++ [ty] := by
  simp only [types_relations, Record.typesIn_relateType, OrderedMap.keys_upsert]

theorem offers_relateType {q : Qualifier} {tops : Qualifiers} :
    side.Offers (r.relateType side.relation ty tops) q ↔ side.Offers r q ∨ q ∈ ty.qualifiers := by
  have hkeys : ∀ x, x ∈ (side.relations (r.relateType side.relation ty tops)).types.keys ↔
      x ∈ (side.relations r).types.keys ∨ x = ty := by
    intro x
    rw [keys_relateType]
    split
    · next hmem => exact ⟨.inl, fun h => h.elim id fun heq => heq ▸ hmem⟩
    · simp
  simp only [Side.Offers, Relations.BoundedBy, Record.bounds_relateType, hkeys, or_and_right,
    exists_or, exists_eq_left]
  exact or_right_comm

theorem map_bare_typeFor?_relateType
    (hsingle : ∀ bound ∈ (side.relations r).types.keys, bound.qualifiers.Single)
    (hne : (side.relations r).types.keys ≠ []) (ty : Ty) (tops : Qualifiers) :
    ((declared side d).typeFor? (r.relateType side.relation ty tops)).map Ty.bare =
      (((declared side d).typeFor? r).map Ty.bare).bind (side.shape? d · ty) := by
  simp only [map_bare_typeFor?, keys_relateType]
  split
  · next hmem =>
    -- What the types combine to absorbs the type, which is one of them.
    cases hall : combineAll? (side.combineTypes? (d.typeOrder .chains))
        (side.relations r).types.keys with
    | none => rfl
    | some shape =>
      have habsorbs := (Side.Encloses.of_combineAll? hsingle hall).absorbs ty hmem
      rw [Option.map_some, Option.bind_some, Side.shape?_bare_left]
      exact habsorbs.symm
  · rw [combineAll?_concat _ hne]
    cases combineAll? (side.combineTypes? (d.typeOrder .chains)) (side.relations r).types.keys with
    | none => rfl
    | some shape =>
      rw [Option.bind_some, Option.map_some, Option.bind_some, Side.map_bare_combineTypes?,
        Side.shape?_bare_left]

include hkeyed in
/-- What a record with bounds determines once it has learned a type is what it determined before,
    combined with the type. -/
theorem typeFor?_relateType
    (hsingle : ∀ bound ∈ (side.relations r).types.keys, bound.qualifiers.Single)
    (hne : (side.relations r).types.keys ≠ []) (hty : ty.qualifiers.Single) (tops : Qualifiers) :
    (declared side d).typeFor? (r.relateType side.relation ty tops) =
      ((declared side d).typeFor? r).bind (side.combineTypes? (d.typeOrder .chains) · ty) := by
  have hkeyed' : (side.relations (r.relateType side.relation ty tops)).AllBounds chains.IsTop :=
    fun top qs hget => hkeyed top qs (Record.bounds_relateType .. ▸ hget)
  have hsingle' : ∀ bound ∈ (side.relations (r.relateType side.relation ty tops)).types.keys,
      bound.qualifiers.Single := by
    rw [keys_relateType]
    split
    · exact hsingle
    · simpa [or_imp, forall_and] using ⟨hsingle, hty⟩
  -- The kinds are the same, and the qualifiers of both are chosen among the same ones.
  have hshape := map_bare_typeFor?_relateType (d := d) hsingle hne ty tops
  cases hv : (declared side d).typeFor? r with
  | none =>
    rw [hv] at hshape
    exact Option.map_eq_none_iff.1 hshape
  | some v =>
    simp only [hv, Option.map_some, Option.bind_some, Side.shape?_bare_left] at hshape
    rw [Option.bind_some]
    cases hv' : (declared side d).typeFor? (r.relateType side.relation ty tops) with
    | none =>
      rw [hv'] at hshape
      exact (Side.combineTypes?_eq_none_iff.2 hshape.symm).symm
    | some v' =>
      rw [hv'] at hshape
      have hchosen := (admits_typeFor? hkeyed hsingle hv).2.combine hty
      have hchosen' := (admits_typeFor? hkeyed' hsingle' hv').2
      have hoffers : side.Offers (r.relateType side.relation ty tops) =
          fun q => side.Offers r q ∨ q ∈ ty.qualifiers :=
        funext fun _ => propext offers_relateType
      rw [hoffers] at hchosen'
      exact (Side.combineTypes?_eq_some_iff.2 ⟨hshape.symm, hchosen'.unique hchosen⟩).symm

end Verdict

end Bounds

end QualifiedInference
