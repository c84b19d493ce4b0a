-- SUMMARY: Relations between records that come to the same type, kept as they learn.
import QualifiedInference.Proofs.Noninterference.Runs
/-!
# Records that come to the same

Three relations between records that learning keeps. Records with the same operands are alike under
any orders and for any strategy; records whose verdicts agree in some hierarchies are alike there,
over equalities and, where the types have single qualifiers, over bounds.
-/

namespace QualifiedInference

open NominalTypes QualifierOrder

variable {keep : HierarchyId → Prop} {r r' : Record} {ty ty' : Ty}

/-! ## The same operands -/

namespace Record

/-- The same operands in the same order, whatever the tops that targets and types are recorded
    with. -/
structure SameOperands (r r' : Record) : Prop where
  targets : ∀ rel, (r'.targetsIn rel).keys = (r.targetsIn rel).keys
  types : ∀ rel, (r'.typesIn rel).keys = (r.typesIn rel).keys
  exact : r'.equalities.primaries = r.equalities.primaries
  bounds : ∀ side : Side, (side.relations r').primaries = (side.relations r).primaries

theorem SameOperands.relateType (h : r.SameOperands r') (rel : Relation) (ty : Ty)
    (tops tops' : Qualifiers) :
    (r.relateType rel ty tops).SameOperands (r'.relateType rel ty tops') where
  targets rel' := by rw [targetsIn_relateType, targetsIn_relateType, h.targets]
  types rel' := by
    simp only [keys_typesIn_relateType, OrderedMap.mem_def, h.types]
  exact := by rw [exact_relateType, exact_relateType, h.exact]
  bounds side := by rw [bounds_relateType, bounds_relateType, h.bounds]

end Record

theorem Equalities.congruence_sameOperands :
    Record.Congruence .equal equalType? Eq Record.SameOperands where
  targets h := h.targets .equal
  verdict {r r'} h := by
    have htypes : r'.equalities.types.keys = r.equalities.types.keys := h.types .equal
    rw [equalType?, equalType?, htypes, Relations.exact, Relations.exact, h.exact]
    exact .refl fun _ _ => rfl
  relateType tops tops' h hty := hty ▸ h.relateType .equal _ tops tops'

theorem Bounds.congruence_sameOperands (b : Bounds) :
    Record.Congruence b.side.relation b.typeFor? Eq Record.SameOperands where
  targets h := h.targets b.side.relation
  verdict {r r'} h := by
    have htypes := h.types b.side.relation
    simp only [← types_relations] at htypes
    rw [typeFor?, typeFor?, htypes, h.bounds]
    exact .refl fun _ _ => rfl
  relateType tops tops' h hty := hty ▸ h.relateType b.side.relation _ tops tops'

/-! ## Verdicts that agree, over equalities -/

namespace Equalities

/-- Equal to the same targets, with the same exact qualifiers and with verdicts that agree. -/
structure Alike (keep : HierarchyId → Prop) (r r' : Record) : Prop where
  targets : (r'.targetsIn .equal).keys = (r.targetsIn .equal).keys
  exact : r'.equalities.exact = r.equalities.exact
  verdict : Option.Rel (Ty.AgreesIn keep) (equalType? r) (equalType? r')

/-- The first type counts, so a type that is learned counts where there was none. -/
theorem equalType?_relateType (r : Record) (ty : Ty) (tops : Qualifiers) :
    equalType? (r.relateType .equal ty tops) =
      (equalType? r).or (some (ty.overlay r.equalities.exact)) := by
  have hkeys : (r.relateType .equal ty tops).equalities.types.keys =
      if ty ∈ r.equalities.types then r.equalities.types.keys
      else r.equalities.types.keys ++ [ty] := OrderedMap.keys_upsert ..
  rw [equalType?, equalType?, Relations.exact, Record.exact_relateType, hkeys]
  cases hnil : r.equalities.types.keys with
  | nil =>
    have hnot : ty ∉ r.equalities.types := by rw [OrderedMap.mem_def, hnil]; exact List.not_mem_nil
    rw [if_neg hnot]
    rfl
  | cons first rest => split <;> rfl

theorem congruence : Record.Congruence .equal equalType? (Ty.AgreesIn keep) (Alike keep) where
  targets h := h.targets
  verdict h := h.verdict
  relateType {r r' ty ty'} tops tops' h hty := by
    refine ⟨?_, ?_, ?_⟩
    · rw [Record.targetsIn_relateType, Record.targetsIn_relateType, h.targets]
    · rw [Relations.exact, Relations.exact, Record.exact_relateType, Record.exact_relateType]
      exact h.exact
    · rw [equalType?_relateType, equalType?_relateType, h.exact]
      exact h.verdict.or (.some (hty.overlay (.refl _)))

end Equalities

/-! ## Verdicts that agree, over bounds -/

namespace Bounds

variable {side : Side} {d : NominalTypes}

/-- What solving bounds needs of a record: bare bounds under the tops of their hierarchies, and
    types with at most one qualifier of a hierarchy. -/
structure Regular (side : Side) (r : Record) : Prop where
  keyed : (side.relations r).AllBounds chains.IsTop
  single : ∀ bound ∈ (side.relations r).types.keys, bound.qualifiers.Single

theorem Regular.relateType (h : Regular side r) (hty : ty.qualifiers.Single) (tops : Qualifiers) :
    Regular side (r.relateType side.relation ty tops) where
  keyed := fun top qs hget => h.keyed top qs (Record.bounds_relateType .. ▸ hget)
  single := by
    rw [keys_relateType]
    split
    · exact h.single
    · simpa [or_imp, forall_and] using ⟨h.single, hty⟩

/-- Bounded by the same targets and the same bare qualifiers, and with verdicts that agree. -/
structure Alike (side : Side) (d : NominalTypes) (keep : HierarchyId → Prop) (r r' : Record) :
    Prop where
  left : Regular side r
  right : Regular side r'
  targets : (r'.targetsIn side.relation).keys = (r.targetsIn side.relation).keys
  primaries : (side.relations r').primaries = (side.relations r).primaries
  empty : (side.relations r').types.keys = [] ↔ (side.relations r).types.keys = []
  verdict : Option.Rel (Ty.AgreesSingly keep) ((declared side d).typeFor? r)
    ((declared side d).typeFor? r')

theorem typeFor?_relateType_of_empty (h : (side.relations r).types.keys = []) (tops : Qualifiers) :
    (declared side d).typeFor? (r.relateType side.relation ty tops) =
      some (ty.overlay ((declared side d).qualifiersFor ty.qualifiers
        (side.relations r).primaries)) := by
  have hnot : ty ∉ (side.relations r).types := by
    rw [OrderedMap.mem_def, h]
    exact List.not_mem_nil
  rw [typeFor?, keys_relateType, if_neg hnot, h, Record.bounds_relateType]
  rfl

theorem congruence : Record.Congruence side.relation (declared side d).typeFor?
    (Ty.AgreesSingly keep) (Alike side d keep) where
  targets h := h.targets
  verdict h := h.verdict
  relateType {r r' ty ty'} tops tops' h hty := by
    have hne : ∀ (r : Record) ty tops,
        (side.relations (r.relateType side.relation ty tops)).types.keys ≠ [] := by
      intro r ty tops
      rw [keys_relateType]
      split
      · next hmem => exact List.ne_nil_of_mem hmem
      · simp
    refine ⟨h.left.relateType hty.left tops, h.right.relateType hty.right tops', ?_, ?_, ?_, ?_⟩
    · rw [Record.targetsIn_relateType, Record.targetsIn_relateType, h.targets]
    · rw [Record.bounds_relateType, Record.bounds_relateType, h.primaries]
    · exact iff_of_false (hne r' ty' tops') (hne r ty tops)
    · -- A record without types has no verdict that the new type could be combined with.
      by_cases hempty : (side.relations r).types.keys = []
      · rw [typeFor?_relateType_of_empty hempty, typeFor?_relateType_of_empty (h.empty.2 hempty),
          h.primaries]
        exact .some (overlay_qualifiersFor_agree h.left.keyed hty)
      · rw [typeFor?_relateType h.left.keyed h.left.single hempty hty.left,
          typeFor?_relateType h.right.keyed h.right.single (mt h.empty.1 hempty) hty.right]
        exact h.verdict.bind fun hv => Side.combineTypes?_agree hv hty

theorem Regular.single_typeFor? (h : Regular side r)
    (hty : (declared side d).typeFor? r = some ty) : ty.qualifiers.Single :=
  (admits_typeFor? h.keyed h.single hty).2.isSingle

/-- Records over the same targets and bare qualifiers are alike if their verdicts agree. -/
theorem Regular.alike (h : Regular side r) (h' : Regular side r')
    (htargets : (r'.targetsIn side.relation).keys = (r.targetsIn side.relation).keys)
    (hprimaries : (side.relations r').primaries = (side.relations r).primaries)
    (hempty : (side.relations r').types.keys = [] ↔ (side.relations r).types.keys = [])
    (hverdict : Option.Rel (Ty.AgreesIn keep) ((declared side d).typeFor? r)
      ((declared side d).typeFor? r')) : Alike side d keep r r' := by
  refine ⟨h, h', htargets, hprimaries, hempty, hverdict.imp fun hv hv' hagrees => ?_⟩
  exact ⟨hagrees, h.single_typeFor? hv, h'.single_typeFor? hv'⟩

end Bounds

end QualifiedInference
