-- SUMMARY: Records and stores that a run has enriched with types.
import QualifiedInference.Proofs.Recording
/-!
# Enriched records and stores

All that a run writes are types, which it knows of the targets that are related to one another. So
each record of its store has the targets and the bare qualifiers that it had at the start, and
maybe more types. What the types of the store and the types that are known have in common, the
types of the enriched store have in common too.
-/

namespace QualifiedInference

namespace Record

variable {r r' : Record} {rel : Relation} {P : Ty → Prop}

theorem exact_relateType (r : Record) (rel : Relation) (ty : Ty) (tops : Qualifiers) :
    (r.relateType rel ty tops).equalities.primaries = r.equalities.primaries := by
  cases rel <;> rfl

theorem bounds_relateType (side : Side) (r : Record) (rel : Relation) (ty : Ty)
    (tops : Qualifiers) :
    (side.relations (r.relateType rel ty tops)).primaries = (side.relations r).primaries := by
  cases side <;> cases rel <;> rfl

theorem keys_typesIn_relateType (r : Record) (rel rel' : Relation) (ty : Ty) (tops : Qualifiers) :
    ((r.relateType rel ty tops).typesIn rel').keys =
      if rel' = rel ∧ ty ∉ r.typesIn rel then (r.typesIn rel').keys ++ [ty]
      else (r.typesIn rel').keys := by
  by_cases h : rel' = rel
  · subst h
    rw [typesIn_relateType, OrderedMap.keys_upsert]
    split <;> simp_all
  · rw [if_neg fun hand => h hand.1, typesIn_relateType_of_ne h]

/-- Types are recorded behind those that are there. -/
theorem head?_typesIn_relateTypes (r : Record) (rel : Relation) (types : List (Ty × Qualifiers)) :
    ((r.relateTypes rel types).typesIn rel).keys.head? =
      (r.typesIn rel).keys.head?.or (types.map Prod.fst).head? := by
  induction types generalizing r with
  | nil => exact (Option.or_none ..).symm
  | cons e types ih =>
    have hstep := keys_typesIn_relateType r rel rel e.1 e.2
    refine (ih (r.relateType rel e.1 e.2)).trans ?_
    cases hkeys : (r.typesIn rel).keys with
    | nil =>
      have hnew : e.1 ∉ r.typesIn rel := by rw [OrderedMap.mem_def, hkeys]; exact List.not_mem_nil
      rw [hstep, if_pos ⟨rfl, hnew⟩, hkeys]
      rfl
    | cons first rest =>
      rw [hstep, hkeys]
      split <;> rfl

theorem exact_relateTypes (r : Record) (rel : Relation) (types : List (Ty × Qualifiers)) :
    (r.relateTypes rel types).equalities.primaries = r.equalities.primaries := by
  induction types generalizing r with
  | nil => rfl
  | cons e types ih => exact (ih _).trans (exact_relateType r rel e.1 e.2)

theorem bounds_relateTypes (side : Side) (r : Record) (rel : Relation)
    (types : List (Ty × Qualifiers)) :
    (side.relations (r.relateTypes rel types)).primaries = (side.relations r).primaries := by
  induction types generalizing r with
  | nil => rfl
  | cons e types ih => exact (ih _).trans (bounds_relateType side r rel e.1 e.2)

/-- `r'` has the bare qualifiers of `r`, in one relation the targets of `r` and maybe some types
    more, and `P` holds of all its types there. -/
structure Enriched (rel : Relation) (P : Ty → Prop) (r r' : Record) : Prop where
  exact : r'.equalities.primaries = r.equalities.primaries
  bounds : ∀ side : Side, (side.relations r').primaries = (side.relations r).primaries
  targets : r'.targetsIn rel = r.targetsIn rel
  keeps : ∀ ty ∈ r.typesIn rel, ty ∈ r'.typesIn rel
  all : ∀ ty ∈ r'.typesIn rel, P ty

namespace Enriched

theorem refl (h : ∀ ty ∈ r.typesIn rel, P ty) : r.Enriched rel P r :=
  ⟨rfl, fun _ => rfl, rfl, fun _ => id, h⟩

theorem relateTypes (h : r.Enriched rel P r') {types : List (Ty × Qualifiers)}
    (htypes : ∀ ty ∈ types.map Prod.fst, P ty) : r.Enriched rel P (r'.relateTypes rel types) where
  exact := (exact_relateTypes ..).trans h.exact
  bounds side := (bounds_relateTypes ..).trans (h.bounds side)
  targets := (targetsIn_relateTypes ..).trans h.targets
  keeps ty hty := mem_typesIn_relateTypes.2 (.inl (h.keeps ty hty))
  all ty hty := by
    rcases mem_typesIn_relateTypes.1 hty with hty | hty
    · exact h.all ty hty
    · exact htypes ty hty

theorem allBounds {K : Qualifier → Qualifier → Prop} {side : Side} (h : r.Enriched rel P r')
    (hr : (side.relations r).AllBounds K) : (side.relations r').AllBounds K :=
  fun top qs hqs => hr top qs (h.bounds side ▸ hqs)

end Enriched

end Record

/-- What is found and what is established is all that is known. -/
theorem Solving.typeOf?_induction {st : Solving} {established : Answers} {P : Ty → Prop}
    (hfound : ∀ {t ty}, st.found.typeOf? t = some ty → P ty)
    (hestablished : ∀ {t ty}, established.typeOf? t = some ty → P ty) {t : Target} {ty : Ty}
    (h : st.typeOf? established t = some ty) : P ty := by
  rcases Option.or_eq_some_iff.1 h with h | ⟨-, h⟩
  · exact hfound h
  · exact hestablished h

namespace Store

/-- A store with the targets of `s` and enriched records. -/
structure Enriched (rel : Relation) (P : Ty → Prop) (s s' : Store) : Prop where
  targets : s'.targets = s.targets
  record : ∀ {t r'}, s'.record? t = some r' → ∃ r, s.record? t = some r ∧ r.Enriched rel P r'

variable {s : Store} {rel : Relation} {P : Ty → Prop}

theorem Enriched.refl (h : ∀ {t r}, s.record? t = some r → ∀ ty ∈ r.typesIn rel, P ty) :
    s.Enriched rel P s :=
  ⟨rfl, fun hr => ⟨_, hr, .refl (h hr)⟩⟩

/-- To learn types with the property is to enrich one record. -/
theorem Enriched.learn {st : Solving} (h : s.Enriched rel P st.store) {established : Answers}
    (hknown : ∀ {u ty}, st.typeOf? established u = some ty → P ty) (t : Target)
    (related : Record → OrderedMap Target Qualifiers) :
    s.Enriched rel P (st.learn established t rel related).store := by
  refine ⟨(Solving.targets_learn ..).trans h.targets, fun {u r'} hr => ?_⟩
  rcases eq_or_ne u t with rfl | hut
  · rw [Solving.record?_learn_self] at hr
    obtain ⟨r', hr', rfl⟩ := Option.map_eq_some_iff.1 hr
    obtain ⟨r, hr, henriched⟩ := h.record hr'
    refine ⟨r, hr, henriched.relateTypes fun ty hty => ?_⟩
    obtain ⟨v, -, hv⟩ := Solving.mem_evidence.1 hty
    exact hknown hv
  · rw [Solving.record?_learn_of_ne _ _ _ _ _ hut] at hr
    exact h.record hr

end Store

end QualifiedInference
