-- SUMMARY: Answers after one type of a record is replaced by another one.
import QualifiedInference.Proofs.Bounds.RecordingOrder
import QualifiedInference.Proofs.Noninterference.Records
import QualifiedInference.Proofs.Unrelated
import QualifiedInference.Strategy.BuiltIn
/-!
# One type in the place of another

Strategies do not read the hierarchies that a relation is recorded in
(`BuiltIn.solve_of_sameOperands`), so a type has its say in all of them. Yet hierarchies do not mix:
where a type takes the place of another one of its kind, the answers are the same in each hierarchy
in which the record of the target comes to the same on its own. In particular they are the same
where the two types have the same qualifiers, and everywhere if the record comes to the same type.
-/

namespace QualifiedInference

/-! ## Replacing a type -/

namespace OrderedMap

variable {κ α : Type} [DecidableEq κ]

/-- `k'` in the place of `k`, unless it has a place of its own. -/
def replaceKey (m : OrderedMap κ α) (k k' : κ) : OrderedMap κ α :=
  if h : k' ∈ m then m
  else {
    entries := m.entries.map fun e => (if e.1 = k then k' else e.1, e.2)
    nodup_keys := by
      rw [List.map_map, show (Prod.fst ∘ fun e : κ × α => (if e.1 = k then k' else e.1, e.2)) =
        (fun x => if x = k then k' else x) ∘ Prod.fst from rfl, ← List.map_map]
      refine m.nodup_keys.map_on fun x hx y hy => ?_
      have hne : ∀ z ∈ m.entries.map Prod.fst, z ≠ k' := fun z hz heq => h (heq ▸ hz)
      split <;> split
      · next hxk hyk => exact fun _ => hxk.trans hyk.symm
      · exact fun heq => absurd heq.symm (hne y hy)
      · exact fun heq => absurd heq (hne x hx)
      · exact id }

theorem keys_replaceKey (m : OrderedMap κ α) {k k' : κ} (h : k' ∉ m) :
    (m.replaceKey k k').keys = m.keys.map fun x => if x = k then k' else x := by
  rw [replaceKey, dif_neg h]
  simp [keys]

theorem replaceKey_of_mem {m : OrderedMap κ α} {k k' : κ} (h : k' ∈ m) : m.replaceKey k k' = m :=
  dif_pos h

end OrderedMap

namespace Record

/-- `ty'` in the place of `ty` among the types in one relation. -/
def replaceType (r : Record) (rel : Relation) (ty ty' : Ty) : Record :=
  match rel with
  | .equal =>
    { r with equalities := { r.equalities with types := r.equalities.types.replaceKey ty ty' } }
  | .subtype =>
    { r with subtypes := { r.subtypes with types := r.subtypes.types.replaceKey ty ty' } }
  | .supertype =>
    { r with supertypes := { r.supertypes with types := r.supertypes.types.replaceKey ty ty' } }

variable (r : Record) (rel rel' : Relation) (ty ty' : Ty)

@[simp] theorem targetsIn_replaceType :
    (r.replaceType rel ty ty').targetsIn rel' = r.targetsIn rel' := by
  cases rel <;> cases rel' <;> rfl

theorem typesIn_replaceType : (r.replaceType rel ty ty').typesIn rel' =
    if rel' = rel then (r.typesIn rel).replaceKey ty ty' else r.typesIn rel' := by
  cases rel <;> cases rel' <;> rfl

@[simp] theorem exact_replaceType :
    (r.replaceType rel ty ty').equalities.exact = r.equalities.exact := by
  cases rel <;> rfl

@[simp] theorem primaries_replaceType (side : Side) :
    (side.relations (r.replaceType rel ty ty')).primaries = (side.relations r).primaries := by
  cases rel <;> cases side <;> rfl

end Record

namespace Record

variable {r : Record} {rel rel' : Relation} {ty ty' : Ty}

theorem forall₂_replaceType {E : Ty → Ty → Prop} (h : E ty ty')
    (hrefl : ∀ x ∈ r.typesIn rel', E x x) : List.Forall₂ E (r.typesIn rel').keys
      ((r.replaceType rel ty ty').typesIn rel').keys := by
  have hsame : List.Forall₂ E (r.typesIn rel').keys (r.typesIn rel').keys :=
    List.forall₂_same.2 hrefl
  rw [typesIn_replaceType]
  split
  · next heq =>
    subst heq
    by_cases hmem : ty' ∈ r.typesIn rel'
    · rwa [OrderedMap.replaceKey_of_mem hmem]
    · rw [OrderedMap.keys_replaceKey _ hmem, List.forall₂_map_right_iff]
      refine List.forall₂_same.2 fun x hx => ?_
      split
      · next hxty => exact hxty ▸ h
      · exact hrefl x hx
  · exact hsame

theorem mem_typesIn_replaceType {x : Ty} (h : x ∈ (r.replaceType rel ty ty').typesIn rel') :
    x = ty' ∨ x ∈ r.typesIn rel' := by
  rw [typesIn_replaceType] at h
  split at h
  · next heq =>
    subst heq
    by_cases hmem : ty' ∈ r.typesIn rel'
    · rw [OrderedMap.replaceKey_of_mem hmem] at h
      exact .inr h
    · rw [OrderedMap.mem_def, OrderedMap.keys_replaceKey _ hmem] at h
      obtain ⟨y, hy, rfl⟩ := List.mem_map.1 h
      split
      · exact .inl rfl
      · exact .inr hy
  · exact .inr h

end Record

namespace Store

/-- `ty'` in the place of `ty` among the types in one relation to `t`. -/
def replaceType (s : Store) (t : Target) (rel : Relation) (ty ty' : Ty) : Store :=
  s.write t fun r => r.replaceType rel ty ty'

theorem record?_replaceType_self {s : Store} {t : Target} {r : Record} (h : s.record? t = some r)
    (rel : Relation) (ty ty' : Ty) :
    (s.replaceType t rel ty ty').record? t = some (r.replaceType rel ty ty') := by
  rw [replaceType, record?_write, if_pos rfl, h]
  rfl

theorem rel_replaceType {R : Record → Record → Prop} {s : Store} {t : Target} {rel : Relation}
    {ty ty' : Ty} (hself : ∀ r, s.record? t = some r → R r (r.replaceType rel ty ty'))
    (hother : ∀ u r, s.record? u = some r → R r r) (u : Target) :
    Option.Rel R (s.record? u) ((s.replaceType t rel ty ty').record? u) := by
  rw [replaceType, record?_write]
  split
  · next hut =>
    subst hut
    cases hr : s.record? u with
    | none => exact .none
    | some r => exact .some (hself r hr)
  · exact .refl (hother u)

end Store

namespace BuiltIn

/-- The relations that a strategy reads. -/
def relation : BuiltIn → Relation
  | equalities => .equal
  | supertypes => .supertype
  | subtypes => .subtype

/-- The type that a strategy makes of a record on its own. -/
def verdict? (types : TypeOrder) (qualifiers : QualifierOrder) : BuiltIn → Record → Option Ty
  | equalities => Equalities.equalType?
  | supertypes => Bounds.typeFor? ⟨.lower, types, qualifiers⟩
  | subtypes => Bounds.typeFor? ⟨.upper, types, qualifiers⟩

section Solve

variable (types : TypeOrder) (qualifiers : QualifierOrder) (b : BuiltIn) {s s' : Store}
  (established : Answers)

/-- The tops that targets and types are recorded with decide nothing. -/
theorem solve_of_sameOperands (htargets : s'.targets = s.targets)
    (hrecords : ∀ t, Option.Rel Record.SameOperands (s.record? t) (s'.record? t)) (t : Target) :
    ((b.strategy types qualifiers).solve s' established).2.get? t =
      ((b.strategy types qualifiers).solve s established).2.get? t := by
  have hmatch : Answers.Match Eq ((b.strategy types qualifiers).solve s established).2
      ((b.strategy types qualifiers).solve s' established).2 := by
    cases b with
    | equalities =>
      exact Equalities.match_solve Equalities.congruence_sameOperands (fun _ _ _ => rfl)
        (fun h => by rw [Relations.exact, Relations.exact, h.exact])
        (fun _ _ extra h => congrArg (Ty.overlay · extra) h) htargets hrecords
    | supertypes =>
      exact Bounds.match_solve (Bounds.congruence_sameOperands _) (fun _ _ _ => rfl) htargets
        hrecords
    | subtypes =>
      exact Bounds.match_solve (Bounds.congruence_sameOperands _) (fun _ _ _ => rfl) htargets
        hrecords
  exact hmatch.get?_eq t

end Solve

end BuiltIn

/-! ## Verdicts after the replacement -/

section Verdicts

variable {keep : HierarchyId → Prop} {r : Record} {rel : Relation} {ty ty' : Ty}

theorem Equalities.equalType?_replaceType (h : ty.AgreesIn keep ty') :
    Option.Rel (Ty.AgreesIn keep) (equalType? r) (equalType? (r.replaceType rel ty ty')) := by
  have hkeys : List.Forall₂ (Ty.AgreesIn keep) r.equalities.types.keys
      (r.replaceType rel ty ty').equalities.types.keys := by
    rw [show r.equalities.types = r.typesIn .equal from rfl]
    exact Record.forall₂_replaceType h fun x _ => .refl x
  rw [equalType?, equalType?, Record.exact_replaceType]
  exact hkeys.rel_head?.map fun hab => hab.overlay (.refl _)

namespace Bounds

variable {side : Side} {d : NominalTypes}

theorem Regular.replaceType (h : Regular side r) (hty' : ty'.qualifiers.Single) :
    Regular side (r.replaceType rel ty ty') where
  keyed := fun top qs hget => h.keyed top qs (Record.primaries_replaceType .. ▸ hget)
  single := by
    intro bound hbound
    rw [types_relations] at hbound
    rcases Record.mem_typesIn_replaceType hbound with rfl | hbound
    · exact hty'
    · exact h.single bound (types_relations side r ▸ hbound)

/-- Types in other relations are not read. -/
theorem typeFor?_replaceType_of_ne (b : Bounds) (h : b.side.relation ≠ rel) :
    b.typeFor? (r.replaceType rel ty ty') = b.typeFor? r := by
  have htypes : (b.side.relations (r.replaceType rel ty ty')).types =
      (b.side.relations r).types := by
    rw [types_relations, types_relations, Record.typesIn_replaceType, if_neg h]
  rw [typeFor?, typeFor?, htypes, Record.primaries_replaceType]

theorem typeFor?_replaceType (hr : Regular side r) (h : ty.AgreesSingly keep ty') :
    Option.Rel (Ty.AgreesSingly keep) ((declared side d).typeFor? r)
      ((declared side d).typeFor? (r.replaceType rel ty ty')) := by
  have hkeys : List.Forall₂ (Ty.AgreesSingly keep) (side.relations r).types.keys
      (side.relations (r.replaceType rel ty ty')).types.keys := by
    simp only [types_relations]
    refine Record.forall₂_replaceType h fun x hx => .refl (hr.single x ?_)
    exact types_relations side r ▸ hx
  rw [typeFor?, typeFor?, Record.primaries_replaceType]
  exact (combineAll?_agree hkeys).map fun hab => overlay_qualifiersFor_agree hr.keyed hab

end Bounds

end Verdicts

/-! ## Answers after the replacement -/

section Answers

variable {keep : HierarchyId → Prop} {d : NominalTypes} {s : Store} {established : Answers}
  {t : Target} {r : Record} {rel : Relation} {ty ty' : Ty} (hr : s.record? t = some r)

include hr

theorem Equalities.match_replaceType
    (hverdict : Option.Rel (Ty.AgreesIn keep) (equalType? r)
      (equalType? (r.replaceType rel ty ty'))) :
    Answers.Match (Ty.AgreesIn keep) (solve s established).2
      (solve (s.replaceType t rel ty ty') established).2 := by
  refine match_solve congruence (fun _ ty _ => .refl ty) (·.exact)
    (fun _ _ _ h => h.overlay (.refl _)) (s.targets_write t _)
    (Store.rel_replaceType (fun r' hr' => ?_) fun _ _ _ =>
      ⟨rfl, rfl, .refl fun ty _ => .refl ty⟩)
  obtain rfl := Option.some.inj (hr.symm.trans hr')
  exact ⟨by rw [Record.targetsIn_replaceType], Record.exact_replaceType .., hverdict⟩

theorem Bounds.match_replaceType {side : Side} (hs : s.Recorded .chains)
    (hsingle : ∀ u r, s.record? u = some r → ∀ bound ∈ r.typesIn side.relation,
      bound.qualifiers.Single)
    (hestablished : ∀ u uty, established.typeOf? u = some uty → uty.qualifiers.Single)
    (hty' : ty'.qualifiers.Single)
    (hverdict : Option.Rel (Ty.AgreesIn keep) ((declared side d).typeFor? r)
      ((declared side d).typeFor? (r.replaceType rel ty ty'))) :
    Answers.Match (Ty.AgreesIn keep) ((declared side d).solve s established).2
      ((declared side d).solve (s.replaceType t rel ty ty') established).2 := by
  have hregular : ∀ {u r}, s.record? u = some r → Regular side r := fun hu =>
    ⟨(hs.keyed hu).bounds side, types_relations side _ ▸ hsingle _ _ hu⟩
  -- Only the types change, and not their number.
  have hempty : (side.relations (r.replaceType rel ty ty')).types.keys = [] ↔
      (side.relations r).types.keys = [] := by
    have hkeys : List.Forall₂ (fun _ _ => True) (r.typesIn side.relation).keys
        ((r.replaceType rel ty ty').typesIn side.relation).keys :=
      Record.forall₂_replaceType trivial fun _ _ => trivial
    rw [types_relations, types_relations, ← List.length_eq_zero_iff, ← hkeys.length_eq,
      List.length_eq_zero_iff]
  have hrecords : ∀ u, Option.Rel (Alike side d keep) (s.record? u)
      ((s.replaceType t rel ty ty').record? u) := by
    refine Store.rel_replaceType (fun r' hr' => ?_) fun u r' hr' => ?_
    · obtain rfl := Option.some.inj (hr.symm.trans hr')
      exact (hregular hr).alike ((hregular hr).replaceType hty')
        (by rw [Record.targetsIn_replaceType]) (Record.primaries_replaceType ..) hempty hverdict
    · exact (hregular hr').alike (hregular hr') rfl rfl Iff.rfl (.refl fun ty _ => .refl ty)
  have hcongruence : Record.Congruence (declared side d).side.relation (declared side d).typeFor?
      (Ty.AgreesSingly keep) (Alike side d keep) := congruence
  have hmatch : Answers.Match (Ty.AgreesSingly keep) ((declared side d).solve s established).2
      ((declared side d).solve (s.replaceType t rel ty ty') established).2 :=
    match_solve hcongruence (fun u uty hu => .refl (hestablished u uty hu)) (s.targets_write t _)
      hrecords
  exact hmatch.mono (·.toAgreesIn)

end Answers

namespace BuiltIn

variable {d : NominalTypes} {b : BuiltIn} {s : Store} {established : Answers} {t : Target}
  {r : Record} {rel : Relation} {ty ty' : Ty}

/-- A target that is related to no other gets what its record determines. -/
theorem get?_solve_of_unrelated (types : TypeOrder) (qualifiers : QualifierOrder)
    (hr : s.record? t = some r) (hfinal : established.isFinal t = false)
    (hrelated : (r.targetsIn b.relation).keys = []) :
    ((b.strategy types qualifiers).solve s established).2.get? t =
      (b.verdict? types qualifiers r).map .type := by
  cases b with
  | equalities => exact Equalities.get?_solve_of_unrelated hrelated hr hfinal
  | supertypes => exact Bounds.get?_solve_of_unrelated hrelated hr hfinal
  | subtypes => exact Bounds.get?_solve_of_unrelated hrelated hr hfinal

/-- What the strategies over bounds ask of a store and of established types: at most one qualifier
    of a hierarchy. -/
structure AllSingle (b : BuiltIn) (s : Store) (established : Answers) : Prop where
  recorded : ∀ t r, s.record? t = some r → ∀ bound ∈ r.typesIn b.relation, bound.qualifiers.Single
  established : ∀ t ty, established.typeOf? t = some ty → ty.qualifiers.Single

theorem verdict?_replaceType {keep : HierarchyId → Prop} (hr : r.Keyed .chains)
    (hty : ty ∈ r.typesIn rel) (h : ty.AgreesIn keep ty')
    (hsingle : b ≠ equalities →
      (∀ bound ∈ r.typesIn b.relation, bound.qualifiers.Single) ∧ ty'.qualifiers.Single) :
    Option.Rel (Ty.AgreesIn keep) (b.verdict? (d.typeOrder .chains) .chains r)
      (b.verdict? (d.typeOrder .chains) .chains (r.replaceType rel ty ty')) := by
  have hbounds : ∀ {side : Side}, (∀ bound ∈ r.typesIn side.relation, bound.qualifiers.Single) →
      ty'.qualifiers.Single → Option.Rel (Ty.AgreesIn keep) ((Bounds.declared side d).typeFor? r)
        ((Bounds.declared side d).typeFor? (r.replaceType rel ty ty')) := by
    intro side hrecorded hty'
    by_cases hrel : side.relation = rel
    · subst hrel
      have hregular : Bounds.Regular side r :=
        ⟨hr.bounds side, Bounds.types_relations side r ▸ hrecorded⟩
      have hverdict : Option.Rel (Ty.AgreesSingly keep) ((Bounds.declared side d).typeFor? r)
          ((Bounds.declared side d).typeFor? (r.replaceType side.relation ty ty')) :=
        Bounds.typeFor?_replaceType hregular ⟨h, hrecorded ty hty, hty'⟩
      exact hverdict.imp fun _ _ hab => hab.toAgreesIn
    · rw [Bounds.typeFor?_replaceType_of_ne (Bounds.declared side d) hrel]
      exact .refl fun ty _ => .refl ty
  cases b with
  | equalities => exact Equalities.equalType?_replaceType h
  | supertypes => exact hbounds (hsingle nofun).1 (hsingle nofun).2
  | subtypes => exact hbounds (hsingle nofun).1 (hsingle nofun).2

/-- Where one type stands in the place of another one of its kind, every target is answered with
    the same kind or the same alias as before, or not at all as before. In every hierarchy in which
    the two have the same qualifiers, be it among the tops that the relation is recorded with or
    not, so have the answers. In the other hierarchies the answers are the same if the record of the
    target determines the same there on its own; a target related to no other in what the strategy
    reads needs that. -/
theorem solve_replaceType (d : NominalTypes) (b : BuiltIn) (s : Store) (established : Answers)
    (t : Target) (r : Record) (rel : Relation) (ty ty' : Ty) (hs : s.Recorded .chains)
    (hr : s.record? t = some r) (hty : ty ∈ r.typesIn rel) (hbare : ty.bare = ty'.bare)
    (hsingle : b ≠ equalities → b.AllSingle s established ∧ ty'.qualifiers.Single) :
    let verdict? := b.verdict? (d.typeOrder .chains) .chains
    let r' := r.replaceType rel ty ty'
    let found := ((b.strategy (d.typeOrder .chains) .chains).solve s established).2
    let found' := ((b.strategy (d.typeOrder .chains) .chains).solve
      (s.replaceType t rel ty ty') established).2
    (∀ keep, Qualifiers.AgreeIn keep ty.qualifiers ty'.qualifiers →
      Answers.Match (Ty.AgreesIn keep) found found') ∧
    (∀ keep, Option.Rel (Ty.AgreesIn keep) (verdict? r) (verdict? r') →
      Answers.Match (Ty.AgreesIn keep) found found') ∧
    (verdict? r' = verdict? r → ∀ u, found'.get? u = found.get? u) ∧
    (established.isFinal t = false → (r.targetsIn b.relation).keys = [] →
      found'.get? t = found.get? t → verdict? r' = verdict? r) := by
  intro verdict? r' found found'
  -- All is a matter of the verdicts on the one record that changes.
  have hmatch : ∀ keep, Option.Rel (Ty.AgreesIn keep) (verdict? r) (verdict? r') →
      Answers.Match (Ty.AgreesIn keep) found found' := by
    intro keep hverdict
    cases b with
    | equalities => exact Equalities.match_replaceType hr hverdict
    | supertypes =>
      obtain ⟨hall, hty'⟩ := hsingle nofun
      exact Bounds.match_replaceType hr hs hall.recorded hall.established hty' hverdict
    | subtypes =>
      obtain ⟨hall, hty'⟩ := hsingle nofun
      exact Bounds.match_replaceType hr hs hall.recorded hall.established hty' hverdict
  refine ⟨fun keep hagree => hmatch keep ?_, hmatch, fun hsame u => ?_,
    fun hfinal hrelated hget => ?_⟩
  · exact verdict?_replaceType (hs.keyed hr) hty ⟨hbare, hagree⟩ fun hb =>
      ⟨(hsingle hb).1.recorded t r hr, (hsingle hb).2⟩
  · have hrefl : Option.Rel (Ty.AgreesIn fun _ => True) (verdict? r) (verdict? r') :=
      hsame ▸ Option.Rel.refl fun ty _ => .refl ty
    exact ((hmatch _ hrefl).mono (·.eq)).get?_eq u
  · have hr' : (s.replaceType t rel ty ty').record? t = some r' :=
      Store.record?_replaceType_self hr rel ty ty'
    have hrelated' : (r'.targetsIn b.relation).keys = [] := by
      rw [Record.targetsIn_replaceType, hrelated]
    have hverdict := (get?_solve_of_unrelated (d.typeOrder .chains) .chains hr' hfinal
      hrelated').symm.trans (hget.trans (get?_solve_of_unrelated (d.typeOrder .chains) .chains hr
        hfinal hrelated))
    exact Option.map_injective (fun _ _ => Answer.type.inj) hverdict

def qualifiedString (qs : Qualifiers) : Ty := .named "String" [] qs

/-- The first target has two lower bounds, the second one recorded in the second hierarchy only. The
    second target is above the first one. -/
def overruledStore : Store :=
  (((Store.new 0 [⟨1⟩, ⟨2⟩]).write ⟨2⟩ fun r =>
    r.relate .chains .supertype (.target ⟨1⟩ ∅)).write ⟨1⟩ fun r =>
    r.relate .chains .supertype (.type (qualifiedString (.singleton ⟨0, 0⟩)) ∅)).write ⟨1⟩ fun r =>
    r.relate .chains .supertype
      (.type (qualifiedString ((Qualifiers.singleton ⟨0, 1⟩).insert ⟨1, 1⟩)) (.singleton ⟨1, 0⟩))

theorem recorded_overruledStore : overruledStore.Recorded .chains := by
  have hnew : (Store.new 0 [⟨1⟩, ⟨2⟩]).Recorded .chains := .new 0 _
  have h₁ := hnew.write (t := ⟨2⟩) (by decide +kernel) .supertype (.target ⟨1⟩ ∅)
  have h₂ := h₁.write (t := ⟨1⟩) (by decide +kernel) .supertype
    (.type (qualifiedString (.singleton ⟨0, 0⟩)) ∅)
  exact h₂.write (by decide +kernel) .supertype
    (.type (qualifiedString ((Qualifiers.singleton ⟨0, 1⟩).insert ⟨1, 1⟩)) (.singleton ⟨1, 0⟩))

/-- The other bound has the top of the first hierarchy, so the qualifier below it does not count. -/
theorem solve_replaceType_overruled :
    let ty := qualifiedString ((Qualifiers.singleton ⟨0, 1⟩).insert ⟨1, 1⟩)
    let s' := overruledStore.replaceType ⟨1⟩ .supertype ty (qualifiedString (.singleton ⟨1, 1⟩))
    (∀ u, (Bounds.collectionBounds.solve s' ∅).2.get? u =
      (Bounds.collectionBounds.solve overruledStore ∅).2.get? u) ∧
    (Bounds.collectionBounds.solve overruledStore ∅).2.get? ⟨2⟩ =
      some (.type (qualifiedString ((Qualifiers.singleton ⟨0, 0⟩).insert ⟨1, 1⟩))) := by
  intro ty s'
  obtain ⟨r, hr⟩ := Option.isSome_iff_exists.1
    (by decide +kernel : (overruledStore.record? ⟨1⟩).isSome = true)
  have hrecord : ∀ r ∈ overruledStore.record? ⟨1⟩, ty ∈ r.typesIn .supertype ∧
      verdict? (Bounds.collections.typeOrder .chains) .chains supertypes
          (r.replaceType .supertype ty (qualifiedString (.singleton ⟨1, 1⟩))) =
        verdict? (Bounds.collections.typeOrder .chains) .chains supertypes r := by decide +kernel
  have hall : ∀ t ∈ overruledStore.targets, ∀ r ∈ overruledStore.record? t,
      ∀ bound ∈ (r.typesIn .supertype).keys, bound.qualifiers.Single := by decide +kernel
  have hsingle : supertypes.AllSingle overruledStore ∅ :=
    ⟨fun t r hr => hall t (Store.mem_targets_of_record? hr) r hr,
      fun t ty h => absurd h Answers.typeOf?_empty_ne_some⟩
  obtain ⟨-, -, hsame, -⟩ := solve_replaceType Bounds.collections supertypes overruledStore ∅ ⟨1⟩ r
    .supertype ty (qualifiedString (.singleton ⟨1, 1⟩)) recorded_overruledStore hr
    (hrecord r hr).1 rfl fun _ => ⟨hsingle, by decide +kernel⟩
  refine ⟨hsame (hrecord r hr).2, ?_⟩
  unfold Bounds.solve
  rw [Bounds.rounds_of_answered (by decide +kernel), Bounds.rounds_of_idle (by decide +kernel),
    Bounds.rounds_of_exhausted (by decide +kernel)]
  decide +kernel

/-- A target in each relation to one type. The relations are recorded in the second hierarchy only;
    the type has a qualifier of the first one. -/
def restrictedStore : Store :=
  [Relation.equal, .subtype, .supertype].foldl (fun s rel => s.write ⟨1⟩ fun r =>
    r.relate .chains rel (.type (qualifiedString (.singleton ⟨0, 1⟩)) (.singleton ⟨1, 0⟩)))
    (Store.new 0 [⟨1⟩])

/-- Of the first hierarchy nothing is recorded, yet each strategy answers with the qualifier that
    the type has there. -/
theorem solve_ignores_tops :
    let tops := Qualifiers.singleton ⟨1, 0⟩
    let ty := qualifiedString (.singleton ⟨0, 1⟩)
    let ty' := qualifiedString ∅
    ty.AgreesIn (fun h => .top h ∈ tops) ty' ∧
    (∃ r, restrictedStore.record? ⟨1⟩ = some r ∧ ∀ b : BuiltIn,
      (r.typesIn b.relation).get? ty = some tops ∧ ty' ∉ r.typesIn b.relation) ∧
    ∀ b : BuiltIn, let solve := (b.strategy (Bounds.collections.typeOrder .chains) .chains).solve
      (solve restrictedStore ∅).2.get? ⟨1⟩ = some (.type ty) ∧
        (solve (restrictedStore.replaceType ⟨1⟩ b.relation ty ty') ∅).2.get? ⟨1⟩ =
          some (.type ty') := by
  intro tops ty ty'
  obtain ⟨r, hr⟩ := Option.isSome_iff_exists.1
    (by decide +kernel : (restrictedStore.record? ⟨1⟩).isSome = true)
  have hrecord : ∀ r ∈ restrictedStore.record? ⟨1⟩, ∀ b ∈ all,
      (r.typesIn b.relation).get? ty = some tops ∧ ty' ∉ r.typesIn b.relation ∧
      (r.targetsIn b.relation).keys = [] ∧
      b.verdict? (Bounds.collections.typeOrder .chains) .chains r = some ty ∧
      b.verdict? (Bounds.collections.typeOrder .chains) .chains (r.replaceType b.relation ty ty') =
        some ty' := by decide +kernel
  replace hrecord : ∀ b : BuiltIn, _ := fun b => hrecord r hr b (by cases b <;> decide)
  refine ⟨⟨rfl, ?_⟩, ⟨r, hr, fun b => ⟨(hrecord b).1, (hrecord b).2.1⟩⟩, fun b => ?_⟩
  · have hall : ∀ q ∈ ty.qualifiers, .top q.hierarchy ∉ tops := by decide
    exact fun q hq => ⟨fun hmem => absurd hq (hall q hmem), fun hmem => nomatch hmem⟩
  · obtain ⟨-, -, hrelated, hverdict, hverdict'⟩ := hrecord b
    have hr' := Store.record?_replaceType_self hr b.relation ty ty'
    constructor
    · rw [get?_solve_of_unrelated _ _ hr rfl hrelated, hverdict]
      rfl
    · have hrelated' := hrelated
      rw [← Record.targetsIn_replaceType r b.relation b.relation ty ty'] at hrelated'
      rw [get?_solve_of_unrelated _ _ hr' rfl hrelated', hverdict']
      rfl

end BuiltIn

end QualifiedInference
