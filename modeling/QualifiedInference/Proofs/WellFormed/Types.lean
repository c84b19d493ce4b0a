-- SUMMARY: Types over declared names and registered qualifiers, kept by joins, meets and overlays.
import QualifiedInference.Hierarchies
import QualifiedInference.Proofs.Bounds.Enclosure
import QualifiedInference.Proofs.Declarations
import QualifiedInference.Proofs.Inference
/-!
# Well-formed types

A type is well formed over declared types and registered hierarchies if all its names are declared
and each of its sets of qualifiers has registered members only, at most one of a hierarchy. What
joins and meets put together of well-formed types is well formed, and so is what bare bounds and
exact qualifiers make of it.
-/

namespace QualifiedInference

open NominalTypes QualifierOrder

/-! ## Qualifiers -/

/-- Registered members only, and at most one of a hierarchy. -/
structure Qualifiers.WellFormed (hs : Hierarchies) (qs : Qualifiers) : Prop where
  single : qs.Single
  registered : ∀ q ∈ qs, (hs.name? q).isSome

variable {hs : Hierarchies} {d : NominalTypes}

namespace Qualifiers

variable {qs qs' : Qualifiers}

theorem WellFormed.empty : WellFormed hs ∅ :=
  ⟨fun _ hp => absurd hp List.not_mem_nil, fun _ hq => absurd hq List.not_mem_nil⟩

theorem WellFormed.insert (h : qs.WellFormed hs) {q : Qualifier} (hq : (hs.name? q).isSome)
    (hnew : ∀ p ∈ qs, p.hierarchy ≠ q.hierarchy) : (qs.insert q).WellFormed hs := by
  refine ⟨fun p hp p' hp' hhier => ?_, fun p hp => ?_⟩
  · rcases mem_insert.1 hp with rfl | hold <;> rcases mem_insert.1 hp' with rfl | hold'
    · rfl
    · exact absurd hhier.symm (hnew p' hold')
    · exact absurd hhier (hnew p hold)
    · exact h.single p hold p' hold' hhier
  · rcases mem_insert.1 hp with rfl | hp
    · exact hq
    · exact h.registered p hp

theorem WellFormed.overlay (h : qs.WellFormed hs) (h' : qs'.WellFormed hs) :
    (qs.overlay qs').WellFormed hs := by
  refine ⟨fun p hp q hq hhier => ?_, fun q hq => ?_⟩
  · rcases mem_overlay.1 hp with hp | ⟨hp, hpnone⟩ <;>
      rcases mem_overlay.1 hq with hq | ⟨hq, hqnone⟩
    · exact h'.single p hp q hq hhier
    · exact absurd hhier (hqnone p hp)
    · exact absurd hhier.symm (hpnone q hq)
    · exact h.single p hp q hq hhier
  · rcases mem_overlay.1 hq with hq | ⟨hq, -⟩
    · exact h'.registered q hq
    · exact h.registered q hq

theorem WellFormed.combine {side : Side} (h : qs.WellFormed hs) (h' : qs'.WellFormed hs) :
    (combine (side.combineQualifiers? .chains) qs qs').WellFormed hs where
  single := Side.single_combine h.single h'.single
  registered _ hq := ((Side.mem_combine_chains h.single h'.single).1 hq).1.elim
    (h.registered _) (h'.registered _)

end Qualifiers

/-- A bare qualifier that is registered and stands under its top. -/
def Hierarchies.Stands (hs : Hierarchies) (top q : Qualifier) : Prop :=
  QualifierOrder.chains.IsTop top q ∧ (hs.name? q).isSome

theorem Relations.AllExact.wellFormed {rel : Relations Qualifier} (h : rel.AllExact hs.Stands) :
    rel.exact.WellFormed hs := by
  have hentries : ∀ q ∈ rel.exact, ∃ top, rel.primaries.get? top = some q := by
    intro q hq
    obtain ⟨e, he, rfl⟩ := List.mem_map.1 (Qualifiers.mem_ofList.1 hq)
    exact ⟨e.1, OrderedMap.get?_of_mem_entries he⟩
  refine ⟨fun p hp q hq hhier => ?_, fun q hq => ?_⟩
  · obtain ⟨top, htop⟩ := hentries p hp
    obtain ⟨top', htop'⟩ := hentries q hq
    have hsame : top = top' := by
      rw [(h top p htop).1.eq, (h top' q htop').1.eq, hhier]
    rw [hsame, htop', Option.some.injEq] at htop
    exact htop.symm
  · obtain ⟨top, htop⟩ := hentries q hq
    exact (h top q htop).2

/-! ## Types -/

/-- Every name is declared and every set of qualifiers well formed, in the arguments too. -/
inductive Ty.WellFormed (d : NominalTypes) (hs : Hierarchies) : Ty → Prop
  | null {qs : Qualifiers} : qs.WellFormed hs → WellFormed d hs (.null qs)
  | named {name : String} {args : List Ty} {qs : Qualifiers} : d.isDeclared name = true →
    (∀ arg ∈ args, WellFormed d hs arg) → qs.WellFormed hs → WellFormed d hs (.named name args qs)

namespace Ty

variable {ty : Ty} {qs : Qualifiers}

theorem WellFormed.qualifiers (h : ty.WellFormed d hs) : ty.qualifiers.WellFormed hs := by
  cases h with
  | null hqs => exact hqs
  | named _ _ hqs => exact hqs

theorem WellFormed.withQualifiers (h : ty.WellFormed d hs) (hqs : qs.WellFormed hs) :
    (ty.withQualifiers qs).WellFormed d hs := by
  cases h with
  | null _ => exact .null hqs
  | named hname hargs _ => exact .named hname hargs hqs

theorem WellFormed.bare (h : ty.WellFormed d hs) : ty.bare.WellFormed d hs :=
  h.withQualifiers .empty

theorem WellFormed.of_bare (h : ty.bare.WellFormed d hs) (hqs : ty.qualifiers.WellFormed hs) :
    ty.WellFormed d hs := by
  have hself : ty.bare.withQualifiers ty.qualifiers = ty := by cases ty <;> rfl
  exact hself ▸ h.withQualifiers hqs

theorem WellFormed.overlay (h : ty.WellFormed d hs) (hqs : qs.WellFormed hs) :
    (ty.overlay qs).WellFormed d hs :=
  h.withQualifiers (h.qualifiers.overlay hqs)

theorem laysOver_wellFormed (d : NominalTypes) (hs : Hierarchies) :
    Ty.LaysOver (Qualifiers.WellFormed hs) (WellFormed d hs) :=
  ⟨WellFormed.overlay, WellFormed.qualifiers⟩

end Ty

/-! ## Joins and meets -/

namespace Side

variable {side : Side} {a b ty : Ty}

theorem wellFormed_shape? (ha : a.WellFormed d hs) (hb : b.WellFormed d hs)
    (h : side.shape? d a b = some ty) : ty.WellFormed d hs := by
  cases side with
  | upper =>
    rcases shape?_upper_eq h with rfl | rfl
    · exact ha.bare
    · exact hb.bare
  | lower =>
    cases ha with
    | @null qs hqs =>
      rw [shape?_lower_null_left, Option.some.injEq] at h
      exact h ▸ hb.bare
    | @named m as s hm has hs' =>
      cases hb with
      | null _ =>
        rw [shape?_lower_null_right, Option.some.injEq] at h
        exact h ▸ .named hm has .empty
      | @named n bs t hn hbs ht =>
        obtain ⟨k, cs, rfl, hjoin, hkm, hkn, hnil⟩ := shape?_lower_iff.1 h
        refine .named (d.isDeclared_of_isSubtype hjoin.left hm) ?_ .empty
        -- The arguments are those of one of the two, or none.
        by_cases hk : k = m
        · exact hkm hk ▸ has
        · by_cases hk' : k = n
          · exact hkn hk' ▸ hbs
          · rw [hnil hk hk']
            exact nofun

theorem wellFormed_combineTypes? (ha : a.WellFormed d hs) (hb : b.WellFormed d hs)
    (h : side.combineTypes? (d.typeOrder .chains) a b = some ty) : ty.WellFormed d hs := by
  obtain ⟨hshape, hqualifiers⟩ := combineTypes?_eq_some_iff.1 h
  refine .of_bare (wellFormed_shape? ha hb hshape) ?_
  rw [hqualifiers]
  exact ha.qualifiers.combine hb.qualifiers

end Side

namespace Bounds

/-- What a combination keeps holds of all that is combined. -/
theorem combineAll?_induction {α : Type} {combine? : α → α → Option α} {P : α → Prop}
    (hcombine : ∀ {a b c}, P a → P b → combine? a b = some c → P c) {l : List α} {c : α}
    (hl : ∀ a ∈ l, P a) (h : combineAll? combine? l = some c) : P c := by
  cases l with
  | nil => cases h
  | cons a rest =>
    simp only [combineAll?] at h
    have ha := hl a (.head _)
    induction rest generalizing a with
    | nil => cases h; exact ha
    | cons b rest ih =>
      obtain ⟨a', ha', h⟩ := Option.bind_eq_some_iff.1 h
      have hb := hcombine ha (hl b (by simp)) ha'
      refine ih a' (fun x hx => ?_) h hb
      rcases List.mem_cons.1 hx with rfl | hx
      · exact hb
      · exact hl x (by simp [hx])

/-- The verdict on a record with well-formed bounds is well formed. -/
theorem wellFormed_typeFor? {side : Side} {r : Record} {ty : Ty}
    (htypes : ∀ ty ∈ (side.relations r).types.keys, ty.WellFormed d hs)
    (hbounds : (side.relations r).AllBounds hs.Stands)
    (h : typeFor? ⟨side, d.typeOrder .chains, .chains⟩ r = some ty) : ty.WellFormed d hs := by
  obtain ⟨shape, hshape, rfl⟩ := Option.map_eq_some_iff.1 h
  have hwf : shape.WellFormed d hs :=
    combineAll?_induction (P := Ty.WellFormed d hs) Side.wellFormed_combineTypes? htypes hshape
  have hkeyed : (side.relations r).AllBounds chains.IsTop := fun top qs hget =>
    ⟨(hbounds top qs hget).1, fun q hq => ((hbounds top qs hget).2 q hq).1⟩
  have hself : side.Chosen (· ∈ shape.qualifiers) shape.qualifiers := .self hwf.qualifiers.single
  have hchosen := hself.overlay (b := ⟨side, d.typeOrder .chains, .chains⟩) rfl rfl hkeyed
  refine hwf.withQualifiers ⟨hchosen.isSingle, fun q hq => ?_⟩
  rcases hchosen.given q hq with hq | ⟨top, qs, hget, hq⟩
  · exact hwf.qualifiers.registered q hq
  · exact ((hbounds top qs hget).2 q hq).2

end Bounds

/-! ## Strategies -/

/-- The types and the bare qualifiers of a record are well formed. -/
structure Record.WellFormed (d : NominalTypes) (hs : Hierarchies) (r : Record) : Prop where
  types : ∀ rel, ∀ ty ∈ r.typesIn rel, ty.WellFormed d hs
  bare : r.AllBare hs.Stands

/-- On well-formed records every built-in strategy finds well-formed answers. -/
theorem BuiltIn.keeps_wellFormed {s : Store} (hs' : ∀ {t r}, s.record? t = some r →
    r.WellFormed d hs) (b : BuiltIn) :
    (b.strategy (d.typeOrder .chains) .chains).Keeps s (Ty.WellFormed d hs)
      (Qualifiers.WellFormed hs) := by
  have hbounds : ∀ (side : Side) (name : String),
      Strategy.Keeps ⟨name, Bounds.solve ⟨side, d.typeOrder .chains, .chains⟩⟩ s
        (Ty.WellFormed d hs) (Qualifiers.WellFormed hs) := by
    intro side name
    refine Bounds.keeps _ name (fun hr => (hs' hr).types _) fun {t r r' ty} hr henriched hty => ?_
    have hall := henriched.all
    simp only [← Bounds.types_relations] at hall
    exact Bounds.wellFormed_typeFor? hall (henriched.allBounds ((hs' hr).bare.bounds side)) hty
  cases b with
  | equalities =>
    exact Equalities.keeps (Ty.laysOver_wellFormed d hs) (fun hr => (hs' hr).bare.exact.wellFormed)
      fun hr => (hs' hr).types .equal
  | supertypes => exact hbounds .lower "supertypes"
  | subtypes => exact hbounds .upper "subtypes"

end QualifiedInference
