-- SUMMARY: Bounds whose combination does not depend on their order.
import QualifiedInference.Proofs.Bounds.Combination
/-!
# Coherent bounds

Bounds are coherent where any three of them associate and none has two qualifiers of one
hierarchy. What coherent bounds are combined to can be told by their members (`Whole`): the shape
by `Combined`, and the qualifiers by `Gathered`. So the order in which they stand makes no
difference (`combineAll?_congr`), and there are no other bounds of which this holds
(`coherent_iff`).
-/

namespace QualifiedInference

open NominalTypes

namespace Side

/-! ## Qualifiers -/

/-- Of two qualifiers of a hierarchy `p` is the one that stays, or they are the same. -/
def Prefers (side : Side) (p q : Qualifier) : Prop :=
  match side with
  | lower => p.rank ≤ q.rank
  | upper => q.rank ≤ p.rank

variable {side : Side} {p q r : Qualifier}

namespace Prefers

theorem refl (side : Side) (p : Qualifier) : side.Prefers p p := by
  cases side <;> exact UInt32.le_refl _

theorem trans (hpq : side.Prefers p q) (hqr : side.Prefers q r) : side.Prefers p r := by
  cases side with
  | lower => exact UInt32.le_trans hpq hqr
  | upper => exact UInt32.le_trans hqr hpq

theorem antisymm (hhier : p.hierarchy = q.hierarchy) (hpq : side.Prefers p q)
    (hqp : side.Prefers q p) : p = q := by
  refine Qualifier.ext hhier ?_
  cases side with
  | lower => exact UInt32.le_antisymm hpq hqp
  | upper => exact UInt32.le_antisymm hqp hpq

theorem total (side : Side) (p q : Qualifier) : side.Prefers p q ∨ side.Prefers q p := by
  cases side <;> exact UInt32.le_total ..

end Prefers

/-- On a chain two qualifiers combine to the one that is preferred. -/
theorem combineQualifiers?_eq_some_iff (h : p.hierarchy = q.hierarchy) :
    side.combineQualifiers? .chains p q = some r ↔
      (r = p ∨ r = q) ∧ side.Prefers r p ∧ side.Prefers r q := by
  have hchoice : ∃ x, side.combineQualifiers? .chains p q = some x ∧
      (x = p ∨ x = q) ∧ side.Prefers x p ∧ side.Prefers x q := by
    cases side with
    | lower =>
      refine ⟨if p.rank ≤ q.rank then p else q, if_pos h, ?_⟩
      split
      · next hle => exact ⟨.inl rfl, .refl _ p, hle⟩
      · next hlt => exact ⟨.inr rfl, (UInt32.le_total ..).resolve_left hlt, .refl _ q⟩
    | upper =>
      refine ⟨if q.rank ≤ p.rank then p else q, if_pos h, ?_⟩
      split
      · next hle => exact ⟨.inl rfl, .refl _ p, hle⟩
      · next hlt => exact ⟨.inr rfl, (UInt32.le_total ..).resolve_left hlt, .refl _ q⟩
  obtain ⟨x, hx, hone, hxp, hxq⟩ := hchoice
  rw [hx, Option.some.injEq]
  constructor
  · rintro rfl
    exact ⟨hone, hxp, hxq⟩
  · -- Both are one of the two, so each is preferred to the other.
    rintro ⟨rfl | rfl, hrp, hrq⟩
    · rcases hone with rfl | rfl
      · rfl
      · exact hxp.antisymm h.symm hrq
    · rcases hone with rfl | rfl
      · exact hxq.antisymm h hrp
      · rfl

section Combine

variable {s t : Qualifiers}

/-- The combined set has those members of the two that are preferred to all others of their
    hierarchy. -/
theorem mem_combine_chains (hs : s.Single) (ht : t.Single) :
    q ∈ combine (side.combineQualifiers? .chains) s t ↔ (q ∈ s ∨ q ∈ t) ∧
      (∀ p ∈ s, q.hierarchy = p.hierarchy → side.Prefers q p) ∧
      (∀ p ∈ t, q.hierarchy = p.hierarchy → side.Prefers q p) := by
  have hself : ∀ {s : Qualifiers}, s.Single → q ∈ s → ∀ p ∈ s, q.hierarchy = p.hierarchy →
      side.Prefers q p := fun hs hq p hp hhier => by
    rw [hs q hq p hp hhier]
    exact .refl side p
  rw [mem_combine ht]
  constructor
  · rintro (⟨p, hp, p', hp', hhier, hpp'⟩ | ⟨hq, hnone⟩ | ⟨hq, hnone⟩)
    · obtain ⟨hone, hqp, hqp'⟩ := (combineQualifiers?_eq_some_iff hhier).1 hpp'
      have hq : q.hierarchy = p.hierarchy := by
        rcases hone with rfl | rfl
        · rfl
        · exact hhier.symm
      refine ⟨?_, fun x hx hqx => ?_, fun x hx hqx => ?_⟩
      · rcases hone with rfl | rfl
        · exact .inl hp
        · exact .inr hp'
      · rwa [← hs p hp x hx (hq.symm.trans hqx)]
      · rwa [← ht p' hp' x hx (hhier.symm.trans (hq.symm.trans hqx))]
    · exact ⟨.inl hq, hself hs hq, fun p hp hhier => absurd hhier.symm (hnone p hp)⟩
    · exact ⟨.inr hq, fun p hp hhier => absurd hhier.symm (hnone p hp), hself ht hq⟩
  · rintro ⟨hq | hq, hqs, hqt⟩
    · by_cases hmeets : ∃ p ∈ t, q.hierarchy = p.hierarchy
      · obtain ⟨p, hp, hhier⟩ := hmeets
        exact .inl ⟨q, hq, p, hp, hhier,
          (combineQualifiers?_eq_some_iff hhier).2 ⟨.inl rfl, .refl side q, hqt p hp hhier⟩⟩
      · exact .inr (.inl ⟨hq, fun p hp hhier => hmeets ⟨p, hp, hhier.symm⟩⟩)
    · by_cases hmeets : ∃ p ∈ s, p.hierarchy = q.hierarchy
      · obtain ⟨p, hp, hhier⟩ := hmeets
        exact .inl ⟨p, hp, q, hq, hhier,
          (combineQualifiers?_eq_some_iff hhier).2 ⟨.inr rfl, hqs p hp hhier.symm, .refl side q⟩⟩
      · exact .inr (.inr ⟨hq, fun p hp hhier => hmeets ⟨p, hp, hhier⟩⟩)

/-- A hierarchy of one of the sets is one of the combined set. -/
theorem exists_mem_combine_chains (ht : t.Single) (hp : p ∈ s ∨ p ∈ t) :
    ∃ q ∈ combine (side.combineQualifiers? .chains) s t, q.hierarchy = p.hierarchy := by
  have hboth : ∀ p ∈ s, ∀ p' ∈ t, p.hierarchy = p'.hierarchy →
      ∃ q ∈ combine (side.combineQualifiers? .chains) s t, q.hierarchy = p.hierarchy := by
    intro p hp p' hp' hhier
    have hmem : ∀ {q}, (q = p ∨ q = p') ∧ side.Prefers q p ∧ side.Prefers q p' →
        q ∈ combine (side.combineQualifiers? .chains) s t := fun hq =>
      (mem_combine ht).2 (.inl ⟨p, hp, p', hp', hhier, (combineQualifiers?_eq_some_iff hhier).2 hq⟩)
    rcases Prefers.total side p p' with h | h
    · exact ⟨p, hmem ⟨.inl rfl, .refl side p, h⟩, rfl⟩
    · exact ⟨p', hmem ⟨.inr rfl, h, .refl side p'⟩, hhier.symm⟩
  rcases hp with hp | hp
  · by_cases hmeets : ∃ p' ∈ t, p'.hierarchy = p.hierarchy
    · obtain ⟨p', hp', hhier⟩ := hmeets
      exact hboth p hp p' hp' hhier.symm
    · exact ⟨p, (mem_combine ht).2 (.inr (.inl ⟨hp, fun x hx h => hmeets ⟨x, hx, h⟩⟩)), rfl⟩
  · by_cases hmeets : ∃ p' ∈ s, p'.hierarchy = p.hierarchy
    · obtain ⟨p', hp', hhier⟩ := hmeets
      exact hhier ▸ hboth p' hp' p hp hhier
    · exact ⟨p, (mem_combine ht).2 (.inr (.inr ⟨hp, fun x hx h => hmeets ⟨x, hx, h⟩⟩)), rfl⟩

theorem single_combine (hs : s.Single) (ht : t.Single) :
    (combine (side.combineQualifiers? .chains) s t).Single := by
  intro p hp q hq hhier
  -- Each of the two is preferred to the other, wherever it comes from.
  obtain ⟨hp', hps, hpt⟩ := (mem_combine_chains hs ht).1 hp
  obtain ⟨hq', hqs, hqt⟩ := (mem_combine_chains hs ht).1 hq
  have hpq : side.Prefers p q := hq'.elim (hps q · hhier) (hpt q · hhier)
  have hqp : side.Prefers q p := hp'.elim (hqs p · hhier.symm) (hqt p · hhier.symm)
  exact hpq.antisymm hhier hqp

end Combine

/-- In each hierarchy in which some qualifier is offered, `qs` has the one that stays of those. -/
structure Chosen (side : Side) (offered : Qualifier → Prop) (qs : Qualifiers) : Prop where
  given : ∀ q ∈ qs, offered q
  preferred : ∀ q ∈ qs, ∀ p, offered p → q.hierarchy = p.hierarchy → side.Prefers q p
  covers : ∀ p, offered p → ∃ q ∈ qs, q.hierarchy = p.hierarchy

namespace Chosen

variable {offered offered' : Qualifier → Prop} {qs qs' : Qualifiers}

theorem congr (h : side.Chosen offered qs) (hsame : ∀ q, offered q ↔ offered' q) :
    side.Chosen offered' qs :=
  (funext fun q => propext (hsame q) : offered = offered') ▸ h

theorem isSingle (h : side.Chosen offered qs) : qs.Single := by
  intro p hp q hq hhier
  exact (h.preferred p hp q (h.given q hq) hhier).antisymm hhier
    (h.preferred q hq p (h.given p hp) hhier.symm)

/-- A set with one qualifier of a hierarchy has chosen among its own members. -/
theorem self (h : qs.Single) : side.Chosen (· ∈ qs) qs where
  given := fun _ => id
  preferred := fun q hq p hp hhier => h q hq p hp hhier ▸ .refl side q
  covers := fun p hp => ⟨p, hp, rfl⟩

theorem unique (h : side.Chosen offered qs) (h' : side.Chosen offered qs') : qs = qs' := by
  have hsub : ∀ {s t : Qualifiers}, side.Chosen offered s → side.Chosen offered t →
      ∀ q ∈ s, q ∈ t := by
    intro s t hs ht q hq
    obtain ⟨p, hp, hhier⟩ := ht.covers q (hs.given q hq)
    have hpq := ht.preferred p hp q (hs.given q hq) hhier
    rwa [← hpq.antisymm hhier (hs.preferred q hq p (ht.given p hp) hhier.symm)]
  exact Qualifiers.ext_mem fun q => ⟨hsub h h' q, hsub h' h q⟩

/-- To combine the chosen qualifiers with others is to choose among both. -/
theorem combine (h : side.Chosen offered qs) (hqs' : qs'.Single) :
    side.Chosen (fun q => offered q ∨ q ∈ qs')
      (NominalTypes.combine (side.combineQualifiers? .chains) qs qs') := by
  refine ⟨fun q hq => ?_, fun q hq p hp hhier => ?_, fun p hp => ?_⟩
  · exact ((mem_combine_chains h.isSingle hqs').1 hq).1.imp_left (h.given q)
  · obtain ⟨-, hqs, hqs'⟩ := (mem_combine_chains h.isSingle hqs').1 hq
    rcases hp with hp | hp
    · obtain ⟨x, hx, hxp⟩ := h.covers p hp
      exact (hqs x hx (hhier.trans hxp.symm)).trans (h.preferred x hx p hp hxp)
    · exact hqs' p hp hhier
  · rcases hp with hp | hp
    · obtain ⟨x, hx, hxp⟩ := h.covers p hp
      exact hxp ▸ exists_mem_combine_chains hqs' (.inl hx)
    · exact exists_mem_combine_chains hqs' (.inr hp)

end Chosen

/-- In each hierarchy that the types mention, `qs` has the one that stays of those given there. -/
structure Gathered (side : Side) (types : List Ty) (qs : Qualifiers) : Prop where
  given : ∀ q ∈ qs, ∃ ty ∈ types, q ∈ ty.qualifiers
  preferred : ∀ q ∈ qs, ∀ ty ∈ types, ∀ p ∈ ty.qualifiers, q.hierarchy = p.hierarchy →
    side.Prefers q p
  covers : ∀ ty ∈ types, ∀ p ∈ ty.qualifiers, ∃ q ∈ qs, q.hierarchy = p.hierarchy

/-- To gather the qualifiers of types is to choose among all that they have. -/
theorem gathered_iff_chosen {types : List Ty} {qs : Qualifiers} :
    side.Gathered types qs ↔ side.Chosen (fun q => ∃ ty ∈ types, q ∈ ty.qualifiers) qs := by
  constructor
  · exact fun h => ⟨h.given, fun q hq p ⟨ty, hty, hp⟩ => h.preferred q hq ty hty p hp,
      fun p ⟨ty, hty, hp⟩ => h.covers ty hty p hp⟩
  · exact fun h => ⟨h.given, fun q hq ty hty p hp => h.preferred q hq p ⟨ty, hty, hp⟩,
      fun ty hty p hp => h.covers p ⟨ty, hty, hp⟩⟩

namespace Gathered

variable {types types' : List Ty} {qs qs' : Qualifiers} {z : Ty}

theorem chosen (h : side.Gathered types qs) :
    side.Chosen (fun q => ∃ ty ∈ types, q ∈ ty.qualifiers) qs :=
  gathered_iff_chosen.1 h

theorem single {ty : Ty} (h : ty.qualifiers.Single) : side.Gathered [ty] ty.qualifiers :=
  gathered_iff_chosen.2 ((Chosen.self h).congr (by simp))

theorem isSingle (h : side.Gathered types qs) : qs.Single := h.chosen.isSingle

theorem snoc (h : side.Gathered types qs) (hz : z.qualifiers.Single) :
    side.Gathered (types ++ [z])
      (combine (side.combineQualifiers? .chains) qs z.qualifiers) :=
  gathered_iff_chosen.2 ((h.chosen.combine hz).congr (by simp [or_and_right, exists_or]))

theorem unique (hsame : ∀ ty, ty ∈ types ↔ ty ∈ types') (h : side.Gathered types qs)
    (h' : side.Gathered types' qs') : qs = qs' :=
  h.chosen.unique (h'.chosen.congr (by simp [hsame]))

end Gathered

/-! ## Types -/

variable {d : NominalTypes} {types types' : List Ty} {ty : Ty}

theorem combineTypes?_eq_some_iff {order : QualifierOrder} {a b : Ty} :
    side.combineTypes? (d.typeOrder order) a b = some ty ↔
      side.shape? d a b = some ty.bare ∧
        ty.qualifiers = combine (side.combineQualifiers? order) a.qualifiers b.qualifiers := by
  have hsplit : ∀ (shape? : Option Ty) (qs : Qualifiers),
      shape?.map (·.withQualifiers qs) = some ty ↔
        shape?.map Ty.bare = some ty.bare ∧ ty.qualifiers = qs := by
    intro shape? qs
    cases shape? with
    | none => simp
    | some shape =>
      simp only [Option.map_some, Option.some.injEq]
      constructor
      · rintro rfl
        exact ⟨(Ty.bare_withQualifiers ..).symm, by cases shape <;> rfl⟩
      · rintro ⟨hbare, rfl⟩
        exact Ty.ext_bare ((Ty.bare_withQualifiers ..).trans hbare) (by cases shape <;> rfl)
  cases side with
  | lower => exact hsplit ..
  | upper => exact hsplit ..

theorem combineTypes?_eq_none_iff {order : QualifierOrder} {a b : Ty} :
    side.combineTypes? (d.typeOrder order) a b = none ↔ side.shape? d a b = none := by
  rw [← map_bare_combineTypes? order, Option.map_eq_none_iff]

/-- Each type has at most one qualifier of a hierarchy, and any three of them are combined alike
    in either grouping. -/
structure Coherent (side : Side) (d : NominalTypes) (types : List Ty) : Prop where
  single : ∀ ty ∈ types, ty.qualifiers.Single
  assoc : ∀ a ∈ types, ∀ b ∈ types, ∀ c ∈ types,
    (side.combineTypes? (d.typeOrder .chains) a b).bind
        (side.combineTypes? (d.typeOrder .chains) · c) =
      (side.combineTypes? (d.typeOrder .chains) b c).bind
        (side.combineTypes? (d.typeOrder .chains) a)

instance (side : Side) (d : NominalTypes) (types : List Ty) :
    Decidable (side.Coherent d types) :=
  decidable_of_iff (_ ∧ _) ⟨fun h => ⟨h.1, h.2⟩, fun h => ⟨h.single, h.assoc⟩⟩

theorem Coherent.mono (h : side.Coherent d types) (hsub : ∀ ty ∈ types', ty ∈ types) :
    side.Coherent d types' where
  single ty hty := h.single ty (hsub ty hty)
  assoc a ha b hb c hc := h.assoc a (hsub a ha) b (hsub b hb) c (hsub c hc)

theorem Coherent.associates (h : side.Coherent d types) {a b c : Ty} (ha : a ∈ types)
    (hb : b ∈ types) (hc : c ∈ types) : side.Associates d a b c := by
  have hbare := congrArg (Option.map Ty.bare) (h.assoc a ha b hb c hc)
  simp only [Option.map_bind, Function.comp_def, map_bare_combineTypes?] at hbare
  simp only [Associates, ← map_bare_combineTypes? .chains, Option.bind_map,
    Function.comp_def]
  simpa only [map_bare_combineTypes?, shape?_bare_left, shape?_bare_right] using hbare

/-- `ty` is all the types combined: their shapes, and their qualifiers. -/
structure Whole (side : Side) (d : NominalTypes) (types : List Ty) (ty : Ty) : Prop extends
    Combined side d types ty where
  gathered : side.Gathered types ty.qualifiers

namespace Whole

variable {rest : List Ty} {acc : Ty}

theorem single (h : ty.qualifiers.Single) : side.Whole d [ty] ty :=
  ⟨.single ty, .single h⟩

theorem snoc {next : Ty} (h : side.Whole d types acc)
    (hcoherent : side.Coherent d (types ++ [next]))
    (hnext : side.combineTypes? (d.typeOrder .chains) acc next = some ty) :
    side.Whole d (types ++ [next]) ty := by
  obtain ⟨hshape, hqualifiers⟩ := combineTypes?_eq_some_iff.1 hnext
  refine ⟨h.toCombined.snoc (fun a ha b hb c hc => hcoherent.associates ha hb hc) hshape, ?_⟩
  rw [hqualifiers]
  exact h.gathered.snoc (hcoherent.single next (List.mem_append_right _ (.head _)))

theorem unique {ty' : Ty} (hsame : ∀ ty, ty ∈ types ↔ ty ∈ types') (h : side.Whole d types ty)
    (h' : side.Whole d types' ty') : ty = ty' :=
  Ty.ext_bare (h.toCombined.unique hsame h'.toCombined) (h.gathered.unique hsame h'.gathered)

/-- The types of a coherent list are combined to their whole, or two of them have none. -/
theorem foldlM (h : side.Whole d types acc) (hcoherent : side.Coherent d (types ++ rest)) :
    match rest.foldlM (side.combineTypes? (d.typeOrder .chains)) acc with
    | some ty => side.Whole d (types ++ rest) ty
    | none => ∃ a ∈ types ++ rest, ∃ b ∈ types ++ rest, side.shape? d a b = none := by
  -- On the types still to combine; `acc` is the whole of those before them.
  induction rest generalizing types acc with
  | nil => simpa using h
  | cons next rest ih =>
    simp only [List.append_cons types next rest] at hcoherent ⊢
    have hnext : next ∈ types ++ [next] ++ rest := by simp
    have hleft : ∀ {a}, a ∈ types → a ∈ types ++ [next] ++ rest := fun ha =>
      List.mem_append_left _ (List.mem_append_left _ ha)
    simp only [List.foldlM_cons]
    cases hty : side.combineTypes? (d.typeOrder .chains) acc next with
    | none =>
      obtain ⟨a, ha, hnone⟩ := h.toCombined.exists_none
        (fun a ha b hb => hcoherent.associates (hleft ha) (hleft hb) hnext)
        (combineTypes?_eq_none_iff.1 hty)
      exact ⟨a, hleft ha, next, hnext, hnone⟩
    | some acc' =>
      exact ih (h.snoc (hcoherent.mono fun _ => List.mem_append_left _) hty) hcoherent

theorem combineAll?_cons {first : Ty} (hcoherent : side.Coherent d (first :: rest)) :
    match Bounds.combineAll? (side.combineTypes? (d.typeOrder .chains)) (first :: rest) with
    | some ty => side.Whole d (first :: rest) ty
    | none => ∃ a ∈ first :: rest, ∃ b ∈ first :: rest, side.shape? d a b = none :=
  (single (hcoherent.single first (.head _))).foldlM hcoherent

theorem of_combineAll? (hcoherent : side.Coherent d types)
    (h : Bounds.combineAll? (side.combineTypes? (d.typeOrder .chains)) types = some ty) :
    side.Whole d types ty := by
  cases types with
  | nil => cases h
  | cons first rest => simpa only [h] using combineAll?_cons hcoherent

/-- The whole of some types is what they are combined to, in whatever order. -/
theorem combineAll? (h : side.Whole d types ty) (hsame : ∀ ty, ty ∈ types ↔ ty ∈ types')
    (hcoherent : side.Coherent d types') :
    Bounds.combineAll? (side.combineTypes? (d.typeOrder .chains)) types' = some ty := by
  cases types' with
  | nil =>
    obtain ⟨a, ha, -⟩ := h.attained
    cases (hsame a).1 ha
  | cons first rest =>
    have hall := combineAll?_cons hcoherent
    split at hall
    · next ty' heq => rw [heq, hall.unique (fun ty => (hsame ty).symm) h]
    · -- There is no such pair, since they are pairs of the first list as well.
      obtain ⟨a, ha, b, hb, hnone⟩ := hall
      have hsome := h.pairs a ((hsame a).2 ha) b ((hsame b).2 hb)
      simp only [hnone] at hsome
      cases hsome

end Whole

/-- Coherent bounds determine a type by their members. -/
theorem combineAll?_congr (hcoherent : side.Coherent d types)
    (hsame : ∀ ty, ty ∈ types' ↔ ty ∈ types) :
    Bounds.combineAll? (side.combineTypes? (d.typeOrder .chains)) types' =
      Bounds.combineAll? (side.combineTypes? (d.typeOrder .chains)) types := by
  have hcoherent' : side.Coherent d types' := hcoherent.mono fun ty => (hsame ty).1
  apply Option.ext
  intro ty
  constructor
  · exact fun h => (Whole.of_combineAll? hcoherent' h).combineAll? hsame hcoherent
  · exact fun h =>
      (Whole.of_combineAll? hcoherent h).combineAll? (fun ty => (hsame ty).symm) hcoherent'

theorem combineTypes?_comm {a b : Ty} (ha : a.qualifiers.Single) (hb : b.qualifiers.Single) :
    side.combineTypes? (d.typeOrder .chains) a b =
      side.combineTypes? (d.typeOrder .chains) b a := by
  have hqualifiers : combine (side.combineQualifiers? .chains) a.qualifiers b.qualifiers =
      combine (side.combineQualifiers? .chains) b.qualifiers a.qualifiers :=
    ((Gathered.single ha).snoc hb).unique (by simp [or_comm]) ((Gathered.single hb).snoc ha)
  apply Option.ext
  intro ty
  rw [combineTypes?_eq_some_iff, combineTypes?_eq_some_iff, shape?_comm, hqualifiers]

/-- Types with at most one qualifier of a hierarchy are coherent just if all orders are alike. -/
theorem coherent_iff (hsingle : ∀ ty ∈ types, ty.qualifiers.Single) :
    side.Coherent d types ↔ ∀ chosen ⊆ types, ∀ chosen', (∀ ty, ty ∈ chosen' ↔ ty ∈ chosen) →
      Bounds.combineAll? (side.combineTypes? (d.typeOrder .chains)) chosen' =
        Bounds.combineAll? (side.combineTypes? (d.typeOrder .chains)) chosen := by
  constructor
  · intro h chosen hsub chosen' hsame
    exact combineAll?_congr (h.mono hsub) hsame
  · intro h
    refine ⟨hsingle, fun a ha b hb c hc => ?_⟩
    -- Of the three, two orders are compared; what is left is to turn `a` to the front.
    have hturned := h [b, c, a] (by simp [ha, hb, hc]) [a, b, c] (by simp; tauto)
    simp only [Bounds.combineAll?, List.foldlM_cons, List.foldlM_nil, bind_pure,
      Option.bind_eq_bind] at hturned
    rw [hturned]
    apply Option.bind_congr
    intro bc hbc
    refine combineTypes?_comm ?_ (hsingle a ha)
    rw [(combineTypes?_eq_some_iff.1 hbc).2]
    exact ((Gathered.single (hsingle b hb)).snoc (hsingle c hc)).isSingle

end Side

end QualifiedInference
