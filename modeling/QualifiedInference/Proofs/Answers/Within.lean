-- SUMMARY: Properties of types and qualifiers that merging and collapsing keep.
import QualifiedInference.Proofs.Answers.Merge
/-!
# Answers within a set of targets

What is asked of types and of the qualifiers laid over them holds of all answers if it holds of
those that strategies find: a merge only puts together what the two sides have, along alias chains
of targets that both are about. No alias that it keeps points to its own target.
-/

namespace QualifiedInference

/-- Qualifiers with `Q` may be laid over types with `P`, and those of such types are among
    them. -/
structure Ty.LaysOver (Q : Qualifiers → Prop) (P : Ty → Prop) : Prop where
  overlay : ∀ {ty qs}, P ty → Q qs → P (ty.overlay qs)
  qualifiers : ∀ {ty}, P ty → Q ty.qualifiers

namespace Answers

/-- The answers are about the targets `ts`: their types have the property `P` and each alias points
    to another one of the targets, with qualifiers that have the property `Q`. -/
structure Within (ts : List Target) (P : Ty → Prop) (Q : Qualifiers → Prop) (r : Answers) :
    Prop where
  targets : ∀ {t}, t ∈ r → t ∈ ts
  types : ∀ {t ty}, r.get? t = some (.type ty) → P ty
  aliases : ∀ {t p extra}, r.get? t = some (.alias p extra) → p ∈ ts ∧ p ≠ t ∧ Q extra

variable {ts : List Target} {P : Ty → Prop} {Q : Qualifiers → Prop} {r r' s : Answers}
  {t : Target} {ty : Ty}

namespace Within

theorem empty : Within ts P Q ∅ where
  targets h := absurd h List.not_mem_nil
  types h := absurd h TargetMap.get?_empty_ne_some
  aliases h := absurd h TargetMap.get?_empty_ne_some

theorem typeOf? (h : Within ts P Q r) (hty : r.typeOf? t = some ty) : P ty :=
  h.types (typeOf?_eq_some.1 hty)

theorem insert_of (h : Within ts P Q r) {a : Answer} (ht : t ∈ ts)
    (htype : ∀ ty, a = .type ty → P ty)
    (halias : ∀ p extra, a = .alias p extra → p ∈ ts ∧ p ≠ t ∧ Q extra) :
    Within ts P Q (r.insert t a) := by
  refine ⟨fun {u} hu => ?_, fun {u uty} hu => ?_, fun {u p extra} hu => ?_⟩
  · rw [TargetMap.mem_def, TargetMap.keys_insert] at hu
    split at hu
    · exact h.targets hu
    · rcases List.mem_append.1 hu with hu | hu
      · exact h.targets hu
      · exact List.mem_singleton.1 hu ▸ ht
  · rw [TargetMap.get?_insert] at hu
    split at hu
    · exact htype uty (Option.some.inj hu)
    · exact h.types hu
  · rw [TargetMap.get?_insert] at hu
    split at hu
    · next hut => exact hut ▸ halias p extra (Option.some.inj hu)
    · exact h.aliases hu

theorem insert (h : Within ts P Q r) (ht : t ∈ ts) (hty : P ty) :
    Within ts P Q (r.insert t (.type ty)) :=
  h.insert_of ht (fun _ heq => Answer.type.inj heq ▸ hty) nofun

theorem insert_alias (h : Within ts P Q r) {p : Target} {extra : Qualifiers} (ht : t ∈ ts)
    (hp : p ∈ ts) (hpt : p ≠ t) (hextra : Q extra) :
    Within ts P Q (r.insert t (.alias p extra)) :=
  h.insert_of ht nofun fun _ _ heq => by cases heq; exact ⟨hp, hpt, hextra⟩

/-- Types in the place of aliases leave the other aliases as they are. -/
theorem of_fills (h : Within ts P Q r) (hfills : Fills r r')
    (htypes : ∀ {t ty}, r'.get? t = some (.type ty) → P ty) : Within ts P Q r' :=
  ⟨fun ht => h.targets (hfills.mem_iff.1 ht), htypes, fun ht => h.aliases (hfills.aliases ht)⟩

section LaysOver

variable (hPQ : Ty.LaysOver Q P)

include hPQ

theorem yields (h : Within ts P Q r) (hy : r.Yields t ty) : P ty := by
  induction hy with
  | type ht => exact h.types ht
  | link ht _ ih => exact hPQ.overlay ih (h.aliases ht).2.2

theorem collapse (h : Within ts P Q r) : Within ts P Q r.collapse :=
  h.of_fills (fills_collapse r) fun ht => h.yields hPQ (typeOf?_collapse.1 (typeOf?_eq_some.2 ht))

theorem handed (hs : Within ts P Q s) (hty : P ty) : P (s.handed t ty) := by
  unfold Answers.handed
  cases hother : s.typeOf? t with
  | none => exact hty
  | some other =>
    dsimp only
    split
    · exact hPQ.overlay (hs.typeOf? hother) (hPQ.qualifiers hty)
    · exact hty

omit hPQ in
theorem take (hs : Within ts P Q s) (h : Within ts P Q r) (ht : t ∈ r) :
    Within ts P Q (r.take t (s.typeOf? t)) := by
  cases hty : s.typeOf? t with
  | none => exact h
  | some ty => exact h.insert (h.targets ht) (hs.typeOf? hty)

/-- A descent gives the aliases on its chain types of either side. -/
theorem descends {path : List Target} {found? : Option Ty} (hs : Within ts P Q s)
    (hr : Within ts P Q r) (h : Descends s r path t found? r') :
    Within ts P Q r' ∧ ∀ ty, found? = some ty → P ty := by
  -- On the descent. A type handed up is of either side, maybe under a null type's qualifiers.
  induction h with
  | absent _ => exact ⟨hr, nofun⟩
  | type ht => exact ⟨hr, fun _ heq => Option.some.inj heq ▸ hr.types ht⟩
  | refused ht _ => exact ⟨hs.take hr (TargetMap.mem_of_get? ht), nofun⟩
  | lost ht _ _ hbelow ih =>
    exact ⟨hs.take ih.1 (hbelow.fills.mem_iff.2 (TargetMap.mem_of_get? ht)), nofun⟩
  | @found _ t _ _ _ _ ht _ _ _ ih =>
    have hty := hs.handed (t := t) hPQ (ih.2 _ rfl)
    exact ⟨ih.1.insert (hr.targets (TargetMap.mem_of_get? ht)) hty,
      fun _ heq => Option.some.inj heq ▸ hty⟩

theorem descendsAll {us : List Target} (hs : Within ts P Q s) (hr : Within ts P Q r)
    (h : DescendsAll s us r r') : Within ts P Q r' := by
  induction h with
  | nil => exact hr
  | cons hdesc _ ih => exact ih (hs.descends hPQ hr hdesc).1

omit hPQ in
theorem adopt (hr : Within ts P Q r) (hs : Within ts P Q s) : Within ts P Q (r.adopt s) := by
  have hget : ∀ {t a}, (r.adopt s).get? t = some a → r.get? t = some a ∨ s.get? t = some a := by
    intro t a ha
    rw [get?_adopt] at ha
    exact (Option.or_eq_some_iff.1 ha).imp_right And.right
  refine ⟨fun {t} ht => ?_, fun ht => ?_, fun ht => ?_⟩
  · rw [TargetMap.mem_def, keys_adopt, List.mem_append] at ht
    exact ht.elim hr.targets fun ht => hs.targets (List.mem_filter.1 ht).1
  · exact (hget ht).elim hr.types hs.types
  · exact (hget ht).elim hr.aliases hs.aliases

/-- A merge succeeds, keeps what is asked of the answers, and leaves no alias of a target with a
    type. -/
theorem merge (hr : Within ts P Q r) (hs : Within ts P Q s) :
    ∃ m, r.merge s = .ok m ∧ Within ts P Q m ∧ m.Collapsed := by
  obtain ⟨filled, hall, hm⟩ := merge_eq r s
  exact ⟨_, hm, ((hs.descendsAll hPQ hr hall).adopt hs).collapse hPQ, collapsed_collapse _⟩

end LaysOver

end Within

/-! ## Chains without a type -/

/-- In collapsed answers no type stands on the chain of a target without one. -/
theorem Collapsed.typeOf?_of_leads_none (h : r.Collapsed) (ht : r.typeOf? t = none) {n : Nat}
    {u : Target} (hu : r.Leads n t u) : r.typeOf? u = none := by
  induction hu with
  | refl => exact ht
  | link hget _ ih => exact ih (h _ _ _ hget)

theorem Within.mem_of_leads (h : Within ts P Q r) (ht : t ∈ ts) {n : Nat} {u : Target}
    (hu : r.Leads n t u) : u ∈ ts := by
  induction hu with
  | refl => exact ht
  | link hget _ ih => exact ih (h.aliases hget).1

end Answers

end QualifiedInference
