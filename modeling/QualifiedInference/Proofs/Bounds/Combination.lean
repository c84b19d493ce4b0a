-- SUMMARY: The shapes of combined types, told by the members of a list of bounds.
import QualifiedInference.Proofs.NominalTypes
import QualifiedInference.Proofs.Qualifiers
import QualifiedInference.Strategy.Bounds
/-!
# Combining many bounds

What two types combine to is told by `shape?`, which leaves aside the qualifiers, and a type absorbs
those that it is combined with without a change. The bounds of a target are combined from the left.
Where any three of them associate, the type that comes out is told by the members of the list alone
(`Combined`), so it is the same in any order (`Combined.unique`).
-/

namespace QualifiedInference

namespace Side

variable (side : Side) (d : NominalTypes)

/-- What two types combine to, leaving aside the qualifiers. -/
def shape? (a b : Ty) : Option Ty :=
  match side with
  | lower => (d.joinShape? a b).map Ty.bare
  | upper => (d.meetShape? a b).map Ty.bare

variable {side d} {a b c : Ty}

theorem map_bare_combineTypes? (order : QualifierOrder) (a b : Ty) :
    (side.combineTypes? (d.typeOrder order) a b).map Ty.bare = side.shape? d a b := by
  cases side with
  | lower =>
    show ((d.joinShape? a b).map _).map Ty.bare = (d.joinShape? a b).map Ty.bare
    cases d.joinShape? a b <;> simp
  | upper =>
    show ((d.meetShape? a b).map _).map Ty.bare = (d.meetShape? a b).map Ty.bare
    cases d.meetShape? a b <;> simp

@[simp] theorem shape?_lower_null_left (s : Qualifiers) (b : Ty) :
    lower.shape? d (.null s) b = some b.bare := by
  cases b <;> rfl

@[simp] theorem shape?_lower_null_right (a : Ty) (t : Qualifiers) :
    lower.shape? d a (.null t) = some a.bare := by
  cases a <;> rfl

@[simp] theorem shape?_upper_null_left (s : Qualifiers) (b : Ty) :
    upper.shape? d (.null s) b = some (.null ∅) := by
  cases b <;> rfl

@[simp] theorem shape?_upper_null_right (a : Ty) (t : Qualifiers) :
    upper.shape? d a (.null t) = some (.null ∅) := by
  cases a <;> rfl

section Named

variable {m n : String} {as bs : List Ty} {s t : Qualifiers} {r : Ty}

theorem shape?_lower_iff : lower.shape? d (.named m as s) (.named n bs t) = some r ↔
    ∃ k cs, r = .named k cs ∅ ∧ d.IsJoin m n k ∧ (k = m → cs = as) ∧ (k = n → cs = bs) ∧
      (k ≠ m → k ≠ n → cs = []) :=
  NominalTypes.joinShape?_named_iff

theorem shape?_lower_named_iff {k : String} {cs : List Ty} :
    lower.shape? d (.named m as s) (.named n bs t) = some (.named k cs ∅) ↔
      d.IsJoin m n k ∧ (k = m → cs = as) ∧ (k = n → cs = bs) ∧ (k ≠ m → k ≠ n → cs = []) := by
  rw [shape?_lower_iff]
  constructor
  · rintro ⟨_, _, ⟨⟩, h⟩
    exact h
  · exact fun h => ⟨k, cs, rfl, h⟩

theorem shape?_lower_symm (h : lower.shape? d (.named m as s) (.named n bs t) = some r) :
    lower.shape? d (.named n bs t) (.named m as s) = some r := by
  obtain ⟨k, cs, rfl, hjoin, hm, hn, hnil⟩ := shape?_lower_iff.1 h
  exact shape?_lower_iff.2 ⟨k, cs, rfl, hjoin.symm, hn, hm, fun hn hm => hnil hm hn⟩

theorem args_eq_of_shape?_lower (h : lower.shape? d (.named m as s) (.named m bs t) = some r) :
    as = bs := by
  obtain ⟨k, cs, -, hjoin, hm, hn, -⟩ := shape?_lower_iff.1 h
  obtain rfl := hjoin.unique (.of_isSubtype (d.isSubtype_refl m))
  exact (hm rfl).symm.trans (hn rfl)

theorem shape?_lower_eq_none {x : String} (hm : d.isSubtype m x = true)
    (hn : d.isSubtype n x = true)
    (h : lower.shape? d (.named m as s) (.named n bs t) = none) : m = n ∧ as ≠ bs :=
  NominalTypes.joinShape?_eq_none hm hn (Option.map_eq_none_iff.1 h)

theorem shape?_upper_iff : upper.shape? d (.named m as s) (.named n bs t) = some r ↔
    (m = n → as = bs) ∧ (d.isSubtype m n = true ∧ r = .named m as ∅ ∨
      d.isSubtype n m = true ∧ r = .named n bs ∅) :=
  NominalTypes.meetShape?_named_iff

end Named

theorem shape?_bare_left (side : Side) (d : NominalTypes) (a b : Ty) :
    side.shape? d a.bare b = side.shape? d a b := by
  cases a with
  | null s => cases side <;> simp
  | named m as s =>
    cases b with
    | null t => cases side <;> simp
    | named n bs t =>
      apply Option.ext
      intro r
      cases side with
      | lower => simp only [Ty.bare_named, shape?_lower_iff]
      | upper => simp only [Ty.bare_named, shape?_upper_iff]

theorem shape?_comm (side : Side) (d : NominalTypes) (a b : Ty) :
    side.shape? d a b = side.shape? d b a := by
  cases a with
  | null s => cases side <;> simp
  | named m as s =>
    cases b with
    | null t => cases side <;> simp
    | named n bs t =>
      apply Option.ext
      intro r
      cases side with
      | lower =>
        exact ⟨shape?_lower_symm, shape?_lower_symm⟩
      | upper =>
        simp only [shape?_upper_iff]
        exact and_congr ⟨fun h hnm => (h hnm.symm).symm, fun h hmn => (h hmn.symm).symm⟩ or_comm

theorem shape?_bare_right (side : Side) (d : NominalTypes) (a b : Ty) :
    side.shape? d a b.bare = side.shape? d a b := by
  rw [shape?_comm, shape?_bare_left, shape?_comm]

/-- A meet is one of the two. -/
theorem shape?_upper_eq {r : Ty} (h : upper.shape? d a b = some r) : r = a.bare ∨ r = b.bare := by
  cases a with
  | null s => exact .inl (by simpa using h.symm)
  | named m as s =>
    cases b with
    | null t => exact .inr (by simpa using h.symm)
    | named n bs t => exact (shape?_upper_iff.1 h).2.imp And.right And.right

/-! ## Absorption -/

/-- Nothing but `a` comes out where it is combined with `b`. -/
def Absorbs (side : Side) (d : NominalTypes) (a b : Ty) : Prop :=
  side.shape? d a b = some a.bare

namespace Absorbs

section Named

variable {k m : String} {cs as : List Ty} {s t : Qualifiers}

theorem lower_iff : lower.Absorbs d (.named k cs s) (.named m as t) ↔
    d.isSubtype m k = true ∧ (k = m → cs = as) := by
  simp only [Absorbs, Ty.bare_named, shape?_lower_named_iff]
  constructor
  · rintro ⟨hjoin, -, hm, -⟩
    exact ⟨hjoin.right, hm⟩
  · rintro ⟨hle, hargs⟩
    exact ⟨(NominalTypes.IsJoin.of_isSubtype hle).symm, fun _ => trivial, hargs,
      fun h => absurd rfl h⟩

theorem upper_iff : upper.Absorbs d (.named k cs s) (.named m as t) ↔
    d.isSubtype k m = true ∧ (k = m → cs = as) := by
  simp only [Absorbs, Ty.bare_named, shape?_upper_iff]
  constructor
  · rintro ⟨hargs, ⟨hle, -⟩ | ⟨hge, heq⟩⟩
    · exact ⟨hle, hargs⟩
    · cases heq
      exact ⟨hge, hargs⟩
  · rintro ⟨hle, hargs⟩
    exact ⟨hargs, .inl ⟨hle, trivial⟩⟩

end Named

@[simp] theorem lower_null_right (a : Ty) (t : Qualifiers) : lower.Absorbs d a (.null t) := by
  simp [Absorbs]

@[simp] theorem upper_null_left (s : Qualifiers) (b : Ty) : upper.Absorbs d (.null s) b := by
  simp [Absorbs]

@[simp] theorem not_lower_null_left (s t : Qualifiers) (m : String) (as : List Ty) :
    ¬lower.Absorbs d (.null s) (.named m as t) := by
  simp [Absorbs]

@[simp] theorem not_upper_null_right (s t : Qualifiers) (m : String) (as : List Ty) :
    ¬upper.Absorbs d (.named m as s) (.null t) := by
  simp [Absorbs]

theorem congr_left {a' : Ty} (h : a'.bare = a.bare) :
    side.Absorbs d a' b ↔ side.Absorbs d a b := by
  rw [Absorbs, Absorbs, ← shape?_bare_left, h, shape?_bare_left]

theorem congr_right {b' : Ty} (h : b'.bare = b.bare) :
    side.Absorbs d a b' ↔ side.Absorbs d a b := by
  rw [Absorbs, Absorbs, ← shape?_bare_right, h, shape?_bare_right]

theorem refl (a : Ty) : side.Absorbs d a a := by
  cases a with
  | null s => cases side <;> simp
  | named m as s =>
    cases side with
    | lower => exact lower_iff.2 ⟨d.isSubtype_refl m, fun _ => rfl⟩
    | upper => exact upper_iff.2 ⟨d.isSubtype_refl m, fun _ => rfl⟩

theorem antisymm (hab : side.Absorbs d a b) (hba : side.Absorbs d b a) : a.bare = b.bare :=
  Option.some.inj (hab.symm.trans ((shape?_comm ..).trans hba))

theorem trans (hab : side.Absorbs d a b) (hbc : side.Absorbs d b c) : side.Absorbs d a c := by
  cases side with
  | lower =>
    cases c with
    | null t => simp
    | named n cs t =>
      cases b with
      | null _ => simp at hbc
      | named m bs _ =>
        cases a with
        | null _ => simp at hab
        | named k as _ =>
          obtain ⟨hmk, hab⟩ := lower_iff.1 hab
          obtain ⟨hnm, hbc⟩ := lower_iff.1 hbc
          refine lower_iff.2 ⟨d.isSubtype_trans hnm hmk, ?_⟩
          rintro rfl
          obtain rfl := d.isSubtype_antisymm hmk hnm
          exact (hab rfl).trans (hbc rfl)
  | upper =>
    cases a with
    | null s => simp
    | named k as _ =>
      cases b with
      | null _ => simp at hab
      | named m bs _ =>
        cases c with
        | null _ => simp at hbc
        | named n cs _ =>
          obtain ⟨hkm, hab⟩ := upper_iff.1 hab
          obtain ⟨hmn, hbc⟩ := upper_iff.1 hbc
          refine upper_iff.2 ⟨d.isSubtype_trans hkm hmn, ?_⟩
          rintro rfl
          obtain rfl := d.isSubtype_antisymm hkm hmn
          exact (hab rfl).trans (hbc rfl)

/-- What two types combine to absorbs them. -/
theorem of_shape? {r : Ty} (h : side.shape? d a b = some r.bare) : side.Absorbs d r a := by
  cases side with
  | lower =>
    cases a with
    | null s => simp
    | named m as s =>
      cases b with
      | null t =>
        simp only [shape?_lower_null_right, Option.some.injEq] at h
        exact (congr_left h.symm).2 (refl _)
      | named n bs t =>
        obtain ⟨k, cs, hr, hjoin, hm, -⟩ := shape?_lower_iff.1 h
        obtain ⟨own, rfl⟩ := Ty.exists_of_bare_eq_named hr
        exact lower_iff.2 ⟨hjoin.left, hm⟩
  | upper =>
    rcases shape?_upper_eq h with hr | hr
    · exact (congr_left hr).2 (refl a)
    · simp only [hr, shape?_comm upper d a b] at h
      exact (congr_left hr).2 h

end Absorbs

/-! ## What the types of a list combine to -/

/-- Both groupings of three types give the same, or neither gives anything. -/
def Associates (side : Side) (d : NominalTypes) (a b c : Ty) : Prop :=
  (side.shape? d a b).bind (side.shape? d · c) = (side.shape? d b c).bind (side.shape? d a)

/-- `r` is what some two of the types combine to. -/
def Attained (side : Side) (d : NominalTypes) (types : List Ty) (r : Ty) : Prop :=
  ∃ a ∈ types, ∃ b ∈ types, side.shape? d a b = some r.bare

theorem Attained.of_mem {types : List Ty} {r : Ty} (ha : a ∈ types) (hbare : a.bare = r.bare) :
    side.Attained d types r :=
  ⟨a, ha, a, ha, hbare ▸ Absorbs.refl a⟩

theorem Attained.append {types : List Ty} {r r' : Ty} (h : side.Attained d types r)
    (hbare : r.bare = r'.bare) (rest : List Ty) : side.Attained d (types ++ rest) r' := by
  obtain ⟨a, ha, b, hb, hab⟩ := h
  exact ⟨a, List.mem_append_left _ ha, b, List.mem_append_left _ hb, hbare ▸ hab⟩

/-- `r` is what two of the types combine to, and absorbs each of them. -/
structure Combined (side : Side) (d : NominalTypes) (types : List Ty) (r : Ty) : Prop where
  pairs : ∀ a ∈ types, ∀ b ∈ types, (side.shape? d a b).isSome
  attained : side.Attained d types r
  absorbs : ∀ a ∈ types, side.Absorbs d r a

namespace Combined

variable {types : List Ty} {r r' z : Ty}

theorem single (a : Ty) : Combined side d [a] a := by
  refine ⟨?_, .of_mem (.head _) rfl, ?_⟩
  · simp [show side.shape? d a a = some a.bare from Absorbs.refl a]
  · simp [Absorbs.refl a]

section Lower

variable {k : String} {cs : List Ty} {own : Qualifiers}

/-- A named type that is attained is attained by named types. -/
theorem exists_named (h : lower.Combined d types (.named k cs own)) :
    ∃ m as s n bs t, .named m as s ∈ types ∧ .named n bs t ∈ types ∧
      lower.shape? d (.named m as s) (.named n bs t) = some (.named k cs ∅) := by
  have hself : ∀ a ∈ types, a.bare = .named k cs ∅ →
      ∃ m as s n bs t, .named m as s ∈ types ∧ .named n bs t ∈ types ∧
        lower.shape? d (.named m as s) (.named n bs t) = some (.named k cs ∅) := by
    intro a ha hbare
    obtain ⟨s, rfl⟩ := Ty.exists_of_bare_eq_named hbare
    exact ⟨k, cs, s, k, cs, s, ha, ha, Absorbs.refl _⟩
  obtain ⟨a, ha, b, hb, hab⟩ := h.attained
  cases a with
  | null s => exact hself b hb (by simpa using hab)
  | named m as s =>
    cases b with
    | null t => exact hself _ ha (by simpa using hab)
    | named n bs t => exact ⟨m, as, s, n, bs, t, ha, hb, hab⟩

theorem exists_not_isSubtype {x : String} (h : lower.Combined d types (.named k cs own))
    (hx : ¬d.isSubtype k x = true) :
    ∃ m as s, .named m as s ∈ types ∧ ¬d.isSubtype m x = true := by
  obtain ⟨m, as, s, n, bs, t, hm, hn, hmn⟩ := h.exists_named
  have hjoin := (shape?_lower_named_iff.1 hmn).1
  by_cases hmx : d.isSubtype m x = true
  · exact ⟨n, bs, t, hn, fun hnx => hx (hjoin.least x hmx hnx)⟩
  · exact ⟨m, as, s, hm, hmx⟩

/-- A type that joins with the whole joins with each member. -/
theorem isSome_of_lower (h : lower.Combined d types r) {a : Ty} (ha : a ∈ types)
    (hassoc : ∀ c ∈ types, lower.Associates d c a z) (hz : lower.shape? d r z = some r') :
    (lower.shape? d a z).isSome := by
  have habsorbs := h.absorbs a ha
  cases a with
  | null s => simp
  | named l as s =>
    cases z with
    | null t => simp
    | named n bs t =>
      cases r with
      | null _ => simp at habsorbs
      | named k cs own =>
        obtain ⟨hlk, hargs⟩ := Absorbs.lower_iff.1 habsorbs
        obtain ⟨k', cs', -, hjoin, -⟩ := shape?_lower_iff.1 hz
        refine Option.isSome_iff_ne_none.2 fun hnone => ?_
        obtain ⟨rfl, hne⟩ :=
          shape?_lower_eq_none (d.isSubtype_trans hlk hjoin.left) hjoin.right hnone
        by_cases hkl : k = l
        · -- Where the whole has that name too, all three have the same arguments.
          subst hkl
          exact hne ((hargs rfl).symm.trans (args_eq_of_shape?_lower hz))
        · -- Else a member is not below `l`, and joined with it first the two would join.
          obtain ⟨m, ms, u, hmem, hnot⟩ :=
            h.exists_not_isSubtype fun hkl' => hkl (d.isSubtype_antisymm hkl' hlk)
          obtain ⟨c, hc⟩ := Option.isSome_iff_exists.1 (h.pairs _ hmem _ ha)
          obtain ⟨j, js, rfl, hj, -⟩ := shape?_lower_iff.1 hc
          have hjl : j ≠ l := fun heq => hnot (heq ▸ hj.left)
          have hsome : lower.shape? d (.named j js ∅) (.named l bs t) = some (.named j js ∅) :=
            Absorbs.lower_iff.2 ⟨hj.right, fun heq => absurd heq hjl⟩
          have hsame := hassoc _ hmem
          simp only [Associates, hc, hnone, Option.bind_some, Option.bind_none, hsome] at hsame
          cases hsame

/-- A type that does not join with the whole does not join with some member. -/
theorem exists_none_of_lower (h : lower.Combined d types r)
    (hassoc : ∀ a ∈ types, ∀ b ∈ types, lower.Associates d a b z)
    (hz : lower.shape? d r z = none) : ∃ a ∈ types, lower.shape? d a z = none := by
  cases z with
  | null t => simp at hz
  | named n bs t =>
    cases r with
    | null _ => simp at hz
    | named k cs own =>
      obtain ⟨m, as, s, m', as', s', hm, hm', hmm'⟩ := h.exists_named
      cases hfirst : lower.shape? d (.named m as s) (.named n bs t) with
      | none => exact ⟨_, hm, hfirst⟩
      | some c =>
        cases hsecond : lower.shape? d (.named m' as' s') (.named n bs t) with
        | none => exact ⟨_, hm', hsecond⟩
        | some c' =>
          exfalso
          obtain ⟨hjoin, hargs, hargs', -⟩ := shape?_lower_named_iff.1 hmm'
          -- `k` and `n` have a common supertype, so it is the arguments that differ.
          obtain ⟨x, hkx, hnx⟩ : ∃ x, d.isSubtype k x = true ∧ d.isSubtype n x = true := by
            obtain ⟨x, _, -, hx, -⟩ := shape?_lower_iff.1 hfirst
            rcases d.isSubtype_or_of_isSubtype hjoin.left hx.left with hkx | hxk
            · exact ⟨x, hkx, hx.right⟩
            · exact ⟨k, d.isSubtype_refl k, d.isSubtype_trans hx.right hxk⟩
          obtain ⟨rfl, hne⟩ := shape?_lower_eq_none hkx hnx hz
          by_cases hkm : k = m
          · subst hkm
            exact hne ((hargs rfl).trans (args_eq_of_shape?_lower hfirst))
          by_cases hkm' : k = m'
          · subst hkm'
            exact hne ((hargs' rfl).trans (args_eq_of_shape?_lower hsecond))
          -- The last two join to the last one, so the whole would join with it.
          have hlast : lower.Absorbs d (.named k bs t) (.named m' as' s') :=
            Absorbs.lower_iff.2 ⟨hjoin.right, fun heq => absurd heq hkm'⟩
          have hsame := hassoc _ hm _ hm'
          simp only [Associates, hmm', (shape?_comm ..).trans hlast, Option.bind_some,
            shape?_bare_right, hfirst] at hsame
          exact Option.some_ne_none c (hsame.symm.trans ((shape?_bare_left ..).trans hz))

theorem attained_of_lower (h : lower.Combined d types r)
    (hz : lower.shape? d r z = some r'.bare) : lower.Attained d (types ++ [z]) r' := by
  have hmem : z ∈ types ++ [z] := List.mem_append_right _ (.head _)
  cases r with
  | null _ => exact .of_mem hmem (by simpa using hz)
  | named k cs own =>
    cases z with
    | null t => exact h.attained.append (by simpa using hz) _
    | named n bs t =>
      obtain ⟨k', cs', heq, hjoin, hk, hn, hnil⟩ := shape?_lower_iff.1 hz
      by_cases hkk : k' = k
      · exact h.attained.append (by rw [heq, hk hkk, hkk, Ty.bare_named]) _
      by_cases hkn : k' = n
      · exact .of_mem hmem (by rw [heq, hn hkn, hkn, Ty.bare_named])
      -- A join above both is already that of the last type and a member.
      obtain ⟨m, as, s, m', as', s', hm, -, hmm'⟩ := h.exists_named
      have hmk := (shape?_lower_named_iff.1 hmm').1.left
      have hkm : k' ≠ m := by
        rintro rfl
        exact hkk (d.isSubtype_antisymm hmk hjoin.left)
      refine ⟨_, List.mem_append_left _ hm, _, hmem, heq ▸ shape?_lower_named_iff.2 ?_⟩
      exact ⟨hjoin.of_ne hmk hkk, fun h => absurd h hkm, fun h => absurd h hkn,
        fun _ _ => hnil hkk hkn⟩

theorem absorbs_of_lower {types' : List Ty} (hsame : ∀ a, a ∈ types ↔ a ∈ types')
    (h : lower.Combined d types r) (h' : lower.Combined d types' r') : lower.Absorbs d r r' := by
  cases r' with
  | null _ => simp
  | named k' cs' own' =>
    obtain ⟨m, as, s, n, bs, t, hm, hn, hmn⟩ := h'.exists_named
    obtain ⟨hjoin, hargs, hargs', hnil⟩ := shape?_lower_named_iff.1 hmn
    have habsm := h.absorbs _ ((hsame _).2 hm)
    have habsn := h.absorbs _ ((hsame _).2 hn)
    cases r with
    | null _ => simp at habsm
    | named k cs own =>
      obtain ⟨hmk, hm'⟩ := Absorbs.lower_iff.1 habsm
      obtain ⟨hnk, hn'⟩ := Absorbs.lower_iff.1 habsn
      refine Absorbs.lower_iff.2 ⟨hjoin.least k hmk hnk, ?_⟩
      rintro rfl
      by_cases hkm : k = m
      · exact (hm' hkm).trans (hargs hkm).symm
      by_cases hkn : k = n
      · exact (hn' hkn).trans (hargs' hkn).symm
      -- The one has no arguments, nor has the other unless it is a member, which the one absorbs.
      obtain ⟨x, es, u, y, fs, v, hx, hy, hxy⟩ := h.exists_named
      obtain ⟨-, hx', hy', hnil'⟩ := shape?_lower_named_iff.1 hxy
      by_cases hkx : k = x
      · exact (hx' hkx).trans ((Absorbs.lower_iff.1 (h'.absorbs _ ((hsame _).1 hx))).2 hkx).symm
      by_cases hky : k = y
      · exact (hy' hky).trans ((Absorbs.lower_iff.1 (h'.absorbs _ ((hsame _).1 hy))).2 hky).symm
      rw [hnil' hkx hky, hnil hkm hkn]

end Lower

section Upper

/-- A meet is a member. -/
theorem exists_mem_of_upper (h : upper.Combined d types r) : ∃ a ∈ types, a.bare = r.bare := by
  obtain ⟨a, ha, b, hb, hab⟩ := h.attained
  rcases shape?_upper_eq hab with hr | hr
  · exact ⟨a, ha, hr.symm⟩
  · exact ⟨b, hb, hr.symm⟩

theorem isSome_of_upper (h : upper.Combined d types r) {a : Ty} (ha : a ∈ types)
    (hassoc : ∀ c ∈ types, upper.Associates d z a c) (hz : upper.shape? d r z = some r') :
    (upper.shape? d a z).isSome := by
  obtain ⟨c, hc, hbare⟩ := h.exists_mem_of_upper
  have hac : upper.shape? d a c = some c.bare :=
    (shape?_comm ..).trans ((Absorbs.congr_left hbare).2 (h.absorbs a ha))
  have hcz : upper.shape? d z c = some r' := by
    rw [← shape?_bare_right, hbare, shape?_bare_right, shape?_comm, hz]
  -- Otherwise `z` and `a` would not combine, but `z` would with the meet of `a` and `c`.
  refine Option.isSome_iff_ne_none.2 fun hnone => ?_
  have hsame := hassoc c hc
  simp only [Associates, (shape?_comm ..).trans hnone, hac, Option.bind_some, Option.bind_none,
    shape?_bare_right, hcz] at hsame
  cases hsame

theorem exists_none_of_upper (h : upper.Combined d types r) (hz : upper.shape? d r z = none) :
    ∃ a ∈ types, upper.shape? d a z = none := by
  obtain ⟨c, hc, hbare⟩ := h.exists_mem_of_upper
  refine ⟨c, hc, ?_⟩
  rw [← shape?_bare_left, hbare, shape?_bare_left, hz]

theorem attained_of_upper (h : upper.Combined d types r)
    (hz : upper.shape? d r z = some r'.bare) : upper.Attained d (types ++ [z]) r' := by
  rcases shape?_upper_eq hz with hr | hr
  · exact h.attained.append hr.symm _
  · exact .of_mem (List.mem_append_right _ (.head _)) hr.symm

theorem absorbs_of_upper {types' : List Ty} (hsame : ∀ a, a ∈ types ↔ a ∈ types')
    (h : upper.Combined d types r) (h' : upper.Combined d types' r') : upper.Absorbs d r r' := by
  obtain ⟨c, hc, hbare⟩ := h'.exists_mem_of_upper
  exact (Absorbs.congr_right hbare).1 (h.absorbs c ((hsame c).2 hc))

end Upper

theorem snoc (h : side.Combined d types r)
    (hassoc : ∀ a ∈ types ++ [z], ∀ b ∈ types ++ [z], ∀ c ∈ types ++ [z], side.Associates d a b c)
    (hz : side.shape? d r z = some r'.bare) : side.Combined d (types ++ [z]) r' := by
  have hleft : ∀ {a}, a ∈ types → a ∈ types ++ [z] := List.mem_append_left _
  have hlast : z ∈ types ++ [z] := List.mem_append_right _ (.head _)
  -- What combines with the whole combines with each member.
  have hpair : ∀ a ∈ types, (side.shape? d a z).isSome := fun a ha => by
    cases side with
    | lower =>
      exact h.isSome_of_lower ha (fun c hc => hassoc c (hleft hc) a (hleft ha) z hlast) hz
    | upper =>
      exact h.isSome_of_upper ha (fun c hc => hassoc z hlast a (hleft ha) c (hleft hc)) hz
  refine ⟨?_, ?_, ?_⟩
  · simp only [List.forall_mem_append, List.forall_mem_singleton]
    refine ⟨fun a ha => ⟨h.pairs a ha, hpair a ha⟩, fun b hb => ?_, ?_⟩
    · exact shape?_comm side d z b ▸ hpair b hb
    · simp [show side.shape? d z z = some z.bare from Absorbs.refl z]
  · cases side with
    | lower => exact h.attained_of_lower hz
    | upper => exact h.attained_of_upper hz
  · simp only [List.forall_mem_append, List.forall_mem_singleton]
    exact ⟨fun a ha => (Absorbs.of_shape? hz).trans (h.absorbs a ha),
      Absorbs.of_shape? ((shape?_comm ..).trans hz)⟩

theorem exists_none (h : side.Combined d types r)
    (hassoc : ∀ a ∈ types, ∀ b ∈ types, side.Associates d a b z)
    (hz : side.shape? d r z = none) : ∃ a ∈ types, side.shape? d a z = none := by
  cases side with
  | lower => exact h.exists_none_of_lower hassoc hz
  | upper => exact h.exists_none_of_upper hz

/-- What the types combine to is told by the members, whatever their order. -/
theorem unique {types' : List Ty} (hsame : ∀ a, a ∈ types ↔ a ∈ types')
    (h : side.Combined d types r) (h' : side.Combined d types' r') : r.bare = r'.bare := by
  cases side with
  | lower =>
    exact (absorbs_of_lower hsame h h').antisymm (absorbs_of_lower (fun a => (hsame a).symm) h' h)
  | upper =>
    exact (absorbs_of_upper hsame h h').antisymm (absorbs_of_upper (fun a => (hsame a).symm) h' h)

end Combined

end Side

end QualifiedInference
