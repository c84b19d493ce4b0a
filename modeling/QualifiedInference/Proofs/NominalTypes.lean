-- SUMMARY: Subtyping of declared names as an order, and the shapes of joins and meets.
import QualifiedInference.NominalTypes
/-!
# Extremal joins and meets of declared names

The ancestors of a name are the name followed by the ancestors of its supertype, so what stands
behind an ancestor in the list are that one's own ancestors (`ancestors_suffix`). Hence the
names are ordered, those above a name form a chain, and the first common ancestor of two names
is below all others (`IsJoin`). Two types have a meet only where one name is below the other.
-/

namespace QualifiedInference

namespace NominalTypes

/-! ## Ancestors -/

theorem mem_of_valueIn?_join {ds : List (String × Option String)} (h : DeclaredInOrder ds)
    {name super : String} (hs : (OrderedMap.valueIn? name ds).join = some super) :
    super ∈ ds.map Prod.fst := by
  induction ds with
  | nil => cases hs
  | cons e rest ih =>
    obtain ⟨n, super?⟩ := e
    obtain ⟨-, hsuper, hrest⟩ := h
    simp only [OrderedMap.valueIn?] at hs
    split at hs
    · exact .tail _ (hsuper super hs)
    · exact .tail _ (ih hrest hs)

theorem ancestorsIn_cons_of_ne {ds : List (String × Option String)} {n name : String}
    {super? : Option String} (h : n ≠ name) :
    ancestorsIn ((n, super?) :: ds) name = ancestorsIn ds name := by
  rw [ancestorsIn.eq_def]
  exact if_neg h

theorem ancestorsIn_eq {ds : List (String × Option String)} (h : DeclaredInOrder ds)
    (name : String) :
    ancestorsIn ds name =
      name :: ((OrderedMap.valueIn? name ds).join.map (ancestorsIn ds)).getD [] := by
  -- On the declarations, the last one first: none before it names it as a supertype.
  induction ds with
  | nil => rfl
  | cons e rest ih =>
    obtain ⟨n, super?⟩ := e
    obtain ⟨hnew, hsuper, hrest⟩ := h
    by_cases hn : n = name
    · subst hn
      cases super? with
      | none => simp [ancestorsIn, OrderedMap.valueIn?]
      | some super =>
        have hne : n ≠ super := fun he => hnew (he ▸ hsuper super rfl)
        simp [ancestorsIn, OrderedMap.valueIn?, hne]
    · rw [ancestorsIn_cons_of_ne hn, ih hrest, OrderedMap.valueIn?, if_neg hn]
      cases hs : (OrderedMap.valueIn? name rest).join with
      | none => rfl
      | some super =>
        have hne : n ≠ super := fun he => hnew (he ▸ mem_of_valueIn?_join hrest hs)
        simp only [Option.map_some, Option.getD_some, ancestorsIn_cons_of_ne hne]

variable (d : NominalTypes)

theorem ancestors_eq (name : String) :
    d.ancestors name = name :: ((d.supertype? name).map d.ancestors).getD [] :=
  ancestorsIn_eq d.inOrder name

theorem isSubtype_iff {sub super : String} :
    d.isSubtype sub super = true ↔ super ∈ d.ancestors sub := decide_eq_true_iff

/-- What stands behind an ancestor are its own ancestors. -/
theorem ancestors_suffix {nearer farther : List String} {name c : String}
    (h : d.ancestors name = nearer ++ c :: farther) : d.ancestors c = c :: farther := by
  induction nearer generalizing name with
  | nil =>
    have hname := h
    simp only [ancestors_eq, List.nil_append, List.cons.injEq] at hname
    rw [← hname.1, h, hname.1]
    rfl
  | cons x nearer ih =>
    simp only [ancestors_eq, List.cons_append, List.cons.injEq] at h
    cases hs : d.supertype? name with
    | none => rw [hs] at h; simp at h
    | some super =>
      simp only [hs] at h
      exact ih h.2

theorem isSubtype_refl (name : String) : d.isSubtype name name = true := by
  simp only [isSubtype_iff, ancestors_eq]
  exact .head _

theorem isSubtype_trans {a b c : String} (hab : d.isSubtype a b = true)
    (hbc : d.isSubtype b c = true) : d.isSubtype a c = true := by
  simp only [isSubtype_iff] at hab hbc ⊢
  obtain ⟨nearer, farther, h⟩ := List.append_of_mem hab
  simp only [d.ancestors_suffix h] at hbc
  rw [h]
  exact List.mem_append_right _ hbc

theorem isSubtype_antisymm {a b : String} (hab : d.isSubtype a b = true)
    (hba : d.isSubtype b a = true) : a = b := by
  simp only [isSubtype_iff] at hab hba
  obtain ⟨nearer, farther, h⟩ := List.append_of_mem hab
  obtain ⟨nearer', farther', h'⟩ := List.append_of_mem hba
  have hb := d.ancestors_suffix h
  have ha := d.ancestors_suffix h'
  -- Each list of ancestors ends in the other one, so neither is the longer.
  have hlen := congrArg List.length (h.symm.trans ha)
  have hlen' := congrArg List.length (h'.symm.trans hb)
  simp only [List.length_append, List.length_cons] at hlen hlen'
  obtain rfl : nearer = [] := List.length_eq_zero_iff.1 (by omega)
  exact (List.cons.inj (ha.symm.trans h)).1

/-- The ancestors of a name form a chain. -/
theorem isSubtype_or_of_isSubtype {a b c : String} (hb : d.isSubtype a b = true)
    (hc : d.isSubtype a c = true) : d.isSubtype b c = true ∨ d.isSubtype c b = true := by
  simp only [isSubtype_iff] at hb hc ⊢
  obtain ⟨nearer, farther, h⟩ := List.append_of_mem hb
  simp only [h, List.mem_append] at hc
  rcases hc with hc | hc
  · obtain ⟨nearest, between, rfl⟩ := List.append_of_mem hc
    simp only [List.append_assoc, List.cons_append] at h
    rw [d.ancestors_suffix h]
    exact .inr (by simp)
  · rw [d.ancestors_suffix h]
    exact .inl hc

/-- The first ancestor of one name that is an ancestor of another is below all such. -/
theorem isSubtype_of_find?_ancestors {a b c x : String}
    (h : (d.ancestors a).find? (d.isSubtype b) = some c) (ha : d.isSubtype a x = true)
    (hb : d.isSubtype b x = true) : d.isSubtype c x = true := by
  obtain ⟨-, nearer, farther, hsplit, hnone⟩ := List.find?_eq_some_iff_append.1 h
  simp only [isSubtype_iff, hsplit, List.mem_append] at ha
  rcases ha with hx | hx
  · have hno := hnone x hx
    simp only [hb] at hno
    cases hno
  · rwa [isSubtype_iff, d.ancestors_suffix hsplit]

end NominalTypes

/-! ## Types without qualifiers -/

namespace Ty

/-- The type without its qualifiers. -/
def bare (ty : Ty) : Ty := ty.withQualifiers ∅

@[simp] theorem bare_null (qs : Qualifiers) : (null qs).bare = .null ∅ := rfl

@[simp] theorem bare_named (name : String) (args : List Ty) (qs : Qualifiers) :
    (named name args qs).bare = .named name args ∅ := rfl

@[simp] theorem bare_bare (ty : Ty) : ty.bare.bare = ty.bare := by cases ty <;> rfl

@[simp] theorem bare_withQualifiers (ty : Ty) (qs : Qualifiers) :
    (ty.withQualifiers qs).bare = ty.bare := by cases ty <;> rfl

theorem exists_of_bare_eq_named {ty : Ty} {name : String} {args : List Ty} {qs : Qualifiers}
    (h : ty.bare = .named name args qs) : ∃ own, ty = .named name args own := by
  cases ty with
  | null _ => cases h
  | named _ _ own => cases h; exact ⟨own, rfl⟩

theorem ext_bare {a b : Ty} (h : a.bare = b.bare) (hqs : a.qualifiers = b.qualifiers) : a = b := by
  cases a <;> cases b <;> simp_all [qualifiers]

end Ty

namespace NominalTypes

section Shapes

variable (d : NominalTypes) {m n k x : String} {as bs : List Ty} {s t : Qualifiers}

/-- `k` is the least name above both. -/
structure IsJoin (m n k : String) : Prop where
  left : d.isSubtype m k = true
  right : d.isSubtype n k = true
  least : ∀ x, d.isSubtype m x = true → d.isSubtype n x = true → d.isSubtype k x = true

variable {d}

theorem IsJoin.unique {k' : String} (h : d.IsJoin m n k) (h' : d.IsJoin m n k') : k = k' :=
  d.isSubtype_antisymm (h.least k' h'.left h'.right) (h'.least k h.left h.right)

theorem IsJoin.of_isSubtype (h : d.isSubtype m n = true) : d.IsJoin m n n :=
  ⟨h, d.isSubtype_refl n, fun _ _ hn => hn⟩

theorem IsJoin.symm (h : d.IsJoin m n k) : d.IsJoin n m k :=
  ⟨h.right, h.left, fun x hn hm => h.least x hm hn⟩

/-- A join that is not one of the two is also that of the names below one of them. -/
theorem IsJoin.of_ne {k' : String} (hmk : d.isSubtype m k = true) (h : d.IsJoin k n k')
    (hne : k' ≠ k) : d.IsJoin m n k' := by
  refine ⟨d.isSubtype_trans hmk h.left, h.right, fun x hmx hnx => ?_⟩
  rcases d.isSubtype_or_of_isSubtype hmk hmx with hkx | hxk
  · exact h.least x hkx hnx
  · -- `n` is below `k` then, which makes `k` the join.
    exact absurd (h.unique (IsJoin.of_isSubtype (d.isSubtype_trans hnx hxk)).symm) hne

/-- A type named for a join is named for the one join there is. -/
theorem IsJoin.exists_named_iff (h : d.IsJoin m n k) {r : Ty} {P : String → List Ty → Prop} :
    (∃ k' cs, r = .named k' cs ∅ ∧ d.IsJoin m n k' ∧ P k' cs) ↔
      ∃ cs, r = .named k cs ∅ ∧ P k cs := by
  constructor
  · rintro ⟨k', cs, hr, h', hP⟩
    obtain rfl := h.unique h'
    exact ⟨cs, hr, hP⟩
  · rintro ⟨cs, hr, hP⟩
    exact ⟨k, cs, hr, h, hP⟩

theorem isJoin_of_find?_ancestors (h : (d.ancestors m).find? (d.isSubtype n) = some k) :
    d.IsJoin m n k where
  left := d.isSubtype_iff.2 (List.mem_of_find?_eq_some h)
  right := List.find?_some h
  least _ hm hn := d.isSubtype_of_find?_ancestors h hm hn

theorem not_isJoin_of_find?_ancestors (h : (d.ancestors m).find? (d.isSubtype n) = none) :
    ¬d.IsJoin m n k := fun hk =>
  absurd hk.right (List.find?_eq_none.1 h k (d.isSubtype_iff.1 hk.left))

theorem map_bare_joinShape?_named :
    (d.joinShape? (.named m as s) (.named n bs t)).map Ty.bare =
      if m = n then if as = bs then some (.named m as ∅) else none
      else if d.isSubtype n m then some (.named m as ∅)
      else if d.isSubtype m n then some (.named n bs ∅)
      else ((d.ancestors m).find? (d.isSubtype n)).map fun k => .named k [] ∅ := by
  simp only [joinShape?]
  split
  · split <;> rfl
  · split
    · rfl
    · split
      · rfl
      · rw [Option.map_map]
        rfl

/-- The join of two names, if they have one, takes the arguments of the one that is above the
    other, and has no arguments where neither is. -/
theorem joinShape?_named_iff {r : Ty} :
    (d.joinShape? (.named m as s) (.named n bs t)).map Ty.bare = some r ↔
      ∃ k cs, r = .named k cs ∅ ∧ d.IsJoin m n k ∧ (k = m → cs = as) ∧ (k = n → cs = bs) ∧
        (k ≠ m → k ≠ n → cs = []) := by
  rw [map_bare_joinShape?_named]
  split
  · next hmn =>
    subst hmn
    rw [(IsJoin.of_isSubtype (d.isSubtype_refl m)).exists_named_iff]
    split
    · next heq => simp [heq, eq_comm]
    · next hne => simp [Ne.symm hne]
  · next hmn =>
    split
    · next hnm =>
      rw [(IsJoin.of_isSubtype hnm).symm.exists_named_iff]
      simp [hmn, eq_comm]
    · next hnm =>
      split
      · next hmn' =>
        rw [(IsJoin.of_isSubtype hmn').exists_named_iff]
        simp [Ne.symm hmn, eq_comm]
      · next hmn' =>
        cases hfind : (d.ancestors m).find? (d.isSubtype n) with
        | none => simp [not_isJoin_of_find?_ancestors hfind]
        | some k =>
          have hk := isJoin_of_find?_ancestors hfind
          have hkm : k ≠ m := fun h => hnm (h ▸ hk.right)
          have hkn : k ≠ n := fun h => hmn' (h ▸ hk.left)
          rw [hk.exists_named_iff]
          simp [hkm, hkn, eq_comm]

/-- Names with a common supertype have a join. -/
theorem exists_isJoin (hm : d.isSubtype m x = true) (hn : d.isSubtype n x = true) :
    ∃ k, d.IsJoin m n k := by
  cases hfind : (d.ancestors m).find? (d.isSubtype n) with
  | none => exact absurd hn (List.find?_eq_none.1 hfind x (d.isSubtype_iff.1 hm))
  | some k => exact ⟨k, isJoin_of_find?_ancestors hfind⟩

/-- Types with a common supertype fail to join only where they are applications of one name to
    different arguments. -/
theorem joinShape?_eq_none (hm : d.isSubtype m x = true) (hn : d.isSubtype n x = true)
    (h : d.joinShape? (.named m as s) (.named n bs t) = none) : m = n ∧ as ≠ bs := by
  obtain ⟨k, hk⟩ := exists_isJoin hm hn
  have hno : ∀ cs, (k = m → cs = as) → (k = n → cs = bs) → ¬(k ≠ m → k ≠ n → cs = []) := by
    intro cs hm hn hnil
    have hsome : (d.joinShape? (.named m as s) (.named n bs t)).map Ty.bare =
        some (.named k cs ∅) := joinShape?_named_iff.2 ⟨k, cs, rfl, hk, hm, hn, hnil⟩
    simp only [h, Option.map_none] at hsome
    cases hsome
  -- The arguments that the join would have fit unless two different ones are asked for.
  by_cases hkm : k = m
  · have hkn : k = n := Decidable.byContradiction fun hne =>
      hno as (fun _ => rfl) (fun h => absurd h hne) fun h => absurd hkm h
    refine ⟨hkm.symm.trans hkn, fun heq => ?_⟩
    exact hno as (fun _ => rfl) (fun _ => heq) fun h => absurd hkm h
  · by_cases hkn : k = n
    · exact (hno bs (fun h => absurd h hkm) (fun _ => rfl) fun _ h => absurd hkn h).elim
    · exact (hno [] (fun h => absurd h hkm) (fun h => absurd h hkn) fun _ _ => rfl).elim

theorem meetShape?_named_iff {r : Ty} :
    (d.meetShape? (.named m as s) (.named n bs t)).map Ty.bare = some r ↔
      (m = n → as = bs) ∧ (d.isSubtype m n = true ∧ r = .named m as ∅ ∨
        d.isSubtype n m = true ∧ r = .named n bs ∅) := by
  have hshape : (d.meetShape? (.named m as s) (.named n bs t)).map Ty.bare =
      if m = n then if as = bs then some (.named m as ∅) else none
      else if d.isSubtype m n then some (.named m as ∅)
      else if d.isSubtype n m then some (.named n bs ∅)
      else none := by
    simp only [meetShape?]
    split
    · split <;> rfl
    · split
      · rfl
      · split <;> rfl
  rw [hshape]
  split
  · next hmn =>
    subst hmn
    have hrefl := d.isSubtype_refl m
    split
    · next heq => simp [heq, hrefl, eq_comm]
    · next hne => simp [hne]
  · next hmn =>
    split
    · next hle =>
      have hnot : ¬d.isSubtype n m = true := fun hge => hmn (d.isSubtype_antisymm hle hge)
      simp [hmn, hle, hnot, eq_comm]
    · next hle =>
      split
      · next hge => simp [hmn, hle, hge, eq_comm]
      · next hge => simp [hle, hge]

end Shapes

end NominalTypes

/-! ## Types without arguments -/

/-- The type is a name without arguments, under some qualifiers. -/
def Ty.IsPlain (ty : Ty) : Prop := ∃ name qs, ty = .named name [] qs

namespace Ty

instance : (ty : Ty) → Decidable ty.IsPlain
  | .null _ => isFalse fun ⟨_, _, h⟩ => by cases h
  | .named name [] qs => isTrue ⟨name, qs, rfl⟩
  | .named _ (_ :: _) _ => isFalse fun ⟨_, _, h⟩ => by cases h

theorem IsPlain.isNull {ty : Ty} (h : ty.IsPlain) : ty.isNull = false := by
  obtain ⟨name, qs, rfl⟩ := h
  rfl

theorem IsPlain.exists_name {ty : Ty} (h : ty.IsPlain) : ∃ name, ty.name? = some name := by
  obtain ⟨name, qs, rfl⟩ := h
  exact ⟨name, rfl⟩

theorem IsPlain.overlay {ty : Ty} (h : ty.IsPlain) (qs : Qualifiers) : (ty.overlay qs).IsPlain := by
  obtain ⟨name, own, rfl⟩ := h
  exact ⟨name, _, rfl⟩

@[simp] theorem name?_withQualifiers (ty : Ty) (qs : Qualifiers) :
    (ty.withQualifiers qs).name? = ty.name? := by
  cases ty <;> rfl

@[simp] theorem name?_overlay (ty : Ty) (qs : Qualifiers) : (ty.overlay qs).name? = ty.name? :=
  name?_withQualifiers ty _

end Ty

namespace NominalTypes

variable (d : NominalTypes)

/-- The join of two plain types is plain, and its name is the least above both. -/
theorem join?_of_isPlain {order : QualifierOrder} {a b c : Ty} (ha : a.IsPlain) (hb : b.IsPlain)
    (h : (d.typeOrder order).join? a b = some c) :
    c.IsPlain ∧ ∀ m n k, a.name? = some m → b.name? = some n → c.name? = some k →
      d.isSubtype m k = true ∧ d.isSubtype n k = true ∧
        ∀ x, d.isSubtype m x = true → d.isSubtype n x = true → d.isSubtype k x = true := by
  obtain ⟨m, s, rfl⟩ := ha
  obtain ⟨n, t, rfl⟩ := hb
  obtain ⟨shape, hshape, rfl⟩ := Option.map_eq_some_iff.1 h
  have hbare := congrArg (Option.map Ty.bare) hshape
  obtain ⟨k, cs, hk, hjoin, hm, hn, hnil⟩ := joinShape?_named_iff.1 hbare
  obtain rfl : cs = [] := by
    by_cases hkm : k = m
    · exact hm hkm
    · by_cases hkn : k = n
      · exact hn hkn
      · exact hnil hkm hkn
  obtain ⟨qs, rfl⟩ := Ty.exists_of_bare_eq_named hk
  refine ⟨⟨k, _, rfl⟩, fun m' n' k' hm' hn' hk' => ?_⟩
  cases hm'
  cases hn'
  cases hk'
  exact ⟨hjoin.left, hjoin.right, hjoin.least⟩

/-- The meet of two plain types is plain, and its name is the greatest below both. -/
theorem meet?_of_isPlain {order : QualifierOrder} {a b c : Ty} (ha : a.IsPlain) (hb : b.IsPlain)
    (h : (d.typeOrder order).meet? a b = some c) :
    c.IsPlain ∧ ∀ m n k, a.name? = some m → b.name? = some n → c.name? = some k →
      d.isSubtype k m = true ∧ d.isSubtype k n = true ∧
        ∀ x, d.isSubtype x m = true → d.isSubtype x n = true → d.isSubtype x k = true := by
  obtain ⟨m, s, rfl⟩ := ha
  obtain ⟨n, t, rfl⟩ := hb
  obtain ⟨shape, hshape, rfl⟩ := Option.map_eq_some_iff.1 h
  have hbare := congrArg (Option.map Ty.bare) hshape
  obtain ⟨-, ⟨hmn, hk⟩ | ⟨hnm, hk⟩⟩ := meetShape?_named_iff.1 hbare
  · obtain ⟨qs, rfl⟩ := Ty.exists_of_bare_eq_named hk
    refine ⟨⟨m, _, rfl⟩, fun m' n' k' hm' hn' hk' => ?_⟩
    cases hm'
    cases hn'
    cases hk'
    exact ⟨d.isSubtype_refl m, hmn, fun x hx _ => hx⟩
  · obtain ⟨qs, rfl⟩ := Ty.exists_of_bare_eq_named hk
    refine ⟨⟨n, _, rfl⟩, fun m' n' k' hm' hn' hk' => ?_⟩
    cases hm'
    cases hn'
    cases hk'
    exact ⟨hnm, d.isSubtype_refl n, fun x _ hx => hx⟩

end NominalTypes

end QualifiedInference
