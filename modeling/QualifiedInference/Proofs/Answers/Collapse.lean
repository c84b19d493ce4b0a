-- SUMMARY: The collapse of alias chains as a run of single turns that keeps what chains yield.
import Mathlib.Logic.Relation
import QualifiedInference.Answers
/-!
# Alias chains and their collapse

`Yields` reads the type of a target off its alias chain and `Leads` counts the aliases on the
way. A collapse is a run of single turns: it ends with answers in which no alias points to a
type, and it gives a target the type that its chain yields, or leaves it an alias.
-/

namespace QualifiedInference

namespace Answers

/-! ## Filling -/

/-- `r'` has types in the place of some aliases of `r` and is otherwise the same. -/
structure Fills (r r' : Answers) : Prop where
  keys : r'.keys = r.keys
  types : ∀ {t ty}, r.typeOf? t = some ty → r'.typeOf? t = some ty
  aliases : ∀ {t p extra}, r'.get? t = some (.alias p extra) → r.get? t = some (.alias p extra)

namespace Fills

theorem refl (r : Answers) : Fills r r := ⟨rfl, id, id⟩

theorem trans {r₁ r₂ r₃ : Answers} (h : Fills r₁ r₂) (h' : Fills r₂ r₃) : Fills r₁ r₃ :=
  ⟨h'.keys.trans h.keys, fun ht => h'.types (h.types ht), fun ht => h.aliases (h'.aliases ht)⟩

/-- A type may be put where there is an alias, or where it stands already. -/
theorem insert {r : Answers} {t : Target} {ty : Ty} (hmem : t ∈ r)
    (h : ∀ old, r.typeOf? t = some old → old = ty) : Fills r (r.insert t (.type ty)) := by
  refine ⟨?_, ?_, ?_⟩
  · rw [TargetMap.keys_insert, if_pos hmem]
  · intro u uty hu
    simp only [typeOf?_insert]
    split
    · next hut =>
      subst hut
      rw [h uty hu]
    · exact hu
  · intro u p extra hu
    simp only [TargetMap.get?_insert] at hu
    split at hu
    · cases hu
    · exact hu

theorem insert_of_alias {r : Answers} {t p : Target} {extra : Qualifiers} {ty : Ty}
    (h : r.get? t = some (.alias p extra)) : Fills r (r.insert t (.type ty)) := by
  apply insert (TargetMap.mem_of_get? h)
  intro old hold
  simp only [typeOf?_of_get?_alias h] at hold
  cases hold

theorem mem_iff {r r' : Answers} (h : Fills r r') {t : Target} : t ∈ r' ↔ t ∈ r := by
  rw [TargetMap.mem_def, h.keys]
  rfl

theorem mem_of_isSome {r r' : Answers} (h : Fills r r') {t : Target}
    (ht : (r'.typeOf? t).isSome) : t ∈ r := by
  obtain ⟨ty, hty⟩ := Option.isSome_iff_exists.1 ht
  exact h.mem_iff.1 (TargetMap.mem_of_get? (typeOf?_eq_some.1 hty))

/-- Where there was an alias there is now the same alias or a type. -/
theorem alias_or_type {r r' : Answers} (h : Fills r r') {t p : Target} {extra : Qualifiers}
    (ht : r.get? t = some (.alias p extra)) :
    r'.get? t = some (.alias p extra) ∨ ∃ ty, r'.get? t = some (.type ty) := by
  have hmem : t ∈ r' := h.mem_iff.2 (TargetMap.mem_of_get? ht)
  obtain ⟨a, ha⟩ := Option.isSome_iff_exists.1 ((TargetMap.isSome_get? r' t).2 hmem)
  cases a with
  | type ty => exact Or.inr ⟨ty, ha⟩
  | «alias» p' extra' =>
    have hback := h.aliases ha
    simp only [ht] at hback
    cases hback
    exact Or.inl ha

theorem isSome {r r' : Answers} (h : Fills r r') {t : Target} (ht : (r.typeOf? t).isSome) :
    (r'.typeOf? t).isSome := by
  obtain ⟨ty, hty⟩ := Option.isSome_iff_exists.1 ht
  rw [h.types hty]
  rfl

theorem typeOf?_eq_none {r r' : Answers} (h : Fills r r') {t : Target}
    (ht : r'.typeOf? t = none) : r.typeOf? t = none := by
  cases hty : r.typeOf? t with
  | none => rfl
  | some ty => simp [h.types hty] at ht

theorem get?_eq_none {r r' : Answers} (h : Fills r r') {t : Target} :
    r'.get? t = none ↔ r.get? t = none := by
  simp [h.mem_iff]

end Fills

/-! ## Chains -/

/-- The chain of `t` comes to `u` after `n` aliases. -/
inductive Leads (r : Answers) : Nat → Target → Target → Prop
  | refl (t : Target) : Leads r 0 t t
  | link {n : Nat} {t p u : Target} {extra : Qualifiers} :
    r.get? t = some (.alias p extra) → Leads r n p u → Leads r (n + 1) t u

/-- The chain of `t` ends in a type, which is `ty` once the qualifiers on the way back are laid
    over it. -/
inductive Yields (r : Answers) : Target → Ty → Prop
  | type {t : Target} {ty : Ty} : r.get? t = some (.type ty) → Yields r t ty
  | link {t p : Target} {extra : Qualifiers} {ty : Ty} :
    r.get? t = some (.alias p extra) → Yields r p ty → Yields r t (ty.overlay extra)

theorem Leads.trans {r : Answers} {m n : Nat} {t u v : Target} (h : r.Leads m t u)
    (h' : r.Leads n u v) : r.Leads (m + n) t v := by
  induction h with
  | refl t => rwa [Nat.zero_add]
  | link ht _ ih => rw [Nat.succ_add]; exact .link ht (ih h')

theorem Leads.of_fills {r r' : Answers} {n : Nat} {t u : Target} (hfills : Fills r r')
    (h : r'.Leads n t u) : r.Leads n t u := by
  induction h with
  | refl t => exact .refl t
  | link ht _ ih => exact .link (hfills.aliases ht) ih

theorem Leads.last {r : Answers} {n : Nat} {t u : Target} (h : r.Leads (n + 1) t u) :
    ∃ x extra, r.Leads n t x ∧ r.get? x = some (.alias u extra) := by
  induction n generalizing t with
  | zero =>
    cases h with
    | @link _ _ p _ extra ht hp =>
      cases hp
      exact ⟨t, extra, .refl t, ht⟩
  | succ n ih =>
    cases h with
    | link ht hp =>
      obtain ⟨x, extra, hx, hget⟩ := ih hp
      exact ⟨x, extra, .link ht hx, hget⟩

/-- A chain that ends in a type does not come back to its start. -/
theorem Leads.not_of_typeOf? {r : Answers} {k n : Nat} {t w : Target} {ty : Ty}
    (hcycle : r.Leads (k + 1) t t) (h : r.Leads n t w) (hw : r.typeOf? w = some ty) : False := by
  induction h with
  | refl t =>
    cases hcycle with
    | link ht _ => rw [typeOf?_of_get?_alias ht] at hw; cases hw
  | @link n t p u extra ht _ ih =>
    cases hcycle with
    | link ht' hback =>
      simp only [ht] at ht'
      cases ht'
      exact ih (hback.trans (.link ht (.refl p))) hw

theorem forall_leads_cons {r : Answers} {path : List Target} {t p : Target} {extra : Qualifiers}
    (ht : r.get? t = some (.alias p extra)) (hpath : ∀ x ∈ path, ∃ k, r.Leads (k + 1) x t) :
    ∀ x ∈ t :: path, ∃ k, r.Leads (k + 1) x p := by
  rintro x (_ | ⟨_, hx⟩)
  · exact ⟨0, .link ht (.refl p)⟩
  · obtain ⟨k, hk⟩ := hpath x hx
    exact ⟨k + 1, hk.trans (.link ht (.refl p))⟩

theorem Yields.unique {r : Answers} {t : Target} {ty ty' : Ty} (h : r.Yields t ty)
    (h' : r.Yields t ty') : ty = ty' := by
  induction h generalizing ty' with
  | type ht =>
    cases h' with
    | type ht' => rw [ht] at ht'; cases ht'; rfl
    | link ht' _ => rw [ht] at ht'; cases ht'
  | link ht _ ih =>
    cases h' with
    | type ht' => rw [ht] at ht'; cases ht'
    | link ht' hp' =>
      simp only [ht] at ht'
      cases ht'
      rw [ih hp']

theorem yields_alias_iff {r : Answers} {t p : Target} {extra : Qualifiers} {ty : Ty}
    (h : r.get? t = some (.alias p extra)) :
    r.Yields t ty ↔ ∃ below, r.Yields p below ∧ ty = below.overlay extra := by
  constructor
  · intro hy
    cases hy with
    | type ht => rw [h] at ht; cases ht
    | link ht hp =>
      simp only [h] at ht
      cases ht
      exact ⟨_, hp, rfl⟩
  · rintro ⟨below, hp, rfl⟩
    exact .link h hp

theorem yields_of_typeOf? {r : Answers} {t : Target} {ty : Ty} (h : r.typeOf? t = some ty) :
    r.Yields t ty := .type (typeOf?_eq_some.1 h)

/-! ## Turns -/

/-- One alias of a target with a type becomes a type. -/
def Turn (r r' : Answers) : Prop :=
  ∃ t p extra ty, r.get? t = some (.alias p extra) ∧ r.typeOf? p = some ty ∧
    r' = r.insert t (.type (ty.overlay extra))

/-- No alias points to a target with a type. -/
def Collapsed (r : Answers) : Prop :=
  ∀ t p extra, r.get? t = some (.alias p extra) → r.typeOf? p = none

theorem Turn.fills {r r' : Answers} (h : Turn r r') : Fills r r' := by
  obtain ⟨t, p, extra, ty, ht, -, rfl⟩ := h
  exact Fills.insert_of_alias ht

/-- A turn changes no chain's type: what it puts at its target is what the chain yields there. -/
theorem Turn.yields_iff {r r' : Answers} (h : Turn r r') {u : Target} {ty : Ty} :
    r'.Yields u ty ↔ r.Yields u ty := by
  obtain ⟨t, p, extra, pty, ht, hp, rfl⟩ := h
  have hyt : r.Yields t (pty.overlay extra) := .link ht (yields_of_typeOf? hp)
  -- Chains through the turned target end there now, in the type that they yielded before.
  constructor
  · intro hy
    induction hy with
    | @type u ty hu =>
      simp only [TargetMap.get?_insert] at hu
      split at hu
      · next hut =>
        cases hu
        exact hut ▸ hyt
      · exact .type hu
    | @link u p' extra' below hu _ ih =>
      simp only [TargetMap.get?_insert] at hu
      split at hu
      · cases hu
      · exact .link hu ih
  · intro hy
    induction hy with
    | @type u ty hu =>
      apply Yields.type
      rw [TargetMap.get?_insert, if_neg]
      · exact hu
      · rintro rfl
        simp only [ht] at hu
        cases hu
    | @link u p' extra' below hu hp' ih =>
      by_cases hut : u = t
      · subst hut
        simp only [ht] at hu
        cases hu
        rw [hp'.unique (yields_of_typeOf? hp)]
        exact .type (by rw [TargetMap.get?_insert, if_pos rfl])
      · exact .link (by rwa [TargetMap.get?_insert, if_neg hut]) ih

theorem fills_of_turns {r r' : Answers} (h : Relation.ReflTransGen Turn r r') : Fills r r' := by
  induction h with
  | refl => exact .refl r
  | tail _ hturn ih => exact ih.trans hturn.fills

theorem yields_iff_of_turns {r r' : Answers} (h : Relation.ReflTransGen Turn r r') {t : Target}
    {ty : Ty} :
    r'.Yields t ty ↔ r.Yields t ty := by
  induction h with
  | refl => rfl
  | tail _ hturn ih => exact hturn.yields_iff.trans ih

/-- In collapsed answers a chain that ends in a type has no alias. -/
theorem Collapsed.typeOf?_of_yields {r : Answers} (h : r.Collapsed) {t : Target} {ty : Ty}
    (hy : r.Yields t ty) : r.typeOf? t = some ty := by
  induction hy with
  | type ht => exact typeOf?_eq_some.2 ht
  | link ht _ ih =>
    simp only [h _ _ _ ht] at ih
    cases ih

/-! ## The passes of a collapse -/

/-- Visiting entries makes turns, and visiting them without a turn shows that none was there. -/
theorem turns_foldl_collapseEntry {es : List (Target × Answer)} (hes : (es.map Prod.fst).Nodup)
    (acc : Answers × Bool) (h : ∀ e ∈ es, acc.1.get? e.1 = some e.2) :
    Relation.ReflTransGen Turn acc.1 (es.foldl collapseEntry acc).1 ∧
      ((es.foldl collapseEntry acc).2 = false → es.foldl collapseEntry acc = acc ∧
        ∀ e ∈ es, ∀ p extra, e.2 = .alias p extra → acc.1.typeOf? p = none) := by
  -- On the entries still to visit. Their keys differ, so each has its value until it is visited.
  induction es generalizing acc with
  | nil => exact ⟨.refl, fun _ => ⟨rfl, nofun⟩⟩
  | cons e rest ih =>
    obtain ⟨t, a⟩ := e
    simp only [List.map_cons, List.nodup_cons] at hes
    simp only [List.foldl_cons]
    have hrest : ∀ e ∈ rest, acc.1.get? e.1 = some e.2 := fun e he => h e (.tail _ he)
    cases a with
    | type ty =>
      have hacc : collapseEntry acc (t, .type ty) = acc := rfl
      rw [hacc]
      obtain ⟨hturns, hnone⟩ := ih hes.2 acc hrest
      refine ⟨hturns, fun hflag => ⟨(hnone hflag).1, ?_⟩⟩
      rintro e (_ | ⟨_, he⟩)
      · intro p extra hp
        cases hp
      · exact (hnone hflag).2 e he
    | «alias» p extra =>
      cases hp : acc.1.typeOf? p with
      | none =>
        rw [collapseEntry_of_none hp]
        obtain ⟨hturns, hnone⟩ := ih hes.2 acc hrest
        refine ⟨hturns, fun hflag => ⟨(hnone hflag).1, ?_⟩⟩
        rintro e (_ | ⟨_, he⟩)
        · rintro p' extra' hp'
          cases hp'
          exact hp
        · exact (hnone hflag).2 e he
      | some ty =>
        have hturn : Turn acc.1 (acc.1.insert t (.type (ty.overlay extra))) :=
          ⟨t, p, extra, ty, h _ (.head _), hp, rfl⟩
        have hnext := get?_insert_of_not_mem hes.1 hrest (.type (ty.overlay extra))
        rw [collapseEntry_of_some hp]
        obtain ⟨hturns, hnone⟩ := ih hes.2 (acc.1.insert t (.type (ty.overlay extra)), true) hnext
        refine ⟨.head hturn hturns, fun hflag => ?_⟩
        simp only [(hnone hflag).1] at hflag
        cases hflag

theorem turns_collapsePass (r : Answers) : Relation.ReflTransGen Turn r r.collapsePass.1 :=
  (turns_foldl_collapseEntry r.nodup_keys (r, false) fun _ => TargetMap.get?_of_mem_entries).1

theorem collapsed_of_collapsePass {r : Answers} (h : r.collapsePass.2 = false) :
    r.collapsePass.1 = r ∧ r.Collapsed := by
  obtain ⟨heq, hnone⟩ :=
    (turns_foldl_collapseEntry r.nodup_keys (r, false) fun _ => TargetMap.get?_of_mem_entries).2 h
  refine ⟨congrArg Prod.fst heq, fun t p extra ht => ?_⟩
  exact hnone _ (TargetMap.mem_entries_of_get? ht) p extra rfl

/-- A collapse makes turns until there is none left to make. -/
theorem turns_collapse (r : Answers) :
    Relation.ReflTransGen Turn r r.collapse ∧ r.collapse.Collapsed := by
  induction r using collapse.induct with
  | case1 r r' hpass ih =>
    unfold collapse
    rw [hpass]
    have hturns := turns_collapsePass r
    simp only [hpass] at hturns
    exact ⟨hturns.trans ih.1, ih.2⟩
  | case2 r r' hpass =>
    unfold collapse
    rw [hpass]
    have ⟨heq, hcoll⟩ := collapsed_of_collapsePass (by rw [hpass] : r.collapsePass.2 = false)
    simp only [hpass] at heq
    obtain rfl : r' = r := heq
    exact ⟨.refl, hcoll⟩

/-! ## What a collapse gives -/

theorem collapsed_collapse (r : Answers) : r.collapse.Collapsed := (turns_collapse r).2

theorem fills_collapse (r : Answers) : Fills r r.collapse := fills_of_turns (turns_collapse r).1

theorem typeOf?_collapse {r : Answers} {t : Target} {ty : Ty} :
    r.collapse.typeOf? t = some ty ↔ r.Yields t ty := by
  rw [← yields_iff_of_turns (turns_collapse r).1]
  exact ⟨yields_of_typeOf?, (collapsed_collapse r).typeOf?_of_yields⟩

theorem get?_collapse_eq_alias {r : Answers} {t p : Target} {extra : Qualifiers} :
    r.collapse.get? t = some (.alias p extra) ↔
      r.get? t = some (.alias p extra) ∧ ∀ ty, ¬r.Yields t ty := by
  constructor
  · intro h
    refine ⟨(fills_collapse r).aliases h, fun ty hy => ?_⟩
    simp only [← typeOf?_collapse, typeOf?_of_get?_alias h] at hy
    cases hy
  · rintro ⟨h, hno⟩
    rcases (fills_collapse r).alias_or_type h with h' | ⟨ty, h'⟩
    · exact h'
    · exact absurd (typeOf?_collapse.1 (typeOf?_eq_some.2 h')) (hno ty)

theorem Collapsed.collapse_eq {r : Answers} (h : r.Collapsed) : r.collapse = r := by
  rcases Relation.ReflTransGen.cases_head (turns_collapse r).1 with
    heq | ⟨r', ⟨t, p, extra, ty, ht, hp, -⟩, -⟩
  · exact heq.symm
  · simp only [h t p extra ht] at hp
    cases hp

theorem collapse_eq_self_iff {r : Answers} : r.collapse = r ↔ r.Collapsed :=
  ⟨fun h => h ▸ collapsed_collapse r, Collapsed.collapse_eq⟩

end Answers

end QualifiedInference
