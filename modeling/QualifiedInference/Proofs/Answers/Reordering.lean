-- SUMMARY: When merging into the same answers in another order comes to the same.
import QualifiedInference.Proofs.Answers.Overtaking
import QualifiedInference.Proofs.Equivalence
/-!
# Merging into reordered answers

`typeOf?_merge_iff` reads the types of merged answers off the two sides and off which aliases of
the receiver are overtaken. The order of the receiver matters through the latter only, so
`merge_equiv_iff` can say exactly when two orders lead to the same answers.
-/

namespace QualifiedInference

namespace Answers

open Guard

/-! ## What a merge answers -/

/-- The rules by which a merge of `s` into `r` gives a target its type. -/
inductive MergeYields (r s : Answers) : Target → Ty → Prop
  | own {t : Target} {ty : Ty} : r.typeOf? t = some ty → MergeYields r s t ty
  /-- A descent comes to the alias and hands it the type of its pointee. -/
  | handed {t p : Target} {extra : Qualifiers} {ty : Ty} :
    r.get? t = some (.alias p extra) → r.Overtaken s t → MergeYields r s p ty →
    MergeYields r s t (s.handed t ty)
  | taken {t p : Target} {extra : Qualifiers} {ty : Ty} :
    r.get? t = some (.alias p extra) → ¬r.Overtaken s t → s.typeOf? t = some ty →
    MergeYields r s t ty
  /-- The alias is left to the collapse. -/
  | overlaid {t p : Target} {extra : Qualifiers} {ty : Ty} :
    r.get? t = some (.alias p extra) → ¬r.Overtaken s t → s.typeOf? t = none →
    MergeYields r s p ty → MergeYields r s t (ty.overlay extra)
  | adopted {t : Target} {ty : Ty} :
    r.get? t = none → s.typeOf? t = some ty → MergeYields r s t ty
  /-- An alias of `s`, left to the collapse. -/
  | followed {t p : Target} {extra : Qualifiers} {ty : Ty} :
    r.get? t = none → s.get? t = some (.alias p extra) → MergeYields r s p ty →
    MergeYields r s t (ty.overlay extra)

/-- A descent that finds something puts types by the rules if those before it go by them. -/
theorem Descends.mergeYields {s r r₁ r₂ : Answers} {path : List Target} {t : Target} {ty : Ty}
    (h : Descends s r₁ path t (some ty) r₂) (hfills : Fills r r₁)
    (hdone : ∀ v vty, r₁.typeOf? v = some vty → r.MergeYields s v vty)
    (hover : ∀ v, r₁.typeOf? v = none → (r₂.typeOf? v).isSome → r.Overtaken s v) :
    r.MergeYields s t ty ∧ ∀ v vty, r₂.typeOf? v = some vty → r.MergeYields s v vty := by
  generalize hfound : some ty = found? at h
  induction h generalizing ty with
  | absent _ => cases hfound
  | type ht =>
    cases hfound
    exact ⟨hdone _ _ (typeOf?_eq_some.2 ht), hdone⟩
  | refused _ _ => cases hfound
  | lost _ _ _ _ _ => cases hfound
  | @found path t p extra end_ below ht _ _ hbelow ih =>
    cases hfound
    have hstep : Fills below (below.insert t (.type (s.handed t end_))) :=
      fills_found ht hbelow hbelow.fills.keys
    simp only [typeOf?_insert] at hover ⊢
    obtain ⟨hp, hrest⟩ := ih (fun v hv hv' => hover v hv (by split <;> simp [hv'])) rfl
    have hself : r.MergeYields s t (s.handed t end_) :=
      .handed (hfills.aliases ht) (hover t (typeOf?_of_get?_alias ht) (by simp)) hp
    refine ⟨hself, fun v vty hv => ?_⟩
    split at hv
    · next hvt =>
      cases hv
      exact hvt ▸ hself
    · exact hrest v vty hv

namespace DescendsAll

variable {s r filled : Answers}

theorem fills_of_prefix {ts ts' : List Target} {r₁ r₂ : Answers} (h : DescendsAll s ts r r₁)
    (h' : DescendsAll s ts' r r₂) (hpre : ts <+: ts') : Fills r₁ r₂ := by
  obtain ⟨rest, rfl⟩ := hpre
  obtain ⟨mid, hmid, hrest⟩ := append_iff.1 h'
  exact hmid.unique h ▸ hrest.fills

/-- The types that the descents of a merge have put so far go by the rules. -/
theorem mergeYields_of_prefix (h : DescendsAll s r.keys r filled) {before : List Target}
    {r₁ : Answers} {t : Target} {ty : Ty} (hpre : before <+: r.keys)
    (hbefore : DescendsAll s before r r₁) (hty : r₁.typeOf? t = some ty) :
    r.MergeYields s t ty := by
  -- On the number of descents: an overtaken alias has its type from one among them.
  induction hlen : before.length using Nat.strongRecOn generalizing before r₁ t ty with
  | _ len ih =>
    have hfilled := (hbefore.fills_of_prefix h hpre).types hty
    have hmem : t ∈ r := hbefore.fills.mem_of_isSome (by simp [hty])
    obtain ⟨a, hget⟩ := Option.isSome_iff_exists.1 ((r.isSome_get? t).2 hmem)
    cases a with
    | type own =>
      have hown := typeOf?_eq_some.2 hget
      have hsame := hbefore.fills.types hown
      simp only [hty] at hsame
      cases hsame
      exact .own hown
    | «alias» p extra =>
      rcases h.typeOf?_alias hget with ⟨hover, -⟩ | ⟨hnot, hown⟩
      · obtain ⟨before', u, after', r₁', found, r₂', hkeys', hbefore', hfinds, hdesc, hfills⟩ :=
          h.exists_overtaking hover
        obtain ⟨p', extra', hget'⟩ := hfinds.exists_alias
        have hpre' : before' <+: r.keys := hkeys' ▸ List.prefix_append _ _
        have hshorter : before'.length < len := by
          refine Nat.lt_of_not_le fun hle => ?_
          simp only [← hlen] at hle
          have hlater := (hbefore.fills_of_prefix hbefore'
            (List.prefix_of_prefix_length_le hpre hpre' hle)).types hty
          simp only [typeOf?_of_get?_alias hget'] at hlater
          cases hlater
        obtain ⟨ty', hty'⟩ := Option.isSome_iff_exists.1 (hdesc.isSome_of_findsBelow hget' hfinds)
        have hsame := hfills.types hty'
        simp only [hfilled] at hsame
        cases hsame
        have hyields := hdesc.mergeYields hbefore'.fills (fun v vty hv => ?_) fun v hv hv' => ?_
        · exact hyields.2 t ty hty'
        · exact ih _ hshorter hpre' hbefore' hv rfl
        · exact overtaken_iff_descendsAll.2
            ⟨before', u, after', r₁', hkeys', hbefore', hdesc.findsBelow_of_found hv hv'⟩
      · exact .taken hget hnot (hown ▸ hfilled)

/-- The types of merged answers are those that the rules give. -/
theorem typeOf?_merge_iff (h : DescendsAll s r.keys r filled) {t : Target} {ty : Ty} :
    (filled.adopt s).collapse.typeOf? t = some ty ↔ r.MergeYields s t ty := by
  constructor
  · rw [typeOf?_collapse]
    intro hy
    induction hy with
    | @type t ty ht =>
      simp only [get?_adopt, Option.or_eq_some_iff] at ht
      rcases ht with ht | ⟨hnone, hs⟩
      · exact h.mergeYields_of_prefix (List.prefix_refl _) h (typeOf?_eq_some.2 ht)
      · exact .adopted (h.fills.get?_eq_none.1 hnone) (typeOf?_eq_some.2 hs)
    | @link t p extra ty ht _ ih =>
      simp only [get?_adopt, Option.or_eq_some_iff] at ht
      rcases ht with ht | ⟨hnone, hs⟩
      · have hget := h.fills.aliases ht
        have hnone := typeOf?_of_get?_alias ht
        rcases h.typeOf?_alias hget with ⟨-, below, -, hsome⟩ | ⟨hnot, hown⟩
        · simp only [hnone] at hsome
          cases hsome
        · exact .overlaid hget hnot (hown ▸ hnone) ih
      · exact .followed (h.fills.get?_eq_none.1 hnone) hs ih
  · intro hy
    induction hy with
    | own ht => exact typeOf?_collapse_adopt s (h.fills.types ht)
    | @handed t p extra ty ht hover _ ih =>
      obtain ⟨-, below, hbelow, hty⟩ := (h.typeOf?_alias ht).resolve_right fun hnot => hnot.1 hover
      have hsame := typeOf?_collapse_adopt s hbelow
      simp only [ih] at hsame
      cases hsame
      exact typeOf?_collapse_adopt s hty
    | @taken t p extra ty ht hnot hs =>
      obtain ⟨-, hty⟩ := (h.typeOf?_alias ht).resolve_left fun hover => hnot hover.1
      exact typeOf?_collapse_adopt s (hty.trans hs)
    | @overlaid t p extra ty ht hnot hs _ ih =>
      obtain ⟨-, hty⟩ := (h.typeOf?_alias ht).resolve_left fun hover => hnot hover.1
      obtain ⟨p', extra', hget⟩ :=
        exists_alias (h.fills.mem_iff.2 (TargetMap.mem_of_get? ht)) (hty.trans hs)
      have hback := h.fills.aliases hget
      simp only [ht] at hback
      cases hback
      exact (typeOf?_collapse_adopt_alias hget).2 ⟨ty, ih, rfl⟩
    | adopted ht hs => exact h.typeOf?_merge_of_absent ht hs
    | @followed t p extra ty ht hs _ ih =>
      have hget : (filled.adopt s).get? t = some (.alias p extra) := by
        rw [get?_adopt, h.fills.get?_eq_none.2 ht, hs]
        rfl
      simp only [typeOf?_collapse] at ih ⊢
      exact .link hget ih

/-- A target that a merge leaves without a type has the value that it had. -/
theorem get?_merge_of_untyped (h : DescendsAll s r.keys r filled) {t : Target}
    (ht : (filled.adopt s).collapse.typeOf? t = none) :
    (filled.adopt s).collapse.get? t = (r.get? t).or (s.get? t) := by
  cases hget : (filled.adopt s).collapse.get? t with
  | none =>
    have hnone := (fills_collapse _).get?_eq_none.1 hget
    simp only [get?_adopt, Option.or_eq_none_iff] at hnone
    rw [h.fills.get?_eq_none.1 hnone.1, hnone.2]
    rfl
  | some a =>
    cases a with
    | type ty =>
      simp only [typeOf?_eq_some.2 hget] at ht
      cases ht
    | «alias» p extra =>
      have hadopt := (fills_collapse _).aliases hget
      simp only [get?_adopt, Option.or_eq_some_iff] at hadopt
      rcases hadopt with hfilled | ⟨hnone, hs⟩
      · rw [h.fills.aliases hfilled]
        rfl
      · rw [h.fills.get?_eq_none.1 hnone, hs]
        rfl

theorem isSome_of_pointee (h : DescendsAll s r.keys r filled) {t p : Target} {extra : Qualifiers}
    (ht : (r.get? t).or (s.get? t) = some (.alias p extra))
    (hp : ((filled.adopt s).collapse.typeOf? p).isSome) :
    ((filled.adopt s).collapse.typeOf? t).isSome := by
  cases hty : (filled.adopt s).collapse.typeOf? t with
  | some ty => rfl
  | none =>
    have hget := (h.get?_merge_of_untyped hty).trans ht
    simp only [collapsed_collapse _ t p extra hget] at hp
    cases hp

/-! ## Reordering the receiver -/

/-- What has a type after a merge has one in any order of the receiver. -/
theorem isSome_of_mergeYields {r' : Answers} (h : DescendsAll s r.keys r filled)
    (hequiv : r.Equiv r') {t : Target} {ty : Ty} (hy : r'.MergeYields s t ty) :
    ((filled.adopt s).collapse.typeOf? t).isSome := by
  induction hy with
  | @own t ty ht =>
    simp only [typeOf?, ← hequiv t] at ht
    rw [typeOf?_collapse_adopt s (h.fills.types ht)]
    rfl
  | handed ht _ _ ih => exact h.isSome_of_pointee (by rw [hequiv, ht]; rfl) ih
  | taken _ _ hs => exact h.isSome_typeOf?_merge (by rw [hs]; rfl)
  | overlaid ht _ _ _ ih => exact h.isSome_of_pointee (by rw [hequiv, ht]; rfl) ih
  | adopted _ hs => exact h.isSome_typeOf?_merge (by rw [hs]; rfl)
  | followed ht hs _ ih => exact h.isSome_of_pointee (by rw [hequiv, ht, hs]; rfl) ih

/-- The types of a merge are those of a merge into the reordered receiver, if no alias that one of
    them overtakes and the other does not tells them apart. -/
theorem mergeYields_of_reordered {r' : Answers} (h : DescendsAll s r.keys r filled)
    (hequiv : r.Equiv r')
    (hsame : ∀ t p extra below, r.get? t = some (.alias p extra) → r.MergeYields s p below →
      ¬(r.Overtaken s t ↔ r'.Overtaken s t) →
      s.handed t below = (s.typeOf? t).getD (below.overlay extra))
    {t : Target} {ty : Ty} (hy : r'.MergeYields s t ty) : r.MergeYields s t ty := by
  -- Along the rules for the one order. Where the other has another rule for the alias, the two
  -- rules give the same type.
  induction hy with
  | @own t ty ht =>
    simp only [typeOf?, ← hequiv t] at ht
    exact .own ht
  | @handed t p extra below ht hover _ ih =>
    simp only [← hequiv t] at ht
    by_cases hover' : r.Overtaken s t
    · exact .handed ht hover' ih
    · rw [hsame t p extra below ht ih fun hiff => hover' (hiff.2 hover)]
      cases hs : s.typeOf? t with
      | none => exact .overlaid ht hover' hs ih
      | some own => exact .taken ht hover' hs
  | @taken t p extra ty ht hnot hs =>
    simp only [← hequiv t] at ht
    by_cases hover : r.Overtaken s t
    · obtain ⟨-, below, hbelow, -⟩ :=
        (h.typeOf?_alias ht).resolve_right fun hnot' => hnot'.1 hover
      have hp := h.typeOf?_merge_iff.1 (typeOf?_collapse_adopt s hbelow)
      have hty := hsame t p extra below ht hp fun hiff => hnot (hiff.1 hover)
      simp only [hs, Option.getD_some] at hty
      exact hty ▸ .handed ht hover hp
    · exact .taken ht hover hs
  | @overlaid t p extra below ht hnot hs _ ih =>
    simp only [← hequiv t] at ht
    by_cases hover : r.Overtaken s t
    · have hty := hsame t p extra below ht ih fun hiff => hnot (hiff.1 hover)
      simp only [hs, Option.getD_none] at hty
      exact hty ▸ .handed ht hover ih
    · exact .overlaid ht hover hs ih
  | @adopted t ty ht hs => exact .adopted ((hequiv t).trans ht) hs
  | @followed t p extra ty ht hs _ ih => exact .followed ((hequiv t).trans ht) hs ih

/-- The rule for an alias that one of two orders overtakes and the other does not gives the same
    type in both, if the merged answers are the same. -/
theorem handed_eq_of_equiv {r' filled' : Answers} (h : DescendsAll s r.keys r filled)
    (h' : DescendsAll s r'.keys r' filled') {t p : Target} {extra : Qualifiers} {below : Ty}
    (hm : TargetMap.Equiv (filled.adopt s).collapse (filled'.adopt s).collapse)
    (ht : r.get? t = some (.alias p extra)) (ht' : r'.get? t = some (.alias p extra))
    (hp : (filled.adopt s).collapse.typeOf? p = some below)
    (hover : r.Overtaken s t) (hnot : ¬r'.Overtaken s t) :
    s.handed t below = (s.typeOf? t).getD (below.overlay extra) := by
  have hty := h.typeOf?_merge_iff.2 (.handed ht hover (h.typeOf?_merge_iff.1 hp))
  simp only [typeOf?, hm p, hm t] at hp hty
  have hp' := h'.typeOf?_merge_iff.1 hp
  cases hs : s.typeOf? t with
  | none =>
    have hty' := h'.typeOf?_merge_iff.2 (.overlaid ht' hnot hs hp')
    simp only [typeOf?, hty, Option.some.injEq] at hty'
    exact hty'
  | some own =>
    have hty' := h'.typeOf?_merge_iff.2 (.taken ht' hnot hs)
    simp only [typeOf?, hty, Option.some.injEq] at hty'
    exact hty'

end DescendsAll

/-! ## The order of the receiver -/

/-- An alias that leads to a target below `t`, which `s` has a type for, stands in front of every
    one whose chain comes to `t`. -/
def OvertakenBeforehand (r s : Answers) (t : Target) : Prop :=
  ∃ d, r.Backed s t d ∧ ∃ before after, r.keys = before ++ after ∧
    (∀ v ∈ before, ∀ n, ¬r.Leads n v t) ∧ ∃ v ∈ before, ∃ n, r.Leads n v d

/-- Whether `t` is overtaken, read off the order and the chains. A target that `s` has a type for
    is settled by the first descent that comes to it, any other one by the first that finds
    something. -/
def OvertakenByOrder (r s : Answers) (t : Target) : Prop :=
  if (s.typeOf? t).isSome then r.OvertakenBeforehand s t else r.OvertakenInOrder s t

namespace DescendsAll

variable {s r filled : Answers} {t p : Target} {extra : Qualifiers}

theorem overtaken_iff_beforehand (h : DescendsAll s r.keys r filled) (hr : r.Collapsed)
    (hshort : r.ShortChains) (ht : r.get? t = some (.alias p extra))
    (hs : (s.typeOf? t).isSome) : r.Overtaken s t ↔ r.OvertakenBeforehand s t := by
  have hmem := TargetMap.mem_of_get? ht
  constructor
  · intro hover
    obtain ⟨before, u, after, r₁, found, r₂, hkeys, hbefore, hfinds, -, -⟩ :=
      h.exists_overtaking hover
    obtain ⟨d, hd, hfront⟩ := hbefore.backed_of_findsBelow hr hfinds
    refine ⟨d, hd, before, u :: after, hkeys, fun v hv n hn => ?_, hfront⟩
    -- A descent that came to `t` has given it a type.
    obtain ⟨p', extra', hget⟩ := hfinds.exists_alias
    have htyped := hbefore.isSome_of_leads hr hshort hv hn hmem hs
    simp only [typeOf?_of_get?_alias hget] at htyped
    cases htyped
  · rintro ⟨d, hd, before, after, hkeys, hnot, v, hv, n, hn⟩
    obtain ⟨ty, hty⟩ := Option.isSome_iff_exists.1 (h.isSome_typeOf? hmem hmem hs)
    obtain ⟨before', u, after', r₁, found?, r₂, hkeys', hbefore, hget, hdesc, hr₂, -⟩ :=
      h.exists_step ht hty
    obtain ⟨m, hm, -⟩ := hdesc.origin (typeOf?_of_get?_alias hget) hr₂
    have hpre : before <+: r.keys := hkeys ▸ List.prefix_append _ _
    have hpre' : before' ++ [u] <+: r.keys := by simp [hkeys']
    -- The descent that settles `t` comes after the one that leads to `d`.
    have hlen : before.length ≤ before'.length := by
      refine Nat.le_of_not_lt fun hlt => ?_
      have hle : (before' ++ [u]).length ≤ before.length := by
        rw [List.length_append]
        exact hlt
      have hu : u ∈ before := (List.prefix_of_prefix_length_le hpre' hpre hle).subset (by simp)
      exact hnot u hu m (hm.of_fills hbefore.fills)
    have hv' : v ∈ before' := (List.prefix_of_prefix_length_le hpre
      ((List.prefix_append _ _).trans hpre') hlen).subset hv
    have hd' := hbefore.isSome_of_leads hr hshort hv' hn hd.mem hd.backed
    obtain ⟨k, hk⟩ := hd.below
    obtain ⟨j, w, hj, hw⟩ : ∃ j w, r₁.Leads j t w ∧ (r₁.typeOf? w).isSome := by
      rcases hk.of_fills_or_type hbefore.fills with hk₁ | ⟨j, w, _, hj, hw, -⟩
      · exact ⟨k + 1, d, hk₁, hd'⟩
      · exact ⟨j, w, hj, hw⟩
    cases j with
    | zero =>
      cases hj
      simp only [typeOf?_of_get?_alias hget] at hw
      cases hw
    | succ j =>
      have hdepth := (hshort.of_fills hbefore.fills).le_maxDepth (hm.trans hj) hw
      exact overtaken_iff_descendsAll.2
        ⟨before', u, after', r₁, hkeys', hbefore, m, j, w, hm, hj, hw, hdepth⟩

theorem overtaken_iff_byOrder (h : DescendsAll s r.keys r filled) (hr : r.Collapsed)
    (hshort : r.ShortChains) (ht : r.get? t = some (.alias p extra)) :
    r.Overtaken s t ↔ r.OvertakenByOrder s t := by
  unfold OvertakenByOrder
  split
  · next hs => exact h.overtaken_iff_beforehand hr hshort ht hs
  · next hs => exact h.overtaken_iff hr hshort ht (by simpa using hs)

theorem exists_backed (h : DescendsAll s r.keys r filled) (hr : r.Collapsed)
    (hover : r.Overtaken s t) : ∃ d, r.Backed s t d := by
  obtain ⟨_, _, _, _, _, _, -, hbefore, hfinds, -, -⟩ := h.exists_overtaking hover
  obtain ⟨d, hd, -⟩ := hbefore.backed_of_findsBelow hr hfinds
  exact ⟨d, hd⟩

end DescendsAll

section Equiv

variable {r r' s : Answers} (h : r.Equiv r')
include h

theorem typeOf?_of_equiv (t : Target) : r.typeOf? t = r'.typeOf? t :=
  congrArg (·.bind Answer.type?) (h t)

theorem Leads.of_equiv {n : Nat} {t u : Target} (hn : r.Leads n t u) : r'.Leads n t u := by
  induction hn with
  | refl t => exact .refl t
  | link ht _ ih => exact .link (h _ ▸ ht) ih

theorem Trail.of_equiv {path : List Target} {t : Target} (hpath : r.Trail path t) :
    r'.Trail path t := by
  induction path generalizing t with
  | nil => trivial
  | cons x path ih =>
    obtain ⟨⟨extra, hx⟩, hrest⟩ := hpath
    exact ⟨⟨extra, h x ▸ hx⟩, ih hrest⟩

theorem Collapsed.of_equiv (hr : r.Collapsed) : r'.Collapsed := fun t p extra ht =>
  typeOf?_of_equiv h p ▸ hr t p extra ((h t).trans ht)

theorem Backed.of_equiv {t d : Target} (hd : r.Backed s t d) : r'.Backed s t d := by
  obtain ⟨n, hn⟩ := hd.below
  have hmem : d ∈ r' := by
    rw [← TargetMap.isSome_get?, ← h d, TargetMap.isSome_get?]
    exact hd.mem
  exact ⟨⟨n, hn.of_equiv h⟩, hmem, hd.backed⟩

end Equiv

theorem ShortChains.of_equiv {r r' : Answers} (h : r.Equiv r') (hr : r.ShortChains) :
    r'.ShortChains :=
  fun path t hpath => hr path t (hpath.of_equiv fun t => (h t).symm)

/-- Receivers that hold the same values in different orders. Merged with the same answers they
    have types for the same targets and keep the same aliases. The answers are the same just if
    no alias tells them apart that is overtaken in one order only: the type handed to it has to
    be the one that it gets otherwise. No order matters where no alias stands above a target that
    the subordinate has a type for, and the last part reads off each order what it overtakes. -/
theorem merge_equiv_iff (r r' s : Answers) (h : r.Equiv r') :
    ∃ m m', r.merge s = .ok m ∧ r'.merge s = .ok m' ∧
      (∀ t, (m.typeOf? t).isSome ↔ (m'.typeOf? t).isSome) ∧
      (∀ t, m.typeOf? t = none → m.get? t = m'.get? t) ∧
      (m.Equiv m' ↔ ∀ t p extra below, r.get? t = some (.alias p extra) →
        m.typeOf? p = some below → ¬(r.Overtaken s t ↔ r'.Overtaken s t) →
        s.handed t below = (s.typeOf? t).getD (below.overlay extra)) ∧
      (r.collapse = r → (∀ t d, ¬r.Backed s t d) → m.Equiv m') ∧
      (r.collapse = r → r.ShortChains → ∀ t p extra, r.get? t = some (.alias p extra) →
        (r.Overtaken s t ↔ r.OvertakenByOrder s t) ∧
        (r'.Overtaken s t ↔ r'.OvertakenByOrder s t)) := by
  obtain ⟨filled, hall, hmerge⟩ := merge_eq r s
  obtain ⟨filled', hall', hmerge'⟩ := merge_eq r' s
  have h' : r'.Equiv r := fun t => (h t).symm
  have hsome : ∀ t, ((filled.adopt s).collapse.typeOf? t).isSome ↔
      ((filled'.adopt s).collapse.typeOf? t).isSome := by
    intro t
    simp only [Option.isSome_iff_exists, hall.typeOf?_merge_iff, hall'.typeOf?_merge_iff]
    constructor
    · rintro ⟨ty, hty⟩
      simpa only [Option.isSome_iff_exists, hall'.typeOf?_merge_iff] using
        hall'.isSome_of_mergeYields h' hty
    · rintro ⟨ty, hty⟩
      simpa only [Option.isSome_iff_exists, hall.typeOf?_merge_iff] using
        hall.isSome_of_mergeYields h hty
  have huntyped : ∀ t, (filled.adopt s).collapse.typeOf? t = none →
      (filled.adopt s).collapse.get? t = (filled'.adopt s).collapse.get? t := by
    intro t ht
    have ht' : (filled'.adopt s).collapse.typeOf? t = none := by
      simpa [ht, Option.isSome_iff_ne_none] using hsome t
    rw [hall.get?_merge_of_untyped ht, hall'.get?_merge_of_untyped ht', h t]
  have hequiv : (∀ t p extra below, r.get? t = some (.alias p extra) → r.MergeYields s p below →
      ¬(r.Overtaken s t ↔ r'.Overtaken s t) →
      s.handed t below = (s.typeOf? t).getD (below.overlay extra)) →
      TargetMap.Equiv (filled.adopt s).collapse (filled'.adopt s).collapse := by
    intro hsame t
    cases hty : (filled.adopt s).collapse.typeOf? t with
    | none => exact huntyped t hty
    | some ty =>
      obtain ⟨ty', hty'⟩ := Option.isSome_iff_exists.1 ((hsome t).1 (hty ▸ rfl))
      have hback := hall.mergeYields_of_reordered h hsame (hall'.typeOf?_merge_iff.1 hty')
      simp only [← hall.typeOf?_merge_iff, hty, Option.some.injEq] at hback
      subst hback
      rw [typeOf?_eq_some.1 hty, typeOf?_eq_some.1 hty']
  refine ⟨_, _, hmerge, hmerge', hsome, huntyped, ⟨fun hm t p extra below ht hp hdiff => ?_,
    fun hsame => hequiv fun t p extra below ht hp => ?_⟩, fun hr hnone => ?_,
    fun hr hshort t p extra ht => ?_⟩
  · have ht' : r'.get? t = some (.alias p extra) := h t ▸ ht
    by_cases hover : r.Overtaken s t
    · exact hall.handed_eq_of_equiv hall' hm ht ht' hp hover fun hover' =>
        hdiff ⟨fun _ => hover', fun _ => hover⟩
    · have hover' : r'.Overtaken s t := by
        refine by_contra fun hnot => hdiff ?_
        exact ⟨fun hyes => absurd hyes hover, fun hyes => absurd hyes hnot⟩
      have hp' : (filled'.adopt s).collapse.typeOf? p = some below := typeOf?_of_equiv hm p ▸ hp
      exact hall'.handed_eq_of_equiv hall (fun t => (hm t).symm) ht' ht hp' hover' hover
  · exact hsame t p extra below ht (hall.typeOf?_merge_iff.2 hp)
  · simp only [collapse_eq_self_iff] at hr
    refine hequiv fun t p extra below ht hp hdiff => absurd ⟨fun hover => ?_, fun hover => ?_⟩ hdiff
    · obtain ⟨d, hd⟩ := hall.exists_backed hr hover
      exact absurd hd (hnone t d)
    · obtain ⟨d, hd⟩ := hall'.exists_backed (hr.of_equiv h) hover
      exact absurd (hd.of_equiv h') (hnone t d)
  · simp only [collapse_eq_self_iff] at hr
    exact ⟨hall.overtaken_iff_byOrder hr hshort ht,
      hall'.overtaken_iff_byOrder (hr.of_equiv h) (hshort.of_equiv h) (h t ▸ ht)⟩

/-- The entries of `overtakenReceiver` the other way round. -/
def reorderedReceiver : Answers :=
  .ofList [(⟨1⟩, .alias ⟨2⟩ (.singleton ⟨0, 1⟩)), (⟨2⟩, .alias ⟨3⟩ ∅)]

theorem merge_equiv_iff_reordered :
    overtakenReceiver.Equiv reorderedReceiver ∧
    ∃ m m', overtakenReceiver.merge overtakingSubordinate = .ok m ∧
      reorderedReceiver.merge overtakingSubordinate = .ok m' ∧
      (∀ t, (m.typeOf? t).isSome ↔ (m'.typeOf? t).isSome) ∧
      (m.Equiv m' ↔ ∀ t p extra below, overtakenReceiver.get? t = some (.alias p extra) →
        m.typeOf? p = some below →
        ¬(overtakenReceiver.Overtaken overtakingSubordinate t ↔
          reorderedReceiver.Overtaken overtakingSubordinate t) →
        overtakingSubordinate.handed t below =
          (overtakingSubordinate.typeOf? t).getD (below.overlay extra)) := by
  have h : overtakenReceiver.Equiv reorderedReceiver := TargetMap.equiv_iff.1 (by decide +kernel)
  obtain ⟨m, m', hm, hm', hsome, -, hiff, -⟩ :=
    merge_equiv_iff overtakenReceiver reorderedReceiver overtakingSubordinate h
  exact ⟨h, m, m', hm, hm', hsome, hiff⟩

/-- The order of the receiver decides whether a qualifier is lost. -/
theorem merge_depends_on_order :
    overtakenReceiver.collapse = overtakenReceiver ∧
    reorderedReceiver.collapse = reorderedReceiver ∧
    overtakenReceiver.Equiv reorderedReceiver ∧
    ∃ m m', overtakenReceiver.merge overtakingSubordinate = .ok m ∧
      reorderedReceiver.merge overtakingSubordinate = .ok m' ∧ m.get? ⟨1⟩ ≠ m'.get? ⟨1⟩ := by
  refine ⟨TargetMap.ext (by decide +kernel), TargetMap.ext (by decide +kernel),
    TargetMap.equiv_iff.1 (by decide +kernel), ?_⟩
  have hvalue : (overtakenReceiver.merge overtakingSubordinate).toOption.bind
      (·.get? ⟨1⟩) = some (.type (.named "String" [] ∅)) := by decide +kernel
  have hvalue' : (reorderedReceiver.merge overtakingSubordinate).toOption.bind
      (·.get? ⟨1⟩) = some (.type (.named "String" [] (.singleton ⟨0, 1⟩))) := by decide +kernel
  obtain ⟨filled, -, hm⟩ := merge_eq overtakenReceiver overtakingSubordinate
  obtain ⟨filled', -, hm'⟩ := merge_eq reorderedReceiver overtakingSubordinate
  refine ⟨_, _, hm, hm', ?_⟩
  simp only [hm, Except.toOption, Option.bind_some] at hvalue
  simp only [hm', Except.toOption, Option.bind_some] at hvalue'
  rw [hvalue, hvalue']
  decide +kernel

end Answers

end QualifiedInference
