-- SUMMARY: Aliases that lose their qualifiers in a merge, read off the chains and the order of the answers.
import Mathlib.Data.List.Perm.Subperm
import QualifiedInference.Proofs.Answers.Merge
/-!
# Aliases that a merge overtakes

An alias that a merge completes is meant to take the type of its pointee under the qualifiers it
carries. It does so when the collapse completes it, and it loses them when a descent comes to it
after an earlier descent has put a type further down its chain. `Overtaken` says when that is the
case, and `overtaken_iff` reads it off the chains and the order of the receiver.
-/

namespace QualifiedInference

namespace Answers

open Guard

/-- From `u` a descent comes to `t` and then, within the depth of its guard, to a type. -/
def FindsBelow (r : Answers) (u t : Target) : Prop :=
  ∃ m n w, r.Leads m u t ∧ r.Leads (n + 1) t w ∧ (r.typeOf? w).isSome ∧ m + (n + 1) ≤ maxDepth

/-- Some descent of a merge of `s` into `r` finds a type below the alias `t`. -/
def Overtaken (r s : Answers) (t : Target) : Prop :=
  ∃ before u after reached guard, r.keys = before ++ u :: after ∧
    before.foldlM (mergeTarget s) (r, .new .aliasChain) = .ok (reached, guard) ∧
    reached.FindsBelow u t

theorem overtaken_iff_descendsAll {r s : Answers} {t : Target} : r.Overtaken s t ↔
    ∃ before u after reached, r.keys = before ++ u :: after ∧ DescendsAll s before r reached ∧
      reached.FindsBelow u t := by
  constructor
  · rintro ⟨before, u, after, reached, guard, hkeys, hfold, hfinds⟩
    exact ⟨before, u, after, reached, hkeys, (foldlM_mergeTarget_iff.1 hfold).1, hfinds⟩
  · rintro ⟨before, u, after, reached, hkeys, hall, hfinds⟩
    exact ⟨before, u, after, reached, _, hkeys, foldlM_mergeTarget_iff.2 ⟨hall, rfl⟩, hfinds⟩

theorem Descends.found_of_findsBelow {s r r' : Answers} {u t : Target} {found? : Option Ty}
    (h : Descends s r [] u found? r') (hfinds : r.FindsBelow u t) : found?.isSome := by
  obtain ⟨m, n, w, hm, hn, hw, hdepth⟩ := hfinds
  apply h.found_of_leads (by simp) (hm.trans hn) hw
  rwa [List.length_nil, Nat.zero_add]

theorem Descends.findsBelow_of_found {s r r' : Answers} {u t : Target} {ty : Ty}
    (h : Descends s r [] u (some ty) r') (ht : r.typeOf? t = none) (ht' : (r'.typeOf? t).isSome) :
    r.FindsBelow u t := by
  obtain ⟨tty, htty⟩ := Option.isSome_iff_exists.1 ht'
  obtain ⟨m, hm, hcause⟩ := h.origin ht htty
  obtain ⟨-, p, extra, path, end_, below, hlen, hlt, hget, hdesc, -⟩ :=
    hcause.resolve_left nofun
  obtain ⟨n, w, hn, hw, hdepth⟩ := hdesc.leads_of_found hlt rfl
  simp only [List.length_cons, hlen, List.length_nil] at hdepth
  exact ⟨m, n, w, hm, .link hget hn, hw, by omega⟩

/-- What a descent gives to an alias: the type from below if it passes the alias and finds one
    there, and otherwise the type that `s` has. -/
theorem Descends.typeOf?_alias {s r r' : Answers} {u t p : Target} {extra : Qualifiers}
    {found? : Option Ty} {ty : Ty} (h : Descends s r [] u found? r')
    (ht : r.get? t = some (.alias p extra)) (hty : r'.typeOf? t = some ty) :
    (¬r.FindsBelow u t ∧ s.typeOf? t = some ty) ∨
      (r.FindsBelow u t ∧ ∃ below, r'.typeOf? p = some below ∧ ty = s.handed t below) := by
  have hnone : r.typeOf? t = none := typeOf?_of_get?_alias ht
  obtain ⟨m, -, hcause⟩ := h.origin hnone hty
  rcases hcause with ⟨rfl, hown⟩ | ⟨hfound, p', extra', path, end_, below, -, -, hget, hdesc,
    hfills, hhanded⟩
  · refine Or.inl ⟨fun hfinds => ?_, hown⟩
    cases h.found_of_findsBelow hfinds
  · simp only [ht] at hget
    cases hget
    obtain ⟨found, rfl⟩ := Option.isSome_iff_exists.1 hfound
    exact Or.inr ⟨h.findsBelow_of_found hnone (hty ▸ rfl), end_, hfills.types hdesc.typeOf?_self,
      hhanded⟩

theorem Descends.isSome_of_findsBelow {s r r' : Answers} {u t p : Target} {extra : Qualifiers}
    {found? : Option Ty} (h : Descends s r [] u found? r')
    (ht : r.get? t = some (.alias p extra)) (hfinds : r.FindsBelow u t) :
    (r'.typeOf? t).isSome := by
  obtain ⟨ty, rfl⟩ := Option.isSome_iff_exists.1 (h.found_of_findsBelow hfinds)
  obtain ⟨m, n, w, hm, -⟩ := hfinds
  exact h.isSome_typeOf?_of_leads hm ht

/-- An alias that a descent may find something below was an alias before. -/
theorem FindsBelow.exists_alias {r : Answers} {u t : Target} (h : r.FindsBelow u t) :
    ∃ p extra, r.get? t = some (.alias p extra) := by
  obtain ⟨m, n, w, -, hn, -⟩ := h
  cases hn with
  | link hget _ => exact ⟨_, _, hget⟩

/-- The descent of a merge by which an alias is overtaken. -/
theorem DescendsAll.exists_overtaking {s r filled : Answers} {t : Target}
    (h : DescendsAll s r.keys r filled) (hover : r.Overtaken s t) :
    ∃ before u after r₁ found r₂, r.keys = before ++ u :: after ∧ DescendsAll s before r r₁ ∧
      r₁.FindsBelow u t ∧ Descends s r₁ [] u (some found) r₂ ∧ Fills r₂ filled := by
  obtain ⟨before, u, after, r₁, hkeys, hbefore, hfinds⟩ := overtaken_iff_descendsAll.1 hover
  simp only [hkeys, append_iff] at h
  obtain ⟨mid, hmid, hrest⟩ := h
  obtain rfl := hmid.unique hbefore
  cases hrest with
  | @cons _ _ found? _ r₂ _ hdesc hafter =>
    obtain ⟨found, rfl⟩ := Option.isSome_iff_exists.1 (hdesc.found_of_findsBelow hfinds)
    exact ⟨before, u, after, mid, found, r₂, hkeys, hmid, hfinds, hdesc, hafter.fills⟩

/-- What the descents of a merge make of an alias: an overtaken one takes the type of its pointee,
    as it is handed up, and any other one the type that `s` has for it, if there is one. -/
theorem DescendsAll.typeOf?_alias {s r filled : Answers} {t p : Target} {extra : Qualifiers}
    (h : DescendsAll s r.keys r filled) (ht : r.get? t = some (.alias p extra)) :
    (r.Overtaken s t ∧ ∃ below, filled.typeOf? p = some below ∧
        filled.typeOf? t = some (s.handed t below)) ∨
      (¬r.Overtaken s t ∧ filled.typeOf? t = s.typeOf? t) := by
  by_cases hover : r.Overtaken s t
  · refine Or.inl ⟨hover, ?_⟩
    obtain ⟨before, u, after, r₁, found, r₂, -, hbefore, hfinds, hdesc, hfills⟩ :=
      h.exists_overtaking hover
    obtain ⟨p', extra', hget⟩ := hfinds.exists_alias
    have hback := hbefore.fills.aliases hget
    simp only [ht] at hback
    cases hback
    obtain ⟨ty, hty⟩ := Option.isSome_iff_exists.1 (hdesc.isSome_of_findsBelow hget hfinds)
    obtain ⟨-, below, hbelow, rfl⟩ :=
      (hdesc.typeOf?_alias hget hty).resolve_left fun hnot => hnot.1 hfinds
    exact ⟨below, hfills.types hbelow, hfills.types hty⟩
  · refine Or.inr ⟨hover, ?_⟩
    cases hty : filled.typeOf? t with
    | none =>
      cases hs : s.typeOf? t with
      | none => rfl
      | some own =>
        have hmem := TargetMap.mem_of_get? ht
        have hsome := h.isSome_typeOf? hmem hmem (hs ▸ rfl)
        simp [hty] at hsome
    | some ty =>
      obtain ⟨before, u, after, r₁, found?, r₂, hkeys, hbefore, hget, hdesc, hr₂, -⟩ :=
        h.exists_step ht hty
      rcases hdesc.typeOf?_alias hget hr₂ with ⟨-, hown⟩ | ⟨hfinds, -⟩
      · exact hown.symm
      · exact absurd (overtaken_iff_descendsAll.2 ⟨before, u, after, r₁, hkeys, hbefore, hfinds⟩)
          hover

/-- The descents of a merge give a type to an alias that `s` has none for just if it is
    overtaken. -/
theorem DescendsAll.isSome_iff_overtaken {s r filled : Answers} {t p : Target}
    {extra : Qualifiers} (h : DescendsAll s r.keys r filled)
    (ht : r.get? t = some (.alias p extra)) (hs : s.typeOf? t = none) :
    (filled.typeOf? t).isSome ↔ r.Overtaken s t := by
  rcases h.typeOf?_alias ht with ⟨hover, below, -, hty⟩ | ⟨hnot, hty⟩
  · simp [hover, hty]
  · simp [hnot, hty, hs]

/-- An overtaken alias has the type of its pointee as it stands. -/
theorem DescendsAll.typeOf?_pointee {s r filled : Answers} {t p : Target} {extra : Qualifiers}
    {ty : Ty} (h : DescendsAll s r.keys r filled) (ht : r.get? t = some (.alias p extra))
    (hs : s.typeOf? t = none) (hty : filled.typeOf? t = some ty) :
    filled.typeOf? p = some ty := by
  rcases h.typeOf?_alias ht with ⟨-, below, hbelow, hhanded⟩ | ⟨-, hown⟩
  · simp only [hty, handed_of_none hs, Option.some.injEq] at hhanded
    exact hhanded ▸ hbelow
  · simp only [hty, hs] at hown
    cases hown

/-- An alias that was not overtaken is left to the collapse, which lays its qualifiers over the
    type of its pointee. -/
theorem typeOf?_collapse_adopt_alias {s filled : Answers} {t p : Target} {extra : Qualifiers}
    {ty : Ty} (ht : filled.get? t = some (.alias p extra)) :
    (filled.adopt s).collapse.typeOf? t = some ty ↔
      ∃ below, (filled.adopt s).collapse.typeOf? p = some below ∧ ty = below.overlay extra := by
  have hget : (filled.adopt s).get? t = some (.alias p extra) := by
    rw [get?_adopt, ht]
    rfl
  simp only [typeOf?_collapse]
  exact yields_alias_iff hget

/-! ## Chains within the depth of a guard -/

/-- The targets of `path`, the last one first, are aliases that lead from one to the next and
    then to `t`. -/
def Trail (r : Answers) : List Target → Target → Prop
  | [], _ => True
  | x :: path, t => (∃ extra, r.get? x = some (.alias t extra)) ∧ r.Trail path x

/-- No chain has more different aliases than a guard lets through. -/
def ShortChains (r : Answers) : Prop :=
  ∀ path t, r.Trail path t → path.Nodup → path.length ≤ maxDepth

theorem Trail.of_fills {r r' : Answers} (hfills : Fills r r') {path : List Target} {t : Target}
    (h : r'.Trail path t) : r.Trail path t := by
  induction path generalizing t with
  | nil => trivial
  | cons x path ih =>
    obtain ⟨⟨extra, hx⟩, hpath⟩ := h
    exact ⟨⟨extra, hfills.aliases hx⟩, ih hpath⟩

theorem ShortChains.of_fills {r r' : Answers} (h : r.ShortChains) (hfills : Fills r r') :
    r'.ShortChains :=
  fun path t htrail hnodup => h path t (htrail.of_fills hfills) hnodup

theorem Trail.exists_alias {r : Answers} {path : List Target} {t : Target} (h : r.Trail path t) :
    ∀ x ∈ path, ∃ p extra, r.get? x = some (.alias p extra) := by
  induction path generalizing t with
  | nil => exact nofun
  | cons x path ih =>
    obtain ⟨⟨extra, hx⟩, hpath⟩ := h
    rintro y (_ | ⟨_, hy⟩)
    · exact ⟨t, extra, hx⟩
    · exact ih hpath y hy

/-- A chain has no more different aliases than there are. -/
theorem shortChains_of_aliasCount {r : Answers} (h : r.aliasCount ≤ maxDepth) :
    r.ShortChains := by
  intro path t hpath hnodup
  have hsub : path ⊆ (r.entries.filter fun e => !e.2.isType).map Prod.fst := by
    intro x hx
    obtain ⟨p, extra, hget⟩ := hpath.exists_alias x hx
    exact List.mem_map.2
      ⟨(x, .alias p extra), List.mem_filter.2 ⟨TargetMap.mem_entries_of_get? hget, rfl⟩, rfl⟩
  have hlen := (List.subperm_of_subset hnodup hsub).length_le
  rw [List.length_map, ← List.countP_eq_length_filter] at hlen
  exact Nat.le_trans hlen h

/-- A trail that comes back to itself is closed: the chain never leaves it again. -/
theorem Trail.mem_of_leads {r : Answers} {path : List Target} {t x : Target} {n : Nat}
    (h : r.Trail path t) (ht : t ∈ path) (hx : r.Leads n t x) : x ∈ path := by
  have hnext : ∀ {path : List Target} {t y q : Target} {extra : Qualifiers}, r.Trail path t →
      y ∈ path → r.get? y = some (.alias q extra) → q ∈ t :: path := by
    intro path
    induction path with
    | nil => intro _ _ _ _ _ hy; cases hy
    | cons z path ih =>
      rintro t y q extra ⟨⟨extra', hz⟩, hpath⟩ (_ | ⟨_, hy⟩) hq
      · simp only [hz] at hq
        cases hq
        exact .head _
      · exact .tail _ (ih hpath hy hq)
  have hclosed : ∀ {n : Nat} {u : Target}, u ∈ path → r.Leads n u x → x ∈ path := by
    intro n u hu hl
    induction hl with
    | refl _ => exact hu
    | link hget _ ih =>
      rcases List.mem_cons.1 (hnext h hu hget) with heq | hmem
      · exact ih hx (heq ▸ ht)
      · exact ih hx hmem
  exact hclosed ht hx

theorem Trail.leads {r : Answers} {path : List Target} {t : Target} (h : r.Trail path t) :
    ∀ x ∈ path, ∃ k, r.Leads (k + 1) x t := by
  induction path generalizing t with
  | nil => exact nofun
  | cons x path ih =>
    obtain ⟨⟨extra, hx⟩, hpath⟩ := h
    exact forall_leads_cons hx (ih hpath)

/-- A chain that ends in a type is as long as it has aliases. -/
theorem ShortChains.le_maxDepth {r : Answers} (h : r.ShortChains) {n : Nat} {t w : Target}
    (hn : r.Leads n t w) (hw : (r.typeOf? w).isSome) : n ≤ maxDepth := by
  obtain ⟨ty, hty⟩ := Option.isSome_iff_exists.1 hw
  -- The targets passed so far make a trail without repetitions.
  have hgrow : ∀ path, r.Trail path t → path.Nodup → path.length + n ≤ maxDepth := by
    induction hn with
    | refl t =>
      intro path htrail hnodup
      exact h path t htrail hnodup
    | @link n t p w extra ht hn ih =>
      intro path htrail hnodup
      have hnew : t ∉ path := by
        intro hmem
        obtain ⟨k, hk⟩ := htrail.leads t hmem
        exact hk.not_of_typeOf? (.link ht hn) hty
      have hlen := ih hw hty (t :: path) ⟨⟨extra, ht⟩, htrail⟩ (List.nodup_cons.2 ⟨hnew, hnodup⟩)
      simp only [List.length_cons] at hlen
      omega
  simpa using hgrow [] trivial .nil

/-- Where chains are short a descent finds what stands at the end of its chain. -/
theorem Descends.found_of_shortChains {s r r' : Answers} {u w : Target} {found? : Option Ty}
    {n : Nat} (h : Descends s r [] u found? r') (hshort : r.ShortChains) (hn : r.Leads n u w)
    (hw : (r.typeOf? w).isSome) : found?.isSome := by
  apply h.found_of_leads (by simp) hn hw
  simp only [List.length_nil, Nat.zero_add]
  exact hshort.le_maxDepth hn hw

/-- Where chains are short a descent that finds nothing gives every alias on its chain the type
    that `s` has for it. -/
theorem Descends.isSome_typeOf?_of_lost {s r r' : Answers} {path : List Target} {t x p : Target}
    {extra : Qualifiers} {n : Nat} (h : Descends s r path t none r') (hshort : r.ShortChains)
    (htrail : r.Trail path t) (hnodup : path.Nodup) (hn : r.Leads n t x)
    (hx : r.get? x = some (.alias p extra)) (hs : (s.typeOf? x).isSome) :
    (r'.typeOf? x).isSome ∨ x ∈ path := by
  generalize hnone : none = found? at h
  induction h generalizing n with
  | absent ht =>
    cases hn with
    | refl => rw [ht] at hx; cases hx
    | link ht' _ => rw [ht] at ht'; cases ht'
  | type _ => cases hnone
  | @refused path t p' extra' ht hcause =>
    by_cases hmem : t ∈ path
    · exact Or.inr (htrail.mem_of_leads hmem hn)
    · have hlen := hshort (t :: path) p' ⟨⟨extra', ht⟩, htrail⟩ (List.nodup_cons.2 ⟨hmem, hnodup⟩)
      have hlong := hcause.resolve_left hmem
      simp only [List.length_cons] at hlen
      omega
  | @lost path t p' extra' below ht hnew _ hbelow ih =>
    have htaken : (s.typeOf? t).isSome → ((below.take t (s.typeOf? t)).typeOf? t).isSome := by
      intro hst
      rw [typeOf?_take, if_pos rfl, Option.isSome_or, hst, Bool.true_or]
    cases hn with
    | refl => exact Or.inl (htaken hs)
    | link ht' hn' =>
      simp only [ht] at ht'
      cases ht'
      have hnodup' : (t :: path).Nodup := List.nodup_cons.2 ⟨hnew, hnodup⟩
      rcases ih ⟨⟨extra', ht⟩, htrail⟩ hnodup' hn' rfl with hbelow' | hmem
      · exact Or.inl ((Descends.fills_lost ht hbelow hbelow.fills.keys).isSome hbelow')
      · rcases List.mem_cons.1 hmem with rfl | hmem
        · exact Or.inl (htaken hs)
        · exact Or.inr hmem
  | found _ _ _ _ _ => cases hnone

/-! ## The order of overtaking -/

theorem exists_alias {r : Answers} {t : Target} (hmem : t ∈ r) (hnone : r.typeOf? t = none) :
    ∃ p extra, r.get? t = some (.alias p extra) := by
  obtain ⟨a, ha⟩ := Option.isSome_iff_exists.1 ((r.isSome_get? t).2 hmem)
  cases a with
  | type ty => rw [typeOf?_eq_some.2 ha] at hnone; cases hnone
  | «alias» p extra => exact ⟨p, extra, ha⟩

theorem Collapsed.typeOf?_of_leads {r : Answers} (h : r.Collapsed) {n : Nat} {t w : Target}
    (hn : r.Leads (n + 1) t w) : r.typeOf? w = none := by
  induction n generalizing t with
  | zero =>
    cases hn with
    | link ht hp =>
      cases hp with
      | refl => exact h _ _ _ ht
  | succ n ih =>
    cases hn with
    | link _ hp => exact ih hp

/-- A chain of the answers before is one of the answers afterwards, or a type has come on it. -/
theorem Leads.of_fills_or_type {r r' : Answers} (hfills : Fills r r') {n : Nat} {t u : Target}
    (h : r.Leads n t u) : r'.Leads n t u ∨
      ∃ j w i, r'.Leads j t w ∧ (r'.typeOf? w).isSome ∧ r.Leads i w u ∧ j + i = n := by
  induction h with
  | refl t => exact Or.inl (.refl t)
  | @link n t p u extra ht hn ih =>
    rcases hfills.alias_or_type ht with ht' | ⟨ty, ht'⟩
    · apply ih.imp (.link ht')
      rintro ⟨j, w, i, hj, hw, hi, rfl⟩
      exact ⟨j + 1, w, i, .link ht' hj, hw, hi, by omega⟩
    · refine Or.inr ⟨0, t, n + 1, .refl t, ?_, .link ht hn, by omega⟩
      rw [typeOf?_eq_some.2 ht']
      rfl

/-- A chain whose end has a type afterwards comes to a type, there or before. -/
theorem Leads.exists_typed {r r' : Answers} {n : Nat} {t u : Target} (h : r.Leads n t u)
    (hfills : Fills r r') (hu : (r'.typeOf? u).isSome) :
    ∃ k w, r'.Leads k t w ∧ (r'.typeOf? w).isSome ∧ k ≤ n := by
  rcases h.of_fills_or_type hfills with hn | ⟨k, w, i, hk, hw, -, hsum⟩
  · exact ⟨n, u, hn, hu, Nat.le_refl n⟩
  · exact ⟨k, w, hk, hw, by omega⟩

namespace DescendsAll

variable {s r r' : Answers} {ts : List Target}

/-- An alias gets a type only from a descent that comes to it, and only if `s` has a type for it
    or for a target further down its chain. -/
theorem reached_of_isSome (h : DescendsAll s ts r r') (hr : r.Collapsed) {x : Target}
    (hmem : x ∈ r) (hx : r.typeOf? x = none) (hx' : (r'.typeOf? x).isSome) :
    (∃ v ∈ ts, ∃ n, r.Leads n v x) ∧
      ∃ k d, r.Leads k x d ∧ d ∈ r ∧ (s.typeOf? d).isSome := by
  -- On the number of descents: what one finds may have come there by an earlier one.
  induction hlen : ts.length using Nat.strongRecOn generalizing ts r' x with
  | _ len ih =>
    obtain ⟨p, extra, hget⟩ := exists_alias hmem hx
    obtain ⟨ty, hty⟩ := Option.isSome_iff_exists.1 hx'
    obtain ⟨before, u, after, r₁, found?, r₂, rfl, hbefore, hget₁, hdesc, hr₂, -⟩ :=
      h.exists_step hget hty
    obtain ⟨n, hn, hcause⟩ := hdesc.origin (typeOf?_of_get?_alias hget₁) hr₂
    refine ⟨⟨u, by simp, n, hn.of_fills hbefore.fills⟩, ?_⟩
    rcases hcause with ⟨-, hown⟩ | ⟨-, p', extra', path, end_, below, -, hlt, hget', hbelow, -⟩
    · exact ⟨0, x, .refl x, hmem, hown ▸ rfl⟩
    · -- The type found below has come there by an earlier descent.
      simp only [hget₁] at hget'
      cases hget'
      obtain ⟨j, w, hj, hw, -⟩ := hbelow.leads_of_found hlt rfl
      have hxw : r.Leads (j + 1) x w := .link hget (hj.of_fills hbefore.fills)
      have hwmem : w ∈ r := hbefore.fills.mem_of_isSome hw
      have hshorter : before.length < len := by
        rw [← hlen, List.length_append, List.length_cons]
        omega
      obtain ⟨-, k, d, hk, hd⟩ :=
        ih _ hshorter hbefore hwmem (hr.typeOf?_of_leads hxw) hw rfl
      exact ⟨j + 1 + k, d, hxw.trans hk, hd⟩

/-- Where chains are short, every target that a descent leads to and `s` has a type for has a
    type afterwards. -/
theorem isSome_of_leads (h : DescendsAll s ts r r') (hr : r.Collapsed) (hshort : r.ShortChains)
    {v d : Target} {n : Nat} (hv : v ∈ ts) (hn : r.Leads n v d) (hmem : d ∈ r)
    (hs : (s.typeOf? d).isSome) : (r'.typeOf? d).isSome := by
  -- On the number of descents: a type above `d` on the chain has come by an earlier one.
  induction hlen : ts.length using Nat.strongRecOn generalizing ts r' v n with
  | _ len ih =>
    obtain ⟨before, after, rfl⟩ := List.append_of_mem hv
    obtain ⟨r₁, hbefore, hrest⟩ := append_iff.1 h
    cases hrest with
    | @cons _ _ found? _ r₂ _ hdesc hafter =>
      suffices hr₂ : (r₂.typeOf? d).isSome from hafter.fills.isSome hr₂
      rcases hn.of_fills_or_type hbefore.fills with hn₁ | ⟨j, w, i, hj, hw, hi, -⟩
      · by_cases hd : (r₁.typeOf? d).isSome
        · exact hdesc.fills.isSome hd
        · simp only [Option.not_isSome_iff_eq_none] at hd
          obtain ⟨p, extra, hget⟩ := exists_alias (hbefore.fills.mem_iff.2 hmem) hd
          cases found? with
          | none =>
            have hlost := hdesc.isSome_typeOf?_of_lost (hshort.of_fills hbefore.fills) trivial
              .nil hn₁ hget hs
            exact hlost.resolve_right (by simp)
          | some ty => exact hdesc.isSome_typeOf?_of_leads hn₁ hget
      · apply hdesc.fills.isSome
        cases i with
        | zero => cases hi; exact hw
        | succ i =>
          -- The descent ends above `d`; whatever put the type there has been at `d` before.
          have hwmem : w ∈ r := by cases hi with | link hget _ => exact TargetMap.mem_of_get? hget
          have hwnone : r.typeOf? w = none := by
            cases hi with | link hget _ => exact typeOf?_of_get?_alias hget
          obtain ⟨⟨v', hv', n', hn'⟩, -⟩ := hbefore.reached_of_isSome hr hwmem hwnone hw
          have hshorter : before.length < len := by
            rw [← hlen, List.length_append, List.length_cons]
            omega
          exact ih _ hshorter hbefore hv' (hn'.trans hi) rfl

end DescendsAll

/-- Below `t` on its chain stands `d`, which `s` has a type for. -/
structure Backed (r s : Answers) (t d : Target) : Prop where
  below : ∃ n, r.Leads (n + 1) t d
  mem : d ∈ r
  backed : (s.typeOf? d).isSome

theorem Backed.exists_alias {r s : Answers} {t d : Target} (h : r.Backed s t d) :
    ∃ p extra, r.get? t = some (.alias p extra) := by
  obtain ⟨n, hn⟩ := h.below
  cases hn with
  | link hget _ => exact ⟨_, _, hget⟩

/-- Below `t` stands a target that `s` has a type for, and there is an alias in front of `t` whose
    chain leads to that target, or there is another alias of `t`. An alias of `t` that is such a
    target itself does not count: it closes a cycle and gets its type from `s`. -/
def OvertakenInOrder (r s : Answers) (t : Target) : Prop :=
  ∃ d, r.Backed s t d ∧
    ((∃ before after, r.keys = before ++ t :: after ∧ ∃ v ∈ before, ∃ n, r.Leads n v d) ∨
      ∃ u extra, r.get? u = some (.alias t extra) ∧ u ≠ t ∧ ¬r.Backed s t u)

/-- What a descent finds below `t` has come from a target that `s` has a type for, by an earlier
    descent that leads there. -/
theorem DescendsAll.backed_of_findsBelow {s r r₁ : Answers} {ts : List Target} {u t : Target}
    (h : DescendsAll s ts r r₁) (hr : r.Collapsed) (hfinds : r₁.FindsBelow u t) :
    ∃ d, r.Backed s t d ∧ ∃ v ∈ ts, ∃ n, r.Leads n v d := by
  obtain ⟨m, n, w, -, hn, hw, -⟩ := hfinds
  have hn' : r.Leads (n + 1) t w := hn.of_fills h.fills
  obtain ⟨⟨v, hv, i, hi⟩, k, d, hk, hdmem, hds⟩ :=
    h.reached_of_isSome hr (h.fills.mem_of_isSome hw) (hr.typeOf?_of_leads hn') hw
  have hbelow := hn'.trans hk
  simp only [Nat.add_right_comm] at hbelow
  exact ⟨d, ⟨⟨n + k, hbelow⟩, hdmem, hds⟩, v, hv, i + k, hi.trans hk⟩

/-- A descent that passes `t` while there is a type below gives `t` a type. -/
theorem Descends.isSome_of_passes {s r r₁ r₂ : Answers} {u t p d : Target} {extra : Qualifiers}
    {found? : Option Ty} {m n : Nat} (h : Descends s r₁ [] u found? r₂) (hshort : r.ShortChains)
    (hfills : Fills r r₁) (hu : r₁.Leads m u t) (ht : r.get? t = some (.alias p extra))
    (hd : r.Leads n t d) (hd' : (r₁.typeOf? d).isSome) : (r₂.typeOf? t).isSome := by
  rcases hfills.alias_or_type ht with hget | ⟨ty, hget⟩
  · obtain ⟨j, w, hj, hw, -⟩ := hd.exists_typed hfills hd'
    have hfound := h.found_of_shortChains (hshort.of_fills hfills) (hu.trans hj) hw
    obtain ⟨ty, rfl⟩ := Option.isSome_iff_exists.1 hfound
    exact h.isSome_typeOf?_of_leads hu hget
  · rw [h.fills.types (typeOf?_eq_some.2 hget)]
    rfl

namespace DescendsAll

variable {s r filled : Answers} {t d : Target}

/-- The descent from `t` comes after one that leads to a target below `t`. -/
theorem isSome_of_before (h : DescendsAll s r.keys r filled) (hr : r.Collapsed)
    (hshort : r.ShortChains) (hd : r.Backed s t d) {before after : List Target}
    (hkeys : r.keys = before ++ t :: after) {v : Target} (hv : v ∈ before) {n : Nat}
    (hn : r.Leads n v d) : (filled.typeOf? t).isSome := by
  obtain ⟨k, hk⟩ := hd.below
  obtain ⟨p, extra, hget⟩ := hd.exists_alias
  simp only [hkeys] at h
  obtain ⟨r₁, hbefore, hrest⟩ := append_iff.1 h
  cases hrest with
  | cons hdesc hafter =>
    have hd' := hbefore.isSome_of_leads hr hshort hv hn hd.mem hd.backed
    exact hafter.fills.isSome (hdesc.isSome_of_passes hshort hbefore.fills (.refl t) hget hk hd')

/-- A descent from another alias of `t` passes `t` and finds a type below it. -/
theorem isSome_of_other_alias (h : DescendsAll s r.keys r filled) (hr : r.Collapsed)
    (hshort : r.ShortChains) (hd : r.Backed s t d) {u : Target} {extra : Qualifiers}
    (hu : r.get? u = some (.alias t extra)) (hut : u ≠ t) (hnot : ¬r.Backed s t u) :
    (filled.typeOf? t).isSome := by
  obtain ⟨k, hk⟩ := hd.below
  obtain ⟨p, textra, hget⟩ := hd.exists_alias
  have hmem : t ∈ r.keys := TargetMap.mem_of_get? hget
  -- A target in front of `t` whose chain comes to `u` comes to `d` as well.
  have hfront : ∀ before v after n, r.keys = before ++ v :: after → t ∈ after → r.Leads n v u →
      (filled.typeOf? t).isSome := by
    intro before v after n hkeys ht hn
    obtain ⟨l, l', rfl⟩ := List.append_of_mem ht
    have hkeys' : r.keys = (before ++ v :: l) ++ t :: l' := by simp [hkeys]
    exact h.isSome_of_before hr hshort hd hkeys' (by simp) (hn.trans (.link hu hk))
  obtain ⟨before, after, hkeys⟩ := List.append_of_mem (TargetMap.mem_of_get? hu : u ∈ r.keys)
  simp only [hkeys, List.mem_append, List.mem_cons] at hmem
  rcases hmem with hmem | rfl | hmem
  · have hall := h
    simp only [hkeys] at hall
    obtain ⟨r₁, hbefore, hrest⟩ := append_iff.1 hall
    cases hrest with
    | cons hdesc hafter =>
      have hd₁ := hbefore.isSome_of_leads hr hshort hmem hk hd.mem hd.backed
      rcases hbefore.fills.alias_or_type hu with hu₁ | ⟨uty, hu₁⟩
      · exact hafter.fills.isSome
          (hdesc.isSome_of_passes hshort hbefore.fills (.link hu₁ (.refl t)) hget hk hd₁)
      · -- `u` has got its type from a descent that passed `t` as well.
        have hlast : Fills r₁ filled := hdesc.fills.trans hafter.fills
        obtain ⟨before', u', after', r₂, found?', r₃, rfl, hbefore', hu₂, hdesc', hr₃, hfills⟩ :=
          hbefore.exists_step hu (typeOf?_eq_some.2 hu₁)
        obtain ⟨n, hn, hcause⟩ := hdesc'.origin (typeOf?_of_get?_alias hu₂) hr₃
        have hn' : r.Leads n u' u := hn.of_fills hbefore'.fills
        rcases hcause with
          ⟨-, hown⟩ | ⟨-, p', extra', path, end_, below, -, -, hu₂', hbelow, hbfills, -⟩
        · simp only [List.mem_append, List.mem_cons] at hmem
          rcases hmem with hmem | rfl | hmem
          · have hd₂ := hbefore'.isSome_of_leads hr hshort hmem hk hd.mem hd.backed
            have hpass : r₂.Leads (n + 1) u' t := hn.trans (.link hu₂ (.refl t))
            exact (hfills.trans hlast).isSome
              (hdesc'.isSome_of_passes hshort hbefore'.fills hpass hget hk hd₂)
          · cases n with
            | zero => cases hn'; exact absurd rfl hut
            | succ n =>
              exact absurd ⟨⟨n, hn'⟩, TargetMap.mem_of_get? hu, hown ▸ rfl⟩ hnot
          · refine hfront before' u' (after' ++ u :: after) n ?_ (by simp [hmem]) hn'
            simp [hkeys]
        · simp only [hu₂] at hu₂'
          cases hu₂'
          exact (hbfills.trans (hfills.trans hlast)).isSome (hbelow.typeOf?_self ▸ rfl)
  · exact absurd rfl hut
  · exact hfront before u after 0 hkeys hmem (.refl u)

/-- In collapsed answers with short chains, the descents of a merge overtake an alias just if the
    order and the chains say so. -/
theorem overtaken_iff (h : DescendsAll s r.keys r filled) (hr : r.Collapsed)
    (hshort : r.ShortChains) {p : Target} {extra : Qualifiers}
    (ht : r.get? t = some (.alias p extra)) (hs : s.typeOf? t = none) :
    r.Overtaken s t ↔ r.OvertakenInOrder s t := by
  constructor
  · simp only [overtaken_iff_descendsAll]
    rintro ⟨before, u, after, r₁, hkeys, hbefore, hfinds⟩
    obtain ⟨d, hd, v, hv, i, hi⟩ := hbefore.backed_of_findsBelow hr hfinds
    obtain ⟨m, n, w, hm, hn, hw, -⟩ := hfinds
    refine ⟨d, hd, ?_⟩
    by_cases hmem : t ∈ before
    · -- The descent from `t` is over, so this one comes to `t` from another alias of it.
      right
      have hnodup := r.keys_nodup
      simp only [hkeys, List.nodup_append] at hnodup
      have hut : u ≠ t := fun heq => hnodup.2.2 t hmem u (.head _) heq.symm
      cases m with
      | zero => cases hm; exact absurd rfl hut
      | succ m =>
        obtain ⟨x, xextra, -, hx⟩ := hm.last
        refine ⟨x, xextra, hbefore.fills.aliases hx, ?_, ?_⟩
        · rintro rfl
          obtain ⟨wty, hwty⟩ := Option.isSome_iff_exists.1 hw
          exact Leads.not_of_typeOf? (.link hx (.refl x)) hn hwty
        · rintro ⟨⟨j, hj⟩, hxmem, hxs⟩
          have hx' := hbefore.isSome_of_leads hr hshort hmem hj hxmem hxs
          simp only [typeOf?_of_get?_alias hx] at hx'
          cases hx'
    · left
      have htmem : t ∈ r.keys := TargetMap.mem_of_get? ht
      simp only [hkeys, List.mem_append] at htmem
      obtain ⟨l, l', hl⟩ := List.append_of_mem (htmem.resolve_left hmem)
      refine ⟨before ++ l, l', ?_, v, List.mem_append_left l hv, i, hi⟩
      rw [hkeys, hl, List.append_assoc]
  · rintro ⟨d, hd, ⟨before, after, hkeys, v, hv, n, hn⟩ | ⟨u, uextra, hu, hut, hnot⟩⟩
    · exact (h.isSome_iff_overtaken ht hs).1 (h.isSome_of_before hr hshort hd hkeys hv hn)
    · exact (h.isSome_iff_overtaken ht hs).1 (h.isSome_of_other_alias hr hshort hd hu hut hnot)

end DescendsAll

/-! ## The type of a merged alias -/

/-- What a merge makes of an alias that `s` has no type for: if it gets a type at all, its pointee
    has one too, and the alias has that type under its qualifiers just if it is not overtaken or
    the qualifiers change nothing. An overtaken alias has the type as it stands. In collapsed
    answers with short chains the order of the receiver tells which aliases are overtaken. -/
theorem merge_alias (r s : Answers) (t p : Target) (extra : Qualifiers)
    (ht : r.get? t = some (.alias p extra)) (hs : s.typeOf? t = none) :
    ∃ m, r.merge s = .ok m ∧
      (∀ ty, m.typeOf? t = some ty → ∃ below, m.typeOf? p = some below ∧
        (r.Overtaken s t → ty = below) ∧
        (ty = below.overlay extra ↔ ¬r.Overtaken s t ∨ below.overlay extra = below)) ∧
      (r.collapse = r → r.ShortChains → (r.Overtaken s t ↔ r.OvertakenInOrder s t)) := by
  obtain ⟨filled, hall, hmerge⟩ := merge_eq r s
  have hiff := hall.isSome_iff_overtaken ht hs
  refine ⟨_, hmerge, fun ty hty => ?_, fun hr hshort => ?_⟩
  · rcases hall.fills.alias_or_type ht with hget | ⟨own, hget⟩
    · have hno : ¬r.Overtaken s t := by
        rw [← hiff, typeOf?_of_get?_alias hget]
        exact nofun
      obtain ⟨below, hbelow, heq⟩ := (typeOf?_collapse_adopt_alias hget).1 hty
      exact ⟨below, hbelow, fun h => absurd h hno, fun _ => Or.inl hno, fun _ => heq⟩
    · have hown : filled.typeOf? t = some own := typeOf?_eq_some.2 hget
      have hyes : r.Overtaken s t := hiff.1 (hown ▸ rfl)
      have hsame := typeOf?_collapse_adopt s hown
      simp only [hty] at hsame
      cases hsame
      have hbelow := typeOf?_collapse_adopt s (hall.typeOf?_pointee ht hs hown)
      refine ⟨ty, hbelow, fun _ => rfl, fun h => Or.inr h.symm, fun h => ?_⟩
      exact (h.resolve_left (not_not_intro hyes)).symm
  · exact hall.overtaken_iff (collapse_eq_self_iff.1 hr) hshort ht hs

/-- An alias of an absent target stands in front of an alias of it that carries a qualifier. -/
def overtakenReceiver : Answers :=
  .ofList [(⟨2⟩, .alias ⟨3⟩ ∅), (⟨1⟩, .alias ⟨2⟩ (.singleton ⟨0, 1⟩))]

/-- Only the front one of the aliases has a type here. -/
def overtakingSubordinate : Answers := .ofList [(⟨2⟩, .type (.named "String" [] ∅))]

theorem merge_alias_overtaken :
    (overtakenReceiver.get? ⟨1⟩ = some (.alias ⟨2⟩ (.singleton ⟨0, 1⟩)) ∧
      overtakingSubordinate.typeOf? ⟨1⟩ = none) ∧
    ∃ m, overtakenReceiver.merge overtakingSubordinate = .ok m ∧
      (∀ ty, m.typeOf? ⟨1⟩ = some ty → ∃ below, m.typeOf? ⟨2⟩ = some below ∧
        (overtakenReceiver.Overtaken overtakingSubordinate ⟨1⟩ → ty = below) ∧
        (ty = below.overlay (.singleton ⟨0, 1⟩) ↔
          ¬overtakenReceiver.Overtaken overtakingSubordinate ⟨1⟩ ∨
            below.overlay (.singleton ⟨0, 1⟩) = below)) ∧
      (overtakenReceiver.collapse = overtakenReceiver → overtakenReceiver.ShortChains →
        (overtakenReceiver.Overtaken overtakingSubordinate ⟨1⟩ ↔
          overtakenReceiver.OvertakenInOrder overtakingSubordinate ⟨1⟩)) := by
  have ht : overtakenReceiver.get? ⟨1⟩ = some (.alias ⟨2⟩ (.singleton ⟨0, 1⟩)) := by decide +kernel
  have hs : overtakingSubordinate.typeOf? ⟨1⟩ = none := by decide +kernel
  exact ⟨⟨ht, hs⟩, merge_alias overtakenReceiver overtakingSubordinate ⟨1⟩ ⟨2⟩ _ ht hs⟩

/-- The qualifier of an overtaken alias is lost. -/
theorem merge_loses_qualifier :
    overtakenReceiver.collapse = overtakenReceiver ∧
    overtakenReceiver.get? ⟨1⟩ = some (.alias ⟨2⟩ (.singleton ⟨0, 1⟩)) ∧
    overtakingSubordinate.typeOf? ⟨1⟩ = none ∧
    ∃ m ty below, overtakenReceiver.merge overtakingSubordinate = .ok m ∧
      m.typeOf? ⟨1⟩ = some ty ∧ m.typeOf? ⟨2⟩ = some below ∧
      ty ≠ below.overlay (.singleton ⟨0, 1⟩) := by
  refine ⟨TargetMap.ext (by decide +kernel), by decide +kernel, by decide +kernel, ?_⟩
  have htypes : (overtakenReceiver.merge overtakingSubordinate).toOption.map
      (fun m => (m.typeOf? ⟨1⟩, m.typeOf? ⟨2⟩)) =
        some (some (.named "String" [] ∅), some (.named "String" [] ∅)) := by decide +kernel
  cases hm : overtakenReceiver.merge overtakingSubordinate with
  | error e =>
    simp only [hm] at htypes
    cases htypes
  | ok m =>
    simp only [hm] at htypes
    obtain ⟨h₁, h₂⟩ := Prod.mk.inj (Option.some.inj htypes)
    exact ⟨m, _, _, rfl, h₁, h₂, by decide +kernel⟩

end Answers

end QualifiedInference
