-- SUMMARY: What a merge gives to chains that end in a type of their own side, the null type included.
import QualifiedInference.Proofs.Answers.Reordering
/-!
# Chains that end in a type of the receiver

The type at the end of one of the receiver's own chains goes up the chain. On its way the null
type gives way to a type of the other side, which keeps the qualifiers of the null type.
`Inherits` gives the rules, and `merge_inherits` says that a merge goes by them in every order of
the receiver: some descent of the merge always overtakes an alias whose chain ends in a type.
-/

namespace QualifiedInference

namespace Answers

/-- What `t` takes from the type at the end of its chain in `r`. -/
inductive Inherits (r s : Answers) : Target → Ty → Prop
  | own {t : Target} {ty : Ty} : r.get? t = some (.type ty) → Inherits r s t ty
  | kept {t p : Target} {extra : Qualifiers} {ty : Ty} :
    r.get? t = some (.alias p extra) → Inherits r s p ty →
    ty.isNull = false ∨ s.typeOf? t = none → Inherits r s t ty
  | replaced {t p : Target} {extra : Qualifiers} {ty other : Ty} :
    r.get? t = some (.alias p extra) → Inherits r s p ty →
    ty.isNull = true → s.typeOf? t = some other → Inherits r s t (other.overlay ty.qualifiers)

variable {r s filled : Answers} {t p u : Target} {extra : Qualifiers} {ty : Ty} {n : Nat}

/-! ## Chains and what they hand up -/

theorem Inherits.handed (h : r.Inherits s p ty) (ht : r.get? t = some (.alias p extra)) :
    r.Inherits s t (s.handed t ty) := by
  cases hs : s.typeOf? t with
  | none =>
    rw [handed_of_none hs]
    exact .kept ht h (.inr hs)
  | some other =>
    rw [Answers.handed, hs]
    cases hnull : ty.isNull with
    | false => exact .kept ht h (.inl hnull)
    | true => exact .replaced ht h hnull hs

theorem Inherits.exists_leads (h : r.Inherits s t ty) :
    ∃ n u, r.Leads n t u ∧ (r.typeOf? u).isSome := by
  induction h with
  | own ht => exact ⟨0, _, .refl _, typeOf?_eq_some.2 ht ▸ rfl⟩
  | kept ht _ _ ih =>
    obtain ⟨n, u, hn, hu⟩ := ih
    exact ⟨n + 1, u, .link ht hn, hu⟩
  | replaced ht _ _ _ ih =>
    obtain ⟨n, u, hn, hu⟩ := ih
    exact ⟨n + 1, u, .link ht hn, hu⟩

/-- Every target of a chain that ends in a type takes one. -/
theorem Leads.exists_inherits (h : r.Leads n t u) (hu : (r.typeOf? u).isSome) :
    ∃ ty, r.Inherits s t ty := by
  induction h with
  | refl t =>
    obtain ⟨ty, hty⟩ := Option.isSome_iff_exists.1 hu
    exact ⟨ty, .own (typeOf?_eq_some.1 hty)⟩
  | link ht _ ih =>
    obtain ⟨ty, hty⟩ := ih hu
    exact ⟨_, hty.handed ht⟩

/-! ## Descents from above and from within a chain -/

/-- Below an alias whose chain ended in a type there is one still, if only half the chain has
    been rewritten. -/
theorem Fills.exists_typed_below {r' : Answers} (h : Fills r r')
    (ht : r'.get? t = some (.alias p extra)) (hn : r.Leads n t u) (hu : (r.typeOf? u).isSome) :
    ∃ k w, r'.Leads (k + 1) t w ∧ (r'.typeOf? w).isSome ∧ k + 1 ≤ n := by
  obtain ⟨k, w, hk, hw, hle⟩ := hn.exists_typed h (h.isSome hu)
  cases k with
  | zero =>
    cases hk
    rw [typeOf?_of_get?_alias ht] at hw
    cases hw
  | succ k => exact ⟨k, w, hk, hw, hle⟩

/-- A merge overtakes every alias whose chain ends in a type, if its guard lets through the chains
    that do. -/
theorem DescendsAll.overtaken_of_leads (h : DescendsAll s r.keys r filled)
    (hshort : ∀ n t u, r.Leads n t u → (r.typeOf? u).isSome → n ≤ Guard.maxDepth)
    (ht : r.get? t = some (.alias p extra)) (hn : r.Leads n t u) (hu : (r.typeOf? u).isSome) :
    r.Overtaken s t := by
  -- A descent that comes to the alias while it is one finds the type below it.
  have hfinds : ∀ before v after r₁ m, r.keys = before ++ v :: after →
      DescendsAll s before r r₁ → r₁.get? t = some (.alias p extra) → r₁.Leads m v t →
      r.Overtaken s t := by
    intro before v after r₁ m hkeys hbefore hget hm
    obtain ⟨k, w, hk, hw, hle⟩ := hbefore.fills.exists_typed_below hget hn hu
    have hdepth := hshort _ _ _ ((hm.of_fills hbefore.fills).trans hn) hu
    exact overtaken_iff_descendsAll.2
      ⟨before, v, after, r₁, hkeys, hbefore, m, k, w, hm, hk, hw, by omega⟩
  obtain ⟨before, after, hkeys⟩ := List.append_of_mem (TargetMap.mem_of_get? ht : t ∈ r.keys)
  rw [hkeys] at h
  obtain ⟨r₁, hbefore, -⟩ := append_iff.1 h
  rcases hbefore.fills.alias_or_type ht with hget | ⟨ty, hget⟩
  · exact hfinds before t after r₁ 0 hkeys hbefore hget (.refl t)
  · -- An earlier descent has completed the alias, from a target above it.
    obtain ⟨before', v, after', r₂, found?, r₃, rfl, hbefore', hget', hdesc, hr₃, -⟩ :=
      hbefore.exists_step ht (typeOf?_eq_some.2 hget)
    obtain ⟨m, hm, -⟩ := hdesc.origin (typeOf?_of_get?_alias hget') hr₃
    rw [List.append_assoc, List.cons_append] at hkeys
    exact hfinds before' v _ r₂ m hkeys hbefore' hget' hm

theorem DescendsAll.mergeYields_of_inherits (h : DescendsAll s r.keys r filled)
    (hshort : ∀ n t u, r.Leads n t u → (r.typeOf? u).isSome → n ≤ Guard.maxDepth)
    (hty : r.Inherits s t ty) : r.MergeYields s t ty := by
  have hover : ∀ {t p extra ty}, r.get? t = some (.alias p extra) → r.Inherits s p ty →
      r.Overtaken s t := by
    intro t p extra ty ht hp
    obtain ⟨n, u, hn, hu⟩ := hp.exists_leads
    exact h.overtaken_of_leads hshort ht (.link ht hn) hu
  induction hty with
  | own ht => exact .own (typeOf?_eq_some.2 ht)
  | @kept t p extra ty ht hp hstays ih =>
    have hhanded : s.handed t ty = ty := by
      rcases hstays with hnull | hs
      · rw [Answers.handed, hnull]
        cases s.typeOf? t <;> rfl
      · exact handed_of_none hs ty
    exact hhanded ▸ .handed ht (hover ht hp) ih
  | @replaced t p extra ty other ht hp hnull hs ih =>
    have hhanded : s.handed t ty = other.overlay ty.qualifiers := by
      rw [Answers.handed, hs]
      exact if_pos hnull
    exact hhanded ▸ .handed ht (hover ht hp) ih

/-! ## The types of a chain after a merge -/

/-- Merged answers have, all along each chain of the receiver that ends in a type, the types that
    the chain hands up, if no such chain has more aliases than a guard lets through. -/
theorem merge_inherits (r s : Answers)
    (hshort : ∀ n t u, r.Leads n t u → (r.typeOf? u).isSome → n ≤ Guard.maxDepth) :
    ∃ m, r.merge s = .ok m ∧ (∀ t ty, r.Inherits s t ty → m.get? t = some (.type ty)) ∧
      ∀ n t u, r.Leads n t u → (r.typeOf? u).isSome → ∃ ty, r.Inherits s t ty := by
  obtain ⟨filled, hall, hmerge⟩ := merge_eq r s
  refine ⟨_, hmerge, fun t ty hty => ?_, fun n t u hn hu => hn.exists_inherits hu⟩
  exact typeOf?_eq_some.1 (hall.typeOf?_merge_iff.2 (hall.mergeYields_of_inherits hshort hty))

/-- An alias of an alias of a qualified null type. -/
def nullReceiver : Answers :=
  .ofList [(⟨1⟩, .alias ⟨2⟩ ∅), (⟨2⟩, .alias ⟨3⟩ ∅), (⟨3⟩, .type (.null (.singleton ⟨0, 1⟩)))]

theorem merge_nullReceiver :
    (∀ n t u, nullReceiver.Leads n t u → (nullReceiver.typeOf? u).isSome →
      n ≤ Guard.maxDepth) ∧
    ∃ m, nullReceiver.merge overtakingSubordinate = .ok m ∧
      (∀ t ty, nullReceiver.Inherits overtakingSubordinate t ty →
        m.get? t = some (.type ty)) ∧
      ∀ n t u, nullReceiver.Leads n t u → (nullReceiver.typeOf? u).isSome →
        ∃ ty, nullReceiver.Inherits overtakingSubordinate t ty := by
  have hcount : nullReceiver.aliasCount ≤ Guard.maxDepth := by decide +kernel
  have hshort : ∀ n t u, nullReceiver.Leads n t u → (nullReceiver.typeOf? u).isSome →
      n ≤ Guard.maxDepth := fun _ _ _ => (shortChains_of_aliasCount hcount).le_maxDepth
  exact ⟨hshort, merge_inherits _ _ hshort⟩

end Answers

end QualifiedInference
