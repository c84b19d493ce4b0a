-- SUMMARY: Alias chains of a collection of answers: how they end, and what a collapse makes of each.
import Mathlib.Logic.Function.Iterate
import QualifiedInference.Answers.Merge
import QualifiedInference.Proofs.Answers.Collapse
/-!
# What chains of aliases determine

`Collects` follows a chain and collects the qualifiers of its aliases. As there are finitely many
targets, a chain ends in a type, leads to a target without an answer or comes round to a target
that it has been at. The passes of a collapse come to an end, and what they leave at a target is
read off its chain in the answers that they started from (`collapse_follows_chains`).
-/

namespace QualifiedInference

/-- The type under the qualifiers of a chain of aliases that ends in it. They are laid over its own
    hierarchy by hierarchy, those next to the type first and those at the start of the chain
    last. -/
def Ty.overlayAll (ty : Ty) (extras : List Qualifiers) : Ty :=
  ty.withQualifiers (extras.foldr (fun extra qs => qs.overlay extra) ty.qualifiers)

theorem Ty.overlayAll_nil (ty : Ty) : ty.overlayAll [] = ty := by
  cases ty <;> rfl

theorem Ty.overlayAll_cons (ty : Ty) (extra : Qualifiers) (extras : List Qualifiers) :
    ty.overlayAll (extra :: extras) = (ty.overlayAll extras).overlay extra := by
  cases ty <;> rfl

namespace Answers

variable {r r' : Answers} {t u : Target} {extras : List Qualifiers} {ty : Ty}

/-! ## Qualifiers on the way -/

/-- The chain of `t` comes to `u` by aliases with the qualifiers `extras`, that of `t` first. -/
inductive Collects (r : Answers) : Target → List Qualifiers → Target → Prop
  | here (t : Target) : Collects r t [] t
  | link {t p u : Target} {extra : Qualifiers} {extras : List Qualifiers} :
    r.get? t = some (.alias p extra) → Collects r p extras u → Collects r t (extra :: extras) u

theorem Leads.exists_collects {n : Nat} (h : r.Leads n t u) : ∃ extras, r.Collects t extras u := by
  induction h with
  | refl t => exact ⟨[], .here t⟩
  | link ht _ ih =>
    obtain ⟨extras, hextras⟩ := ih
    exact ⟨_, .link ht hextras⟩

theorem Collects.yields (h : r.Collects t extras u) (hu : r.typeOf? u = some ty) :
    r.Yields t (ty.overlayAll extras) := by
  induction h with
  | here t =>
    rw [Ty.overlayAll_nil]
    exact yields_of_typeOf? hu
  | link ht _ ih =>
    rw [Ty.overlayAll_cons]
    exact .link ht (ih hu)

theorem Yields.exists_leads (h : r.Yields t ty) :
    ∃ n u end_, r.Leads n t u ∧ r.typeOf? u = some end_ := by
  induction h with
  | type ht => exact ⟨0, _, _, .refl _, typeOf?_eq_some.2 ht⟩
  | link ht _ ih =>
    obtain ⟨n, u, end_, hn, hu⟩ := ih
    exact ⟨n + 1, u, end_, .link ht hn, hu⟩

/-! ## Where chains go -/

/-- The chain of `t` leads to a target without an answer. -/
def Dangles (r : Answers) (t : Target) : Prop := ∃ n u, r.Leads n t u ∧ u ∉ r

/-- The chain of `t` leads to a target that the chain comes back to. -/
def Cycles (r : Answers) (t : Target) : Prop := ∃ n k u, r.Leads n t u ∧ r.Leads (k + 1) u u

/-- A chain goes nowhere from a target that is no alias. -/
theorem Leads.eq_of_not_alias {n : Nat} (h : r.Leads n t u)
    (ht : ∀ p extra, r.get? t ≠ some (.alias p extra)) : u = t := by
  cases h with
  | refl => rfl
  | link hget _ => exact absurd hget (ht _ _)

/-- Of two targets on a chain one is on the chain of the other. -/
theorem Leads.total {m n : Nat} {v : Target} (h : r.Leads m t u) (h' : r.Leads n t v) :
    (∃ k, r.Leads k u v) ∨ ∃ k, r.Leads k v u := by
  induction h generalizing n with
  | refl t => exact .inl ⟨n, h'⟩
  | @link m t p u extra ht hp ih =>
    cases h' with
    | refl => exact .inr ⟨m + 1, .link ht hp⟩
    | link ht' hp' =>
      simp only [ht] at ht'
      cases ht'
      exact ih hp'

theorem Dangles.not_yields (h : r.Dangles t) (ty : Ty) : ¬r.Yields t ty := by
  intro hy
  obtain ⟨n, v, hv, hmem⟩ := h
  obtain ⟨m, u, end_, hu, htype⟩ := hy.exists_leads
  have hget : r.get? u = some (.type end_) := typeOf?_eq_some.1 htype
  -- Neither chain goes on from its end, so the two ends are one target.
  rcases hu.total hv with ⟨k, hk⟩ | ⟨k, hk⟩
  · obtain rfl : v = u := hk.eq_of_not_alias (by simp [hget])
    exact hmem (TargetMap.mem_of_get? hget)
  · have hnone : r.get? v = none := TargetMap.get?_eq_none_iff.2 hmem
    obtain rfl : u = v := hk.eq_of_not_alias (by simp [hnone])
    exact hmem (TargetMap.mem_of_get? hget)

theorem Cycles.not_yields (h : r.Cycles t) (ty : Ty) : ¬r.Yields t ty := by
  intro hy
  obtain ⟨n, k, v, hv, hcycle⟩ := h
  obtain ⟨m, u, end_, hu, htype⟩ := hy.exists_leads
  rcases hu.total hv with ⟨j, hj⟩ | ⟨j, hj⟩
  · have hget : r.get? u = some (.type end_) := typeOf?_eq_some.1 htype
    obtain rfl : v = u := hj.eq_of_not_alias (by simp [hget])
    exact hcycle.not_of_typeOf? (.refl v) htype
  · exact hcycle.not_of_typeOf? hj htype

/-- A chain ends in a type, leads out of the answers or comes round. -/
theorem collects_or_dangles_or_cycles (r : Answers) (t : Target) :
    (∃ extras u ty, r.Collects t extras u ∧ r.typeOf? u = some ty) ∨ r.Dangles t ∨ r.Cycles t := by
  suffices hends : ∀ path u, (∀ x ∈ path, ∃ k, r.Leads (k + 1) x u) →
      (∃ n v ty, r.Leads n u v ∧ r.typeOf? v = some ty) ∨ r.Dangles u ∨ r.Cycles u by
    rcases hends [] t (fun x hx => absurd hx List.not_mem_nil) with ⟨n, v, ty, hn, hv⟩ | hrest
    · obtain ⟨extras, hextras⟩ := hn.exists_collects
      exact .inl ⟨extras, v, ty, hextras, hv⟩
    · exact .inr hrest
  -- On the targets of the answers that the chain has not passed yet.
  intro path
  induction hm : unvisited r.keys path using Nat.strongRecOn generalizing path with
  | ind m ih =>
    intro u hpath
    cases hu : r.get? u with
    | none => exact .inr (.inl ⟨0, u, .refl u, TargetMap.get?_eq_none_iff.1 hu⟩)
    | some a =>
      cases a with
      | type ty => exact .inl ⟨0, u, ty, .refl u, typeOf?_eq_some.2 hu⟩
      | «alias» p extra =>
        by_cases hmem : u ∈ path
        · obtain ⟨k, hk⟩ := hpath u hmem
          exact .inr (.inr ⟨0, k, u, .refl u, hk⟩)
        · have hlt := unvisited_cons_lt (TargetMap.mem_of_get? hu) hmem
          rcases ih _ (hm ▸ hlt) (u :: path) rfl p (forall_leads_cons hu hpath) with
            ⟨n, v, ty, hn, hv⟩ | ⟨n, v, hn, hv⟩ | ⟨n, k, v, hn, hv⟩
          · exact .inl ⟨n + 1, v, ty, .link hu hn, hv⟩
          · exact .inr (.inl ⟨n + 1, v, .link hu hn, hv⟩)
          · exact .inr (.inr ⟨n + 1, k, v, .link hu hn, hv⟩)

/-! ## Passes -/

/-- What `n` passes over the answers leave. -/
def afterPasses (r : Answers) (n : Nat) : Answers := (fun r => r.collapsePass.1)^[n] r

theorem afterPasses_succ (r : Answers) (n : Nat) :
    r.afterPasses (n + 1) = r.collapsePass.1.afterPasses n := rfl

/-- A collapse is the passes up to the first one that turns nothing. -/
theorem exists_last_pass (r : Answers) : ∃ n, (∀ k < n, (r.afterPasses k).collapsePass.2 = true) ∧
    (r.afterPasses n).collapsePass = (r.collapse, false) := by
  induction r using collapse.induct with
  | case1 r next hpass ih =>
    obtain ⟨n, hearlier, hlast⟩ := ih
    have hnext : r.collapsePass.1 = next := congrArg Prod.fst hpass
    have hcollapse : r.collapse = next.collapse := by
      rw [collapse, hpass]
    refine ⟨n + 1, fun k hk => ?_, ?_⟩
    · cases k with
      | zero => exact congrArg Prod.snd hpass
      | succ k =>
        rw [afterPasses_succ, hnext]
        exact hearlier k (Nat.lt_of_succ_lt_succ hk)
    · rw [afterPasses_succ, hnext, hlast, hcollapse]
  | case2 r next hpass =>
    have hcollapse : r.collapse = next := by
      rw [collapse, hpass]
    exact ⟨0, fun k hk => absurd hk k.not_lt_zero, hpass.trans (by rw [hcollapse])⟩

/-! ## What a collapse leaves -/

theorem Yields.of_equiv (h : r.Equiv r') (hy : r.Yields t ty) : r'.Yields t ty := by
  induction hy with
  | type ht => exact .type (h _ ▸ ht)
  | link ht _ ih => exact .link (h _ ▸ ht) ih

/-- Answers that hold the same are collapsed to the same. -/
theorem collapse_equiv (h : r.Equiv r') : r.collapse.Equiv r'.collapse := by
  intro t
  have hyields : ∀ ty, r.Yields t ty ↔ r'.Yields t ty := fun ty =>
    ⟨Yields.of_equiv h, Yields.of_equiv fun u => (h u).symm⟩
  refine Option.ext fun a => ?_
  cases a with
  | type ty =>
    rw [← typeOf?_eq_some, ← typeOf?_eq_some, typeOf?_collapse, typeOf?_collapse, hyields]
  | «alias» p extra => simp only [get?_collapse_eq_alias, h t, hyields]

/-- A collapse ends after finitely many passes and gives every target what its chain determines: the
    type at the end of the chain under the qualifiers of all its aliases, or the alias that it was,
    if the chain leads out of the answers or comes round. There is no third kind of chain, the
    targets stay in their order, and the order plays no role for the answers. -/
theorem collapse_follows_chains (r : Answers) :
    (∃ n, (∀ k < n, (r.afterPasses k).collapsePass.2 = true) ∧
      (r.afterPasses n).collapsePass = (r.collapse, false)) ∧
    (∀ t extras u ty, r.Collects t extras u → r.typeOf? u = some ty →
      r.collapse.get? t = some (.type (ty.overlayAll extras))) ∧
    (∀ t p extra, r.get? t = some (.alias p extra) → r.Dangles t ∨ r.Cycles t →
      r.collapse.get? t = some (.alias p extra)) ∧
    (∀ t, (∃ extras u ty, r.Collects t extras u ∧ r.typeOf? u = some ty) ∨
      r.Dangles t ∨ r.Cycles t) ∧
    r.collapse.keys = r.keys ∧
    ∀ r' : Answers, r.Equiv r' → r.collapse.Equiv r'.collapse := by
  refine ⟨r.exists_last_pass, ?_, ?_, r.collects_or_dangles_or_cycles, (fills_collapse r).keys,
    fun r' => collapse_equiv⟩
  · intro t extras u ty hextras hu
    exact typeOf?_eq_some.1 (typeOf?_collapse.2 (hextras.yields hu))
  · rintro t p extra ht (hdangles | hcycles)
    · exact get?_collapse_eq_alias.2 ⟨ht, hdangles.not_yields⟩
    · exact get?_collapse_eq_alias.2 ⟨ht, hcycles.not_yields⟩

end Answers

end QualifiedInference
