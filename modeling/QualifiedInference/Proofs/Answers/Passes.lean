-- SUMMARY: A bound on the number of passes of a collapse.
import Mathlib.Data.Finset.Card
import QualifiedInference.Proofs.Answers.Chains
/-!
# The passes of a collapse

Every pass but the last turns an alias whose chain reaches a type, and a type stays what it is. So
each pass leaves fewer such aliases than there were before it (`card_resolvable_collapsePass_lt`),
and their number bounds that of the passes (`collapse_passes`).
-/

namespace QualifiedInference

namespace Answers

variable {r r' : Answers} {t : Target} {ty : Ty}

/-! ## Aliases that a collapse resolves -/

/-- The target is an alias, and its chain reaches a type. -/
def Resolvable (r : Answers) (t : Target) : Prop :=
  ∃ n u, r.Leads (n + 1) t u ∧ (r.typeOf? u).isSome

theorem resolvable_iff_yields : r.Resolvable t ↔ r.typeOf? t = none ∧ ∃ ty, r.Yields t ty := by
  constructor
  · rintro ⟨n, u, hn, hu⟩
    obtain ⟨end_, hend⟩ := Option.isSome_iff_exists.1 hu
    obtain ⟨extras, hextras⟩ := hn.exists_collects
    refine ⟨?_, _, hextras.yields hend⟩
    cases hn with
    | link ht _ => exact typeOf?_of_get?_alias ht
  · rintro ⟨hnone, ty, hy⟩
    obtain ⟨n, u, end_, hn, hu⟩ := hy.exists_leads
    cases hn with
    | refl => simp [hu] at hnone
    | link ht hp => exact ⟨_, u, .link ht hp, hu ▸ rfl⟩

theorem resolvable_iff_collapse :
    r.Resolvable t ↔ r.typeOf? t = none ∧ (r.collapse.typeOf? t).isSome := by
  simp only [resolvable_iff_yields, Option.isSome_iff_exists, typeOf?_collapse]

instance : DecidablePred r.Resolvable := fun _ => decidable_of_iff' _ resolvable_iff_collapse

/-- The aliases whose chains reach a type. -/
def resolvable (r : Answers) : Finset Target := r.keys.toFinset.filter r.Resolvable

theorem mem_resolvable : t ∈ r.resolvable ↔ r.Resolvable t := by
  refine Finset.mem_filter.trans (and_iff_right_of_imp ?_)
  rintro ⟨n, u, hn, -⟩
  cases hn with
  | link ht _ => exact List.mem_toFinset.2 (TargetMap.mem_of_get? ht)

theorem card_resolvable_le (r : Answers) : r.resolvable.card ≤ r.size := by
  calc r.resolvable.card ≤ r.keys.toFinset.card := Finset.card_filter_le ..
    _ ≤ r.keys.length := List.toFinset_card_le _
    _ = r.size := by rw [TargetMap.keys, List.length_map]; rfl

/-- Turns leave those resolvable that have no type yet, and no others. -/
theorem resolvable_of_turns (h : Relation.ReflTransGen Turn r r') :
    r'.resolvable = r.resolvable.filter fun t => r'.typeOf? t = none := by
  ext t
  simp only [Finset.mem_filter, mem_resolvable, resolvable_iff_yields, yields_iff_of_turns h]
  constructor
  · rintro ⟨hnone, hy⟩
    exact ⟨⟨(fills_of_turns h).typeOf?_eq_none hnone, hy⟩, hnone⟩
  · rintro ⟨⟨-, hy⟩, hnone⟩
    exact ⟨hnone, hy⟩

/-! ## One pass -/

/-- A pass after which there is another has turned an alias. -/
theorem exists_turned_of_collapsePass (h : r.collapsePass.2 = true) :
    ∃ t p extra ty, r.get? t = some (.alias p extra) ∧
      r.collapsePass.1.get? t = some (.type ty) := by
  have hlt : r.collapsePass.1.aliasCount < r.aliasCount :=
    aliasCount_collapsePass (Prod.ext rfl h)
  -- Fewer aliases are left, so the pass begins with a turn, and later turns do not undo it.
  rcases (turns_collapsePass r).cases_head with heq | ⟨next, ⟨t, p, extra, ty, ht, -, rfl⟩, hrest⟩
  · exact absurd hlt (heq ▸ Nat.lt_irrefl _)
  · have hnext : typeOf? (r.insert t (.type (ty.overlay extra))) t = some (ty.overlay extra) := by
      rw [typeOf?_insert, if_pos rfl]
    exact ⟨t, p, extra, _, ht, typeOf?_eq_some.1 ((fills_of_turns hrest).types hnext)⟩

theorem get?_collapsePass_of_type (h : r.get? t = some (.type ty)) :
    r.collapsePass.1.get? t = some (.type ty) :=
  typeOf?_eq_some.1 ((fills_of_turns (turns_collapsePass r)).types (typeOf?_eq_some.2 h))

theorem card_resolvable_collapsePass_lt (h : r.collapsePass.2 = true) :
    r.collapsePass.1.resolvable.card < r.resolvable.card := by
  have hturns := turns_collapsePass r
  obtain ⟨t, p, extra, ty, ht, hty⟩ := exists_turned_of_collapsePass h
  have hsome := typeOf?_eq_some.2 hty
  have hyields := (yields_iff_of_turns hturns).1 (yields_of_typeOf? hsome)
  -- No chain yields anything new, so none gets resolvable, and the turned alias no longer is.
  rw [resolvable_of_turns hturns]
  apply Finset.card_lt_card
  refine Finset.filter_ssubset.2 ⟨t, ?_, by simp [hsome]⟩
  exact mem_resolvable.2 (resolvable_iff_yields.2 ⟨typeOf?_of_get?_alias ht, ty, hyields⟩)

/-! ## The passes up to the last one -/

/-- How many passes a collapse makes, counting the last one, which turns nothing. -/
def passCount (r : Answers) : Nat :=
  match _h : r.collapsePass with
  | (next, true) => next.passCount + 1
  | (_, false) => 1
termination_by r.aliasCount
decreasing_by exact aliasCount_collapsePass _h

theorem passCount_of_true (h : r.collapsePass.2 = true) :
    r.passCount = r.collapsePass.1.passCount + 1 := by
  rw [passCount]
  split
  · next hpass => rw [hpass]
  · next hpass => simp [hpass] at h

theorem passCount_of_false (h : r.collapsePass.2 = false) : r.passCount = 1 := by
  rw [passCount]
  split
  · next hpass => simp [hpass] at h
  · rfl

theorem passCount_le (r : Answers) : r.passCount ≤ r.resolvable.card + 1 := by
  induction r using passCount.induct with
  | case1 r next hpass ih =>
    have hflag : r.collapsePass.2 = true := congrArg Prod.snd hpass
    have hlt := card_resolvable_collapsePass_lt hflag
    rw [passCount_of_true hflag]
    simp only [hpass] at hlt ⊢
    omega
  | case2 r next hpass =>
    rw [passCount_of_false (congrArg Prod.snd hpass)]
    omega

theorem afterPasses_succ' (r : Answers) (n : Nat) :
    r.afterPasses (n + 1) = (r.afterPasses n).collapsePass.1 :=
  Function.iterate_succ_apply' _ n r

theorem passCount_eq {n : Nat} (hearlier : ∀ k < n, (r.afterPasses k).collapsePass.2 = true)
    (hlast : (r.afterPasses n).collapsePass.2 = false) : r.passCount = n + 1 := by
  induction n generalizing r with
  | zero => exact passCount_of_false hlast
  | succ n ih =>
    have hfirst : r.collapsePass.2 = true := hearlier 0 n.succ_pos
    rw [passCount_of_true hfirst]
    exact congrArg (· + 1) (ih (fun k hk => hearlier (k + 1) (Nat.succ_lt_succ hk)) hlast)

/-- A collapse makes at most one pass more than there are aliases whose chains reach a type. Every
    pass but the last turns an alias into a type, the last one changes nothing, and no pass changes
    a type or makes it an alias again. -/
theorem collapse_passes (r : Answers) :
    r.passCount ≤ r.resolvable.card + 1 ∧ r.passCount ≤ r.size + 1 ∧
    (∃ last, r.passCount = last + 1 ∧
      (∀ k < last, ∃ t p extra ty, (r.afterPasses k).get? t = some (.alias p extra) ∧
        (r.afterPasses (k + 1)).get? t = some (.type ty)) ∧
      (r.afterPasses last).collapsePass = (r.afterPasses last, false) ∧
      r.afterPasses last = r.collapse) ∧
    ∀ k t ty, (r.afterPasses k).get? t = some (.type ty) →
      (r.afterPasses (k + 1)).get? t = some (.type ty) := by
  obtain ⟨last, hearlier, hlast⟩ := r.exists_last_pass
  have hflag : (r.afterPasses last).collapsePass.2 = false := congrArg Prod.snd hlast
  have hsame := (collapsed_of_collapsePass hflag).1
  refine ⟨r.passCount_le, r.passCount_le.trans (Nat.succ_le_succ r.card_resolvable_le),
    ⟨last, passCount_eq hearlier hflag, fun k hk => ?_, Prod.ext hsame hflag, ?_⟩,
    fun k t ty ht => ?_⟩
  · rw [afterPasses_succ']
    exact exists_turned_of_collapsePass (hearlier k hk)
  · rw [← hsame, hlast]
  · rw [afterPasses_succ']
    exact get?_collapsePass_of_type ht

/-- The bound is met where every alias stands in front of the one it points to. -/
example :
    let r : Answers := .ofList
      [(⟨1⟩, .alias ⟨2⟩ ∅), (⟨2⟩, .alias ⟨3⟩ ∅), (⟨3⟩, .type (.null ∅)), (⟨4⟩, .alias ⟨4⟩ ∅)]
    r.passCount = 3 ∧ r.resolvable.card = 2 := by
  decide +kernel

end Answers

end QualifiedInference
