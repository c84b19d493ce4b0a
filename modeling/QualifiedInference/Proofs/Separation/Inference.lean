-- SUMMARY: Inference for a part of the targets to which no relation leads from the rest.
import QualifiedInference.Proofs.Fallback
import QualifiedInference.Proofs.Separation.Bounds
import QualifiedInference.Proofs.Separation.Equalities
import QualifiedInference.Strategy.BuiltIn
/-!
# Inference for unrelated targets

What is inferred for some targets does not depend on targets to which no relation leads. The
answers for the part that is kept are those of the whole, strategy by strategy, until the part
is complete; from then on they are types, which no merge changes.
-/

namespace QualifiedInference

variable {s : Store} {keep : Target → Bool} {answers m : Answers} {strategy : Strategy}
  {strategies : List Strategy}

theorem BuiltIn.separates {established : Answers} (hs : s.Separated keep)
    (hest : ∀ {t}, t ∈ established → t ∈ s.targets) (types : TypeOrder)
    (qualifiers : QualifierOrder) (b : BuiltIn) :
    (b.strategy types qualifiers).Separates keep s established := by
  cases b with
  | equalities => exact Equalities.separates hs hest
  | supertypes => exact Bounds.separates ⟨.lower, types, qualifiers⟩ "supertypes" hs hest
  | subtypes => exact Bounds.separates ⟨.upper, types, qualifiers⟩ "subtypes" hs hest

/-! ## Running strategies -/

theorem isComplete_restrict : Answers.isComplete (answers.restrict keep) (s.restrict keep).targets =
      true ↔ ∀ t ∈ s.targets, keep t = true → answers.isFinal t = true := by
  simp only [Answers.isComplete, Store.targets_restrict, List.all_eq_true]
  constructor
  · intro h t ht hk
    rw [← answers.isFinal_restrict hk]
    exact h t (List.mem_filter.2 ⟨ht, hk⟩)
  · intro h t ht
    obtain ⟨ht, hk⟩ := List.mem_filter.1 ht
    rw [answers.isFinal_restrict hk]
    exact h t ht hk

/-- From answers on the whole and their restriction, strategies find the same for what is
    kept. -/
theorem runStrategies_restrict (hs : s.Separated keep)
    (hbuiltIn : ∀ strategy ∈ strategies, ∃ (b : BuiltIn) (types : TypeOrder)
      (qualifiers : QualifierOrder), strategy = b.strategy types qualifiers)
    (hsplits : Answers.Splits keep answers) (hwithin : ∀ {t}, t ∈ answers → t ∈ s.targets)
    (ran : List String) :
    ∃ out out', runStrategies s strategies (answers, ran) = .ok out ∧
      runStrategies (s.restrict keep) strategies (answers.restrict keep, ran) = .ok out' ∧
      ∀ t ∈ s.targets, keep t = true → out'.1.get? t = out.1.get? t := by
  have hsame : ∀ t ∈ s.targets, keep t = true → (answers.restrict keep).get? t = answers.get? t :=
    fun t _ hk => answers.get?_restrict_of_keep hk
  -- On the strategies. Answers stay within the store, and no alias among them leads across.
  induction strategies generalizing answers ran with
  | nil => exact ⟨_, _, rfl, rfl, hsame⟩
  | cons strategy rest ih =>
    cases hpart : Answers.isComplete (answers.restrict keep) (s.restrict keep).targets with
    | true =>
      -- The part is done; what the whole still does changes no type.
      obtain ⟨out, hout, hextends⟩ := runStrategies_extends s (strategy :: rest) (answers, ran)
      refine ⟨out, _, hout, runStrategies_of_complete hpart _ ran, fun t ht hk => ?_⟩
      obtain ⟨ty, hty, -⟩ := Answers.isFinal_iff.1 (isComplete_restrict.1 hpart t ht hk)
      rw [hsame t ht hk, Answers.typeOf?_eq_some.1 hty,
        Answers.typeOf?_eq_some.1 (hextends.keeps t ty hty)]
    | false =>
      have hwhole : answers.isComplete s.targets = false := by
        apply Bool.eq_false_iff.2
        intro hall
        simp only [isComplete_restrict.2 fun t ht _ => List.all_eq_true.1 hall t ht] at hpart
        cases hpart
      obtain ⟨b, types, qualifiers, rfl⟩ := hbuiltIn _ (.head _)
      have hfound := b.separates hs hwithin types qualifiers
      obtain ⟨filled, hall, hm⟩ :=
        answers.merge_eq ((b.strategy types qualifiers).solve s answers).2
      obtain ⟨hm', hsplits'⟩ := Answers.merge_restrict hsplits hfound.splits hm
      simp only [← hfound.part] at hm'
      have hwithin' : ∀ {t}, t ∈ (filled.adopt
          ((b.strategy types qualifiers).solve s answers).2).collapse → t ∈ s.targets := by
        intro t ht
        rw [TargetMap.mem_def, (Answers.fills_collapse _).keys, Answers.keys_adopt,
          List.mem_append, hall.fills.keys] at ht
        rcases ht with ht | ht
        · exact hwithin ht
        · exact hfound.within (List.mem_filter.1 ht).1
      rw [runStrategies_cons hwhole hm, runStrategies_cons hpart hm']
      exact ih (fun x hx => hbuiltIn x (.tail _ hx)) hsplits' hwithin' _
        fun t _ hk => TargetMap.get?_restrict_of_keep _ hk

/-- Built-in strategies, in any number and order, infer the same for the kept targets from the
    whole store and from the part of it that is kept. -/
theorem infer_restrict (s : Store) (keep : Target → Bool) (strategies : List Strategy)
    (hbuiltIn : ∀ strategy ∈ strategies, ∃ (b : BuiltIn) (types : TypeOrder)
      (qualifiers : QualifierOrder), strategy = b.strategy types qualifiers)
    (hs : s.Separated keep) :
    ∃ o o', infer s strategies = .ok o ∧ infer (s.restrict keep) strategies = .ok o' ∧
      ∀ t ∈ s.targets, keep t = true → o'.answers.get? t = o.answers.get? t := by
  have hsplits : Answers.Splits keep ∅ := nofun
  have hwithin : ∀ {t}, t ∈ (∅ : Answers) → t ∈ s.targets := nofun
  obtain ⟨out, out', hout, hout', hsame⟩ :=
    runStrategies_restrict hs hbuiltIn hsplits hwithin []
  have hempty : TargetMap.restrict ∅ keep = (∅ : Answers) := rfl
  simp only [hempty] at hout'
  exact ⟨_, _, infer_of_runStrategies hout, infer_of_runStrategies hout', hsame⟩

/-- The first and the last target bound each other; the one between them has a bound of its
    own. -/
def twoFamilies : Store :=
  (((Store.new 0 [⟨1⟩, ⟨2⟩, ⟨3⟩]).write ⟨1⟩ fun r =>
    (r.relateTarget .supertype ⟨3⟩ ∅).relateType .supertype (.named "Integer" [] ∅) ∅).write ⟨2⟩
      fun r => r.relateType .supertype (.named "String" [] ∅) ∅).write ⟨3⟩ fun r =>
        (r.relateTarget .supertype ⟨1⟩ ∅).relateTarget .equal ⟨1⟩ ∅

theorem separated_twoFamilies : twoFamilies.Separated (· != ⟨2⟩) := by
  intro t u r rel hr hu hmem
  have hall : ∀ rel ∈ [Relation.equal, .subtype, .supertype], ∀ t ∈ twoFamilies.targets,
      ∀ r ∈ twoFamilies.record? t, ∀ u ∈ (r.targetsIn rel).keys, u ∈ twoFamilies.targets →
        (t != ⟨2⟩) = (u != ⟨2⟩) := by
    decide +kernel
  exact hall rel (by cases rel <;> decide) t (Store.mem_targets_of_record? hr) r hr u hu
    hmem

theorem infer_restrict_twoFamilies :
    let types := NominalTypes.typeOrder ∅ .chains
    let strategies := [.supertypes types .chains, .equalities, .supertypes types .chains]
    ∃ o o', infer twoFamilies strategies = .ok o ∧
      infer (twoFamilies.restrict (· != ⟨2⟩)) strategies = .ok o' ∧
      ∀ t ∈ twoFamilies.targets, (t != ⟨2⟩) = true → o'.answers.get? t = o.answers.get? t := by
  refine infer_restrict twoFamilies (· != ⟨2⟩) _ ?_ separated_twoFamilies
  rintro strategy (_ | ⟨_, _ | ⟨_, _ | ⟨_, ⟨⟩⟩⟩⟩)
  · exact ⟨.supertypes, NominalTypes.typeOrder ∅ .chains, .chains, rfl⟩
  · exact ⟨.equalities, NominalTypes.typeOrder ∅ .chains, .chains, rfl⟩
  · exact ⟨.supertypes, NominalTypes.typeOrder ∅ .chains, .chains, rfl⟩

end QualifiedInference
