-- SUMMARY: What inference keeps of the answers, and the aliases that are left in an outcome.
import QualifiedInference.Proofs.Answers.Within
import QualifiedInference.Proofs.Bounds.Source
import QualifiedInference.Proofs.Equalities
import QualifiedInference.Proofs.Fallback
import QualifiedInference.Strategy.BuiltIn
/-!
# What an inference keeps

What the built-in strategies keep of the answers, an inference keeps from its start with no answers
to its outcome. So an outcome is about targets of the store alone, and as it is collapsed, no alias
in it leads to a type (`infer_unresolved`).
-/

namespace QualifiedInference

variable {s : Store} {P : Ty → Prop} {Q : Qualifiers → Prop}

/-- What is asked of the types and of the qualifiers of aliases holds of all that the strategy
    finds, if it holds of what is established. -/
def Strategy.Keeps (strategy : Strategy) (s : Store) (P : Ty → Prop) (Q : Qualifiers → Prop) :
    Prop :=
  ∀ established, Answers.Within s.targets P Q established →
    Answers.Within s.targets P Q (strategy.solve s established).2

/-! ## The built-in strategies -/

theorem Bounds.keeps (b : Bounds) (name : String)
    (hstore : ∀ {t r}, s.record? t = some r → ∀ ty ∈ r.typesIn b.side.relation, P ty)
    (hverdict : ∀ {t r r' ty}, s.record? t = some r → r.Enriched b.side.relation P r' →
      b.typeFor? r' = some ty → P ty) :
    Strategy.Keeps ⟨name, b.solve⟩ s P Q := by
  intro established hestablished
  have hsolve : ∀ {t a}, (b.solve s established).2.get? t = some a →
      b.IsVerdict P s t a ∧ ∃ ty, a = .type ty ∧ P ty :=
    isVerdict_of_solve hstore hestablished.typeOf? hverdict
  refine ⟨fun {t} ht => ?_, fun {t ty} hty => ?_, fun {t p extra} ht => ?_⟩
  · obtain ⟨a, ha⟩ := Option.isSome_iff_exists.1 ((TargetMap.isSome_get? _ t).2 ht)
    obtain ⟨⟨ty, r, r', -, hr, -⟩, -⟩ := hsolve ha
    exact Store.mem_targets_of_record? hr
  · obtain ⟨-, ty', heq, hP⟩ := hsolve hty
    cases heq
    exact hP
  · obtain ⟨-, ty', heq, -⟩ := hsolve ht
    cases heq

namespace Equalities

open Solving

variable {established : Answers} {st : Solving}

/-- Where a run over equalities stands that keeps what is asked. -/
structure Sourced (s : Store) (P : Ty → Prop) (Q : Qualifiers → Prop) (st : Solving) : Prop where
  store : s.Enriched .equal P st.store
  found : Answers.Within s.targets P Q st.found

section Run

variable (hPQ : Ty.LaysOver Q P)
  (hexact : ∀ {t r}, s.record? t = some r → Q r.equalities.exact)
  (hestablished : Answers.Within s.targets P Q established)

include hestablished in
theorem Sourced.informed (h : Sourced s P Q st) (t : Target) :
    Sourced s P Q (informed established st t) where
  store := h.store.learn (typeOf?_induction h.found.typeOf? hestablished.typeOf?) t _
  found := by
    rw [found_informed]
    exact h.found

include hexact in
theorem Sourced.exact (h : Sourced s P Q st) {t : Target} {r : Record}
    (hr : st.store.record? t = some r) : t ∈ s.targets ∧ Q r.equalities.exact := by
  obtain ⟨r₀, hr₀, henriched⟩ := h.store.record hr
  refine ⟨Store.mem_targets_of_record? hr₀, ?_⟩
  rw [Relations.exact, henriched.exact]
  exact hexact hr₀

include hPQ hexact hestablished in
theorem Sourced.attempt (h : Sourced s P Q st) (t : Target) :
    Sourced s P Q (attempt established st t).1 := by
  rcases attempt_cases established st t with ⟨-, heq⟩ | ⟨-, ⟨-, heq⟩ | ⟨ty, hv, heq⟩⟩
  · rwa [heq]
  · rw [heq]
    exact h.informed hestablished t
  · rw [heq]
    have hinformed := h.informed hestablished t
    obtain ⟨r, hr, hty⟩ := Option.bind_eq_some_iff.1 hv
    obtain ⟨first, hfirst, rfl⟩ := Option.map_eq_some_iff.1 hty
    obtain ⟨ht, hQ⟩ := hinformed.exact hexact hr
    obtain ⟨r₀, -, henriched⟩ := hinformed.store.record hr
    have hmem : first ∈ r.typesIn .equal := List.mem_of_head? hfirst
    exact ⟨hinformed.store, hinformed.found.insert ht (hPQ.overlay (henriched.all _ hmem) hQ)⟩

include hexact in
theorem Sourced.addAlias (h : Sourced s P Q st) {t : Target} :
    Sourced s P Q (addAlias established st t) := by
  rcases addAlias_cases established st t with heq | ⟨r, u, hr, -, hut, hu, heq⟩
  · rwa [heq]
  · rw [heq]
    obtain ⟨ht, hQ⟩ := h.exact hexact hr
    exact ⟨h.store, h.found.insert_alias ht (h.store.targets ▸ hu) hut hQ⟩

include hPQ hexact in
theorem keeps (hstore : ∀ {t r}, s.record? t = some r → ∀ ty ∈ r.typesIn .equal, P ty) :
    Strategy.equalities.Keeps s P Q := by
  intro established hestablished
  have hspread : Sourced s P Q (spread established s.targets ⟨s, ∅⟩) :=
    spread_induction ⟨.refl hstore, .empty⟩ fun _ t _ hst => hst.attempt hPQ hexact hestablished t
  have haliases : Sourced s P Q (s.targets.foldl (Equalities.addAlias established)
      (spread established s.targets ⟨s, ∅⟩)) :=
    List.foldlRecOn _ _ hspread fun _ hst _ _ => hst.addAlias hexact
  exact haliases.found.collapse hPQ

end Run

end Equalities

/-! ## Inference -/

/-- What the strategies keep holds of the outcome, and no alias in it points to a target with a
    type. -/
theorem infer_within (hPQ : Ty.LaysOver Q P) {strategies : List Strategy}
    (hkeeps : ∀ strategy ∈ strategies, strategy.Keeps s P Q) :
    ∃ o, infer s strategies = .ok o ∧ Answers.Within s.targets P Q o.answers ∧
      o.answers.Collapsed ∧ o.remaining = s.targets.filter fun t => !o.answers.isFinal t := by
  have hrun : ∀ acc : Answers × List String, Answers.Within s.targets P Q acc.1 →
      acc.1.Collapsed → ∃ out, runStrategies s strategies acc = .ok out ∧
        Answers.Within s.targets P Q out.1 ∧ out.1.Collapsed := by
    -- On the strategies to come. A run that is complete skips them and is collapsed already.
    induction strategies with
    | nil => exact fun acc hacc hcollapsed => ⟨acc, rfl, hacc, hcollapsed⟩
    | cons strategy rest ih =>
      rintro ⟨answers, ran⟩ hacc hcollapsed
      cases hcomplete : answers.isComplete s.targets with
      | true =>
        exact ⟨_, runStrategies_of_complete hcomplete _ ran, hacc, hcollapsed⟩
      | false =>
        obtain ⟨m, hm, hwithin, hcollapsed'⟩ := hacc.merge hPQ (hkeeps _ (.head _) answers hacc)
        rw [runStrategies_cons hcomplete hm]
        exact ih (fun x hx => hkeeps x (.tail _ hx)) _ hwithin hcollapsed'
  obtain ⟨out, hout, hwithin, hcollapsed⟩ := hrun (∅, []) .empty fun t p extra h =>
    absurd h TargetMap.get?_empty_ne_some
  exact ⟨_, infer_of_runStrategies hout, hwithin, hcollapsed, rfl⟩

/-- In the outcome of an inference only targets of the store are answered, and an alias is really
    unresolved: it points to another target of the store, there is no type on its chain, and all
    of the chain remains. -/
theorem infer_unresolved (s : Store) (strategies : List Strategy)
    (hbuiltIn : ∀ strategy ∈ strategies, ∃ (b : BuiltIn) (types : TypeOrder)
      (qualifiers : QualifierOrder), strategy = b.strategy types qualifiers) :
    ∃ o, infer s strategies = .ok o ∧ (∀ t ∈ o.answers, t ∈ s.targets) ∧
      ∀ t p extra, o.answers.get? t = some (.alias p extra) →
        p ∈ s.targets ∧ p ≠ t ∧ o.answers.typeOf? p = none ∧
        ∀ n u, o.answers.Leads n t u → o.answers.typeOf? u = none ∧ u ∈ o.remaining := by
  have hkeeps : ∀ strategy ∈ strategies, strategy.Keeps s (fun _ => True) (fun _ => True) := by
    intro strategy hstrategy
    obtain ⟨b, types, qualifiers, rfl⟩ := hbuiltIn strategy hstrategy
    cases b with
    | equalities =>
      exact Equalities.keeps ⟨fun _ _ => trivial, fun _ => trivial⟩ (fun _ => trivial)
        fun _ _ _ => trivial
    | supertypes =>
      exact Bounds.keeps ⟨.lower, types, qualifiers⟩ "supertypes" (fun _ _ _ => trivial)
        fun _ _ _ => trivial
    | subtypes =>
      exact Bounds.keeps ⟨.upper, types, qualifiers⟩ "subtypes" (fun _ _ _ => trivial)
        fun _ _ _ => trivial
  obtain ⟨o, ho, hwithin, hcollapsed, hremaining⟩ :=
    infer_within ⟨fun _ _ => trivial, fun _ => trivial⟩ hkeeps
  refine ⟨o, ho, fun t => hwithin.targets, fun t p extra ht => ?_⟩
  obtain ⟨hp, hpt, -⟩ := hwithin.aliases ht
  refine ⟨hp, hpt, hcollapsed t p extra ht, fun n u hu => ?_⟩
  have hnone := hcollapsed.typeOf?_of_leads_none (Answers.typeOf?_of_get?_alias ht) hu
  refine ⟨hnone, ?_⟩
  rw [hremaining, List.mem_filter, Answers.isFinal, hnone]
  exact ⟨hwithin.mem_of_leads (hwithin.targets (TargetMap.mem_of_get? ht)) hu, rfl⟩

theorem Answers.collapsed_of_keys {r : Answers} (h : ∀ t ∈ r.keys, r.typeOf? t = none) :
    r.Collapsed := by
  intro t p extra _
  by_cases hp : p ∈ r
  · exact h p hp
  · exact Answers.typeOf?_of_not_mem hp

/-- Where no type spreads along equalities, their outcome is the aliases alone. -/
theorem infer_equalities_of_idle {s : Store} {r : Answers}
    (hidle : Equalities.spread ∅ s.targets ⟨s, ∅⟩ = ⟨s, ∅⟩)
    (hfound : (s.targets.foldl (Equalities.addAlias ∅) ⟨s, ∅⟩).found = r)
    (hadopt : Answers.adopt ∅ r = r) (hcollapsed : r.Collapsed)
    (hincomplete : Answers.isComplete ∅ s.targets = false) :
    infer s [.equalities] =
      .ok ⟨r, ["equalities"], s.targets.filter fun t => !r.isFinal t⟩ := by
  have hsolve : (Strategy.equalities.solve s ∅).2 = r := by
    show (s.targets.foldl (Equalities.addAlias ∅)
      (Equalities.spread ∅ s.targets ⟨s, ∅⟩)).found.collapse = r
    rw [hidle, hfound, hcollapsed.collapse_eq]
  have hmerge : Answers.merge ∅ (Strategy.equalities.solve s ∅).2 = .ok r := by
    rw [hsolve]
    show Except.ok (Answers.adopt ∅ r).collapse = .ok r
    rw [hadopt, hcollapsed.collapse_eq]
  exact infer_of_runStrategies (runStrategies_cons hincomplete hmerge [] [])

/-- Two targets that equal each other, and nothing else. -/
def equalPair : Store :=
  ((Store.new 0 [⟨1⟩, ⟨2⟩]).write ⟨1⟩ fun r => r.relateTarget .equal ⟨2⟩ ∅).write ⟨2⟩ fun r =>
    r.relateTarget .equal ⟨1⟩ ∅

def aliasCycle : Answers := .ofList [(⟨1⟩, .alias ⟨2⟩ ∅), (⟨2⟩, .alias ⟨1⟩ ∅)]

theorem infer_equalPair : infer equalPair [.equalities] =
    .ok ⟨aliasCycle, ["equalities"], [⟨1⟩, ⟨2⟩]⟩ := by
  have hinfer := infer_equalities_of_idle (s := equalPair) (r := aliasCycle)
    (Equalities.spread_of_idle (by decide +kernel)) (TargetMap.ext (by decide +kernel))
    (TargetMap.ext (by decide +kernel)) (Answers.collapsed_of_keys (by decide +kernel))
    (by decide +kernel)
  rw [hinfer]
  exact congrArg (fun ts => Except.ok (Outcome.mk aliasCycle ["equalities"] ts)) (by decide +kernel)

theorem infer_unresolved_equalPair :
    ∃ o, infer equalPair [.equalities] = .ok o ∧
      o.answers.get? ⟨1⟩ = some (.alias ⟨2⟩ ∅) ∧ o.remaining = [⟨1⟩, ⟨2⟩] ∧
      ⟨2⟩ ∈ equalPair.targets ∧ o.answers.typeOf? ⟨2⟩ = none ∧
      ∀ n u, o.answers.Leads n ⟨1⟩ u → o.answers.typeOf? u = none ∧ u ∈ o.remaining := by
  obtain ⟨o, ho, -, halias⟩ := infer_unresolved equalPair [.equalities] (by
    simp only [List.forall_mem_singleton]
    exact ⟨.equalities, NominalTypes.typeOrder ∅ .chains, .chains, rfl⟩)
  have hget : o.answers.get? ⟨1⟩ = some (.alias ⟨2⟩ ∅) := by
    rw [infer_equalPair] at ho
    cases ho
    decide +kernel
  obtain ⟨hp, -, hnone, hchain⟩ := halias ⟨1⟩ ⟨2⟩ ∅ hget
  refine ⟨o, ho, hget, ?_, hp, hnone, hchain⟩
  rw [infer_equalPair] at ho
  cases ho
  rfl

end QualifiedInference
