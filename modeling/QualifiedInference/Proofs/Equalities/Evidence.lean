-- SUMMARY: Derivations of the types that equalities give, and where the sweeps stop.
import QualifiedInference.Proofs.Equalities
import QualifiedInference.Proofs.Fallback
/-!
# Evidence for answers from equalities

`Stems` derives the type of a target from a type recorded for it, from an established one or from
one that was found and stems in turn. Whatever the sweeps find stems (`grounded_typed`), and they
end when no evidence is left that they have not used (`idle_of_unanswered`). The aliases that are
made then point to targets without a type, so the collapse after them turns nothing.
-/

namespace QualifiedInference

namespace Equalities

open Solving

variable {s : Store} {established found found' : Answers} {st : Solving} {t : Target} {ty : Ty}
  {r : Record}

/-- The type comes from one recorded in `s`, or else from one that an equal target has, under the
    qualifiers that the target must have. A type in `found` must stem itself. -/
inductive Stems (s : Store) (established found : Answers) : Target → Ty → Prop
  | ofRecord {t : Target} {r : Record} {ty : Ty} : s.record? t = some r →
    (r.typesIn .equal).keys.head? = some ty →
    Stems s established found t (ty.overlay r.equalities.exact)
  | ofEstablished {t u : Target} {r : Record} {ty : Ty} : s.record? t = some r →
    (r.typesIn .equal).keys = [] → u ∈ r.targetsIn .equal → established.typeOf? u = some ty →
    Stems s established found t (ty.overlay r.equalities.exact)
  | ofFound {t u : Target} {r : Record} {ty : Ty} : s.record? t = some r →
    (r.typesIn .equal).keys = [] → u ∈ r.targetsIn .equal → found.typeOf? u = some ty →
    Stems s established found u ty → Stems s established found t (ty.overlay r.equalities.exact)

theorem Stems.mono (hkeeps : found.KeepsTypes found') (h : Stems s established found t ty) :
    Stems s established found' t ty := by
  induction h with
  | ofRecord hr hty => exact .ofRecord hr hty
  | ofEstablished hr hnone hu hty => exact .ofEstablished hr hnone hu hty
  | ofFound hr hnone hu hty _ ih => exact .ofFound hr hnone hu (hkeeps _ _ hty) ih

theorem Stems.of_verdict? (hr : s.record? t = some r) (hst : st.store.record? t = some r)
    (hfound : ∀ {u ty}, st.found.typeOf? u = some ty → Stems s established st.found u ty)
    (hv : verdict? established st t = some ty) : Stems s established st.found t ty := by
  rw [verdict?_eq hst] at hv
  obtain ⟨first, hfirst, rfl⟩ := Option.map_eq_some_iff.1 hv
  rcases Option.or_eq_some_iff.1 hfirst with hrecorded | ⟨hnone, hevidence⟩
  · exact .ofRecord hr hrecorded
  · have hkeys : (r.typesIn .equal).keys = [] := List.head?_eq_none_iff.1 hnone
    obtain ⟨u, hu, hknown⟩ := mem_evidence.1 (List.mem_of_head? hevidence)
    rcases Option.or_eq_some_iff.1 hknown with hty | ⟨-, hty⟩
    · exact .ofFound hr hkeys hu hty (hfound hty)
    · exact .ofEstablished hr hkeys hu hty

/-! ## Sweeps -/

/-- The run over `s` when its sweeps have come to an end. -/
def typed (s : Store) (established : Answers) : Solving := spread established s.targets ⟨s, ∅⟩

/-- Where the sweeps from `s` stand. -/
structure Grounded (s : Store) (established : Answers) (st : Solving) : Prop where
  /-- Only the record of an answered target is written. -/
  record : ∀ {t}, st.found.get? t = none → st.store.record? t = s.record? t
  found : ∀ {t a}, st.found.get? t = some a → established.isFinal t = false ∧
    ∃ ty, a = .type ty ∧ Stems s established st.found t ty

namespace Grounded

theorem start (s : Store) (established : Answers) : Grounded s established ⟨s, ∅⟩ where
  record _ := rfl
  found h := absurd h TargetMap.get?_empty_ne_some

theorem stems (h : Grounded s established st) (ht : st.found.typeOf? t = some ty) :
    Stems s established st.found t ty := by
  obtain ⟨-, ty', heq, hstems⟩ := h.found (Answers.typeOf?_eq_some.1 ht)
  cases heq
  exact hstems

theorem isFinal_eq_false (h : Grounded s established st) (ht : st.found.typeOf? t = some ty) :
    established.isFinal t = false := (h.found (Answers.typeOf?_eq_some.1 ht)).1

/-- The sweeps make no aliases. -/
theorem get?_eq_none (h : Grounded s established st) (ht : st.found.typeOf? t = none) :
    st.found.get? t = none := by
  refine Option.eq_none_iff_forall_ne_some.2 fun a ha => ?_
  obtain ⟨-, ty, rfl, -⟩ := h.found ha
  rw [Answers.typeOf?_eq_some.2 ha] at ht
  cases ht

theorem answer (h : Grounded s established st) (hfinal : established.isFinal t = false)
    (hnone : st.found.typeOf? t = none) (hstems : Stems s established st.found t ty) :
    Grounded s established ((informed established st t).answer t ty) := by
  have hkeeps := Answers.keepsTypes_insert hnone ty
  -- The record and the answer of `t` are all that changes.
  refine ⟨fun {u} hu => ?_, fun {u a} hu => ?_⟩
  all_goals
    simp only [Solving.answer, found_informed, TargetMap.get?_insert] at hu ⊢
    split at hu
  · cases hu
  · next hut => exact (record?_informed_of_ne hut).trans (h.record hu)
  · next hut =>
    cases hu
    subst hut
    exact ⟨hfinal, ty, rfl, hstems.mono hkeeps⟩
  · obtain ⟨hufinal, uty, rfl, hustems⟩ := h.found hu
    exact ⟨hufinal, uty, rfl, hustems.mono hkeeps⟩

theorem attempt (h : Grounded s established st) (t : Target) :
    Grounded s established (attempt established st t).1 := by
  rcases attempt_cases established st t with ⟨-, heq⟩ | ⟨htried, ⟨hv, heq⟩ | ⟨ty, hv, heq⟩⟩
  · rwa [heq]
  · rwa [heq, informed_of_verdict?_eq_none hv]
  · rw [heq]
    obtain ⟨hfinal, hnone⟩ := skips_eq_false_iff.1 htried
    -- The target has no answer yet, so the verdict is on the record that it had at the start.
    obtain ⟨r, hr⟩ := exists_record_of_verdict? hv
    have hstart : s.record? t = some r := (h.record (h.get?_eq_none hnone)).symm.trans hr
    exact h.answer hfinal hnone (.of_verdict? hstart hr h.stems hv)

end Grounded

/-- Every type that the sweeps find stems from what they started with. -/
theorem grounded_typed (s : Store) (established : Answers) :
    Grounded s established (typed s established) :=
  spread_induction (.start s established) fun _ t _ h => h.attempt t

/-- Where the sweeps leave a target without an answer, there is nothing to answer it with. -/
theorem idle_of_unanswered (hr : s.record? t = some r) (hfinal : established.isFinal t = false)
    (hnone : (typed s established).found.typeOf? t = none) :
    (r.typesIn .equal).keys = [] ∧
      ∀ u ∈ r.targetsIn .equal, (typed s established).typeOf? established u = none := by
  have hgrounded := grounded_typed s established
  have hrecord := hgrounded.record (hgrounded.get?_eq_none hnone)
  -- The last sweep was in vain, so it tried the target in vain.
  have hvain : (attempt established (typed s established) t).2 = false :=
    attempt_of_sweep_in_vain sweep_spread (Store.mem_targets_of_record? hr)
  rcases attempt_cases established (typed s established) t with
    ⟨hskips, -⟩ | ⟨-, ⟨hv, -⟩ | ⟨ty, -, heq⟩⟩
  · rw [skips_eq_false_iff.2 ⟨hfinal, hnone⟩] at hskips
    cases hskips
  · exact (verdict?_eq_none_iff (hrecord.trans hr)).1 hv
  · rw [heq] at hvain
    cases hvain

/-! ## Aliases -/

/-- The alias that a target of the store becomes unless it is answered. -/
def aliasFor? (s : Store) (t : Target) : Option Answer :=
  (s.record? t).bind fun r =>
    ((r.targetsIn .equal).keys.find? fun u => u != t && s.contains u).map
      (.alias · r.equalities.exact)

theorem aliasFor?_eq_some {a : Answer} : aliasFor? s t = some a ↔
    ∃ r p, s.record? t = some r ∧
      ((r.targetsIn .equal).keys.find? fun u => u != t && s.contains u) = some p ∧
      a = .alias p r.equalities.exact := by
  unfold aliasFor?
  simp only [Option.bind_eq_some_iff, Option.map_eq_some_iff]
  grind

theorem addAlias_of_open (hfinal : established.isFinal t = false) (hnone : st.found.get? t = none) :
    (addAlias established st t).found =
      match aliasFor? st.store t with
      | none => st.found
      | some a => st.found.insert t a := by
  have hopen : ¬(established.isFinal t || st.found.contains t) = true := by
    simp [hfinal, TargetMap.contains, hnone]
  rw [addAlias, if_neg hopen, aliasFor?]
  cases st.store.record? t with
  | none => rfl
  | some r =>
    dsimp only [Option.bind_some, Record.targetsIn]
    cases r.equalities.targets.keys.find? fun u => u != t && st.store.contains u <;> rfl

theorem get?_addAlias (established : Answers) (st : Solving) (t u : Target) :
    (addAlias established st t).found.get? u =
      if u = t ∧ established.isFinal t = false ∧ st.found.get? t = none then aliasFor? st.store t
      else st.found.get? u := by
  cases hskipped : established.isFinal t || st.found.contains t with
  | true =>
    rw [addAlias, if_pos hskipped, if_neg]
    rintro ⟨-, hfinal, hnone⟩
    simp [hfinal, TargetMap.contains, hnone] at hskipped
  | false =>
    obtain ⟨hfinal, hnone⟩ : established.isFinal t = false ∧ st.found.get? t = none := by
      rwa [TargetMap.contains, Bool.or_eq_false_iff, Option.isSome_eq_false_iff,
        Option.isNone_iff_eq_none] at hskipped
    rw [addAlias_of_open hfinal hnone]
    cases aliasFor? st.store t with
    | none => grind
    | some a => grind [TargetMap.get?_insert]

/-- Aliases are made of the targets that are neither final nor answered yet. -/
theorem get?_foldl_addAlias (established : Answers) (st : Solving) (ts : List Target)
    (t : Target) : (ts.foldl (addAlias established) st).found.get? t =
      if t ∈ ts ∧ established.isFinal t = false ∧ st.found.get? t = none then aliasFor? st.store t
      else st.found.get? t := by
  induction ts generalizing st with
  | nil => simp
  | cons u ts ih =>
    rw [List.foldl_cons, ih, get?_addAlias, store_addAlias]
    grind

/-- What the run over `s` has found when its answers are about to be collapsed. -/
def aliased (s : Store) (established : Answers) : Answers :=
  (s.targets.foldl (addAlias established) (typed s established)).found

theorem get?_aliased (s : Store) (established : Answers) (t : Target) :
    (aliased s established).get? t =
      if t ∈ s.targets ∧ established.isFinal t = false ∧
          (typed s established).found.get? t = none then aliasFor? s t
      else (typed s established).found.get? t := by
  rw [aliased, get?_foldl_addAlias]
  have hcontains : ∀ u, (typed s established).store.contains u = s.contains u := by
    intro u
    rw [Bool.eq_iff_iff, Store.contains_iff, Store.contains_iff, typed, targets_spread]
  refine ite_congr rfl (fun hopen => ?_) fun _ => rfl
  simp only [aliasFor?, (grounded_typed s established).record hopen.2.2, hcontains]

/-- An alias is no type. -/
theorem typeOf?_aliased (s : Store) (established : Answers) (t : Target) :
    (aliased s established).typeOf? t = (typed s established).found.typeOf? t := by
  unfold Answers.typeOf?
  rw [get?_aliased]
  split
  · next hopen =>
    rw [hopen.2.2]
    cases halias : aliasFor? s t with
    | none => rfl
    | some a =>
      obtain ⟨r, p, -, -, rfl⟩ := aliasFor?_eq_some.1 halias
      rfl
  · rfl

/-- A target that is made an alias has no evidence, so neither has the one that it points to. -/
theorem typeOf?_of_alias {p : Target} {extra : Qualifiers}
    (h : (aliased s established).get? t = some (.alias p extra)) :
    (typed s established).typeOf? established p = none := by
  rw [get?_aliased] at h
  split at h
  · next hopen =>
    obtain ⟨r, p', hr, hp, heq⟩ := aliasFor?_eq_some.1 h
    cases heq
    have hnone : (typed s established).found.typeOf? t = none :=
      Answers.typeOf?_of_not_mem (TargetMap.get?_eq_none_iff.1 hopen.2.2)
    exact (idle_of_unanswered hr hopen.2.1 hnone).2 _ (List.mem_of_find?_eq_some hp)
  · obtain ⟨-, ty, heq, -⟩ := (grounded_typed s established).found h
    cases heq

/-- The collapse at the end of a run finds nothing to turn. -/
theorem solve_eq_aliased (s : Store) (established : Answers) :
    (solve s established).2 = aliased s established := by
  refine Answers.Collapsed.collapse_eq fun t p extra ht => ?_
  exact (typeOf?_aliased s established p).trans (Option.or_eq_none_iff.1 (typeOf?_of_alias ht)).1

theorem typeOf?_solve (s : Store) (established : Answers) (t : Target) :
    (solve s established).2.typeOf? t = (typed s established).found.typeOf? t := by
  rw [solve_eq_aliased, typeOf?_aliased]

/-! ## Where types come from -/

/-- A type that a run over equalities gives a target is the first one recorded for it, or without
    any one that an equal target has, in the answers of the run or in the established ones, under
    the qualifiers that the target must have. Evidence goes back in finitely many steps to a type
    that was recorded or established before. -/
theorem solve_stems (h : (solve s established).2.typeOf? t = some ty) :
    ∃ r first, s.record? t = some r ∧ ty = first.overlay r.equalities.exact ∧
      ((r.typesIn .equal).keys.head? = some first ∨
        (r.typesIn .equal).keys = [] ∧ ∃ u ∈ r.targetsIn .equal,
          (solve s established).2.typeOf? u = some first ∨ established.typeOf? u = some first) ∧
      Stems s established (solve s established).2 t ty := by
  have hkeeps : (typed s established).found.KeepsTypes (solve s established).2 :=
    fun u uty hu => (typeOf?_solve s established u).trans hu
  have htyped : (typed s established).found.typeOf? t = some ty :=
    (typeOf?_solve s established t).symm.trans h
  have hstems : Stems s established (solve s established).2 t ty :=
    ((grounded_typed s established).stems htyped).mono hkeeps
  cases id hstems with
  | ofRecord hr hty => exact ⟨_, _, hr, rfl, .inl hty, hstems⟩
  | ofEstablished hr hnone hu hty =>
    exact ⟨_, _, hr, rfl, .inr ⟨hnone, _, hu, .inr hty⟩, hstems⟩
  | ofFound hr hnone hu hty _ => exact ⟨_, _, hr, rfl, .inr ⟨hnone, _, hu, .inl hty⟩, hstems⟩

/-- A target that equals another one, which equals a type. -/
def linkedPair : Store :=
  ((Store.new 0 [⟨1⟩, ⟨2⟩]).write ⟨1⟩ fun r => r.relateTarget .equal ⟨2⟩ ∅).write ⟨2⟩ fun r =>
    r.relateType .equal (.named "int" [] ∅) ∅

theorem typeOf?_solve_linkedPair :
    (solve linkedPair ∅).2.typeOf? ⟨1⟩ = some (.named "int" [] ∅) := by
  -- The first sweep answers the second target, the next one the first, and the third none.
  have hfirst : (sweep (attempt ∅) linkedPair.targets ⟨linkedPair, ∅⟩).2 = true := by
    decide +kernel
  have hnext : (sweep (attempt ∅) linkedPair.targets
      (sweep (attempt ∅) linkedPair.targets ⟨linkedPair, ∅⟩).1).2 = true := by
    decide +kernel
  have hidle : (sweep (attempt ∅) linkedPair.targets (sweep (attempt ∅) linkedPair.targets
      (sweep (attempt ∅) linkedPair.targets ⟨linkedPair, ∅⟩).1).1).2 = false := by
    decide +kernel
  rw [typeOf?_solve, typed, spread_of_answered hfirst, spread_of_answered hnext,
    spread_of_idle hidle]
  decide +kernel

theorem solve_stems_linkedPair :
    (solve linkedPair ∅).2.typeOf? ⟨1⟩ = some (.named "int" [] ∅) ∧
      ∃ r first, linkedPair.record? ⟨1⟩ = some r ∧
        .named "int" [] ∅ = first.overlay r.equalities.exact ∧
        ((r.typesIn .equal).keys.head? = some first ∨
          (r.typesIn .equal).keys = [] ∧ ∃ u ∈ r.targetsIn .equal,
            (solve linkedPair ∅).2.typeOf? u = some first ∨
              (∅ : Answers).typeOf? u = some first) ∧
        Stems linkedPair ∅ (solve linkedPair ∅).2 ⟨1⟩ (.named "int" [] ∅) :=
  ⟨typeOf?_solve_linkedPair, solve_stems typeOf?_solve_linkedPair⟩

end Equalities

end QualifiedInference
