-- SUMMARY: Runs over related stores, side by side.
import QualifiedInference.Proofs.Answers.Collapse
import QualifiedInference.Proofs.Equalities
import QualifiedInference.Proofs.Noninterference.Types
/-!
# Two runs side by side

A relation between types and one between records go together if related records determine related
types and learn related types well (`Record.Congruence`). Two runs over stores with related records
then go side by side: at each attempt they try the same target, know related types, and both answer
it or neither does. So the answers that they find are related, be it over bounds or over equalities,
and the collapse of the aliases keeps this.
-/

namespace QualifiedInference

/-! ## Related answers and records -/

variable {E : Ty → Ty → Prop} {R : Record → Record → Prop}

/-- Types in the relation `E`, or the same alias. -/
inductive Answer.Matches (E : Ty → Ty → Prop) : Answer → Answer → Prop
  | type {ty ty' : Ty} (h : E ty ty') : Matches E (.type ty) (.type ty')
  | alias (pointee : Target) (extra : Qualifiers) :
    Matches E (.alias pointee extra) (.alias pointee extra)

namespace Answer.Matches

variable {a a' : Answer} {ty : Ty} {pointee : Target} {extra : Qualifiers}

@[simp]
theorem type_iff : Matches E (.type ty) a' ↔ ∃ ty', a' = .type ty' ∧ E ty ty' := by
  constructor
  · rintro ⟨⟩
    exact ⟨_, rfl, ‹_›⟩
  · rintro ⟨ty', rfl, h⟩
    exact .type h

@[simp]
theorem alias_iff : Matches E (.alias pointee extra) a' ↔ a' = .alias pointee extra := by
  constructor
  · rintro ⟨⟩
    rfl
  · rintro rfl
    exact .alias pointee extra

theorem mono {E' : Ty → Ty → Prop} (h : a.Matches E a') (hE : ∀ {ty ty'}, E ty ty' → E' ty ty') :
    a.Matches E' a' := by
  cases h with
  | type h => exact .type (hE h)
  | «alias» pointee extra => exact .alias pointee extra

theorem flip (h : a.Matches E a') : a'.Matches (fun ty ty' => E ty' ty) a := by
  cases h with
  | type h => exact .type h
  | «alias» pointee extra => exact .alias pointee extra

end Answer.Matches

/-- Answers to the same targets, which match one by one. -/
def Answers.Match (E : Ty → Ty → Prop) (m m' : Answers) : Prop :=
  ∀ t, Option.Rel (Answer.Matches E) (m.get? t) (m'.get? t)

namespace Answers.Match

variable {m m' : Answers} {t : Target}

theorem typeOf? (h : m.Match E m') (t : Target) : Option.Rel E (m.typeOf? t) (m'.typeOf? t) := by
  refine (h t).bind fun hab => ?_
  cases hab with
  | type hE => exact .some hE
  | «alias» => exact .none

theorem mono {E' : Ty → Ty → Prop} (h : m.Match E m') (hE : ∀ {ty ty'}, E ty ty' → E' ty ty') :
    m.Match E' m' :=
  fun t => (h t).imp fun _ _ hab => hab.mono hE

/-- Answers that match by equality are the same. -/
theorem get?_eq (h : m.Match Eq m') (t : Target) : m'.get? t = m.get? t := by
  have hrel := h t
  cases ht : m.get? t with
  | none => rwa [ht, Option.rel_none_left] at hrel
  | some a =>
    rw [ht, Option.rel_some_left] at hrel
    obtain ⟨a', ha', hab⟩ := hrel
    cases hab with
    | type h => rw [ha', h]
    | «alias» => exact ha'

theorem contains (h : m.Match E m') (t : Target) : m'.contains t = m.contains t :=
  (h t).isSome_eq

theorem insert (h : m.Match E m') {a a' : Answer} (ha : a.Matches E a') (t : Target) :
    Match E (m.insert t a) (m'.insert t a') := by
  intro u
  rw [TargetMap.get?_insert, TargetMap.get?_insert]
  split
  · exact .some ha
  · exact h u

end Answers.Match

/-- Records in the relation `R` are related to the same targets, determine types in the relation
    `E`, and stay in `R` when they learn such types. -/
structure Record.Congruence (rel : Relation) (verdict? : Record → Option Ty)
    (E : Ty → Ty → Prop) (R : Record → Record → Prop) : Prop where
  targets : ∀ {r r'}, R r r' → (r'.targetsIn rel).keys = (r.targetsIn rel).keys
  verdict : ∀ {r r'}, R r r' → Option.Rel E (verdict? r) (verdict? r')
  relateType : ∀ {r r' ty ty'} (tops tops' : Qualifiers), R r r' → E ty ty' →
    R (r.relateType rel ty tops) (r'.relateType rel ty' tops')

namespace Solving

/-- Two runs over related records, with matching answers. -/
structure Matched (E : Ty → Ty → Prop) (R : Record → Record → Prop) (st st' : Solving) : Prop where
  targets : st'.store.targets = st.store.targets
  records : ∀ t, Option.Rel R (st.store.record? t) (st'.store.record? t)
  found : st.found.Match E st'.found

namespace Matched

variable {st st' : Solving} {established : Answers} {rel : Relation}
  {verdict? : Record → Option Ty} {t : Target}

theorem answer (h : Matched E R st st') {ty ty' : Ty} (hty : E ty ty') (t : Target) :
    Matched E R (st.answer t ty) (st'.answer t ty') :=
  ⟨h.targets, h.records, h.found.insert (.type hty) t⟩

section Learn

variable (hestablished : ∀ t ty, established.typeOf? t = some ty → E ty ty)

include hestablished in
theorem typeOf? (h : Matched E R st st') (t : Target) :
    Option.Rel E (st.typeOf? established t) (st'.typeOf? established t) :=
  (h.found.typeOf? t).or (.refl (hestablished t))

include hestablished in
theorem evidence (h : Matched E R st st') {related related' : OrderedMap Target Qualifiers}
    (hkeys : related'.keys = related.keys) : List.Forall₂ (fun e e' => E e.1 e'.1)
      (st.evidence established related) (st'.evidence established related') := by
  have hentries : List.Forall₂ (fun e e' : Target × Qualifiers => e'.1 = e.1) related.entries
      related'.entries := by
    have hsame : List.Forall₂ Eq (related'.entries.map Prod.fst) (related.entries.map Prod.fst) :=
      List.forall₂_eq_eq_eq.symm ▸ hkeys
    simpa using hsame.flip
  refine List.rel_filterMap (fun e e' he => ?_) hentries
  rw [he]
  exact (h.typeOf? hestablished e.1).map id

variable (hcongruence : Record.Congruence rel verdict? E R)

include hcongruence in
theorem relateTypes {r r' : Record} (hr : R r r') {types types' : List (Ty × Qualifiers)}
    (h : List.Forall₂ (fun e e' => E e.1 e'.1) types types') :
    R (r.relateTypes rel types) (r'.relateTypes rel types') := by
  induction h generalizing r r' with
  | nil => exact hr
  | cons he _ ih => exact ih (hcongruence.relateType _ _ hr he)

include hestablished hcongruence in
/-- The two learn related types. -/
theorem learn (h : Matched E R st st') (t : Target)
    {related : Record → OrderedMap Target Qualifiers}
    (hrelated : ∀ r, related r = r.targetsIn rel) :
    Matched E R (st.learn established t rel related) (st'.learn established t rel related) := by
  refine ⟨by simp only [targets_learn, h.targets], fun u => ?_, by simpa using h.found⟩
  rcases eq_or_ne u t with rfl | hut
  · rw [record?_learn_self, record?_learn_self]
    refine (h.records u).map fun {r r'} hr => relateTypes hcongruence hr ?_
    rw [hrelated, hrelated]
    exact h.evidence hestablished (hcongruence.targets hr)
  · rw [record?_learn_of_ne _ _ _ _ _ hut, record?_learn_of_ne _ _ _ _ _ hut]
    exact h.records u

end Learn

end Matched

end Solving

/-! ## Runs over bounds -/

namespace Bounds

open Solving

variable {b : Bounds} {established : Answers} {patience : Patience} {st st' : Solving}
  {ts : List Target}
  (hcongruence : Record.Congruence b.side.relation b.typeFor? E R)
  (hestablished : ∀ t ty, established.typeOf? t = some ty → E ty ty)

include hcongruence hestablished

theorem isReady_matched (h : Matched E R st st') (t : Target) :
    b.isReady established st' t = b.isReady established st t := by
  have hrel := h.records t
  cases hr : st.store.record? t with
  | none =>
    rw [hr, Option.rel_none_left] at hrel
    rw [isReady, isReady, hr, hrel]
  | some r =>
    rw [hr, Option.rel_some_left] at hrel
    obtain ⟨r', hr', hrr'⟩ := hrel
    rw [Bool.eq_iff_iff, isReady_iff hr, isReady_iff hr', hcongruence.targets hrr', h.targets]
    simp only [(h.typeOf? hestablished _).isSome_eq]

theorem informed_matched (h : Matched E R st st') (t : Target) :
    Matched E R (b.informed established st t) (b.informed established st' t) :=
  h.learn hestablished hcongruence t (targets_relations b.side)

theorem verdict?_matched (h : Matched E R st st') (t : Target) :
    Option.Rel E (b.verdict? established st t) (b.verdict? established st' t) :=
  ((informed_matched hcongruence hestablished h t).records t).bind hcongruence.verdict

theorem attempt_matched (h : Matched E R st st') (t : Target) :
    (b.attempt established patience st' t).2 = (b.attempt established patience st t).2 ∧
      Matched E R (b.attempt established patience st t).1
        (b.attempt established patience st' t).1 := by
  -- What decides between the ways through an attempt is the same in the two runs.
  have hskips : skips established st' t = skips established st t := by
    rw [skips, skips, h.found.contains]
  have hready := isReady_matched hcongruence hestablished h t
  have hinformed := informed_matched hcongruence hestablished h t
  have hverdict := verdict?_matched hcongruence hestablished h t
  rcases attempt_cases b established patience st t with
    ⟨hs | ⟨rfl, hr⟩, heq⟩ | ⟨hs, hr, ⟨hv, heq⟩ | ⟨ty, hv, heq⟩⟩
  · rw [heq, attempt_of_skips (hskips.trans hs)]
    exact ⟨rfl, h⟩
  · rw [heq, attempt_of_not_ready (hready.trans hr)]
    exact ⟨rfl, h⟩
  · rw [hv, Option.rel_none_left] at hverdict
    rw [heq, attempt_of_none (hskips.trans hs) (fun hp => hready.trans (hr hp)) hverdict]
    exact ⟨rfl, hinformed⟩
  · rw [hv, Option.rel_some_left] at hverdict
    obtain ⟨ty', hv', hE⟩ := hverdict
    rw [heq, attempt_of_some (hskips.trans hs) (fun hp => hready.trans (hr hp)) hv']
    exact ⟨rfl, hinformed.answer hE t⟩

theorem match_solve {s s' : Store} (htargets : s'.targets = s.targets)
    (hrecords : ∀ t, Option.Rel R (s.record? t) (s'.record? t)) :
    Answers.Match E (b.solve s established).2 (b.solve s' established).2 := by
  have hstart : Matched E R ⟨s, ∅⟩ ⟨s', ∅⟩ :=
    ⟨htargets, hrecords, fun t => .refl fun a ha =>
      absurd ha TargetMap.get?_empty_ne_some⟩
  rw [solve, solve, htargets]
  exact (rounds_sideBySide (C := fun _ => True) (fun _ _ _ => id)
    (fun _ _ _ t h _ => attempt_matched hcongruence hestablished h t) hstart trivial).found

end Bounds

/-! ## Collapse -/

namespace Answers.Match

variable {m m' : Answers} {t : Target} {ty : Ty}

theorem flip (h : m.Match E m') : m'.Match (fun ty ty' => E ty' ty) m :=
  fun t => (h t).flip.imp fun _ _ hab => hab.flip

theorem get?_eq_none (h : m.Match E m') (ht : m.get? t = none) : m'.get? t = none :=
  Option.rel_none_left.1 (ht ▸ h t)

theorem get?_eq_alias (h : m.Match E m') {pointee : Target} {extra : Qualifiers}
    (ht : m.get? t = some (.alias pointee extra)) : m'.get? t = some (.alias pointee extra) := by
  have hrel := h t
  simp only [ht, Option.rel_some_left, Answer.Matches.alias_iff, exists_eq_right] at hrel
  exact hrel

theorem get?_eq_type (h : m.Match E m') (ht : m.get? t = some (.type ty)) :
    ∃ ty', m'.get? t = some (.type ty') ∧ E ty ty' := by
  have hrel := h t
  rw [ht, Option.rel_some_left] at hrel
  obtain ⟨a', ha', hab⟩ := hrel
  obtain ⟨ty', rfl, hE⟩ := Answer.Matches.type_iff.1 hab
  exact ⟨ty', ha', hE⟩

/-- Chains through matching answers go over the same aliases. -/
theorem yields (h : m.Match E m')
    (hoverlay : ∀ ty ty' extra, E ty ty' → E (ty.overlay extra) (ty'.overlay extra))
    (ht : m.Yields t ty) : ∃ ty', m'.Yields t ty' ∧ E ty ty' := by
  induction ht with
  | type ht =>
    obtain ⟨ty', ht', hE⟩ := h.get?_eq_type ht
    exact ⟨ty', .type ht', hE⟩
  | @link t p extra below ht _ ih =>
    obtain ⟨below', hp', hE⟩ := ih
    exact ⟨_, .link (h.get?_eq_alias ht) hp', hoverlay _ _ _ hE⟩

theorem collapse (h : m.Match E m')
    (hoverlay : ∀ ty ty' extra, E ty ty' → E (ty.overlay extra) (ty'.overlay extra)) :
    Match E m.collapse m'.collapse := by
  intro t
  cases ht : m.collapse.get? t with
  | none =>
    have hnone := (fills_collapse m).get?_eq_none.1 ht
    rw [(fills_collapse m').get?_eq_none.2 (h.get?_eq_none hnone)]
    exact .none
  | some a =>
    cases a with
    | type ty =>
      obtain ⟨ty', hy', hE⟩ := h.yields hoverlay (typeOf?_collapse.1 (typeOf?_eq_some.2 ht))
      rw [typeOf?_eq_some.1 (typeOf?_collapse.2 hy')]
      exact .some (.type hE)
    | «alias» pointee extra =>
      -- It stays an alias as its chain leads to no type, so that of the other side does not.
      obtain ⟨halias, hno⟩ := get?_collapse_eq_alias.1 ht
      have hno' : ∀ ty', ¬m'.Yields t ty' := fun ty' hy' => by
        obtain ⟨ty, hy, -⟩ := h.flip.yields (fun _ _ _ => hoverlay _ _ _) hy'
        exact hno ty hy
      rw [get?_collapse_eq_alias.2 ⟨h.get?_eq_alias halias, hno'⟩]
      exact .some (.alias pointee extra)

end Answers.Match

/-! ## Runs over equalities -/

namespace Equalities

open Solving

variable {established : Answers} {st st' : Solving} {ts : List Target}
  (hcongruence : Record.Congruence .equal equalType? E R)
  (hestablished : ∀ t ty, established.typeOf? t = some ty → E ty ty)

section

include hcongruence hestablished

theorem attempt_matched (h : Matched E R st st') (t : Target) :
    (attempt established st' t).2 = (attempt established st t).2 ∧
      Matched E R (attempt established st t).1 (attempt established st' t).1 := by
  have hskips : skips established st' t = skips established st t := by
    rw [skips, skips, (h.found.typeOf? t).isSome_eq]
  have hinformed : Matched E R (informed established st t) (informed established st' t) :=
    h.learn hestablished hcongruence t fun _ => rfl
  have hverdict : Option.Rel E (verdict? established st t) (verdict? established st' t) :=
    (hinformed.records t).bind hcongruence.verdict
  cases hs : skips established st t with
  | true =>
    rw [attempt_of_skips hs, attempt_of_skips (hskips.trans hs)]
    exact ⟨rfl, h⟩
  | false =>
    rw [attempt_of_tried hs, attempt_of_tried (hskips.trans hs)]
    cases hv : verdict? established st t with
    | none =>
      rw [hv, Option.rel_none_left] at hverdict
      rw [hverdict]
      exact ⟨rfl, hinformed⟩
    | some ty =>
      rw [hv, Option.rel_some_left] at hverdict
      obtain ⟨ty', hv', hE⟩ := hverdict
      rw [hv']
      exact ⟨rfl, hinformed.answer hE t⟩

theorem spread_matched (h : Matched E R st st') :
    Matched E R (spread established ts st) (spread established ts st') := by
  have hsweep : ∀ {st st'}, Matched E R st st' →
      (sweep (attempt established) ts st').2 = (sweep (attempt established) ts st).2 ∧
        Matched E R (sweep (attempt established) ts st).1 (sweep (attempt established) ts st').1 :=
    fun h => sweep_sideBySide (C := fun _ => True) (fun _ _ => id)
      (fun _ _ t h _ => attempt_matched hcongruence hestablished h t) h trivial
  -- On the sweeps of the first run. The second one stops with it, since the flags are the same.
  induction st using spread.induct established ts generalizing st' with
  | case1 st next heq ih =>
    have hflag : (sweep (attempt established) ts st).2 = true := by rw [heq]
    obtain ⟨hsame, hnext⟩ := hsweep h
    rw [spread_of_answered hflag, spread_of_answered (hsame.trans hflag)]
    simp only [heq] at hnext ⊢
    exact ih hnext
  | case2 st _ heq =>
    have hflag : (sweep (attempt established) ts st).2 = false := by rw [heq]
    rw [spread_of_idle hflag, spread_of_idle ((hsweep h).1.trans hflag)]
    exact h

end

variable (hexact : ∀ {r r'}, R r r' → r'.equalities.exact = r.equalities.exact)

include hcongruence hexact in
theorem addAlias_matched (h : Matched E R st st') (t : Target) :
    Matched E R (addAlias established st t) (addAlias established st' t) := by
  have hcontains : ∀ u, st'.store.contains u = st.store.contains u := fun u => by
    rw [Bool.eq_iff_iff, Store.contains_iff, Store.contains_iff, h.targets]
  have hrel := h.records t
  unfold addAlias
  rw [h.found.contains]
  split
  · exact h
  · cases hr : st.store.record? t with
    | none =>
      rw [hr, Option.rel_none_left] at hrel
      rw [hrel]
      exact h
    | some r =>
      rw [hr, Option.rel_some_left] at hrel
      obtain ⟨r', hr', hrr'⟩ := hrel
      have hkeys : r'.equalities.targets.keys = r.equalities.targets.keys :=
        hcongruence.targets hrr'
      simp only [hr', hcontains, hkeys, hexact hrr']
      split
      · exact h
      · exact ⟨h.targets, h.records, h.found.insert (.alias ..) t⟩

include hcongruence hestablished hexact in
theorem match_solve
    (hoverlay : ∀ ty ty' extra, E ty ty' → E (ty.overlay extra) (ty'.overlay extra))
    {s s' : Store} (htargets : s'.targets = s.targets)
    (hrecords : ∀ t, Option.Rel R (s.record? t) (s'.record? t)) :
    Answers.Match E (solve s established).2 (solve s' established).2 := by
  have hstart : Matched E R ⟨s, ∅⟩ ⟨s', ∅⟩ :=
    ⟨htargets, hrecords, fun t => .refl fun a ha =>
      absurd ha TargetMap.get?_empty_ne_some⟩
  have hspread : Matched E R (spread established s.targets ⟨s, ∅⟩)
      (spread established s.targets ⟨s', ∅⟩) := spread_matched hcongruence hestablished hstart
  have haliases : Matched E R
      (s.targets.foldl (addAlias established) (spread established s.targets ⟨s, ∅⟩))
      (s.targets.foldl (addAlias established) (spread established s.targets ⟨s', ∅⟩)) :=
    List.foldl_rel hspread fun t _ _ _ h => addAlias_matched hcongruence hexact h t
  rw [solve, solve, htargets]
  exact haliases.found.collapse hoverlay

end Equalities

end QualifiedInference
