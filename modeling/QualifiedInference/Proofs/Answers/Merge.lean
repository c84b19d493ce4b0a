-- SUMMARY: Merging without failure: which keys and which types of the two sides stay.
import QualifiedInference.Proofs.Answers.Descent
/-!
# What a merge keeps and adds

A merge never fails: it makes one descent from each target of the receiver, adopts the other
targets of the subordinate and collapses what came of it (`merge_eq`). `merge_keeps` says what
becomes of the keys and of the types of both.
-/

namespace QualifiedInference

namespace Answers

/-! ## Descents from all targets -/

/-- One descent from each target of a list, in order. -/
inductive DescendsAll (s : Answers) : List Target → Answers → Answers → Prop
  | nil (r : Answers) : DescendsAll s [] r r
  | cons {t : Target} {ts : List Target} {found? : Option Ty} {r r' r'' : Answers} :
    Descends s r [] t found? r' → DescendsAll s ts r' r'' → DescendsAll s (t :: ts) r r''

namespace DescendsAll

variable {s r r' : Answers} {ts : List Target}

theorem fills (h : DescendsAll s ts r r') : Fills r r' := by
  induction h with
  | nil r => exact .refl r
  | cons hdesc _ ih => exact hdesc.fills.trans ih

theorem isSome_typeOf? (h : DescendsAll s ts r r') {t : Target} (ht : t ∈ ts) (hmem : t ∈ r)
    (hs : (s.typeOf? t).isSome) : (r'.typeOf? t).isSome := by
  induction h with
  | nil => cases ht
  | @cons u ts found? r₁ r₂ r₃ hdesc hall ih =>
    cases ht with
    | head => exact hall.fills.isSome (hdesc.isSome_typeOf? hmem hs)
    | tail _ ht => exact ih ht (hdesc.fills.mem_iff.2 hmem)

theorem unique {r'' : Answers} (h : DescendsAll s ts r r') (h' : DescendsAll s ts r r'') :
    r' = r'' := by
  induction h with
  | nil r => cases h'; rfl
  | cons hdesc _ ih =>
    cases h' with
    | cons hdesc' hall' =>
      obtain ⟨-, rfl⟩ := hdesc.unique hdesc'
      exact ih hall'

theorem append_iff {ts' : List Target} : DescendsAll s (ts ++ ts') r r' ↔
    ∃ mid, DescendsAll s ts r mid ∧ DescendsAll s ts' mid r' := by
  constructor
  · intro h
    induction ts generalizing r with
    | nil => exact ⟨r, .nil r, h⟩
    | cons t ts ih =>
      cases h with
      | cons hdesc hall =>
        obtain ⟨mid, hmid, hrest⟩ := ih hall
        exact ⟨mid, .cons hdesc hmid, hrest⟩
  · rintro ⟨mid, hmid, hrest⟩
    induction hmid with
    | nil r => exact hrest
    | cons hdesc _ ih => exact .cons hdesc (ih hrest)

/-- The descent that gives an alias its type. -/
theorem exists_step {v p : Target} {extra : Qualifiers} {ty : Ty} (h : DescendsAll s ts r r')
    (hv : r.get? v = some (.alias p extra)) (hr' : r'.typeOf? v = some ty) :
    ∃ before u after r₁ found? r₂, ts = before ++ u :: after ∧ DescendsAll s before r r₁ ∧
      r₁.get? v = some (.alias p extra) ∧ Descends s r₁ [] u found? r₂ ∧
      r₂.typeOf? v = some ty ∧ Fills r₂ r' := by
  -- On the descents, up to the first one after which the alias is a type.
  induction h with
  | nil => rw [typeOf?_of_get?_alias hv] at hr'; cases hr'
  | @cons u ts found? r r₁ r' hdesc hall ih =>
    rcases hdesc.fills.alias_or_type hv with hv' | ⟨ty', hty'⟩
    · obtain ⟨before, u', after, r₂, found?', r₃, rfl, hbefore, hstep⟩ := ih hv' hr'
      exact ⟨u :: before, u', after, r₂, found?', r₃, rfl, .cons hdesc hbefore, hstep⟩
    · have hsame := hall.fills.types (typeOf?_eq_some.2 hty')
      simp only [hr'] at hsame
      cases hsame
      exact ⟨[], u, ts, r, found?, r₁, rfl, .nil r, hv, hdesc, typeOf?_eq_some.2 hty',
        hall.fills⟩

end DescendsAll

theorem mergeTarget_eq (s r : Answers) (t : Target) : ∃ found? r', Descends s r [] t found? r' ∧
    mergeTarget s (r, .new .aliasChain) t = .ok (r', .new .aliasChain) := by
  obtain ⟨d, hd, hdesc, hbal⟩ := descend_eq s r (.new .aliasChain) t Guard.straight_new
  refine ⟨d.found?, d.answers, hdesc, ?_⟩
  unfold mergeTarget
  rw [hd]
  show Except.ok (d.answers, d.guard.reset) = _
  simp only [Guard.reset, hbal.limits]
  rfl

theorem foldlM_mergeTarget_eq (s : Answers) (ts : List Target) (r : Answers) :
    ∃ r', DescendsAll s ts r r' ∧
      ts.foldlM (mergeTarget s) (r, .new .aliasChain) = .ok (r', .new .aliasChain) := by
  induction ts generalizing r with
  | nil => exact ⟨r, .nil r, rfl⟩
  | cons t ts ih =>
    obtain ⟨found?, r', hdesc, hstep⟩ := mergeTarget_eq s r t
    obtain ⟨r'', hall, hrest⟩ := ih r'
    refine ⟨r'', .cons hdesc hall, ?_⟩
    rw [List.foldlM_cons, hstep]
    exact hrest

theorem foldlM_mergeTarget_iff {s r r' : Answers} {ts : List Target} {g : Guard Target} :
    ts.foldlM (mergeTarget s) (r, .new .aliasChain) = .ok (r', g) ↔
      DescendsAll s ts r r' ∧ g = .new .aliasChain := by
  obtain ⟨r'', hall, hfold⟩ := foldlM_mergeTarget_eq s ts r
  rw [hfold]
  constructor
  · intro h
    cases h
    exact ⟨hall, rfl⟩
  · rintro ⟨hall', rfl⟩
    rw [hall.unique hall']

theorem merge_eq (r s : Answers) :
    ∃ filled, DescendsAll s r.keys r filled ∧ r.merge s = .ok (filled.adopt s).collapse := by
  obtain ⟨filled, hall, hfold⟩ := foldlM_mergeTarget_eq s r.keys r
  refine ⟨filled, hall, ?_⟩
  unfold merge
  rw [hfold]
  rfl

/-! ## Adoption -/

theorem get?_insertIfNew (r : Answers) (t u : Target) (a : Answer) :
    (r.insertIfNew t a).get? u = if u = t then (r.get? t).or (some a) else r.get? u := by
  unfold TargetMap.insertIfNew
  simp only [TargetMap.get?_upsert]
  split
  · cases r.get? t <;> rfl
  · rfl

theorem keys_insertIfNew (r : Answers) (t : Target) (a : Answer) :
    (r.insertIfNew t a).keys = if t ∈ r then r.keys else r.keys ++ [t] :=
  r.keys_upsert t fun old => old.getD a

theorem foldl_insertIfNew (r : Answers) (es : List (Target × Answer))
    (hes : (es.map Prod.fst).Nodup) :
    (es.foldl (fun r e => r.insertIfNew e.1 e.2) r).keys =
        r.keys ++ (es.map Prod.fst).filter (· ∉ r) ∧
      ∀ t, (es.foldl (fun r e => r.insertIfNew e.1 e.2) r).get? t =
        (r.get? t).or (OrderedMap.valueIn? t es) := by
  induction es generalizing r with
  | nil => simp [OrderedMap.valueIn?]
  | cons e rest ih =>
    obtain ⟨u, a⟩ := e
    simp only [List.map_cons, List.nodup_cons] at hes
    obtain ⟨hkeys, hget⟩ := ih (r.insertIfNew u a) hes.2
    simp only [List.foldl_cons]
    constructor
    · have hmem : ∀ v ∈ rest.map Prod.fst, v ∈ r.insertIfNew u a ↔ v ∈ r := by
        intro v hv
        have hvu : v ≠ u := fun h => hes.1 (h ▸ hv)
        rw [← TargetMap.isSome_get?, ← TargetMap.isSome_get?, get?_insertIfNew, if_neg hvu]
      have hfilter : (rest.map Prod.fst).filter (fun v => decide (v ∉ r.insertIfNew u a)) =
          (rest.map Prod.fst).filter (fun v => decide (v ∉ r)) :=
        List.filter_congr fun v hv => by rw [decide_eq_decide, hmem v hv]
      rw [hkeys, hfilter, keys_insertIfNew, List.map_cons]
      by_cases hu : u ∈ r <;> simp [hu]
    · intro t
      rw [hget, get?_insertIfNew]
      by_cases htu : t = u
      · subst htu
        cases r.get? t <;> simp [OrderedMap.valueIn?]
      · simp [OrderedMap.valueIn?, htu, Ne.symm htu]

theorem keys_adopt (r s : Answers) : (r.adopt s).keys = r.keys ++ s.keys.filter (· ∉ r) :=
  (foldl_insertIfNew r s.entries s.nodup_keys).1

theorem get?_adopt (r s : Answers) (t : Target) :
    (r.adopt s).get? t = (r.get? t).or (s.get? t) := by
  rw [← s.get?_toOrdered]
  exact (foldl_insertIfNew r s.entries s.nodup_keys).2 t

theorem typeOf?_adopt_of_receiver {r : Answers} (s : Answers) {t : Target} {ty : Ty}
    (h : r.typeOf? t = some ty) : (r.adopt s).typeOf? t = some ty := by
  simp only [typeOf?_eq_some] at h ⊢
  rw [get?_adopt, h]
  rfl

theorem typeOf?_adopt_of_absent {r s : Answers} {t : Target} {ty : Ty} (h : r.get? t = none)
    (hs : s.typeOf? t = some ty) : (r.adopt s).typeOf? t = some ty := by
  simp only [typeOf?_eq_some] at hs ⊢
  rw [get?_adopt, h, hs]
  rfl

/-! ## Nothing is lost or overridden -/

/-- A type stays through the adoption and the collapse at the end of a merge. -/
theorem typeOf?_collapse_adopt {filled : Answers} (s : Answers) {t : Target} {ty : Ty}
    (h : filled.typeOf? t = some ty) : (filled.adopt s).collapse.typeOf? t = some ty :=
  (fills_collapse _).types (typeOf?_adopt_of_receiver s h)

theorem typeOf?_merge {r s m : Answers} (hm : r.merge s = .ok m) {t : Target} {ty : Ty}
    (h : r.typeOf? t = some ty) : m.typeOf? t = some ty := by
  obtain ⟨filled, hall, hmerge⟩ := merge_eq r s
  simp only [hmerge] at hm
  cases hm
  exact typeOf?_collapse_adopt s (hall.fills.types h)

theorem DescendsAll.typeOf?_merge_of_absent {r s filled : Answers} {t : Target} {ty : Ty}
    (h : DescendsAll s r.keys r filled) (hr : r.get? t = none) (hs : s.typeOf? t = some ty) :
    (filled.adopt s).collapse.typeOf? t = some ty :=
  (fills_collapse _).types (typeOf?_adopt_of_absent (h.fills.get?_eq_none.2 hr) hs)

theorem DescendsAll.isSome_typeOf?_merge {r s filled : Answers} {t : Target}
    (h : DescendsAll s r.keys r filled) (hs : (s.typeOf? t).isSome) :
    ((filled.adopt s).collapse.typeOf? t).isSome := by
  obtain ⟨ty, hty⟩ := Option.isSome_iff_exists.1 hs
  by_cases hmem : t ∈ r
  · obtain ⟨ty', hty'⟩ := Option.isSome_iff_exists.1 (h.isSome_typeOf? hmem hmem hs)
    rw [typeOf?_collapse_adopt s hty']
    rfl
  · rw [h.typeOf?_merge_of_absent (TargetMap.get?_eq_none_iff.2 hmem) hty]
    rfl

theorem DescendsAll.isFinal_merge {r s filled : Answers} {t : Target}
    (h : DescendsAll s r.keys r filled) (hs : s.isFinal t)
    (hr : ∀ own, r.typeOf? t = some own → own.isNull = false) :
    (filled.adopt s).collapse.isFinal t := by
  obtain ⟨ty, hty, hnull⟩ := isFinal_iff.1 hs
  simp only [isFinal_iff]
  cases hget : r.get? t with
  | none => exact ⟨ty, h.typeOf?_merge_of_absent hget hty, hnull⟩
  | some a =>
    cases a with
    | type own =>
      have hown := typeOf?_eq_some.2 hget
      exact ⟨own, typeOf?_collapse_adopt s (h.fills.types hown), hr own hown⟩
    | «alias» p extra =>
      have hmem := TargetMap.mem_of_get? hget
      obtain ⟨ty', hty'⟩ := Option.isSome_iff_exists.1 (h.isSome_typeOf? hmem hmem (hty ▸ rfl))
      refine ⟨ty', typeOf?_collapse_adopt s hty', ?_⟩
      obtain ⟨_, u, _, r₁, found?, r₂, -, -, hv, hdesc, hr₂, -⟩ := h.exists_step hget hty'
      exact hdesc.isNull_eq_false (typeOf?_of_get?_alias hv) hr₂ hty hnull

theorem DescendsAll.typeOf?_of_absent_pointee {r s filled : Answers} {t p : Target}
    {extra : Qualifiers} {ty : Ty} (h : DescendsAll s r.keys r filled)
    (ht : r.get? t = some (.alias p extra)) (hp : p ∉ r) (hs : s.typeOf? t = some ty) :
    filled.typeOf? t = some ty := by
  have hmem := TargetMap.mem_of_get? ht
  obtain ⟨ty', hty'⟩ := Option.isSome_iff_exists.1 (h.isSome_typeOf? hmem hmem (hs ▸ rfl))
  obtain ⟨_, u, _, r₁, found?, r₂, -, hbefore, hv, hdesc, hr₂, -⟩ := h.exists_step ht hty'
  have hnone : r₁.get? p = none :=
    hbefore.fills.get?_eq_none.2 (TargetMap.get?_eq_none_iff.2 hp)
  rw [hty', ← hdesc.typeOf?_of_absent hv hnone hr₂, hs]

/-- A merge loses nothing of either side and overrides nothing of the receiver. -/
theorem merge_keeps (r s : Answers) : ∃ m, r.merge s = .ok m ∧
    m.keys = r.keys ++ s.keys.filter (· ∉ r) ∧
    (∀ t ty, r.typeOf? t = some ty → m.typeOf? t = some ty) ∧
    (∀ t, (s.typeOf? t).isSome → (m.typeOf? t).isSome) ∧
    (∀ t, s.isFinal t → (∀ own, r.typeOf? t = some own → own.isNull = false) → m.isFinal t) ∧
    (∀ t p extra ty, r.get? t = some (.alias p extra) → p ∉ r → s.typeOf? t = some ty →
      m.typeOf? t = some ty) := by
  obtain ⟨filled, hall, hmerge⟩ := merge_eq r s
  refine ⟨_, hmerge, ?_, ?_, ?_, ?_, ?_⟩
  · rw [(fills_collapse _).keys, keys_adopt, hall.fills.keys]
    congr 1
    apply List.filter_congr
    intro t _
    simp only [hall.fills.mem_iff]
  · intro t ty ht
    exact typeOf?_collapse_adopt s (hall.fills.types ht)
  · intro t ht
    exact hall.isSome_typeOf?_merge ht
  · intro t ht hr
    exact hall.isFinal_merge ht hr
  · intro t p extra ty ht hp hs
    exact typeOf?_collapse_adopt s (hall.typeOf?_of_absent_pointee ht hp hs)

end Answers

end QualifiedInference
