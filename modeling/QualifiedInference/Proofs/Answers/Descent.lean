-- SUMMARY: Rules for the descents of a merge, and their agreement with guarded descents.
import QualifiedInference.Answers.Merge
import QualifiedInference.Proofs.Answers.Collapse
import QualifiedInference.Proofs.Guard
/-!
# Descents along alias chains

`Descends` gives the rules by which a merge follows one chain, with the path of targets being
visited in the place of the guard. `descend_eq` says that under a straight guard a descent always
succeeds, goes by the rules, and brings the guard back to where it was.
-/

namespace QualifiedInference

namespace Answers

open Guard

/-- The type that a target takes from the end of its chain: the type `ty` found there, or, where
    that is the null type and `s` has a type for the target, that type under the qualifiers of
    the null type. -/
def handed (s : Answers) (t : Target) (ty : Ty) : Ty :=
  match s.typeOf? t with
  | none => ty
  | some other => if ty.isNull then other.overlay ty.qualifiers else ty

/-- The answers in which `t` has the type, if there is one. -/
def take (r : Answers) (t : Target) : Option Ty → Answers
  | none => r
  | some ty => r.insert t (.type ty)

/-- From the answers before, below the targets of `path`, from a target to the type found at the
    end of its chain and the answers afterwards. -/
inductive Descends (s : Answers) (r : Answers) :
    List Target → Target → Option Ty → Answers → Prop
  | absent {path : List Target} {t : Target} : r.get? t = none → Descends s r path t none r
  | type {path : List Target} {t : Target} {ty : Ty} :
    r.get? t = some (.type ty) → Descends s r path t (some ty) r
  | refused {path : List Target} {t p : Target} {extra : Qualifiers} :
    r.get? t = some (.alias p extra) → t ∈ path ∨ maxDepth ≤ path.length →
    Descends s r path t none (r.take t (s.typeOf? t))
  | lost {path : List Target} {t p : Target} {extra : Qualifiers} {below : Answers} :
    r.get? t = some (.alias p extra) → t ∉ path → path.length < maxDepth →
    Descends s r (t :: path) p none below →
    Descends s r path t none (below.take t (s.typeOf? t))
  | found {path : List Target} {t p : Target} {extra : Qualifiers} {ty : Ty} {below : Answers} :
    r.get? t = some (.alias p extra) → t ∉ path → path.length < maxDepth →
    Descends s r (t :: path) p (some ty) below →
    Descends s r path t (some (s.handed t ty)) (below.insert t (.type (s.handed t ty)))

theorem settle_none (s : Answers) (t : Target) (r : Answers) (g : Guard Target) :
    settle s t none r g = ⟨none, r.take t (s.typeOf? t), g⟩ := by
  unfold settle take
  cases s.typeOf? t <;> rfl

theorem settle_some (s : Answers) (t : Target) (ty : Ty) (r : Answers) (g : Guard Target) :
    settle s t (some ty) r g = ⟨some (s.handed t ty), r.insert t (.type (s.handed t ty)), g⟩ := by
  unfold settle handed
  cases s.typeOf? t <;> rfl

theorem guard_settle (s : Answers) (t : Target) (found? : Option Ty) (r : Answers)
    (g : Guard Target) : (settle s t found? r g).guard = g := by
  cases found? with
  | none => rw [settle_none]
  | some ty => rw [settle_some]

/-- A target that the guard lets in is settled with what is found below it. -/
theorem Descends.settle {s r below : Answers} {path : List Target} {t p : Target}
    {extra : Qualifiers} {found? : Option Ty} (h : Descends s r (t :: path) p found? below)
    (ht : r.get? t = some (.alias p extra)) (hnew : t ∉ path) (hlt : path.length < maxDepth)
    (g : Guard Target) : Descends s r path t (settle s t found? below g).found?
      (settle s t found? below g).answers := by
  cases found? with
  | none =>
    rw [settle_none]
    exact .lost ht hnew hlt h
  | some ty =>
    rw [settle_some]
    exact .found ht hnew hlt h

theorem descend_absent (s : Answers) {r : Answers} (g : Guard Target) {t : Target}
    (ht : r.get? t = none) : descend s r g t = .ok ⟨none, r, g⟩ := by
  unfold descend
  split <;> simp_all

theorem descend_type (s : Answers) {r : Answers} (g : Guard Target) {t : Target} {ty : Ty}
    (ht : r.get? t = some (.type ty)) : descend s r g t = .ok ⟨some ty, r, g⟩ := by
  unfold descend
  split <;> simp_all

theorem descend_refused {s r : Answers} {g : Guard Target} {t p : Target} {extra : Qualifiers}
    (ht : r.get? t = some (.alias p extra)) (he : (g.enter t).1 ≠ .entered) :
    descend s r g t = .ok ⟨none, r.take t (s.typeOf? t), (g.enter t).2⟩ := by
  unfold descend
  split
  · next h => rw [ht] at h; cases h
  · next h => rw [ht] at h; cases h
  · split
    · next h => exact absurd (congrArg Prod.fst h) he
    · next h => rw [settle_none, h]

theorem descend_entered {s r : Answers} {g inside : Guard Target} {t p : Target}
    {extra : Qualifiers} (ht : r.get? t = some (.alias p extra))
    (he : g.enter t = (.entered, inside)) :
    descend s r g t = do
      let below ← descend s r inside p
      let outside ← below.guard.leave t
      return settle s t below.found? below.answers outside := by
  rw [descend]
  split
  · next h => rw [ht] at h; cases h
  · next h => rw [ht] at h; cases h
  · next h =>
    simp only [ht] at h
    cases h
    split
    · next h =>
      simp only [he] at h
      cases h
      rfl
    · next hne h =>
      simp only [he] at h
      cases h
      exact absurd rfl hne

theorem descend_eq (s r : Answers) (g : Guard Target) (t : Target) (hg : g.Straight) :
    ∃ d, descend s r g t = .ok d ∧ Descends s r g.visiting t d.found? d.answers ∧
      Balanced g d.guard := by
  -- Along the recursion of `descend`; the targets that the guard visits are the path.
  induction g, t using descend.induct r with
  | case1 g t ht => exact ⟨_, descend_absent s g ht, .absent ht, .refl g⟩
  | case2 g t ty ht => exact ⟨_, descend_type s g ht, .type ht, .refl g⟩
  | case3 g t p extra ht inside he ih =>
    obtain ⟨hnew, hlt⟩ := hg.of_entered he
    obtain ⟨inside', he', hstraight, hvisiting, hdepth⟩ := hg.enter_entered hnew hlt
    simp only [he] at he'
    cases he'
    obtain ⟨below, hbelow, hdesc, hbal⟩ := ih hstraight
    simp only [hvisiting] at hdesc
    have hlimits : inside.limits = g.limits := hstraight.limits.trans hg.limits.symm
    obtain ⟨outside, hleave, hout⟩ := hbal.leave hg hlt hlimits hvisiting hdepth
    have hdescend : descend s r g t = .ok (settle s t below.found? below.answers outside) := by
      rw [descend_entered ht he, hbelow]
      show (below.guard.leave t >>= _) = _
      rw [hleave]
      rfl
    refine ⟨_, hdescend, hdesc.settle ht hnew hlt outside, ?_⟩
    rw [guard_settle]
    exact hout
  | case4 g t p extra ht a g' hne he =>
    have hrefused : (g.enter t).1 ≠ .entered := fun h => hne (by simpa only [he] using h)
    have hcause := hg.of_refused hrefused
    exact ⟨_, descend_refused ht hrefused, .refused ht hcause, (hg.enter_refused hcause).2⟩

/-! ## What a descent writes -/

theorem typeOf?_take (r : Answers) (t u : Target) (ty? : Option Ty) :
    (r.take t ty?).typeOf? u = if u = t then ty?.or (r.typeOf? u) else r.typeOf? u := by
  cases ty? with
  | none => simp [take]
  | some ty => simp [take, typeOf?_insert]

theorem isNull_overlay (ty : Ty) (qs : Qualifiers) : (ty.overlay qs).isNull = ty.isNull := by
  cases ty <;> rfl

theorem handed_of_none {s : Answers} {t : Target} (h : s.typeOf? t = none) (ty : Ty) :
    s.handed t ty = ty := by
  simp [handed, h]

namespace Descends

variable {s r r' : Answers} {path : List Target} {t : Target} {found? : Option Ty}

/-- A type that a descent puts at a target it has come from is the one that `s` has for it, and
    then the chain is a cycle and the descent finds nothing. -/
theorem of_mem_path (h : Descends s r path t found? r') {v : Target} {ty : Ty} (hv : v ∈ path)
    (hr : r.typeOf? v = none) (hr' : r'.typeOf? v = some ty) :
    found? = none ∧ s.typeOf? v = some ty := by
  induction h with
  | absent _ => rw [hr] at hr'; cases hr'
  | type _ => rw [hr] at hr'; cases hr'
  | @refused path t p extra ht _ =>
    simp only [typeOf?_take] at hr'
    by_cases hvt : v = t
    · subst hvt
      simpa [hr] using hr'
    · simp only [if_neg hvt, hr] at hr'
      cases hr'
  | @lost path t p extra below ht hnew _ _ ih =>
    have hvt : v ≠ t := fun h => hnew (h ▸ hv)
    simp only [typeOf?_take, if_neg hvt] at hr'
    exact ih (.tail _ hv) hr'
  | @found path t p extra ty' below ht hnew _ _ ih =>
    have hvt : v ≠ t := fun h => hnew (h ▸ hv)
    simp only [typeOf?_insert, if_neg hvt] at hr'
    cases (ih (.tail _ hv) hr').1

theorem fills_lost {t p : Target} {extra : Qualifiers} {below : Answers}
    (ht : r.get? t = some (.alias p extra)) (h : Descends s r (t :: path) p none below)
    (hkeys : below.keys = r.keys) : Fills below (below.take t (s.typeOf? t)) := by
  cases hs : s.typeOf? t with
  | none => exact .refl below
  | some ty =>
    apply Fills.insert (hkeys ▸ TargetMap.mem_of_get? ht : t ∈ below.keys)
    intro old hold
    have hst := (h.of_mem_path (.head _) (typeOf?_of_get?_alias ht) hold).2
    simp only [hs] at hst
    cases hst
    rfl

theorem fills_found {t p : Target} {extra : Qualifiers} {ty ty' : Ty} {below : Answers}
    (ht : r.get? t = some (.alias p extra)) (h : Descends s r (t :: path) p (some ty) below)
    (hkeys : below.keys = r.keys) : Fills below (below.insert t (.type ty')) := by
  apply Fills.insert (hkeys ▸ TargetMap.mem_of_get? ht : t ∈ below.keys)
  intro old hold
  cases (h.of_mem_path (.head _) (typeOf?_of_get?_alias ht) hold).1

theorem fills (h : Descends s r path t found? r') : Fills r r' := by
  induction h with
  | absent _ => exact .refl r
  | type _ => exact .refl r
  | refused ht _ =>
    cases s.typeOf? _ with
    | none => exact .refl r
    | some ty => exact .insert_of_alias ht
  | @lost path t p extra below ht _ _ hbelow ih => exact ih.trans (fills_lost ht hbelow ih.keys)
  | @found path t p extra ty below ht _ _ hbelow ih =>
    exact ih.trans (fills_found ht hbelow ih.keys)

/-- The target has the type that is handed up. -/
theorem typeOf?_self {ty : Ty} (h : Descends s r path t (some ty) r') :
    r'.typeOf? t = some ty := by
  cases h with
  | type ht => exact typeOf?_eq_some.2 ht
  | found _ _ _ _ => rw [typeOf?_insert, if_pos rfl]

/-- A target that `s` has a type for has a type after the descent from it. -/
theorem isSome_typeOf? (h : Descends s r path t found? r') (hmem : t ∈ r)
    (hs : (s.typeOf? t).isSome) : (r'.typeOf? t).isSome := by
  obtain ⟨ty, hty⟩ := Option.isSome_iff_exists.1 hs
  cases h with
  | absent ht => exact absurd hmem (TargetMap.get?_eq_none_iff.1 ht)
  | type ht => rw [typeOf?_eq_some.2 ht]; rfl
  | refused _ _ => rw [typeOf?_take, if_pos rfl, hty]; rfl
  | lost _ _ _ _ => rw [typeOf?_take, if_pos rfl, hty]; rfl
  | found _ _ _ _ => rw [typeOf?_insert, if_pos rfl]; rfl

/-- Where the type of a target comes from that has one only since the descent: the target is on
    the chain, and the type is the one that `s` has for it, if the descent finds nothing, or the
    one found at the end. -/
theorem origin (h : Descends s r path t found? r') {v : Target} {ty : Ty}
    (hr : r.typeOf? v = none) (hr' : r'.typeOf? v = some ty) :
    ∃ n, Leads r n t v ∧ (found? = none ∧ s.typeOf? v = some ty ∨
      found?.isSome ∧ ∃ p extra path' end_ below, path'.length = path.length + n ∧
        path'.length < maxDepth ∧ r.get? v = some (.alias p extra) ∧
        Descends s r (v :: path') p (some end_) below ∧ Fills below r' ∧
        ty = s.handed v end_) := by
  induction h with
  | absent _ => rw [hr] at hr'; cases hr'
  | type _ => rw [hr] at hr'; cases hr'
  | @refused path t p extra ht _ =>
    simp only [typeOf?_take] at hr'
    by_cases hvt : v = t
    · subst hvt
      exact ⟨0, .refl v, Or.inl ⟨rfl, by simpa [hr] using hr'⟩⟩
    · simp only [if_neg hvt, hr] at hr'
      cases hr'
  | @lost path t p extra below ht _ _ hbelow ih =>
    simp only [typeOf?_take] at hr'
    by_cases hvt : v = t
    · subst hvt
      refine ⟨0, .refl v, Or.inl ⟨rfl, ?_⟩⟩
      cases hs : s.typeOf? v with
      | none =>
        simp only [hs] at hr'
        exact hs ▸ (hbelow.of_mem_path (.head _) hr (by simpa using hr')).2
      | some ty' => simpa [hs] using hr'
    · simp only [if_neg hvt] at hr'
      obtain ⟨n, hn, hcause⟩ := ih hr'
      refine ⟨n + 1, .link ht hn, Or.inl (hcause.resolve_right ?_)⟩
      rintro ⟨hfound, -⟩
      cases hfound
  | @found path t p extra end_ below ht _ hlt hbelow ih =>
    have hstep : Fills below (below.insert t (.type (s.handed t end_))) :=
      fills_found ht hbelow hbelow.fills.keys
    simp only [typeOf?_insert] at hr'
    by_cases hvt : v = t
    · subst hvt
      rw [if_pos rfl] at hr'
      cases hr'
      exact ⟨0, .refl v,
        Or.inr ⟨rfl, p, extra, path, end_, below, rfl, hlt, ht, hbelow, hstep, rfl⟩⟩
    · simp only [if_neg hvt] at hr'
      obtain ⟨n, hn, hcause⟩ := ih hr'
      obtain ⟨-, p', extra', path', end', below', hlen, hlt', hv, hdesc, hfills, hty⟩ :=
        hcause.resolve_left nofun
      refine ⟨n + 1, .link ht hn, Or.inr ⟨rfl, p', extra', path', end', below', ?_, hlt', hv, hdesc,
        hfills.trans hstep, hty⟩⟩
      rw [hlen, List.length_cons]
      omega

/-- No target is given the null type where `s` has another one for it. -/
theorem isNull_eq_false (h : Descends s r path t found? r') {v : Target} {ty other : Ty}
    (hr : r.typeOf? v = none) (hr' : r'.typeOf? v = some ty) (hs : s.typeOf? v = some other)
    (hother : other.isNull = false) : ty.isNull = false := by
  obtain ⟨n, -, hcause⟩ := h.origin hr hr'
  rcases hcause with ⟨-, hown⟩ | ⟨-, p, extra, path', end_, below, -, -, -, -, -, rfl⟩
  · simp only [hs] at hown
    cases hown
    exact hother
  · rw [handed, hs]
    cases hnull : end_.isNull with
    | true => simp [isNull_overlay, hother]
    | false => simpa using hnull

/-- An alias of an absent target takes nothing but the type that `s` has for it. -/
theorem typeOf?_of_absent (h : Descends s r path t found? r') {v p : Target} {extra : Qualifiers}
    {ty : Ty} (hv : r.get? v = some (.alias p extra)) (hp : r.get? p = none)
    (hr' : r'.typeOf? v = some ty) : s.typeOf? v = some ty := by
  obtain ⟨n, -, hcause⟩ := h.origin (typeOf?_of_get?_alias hv) hr'
  refine (hcause.resolve_right ?_).2
  rintro ⟨-, p', extra', path', end_, below, -, -, hv', hdesc, -⟩
  simp only [hv] at hv'
  cases hv'
  cases hdesc with
  | type ht => rw [hp] at ht; cases ht
  | found ht _ _ _ => rw [hp] at ht; cases ht

/-! ## What a descent finds -/

/-- A descent has one outcome. -/
theorem unique {found?' : Option Ty} {r'' : Answers} (h : Descends s r path t found? r')
    (h' : Descends s r path t found?' r'') : found? = found?' ∧ r' = r'' := by
  -- The value at the target and the path tell which rule applies.
  induction h generalizing found?' r'' with
  | absent ht =>
    cases h' with
    | absent _ => exact ⟨rfl, rfl⟩
    | type ht' => rw [ht] at ht'; cases ht'
    | refused ht' _ => rw [ht] at ht'; cases ht'
    | lost ht' _ _ _ => rw [ht] at ht'; cases ht'
    | found ht' _ _ _ => rw [ht] at ht'; cases ht'
  | type ht =>
    cases h' with
    | absent ht' => rw [ht] at ht'; cases ht'
    | type ht' => rw [ht] at ht'; cases ht'; exact ⟨rfl, rfl⟩
    | refused ht' _ => rw [ht] at ht'; cases ht'
    | lost ht' _ _ _ => rw [ht] at ht'; cases ht'
    | found ht' _ _ _ => rw [ht] at ht'; cases ht'
  | refused ht hcause =>
    cases h' with
    | absent ht' => rw [ht] at ht'; cases ht'
    | type ht' => rw [ht] at ht'; cases ht'
    | refused _ _ => exact ⟨rfl, rfl⟩
    | lost _ hnew hlt _ => exact absurd hcause (not_or.2 ⟨hnew, Nat.not_le.2 hlt⟩)
    | found _ hnew hlt _ => exact absurd hcause (not_or.2 ⟨hnew, Nat.not_le.2 hlt⟩)
  | lost ht hnew hlt _ ih =>
    cases h' with
    | absent ht' => rw [ht] at ht'; cases ht'
    | type ht' => rw [ht] at ht'; cases ht'
    | refused _ hcause => exact absurd hcause (not_or.2 ⟨hnew, Nat.not_le.2 hlt⟩)
    | lost ht' _ _ hbelow =>
      simp only [ht] at ht'
      cases ht'
      obtain ⟨-, rfl⟩ := ih hbelow
      exact ⟨rfl, rfl⟩
    | found ht' _ _ hbelow =>
      simp only [ht] at ht'
      cases ht'
      cases (ih hbelow).1
  | found ht hnew hlt _ ih =>
    cases h' with
    | absent ht' => rw [ht] at ht'; cases ht'
    | type ht' => rw [ht] at ht'; cases ht'
    | refused _ hcause => exact absurd hcause (not_or.2 ⟨hnew, Nat.not_le.2 hlt⟩)
    | lost ht' _ _ hbelow =>
      simp only [ht] at ht'
      cases ht'
      cases (ih hbelow).1
    | found ht' _ _ hbelow =>
      simp only [ht] at ht'
      cases ht'
      obtain ⟨hty, rfl⟩ := ih hbelow
      cases hty
      exact ⟨rfl, rfl⟩

/-- What is found stands at the end of the chain, within the depth of the guard. -/
theorem leads_of_found (h : Descends s r path t found? r') (hpath : path.length ≤ maxDepth)
    (hfound : found?.isSome) :
    ∃ n w, Leads r n t w ∧ (r.typeOf? w).isSome ∧ path.length + n ≤ maxDepth := by
  induction h with
  | absent _ => cases hfound
  | @type path t ty ht => exact ⟨0, t, .refl t, by rw [typeOf?_eq_some.2 ht]; rfl, hpath⟩
  | refused _ _ => cases hfound
  | lost _ _ _ _ _ => cases hfound
  | found ht _ hlt _ ih =>
    obtain ⟨n, w, hn, hw, hdepth⟩ := ih hlt rfl
    refine ⟨n + 1, w, .link ht hn, hw, ?_⟩
    simp only [List.length_cons] at hdepth
    omega

/-- A descent finds the type at the end of a chain if it may go so deep. -/
theorem found_of_leads (h : Descends s r path t found? r') {n : Nat} {w : Target}
    (hpath : ∀ x ∈ path, ∃ k, Leads r (k + 1) x t) (hn : Leads r n t w)
    (hw : (r.typeOf? w).isSome) (hdepth : path.length + n ≤ maxDepth) : found?.isSome := by
  obtain ⟨ty, hty⟩ := Option.isSome_iff_exists.1 hw
  induction h generalizing n with
  | @absent path t ht =>
    cases hn with
    | refl => rw [typeOf?_eq_some, ht] at hty; cases hty
    | link ht' _ => rw [ht] at ht'; cases ht'
  | type _ => rfl
  | @refused path t p extra ht hcause =>
    cases hn with
    | refl => rw [typeOf?_of_get?_alias ht] at hty; cases hty
    | link ht' hn' =>
      -- A chain that ends does not come back to where it has been.
      have hcycle : t ∉ path := by
        intro hmem
        obtain ⟨k, hk⟩ := hpath t hmem
        exact hk.not_of_typeOf? (.link ht' hn') hty
      have := hcause.resolve_left hcycle
      omega
  | @lost path t p extra below ht _ _ _ ih =>
    cases hn with
    | refl => rw [typeOf?_of_get?_alias ht] at hty; cases hty
    | @link n _ p' _ _ ht' hn' =>
      simp only [ht] at ht'
      cases ht'
      have hdepth' : (t :: path).length + n ≤ maxDepth := by
        simp only [List.length_cons]
        omega
      exact absurd (ih (forall_leads_cons ht hpath) hn' hdepth') (by simp)
  | found _ _ _ _ _ => rfl

/-- A descent that finds something gives a type to every target that it passes. -/
theorem isSome_typeOf?_of_leads {ty : Ty} (h : Descends s r path t (some ty) r') {n : Nat}
    {v p : Target} {extra : Qualifiers} (hn : Leads r n t v)
    (hv : r.get? v = some (.alias p extra)) : (r'.typeOf? v).isSome := by
  generalize hfound : some ty = found? at h
  induction h generalizing n ty with
  | absent _ => cases hfound
  | type ht =>
    cases hn with
    | refl => rw [ht] at hv; cases hv
    | link ht' _ => rw [ht] at ht'; cases ht'
  | refused _ _ => cases hfound
  | lost _ _ _ _ _ => cases hfound
  | @found path t p' extra' ty' below ht _ _ hbelow ih =>
    cases hn with
    | refl => rw [typeOf?_insert, if_pos rfl]; rfl
    | link ht' hn' =>
      simp only [ht] at ht'
      cases ht'
      exact (fills_found ht hbelow hbelow.fills.keys).isSome (ih hn' rfl)

end Descends

end Answers

end QualifiedInference
