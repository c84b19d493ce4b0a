-- SUMMARY: The events of a guard in the course of a merge.
import Mathlib.Data.List.Nodup
import QualifiedInference.Proofs.Answers.Merge
import QualifiedInference.Proofs.Guard.History
/-!
# What a merge asks of its guard

`descendTraced` is a descent together with the events of its guard. Under a straight guard the
descent goes down one path of distinct aliases and comes back up the same way (`roundTrip`), with at
most one refusal in between. So one descent of a merge asks for little of what the guard allows, and
no key is being visited once it is over (`merge_visits`).
-/

namespace QualifiedInference

namespace Answers

open Guard

/-! ## Descents with their events -/

/-- A descent, and the events of its guard in order. -/
def descendTraced (s r : Answers) (g : Guard Target) (t : Target) :
    Except Fault (Descent × List (Event Target)) :=
  match _ht : r.get? t with
  | none => .ok (⟨none, r, g⟩, [])
  | some (.type ty) => .ok (⟨some ty, r, g⟩, [])
  | some (.alias pointee _) =>
    match _he : g.enter t with
    | (.entered, inside) => do
      let below ← descendTraced s r inside pointee
      let outside ← below.1.guard.leave t
      return (settle s t below.1.found? below.1.answers outside,
        .tried t .entered :: below.2 ++ [.left t])
    | (a, refused) => .ok (settle s t none r refused, [.tried t a])
termination_by unvisited r.keys g.visiting
decreasing_by
  rw [(Guard.visiting_of_entered _he).2]
  exact unvisited_cons_lt (TargetMap.mem_of_get? _ht) (Guard.visiting_of_entered _he).1

theorem descendTraced_absent (s : Answers) {r : Answers} (g : Guard Target) {t : Target}
    (ht : r.get? t = none) : descendTraced s r g t = .ok (⟨none, r, g⟩, []) := by
  unfold descendTraced
  split <;> simp_all

theorem descendTraced_type (s : Answers) {r : Answers} (g : Guard Target) {t : Target} {ty : Ty}
    (ht : r.get? t = some (.type ty)) :
    descendTraced s r g t = .ok (⟨some ty, r, g⟩, []) := by
  unfold descendTraced
  split <;> simp_all

theorem descendTraced_refused {s r : Answers} {g : Guard Target} {t p : Target}
    {extra : Qualifiers} (ht : r.get? t = some (.alias p extra)) (he : (g.enter t).1 ≠ .entered) :
    descendTraced s r g t =
      .ok (settle s t none r (g.enter t).2, [.tried t (g.enter t).1]) := by
  unfold descendTraced
  split
  · next h => rw [ht] at h; cases h
  · next h => rw [ht] at h; cases h
  · split
    · next h => exact absurd (congrArg Prod.fst h) he
    · next h => rw [h]

theorem descendTraced_entered {s r : Answers} {g inside : Guard Target} {t p : Target}
    {extra : Qualifiers} (ht : r.get? t = some (.alias p extra))
    (he : g.enter t = (.entered, inside)) :
    descendTraced s r g t = do
      let below ← descendTraced s r inside p
      let outside ← below.1.guard.leave t
      return (settle s t below.1.found? below.1.answers outside,
        .tried t .entered :: below.2 ++ [.left t]) := by
  rw [descendTraced]
  split
  · next h => rw [ht] at h; cases h
  · next h => rw [ht] at h; cases h
  · next h =>
    simp only [ht] at h
    cases h
    split
    · next h =>
      simp only [he] at h
      cases h
      rfl
    · next hne h =>
      simp only [he] at h
      cases h
      exact absurd rfl hne

theorem fst_descendTraced (s r : Answers) (g : Guard Target) (t : Target) :
    Prod.fst <$> descendTraced s r g t = descend s r g t := by
  induction g, t using descend.induct r with
  | case1 g t ht => rw [descendTraced_absent s g ht, descend_absent s g ht]; rfl
  | case2 g t ty ht => rw [descendTraced_type s g ht, descend_type s g ht]; rfl
  | case3 g t p extra ht inside he ih =>
    simp only [descendTraced_entered ht he, descend_entered ht he, ← ih]
    cases descendTraced s r inside p with
    | error e => rfl
    | ok below =>
      show _ <$> (below.1.guard.leave t >>= _) = below.1.guard.leave t >>= _
      cases below.1.guard.leave t <;> rfl
  | case4 g t p extra ht a g' hne he =>
    have hrefused : (g.enter t).1 ≠ .entered := fun h => hne (by simpa only [he] using h)
    simp only [descendTraced_refused ht hrefused, descend_refused ht hrefused, ← settle_none]
    rfl

/-! ## Down a path and back -/

/-- The events of entering the keys of a path, of what happens at its end, and of leaving the keys
    again in reverse. -/
def roundTrip (path : List Target) (last : List (Event Target)) : List (Event Target) :=
  path.map (.tried · .entered) ++ last ++ path.reverse.map .left

theorem roundTrip_cons (t : Target) (path : List Target) (last : List (Event Target)) :
    roundTrip (t :: path) last = .tried t .entered :: roundTrip path last ++ [.left t] := by
  simp [roundTrip]

/-- What can happen after a path: nothing, if it has led to a type or to a target without an
    answer, or one refusal. -/
inductive Ends (visited : List Target) : List (Event Target) → Prop
  | found : Ends visited []
  | cycle {k : Target} : k ∈ visited → Ends visited [.tried k .cycle]
  | tooDeep {k : Target} : visited.length = maxDepth → Ends visited [.tried k .tooDeep]

theorem ends_of_refused {g : Guard Target} {k : Target} (hg : g.Straight)
    (he : (g.enter k).1 ≠ .entered) : Ends g.visiting [.tried k (g.enter k).1] := by
  have hreply := g.replies_enter k
  generalize (g.enter k).1 = a, (g.enter k).2 = g' at hreply he
  cases hreply with
  | tooMany hmany => exact absurd hmany hg.attempts_le
  | tooDeep _ hdeep =>
    simp only [hg.limits, UInt32.le_iff_toNat_le, hg.depth] at hdeep
    exact .tooDeep (Nat.le_antisymm hg.bound hdeep)
  | cycle _ _ hk => exact .cycle hk
  | entered _ _ _ => exact absurd rfl he

/-- What a descent under a guard does: the keys of the path are distinct aliases that the guard
    has not been visiting before, and the events bring the guard back to where it was. -/
structure Visits (r : Answers) (g : Guard Target) (d : Descent) (path : List Target)
    (last : List (Event Target)) : Prop where
  aliases : ∀ k ∈ path, ∃ p extra, r.get? k = some (.alias p extra)
  nodup : (path.reverse ++ g.visiting).Nodup
  bound : (path.reverse ++ g.visiting).length ≤ maxDepth
  ends : Ends (path.reverse ++ g.visiting) last
  balanced : Balanced g d.guard
  replay : g.run ((roundTrip path last).map Event.call) = (roundTrip path last, d.guard)

namespace Visits

variable {r : Answers} {g inside : Guard Target} {d below : Descent} {t p : Target}
  {extra : Qualifiers} {path : List Target} {last : List (Event Target)}

theorem unguarded (hg : g.Straight) (hnodup : g.visiting.Nodup) (found? : Option Ty)
    (answers : Answers) : Visits r g ⟨found?, answers, g⟩ [] [] where
  aliases _ hk := by cases hk
  nodup := hnodup
  bound := hg.bound
  ends := .found
  balanced := .refl g
  replay := rfl

theorem refused (hg : g.Straight) (hnodup : g.visiting.Nodup) (he : (g.enter t).1 ≠ .entered)
    (hd : d.guard = (g.enter t).2) : Visits r g d [] [.tried t (g.enter t).1] where
  aliases _ hk := by cases hk
  nodup := hnodup
  bound := hg.bound
  ends := ends_of_refused hg he
  balanced := hd ▸ (hg.enter_refused (hg.of_refused he)).2
  replay := by simp [roundTrip, run, answer, Event.call, hd]

theorem entered (h : Visits r inside below path last) (ht : r.get? t = some (.alias p extra))
    (he : g.enter t = (.entered, inside)) (hinside : inside.visiting = t :: g.visiting)
    (hleave : below.guard.leave t = .ok d.guard) (hbal : Balanced g d.guard) :
    Visits r g d (t :: path) last := by
  have hvisited : (t :: path).reverse ++ g.visiting = path.reverse ++ inside.visiting := by
    simp [hinside]
  exact {
    aliases := fun k hk => by
      cases hk with
      | head => exact ⟨p, extra, ht⟩
      | tail _ hk => exact h.aliases k hk
    nodup := hvisited ▸ h.nodup
    bound := hvisited ▸ h.bound
    ends := hvisited ▸ h.ends
    balanced := hbal
    -- The rest of the events goes from the guard inside to the one below.
    replay := by
      simp only [roundTrip_cons, List.cons_append, List.map_cons, List.map_append, Event.call, run,
        answer, he, run_append, h.replay, List.map_nil, hleave] }

end Visits

theorem exists_visits (s r : Answers) (g : Guard Target) (t : Target) (hg : g.Straight)
    (hnodup : g.visiting.Nodup) : ∃ d path last,
      descendTraced s r g t = .ok (d, roundTrip path last) ∧ Visits r g d path last := by
  -- The two descents recurse alike, so the recursion of `descend` serves for its trace.
  induction g, t using descend.induct r with
  | case1 g t ht =>
    exact ⟨_, [], [], descendTraced_absent s g ht, .unguarded hg hnodup none r⟩
  | case2 g t ty ht =>
    exact ⟨_, [], [], descendTraced_type s g ht, .unguarded hg hnodup (some ty) r⟩
  | case3 g t p extra ht inside he ih =>
    obtain ⟨hnew, hlt⟩ := hg.of_entered he
    obtain ⟨inside', he', hstraight, hvisiting, hdepth⟩ := hg.enter_entered hnew hlt
    simp only [he] at he'
    cases he'
    have hdistinct : inside.visiting.Nodup := hvisiting ▸ List.nodup_cons.2 ⟨hnew, hnodup⟩
    obtain ⟨below, path, last, hbelow, hvisits⟩ := ih hstraight hdistinct
    have hlimits : inside.limits = g.limits := hstraight.limits.trans hg.limits.symm
    obtain ⟨outside, hleave, hout⟩ := hvisits.balanced.leave hg hlt hlimits hvisiting hdepth
    have hguard := guard_settle s t below.found? below.answers outside
    refine ⟨settle s t below.found? below.answers outside, t :: path, last, ?_, ?_⟩
    · rw [descendTraced_entered ht he, hbelow, roundTrip_cons]
      show (below.guard.leave t >>= _) = _
      rw [hleave]
      rfl
    · apply hvisits.entered ht he hvisiting
      · rw [hguard]
        exact hleave
      · rw [hguard]
        exact hout
  | case4 g t p extra ht a g' hne he =>
    have hrefused : (g.enter t).1 ≠ .entered := fun h => hne (by simpa only [he] using h)
    exact ⟨_, [], _, descendTraced_refused ht hrefused,
      .refused hg hnodup hrefused (guard_settle s t none r _)⟩

/-! ## What one descent costs -/

theorem tries_roundTrip (path : List Target) (last : List (Event Target)) :
    tries (roundTrip path last) = path.length + tries last := by
  have hdown : (path.map (Event.tried · .entered)).countP Event.isTry = path.length := by
    simp [List.countP_map, Function.comp_def, Event.isTry]
  have hup : (path.reverse.map Event.left).countP Event.isTry = 0 := by
    simp [List.countP_map, Function.comp_def, Event.isTry]
  simp only [tries, roundTrip, List.countP_append, hdown, hup, Nat.add_zero]

namespace Ends

variable {visited path : List Target} {last : List (Event Target)}

theorem tries_le (h : Ends visited last) : tries last ≤ 1 := by
  cases h <;> simp [tries, Event.isTry]

/-- Any event of a round trip: a limit is met only at the depth limit. -/
theorem event (h : Ends visited last) {e : Event Target} (he : e ∈ roundTrip path last) :
    (∃ k, e = .tried k .entered) ∨ (∃ k, e = .tried k .cycle) ∨
      (∃ k, e = .tried k .tooDeep ∧ visited.length = maxDepth) ∨ ∃ k, e = .left k := by
  simp only [roundTrip, List.mem_append, List.mem_map] at he
  rcases he with (⟨k, _, rfl⟩ | he) | ⟨k, _, rfl⟩
  · exact .inl ⟨k, rfl⟩
  · cases h with
    | found => cases he
    | @cycle k _ => exact .inr (.inl ⟨k, List.mem_singleton.1 he⟩)
    | @tooDeep k hlength => exact .inr (.inr (.inl ⟨k, List.mem_singleton.1 he, hlength⟩))
  · exact .inr (.inr (.inr ⟨k, rfl⟩))

theorem not_tooMany (h : Ends visited last) (k : Target) :
    .tried k .tooMany ∉ roundTrip path last := by
  intro he
  rcases h.event he with ⟨_, h⟩ | ⟨_, h⟩ | ⟨_, h, _⟩ | ⟨_, h⟩ <;> cases h

theorem length_of_exceeded (h : Ends visited last)
    (hexceeded : ∃ e ∈ roundTrip path last, e.isExceeded) : visited.length = maxDepth := by
  obtain ⟨e, he, hlimit⟩ := hexceeded
  rcases h.event he with ⟨k, rfl⟩ | ⟨k, rfl⟩ | ⟨k, rfl, hlength⟩ | ⟨k, rfl⟩
  · cases hlimit
  · cases hlimit
  · exact hlength
  · cases hlimit

theorem sinceReset_roundTrip (h : Ends visited last) :
    sinceReset (roundTrip path last) = roundTrip path last := by
  apply List.rtakeWhile_eq_self_iff.2
  intro e he
  rcases h.event he with ⟨_, rfl⟩ | ⟨_, rfl⟩ | ⟨_, rfl, _⟩ | ⟨_, rfl⟩ <;> rfl

end Ends

theorem Visits.accounts {r : Answers} {d : Descent} {path : List Target}
    {last : List (Event Target)} (h : Visits r (.new .aliasChain) d path last) :
    Accounts .aliasChain (roundTrip path last) d.guard := by
  have hrun := Accounts.of_run .aliasChain ((roundTrip path last).map Event.call)
  simpa only [h.replay, h.ends.sinceReset_roundTrip] using hrun

/-- Every descent of a merge enters distinct aliases and leaves them in reverse, with at most 513
    attempts. It meets a limit only where it has entered 512 aliases, and never the number of
    attempts; and when it is over, and when the merge is, no key is being visited. -/
theorem merge_visits (r s : Answers) :
    (∃ filled guard, r.keys.foldlM (mergeTarget s) (r, .new .aliasChain) = .ok (filled, guard) ∧
      guard.visiting = [] ∧ r.merge s = .ok (filled.adopt s).collapse) ∧
    ∀ before t after, r.keys = before ++ t :: after → ∃ reached d path last,
      before.foldlM (mergeTarget s) (r, .new .aliasChain) = .ok (reached, .new .aliasChain) ∧
      descend s reached (.new .aliasChain) t = .ok d ∧
      descendTraced s reached (.new .aliasChain) t = .ok (d, roundTrip path last) ∧
      (Guard.new .aliasChain).run ((roundTrip path last).map Event.call) =
        (roundTrip path last, d.guard) ∧
      path.Nodup ∧ (∀ k ∈ path, ∃ p extra, reached.get? k = some (.alias p extra)) ∧
      Ends path.reverse last ∧
      d.guard.visiting = [] ∧
      d.guard.attempts.toNat = tries (roundTrip path last) ∧ tries (roundTrip path last) ≤ 513 ∧
      (∀ k, .tried k .tooMany ∉ roundTrip path last) ∧
      (d.guard.exceeded → path.length = 512) := by
  constructor
  · obtain ⟨filled, -, hfold⟩ := foldlM_mergeTarget_eq s r.keys r
    refine ⟨filled, _, hfold, rfl, ?_⟩
    unfold merge
    rw [hfold]
    rfl
  · intro before t after _
    obtain ⟨reached, -, hbefore⟩ := foldlM_mergeTarget_eq s before r
    obtain ⟨d, path, last, htraced, hvisits⟩ :=
      exists_visits s reached (.new .aliasChain) t straight_new List.nodup_nil
    have hd : descend s reached (.new .aliasChain) t = .ok d := by
      rw [← fst_descendTraced, htraced]
      rfl
    have hacc := hvisits.accounts
    have hvisited : path.reverse ++ (Guard.new .aliasChain : Guard Target).visiting =
      path.reverse := List.append_nil _
    have hnodup : path.Nodup := List.nodup_reverse.1 (hvisited ▸ hvisits.nodup)
    have hends : Ends path.reverse last := hvisited ▸ hvisits.ends
    have hbound : path.length ≤ 512 := by
      have hlength := hvisits.bound
      simp only [hvisited, List.length_reverse] at hlength
      exact hlength
    have htries : tries (roundTrip path last) ≤ 513 := by
      have hlast := hends.tries_le
      simp only [tries_roundTrip]
      omega
    refine ⟨reached, d, path, last, hbefore, hd, htraced, hvisits.replay, hnodup, hvisits.aliases,
      hends, hvisits.balanced.visiting, ?_, htries, hends.not_tooMany, ?_⟩
    · simp only [hacc.attempts, maxAttempts]
      omega
    · intro hexceeded
      have hlength := hends.length_of_exceeded (hacc.exceeded.1 hexceeded)
      simp only [List.length_reverse] at hlength
      exact hlength

end Answers

end QualifiedInference
