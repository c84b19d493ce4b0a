-- SUMMARY: Solving bounds on a part of the targets to which no relation leads from the rest.
import QualifiedInference.Proofs.Bounds.Vain
import QualifiedInference.Proofs.Separation.Solving
/-!
# Bounds of unrelated targets

The runs on the whole and on the part that is kept get out of step when the rounds on the whole
go on for the sake of other targets. From then on the part waits where a waiting round has just
answered nothing, and the whole lags behind the pressing round that comes next on the part: what
it shows is that round broken off after some targets tried in vain. To try these once more
changes nothing, so the whole catches up as soon as it answers a kept target.
-/

namespace QualifiedInference

namespace Solving

theorem Shows.of_alike {keep : Target → Bool} {established : Answers} {all : List Target}
    {w p p' : Solving} (h : Shows keep established all w p') (ha : Alike p p') :
    Shows keep established all w p where
  whole := h.whole
  part := by rw [← ha.targets, h.part]
  record := fun hk => by rw [← ha.record, h.record hk]
  found := by rw [← ha.found, h.found]
  separated := h.separated
  splits := h.splits
  within := h.within
  established := h.established

end Solving

namespace Bounds

open Solving

variable {b : Bounds} {keep : Target → Bool} {established : Answers} {patience : Patience}
  {st w p : Solving} {t u : Target} {ts all pre post : List Target}

/-! ## In step -/

theorem attempt_eq (b : Bounds) (established : Answers) (patience : Patience) (st : Solving)
    (t : Target) : b.attempt established patience st t =
      if skips established st t then (st, false)
      else if patience == .waiting && !b.isReady established st t then (st, false)
      else conclude b.typeFor? t (b.informed established st t) := rfl

theorem informed_eq (b : Bounds) (established : Answers) (st : Solving) (t : Target) :
    b.informed established st t =
      st.learn established t b.side.relation (·.targetsIn b.side.relation) := by
  simp only [informed, targets_relations]

theorem skips_eq (h : Shows keep established all w p) (hk : keep t = true) :
    skips (established.restrict keep) p t = skips established w t := by
  rw [skips, Answers.isFinal_restrict established hk, TargetMap.contains, h.get?_found hk]
  rfl

theorem isReady_eq (h : Shows keep established all w p) (hk : keep t = true) :
    b.isReady (established.restrict keep) p t = b.isReady established w t := by
  cases hr : w.store.record? t with
  | none => simp only [isReady, h.record hk, hr]
  | some r =>
    rw [Bool.eq_iff_iff, isReady_iff hr, isReady_iff ((h.record hk).trans hr)]
    apply forall₂_congr
    intro u hu
    have hmem : u ∈ p.store.targets ↔ u ∈ w.store.targets := by
      rw [h.part, ← h.whole, List.mem_filter]
      exact ⟨And.left, fun hmem => ⟨hmem, h.separated b.side.relation hr hu hmem ▸ hk⟩⟩
    rw [hmem, h.known hk hr hu]

theorem inStep (b : Bounds) (keep : Target → Bool) (established : Answers) (all : List Target)
    (patience : Patience) : InStep keep established all (b.attempt established patience)
      (b.attempt (established.restrict keep) patience) where
  kept := fun {w p t} h hk => by
    rw [attempt_eq, attempt_eq, skips_eq h hk, isReady_eq h hk, informed_eq, informed_eq]
    split
    · exact ⟨rfl, h⟩
    · split
      · exact ⟨rfl, h⟩
      · exact (h.learn hk b.side.relation).conclude hk b.typeFor?
  other := fun {w p t} h hk => by
    simp only [attempt_eq, informed_eq]
    split
    · exact h
    · split
      · exact h
      · exact (h.learn_other hk b.side.relation _).conclude_other hk b.typeFor?

/-- A waiting round on the whole shows one on the part, and says at least as often that it
    answered. -/
theorem shows_round (h : Shows keep established all w p) :
    Shows keep established all (b.round established all .waiting w).1
      (b.round (established.restrict keep) (all.filter keep) .waiting p).1 ∧
    ((b.round (established.restrict keep) (all.filter keep) .waiting p).2 = true →
      (b.round established all .waiting w).2 = true) :=
  (inStep b keep established all .waiting).sweep h all

/-! ## Lagging behind -/

/-- The whole shows the part after pressing attempts at the targets `pre`, all in vain. -/
structure Lags (b : Bounds) (keep : Target → Bool) (established : Answers) (all : List Target)
    (w p : Solving) (pre : List Target) : Prop where
  vain : (sweep (b.attempt (established.restrict keep) .pressing) pre p).2 = false
  shows : Shows keep established all w
    (sweep (b.attempt (established.restrict keep) .pressing) pre p).1
  stalls : ∀ t ∈ all.filter keep, b.Stalls (established.restrict keep) p t

theorem Lags.round_waiting (h : Lags b keep established all w p pre) :
    Lags b keep established all (b.round established all .waiting w).1 p pre where
  vain := h.vain
  shows := by
    have hstalls : ∀ t ∈ all.filter keep, b.Stalls (established.restrict keep)
        (sweep (b.attempt (established.restrict keep) .pressing) pre p).1 t := fun t ht =>
      sweep_induction_of_vain (P := fun st => b.Stalls (established.restrict keep) st t)
        (h.stalls t ht) h.vain fun _ _ _ hvain hst => hst.of_vain hvain
    obtain ⟨hshows, -⟩ := shows_round (b := b) h.shows
    exact hshows.of_alike (sweep_of_stalls hstalls).2
  stalls := h.stalls

/-- The rest `ts` of a pressing round on the whole either answers a target that is not kept and
    goes on lagging, or does on the kept targets what a pressing round on the part does. `mid`
    are the targets ahead that the part has tried already. -/
theorem Lags.sweepFirst {mid : List Target} (h : Lags b keep established all w p pre)
    (hall : all.filter keep = pre ++ post) (hts : ts.filter keep = mid ++ post)
    (hmid : ∀ t ∈ mid, t ∈ pre) :
    ((sweepFirst (b.attempt established .pressing) ts w).2 = true ∧
      ∃ pre' post', all.filter keep = pre' ++ post' ∧
        Lags b keep established all (sweepFirst (b.attempt established .pressing) ts w).1 p
          pre') ∨
    ((sweepFirst (b.attempt (established.restrict keep) .pressing) (all.filter keep) p).2 =
        (sweepFirst (b.attempt established .pressing) ts w).2 ∧
      Shows keep established all (sweepFirst (b.attempt established .pressing) ts w).1
        (sweepFirst (b.attempt (established.restrict keep) .pressing) (all.filter keep) p).1) := by
  induction ts generalizing w pre post mid with
  | nil =>
    obtain ⟨-, rfl⟩ := List.append_eq_nil_iff.1 hts.symm
    rw [hall, sweepFirst_append_of_vain h.vain]
    exact .inr ⟨rfl, h.shows⟩
  | cons t ts ih =>
    have hinStep := inStep b keep established all .pressing
    cases hk : keep t with
    | false =>
      rw [List.filter_cons_of_neg (by simp [hk])] at hts
      have hnext : Lags b keep established all (b.attempt established .pressing w t).1 p pre :=
        ⟨h.vain, hinStep.other h.shows hk, h.stalls⟩
      cases hflag : (b.attempt established .pressing w t).2 with
      | true =>
        rw [sweepFirst_cons_of_answered hflag]
        exact .inl ⟨rfl, pre, post, hall, hnext⟩
      | false =>
        rw [sweepFirst_cons_of_vain hflag]
        exact ih hnext hall hts hmid
    | true =>
      simp only [List.filter_cons_of_pos hk] at hts
      obtain ⟨hflags, hshows⟩ := hinStep.kept h.shows hk
      cases mid with
      | cons m mid =>
        -- The part has tried `t` already: to try it again changes nothing.
        obtain ⟨rfl, hts'⟩ := List.cons.inj hts
        obtain ⟨hvain, halike⟩ := (tried_sweep h.vain (hmid t (.head _))).attempt
        rw [sweepFirst_cons_of_vain (hflags.symm.trans hvain)]
        exact ih ⟨h.vain, hshows.of_alike halike, h.stalls⟩ hall hts'
          fun u hu => hmid u (.tail _ hu)
      | nil =>
        obtain rfl : t :: ts.filter keep = post := hts
        cases hflag : (b.attempt (established.restrict keep) .pressing
            (Solving.sweep (b.attempt (established.restrict keep) .pressing) pre p).1 t).2 with
        | true =>
          rw [sweepFirst_cons_of_answered (hflags.symm.trans hflag), hall,
            sweepFirst_append_of_vain h.vain, sweepFirst_cons_of_answered hflag]
          exact .inr ⟨rfl, hshows⟩
        | false =>
          rw [sweepFirst_cons_of_vain (hflags.symm.trans hflag)]
          have hconcat := sweep_concat (b.attempt (established.restrict keep) .pressing) pre t p
          have hnext : Lags b keep established all (b.attempt established .pressing w t).1 p
              (pre ++ [t]) := by
            refine ⟨?_, ?_, h.stalls⟩
            · rw [hconcat, h.vain, hflag]
              rfl
            · rw [hconcat]
              exact hshows
          have hall' : all.filter keep = (pre ++ [t]) ++ ts.filter keep := by
            rw [hall, List.append_assoc]
            rfl
          have hts' : ts.filter keep = [] ++ ts.filter keep := rfl
          exact ih hnext hall' hts' nofun

theorem Lags.round_pressing (h : Lags b keep established all w p pre)
    (hall : all.filter keep = pre ++ post) :
    ((b.round established all .pressing w).2 = true ∧
      ∃ pre' post', all.filter keep = pre' ++ post' ∧
        Lags b keep established all (b.round established all .pressing w).1 p pre') ∨
    ((b.round (established.restrict keep) (all.filter keep) .pressing p).2 =
        (b.round established all .pressing w).2 ∧
      Shows keep established all (b.round established all .pressing w).1
        (b.round (established.restrict keep) (all.filter keep) .pressing p).1) :=
  h.sweepFirst hall hall fun _ => id

/-! ## Whole runs -/

/-- After a waiting round the runs are in step, and both have answered, or a pressing round is
    next on the part, and the whole lags behind it. -/
theorem round_waiting_cases (h : Shows keep established all w p) :
    ((b.round established all .waiting w).2 = true ∧
      b.rounds (established.restrict keep) (all.filter keep) .waiting p =
        b.rounds (established.restrict keep) (all.filter keep) .waiting
          (b.round (established.restrict keep) (all.filter keep) .waiting p).1 ∧
      Shows keep established all (b.round established all .waiting w).1
        (b.round (established.restrict keep) (all.filter keep) .waiting p).1) ∨
    (b.rounds (established.restrict keep) (all.filter keep) .waiting p =
        b.rounds (established.restrict keep) (all.filter keep) .pressing
          (b.round (established.restrict keep) (all.filter keep) .waiting p).1 ∧
      Lags b keep established all (b.round established all .waiting w).1
        (b.round (established.restrict keep) (all.filter keep) .waiting p).1 []) := by
  obtain ⟨hnext, hmore⟩ := shows_round (b := b) h
  cases hflag : (b.round (established.restrict keep) (all.filter keep) .waiting p).2 with
  | true => exact .inl ⟨hmore hflag, rounds_of_answered hflag, hnext⟩
  | false =>
    refine .inr ⟨rounds_of_idle hflag, rfl, hnext, ?_⟩
    intro t ht
    exact stalls_round hflag ht

/-- A run on the whole ends with a run on the part, in step with it or lagging behind. -/
theorem shows_rounds (b : Bounds) (keep : Target → Bool) (established : Answers)
    (all : List Target) (patience : Patience) (w : Solving) :
    (patience = .waiting → ∀ p, Shows keep established all w p →
      Shows keep established all (b.rounds established all patience w)
        (b.rounds (established.restrict keep) (all.filter keep) .waiting p)) ∧
    (∀ p pre post, all.filter keep = pre ++ post → Lags b keep established all w p pre →
      Shows keep established all (b.rounds established all patience w)
        (b.rounds (established.restrict keep) (all.filter keep) .pressing p)) := by
  -- On the rounds of the whole. In step, the rounds of the part go along; behind, only a round
  -- that answers a kept target lets the part go on.
  induction patience, w using Bounds.rounds.induct b established all with
  | case1 patience w w' heq ih =>
    rw [rounds_of_answered (by rw [heq]), heq]
    constructor
    · rintro rfl p h
      rcases round_waiting_cases (b := b) h with ⟨-, hrounds, hnext⟩ | ⟨hrounds, hlags⟩
      · simp only [heq] at hnext
        rw [hrounds]
        exact ih.1 rfl _ hnext
      · simp only [heq] at hlags
        rw [hrounds]
        exact ih.2 _ [] _ rfl hlags
    · intro p pre post hall h
      cases patience with
      | waiting =>
        have hlags := h.round_waiting
        simp only [heq] at hlags
        exact ih.2 p pre post hall hlags
      | pressing =>
        have hround := h.round_pressing hall
        simp only [heq] at hround
        rcases hround with ⟨-, pre', post', hall', hlags⟩ | ⟨hflag, hshows⟩
        · exact ih.2 p pre' post' hall' hlags
        · rw [rounds_of_answered hflag]
          exact ih.1 rfl _ hshows
  | case2 w w' heq ih =>
    rw [rounds_of_idle (by rw [heq]), heq]
    constructor
    · rintro - p h
      rcases round_waiting_cases (b := b) h with ⟨hflag, -⟩ | ⟨hrounds, hlags⟩
      · simp only [heq] at hflag
        cases hflag
      · simp only [heq] at hlags
        rw [hrounds]
        exact ih.2 _ [] _ rfl hlags
    · intro p pre post hall h
      have hlags := h.round_waiting
      simp only [heq] at hlags
      exact ih.2 p pre post hall hlags
  | case3 w w' heq =>
    rw [rounds_of_exhausted (by rw [heq]), heq]
    constructor
    · rintro ⟨⟩
    · intro p pre post hall h
      have hround := h.round_pressing hall
      simp only [heq] at hround
      rcases hround with ⟨⟨⟩, -⟩ | ⟨hflag, hshows⟩
      rw [rounds_of_exhausted hflag]
      exact hshows

theorem separates {s : Store} (b : Bounds) (name : String) (hs : s.Separated keep)
    (hest : ∀ {t}, t ∈ established → t ∈ s.targets) :
    Strategy.Separates ⟨name, b.solve⟩ keep s established := by
  have hrun := (shows_rounds b keep established s.targets .waiting ⟨s, ∅⟩).1 rfl _
    (shows_start hs hest)
  simp only [← Store.targets_restrict] at hrun
  exact ⟨hrun.found, hrun.splits, hrun.within⟩

end Bounds

end QualifiedInference
