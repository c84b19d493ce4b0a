-- SUMMARY: Attempts at bounded targets that answer nothing, and what they leave behind.
import QualifiedInference.Proofs.Bounds.Attempt
/-!
# Attempts in vain

An attempt in vain changes at most what is recorded of its own target, and leaves it such that
another attempt of the kind changes nothing. So after a pressing sweep in vain every target has
been passed over or is spent.
-/

namespace QualifiedInference

namespace Solving

/-- The same targets, records and answers; the versions of the records may differ. -/
structure Alike (st st' : Solving) : Prop where
  targets : st'.store.targets = st.store.targets
  record : ∀ t, st'.store.record? t = st.store.record? t
  found : st'.found = st.found

theorem Alike.refl (st : Solving) : Alike st st := ⟨rfl, fun _ => rfl, rfl⟩

theorem Alike.trans {st st' st'' : Solving} (h : Alike st st') (h' : Alike st' st'') :
    Alike st st'' :=
  ⟨h'.targets.trans h.targets, fun t => (h'.record t).trans (h.record t), h'.found.trans h.found⟩

end Solving

namespace Bounds

open Solving

variable {b : Bounds} {established : Answers} {st : Solving} {t u : Target} {ts : List Target}

theorem alike_informed (h : b.Spent established st t) :
    Alike st (b.informed established st t) where
  targets := targets_informed
  record := fun u => by
    by_cases hut : u = t
    · rw [hut, h.informed]
    · exact record?_informed_of_ne hut
  found := found_informed

/-- A pressing attempt passes the target over, or can do nothing with it. -/
def Tried (b : Bounds) (established : Answers) (st : Solving) (t : Target) : Prop :=
  skips established st t = true ∨ b.Spent established st t

theorem Tried.attempt (h : b.Tried established st t) :
    (b.attempt established .pressing st t).2 = false ∧
      Alike st (b.attempt established .pressing st t).1 := by
  cases hs : skips established st t with
  | true =>
    rw [attempt_of_skips hs]
    exact ⟨rfl, .refl st⟩
  | false =>
    have hspent := h.resolve_left (by simp [hs])
    have heq : b.attempt established .pressing st t = (b.informed established st t, false) :=
      attempt_of_none hs nofun hspent.verdict
    rw [heq]
    exact ⟨rfl, alike_informed hspent⟩

theorem Stalls.attempt (h : b.Stalls established st t) :
    (b.attempt established .waiting st t).2 = false ∧
      Alike st (b.attempt established .waiting st t).1 := by
  rcases h with hs | hready | hstuck
  · rw [attempt_of_skips hs]
    exact ⟨rfl, .refl st⟩
  · rw [attempt_of_not_ready hready]
    exact ⟨rfl, .refl st⟩
  · rw [attempt_of_none hstuck.skips (fun _ => hstuck.ready) hstuck.verdict]
    exact ⟨rfl, alike_informed hstuck.toSpent⟩

theorem Stalls.of_alike {st' : Solving} (h : b.Stalls established st t) (ha : Alike st st') :
    b.Stalls established st' t :=
  h.congr ha.targets (ha.record t) ha.found

/-- A waiting sweep over targets that stall changes nothing. -/
theorem sweep_of_stalls (h : ∀ t ∈ ts, b.Stalls established st t) :
    (sweep (b.attempt established .waiting) ts st).2 = false ∧
      Alike st (sweep (b.attempt established .waiting) ts st).1 := by
  induction ts generalizing st with
  | nil => exact ⟨rfl, .refl st⟩
  | cons t ts ih =>
    obtain ⟨hflag, halike⟩ := (h t (.head _)).attempt
    obtain ⟨hrest, halike'⟩ := ih fun u hu => (h u (.tail _ hu)).of_alike halike
    rw [sweep_cons, hflag]
    exact ⟨hrest, halike.trans halike'⟩

/-- A pressing attempt in vain leaves the run as it is, or leaves its target spent. -/
theorem attempt_vain_cases (h : (b.attempt established .pressing st u).2 = false) :
    (skips established st u = true ∧ (b.attempt established .pressing st u).1 = st) ∨
      (b.Spent established (b.informed established st u) u ∧
        (b.attempt established .pressing st u).1 = b.informed established st u) := by
  rcases attempt_cases b established .pressing st u with
    ⟨hpass, heq⟩ | ⟨-, -, ⟨hv, heq⟩ | ⟨ty, -, heq⟩⟩
  · refine .inl ⟨hpass.resolve_right nofun, ?_⟩
    rw [heq]
  · exact .inr ⟨spent_informed hv, by rw [heq]⟩
  · simp only [heq] at h
    cases h

theorem tried_self (h : (b.attempt established .pressing st u).2 = false) :
    b.Tried established (b.attempt established .pressing st u).1 u := by
  rcases attempt_vain_cases h with ⟨hs, heq⟩ | ⟨hspent, heq⟩
  · rw [heq]
    exact .inl hs
  · rw [heq]
    exact .inr hspent

theorem Tried.of_vain (ht : b.Tried established st t)
    (h : (b.attempt established .pressing st u).2 = false) :
    b.Tried established (b.attempt established .pressing st u).1 t := by
  by_cases htu : t = u
  · rw [htu]
    exact tried_self h
  · rcases attempt_vain_cases h with ⟨-, heq⟩ | ⟨-, heq⟩
    · rw [heq]
      exact ht
    · rw [heq]
      rcases ht with hs | hspent
      · exact .inl (by rw [skips, found_informed]; exact hs)
      · exact .inr (hspent.congr (record?_informed_of_ne htu) fun _ _ v _ =>
          typeOf?_congr found_informed v)

theorem Stalls.of_vain (ht : b.Stalls established st t)
    (h : (b.attempt established .pressing st u).2 = false) :
    b.Stalls established (b.attempt established .pressing st u).1 t := by
  rcases attempt_vain_cases h with ⟨-, heq⟩ | ⟨hspent, heq⟩
  · rw [heq]
    exact ht
  · rw [heq]
    rcases eq_or_ne t u with rfl | htu
    · rcases ht with hs | hready | hstuck
      · exact .inl (by rw [skips, found_informed]; exact hs)
      · exact .inr (.inl (by rw [isReady_informed]; exact hready))
      · exact .inr (.inr (stuck_informed hstuck.skips hstuck.ready hstuck.verdict))
    · exact ht.congr targets_informed (record?_informed_of_ne htu) found_informed

theorem tried_sweep (h : (sweep (b.attempt established .pressing) ts st).2 = false)
    (ht : t ∈ ts) : b.Tried established (sweep (b.attempt established .pressing) ts st).1 t := by
  induction ts generalizing st with
  | nil => cases ht
  | cons u ts ih =>
    simp only [sweep_cons, Bool.or_eq_false_iff] at h
    by_cases hmem : t ∈ ts
    · exact ih h.2 hmem
    · obtain rfl : t = u := (List.mem_cons.1 ht).resolve_right hmem
      simp only [sweep_cons]
      exact sweep_induction_of_vain (P := fun st => b.Tried established st t) (tried_self h.1) h.2
        fun _ _ _ hvain hst => hst.of_vain hvain

end Bounds

end QualifiedInference
