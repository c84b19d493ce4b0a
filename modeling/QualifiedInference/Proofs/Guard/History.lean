-- SUMMARY: The state of a guard as an account of its history of calls.
import Mathlib.Data.List.DropRight
import QualifiedInference.Proofs.Guard
/-!
# Histories of guards

A guard is asked to enter and to leave keys and is reset, in any order, and every call leaves an
event in its history. The counters, the visited keys and the flag of a guard say of that history
what has happened since the last reset, and nothing else (`Accounts`). One call keeps it so
(`Accounts.answer`), hence any sequence of calls on a fresh guard does.
-/

namespace QualifiedInference

namespace Guard

variable {κ : Type}

/-! ## Calls and events -/

inductive Call (κ : Type) where
  | enter (k : κ)
  | leave (k : κ)
  | reset

/-- What came of one call. -/
inductive Event (κ : Type) where
  | tried (k : κ) (a : Admission)
  | left (k : κ)
  /-- The key to be left was not being visited. -/
  | missed (k : κ)
  | reset
deriving DecidableEq

namespace Event

/-- The call that the event came of. -/
def call : Event κ → Call κ
  | tried k _ => .enter k
  | left k => .leave k
  | missed k => .leave k
  | reset => .reset

def isTry : Event κ → Bool
  | tried _ _ => true
  | _ => false

/-- An attempt that was refused because of a limit. -/
def isExceeded : Event κ → Bool
  | tried _ a => a.isExceeded
  | _ => false

end Event

/-- How many attempts there are among the events. -/
def tries (es : List (Event κ)) : Nat := es.countP Event.isTry

/-- The key has been entered and not left since. -/
def Inside (es : List (Event κ)) (k : κ) : Prop :=
  ∃ before after, es = before ++ .tried k .entered :: after ∧ .left k ∉ after

theorem not_inside_nil (k : κ) : ¬Inside ([] : List (Event κ)) k := by
  intro ⟨before, after, hes, _⟩
  cases before <;> cases hes

theorem inside_concat {es : List (Event κ)} {e : Event κ} {k : κ} :
    Inside (es ++ [e]) k ↔ e = .tried k .entered ∨ e ≠ .left k ∧ Inside es k := by
  constructor
  · intro ⟨before, after, hes, hleft⟩
    -- The last event is the entry itself, or it comes after the entry.
    cases after using List.reverseRecOn with
    | nil => exact .inl (List.append_singleton_inj.1 hes).2
    | append_singleton after e' =>
      have hes' : es ++ [e] = (before ++ .tried k .entered :: after) ++ [e'] := by simpa using hes
      have hsplit := List.append_singleton_inj.1 hes'
      simp only [List.mem_append, List.mem_singleton, not_or] at hleft
      refine .inr ⟨fun he => hleft.2 (he ▸ hsplit.2), before, after, hsplit.1, hleft.1⟩
  · intro h
    cases h with
    | inl he => exact ⟨es, [], by rw [he], List.not_mem_nil⟩
    | inr h =>
      obtain ⟨hne, before, after, rfl, hleft⟩ := h
      refine ⟨before, after ++ [e], by simp, ?_⟩
      simp only [List.mem_append, List.mem_singleton, not_or]
      exact ⟨hleft, Ne.symm hne⟩

/-! ## One attempt -/

/-- How a guard answers an attempt, and what it is afterwards. The limits come before the keys,
    and the number of attempts before the depth. -/
inductive Replies (g : Guard κ) (k : κ) : Admission → Guard κ → Prop
  | tooMany : g.limits.entries < g.count.attempts →
    Replies g k .tooMany { g.count with exceeded := true }
  | tooDeep : ¬g.limits.entries < g.count.attempts → g.limits.depth ≤ g.depth →
    Replies g k .tooDeep { g.count with exceeded := true }
  | cycle : ¬g.limits.entries < g.count.attempts → ¬g.limits.depth ≤ g.depth → k ∈ g.visiting →
    Replies g k .cycle g.count
  | entered : ¬g.limits.entries < g.count.attempts → ¬g.limits.depth ≤ g.depth →
    k ∉ g.visiting →
    Replies g k .entered { g.count with visiting := k :: g.visiting, depth := g.depth + 1 }

namespace Replies

variable {g g' : Guard κ} {k : κ} {a : Admission}

theorem limits (h : Replies g k a g') : g'.limits = g.limits := by
  cases h <;> rfl

theorem attempts (h : Replies g k a g') : g'.attempts = g.count.attempts := by
  cases h <;> rfl

theorem exceeded (h : Replies g k a g') : g'.exceeded ↔ g.exceeded ∨ a.isExceeded := by
  cases h <;> simp [count, Admission.isExceeded]

end Replies

/-! ## What a guard says of its history -/

/-- The guard says what the events have come to, none of which is a reset. -/
structure Accounts (limits : Limits) (es : List (Event κ)) (g : Guard κ) : Prop where
  limits_eq : g.limits = limits
  nodup : g.visiting.Nodup
  visiting : ∀ k, k ∈ g.visiting ↔ Inside es k
  depth : g.depth.toNat = g.visiting.length
  bound : g.depth ≤ limits.depth
  attempts : g.attempts.toNat = min (tries es) maxAttempts
  exceeded : g.exceeded ↔ ∃ e ∈ es, e.isExceeded
  /-- Where an attempt has been one too many, any further one is. -/
  spent : (∃ k, .tried k .tooMany ∈ es) → limits.entries < g.attempts

/-- What a guard answers to an attempt for a key, by the attempts that it has counted and the keys
    that it visits. -/
def Due (limits : Limits) (tries depth : Nat) (inside : Prop) : Admission → Prop
  | .tooMany => limits.entries.toNat < min (tries + 1) maxAttempts
  | .tooDeep => min (tries + 1) maxAttempts ≤ limits.entries.toNat ∧ limits.depth.toNat ≤ depth
  | .cycle => min (tries + 1) maxAttempts ≤ limits.entries.toNat ∧
    depth < limits.depth.toNat ∧ inside
  | .entered => min (tries + 1) maxAttempts ≤ limits.entries.toNat ∧
    depth < limits.depth.toNat ∧ ¬inside

theorem Due.unique {limits : Limits} {tries depth : Nat} {inside : Prop} {a b : Admission}
    (ha : Due limits tries depth inside a) (hb : Due limits tries depth inside b) : a = b := by
  cases a <;> cases b <;> simp only [Due] at ha hb <;> first | rfl | omega | tauto

namespace Accounts

variable {limits : Limits} {es : List (Event κ)} {g g' : Guard κ} {k : κ} {a : Admission}

theorem new (limits : Limits) : Accounts limits [] (new limits : Guard κ) where
  limits_eq := rfl
  nodup := List.nodup_nil
  visiting k := by simp [Guard.new, not_inside_nil]
  depth := rfl
  bound := by simp [Guard.new]
  attempts := rfl
  exceeded := by simp [Guard.new]
  spent := by simp

theorem attempt (h : Accounts limits es g) (hr : Replies g k a g') :
    Accounts limits (es ++ [.tried k a]) g' where
  limits_eq := hr.limits.trans h.limits_eq
  nodup := by
    cases hr with
    | entered _ _ hk => exact List.nodup_cons.2 ⟨hk, h.nodup⟩
    | _ => exact h.nodup
  visiting j := by
    simp only [inside_concat, ← h.visiting]
    cases hr with
    | entered _ _ hk => simp [eq_comm]
    | _ => simp [count]
  depth := by
    cases hr with
    | entered _ hdeep _ =>
      simp only [depth_add_one_toNat hdeep, List.length_cons, h.depth]
    | _ => exact h.depth
  bound := by
    cases hr with
    | entered _ hdeep _ =>
      simp only [UInt32.le_iff_toNat_le, depth_add_one_toNat hdeep, ← h.limits_eq]
      exact Nat.lt_of_not_le hdeep
    | _ => exact h.bound
  attempts := by
    simp only [hr.attempts, count_attempts_toNat, h.attempts, tries, List.countP_append,
      List.countP_singleton, Event.isTry, if_true]
    omega
  exceeded := by
    simp only [hr.exceeded, h.exceeded, List.mem_append, List.mem_singleton, or_and_right,
      exists_or, exists_eq_left, Event.isExceeded]
  spent := by
    intro ⟨j, hj⟩
    simp only [List.mem_append, List.mem_singleton] at hj
    rw [hr.attempts]
    -- The number of attempts never goes down, and this attempt was one too many itself.
    cases hj with
    | inl hj =>
      have hspent := h.spent ⟨j, hj⟩
      simp only [UInt32.lt_iff_toNat_lt, count_attempts_toNat] at hspent ⊢
      have := g.attempts.toNat_lt
      unfold maxAttempts
      omega
    | inr hj =>
      cases hj
      cases hr with
      | tooMany hmany => exact h.limits_eq ▸ hmany

theorem miss (h : Accounts limits es g) (k : κ) :
    Accounts limits (es ++ [.missed k]) g where
  limits_eq := h.limits_eq
  nodup := h.nodup
  visiting j := by simp [inside_concat, ← h.visiting]
  depth := h.depth
  bound := h.bound
  attempts := by simp [h.attempts, tries, Event.isTry]
  exceeded := by simp [h.exceeded, or_and_right, exists_or, Event.isExceeded]
  spent := by simpa using h.spent

theorem due (h : Accounts limits es g) (hr : Replies g k a g') :
    Due limits (tries es) g.visiting.length (Inside es k) a := by
  have hmany_iff : g.limits.entries < g.count.attempts ↔
      limits.entries.toNat < min (tries es + 1) maxAttempts := by
    simp only [h.limits_eq, UInt32.lt_iff_toNat_lt, count_attempts_toNat, h.attempts]
    omega
  have hdeep_iff : g.limits.depth ≤ g.depth ↔ limits.depth.toNat ≤ g.visiting.length := by
    simp only [h.limits_eq, UInt32.le_iff_toNat_le, h.depth]
  have hfew_of (hmany : ¬g.limits.entries < g.count.attempts) :
      min (tries es + 1) maxAttempts ≤ limits.entries.toNat :=
    Nat.not_lt.1 fun hlt => hmany (hmany_iff.2 hlt)
  have hshallow_of (hdeep : ¬g.limits.depth ≤ g.depth) :
      g.visiting.length < limits.depth.toNat :=
    Nat.not_le.1 fun hle => hdeep (hdeep_iff.2 hle)
  cases hr with
  | tooMany hmany => exact hmany_iff.1 hmany
  | tooDeep hmany hdeep => exact ⟨hfew_of hmany, hdeep_iff.1 hdeep⟩
  | cycle hmany hdeep hk => exact ⟨hfew_of hmany, hshallow_of hdeep, (h.visiting k).1 hk⟩
  | entered hmany hdeep hk =>
    exact ⟨hfew_of hmany, hshallow_of hdeep, fun hin => hk ((h.visiting k).2 hin)⟩

end Accounts

variable [DecidableEq κ]

/-! ## Runs -/

/-- The events after the last reset. -/
def sinceReset (es : List (Event κ)) : List (Event κ) := es.rtakeWhile (· ≠ .reset)

theorem sinceReset_concat {es : List (Event κ)} {e : Event κ} (he : e ≠ .reset) :
    sinceReset (es ++ [e]) = sinceReset es ++ [e] :=
  List.rtakeWhile_concat_pos _ _ _ (decide_eq_true he)

theorem sinceReset_concat_reset (es : List (Event κ)) : sinceReset (es ++ [.reset]) = [] :=
  List.rtakeWhile_concat_neg _ _ _ (by simp)

/-- What a call comes to. A leave that fails changes nothing. -/
def answer (g : Guard κ) : Call κ → Event κ × Guard κ
  | .enter k => (.tried k (g.enter k).1, (g.enter k).2)
  | .leave k =>
    match g.leave k with
    | .ok outside => (.left k, outside)
    | .error _ => (.missed k, g)
  | .reset => (.reset, g.reset)

/-- The events of a sequence of calls, and what the guard is after it. -/
def run (g : Guard κ) : List (Call κ) → List (Event κ) × Guard κ
  | [] => ([], g)
  | c :: cs => ((g.answer c).1 :: ((g.answer c).2.run cs).1, ((g.answer c).2.run cs).2)

theorem call_answer (g : Guard κ) (c : Call κ) : (g.answer c).1.call = c := by
  cases c with
  | enter k => rfl
  | leave k => cases h : g.leave k <;> simp only [answer, h, Event.call]
  | reset => rfl

/-- Every call has its event. -/
theorem map_call_run (g : Guard κ) (cs : List (Call κ)) : (g.run cs).1.map Event.call = cs := by
  induction cs generalizing g with
  | nil => rfl
  | cons c cs ih => simp only [run, List.map_cons, call_answer, ih]

theorem run_append (g : Guard κ) (cs ds : List (Call κ)) :
    g.run (cs ++ ds) = ((g.run cs).1 ++ ((g.run cs).2.run ds).1, ((g.run cs).2.run ds).2) := by
  induction cs generalizing g with
  | nil => rfl
  | cons c cs ih => simp only [List.cons_append, run, ih]

/-! ## One call -/

theorem replies_enter (g : Guard κ) (k : κ) : Replies g k (g.enter k).1 (g.enter k).2 := by
  unfold enter
  split
  · next hmany => exact .tooMany hmany
  · next hmany =>
    split
    · next hdeep => exact .tooDeep hmany hdeep
    · next hdeep =>
      split
      · next hk => exact .cycle hmany hdeep (isVisiting_iff.1 hk)
      · next hk => exact .entered hmany hdeep fun hmem => hk (isVisiting_iff.2 hmem)

theorem leave_of_mem {g : Guard κ} {k : κ} (h : k ∈ g.visiting) : g.leave k =
    .ok { g with
      visiting := g.visiting.erase k
      depth := if g.depth = 0 then 0 else g.depth - 1 } :=
  if_pos (isVisiting_iff.2 h)

theorem leave_of_not_mem {g : Guard κ} {k : κ} (h : k ∉ g.visiting) :
    g.leave k = .error .notVisiting :=
  if_neg fun hk => h (isVisiting_iff.1 hk)

namespace Accounts

variable {limits : Limits} {es : List (Event κ)} {g : Guard κ}

theorem leave (h : Accounts limits es g) {k : κ} (hk : k ∈ g.visiting) :
    Accounts limits (es ++ [.left k]) { g with
      visiting := g.visiting.erase k
      depth := if g.depth = 0 then 0 else g.depth - 1 } := by
  have hpos : 0 < g.visiting.length := List.length_pos_of_mem hk
  have hne : g.depth ≠ 0 := by
    intro hzero
    have hdepth := h.depth
    simp only [hzero, UInt32.toNat_zero] at hdepth
    omega
  have hone : (1 : UInt32) ≤ g.depth := by
    simp only [UInt32.le_iff_toNat_le, h.depth, UInt32.toNat_one]
    exact hpos
  have hdepth : (if g.depth = 0 then 0 else g.depth - 1).toNat = g.depth.toNat - 1 := by
    simp only [if_neg hne, UInt32.toNat_sub_of_le _ _ hone, UInt32.toNat_one]
  exact {
    limits_eq := h.limits_eq
    nodup := h.nodup.erase k
    visiting := fun j => by
      simp only [inside_concat, ← h.visiting, h.nodup.mem_erase_iff]
      simp [eq_comm]
    depth := by simp only [hdepth, List.length_erase_of_mem hk, h.depth]
    bound := by
      have hbound := h.bound
      simp only [UInt32.le_iff_toNat_le, hdepth] at hbound ⊢
      omega
    attempts := by simp [h.attempts, tries, Event.isTry]
    exceeded := by simp [h.exceeded, or_and_right, exists_or, Event.isExceeded]
    spent := by simpa using h.spent }

/-- The step: one call more, after any events before. -/
theorem answer (h : Accounts limits (sinceReset es) g) (c : Call κ) :
    Accounts limits (sinceReset (es ++ [(g.answer c).1])) (g.answer c).2 := by
  cases c with
  | enter k =>
    simp only [Guard.answer, sinceReset_concat (by simp : Event.tried k _ ≠ .reset)]
    exact h.attempt (g.replies_enter k)
  | leave k =>
    by_cases hk : k ∈ g.visiting
    · simp only [Guard.answer, leave_of_mem hk, sinceReset_concat (by simp : Event.left k ≠ .reset)]
      exact h.leave hk
    · simp only [Guard.answer, leave_of_not_mem hk,
        sinceReset_concat (by simp : Event.missed k ≠ .reset)]
      exact h.miss k
  | reset =>
    simp only [Guard.answer, sinceReset_concat_reset, reset, h.limits_eq]
    exact .new limits

theorem run (h : Accounts limits (sinceReset es) g) (cs : List (Call κ)) :
    Accounts limits (sinceReset (es ++ (g.run cs).1)) (g.run cs).2 := by
  induction cs generalizing es g with
  | nil => simpa [Guard.run] using h
  | cons c cs ih => simpa [Guard.run] using ih (h.answer c)

theorem of_run (limits : Limits) (cs : List (Call κ)) :
    Accounts limits (sinceReset ((Guard.new limits).run cs).1) ((Guard.new limits).run cs).2 := by
  have hfresh : Accounts limits (sinceReset []) (Guard.new limits : Guard κ) := .new limits
  exact hfresh.run cs

theorem enter_eq_iff (h : Accounts limits es g) (k : κ) (a : Admission) :
    (g.enter k).1 = a ↔ Due limits (tries es) g.visiting.length (Inside es k) a := by
  have hdue := h.due (g.replies_enter k)
  exact ⟨fun ha => ha ▸ hdue, hdue.unique⟩

/-- After an attempt too many, every attempt is one. -/
theorem enter_spent (h : Accounts limits es g) (hspent : ∃ k, .tried k .tooMany ∈ es) (k : κ) :
    (g.enter k).1 = .tooMany := by
  have hfew := h.spent hspent
  have hsize := limits.entries.toNat_lt
  simp only [h.enter_eq_iff, Due]
  simp only [UInt32.lt_iff_toNat_lt, h.attempts] at hfew
  omega

end Accounts

/-- Whatever sequence of calls a fresh guard is asked, it says of the events since the last reset
    which keys are inside, how many there are, how many attempts there have been and whether one
    was refused because of a limit. The same events decide what the next call comes to. -/
theorem run_accounts (limits : Limits) (calls : List (Call κ)) :
    let g := ((new limits).run calls).2
    let es := sinceReset ((new limits).run calls).1
    ((new limits).run calls).1.map Event.call = calls ∧ Accounts limits es g ∧
      (∀ k a, (g.enter k).1 = a ↔ Due limits (tries es) g.visiting.length (Inside es k) a) ∧
      ((∃ k, .tried k .tooMany ∈ es) → ∀ k, (g.enter k).1 = .tooMany) ∧
      (∀ k, Inside es k → (g.answer (.leave k)).1 = .left k) ∧
      (∀ k, ¬Inside es k → g.answer (.leave k) = (.missed k, g)) := by
  intro g es
  have h : Accounts limits es g := .of_run limits calls
  refine ⟨map_call_run _ calls, h, h.enter_eq_iff, h.enter_spent, ?_, ?_⟩
  · intro k hk
    simp only [answer, leave_of_mem ((h.visiting k).2 hk)]
  · intro k hk
    simp only [answer, leave_of_not_mem fun hmem => hk ((h.visiting k).1 hmem)]

end Guard

end QualifiedInference
