-- SUMMARY: Guards along chain walks: straight and balanced ones.
import QualifiedInference.Guard
/-!
# Guards of chain walks

A walk along a chain of aliases enters one key after the other and leaves them in reverse. On
its way down the guard is `Straight`: its counters agree with the keys it visits, so it refuses
a key for being visited or for the depth, never for the number of entries. `Balanced` guards
visit the same keys.
-/

namespace QualifiedInference

namespace Guard

variable {κ : Type}

/-- The number of attempts at which a guard stops counting. -/
def maxAttempts : Nat := 4294967295

theorem count_attempts_toNat (g : Guard κ) :
    g.count.attempts.toNat = min (g.attempts.toNat + 1) maxAttempts := by
  have hbound := g.attempts.toNat_lt
  unfold count maxAttempts
  split
  · next h => simp [h]
  · next h =>
    have hne : g.attempts.toNat ≠ 4294967295 := fun heq => h (UInt32.toNat_inj.1 heq)
    simp only [UInt32.toNat_add, UInt32.toNat_one]
    omega

/-- Below its limit the depth does not wrap around. -/
theorem depth_add_one_toNat {g : Guard κ} (h : ¬g.limits.depth ≤ g.depth) :
    (g.depth + 1).toNat = g.depth.toNat + 1 := by
  have hbound := g.limits.depth.toNat_lt
  simp only [UInt32.le_iff_toNat_le] at h
  simp only [UInt32.toNat_add, UInt32.toNat_one]
  omega

/-- How many keys of one chain of aliases are visited at once. -/
def maxDepth : Nat := Limits.aliasChain.depth.toNat

/-- A guard that has been entered once for each key it visits. -/
structure Straight (g : Guard κ) : Prop where
  limits : g.limits = .aliasChain
  depth : g.depth.toNat = g.visiting.length
  attempts : g.attempts.toNat = g.visiting.length
  bound : g.visiting.length ≤ maxDepth

/-- The two guards are in the same place of a walk, whatever they have counted. -/
structure Balanced (g g' : Guard κ) : Prop where
  limits : g'.limits = g.limits
  visiting : g'.visiting = g.visiting
  depth : g'.depth = g.depth

theorem Balanced.refl (g : Guard κ) : Balanced g g := ⟨rfl, rfl, rfl⟩

theorem straight_new : (new Limits.aliasChain : Guard κ).Straight :=
  ⟨rfl, rfl, rfl, Nat.zero_le _⟩

theorem Straight.count_attempts {g : Guard κ} (h : g.Straight) :
    g.count.attempts.toNat = g.visiting.length + 1 := by
  have hbound : g.visiting.length ≤ 512 := h.bound
  simp only [count_attempts_toNat, h.attempts, maxAttempts]
  omega

/-- A straight guard is never entered too often. -/
theorem Straight.attempts_le {g : Guard κ} (h : g.Straight) :
    ¬g.limits.entries < g.count.attempts := by
  have hbound : g.visiting.length ≤ 512 := h.bound
  have hentries : Limits.aliasChain.entries.toNat = 100000 := rfl
  simp only [h.limits, UInt32.lt_iff_toNat_lt, h.count_attempts, hentries]
  omega

variable [DecidableEq κ]

/-- A straight guard refuses a key that it visits, and any key at the depth limit. -/
theorem Straight.enter_refused {g : Guard κ} (h : g.Straight) {k : κ}
    (hk : k ∈ g.visiting ∨ maxDepth ≤ g.visiting.length) :
    (g.enter k).1 ≠ .entered ∧ Balanced g (g.enter k).2 := by
  unfold enter
  split
  · exact ⟨(by intro h; cases h), ⟨rfl, rfl, rfl⟩⟩
  · split
    · exact ⟨(by intro h; cases h), ⟨rfl, rfl, rfl⟩⟩
    · next hdeep =>
      simp only [h.limits, UInt32.le_iff_toNat_le, h.depth] at hdeep
      rw [if_pos (isVisiting_iff.2 (hk.resolve_right hdeep))]
      exact ⟨(by intro h; cases h), ⟨rfl, rfl, rfl⟩⟩

theorem Straight.enter_entered {g : Guard κ} (h : g.Straight) {k : κ} (hk : k ∉ g.visiting)
    (hlt : g.visiting.length < maxDepth) :
    ∃ inside, g.enter k = (.entered, inside) ∧ inside.Straight ∧
      inside.visiting = k :: g.visiting ∧ inside.depth = g.depth + 1 := by
  have hcount := h.count_attempts
  have hlt' : g.visiting.length < 512 := hlt
  have hfew := h.attempts_le
  have hshallow : ¬g.limits.depth ≤ g.depth := by
    simp only [h.limits, UInt32.le_iff_toNat_le, h.depth]
    exact Nat.not_le.2 hlt
  have hnew : ¬g.isVisiting k := fun hv => hk (isVisiting_iff.1 hv)
  refine ⟨{ g.count with visiting := k :: g.visiting, depth := g.depth + 1 }, ?_, ?_, rfl, rfl⟩
  · simp [enter, hfew, hshallow, hnew]
  · refine ⟨h.limits, ?_, ?_, ?_⟩
    · simp only [depth_add_one_toNat hshallow, h.depth, List.length_cons]
    · simp only [List.length_cons]
      exact hcount
    · simp only [List.length_cons]
      exact hlt

theorem Straight.of_entered {g inside : Guard κ} {k : κ} (h : g.Straight)
    (he : g.enter k = (.entered, inside)) : k ∉ g.visiting ∧ g.visiting.length < maxDepth := by
  refine ⟨(visiting_of_entered he).1, Nat.lt_of_not_le fun hdeep => ?_⟩
  exact (h.enter_refused (.inr hdeep)).1 (congrArg Prod.fst he)

theorem Straight.of_refused {g : Guard κ} {k : κ} (h : g.Straight)
    (he : (g.enter k).1 ≠ .entered) : k ∈ g.visiting ∨ maxDepth ≤ g.visiting.length := by
  refine Decidable.byContradiction fun hcause => ?_
  simp only [not_or, Nat.not_le] at hcause
  obtain ⟨inside, he', -⟩ := h.enter_entered hcause.1 hcause.2
  exact he (congrArg Prod.fst he')

/-- A guard that is left for the last key it was entered for is where it was before. -/
theorem Balanced.leave {g inside below : Guard κ} {k : κ} (h : g.Straight)
    (hlt : g.visiting.length < maxDepth) (hlimits : inside.limits = g.limits)
    (hvisiting : inside.visiting = k :: g.visiting) (hdepth : inside.depth = g.depth + 1)
    (hbelow : Balanced inside below) : ∃ outside, below.leave k = .ok outside ∧
      Balanced g outside := by
  have hv : below.visiting = k :: g.visiting := hbelow.visiting.trans hvisiting
  have hin : below.isVisiting k := isVisiting_iff.2 (by simp [hv])
  have hlt' : g.visiting.length < 512 := hlt
  have hd : below.depth = g.depth + 1 := hbelow.depth.trans hdepth
  have hpos : g.depth + 1 ≠ 0 := by
    intro hzero
    have := congrArg UInt32.toNat hzero
    simp only [UInt32.toNat_add, h.depth, UInt32.toNat_one, UInt32.toNat_zero] at this
    omega
  refine ⟨_, if_pos hin, hbelow.limits.trans hlimits, ?_, ?_⟩
  · simp [hv]
  · dsimp only
    rw [hd, if_neg hpos]
    exact UInt32.add_sub_cancel _ _

end Guard

end QualifiedInference
