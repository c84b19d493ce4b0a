-- SUMMARY: Binary tries keyed by natural numbers.
/-!
# Tries over numbers

A table keyed by numbers, as deep as a number has binary digits. The value at `0` is at the
root; the value at `n + 1` is at `n / 2` in the child for the parity of `n`.
-/

namespace QualifiedInference

inductive BitTrie (α : Type) where
  | leaf
  | node (here : Option α) (even odd : BitTrie α)

namespace BitTrie

variable {α : Type}

instance : EmptyCollection (BitTrie α) := ⟨leaf⟩

def here? : BitTrie α → Option α
  | leaf => none
  | node here _ _ => here

def even : BitTrie α → BitTrie α
  | leaf => leaf
  | node _ even _ => even

def odd : BitTrie α → BitTrie α
  | leaf => leaf
  | node _ _ odd => odd

def get? : BitTrie α → Nat → Option α
  | leaf, _ => none
  | node here _ _, 0 => here
  | node _ even odd, n + 1 => if n % 2 = 0 then even.get? (n / 2) else odd.get? (n / 2)

/-- Puts a value at `n`, unless that takes more than `depth` steps. -/
def insertWithin (a : α) : (depth : Nat) → Nat → BitTrie α → BitTrie α
  | 0, _, t => t
  | _ + 1, 0, t => node (some a) t.even t.odd
  | depth + 1, n + 1, t =>
    if n % 2 = 0 then node t.here? (insertWithin a depth (n / 2) t.even) t.odd
    else node t.here? t.even (insertWithin a depth (n / 2) t.odd)

def insert (t : BitTrie α) (n : Nat) (a : α) : BitTrie α := insertWithin a (n + 1) n t

theorem get?_empty (n : Nat) : (∅ : BitTrie α).get? n = none := rfl

theorem get?_zero (t : BitTrie α) : t.get? 0 = t.here? := by
  cases t <;> rfl

theorem get?_succ (t : BitTrie α) (n : Nat) :
    t.get? (n + 1) = if n % 2 = 0 then t.even.get? (n / 2) else t.odd.get? (n / 2) := by
  cases t with
  | leaf => simp [get?, even, odd]
  | node => rfl

theorem get?_insertWithin (a : α) {depth n : Nat} (h : n < depth) (t : BitTrie α) (m : Nat) :
    (insertWithin a depth n t).get? m = if m = n then some a else t.get? m := by
  induction depth generalizing n t m with
  | zero => exact absurd h (Nat.not_lt_zero n)
  | succ depth ih =>
    cases n with
    | zero =>
      cases m with
      | zero => rfl
      | succ m => simp [insertWithin, get?, get?_succ t]
    | succ n =>
      have hn : n / 2 < depth := by omega
      unfold insertWithin
      cases m with
      | zero =>
        split <;> simp [get?, get?_zero]
      | succ m =>
        have hiff : m + 1 = n + 1 ↔ m % 2 = n % 2 ∧ m / 2 = n / 2 := by omega
        split <;> by_cases hm : m % 2 = 0 <;> simp [get?, get?_succ t, ih hn, hm] <;> grind

theorem get?_insert (t : BitTrie α) (n m : Nat) (a : α) :
    (t.insert n a).get? m = if m = n then some a else t.get? m :=
  get?_insertWithin a (Nat.lt_succ_self n) t m

end BitTrie

end QualifiedInference
