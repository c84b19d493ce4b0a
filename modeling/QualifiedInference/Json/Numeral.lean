-- SUMMARY: Numbers in JSON texts and the integers or floats that they stand for.
import QualifiedInference.Json.Front
/-!
# Numbers in JSON texts

A number is read digit by digit into a significand of 64 bits and a power of ten; digits that
no longer fit are dropped. The nearest float to the significand is then scaled in one
multiplication or division by the power of ten, or in several where the power is too small.
-/

namespace QualifiedInference

namespace Json

structure Numeral where
  negative : Bool
  whole : List Nat
  /-- The digits after the point, if there is one. -/
  fraction? : Option (List Nat)
  /-- The power of ten after an `e`, if there is one. -/
  exponent? : Option Int

namespace Numeral

/-- Appends digits to a significand until one no longer fits into 64 bits, and counts those
    that did. -/
def append (significand : Nat) : List Nat → Nat × Nat
  | [] => (significand, 0)
  | d :: ds =>
    if significand * 10 + d < UInt64.size then
      let (s, n) := append (significand * 10 + d) ds
      (s, n + 1)
    else (significand, 0)

def powerOfTen (n : Nat) : Float := Float.ofScientific 1 false n

/-- `x` times ten to the power of `e`, if that is finite. -/
def scale? (x : Float) (e : Int) : Option Float :=
  if 0 ≤ e then
    if e ≤ 308 then
      let y := x * powerOfTen e.toNat
      if y.isInf then none else some y
    else if x == 0 then some x
    else none
  else if -308 ≤ e then some (x / powerOfTen (-e).toNat)
  else if x == 0 then some x
  else scale? (x / powerOfTen 308) (e + 308)
termination_by (-e).toNat

/-- The value of a number, if it is finite. -/
def value? (n : Numeral) : Option Scalar :=
  let (s, used) := append 0 n.whole
  let fits := used = n.whole.length
  if fits ∧ n.fraction?.isNone ∧ n.exponent?.isNone ∧ !n.negative then
    some (.integer s)
  else if fits ∧ n.fraction?.isNone ∧ n.exponent?.isNone ∧ s ≠ 0 ∧ s ≤ Nat.pow 2 63 then
    some (.integer (-s))
  else
    let (s', used') := append s (n.fraction?.getD [])
    let e : Int := (n.whole.length - used : Nat) - used' + n.exponent?.getD 0
    (scale? (UInt64.ofNat s').toFloat e).map fun x => .float (if n.negative then -x else x)

end Numeral

/-! ## Reading -/

def readNumeral (cs : List Char) : Front cs.length Numeral :=
  let (negative, ⟨rest₀, h₀⟩) := readSign cs
  match readWhole rest₀ with
  | .error b => .error b
  | .ok (whole, ⟨rest₁, h₁⟩) =>
    match readFraction rest₁ with
    | .error b => .error b
    | .ok (fraction?, ⟨rest₂, h₂⟩) =>
      match readExponent rest₂ with
      | .error b => .error b
      | .ok (exponent?, ⟨rest₃, h₃⟩) =>
        .ok (⟨negative, whole, fraction?, exponent?⟩,
          ⟨rest₃, Nat.lt_of_le_of_lt h₃ (Nat.lt_of_le_of_lt h₂ (Nat.lt_of_lt_of_le h₁ h₀))⟩)

def readNumber (cs : List Char) : Front cs.length Scalar :=
  match readNumeral cs with
  | .error b => .error b
  | .ok (n, rest) =>
    match n.value? with
    | some s => .ok (s, rest)
    | none => .error .malformed

end Json

end QualifiedInference
