-- SUMMARY: The shortest decimal that is read back as a given float.
/-!
# Shortest decimals

The decimal with the fewest digits that is read back as a given float, and of those with so
many digits the one nearest to the float. A float is `mantissa * 2 ^ exponent`, and the reals
that are read as it reach half way to its neighbours, ends included when the mantissa is even.
-/

namespace QualifiedInference

/-- The number `digits * 10 ^ exponent`. -/
structure Decimal where
  digits : Nat
  exponent : Int

namespace Decimal

/-- A non-negative fraction. -/
structure Ratio where
  num : Nat
  den : Nat

namespace Ratio

/-- `m * b ^ e`. -/
def scaled (m b : Nat) (e : Int) : Ratio :=
  if 0 ≤ e then ⟨m * b.pow e.toNat, 1⟩ else ⟨m, b.pow (-e).toNat⟩

def le (x y : Ratio) : Bool := x.num * y.den ≤ y.num * x.den

def lt (x y : Ratio) : Bool := x.num * y.den < y.num * x.den

/-- The distance of two fractions. -/
def dist (x y : Ratio) : Ratio :=
  ⟨(x.num * y.den - y.num * x.den) + (y.num * x.den - x.num * y.den), x.den * y.den⟩

/-- The greatest whole number that is not greater. -/
def floor (x : Ratio) : Nat := x.num / x.den

end Ratio

/-- A positive float with the reals that are read as it. -/
structure Cell where
  value : Ratio
  low : Ratio
  high : Ratio
  /-- Both ends belong to it. -/
  closed : Bool

namespace Cell

def contains (c : Cell) (x : Ratio) : Bool :=
  if c.closed then c.low.le x && x.le c.high else c.low.lt x && x.lt c.high

/-- The cell of the positive finite double with these bits. -/
def ofBits (bits : Nat) : Cell :=
  let fraction := bits % Nat.pow 2 52
  let biased := bits / Nat.pow 2 52 % Nat.pow 2 11
  let m := if biased = 0 then fraction else fraction + Nat.pow 2 52
  let e : Int := (max biased 1 : Nat) - 1075
  let below := if fraction = 0 ∧ 1 < biased then 1 else 2
  { value := .scaled m 2 e
    low := .scaled (4 * m - below) 2 (e - 2)
    high := .scaled (4 * m + 2) 2 (e - 2)
    closed := m % 2 == 0 }

end Cell

/-- Of the two neighbours of the cell's value on the grid of step `10 ^ e` the nearer one that
    lies in the cell. A tie goes to the even one. -/
def onGrid? (c : Cell) (e : Int) : Option Decimal :=
  let step := Ratio.scaled 1 10 e
  let d := Ratio.floor ⟨c.value.num * step.den, c.value.den * step.num⟩
  let at_ (d : Nat) : Ratio := ⟨d * step.num, step.den⟩
  let low := at_ d
  let high := at_ (d + 1)
  let nearLow := (c.value.dist low).lt (c.value.dist high) ||
    ((c.value.dist low).le (c.value.dist high) && d % 2 == 0)
  if c.contains low && (nearLow || !c.contains high) && d != 0 then some ⟨d, e⟩
  else if c.contains high then some ⟨d + 1, e⟩
  else none

/-- The coarsest of the grids from step `10 ^ e` downwards with a point in the cell. -/
def coarsest? (c : Cell) (e : Int) : Nat → Option Decimal
  | 0 => none
  | n + 1 =>
    match onGrid? c e with
    | some d => some d
    | none => coarsest? c (e - 1) n

/-- Drops zeros at the end. -/
def trim (d : Decimal) : Nat → Decimal
  | 0 => d
  | n + 1 =>
    if d.digits % 10 = 0 ∧ d.digits ≠ 0 then trim ⟨d.digits / 10, d.exponent + 1⟩ n else d

/-- The shortest decimal for the positive finite double with these bits. No double is as great
    as `10 ^ 309` or needs a step smaller than `10 ^ (-324)`. -/
def shortest (bits : Nat) : Decimal :=
  ((coarsest? (.ofBits bits) 309 634).getD ⟨0, 0⟩).trim 20

end Decimal

end QualifiedInference
