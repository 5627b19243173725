import Mustache.Number.Double

/-!
# The shortest numeral of a double

A double is written with the fewest decimal digits that read back as the same double, and with the
digits nearest to it among those. `Shortest.digits` finds them by exact arithmetic: every double
stands for an interval of reals, and for one, two, … digits the two numerals around the double are
tried against that interval. Seventeen digits are always enough.

How the digits are laid out — where the point goes, when an exponent is used — is a separate record,
`NumeralLayout`.
-/

namespace Mustache

/-! ## Digits -/

/-- A positive double as an interval of reals, everything in the same unit `unitNum / unitDen`: the
reals from `low` to `high` are nearer to `value` than to any other double. Its ends belong to it
when `closed` says so. -/
structure RealInterval where
  low : Nat
  value : Nat
  high : Nat
  closed : Bool
  unitNum : Nat
  unitDen : Nat
deriving DecidableEq, Repr

/-- The interval of a positive finite double. Below a power of two the doubles are half as far
apart, so there the interval reaches down only half as far. -/
def Double.interval (x : Double) : RealInterval :=
  let normal := x.exponentField ≠ 0
  let m := if normal then twoTo fractionBits + x.fraction else x.fraction
  let q : Int := (if normal then (x.exponentField : Int) - 1 else 0) + leastExponent - 2
  let down := if x.fraction = 0 ∧ 1 < x.exponentField then 1 else 2
  ⟨4 * m - down, 4 * m, 4 * m + 2, m % 2 = 0, twoTo q.toNat, twoTo (-q).toNat⟩

namespace Shortest

/-- The number of decimal digits of a natural number. -/
def digitCount (n : Nat) : Nat := (Nat.toDigits 10 n).length

/-- The least `e` with `a / b < 10 ^ e`, for positive `a` and `b`. -/
def magnitude (a b : Nat) : Int :=
  if b ≤ a then digitCount (a / b) else 1 - (digitCount ((b - 1) / a) : Int)

/-- Does `n · tenTo k` lie in the interval? -/
def isIn (i : RealInterval) (n : Nat) (k : Int) : Bool :=
  let x := n * tenTo k.toNat * i.unitDen
  let y (bound : Nat) := bound * i.unitNum * tenTo (-k).toNat
  if i.closed then y i.low ≤ x && x ≤ y i.high else y i.low < x && x < y i.high

/-- The numeral with unit `10 ^ k` in the interval that is nearest to its value, if there is one in
it at all; of two equally near, the even one. -/
def onGrid? (i : RealInterval) (k : Int) : Option Nat :=
  let a := i.value * i.unitNum * tenTo (-k).toNat
  let b := i.unitDen * tenTo k.toNat
  let lower := a / b
  match isIn i lower k, isIn i (lower + 1) k with
  | true, true => some (roundDiv a b)
  | true, false => some lower
  | false, true => some (lower + 1)
  | false, false => none

/-- The numeral with the fewest digits, at least `count` of them, when `rounds` more counts may be
tried; and the power of ten of its last digit. -/
def search (i : RealInterval) (size : Int) : Nat → Nat → Nat × Int
  | 0, count => (0, size - count)
  | rounds + 1, count =>
    match onGrid? i (size - count) with
    | some n => (n, size - count)
    | none => search i size rounds (count + 1)

/-- Digits enough to tell any two doubles apart. -/
def maxDigits : Nat := 17

/-- The digits of the shortest numeral of a positive finite double, without zeros at the end, and
the number of them that stand before the point. -/
def digits (x : Double) : Text × Int :=
  let i := x.interval
  let size := magnitude (i.value * i.unitNum) i.unitDen
  let (n, k) := search i size maxDigits 1
  let all := (Nat.toDigits 10 n).map char
  ((all.reverse.dropWhile (· = char '0')).reverse, all.length + k)

end Shortest

/-! ## Layout -/

/-- How the digits of a number are laid out. -/
structure NumeralLayout where
  /-- The exponents that are written by placing the point: from the first to the second. -/
  positional : Int × Int
  /-- What marks the exponent otherwise. -/
  mark : Text
  /-- The least number of digits of an exponent. -/
  exponentWidth : Nat
  /-- What follows a whole number. -/
  wholeEnd : Text
  infinity : Text
  nan : Text

namespace NumeralLayout

/-- The digits with the point after `point` of them. -/
def place (l : NumeralLayout) (digits : Text) (point : Int) : Text :=
  let zeros (n : Int) : Text := List.replicate n.toNat '0'
  if point ≤ 0 then char '0' :: '.' :: zeros (-point) ++ digits
  else if digits.length ≤ point then digits ++ zeros (point - digits.length) ++ l.wholeEnd
  else digits.take point.toNat ++ char '.' :: digits.drop point.toNat

/-- The digits as one before the point, times a power of ten. -/
def scientific (l : NumeralLayout) (digits : Text) (exponent : Int) : Text :=
  let power := (Nat.toDigits 10 exponent.natAbs).map char
  let padded := List.replicate (l.exponentWidth - power.length) (char '0') ++ power
  let sign : CodePoint := if exponent < 0 then '-' else '+'
  match digits with
  | [] => []
  | [d] => d :: l.mark ++ sign :: padded
  | d :: ds => d :: char '.' :: ds ++ l.mark ++ sign :: padded

/-- A double in this layout. -/
def write (l : NumeralLayout) (x : Double) : Text :=
  if x.exponentField = Double.specialField ∧ x.fraction ≠ 0 then l.nan
  else
    let magnitude :=
      if x.exponentField = Double.specialField then l.infinity
      else if x.exponentField = 0 ∧ x.fraction = 0 then l.place ['0'] 1
      else
        let (digits, point) := Shortest.digits x
        let exponent := point - 1
        if l.positional.1 ≤ exponent ∧ exponent ≤ l.positional.2 then l.place digits point
        else l.scientific digits exponent
    if x.isNegative then '-' :: magnitude else magnitude

end NumeralLayout
end Mustache
