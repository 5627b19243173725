import Mustache.Text.Digit

/-!
# Double precision numbers

A double is the 64 bits of the binary floating-point format with an 11 bit exponent and a 52 bit
fraction. A decimal numeral denotes the double nearest to it; of two that are equally near, the one
with an even fraction.

## Main statements

* `roundDiv_mul_le`, `le_roundDiv_mul` — a rounded quotient is within half a unit of the quotient.
-/

namespace Mustache

/-- A number of the double precision format, by its bits. -/
structure Double where
  bits : UInt64
deriving DecidableEq, Repr

/-! ## Powers -/

/-- A power of two. -/
def twoTo (n : Nat) : Nat := Nat.pow 2 n

/-- A power of ten. -/
def tenTo (n : Nat) : Nat := Nat.pow 10 n

/-! ## Rounding -/

/-- The natural number nearest to `a / b`; of two equally near, the even one. -/
def roundDiv (a b : Nat) : Nat :=
  let q := a / b
  let r := a % b
  if 2 * r < b then q
  else if b < 2 * r then q + 1
  else if q % 2 = 0 then q else q + 1

theorem roundDiv_mul_le (a : Nat) {b : Nat} (hb : 0 < b) :
    2 * (roundDiv a b * b) ≤ 2 * a + b := by
  have h := Nat.div_add_mod a b
  have hr := Nat.mod_lt a hb
  have hm : b * (a / b) = (a / b) * b := Nat.mul_comm _ _
  simp only [roundDiv]
  split
  · omega
  · split
    · rw [Nat.add_mul]
      omega
    · split
      · omega
      · rw [Nat.add_mul]
        omega

theorem le_roundDiv_mul (a : Nat) {b : Nat} (hb : 0 < b) :
    2 * a ≤ 2 * (roundDiv a b * b) + b := by
  have h := Nat.div_add_mod a b
  have hr := Nat.mod_lt a hb
  have hm : b * (a / b) = (a / b) * b := Nat.mul_comm _ _
  simp only [roundDiv]
  split
  · omega
  · split
    · rw [Nat.add_mul]
      omega
    · split
      · omega
      · rw [Nat.add_mul]
        omega

namespace Double

/-! ## Parts -/

/-- The number of bits of the fraction. -/
def fractionBits : Nat := 52

/-- The power of two that the least bit of a number stands for, when it stands for the least. -/
def leastExponent : Int := -1074

/-- The exponent field of infinities and of what is no number. -/
def specialField : Nat := 0x7FF

/-- Is the sign negative? -/
def isNegative (x : Double) : Bool := twoTo 63 ≤ x.bits.toNat

/-- The exponent field. -/
def exponentField (x : Double) : Nat := x.bits.toNat / twoTo fractionBits % twoTo 11

/-- The fraction. -/
def fraction (x : Double) : Nat := x.bits.toNat % twoTo fractionBits

/-- The number with this sign and magnitude bits. -/
def ofMagnitude (negative : Bool) (magnitude : Nat) : Double :=
  ⟨UInt64.ofNat (if negative then twoTo 63 + magnitude else magnitude)⟩

/-- The infinity of a sign. -/
def infinity (negative : Bool) : Double := ofMagnitude negative (specialField * twoTo fractionBits)

/-- What is no number. -/
def nan : Double := ofMagnitude false (specialField * twoTo fractionBits + twoTo 51)

/-! ## The nearest double -/

/-- The largest `l` with `2 ^ l ≤ a / b`, for positive `a` and `b`. -/
def floorLog2 (a b : Nat) : Int :=
  let l : Int := a.log2 - b.log2
  if a * twoTo (-l).toNat < b * twoTo l.toNat then l - 1 else l

/-- The bits of the double nearest to `a / b`, without its sign. -/
def nearestMagnitude (a b : Nat) : Nat :=
  if a = 0 then 0
  else
    let q := max (floorLog2 a b - fractionBits) leastExponent
    let m := roundDiv (a * twoTo (-q).toNat) (b * twoTo q.toNat)
    min ((q - leastExponent).toNat * twoTo fractionBits + m) (specialField * twoTo fractionBits)

end Double

/-! ## Decimal numerals -/

/-- A decimal numeral: a sign, its digits as one number, and the power of ten of the last digit. -/
structure Decimal where
  negative : Bool
  digits : Nat
  exponent : Int
deriving DecidableEq, Repr

namespace Decimal

/-- The numeral with these digits before and after its point, times a power of ten. -/
def ofParts (negative : Bool) (whole fraction : Text) (exponent : Int) : Decimal :=
  ⟨negative, ((whole ++ fraction).foldl (fun n c => 10 * n + (c.toNat - 48)) 0),
    exponent - fraction.length⟩

/-- The powers of ten beyond which every numeral is infinite or zero as a double. -/
def exponentBound : Int := 400

/-- The double nearest to a numeral. Far beyond the range of the format the powers of ten are not
worked out. -/
def toDouble (d : Decimal) : Double :=
  let size := d.exponent + (Nat.toDigits 10 d.digits).length
  if d.digits = 0 ∨ size < -exponentBound then Double.ofMagnitude d.negative 0
  else if exponentBound < size then Double.infinity d.negative
  else Double.ofMagnitude d.negative
    (Double.nearestMagnitude (d.digits * tenTo d.exponent.toNat) (tenTo (-d.exponent).toNat))

end Decimal
end Mustache
