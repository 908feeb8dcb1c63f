import SmallLisp.Numeral.Power

/-!
Double precision numbers as exact quantities. A finite double is a mantissa below `2^53` times a
power of two not below `2^(-1074)`; a non-negative ratio of naturals has a nearest double, a tie
going to the even mantissa.
-/

namespace SmallLisp.Numeral

/-- The exact content of a double, sign aside. -/
inductive Magnitude where
  /-- The quantity `mantissa * 2 ^ scale`. -/
  | finite (mantissa : Nat) (scale : Int)
  | infinite
  | nan

/-- Whether the sign bit is set. -/
def isNegative (x : Float) : Bool := twoPow 63 ≤ x.toBits.toNat

/-- Take a double apart. -/
def magnitude (x : Float) : Magnitude :=
  let bits : Nat := x.toBits.toNat % twoPow 63
  let exponent : Nat := bits / twoPow 52
  let fraction : Nat := bits % twoPow 52
  if exponent = 0x7FF then
    if fraction = 0 then .infinite else .nan
  else if exponent = 0 then .finite fraction (-1074)
  else .finite (fraction + twoPow 52) ((exponent : Int) - 1075)

/-- Multiply the ratio `num / den` by `2 ^ k`, keeping it a ratio of naturals. -/
def scaleRatio (num den : Nat) (k : Int) : Nat × Nat :=
  if 0 ≤ k then (num * twoPow k.toNat, den) else (num, den * twoPow (-k).toNat)

/-- The quotient rounded to the nearest natural, a half going to the even neighbour. -/
def roundHalfEven (num den : Nat) : Nat :=
  let q := num / den
  let r := num % den
  if 2 * r < den then q
  else if den < 2 * r then q + 1
  else if q % 2 = 0 then q else q + 1

/-- The largest `k` with `2 ^ k ≤ num / den`, for positive arguments. -/
def floorLog2 (num den : Nat) : Int :=
  let k : Int := (num.log2 : Int) - den.log2
  let (a, b) := scaleRatio num den (-k)
  if a < b then k - 1 else k

/-- The bit pattern of infinity. -/
def infinityBits : Nat := 0x7FF * twoPow 52

/-- The bit pattern of the double nearest to `num / den`. The implicit leading bit of a normal
mantissa carries into the exponent field, so one sum covers subnormal and normal results and the
mantissas that round up to the next power of two. -/
def nearestBits (num den : Nat) : Nat :=
  if num = 0 then 0
  else
    let scale := max (floorLog2 num den - 52) (-1074)
    let (a, b) := scaleRatio num den (-scale)
    min ((scale + 1074).toNat * twoPow 52 + roundHalfEven a b) infinityBits

/-- The double nearest to `num / den` with the given sign, infinite when out of range. -/
def nearest (negative : Bool) (num den : Nat) : Float :=
  let sign := if negative then twoPow 63 else 0
  Float.ofBits (UInt64.ofNat (sign + nearestBits num den))

/-- Whether the nearest double to `num / den` is infinite. -/
def overflows (num den : Nat) : Bool := nearestBits num den == infinityBits

end SmallLisp.Numeral
