import SmallLisp.Numeral.Double

/-!
The shortest decimal that reads back as a given double: of all decimals with the fewest digits in
the double's rounding interval, the one nearest to its exact value, a tie going to the even digit.
-/

namespace SmallLisp.Numeral

/-- The quantity `digits * 10 ^ exponent`. -/
structure Decimal where
  digits : Nat
  exponent : Int

/-- The ratio `num / den` divided by `10 ^ k`. -/
def divTenPow (num den : Nat) (k : Int) : Nat × Nat :=
  if 0 ≤ k then (num, den * tenPow k.toNat) else (num * tenPow (-k).toNat, den)

/-- Whether `digits * 10 ^ exponent` lies in the interval of the reals that round to
`mantissa * 2 ^ scale`. All bounds are compared in quarters of the last place: the interval is half
a place wide on either side, but a quarter below a power of two, and its ends belong to it when the
mantissa is even. -/
def Decimal.roundsTo (d : Decimal) (mantissa : Nat) (scale : Int) : Bool :=
  let lower := if mantissa = twoPow 52 ∧ -1074 < scale then 4 * mantissa - 1 else 4 * mantissa - 2
  let upper := 4 * mantissa + 2
  let (lo, loDen) := scaleRatio lower 1 (scale - 2)
  let (hi, hiDen) := scaleRatio upper 1 (scale - 2)
  let (a, b) := divTenPow d.digits 1 (-d.exponent)
  let below := lo * b
  let value := a * loDen
  let above := hi * b
  let value' := a * hiDen
  if mantissa % 2 = 0 then below ≤ value && value' ≤ above
  else below < value && value' < above

/-- The better of the two decimals with exponent `exponent` next to `num / den`, if one of them
rounds to `mantissa * 2 ^ scale`. -/
def neighbour? (mantissa : Nat) (scale : Int) (num den : Nat) (exponent : Int) : Option Decimal :=
  let (a, b) := divTenPow num den exponent
  let low : Decimal := ⟨a / b, exponent⟩
  let high : Decimal := ⟨a / b + 1, exponent⟩
  match low.roundsTo mantissa scale, high.roundsTo mantissa scale with
  | true, true => some ⟨roundHalfEven a b, exponent⟩
  | true, false => some low
  | false, true => some high
  | false, false => none

/-- The largest `k` with `10 ^ k ≤ num / den`, for positive arguments, found upwards from a guess
that is at most two too small. -/
def floorLog10 (num den : Nat) : Int :=
  let guess := floorLog2 num den * 30103 / 100000 - 1
  let reached (k : Int) : Bool := let (a, b) := divTenPow num den k; b ≤ a
  if reached (guess + 2) then guess + 2 else if reached (guess + 1) then guess + 1 else guess

/-- The shortest decimal of the positive double `mantissa * 2 ^ scale`; seventeen digits always
suffice. -/
def shortest (mantissa : Nat) (scale : Int) : Decimal :=
  let (num, den) := scaleRatio mantissa 1 scale
  let top := floorLog10 num den
  ((List.range 17).findSome? fun (n : Nat) =>
    neighbour? mantissa scale num den (top - n)).getD ⟨0, 0⟩

end SmallLisp.Numeral
