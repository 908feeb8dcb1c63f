import SmallLisp.Numeral.Integer
import SmallLisp.Numeral.Shortest

/-!
Doubles as text. A double is written with the fewest digits that read back, positionally when the
exponent of its first digit is between -4 and 15 and in exponent form otherwise. It is read from a
decimal with digits of any script, single underscores between digits, an optional point and an
optional exponent, and rounded correctly.
-/

namespace SmallLisp.Numeral

open Text

/-- Drop the zeros at the end of a digit text. -/
def dropTrailingZeros (cs : List Char) : List Char :=
  (cs.reverse.dropWhile (· == '0')).reverse

/-- Write the digits `0.d₁d₂… * 10 ^ point`, where the digits have no zeros at either end. -/
def placePoint (digits : List Char) (point : Int) : List Char :=
  let n := digits.length
  if -4 < point ∧ point ≤ 16 then
    if point ≤ 0 then '0' :: '.' :: List.replicate (-point).toNat '0' ++ digits
    else if n ≤ point.toNat then digits ++ List.replicate (point.toNat - n) '0' ++ ['.', '0']
    else digits.take point.toNat ++ '.' :: digits.drop point.toNat
  else
    let exponent := point - 1
    let size := decimal exponent.natAbs
    let padded := if size.length < 2 then '0' :: size else size
    digits.take 1 ++ (if n = 1 then [] else '.' :: digits.drop 1) ++
      'e' :: (if exponent < 0 then '-' else '+') :: padded

/-- The text of a double. -/
def writeFloat (x : Float) : String :=
  let sign := if isNegative x then ['-'] else []
  match magnitude x with
  | .nan => "nan"
  | .infinite => String.ofList (sign ++ ['i', 'n', 'f'])
  | .finite 0 _ => String.ofList (sign ++ ['0', '.', '0'])
  | .finite mantissa scale =>
    let d := shortest mantissa scale
    let all := decimal d.digits
    String.ofList (sign ++ placePoint (dropTrailingZeros all) (all.length + d.exponent))

/-- An optional run of digits. -/
def optionalDigits? : List Char → Option (List Nat)
  | [] => some []
  | cs => groupedDigits? cs

/-- The digits of a decimal without exponent, and how many of them stand after the point. -/
def readMantissa? (cs : List Char) : Option (List Nat × Nat) := do
  let whole ← optionalDigits? (cs.takeWhile (· != '.'))
  let part ← optionalDigits? ((cs.dropWhile (· != '.')).drop 1)
  if whole.isEmpty && part.isEmpty then none else some (whole ++ part, part.length)

/-- The exponent part of a decimal, from its mark on. -/
def readExponent? : List Char → Option Int
  | [] => some 0
  | _ :: cs =>
    let (negative, body) := splitSign cs
    (groupedDigits? body).map fun ds => signed negative (positional ds)

/-- The double nearest to `digits * 10 ^ exponent`. A first digit beyond `10 ^ 310` or before
`10 ^ (-330)` settles the result without computing the power. -/
def nearestDecimal (negative : Bool) (digits : List Nat) (exponent : Int) : Float :=
  let significant := digits.dropWhile (· == 0)
  let n := positional significant
  let top : Int := significant.length + exponent
  if top > 310 then nearest negative (if n = 0 then 0 else tenPow 310) 1
  else if top < -330 then nearest negative 0 1
  else if 0 ≤ exponent then nearest negative (n * tenPow exponent.toNat) 1
  else nearest negative n (tenPow (-exponent).toNat)

/-- Read a decimal, ignoring white space around it. -/
def readFloat? (cs : List Char) : Option Float := do
  let (negative, body) := splitSign (trim isSpacing cs)
  let isMark (c : Char) : Bool := c == 'e' || c == 'E'
  let (digits, places) ← readMantissa? (body.takeWhile fun c => !isMark c)
  let exponent ← readExponent? (body.dropWhile fun c => !isMark c)
  return nearestDecimal negative digits (exponent - places)

end SmallLisp.Numeral
