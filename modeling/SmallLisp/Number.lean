import SmallLisp.Numeral.Double

/-!
Numbers: unbounded integers and doubles. Mixed arithmetic turns the integer into the nearest double;
comparisons are exact.
-/

namespace SmallLisp

inductive Number where
  | int (n : Int)
  | float (x : Float)

/-- Why an operation on numbers has no result. -/
inductive RangeError where
  /-- An integer has no nearest finite double. -/
  | integerTooLarge
  /-- The quotient of two integers has no nearest finite double. -/
  | quotientTooLarge
  | zeroDivisor

def RangeError.message : RangeError → String
  | .integerTooLarge => "int too large to convert to float"
  | .quotientTooLarge => "integer division result too large for a float"
  | .zeroDivisor => "Division by zero"

namespace Number

open Numeral

/-- The nearest double to an integer. -/
def floatOfInt (n : Int) : Except RangeError Float :=
  if overflows n.natAbs 1 then .error .integerTooLarge
  else .ok (nearest (n < 0) n.natAbs 1)

/-- The number as a double. -/
def toFloat : Number → Except RangeError Float
  | .int n => floatOfInt n
  | .float x => .ok x

/-- Combine two numbers: exactly when both are integers, else as doubles. -/
def combine (exact : Int → Int → Int) (rounded : Float → Float → Float) :
    Number → Number → Except RangeError Number
  | .int m, .int n => .ok (.int (exact m n))
  | a, b => do return .float (rounded (← a.toFloat) (← b.toFloat))

def add : Number → Number → Except RangeError Number := combine (· + ·) (· + ·)

def sub : Number → Number → Except RangeError Number := combine (· - ·) (· - ·)

def mul : Number → Number → Except RangeError Number := combine (· * ·) (· * ·)

def neg : Number → Number
  | .int n => .int (-n)
  | .float x => .float (-x)

/-- The double nearest to the quotient of two integers; a zero takes its sign from the operands. -/
def divInt (m n : Int) : Except RangeError Number :=
  if n = 0 then .error .zeroDivisor
  else if overflows m.natAbs n.natAbs then .error .quotientTooLarge
  else .ok (.float (nearest ((m < 0) != (n < 0)) m.natAbs n.natAbs))

/-- Division always gives a double. -/
def div : Number → Number → Except RangeError Number
  | .int m, .int n => divInt m n
  | a, b => do
    let x ← a.toFloat
    let y ← b.toFloat
    if y == 0 then .error .zeroDivisor else .ok (.float (x / y))

/-- The order of an integer and a double, `none` when the double is not a number. -/
def compareIntFloat (n : Int) (x : Float) : Option Ordering :=
  match magnitude x with
  | .nan => none
  | .infinite => some (if isNegative x then .gt else .lt)
  | .finite mantissa scale =>
    let m : Int := if isNegative x then -(mantissa : Int) else mantissa
    if 0 ≤ scale then some (compare n (m * twoPow scale.toNat))
    else some (compare (n * twoPow (-scale).toNat) m)

/-- The order of two doubles, `none` when one of them is not a number. -/
def compareFloat (x y : Float) : Option Ordering :=
  if x < y then some .lt else if x == y then some .eq else if y < x then some .gt else none

/-- The order of two numbers, `none` when one of them is not a number. -/
def order : Number → Number → Option Ordering
  | .int m, .int n => some (compare m n)
  | .int m, .float y => compareIntFloat m y
  | .float x, .int n => (compareIntFloat n x).map Ordering.swap
  | .float x, .float y => compareFloat x y

/-- Whether two numbers are numerically equal. -/
def same (a b : Number) : Bool := a.order b == some .eq

end Number

end SmallLisp
