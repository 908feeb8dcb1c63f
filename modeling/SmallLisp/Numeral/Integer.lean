import SmallLisp.Numeral.Power
import SmallLisp.Text.Blank
import SmallLisp.Text.DecimalDigit

/-!
Integers as text. An integer is written in plain decimal. It is read with an optional sign, digits
of any script, and single underscores between neighbouring digits. Texts of more than `maxDigits`
digits are neither read nor written.
-/

namespace SmallLisp.Numeral

open Text

/-- The most digits that an integer text may have. -/
def maxDigits : Nat := 4300

/-- The values of a non-empty run of digits, where one underscore may stand between neighbours. -/
def groupedDigits? : List Char → Option (List Nat)
  | [] => none
  | c :: rest =>
    match digitValue? c with
    | none => none
    | some d =>
      match rest with
      | [] => some [d]
      | '_' :: more => (groupedDigits? more).map (d :: ·)
      | e :: more => (groupedDigits? (e :: more)).map (d :: ·)

/-- The base ten value of a digit sequence. -/
def positional (ds : List Nat) : Nat :=
  ds.foldl (fun n d => 10 * n + d) 0

/-- Split off one leading sign; the flag says whether it was a minus. -/
def splitSign : List Char → Bool × List Char
  | '-' :: cs => (true, cs)
  | '+' :: cs => (false, cs)
  | cs => (false, cs)

def signed (negative : Bool) (n : Nat) : Int :=
  if negative then -(n : Int) else n

/-- Read an integer, ignoring white space around it. -/
def readInt? (cs : List Char) : Option Int :=
  let (negative, body) := splitSign (trim isSpacing cs)
  match groupedDigits? body with
  | some ds => if ds.length ≤ maxDigits then some (signed negative (positional ds)) else none
  | none => none

/-- The character of a digit value. -/
def digitChar (d : Nat) : Char := Char.ofNat (0x30 + d)

/-- The decimal digits of `n` in front of `tail`. -/
def decimalOnto (n : Nat) (tail : List Char) : List Char :=
  if n < 10 then digitChar n :: tail
  else decimalOnto (n / 10) (digitChar (n % 10) :: tail)
termination_by n
decreasing_by omega

/-- The decimal digits of `n`, without leading zeros. -/
def decimal (n : Nat) : List Char := decimalOnto n []

/-- The text of an integer. -/
def intChars : Int → List Char
  | .ofNat n => decimal n
  | .negSucc n => '-' :: decimal (n + 1)

def writeInt (n : Int) : String := String.ofList (intChars n)

/-- Whether the text of an integer has at most `maxDigits` digits. -/
def fits (n : Int) : Bool := n.natAbs < tenPow maxDigits

end SmallLisp.Numeral
