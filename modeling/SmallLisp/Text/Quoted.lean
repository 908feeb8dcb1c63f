import SmallLisp.Text.Printable

/-!
Quoted texts. The inspected form of a text stands in single quotes, or in double quotes when it
holds a single and no double quote; what is not printable is shown by its code point. The written
form stands in double quotes and escapes only the backslash, the double quote and the line feed, so
that the reader gives the text back.
-/

namespace SmallLisp.Text

/-- One hexadecimal digit in lower case. -/
def hexDigit (d : Nat) : Char :=
  if d < 10 then Char.ofNat (0x30 + d) else Char.ofNat (0x57 + d)

/-- The last `width` hexadecimal digits of `n`. -/
def hexDigits : (width : Nat) → (n : Nat) → List Char
  | 0, _ => []
  | width + 1, n => hexDigits width (n / 16) ++ [hexDigit (n % 16)]

/-- A character shown by its code point. -/
def codePointEscape (c : Char) : List Char :=
  if c.toNat ≤ 0xFF then '\\' :: 'x' :: hexDigits 2 c.toNat
  else if c.toNat ≤ 0xFFFF then '\\' :: 'u' :: hexDigits 4 c.toNat
  else '\\' :: 'U' :: hexDigits 8 c.toNat

/-- The quotation mark of a text's inspected form. -/
def quotationMark (cs : List Char) : Char :=
  if cs.contains '\x27' && !cs.contains '\x22' then '\x22' else '\x27'

def inspectChar (mark c : Char) : List Char :=
  if c = mark ∨ c = '\\' then ['\\', c]
  else if c = '\t' then ['\\', 't']
  else if c = '\n' then ['\\', 'n']
  else if c = '\r' then ['\\', 'r']
  else if isPrintable c then [c]
  else codePointEscape c

/-- The inspected form of a text. -/
def inspect (s : String) : String :=
  let mark := quotationMark s.toList
  String.ofList (mark :: s.toList.flatMap (inspectChar mark) ++ [mark])

def writeChar (c : Char) : List Char :=
  if c = '\\' ∨ c = '\x22' then ['\\', c]
  else if c = '\n' then ['\\', 'n']
  else [c]

/-- The written form of a text. -/
def write (s : String) : String :=
  String.ofList ('\x22' :: s.toList.flatMap writeChar ++ ['\x22'])

end SmallLisp.Text
