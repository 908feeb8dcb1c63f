/-!
White space. The reader skips every character of the Unicode white space classes together with the
four information separators; around a numeral the separators do not count.
-/

namespace SmallLisp.Text

/-- White space other than the information separators. -/
def isSpacing (c : Char) : Bool :=
  (0x09 ≤ c.toNat && c.toNat ≤ 0x0D) || c.toNat == 0x20 || c.toNat == 0x85 || c.toNat == 0xA0 ||
  c.toNat == 0x1680 || (0x2000 ≤ c.toNat && c.toNat ≤ 0x200A) ||
  c.toNat == 0x2028 || c.toNat == 0x2029 || c.toNat == 0x202F || c.toNat == 0x205F ||
  c.toNat == 0x3000

/-- The separators of files, groups, records and units. -/
def isSeparator (c : Char) : Bool :=
  0x1C ≤ c.toNat && c.toNat ≤ 0x1F

/-- White space between the lexemes of a program. -/
def isBlank (c : Char) : Bool :=
  isSpacing c || isSeparator c

/-- The text without the characters of a class at its two ends. -/
def trim (p : Char → Bool) (cs : List Char) : List Char :=
  ((cs.dropWhile p).reverse.dropWhile p).reverse

/-- Whether a text is empty but for white space. -/
def isBlankText (cs : List Char) : Bool :=
  cs.all isBlank

/-- The text without white space at its two ends. -/
def strip (s : String) : String :=
  String.ofList (trim isBlank s.toList)

end SmallLisp.Text
