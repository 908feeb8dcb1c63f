import SmallLisp.Reader.Datum

/-!
Literals. The lexer makes string tokens in double quotes only. A host that makes tokens itself may
put any literal into one: a text in single, double or tripled quotes, raw or not; several texts in a
row, which are joined; a number with an optional sign; a truth value or nothing; a bracketed list.
Line breaks count as their escapes, so a literal is always a single line.
-/

namespace SmallLisp.Literal

/-- Blanks between the parts of a literal. -/
def isGap (c : Char) : Bool := c == ' ' || c == '\t' || c == '\x0c'

def skipGaps (cs : List Char) : List Char := cs.dropWhile isGap

/-- A text with its line breaks written as escapes. -/
def spellBreaks : List Char → List Char
  | [] => []
  | '\n' :: cs => '\\' :: 'n' :: spellBreaks cs
  | '\r' :: cs => '\\' :: 'r' :: spellBreaks cs
  | c :: cs => c :: spellBreaks cs

/-! ### Texts -/

/-- How a text is quoted. -/
structure Quotes where
  mark : Char
  tripled : Bool
  /-- Whether a backslash stands for itself. -/
  raw : Bool

/-- The quotes that open a text, behind what says whether it is raw. -/
def openMarks? (raw : Bool) : List Char → Option (Quotes × List Char)
  | [] => none
  | c :: cs =>
    if c = '\x27' ∨ c = '\x22' then
      match cs with
      | d :: e :: rest =>
        if d = c ∧ e = c then some (⟨c, true, raw⟩, rest) else some (⟨c, false, raw⟩, cs)
      | _ => some (⟨c, false, raw⟩, cs)
    else none

/-- The quotes that open a text. -/
def openQuotes? : List Char → Option (Quotes × List Char)
  | 'r' :: cs | 'R' :: cs => openMarks? true cs
  | 'u' :: cs | 'U' :: cs => openMarks? false cs
  | cs => openMarks? false cs

/-- What follows the quotes that close a text, if they come next. -/
def closeQuotes? (q : Quotes) : List Char → Option (List Char)
  | [] => none
  | c :: rest =>
    if c ≠ q.mark then none
    else if q.tripled then
      match rest with
      | d :: e :: rest' => if d = q.mark ∧ e = q.mark then some rest' else none
      | _ => none
    else some rest

variable [CharacterNames]

/-- The code points of the text up to its closing quotes, onto those that `seen` holds in reverse,
and what follows the quotes. -/
def textOnto? (q : Quotes) (seen : List Nat) (cs : List Char) : Option (List Nat × List Char) :=
  match closeQuotes? q cs with
  | some rest => some (seen.reverse, rest)
  | none =>
    match cs with
    | [] => none
    | c :: rest =>
      if c ≠ '\\' then textOnto? q (c.toNat :: seen) rest
      else if q.raw then
        match rest with
        | [] => none
        | d :: rest' => textOnto? q (d.toNat :: c.toNat :: seen) rest'
      else
        match _h : StringLiteral.escape? rest with
        | some (out, rest') => textOnto? q (out.reverse ++ seen) rest'
        | none => none
termination_by cs.length
decreasing_by
  · simp only [List.length_cons]; omega
  · simp only [List.length_cons]; omega
  · have := StringLiteral.length_lt_of_escape? _h; simp only [List.length_cons]; omega

/-- The code points of one or more texts in a row, at most `bound`, joined. -/
def texts? : (bound : Nat) → List Char → Option (List Nat × List Char)
  | 0, _ => none
  | bound + 1, cs => do
    let (q, body) ← openQuotes? cs
    let (text, rest) ← textOnto? q [] body
    match texts? bound (skipGaps rest) with
    | some (more, rest') => some (text ++ more, rest')
    | none => some (text, rest)

/-! ### Numbers -/

/-- Letters, digits and underscores. -/
def isWordChar (c : Char) : Bool := c.isAlphanum || c == '_'

/-- Whether a number is written in another base than ten. -/
def hasRadix : List Char → Bool
  | '0' :: c :: _ => c.isAlpha && c != 'e' && c != 'E'
  | _ => false

/-- The characters of a number, of which `previous` comes just before, and what follows them. In a
decimal, a sign behind the mark of an exponent belongs to it. -/
def numeral (radix : Bool) (previous : Char) : List Char → List Char × List Char
  | [] => ([], [])
  | c :: cs =>
    let isMark := !radix && (previous == 'e' || previous == 'E')
    if isWordChar c || c == '.' || (isMark && (c == '+' || c == '-')) then
      let (piece, rest) := numeral radix c cs
      (c :: piece, rest)
    else ([], c :: cs)

/-- The value of digits in a base up to sixteen, where an underscore may stand before each digit. -/
def radixValue? (base value : Nat) : List Char → Option Nat
  | [] => some value
  | '_' :: c :: cs | c :: cs =>
    match StringLiteral.hexValue? c with
    | some d => if d < base then radixValue? base (base * value + d) cs else none
    | none => none

/-- A number in base sixteen, eight or two. -/
def radixNumber? : List Char → Option Datum
  | '0' :: 'x' :: c :: cs | '0' :: 'X' :: c :: cs => (radixValue? 16 0 (c :: cs)).map (.int ·)
  | '0' :: 'o' :: c :: cs | '0' :: 'O' :: c :: cs => (radixValue? 8 0 (c :: cs)).map (.int ·)
  | '0' :: 'b' :: c :: cs | '0' :: 'B' :: c :: cs => (radixValue? 2 0 (c :: cs)).map (.int ·)
  | _ => none

/-- A number in base ten. An integer other than zero has no leading zeros. -/
def decimalNumber? (piece : List Char) : Option Datum :=
  match Numeral.groupedDigits? piece with
  | some ds =>
    if ds.all (· == 0) then some (.int 0)
    else if ds.head? ≠ some 0 ∧ ds.length ≤ Numeral.maxDigits then
      some (.int (Numeral.positional ds))
    else none
  | none => (Numeral.readFloat? piece).map (.float ·)

/-- A number without a sign. -/
def unsigned? (cs : List Char) : Option (Datum × List Char) :=
  match cs with
  | [] => none
  | c :: _ =>
    if c.isDigit || c == '.' then
      let (piece, rest) := numeral (hasRadix cs) ' ' cs
      let d? := if hasRadix cs then radixNumber? piece else decimalNumber? piece
      d?.map (·, rest)
    else none

/-- A number without a sign in at most `bound` pairs of parentheses. -/
def number? : (bound : Nat) → List Char → Option (Datum × List Char)
  | 0, cs => unsigned? cs
  | bound + 1, '(' :: cs => do
    let (d, rest) ← number? bound (skipGaps cs)
    match skipGaps rest with
    | ')' :: rest' => some (d, rest')
    | _ => none
  | _ + 1, cs => unsigned? cs

/-- A number with its sign changed. -/
def negate : Datum → Datum
  | .int n => .int (-n)
  | .float x => .float (-x)
  | d => d

/-! ### Literals -/

/-- A truth value, or nothing. -/
def constant? (cs : List Char) : Option (Datum × List Char) :=
  match String.ofList (cs.takeWhile isWordChar) with
  | "True" => some (.bool true, cs.dropWhile isWordChar)
  | "False" => some (.bool false, cs.dropWhile isWordChar)
  | "None" => some (.nothing, cs.dropWhile isWordChar)
  | _ => none

mutual

/-- A literal whose parts nest at most `bound` deep, and what follows it. -/
def value? : (bound : Nat) → List Char → Option (Datum × List Char)
  | 0, _ => none
  | bound + 1, '[' :: cs => do
    let (ds, rest) ← items? bound (skipGaps cs)
    some (.list ds, rest)
  | bound + 1, '(' :: cs => do
    let (d, rest) ← value? bound (skipGaps cs)
    match skipGaps rest with
    | ')' :: rest' => some (d, rest')
    | _ => none
  | bound + 1, '+' :: cs => number? bound (skipGaps cs)
  | bound + 1, '-' :: cs => (number? bound (skipGaps cs)).map fun (d, rest) => (negate d, rest)
  | bound + 1, cs =>
    match texts? (bound + 1) cs with
    | some (points, rest) => (StringLiteral.text? points).map fun text => (.text text, rest)
    | none => (constant? cs).or (unsigned? cs)

/-- The items of a list up to its closing bracket, with commas between them and perhaps one at the
end. -/
def items? : (bound : Nat) → List Char → Option (List Datum × List Char)
  | 0, _ => none
  | _ + 1, ']' :: rest => some ([], rest)
  | bound + 1, cs => do
    let (d, rest) ← value? bound cs
    match skipGaps rest with
    | ']' :: rest' => some ([d], rest')
    | ',' :: rest' => do
      let (ds, rest'') ← items? bound (skipGaps rest')
      some (d :: ds, rest'')
    | _ => none

end

/-- Whether the blanks in front of a literal indent it. Those in front of a line do not count, but a
form feed begins the line anew. -/
def isIndented (gaps : List Char) : Bool :=
  gaps.contains '\x0c' && gaps.getLast? != some '\x0c'

/-- What a literal stands for. A comment may follow it. No literal nests deeper than twice its
length, so the bound is no restriction. -/
def read? (text : List Char) : Option Datum :=
  let line := spellBreaks text
  let cs := skipGaps line
  if text.contains '\x00' || isIndented (line.takeWhile isGap) then none
  else
    match value? (2 * cs.length + 2) cs with
    | none => none
    | some (d, rest) =>
      match skipGaps rest with
      | [] => some d
      | c :: _ => if c = '#' then some d else none

end SmallLisp.Literal

namespace SmallLisp

/-- What a string token stands for. A string with a surrogate is refused, since no `String` has one.
-/
def Datum.ofString [CharacterNames] (text : String) : Except ReadError Datum :=
  let cs := text.toList
  let d? :=
    if StringLiteral.isLexeme cs then
      ((StringLiteral.decode? cs).bind StringLiteral.text?).map Datum.text
    else Literal.read? cs
  match d? with
  | some d => .ok d
  | none => .error (.invalidString text)

end SmallLisp
