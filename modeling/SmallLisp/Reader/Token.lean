import SmallLisp.Text.Blank

/-!
Tokens and the lexer. Between tokens stand white space and comments, which run from a semicolon to
the end of the line. A token is a quote mark, a parenthesis, a string in double quotes whose
backslashes go in pairs with the character after them, or an atom: a run of the remaining
characters.
-/

namespace SmallLisp

inductive Token.Kind where
  | quote
  | lparen
  | rparen
  | string
  | symbol
  /-- A kind that the lexer never makes. -/
  | other (name : String)
deriving DecidableEq

def Token.Kind.name : Token.Kind → String
  | .quote => "quote"
  | .lparen => "lparen"
  | .rparen => "rparen"
  | .string => "string"
  | .symbol => "symbol"
  | .other name => name

def Token.Kind.ofName (name : String) : Token.Kind :=
  match [Token.Kind.quote, .lparen, .rparen, .string, .symbol].find? (·.name == name) with
  | some kind => kind
  | none => .other name

structure Token where
  kind : Token.Kind
  text : String
deriving DecidableEq

/-- Why a text has no reading. -/
inductive ReadError where
  /-- A string has no closing quote; the excerpt starts at its opening one. -/
  | unterminatedString (excerpt : String)
  | danglingQuote
  | unclosedList
  | unexpectedClose
  | unknownToken (token : Token)
  | invalidString (text : String)
deriving DecidableEq

namespace ReadError

/-- Whether more input could still mend the text. -/
def isIncomplete : ReadError → Bool
  | .unterminatedString _ | .danglingQuote | .unclosedList => true
  | _ => false

def message : ReadError → String
  | .unterminatedString _ => "Unterminated string"
  | .danglingQuote => "Unexpected EOF after quote"
  | .unclosedList => "Unmatched '('"
  | .unexpectedClose => "Unexpected ')'"
  | .unknownToken t => "Unknown token: " ++ t.kind.name ++ " " ++ t.text
  | .invalidString text => "Invalid string literal " ++ text

/-- The piece of text that an error is about. -/
def excerpt? : ReadError → Option String
  | .unterminatedString text | .invalidString text => some text
  | _ => none

end ReadError

namespace Lexer

open Text

/-- Whether a character may stand in an atom. -/
def isAtomChar (c : Char) : Bool :=
  !(isBlank c || c == '(' || c == ')' || c == '\x27' || c == '\x22' || c == ';')

/-- Skip white space and comments; the flag says that a comment has begun. -/
def skipLayout : (comment : Bool) → List Char → List Char
  | _, [] => []
  | true, c :: cs => skipLayout (c != '\n') cs
  | false, c :: cs =>
    if isBlank c then skipLayout false cs
    else if c = ';' then skipLayout true cs
    else c :: cs

/-- Split after the double quote that closes a string, putting what precedes it onto `seen`, in
reverse. -/
def closeString? : (seen : List Char) → List Char → Option (List Char × List Char)
  | _, [] => none
  | _, ['\\'] => none
  | seen, '\\' :: c :: cs => closeString? (c :: '\\' :: seen) cs
  | seen, c :: cs =>
    if c = '\x22' then some ((c :: seen).reverse, cs) else closeString? (c :: seen) cs

/-- How many characters of an unterminated string an error shows. -/
def excerptLength : Nat := 20

/-- The outcome of looking for one token. -/
inductive Next where
  | done
  | token (t : Token) (rest : List Char)
  | failed (e : ReadError)

/-- The first token of a text that starts with no layout. -/
def lexeme : List Char → Next
  | [] => .done
  | c :: cs =>
    if c = '\x27' then .token ⟨.quote, "'"⟩ cs
    else if c = '(' then .token ⟨.lparen, "("⟩ cs
    else if c = ')' then .token ⟨.rparen, ")"⟩ cs
    else if c = '\x22' then
      match closeString? [c] cs with
      | some (text, rest) => .token ⟨.string, String.ofList text⟩ rest
      | none => .failed (.unterminatedString (String.ofList ((c :: cs).take excerptLength)))
    else .token ⟨.symbol, String.ofList (c :: cs.takeWhile isAtomChar)⟩ (cs.dropWhile isAtomChar)

/-- The first token of a text. -/
def next (cs : List Char) : Next := lexeme (skipLayout false cs)

theorem length_skipLayout_le (comment : Bool) (cs : List Char) :
    (skipLayout comment cs).length ≤ cs.length := by
  fun_induction skipLayout comment cs <;> simp_all <;> omega

theorem length_closeString?_le {seen cs text rest : List Char}
    (h : closeString? seen cs = some (text, rest)) : rest.length < cs.length := by
  fun_induction closeString? seen cs with
  | case1 => simp at h
  | case2 => simp at h
  | case3 seen c cs ih => have := ih h; simp; omega
  | case4 => simp at h; simp [h.2]
  | case5 seen c cs _ _ _ ih => have := ih h; simp; omega

theorem length_dropWhile_le (p : Char → Bool) (cs : List Char) :
    (cs.dropWhile p).length ≤ cs.length :=
  (List.dropWhile_sublist p).length_le

/-- Every token takes at least one character. -/
theorem length_lt_of_lexeme {cs rest : List Char} {t : Token} (h : lexeme cs = .token t rest) :
    rest.length < cs.length := by
  unfold lexeme at h
  split at h
  · simp at h
  · next c cs =>
    have := length_dropWhile_le isAtomChar cs
    split at h
    · cases h; simp
    split at h
    · cases h; simp
    split at h
    · cases h; simp
    split at h
    · split at h
      · next hclose => cases h; have := length_closeString?_le hclose; simp; omega
      · simp at h
    · cases h; simp; omega

theorem length_lt_of_next {cs rest : List Char} {t : Token} (h : next cs = .token t rest) :
    rest.length < cs.length :=
  Nat.lt_of_lt_of_le (length_lt_of_lexeme h) (length_skipLayout_le false cs)

end Lexer

/-- The tokens of a text, up to its end or to the first failure. -/
structure Lexed where
  tokens : List Token
  failure : Option ReadError

namespace Lexer

/-- The tokens of `cs`, after those that `seen` holds in reverse. -/
def lexOnto (seen : List Token) (cs : List Char) : Lexed :=
  match _h : next cs with
  | .done => ⟨seen.reverse, none⟩
  | .failed e => ⟨seen.reverse, some e⟩
  | .token t rest => lexOnto (t :: seen) rest
termination_by cs.length
decreasing_by exact length_lt_of_next _h

/-- The tokens of a text. -/
def lex (cs : List Char) : Lexed := lexOnto [] cs

end Lexer

end SmallLisp
