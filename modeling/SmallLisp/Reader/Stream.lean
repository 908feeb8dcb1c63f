import SmallLisp.Reader.Literal

/-!
Token streams and the parser. A stream hands out its tokens one by one and can look one token
ahead; what a failed step has consumed stays consumed. The parser keeps the lists and quotes that
are open on a stack, takes one token after the other, and stops behind the last token of a form.
-/

namespace SmallLisp

/-- Tokens still to be consumed. The lexer's failure, if any, comes after the last of them and is
raised once. -/
structure TokenStream where
  /-- The token that was looked at but not consumed. -/
  buffer : Option Token
  pending : List Token
  failure : Option ReadError

namespace TokenStream

def ofTokens (ts : List Token) : TokenStream := ⟨none, ts, none⟩

def ofText (s : String) : TokenStream :=
  let lexed := Lexer.lex s.toList
  ⟨none, lexed.tokens, lexed.failure⟩

/-- The tokens still to be consumed. -/
def tokens (s : TokenStream) : List Token := s.buffer.toList ++ s.pending

/-- Take a token from behind the buffer; `none` at the end. -/
def pull (s : TokenStream) : Except ReadError (Option Token) × TokenStream :=
  match s.pending with
  | t :: ts => (.ok (some t), { s with pending := ts })
  | [] =>
    match s.failure with
    | some e => (.error e, { s with failure := none })
    | none => (.ok none, s)

/-- Look at the next token. -/
def peek (s : TokenStream) : Except ReadError (Option Token) × TokenStream :=
  match s.buffer with
  | some t => (.ok (some t), s)
  | none =>
    match s.pull with
    | (.ok (some t), s') => (.ok (some t), { s' with buffer := some t })
    | r => r

/-- Consume the next token. -/
def advance (s : TokenStream) : Except ReadError (Option Token) × TokenStream :=
  match s.buffer with
  | some t => (.ok (some t), { s with buffer := none })
  | none => s.pull

end TokenStream

/-- Why the reader stops. -/
inductive ReadFailure where
  | error (e : ReadError)
  /-- More lists and quotes are open than the reader may nest. -/
  | tooDeep

namespace Parser

/-- A form that has begun and waits for a part. -/
inductive Open where
  /-- A quote mark before its form. -/
  | quote
  /-- A list with the items so far, in reverse. -/
  | list (items : List Datum)

/-- Give a finished form to the innermost open one. A quote is finished by it, a list goes on; with
nothing open the form itself is the result. -/
def plug : Datum → List Open → Datum ⊕ List Open
  | d, [] => .inl d
  | d, .quote :: outer => plug d.quoted outer
  | d, .list items :: outer => .inr (.list (d :: items) :: outer)

/-- The error of a text that ends while `open` is unfinished. -/
def endError? : List Open → Option ReadError
  | [] => none
  | .quote :: _ => some .danglingQuote
  | .list _ :: _ => some .unclosedList

variable [CharacterNames]

/-- Parse one form, of which the parts on the stack have begun. Where a form nests too deep, the
token that opens one part too many is consumed and the others stay pending, as for a parser that
gives up by itself. A host whose stack is exhausted while it asks for a token loses the lexer as
well, and has no tokens left after that. -/
def run (limit : Nat) (failure : Option ReadError) :
    List Open → List Token → Except ReadFailure (Option Datum) × TokenStream
  | stack, [] =>
    match failure with
    | some e => (.error (.error e), ⟨none, [], none⟩)
    | none =>
      match endError? stack with
      | some e => (.error (.error e), ⟨none, [], none⟩)
      | none => (.ok none, ⟨none, [], none⟩)
  | stack, t :: ts =>
    match t.kind with
    | .symbol =>
      match plug (.ofAtom t.text) stack with
      | .inl d => (.ok (some d), ⟨none, ts, failure⟩)
      | .inr stack' => run limit failure stack' ts
    | .string =>
      match Datum.ofString t.text with
      | .error e => (.error (.error e), ⟨none, ts, failure⟩)
      | .ok d =>
        match plug d stack with
        | .inl d' => (.ok (some d'), ⟨none, ts, failure⟩)
        | .inr stack' => run limit failure stack' ts
    | .quote =>
      if limit ≤ stack.length then (.error .tooDeep, ⟨none, ts, failure⟩)
      else run limit failure (.quote :: stack) ts
    | .lparen =>
      if limit ≤ stack.length then (.error .tooDeep, ⟨none, ts, failure⟩)
      else run limit failure (.list [] :: stack) ts
    | .rparen =>
      match stack with
      | .list items :: outer =>
        match plug (.list items.reverse) outer with
        | .inl d => (.ok (some d), ⟨none, ts, failure⟩)
        | .inr stack' => run limit failure stack' ts
      | _ => (.error (.error .unexpectedClose), ⟨some t, ts, failure⟩)
    | .other _ => (.error (.error (.unknownToken t)), ⟨some t, ts, failure⟩)

end Parser

variable [CharacterNames]

namespace TokenStream

/-- Parse the next form; `none` at the end. -/
def parse (limit : Nat) (s : TokenStream) :
    Except ReadFailure (Option Datum) × TokenStream :=
  Parser.run limit s.failure [] s.tokens

end TokenStream

theorem Parser.length_lt_of_run {limit : Nat} {failure : Option ReadError} {stack : List Open}
    {ts : List Token} {d : Datum} {s : TokenStream}
    (h : run limit failure stack ts = (.ok (some d), s)) : s.tokens.length < ts.length := by
  fun_induction run limit failure stack ts <;> grind [TokenStream.tokens]

/-- Every form takes at least one token. -/
theorem TokenStream.length_lt_of_parse {limit : Nat} {s s' : TokenStream} {d : Datum}
    (h : s.parse limit = (.ok (some d), s')) : s'.tokens.length < s.tokens.length :=
  Parser.length_lt_of_run h

/-- The forms of a stream up to its end or to the first failure, and the stream afterwards. -/
structure Reading where
  forms : List Datum
  failure : Option ReadFailure
  rest : TokenStream

namespace TokenStream

/-- Parse all forms, after those that `seen` holds in reverse. -/
def parseOnto (limit : Nat) (seen : List Datum) (s : TokenStream) : Reading :=
  match _h : s.parse limit with
  | (.error e, s') => ⟨seen.reverse, some e, s'⟩
  | (.ok none, s') => ⟨seen.reverse, none, s'⟩
  | (.ok (some d), s') => parseOnto limit (d :: seen) s'
termination_by s.tokens.length
decreasing_by exact length_lt_of_parse _h

/-- Parse all forms. -/
def parseAll (limit : Nat) (s : TokenStream) : Reading := parseOnto limit [] s

end TokenStream

/-- The outcome of reading everything: all forms, or why there is none. -/
def Reading.result (r : Reading) : Except ReadFailure (List Datum) :=
  match r.failure with
  | some e => .error e
  | none => .ok r.forms

/-- Read the forms of a text up to its end or to the first failure. -/
def scan (limit : Nat) (text : String) : Reading := (TokenStream.ofText text).parseAll limit

/-- Read every form of a text. -/
def read (limit : Nat) (text : String) : Except ReadFailure (List Datum) :=
  (scan limit text).result

end SmallLisp
