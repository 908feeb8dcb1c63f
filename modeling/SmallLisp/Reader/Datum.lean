import SmallLisp.Numeral.Decimal
import SmallLisp.Reader.Token
import SmallLisp.Text.CharacterName

/-!
Data: what the reader makes of a text. An atom is a boolean, a number or, failing these, a symbol.
A string stands for the text between its quotes with the escapes replaced. Escapes can make any code
point, also a surrogate, which no character has.
-/

namespace SmallLisp

/-- A form as read, before it takes part in a run. -/
inductive Datum where
  /-- The absence of a form, which a host can put into a token. -/
  | nothing
  | bool (b : Bool)
  | int (n : Int)
  | float (x : Float)
  | text (s : String)
  | symbol (name : String)
  | list (items : List Datum)
deriving Inhabited

/-- The form that a quote mark abbreviates. -/
def Datum.quoted (d : Datum) : Datum := .list [.symbol "quote", d]

/-- What an atom stands for. -/
def Datum.ofAtom (text : String) : Datum :=
  if text = "#t" ∨ text = "#true" then .bool true
  else if text = "#f" ∨ text = "#false" then .bool false
  else match Numeral.readInt? text.toList with
    | some n => .int n
    | none =>
      match Numeral.readFloat? text.toList with
      | some x => .float x
      | none => .symbol text

namespace StringLiteral

/-- The value of a hexadecimal digit. -/
def hexValue? (c : Char) : Option Nat :=
  if '0' ≤ c ∧ c ≤ '9' then some (c.toNat - 0x30)
  else if 'a' ≤ c ∧ c ≤ 'f' then some (c.toNat - 0x57)
  else if 'A' ≤ c ∧ c ≤ 'F' then some (c.toNat - 0x37)
  else none

def octalValue? (c : Char) : Option Nat :=
  if '0' ≤ c ∧ c ≤ '7' then some (c.toNat - 0x30) else none

/-- Exactly `count` hexadecimal digits, after a prefix of value `value`. -/
def takeHex? : (count value : Nat) → List Char → Option (Nat × List Char)
  | 0, value, cs => some (value, cs)
  | _ + 1, _, [] => none
  | count + 1, value, c :: cs =>
    match hexValue? c with
    | some d => takeHex? count (16 * value + d) cs
    | none => none

/-- At most `count` octal digits, after a prefix of value `value`. -/
def takeOctal : (count value : Nat) → List Char → Nat × List Char
  | 0, value, cs => (value, cs)
  | _ + 1, value, [] => (value, [])
  | count + 1, value, c :: cs =>
    match octalValue? c with
    | some d => takeOctal count (8 * value + d) cs
    | none => (value, c :: cs)

/-- A name in braces, and what follows them. -/
def takeName? : List Char → Option (List Char × List Char)
  | [] => none
  | c :: cs =>
    match cs.takeWhile (· != '\x7d'), cs.dropWhile (· != '\x7d') with
    | d :: name, _ :: rest => if c = '\x7b' then some (d :: name, rest) else none
    | _, _ => none

/-- The character that a one letter escape stands for. -/
def simpleEscape? (c : Char) : Option Char :=
  match c with
  | '\\' | '\x27' | '\x22' => some c
  | 'a' => some '\x07'
  | 'b' => some '\x08'
  | 'f' => some '\x0c'
  | 'n' => some '\n'
  | 'r' => some '\r'
  | 't' => some '\t'
  | 'v' => some '\x0b'
  | _ => none

/-- The width of a code point escape. -/
def codePointWidth? (c : Char) : Option Nat :=
  match c with
  | 'x' => some 2
  | 'u' => some 4
  | 'U' => some 8
  | _ => none

theorem length_takeHex?_le {count value n : Nat} {cs rest : List Char}
    (h : takeHex? count value cs = some (n, rest)) : rest.length ≤ cs.length := by
  fun_induction takeHex? count value cs with
  | case1 => simp at h; simp [h.2]
  | case2 => simp at h
  | case3 count value c cs d hd ih => have := ih h; simp; omega
  | case4 => simp at h

theorem length_takeOctal_le (count value : Nat) (cs : List Char) :
    (takeOctal count value cs).2.length ≤ cs.length := by
  fun_induction takeOctal count value cs with
  | case1 | case2 | case4 => simp
  | case3 count value c cs d hd ih => simp only [List.length_cons]; omega

theorem takeName?_eq_append {cs name rest : List Char} (h : takeName? cs = some (name, rest)) :
    cs = '\x7b' :: name ++ '\x7d' :: rest := by
  unfold takeName? at h
  split at h
  · cases h
  · next c cs =>
    have hclosed := List.head?_dropWhile_not (· != '\x7d') cs
    have hcs := List.takeWhile_append_dropWhile (p := (· != '\x7d')) (l := cs)
    split at h
    · next d name' e rest' htake hdrop =>
      rw [hdrop] at hclosed
      have he : e = '\x7d' := by simpa using hclosed
      split at h
      · next hc =>
        cases h
        rw [hc, ← hcs, htake, hdrop, he]
        rfl
      · cases h
    · cases h

theorem length_lt_of_takeName? {cs name rest : List Char} (h : takeName? cs = some (name, rest)) :
    rest.length < cs.length := by
  rw [takeName?_eq_append h]
  simp only [List.cons_append, List.length_cons, List.length_append]
  omega

variable [CharacterNames]

/-- The code points that an escape stands for, and what follows it. A backslash before a character
without a meaning of its own stands for itself, and so does one before a raw line break, which then
counts as its escape letter. A name must be one of the table. -/
def escape? : List Char → Option (List Nat × List Char)
  | [] => none
  | c :: cs =>
    match simpleEscape? c with
    | some d => some ([d.toNat], cs)
    | none =>
      match codePointWidth? c with
      | some width => do
        let (n, rest) ← takeHex? width 0 cs
        if n < 0x110000 then some ([n], rest) else none
      | none =>
        if c = 'N' then do
          let (name, rest) ← takeName? cs
          let d ← CharacterNames.character? name
          some ([d.toNat], rest)
        else if c = '\x00' then none
        else if c = '\n' then some ("\\n".toList.map Char.toNat, cs)
        else if c = '\r' then some ("\\r".toList.map Char.toNat, cs)
        else
          match octalValue? c with
          | some d =>
            let (n, rest) := takeOctal 2 d cs
            some ([n], rest)
          | none => some (['\\', c].map Char.toNat, cs)

/-- Every escape takes at least one character. -/
theorem length_lt_of_escape? {cs rest : List Char} {out : List Nat}
    (h : escape? cs = some (out, rest)) : rest.length < cs.length := by
  unfold escape? at h
  split at h
  · simp at h
  · next c cs =>
    split at h
    · simp at h; simp [← h.2]
    split at h
    · simp only [Option.bind_eq_bind, Option.bind_eq_some_iff, Prod.exists] at h
      obtain ⟨n, r, hn, hr⟩ := h
      have := length_takeHex?_le hn
      split at hr <;> simp at hr
      simp [← hr.2]
      omega
    split at h
    · simp only [Option.bind_eq_bind, Option.bind_eq_some_iff, Prod.exists] at h
      obtain ⟨name, r, hname, d, _, hr⟩ := h
      have := length_lt_of_takeName? hname
      simp at hr
      simp [← hr.2]
      omega
    split at h
    · simp at h
    split at h
    · simp at h; simp [← h.2]
    split at h
    · simp at h; simp [← h.2]
    split at h
    · next d _ =>
      have := length_takeOctal_le 2 d cs
      simp at h
      simp [← h.2]
      omega
    · simp at h; simp [← h.2]

/-- Decode what follows the opening quote, onto the code points that `seen` holds in reverse. The
closing quote must end the text. -/
def decodeOnto? (seen : List Nat) (cs : List Char) : Option (List Nat) :=
  match cs with
  | [] => none
  | c :: rest =>
    if c = '\x22' then if rest.isEmpty then some seen.reverse else none
    else if c = '\\' then
      match _h : escape? rest with
      | some (out, rest') => decodeOnto? (out.reverse ++ seen) rest'
      | none => none
    else if c = '\x00' then none
    else decodeOnto? (c.toNat :: seen) rest
termination_by cs.length
decreasing_by
  · have := length_lt_of_escape? _h; simp; omega
  · simp

/-- Whether a text is a string as the lexer makes it: the first double quote that can close it is
its last character. -/
def isLexeme : List Char → Bool
  | [] => false
  | c :: cs =>
    c == '\x22' &&
      match Lexer.closeString? [c] cs with
      | some (_, []) => true
      | _ => false

/-- The code points that a string as the lexer makes it stands for. -/
def decode? (token : List Char) : Option (List Nat) :=
  match token with
  | [] => none
  | c :: rest => if c = '\x22' then decodeOnto? [] rest else none

/-- The character with a given code point. -/
def charOf? (n : Nat) : Option Char :=
  if n.isValidChar then some (Char.ofNat n) else none

/-- The text of some code points, if none of them is a surrogate. -/
def text? (points : List Nat) : Option String := (points.mapM charOf?).map String.ofList

end StringLiteral

end SmallLisp
