import SmallLisp.Proofs.Parsing

/-!
# Token streams on the record

A ledger is a stream with a record of its use: what the source of the tokens has answered, each time
that it was asked, and which tokens have been consumed. The parser uses a stream only by looking at
the next token and by consuming it, so whatever these two keep is kept by every step
(`Ledger.use_induction`). The record shows that the answers are those of the source, one after the
other, and that all tokens among them have been consumed or are the one that was looked at
(`Ledger.Accounts`).
-/

namespace SmallLisp

open SmallLisp.Parser

/-! ## Streams and their use -/

/-- What a stream answers behind its last token. -/
def TokenStream.atEnd : Option ReadError → Except ReadError (Option Token)
  | some e => .error e
  | none => .ok none

theorem TokenStream.atEnd_ne_token {f : Option ReadError} {t : Token} :
    atEnd f ≠ .ok (some t) := by
  cases f <;> simp [atEnd]

theorem TokenStream.atEnd_inj {f f' : Option ReadError} (h : atEnd f = atEnd f') : f = f' := by
  cases f <;> cases f' <;> simp_all [atEnd]

/-- Where tokens come from: the lexer, at work on a text, or a list. -/
inductive TokenSource where
  | text (s : String)
  | list (ts : List Token)

namespace TokenSource

/-- All tokens of a source. -/
def tokens : TokenSource → List Token
  | .text s => (Lexer.lex s.toList).tokens
  | .list ts => ts

/-- The failure of a source behind its last token. -/
def failure : TokenSource → Option ReadError
  | .text s => (Lexer.lex s.toList).failure
  | .list _ => none

def stream : TokenSource → TokenStream
  | .text s => .ofText s
  | .list ts => .ofTokens ts

theorem stream_eq (src : TokenSource) : src.stream = ⟨none, src.tokens, src.failure⟩ := by
  cases src <;> rfl

/-- What a source answers when it is asked for a token and has been asked `n` times before. -/
def answer (src : TokenSource) (n : Nat) : Except ReadError (Option Token) :=
  match src.tokens[n]? with
  | some t => .ok (some t)
  | none => if n = src.tokens.length then TokenStream.atEnd src.failure else .ok none

end TokenSource

/-- A use of a token stream. -/
inductive StreamStep where
  | peek
  | advance
  | parse
  | parseAll

/-- The answer to a use of a token stream. -/
inductive StreamAnswer where
  | token (r : Except ReadError (Option Token))
  | form (r : Except ReadFailure (Option Datum))
  /-- All forms up to the end or to a failure. -/
  | forms (ds : List Datum) (failure : Option ReadFailure)

/-- Whether an answer is the error. -/
def StreamAnswer.raises (e : ReadError) : StreamAnswer → Bool
  | .token (.error e') | .form (.error (.error e')) | .forms _ (some (.error e')) => e' == e
  | _ => false

namespace TokenStream

variable {s s' : TokenStream} {t : Token} {ts : List Token}

def use [CharacterNames] (limit : Nat) (s : TokenStream) : StreamStep → StreamAnswer × TokenStream
  | .peek => (.token s.peek.1, s.peek.2)
  | .advance => (.token s.advance.1, s.advance.2)
  | .parse => (.form (s.parse limit).1, (s.parse limit).2)
  | .parseAll => (.forms (s.parseAll limit).forms (s.parseAll limit).failure,
      (s.parseAll limit).rest)

/-- The answers to steps in turn, and the stream afterwards. A step that fails is followed by the
next. -/
def useAll [CharacterNames] (limit : Nat) (s : TokenStream) :
    List StreamStep → List StreamAnswer × TokenStream
  | [] => ([], s)
  | x :: xs => ((s.use limit x).1 :: ((s.use limit x).2.useAll limit xs).1,
      ((s.use limit x).2.useAll limit xs).2)

theorem peek_of_cons (h : s.tokens = t :: ts) :
    s.peek = (.ok (some t), ⟨some t, ts, s.failure⟩) := by
  obtain ⟨_ | u, pending, failure⟩ := s
  · cases (h : pending = t :: ts)
    rfl
  · cases (h : u :: pending = t :: ts)
    rfl

theorem advance_of_cons (h : s.tokens = t :: ts) :
    s.advance = (.ok (some t), ⟨none, ts, s.failure⟩) := by
  obtain ⟨_ | u, pending, failure⟩ := s
  · cases (h : pending = t :: ts)
    rfl
  · cases (h : u :: pending = t :: ts)
    rfl

theorem pull_of_nil (buffer : Option Token) (failure : Option ReadError) :
    TokenStream.pull ⟨buffer, [], failure⟩ = (atEnd failure, ⟨buffer, [], none⟩) := by
  cases failure <;> rfl

theorem peek_of_nil (h : s.tokens = []) : s.peek = (atEnd s.failure, ⟨none, [], none⟩) := by
  obtain ⟨_ | u, pending, failure⟩ := s
  · cases (h : pending = [])
    rw [peek, pull_of_nil]
    cases failure <;> rfl
  · cases h

theorem advance_of_nil (h : s.tokens = []) : s.advance = (atEnd s.failure, ⟨none, [], none⟩) := by
  obtain ⟨_ | u, pending, failure⟩ := s
  · cases (h : pending = [])
    exact pull_of_nil none failure
  · cases h

end TokenStream

/-! ## Ledgers -/

/-- A token stream with a record of its use. -/
structure Ledger where
  stream : TokenStream
  /-- What the source has answered, each time that it was asked for a token. -/
  given : List (Except ReadError (Option Token))
  consumed : List Token

namespace Ledger

/-- Ask the source. -/
def pull (l : Ledger) : Except ReadError (Option Token) × Ledger :=
  (l.stream.pull.1, { l with stream := l.stream.pull.2, given := l.given ++ [l.stream.pull.1] })

/-- Look at the next token. The source is asked only if none has been looked at. -/
def peek (l : Ledger) : Except ReadError (Option Token) × Ledger :=
  match l.stream.buffer with
  | some t => (.ok (some t), l)
  | none =>
    match l.pull with
    | (.ok (some t), l') =>
      (.ok (some t), { l' with stream := { l'.stream with buffer := some t } })
    | r => r

/-- Consume the next token. -/
def advance (l : Ledger) : Except ReadError (Option Token) × Ledger :=
  match l.stream.buffer with
  | some t => (.ok (some t),
      { l with stream := { l.stream with buffer := none }, consumed := l.consumed ++ [t] })
  | none =>
    match l.pull with
    | (.ok (some t), l') => (.ok (some t), { l' with consumed := l'.consumed ++ [t] })
    | r => r

theorem peek_stream (l : Ledger) : (l.peek.1, l.peek.2.stream) = l.stream.peek := by
  rw [peek, TokenStream.peek]
  cases l.stream.buffer with
  | some t => rfl
  | none =>
    rw [pull]
    rcases l.stream.pull with ⟨_ | _ | t, s⟩ <;> rfl

theorem advance_stream (l : Ledger) : (l.advance.1, l.advance.2.stream) = l.stream.advance := by
  rw [advance, TokenStream.advance]
  cases l.stream.buffer with
  | some t => rfl
  | none =>
    rw [pull]
    rcases l.stream.pull with ⟨_ | _ | t, s⟩ <;> rfl

theorem peek_of_cons {l : Ledger} {t : Token} {ts : List Token} (h : l.stream.tokens = t :: ts) :
    l.peek.1 = .ok (some t) ∧ l.peek.2.stream = ⟨some t, ts, l.stream.failure⟩ :=
  Prod.mk.inj (l.peek_stream.trans (TokenStream.peek_of_cons h))

theorem advance_of_cons {l : Ledger} {t : Token} {ts : List Token}
    (h : l.stream.tokens = t :: ts) :
    l.advance.1 = .ok (some t) ∧ l.advance.2.stream = ⟨none, ts, l.stream.failure⟩ :=
  Prod.mk.inj (l.advance_stream.trans (TokenStream.advance_of_cons h))

theorem peek_of_nil {l : Ledger} (h : l.stream.tokens = []) :
    l.peek.1 = TokenStream.atEnd l.stream.failure ∧ l.peek.2.stream = ⟨none, [], none⟩ :=
  Prod.mk.inj (l.peek_stream.trans (TokenStream.peek_of_nil h))

theorem of_peek_end {l : Ledger} {f : Option ReadError} (h : l.peek.1 = TokenStream.atEnd f) :
    l.stream.tokens = [] ∧ l.stream.failure = f ∧ l.peek.2.stream = ⟨none, [], none⟩ := by
  cases hts : l.stream.tokens with
  | nil =>
    obtain ⟨hend, hstream⟩ := peek_of_nil hts
    exact ⟨rfl, TokenStream.atEnd_inj (hend.symm.trans h), hstream⟩
  | cons t ts => exact absurd ((peek_of_cons hts).1.symm.trans h).symm TokenStream.atEnd_ne_token

/-- A token that is looked at and then consumed is gone. -/
theorem of_peek_some {l : Ledger} {t : Token} (h : l.peek.1 = .ok (some t)) :
    ∃ ts, l.stream.tokens = t :: ts ∧ l.peek.2.stream = ⟨some t, ts, l.stream.failure⟩ ∧
      l.peek.2.advance.2.stream = ⟨none, ts, l.stream.failure⟩ := by
  cases hts : l.stream.tokens with
  | nil =>
    exact absurd ((peek_of_nil hts).1.symm.trans h) TokenStream.atEnd_ne_token
  | cons u ts =>
    obtain ⟨hu, hstream⟩ := peek_of_cons hts
    cases hu.symm.trans h
    have htokens : l.peek.2.stream.tokens = t :: ts := by rw [hstream]; rfl
    refine ⟨ts, rfl, hstream, ?_⟩
    rw [(advance_of_cons htokens).2, hstream]

end Ledger

/-! ## Parsing on the record -/

theorem Datum.ofString_eq_error [CharacterNames] {text : String} {e : ReadError}
    (h : Datum.ofString text = .error e) : e = .invalidString text := by
  simp only [Datum.ofString] at h
  split at h <;> cases h
  rfl

/-- Whether the parser fails at the sight of a token, which it then leaves. -/
def ReadFailure.leavesToken : ReadFailure → Bool
  | .error .unexpectedClose | .error (.unknownToken _) => true
  | _ => false

namespace Parser

variable [CharacterNames] {limit : Nat} {failure : Option ReadError} {stack : List Open}

/-- Go on after the outcome of one token, of which the stream is at the next. -/
def goOn (limit : Nat) (failure : Option ReadError) (t : Token) (ts : List Token) :
    Except ReadFailure State → Except ReadFailure (Option Datum) × TokenStream
  | .error e => (.error e, ⟨if e.leavesToken then some t else none, ts, failure⟩)
  | .ok ⟨stack, []⟩ => run limit failure stack ts
  | .ok ⟨_, d :: _⟩ => (.ok (some d), ⟨none, ts, failure⟩)

theorem goOn_finish (t : Token) (ts : List Token) (stack : List Open) (d : Datum) :
    (match plug d stack with
      | .inl d' => (.ok (some d'), ⟨none, ts, failure⟩)
      | .inr stack' => run limit failure stack' ts) =
      goOn limit failure t ts (.ok ((State.mk stack []).finish d)) := by
  rw [State.finish]
  cases plug d stack <;> rfl

theorem goOn_begin (t : Token) (ts : List Token) (stack : List Open) (o : Open) :
    (if limit ≤ stack.length then (.error .tooDeep, ⟨none, ts, failure⟩)
      else run limit failure (o :: stack) ts) =
      goOn limit failure t ts ((State.mk stack []).begin limit o) := by
  rw [State.begin]
  split <;> rfl

theorem run_cons (t : Token) (ts : List Token) : run limit failure stack (t :: ts) =
    goOn limit failure t ts ((State.mk stack []).feed limit t) := by
  rw [run.eq_def, State.feed]
  cases hk : t.kind with
  | symbol => simp only [hk]; exact goOn_finish t ts stack _
  | string =>
    simp only [hk]
    cases hd : Datum.ofString t.text with
    | error e => rw [Datum.ofString_eq_error hd]; rfl
    | ok d => exact goOn_finish t ts stack d
  | quote => simp only [hk]; exact goOn_begin t ts stack _
  | lparen => simp only [hk]; exact goOn_begin t ts stack _
  | rparen =>
    simp only [hk]
    rcases stack with _ | ⟨_ | items, outer⟩
    · rfl
    · rfl
    · exact goOn_finish t ts outer _
  | other name => simp only [hk]; rfl

end Parser

namespace Ledger

variable [CharacterNames]

/-- Parse one form on the record, of which the parts on the stack have begun. -/
def parseFrom (limit : Nat) (stack : List Open) (l : Ledger) :
    Except ReadFailure (Option Datum) × Ledger :=
  match _h : l.peek.1 with
  | .error e => (.error (.error e), l.peek.2)
  | .ok none =>
    match endError? stack with
    | some e => (.error (.error e), l.peek.2)
    | none => (.ok none, l.peek.2)
  | .ok (some t) =>
    match (State.mk stack []).feed limit t with
    | .error e => (.error e, if e.leavesToken then l.peek.2 else l.peek.2.advance.2)
    | .ok ⟨stack', []⟩ => parseFrom limit stack' l.peek.2.advance.2
    | .ok ⟨_, d :: _⟩ => (.ok (some d), l.peek.2.advance.2)
termination_by l.stream.tokens.length
decreasing_by
  obtain ⟨ts, hts, -, hstream⟩ := of_peek_some _h
  rw [hts, hstream]
  exact Nat.lt_succ_self _

variable {limit : Nat} {l : Ledger}

/-- The parser on the record does what it does without. -/
theorem parseFrom_stream (limit : Nat) (stack : List Open) (l : Ledger) :
    ((l.parseFrom limit stack).1, (l.parseFrom limit stack).2.stream) =
      run limit l.stream.failure stack l.stream.tokens := by
  fun_induction parseFrom limit stack l with
  | case1 stack l e h =>
    obtain ⟨htokens, hfailure, hstream⟩ := of_peek_end (f := some e) h
    rw [htokens, hfailure, hstream, run]
  | case2 stack l h e hend =>
    obtain ⟨htokens, hfailure, hstream⟩ := of_peek_end (f := none) h
    rw [htokens, hfailure, hstream, run, hend]
  | case3 stack l h hend =>
    obtain ⟨htokens, hfailure, hstream⟩ := of_peek_end (f := none) h
    rw [htokens, hfailure, hstream, run, hend]
  | case4 stack l t h e hfeed =>
    obtain ⟨ts, htokens, hlooked, hconsumed⟩ := of_peek_some h
    rw [htokens, run_cons, hfeed, goOn]
    cases e.leavesToken
    · exact congrArg (Prod.mk _) hconsumed
    · exact congrArg (Prod.mk _) hlooked
  | case5 stack l t h stack' hfeed ih =>
    obtain ⟨ts, htokens, -, hconsumed⟩ := of_peek_some h
    rw [ih, htokens, run_cons, hfeed, hconsumed]
    rfl
  | case6 stack l t h stack' d ds hfeed =>
    obtain ⟨ts, htokens, -, hconsumed⟩ := of_peek_some h
    rw [htokens, run_cons, hfeed, hconsumed]
    rfl

/-- Parse the next form on the record. -/
def parse (limit : Nat) (l : Ledger) : Except ReadFailure (Option Datum) × Ledger :=
  l.parseFrom limit []

theorem parse_stream (limit : Nat) (l : Ledger) :
    ((l.parse limit).1, (l.parse limit).2.stream) = l.stream.parse limit :=
  parseFrom_stream limit [] l

/-- Parse all forms on the record, after those that `seen` holds in reverse. -/
def parseOnto (limit : Nat) (seen : List Datum) (l : Ledger) :
    List Datum × Option ReadFailure × Ledger :=
  match _h : (l.parse limit).1 with
  | .error e => (seen.reverse, some e, (l.parse limit).2)
  | .ok none => (seen.reverse, none, (l.parse limit).2)
  | .ok (some d) => parseOnto limit (d :: seen) (l.parse limit).2
termination_by l.stream.tokens.length
decreasing_by
  have hparse : l.stream.parse limit = (.ok (some d), (l.parse limit).2.stream) := by
    rw [← parse_stream, _h]
  exact TokenStream.length_lt_of_parse hparse

theorem parseOnto_stream (limit : Nat) (seen : List Datum) (l : Ledger) :
    Reading.mk (l.parseOnto limit seen).1 (l.parseOnto limit seen).2.1
      (l.parseOnto limit seen).2.2.stream = l.stream.parseOnto limit seen := by
  have hresume : ∀ seen (s : TokenStream),
      s.parseOnto limit seen = resume limit seen (s.parse limit) := parseOnto_eq
  fun_induction parseOnto limit seen l with
  | case1 seen l e h | case2 seen l h =>
    rw [hresume, ← parse_stream, h]
    rfl
  | case3 seen l d h ih =>
    rw [ih, hresume seen, ← parse_stream, h]
    rfl

/-- Use the stream on the record. -/
def use (limit : Nat) (l : Ledger) : StreamStep → StreamAnswer × Ledger
  | .peek => (.token l.peek.1, l.peek.2)
  | .advance => (.token l.advance.1, l.advance.2)
  | .parse => (.form (l.parse limit).1, (l.parse limit).2)
  | .parseAll => (.forms (l.parseOnto limit []).1 (l.parseOnto limit []).2.1,
      (l.parseOnto limit []).2.2)

theorem use_stream (limit : Nat) (l : Ledger) (x : StreamStep) :
    ((l.use limit x).1, (l.use limit x).2.stream) = l.stream.use limit x := by
  cases x with
  | peek => rw [use, TokenStream.use, ← peek_stream]
  | advance => rw [use, TokenStream.use, ← advance_stream]
  | parse => rw [use, TokenStream.use, ← parse_stream]
  | parseAll => rw [use, TokenStream.use, TokenStream.parseAll, ← parseOnto_stream]

/-- The answers to steps in turn, and the ledger afterwards. -/
def useAll (limit : Nat) (l : Ledger) : List StreamStep → List StreamAnswer × Ledger
  | [] => ([], l)
  | x :: xs => ((l.use limit x).1 :: ((l.use limit x).2.useAll limit xs).1,
      ((l.use limit x).2.useAll limit xs).2)

theorem useAll_stream (limit : Nat) (l : Ledger) (xs : List StreamStep) :
    ((l.useAll limit xs).1, (l.useAll limit xs).2.stream) = l.stream.useAll limit xs := by
  induction xs generalizing l with
  | nil => rfl
  | cons x xs ih => rw [TokenStream.useAll, ← use_stream, useAll, ← ih]

/-! ## What every step keeps -/

section

variable {P : Ledger → Prop} (hpeek : ∀ {l : Ledger}, P l → P l.peek.2)
  (hadvance : ∀ {l : Ledger}, P l → P l.advance.2)
include hpeek hadvance

theorem parseFrom_induction (limit : Nat) (stack : List Open) {l : Ledger} (h : P l) :
    P (l.parseFrom limit stack).2 := by
  fun_induction parseFrom limit stack l with
  | case1 | case2 | case3 => exact hpeek h
  | case4 stack l t _ e =>
    dsimp only
    split
    · exact hpeek h
    · exact hadvance (hpeek h)
  | case5 stack l t _ stack' _ ih => exact ih (hadvance (hpeek h))
  | case6 => exact hadvance (hpeek h)

theorem parseOnto_induction (limit : Nat) (seen : List Datum) {l : Ledger} (h : P l) :
    P (l.parseOnto limit seen).2.2 := by
  fun_induction parseOnto limit seen l with
  | case1 | case2 => exact parseFrom_induction hpeek hadvance limit [] h
  | case3 seen l d _ ih => exact ih (parseFrom_induction hpeek hadvance limit [] h)

/-- What is kept when a token is looked at and when one is consumed is kept by every step. -/
theorem use_induction (limit : Nat) {l : Ledger} (h : P l) (x : StreamStep) :
    P (l.use limit x).2 := by
  cases x with
  | peek => exact hpeek h
  | advance => exact hadvance h
  | parse => exact parseFrom_induction hpeek hadvance limit [] h
  | parseAll => exact parseOnto_induction hpeek hadvance limit [] h

theorem useAll_induction (limit : Nat) {l : Ledger} (h : P l) (xs : List StreamStep) :
    P (l.useAll limit xs).2 := by
  induction xs generalizing l with
  | nil => exact h
  | cons x xs ih => exact ih (use_induction hpeek hadvance limit h x)

end

end Ledger

/-! ## Accounts -/

namespace Ledger

variable {l : Ledger}

/-- The ledger is in order: the source has been asked so many times and has given its answers, in
turn; the tokens among them have been consumed or the last one is still in the buffer; and the
others are still to come. -/
structure Accounts (src : TokenSource) (l : Ledger) : Prop where
  given : l.given = (List.range l.given.length).map src.answer
  held : l.consumed ++ l.stream.buffer.toList = src.tokens.take l.given.length
  pending : l.stream.pending = src.tokens.drop l.given.length
  failure : l.stream.failure = if l.given.length ≤ src.tokens.length then src.failure else none

/-- A ledger to begin with. -/
def start (src : TokenSource) : Ledger := ⟨src.stream, [], []⟩

variable {src : TokenSource}

theorem start_accounts (src : TokenSource) : (start src).Accounts src := by
  rw [start, src.stream_eq]
  exact ⟨rfl, rfl, rfl, rfl⟩

/-- The token in an answer of the source. -/
def handedOut : Except ReadError (Option Token) → Option Token
  | .ok t => t
  | .error _ => none

theorem handedOut_answer (src : TokenSource) (n : Nat) :
    handedOut (src.answer n) = src.tokens[n]? := by
  rw [TokenSource.answer]
  cases src.tokens[n]? with
  | some t => rfl
  | none =>
    dsimp only
    split
    · cases src.failure <;> rfl
    · rfl

theorem peek_of_empty (hb : l.stream.buffer = none) : l.peek = (l.stream.pull.1,
    ⟨{ l.stream.pull.2 with buffer := handedOut l.stream.pull.1 }, l.given ++ [l.stream.pull.1],
      l.consumed⟩) := by
  have hbuffer : l.stream.pull.2.buffer = none := by
    rw [TokenStream.pull]
    split
    · exact hb
    · split <;> exact hb
  rw [peek, hb, pull]
  rcases hpull : l.stream.pull with ⟨_ | _ | t, buffer, pending, failure⟩ <;>
    rw [hpull] at hbuffer <;> cases hbuffer <;> rfl

theorem advance_of_empty (hb : l.stream.buffer = none) : l.advance = (l.stream.pull.1,
    ⟨l.stream.pull.2, l.given ++ [l.stream.pull.1],
      l.consumed ++ (handedOut l.stream.pull.1).toList⟩) := by
  rw [advance, hb, pull]
  rcases l.stream.pull with ⟨_ | _ | t, s⟩ <;> simp [handedOut]

/-- Asking a source that has been asked `n` times before. -/
theorem pull_nth (src : TokenSource) (buffer : Option Token) (n : Nat) :
    TokenStream.pull
        ⟨buffer, src.tokens.drop n, if n ≤ src.tokens.length then src.failure else none⟩ =
      (src.answer n, ⟨buffer, src.tokens.drop (n + 1),
        if n + 1 ≤ src.tokens.length then src.failure else none⟩) := by
  rw [TokenSource.answer]
  rcases Nat.lt_trichotomy n src.tokens.length with hlt | heq | hgt
  · rw [List.drop_eq_getElem_cons hlt, List.getElem?_eq_getElem hlt, if_pos (Nat.le_of_lt hlt),
      if_pos (Nat.succ_le_of_lt hlt)]
    rfl
  · have hle : src.tokens.length ≤ n := Nat.le_of_eq heq.symm
    have hpast : ¬ n + 1 ≤ src.tokens.length := Nat.not_lt_of_le hle
    rw [List.drop_of_length_le hle, List.drop_of_length_le (Nat.le_succ_of_le hle),
      List.getElem?_eq_none hle, if_pos (Nat.le_of_eq heq), if_neg hpast, TokenStream.pull_of_nil]
    dsimp only
    rw [if_pos heq]
  · have hle : src.tokens.length ≤ n := Nat.le_of_lt hgt
    have hpast : ¬ n + 1 ≤ src.tokens.length := Nat.not_lt_of_le hle
    rw [List.drop_of_length_le hle, List.drop_of_length_le (Nat.le_succ_of_le hle),
      List.getElem?_eq_none hle, if_neg (Nat.not_le_of_lt hgt), if_neg hpast,
      TokenStream.pull_of_nil]
    dsimp only
    rw [if_neg (Nat.ne_of_gt hgt)]
    rfl

theorem Accounts.pull_eq (h : l.Accounts src) : l.stream.pull =
    (src.answer l.given.length, ⟨l.stream.buffer, src.tokens.drop (l.given.length + 1),
      if l.given.length + 1 ≤ src.tokens.length then src.failure else none⟩) := by
  rw [← pull_nth, ← h.pending, ← h.failure]

/-- The record stays in order when the source is asked and the token that it hands out is kept. -/
theorem Accounts.ask (h : l.Accounts src) (hb : l.stream.buffer = none) {l' : Ledger}
    (hstream : l'.stream = { l.stream.pull.2 with buffer := l'.stream.buffer })
    (hgiven : l'.given = l.given ++ [l.stream.pull.1])
    (hheld : l'.consumed ++ l'.stream.buffer.toList =
      l.consumed ++ (handedOut l.stream.pull.1).toList) : l'.Accounts src := by
  have hlength : l'.given.length = l.given.length + 1 := by
    rw [hgiven, List.length_append, List.length_singleton]
  have hconsumed : l.consumed = src.tokens.take l.given.length := by
    rw [← h.held, hb, Option.toList_none, List.append_nil]
  rw [h.pull_eq] at hstream hgiven hheld
  constructor
  · rw [hlength, List.range_succ, List.map_append, ← h.given, hgiven]
    rfl
  · rw [hheld, hlength, hconsumed, handedOut_answer, List.take_add_one]
  · rw [hstream, hlength]
  · rw [hstream, hlength]

theorem Accounts.peek (h : l.Accounts src) : l.peek.2.Accounts src := by
  cases hb : l.stream.buffer with
  | some t =>
    rw [Ledger.peek, hb]
    exact h
  | none =>
    rw [peek_of_empty hb]
    exact h.ask hb rfl rfl rfl

theorem Accounts.advance (h : l.Accounts src) : l.advance.2.Accounts src := by
  cases hb : l.stream.buffer with
  | some t =>
    have hheld := h.held
    rw [hb] at hheld
    rw [Ledger.advance, hb]
    exact ⟨h.given, (List.append_nil _).trans hheld, h.pending, h.failure⟩
  | none =>
    rw [advance_of_empty hb]
    have hbuffer : l.stream.pull.2.buffer = none := by rw [h.pull_eq, hb]
    refine h.ask hb rfl rfl ?_
    rw [hbuffer, Option.toList_none, List.append_nil]

theorem useAll_accounts [CharacterNames] (src : TokenSource) (limit : Nat) (xs : List StreamStep) :
    ((start src).useAll limit xs).2.Accounts src :=
  useAll_induction Accounts.peek Accounts.advance limit (start_accounts src) xs

/-- Nothing is lost and nothing comes twice. -/
theorem Accounts.conserved (h : l.Accounts src) :
    l.consumed ++ l.stream.buffer.toList ++ l.stream.pending = src.tokens := by
  rw [h.held, h.pending, List.take_append_drop]

end Ledger

end SmallLisp
