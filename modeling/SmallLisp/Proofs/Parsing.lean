import SmallLisp.Reader.Stream
import SmallLisp.Proofs.Lexing

/-!
# Parsing token by token

Reading a text feeds its tokens, one after the other, to a machine that holds the open forms and the
finished ones (`read_eq`). What the machine does on a sequence of tokens is thus a matter of its
parts, and so is what the reader makes of a text that is cut behind a line break
(`read_append_of_line`).
-/

namespace SmallLisp

open Lexer

namespace Parser

/-- What the parser knows between two tokens: the open forms, innermost first, and the finished
ones, last first. -/
structure State where
  stack : List Open
  forms : List Datum

namespace State

/-- A form is finished. -/
def finish (st : State) (d : Datum) : State :=
  match plug d st.stack with
  | .inl d' => ⟨[], d' :: st.forms⟩
  | .inr stack => ⟨stack, st.forms⟩

/-- A form begins. -/
def begin (limit : Nat) (st : State) (o : Open) : Except ReadFailure State :=
  if limit ≤ st.stack.length then .error .tooDeep else .ok { st with stack := o :: st.stack }

variable [CharacterNames]

/-- Take one token. -/
def feed (limit : Nat) (st : State) (t : Token) : Except ReadFailure State :=
  match t.kind with
  | .symbol => .ok (st.finish (.ofAtom t.text))
  | .string =>
    match Datum.ofString t.text with
    | .ok d => .ok (st.finish d)
    | .error e => .error (.error e)
  | .quote => st.begin limit .quote
  | .lparen => st.begin limit (.list [])
  | .rparen =>
    match st.stack with
    | .list items :: outer => .ok (finish { st with stack := outer } (.list items.reverse))
    | _ => .error (.error .unexpectedClose)
  | .other _ => .error (.error (.unknownToken t))

/-- Take tokens up to the first failure. -/
def feedAll (limit : Nat) (st : State) : List Token → State × Option ReadFailure
  | [] => (st, none)
  | t :: ts =>
    match st.feed limit t with
    | .ok st' => st'.feedAll limit ts
    | .error e => (st, some e)

end State

/-! ## The parser and its states -/

variable [CharacterNames] {limit : Nat} {failure : Option ReadError} {st : State} {t : Token}
  {ts : List Token}

/-- Go on after the outcome of parsing one form. -/
def resume (limit : Nat) (forms : List Datum) :
    Except ReadFailure (Option Datum) × TokenStream → Reading
  | (.error e, s) => ⟨forms.reverse, some e, s⟩
  | (.ok none, s) => ⟨forms.reverse, none, s⟩
  | (.ok (some d), s) => s.parseOnto limit (d :: forms)

/-- Parse all forms, of which the first has begun. -/
def readFrom (limit : Nat) (failure : Option ReadError) (st : State) (ts : List Token) : Reading :=
  resume limit st.forms (run limit failure st.stack ts)

/-- The reading of the tokens behind a first one is that of the state which this one leads to, or
the failure which it meets. -/
def Follows (limit : Nat) (failure : Option ReadError) (forms : List Datum) (ts : List Token)
    (r : Reading) : Except ReadFailure State → Prop
  | .ok st => r = readFrom limit failure st ts
  | .error e => ∃ s, r = ⟨forms.reverse, some e, s⟩

theorem parseOnto_eq (seen : List Datum) (s : TokenStream) :
    s.parseOnto limit seen = readFrom limit s.failure ⟨[], seen⟩ s.tokens := by
  rw [TokenStream.parseOnto, readFrom]
  split <;> rename_i h <;> rw [TokenStream.parse] at h <;> rw [h] <;> rfl

theorem follows_finish (st : State) (d : Datum) : Follows limit failure st.forms ts
    (resume limit st.forms (match plug d st.stack with
      | .inl d' => (.ok (some d'), ⟨none, ts, failure⟩)
      | .inr stack => run limit failure stack ts)) (.ok (st.finish d)) := by
  rw [Follows, State.finish]
  cases plug d st.stack with
  | inl d' => exact parseOnto_eq _ _
  | inr stack => rfl

theorem follows_begin (st : State) (o : Open) : Follows limit failure st.forms ts
    (resume limit st.forms (if limit ≤ st.stack.length then (.error .tooDeep, ⟨none, ts, failure⟩)
      else run limit failure (o :: st.stack) ts)) (st.begin limit o) := by
  rw [State.begin]
  split
  · exact ⟨_, rfl⟩
  · rfl

theorem readFrom_cons (limit : Nat) (failure : Option ReadError) (st : State) (t : Token)
    (ts : List Token) :
    Follows limit failure st.forms ts (readFrom limit failure st (t :: ts)) (st.feed limit t) := by
  rw [readFrom, run.eq_def, State.feed]
  cases hk : t.kind with
  | symbol => simp only [hk]; exact follows_finish st _
  | string =>
    simp only [hk]
    cases Datum.ofString t.text with
    | error e => exact ⟨_, rfl⟩
    | ok d => exact follows_finish st d
  | quote => simp only [hk]; exact follows_begin st _
  | lparen => simp only [hk]; exact follows_begin st _
  | rparen =>
    simp only [hk]
    rcases hst : st.stack with _ | ⟨_ | items, outer⟩
    · exact ⟨_, rfl⟩
    · exact ⟨_, rfl⟩
    · exact follows_finish { st with stack := outer } _
  | other name => simp only [hk]; exact ⟨_, rfl⟩

/-- What the parser answers at the end of the tokens. -/
def State.ending (st : State) (failure : Option ReadError) : Option ReadFailure :=
  (failure.or (endError? st.stack)).map .error

theorem readFrom_eq (limit : Nat) (failure : Option ReadError) (st : State) (ts : List Token) :
    ∃ s, readFrom limit failure st ts = ⟨(st.feedAll limit ts).1.forms.reverse,
      (st.feedAll limit ts).2.or ((st.feedAll limit ts).1.ending failure), s⟩ := by
  induction ts generalizing st with
  | nil =>
    rw [readFrom, run.eq_def, State.feedAll]
    cases failure with
    | some e => exact ⟨_, rfl⟩
    | none =>
      simp only [State.ending]
      cases endError? st.stack with
      | some e => exact ⟨_, rfl⟩
      | none => exact ⟨_, rfl⟩
  | cons t ts ih =>
    have hcons := readFrom_cons limit failure st t ts
    rw [State.feedAll]
    cases h : st.feed limit t with
    | ok st' => rw [h] at hcons; rw [hcons]; exact ih st'
    | error e => rw [h] at hcons; exact hcons

namespace State

/-- The parser before the first token. -/
def start : State := ⟨[], []⟩

theorem feedAll_append (st : State) (ts us : List Token) (h : (st.feedAll limit ts).2 = none) :
    st.feedAll limit (ts ++ us) = (st.feedAll limit ts).1.feedAll limit us := by
  induction ts generalizing st with
  | nil => rfl
  | cons t ts ih =>
    rw [feedAll] at h ⊢
    cases hf : st.feed limit t with
    | ok st' =>
      rw [hf] at h
      rw [List.cons_append, feedAll, hf]
      exact ih st' h
    | error e => rw [hf] at h; cases h

/-- Without failure on all tokens there is none on the first ones. -/
theorem feedAll_of_append (st : State) (ts us : List Token)
    (h : (st.feedAll limit (ts ++ us)).2 = none) : (st.feedAll limit ts).2 = none := by
  induction ts generalizing st with
  | nil => rfl
  | cons t ts ih =>
    rw [List.cons_append, feedAll] at h
    rw [feedAll]
    cases hf : st.feed limit t with
    | ok st' => rw [hf] at h; exact ih st' h
    | error e => rw [hf] at h; cases h

/-- The same after some forms more. -/
def after (st : State) (forms : List Datum) : State := { st with forms := st.forms ++ forms }

omit [CharacterNames] in
theorem finish_after (st : State) (forms : List Datum) (d : Datum) :
    (st.after forms).finish d = (st.finish d).after forms := by
  simp only [finish, after]
  cases plug d st.stack <;> rfl

omit [CharacterNames] in
theorem begin_after (st : State) (forms : List Datum) (o : Open) :
    (st.after forms).begin limit o = (st.begin limit o).map (·.after forms) := by
  by_cases h : limit ≤ st.stack.length <;> simp [begin, after, h, Except.map]

theorem feed_after (st : State) (forms : List Datum) (t : Token) :
    (st.after forms).feed limit t = (st.feed limit t).map (·.after forms) := by
  simp only [feed, finish_after, begin_after]
  cases t.kind with
  | symbol | quote | lparen | other => rfl
  | string => cases Datum.ofString t.text <;> rfl
  | rparen =>
    rcases st with ⟨_ | ⟨_ | items, outer⟩, seen⟩
    · rfl
    · rfl
    · exact congrArg Except.ok (finish_after ⟨outer, seen⟩ forms _)

theorem feedAll_after (st : State) (forms : List Datum) (ts : List Token) :
    (st.after forms).feedAll limit ts =
      ((st.feedAll limit ts).1.after forms, (st.feedAll limit ts).2) := by
  induction ts generalizing st with
  | nil => rfl
  | cons t ts ih =>
    simp only [feedAll, feed_after]
    cases st.feed limit t with
    | ok st' => exact ih st'
    | error e => rfl

end State

end Parser

open SmallLisp.Parser

variable [CharacterNames] {limit : Nat} {text : String} {forms : List Datum}

/-- The parser behind the last token of a text, or behind the last before a failure. -/
def parsed (limit : Nat) (text : String) : State × Option ReadFailure :=
  State.start.feedAll limit (lex text.toList).tokens

theorem scan_eq (limit : Nat) (text : String) : ∃ s, scan limit text =
    ⟨(parsed limit text).1.forms.reverse,
      (parsed limit text).2.or ((parsed limit text).1.ending (lex text.toList).failure), s⟩ := by
  obtain ⟨s, hs⟩ := readFrom_eq limit (lex text.toList).failure .start (lex text.toList).tokens
  exact ⟨s, (parseOnto_eq _ _).trans hs⟩

theorem read_eq (limit : Nat) (text : String) : read limit text =
    match (parsed limit text).2.or ((parsed limit text).1.ending (lex text.toList).failure) with
    | some e => .error e
    | none => .ok (parsed limit text).1.forms.reverse := by
  obtain ⟨s, hs⟩ := scan_eq limit text
  exact congrArg Reading.result hs

omit [CharacterNames] in
theorem endError?_eq_none_iff {stack : List Open} : endError? stack = none ↔ stack = [] := by
  rcases stack with _ | ⟨_ | _, _⟩ <;> simp [endError?]

omit [CharacterNames] in
theorem isIncomplete_of_endError? {stack : List Open} {e : ReadError}
    (h : endError? stack = some e) : e.isIncomplete := by
  rcases stack with _ | ⟨_ | _, _⟩ <;> cases h <;> rfl

/-- A stream has a reading exactly if its tokens can all be made and parsed, and no form is left
open. -/
theorem TokenStream.parseAll_eq_ok_iff {s : TokenStream} :
    (s.parseAll limit).result = .ok forms ↔
      s.failure = none ∧ State.start.feedAll limit s.tokens = (⟨[], forms.reverse⟩, none) := by
  obtain ⟨s', hs⟩ := readFrom_eq limit s.failure .start s.tokens
  rw [parseAll, parseOnto_eq]
  refine (Eq.congr_left (congrArg Reading.result hs)).trans ?_
  rw [State.ending, Reading.result]
  obtain ⟨⟨stack, seen⟩, _ | e⟩ := State.start.feedAll limit s.tokens
  · cases s.failure with
    | some e => simp
    | none =>
      cases h : endError? stack with
      | none => simp [endError?_eq_none_iff.mp h, List.reverse_eq_iff]
      | some e =>
        have hne : stack ≠ [] := mt endError?_eq_none_iff.mpr (by simp [h])
        simp [hne]
  · simp

theorem read_eq_ok_iff : read limit text = .ok forms ↔
    (lex text.toList).failure = none ∧ parsed limit text = (⟨[], forms.reverse⟩, none) :=
  TokenStream.parseAll_eq_ok_iff

/-- A text whose tokens can all be parsed has a reading or lacks an end. -/
theorem read_of_parsed (h : (parsed limit text).2 = none) :
    (∃ forms, read limit text = .ok forms) ∨
      ∃ e, read limit text = .error (.error e) ∧ e.isIncomplete := by
  rw [read_eq, h, Option.none_or, State.ending]
  cases hf : (lex text.toList).failure with
  | some e => exact .inr ⟨e, rfl, isIncomplete_of_lex hf⟩
  | none =>
    cases he : endError? (parsed limit text).1.stack with
    | some e => exact .inr ⟨e, by simp, isIncomplete_of_endError? he⟩
    | none => exact .inl ⟨_, rfl⟩

/-- The reader at a line break of a text that can be read: either the forms before it can be read
and then those behind it, or a form is still open. -/
theorem read_append_of_line {a b : String} (ha : EndsLine a.toList)
    (h : read limit (a ++ b) = .ok forms) :
    (∃ front back, read limit a = .ok front ∧ read limit b = .ok back ∧ forms = front ++ back) ∨
      ∃ e, read limit a = .error (.error e) ∧ e.isIncomplete := by
  obtain ⟨hlex, hparsed⟩ := read_eq_ok_iff.mp h
  rw [parsed, String.toList_append] at hparsed
  rw [String.toList_append] at hlex
  obtain ⟨ts, hts⟩ := tokens_lex_append_of_line b.toList ha
  have hfront : (parsed limit a).2 = none :=
    State.feedAll_of_append _ _ ts (by rw [hts, hparsed])
  refine (read_of_parsed hfront).imp_left ?_
  rintro ⟨front, hread⟩
  obtain ⟨halex, haparsed⟩ := read_eq_ok_iff.mp hread
  have hcut := lex_append_of_line b.toList ha halex
  rw [hcut] at hlex hparsed
  change State.start.feedAll limit ((lex a.toList).tokens ++ (lex b.toList).tokens) = _ at hparsed
  rw [State.feedAll_append _ _ _ hfront, ← parsed, haparsed] at hparsed
  have hshift : (⟨[], front.reverse⟩ : State) = State.start.after front.reverse := rfl
  rw [hshift, State.feedAll_after, ← parsed, Prod.mk.injEq, State.after, State.mk.injEq] at hparsed
  obtain ⟨⟨hstack, hforms⟩, hfailure⟩ := hparsed
  refine ⟨front, (parsed limit b).1.forms.reverse, hread, read_eq_ok_iff.mpr ⟨hlex, ?_⟩, ?_⟩
  · rw [List.reverse_reverse, ← hstack, ← hfailure]
  · rw [← List.reverse_reverse forms, ← hforms, List.reverse_append, List.reverse_reverse]

theorem read_of_isBlankText (h : Text.isBlankText text.toList) :
    read limit text = .ok [] := by
  rw [read_eq_ok_iff, parsed, lex_of_isBlankText h]
  exact ⟨rfl, rfl⟩

/-- The reader at the end of a line, or at the end of the text. -/
theorem read_line {a b : String} (ha : EndsLine a.toList ∨ b = "")
    (h : read limit (a ++ b) = .ok forms) :
    (∃ front back, read limit a = .ok front ∧ read limit b = .ok back ∧ forms = front ++ back) ∨
      (EndsLine a.toList ∧ ∃ e, read limit a = .error (.error e) ∧ e.isIncomplete) := by
  rcases ha with ha | rfl
  · exact (read_append_of_line ha h).imp_right fun hopen => ⟨ha, hopen⟩
  · rw [String.append_empty] at h
    exact .inl ⟨forms, [], h, read_of_isBlankText rfl, (List.append_nil _).symm⟩

theorem scan_of_read (h : read limit text = .ok forms) :
    (scan limit text).forms = forms ∧ (scan limit text).failure = none := by
  rw [read, Reading.result] at h
  split at h
  · cases h
  · next hf => cases h; exact ⟨rfl, hf⟩

end SmallLisp
