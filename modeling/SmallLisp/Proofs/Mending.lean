import SmallLisp.Proofs.Parsing

/-!
# Text that more input can mend

An error of the reader is either final or incomplete. A final one is decided by tokens that no
further text can change, so it stays whatever follows (`State.feedAll_lex_append`). An incomplete
one is met at the end of the text, where a string, a list or a quote is open: a string can be closed
(`Lexer.exists_lex_closed`), a quote be given its form, and then every list be closed
(`State.exists_feedAll_close`). Together: `isIncomplete_separates_mendable`.
-/

namespace SmallLisp

open Lexer

namespace Lexer

variable {cs seen : List Char} {e : ReadError}

/-- An open string can be closed; a backslash at the end needs a partner first. -/
theorem exists_closeString? (h : closeString? seen cs = none) :
    ∃ tail text, ∀ b, closeString? seen (cs ++ (tail ++ b)) = some (text, b) := by
  fun_induction closeString? seen cs with
  | case1 seen =>
    exact ⟨['\x22'], ('\x22' :: seen).reverse, fun b => by
      rw [List.nil_append, List.singleton_append, closeString?_cons (by decide), if_pos rfl]⟩
  | case2 seen =>
    refine ⟨['\\', '\x22'], ('\x22' :: '\\' :: '\\' :: seen).reverse, fun b => ?_⟩
    change closeString? ('\\' :: '\\' :: seen) ('\x22' :: b) = _
    rw [closeString?_cons (by decide), if_pos rfl]
  | case3 seen c cs ih => exact ih h
  | case4 => cases h
  | case5 seen c cs h₁ h₂ hc ih =>
    obtain ⟨tail, text, hclose⟩ := ih h
    refine ⟨tail, text, fun b => ?_⟩
    rw [List.cons_append, closeString?_cons (ne_backslash h₁ h₂), if_neg hc, hclose]

theorem exists_next_closed (h : next cs = .failed e) :
    ∃ tail text, ∀ b, next (cs ++ (tail ++ b)) = .token ⟨.string, text⟩ b := by
  unfold next at h
  cases hs : skipLayout false cs with
  | nil => rw [hs] at h; cases h
  | cons c rest =>
    rw [hs, lexeme] at h
    split_ifs at h with hq hl hr hstr
    split at h
    · cases h
    · next hclose =>
      obtain ⟨tail, text, htail⟩ := exists_closeString? hclose
      refine ⟨tail, String.ofList text, fun b => ?_⟩
      rw [next, skipLayout_append_of_ne_nil _ (by simp [hs]), hs, List.cons_append, lexeme,
        if_neg hq, if_neg hl, if_neg hr, if_pos hstr, htail]

/-- The string that is open at the end of a text can be closed, and what follows is read on its
own. -/
theorem exists_lex_closed (h : (lex cs).failure = some e) : ∃ tail text, ∀ b,
    lex (cs ++ (tail ++ b)) = (lex b).prepend ((lex cs).tokens ++ [⟨.string, text⟩]) := by
  induction cs using token_induction with
  | step cs ih =>
    rw [lex_eq cs] at h ⊢
    cases hn : next cs with
    | done => rw [hn] at h; cases h
    | failed e' =>
      obtain ⟨tail, text, htail⟩ := exists_next_closed hn
      exact ⟨tail, text, fun b => lex_of_token (htail b)⟩
    | token t rest =>
      rw [hn] at h
      obtain ⟨tail, text, htail⟩ := ih t rest hn h
      refine ⟨tail, text, fun b => ?_⟩
      have hrest : t.kind = .symbol → rest = [] → Delimited (tail ++ b) := by
        rintro - rfl
        simp only [lex_nil, Lexed.cons] at h
        cases h
      rw [lex_of_token (next_append_of_token _ hn hrest), htail]
      rfl

theorem lex_closers (n : Nat) :
    lex (List.replicate n ')') = ⟨List.replicate n ⟨.rparen, ")"⟩, none⟩ := by
  induction n with
  | zero => exact lex_nil
  | succ n ih => rw [List.replicate_succ, lex_rparen, ih]; rfl

end Lexer

namespace Parser

def Open.isList : Open → Bool
  | .quote => false
  | .list _ => true

namespace State

variable [CharacterNames] {limit : Nat} {st : State} {e : ReadError}

/-! ## Final errors -/

theorem feed_symbol {t : Token} (h : t.kind = .symbol) :
    st.feed limit t = .ok (st.finish (.ofAtom t.text)) := by
  rw [feed, h]

/-- An error at a token comes from tokens that no further text changes: the last atom, which alone
may go on, never meets one. -/
theorem feedAll_lex_append {cs : List Char} {f : ReadFailure} (b : List Char)
    (h : (st.feedAll limit (lex cs).tokens).2 = some f) :
    st.feedAll limit (lex (cs ++ b)).tokens = st.feedAll limit (lex cs).tokens := by
  induction cs using token_induction generalizing st with
  | step cs ih =>
    rw [lex_eq cs] at h ⊢
    cases hn : next cs with
    | done => rw [hn] at h; cases h
    | failed e => rw [hn] at h; cases h
    | token t rest =>
      rw [hn] at h
      have hrest : t.kind = .symbol → rest = [] → Delimited b := by
        rintro ht rfl
        simp only [Lexed.cons, lex_nil, feedAll, feed_symbol ht] at h
        cases h
      rw [lex_of_token (next_append_of_token b hn hrest)]
      simp only [Lexed.cons, feedAll] at h ⊢
      cases hfeed : st.feed limit t with
      | ok st' => rw [hfeed] at h; exact ih t rest hn h
      | error f => rfl

theorem isIncomplete_of_ofString {text : String} (h : Datum.ofString text = .error e) :
    e.isIncomplete = false := by
  simp only [Datum.ofString] at h
  split at h
  · cases h
  · cases h; rfl

theorem isIncomplete_of_feed {t : Token} (h : st.feed limit t = .error (.error e)) :
    e.isIncomplete = false := by
  unfold feed at h
  split at h
  · cases h
  · split at h
    · cases h
    · next hs => cases h; exact isIncomplete_of_ofString hs
  · unfold begin at h; split at h <;> cases h
  · unfold begin at h; split at h <;> cases h
  · split at h <;> cases h; rfl
  · cases h; rfl

/-- No token makes a text incomplete. -/
theorem isIncomplete_of_feedAll {ts : List Token}
    (h : (st.feedAll limit ts).2 = some (.error e)) : e.isIncomplete = false := by
  induction ts generalizing st with
  | nil => cases h
  | cons t ts ih =>
    rw [feedAll] at h
    cases hf : st.feed limit t with
    | ok st' => rw [hf] at h; exact ih h
    | error f => rw [hf] at h; cases h; exact isIncomplete_of_feed hf

/-! ## Closing what is open -/

/-- How many lists are open. -/
def openLists (st : State) : Nat := st.stack.countP (·.isList)

omit [CharacterNames] in
/-- A finished form leaves as many lists open, and no quote that waits for its form. -/
theorem finish_spec (st : State) (d : Datum) : (st.finish d).openLists = st.openLists ∧
    ∀ o ∈ (st.finish d).stack.head?, o.isList := by
  obtain ⟨stack, forms⟩ := st
  simp only [openLists, finish]
  induction stack generalizing d with
  | nil =>
    refine ⟨rfl, fun o ho => ?_⟩
    cases ho
  | cons o outer ih =>
    cases o with
    | quote => exact ih d.quoted
    | list items =>
      refine ⟨rfl, ?_⟩
      rintro o ⟨⟩
      rfl

/-- Where no quote waits for its form, closing every list closes everything. -/
theorem feedAll_closers (st : State) (h : ∀ o ∈ st.stack.head?, o.isList) : ∃ forms,
    st.feedAll limit (List.replicate st.openLists ⟨.rparen, ")"⟩) = (⟨[], forms⟩, none) := by
  generalize hn : st.openLists = n
  induction n generalizing st with
  | zero =>
    obtain ⟨_ | ⟨o, outer⟩, forms⟩ := st
    · exact ⟨forms, rfl⟩
    · simp [openLists, h o rfl] at hn
  | succ n ih =>
    obtain ⟨_ | ⟨_ | items, outer⟩, forms⟩ := st
    · cases hn
    · cases h .quote rfl
    · obtain ⟨hcount, hhead⟩ := finish_spec ⟨outer, forms⟩ (.list items.reverse)
      refine ih _ hhead (hcount.trans ?_)
      simpa [openLists, Open.isList] using hn

/-- One more form and the end of every open list complete what has begun. -/
theorem exists_feedAll_close (limit : Nat) (st : State) (d : Datum) : ∃ forms,
    (st.finish d).feedAll limit (List.replicate st.openLists ⟨.rparen, ")"⟩) =
      (⟨[], forms⟩, none) := by
  obtain ⟨hcount, hhead⟩ := finish_spec st d
  rw [← hcount]
  exact feedAll_closers _ hhead

end State

end Parser

open SmallLisp.Parser

section

variable [CharacterNames] {limit : Nat} {text : String} {e : ReadError}

/-- The reader meets a final error at a token and an incomplete one behind the last token. -/
theorem parsed_of_read_error (h : read limit text = .error (.error e)) :
    (e.isIncomplete = false ∧ (parsed limit text).2 = some (.error e)) ∨
      (e.isIncomplete ∧ (parsed limit text).2 = none ∧
        (parsed limit text).1.ending (lex text.toList).failure = some (.error e)) := by
  rw [read_eq] at h
  cases hp : (parsed limit text).2 with
  | some f =>
    rw [hp, Option.some_or] at h
    cases h
    exact .inl ⟨State.isIncomplete_of_feedAll hp, rfl⟩
  | none =>
    rw [hp, Option.none_or] at h
    cases hend : (parsed limit text).1.ending (lex text.toList).failure with
    | none => rw [hend] at h; cases h
    | some f =>
      rw [hend] at h
      cases h
      refine .inr ⟨?_, rfl, rfl⟩
      rw [State.ending, Option.map_eq_some_iff] at hend
      obtain ⟨e, hor, ⟨⟩⟩ := hend
      rcases Option.or_eq_some_iff.mp hor with hlex | ⟨-, hstack⟩
      · exact isIncomplete_of_lex hlex
      · exact isIncomplete_of_endError? hstack

/-- Behind a final error nothing is parsed, whatever follows. -/
theorem parsed_append_of_error {f : ReadFailure} (more : String)
    (h : (parsed limit text).2 = some f) : parsed limit (text ++ more) = parsed limit text := by
  rw [parsed, String.toList_append]
  exact State.feedAll_lex_append _ h

/-- A final error stays, whatever follows. -/
theorem read_append_of_parsed_error {f : ReadFailure} (more : String)
    (h : (parsed limit text).2 = some f) : read limit (text ++ more) = .error f := by
  rw [read_eq, parsed_append_of_error more h, h, Option.some_or]

/-- An open string can be closed: then the text has a reading or a final error. -/
theorem exists_read_append_of_string (hp : (parsed limit text).2 = none)
    (h : (lex text.toList).failure = some e) : ∃ more,
    (∃ forms, read limit (text ++ more) = .ok forms) ∨
      ∃ e', read limit (text ++ more) = .error (.error e') ∧ e'.isIncomplete = false := by
  obtain ⟨tail, str, htail⟩ := exists_lex_closed h
  let st := (parsed limit text).1
  refine ⟨String.ofList (tail ++ List.replicate st.openLists ')'), ?_⟩
  have hlex := htail (List.replicate st.openLists ')')
  rw [lex_closers, Lexed.prepend, List.append_assoc] at hlex
  rw [read_eq, parsed, String.toList_append, String.toList_ofList, hlex,
    State.feedAll_append _ _ _ hp, List.singleton_append, State.feedAll]
  cases hs : Datum.ofString str with
  | error e' =>
    simp only [State.feed, hs]
    exact .inr ⟨e', rfl, State.isIncomplete_of_ofString hs⟩
  | ok d =>
    obtain ⟨forms, hclose⟩ := State.exists_feedAll_close limit st d
    simp only [State.feed, hs]
    rw [show (State.start.feedAll limit (lex text.toList).tokens).1 = st from rfl, hclose]
    exact .inl ⟨_, rfl⟩

/-- Open lists and quotes can be completed. -/
theorem exists_read_append_of_open (hp : (parsed limit text).2 = none)
    (h : (lex text.toList).failure = none) : ∃ more forms,
    read limit (text ++ more) = .ok forms := by
  let st := (parsed limit text).1
  let closers := List.replicate st.openLists ')'
  have hdel : Delimited closers := by
    intro c hc
    rw [List.eq_of_mem_replicate (List.mem_of_mem_head? hc)]
    decide
  have hx : ∀ c ∈ ['x'], isAtomChar c := by
    intro c hc
    rw [List.mem_singleton.mp hc]
    decide
  have hatom : lex (['x'] ++ closers) = (lex closers).cons ⟨.symbol, "x"⟩ :=
    lex_atom (List.cons_ne_nil _ _) hx hdel
  obtain ⟨forms, hclose⟩ := State.exists_feedAll_close limit st (.ofAtom "x")
  refine ⟨String.ofList ('\n' :: (['x'] ++ closers)), forms.reverse, read_eq_ok_iff.mpr ?_⟩
  rw [parsed, String.toList_append, String.toList_ofList, lex_append_line _ h, hatom, lex_closers,
    List.reverse_reverse]
  refine ⟨rfl, ?_⟩
  rw [Lexed.prepend, State.feedAll_append _ _ _ hp]
  exact hclose

end

/-- Incomplete text is text that more input can mend. A final error is the error of every longer
text. An incomplete text can be completed so far that it has a reading or a final error, and if a
list or a quote is open, so that it has a reading. -/
theorem isIncomplete_separates_mendable [CharacterNames] {limit : Nat} {text : String}
    {e : ReadError} (h : read limit text = .error (.error e)) :
    (e.isIncomplete = false → ∀ more, read limit (text ++ more) = .error (.error e)) ∧
    (e.isIncomplete →
      ∃ more, (∃ forms, read limit (text ++ more) = .ok forms) ∨
        ∃ e', read limit (text ++ more) = .error (.error e') ∧ e'.isIncomplete = false) ∧
    (e = .unclosedList ∨ e = .danglingQuote →
      ∃ more forms, read limit (text ++ more) = .ok forms) := by
  rcases parsed_of_read_error h with ⟨hfinal, hp⟩ | ⟨hopen, hp, hend⟩
  · refine ⟨fun _ more => read_append_of_parsed_error more hp, fun hi => ?_, ?_⟩
    · rw [hfinal] at hi
      cases hi
    · rintro (rfl | rfl) <;> cases hfinal
  · refine ⟨fun hf => ?_, fun _ => ?_, fun he => ?_⟩
    · rw [hopen] at hf
      cases hf
    · cases hlex : (lex text.toList).failure with
      | some e' => exact exists_read_append_of_string hp hlex
      | none =>
        obtain ⟨more, forms, hread⟩ := exists_read_append_of_open hp hlex
        exact ⟨more, .inl ⟨forms, hread⟩⟩
    · refine exists_read_append_of_open hp ?_
      rw [State.ending, Option.map_eq_some_iff] at hend
      obtain ⟨e, hor, ⟨⟩⟩ := hend
      rcases Option.or_eq_some_iff.mp hor with hlex | ⟨hlex, -⟩
      · obtain ⟨excerpt, rfl⟩ := unterminated_of_lex hlex
        rcases he with he | he <;> cases he
      · exact hlex

theorem isIncomplete_separates_mendable_cases :
    (read 9 "a) \"b" = .error (.error .unexpectedClose) ∧
      ∀ more, read 9 ("a) \"b" ++ more) = .error (.error .unexpectedClose)) ∧
    (read 9 "(\"a\\" = .error (.error (.unterminatedString "\"a\\")) ∧
      ∃ more, (∃ forms, read 9 ("(\"a\\" ++ more) = .ok forms) ∨
        ∃ e', read 9 ("(\"a\\" ++ more) = .error (.error e') ∧ e'.isIncomplete = false) ∧
    (read 9 "(a '; no form" = .error (.error .danglingQuote) ∧
      ∃ more forms, read 9 ("(a '; no form" ++ more) = .ok forms) := by
  have hclose : read 9 "a) \"b" = .error (.error .unexpectedClose) := by cbv
  have hstring : read 9 "(\"a\\" = .error (.error (.unterminatedString "\"a\\")) := by cbv
  have hquote : read 9 "(a '; no form" = .error (.error .danglingQuote) := by cbv
  exact ⟨⟨hclose, (isIncomplete_separates_mendable hclose).1 rfl⟩,
    ⟨hstring, (isIncomplete_separates_mendable hstring).2.1 rfl⟩,
    ⟨hquote, (isIncomplete_separates_mendable hquote).2.2 (.inr rfl)⟩⟩

end SmallLisp
