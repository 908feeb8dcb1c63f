import SmallLisp.Proofs.Lexing

/-!
# Layouts of tokens

A layout of tokens is a text in which they stand in order, each as it is spelled, with white space
and comments around them and something between two atoms. The lexer undoes this: it finds tokens in
a text exactly if the text is a layout of them (`IsLayout.lex_eq`, `isLayout_lex`). What is no
layout has an opening double quote without a closing one, and a layout of the tokens in front of it.
-/

namespace SmallLisp.Lexer

open Text

variable {cs rest text gap : List Char} {kind : Token.Kind} {t : Token}
  {ts : List Token} {failure : Option ReadError} {after : Bool}

/-- White space and comments, each ended by a line break. -/
inductive IsGap : List Char → Prop
  | nil : IsGap []
  | blank {c : Char} {cs : List Char} : isBlank c → IsGap cs → IsGap (c :: cs)
  | comment {text cs : List Char} : '\n' ∉ text → IsGap cs → IsGap (';' :: (text ++ '\n' :: cs))

/-- The same at the end of a text, which also ends a comment. -/
inductive IsFinalGap : List Char → Prop
  | gap {gap : List Char} : IsGap gap → IsFinalGap gap
  | comment {gap text : List Char} : IsGap gap → '\n' ∉ text → IsFinalGap (gap ++ ';' :: text)

/-- How the tokens of a kind are spelled. -/
inductive IsSpelling : Token.Kind → List Char → Prop
  | quote : IsSpelling .quote ['\x27']
  | lparen : IsSpelling .lparen ['(']
  | rparen : IsSpelling .rparen [')']
  | string {body : List Char} : IsStringBody body → IsSpelling .string ('\x22' :: body ++ ['\x22'])
  | symbol {atom : List Char} : atom ≠ [] →
    (∀ c ∈ atom, isBlank c = false ∧ c ≠ '(' ∧ c ≠ ')' ∧ c ≠ '\x27' ∧ c ≠ '\x22' ∧ c ≠ ';') →
    IsSpelling .symbol atom

/-- The text has the tokens in order, with gaps before them, and ends as `last` says. The flag tells
that an atom precedes it, from which another atom is to be kept apart. -/
inductive IsLayout (last : List Char → Prop) : (after : Bool) → List Token → List Char → Prop
  | nil {after : Bool} {cs : List Char} : last cs → IsLayout last after [] cs
  | cons {after : Bool} {gap rest : List Char} {t : Token} {ts : List Token} : IsGap gap →
    IsSpelling t.kind t.text.toList → (after → t.kind = .symbol → gap ≠ []) →
    IsLayout last (t.kind = .symbol) ts rest →
    IsLayout last after (t :: ts) (gap ++ (t.text.toList ++ rest))

/-- No double quote closes a string that goes on with the text. -/
def IsUnclosed (cs : List Char) : Prop :=
  ∀ body rest, IsStringBody body → cs ≠ body ++ '\x22' :: rest

/-- A gap and then a string without an end, which the error shows the beginning of. -/
def IsOpenString (e : ReadError) (cs : List Char) : Prop :=
  ∃ gap rest, cs = gap ++ '\x22' :: rest ∧ IsGap gap ∧ IsUnclosed rest ∧
    e = .unterminatedString (String.ofList (('\x22' :: rest).take excerptLength))

/-- How a text ends behind its last token, by the failure that the lexer meets there. -/
def IsEnding : Option ReadError → List Char → Prop
  | none => IsFinalGap
  | some e => IsOpenString e

/-! ## Gaps -/

theorem IsGap.append {gap' : List Char} (h : IsGap gap) (h' : IsGap gap') :
    IsGap (gap ++ gap') := by
  induction h with
  | nil => exact h'
  | blank hb _ ih => exact .blank hb ih
  | comment ht _ ih =>
    rw [List.cons_append, List.append_assoc]
    exact .comment ht ih

theorem IsFinalGap.append (h : IsGap gap) (hcs : IsFinalGap cs) : IsFinalGap (gap ++ cs) := by
  cases hcs with
  | gap hgap => exact .gap (h.append hgap)
  | comment hgap ht =>
    rw [← List.append_assoc]
    exact .comment (h.append hgap) ht

theorem skipLayout_comment (h : '\n' ∉ text) :
    skipLayout true (text ++ '\n' :: cs) = skipLayout false cs := by
  induction text with
  | nil => rfl
  | cons c text ih =>
    obtain ⟨hc, ht⟩ := not_or.mp (mt List.mem_cons.mpr h)
    rw [List.cons_append, skipLayout, bne_iff_ne.mpr (Ne.symm hc), ih ht]

theorem skipLayout_open_comment (h : '\n' ∉ text) : skipLayout true text = [] := by
  induction text with
  | nil => rfl
  | cons c text ih =>
    obtain ⟨hc, ht⟩ := not_or.mp (mt List.mem_cons.mpr h)
    rw [skipLayout, bne_iff_ne.mpr (Ne.symm hc), ih ht]

theorem skipLayout_semicolon : skipLayout false (';' :: cs) = skipLayout true cs := by
  rw [skipLayout, if_neg (by decide), if_pos rfl]

theorem IsGap.skipLayout_append (h : IsGap gap) (cs : List Char) :
    skipLayout false (gap ++ cs) = skipLayout false cs := by
  induction h with
  | nil => rfl
  | blank hb _ ih => rw [List.cons_append, skipLayout, if_pos hb, ih]
  | comment ht _ ih =>
    rw [List.cons_append, List.append_assoc, skipLayout_semicolon, List.cons_append,
      skipLayout_comment ht, ih]

theorem IsGap.lex_append (h : IsGap gap) (cs : List Char) : lex (gap ++ cs) = lex cs :=
  lex_congr (by rw [next, next, h.skipLayout_append])

theorem IsFinalGap.lex_eq (h : IsFinalGap cs) : lex cs = ⟨[], none⟩ := by
  cases h with
  | gap h => rw [← List.append_nil cs, h.lex_append, lex_nil]
  | comment h ht =>
    rw [h.lex_append, lex_eq, next, skipLayout_semicolon, skipLayout_open_comment ht]
    rfl

/-- The layout in front of a text is a gap, or the text is nothing else. -/
def SkipsGap (cs : List Char) : Prop :=
  (IsFinalGap cs ∧ skipLayout false cs = []) ∨ ∃ gap, IsGap gap ∧ cs = gap ++ skipLayout false cs

theorem SkipsGap.append (hgap : IsGap gap) (h : SkipsGap cs) : SkipsGap (gap ++ cs) := by
  rw [SkipsGap, hgap.skipLayout_append]
  rcases h with ⟨hfinal, hs⟩ | ⟨gap', hgap', hcs⟩
  · exact .inl ⟨hfinal.append hgap, hs⟩
  · exact .inr ⟨gap ++ gap', hgap.append hgap', by rw [List.append_assoc, ← hcs]⟩

theorem skipsGap (cs : List Char) : SkipsGap cs := by
  match cs with
  | [] => exact .inr ⟨[], .nil, rfl⟩
  | c :: cs =>
    by_cases hb : isBlank c
    · exact (skipsGap cs).append (.blank hb .nil)
    by_cases hc : c = ';'
    · subst hc
      by_cases hn : '\n' ∈ cs
      · obtain ⟨text, tail, rfl, ht⟩ := List.eq_append_cons_of_mem hn
        have htail := (skipsGap tail).append (.comment ht .nil)
        simpa using htail
      · refine .inl ⟨.comment .nil hn, ?_⟩
        rw [skipLayout_semicolon, skipLayout_open_comment hn]
    · refine .inr ⟨[], .nil, ?_⟩
      rw [skipLayout, if_neg hb, if_neg hc, List.nil_append]
termination_by cs.length

/-! ## Strings -/

theorem closeString?_eq_none_iff {seen : List Char} :
    closeString? seen cs = none ↔ IsUnclosed cs := by
  constructor
  · rintro h body rest hbody rfl
    rw [hbody.closeString?_eq] at h
    cases h
  · intro h
    cases hclose : closeString? seen cs with
    | none => rfl
    | some p =>
      obtain ⟨body, hbody, hcs, -⟩ := isStringBody_of_closeString? hclose
      exact absurd hcs (h body p.2 hbody)

theorem lex_openString (h : IsUnclosed cs) : lex ('\x22' :: cs) =
    ⟨[], some (.unterminatedString (String.ofList (('\x22' :: cs).take excerptLength)))⟩ := by
  rw [lex_eq, next, skipLayout_cons (by decide) (by decide)]
  simp [lexeme, closeString?_eq_none_iff.mpr h]

/-! ## Tokens -/

theorem lex_quote : lex ('\x27' :: cs) = (lex cs).cons ⟨.quote, "'"⟩ :=
  lex_of_token (by rw [next, skipLayout_cons (by decide) (by decide)]; rfl)

/-- A token that is spelled in front of a rest. -/
theorem IsSpelling.lex_append (h : IsSpelling kind text) (hr : kind = .symbol → Delimited rest) :
    lex (text ++ rest) = (lex rest).cons ⟨kind, String.ofList text⟩ := by
  cases h with
  | quote => exact lex_quote
  | lparen => exact lex_lparen
  | rparen => exact lex_rparen
  | string hbody =>
    have hclose := hbody.closeString?_eq ['\x22'] rest
    rw [List.cons_append, List.cons_append, List.append_assoc]
    exact lex_string hclose
  | symbol hne ha => exact lex_atom hne (fun c hc => isAtomChar_iff.mpr (ha c hc)) (hr rfl)

/-- A token other than an atom sets itself apart. -/
theorem IsSpelling.delimited (h : IsSpelling kind text) (hk : kind ≠ .symbol) :
    Delimited (text ++ rest) := by
  cases h with
  | symbol => exact absurd rfl hk
  | _ => exact delimited_cons (by decide)

theorem IsSpelling.not_delimited (h : IsSpelling .symbol text) : ¬ Delimited (text ++ rest) := by
  cases h with
  | symbol hne ha =>
    obtain ⟨c, cs, rfl⟩ := List.exists_cons_of_ne_nil hne
    intro hdel
    exact absurd (isAtomChar_iff.mpr (ha c (.head _))) (by simp [hdel c rfl])

theorem delimited_dropWhile (cs : List Char) : Delimited (cs.dropWhile isAtomChar) := by
  intro c hc
  have hnot := List.head?_dropWhile_not isAtomChar cs
  rw [Option.mem_def.mp hc] at hnot
  simpa using hnot

/-- The first token is spelled in front of the rest. -/
theorem isSpelling_of_lexeme (h : lexeme cs = .token t rest)
    (hc : ∀ c ∈ cs.head?, isBlank c = false ∧ c ≠ ';') : IsSpelling t.kind t.text.toList ∧
      cs = t.text.toList ++ rest ∧ (t.kind = .symbol → Delimited rest) := by
  unfold lexeme at h
  split at h
  · cases h
  · next c cs =>
    split_ifs at h with hq hl hr hs
    · cases h; subst hq; exact ⟨.quote, rfl, nofun⟩
    · cases h; subst hl; exact ⟨.lparen, rfl, nofun⟩
    · cases h; subst hr; exact ⟨.rparen, rfl, nofun⟩
    · subst hs
      split at h
      · next hclose =>
        cases h
        obtain ⟨body, hbody, rfl, rfl⟩ := isStringBody_of_closeString? hclose
        rw [String.toList_ofList]
        exact ⟨.string hbody, by simp, nofun⟩
      · cases h
    · cases h
      rw [String.toList_ofList]
      refine ⟨.symbol (by simp) ?_, ?_, fun _ => delimited_dropWhile cs⟩
      · intro d hd
        rcases List.mem_cons.mp hd with rfl | hd
        · exact ⟨(hc d rfl).1, hl, hr, hq, hs, (hc d rfl).2⟩
        · exact isAtomChar_iff.mp (List.mem_takeWhile_imp hd)
      · rw [List.cons_append, List.takeWhile_append_dropWhile]

theorem isUnclosed_of_lexeme {e : ReadError} (h : lexeme cs = .failed e) :
    ∃ rest, cs = '\x22' :: rest ∧ IsUnclosed rest ∧
      e = .unterminatedString (String.ofList (cs.take excerptLength)) := by
  unfold lexeme at h
  split at h
  · cases h
  · next c cs =>
    split_ifs at h with _ _ _ hs
    subst hs
    split at h
    · cases h
    · next hclose =>
      cases h
      exact ⟨cs, rfl, closeString?_eq_none_iff.mp hclose, rfl⟩

/-! ## Layouts -/

theorem exists_gap_of_ne_nil (h : skipLayout false cs ≠ []) :
    ∃ gap, IsGap gap ∧ cs = gap ++ skipLayout false cs :=
  (skipsGap cs).resolve_left fun hfinal => h hfinal.2

theorem isOpenString_of_next {e : ReadError} (h : next cs = .failed e) : IsOpenString e cs := by
  obtain ⟨rest, hs, hopen, he⟩ := isUnclosed_of_lexeme h
  obtain ⟨gap, hgap, hcs⟩ := exists_gap_of_ne_nil (by rw [hs]; exact List.cons_ne_nil _ _)
  rw [hs] at hcs he
  exact ⟨gap, rest, hcs, hgap, hopen, he⟩

theorem isSpelling_of_next (h : next cs = .token t rest) :
    ∃ gap, IsGap gap ∧ cs = gap ++ (t.text.toList ++ rest) ∧ IsSpelling t.kind t.text.toList ∧
      (t.kind = .symbol → Delimited rest) := by
  have hne : skipLayout false cs ≠ [] := by
    intro hs
    rw [next, hs] at h
    cases h
  obtain ⟨c, tail, hs⟩ := List.exists_cons_of_ne_nil hne
  obtain ⟨gap, hgap, hcs⟩ := exists_gap_of_ne_nil hne
  have hc : ∀ d ∈ (skipLayout false cs).head?, isBlank d = false ∧ d ≠ ';' := by
    rw [hs]
    rintro d ⟨⟩
    exact skipLayout_eq_cons hs
  obtain ⟨ht, hrest, hdel⟩ := isSpelling_of_lexeme h hc
  rw [hrest] at hcs
  exact ⟨gap, hgap, hcs, ht, hdel⟩

theorem IsGap.delimited (h : IsGap gap) (hne : gap ≠ []) : Delimited (gap ++ cs) := by
  cases h with
  | nil => exact absurd rfl hne
  | blank hb => exact delimited_cons (by simp [isAtomChar, hb])
  | comment => exact delimited_cons (by decide)

theorem IsEnding.delimited (h : IsEnding failure cs) : Delimited cs := by
  have hgap : ∀ {gap tail}, IsGap gap → Delimited tail → Delimited (gap ++ tail) := by
    intro gap tail hgap htail
    by_cases hne : gap = []
    · rwa [hne]
    · exact hgap.delimited hne
  cases failure with
  | none =>
    cases h with
    | gap h => exact List.append_nil cs ▸ hgap h delimited_nil
    | comment h => exact hgap h (delimited_cons (by decide))
  | some e =>
    obtain ⟨gap, rest, rfl, h, -, -⟩ := h
    exact hgap h (delimited_cons (by decide))

/-- No atom goes on into a layout that follows one. -/
theorem IsLayout.delimited (h : IsLayout (IsEnding failure) true ts cs) : Delimited cs := by
  cases h with
  | nil h => exact h.delimited
  | @cons _ gap rest t ts hgap ht hsep _ =>
    by_cases hne : gap = []
    · subst hne
      exact ht.delimited fun hk => hsep rfl hk rfl
    · exact hgap.delimited hne

/-- The lexer finds the tokens of a layout, and how it ends. -/
theorem IsLayout.lex_eq (h : IsLayout (IsEnding failure) after ts cs) :
    lex cs = ⟨ts, failure⟩ := by
  induction h with
  | nil h =>
    cases failure with
    | none => exact IsFinalGap.lex_eq h
    | some e =>
      obtain ⟨gap, rest, rfl, hgap, hopen, rfl⟩ := h
      rw [hgap.lex_append, lex_openString hopen]
  | @cons _ gap rest t ts hgap ht hsep hrest ih =>
    have hdel : t.kind = .symbol → Delimited rest := by
      intro hk
      rw [decide_eq_true hk] at hrest
      exact hrest.delimited
    rw [hgap.lex_append, ht.lex_append hdel, ih, String.ofList_toList]
    rfl

/-- A text is a layout of the tokens that the lexer finds in it. -/
theorem isLayout_lex (cs : List Char) (hafter : after → Delimited cs) :
    IsLayout (IsEnding (lex cs).failure) after (lex cs).tokens cs := by
  induction cs using token_induction generalizing after with
  | step cs ih =>
    rw [Lexer.lex_eq]
    cases hn : next cs with
    | done =>
      rcases skipsGap cs with ⟨hfinal, -⟩ | ⟨gap, hgap, hcs⟩
      · exact .nil hfinal
      · rw [skipLayout_of_done hn, List.append_nil] at hcs
        exact .nil (.gap (hcs ▸ hgap))
    | failed e => exact .nil (isOpenString_of_next hn)
    | token t rest =>
      obtain ⟨gap, hgap, hcs, ht, hdel⟩ := isSpelling_of_next hn
      have hrest :
          IsLayout (IsEnding (lex rest).failure) (t.kind = .symbol) (lex rest).tokens rest :=
        ih t rest hn fun hk => hdel (of_decide_eq_true hk)
      subst hcs
      -- without a gap the text begins with the token, so an atom would go on
      refine .cons hgap ht ?_ hrest
      rintro ha hk rfl
      rw [hk] at ht
      exact ht.not_delimited (hafter ha)

/-- **The lexer accepts exactly the layouts.** It finds tokens in a text and no failure exactly if
the text is a layout of these tokens, and tokens and a failure exactly if behind a layout of the
tokens there is a double quote that opens a string without an end. A text that is no layout has
this failure, and there is no other. -/
theorem lex_accepts_layouts (cs : List Char) :
    (∀ ts, lex cs = ⟨ts, none⟩ ↔ IsLayout IsFinalGap false ts cs) ∧
    (∀ ts e, lex cs = ⟨ts, some e⟩ ↔ IsLayout (IsOpenString e) false ts cs) ∧
    ((¬ ∃ ts, IsLayout IsFinalGap false ts cs) → ∃ ts e, lex cs = ⟨ts, some e⟩ ∧
      e.isIncomplete ∧ e.message = "Unterminated string") := by
  have hlayout : IsLayout (IsEnding (lex cs).failure) false (lex cs).tokens cs :=
    isLayout_lex cs nofun
  have hlex : ∀ ts failure, lex cs = ⟨ts, failure⟩ ↔ IsLayout (IsEnding failure) false ts cs :=
    fun ts failure => ⟨fun h => by rwa [h] at hlayout, IsLayout.lex_eq⟩
  refine ⟨fun ts => hlex ts none, fun ts e => hlex ts (some e), fun hno => ?_⟩
  cases hf : (lex cs).failure with
  | none =>
    rw [hf] at hlayout
    exact absurd ⟨_, hlayout⟩ hno
  | some e =>
    obtain ⟨excerpt, rfl⟩ := unterminated_of_lex hf
    exact ⟨(lex cs).tokens, _, by rw [← hf], rfl, rfl⟩

/-- A parenthesis, an atom, a comment and a string without an end. -/
theorem lex_accepts_layouts_open_string :
    (¬ ∃ ts, IsLayout IsFinalGap false ts "(a;c\n\x22b".toList) ∧
      lex "(a;c\n\x22b".toList = ⟨[⟨.lparen, "("⟩, ⟨.symbol, "a"⟩],
        some (.unterminatedString "\x22b")⟩ := by
  have hopen : IsUnclosed ['b'] := closeString?_eq_none_iff.mp (rfl : closeString? [] ['b'] = none)
  have hcomment : IsGap ";c\n".toList := .comment (by decide : '\n' ∉ ['c']) .nil
  have hsymbol : IsSpelling .symbol ['a'] := by
    refine .symbol (List.cons_ne_nil _ _) fun c hc => ?_
    cases List.mem_singleton.mp hc
    decide
  have hlex := ((lex_accepts_layouts "(a;c\n\x22b".toList).2.1
    [⟨.lparen, "("⟩, ⟨.symbol, "a"⟩] (.unterminatedString "\x22b")).mpr
    (.cons .nil .lparen nofun (.cons .nil hsymbol nofun (.nil ⟨_, _, rfl, hcomment, hopen, rfl⟩)))
  refine ⟨?_, hlex⟩
  rintro ⟨ts, hts⟩
  have hnone := ((lex_accepts_layouts "(a;c\n\x22b".toList).1 ts).mpr hts
  rw [hlex] at hnone
  cases hnone

end SmallLisp.Lexer
