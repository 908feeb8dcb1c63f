import Mathlib.Data.List.TakeWhile
import Mathlib.Tactic.SplitIfs
import SmallLisp.Reader.Token

/-!
# Lexing piece by piece

The lexer reads a text from left to right, and what it has read does not depend on what follows,
once the token or the layout at hand has ended. The first half of this module says so for each kind
of token in front of any rest; the second half for a text that ends with a line break, after which
neither an atom nor a comment goes on (`Lexer.lex_append_of_line`, `Lexer.lex_append_line`).
-/

namespace SmallLisp

/-- A token in front of others. -/
def Lexed.cons (t : Token) (l : Lexed) : Lexed := ⟨t :: l.tokens, l.failure⟩

/-- Tokens in front of others. -/
def Lexed.prepend (ts : List Token) (l : Lexed) : Lexed := ⟨ts ++ l.tokens, l.failure⟩

namespace Lexer

open Text

variable {cs rest text : List Char} {t : Token}

/-- Induction along the tokens of a text. -/
theorem token_induction {P : List Char → Prop}
    (step : ∀ cs, (∀ t rest, next cs = .token t rest → P rest) → P cs) (cs : List Char) : P cs :=
  step cs fun _ rest _ => token_induction step rest
termination_by cs.length
decreasing_by exact length_lt_of_next ‹_›

theorem lexOnto_eq (seen : List Token) (cs : List Char) :
    lexOnto seen cs = (lex cs).prepend seen.reverse := by
  unfold lex
  induction cs using token_induction generalizing seen with
  | step cs ih =>
    rw [lexOnto, lexOnto]
    split
    · simp [Lexed.prepend]
    · simp [Lexed.prepend]
    · next t rest h =>
      rw [ih t rest h (t :: seen), ih t rest h [t]]
      simp [Lexed.prepend]

theorem lex_eq (cs : List Char) : lex cs =
    match next cs with
    | .done => ⟨[], none⟩
    | .failed e => ⟨[], some e⟩
    | .token t rest => (lex rest).cons t := by
  rw [lex, lexOnto]
  split <;> rename_i h <;> rw [h]
  · rfl
  · rfl
  · rw [lexOnto_eq]
    rfl

theorem lex_nil : lex [] = ⟨[], none⟩ := by
  rw [lex_eq]
  rfl

theorem lex_of_token (h : next cs = .token t rest) : lex cs = (lex rest).cons t := by
  rw [lex_eq, h]

theorem lex_congr {cs' : List Char} (h : next cs = next cs') : lex cs = lex cs' := by
  rw [lex_eq, h, ← lex_eq]

/-! ## Tokens in front of a rest -/

theorem isAtomChar_iff {c : Char} : isAtomChar c ↔
    isBlank c = false ∧ c ≠ '(' ∧ c ≠ ')' ∧ c ≠ '\x27' ∧ c ≠ '\x22' ∧ c ≠ ';' := by
  simp [isAtomChar, and_assoc]

theorem skipLayout_cons {c : Char} (hb : isBlank c = false) (hc : c ≠ ';') :
    skipLayout false (c :: cs) = c :: cs := by
  simp [skipLayout, hb, hc]

theorem lex_blank {c : Char} (h : isBlank c) : lex (c :: cs) = lex cs :=
  lex_congr (by simp [next, skipLayout, h])

theorem lex_of_isBlankText (h : Text.isBlankText cs) :
    lex cs = ⟨[], none⟩ := by
  induction cs with
  | nil => exact lex_nil
  | cons c cs ih =>
    rw [Text.isBlankText, List.all_cons, Bool.and_eq_true] at h
    rw [lex_blank h.1, ih h.2]

theorem lex_lparen : lex ('(' :: cs) = (lex cs).cons ⟨.lparen, "("⟩ :=
  lex_of_token (by rw [next, skipLayout_cons (by decide) (by decide)]; rfl)

theorem lex_rparen : lex (')' :: cs) = (lex cs).cons ⟨.rparen, ")"⟩ :=
  lex_of_token (by rw [next, skipLayout_cons (by decide) (by decide)]; rfl)

theorem lex_string (h : closeString? ['\x22'] cs = some (text, rest)) :
    lex ('\x22' :: cs) = (lex rest).cons ⟨.string, String.ofList text⟩ := by
  refine lex_of_token ?_
  rw [next, skipLayout_cons (by decide) (by decide)]
  simp [lexeme, h]

/-- No atom goes on into the text. -/
def Delimited (cs : List Char) : Prop := ∀ c ∈ cs.head?, isAtomChar c = false

theorem delimited_nil : Delimited [] := nofun

theorem delimited_cons {c : Char} (h : isAtomChar c = false) : Delimited (c :: cs) := by
  intro d hd
  cases hd
  exact h

theorem Delimited.takeWhile_eq (h : Delimited cs) : cs.takeWhile isAtomChar = [] := by
  cases cs with
  | nil => rfl
  | cons c cs => simp [h c rfl]

theorem Delimited.dropWhile_eq (h : Delimited cs) : cs.dropWhile isAtomChar = cs := by
  cases cs with
  | nil => rfl
  | cons c cs => simp [h c rfl]

theorem lex_atom {atom : List Char} (hne : atom ≠ []) (ha : ∀ c ∈ atom, isAtomChar c)
    (hr : Delimited rest) : lex (atom ++ rest) = (lex rest).cons ⟨.symbol, String.ofList atom⟩ := by
  cases atom with
  | nil => exact absurd rfl hne
  | cons c cs =>
    refine lex_of_token ?_
    obtain ⟨hb, hl, hr', hq, hs, hc⟩ := isAtomChar_iff.mp (ha c (.head _))
    have hcs : ∀ d ∈ cs, isAtomChar d := fun d hd => ha d (.tail _ hd)
    rw [next, List.cons_append, skipLayout_cons hb hc]
    simp only [lexeme, hq, hl, hr', hs, if_false]
    rw [List.takeWhile_append_of_pos hcs, List.dropWhile_append_of_pos hcs, hr.takeWhile_eq,
      hr.dropWhile_eq, List.append_nil]

/-! ## Strings -/

/-- What may stand between the double quotes of a string: a backslash with any character behind it,
and every character but these two. -/
inductive IsStringBody : List Char → Prop
  | nil : IsStringBody []
  | pair {cs : List Char} (c : Char) : IsStringBody cs → IsStringBody ('\\' :: c :: cs)
  | plain {c : Char} {cs : List Char} : c ≠ '\\' → c ≠ '\x22' → IsStringBody cs →
    IsStringBody (c :: cs)

theorem closeString?_cons {seen : List Char} {c : Char} (h : c ≠ '\\') :
    closeString? seen (c :: cs) =
      if c = '\x22' then some ((c :: seen).reverse, cs) else closeString? (c :: seen) cs := by
  rw [closeString?] <;> simp [h]

/-- The character in a last case of `closeString?`. -/
theorem ne_backslash {c : Char} (h₁ : c = '\\' → cs = [] → False)
    (h₂ : ∀ d ds, c = '\\' → cs = d :: ds → False) : c ≠ '\\' := by
  intro hc
  cases cs with
  | nil => exact h₁ hc rfl
  | cons d ds => exact h₂ d ds hc rfl

theorem IsStringBody.closeString?_eq {body : List Char} (h : IsStringBody body)
    (seen rest : List Char) : closeString? seen (body ++ '\x22' :: rest) =
      some (seen.reverse ++ (body ++ ['\x22']), rest) := by
  induction h generalizing seen with
  | nil => rw [List.nil_append, closeString?_cons (by decide), if_pos rfl, List.reverse_cons]; rfl
  | pair c _ ih => rw [List.cons_append, List.cons_append, closeString?, ih]; simp
  | plain hb hq _ ih => rw [List.cons_append, closeString?_cons hb, if_neg hq, ih]; simp

theorem isStringBody_of_closeString? {seen : List Char}
    (h : closeString? seen cs = some (text, rest)) :
    ∃ body, IsStringBody body ∧ cs = body ++ '\x22' :: rest ∧
      text = seen.reverse ++ (body ++ ['\x22']) := by
  fun_induction closeString? seen cs with
  | case1 | case2 => cases h
  | case3 seen c cs ih =>
    obtain ⟨body, hbody, rfl, rfl⟩ := ih h
    exact ⟨'\\' :: c :: body, .pair c hbody, rfl, by simp⟩
  | case4 seen cs _ _ =>
    cases h
    exact ⟨[], .nil, rfl, by simp⟩
  | case5 seen c cs h₁ h₂ hc ih =>
    obtain ⟨body, hbody, rfl, rfl⟩ := ih h
    exact ⟨c :: body, .plain (ne_backslash h₁ h₂) hc hbody, rfl, by simp⟩

theorem closeString?_suffix {seen : List Char} (h : closeString? seen cs = some (text, rest)) :
    rest <:+ cs := by
  obtain ⟨body, -, rfl, -⟩ := isStringBody_of_closeString? h
  exact ⟨body ++ ['\x22'], by simp⟩

theorem closeString?_append {seen : List Char} (b : List Char)
    (h : closeString? seen cs = some (text, rest)) :
    closeString? seen (cs ++ b) = some (text, rest ++ b) := by
  obtain ⟨body, hbody, rfl, rfl⟩ := isStringBody_of_closeString? h
  rw [List.append_assoc, List.cons_append, hbody.closeString?_eq]

/-! ## Texts that end with a line break -/

/-- A text after which neither an atom nor a comment goes on: it is empty or its last character is a
line break. -/
def EndsLine (cs : List Char) : Prop := ∀ c ∈ cs.getLast?, c = '\n'

theorem EndsLine.of_suffix (h : EndsLine cs) (hs : rest <:+ cs) : EndsLine rest := by
  obtain ⟨front, rfl⟩ := hs
  intro c hc
  refine h c ?_
  rw [List.getLast?_append, hc]
  rfl

theorem EndsLine.append {a b : List Char} (ha : EndsLine a) (hb : EndsLine b) :
    EndsLine (a ++ b) := by
  intro c hc
  rw [List.getLast?_append] at hc
  cases hlast : b.getLast? with
  | none => rw [hlast] at hc; exact ha c hc
  | some d => rw [hlast] at hc; cases hc; exact hb c hlast

theorem endsLine_empty : EndsLine "".toList := by simp [EndsLine]

theorem EndsLine.tail {c : Char} (h : EndsLine (c :: cs)) : EndsLine cs :=
  h.of_suffix (List.suffix_cons c cs)

/-- A class without the line break has ended by the end of the line. -/
theorem EndsLine.exists_not {p : Char → Bool} (h : EndsLine cs) (hne : cs ≠ [])
    (hp : p '\n' = false) : ∃ c ∈ cs, p c = false := by
  refine ⟨cs.getLast hne, List.getLast_mem hne, ?_⟩
  rw [h _ (List.getLast?_eq_some_getLast hne), hp]

theorem skipLayout_suffix (comment : Bool) (cs : List Char) : skipLayout comment cs <:+ cs := by
  fun_induction skipLayout comment cs with
  | case1 => exact List.suffix_rfl
  | case2 c cs ih | case3 c cs _ ih | case4 cs _ ih => exact ih.trans (List.suffix_cons _ _)
  | case5 => exact List.suffix_rfl

/-- Layout that fills a whole text goes on into what follows its last line break. -/
theorem skipLayout_append_of_nil {comment : Bool} (b : List Char) (h : EndsLine cs)
    (hc : comment → cs ≠ []) (hs : skipLayout comment cs = []) :
    skipLayout comment (cs ++ b) = skipLayout false b := by
  fun_induction skipLayout comment cs with
  | case1 comment =>
    cases comment with
    | true => exact absurd rfl (hc rfl)
    | false => rfl
  | case2 c cs ih =>
    rw [List.cons_append, skipLayout]
    refine ih h.tail ?_ hs
    rintro hcn rfl
    simp [h c rfl] at hcn
  | case3 c cs hb ih =>
    rw [List.cons_append, skipLayout, if_pos hb]
    exact ih h.tail nofun hs
  | case4 cs hb ih =>
    rw [List.cons_append, skipLayout, if_neg hb, if_pos rfl]
    refine ih h.tail ?_ hs
    rintro - rfl
    exact absurd (h ';' rfl) (by decide)
  | case5 => cases hs

theorem skipLayout_append_of_ne_nil {comment : Bool} (b : List Char)
    (hs : skipLayout comment cs ≠ []) :
    skipLayout comment (cs ++ b) = skipLayout comment cs ++ b := by
  fun_induction skipLayout comment cs with
  | case1 => exact absurd rfl hs
  | case2 c cs ih => rw [List.cons_append, skipLayout]; exact ih hs
  | case3 c cs hb ih => rw [List.cons_append, skipLayout, if_pos hb]; exact ih hs
  | case4 cs hb ih => rw [List.cons_append, skipLayout, if_neg hb, if_pos rfl]; exact ih hs
  | case5 c cs hb hc => rw [List.cons_append, skipLayout, if_neg hb, if_neg hc]

/-- A text that starts with a token, not with layout. -/
theorem skipLayout_eq_cons {comment : Bool} {c : Char} (h : skipLayout comment text = c :: cs) :
    isBlank c = false ∧ c ≠ ';' := by
  fun_induction skipLayout comment text with
  | case1 => cases h
  | case2 _ _ ih | case3 _ _ _ ih | case4 _ _ ih => exact ih h
  | case5 d ds hb hc =>
    cases h
    exact ⟨by simpa using hb, hc⟩

theorem lexeme_suffix (h : lexeme cs = .token t rest) : rest <:+ cs := by
  unfold lexeme at h
  split at h
  · cases h
  · next c cs =>
    refine List.IsSuffix.trans ?_ (List.suffix_cons c cs)
    split_ifs at h
    · cases h; exact List.suffix_rfl
    · cases h; exact List.suffix_rfl
    · cases h; exact List.suffix_rfl
    · split at h
      · next hclose => cases h; exact closeString?_suffix hclose
      · cases h
    · cases h; exact List.dropWhile_suffix _

/-- A token stays what it is in front of any text, unless it is an atom at the end that the text
goes on with. -/
theorem lexeme_append (b : List Char) (hl : lexeme cs = .token t rest)
    (hb : t.kind = .symbol → rest = [] → Delimited b) :
    lexeme (cs ++ b) = .token t (rest ++ b) := by
  cases cs with
  | nil => cases hl
  | cons c cs =>
    rw [List.cons_append]
    simp only [lexeme] at hl ⊢
    split_ifs at hl ⊢
    · cases hl; rfl
    · cases hl; rfl
    · cases hl; rfl
    · split at hl
      · next hclose => cases hl; rw [closeString?_append b hclose]
      · cases hl
    · cases hl
      by_cases hdrop : cs.dropWhile isAtomChar = []
      · have hall : ∀ c ∈ cs, isAtomChar c := List.dropWhile_eq_nil_iff.mp hdrop
        have hdel := hb rfl hdrop
        rw [List.takeWhile_append_of_pos hall, List.dropWhile_append_of_pos hall,
          List.takeWhile_eq_self_iff.mpr hall, hdel.takeWhile_eq, hdel.dropWhile_eq, hdrop,
          List.append_nil, List.nil_append]
      · have hlen : (cs.takeWhile isAtomChar).length ≠ cs.length := by
          intro hlen
          have hall := List.takeWhile_eq_self_iff.mp ((List.takeWhile_prefix _).eq_of_length hlen)
          exact hdrop (List.dropWhile_eq_nil_iff.mpr hall)
        rw [List.takeWhile_append, if_neg hlen, List.dropWhile_append, if_neg]
        exact mt List.isEmpty_iff.mp hdrop

theorem next_suffix (h : next cs = .token t rest) : rest <:+ cs :=
  (lexeme_suffix h).trans (skipLayout_suffix _ _)

theorem skipLayout_of_done (hn : next cs = .done) : skipLayout false cs = [] := by
  unfold next lexeme at hn
  split at hn
  · assumption
  · split_ifs at hn
    split at hn <;> cases hn

theorem next_append_of_done (b : List Char) (h : EndsLine cs) (hn : next cs = .done) :
    next (cs ++ b) = next b := by
  rw [next, skipLayout_append_of_nil b h (by simp) (skipLayout_of_done hn), next]

theorem next_append_of_token (b : List Char) (hn : next cs = .token t rest)
    (hb : t.kind = .symbol → rest = [] → Delimited b) :
    next (cs ++ b) = .token t (rest ++ b) := by
  unfold next at hn
  have hs : skipLayout false cs ≠ [] := by
    intro hs
    rw [hs] at hn
    cases hn
  rw [next, skipLayout_append_of_ne_nil b hs]
  exact lexeme_append b hn hb

/-- An atom has ended by the end of the line. -/
theorem EndsLine.rest_ne_nil (h : EndsLine cs) (hn : next cs = .token t rest)
    (ht : t.kind = .symbol) : rest ≠ [] := by
  unfold next at hn
  cases hs : skipLayout false cs with
  | nil => rw [hs] at hn; cases hn
  | cons c text =>
    have hline : EndsLine (c :: text) := h.of_suffix (hs ▸ skipLayout_suffix false cs)
    have hne : text ≠ [] := by
      rintro rfl
      have hblank := (skipLayout_eq_cons hs).1
      rw [hline c rfl] at hblank
      exact absurd hblank (by decide)
    obtain ⟨d, hd, hda⟩ := hline.tail.exists_not (p := isAtomChar) hne (by decide)
    rw [hs] at hn
    simp only [lexeme] at hn
    split_ifs at hn
    · cases hn; cases ht
    · cases hn; cases ht
    · cases hn; cases ht
    · split at hn
      · cases hn; cases ht
      · cases hn
    · cases hn
      intro hdrop
      rw [List.dropWhile_eq_nil_iff.mp hdrop d hd] at hda
      cases hda

theorem EndsLine.next_append (b : List Char) (h : EndsLine cs) (hn : next cs = .token t rest) :
    next (cs ++ b) = .token t (rest ++ b) :=
  next_append_of_token b hn fun ht hr => absurd hr (h.rest_ne_nil hn ht)

/-- The only failure of the lexer is a string that more text could close. -/
theorem unterminated_of_next {e : ReadError} (h : next cs = .failed e) :
    ∃ excerpt, e = .unterminatedString excerpt := by
  unfold next lexeme at h
  split at h
  · cases h
  · split_ifs at h
    split at h <;> cases h
    exact ⟨_, rfl⟩

theorem unterminated_of_lex {e : ReadError} (h : (lex cs).failure = some e) :
    ∃ excerpt, e = .unterminatedString excerpt := by
  induction cs using token_induction with
  | step cs ih =>
    rw [lex_eq] at h
    cases hn : next cs with
    | done => rw [hn] at h; cases h
    | failed e' => rw [hn] at h; cases h; exact unterminated_of_next hn
    | token t rest => rw [hn] at h; exact ih t rest hn h

theorem isIncomplete_of_lex {e : ReadError} (h : (lex cs).failure = some e) : e.isIncomplete := by
  obtain ⟨excerpt, rfl⟩ := unterminated_of_lex h
  rfl

/-- What follows the last line break of a text without an open string is read on its own. -/
theorem lex_append_of_line (b : List Char) (h : EndsLine cs) (hf : (lex cs).failure = none) :
    lex (cs ++ b) = (lex b).prepend (lex cs).tokens := by
  induction cs using token_induction with
  | step cs ih =>
    rw [lex_eq cs] at hf ⊢
    cases hn : next cs with
    | done => rw [lex_congr (next_append_of_done b h hn)]; rfl
    | failed e => rw [hn] at hf; cases hf
    | token t rest =>
      rw [hn] at hf
      rw [lex_of_token (h.next_append b hn),
        ih t rest hn (h.of_suffix (next_suffix hn)) hf]
      rfl

theorem skipLayout_append_newline {comment : Bool} (hs : skipLayout comment cs = []) :
    skipLayout comment (cs ++ ['\n']) = [] := by
  fun_induction skipLayout comment cs with
  | case1 comment => cases comment <;> rfl
  | case2 c cs ih => rw [List.cons_append, skipLayout]; exact ih hs
  | case3 c cs hb ih => rw [List.cons_append, skipLayout, if_pos hb]; exact ih hs
  | case4 cs hb ih => rw [List.cons_append, skipLayout, if_neg hb, if_pos rfl]; exact ih hs
  | case5 => cases hs

theorem lex_append_newline (hf : (lex cs).failure = none) : lex (cs ++ ['\n']) = lex cs := by
  induction cs using token_induction with
  | step cs ih =>
    rw [lex_eq cs] at hf ⊢
    cases hn : next cs with
    | done =>
      rw [lex_eq, next, skipLayout_append_newline (skipLayout_of_done hn)]
      rfl
    | failed e => rw [hn] at hf; cases hf
    | token t rest =>
      rw [hn] at hf
      rw [lex_of_token (next_append_of_token _ hn fun _ _ => delimited_cons (by decide)),
        ih t rest hn hf]

/-- What follows a text without an open string on a new line is read on its own. -/
theorem lex_append_line (b : List Char) (hf : (lex cs).failure = none) :
    lex (cs ++ '\n' :: b) = (lex b).prepend (lex cs).tokens := by
  have hline : EndsLine (cs ++ ['\n']) := by simp [EndsLine]
  have hn := lex_append_newline hf
  rw [← List.singleton_append, ← List.append_assoc, lex_append_of_line b hline (by rw [hn, hf]), hn]

/-- What precedes a string that is open at the end of a line is read as it was. -/
theorem tokens_lex_append_of_line (b : List Char) (h : EndsLine cs) :
    (lex cs).tokens <+: (lex (cs ++ b)).tokens := by
  induction cs using token_induction with
  | step cs ih =>
    rw [lex_eq cs]
    cases hn : next cs with
    | done => exact List.nil_prefix
    | failed e => exact List.nil_prefix
    | token t rest =>
      rw [lex_of_token (h.next_append b hn)]
      exact (List.prefix_cons_inj t).mpr (ih t rest hn (h.of_suffix (next_suffix hn)))

end Lexer

end SmallLisp
