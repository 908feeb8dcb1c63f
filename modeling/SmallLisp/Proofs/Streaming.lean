import Mathlib.Data.List.ReduceOption
import SmallLisp.Proofs.Ledger
import SmallLisp.Proofs.Lexing

/-!
# Token streams in use

A stream is used in steps: the next token is looked at or consumed, one form is parsed, or all of
them. Looking at tokens changes no other answer as long as the source does not fail
(`TokenStream.kept_useAll`). The failure of a source is its answer to one question, the one behind
its last token, and the step that asks it is the one that fails with it
(`Ledger.Accounts.use_raises_iff`).
-/

namespace SmallLisp

open SmallLisp.Parser

/-! ## Looks in between -/

namespace TokenStream

variable {limit : Nat} {s s' : TokenStream}

/-- An answer depends on the tokens that are left and on the failure behind them, not on whether
the first of them is in the buffer. -/
theorem use_congr [CharacterNames] (htokens : s.tokens = s'.tokens)
    (hfailure : s.failure = s'.failure) (x : StreamStep) : s.use limit x = s'.use limit x := by
  cases x with
  | peek =>
    cases hts : s.tokens with
    | nil => rw [use, use, peek_of_nil hts, peek_of_nil (htokens ▸ hts), hfailure]
    | cons t ts => rw [use, use, peek_of_cons hts, peek_of_cons (htokens ▸ hts), hfailure]
  | advance =>
    cases hts : s.tokens with
    | nil => rw [use, use, advance_of_nil hts, advance_of_nil (htokens ▸ hts), hfailure]
    | cons t ts => rw [use, use, advance_of_cons hts, advance_of_cons (htokens ▸ hts), hfailure]
  | parse => rw [use, use, parse, parse, htokens, hfailure]
  | parseAll => rw [use, use, parseAll, parseAll, parseOnto_eq, parseOnto_eq, htokens, hfailure]

theorem tokens_peek (hfailure : s.failure = none) :
    s.peek.2.tokens = s.tokens ∧ s.peek.2.failure = none := by
  cases hts : s.tokens with
  | nil => rw [peek_of_nil hts]; exact ⟨rfl, rfl⟩
  | cons t ts => rw [peek_of_cons hts]; exact ⟨rfl, hfailure⟩

theorem failure_advance (hfailure : s.failure = none) : s.advance.2.failure = none := by
  cases hts : s.tokens with
  | nil => rw [advance_of_nil hts]
  | cons t ts => rw [advance_of_cons hts]; exact hfailure

theorem failure_use [CharacterNames] (hfailure : s.failure = none) (x : StreamStep) :
    (s.use limit x).2.failure = none := by
  have hpeek {l : Ledger} (h : l.stream.failure = none) : l.peek.2.stream.failure = none := by
    have hstream : l.peek.2.stream = l.stream.peek.2 := congrArg Prod.snd l.peek_stream
    rw [hstream]
    exact (tokens_peek h).2
  have hadvance {l : Ledger} (h : l.stream.failure = none) : l.advance.2.stream.failure = none := by
    have hstream : l.advance.2.stream = l.stream.advance.2 := congrArg Prod.snd l.advance_stream
    rw [hstream]
    exact failure_advance h
  rw [← Ledger.use_stream limit ⟨s, [], []⟩ x]
  exact Ledger.use_induction (P := (·.stream.failure = none)) hpeek hadvance limit hfailure x

/-- The answers to the steps that a plan has besides the looks put in between, which are its empty
places. -/
def kept (plan : List (Option StreamStep)) (answers : List StreamAnswer) : List StreamAnswer :=
  (List.zipWith (fun x a => x.map fun _ => a) plan answers).reduceOption

theorem kept_useAll [CharacterNames] (limit : Nat) (plan : List (Option StreamStep))
    (hfailure : s.failure = none) (hfailure' : s'.failure = none) (htokens : s.tokens = s'.tokens) :
    kept plan (s.useAll limit (plan.map (·.getD .peek))).1 =
      (s'.useAll limit plan.reduceOption).1 := by
  induction plan generalizing s s' with
  | nil => rfl
  | cons x plan ih =>
    cases x with
    | none =>
      obtain ⟨hpeek, hnone⟩ := tokens_peek hfailure
      exact ih hnone hfailure' (hpeek.trans htokens)
    | some x =>
      have huse : s.use limit x = s'.use limit x :=
        use_congr htokens (hfailure.trans hfailure'.symm) x
      have hnone : (s'.use limit x).2.failure = none := failure_use hfailure' x
      rw [List.reduceOption_cons_of_some, List.map_cons, Option.getD_some, useAll, useAll, huse,
        ← ih hnone hnone rfl]
      rfl

end TokenStream

/-! ## The failure of a source -/

namespace StreamAnswer

variable {e : ReadError}

theorem raises_token {r : Except ReadError (Option Token)} :
    (token r).raises e ↔ r = .error e := by
  cases r <;> simp [raises]

theorem raises_form {r : Except ReadFailure (Option Datum)} :
    (form r).raises e ↔ r = .error (.error e) := by
  rcases r with (_ | _) | _ <;> simp [raises]

theorem raises_forms {ds : List Datum} {r : Option ReadFailure} :
    (forms ds r).raises e ↔ r = some (.error e) := by
  rcases r with _ | _ | _ <;> simp [raises]

end StreamAnswer

namespace TokenSource

variable {src : TokenSource} {e : ReadError}

theorem unterminated_of_failure (h : src.failure = some e) :
    ∃ excerpt, e = .unterminatedString excerpt := by
  cases src with
  | text s => exact Lexer.unterminated_of_lex h
  | list ts => cases h

theorem answer_eq_error_iff (h : src.failure = some e) (n : Nat) :
    src.answer n = .error e ↔ n = src.tokens.length := by
  rw [answer]
  cases ht : src.tokens[n]? with
  | some t =>
    have hlt : n < src.tokens.length := (List.getElem?_eq_some_iff.mp ht).1
    exact iff_of_false (by simp) (Nat.ne_of_lt hlt)
  | none =>
    dsimp only
    split
    · next heq => rw [h]; exact ⟨fun _ => heq, fun _ => rfl⟩
    · next hne => exact iff_of_false (by simp) hne

/-- The tokens of a source, its failure, and then `k` times nothing. -/
def failing (src : TokenSource) (e : ReadError) (k : Nat) :
    List (Except ReadError (Option Token)) :=
  src.tokens.map (fun t => .ok (some t)) ++ .error e :: List.replicate k (.ok none)

theorem map_answer_range (h : src.failure = some e) (m : Nat) :
    (List.range m).map src.answer = (src.failing e m).take m := by
  refine List.ext_getElem? fun i => ?_
  rw [List.getElem?_take, List.getElem?_map, failing]
  split
  · next hi =>
    rw [List.getElem?_range hi, Option.map_some, answer]
    rcases Nat.lt_trichotomy i src.tokens.length with hlt | heq | hgt
    · rw [List.getElem?_append_left (by simpa using hlt), List.getElem?_map,
        List.getElem?_eq_getElem hlt]
      rfl
    · rw [List.getElem?_append_right (by simp [heq]), List.getElem?_eq_none (Nat.le_of_eq heq.symm)]
      simp [heq, h, TokenStream.atEnd]
    · obtain ⟨k, rfl⟩ := Nat.exists_eq_add_of_lt hgt
      have hk : k < m := by omega
      rw [List.getElem?_append_right (by simp; omega), List.getElem?_eq_none (Nat.le_of_lt hgt)]
      simp [Nat.add_assoc, hk]
  · next hi => rw [List.getElem?_eq_none (by simpa using hi), Option.map_none]

end TokenSource

namespace Parser

/-- The parser itself never says that a string has no end. -/
theorem feed_ne_unterminated [CharacterNames] (limit : Nat) (st : State) (t : Token)
    (excerpt : String) : st.feed limit t ≠ .error (.error (.unterminatedString excerpt)) := by
  intro h
  rw [State.feed] at h
  split at h
  · cases h
  · split at h
    · cases h
    · next hd => cases h; cases Datum.ofString_eq_error hd
  · rw [State.begin] at h; split at h <;> cases h
  · rw [State.begin] at h; split at h <;> cases h
  · split at h <;> cases h
  · cases h

theorem endError?_ne_unterminated (stack : List Open) (excerpt : String) :
    endError? stack ≠ some (.unterminatedString excerpt) := by
  rcases stack with _ | ⟨_ | _, _⟩ <;> simp [endError?]

end Parser

namespace Ledger

variable {limit : Nat} {src : TokenSource} {e : ReadError} {l : Ledger}

theorem length_le_peek {n : Nat} {l : Ledger} (h : n ≤ l.given.length) :
    n ≤ l.peek.2.given.length := by
  cases hb : l.stream.buffer with
  | some t => rw [peek, hb]; exact h
  | none => rw [peek_of_empty hb, List.length_append]; exact Nat.le_add_right_of_le h

theorem length_le_advance {n : Nat} {l : Ledger} (h : n ≤ l.given.length) :
    n ≤ l.advance.2.given.length := by
  cases hb : l.stream.buffer with
  | some t => rw [advance, hb]; exact h
  | none => rw [advance_of_empty hb, List.length_append]; exact Nat.le_add_right_of_le h

theorem length_le_parse [CharacterNames] (limit : Nat) (l : Ledger) :
    l.given.length ≤ (l.parse limit).2.given.length :=
  parseFrom_induction (P := (l.given.length ≤ ·.given.length)) length_le_peek length_le_advance
    limit [] (Nat.le_refl _)

theorem length_le_use [CharacterNames] (limit : Nat) (l : Ledger) (x : StreamStep) :
    l.given.length ≤ (l.use limit x).2.given.length :=
  use_induction (P := (l.given.length ≤ ·.given.length)) length_le_peek length_le_advance
    limit (Nat.le_refl _) x

theorem length_le_useAll [CharacterNames] (limit : Nat) (l : Ledger) (xs : List StreamStep) :
    l.given.length ≤ (l.useAll limit xs).2.given.length :=
  useAll_induction (P := (l.given.length ≤ ·.given.length)) length_le_peek length_le_advance
    limit (Nat.le_refl _) xs

/-- Whether the source is asked for what is behind its last token on the way from one ledger to
another. -/
def AsksForEnd (src : TokenSource) (l l' : Ledger) : Prop :=
  l.given.length ≤ src.tokens.length ∧ src.tokens.length < l'.given.length

instance (src : TokenSource) (l l' : Ledger) : Decidable (AsksForEnd src l l') :=
  inferInstanceAs (Decidable (_ ∧ _))

theorem AsksForEnd.irrefl : ¬ AsksForEnd src l l :=
  fun hasks => Nat.not_lt_of_le hasks.1 hasks.2

theorem AsksForEnd.trans_iff {l' l'' : Ledger} (hle : l.given.length ≤ l'.given.length)
    (hnot : ¬ AsksForEnd src l l') : AsksForEnd src l' l'' ↔ AsksForEnd src l l'' := by
  simp only [AsksForEnd] at hnot ⊢
  omega

/-- One question of the source is the one for the end if the answer is the failure. -/
theorem Accounts.pull_error_iff (h : l.Accounts src) (hsrc : src.failure = some e) {l' : Ledger}
    (hgiven : l'.given = l.given ++ [l.stream.pull.1]) :
    l.stream.pull.1 = .error e ↔ AsksForEnd src l l' := by
  rw [AsksForEnd, hgiven, List.length_append, List.length_singleton, h.pull_eq]
  dsimp only
  rw [src.answer_eq_error_iff hsrc]
  omega

theorem Accounts.peek_error_iff (h : l.Accounts src) (hsrc : src.failure = some e) :
    l.peek.1 = .error e ↔ AsksForEnd src l l.peek.2 := by
  cases hb : l.stream.buffer with
  | some t =>
    rw [Ledger.peek, hb]
    exact iff_of_false (by simp) AsksForEnd.irrefl
  | none => rw [peek_of_empty hb]; exact h.pull_error_iff hsrc rfl

theorem Accounts.advance_error_iff (h : l.Accounts src) (hsrc : src.failure = some e) :
    l.advance.1 = .error e ↔ AsksForEnd src l l.advance.2 := by
  cases hb : l.stream.buffer with
  | some t =>
    rw [Ledger.advance, hb]
    exact iff_of_false (by simp) AsksForEnd.irrefl
  | none => rw [advance_of_empty hb]; exact h.pull_error_iff hsrc rfl

/-- With a token in sight the source is not asked for what is behind the last one, neither to look
at the token nor to consume it. -/
theorem Accounts.not_asksForEnd (h : l.Accounts src) (hsrc : src.failure = some e) {t : Token}
    (hpeek : l.peek.1 = .ok (some t)) :
    ¬ AsksForEnd src l l.peek.2 ∧ ¬ AsksForEnd src l l.peek.2.advance.2 := by
  have hlooked : ¬ AsksForEnd src l l.peek.2 := by
    rw [← h.peek_error_iff hsrc, hpeek]
    simp
  obtain ⟨ts, -, hstream, -⟩ := of_peek_some hpeek
  have hgiven : l.peek.2.advance.2.given = l.peek.2.given := by rw [Ledger.advance, hstream]
  refine ⟨hlooked, ?_⟩
  rw [AsksForEnd, hgiven]
  exact hlooked

section

variable [CharacterNames]

theorem Accounts.parseFrom_error_iff (h : l.Accounts src) (hsrc : src.failure = some e)
    (limit : Nat) (stack : List Open) :
    (l.parseFrom limit stack).1 = .error (.error e) ↔
      AsksForEnd src l (l.parseFrom limit stack).2 := by
  -- The parser has failures of its own, which the failure of the source cannot be taken for.
  obtain ⟨excerpt, rfl⟩ := src.unterminated_of_failure hsrc
  fun_induction parseFrom limit stack l with
  | case1 stack l e hpeek =>
    rw [← h.peek_error_iff hsrc, hpeek]
    simp
  | case2 stack l hpeek e hend =>
    rw [← h.peek_error_iff hsrc, hpeek]
    refine iff_of_false (fun he => ?_) (by simp)
    cases he
    exact endError?_ne_unterminated _ _ hend
  | case3 stack l hpeek hend =>
    rw [← h.peek_error_iff hsrc, hpeek]
    simp
  | case4 stack l t hpeek e hfeed =>
    obtain ⟨hlooked, hconsumed⟩ := h.not_asksForEnd hsrc hpeek
    refine iff_of_false (fun he => ?_) ?_
    · cases he
      exact feed_ne_unterminated _ _ _ _ hfeed
    · dsimp only
      split <;> assumption
  | case5 stack l t hpeek stack' hfeed ih =>
    have hle := length_le_advance (length_le_peek (Nat.le_refl l.given.length))
    rw [ih h.peek.advance, AsksForEnd.trans_iff hle (h.not_asksForEnd hsrc hpeek).2]
  | case6 stack l t hpeek stack' d ds hfeed =>
    exact iff_of_false (by simp) (h.not_asksForEnd hsrc hpeek).2

theorem Accounts.parse_error_iff (h : l.Accounts src) (hsrc : src.failure = some e) (limit : Nat) :
    (l.parse limit).1 = .error (.error e) ↔ AsksForEnd src l (l.parse limit).2 :=
  h.parseFrom_error_iff hsrc limit []

theorem Accounts.parse (h : l.Accounts src) (limit : Nat) : (l.parse limit).2.Accounts src :=
  parseFrom_induction Accounts.peek Accounts.advance limit [] h

theorem Accounts.parseOnto_error_iff (h : l.Accounts src) (hsrc : src.failure = some e)
    (limit : Nat) (seen : List Datum) :
    (l.parseOnto limit seen).2.1 = some (.error e) ↔
      AsksForEnd src l (l.parseOnto limit seen).2.2 := by
  fun_induction parseOnto limit seen l with
  | case1 seen l e' hparse =>
    rw [← h.parse_error_iff hsrc, hparse]
    simp
  | case2 seen l hparse =>
    rw [← h.parse_error_iff hsrc, hparse]
    simp
  | case3 seen l d hparse ih =>
    have hnot : ¬ AsksForEnd src l (l.parse limit).2 := by
      rw [← h.parse_error_iff hsrc, hparse]
      simp
    rw [ih (h.parse limit), AsksForEnd.trans_iff (length_le_parse limit l) hnot]

/-- A step raises the failure of the source if it is the one that asks for what is behind the last
token. -/
theorem Accounts.use_raises_iff (h : l.Accounts src) (hsrc : src.failure = some e) (limit : Nat)
    (x : StreamStep) : (l.use limit x).1.raises e ↔ AsksForEnd src l (l.use limit x).2 := by
  cases x with
  | peek => exact StreamAnswer.raises_token.trans (h.peek_error_iff hsrc)
  | advance => exact StreamAnswer.raises_token.trans (h.advance_error_iff hsrc)
  | parse => exact StreamAnswer.raises_form.trans (h.parse_error_iff hsrc limit)
  | parseAll => exact StreamAnswer.raises_forms.trans (h.parseOnto_error_iff hsrc limit [])

theorem Accounts.countP_useAll (h : l.Accounts src) (hsrc : src.failure = some e) (limit : Nat)
    (xs : List StreamStep) : (l.useAll limit xs).1.countP (·.raises e) =
      if AsksForEnd src l (l.useAll limit xs).2 then 1 else 0 := by
  induction xs generalizing l with
  | nil => exact (if_neg AsksForEnd.irrefl).symm
  | cons x xs ih =>
    have huse : (l.use limit x).2.Accounts src :=
      use_induction Accounts.peek Accounts.advance limit h x
    have hraises := h.use_raises_iff hsrc limit x
    rw [useAll, List.countP_cons, ih huse]
    -- The end is asked for once: by this step, or by one of the later ones.
    by_cases hasks : AsksForEnd src l (l.use limit x).2
    · have hlater : ¬ AsksForEnd src (l.use limit x).2 ((l.use limit x).2.useAll limit xs).2 :=
        fun hasks' => Nat.not_lt_of_le hasks'.1 hasks.2
      have hall : AsksForEnd src l ((l.use limit x).2.useAll limit xs).2 :=
        ⟨hasks.1, hasks.2.trans_le (length_le_useAll limit _ xs)⟩
      rw [if_neg hlater, if_pos hall, if_pos (hraises.mpr hasks)]
    · rw [if_neg (mt hraises.mp hasks), Nat.add_zero]
      exact if_congr (AsksForEnd.trans_iff (length_le_use limit l x) hasks) rfl rfl

end

theorem filterMap_answer_range (src : TokenSource) (n : Nat) :
    ((List.range n).map src.answer).filterMap handedOut = src.tokens.take n := by
  induction n with
  | zero => rfl
  | succ n ih =>
    rw [List.range_succ, List.map_append, List.filterMap_append, ih, List.take_add_one,
      ← handedOut_answer]
    cases h : handedOut (src.answer n) <;> simp [h]

/-- The source has handed out just the tokens that were consumed and the one in the buffer. -/
theorem Accounts.filterMap_given (h : l.Accounts src) :
    l.given.filterMap handedOut = l.consumed ++ l.stream.buffer.toList := by
  rw [h.given, filterMap_answer_range, h.held]

end Ledger

/-! ## Conservation -/

/-- **Token streams lose nothing.** After any steps, also such that failed, the source has handed
out the tokens that were consumed and at most one that is in the buffer, and with those still to
come these are all its tokens. Looks in between change no other answer if the source does not fail.
If it fails, the error is the answer to the one step that asks for what is behind the last token,
and nothing is handed out after it. -/
theorem TokenSource.steps_lose_nothing [CharacterNames] (src : TokenSource) (limit : Nat)
    (steps : List StreamStep) :
    let answers := (src.stream.useAll limit steps).1
    let s := (src.stream.useAll limit steps).2
    ∃ l : Ledger, (Ledger.start src).useAll limit steps = (answers, l) ∧ l.stream = s ∧
      (l.given.filterMap Ledger.handedOut = l.consumed ++ s.buffer.toList ∧
        s.buffer.toList.length ≤ 1) ∧
      l.consumed ++ s.buffer.toList ++ s.pending = src.tokens ∧
      (src.failure = none → ∀ plan : List (Option StreamStep), plan.reduceOption = steps →
        TokenStream.kept plan (src.stream.useAll limit (plan.map (·.getD .peek))).1 = answers) ∧
      ∀ e, src.failure = some e →
        (∀ x, (s.use limit x).1.raises e ↔ Ledger.AsksForEnd src l (l.use limit x).2) ∧
        answers.countP (·.raises e) = (if src.tokens.length < l.given.length then 1 else 0) ∧
        ∃ k, l.given <+: src.failing e k := by
  have hstart : (Ledger.start src).stream = src.stream := rfl
  have hall := Ledger.useAll_stream limit (Ledger.start src) steps
  have haccounts := Ledger.useAll_accounts src limit steps
  rw [hstart] at hall
  rw [← hall]
  generalize hl : ((Ledger.start src).useAll limit steps).2 = l at haccounts
  refine ⟨l, by rw [← hl], rfl, ⟨haccounts.filterMap_given, ?_⟩, haccounts.conserved, ?_, ?_⟩
  · cases l.stream.buffer <;> simp
  · rintro hsrc plan rfl
    have hfailure : src.stream.failure = none := by rw [src.stream_eq]; exact hsrc
    rw [TokenStream.kept_useAll limit plan hfailure hfailure rfl, ← hall]
  · intro e hsrc
    refine ⟨fun x => ?_, ?_, ?_⟩
    · rw [← l.use_stream limit x]
      exact haccounts.use_raises_iff hsrc limit x
    · rw [(Ledger.start_accounts src).countP_useAll hsrc, hl]
      exact if_congr (and_iff_right (Nat.zero_le _)) rfl rfl
    · have htake := haccounts.given.trans (TokenSource.map_answer_range hsrc l.given.length)
      exact ⟨_, List.prefix_iff_eq_take.mpr htake⟩

/-- A text that ends in an open string, of which a step consumes two tokens before it fails, and the
tokens of that text as a list. -/
theorem TokenSource.steps_lose_nothing_of_open_string :
    let src := TokenSource.text "a (b \"c"
    let steps := [StreamStep.peek, .parse, .parse, .advance]
    let e := ReadError.unterminatedString "\"c"
    let plan := [none, some StreamStep.advance, none, none, some .parse]
    (src.failure = some e ∧ (src.stream.useAll 100 steps).1.countP (·.raises e) = 1) ∧
      (TokenSource.list src.tokens).failure = none ∧
      TokenStream.kept plan
          ((TokenSource.list src.tokens).stream.useAll 100 (plan.map (·.getD .peek))).1 =
        ((TokenSource.list src.tokens).stream.useAll 100 [.advance, .parse]).1 := by
  intro src steps e plan
  have hfailure : src.failure = some e := by cbv
  have hgiven : ((Ledger.start src).useAll 100 steps).2.given.length = 5 := by
    decide +kernel
  have htokens : src.tokens.length = 3 := by cbv
  obtain ⟨l, hl, -, -, -, -, hfail⟩ := TokenSource.steps_lose_nothing src 100 steps
  obtain ⟨-, -, -, -, -, hplan, -⟩ :=
    TokenSource.steps_lose_nothing (.list src.tokens) 100 [.advance, .parse]
  rw [hl] at hgiven
  refine ⟨⟨hfailure, ?_⟩, rfl, hplan rfl plan rfl⟩
  rw [(hfail e hfailure).2.1, hgiven, htokens]
  rfl

end SmallLisp
