import SmallLisp.Proofs.Mending
import SmallLisp.Proofs.Record

/-!
# Laws of the interpreter's operations

An answer that was found within a limit is the answer within every larger limit
(`evalForm_keeps_answer`). A text is read and evaluated form by form, each form when the ones before
it have been evaluated (`evalText_eq_evalStream`); so a text can be cut behind a line on which no
form is left open, and its parts be evaluated in turn (`evalText_append`).
-/

namespace SmallLisp

instance : LawfulMonad Action := by
  refine .mk' _ ?_ ?_ ?_
  · intro α m
    funext s
    change (m >>= Pure.pure) s = m s
    rw [Action.bind_apply]
    rcases m s with ⟨_ | _, _⟩ <;> rfl
  · intro α β a f
    rfl
  · intro α β γ m f g
    funext s
    rw [Action.bind_apply, Action.bind_apply, Action.bind_apply]
    rcases m s with ⟨_ | _, _⟩ <;> rfl

theorem Action.fail_bind {α β : Type} (e : Failure) (f : α → Action β) :
    (Action.fail e : Action α) >>= f = Action.fail e := rfl

namespace Interpreter

variable {limit : Nat} {text front : String}

/-! ## The limit -/

/-- **A larger limit changes no answer.** An evaluation that ends otherwise than for want of depth,
with a value or with any other failure, ends within every larger limit in the same way: with the
same value or failure, the same frames and the same record. -/
theorem evalForm_keeps_answer {limit limit' : Nat} (hle : limit ≤ limit') {form : Value}
    {s s' : Store} {r : Except Failure Value} (h : evalForm limit form s = (r, s'))
    (hr : ∀ e, r = .error (.error e) → e.kind ≠ .depthExceeded) :
    evalForm limit' form s = (r, s') := by
  rcases hout : perform limit (.eval (.ofValue form) Store.global)
    { s with events := s.events.push (.evaluating form) } with ⟨r₀, s₀⟩
  cases (evalForm_of_perform hout).symm.trans h
  have hdeep : r₀ ≠ .error (.fault .tooDeep) := by
    rintro rfl
    exact hr _ rfl rfl
  exact evalForm_of_perform (perform_le hle hout hdeep)

/-- A definition among the arguments of a call: a limit of three does not suffice for it, but four
does. -/
theorem evalForm_keeps_answer_nested :
    let form := Value.list 90 [.symbol "list", .list 91 [.symbol "define", .symbol "x", .int 1]]
    (evalForm 3 form Store.initial).1.isOk = false ∧
      ∃ v s', evalForm 4 form Store.initial = (.ok v, s') ∧
        evalForm 5000 form Store.initial = (.ok v, s') := by
  intro form
  have hthree : (evalForm 3 form Store.initial).1.isOk = false := by decide +kernel
  have hfour : (evalForm 4 form Store.initial).1.isOk := by decide +kernel
  rcases hout : evalForm 4 form Store.initial with ⟨e | v, s'⟩
  · rw [hout] at hfour
    cases hfour
  · exact ⟨hthree, v, s', rfl, evalForm_keeps_answer (by decide) hout nofun⟩

/-! ## Reading and evaluating in turn -/

/-- Evaluate the forms of a reading, and then fail as it does. -/
def evalReading (limit : Nat) (forms : List Datum) (failure : Option ReadFailure) :
    Action (List Value) := do
  let vs ← evalData limit forms
  match failure with
  | some e => Action.fail e.toFailure
  | none => return vs

section

variable [CharacterNames]

theorem evalText_eq (limit : Nat) (text : String) :
    evalText limit text = evalReading limit (scan limit text).forms (scan limit text).failure := rfl

/-- Evaluate the forms of a stream, where each is read when those before it have been evaluated. -/
def evalStream (limit : Nat) (ts : TokenStream) : Action (List Value) :=
  match _h : ts.parse limit with
  | (.error e, _) => Action.fail e.toFailure
  | (.ok none, _) => pure []
  | (.ok (some d), ts') => do
    let form ← Action.newDatum d
    let v ← evalForm limit form
    let vs ← evalStream limit ts'
    return v :: vs
termination_by ts.tokens.length
decreasing_by exact TokenStream.length_lt_of_parse _h

/-- The forms that have been read before do not matter to the others. -/
theorem parseOnto_seen (limit : Nat) (seen : List Datum) (ts : TokenStream) :
    (ts.parseOnto limit seen).forms = seen.reverse ++ (ts.parseAll limit).forms ∧
      (ts.parseOnto limit seen).failure = (ts.parseAll limit).failure := by
  have hafter : (⟨[], seen⟩ : Parser.State) = Parser.State.start.after seen := rfl
  have hnone : (⟨[], []⟩ : Parser.State) = .start := rfl
  obtain ⟨_, hseen⟩ := Parser.readFrom_eq limit ts.failure (.after .start seen) ts.tokens
  obtain ⟨_, hstart⟩ := Parser.readFrom_eq limit ts.failure .start ts.tokens
  rw [TokenStream.parseAll, Parser.parseOnto_eq, Parser.parseOnto_eq, hafter, hnone, hseen, hstart,
    Parser.State.feedAll_after]
  simp [Parser.State.after, Parser.State.ending]

theorem evalStream_eq (limit : Nat) (ts : TokenStream) : evalStream limit ts =
    evalReading limit (ts.parseAll limit).forms (ts.parseAll limit).failure := by
  have hparse : ∀ ts : TokenStream, ts.parseAll limit = Parser.resume limit [] (ts.parse limit) :=
    fun ts => Parser.parseOnto_eq [] ts
  fun_induction evalStream limit ts with
  | case1 ts e ts' h => rw [hparse, h]; rfl
  | case2 ts ts' h => rw [hparse, h]; rfl
  | case3 ts d ts' h ih =>
    obtain ⟨hforms, hfailure⟩ := parseOnto_seen limit [d] ts'
    rw [hparse, h, Parser.resume, hforms, hfailure, ih]
    simp only [evalReading, List.reverse_singleton, List.singleton_append, evalData, bind_assoc,
      pure_bind]
    cases (ts'.parseAll limit).failure with
    | none => rfl
    | some e => simp only [Action.fail_bind]

/-- **Reading and evaluating take turns.** What comes of a text is what comes of reading one form at
a time and evaluating it before the next one is read. -/
theorem evalText_eq_evalStream (limit : Nat) (text : String) :
    evalText limit text = evalStream limit (.ofText text) :=
  (evalStream_eq limit _).symm

/-! ## Texts one after the other -/

omit [CharacterNames] in
theorem evalData_append (limit : Nat) (ds es : List Datum) : evalData limit (ds ++ es) = do
    let vs ← evalData limit ds
    let ws ← evalData limit es
    return vs ++ ws := by
  induction ds with
  | nil => simp [evalData]
  | cons d ds ih => simp [evalData, ih]

/-- The forms of a text that can be read are followed by those of the next line. -/
theorem scan_append_line {forms : List Datum} (back : String)
    (h : read limit front = .ok forms) :
    (scan limit (front ++ "\n" ++ back)).forms = forms ++ (scan limit back).forms ∧
      (scan limit (front ++ "\n" ++ back)).failure = (scan limit back).failure := by
  obtain ⟨hlex, hparsed⟩ := read_eq_ok_iff.mp h
  have hcut : Lexer.lex (front ++ "\n" ++ back).toList =
      (Lexer.lex back.toList).prepend (Lexer.lex front.toList).tokens := by
    rw [String.toList_append, String.toList_append, List.append_assoc]
    exact Lexer.lex_append_line back.toList hlex
  have hall : parsed limit (front ++ "\n" ++ back) =
      ((parsed limit back).1.after forms.reverse, (parsed limit back).2) := by
    rw [parsed, hcut, Lexed.prepend, Parser.State.feedAll_append _ _ _ (congrArg Prod.snd hparsed),
      ← parsed, hparsed]
    exact Parser.State.feedAll_after .start forms.reverse _
  obtain ⟨_, hscan⟩ := scan_eq limit (front ++ "\n" ++ back)
  obtain ⟨_, hback⟩ := scan_eq limit back
  rw [hscan, hback, hall, hcut]
  simp [Parser.State.after, Parser.State.ending, Lexed.prepend]

/-- A text with a final failure is read as far whatever follows. -/
theorem scan_append_of_final {f : ReadFailure} (more : String)
    (h : read limit front = .error f) (hf : ∀ e, f = .error e → e.isIncomplete = false) :
    (scan limit (front ++ more)).forms = (scan limit front).forms ∧
      (scan limit (front ++ more)).failure = some f ∧ (scan limit front).failure = some f := by
  have hparsed : (parsed limit front).2 = some f := by
    cases f with
    | error e =>
      rcases parsed_of_read_error h with ⟨-, hp⟩ | ⟨hopen, -⟩
      · exact hp
      · rw [hf e rfl] at hopen
        cases hopen
    | tooDeep =>
      rw [read_eq] at h
      cases hp : (parsed limit front).2 with
      | some f => rw [hp] at h; cases h; rfl
      | none =>
        rw [hp, Option.none_or, Parser.State.ending] at h
        cases hend : (Lexer.lex front.toList).failure.or
          (Parser.endError? (parsed limit front).1.stack) <;> rw [hend] at h <;> cases h
  obtain ⟨_, hscan⟩ := scan_eq limit (front ++ more)
  obtain ⟨_, hfront⟩ := scan_eq limit front
  rw [hscan, hfront, parsed_append_of_error more hparsed, hparsed]
  exact ⟨rfl, rfl, rfl⟩

/-- A text and another one on the next line are evaluated one after the other, unless a form or a
string is open at the end of the first. -/
theorem evalText_append (back : String)
    (h : ∀ e, read limit front = .error (.error e) → e.isIncomplete = false) :
    evalText limit (front ++ "\n" ++ back) = do
      let vs ← evalText limit front
      let ws ← evalText limit back
      return vs ++ ws := by
  cases hread : read limit front with
  | ok forms =>
    obtain ⟨hforms, hfailure⟩ := scan_append_line back hread
    obtain ⟨hfront, hnone⟩ := scan_of_read hread
    rw [evalText_eq, evalText_eq limit front, evalText_eq limit back, hforms, hfailure, hfront,
      hnone]
    simp only [evalReading, evalData_append, bind_assoc, pure_bind]
    cases (scan limit back).failure with
    | none => simp only [pure_bind]
    | some e => simp only [Action.fail_bind]
  | error f =>
    have hf : ∀ e, f = .error e → e.isIncomplete = false := fun e he => h e (he ▸ hread)
    rw [String.append_assoc]
    obtain ⟨hforms, hfailure, hfront⟩ := scan_append_of_final ("\n" ++ back) hread hf
    rw [evalText_eq, evalText_eq limit front, hforms, hfailure, hfront]
    simp only [evalReading, bind_assoc, Action.fail_bind]

theorem eval_of_evalText {r : Except Failure (List Value)} {s s' : Store}
    (h : evalText limit text s = (r, s')) : eval limit text s = (r.map result, s') := by
  rw [eval, Action.bind_apply, h]
  cases r <;> rfl

end

/-- **Texts in one operation or in turn.** Unless a text is incomplete, to evaluate it together with
another text on the next line is to evaluate the two in turn. Where the first fails, in reading or
in evaluating, the whole fails in the same way, with the same frames and the same record, and the
second text has no effect. Otherwise the whole ends as the second text does in the store that the
first one leaves, with the values of the first in front. Loading a text does what evaluating it does
and drops the value. -/
theorem eval_texts_in_turn [CharacterNames] (limit : Nat) :
    (∀ (front back : String) (s : Store),
      (∀ e, read limit front = .error (.error e) → e.isIncomplete = false) →
      match evalText limit front s with
      | (.error e, s₁) =>
        eval limit front s = (.error e, s₁) ∧ eval limit (front ++ "\n" ++ back) s = (.error e, s₁)
      | (.ok vs, s₁) =>
        eval limit front s = (.ok (result vs), s₁) ∧
        match evalText limit back s₁ with
        | (.error e, s₂) =>
          eval limit back s₁ = (.error e, s₂) ∧
            eval limit (front ++ "\n" ++ back) s = (.error e, s₂)
        | (.ok ws, s₂) =>
          eval limit back s₁ = (.ok (result ws), s₂) ∧
            eval limit (front ++ "\n" ++ back) s = (.ok (result (vs ++ ws)), s₂)) ∧
    ∀ (text : String) (s : Store),
      load limit text s = ((eval limit text s).1.map fun _ => (), (eval limit text s).2) := by
  constructor
  · intro front back s h
    have happend := congrFun (evalText_append back h) s
    rcases hfront : evalText limit front s with ⟨e | vs, s₁⟩
    · rw [Action.bind_of_error hfront] at happend
      exact ⟨eval_of_evalText hfront, eval_of_evalText happend⟩
    · rw [Action.bind_of_ok hfront] at happend
      refine ⟨eval_of_evalText hfront, ?_⟩
      rcases hback : evalText limit back s₁ with ⟨e | ws, s₂⟩
      · rw [Action.bind_of_error hback] at happend
        exact ⟨eval_of_evalText hback, eval_of_evalText happend⟩
      · rw [Action.bind_of_ok hback] at happend
        exact ⟨eval_of_evalText hback, eval_of_evalText happend⟩
  · intro text s
    rcases hout : evalText limit text s with ⟨r, s'⟩
    rw [load, Action.bind_apply, hout, eval_of_evalText hout]
    cases r <;> rfl

/-- The first text ends in a comment, and the second one fails behind a definition. -/
theorem eval_texts_in_turn_comment :
    let front := "(define x 'y) x;)"
    let back := "(define z x) (z"
    (∀ e, read 9 front = .error (.error e) → e.isIncomplete = false) ∧ ∃ vs s₁ e s₂,
      eval 9 front Store.initial = (.ok (result vs), s₁) ∧ eval 9 back s₁ = (.error e, s₂) ∧
      eval 9 (front ++ "\n" ++ back) Store.initial = (.error e, s₂) := by
  intro front back
  have hread : (read 9 front).isOk := by decide +kernel
  have hfront : (evalText 9 front Store.initial).1.isOk := by decide +kernel
  have hback : (evalText 9 back (evalText 9 front Store.initial).2).1.isOk = false := by
    decide +kernel
  have hopen : ∀ e, read 9 front = .error (.error e) → e.isIncomplete = false := fun e he => by
    rw [he] at hread
    cases hread
  have hturn := (eval_texts_in_turn 9).1 front back Store.initial hopen
  rcases hs₁ : evalText 9 front Store.initial with ⟨e | vs, s₁⟩ <;> rw [hs₁] at hfront hback hturn
  · cases hfront
  rcases hs₂ : evalText 9 back s₁ with ⟨e | ws, s₂⟩ <;> simp only [hs₂] at hback hturn
  · exact ⟨hopen, vs, s₁, e, s₂, hturn⟩
  · cases hback

end Interpreter

end SmallLisp
