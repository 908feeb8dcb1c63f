import SmallLisp.Proofs.Reachable

/-!
# Analyzed code raises no errors of the program text

Every closure in every state of an interpreter has code that analysis made (`Law.analyzed`), and
such code has no empty body, no misplaced `else`, no unknown expression and no unanalyzed form in an
evaluated position. Hence an error of the program text is always one of analysis and comes before
any effect.
-/

namespace SmallLisp

/-- All code is code that analysis made. -/
def Law.analyzed : Law where
  value _ v := match v with
    | .closure _ params body _ => (Expr.lambda params body).IsShaped
    | _ => True
  expr := Expr.IsShaped
  frame _ _ := True

/-- A form or an expression in which all code is code that analysis made. A form without procedures
in it is always one (`Value.isProgram_of_hasClosure`); an expression that was put together by hand
is one if it has the shapes that analysis gives. -/
def Value.IsProgram (v : Value) : Prop := v.Evaluable .analyzed ⟨0, 0⟩

theorem Value.IsProgram.evaluable {v : Value} (h : v.IsProgram) (x : Extent) :
    v.Evaluable .analyzed x := by
  cases v with
  | node e => exact Expr.Obeys.mono (x := ⟨0, 0⟩) (y := x) (fun hv => hv) h
  | _ => exact Value.Obeys.mono (x := ⟨0, 0⟩) (y := x) (fun hv => hv) h

mutual

/-- Whether a value is a procedure that a `lambda` made or has one among its items. -/
def Value.hasClosure : Value → Bool
  | .list _ items => Value.anyHasClosure items
  | .closure .. => true
  | _ => false

def Value.anyHasClosure : List Value → Bool
  | [] => false
  | v :: vs => v.hasClosure || Value.anyHasClosure vs

end

mutual

theorem Value.obeys_analyzed {x : Extent} (v : Value) (h : v.hasClosure = false) :
    v.Obeys .analyzed x := by
  cases v with
  | list id items => exact ⟨trivial, Value.allObey_analyzed items h⟩
  | closure => cases h
  | _ => trivial

theorem Value.allObey_analyzed {x : Extent} (vs : List Value)
    (h : Value.anyHasClosure vs = false) : Value.AllObey .analyzed x vs := by
  cases vs with
  | nil => trivial
  | cons v vs =>
    obtain ⟨hv, hvs⟩ := Bool.or_eq_false_iff.mp h
    exact ⟨Value.obeys_analyzed v hv, Value.allObey_analyzed vs hvs⟩

end

theorem Value.isProgram_of_hasClosure {v : Value} (hraw : v.isExpr = false)
    (h : v.hasClosure = false) : v.IsProgram :=
  (Value.evaluable_iff hraw).mpr (v.obeys_analyzed h)

/-! ## The law of analyzed code -/

theorem Law.analyzed_admissible {F : Failure → Prop} (hF : ∀ {e : Failure}, e.isOfRun → F e) :
    Law.analyzed.Admissible F where
  value_mono _ h := h
  frame_mono _ h := h
  bool _ _ := trivial
  int _ _ := trivial
  unspecified _ := trivial
  float _ _ := trivial
  list _ _ := trivial
  closure h _ := h
  closureFrame _ := trivial
  newFrame _ _ := ⟨fun _ => .inl trivial, fun _ => trivial⟩
  branch _ _ _ := trivial
  sequence _ _ _ := List.cons_ne_nil _ _
  false := trivial
  analysis h := h.elim
  ofRun := hF
  unanalyzable h := h.elim
  unknown h := h.elim
  emptyBody h := absurd rfl h.2
  emptySequence h := absurd rfl h
  misplacedElse h he := by
    obtain ⟨_, h⟩ := Clause.toBranches_ordered h
    cases h.symm.trans he
  undefinable h hn := by cases h.symm.trans hn

theorem Law.analyzed_permitsPrograms : Law.analyzed.PermitsPrograms where
  shaped h := h
  text _ _ := trivial
  symbol _ _ := trivial

/-- Neither the primitives nor the booleans that an interpreter starts with hold any code. -/
theorem Store.initial_obeys_analyzed : Store.initial.Obeys .analyzed :=
  Store.initial_obeys (fun _ => trivial) fun _ => trivial

namespace Interpreter

variable {s : Store} {form : Value}

theorem Reachable.analyzed [CharacterNames] (h : Reachable Value.IsProgram s) :
    s.Obeys .analyzed := by
  have hL : Law.analyzed.Admissible fun _ => True := Law.analyzed_admissible fun _ => trivial
  exact (h.changes hL Law.analyzed_permitsPrograms Store.initial_obeys_analyzed trivial
    fun hf => hf.evaluable).obeys hL Store.initial_obeys_analyzed

/-- What a program text without faults can end with: a value, an error of the run, or a number that
is too large for what is to be done with it. -/
def IsRunOutcome : Except Failure Value → Prop
  | .ok _ => True
  | .error (.error e) => e.kind = .unboundVariable ∨ e.kind = .notApplicable ∨
      e.kind = .wrongArity ∨ e.kind = .wrongType ∨ e.kind = .depthExceeded
  | .error (.fault f) => f = .integerTooLarge ∨ f = .quotientTooLarge ∨ f = .numeralTooLong

theorem evalForm_ne_tooDeep (limit : Nat) (form : Value) (s : Store) :
    (evalForm limit form s).1 ≠ .error (.fault .tooDeep) := by
  rw [evalForm_eq]
  split
  · exact nofun
  · next hne => exact fun h => hne _ (Prod.ext h rfl)

theorem isRunOutcome_of_isOfRun {r : Except Failure Value}
    (hne : r ≠ .error (.fault .tooDeep)) (h : ∀ e : Failure, r = .error e → e.isOfRun) :
    IsRunOutcome r := by
  match r, h with
  | .ok _, _ => trivial
  | .error (.fault .tooDeep), _ => exact absurd rfl hne
  | .error (.fault .integerTooLarge), _ => exact .inl rfl
  | .error (.fault .quotientTooLarge), _ => exact .inr (.inl rfl)
  | .error (.fault .numeralTooLong), _ => exact .inr (.inr rfl)
  | .error (.error e), h =>
    have hkind : e.kind.isTextual = false := by simpa [Failure.isOfRun] using h _ rfl
    simp only [IsRunOutcome]
    cases hk : e.kind <;> simp_all [ErrorKind.isTextual]
  | .error (.fault .noElement), h | .error (.fault .noCharacter), h
  | .error (.fault .missingFile), h | .error (.fault (.unknownLevel _)), h
  | .error (.fault .limitTooLarge), h => cases h _ rfl

/-- Evaluation in a state of an interpreter ends as runs do, but for forms without an analysis. -/
theorem evalForm_isOfRun [CharacterNames] (limit : Nat) (hs : Reachable Value.IsProgram s)
    (hf : form.IsProgram) (hok : form.isExpr = false → ∃ e, analyze form = .ok e) {e : Failure}
    (h : (evalForm limit form s).1 = .error e) : e.isOfRun := by
  refine (evalForm_lawful (F := (·.isOfRun)) (Law.analyzed_admissible id)
    Law.analyzed_permitsPrograms limit hs.analyzed trivial (hf.evaluable _)
    fun hraw e he => ?_).failure h
  obtain ⟨x, hx⟩ := hok hraw
  cases hx.symm.trans he

/-- A form without an analysis has no effect. -/
theorem evalForm_of_unanalyzable (limit : Nat) {f : Failure} (hraw : form.isExpr = false)
    (h : analyze form = .error f) :
    ∃ e, evalForm limit form s =
        (.error e, { s with events := s.events.push (.evaluating form) }) ∧
      (e = f ∨ e = .error (.depthExceeded form)) := by
  rw [evalForm_eq, Expr.ofValue_raw hraw]
  cases limit with
  | zero => exact ⟨_, rfl, .inr rfl⟩
  | succ limit =>
    rw [perform_raw, h]
    dsimp only
    split
    · exact ⟨_, by simp_all, .inr rfl⟩
    · exact ⟨f, rfl, .inl rfl⟩

/-- Announcing an evaluation writes nothing. -/
theorem output_evaluating (s : Store) (form : Value) :
    ({ s with events := s.events.push (.evaluating form) } : Store).output = s.output := by
  simp [Store.output, Store.textSince, Event.outputText]

/-- **Errors of the program text come before any effect.** In a state that an
interpreter comes to on texts and on forms that are programs, when evaluating a raw program ends
with one, it is the error that analysis raises on the form, no frame has changed and nothing was
written. Once analysis accepts the form, evaluating it or the expression that it stands for ends as
runs do. -/
theorem textual_error_precedes_effects [CharacterNames] (limit : Nat)
    (hs : Reachable Value.IsProgram s) (hf : form.IsProgram) (hraw : form.isExpr = false) :
    (∀ e s', evalForm limit form s = (.error (.error e), s') → e.kind.isTextual →
      analyze form = .error (.error e) ∧ s'.frames = s.frames ∧ s'.output = s.output) ∧
    ∀ e, analyze form = .ok e →
      IsRunOutcome (evalForm limit form s).1 ∧ IsRunOutcome (evalForm limit (.node e) s).1 := by
  constructor
  · intro e s' hout htext
    cases ha : analyze form with
    | error f =>
      obtain ⟨f', heq, rfl | rfl⟩ := evalForm_of_unanalyzable (s := s) limit hraw ha
      · cases heq.symm.trans hout
        exact ⟨rfl, rfl, output_evaluating s form⟩
      · cases heq.symm.trans hout
        cases htext
    | ok x =>
      have hrun := evalForm_isOfRun limit hs hf (fun _ => ⟨x, ha⟩) (congrArg Prod.fst hout)
      simp [Failure.isOfRun, htext] at hrun
  · intro x ha
    have hx : (Value.node x).IsProgram := (analyzes_of_analyze ha).obeys
      Law.analyzed_permitsPrograms trivial ((Value.evaluable_iff hraw).mp hf)
    exact ⟨isRunOutcome_of_isOfRun (evalForm_ne_tooDeep _ _ _) fun _ =>
        evalForm_isOfRun limit hs hf fun _ => ⟨x, ha⟩,
      isRunOutcome_of_isOfRun (evalForm_ne_tooDeep _ _ _) fun _ =>
        evalForm_isOfRun limit hs hx fun hnode => by cases hnode⟩

/-- A malformed part behind an output: nothing is written. -/
theorem textual_error_precedes_effects_begin :
    let form : Value := .list 90 [.symbol "begin", .list 91 [.symbol "newline"],
      .list 92 [.symbol "if"]]
    ∃ e s', evalForm 20 form Store.initial = (.error (.error e), s') ∧ e.kind = .malformedForm ∧
      analyze form = .error (.error e) ∧ s'.frames = Store.initial.frames ∧
      s'.output = Store.initial.output := by
  intro form
  have hs : Reachable Value.IsProgram Store.initial := .start 20 .none
  have hf : form.IsProgram := Value.isProgram_of_hasClosure rfl rfl
  have hresult : (evalForm 20 form Store.initial).1 =
      .error (.error (.shape .branchArity (.list 92 [.symbol "if"]))) := by cbv
  have h := (textual_error_precedes_effects 20 hs hf rfl).1 _ _ (Prod.ext hresult rfl) rfl
  exact ⟨_, _, Prod.ext hresult rfl, rfl, h⟩

-- An expression that analysis would not make leaves a closure behind whose call is such an error,
-- so the states cannot be those after any expressions whatever.
example : ((do
    let _ ← evalForm 9 (.node (.define (.symbol "f") (.lambda [] [])))
    evalForm 9 (.list 90 [.symbol "f"])) Store.initial).1 = .error (.error .emptySequence) := by
  cbv

end Interpreter

end SmallLisp
