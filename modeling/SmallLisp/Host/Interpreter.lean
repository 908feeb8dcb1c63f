import SmallLisp.Run.Eval

/-!
The interpreter evaluates texts form by form in the global frame. Its whole state is the store. The
limit bounds the nesting of forms in a text and of tasks in an evaluation.
-/

namespace SmallLisp.Interpreter

/-- Evaluate a form, or an expression, in the global frame. An evaluation that nests too deeply is
an error of the program. -/
def evalForm (limit : Nat) (form : Value) : Action Value := do
  Action.emit (.evaluating form)
  fun s =>
    match perform limit (.eval (.ofValue form) Store.global) s with
    | (.error (.fault .tooDeep), s') => (.error (.error (.depthExceeded form)), s')
    | r => r

/-- The outcome of an evaluation is that of the task but for too deep a nesting. -/
theorem evalForm_eq (limit : Nat) (form : Value) (s : Store) : evalForm limit form s =
    match perform limit (.eval (.ofValue form) Store.global)
        { s with events := s.events.push (.evaluating form) } with
    | (.error (.fault .tooDeep), s') => (.error (.error (.depthExceeded form)), s')
    | r => r := rfl

/-- Evaluate data as forms, in order. -/
def evalData (limit : Nat) : List Datum → Action (List Value)
  | [] => pure []
  | d :: ds => do
    let form ← Action.newDatum d
    let v ← evalForm limit form
    let vs ← evalData limit ds
    return v :: vs

variable [CharacterNames]

/-- Evaluate the forms of a text, in order. A text that cannot be read to its end has the effects of
the forms before the failure. -/
def evalText (limit : Nat) (text : String) : Action (List Value) := do
  let reading := scan limit text
  let vs ← evalData limit reading.forms
  match reading.failure with
  | some e => Action.fail e.toFailure
  | none => return vs

/-- Evaluate a text for its effects. -/
def load (limit : Nat) (text : String) : Action Unit := do
  let _ ← evalText limit text

/-- What a text amounts to by the values of its forms: the value of a single form, the list of
several values, and nothing specific when there is no form. The list is made for the host and takes
no identity from the store. -/
def result : List Value → Value
  | [] => .unspecified
  | [v] => v
  | vs => .list 0 vs

/-- Evaluate a text. -/
def eval (limit : Nat) (text : String) : Action Value := do
  return result (← evalText limit text)

/-- The global frame without the bindings that every interpreter starts with. -/
def ownGlobals (s : Store) : List (Value × Value) :=
  match s.frames[Store.global]?, Store.initial.frames[Store.global]? with
  | some frame, some start => frame.bindings.filter fun b => (start.get? b.1).isNone
  | _, _ => []

/-- Definitions to load into a new interpreter. -/
inductive Prelude where
  | none
  | text (source : String)
  /-- A file, with its contents if it exists. -/
  | file (path : String) (contents : Option String)

/-- A text with every kind of line end replaced by a line feed. -/
def normalizeLines : List Char → List Char
  | [] => []
  | '\r' :: '\n' :: cs => '\n' :: normalizeLines cs
  | '\r' :: cs => '\n' :: normalizeLines cs
  | c :: cs => c :: normalizeLines cs

/-- Load the definitions of a new interpreter. -/
def start (limit : Nat) : Prelude → Action Unit
  | .none => pure ()
  | .text source => load limit source
  | .file path contents => do
    Action.emit (.loading path)
    match contents with
    | none => Action.fail (.fault .missingFile)
    | some text => load limit (String.ofList (normalizeLines text.toList))

end SmallLisp.Interpreter
