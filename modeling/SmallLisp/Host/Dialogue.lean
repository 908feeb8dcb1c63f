import SmallLisp.Host.Interpreter

/-!
The dialogue reads lines until they form complete input, evaluates the forms, shows each value on a
line of its own, reports errors and goes on. Faults end it.
-/

namespace SmallLisp.Dialogue

/-- What the dialogue shows when it asks for a line. -/
structure Prompts where
  /-- Before the first line of an input. -/
  main : String := "theta> "
  /-- Before the other lines. -/
  continuation : String := "... "

/-- Ask for a line, where `source` is the incomplete input so far. -/
def ask (prompts : Prompts) (source : String) : Action Unit :=
  Action.emit (.prompt (if source = "" then prompts.main else prompts.continuation))

/-- Evaluate forms in order and show their values. -/
def evalAndShow (limit : Nat) : List Datum → Action Unit
  | [] => pure ()
  | d :: ds => do
    let form ← Action.newDatum d
    let v ← Interpreter.evalForm limit form
    let text ← Action.ofExcept v.write?
    Action.emit (.answer text)
    evalAndShow limit ds

/-- Report the error that an action ends with, if any. -/
def reporting (act : Action Unit) : Action Unit := fun s =>
  match act s with
  | (.error (.error e), s') => Action.emit (.report e) s'
  | r => r

variable [CharacterNames]

/-- Take a line after the incomplete input `source`. Returns what is still incomplete. -/
def takeLine (limit : Nat) (source line : String) : Action String :=
  let input := source ++ line
  if Text.isBlankText input.toList then pure ""
  else
    match read limit input with
    | .error (.error e) =>
      if e.isIncomplete then pure input
      else do
        Action.emit (.report (.read e))
        return ""
    | .error .tooDeep => Action.fail (.fault .tooDeep)
    | .ok forms => do
      reporting (evalAndShow limit forms)
      return ""

/-- End the dialogue. -/
def finish (source : String) : Action Unit :=
  Action.emit (.ending (!Text.isBlankText source.toList))

/-- Hold the dialogue over some lines, after the incomplete input `source`. -/
def runFrom (limit : Nat) (prompts : Prompts) (source : String) : List String → Action Unit
  | [] => do
    ask prompts source
    finish source
  | line :: lines => do
    ask prompts source
    let source' ← takeLine limit source line
    runFrom limit prompts source' lines

/-- The lines of a text, each with the line feed that ends it. -/
def linesOnto (seen : List Char) : List Char → List String
  | [] => if seen.isEmpty then [] else [String.ofList seen.reverse]
  | c :: cs =>
    if c = '\n' then String.ofList (c :: seen).reverse :: linesOnto [] cs
    else linesOnto (c :: seen) cs

def lines (text : String) : List String := linesOnto [] text.toList

/-- Hold the dialogue over an input text. -/
def run (limit : Nat) (prompts : Prompts) (input : String) : Action Unit :=
  runFrom limit prompts "" (lines input)

end SmallLisp.Dialogue

namespace SmallLisp.Event

/-- The text of an event in the dialogue. -/
def screenText : Event → String
  | .prompt text => text
  | .answer text => text ++ "\n"
  | .report e => "error: " ++ e.message ++ "\n"
  | .ending incomplete =>
    (if incomplete then "\nerror: incomplete input at end of stream" else "") ++ "\n"
  | _ => ""

/-- The text that an event adds to the output of programs. -/
def outputText : Event → String
  | .display text => text
  | _ => ""

/-- The text of an event when programs and the dialogue share one output. -/
def sharedText (e : Event) : String := e.screenText ++ e.outputText

end SmallLisp.Event

namespace SmallLisp.Store

/-- What the events from `since` on amount to. -/
def textSince (s : Store) (since : Nat) (text : Event → String) : String :=
  String.join ((s.events.toList.drop since).map text)

/-- The output of programs. -/
def output (s : Store) : String := s.textSince 0 Event.outputText

end SmallLisp.Store
