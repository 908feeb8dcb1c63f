import SmallLisp.Host.Dialogue
import SmallLisp.Host.Settings

/-!
The program: a dialogue on standard input and output whose settings come from the environment, with
a log of what it does.
-/

namespace SmallLisp

/-- The level at which an event is logged. -/
def Event.logLevel? : Event → Option LogLevel
  | .evaluating _ => some .debug
  | .loading _ => some .info
  | .report _ => some .warning
  | _ => none

/-- The message of an event in the log. -/
def Event.logMessage : Event → String
  | .evaluating form => "Evaluating " ++ form.inspect
  | .loading path => "Loading prelude from " ++ path
  | .report e => "Evaluation failed: " ++ e.message
  | _ => ""

/-- The log line of an event, if its level is at least the threshold. -/
def Event.logLine (threshold : Nat) (e : Event) : String :=
  match e.logLevel? with
  | some level =>
    if threshold ≤ level.rank then level.name ++ ":ThetaInterpreter:" ++ e.logMessage ++ "\n"
    else ""
  | none => ""

namespace Program

/-- What a program needs to know before it runs. -/
structure Config where
  /-- The lowest rank of events that are logged. -/
  threshold : Nat
  /-- The nesting limit. -/
  limit : Nat
  prelude : Option String

/-- The configuration that the environment asks for. -/
def configure (env : Environ) : Except Failure Config := do
  let level := Settings.logLevel env
  match LogLevel.threshold? level with
  | none => .error (.fault (.unknownLevel level))
  | some threshold =>
    let limit ← Settings.effectiveLimit env
    return ⟨threshold, min limit.toNat Settings.deepest, Settings.preludePath env⟩

variable [CharacterNames]

/-- Load the definitions that the configuration names. -/
def start (config : Config) (readFile : String → Option String) : Action Unit :=
  match config.prelude with
  | none => pure ()
  | some path => Interpreter.start config.limit (.file path (readFile path))

/-- Run the program on an input text. -/
def run (config : Config) (readFile : String → Option String) (input : String) : Action Unit := do
  start config readFile
  Dialogue.run config.limit {} input

end Program

end SmallLisp
