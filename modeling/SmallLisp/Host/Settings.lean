import SmallLisp.Error
import SmallLisp.Text.Uppercase

/-!
Settings from environment variables, the levels of the log, and the notation of file paths.
-/

namespace SmallLisp

/-- The values of environment variables. -/
abbrev Environ := String → Option String

namespace Settings

/-- The stripped value of a variable, if it is not blank. -/
def value? (env : Environ) (name : String) : Option String :=
  match env name with
  | some raw => let v := Text.strip raw; if v = "" then none else some v
  | none => none

/-- An integer variable. Blank values and values that are no integer count as unset. -/
def int (env : Environ) (name : String) (default : Int) : Int :=
  match (value? env name).bind fun v => Numeral.readInt? v.toList with
  | some n => n
  | none => default

def defaultLimit : Nat := 5000

/-- The nesting limit that is asked for, at least 100. -/
def recursionLimit (env : Environ) : Int := max (int env "THETA_RECURSION_LIMIT" defaultLimit) 100

/-- The nesting limit that a process starts with. -/
def startLimit : Int := 1000

/-- The nesting limit in force: what is asked for, if that raises the limit. -/
def effectiveLimit (env : Environ) : Except Failure Int :=
  let limit := recursionLimit env
  if limit ≤ startLimit then .ok startLimit
  else if limit ≤ 2147483647 then .ok limit
  else .error (.fault .limitTooLarge)

/-- The deepest nesting of evaluations that is ever allowed, whatever the limit in force. -/
def deepest : Nat := 10000

/-- The name of the log level. -/
def logLevel (env : Environ) : String :=
  match value? env "THETA_LOG_LEVEL" with
  | some v => Text.upper v
  | none => "WARNING"

/-- The root of a path: of leading slashes, exactly two are kept and any other number counts as
one. -/
def pathRoot : List Char → String
  | '/' :: '/' :: '/' :: _ => "/"
  | '/' :: '/' :: _ => "//"
  | '/' :: _ => "/"
  | _ => ""

/-- A path without redundant parts: no empty and no `.` parts. -/
def normalizePath (path : String) : String :=
  let parts := (path.splitOn "/").filter fun part => part != "" && part != "."
  let text := pathRoot path.toList ++ "/".intercalate parts
  if text = "" then "." else text

/-- The file of definitions to load. -/
def preludePath (env : Environ) : Option String :=
  (value? env "THETA_PRELUDE_PATH").map normalizePath

end Settings

/-- The levels at which an event can be logged. -/
inductive LogLevel where
  | debug
  | info
  | warning

namespace LogLevel

def name : LogLevel → String
  | .debug => "DEBUG"
  | .info => "INFO"
  | .warning => "WARNING"

def rank : LogLevel → Nat
  | .debug => 10
  | .info => 20
  | .warning => 30

/-- The lowest rank that is logged at a level of the given name. -/
def threshold? : String → Option Nat
  | "CRITICAL" | "FATAL" => some 50
  | "ERROR" => some 40
  | "WARNING" | "WARN" => some 30
  | "INFO" => some 20
  | "DEBUG" => some 10
  | "NOTSET" => some 0
  | _ => none

end LogLevel

end SmallLisp
