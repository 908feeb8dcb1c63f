import SmallLisp.Host.Program

/-!
The command line: the dialogue on the terminal. Texts go to standard output and log lines to
standard error as the events happen.
-/

namespace SmallLisp.Main

/-- Write what has happened since the last time. -/
def flush (config : Program.Config) (s : Store) : IO Store := do
  let out ← IO.getStdout
  let err ← IO.getStderr
  for e in s.events do
    let line := e.logLine config.threshold
    if line ≠ "" then err.putStr line
    let text := e.sharedText
    if text ≠ "" then out.putStr text
  out.flush
  return { s with events := #[] }

/-- Say why the program ends early. -/
def complain : Failure → IO UInt32
  | .error e => do
    IO.eprintln e.message
    return 1
  | .fault f => do
    IO.eprintln (f.message?.getD "the program cannot go on")
    return 1

/-- The dialogue, one line at a time. -/
partial def loop (config : Program.Config) (source : String) (s : Store) : IO UInt32 := do
  let s ← flush config (Dialogue.ask {} source s).2
  let line ← (← IO.getStdin).getLine
  if line = "" then
    let _ ← flush config (Dialogue.finish source s).2
    return 0
  else
    match Dialogue.takeLine config.limit source line s with
    | (.ok source', s') => loop config source' (← flush config s')
    | (.error e, s') => do
      let _ ← flush config s'
      complain e

/-- The contents of a file, if it can be read. -/
def contents? (path : String) : IO (Option String) := do
  try
    return some (← IO.FS.readFile path)
  catch _ => return none

/-- The settings variables that are set. -/
def environ : IO Environ := do
  let names := ["THETA_LOG_LEVEL", "THETA_RECURSION_LIMIT", "THETA_PRELUDE_PATH"]
  let values ← names.mapM fun name => do return (name, ← IO.getEnv name)
  return fun name => (values.lookup name).join

end SmallLisp.Main

open SmallLisp in
def main : IO UInt32 := do
  match Program.configure (← Main.environ) with
  | .error e => Main.complain e
  | .ok config =>
    let contents ← match config.prelude with
      | some path => Main.contents? path
      | none => pure none
    match Program.start config (fun _ => contents) Store.initial with
    | (.ok (), s) => Main.loop config "" (← Main.flush config s)
    | (.error e, s) => do
      let _ ← Main.flush config s
      Main.complain e
