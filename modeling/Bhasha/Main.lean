import Bhasha.Console

/-! The command line at a real terminal. A part of the dialogue that runs out of input is started
again once there is one more line. -/

namespace Bhasha.Terminal

def openFile (path : String) : IO Opened := do
  try
    return .text (← IO.FS.readFile path)
  catch
    | .noFileOrDirectory _ _ _ => return .missing
    | e => return .failed (toString e)

/-- Writes what was not there before. -/
def catchUp (before after : Console) : IO Unit := do
  let out ← IO.getStdout
  out.putStr (String.ofList (after.machine.output.toList.drop before.machine.output.length))
  out.flush
  let err ← IO.getStderr
  err.putStr (String.ofList (after.errors.toList.drop before.errors.length))
  err.flush

def withInput (c : Console) (cs : List Char) : Console :=
  { c with machine := { c.machine with input := c.machine.input ++ cs } }

/-- Runs a part of the dialogue from `start`; what it has written up to `shown` can be seen
already. -/
partial def converse {α : Type} (s : Setting) (talk : Setting → Talk α) (start shown : Console) :
    IO (Except Exit α × Console) := do
  match talk { s with endOfInput := .awaitingInput } start with
  | .ok a c =>
    catchUp shown c
    return (.ok a, c)
  | .error (.fault .awaitingInput) c =>
    catchUp shown c
    let line ← (← IO.getStdin).getLine
    if line.isEmpty then
      match talk { s with endOfInput := .endOfInput } start with
      | .ok a c' =>
        catchUp c c'
        return (.ok a, c')
      | .error e c' =>
        catchUp c c'
        return (.error e, c')
    else converse s talk (withInput start line.toList) c
  | .error e c =>
    catchUp shown c
    return (.error e, c)

def escaped (s : Setting) (e : Exit) : IO UInt32 := do
  let text := Talk.internalError s.lang e
  (← IO.getStderr).putStrLn text
  return 1

partial def dialogue (s : Setting) (options : Options) (c : Console) : IO UInt32 := do
  match ← converse s (fun s => Talk.exchange s options) c c with
  | (.ok true, c) => dialogue s options c
  | (.ok false, _) => return 0
  | (.error e, _) => escaped s e

def once (s : Setting) (talk : Setting → Talk Nat) : IO UInt32 := do
  match ← converse s talk {} {} with
  | (.ok code, _) => return code.toUInt32
  | (.error e, _) => escaped s e

end Bhasha.Terminal

open Bhasha

def main (args : List String) : IO UInt32 := do
  let s : Setting := {}
  match Command.parse args with
  | .error l => Terminal.once s fun _ => Talk.leave l
  | .ok (.repl options) =>
    let (_, c) ← Terminal.converse s (fun _ => Talk.greeting options) {} {}
    Terminal.dialogue s { options with debug := false } c
  | .ok (.run file options) =>
    let opened ← Terminal.openFile file
    Terminal.once s fun s => Talk.command s (fun _ => opened) (.run file options)
  | .ok c => Terminal.once s fun s => Talk.command s (fun _ => .missing) c
