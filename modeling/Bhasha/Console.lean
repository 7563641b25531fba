import Bhasha.Analysis
import Bhasha.Command
import Bhasha.Execution
import Bhasha.Folder
import Bhasha.Instr.Lowering
import Bhasha.Program.Printer
import Bhasha.Text.Blank
import Bhasha.Text.Case

/-! Programs at the console: from a source text to a run, and the dialogue line by line. -/

namespace Bhasha

/-- A run with what has gone to the error stream. -/
structure Console where
  machine : Machine := Machine.initial
  errors : String := ""
  /-- How many lambdas the listings have named so far. -/
  lambdas : Nat := 0

abbrev Talk := EStateM Exit Console

namespace Talk

variable {α : Type}

def run (a : Run α) : Talk α := fun c =>
  let m := c.machine
  let c := { c with machine := {} }
  match a m with
  | .ok v m => .ok v { c with machine := m }
  | .error e m => .error e { c with machine := m }

def say (s : String) : Talk Unit :=
  run (Run.write (s ++ "\n"))

def complain (s : String) : Talk Unit :=
  modify fun c => { c with errors := c.errors ++ s ++ "\n" }

def failure : Failure → Talk α
  | .diagnostic d => throw (.error d)
  | .fault f => throw (.fault f)

/-- How `body` ends. -/
def outcome (body : Talk α) : Talk (Except Exit α) := fun c =>
  match body c with
  | .ok a c => .ok (.ok a) c
  | .error e c => .ok (.error e) c

def banner (title : String) : Talk Unit :=
  say s!"\n=== {title} ==="

def complainAll (lang : Lang) (label : String) (ds : List Diagnostic) : Talk Unit :=
  ds.forM fun d =>
    let text := d.text lang
    complain s!"\n[{label}] {text}"

/-- The tokens of a source text. Characters that mean nothing are only reported. -/
def scan (lang : Lang) (options : Options) (source : String) : Talk (List Token) := do
  if options.debug then banner "Tokenizing"
  match tokenizeSafe lang source with
  | .error e => failure e
  | .ok (tokens, errors) =>
    if options.debug then tokens.forM fun t => say ("  " ++ t.render)
    complainAll lang "LexerError" errors
    return tokens

/-- The program of a list of tokens, unless there are syntax errors. -/
def parse (lang : Lang) (options : Options) (tokens : List Token) : Talk (Option Program) := do
  if options.debug then banner "Parsing"
  match Parse.program lang (Cursor.ofTokens tokens) with
  | .ok p _ =>
    let summary := p.summary
    if options.debug then say s!"\nAST:\n{summary}"
    return some p
  | .error (.diagnostic d) c =>
    if d.kind == .parserCollection then
      complainAll lang "ParseError" c.errors
      return none
    else throw (.error d)
  | .error (.fault f) _ => throw (.fault f)

/-- Is the program free of semantic errors? -/
def check (lang : Lang) (options : Options) (p : Program) : Talk Bool := do
  if !options.semantic then return true
  if options.debug then banner "Semantic Analysis"
  match analyse p with
  | .error f => throw (.fault f)
  | .ok a =>
    complainAll lang "SemanticError" a.errors
    if a.errors.isEmpty && options.debug then say "  Semantic analysis passed."
    return a.errors.isEmpty

def list (options : Options) (p : Program) : Talk Unit := do
  if !options.listing then return
  banner "Intermediate Representation (3AC)"
  let (s, fault?) := lowering (← get).lambdas p.statements
  modify fun c => { c with lambdas := s.lambdas }
  if let some f := fault? then throw (.fault f)
  say (Instr.listing s.code.toList)
  say ""

/-- All the way from a source text to the end of its run; zero stands for success. -/
def pipeline (s : Setting) (options : Options) (source : String) : Talk Nat := do
  let tokens ← scan s.lang options source
  let some p ← parse s.lang options tokens | return 1
  if !(← check s.lang options p) then return 1
  list options p
  if options.debug then banner "Executing"
  match ← outcome (run (execute s p.statements)) with
  | .ok _ => return 0
  | .error (.error d) =>
    let kind := d.kind.title
    let text := d.text s.lang
    complain s!"\n[RuntimeError] {kind}: {text}"
    return 1
  | .error e => throw e

/-- What is said of a run that ended in a way nobody took care of. -/
def internalError (lang : Lang) : Exit → String
  | .error d => d.text lang
  | .fault f => f.message
  | .giveBack _ | .breakLoop | .continueLoop => ""
  | .exhausted => Fault.outOfBudget.message

def traceMark : String := "<traceback>"

/-- Runs a file. Nothing but a wait for input gets out. -/
def runFile (s : Setting) (opened : Opened) (options : Options) (path : String) : Talk Nat := do
  match opened with
  | .missing =>
    complain s!"\nError: File not found: {path}"
    return 1
  | .failed reason =>
    complain s!"\nInternal error reading file: {reason}"
    return 1
  | .text source =>
    match ← outcome (pipeline s options (String.ofList (Text.unifyNewlines source.toList))) with
    | .ok code => return code
    | .error (.fault .awaitingInput) => throw (.fault .awaitingInput)
    | .error (.fault .interrupted) =>
      say "\n\nExecution interrupted by user"
      return 130
    | .error e =>
      let text := internalError s.lang e
      complain s!"\nInternal error: {text}"
      if options.debug then modify fun c => { c with errors := c.errors ++ traceMark }
      return 1

def greeting (options : Options) : Talk Unit := do
  say s!"Merilang v{Command.versionText} Interactive REPL"
  let on := (if options.semantic then ["semantic-on"] else []) ++
    (if options.listing then ["ir-on"] else [])
  if !on.isEmpty then
    let words := ", ".intercalate on
    say s!"  [{words}]"
  say "Type 'niklo' or press Ctrl+C to quit\n"

def isFarewell (cs : List Char) : Bool :=
  ["niklo", "exit", "quit"].contains (String.ofList (cs.map Text.lower))

/-- One line of the dialogue: does it go on? -/
def answer (s : Setting) (options : Options) (line : String) : Talk Bool := do
  let cs := Text.trimBy Text.isBlank line.toList
  if cs.isEmpty then return true
  if isFarewell cs then
    say "Alvida! 👋"
    return false
  let _ ← pipeline s options (String.ofList cs)
  return true

/-- Prompts, reads a line and answers it. The end of the input ends the dialogue. -/
def exchange (s : Setting) (options : Options) : Talk Bool := do
  match ← outcome (run do Run.write ">>> "; Run.readLine s.endOfInput) with
  | .ok line => answer s options line
  | .error (.fault .awaitingInput) => throw (.fault .awaitingInput)
  | .error _ =>
    say "\nAlvida! 👋"
    return false

/-- Every exchange takes something from the input. -/
def exchanges (s : Setting) (options : Options) : (fuel : Nat) → Talk Unit
  | 0 => throw .exhausted
  | n + 1 => do
    if ← exchange s options then exchanges s options n

def repl (s : Setting) (options : Options) : Talk Nat := do
  greeting options
  exchanges s options ((← get).machine.input.length + 1)
  return 0

/-- Carries out a command; the result is the exit code. -/
def command (s : Setting) (openFile : String → Opened) : Command → Talk Nat
  | .run file options => runFile s (openFile file) options file
  | .repl options => repl s { options with debug := false }
  | .version => do
    say s!"Merilang {Command.versionText}"
    say "Python <python>"
    return 0
  | .help => do
    run (Run.write Command.mainHelp)
    return 0

/-- What the command line has to say before any command is carried out. -/
def leave (l : Command.Leave) : Talk Nat := do
  run (Run.write l.output)
  modify fun c => { c with errors := c.errors ++ l.errors }
  return l.code

def serve (s : Setting) (folder : Folder) (args : List String) : Talk Nat :=
  match Command.parse args with
  | .ok c => command s folder.open? c
  | .error l => leave l

end Talk

end Bhasha
