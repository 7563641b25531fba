import Bhasha.Command.Help
import Bhasha.Text.Digit
import Bhasha.Text.Quoted

/-! The command line. An argument that starts with a dash is an option, and may be cut short as long
as only one option starts with it; behind `--` there are no options. -/

namespace Bhasha

/-- What is shown and done on the way from a source text to a run. -/
structure Options where
  debug : Bool := false
  semantic : Bool := true
  listing : Bool := false
deriving DecidableEq

inductive Command
  | run (file : String) (options : Options)
  | repl (options : Options)
  | version
  | help
deriving DecidableEq

namespace Command

inductive Flag
  | help
  | version
  | debug
  | listing
  | noSemantic
deriving DecidableEq

def Flag.names : Flag → List String
  | help => ["-h", "--help"]
  | version => ["--version"]
  | debug => ["--debug"]
  | listing => ["--ir"]
  | noSemantic => ["--no-semantic"]

/-- What the arguments besides the options are. -/
inductive Positional
  | nothing
  | file
  | subcommand
deriving DecidableEq

/-- The arguments that a command takes. -/
structure Grammar where
  program : String
  usage : String
  help : String
  flags : List Flag
  positional : Positional

def mainGrammar : Grammar :=
  ⟨"merilang", mainUsage, mainHelp, [.help, .version], .subcommand⟩

def runGrammar : Grammar :=
  ⟨"merilang run", runUsage, runHelp, [.help, .debug, .listing, .noSemantic], .file⟩

def replGrammar : Grammar :=
  ⟨"merilang repl", replUsage, replHelp, [.help, .listing, .noSemantic], .nothing⟩

def versionGrammar : Grammar :=
  ⟨"merilang version", versionUsage, versionHelp, [.help], .nothing⟩

/-- The command line ends the program before any command is carried out. -/
structure Leave where
  code : Nat
  output : String := ""
  errors : String := ""
deriving DecidableEq

def complain (g : Grammar) (message : String) : Leave :=
  { code := 2, errors := g.usage ++ g.program ++ ": error: " ++ message ++ "\n" }

/-- Text stuck to an option, with or without a sign of equality between the two. -/
structure Attached where
  equals : Bool
  text : List Char

inductive Argument
  | plain (s : String)
  | dashes
  | option (flag : Flag) (name : String) (attached : Option Attached)
  | unknown (s : String)

def Grammar.named (g : Grammar) : List (String × Flag) :=
  g.flags.flatMap fun f => f.names.map fun n => (n, f)

/-- The text before the first sign of equality, and the text behind it. -/
def splitEquals (s : String) : String × Option (List Char) :=
  match s.toList.span (· != '=') with
  | (before, _ :: rest) => (String.ofList before, some rest)
  | (before, []) => (String.ofList before, none)

/-- The options that a shortened or extended one can mean. -/
def Grammar.candidates (g : Grammar) (s : String) : List Argument :=
  if s.startsWith "--" then
    let (start, rest) := splitEquals s
    (g.named.filter fun (n, _) => n.startsWith start).map fun (n, f) =>
      .option f n (rest.map fun cs => ⟨true, cs⟩)
  else
    let short := String.ofList (s.toList.take 2)
    g.named.filterMap fun (n, f) =>
      if n == short then some (.option f n (some ⟨false, s.toList.drop 2⟩))
      else if n.startsWith s then some (.option f n none)
      else none

def Argument.name : Argument → String
  | plain s | unknown s => s
  | dashes => "--"
  | option _ n _ => n

/-- A dash and a number. -/
def isNegativeNumber (s : String) : Bool :=
  match s.toList with
  | '-' :: cs =>
    let cs := if cs.getLast? == some '\n' then cs.dropLast else cs
    let whole := cs.takeWhile Text.isDecimal
    match cs.dropWhile Text.isDecimal with
    | [] => !whole.isEmpty
    | '.' :: part => !part.isEmpty && part.all Text.isDecimal
    | _ => false
  | _ => false

def Grammar.classify (g : Grammar) (s : String) : Except Leave Argument :=
  if !s.startsWith "-" then .ok (.plain s) else
  match g.named.lookup s with
  | some f => .ok (.option f s none)
  | none =>
    if s.length == 1 then .ok (.plain s) else
    let (start, rest) := splitEquals s
    match rest, g.named.lookup start with
    | some cs, some f => .ok (.option f start (some ⟨true, cs⟩))
    | _, _ =>
      match g.candidates s with
      | [a] => .ok a
      | [] => .ok (if isNegativeNumber s || s.toList.contains ' ' then .plain s else .unknown s)
      | as =>
        let found := ", ".intercalate (as.map Argument.name)
        .error (complain g s!"ambiguous option: {s} could match {found}")

def Grammar.classifyAll (g : Grammar) : List String → Except Leave (List Argument)
  | [] => .ok []
  | s :: ss =>
    if s == "--" then .ok (.dashes :: ss.map .plain)
    else do return (← g.classify s) :: (← g.classifyAll ss)

structure Taken where
  flags : List Flag := []
  /-- The arguments that are not options; all that follow a subcommand belong to it. -/
  values : List String := []
  extras : List String := []

def takeFlag (g : Grammar) (t : Taken) : Flag → Except Leave Taken
  | .help => .error { code := 0, output := g.help }
  | .version => .error { code := 0, output := "Merilang " ++ versionText ++ "\n" }
  | f => .ok { t with flags := t.flags ++ [f] }

def ignored (g : Grammar) (f : Flag) (text : List Char) : Leave :=
  let name := "/".intercalate f.names
  let shown := Text.quoted (String.ofList text)
  complain g s!"argument {name}: ignored explicit argument {shown}"

/-- Letters stuck to a short option: further short options, as far as there are such, and then
something unknown. -/
def cluster (g : Grammar) (f : Flag) (equals : Bool) :
    List Char → Except Leave (List Flag × List String)
  | [] => .error (ignored g f [])
  | c :: cs =>
    if equals || c == '-' then .error (ignored g f (c :: cs)) else
    match g.named.lookup (String.ofList ['-', c]), cs with
    | some f', [] => .ok ([f, f'], [])
    | some f', '=' :: rest => do
      let (fs, extras) ← cluster g f' true rest
      return (f :: fs, extras)
    | some f', c' :: rest => do
      let (fs, extras) ← cluster g f' false (c' :: rest)
      return (f :: fs, extras)
    | none, cs => .ok ([f], [String.ofList ('-' :: c :: cs)])

def takeOption (g : Grammar) (t : Taken) (f : Flag) (name : String) :
    Option Attached → Except Leave Taken
  | none => takeFlag g t f
  | some a =>
    if name.startsWith "--" then .error (ignored g f a.text)
    else do
      let (fs, extras) ← cluster g f a.equals a.text
      fs.foldlM (takeFlag g) { t with extras := t.extras ++ extras }

/-- Takes arguments from left to right; the first plain one is what the command needs. -/
def takeAll (g : Grammar) (t : Taken) : List Argument → Except Leave Taken
  | [] => .ok t
  | .option f n a :: rest => do takeAll g (← takeOption g t f n a) rest
  | .unknown s :: rest => takeAll g { t with extras := t.extras ++ [s] } rest
  | .plain s :: rest =>
    match g.positional, t.values with
    | .file, [] => match rest with
      | .dashes :: rest => takeAll g { t with values := [s] } rest
      | rest => takeAll g { t with values := [s] } rest
    | _, _ => takeAll g { t with extras := t.extras ++ [s] } rest
  | .dashes :: rest =>
    match g.positional, t.values, rest with
    | .file, [], .plain s :: rest => takeAll g { t with values := [s] } rest
    | _, _, rest => takeAll g { t with extras := t.extras ++ ["--"] } rest

/-- The options before a subcommand, and the subcommand with all that follows it. -/
def takeLeading (g : Grammar) (t : Taken) : List (Argument × String) → Except Leave Taken
  | [] => .ok t
  | (.option f n a, _) :: rest => do takeLeading g (← takeOption g t f n a) rest
  | (.unknown s, _) :: rest => takeLeading g { t with extras := t.extras ++ [s] } rest
  | (.plain s, _) :: rest => .ok { t with values := s :: rest.map (·.2) }
  | (.dashes, s) :: rest =>
    if rest.isEmpty then .ok { t with extras := t.extras ++ [s] }
    else .ok { t with values := s :: rest.map (·.2) }

def Grammar.take (g : Grammar) (args : List String) : Except Leave Taken := do
  let as ← g.classifyAll args
  let t ← match g.positional with
    | .subcommand => takeLeading g {} (as.zip args)
    | _ => takeAll g {} as
  if g.positional == .file && t.values.isEmpty then
    throw (complain g "the following arguments are required: file")
  return t

def optionsOf (t : Taken) : Options where
  debug := t.flags.contains .debug
  semantic := !t.flags.contains .noSemantic
  listing := t.flags.contains .listing

/-- A subcommand and what it leaves over. -/
def subcommand (name : String) (args : List String) : Except Leave (Command × List String) :=
  match name with
  | "run" => do
    let t ← runGrammar.take args
    return (run (t.values.headD "") (optionsOf t), t.extras)
  | "repl" => do
    let t ← replGrammar.take args
    return (repl (optionsOf t), t.extras)
  | "version" => do
    let t ← versionGrammar.take args
    return (version, t.extras)
  | name =>
    let shown := Text.quoted name
    .error (complain mainGrammar
      s!"argument command: invalid choice: {shown} (choose from 'run', 'repl', 'version')")

/-- What the arguments ask for. What nobody takes is refused at the end. -/
def parse (args : List String) : Except Leave Command := do
  let t ← mainGrammar.take args
  let (command, extras) ← match t.values with
    | [] => pure (help, [])
    | name :: rest => subcommand name rest
  match t.extras ++ extras with
  | [] => return command
  | unknown =>
    let list := " ".intercalate unknown
    throw (complain mainGrammar s!"unrecognized arguments: {list}")

end Command

end Bhasha
