import Bhasha.Builtin
import Bhasha.Scope

namespace Bhasha

/-- How a statement or expression ends when it does not end with a value. -/
inductive Exit
  | giveBack (v : Value)
  | breakLoop
  | continueLoop
  | error (d : Diagnostic)
  | fault (f : Fault)
  /-- The budget of the run was too small. -/
  | exhausted

structure Machine where
  scopes : Scopes Value := {}
  /-- The scope that names are looked up in. -/
  current : Nat := 0
  /-- The functions that are being called, innermost first. -/
  calls : List String := []
  heap : Heap := {}
  output : String := ""
  input : List Char := []

namespace Machine

/-- The outermost scope. -/
def globalScope : Nat := 0

/-- Nothing has run yet, and the outermost scope knows the built-in functions. -/
def initial (input : List Char := []) : Machine where
  scopes := ⟨#[{ bindings := Builtin.all.map fun b => (b.word, .builtin b) }]⟩
  input

/-- The names bound in the outermost scope, without the built-in functions under their own names. -/
def globals (m : Machine) : Bindings Value :=
  (m.scopes.bindings globalScope).filter fun (x, v) => match v with
    | .builtin b => b.word != x
    | _ => true

def atGlobal (m : Machine) : Bool :=
  m.current == globalScope

end Machine

abbrev Run := EStateM Exit Machine

namespace Run

variable {α : Type}

def error (d : Diagnostic) : Run α :=
  throw (.error d)

def fault (f : Fault) : Run α :=
  throw (.fault f)

def runtimeError (message : String) (line : Nat) : Run α :=
  error (.plain .runtime message (some line))

def typeError (message : String) (line : Nat) : Run α :=
  error (.plain .type message (some line))

/-- A diagnostic that cannot be made, for the slot `message_en` is unknown. -/
def unmade (kind : Diagnostic.Kind) : Run α :=
  fault (.unknownSlot (kind.title ++ ".__init__") "message_en")

/-- A computation on the heap. -/
def work (w : Work α) : Run α := fun m =>
  let h := m.heap
  let m := { m with heap := {} }
  match w h with
  | .ok a h => .ok a { m with heap := h }
  | .error f h => .error (.fault f) { m with heap := h }

def lift (r : Except Fault α) : Run α :=
  match r with
  | .ok a => return a
  | .error f => fault f

def text (v : Value) : Run String := do
  lift ((← get).heap.text v)

def isTrue (v : Value) : Run Bool :=
  return (← get).heap.isTrue v

def object? (v : Value) : Run (Option Object) :=
  match v with
  | .object i => return (← get).heap.object? i
  | _ => return none

def find? (x : String) : Run (Option Value) := do
  let m ← get
  return m.scopes.get? m.current x

/-- A name has no meaning, which ends in `unbound` or, where that is left open, in `otherwise`. -/
def unresolved (unbound : Option Fault) (otherwise : Run α) : Run α :=
  match unbound with
  | some f => fault f
  | none => otherwise

def lookup (unbound : Option Fault) (x : String) : Run Value := do
  let m ← get
  match m.scopes.get m.current x none with
  | .ok v => return v
  | .error d => unresolved unbound (error d)

def define (x : String) (v : Value) : Run Unit :=
  modify fun m => { m with scopes := m.scopes.define m.current x v }

/-- Binds a name where it is bound already, or else in the current scope. -/
def assign (x : String) (v : Value) : Run Unit :=
  modify fun m =>
    { m with scopes := (m.scopes.set? m.current x v).getD (m.scopes.define m.current x v) }

/-- Binds a name that has to be bound already. -/
def reassign (unbound : Option Fault) (x : String) (v : Value) : Run Unit := do
  let m ← get
  match m.scopes.set m.current x v none with
  | .ok scopes => modify fun m => { m with scopes }
  | .error d => unresolved unbound (error d)

/-- A new scope inside `parent` with these bindings. -/
def newScope (parent : Nat) (bindings : List (String × Value)) : Run Nat := do
  if Scopes.depthLimit < (← get).scopes.innerDepth (some parent) then error Scopes.tooDeep
  else modifyGet fun m =>
    let i := m.scopes.all.size
    (i, { m with
      scopes := bindings.foldl (fun s (x, v) => s.define i x v) (m.scopes.add (some parent)) })

/-- Runs `body` in the scope `i`, and goes back to the scope that was current, however it ends. -/
def within (i : Nat) (body : Run α) : Run α := fun m =>
  let before := m.current
  match body { m with current := i } with
  | .ok a m => .ok a { m with current := before }
  | .error e m => .error e { m with current := before }

/-- Runs `body` as a call of `name`, which has ended when `body` has. -/
def called (name : String) (body : Run α) : Run α := fun m =>
  match body { m with calls := name :: m.calls } with
  | .ok a m => .ok a { m with calls := m.calls.tail }
  | .error e m => .error e { m with calls := m.calls.tail }

/-- What the body of a function gives back. -/
def result (body : Run Unit) : Run Value := fun m =>
  match body m with
  | .ok _ m => .ok .none m
  | .error (.giveBack v) m => .ok v m
  | .error e m => .error e m

/-- One turn of a loop: does the loop go on? -/
def turn (body : Run Unit) : Run Bool := fun m =>
  match body m with
  | .ok _ m => .ok true m
  | .error .breakLoop m => .ok false m
  | .error .continueLoop m => .ok true m
  | .error e m => .error e m

/-- The runtime error that `body` ends with; nothing else is held back. -/
def attempt (body : Run Unit) : Run (Option Diagnostic) := fun m =>
  match body m with
  | .ok _ m => .ok none m
  | .error (.error d) m => if d.kind.isRuntime then .ok (some d) m else .error (.error d) m
  | .error e m => .error e m

def write (s : String) : Run Unit :=
  modify fun m => { m with output := m.output ++ s }

/-- The next line of the input, without its end; `atEnd` if there is none. -/
def readLine (atEnd : Fault) : Run String := do
  let m ← get
  if m.input.isEmpty then fault atEnd
  else
    set { m with input := (m.input.dropWhile (· != '\n')).drop 1 }
    return String.ofList (m.input.takeWhile (· != '\n'))

end Run

end Bhasha
