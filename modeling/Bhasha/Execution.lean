import Bhasha.Evaluation
import Bhasha.Program.Parser
import Bhasha.Text.Newline

namespace Bhasha

namespace Run

/-- `body` as long as `condition` holds, at most `remaining` times. -/
def whileLoop (limit : Int) (line : Nat) (condition : Run Value) (body : Run Unit) :
    (remaining : Nat) → Run Unit
  | 0 => do
    if ← isTrue (← condition) then
      runtimeError s!"Maximum iteration count exceeded ({limit})" line
  | n + 1 => do
    if ← isTrue (← condition) then
      if ← turn body then whileLoop limit line condition body n

/-- The items of a list from the place `i` on, as the list is when their turn comes. -/
def forList (x : String) (body : Run Unit) (place : Nat) : (turns i : Nat) → Run Unit
  | 0, _ => throw .exhausted
  | n + 1, i => do
    match ((← get).heap.list place)[i]? with
    | none => return ()
    | some v =>
      define x v
      if ← turn body then forList x body place n (i + 1)

def forText (x : String) (body : Run Unit) : List Char → Run Unit
  | [] => return ()
  | ch :: cs => do
    define x (.str (String.singleton ch))
    if ← turn body then forText x body cs

/-- A loop has a scope of its own for its name. -/
def forLoop (turns : Nat) (x : String) (v : Value) (body : Run Unit) (line : Nat) : Run Unit := do
  match v with
  | .list i =>
    let scope ← newScope (← get).current []
    within scope (forList x body i turns 0)
  | .str s =>
    let scope ← newScope (← get).current []
    within scope (forText x body s.toList)
  | v => let type := v.typeName; typeError s!"Cannot iterate over {type}" line

def print (vs : List Value) : Run Unit := do
  let h := (← get).heap
  let texts ← lift (vs.mapM h.printed)
  write (" ".intercalate texts ++ "\n")

def methodsOf (fs : List FunctionDef) (scope : Nat) : Bindings Closure :=
  fs.foldl (fun ms f =>
    ms.bind f.name { name := f.name, parameters := f.parameters, body := f.body, scope }) []

/-- An empty name is none. -/
def nonempty (x? : Option String) : Option String :=
  x?.filter fun x => !x.isEmpty

def defineClass (unbound : Option Fault) (x : String) (parent : Option String)
    (methods : List FunctionDef) (line : Nat) : Run Unit := do
  let parent ← match nonempty parent with
    | some p => some <$> classNamed unbound p line
    | none => pure none
  define x (.classValue (.mk x parent (methodsOf methods (← get).current)))

def fileName (x : String) : String :=
  if x.endsWith ".dl" then x else x ++ ".dl"

/-- The statements of a file. -/
def fileStatements (s : Setting) (x : String) : Run (List Stmt) := do
  let some text := s.files.lookup (fileName x) | unmade .fileAccess
  match parse s.lang (String.ofList (Text.unifyNewlines text.toList)) with
  | .ok p => return p.statements
  | .error _ => unmade .fileAccess

/-- Whatever stops a file stops the import of it with the one fault. -/
def guardImport (body : Run Unit) : Run Unit := fun m =>
  match body m with
  | .ok a m => .ok a m
  | .error .exhausted m => .error .exhausted m
  | .error (.fault .interrupted) m => .error (.fault .interrupted) m
  | .error _ m => unmade .fileAccess m

/-- The handler runs in a scope of its own, with the text of the error under the given name. An
empty handler does not handle. -/
def handle (lang : Lang) (caught : Option Diagnostic) (x? : Option String) (isEmpty : Bool)
    (handler : Run Unit) : Run (Option Diagnostic) := do
  match caught with
  | none => return none
  | some d =>
    if isEmpty then return some d
    let bindings := (nonempty x?).toList.map fun x => (x, Value.str (d.text lang))
    let scope ← newScope (← get).current bindings
    within scope handler
    return none

end Run

namespace Exec

mutual

def stmt (c : Context) : Stmt → Run Unit
  | .expr e => do
    let _ ← Eval.expr c e
  | .assign x e _ => do
    let v ← Eval.expr c e
    Run.assign x v
  | .setProperty a x e l => do
    let v ← Eval.expr c a
    let .object i := v | do let _ ← Run.objectFor "Cannot assign property on" v l
    let w ← Eval.expr c e
    Run.work (Work.setProperty i x w)
  | .setIndex a i e l => do
    let v ← Eval.expr c a
    let place ← Eval.expr c i
    let w ← Eval.expr c e
    Run.assignIndex v place w l
  | .print es _ => do
    let vs ← Eval.exprs c es
    Run.print vs
  | .input x prompt _ => do
    if let some e := prompt then
      let v ← Eval.expr c e
      Run.write (← Run.text v)
    let line ← Run.readLine c.endOfInput
    Run.reassign c.unbound x (.str line)
  | .ifElse condition body bs elseBody _ => do
    let v ← Eval.expr c condition
    if ← Run.isTrue v then stmts c body
    else if ← branches c bs then return ()
    else match elseBody with
      | some b => stmts c b
      | none => return ()
  | .whileLoop condition body l =>
    Run.whileLoop c.maxIterations l (Eval.expr c condition) (stmts c body) c.maxIterations.toNat
  | .forLoop x e body l => do
    let v ← Eval.expr c e
    Run.forLoop c.turns x v (stmts c body) l
  | .breakLoop _ => throw .breakLoop
  | .continueLoop _ => throw .continueLoop
  | .function f => do
    Run.define f.name (.function
      { name := f.name, parameters := f.parameters, body := f.body, scope := (← get).current })
  | .giveBack value _ => do
    match value with
    | some e => throw (.giveBack (← Eval.expr c e))
    | none => throw (.giveBack .none)
  | .classDef x parent methods l => Run.defineClass c.unbound x parent methods l
  | .attempt body x handler finalizer _ => do
    let caught ← Run.attempt (stmts c body)
    let pending ← match handler with
      | some b => Run.handle c.lang caught x b.isEmpty (stmts c b)
      | none => pure caught
    match finalizer with
    | some b => stmts c b
    | none => pure ()
    if let some d := pending then Run.error d
  | .raiseError e _ => do
    let v ← Eval.expr c e
    let _ ← Run.text v
    Run.unmade .user
  | .importFile x _ => do
    let ss ← Run.fileStatements c.toSetting x
    Run.guardImport (discard (c.perform (.statements ss)))
  | .foreign cls _ l => Run.runtimeError s!"No visitor method for {cls}" l
termination_by structural s => s

def stmts (c : Context) : List Stmt → Run Unit
  | [] => return ()
  | s :: ss => do
    stmt c s
    stmts c ss
termination_by structural ss => ss

/-- Runs the first branch whose condition holds, and says if there was one. -/
def branches (c : Context) : List Branch → Run Bool
  | [] => return false
  | .mk condition body :: bs => do
    let v ← Eval.expr c condition
    if ← Run.isTrue v then
      stmts c body
      return true
    branches c bs
termination_by structural bs => bs

end

end Exec

/-- Performs a task; the budget bounds how deep bodies can be entered. -/
def perform (s : Setting) : (budget : Nat) → Task → Run Value
  | 0, _ => throw .exhausted
  | n + 1, task => do
    let c : Context := { s with perform := perform s n, turns := n }
    match task with
    | .statements ss =>
      Exec.stmts c ss
      return .none
    | .expression e => Eval.expr c e

/-- More than any run can use. -/
def budget : Nat := 0x4000000000000000

/-- Runs statements; giving back a value ends them. -/
def execute (s : Setting) (ss : List Stmt) : Run Unit :=
  discard (Run.result (discard (perform s budget (.statements ss))))

end Bhasha
