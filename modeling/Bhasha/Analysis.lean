import Bhasha.Diagnostic
import Bhasha.Program
import Bhasha.Symbol
import Bhasha.Text.Matching

namespace Bhasha

def BinaryOp.isArithmetic : BinaryOp → Bool
  | .add | .subtract | .multiply | .divide | .modulo
  | .less | .greater | .lessEqual | .greaterEqual => true
  | _ => false

def BinaryOp.isPredicate : BinaryOp → Bool
  | .less | .greater | .lessEqual | .greaterEqual | .equal | .notEqual | .and | .or => true
  | _ => false

/-- Arithmetic and order want two numbers; `+` also joins two strings. -/
def BinaryOp.accepts (op : BinaryOp) (left right : Tag) : Bool :=
  left == .any || right == .any || !op.isArithmetic ||
    (left == .number && right == .number) || (left == .string && right == .string && op == .add)

def UnaryOp.accepts (op : UnaryOp) (operand : Tag) : Bool :=
  operand == .any || (match op with
    | .negate => operand == .number
    | .not => operand == .bool
    | .unknown _ => true)

def checkBinary (op : BinaryOp) (left right : Tag) (line : Int) : Option Diagnostic :=
  if op.accepts left right then none
  else some (.badOperands op.symbol left.title right.title (some line))

def checkUnary (op : UnaryOp) (operand : Tag) (line : Int) : Option Diagnostic :=
  if op.accepts operand then none else some (.badOperand op.symbol operand.title (some line))

def BinaryOp.resultTag (op : BinaryOp) (left right : Tag) : Tag :=
  if op.isPredicate then .bool
  else if left == .number && right == .number then .number
  else if left == .string && right == .string then .string
  else .any

def UnaryOp.resultTag : UnaryOp → Tag
  | .negate => .number
  | .not => .bool
  | .unknown _ => .any

structure Analysis where
  errors : List Diagnostic := []
  scope : SymbolTable
  /-- The functions and the classes around the current place, the innermost first. -/
  functions : List String := []
  classes : List String := []
  loops : Nat := 0

/-- The names every program may use, with the number of their parameters. -/
def knownFunctions : List (String × Nat) :=
  [("print", 0), ("input", 1), ("str", 1), ("int", 1), ("float", 1), ("bool", 1), ("type", 1),
   ("length", 1), ("append", 2), ("pop", 2), ("insert", 3), ("sort", 1), ("reverse", 1), ("sum", 1),
   ("min", 1), ("max", 1), ("upper", 1), ("lower", 1), ("split", 2), ("join", 2), ("replace", 3),
   ("abs", 1), ("round", 2), ("range", 1)]

def knownSymbol (name : String) (arity : Nat) : Symbol :=
  { name, kind := .function, tag := .any, line := 0, arity := some arity }

def Analysis.initial : Analysis :=
  { scope := { inner := knownFunctions.map fun (x, n) => (x, knownSymbol x n) } }

abbrev Analyse := EStateM Fault Analysis

namespace Analyse

def report (d : Diagnostic) : Analyse Unit :=
  modify fun a => { a with errors := a.errors ++ [d] }

def define (s : Symbol) : Analyse Unit :=
  modify fun a => { a with scope := a.scope.define s }

def undefinedName (x : String) (line : Nat) : Analyse Unit := do
  let similar := Text.closeMatches x (← get).scope.allNames
  report (.undefinedName x (some line) similar)

/-- The symbol of a name; that there is none is an error. -/
def resolve (x : String) (line : Nat) : Analyse (Option Symbol) := do
  let s? := (← get).scope.resolve? x
  if s?.isNone then undefinedName x line
  return s?

/-- Runs `body` in a scope of its own. -/
def inScope (body : Analyse Unit) : Analyse Unit := do
  modify fun a => { a with scope := a.scope.enter }
  body
  match (← get).scope.exit with
  | .ok t => modify fun a => { a with scope := t }
  | .error f => throw f

def inLoop (body : Analyse Unit) : Analyse Unit := do
  modify fun a => { a with loops := a.loops + 1 }
  body
  modify fun a => { a with loops := a.loops - 1 }

def inFunction (x : String) (body : Analyse Unit) : Analyse Unit := do
  modify fun a => { a with functions := x :: a.functions }
  body
  modify fun a => { a with functions := a.functions.tail }

def inClass (x : String) (body : Analyse Unit) : Analyse Unit := do
  modify fun a => { a with classes := x :: a.classes }
  body
  modify fun a => { a with classes := a.classes.tail }

def parameters (ps : List String) (line : Nat) : Analyse Unit :=
  ps.forM fun p => define { name := p, kind := .parameter, tag := .any, line }

/-- The number of arguments is held against the number of parameters, unless that is zero. -/
def checkArity (s : Symbol) (x : String) (given : Nat) (line : Nat) : Analyse Unit := do
  match s.kind, s.arity with
  | .function, some n =>
    if n != 0 && given != n then
      report (.worded .semantic s!"Function '{x}' expects {n} argument(s), got {given}"
        s!"फंक्शन '{x}' को {n} तर्क(ों) की ज़रूरत है, मिले {given}" (some line))
  | _, _ => pure ()

/-- A function or a class; its name must be new in the innermost scope. -/
def declare (s : Symbol) : Analyse Unit := do
  match (← get).scope.resolveLocal? s.name with
  | some old => report (.redefinition s.name (some old.line) (some s.line))
  | none => define s

def assign (x : String) (tag : Tag) (line : Nat) : Analyse Unit := do
  match (← get).scope.resolveLocal? x with
  | some { kind := .var, .. } => pure ()
  | _ => define { name := x, kind := .var, tag, line }

mutual

def expr (e : Expr) : Analyse Tag := do
  match e with
  | .literal .number _ _ => return .number
  | .literal .string _ _ => return .string
  | .literal .boolean _ _ => return .bool
  | .list es _ => exprs es; return .list
  | .dict ps _ => pairs ps; return .dict
  | .var x l => return ((← resolve x l).map (·.tag)).getD .any
  | .binary op a b l =>
    let left ← expr a
    let right ← expr b
    if let some d := checkBinary op left right l then report d
    return op.resultTag left right
  | .unary op a l =>
    let operand ← expr a
    if let some d := checkUnary op operand l then report d
    return op.resultTag
  | .paren a _ => expr a
  | .call x es l =>
    if let some s ← resolve x l then checkArity s x es.length l
    exprs es
    return .any
  | .lambda ps a l =>
    inScope do
      parameters ps l
      let _ ← expr a
    return .function
  | .newObject x es l =>
    let _ ← resolve x l
    exprs es
    return .any
  | .method a _ es _ =>
    let _ ← expr a
    exprs es
    return .any
  | .property a _ _ =>
    let _ ← expr a
    return .any
  | .thisObject l =>
    if (← get).classes.isEmpty then
      report (.worded .semantic "'yeh' (this) used outside a class method"
        "'yeh' क्लास मेथड के बाहर उपयोग किया गया" (some l))
    return .any
  | .superCall _ es l =>
    if (← get).classes.isEmpty then
      report (.worded .semantic "'upar' (super) used outside a class method"
        "'upar' क्लास मेथड के बाहर उपयोग किया गया" (some l))
    exprs es
    return .any
  | .index a i _ =>
    let _ ← expr a
    let _ ← expr i
    return .any
  | .foreign _ es _ =>
    exprs es
    return .any
termination_by structural e

def exprs (es : List Expr) : Analyse Unit := do
  match es with
  | [] => pure ()
  | e :: es =>
    let _ ← expr e
    exprs es
termination_by structural es

def pairs (ps : List (Expr × Expr)) : Analyse Unit := do
  match ps with
  | [] => pure ()
  | (k, v) :: ps =>
    let _ ← expr k
    let _ ← expr v
    pairs ps
termination_by structural ps

end

mutual

def stmt (s : Stmt) : Analyse Unit := do
  match s with
  | .expr e =>
    let _ ← expr e
  | .assign x e l => assign x (← expr e) l
  | .setProperty a _ e _ =>
    let _ ← expr a
    let _ ← expr e
  | .setIndex a i e _ =>
    let _ ← expr a
    let _ ← expr i
    let _ ← expr e
  | .print es _ => exprs es
  | .input x prompt l =>
    if ((← get).scope.resolveLocal? x).isNone then
      define { name := x, kind := .var, tag := .string, line := l }
    if let some e := prompt then
      let _ ← expr e
  | .ifElse c body others otherwise _ =>
    let _ ← expr c
    inScope (stmts body)
    branches others
    match otherwise with
    | some b => inScope (stmts b)
    | none => pure ()
  | .whileLoop c body _ =>
    let _ ← expr c
    inLoop (inScope (stmts body))
  | .forLoop x e body l =>
    let _ ← expr e
    inLoop (inScope do
      define { name := x, kind := .var, tag := .any, line := l }
      stmts body)
  | .breakLoop l =>
    if (← get).loops == 0 then
      report (.worded .semantic "'ruk' (break) used outside a loop"
        "'ruk' (ब्रेक) लूप के बाहर उपयोग किया गया" (some l))
  | .continueLoop l =>
    if (← get).loops == 0 then
      report (.worded .semantic "'age_badho' (continue) used outside a loop"
        "'age_badho' लूप के बाहर उपयोग किया गया" (some l))
  | .function f => function f
  | .giveBack value l =>
    if (← get).functions.isEmpty then
      report (.worded .semantic "'wapas' (return) used outside a function"
        "'wapas' (रिटर्न) फंक्शन के बाहर उपयोग किया गया" (some l))
    if let some e := value then
      let _ ← expr e
  | .classDef x parent methods l =>
    declare { name := x, kind := .classKind, tag := .classTag, line := l }
    if let some p := parent then
      let _ ← resolve p l
    inClass x (inScope (functions methods))
  | .attempt body x handler finalizer l =>
    inScope (stmts body)
    match handler with
    | some b => inScope do
      if let some y := x.filter (!·.isEmpty) then
        define { name := y, kind := .var, tag := .any, line := l }
      stmts b
    | none => pure ()
    match finalizer with
    | some b => inScope (stmts b)
    | none => pure ()
  | .raiseError e _ =>
    let _ ← expr e
  | .importFile _ _ => pure ()
  | .foreign _ ss _ => stmts ss
termination_by structural s

def stmts (ss : List Stmt) : Analyse Unit := do
  match ss with
  | [] => pure ()
  | s :: ss =>
    stmt s
    stmts ss
termination_by structural ss

def branches (bs : List Branch) : Analyse Unit := do
  match bs with
  | [] => pure ()
  | .mk c body :: bs =>
    let _ ← expr c
    inScope (stmts body)
    branches bs
termination_by structural bs

def function (f : FunctionDef) : Analyse Unit := do
  match f with
  | .mk x ps body l =>
    declare { name := x, kind := .function, tag := .function, line := l, arity := some ps.length }
    inFunction x (inScope do
      parameters ps l
      stmts body)
termination_by structural f

def functions (fs : List FunctionDef) : Analyse Unit := do
  match fs with
  | [] => pure ()
  | f :: fs =>
    function f
    functions fs
termination_by structural fs

end

end Analyse

/-- The semantic errors of a list of statements, and the state of the analysis behind them. -/
def analyseStatements (ss : List Stmt) : Except Fault Analysis :=
  match Analyse.stmts ss Analysis.initial with
  | .ok _ a => .ok a
  | .error f _ => .error f

def analyse (p : Program) : Except Fault Analysis :=
  analyseStatements p.statements

namespace Analysis

/-- The symbols of the innermost scope that the program brought in. -/
def ownSymbols (a : Analysis) : List Symbol :=
  (a.scope.inner.map (·.2)).filter fun s =>
    !knownFunctions.any fun (x, n) => s == knownSymbol x n

end Analysis

end Bhasha
