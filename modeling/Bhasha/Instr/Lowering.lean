import Bhasha.Fault
import Bhasha.Instr
import Bhasha.Program

namespace Bhasha

/-- The code laid down so far, the next free numbers, and where `ruk` and `age_badho` lead. -/
structure Lowering where
  code : Array Instr := #[]
  temps : Nat := 0
  labels : Nat := 0
  lambdas : Nat := 0
  breaks : List Label := []
  continues : List Label := []

abbrev Lower := EStateM Fault Lowering

namespace Lower

def emit (line : Nat) (op : Operation) : Lower Unit :=
  modify fun s => { s with code := s.code.push { op, line } }

def freshTemp : Lower Temp :=
  modifyGet fun s => (⟨s!"t{s.temps}"⟩, { s with temps := s.temps + 1 })

def freshLabel (hint : String) : Lower Label :=
  modifyGet fun s => (⟨s!"{hint}{s.labels}"⟩, { s with labels := s.labels + 1 })

def freshLabels (hint : String) : Nat → Lower (List Label)
  | 0 => return []
  | n + 1 => return (← freshLabel hint) :: (← freshLabels hint n)

/-- A name for a function that has none. -/
def freshLambda : Lower String :=
  modifyGet fun s => (s!"__lambda_{s.lambdas}__", { s with lambdas := s.lambdas + 1 })

/-- The operand for what an expression left; a foreign node leaves nothing. -/
def operand : Option Temp → Operand
  | some t => .temp t
  | none => .scalar .none

/-- Lays `body` down inside a loop. -/
def inLoop (out again : Label) (body : Lower Unit) : Lower Unit := do
  modify fun s => { s with breaks := out :: s.breaks, continues := again :: s.continues }
  body
  modify fun s => { s with breaks := s.breaks.tail, continues := s.continues.tail }

def push (line : Nat) (t : Option Temp) : Lower Unit :=
  emit line (.param (operand t))

/-- Calls a function on what was pushed. -/
def call (line : Nat) (function : String) (arguments : Nat) : Lower (Option Temp) := do
  let t ← freshTemp
  emit line (.call (some t) function arguments)
  return some t

mutual

/-- Lays down the code for an expression, and gives the temporary that holds its value. -/
def expr (e : Expr) : Lower (Option Temp) := do
  match e with
  | .literal _ v l =>
    let t ← freshTemp
    emit l (.assign t (.scalar v))
    return some t
  | .list es l =>
    let ts ← exprs es
    ts.forM (push l)
    call l "__list__" es.length
  | .dict ps l =>
    pairs l ps
    call l "__dict__" (ps.length * 2)
  | .var x l =>
    let t ← freshTemp
    emit l (.copy (.temp t) (.named x))
    return some t
  | .binary op a b l =>
    let left ← expr a
    let right ← expr b
    let t ← freshTemp
    emit l (.binary t op.symbol (operand left) (operand right))
    return some t
  | .unary op a l =>
    let value ← expr a
    let t ← freshTemp
    emit l (.unary t op.symbol (operand value))
    return some t
  | .paren a _ => expr a
  | .call x es l =>
    arguments l es
    call l x es.length
  | .lambda _ a l =>
    let x ← freshLambda
    let out ← freshLabel "lambda_end_"
    emit l (.jump out)
    emit l (.function x)
    let value ← expr a
    emit l (.giveBack (value.map .temp))
    emit l (.label out)
    let t ← freshTemp
    emit l (.assign t (.scalar (.str x)))
    return some t
  | .newObject c es l =>
    let t ← freshTemp
    emit l (.newObject t c)
    arguments l es
    let _ ← call l (c ++ ".__init__") es.length
    return some t
  | .method a x es l =>
    push l (← expr a)
    arguments l es
    call l x (es.length + 1)
  | .property a x l =>
    let object ← expr a
    let t ← freshTemp
    emit l (.loadField t (operand object) x)
    return some t
  | .thisObject l =>
    let t ← freshTemp
    emit l (.copy (.temp t) (.named "__self__"))
    return some t
  | .superCall x es l =>
    arguments l es
    call l ("__super__." ++ x) es.length
  | .index a i l =>
    let object ← expr a
    let index ← expr i
    let t ← freshTemp
    emit l (.loadIndex t (operand object) (operand index))
    return some t
  | .foreign _ _ _ => return none
termination_by structural e

def exprs (es : List Expr) : Lower (List (Option Temp)) := do
  match es with
  | [] => return []
  | e :: es =>
    let t ← expr e
    let ts ← exprs es
    return t :: ts
termination_by structural es

/-- Each argument is pushed before the next one is computed. -/
def arguments (line : Nat) (es : List Expr) : Lower Unit := do
  match es with
  | [] => pure ()
  | e :: es =>
    push line (← expr e)
    arguments line es
termination_by structural es

def pairs (line : Nat) (ps : List (Expr × Expr)) : Lower Unit := do
  match ps with
  | [] => pure ()
  | (k, v) :: ps =>
    let key ← expr k
    let value ← expr v
    push line key
    push line value
    pairs line ps
termination_by structural ps

end

mutual

def stmt (s : Stmt) : Lower Unit := do
  match s with
  | .expr e =>
    let _ ← expr e
  | .assign x e l =>
    let value ← expr e
    emit l (.copy (.named x) (value.elim (.named "None") .temp))
  | .setProperty a x e l =>
    let object ← expr a
    let value ← expr e
    emit l (.storeField (operand object) x (operand value))
  | .setIndex a i e l =>
    let object ← expr a
    let index ← expr i
    let value ← expr e
    emit l (.storeIndex (operand object) (operand index) (operand value))
  | .print es l =>
    let values ← exprs es
    emit l (.print (values.map operand))
  | .input x prompt l =>
    let value ← match prompt with
      | some e => expr e
      | none => pure none
    emit l (.input x (value.map .temp))
  | .ifElse c body others otherwise l =>
    let thenLabel ← freshLabel "then_"
    let out ← freshLabel "if_end_"
    let labels ← freshLabels "elif_" others.length
    let elseLabel ← match otherwise with
      | some _ => freshLabel "else_"
      | none => pure out
    let condition ← expr c
    emit l (.branch (operand condition) thenLabel (labels.headD elseLabel))
    emit l (.label thenLabel)
    stmts body
    emit l (.jump out)
    branches l out elseLabel labels others
    match otherwise with
    | some b =>
      emit l (.label elseLabel)
      stmts b
    | none => pure ()
    emit l (.label out)
  | .whileLoop c body l =>
    let again ← freshLabel "while_start_"
    let inside ← freshLabel "while_body_"
    let out ← freshLabel "while_end_"
    inLoop out again do
      emit l (.label again)
      let condition ← expr c
      emit l (.branch (operand condition) inside out)
      emit l (.label inside)
      stmts body
      emit l (.jump again)
      emit l (.label out)
  | .forLoop x e body l =>
    let iterator ← freshTemp
    let more ← freshTemp
    let again ← freshLabel "for_start_"
    let inside ← freshLabel "for_body_"
    let out ← freshLabel "for_end_"
    push l (← expr e)
    emit l (.call (some iterator) "__iter__" 1)
    inLoop out again do
      emit l (.label again)
      push l (some iterator)
      emit l (.call (some more) "__has_next__" 1)
      emit l (.branch (.temp more) inside out)
      emit l (.label inside)
      let next ← freshTemp
      push l (some iterator)
      emit l (.call (some next) "__next__" 1)
      emit l (.copy (.named x) (.temp next))
      stmts body
      emit l (.jump again)
      emit l (.label out)
  | .breakLoop l =>
    if let target :: _ := (← get).breaks then emit l (.jump target)
  | .continueLoop l =>
    if let target :: _ := (← get).continues then emit l (.jump target)
  | .function f => function f
  | .giveBack value l =>
    let result ← match value with
      | some e => expr e
      | none => pure none
    emit l (.giveBack (result.map .temp))
  | .classDef x _ methods l =>
    let entry ← freshLabel ("class_" ++ x ++ "_")
    let out ← freshLabel ("class_" ++ x ++ "_end_")
    emit l (.jump out)
    emit l (.label entry)
    functions methods
    emit l (.label out)
  | .attempt body _ _ finalizer l =>
    let handler ← freshLabel "catch_"
    let finalLabel ← match finalizer with
      | some (_ :: _) => some <$> freshLabel "finally_"
      | _ => pure none
    let _ ← freshLabel "try_end_"
    emit l (.beginAttempt handler finalLabel)
    stmts body
    -- the end of an attempt has no slot for its line, so it cannot be laid down
    throw (.unknownSlot "TryEnd.__init__" "source_line")
  | .raiseError e l =>
    let value ← expr e
    emit l (.raiseError (operand value))
  | .importFile x l =>
    let t ← freshTemp
    emit l (.assign t (.scalar (.str x)))
    push l (some t)
    emit l (.call none "__import__" 1)
  | .foreign _ _ _ => pure ()
termination_by structural s

def stmts (ss : List Stmt) : Lower Unit := do
  match ss with
  | [] => pure ()
  | s :: ss =>
    stmt s
    stmts ss
termination_by structural ss

/-- The `agarlena` parts. A condition that fails leads to the next part, and from the last one to
`otherwise`. -/
def branches (line : Nat) (out otherwise : Label) (labels : List Label) (bs : List Branch) :
    Lower Unit := do
  match bs with
  | [] => pure ()
  | .mk c body :: bs =>
    emit line (.label (labels.headD otherwise))
    let condition ← expr c
    let inside ← freshLabel "elif_body_"
    emit line (.branch (operand condition) inside (labels.tail.headD otherwise))
    emit line (.label inside)
    stmts body
    emit line (.jump out)
    branches line out otherwise labels.tail bs
termination_by structural bs

def function (f : FunctionDef) : Lower Unit := do
  match f with
  | .mk x _ body l =>
    emit l (.function x)
    stmts body
    emit l (.giveBack none)
termination_by structural f

def functions (fs : List FunctionDef) : Lower Unit := do
  match fs with
  | [] => pure ()
  | f :: fs =>
    function f
    functions fs
termination_by structural fs

end

end Lower

/-- The state after a list of statements, with lambdas numbered from `lambdas` on, and the fault
that broke the lowering off. -/
def lowering (lambdas : Nat) (ss : List Stmt) : Lowering × Option Fault :=
  match Lower.stmts ss { lambdas } with
  | .ok _ s => (s, none)
  | .error f s => (s, some f)

/-- The code of a list of statements. When the lowering breaks off, the code up to there is kept. -/
def lowerStatements (ss : List Stmt) : List Instr × Option Fault :=
  let (s, fault?) := lowering 0 ss
  (s.code.toList, fault?)

def lower (p : Program) : List Instr × Option Fault :=
  lowerStatements p.statements

end Bhasha
