import Bhasha.Scalar

namespace Bhasha

inductive BinaryOp
  | or | and
  | equal | notEqual
  | less | greater | lessEqual | greaterEqual
  | add | subtract
  | multiply | divide | modulo
  /-- A symbol without a meaning; only trees that were not parsed hold one. -/
  | unknown (symbol : String)
deriving DecidableEq

namespace BinaryOp

def symbol : BinaryOp → String
  | or => "ya"
  | and => "aur"
  | equal => "=="
  | notEqual => "!="
  | less => "<"
  | greater => ">"
  | lessEqual => "<="
  | greaterEqual => ">="
  | add => "+"
  | subtract => "-"
  | multiply => "*"
  | divide => "/"
  | modulo => "%"
  | unknown s => s

def known : List BinaryOp :=
  [or, and, equal, notEqual, less, greater, lessEqual, greaterEqual, add, subtract, multiply,
   divide, modulo]

def ofSymbol (s : String) : BinaryOp :=
  (known.find? fun op => op.symbol == s).getD (unknown s)

end BinaryOp

inductive UnaryOp
  | negate
  | not
  | unknown (symbol : String)
deriving DecidableEq

namespace UnaryOp

def symbol : UnaryOp → String
  | negate => "-"
  | not => "nahi"
  | unknown s => s

def ofSymbol (s : String) : UnaryOp :=
  if s == "-" then negate else if s == "nahi" then not else unknown s

end UnaryOp

inductive LiteralKind
  | number
  | string
  | boolean
deriving DecidableEq

inductive Expr
  | literal (kind : LiteralKind) (value : Scalar) (line : Nat)
  | list (elements : List Expr) (line : Nat)
  | dict (pairs : List (Expr × Expr)) (line : Nat)
  | var (name : String) (line : Nat)
  | binary (op : BinaryOp) (left right : Expr) (line : Nat)
  | unary (op : UnaryOp) (operand : Expr) (line : Nat)
  | paren (inner : Expr) (line : Nat)
  | call (name : String) (arguments : List Expr) (line : Nat)
  | lambda (parameters : List String) (body : Expr) (line : Nat)
  | newObject (className : String) (arguments : List Expr) (line : Nat)
  | method (object : Expr) (name : String) (arguments : List Expr) (line : Nat)
  | property (object : Expr) (name : String) (line : Nat)
  | thisObject (line : Nat)
  | superCall (name : String) (arguments : List Expr) (line : Nat)
  | index (object index : Expr) (line : Nat)
  /-- A node of a class that is not one of these; nothing but its class, its line and the
  expressions below it is known. -/
  | foreign (className : String) (parts : List Expr) (line : Nat)

mutual

inductive Stmt
  | expr (e : Expr)
  | assign (name : String) (value : Expr) (line : Nat)
  | setProperty (object : Expr) (name : String) (value : Expr) (line : Nat)
  | setIndex (object index value : Expr) (line : Nat)
  | print (arguments : List Expr) (line : Nat)
  | input (name : String) (prompt : Option Expr) (line : Nat)
  | ifElse (condition : Expr) (thenBody : List Stmt) (branches : List Branch)
      (elseBody : Option (List Stmt)) (line : Nat)
  | whileLoop (condition : Expr) (body : List Stmt) (line : Nat)
  | forLoop (name : String) (iterable : Expr) (body : List Stmt) (line : Nat)
  | breakLoop (line : Nat)
  | continueLoop (line : Nat)
  | function (f : FunctionDef)
  | giveBack (value : Option Expr) (line : Nat)
  | classDef (name : String) (parent : Option String) (methods : List FunctionDef) (line : Nat)
  | attempt (body : List Stmt) (name : Option String) (handler : Option (List Stmt))
      (finalizer : Option (List Stmt)) (line : Nat)
  | raiseError (value : Expr) (line : Nat)
  | importFile (name : String) (line : Nat)
  /-- As `Expr.foreign`, with statements below it. -/
  | foreign (className : String) (parts : List Stmt) (line : Nat)

/-- An `agarlena` part of a conditional. -/
inductive Branch
  | mk (condition : Expr) (body : List Stmt)

inductive FunctionDef
  | mk (name : String) (parameters : List String) (body : List Stmt) (line : Nat)

end

namespace FunctionDef

def name : FunctionDef → String
  | mk n _ _ _ => n

def parameters : FunctionDef → List String
  | mk _ ps _ _ => ps

def body : FunctionDef → List Stmt
  | mk _ _ b _ => b

def line : FunctionDef → Nat
  | mk _ _ _ l => l

end FunctionDef

structure Program where
  statements : List Stmt
  line : Nat := 1

mutual

def Expr.same : Expr → Expr → Bool
  | .literal k v l, .literal k' v' l' => k == k' && v.same v' && l == l'
  | .list es l, .list es' l' => Expr.sameList es es' && l == l'
  | .dict ps l, .dict ps' l' => Expr.samePairs ps ps' && l == l'
  | .var x l, .var x' l' => x == x' && l == l'
  | .binary o a b l, .binary o' a' b' l' => o == o' && a.same a' && b.same b' && l == l'
  | .unary o a l, .unary o' a' l' => o == o' && a.same a' && l == l'
  | .paren a l, .paren a' l' => a.same a' && l == l'
  | .call x es l, .call x' es' l' => x == x' && Expr.sameList es es' && l == l'
  | .lambda ps a l, .lambda ps' a' l' => ps == ps' && a.same a' && l == l'
  | .newObject x es l, .newObject x' es' l' => x == x' && Expr.sameList es es' && l == l'
  | .method a x es l, .method a' x' es' l' =>
    a.same a' && x == x' && Expr.sameList es es' && l == l'
  | .property a x l, .property a' x' l' => a.same a' && x == x' && l == l'
  | .thisObject l, .thisObject l' => l == l'
  | .superCall x es l, .superCall x' es' l' => x == x' && Expr.sameList es es' && l == l'
  | .index a i l, .index a' i' l' => a.same a' && i.same i' && l == l'
  | .foreign x es l, .foreign x' es' l' => x == x' && Expr.sameList es es' && l == l'
  | _, _ => false
termination_by structural x => x

def Expr.sameList : List Expr → List Expr → Bool
  | [], [] => true
  | e :: es, e' :: es' => e.same e' && Expr.sameList es es'
  | _, _ => false
termination_by structural x => x

def Expr.samePairs : List (Expr × Expr) → List (Expr × Expr) → Bool
  | [], [] => true
  | (k, v) :: ps, (k', v') :: ps' => k.same k' && v.same v' && Expr.samePairs ps ps'
  | _, _ => false
termination_by structural x => x

end

def Expr.same? : Option Expr → Option Expr → Bool
  | none, none => true
  | some e, some e' => e.same e'
  | _, _ => false

mutual

def Stmt.same : Stmt → Stmt → Bool
  | .expr e, .expr e' => e.same e'
  | .assign x e l, .assign x' e' l' => x == x' && e.same e' && l == l'
  | .setProperty a x e l, .setProperty a' x' e' l' =>
    a.same a' && x == x' && e.same e' && l == l'
  | .setIndex a i e l, .setIndex a' i' e' l' =>
    a.same a' && i.same i' && e.same e' && l == l'
  | .print es l, .print es' l' => Expr.sameList es es' && l == l'
  | .input x p l, .input x' p' l' => x == x' && Expr.same? p p' && l == l'
  | .ifElse c b bs e l, .ifElse c' b' bs' e' l' =>
    c.same c' && Stmt.sameList b b' && Branch.sameList bs bs' && Stmt.sameOption e e' && l == l'
  | .whileLoop c b l, .whileLoop c' b' l' => c.same c' && Stmt.sameList b b' && l == l'
  | .forLoop x e b l, .forLoop x' e' b' l' =>
    x == x' && e.same e' && Stmt.sameList b b' && l == l'
  | .breakLoop l, .breakLoop l' => l == l'
  | .continueLoop l, .continueLoop l' => l == l'
  | .function f, .function f' => f.same f'
  | .giveBack e l, .giveBack e' l' => Expr.same? e e' && l == l'
  | .classDef x p fs l, .classDef x' p' fs' l' =>
    x == x' && p == p' && FunctionDef.sameList fs fs' && l == l'
  | .attempt b x h f l, .attempt b' x' h' f' l' =>
    Stmt.sameList b b' && x == x' && Stmt.sameOption h h' && Stmt.sameOption f f' && l == l'
  | .raiseError e l, .raiseError e' l' => e.same e' && l == l'
  | .importFile x l, .importFile x' l' => x == x' && l == l'
  | .foreign x ss l, .foreign x' ss' l' => x == x' && Stmt.sameList ss ss' && l == l'
  | _, _ => false
termination_by structural x => x

def Stmt.sameList : List Stmt → List Stmt → Bool
  | [], [] => true
  | s :: ss, s' :: ss' => s.same s' && Stmt.sameList ss ss'
  | _, _ => false
termination_by structural x => x

def Stmt.sameOption : Option (List Stmt) → Option (List Stmt) → Bool
  | none, none => true
  | some b, some b' => Stmt.sameList b b'
  | _, _ => false
termination_by structural x => x

def Branch.same : Branch → Branch → Bool
  | .mk c b, .mk c' b' => c.same c' && Stmt.sameList b b'
termination_by structural x => x

def Branch.sameList : List Branch → List Branch → Bool
  | [], [] => true
  | b :: bs, b' :: bs' => b.same b' && Branch.sameList bs bs'
  | _, _ => false
termination_by structural x => x

def FunctionDef.same : FunctionDef → FunctionDef → Bool
  | .mk x ps b l, .mk x' ps' b' l' => x == x' && ps == ps' && Stmt.sameList b b' && l == l'
termination_by structural x => x

def FunctionDef.sameList : List FunctionDef → List FunctionDef → Bool
  | [], [] => true
  | f :: fs, f' :: fs' => f.same f' && FunctionDef.sameList fs fs'
  | _, _ => false
termination_by structural x => x

end

namespace Expr

def line : Expr → Nat
  | literal _ _ l | list _ l | dict _ l | var _ l | binary _ _ _ l | unary _ _ l | paren _ l
  | call _ _ l | lambda _ _ l | newObject _ _ l | method _ _ _ l | property _ _ l | thisObject l
  | superCall _ _ l | index _ _ l | foreign _ _ l => l

end Expr

namespace Stmt

def line : Stmt → Nat
  | expr e => e.line
  | function f => f.line
  | assign _ _ l | setProperty _ _ _ l | setIndex _ _ _ l | print _ l | input _ _ l
  | ifElse _ _ _ _ l | whileLoop _ _ l | forLoop _ _ _ l | breakLoop l | continueLoop l
  | giveBack _ l | classDef _ _ _ l | attempt _ _ _ _ l | raiseError _ l | importFile _ l
  | foreign _ _ l => l

end Stmt

end Bhasha
