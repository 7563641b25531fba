import Bhasha.Program

namespace Bhasha

mutual

/-- Does `q` hold of the expression and of every expression in it? -/
def Expr.every (q : Expr → Bool) (e : Expr) : Bool :=
  q e && match e with
    | .literal _ _ _ | .var _ _ | .thisObject _ => true
    | .list es _ | .call _ es _ | .newObject _ es _ | .superCall _ es _ | .foreign _ es _ =>
      Expr.everyAll q es
    | .dict ps _ => Expr.everyPair q ps
    | .binary _ a b _ | .index a b _ => a.every q && b.every q
    | .unary _ a _ | .paren a _ | .lambda _ a _ | .property a _ _ => a.every q
    | .method a _ es _ => a.every q && Expr.everyAll q es
termination_by structural e

def Expr.everyAll (q : Expr → Bool) (es : List Expr) : Bool :=
  match es with
  | [] => true
  | e :: es => e.every q && Expr.everyAll q es
termination_by structural es

def Expr.everyPair (q : Expr → Bool) (ps : List (Expr × Expr)) : Bool :=
  match ps with
  | [] => true
  | (k, v) :: ps => k.every q && v.every q && Expr.everyPair q ps
termination_by structural ps

end

mutual

/-- Does `r` hold of the statement and of every statement in it, and `q` of every expression? -/
def Stmt.every (q : Expr → Bool) (r : Stmt → Bool) (s : Stmt) : Bool :=
  r s && match s with
    | .expr e | .assign _ e _ | .raiseError e _ => e.every q
    | .setProperty a _ e _ => a.every q && e.every q
    | .setIndex a i e _ => a.every q && i.every q && e.every q
    | .print es _ => Expr.everyAll q es
    | .input _ e? _ | .giveBack e? _ => e?.all (Expr.every q)
    | .ifElse e body bs otherwise _ =>
      e.every q && Stmt.everyAll q r body && Branch.everyAll q r bs &&
        Stmt.everyOption q r otherwise
    | .whileLoop e body _ | .forLoop _ e body _ => e.every q && Stmt.everyAll q r body
    | .breakLoop _ | .continueLoop _ | .importFile _ _ => true
    | .function f => f.every q r
    | .classDef _ _ fs _ => FunctionDef.everyAll q r fs
    | .attempt body _ handler finalizer _ =>
      Stmt.everyAll q r body && Stmt.everyOption q r handler && Stmt.everyOption q r finalizer
    | .foreign _ ss _ => Stmt.everyAll q r ss
termination_by structural s

def Stmt.everyAll (q : Expr → Bool) (r : Stmt → Bool) (ss : List Stmt) : Bool :=
  match ss with
  | [] => true
  | s :: ss => s.every q r && Stmt.everyAll q r ss
termination_by structural ss

def Stmt.everyOption (q : Expr → Bool) (r : Stmt → Bool) (ss? : Option (List Stmt)) : Bool :=
  match ss? with
  | none => true
  | some ss => Stmt.everyAll q r ss
termination_by structural ss?

def Branch.everyAll (q : Expr → Bool) (r : Stmt → Bool) (bs : List Branch) : Bool :=
  match bs with
  | [] => true
  | .mk e body :: bs => e.every q && Stmt.everyAll q r body && Branch.everyAll q r bs
termination_by structural bs

def FunctionDef.every (q : Expr → Bool) (r : Stmt → Bool) (f : FunctionDef) : Bool :=
  match f with
  | .mk _ _ body _ => Stmt.everyAll q r body
termination_by structural f

def FunctionDef.everyAll (q : Expr → Bool) (r : Stmt → Bool) (fs : List FunctionDef) : Bool :=
  match fs with
  | [] => true
  | f :: fs => f.every q r && FunctionDef.everyAll q r fs
termination_by structural fs

end

end Bhasha
