import Bhasha.Program

namespace Bhasha

/-- One line on a node, without what is below it. -/
def Expr.summary : Expr → String
  | .literal .number v l => let text := v.text; s!"NumberNode({text}, line={l})"
  | .literal .string v l => let text := v.literal; s!"StringNode({text}, line={l})"
  | .literal .boolean v l => let text := v.text; s!"BooleanNode({text}, line={l})"
  | .list es l => let n := es.length; s!"ListNode({n} elements, line={l})"
  | .dict ps l => let n := ps.length; s!"DictNode({n} pairs, line={l})"
  | .var x l => s!"VariableNode({x}, line={l})"
  | .binary o _ _ l => let op := o.symbol; s!"BinaryOpNode({op}, line={l})"
  | .unary o _ l => let op := o.symbol; s!"UnaryOpNode({op}, line={l})"
  | .paren _ l => s!"ParenthesizedNode(..., line={l})"
  | .call x es l => let n := es.length; s!"FunctionCallNode({x}, args={n}, line={l})"
  | .lambda ps _ l => let n := ps.length; s!"LambdaNode(params={n}, line={l})"
  | .newObject x _ l => s!"NewObjectNode({x}, line={l})"
  | .method _ x _ l => s!"MethodCallNode(..., {x}, line={l})"
  | .property _ x l => s!"PropertyAccessNode(..., {x}, line={l})"
  | .thisObject l => s!"ThisNode(line={l})"
  | .superCall x _ l => s!"SuperNode({x}, line={l})"
  | .index _ _ l => s!"IndexNode(...[...], line={l})"
  | .foreign x _ l => s!"{x}(line={l})"

def FunctionDef.summary : FunctionDef → String
  | .mk x ps _ l => let n := ps.length; s!"FunctionDefNode({x}, params={n}, line={l})"

def Stmt.summary : Stmt → String
  | .expr e => e.summary
  | .assign x _ l => s!"AssignmentNode({x} = ..., line={l})"
  | .setProperty _ x _ l => s!"PropertyAssignmentNode(..., {x} = ..., line={l})"
  | .setIndex _ _ _ l => s!"IndexAssignmentNode(...[...] = ..., line={l})"
  | .print es l => let n := es.length; s!"PrintNode({n} args, line={l})"
  | .input x _ l => s!"InputNode({x}, line={l})"
  | .ifElse _ _ _ _ l => s!"IfNode(line={l})"
  | .whileLoop _ _ l => s!"WhileNode(line={l})"
  | .forLoop x _ _ l => s!"ForNode({x} in ..., line={l})"
  | .breakLoop l => s!"BreakNode(line={l})"
  | .continueLoop l => s!"ContinueNode(line={l})"
  | .function f => f.summary
  | .giveBack v l =>
    let value := if v.isSome then "with value" else "void"
    s!"ReturnNode({value}, line={l})"
  | .classDef x p _ l =>
    let parent := match p with
      | some q => if q.isEmpty then "" else s!" extends {q}"
      | none => ""
    s!"ClassDefNode({x}{parent}, line={l})"
  | .attempt _ _ _ _ l => s!"TryNode(line={l})"
  | .raiseError _ l => s!"ThrowNode(line={l})"
  | .importFile x l => s!"ImportNode({x}, line={l})"
  | .foreign x _ l => s!"{x}(line={l})"

def Program.summary (p : Program) : String :=
  let n := p.statements.length
  let l := p.line
  s!"ProgramNode({n} statements, line={l})"

mutual

def Expr.outline (e : Expr) : List String :=
  e.summary :: (match e with
  | .list es _ | .call _ es _ | .newObject _ es _ | .superCall _ es _ | .foreign _ es _ =>
    Expr.outlines es
  | .dict ps _ => Expr.outlinePairs ps
  | .binary _ a b _ => a.outline ++ b.outline
  | .unary _ a _ | .paren a _ | .lambda _ a _ | .property a _ _ => a.outline
  | .method a _ es _ => a.outline ++ Expr.outlines es
  | .index a i _ => a.outline ++ i.outline
  | .literal _ _ _ | .var _ _ | .thisObject _ => [])
termination_by structural e

def Expr.outlines : List Expr → List String
  | [] => []
  | e :: es => e.outline ++ Expr.outlines es
termination_by structural x => x

def Expr.outlinePairs : List (Expr × Expr) → List String
  | [] => []
  | (k, v) :: ps => k.outline ++ v.outline ++ Expr.outlinePairs ps
termination_by structural x => x

end

mutual

def Stmt.outline (s : Stmt) : List String :=
  match s with
  | .expr e => e.outline
  | .function f => f.outline
  | .assign _ e _ | .raiseError e _ => s.summary :: e.outline
  | .setProperty a _ e _ => s.summary :: a.outline ++ e.outline
  | .setIndex a i e _ => s.summary :: a.outline ++ i.outline ++ e.outline
  | .print es _ => s.summary :: Expr.outlines es
  | .input _ (some e) _ | .giveBack (some e) _ => s.summary :: e.outline
  | .input _ none _ | .giveBack none _ => [s.summary]
  | .ifElse c b bs e _ =>
    s.summary :: c.outline ++ Stmt.outlines b ++ Branch.outlines bs ++ (match e with
      | some e => Stmt.outlines e
      | none => [])
  | .whileLoop c b _ => s.summary :: c.outline ++ Stmt.outlines b
  | .forLoop _ e b _ => s.summary :: e.outline ++ Stmt.outlines b
  | .classDef _ _ fs _ => s.summary :: FunctionDef.outlines fs
  | .attempt b _ h f _ =>
    s.summary :: Stmt.outlines b ++ (match h with
      | some h => Stmt.outlines h
      | none => []) ++ (match f with
      | some f => Stmt.outlines f
      | none => [])
  | .foreign _ ss _ => s.summary :: Stmt.outlines ss
  | .breakLoop _ | .continueLoop _ | .importFile _ _ => [s.summary]
termination_by structural s

def Stmt.outlines : List Stmt → List String
  | [] => []
  | s :: ss => s.outline ++ Stmt.outlines ss
termination_by structural x => x

def Branch.outlines : List Branch → List String
  | [] => []
  | .mk c b :: bs => c.outline ++ Stmt.outlines b ++ Branch.outlines bs
termination_by structural x => x

def FunctionDef.outline (f : FunctionDef) : List String :=
  f.summary :: (match f with
  | .mk _ _ b _ => Stmt.outlines b)
termination_by structural f

def FunctionDef.outlines : List FunctionDef → List String
  | [] => []
  | f :: fs => f.outline ++ FunctionDef.outlines fs
termination_by structural x => x

end

def Program.outline (p : Program) : List String :=
  p.summary :: Stmt.outlines p.statements

end Bhasha
