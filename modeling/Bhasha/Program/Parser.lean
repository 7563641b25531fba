import Bhasha.Program
import Bhasha.Token.Scanner

namespace Bhasha

/-- What stands for the first token where there are none. -/
def Token.endMark : Token :=
  { kind := .eof, value := .str "" }

/-- A place in a list of tokens, with the syntax errors met so far. -/
structure Cursor where
  tokens : Array Token
  index : Nat := 0
  /-- The token that is looked at. -/
  current : Token
  errors : List Diagnostic := []
  /-- It is the one at the index; past the end of a list without end mark, the last one. -/
  stands : current = tokens.getD (min index (tokens.size - 1)) .endMark

namespace Cursor

def ofTokens (ts : List Token) : Cursor :=
  { tokens := ts.toArray, current := ts.headD .endMark, stands := by cases ts <;> rfl }

def atEnd (c : Cursor) : Bool :=
  c.current.kind == .eof

/-- The next token becomes the current one, and where there is none the last one stays it. -/
theorem stands_next (c : Cursor) : c.tokens[c.index + 1]?.getD c.current =
    c.tokens.getD (min (c.index + 1) (c.tokens.size - 1)) .endMark := by
  by_cases h : c.index + 1 < c.tokens.size
  · rw [Array.getElem?_eq_getElem h, Nat.min_eq_left (by omega), Array.getD_eq_getD_getElem?,
      Array.getElem?_eq_getElem h]
    rfl
  · rw [Array.getElem?_eq_none (by omega), Nat.min_eq_right (by omega), c.stands,
      Nat.min_eq_right (by omega)]
    rfl

/-- One token on, but never past an end mark. -/
def advanced (c : Cursor) : Cursor :=
  if c.atEnd then c
  else
    { c with
      index := c.index + 1
      current := c.tokens[c.index + 1]?.getD c.current
      stands := c.stands_next }

/-- The token `offset` places on. Past the end it is an end mark; before the start it counts from
the end. -/
def peek (c : Cursor) (offset : Int) : Except Fault Token :=
  let i := c.index + offset
  let n : Int := c.tokens.size
  let t := c.current
  let past : Token := { kind := .eof, value := .str "", line := t.line, column := t.column }
  if n ≤ i then .ok past
  else
    let j := if 0 ≤ i then i else i + n
    if j < 0 then .error .listIndex
    else match c.tokens[j.toNat]? with
      | some t => .ok t
      | none => .error .listIndex

/-- The token behind which the cursor stands; at the very front, the last one of the list. -/
def previous? (c : Cursor) : Option Token :=
  if c.index = 0 then c.tokens.back? else c.tokens[c.index - 1]?

/-- How many tokens can still be consumed. -/
def remaining (c : Cursor) : Nat :=
  c.tokens.size - c.index

end Cursor

/-- A step of the parser. A diagnostic is an error that it recovers from; a fault ends the parse. -/
abbrev Parse := EStateM Failure Cursor

namespace Parse

def current : Parse Token := do
  return (← get).current

def line : Parse Nat := do
  return (← get).current.line

def atEnd : Parse Bool := do
  return (← get).atEnd

def advance : Parse Token := do
  modify Cursor.advanced
  match (← get).previous? with
  | some t => return t
  | none => throw (.fault .listIndex)

def sees (k : TokenKind) : Parse Bool := do
  return (← current).kind == k

def seesAny (ks : List TokenKind) : Parse Bool := do
  return ks.contains (← current).kind

def expect (k : TokenKind) : Parse Token := do
  if ← sees k then advance else throw (.fault (.noMember "ParserError" "expected_token"))

/-- Consumes an identifier, or breaks off with `otherwise`. -/
def nameOr (otherwise : Fault) : Parse String := do
  let t ← current
  if t.kind == .identifier then
    let _ ← advance
    return t.value.text
  else throw (.fault otherwise)

def name : Parse String :=
  nameOr (.noMember "ParserError" "expected_identifier")

/-- A name behind a dot. -/
def memberName : Parse String :=
  nameOr (.unknownSlot "MeriLangError.__init__" "message")

/-- Each turn consumes a token, so that what remains of them is turns enough, here and in the loops
below. -/
def commaTail {α : Type} (item : Parse α) : Nat → List α → Parse (List α)
  | 0, _ => throw (.fault .outOfBudget)
  | n + 1, found => do
    if ← sees .comma then
      let _ ← advance
      commaTail item n ((← item) :: found)
    else return found.reverse

/-- One item or more, with commas between them. -/
def separated {α : Type} (item : Parse α) : Parse (List α) := do
  let first ← item
  commaTail item ((← get).remaining + 1) [first]

def commaTailUpTo {α : Type} (close : TokenKind) (item : Parse α) : Nat → List α → Parse (List α)
  | 0, _ => throw (.fault .outOfBudget)
  | n + 1, found => do
    if ← sees .comma then
      let _ ← advance
      if ← sees close then return found.reverse
      commaTailUpTo close item n ((← item) :: found)
    else return found.reverse

/-- Items up to `close`, which is consumed; a comma may stand behind the last one. -/
def literalItems {α : Type} (close : TokenKind) (item : Parse α) : Parse (List α) := do
  let items ←
    if ← sees close then pure []
    else
      let first ← item
      commaTailUpTo close item ((← get).remaining + 1) [first]
  let _ ← expect close
  return items

/-- Items with commas between them up to a closing parenthesis, which is consumed. -/
def enclosed {α : Type} (item : Parse α) : Parse (List α) := do
  let items ← if ← sees .rparen then pure [] else separated item
  let _ ← expect .rparen
  return items

def itemsUntil {α : Type} (close : TokenKind) (item : Parse α) : Nat → List α → Parse (List α)
  | 0, _ => throw (.fault .outOfBudget)
  | n + 1, found => do
    if ← sees close then return found.reverse
    else itemsUntil close item n ((← item) :: found)

/-- Items in braces. -/
def braced {α : Type} (item : Parse α) : Parse (List α) := do
  let _ ← expect .lbrace
  let items ← itemsUntil .rbrace item ((← get).remaining + 1) []
  let _ ← expect .rbrace
  return items

-- From here on `expr` is the parser for the expressions inside another one, and `stmt` that for the
-- statements inside a block.

def list (expr : Parse Expr) : Parse Expr := do
  let l ← line
  let _ ← expect .lbracket
  return .list (← literalItems .rbracket expr) l

def pair (expr : Parse Expr) : Parse (Expr × Expr) := do
  let key ← expr
  let _ ← expect .colon
  return (key, ← expr)

def dict (expr : Parse Expr) : Parse Expr := do
  let l ← line
  let _ ← expect .lbrace
  return .dict (← literalItems .rbrace (pair expr)) l

/-- Arguments in parentheses, or none at all. -/
def optionalArguments (expr : Parse Expr) : Parse (List Expr) := do
  if ← sees .lparen then
    let _ ← advance
    enclosed expr
  else return []

def newObject (expr : Parse Expr) : Parse Expr := do
  let l ← line
  let _ ← expect .new
  let className ← name
  return .newObject className (← optionalArguments expr) l

def lambda (expr : Parse Expr) : Parse Expr := do
  let l ← line
  let _ ← expect .lambda
  let parameters ← if ← sees .identifier then separated name else pure []
  let _ ← expect .colon
  return .lambda parameters (← expr) l

def superCall (expr : Parse Expr) : Parse Expr := do
  let l ← line
  let _ ← expect .super
  let _ ← expect .dot
  let method ← memberName
  return .superCall method (← optionalArguments expr) l

def primary (expr : Parse Expr) : Parse Expr := do
  let t ← current
  match t.kind with
  | .number => let _ ← advance; return .literal .number t.value t.line
  | .string => let _ ← advance; return .literal .string t.value t.line
  | .boolean => let _ ← advance; return .literal .boolean t.value t.line
  | .lbracket => list expr
  | .lbrace => dict expr
  | .new => newObject expr
  | .lambda => lambda expr
  | .this => let _ ← advance; return .thisObject t.line
  | .super => superCall expr
  | .identifier => let _ ← advance; return .var t.value.text t.line
  | .lparen =>
    let _ ← advance
    let inner ← expr
    let _ ← expect .rparen
    return .paren inner t.line
  | _ => throw (.diagnostic (.unexpectedToken "expression" t.value.text t.line t.column))

/-- Calls, indexes and members behind `e`. Only a name can be called. -/
def postfixes (expr : Parse Expr) : Nat → Expr → Parse Expr
  | 0, _ => throw (.fault .outOfBudget)
  | n + 1, e => do
    let t ← current
    match t.kind with
    | .lparen => match e with
      | .var x _ =>
        let _ ← advance
        postfixes expr n (.call x (← enclosed expr) t.line)
      | _ => throw (.fault (.unknownSlot "MeriLangError.__init__" "message"))
    | .lbracket =>
      let _ ← advance
      let i ← expr
      let _ ← expect .rbracket
      postfixes expr n (.index e i t.line)
    | .dot =>
      let _ ← advance
      let member ← memberName
      if ← sees .lparen then
        let _ ← advance
        postfixes expr n (.method e member (← enclosed expr) t.line)
      else postfixes expr n (.property e member t.line)
    | _ => return e

def applied (expr : Parse Expr) : Parse Expr := do
  let e ← primary expr
  postfixes expr ((← get).remaining + 1) e

def signs (expr : Parse Expr) : Nat → Parse Expr
  | 0 => throw (.fault .outOfBudget)
  | n + 1 => do
    let t ← current
    match t.kind with
    | .minus => let _ ← advance; return .unary .negate (← signs expr n) t.line
    | .not => let _ ← advance; return .unary .not (← signs expr n) t.line
    | _ => applied expr

def unary (expr : Parse Expr) : Parse Expr := do
  signs expr ((← get).remaining + 1)

/-- Operators among `ops` behind `left`, grouped to the left. -/
def chain (ops : List TokenKind) (operand : Parse Expr) : Nat → Expr → Parse Expr
  | 0, _ => throw (.fault .outOfBudget)
  | n + 1, left => do
    let t ← current
    if ops.contains t.kind then
      let _ ← advance
      let right ← operand
      chain ops operand n (.binary (operator t) left right t.line)
    else return left
where
  /-- The two logical operators go by their kind, the others by what the token says. -/
  operator (t : Token) : BinaryOp :=
    match t.kind with
    | .or => .or
    | .and => .and
    | _ => .ofSymbol t.value.text

def level (ops : List TokenKind) (operand : Parse Expr) : Parse Expr := do
  let left ← operand
  chain ops operand ((← get).remaining + 1) left

def multiplication (expr : Parse Expr) : Parse Expr :=
  level [.multiply, .divide, .modulo] (unary expr)

def addition (expr : Parse Expr) : Parse Expr :=
  level [.plus, .minus] (multiplication expr)

def comparison (expr : Parse Expr) : Parse Expr :=
  level [.less, .greater, .lessEqual, .greaterEqual] (addition expr)

def equality (expr : Parse Expr) : Parse Expr :=
  level [.equal, .notEqual] (comparison expr)

def conjunction (expr : Parse Expr) : Parse Expr :=
  level [.and] (equality expr)

def disjunction (expr : Parse Expr) : Parse Expr :=
  level [.or] (conjunction expr)

/-- Expressions nested less than `n` deep. -/
def expressionWithin : Nat → Parse Expr
  | 0 => throw (.fault .outOfBudget)
  | n + 1 => disjunction (expressionWithin n)

/-- An expression. Each level of nesting consumes a token, so what remains is levels enough. -/
def expression : Parse Expr := do
  expressionWithin ((← get).remaining + 1)

def declaration : Parse Stmt := do
  let l ← line
  let _ ← expect .letVar
  let x ← name
  let _ ← expect .assign
  return .assign x (← expression) l

def print : Parse Stmt := do
  let l ← line
  let _ ← expect .print
  let _ ← expect .lparen
  return .print (← enclosed expression) l

def input : Parse Stmt := do
  let l ← line
  let _ ← expect .input
  let x ← name
  let t ← current
  if t.kind == .string then
    let _ ← advance
    return .input x (some (.literal .string t.value t.line)) l
  else return .input x none l

def branches (stmt : Parse Stmt) : Nat → List Branch → Parse (List Branch)
  | 0, _ => throw (.fault .outOfBudget)
  | n + 1, found => do
    if ← sees .elseIf then
      let _ ← advance
      let condition ← expression
      let body ← braced stmt
      branches stmt n (.mk condition body :: found)
    else return found.reverse

/-- A block behind the keyword `k`, if that is there. -/
def optionalBlock (k : TokenKind) (stmt : Parse Stmt) : Parse (Option (List Stmt)) := do
  if ← sees k then
    let _ ← advance
    return some (← braced stmt)
  else return none

def conditional (stmt : Parse Stmt) : Parse Stmt := do
  let l ← line
  let _ ← expect .ifKw
  let condition ← expression
  let body ← braced stmt
  let others ← branches stmt ((← get).remaining + 1) []
  let otherwise ← optionalBlock .elseKw stmt
  return .ifElse condition body others otherwise l

def whileLoop (stmt : Parse Stmt) : Parse Stmt := do
  let l ← line
  let _ ← expect .whileKw
  let condition ← expression
  return .whileLoop condition (← braced stmt) l

def forLoop (stmt : Parse Stmt) : Parse Stmt := do
  let l ← line
  let _ ← expect .forKw
  let x ← name
  let _ ← expect .inKw
  let iterable ← expression
  return .forLoop x iterable (← braced stmt) l

def functionDef (stmt : Parse Stmt) : Parse FunctionDef := do
  let l ← line
  let _ ← expect .function
  let x ← name
  let _ ← expect .lparen
  let parameters ← enclosed name
  return .mk x parameters (← braced stmt) l

def giveBack : Parse Stmt := do
  let l ← line
  let _ ← expect .returnKw
  if ← seesAny [.rbrace, .eof] then return .giveBack none l
  else return .giveBack (some (← expression)) l

def methodDef (stmt : Parse Stmt) : Parse FunctionDef := do
  if ← sees .function then functionDef stmt
  else throw (.fault (.unknownSlot "ParserError.unexpected_token" "token"))

def classDef (stmt : Parse Stmt) : Parse Stmt := do
  let l ← line
  let _ ← expect .classKw
  let x ← name
  let parent ←
    if ← sees .extendsKw then
      let _ ← advance
      some <$> name
    else pure none
  return .classDef x parent (← braced (methodDef stmt)) l

def attempt (stmt : Parse Stmt) : Parse Stmt := do
  let l ← line
  let _ ← expect .tryKw
  let body ← braced stmt
  let (x, handler) ←
    if ← sees .catchKw then
      let _ ← advance
      let x ← if ← sees .identifier then some <$> name else pure none
      let handler ← braced stmt
      pure (x, some handler)
    else pure (none, none)
  let finalizer ← optionalBlock .finallyKw stmt
  return .attempt body x handler finalizer l

def raiseError : Parse Stmt := do
  let l ← line
  let _ ← expect .throwKw
  return .raiseError (← expression) l

/-- There is no keyword for an import. -/
def importFile : Parse Stmt :=
  throw (.fault (.noTokenKind "IMPORT"))

/-- A statement that starts with `yeh`: an assignment to a property. -/
def thisAssignment : Parse Stmt := do
  let l ← line
  let _ ← advance
  if ← sees .dot then
    let _ ← advance
    let x ← memberName
    let _ ← expect .assign
    return .setProperty (.thisObject l) x (← expression) l
  else throw (.fault (.unknownSlot "MeriLangError.__init__" "message"))

/-- A statement that starts with a name. -/
def named : Parse Stmt := do
  let l ← line
  let x ← name
  let t ← current
  match t.kind with
  | .dot =>
    let _ ← advance
    let member ← memberName
    if ← sees .lparen then
      let _ ← advance
      return .expr (.method (.var x l) member (← enclosed expression) l)
    let _ ← expect .assign
    return .setProperty (.var x l) member (← expression) l
  | .lbracket =>
    let _ ← advance
    let i ← expression
    let _ ← expect .rbracket
    let _ ← expect .assign
    return .setIndex (.var x l) i (← expression) l
  | .assign =>
    let _ ← advance
    return .assign x (← expression) l
  | .lparen =>
    let _ ← advance
    return .expr (.call x (← enclosed expression) l)
  | _ => throw (.fault (.unknownSlot "MeriLangError.__init__" "message"))

def assignmentOrExpression : Parse Stmt := do
  if ← sees .this then thisAssignment
  else if ← sees .identifier then named
  else return .expr (← expression)

def statementWith (stmt : Parse Stmt) : Parse Stmt := do
  let t ← current
  match t.kind with
  | .letVar => declaration
  | .print => print
  | .input => input
  | .ifKw => conditional stmt
  | .whileKw => whileLoop stmt
  | .forKw => forLoop stmt
  | .breakKw => let _ ← advance; return .breakLoop t.line
  | .continueKw => let _ ← advance; return .continueLoop t.line
  | .function => .function <$> functionDef stmt
  | .returnKw => giveBack
  | .classKw => classDef stmt
  | .tryKw => attempt stmt
  | .throwKw => raiseError
  | .identifier | .this => assignmentOrExpression
  | _ => throw (.fault (.unknownSlot "ParserError.unexpected_token" "token"))

/-- Statements nested less than `n` deep. -/
def statementWithin : Nat → Parse Stmt
  | 0 => throw (.fault .outOfBudget)
  | n + 1 => statementWith (statementWithin n)

def statement : Parse Stmt := do
  statementWithin ((← get).remaining + 1)

/-- Where parsing can go on after an error. -/
def boundaries : List TokenKind :=
  [.rbrace, .finish, .function, .classKw, .ifKw, .whileKw, .forKw, .tryKw, .eof]

def synchronizeWithin : Nat → Parse Unit
  | 0 => throw (.fault .outOfBudget)
  | n + 1 => do
    if ← atEnd then return
    if ← seesAny boundaries then
      if ← sees .finish then return
      let _ ← advance
    else
      let _ ← advance
      synchronizeWithin n

/-- Skips to a boundary and past it; `khatam` and the end of the tokens stay. -/
def synchronize : Parse Unit := do
  synchronizeWithin ((← get).remaining + 2)

/-- What becomes of a statement with a syntax error: the error is recorded, and parsing goes on
behind the next boundary. -/
def recover : Failure → Parse (Option Stmt)
  | .diagnostic d => do
    modify fun c => { c with errors := c.errors ++ [d] }
    synchronize
    return none
  | e => throw e

def statementsWithin : Nat → List Stmt → Parse (List Stmt)
  | 0, _ => throw (.fault .outOfBudget)
  | n + 1, found => do
    if ← atEnd then return found.reverse
    let s? ← tryCatch (some <$> statement) recover
    statementsWithin n (s?.toList ++ found)

/-- All statements up to the end. Syntax errors are collected on the way, and then fail together. -/
def program (lang : Lang) : Parse Program := do
  let statements ← statementsWithin ((← get).remaining + 2) []
  let c ← get
  if c.errors.isEmpty then return { statements }
  else throw (.diagnostic (.parserCollection lang c.errors))

end Parse

/-- The program that a list of tokens stands for. -/
def parseTokens (lang : Lang) (ts : List Token) : Except Failure Program :=
  match Parse.program lang (Cursor.ofTokens ts) with
  | .ok p _ => .ok p
  | .error e _ => .error e

/-- The program that a source text stands for. -/
def parse (lang : Lang) (source : String) : Except Failure Program := do
  parseTokens lang (← tokenize lang source)

end Bhasha
