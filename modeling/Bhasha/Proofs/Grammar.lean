import Bhasha.Program.Parser

namespace Bhasha

namespace TokenKind

/-- What a token of this kind says, where the kind leaves no choice. -/
def spelling : TokenKind → String
  | number | string | boolean | identifier | newline | eof => ""
  | start => "shuru" | finish => "khatam"
  | print => "likho" | input => "padho"
  | letVar => "maan"
  | ifKw => "agar" | elseKw => "warna" | elseIf => "agarlena" | whileKw => "jab_tak"
  | forKw => "bar_bar" | inKw => "in" | breakKw => "ruk" | continueKw => "age_badho"
  | function => "kaam" | returnKw => "wapas" | lambda => "lambada"
  | classKw => "class" | new => "naya" | this => "yeh" | extendsKw => "badhaao" | super => "upar"
  | tryKw => "koshish" | catchKw => "pakdo" | throwKw => "fenko" | finallyKw => "akhir"
  | and => "aur" | or => "ya" | not => "nahi"
  | plus => "+" | minus => "-" | multiply => "*" | divide => "/" | modulo => "%"
  | greater => ">" | less => "<" | greaterEqual => ">=" | lessEqual => "<="
  | equal => "==" | notEqual => "!="
  | assign => "="
  | lparen => "(" | rparen => ")" | lbrace => "\x7b" | rbrace => "\x7d"
  | lbracket => "[" | rbracket => "]" | comma => "," | dot => "." | colon => ":"

/-- How tightly a token binds to an expression before it: the tier of a binary operator, above all
of them what opens a call, an index or a member, and zero for what ends the expression. -/
def binding : TokenKind → Nat
  | or => 1
  | and => 2
  | equal | notEqual => 3
  | less | greater | lessEqual | greaterEqual => 4
  | plus | minus => 5
  | multiply | divide | modulo => 6
  | lparen | lbracket | dot => 8
  | _ => 0

/-- May a statement start with such a token? -/
def startsStatement : TokenKind → Bool
  | letVar | print | input | ifKw | whileKw | forKw | breakKw | continueKw | function | returnKw
  | classKw | tryKw | throwKw | identifier | this => true
  | _ => false

end TokenKind

/-- A token without its place. -/
abbrev Face := TokenKind × Scalar

namespace Token

def face (t : Token) : Face :=
  (t.kind, t.value)

/-- A token of kind `k` that says what such tokens say. -/
structure Is (k : TokenKind) (t : Token) : Prop where
  kind : t.kind = k
  value : t.value = .str k.spelling

/-- The identifier `x`. -/
structure Names (x : String) (t : Token) : Prop where
  kind : t.kind = .identifier
  value : t.value = .str x

/-- Does the token carry a value such as tokens of its kind carry? -/
def Fits (t : Token) : Prop :=
  match t.kind with
  | .number => (∃ n, t.value = .int n) ∨ ∃ x, t.value = .float x
  | .string | .identifier => ∃ s, t.value = .str s
  | .boolean => ∃ b, t.value = .bool b
  | .eof => t.value = .none
  | k => t.value = .str k.spelling

end Token

def LiteralKind.tokenKind : LiteralKind → TokenKind
  | number => .number
  | string => .string
  | boolean => .boolean

def BinaryOp.tokenKind? : BinaryOp → Option TokenKind
  | or => some .or
  | and => some .and
  | equal => some .equal
  | notEqual => some .notEqual
  | less => some .less
  | greater => some .greater
  | lessEqual => some .lessEqual
  | greaterEqual => some .greaterEqual
  | add => some .plus
  | subtract => some .minus
  | multiply => some .multiply
  | divide => some .divide
  | modulo => some .modulo
  | unknown _ => none

def UnaryOp.tokenKind? : UnaryOp → Option TokenKind
  | negate => some .minus
  | not => some .not
  | unknown _ => none

section

variable {α : Type} (R : α → List Token → Prop)

/-- Items with a comma before each. -/
inductive Following : List α → List Token → Prop
  | nil : Following [] []
  | cons {a as ts us} {comma : Token} : comma.Is .comma → R a ts → Following as us →
    Following (a :: as) (comma :: ts ++ us)

/-- One item or more, with commas between them. -/
inductive Separated : List α → List Token → Prop
  | mk {a as ts us} : R a ts → Following R as us → Separated (a :: as) (ts ++ us)

/-- Items with commas between them, and the parenthesis that closes them. -/
inductive Enclosed : List α → List Token → Prop
  | none {close : Token} : close.Is .rparen → Enclosed [] [close]
  | items {as ts} {close : Token} : Separated R as ts → close.Is .rparen →
    Enclosed as (ts ++ [close])

/-- Items of a literal up to the token that closes it; one comma more may stand before that. -/
inductive Listed (k : TokenKind) : List α → List Token → Prop
  | none {close : Token} : close.Is k → Listed k [] [close]
  | items {as ts} {close : Token} : Separated R as ts → close.Is k → Listed k as (ts ++ [close])
  | trailing {as ts} {comma close : Token} : Separated R as ts → comma.Is .comma → close.Is k →
    Listed k as (ts ++ [comma, close])

/-- Items in parentheses; if there are none, the parentheses may be missing. -/
inductive OptionallyEnclosed : List α → List Token → Prop
  | none : OptionallyEnclosed [] []
  | items {as ts} {opening : Token} : opening.Is .lparen → Enclosed R as ts →
    OptionallyEnclosed as (opening :: ts)

/-- Items one after another. -/
inductive Sequence : List α → List Token → Prop
  | nil : Sequence [] []
  | cons {a as ts us} : R a ts → Sequence as us → Sequence (a :: as) (ts ++ us)

/-- Items one after another, and the brace that closes them. -/
inductive Block : List α → List Token → Prop
  | close {t : Token} : t.Is .rbrace → Block [] [t]
  | cons {a as ts us} : R a ts → Block as us → Block (a :: as) (ts ++ us)

variable {R} {as : List α} {ts : List Token}

theorem Sequence.block {close : Token} (h : Sequence R as ts) (hc : close.Is .rbrace) :
    Block R as (ts ++ [close]) := by
  induction h with
  | nil => exact .close hc
  | cons ha _ ih =>
    rw [List.append_assoc]
    exact .cons ha ih

end

inductive NameSpelled : String → List Token → Prop
  | mk {x} {t : Token} : t.Names x → NameSpelled x [t]

/-- The parameters of a lambda. -/
inductive ParametersSpelled : List String → List Token → Prop
  | none : ParametersSpelled [] []
  | some {xs ts} : Separated NameSpelled xs ts → ParametersSpelled xs ts

mutual

/-- The line of a node is that of one token: of the operator, of what opens a call, an index or a
member behind an expression, and else of the first one. -/
inductive Expr.Spelled : Expr → List Token → Prop
  | literal {k} {t : Token} : t.kind = k.tokenKind → Expr.Spelled (.literal k t.value t.line) [t]
  | list {es ts} {t : Token} : t.Is .lbracket → Listed Expr.Spelled .rbracket es ts →
    Expr.Spelled (.list es t.line) (t :: ts)
  | dict {ps ts} {t : Token} : t.Is .lbrace → Listed PairSpelled .rbrace ps ts →
    Expr.Spelled (.dict ps t.line) (t :: ts)
  | var {x} {t : Token} : t.Names x → Expr.Spelled (.var x t.line) [t]
  | binary {op k a b ts us} {t : Token} : op.tokenKind? = some k → Expr.Spelled a ts → t.Is k →
    Expr.Spelled b us → Expr.Spelled (.binary op a b t.line) (ts ++ t :: us)
  | unary {op k a ts} {t : Token} : op.tokenKind? = some k → t.Is k → Expr.Spelled a ts →
    Expr.Spelled (.unary op a t.line) (t :: ts)
  | paren {a ts} {t close : Token} : t.Is .lparen → Expr.Spelled a ts → close.Is .rparen →
    Expr.Spelled (.paren a t.line) (t :: ts ++ [close])
  | call {x es ts} {name t : Token} : name.Names x → t.Is .lparen → Enclosed Expr.Spelled es ts →
    Expr.Spelled (.call x es t.line) (name :: t :: ts)
  | lambda {xs b ts us} {t colon : Token} : t.Is .lambda → ParametersSpelled xs ts →
    colon.Is .colon → Expr.Spelled b us →
    Expr.Spelled (.lambda xs b t.line) (t :: ts ++ colon :: us)
  | newObject {x es ts} {t name : Token} : t.Is .new → name.Names x →
    OptionallyEnclosed Expr.Spelled es ts →
    Expr.Spelled (.newObject x es t.line) (t :: name :: ts)
  | method {a x es ts us} {t name opening : Token} : Expr.Spelled a ts → t.Is .dot →
    name.Names x → opening.Is .lparen → Enclosed Expr.Spelled es us →
    Expr.Spelled (.method a x es t.line) (ts ++ t :: name :: opening :: us)
  | property {a x ts} {t name : Token} : Expr.Spelled a ts → t.Is .dot → name.Names x →
    Expr.Spelled (.property a x t.line) (ts ++ [t, name])
  | thisObject {t : Token} : t.Is .this → Expr.Spelled (.thisObject t.line) [t]
  | superCall {x es ts} {t dot name : Token} : t.Is .super → dot.Is .dot → name.Names x →
    OptionallyEnclosed Expr.Spelled es ts →
    Expr.Spelled (.superCall x es t.line) (t :: dot :: name :: ts)
  | index {a i ts us} {t close : Token} : Expr.Spelled a ts → t.Is .lbracket →
    Expr.Spelled i us → close.Is .rbracket →
    Expr.Spelled (.index a i t.line) (ts ++ t :: us ++ [close])

/-- An entry of a dict literal. -/
inductive PairSpelled : Expr × Expr → List Token → Prop
  | mk {k v ts us} {colon : Token} : Expr.Spelled k ts → colon.Is .colon → Expr.Spelled v us →
    PairSpelled (k, v) (ts ++ colon :: us)

end

/-- A block behind the keyword `k`, or nothing at all. -/
inductive OptionallyBraced {α : Type} (R : α → List Token → Prop) (k : TokenKind) :
    Option (List α) → List Token → Prop
  | none : OptionallyBraced R k none []
  | some {as ts} {t brace : Token} : t.Is k → brace.Is .lbrace → Block R as ts →
    OptionallyBraced R k (some as) (t :: brace :: ts)

/-- The parent of a class. -/
inductive ParentSpelled : Option String → List Token → Prop
  | none : ParentSpelled none []
  | some {x} {t name : Token} : t.Is .extendsKw → name.Names x → ParentSpelled (some x) [t, name]

/-- The name for a caught error. -/
inductive CaughtSpelled : Option String → List Token → Prop
  | none : CaughtSpelled none []
  | some {x} {name : Token} : name.Names x → CaughtSpelled (some x) [name]

mutual

inductive Stmt.Spelled : Stmt → List Token → Prop
  | call {x es ts} {name opening : Token} : name.Names x → opening.Is .lparen →
    Enclosed Expr.Spelled es ts →
    Stmt.Spelled (.expr (.call x es name.line)) (name :: opening :: ts)
  | method {x y es ts} {name dot member opening : Token} : name.Names x → dot.Is .dot →
    member.Names y → opening.Is .lparen → Enclosed Expr.Spelled es ts →
    Stmt.Spelled (.expr (.method (.var x name.line) y es name.line))
      (name :: dot :: member :: opening :: ts)
  | declare {x e ts} {t name equals : Token} : t.Is .letVar → name.Names x → equals.Is .assign →
    Expr.Spelled e ts → Stmt.Spelled (.assign x e t.line) (t :: name :: equals :: ts)
  | assign {x e ts} {name equals : Token} : name.Names x → equals.Is .assign →
    Expr.Spelled e ts → Stmt.Spelled (.assign x e name.line) (name :: equals :: ts)
  | setThis {x e ts} {t dot name equals : Token} : t.Is .this → dot.Is .dot → name.Names x →
    equals.Is .assign → Expr.Spelled e ts →
    Stmt.Spelled (.setProperty (.thisObject t.line) x e t.line) (t :: dot :: name :: equals :: ts)
  | setProperty {x y e ts} {name dot member equals : Token} : name.Names x → dot.Is .dot →
    member.Names y → equals.Is .assign → Expr.Spelled e ts →
    Stmt.Spelled (.setProperty (.var x name.line) y e name.line)
      (name :: dot :: member :: equals :: ts)
  | setIndex {x i e ts us} {name opening close equals : Token} : name.Names x →
    opening.Is .lbracket → Expr.Spelled i ts → close.Is .rbracket → equals.Is .assign →
    Expr.Spelled e us →
    Stmt.Spelled (.setIndex (.var x name.line) i e name.line)
      (name :: opening :: ts ++ close :: equals :: us)
  | print {es ts} {t opening : Token} : t.Is .print → opening.Is .lparen →
    Enclosed Expr.Spelled es ts → Stmt.Spelled (.print es t.line) (t :: opening :: ts)
  | input {x} {t name : Token} : t.Is .input → name.Names x →
    Stmt.Spelled (.input x none t.line) [t, name]
  | inputWith {x} {t name prompt : Token} : t.Is .input → name.Names x → prompt.kind = .string →
    Stmt.Spelled (.input x (some (.literal .string prompt.value prompt.line)) t.line)
      [t, name, prompt]
  | ifElse {e body branches otherwise ts us vs ws} {t brace : Token} : t.Is .ifKw →
    Expr.Spelled e ts → brace.Is .lbrace → Block Stmt.Spelled body us →
    Sequence Branch.Spelled branches vs → OptionallyBraced Stmt.Spelled .elseKw otherwise ws →
    Stmt.Spelled (.ifElse e body branches otherwise t.line) (t :: ts ++ brace :: us ++ vs ++ ws)
  | whileLoop {e body ts us} {t brace : Token} : t.Is .whileKw → Expr.Spelled e ts →
    brace.Is .lbrace → Block Stmt.Spelled body us →
    Stmt.Spelled (.whileLoop e body t.line) (t :: ts ++ brace :: us)
  | forLoop {x e body ts us} {t name word brace : Token} : t.Is .forKw → name.Names x →
    word.Is .inKw → Expr.Spelled e ts → brace.Is .lbrace → Block Stmt.Spelled body us →
    Stmt.Spelled (.forLoop x e body t.line) (t :: name :: word :: ts ++ brace :: us)
  | breakLoop {t : Token} : t.Is .breakKw → Stmt.Spelled (.breakLoop t.line) [t]
  | continueLoop {t : Token} : t.Is .continueKw → Stmt.Spelled (.continueLoop t.line) [t]
  | function {f ts} : FunctionDef.Spelled f ts → Stmt.Spelled (.function f) ts
  | giveBack {t : Token} : t.Is .returnKw → Stmt.Spelled (.giveBack none t.line) [t]
  | giveBackWith {e ts} {t : Token} : t.Is .returnKw → Expr.Spelled e ts →
    Stmt.Spelled (.giveBack (some e) t.line) (t :: ts)
  | classDef {x parent methods ts us} {t name brace : Token} : t.Is .classKw → name.Names x →
    ParentSpelled parent ts → brace.Is .lbrace → Block FunctionDef.Spelled methods us →
    Stmt.Spelled (.classDef x parent methods t.line) (t :: name :: ts ++ brace :: us)
  | attempt {body finalizer ts us} {t brace : Token} : t.Is .tryKw → brace.Is .lbrace →
    Block Stmt.Spelled body ts → OptionallyBraced Stmt.Spelled .finallyKw finalizer us →
    Stmt.Spelled (.attempt body none none finalizer t.line) (t :: brace :: ts ++ us)
  | attemptWith {body x? handler finalizer ts us vs ws} {t brace word brace' : Token} :
    t.Is .tryKw → brace.Is .lbrace → Block Stmt.Spelled body ts → word.Is .catchKw →
    CaughtSpelled x? us → brace'.Is .lbrace → Block Stmt.Spelled handler vs →
    OptionallyBraced Stmt.Spelled .finallyKw finalizer ws →
    Stmt.Spelled (.attempt body x? (some handler) finalizer t.line)
      (t :: brace :: ts ++ word :: us ++ brace' :: vs ++ ws)
  | raiseError {e ts} {t : Token} : t.Is .throwKw → Expr.Spelled e ts →
    Stmt.Spelled (.raiseError e t.line) (t :: ts)

inductive Branch.Spelled : Branch → List Token → Prop
  | mk {e body ts us} {t brace : Token} : t.Is .elseIf → Expr.Spelled e ts → brace.Is .lbrace →
    Block Stmt.Spelled body us → Branch.Spelled (.mk e body) (t :: ts ++ brace :: us)

inductive FunctionDef.Spelled : FunctionDef → List Token → Prop
  | mk {x xs body ts us} {t name opening brace : Token} : t.Is .function → name.Names x →
    opening.Is .lparen → Enclosed NameSpelled xs ts → brace.Is .lbrace →
    Block Stmt.Spelled body us →
    FunctionDef.Spelled (.mk x xs body t.line) (t :: name :: opening :: ts ++ brace :: us)

end

def BinaryOp.tier : BinaryOp → Nat
  | or => 1
  | and => 2
  | equal | notEqual => 3
  | less | greater | lessEqual | greaterEqual => 4
  | add | subtract => 5
  | multiply | divide | modulo => 6
  | unknown _ => 0

namespace Expr

/-- How tightly an expression holds together. -/
def tier : Expr → Nat
  | binary op _ _ _ => op.tier
  | unary _ _ _ => 7
  | _ => 8

/-- Does the expression end in a lambda without parentheses? The body of that would take in
whatever part of an expression follows. -/
def opens : Expr → Bool
  | binary _ _ b _ => b.opens
  | unary _ a _ => a.opens
  | lambda _ _ _ => true
  | _ => false

mutual

/-- Each operand holds together at least as tightly as its side of the operator asks, and nothing
follows an open lambda. -/
def grammatical : Expr → Bool
  | literal _ _ _ | var _ _ | thisObject _ => true
  | list es _ | call _ es _ | newObject _ es _ | superCall _ es _ => grammaticalAll es
  | dict ps _ => grammaticalPairs ps
  | binary op a b _ =>
    op.tokenKind?.isSome && a.grammatical && b.grammatical && op.tier ≤ a.tier &&
      op.tier < b.tier && !a.opens
  | unary op a _ => op.tokenKind?.isSome && a.grammatical && 7 ≤ a.tier
  | paren a _ => a.grammatical
  | lambda _ b _ => b.grammatical
  | method a _ es _ => a.grammatical && 8 ≤ a.tier && !a.opens && grammaticalAll es
  | property a _ _ => a.grammatical && 8 ≤ a.tier && !a.opens
  | index a i _ => a.grammatical && 8 ≤ a.tier && !a.opens && i.grammatical
  | foreign _ _ _ => false
termination_by structural e => e

def grammaticalAll : List Expr → Bool
  | [] => true
  | e :: es => e.grammatical && grammaticalAll es
termination_by structural es => es

def grammaticalPairs : List (Expr × Expr) → Bool
  | [] => true
  | (k, v) :: ps => k.grammatical && v.grammatical && grammaticalPairs ps
termination_by structural ps => ps

end

theorem grammaticalAll_iff {es : List Expr} :
    grammaticalAll es = true ↔ ∀ e ∈ es, e.grammatical = true := by
  induction es with
  | nil => simp [grammaticalAll]
  | cons e es ih => simp [grammaticalAll, ih]

theorem grammaticalPairs_iff {ps : List (Expr × Expr)} :
    grammaticalPairs ps = true ↔ ∀ p ∈ ps, p.1.grammatical = true ∧ p.2.grammatical = true := by
  induction ps with
  | nil => simp [grammaticalPairs]
  | cons p ps ih => simp [grammaticalPairs, ih]

end Expr

namespace Stmt

/-- A `wapas` without a value; an expression that follows it would become its value. -/
def isBare : Stmt → Bool
  | giveBack none _ => true
  | _ => false

end Stmt

mutual

/-- The statements that a parser builds. -/
def Stmt.grammatical : Stmt → Bool
  | .expr (.call _ es _) | .expr (.method (.var _ _) _ es _) => Expr.grammaticalAll es
  | .expr _ => false
  | .assign _ e _ => e.grammatical
  | .setProperty (.var _ _) _ e _ | .setProperty (.thisObject _) _ e _ => e.grammatical
  | .setProperty _ _ _ _ => false
  | .setIndex (.var _ _) i e _ => i.grammatical && e.grammatical
  | .setIndex _ _ _ _ => false
  | .print es _ => Expr.grammaticalAll es
  | .input _ none _ | .input _ (some (.literal .string _ _)) _ => true
  | .input _ (some _) _ => false
  | .ifElse e body bs otherwise _ =>
    e.grammatical && Stmt.grammaticalBlock body && Branch.grammaticalAll bs &&
      Stmt.grammaticalOption otherwise
  | .whileLoop e body _ => e.grammatical && Stmt.grammaticalBlock body
  | .forLoop _ e body _ => e.grammatical && Stmt.grammaticalBlock body
  | .breakLoop _ | .continueLoop _ => true
  | .function f => f.grammatical
  | .giveBack none _ => true
  | .giveBack (some e) _ => e.grammatical
  | .classDef _ _ fs _ => FunctionDef.grammaticalAll fs
  | .attempt body x? handler finalizer _ =>
    Stmt.grammaticalBlock body && (x?.isNone || handler.isSome) &&
      Stmt.grammaticalOption handler && Stmt.grammaticalOption finalizer
  | .raiseError e _ => e.grammatical
  | .importFile _ _ | .foreign _ _ _ => false
termination_by structural s => s

/-- A bare `wapas` only stands last. -/
def Stmt.grammaticalBlock : List Stmt → Bool
  | [] => true
  | s :: ss => s.grammatical && (!s.isBare || ss.isEmpty) && Stmt.grammaticalBlock ss
termination_by structural ss => ss

def Stmt.grammaticalOption : Option (List Stmt) → Bool
  | none => true
  | some ss => Stmt.grammaticalBlock ss
termination_by structural o => o

def Branch.grammatical : Branch → Bool
  | .mk e body => e.grammatical && Stmt.grammaticalBlock body
termination_by structural b => b

def Branch.grammaticalAll : List Branch → Bool
  | [] => true
  | b :: bs => b.grammatical && Branch.grammaticalAll bs
termination_by structural bs => bs

def FunctionDef.grammatical : FunctionDef → Bool
  | .mk _ _ body _ => Stmt.grammaticalBlock body
termination_by structural f => f

def FunctionDef.grammaticalAll : List FunctionDef → Bool
  | [] => true
  | f :: fs => f.grammatical && FunctionDef.grammaticalAll fs
termination_by structural fs => fs

end

end Bhasha
