import Bhasha.Scalar

namespace Bhasha

inductive TokenKind
  | number | string | boolean | identifier
  | start | finish
  | print | input
  | letVar
  | ifKw | elseKw | elseIf | whileKw | forKw | inKw | breakKw | continueKw
  | function | returnKw | lambda
  | classKw | new | this | extendsKw | super
  | tryKw | catchKw | throwKw | finallyKw
  | and | or | not
  | plus | minus | multiply | divide | modulo
  | greater | less | greaterEqual | lessEqual | equal | notEqual
  | assign
  | lparen | rparen | lbrace | rbrace | lbracket | rbracket | comma | dot | colon
  | newline | eof
deriving DecidableEq

namespace TokenKind

def title : TokenKind → String
  | number => "NUMBER" | string => "STRING" | boolean => "BOOLEAN" | identifier => "IDENTIFIER"
  | start => "START" | finish => "END"
  | print => "PRINT" | input => "INPUT"
  | letVar => "LET"
  | ifKw => "IF" | elseKw => "ELSE" | elseIf => "ELSEIF" | whileKw => "WHILE" | forKw => "FOR"
  | inKw => "IN" | breakKw => "BREAK" | continueKw => "CONTINUE"
  | function => "FUNCTION" | returnKw => "RETURN" | lambda => "LAMBDA"
  | classKw => "CLASS" | new => "NEW" | this => "THIS" | extendsKw => "EXTENDS" | super => "SUPER"
  | tryKw => "TRY" | catchKw => "CATCH" | throwKw => "THROW" | finallyKw => "FINALLY"
  | and => "AND" | or => "OR" | not => "NOT"
  | plus => "PLUS" | minus => "MINUS" | multiply => "MULTIPLY" | divide => "DIVIDE"
  | modulo => "MODULO"
  | greater => "GREATER" | less => "LESS" | greaterEqual => "GREATER_EQUAL"
  | lessEqual => "LESS_EQUAL" | equal => "EQUAL" | notEqual => "NOT_EQUAL"
  | assign => "ASSIGN"
  | lparen => "LPAREN" | rparen => "RPAREN" | lbrace => "LBRACE" | rbrace => "RBRACE"
  | lbracket => "LBRACKET" | rbracket => "RBRACKET" | comma => "COMMA" | dot => "DOT"
  | colon => "COLON"
  | newline => "NEWLINE" | eof => "EOF"

def all : List TokenKind :=
  [number, string, boolean, identifier, start, finish, print, input, letVar, ifKw, elseKw, elseIf,
   whileKw, forKw, inKw, breakKw, continueKw, function, returnKw, lambda, classKw, new, this,
   extendsKw, super, tryKw, catchKw, throwKw, finallyKw, and, or, not, plus, minus, multiply,
   divide, modulo, greater, less, greaterEqual, lessEqual, equal, notEqual, assign, lparen, rparen,
   lbrace, rbrace, lbracket, rbracket, comma, dot, colon, newline, eof]

def ofTitle? (s : String) : Option TokenKind :=
  all.find? fun k => k.title == s

/-- The words that are not names. -/
def keywords : List (String × TokenKind) :=
  [("shuru", start), ("khatam", finish), ("likho", print), ("padho", input), ("maan", letVar),
   ("agar", ifKw), ("warna", elseKw), ("agarlena", elseIf), ("jab_tak", whileKw),
   ("bar_bar", forKw), ("in", inKw), ("ruk", breakKw), ("age_badho", continueKw),
   ("kaam", function), ("wapas", returnKw), ("lambada", lambda), ("sach", boolean),
   ("jhoot", boolean), ("aur", and), ("ya", or), ("nahi", not), ("class", classKw), ("naya", new),
   ("yeh", this), ("badhaao", extendsKw), ("upar", super), ("koshish", tryKw), ("pakdo", catchKw),
   ("fenko", throwKw), ("akhir", finallyKw)]

def ofPair? : Char → Char → Option TokenKind
  | '=', '=' => some equal
  | '!', '=' => some notEqual
  | '>', '=' => some greaterEqual
  | '<', '=' => some lessEqual
  | _, _ => none

def ofChar? : Char → Option TokenKind
  | '+' => some plus
  | '-' => some minus
  | '*' => some multiply
  | '/' => some divide
  | '%' => some modulo
  | '>' => some greater
  | '<' => some less
  | '=' => some assign
  | '(' => some lparen
  | ')' => some rparen
  | '{' => some lbrace
  | '}' => some rbrace
  | '[' => some lbracket
  | ']' => some rbracket
  | ',' => some comma
  | '.' => some dot
  | ':' => some colon
  | _ => none

end TokenKind

structure Token where
  kind : TokenKind
  value : Scalar := .none
  line : Nat := 1
  column : Nat := 1
deriving BEq

namespace Token

def render (t : Token) : String :=
  let kind := t.kind.title
  let line := t.line
  let column := t.column
  match t.value with
  | .none => s!"Token({kind}, line={line}, col={column})"
  | v =>
    let value := v.literal
    s!"Token({kind}, {value}, line={line}, col={column})"

end Token

end Bhasha
