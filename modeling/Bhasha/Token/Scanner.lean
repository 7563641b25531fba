import Bhasha.Diagnostic
import Bhasha.Number.Reading
import Bhasha.Text.Letter
import Bhasha.Token

namespace Bhasha

namespace Lexeme

open Text

/-- Digits, and behind a point more digits or none. -/
def number? (s : List Char) : Option (List Char) :=
  let whole := s.takeWhile isDecimal
  if whole.isEmpty then none else
  match s.dropWhile isDecimal with
  | '.' :: cs => some (whole ++ '.' :: cs.takeWhile isDecimal)
  | _ => some whole

def identifier? : List Char → Option (List Char)
  | c :: cs => if startsName c then some (c :: cs.takeWhile continuesName) else none
  | [] => none

def isGap (c : Char) : Bool :=
  c == ' ' || c == '\t'

def gap? (s : List Char) : Option (List Char) :=
  let cs := s.takeWhile isGap
  if cs.isEmpty then none else some cs

def newline? : List Char → Option (List Char)
  | '\n' :: _ => some ['\n']
  | _ => none

def comment? : List Char → Option (List Char)
  | '/' :: '/' :: cs => some ('/' :: '/' :: cs.takeWhile (· != '\n'))
  | _ => none

/-- The rest of a plain literal up to its quote `q`. Backslashes come in pairs, and each pair takes
the next character along. -/
def plainBody? (q : Char) : List Char → Option (List Char)
  | '\\' :: '\\' :: c :: cs =>
    if c == '\n' then none else (plainBody? q cs).map fun r => '\\' :: '\\' :: c :: r
  | c :: cs =>
    if c == q then some [c]
    else if c == '\\' then none
    else (plainBody? q cs).map (c :: ·)
  | [] => none

def plainString? : List Char → Option (List Char)
  | c :: cs => if c == '"' || c == '\'' then (plainBody? c cs).map (c :: ·) else none
  | [] => none

end Lexeme

/-- The classes of lexemes that can be asked for by name. -/
inductive LexemeClass
  | number | string | identifier | whitespace | newline | comment
deriving DecidableEq

namespace LexemeClass

def ofTitle? : String → Option LexemeClass
  | "NUMBER" => some number
  | "STRING" => some string
  | "IDENTIFIER" => some identifier
  | "WHITESPACE" => some whitespace
  | "NEWLINE" => some newline
  | "COMMENT" => some comment
  | _ => none

def match? : LexemeClass → List Char → Option (List Char)
  | number => Lexeme.number?
  | string => Lexeme.plainString?
  | identifier => Lexeme.identifier?
  | whitespace => Lexeme.gap?
  | newline => Lexeme.newline?
  | comment => Lexeme.comment?

end LexemeClass

/-- A place in a source text, with the illegal characters met so far. -/
structure Scanner where
  source : List Char
  rest : List Char
  pos : Nat := 0
  line : Nat := 1
  column : Nat := 1
  errors : List Diagnostic := []

/-- A step of the scanner; when it fails, the place where it failed remains. -/
abbrev Scan := EStateM Failure Scanner

namespace Scanner

def ofSource (source : List Char) : Scanner :=
  { source, rest := source }

def current? (s : Scanner) : Option Char :=
  s.rest.head?

/-- The character `offset` places on. Before the start of the source it counts from the end. -/
def peek? (s : Scanner) (offset : Int) : Except Fault (Option Char) :=
  let i := s.pos + offset
  let n : Int := s.source.length
  if n ≤ i then .ok none
  else if 0 ≤ i then .ok s.source[i.toNat]?
  else if 0 ≤ i + n then .ok s.source[(i + n).toNat]?
  else .error .stringIndex

/-- Past one character; at the end of the source, no move. -/
def next (s : Scanner) : Scanner :=
  match s.rest with
  | [] => s
  | c :: cs =>
    if c == '\n' then { s with rest := cs, pos := s.pos + 1, line := s.line + 1, column := 1 }
    else { s with rest := cs, pos := s.pos + 1, column := s.column + 1 }

def skip : Nat → Scanner → Scanner
  | 0, s => s
  | n + 1, s => skip n s.next

end Scanner

namespace Scan

def advance (n : Nat) : Scan Unit :=
  modify (Scanner.skip n)

def match? (c : LexemeClass) : Scan (Option (List Char)) := do
  return c.match? (← get).rest

/-- The diagnostic for the current place. Where its text cannot be put together, a fault. -/
def diagnose (lang : Lang) (message : String) : Scan Diagnostic := do
  let s ← get
  let d := Diagnostic.scanned message s.line s.column
  match d.format lang with
  | .ok _ => return d
  | .error f => throw (.fault f)

def fail {α : Type} (lang : Lang) (message : String) : Scan α := do
  throw (.diagnostic (← diagnose lang message))

/-- Notes an error and goes on behind the current character. -/
def record (lang : Lang) (message : String) : Scan Unit := do
  let d ← diagnose lang message
  modify fun s => { s with errors := s.errors ++ [d] }
  advance 1

def skipGap : Scan Unit := do
  match ← match? .whitespace with
  | some cs => advance cs.length
  | none => pure ()

def skipComment : Scan Unit := do
  match ← match? .comment with
  | some cs => advance cs.length
  | none => pure ()

def numberValue (lexeme : List Char) : Except Fault Scalar :=
  if lexeme.contains '.' then
    let part := (lexeme.dropWhile (· != '.')).drop 1
    let whole := lexeme.takeWhile (· != '.')
    let digits := Number.digitsValue (whole ++ part)
    .ok (.float (Number.ofDecimal false digits (-(part.length : Int))))
  else if Number.digitLimit < lexeme.length then .error (.longIntegerText lexeme.length)
  else .ok (.int (Number.digitsValue lexeme))

def number (lang : Lang) : Scan Token := do
  let s ← get
  match Lexeme.number? s.rest with
  | none => fail lang "Expected number"
  | some lexeme =>
    advance lexeme.length
    match numberValue lexeme with
    | .ok v => return { kind := .number, value := v, line := s.line, column := s.column }
    | .error f => throw (.fault f)

/-- What a character stands for behind a backslash; most stand for themselves. -/
def escaped : Char → Char
  | 'n' => '\n'
  | 't' => '\t'
  | 'r' => '\r'
  | '0' => '\x00'
  | c => c

/-- The characters of a string literal behind its opening quote, how many characters of the source
they take, and whether the closing quote follows. -/
def stringBody (quote : Char) : List Char → List Char × Nat × Bool
  | [] => ([], 0, false)
  | '\\' :: c :: cs =>
    let (r, n, closed) := stringBody quote cs
    (escaped c :: r, n + 2, closed)
  | c :: cs =>
    if c == quote then ([], 0, true)
    else if c == '\\' then ([], 1, false)
    else
      let (r, n, closed) := stringBody quote cs
      (c :: r, n + 1, closed)

def string (lang : Lang) : Scan Token := do
  let s ← get
  match s.rest with
  | [] => fail lang "Expected string"
  | quote :: cs =>
    if quote != '"' && quote != '\'' then fail lang "Expected string" else
    let (body, n, closed) := stringBody quote cs
    advance (n + 1)
    if closed then
      advance 1
      return { kind := .string, value := .str (String.ofList body), line := s.line
               column := s.column }
    else fail lang s!"Unterminated string (missing closing {quote})"

def word (lexeme : String) (line column : Nat) : Token :=
  match TokenKind.keywords.lookup lexeme with
  | some .boolean => { kind := .boolean, value := .bool (lexeme == "sach"), line, column }
  | some kind => { kind, value := .str lexeme, line, column }
  | none => { kind := .identifier, value := .str lexeme, line, column }

def identifier (lang : Lang) : Scan Token := do
  let s ← get
  match Lexeme.identifier? s.rest with
  | none => fail lang "Expected identifier"
  | some lexeme =>
    advance lexeme.length
    return word (String.ofList lexeme) s.line s.column

/-- The symbol at the front of a text: two characters if they make one. -/
def symbol? : List Char → Option (TokenKind × List Char)
  | c :: d :: _ => match TokenKind.ofPair? c d with
    | some kind => some (kind, [c, d])
    | none => (TokenKind.ofChar? c).map (·, [c])
  | [c] => (TokenKind.ofChar? c).map (·, [c])
  | [] => none

def unexpected : Option Char → String
  | some c => s!"Unexpected character: '{c}'"
  | none => "Unexpected character: 'None'"

def operator (lang : Lang) : Scan Token := do
  let s ← get
  match symbol? s.rest with
  | some (kind, lexeme) =>
    advance lexeme.length
    return { kind, value := .str (String.ofList lexeme), line := s.line, column := s.column }
  | none => fail lang (unexpected s.current?)

/-- One turn of the scan: a token, or something that makes none. An illegal character is noted and
passed over. -/
def turn (lang : Lang) : Scan (Option Token) := do
  skipGap
  match (← get).rest with
  | [] => return none
  | '/' :: '/' :: _ => skipComment; return none
  | '\n' :: _ => advance 1; return none
  | c :: cs =>
    if Text.isDigit c then some <$> number lang
    else if c == '"' || c == '\'' then some <$> string lang
    else if Text.opensWord c then some <$> identifier lang
    else if (symbol? (c :: cs)).isSome then some <$> operator lang
    else record lang (unexpected (some c)); return none

/-- Turn after turn up to the end of the source. Every turn consumes a character, so the length of
the rest is turns enough. -/
def turns (lang : Lang) : Nat → List Token → Scan (List Token)
  | 0, found => return found.reverse
  | n + 1, found => do
    if (← get).rest.isEmpty then return found.reverse
    match ← turn lang with
    | some t => turns lang n (t :: found)
    | none => turns lang n found

/-- The tokens of the rest of the source and the end mark, whatever was noted on the way. -/
def allTokens (lang : Lang) : Scan (List Token) := do
  let found ← turns lang (← get).rest.length []
  let s ← get
  return found ++ [{ kind := .eof, line := s.line, column := s.column }]

/-- As `allTokens`, failing at the end if there is an illegal character. -/
def tokens (lang : Lang) : Scan (List Token) := do
  let ts ← allTokens lang
  let s ← get
  if s.errors.isEmpty then return ts
  else throw (.diagnostic (Diagnostic.lexerCollection lang s.errors))

end Scan

/-- The tokens of a source text. -/
def tokenize (lang : Lang) (source : String) : Except Failure (List Token) :=
  match Scan.tokens lang (Scanner.ofSource source.toList) with
  | .ok ts _ => .ok ts
  | .error e _ => .error e

/-- The tokens of a source text beside the illegal characters that were passed over. -/
def tokenizeSafe (lang : Lang) (source : String) : Except Failure (List Token × List Diagnostic) :=
  match Scan.allTokens lang (Scanner.ofSource source.toList) with
  | .ok ts s => .ok (ts, s.errors)
  | .error e _ => .error e

end Bhasha
