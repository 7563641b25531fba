import Bhasha.Fault

namespace Bhasha

/-- The language diagnostics are written in. -/
inductive Lang
  | english
  | hindi
  | both
deriving DecidableEq

namespace Diagnostic

inductive Kind
  | general
  | lexer
  | parser
  | runtime
  | type
  | name
  | divisionByZero
  | index
  | member
  | fileAccess
  | moduleImport
  | recursion
  | user
  | lexerCollection
  | parserCollection
  | semantic
  | typeCheck
  | undefinedName
  | redefinition
deriving DecidableEq

namespace Kind

def title : Kind → String
  | general => "MeriLangError"
  | lexer => "LexerError"
  | parser => "ParserError"
  | runtime => "RuntimeError"
  | type => "TypeError"
  | name => "NameError"
  | divisionByZero => "DivisionByZeroError"
  | index => "IndexError"
  | member => "AttributeError"
  | fileAccess => "FileIOError"
  | moduleImport => "ImportError"
  | recursion => "RecursionError"
  | user => "UserException"
  | lexerCollection => "LexerErrorCollection"
  | parserCollection => "ParserErrorCollection"
  | semantic => "SemanticError"
  | typeCheck => "TypeCheckError"
  | undefinedName => "UndefinedNameError"
  | redefinition => "RedefinitionError"

/-- Errors of a running program: what `koshish` can catch. -/
def isRuntime : Kind → Bool
  | runtime | type | name | divisionByZero | index | member | fileAccess | moduleImport
  | recursion | user => true
  | _ => false

/-- Errors found before a program runs. -/
def isSemantic : Kind → Bool
  | semantic | typeCheck | undefinedName | redefinition => true
  | _ => false

end Kind

/-- The Hindi wording. The scanner puts a line number in its place. -/
inductive Wording
  | text (s : String)
  | number (n : Int)
deriving DecidableEq

def Wording.render : Wording → String
  | text s => s
  | number n => toString n

end Diagnostic

/-- An error of the language, worded in English and in Hindi. -/
structure Diagnostic where
  kind : Diagnostic.Kind
  en : String
  hi : Diagnostic.Wording
  line : Option Int := none
  column : Option Int := none
  suggestEn : Option String := none
  suggestHi : Option String := none
  /-- How many diagnostics a collection holds. -/
  count : Option Nat := none
deriving DecidableEq

namespace Diagnostic

def location (d : Diagnostic) : Option String :=
  d.line.map fun l => match d.column with
    | some c => s!"Line {l}, Column {c}"
    | none => s!"Line {l}"

def nonempty (s? : Option String) : Option String :=
  s?.filter fun s => !s.isEmpty

def suggestions (lang : Lang) (d : Diagnostic) : List String :=
  let en := (nonempty d.suggestEn).toList.map ("Suggestion: " ++ ·)
  let hi := (nonempty d.suggestHi).toList.map ("सुझाव: " ++ ·)
  match lang with
  | .english => en
  | .hindi => hi
  | .both => en ++ hi

def wording (lang : Lang) (d : Diagnostic) : String :=
  match lang with
  | .english => d.en
  | .hindi => d.hi.render
  | .both => d.en ++ "\n" ++ d.hi.render

def text (lang : Lang) (d : Diagnostic) : String :=
  ": ".intercalate (d.location.toList ++ d.wording lang :: d.suggestions lang)

/-- The text, or the fault of joining a number to text: a number in place of the Hindi wording can
only stand alone. -/
def format (lang : Lang) (d : Diagnostic) : Except Fault String :=
  match lang, d.hi with
  | .hindi, .number _ =>
    if d.location.isNone && (d.suggestions .hindi).isEmpty then .ok (d.text .hindi)
    else .error (.wordingNotText d.location.toList.length)
  | _, _ => .ok (d.text lang)

/-- A diagnostic worded in both languages. -/
def worded (kind : Kind) (en hi : String) (line : Option Nat) : Diagnostic :=
  { kind, en, hi := .text hi, line := line.map Int.ofNat }

/-- A diagnostic whose Hindi wording falls back on the English one. -/
def plain (kind : Kind) (en : String) (line : Option Nat) : Diagnostic :=
  worded kind en en line

/-- What the scanner reports at `line` and `column`: the column takes the place of the line, and the
line that of the Hindi wording. -/
def scanned (en : String) (line column : Nat) : Diagnostic :=
  { kind := .lexer, en, hi := .number line, line := some column }

def combined (lang : Lang) (ds : List Diagnostic) : String :=
  "\n".intercalate (ds.map (text lang))

def lexerCollection (lang : Lang) (ds : List Diagnostic) : Diagnostic :=
  let n := ds.length
  let all := combined lang ds
  { kind := .lexerCollection
    en := s!"{n} lexer error(s) found:\n{all}"
    hi := .text s!"लेक्सर में {n} त्रुटि(यां) मिलीं:\n{all}"
    count := some n }

def parserCollection (lang : Lang) (ds : List Diagnostic) : Diagnostic :=
  let n := ds.length
  let all := combined lang ds
  { kind := .parserCollection
    en := s!"{n} syntax error(s) found:\n{all}"
    hi := .text s!"पार्सर में {n} वाक्य-रचना त्रुटि(यां) मिलीं:\n{all}"
    count := some n }

/-- The "did you mean" suggestions; three names at most. -/
def didYouMean (d : Diagnostic) (names : List String) : Diagnostic :=
  if names.isEmpty then d else
  let list := ", ".intercalate (names.take 3)
  { d with suggestEn := some s!"Did you mean: {list}?"
           suggestHi := some s!"क्या आपका मतलब था: {list}?" }

def unexpectedToken (expected got : String) (line column : Nat) : Diagnostic :=
  { kind := .parser
    en := s!"Expected '{expected}', got '{got}'"
    hi := .text s!"अपेक्षित था '{expected}', मिला '{got}'"
    line := some line, column := some column }

def undefinedVariable (name : String) (line : Option Nat) : Diagnostic :=
  worded .name s!"Undefined variable or function: '{name}'"
    s!"अपरिभाषित वेरिएबल या फंक्शन: '{name}'" line

def undefinedName (name : String) (line : Option Nat) (similar : List String) : Diagnostic :=
  let d := worded .undefinedName s!"Undefined name: '{name}'" s!"अपरिभाषित नाम: '{name}'" line
  d.didYouMean similar

def redefinition (name : String) (firstLine line : Option Int) : Diagnostic :=
  let first := match firstLine with
    | some l => s!"line {l}"
    | none => "an earlier line"
  { kind := .redefinition
    en := s!"Name '{name}' is already defined (first declared at {first})"
    hi := .text s!"नाम '{name}' पहले से परिभाषित है ({first} पर पहली बार घोषित)"
    line
    suggestEn := some "Use a different name, or remove the duplicate declaration."
    suggestHi := some "एक अलग नाम उपयोग करें, या डुप्लिकेट घोषणा हटाएं।" }

def badOperands (op left right : String) (line : Option Int) : Diagnostic :=
  { kind := .typeCheck
    en := s!"Type error: cannot apply '{op}' to '{left}' and '{right}'"
    hi := .text s!"प्रकार त्रुटि: '{left}' और '{right}' पर '{op}' लागू नहीं किया जा सकता"
    line
    suggestEn := some "Convert values to compatible types before this operation."
    suggestHi := some "इस ऑपरेशन से पहले मानों को संगत प्रकारों में बदलें।" }

def badOperand (op operand : String) (line : Option Int) : Diagnostic :=
  { kind := .typeCheck
    en := s!"Type error: cannot apply unary '{op}' to '{operand}'"
    hi := .text s!"प्रकार त्रुटि: एकल '{op}' को '{operand}' पर लागू नहीं किया जा सकता"
    line }

end Diagnostic

/-- Why a scan or a parse broke off. -/
inductive Failure
  | diagnostic (d : Diagnostic)
  | fault (f : Fault)
deriving DecidableEq

end Bhasha
