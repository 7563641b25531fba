import Bhasha.Bindings
import Bhasha.Fault

namespace Bhasha

/-- What is known of a value before a program runs. -/
inductive Tag
  | number | string | bool | list | dict | function | classTag | none
  /-- Anything at all; switches the checks off. -/
  | any
  | custom (s : String)
deriving DecidableEq

namespace Tag

def title : Tag → String
  | number => "number"
  | string => "string"
  | bool => "bool"
  | list => "list"
  | dict => "dict"
  | function => "function"
  | classTag => "class"
  | none => "none"
  | any => "any"
  | custom s => s

def ofTitle (s : String) : Tag :=
  let t? := [number, string, bool, list, dict, function, classTag, none, any].find? fun t =>
    t.title == s
  t?.getD (custom s)

end Tag

inductive SymbolKind
  | var | parameter | function | classKind
deriving DecidableEq

namespace SymbolKind

def title : SymbolKind → String
  | .var => "VARIABLE"
  | .parameter => "PARAMETER"
  | .function => "FUNCTION"
  | .classKind => "CLASS"

def ofTitle? (s : String) : Option SymbolKind :=
  [SymbolKind.var, .parameter, .function, .classKind].find? fun k => k.title == s

end SymbolKind

structure Symbol where
  name : String
  kind : SymbolKind
  tag : Tag
  line : Nat
  arity : Option Nat := none
deriving DecidableEq

/-- The scopes open at one place of a program, the innermost first. -/
structure SymbolTable where
  inner : Bindings Symbol := []
  outer : List (Bindings Symbol) := []
deriving DecidableEq

namespace SymbolTable

def depth (t : SymbolTable) : Nat :=
  t.outer.length

def define (t : SymbolTable) (s : Symbol) : SymbolTable :=
  { t with inner := t.inner.bind s.name s }

def resolveLocal? (t : SymbolTable) (x : String) : Option Symbol :=
  t.inner.find? x

def resolve? (t : SymbolTable) (x : String) : Option Symbol :=
  (t.inner :: t.outer).findSome? (·.find? x)

def enter (t : SymbolTable) : SymbolTable :=
  { outer := t.inner :: t.outer }

def exit (t : SymbolTable) : Except Fault SymbolTable :=
  match t.outer with
  | [] => .error .atRootScope
  | b :: bs => .ok { inner := b, outer := bs }

/-- All visible names, the innermost first. A name that hides another stands there twice. -/
def allNames (t : SymbolTable) : List String :=
  (t.inner :: t.outer).flatMap Bindings.names

def localNames (t : SymbolTable) : List String :=
  t.inner.names

def render (t : SymbolTable) : String :=
  let depth := t.depth
  let names := ", ".intercalate t.localNames
  s!"SymbolTable(depth={depth}, local=[{names}])"

end SymbolTable

end Bhasha
