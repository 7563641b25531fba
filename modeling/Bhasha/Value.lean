import Bhasha.Bindings
import Bhasha.Number.Arithmetic
import Bhasha.Program

namespace Bhasha

/-- A function or method with the scope it was defined in. -/
structure Closure where
  name : String
  parameters : List String
  body : List Stmt
  scope : Nat

structure Lambda where
  parameters : List String
  body : Expr
  scope : Nat

inductive ClassValue
  | mk (name : String) (parent : Option ClassValue) (methods : Bindings Closure)

/-- The functions every program can call. -/
inductive Builtin
  | length
  | typeName
  | text
  | integer
  | double
  | range
  | absolute
  | minimum
  | maximum
  | total
  | append
  | pop
  | keys
  | values
deriving DecidableEq

/-- Lists, dictionaries and objects live in the heap and are known by their place there. -/
inductive Value
  | none
  | bool (b : Bool)
  | int (n : Int)
  /-- The mark tells one value that is not a number from another. -/
  | float (x : Float) (mark : Nat := 0)
  | str (s : String)
  | list (place : Nat)
  | dict (place : Nat)
  | function (f : Closure)
  | lambda (f : Lambda)
  | classValue (c : ClassValue)
  | object (place : Nat)
  | builtin (b : Builtin)

namespace Builtin

def all : List Builtin :=
  [length, typeName, text, integer, double, range, absolute, minimum, maximum, total, append, pop,
   keys, values]

/-- The name it is called by. -/
def word : Builtin → String
  | length => "lambai"
  | typeName => "prakar"
  | text => "shabd"
  | integer => "ank"
  | double => "dashamlav"
  | range => "disha"
  | absolute => "nirpeksha"
  | minimum => "nyuntam"
  | maximum => "adhiktam"
  | total => "yog"
  | append => "jodo"
  | pop => "nikalo"
  | keys => "kunji"
  | values => "mul"

/-- The name it has in messages. -/
def title : Builtin → String
  | length => "builtin_len"
  | typeName => "builtin_type"
  | text => "builtin_str"
  | integer => "builtin_int"
  | double => "builtin_float"
  | range => "builtin_range"
  | absolute => "builtin_abs"
  | minimum => "builtin_min"
  | maximum => "builtin_max"
  | total => "builtin_sum"
  | append => "builtin_append"
  | pop => "builtin_pop"
  | keys => "builtin_keys"
  | values => "builtin_values"

end Builtin

namespace Closure

def same (f g : Closure) : Bool :=
  f.name == g.name && f.parameters == g.parameters && Stmt.sameList f.body g.body &&
    f.scope == g.scope

end Closure

namespace Lambda

def same (f g : Lambda) : Bool :=
  f.parameters == g.parameters && f.body.same g.body && f.scope == g.scope

end Lambda

namespace ClassValue

def name : ClassValue → String
  | mk n _ _ => n

def parent : ClassValue → Option ClassValue
  | mk _ p _ => p

def methods : ClassValue → Bindings Closure
  | mk _ _ ms => ms

/-- A method of the class, or else of its nearest ancestor that has it. -/
def method? (x : String) : ClassValue → Option Closure
  | mk _ parent methods => match methods.find? x, parent with
    | some f, _ => some f
    | none, some p => p.method? x
    | none, none => none

/-- The same methods, in whatever order. -/
def sameMethods (ms ns : Bindings Closure) : Bool :=
  ms.length == ns.length &&
    ms.all fun (x, f) => match ns.find? x with
      | some g => f.same g
      | none => false

def same : ClassValue → ClassValue → Bool
  | mk n p ms, mk n' p' ms' =>
    n == n' && sameMethods ms ms' &&
      (match p, p' with
        | none, none => true
        | some p, some p' => p.same p'
        | _, _ => false)

end ClassValue

namespace Value

instance : Inhabited Value := ⟨none⟩

/-- The number a value is; truth values count as one and zero. -/
def num? : Value → Option Num
  | bool b => some (.int (if b then 1 else 0))
  | int n => some (.int n)
  | float x _ => some (.float x)
  | _ => Option.none

/-- The integer a value is; a double is none. -/
def int? : Value → Option Int
  | bool b => some (if b then 1 else 0)
  | int n => some n
  | _ => Option.none

/-- The type in messages. -/
def typeName : Value → String
  | none => "NoneType"
  | bool _ => "bool"
  | int _ => "int"
  | float _ _ => "float"
  | str _ => "str"
  | list _ => "list"
  | dict _ => "dict"
  | function _ => "UserFunction"
  | lambda _ => "Lambda"
  | classValue _ => "DesiClass"
  | object _ => "DesiInstance"
  | builtin _ => "function"

/-- The type as `prakar` tells it. -/
def describedType : Value → String
  | function _ | lambda _ => "function"
  | classValue _ => "class"
  | object _ => "object"
  | v => v.typeName

/-- Can the value be looked up in a dictionary? -/
def isHashable : Value → Bool
  | list _ | dict _ | function _ | lambda _ | classValue _ => false
  | _ => true

/-- Can the value be put into a dictionary as a key? -/
def isKey : Value → Bool
  | str _ | int _ | float _ _ | bool _ => true
  | _ => false

/-- One and the same value, not only an equal one. -/
def identical : Value → Value → Bool
  | list a, list b | dict a, dict b | object a, object b => a == b
  | float x m, float y n => Number.isNaN x && Number.isNaN y && m == n
  | _, _ => false

/-- Equality of values that are not lists or dictionaries. -/
def sameFlat : Value → Value → Bool
  | none, none => true
  | str s, str t => s == t
  | object a, object b => a == b
  | function f, function g => f.same g
  | lambda f, lambda g => f.same g
  | classValue c, classValue d => c.same d
  | builtin a, builtin b => a == b
  | v, w => match v.num?, w.num? with
    | some a, some b => a.same b
    | _, _ => false

/-- Equality of keys. -/
def sameKey (a b : Value) : Bool :=
  a.identical b || a.sameFlat b

end Value

end Bhasha
