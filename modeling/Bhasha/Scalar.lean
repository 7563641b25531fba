import Bhasha.Number.Shortest
import Bhasha.Text.Quoted

namespace Bhasha

/-- A value without parts: what a token carries and what a literal denotes. -/
inductive Scalar
  | none
  | bool (b : Bool)
  | int (n : Int)
  | float (x : Float)
  | str (s : String)
deriving BEq, Inhabited

namespace Scalar

def boolText (b : Bool) : String :=
  if b then "True" else "False"

/-- The scalar as plain text. -/
def text : Scalar → String
  | none => "None"
  | bool b => boolText b
  | int n => toString n
  | float x => Number.showDouble x
  | str s => s

/-- The scalar as a literal, with text in quotes. -/
def literal : Scalar → String
  | str s => Text.quoted s
  | v => v.text

def isNone : Scalar → Bool
  | none => true
  | _ => false

/-- Truth values count as the numbers one and zero. -/
def asInt? : Scalar → Option Int
  | bool b => some (if b then 1 else 0)
  | int n => some n
  | _ => Option.none

/-- Equality of values: numbers compare across their kinds. -/
def same : Scalar → Scalar → Bool
  | none, none => true
  | str s, str t => s == t
  | float x, float y => x == y
  | float x, v | v, float x => match v.asInt? with
    | some n => Number.compareInt n x == some .eq
    | Option.none => false
  | v, w => match v.asInt?, w.asInt? with
    | some m, some n => m == n
    | _, _ => false

end Scalar

end Bhasha
