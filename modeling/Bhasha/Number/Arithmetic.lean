import Bhasha.Fault
import Bhasha.Number.Double

/-! Arithmetic on integers of any size and doubles. Two integers stay exact; as soon as a double
takes part, the integer is rounded to one. -/

namespace Bhasha

inductive Num
  | int (n : Int)
  | float (x : Float)

namespace Num

def toDouble : Num → Except Fault Float
  | int n => match Number.ofInt? n with
    | some x => .ok x
    | none => .error .intTooLarge
  | float x => .ok x

def combine (exact : Int → Int → Int) (rounded : Float → Float → Float) :
    Num → Num → Except Fault Num
  | int a, int b => .ok (int (exact a b))
  | a, b => do return float (rounded (← a.toDouble) (← b.toDouble))

def add : Num → Num → Except Fault Num :=
  combine (· + ·) (· + ·)

def sub : Num → Num → Except Fault Num :=
  combine (· - ·) (· - ·)

def mul : Num → Num → Except Fault Num :=
  combine (· * ·) (· * ·)

/-- The remainder has the sign of the divisor. -/
def mod : Num → Num → Except Fault Num :=
  combine Int.fmod Number.flooredMod

/-- The quotient is always a double. -/
def div : Num → Num → Except Fault Num
  | int a, int b => match Number.intQuotient? a b with
    | some x => .ok (float x)
    | none => .error .quotientTooLarge
  | a, b => do return float ((← a.toDouble) / (← b.toDouble))

def neg : Num → Num
  | int n => int (-n)
  | float x => float (-x)

def abs : Num → Num
  | int n => int n.natAbs
  | float x => float x.abs

def isZero : Num → Bool
  | int n => n == 0
  | float x => x == 0

/-- Exact, also between the two kinds; there is no order with what is not a number. -/
def compare : Num → Num → Option Ordering
  | int a, int b => some (Ord.compare a b)
  | int a, float y => Number.compareInt a y
  | float x, int b => (Number.compareInt b x).map Ordering.swap
  | float x, float y => Number.compareDouble x y

def same (a b : Num) : Bool :=
  a.compare b == some .eq

end Num

end Bhasha
