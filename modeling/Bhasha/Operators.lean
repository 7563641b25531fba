import Bhasha.Heap.Comparison
import Bhasha.Heap.Printer
import Bhasha.Template

namespace Bhasha

namespace Work

def unsupported (op : BinaryOp) (a b : Value) : Work Value :=
  throw (.unsupported op.symbol a.typeName b.typeName)

def text (v : Value) : Work String := do
  ofExcept ((← get).text v)

def arithmetic (op : BinaryOp) (f : Num → Num → Except Fault Num) (a b : Value) : Work Value := do
  match a.num?, b.num? with
  | some x, some y => number (← ofExcept (f x y))
  | _, _ => unsupported op a b

/-- With a text on either side, the two are joined as text. -/
def add (a b : Value) : Work Value := do
  match a, b with
  | .str s, b => return .str (s ++ (← text b))
  | a, .str t => return .str ((← text a) ++ t)
  | .list i, .list j => do
    let h ← get
    newList (h.list i ++ h.list j)
  | a, b => arithmetic .add Num.add a b

/-- Lengths and counts fit in 63 bits. -/
def sizeLimit : Nat := 0x7fffffffffffffff

/-- What is longer than this does not fit in memory. It stands for the memory of the computer that
the program runs on, of which nothing else is known here. -/
def memoryLimit : Nat := 0x10000000

/-- How often something is repeated; less than once is not at all. -/
def repetitions (n : Int) : Work Nat :=
  if n < -(sizeLimit : Int) - 1 || (sizeLimit : Int) < n then throw .sizeTooWide
  else return n.toNat

def repeatText (s : String) (n : Int) : Work Value := do
  let count ← repetitions n
  let size := s.length * count
  if size = 0 then return .str ""
  if sizeLimit < size then throw .textTooLong
  if memoryLimit < size then throw .noMemory
  return .str (String.join (List.replicate count s))

def repeatList (vs : Array Value) (n : Int) : Work Value := do
  let count ← repetitions n
  let size := vs.size * count
  if size = 0 then newList #[]
  else if memoryLimit < size then throw .noMemory
  else newList (List.replicate count vs.toList).flatten.toArray

def multiply (a b : Value) : Work Value := do
  match a, b.int?, a.int?, b with
  | .str s, some n, _, _ | _, _, some n, .str s => repeatText s n
  | .list i, some n, _, _ | _, _, some n, .list i => repeatList ((← get).list i) n
  | a, _, _, b => arithmetic .multiply Num.mul a b

def isZero (v : Value) : Bool :=
  v.num?.elim false Num.isZero

/-- Doubles this close to zero do not divide. -/
def isNearZero : Value → Bool
  | .float x _ => x.abs < 1e-10
  | v => isZero v

def noDivision : Fault :=
  .unknownSlot "DivisionByZeroError.__init__" "message_en"

def divide (a b : Value) : Work Value :=
  if isNearZero b then throw noDivision else arithmetic .divide Num.div a b

def filler (h : Heap) (v : Value) : Template.Filler where
  text := h.text v
  literal := h.literal v
  number := v.num?
  string := match v with
    | .str s => some s
    | _ => none

/-- A dictionary gives a template its entries; a list has positions, and none of them is named. -/
def fillTemplate (template : String) (v : Value) : Work Value := do
  let h ← get
  let keyed : Option (String → Except Fault Template.Filler) := match v with
    | .dict i => some fun k => match (h.dict i).value? (.str k) with
      | some w => .ok (filler h w)
      | none => .error (.noKey k)
    | .list _ => some fun _ =>
      .error (.template .type "list indices must be integers or slices, not str")
    | _ => none
  return .str (← ofExcept (Template.fill template { whole := filler h v, keyed }))

def modulo (a b : Value) : Work Value :=
  if isZero b then throw noDivision else
  match a with
  | .str s => fillTemplate s b
  | a => arithmetic .modulo Num.mod a b

/-- The operators that look at both operands; `ya` and `aur` do not. -/
def binary (op : BinaryOp) (a b : Value) : Work Value := do
  match op with
  | .add => add a b
  | .subtract => arithmetic op Num.sub a b
  | .multiply => multiply a b
  | .divide => divide a b
  | .modulo => modulo a b
  | .equal => return .bool (← ofExcept ((← get).same a b))
  | .notEqual => return .bool (!(← ofExcept ((← get).same a b)))
  | op => return .bool (← ofExcept ((← get).ordered op a b))

end Work

end Bhasha
