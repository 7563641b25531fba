import Bhasha.Diagnostic
import Bhasha.Operators

namespace Bhasha

/-- A call of one of them ends in a value, a diagnostic or a fault. -/
abbrev Apply := EStateM Failure Heap

namespace Builtin

def work {α : Type} (w : Work α) : Apply α := fun h =>
  match w h with
  | .ok a h => .ok a h
  | .error f h => .error (.fault f) h

def fault {α : Type} (f : Fault) : Apply α :=
  throw (.fault f)

/-- The wrong type of argument. -/
def refuse {α : Type} (message : String) : Apply α :=
  throw (.diagnostic (.plain .type message (some 0)))

/-- The arguments that must be given, and how many more may be; none if any number may. -/
def parameters : Builtin → Option (List String × Nat)
  | length | typeName | text | integer | double => some (["obj"], 0)
  | range => some (["start"], 2)
  | absolute => some (["num"], 0)
  | minimum | maximum => none
  | total => some (["items"], 0)
  | append => some (["lst", "item"], 0)
  | pop => some (["lst"], 1)
  | keys | values => some (["d"], 0)

def countText (least more : Nat) : String :=
  let plural := if least == 1 && more == 0 then "" else "s"
  let most := least + more
  if more == 0 then s!"{least} positional argument{plural}"
  else s!"from {least} to {most} positional argument{plural}"

def checkCount (b : Builtin) (given : Nat) : Option Fault :=
  match b.parameters with
  | none => none
  | some (names, more) =>
    if given < names.length then some (.missingArguments b.title (names.drop given))
    else if names.length + more < given then
      some (.tooManyArguments b.title (countText names.length more) given)
    else none

def lengthOf : Value → Apply Value
  | .str s => return .int s.length
  | .list i => return .int ((← get).list i).size
  | .dict i => return .int ((← get).dict i).size
  | v => let type := v.typeName; refuse s!"len() not supported for {type}"

def toText : Value → Apply Value
  | .bool b => return .str (if b then "sach" else "jhoot")
  | v => return .str (← work (Work.text v))

def noConversion {α : Type} (v : Value) (target : String) : Apply α :=
  let type := v.typeName
  refuse s!"Cannot convert {type} to {target}"

def toInteger (v : Value) : Apply Value :=
  match v with
  | .int _ => return v
  | .bool b => return .int (if b then 1 else 0)
  | .float x _ => match Number.parts x with
    | .infinite _ => fault .infinityToInt
    | _ => match Number.truncate? x with
      | some n => return .int n
      | none => noConversion v "int"
  | .str s => match Number.readInt s.toList with
    | .value n => return .int n
    | _ => noConversion v "int"
  | v => noConversion v "int"

def toDouble (v : Value) : Apply Value :=
  match v with
  | .float _ _ => return v
  | .str s => match Number.readDouble? s.toList with
    | some x => work (Work.number (.float x))
    | none => noConversion v "float"
  | v => match v.num? with
    | some n => work do Work.number (.float (← Work.ofExcept n.toDouble))
    | none => noConversion v "float"

/-- An argument that has to be an integer. -/
def index (v : Value) : Apply Int :=
  match v.int? with
  | some n => return n
  | none => fault (.notInteger v.typeName)

def rangeCount (start stop step : Int) : Nat :=
  if 0 < step then ((stop - start + step - 1) / step).toNat
  else ((start - stop - step - 1) / -step).toNat

def rangeList (start stop step : Int) : Apply Value := do
  if step = 0 then fault .zeroStep
  let count := rangeCount start stop step
  if Work.sizeLimit < count then fault .indexTooWide
  if Work.memoryLimit < count then fault .noMemory
  work (Work.newList ((Array.range count).map fun (k : Nat) => .int (start + step * k)))

/-- One bound counts from zero up to it. -/
def rangeOf (start stop step : Value) : Apply Value := do
  match stop with
  | .none => rangeList 0 (← index start) 1
  | stop =>
    let a ← index start
    let b ← index stop
    rangeList a b (← index step)

def absoluteOf (v : Value) : Apply Value :=
  match v.num? with
  | some n => work (Work.number n.abs)
  | none => let type := v.typeName; refuse s!"abs() requires number, got {type}"

/-- A single list stands for its items. -/
def itemsOf (h : Heap) : List Value → List Value
  | [.list i] => (h.list i).toList
  | vs => vs

/-- The first item that none of the others comes before. -/
def extreme (op : BinaryOp) (name : String) (args : List Value) : Apply Value := do
  let h ← get
  match itemsOf h args with
  | [] => fault (.emptySequence name)
  | v :: vs => vs.foldlM (fun best x => do
      return if ← work (Work.ofExcept (h.ordered op x best)) then x else best) v

/-- The items are added from left to right. Once a double takes part, each sum is rounded before the
next item is added. -/
def sumOf (v : Value) : Apply Value := do
  match v with
  | .list i =>
    let n ← ((← get).list i).toList.foldlM (fun (sum : Num) x => match x.num? with
      | some n => work (Work.ofExcept (sum.add n))
      | none =>
        let type := match sum with
          | .int _ => "int"
          | .float _ => "float"
        fault (.unsupported "+" type x.typeName)) (.int 0)
    work (Work.number n)
  | v => let type := v.typeName; refuse s!"sum() requires list, got {type}"

def appendTo (v item : Value) : Apply Value := do
  match v with
  | .list i =>
    work (Work.setList i (·.push item))
    return .none
  | v => let type := v.typeName; refuse s!"append() requires list, got {type}"

/-- The position that an index means in a sequence of `size` items; negative ones count from the
end. -/
def position? (size : Nat) (n : Int) : Option Nat :=
  let i := if n < 0 then n + size else n
  if 0 ≤ i && i < size then some i.toNat else none

def popFrom (v place : Value) : Apply Value := do
  match v with
  | .list i =>
    let n ← index place
    if n < -(Work.sizeLimit : Int) - 1 || (Work.sizeLimit : Int) < n then fault .indexTooWide
    let items := (← get).list i
    match position? items.size n with
    | some k =>
      work (Work.setList i (·.eraseIdxIfInBounds k))
      return items.getD k .none
    | none => fault (.unknownSlot "IndexError.__init__" "message_en")
  | v => let type := v.typeName; refuse s!"pop() requires list, got {type}"

def entriesOf (name : String) (part : Value × Value → Value) (v : Value) : Apply Value := do
  match v with
  | .dict i => work (Work.newList (((← get).dict i).map part))
  | v => let type := v.typeName; refuse s!"{name}() requires dict, got {type}"

def apply (b : Builtin) (args : List Value) : Apply Value := do
  if let some f := b.checkCount args.length then fault f
  let arg (n : Nat) (default : Value) := args.getD n default
  let v := arg 0 .none
  match b with
  | length => lengthOf v
  | typeName => return .str v.describedType
  | text => toText v
  | integer => toInteger v
  | double => toDouble v
  | range => rangeOf v (arg 1 .none) (arg 2 (.int 1))
  | absolute => absoluteOf v
  | minimum => extreme .less "min" args
  | maximum => extreme .greater "max" args
  | total => sumOf v
  | append => appendTo v (arg 1 .none)
  | pop => popFrom v (arg 1 (.int (-1)))
  | keys => entriesOf "keys" (·.1) v
  | values => entriesOf "values" (·.2) v

end Builtin

end Bhasha
