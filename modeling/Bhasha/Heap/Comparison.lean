import Bhasha.Heap

namespace Bhasha

/-- What an order relation says of each of the three cases. -/
def BinaryOp.holds : BinaryOp → Ordering → Bool
  | .less, o => o == .lt
  | .greater, o => o == .gt
  | .lessEqual, o => o != .gt
  | .greaterEqual, o => o != .lt
  | _, _ => false

namespace Heap

/-- Lists are equal item by item, dictionaries key by key. An item is always equal to itself. -/
def sameWithin (h : Heap) : (fuel : Nat) → Value → Value → Except Fault Bool
  | 0, _, _ => .error .endlessComparison
  | fuel + 1, .list i, .list j =>
    let xs := h.list i
    let ys := h.list j
    if xs.size != ys.size then .ok false
    else (xs.toList.zip ys.toList).allM fun (x, y) =>
      if x.identical y then .ok true else h.sameWithin fuel x y
  | fuel + 1, .dict i, .dict j =>
    let d := h.dict i
    let e := h.dict j
    if d.size != e.size then .ok false
    else d.toList.allM fun (k, v) => match e.value? k with
      | some w => if v.identical w then .ok true else h.sameWithin fuel v w
      | none => .ok false
  | _, a, b => .ok (a.sameFlat b)

def same (h : Heap) (a b : Value) : Except Fault Bool :=
  h.sameWithin (h.depth + 1) a b

/-- The first items in which two lists differ. -/
def firstDifference (h : Heap) : List Value → List Value → Except Fault (Option (Value × Value))
  | x :: xs, y :: ys => do
    if x.identical y || (← h.same x y) then h.firstDifference xs ys
    else return some (x, y)
  | _, _ => return none

/-- Numbers, texts and lists can be compared, lists by the first items in which they differ. -/
def orderedWithin (h : Heap) (op : BinaryOp) : (fuel : Nat) → Value → Value → Except Fault Bool
  | 0, _, _ => .error .endlessComparison
  | _, .str s, .str t => .ok (op.holds (compare s t))
  | fuel + 1, .list i, .list j => do
    let xs := h.list i
    let ys := h.list j
    match ← h.firstDifference xs.toList ys.toList with
    | some (x, y) => h.orderedWithin op fuel x y
    | none => return op.holds (compare xs.size ys.size)
  | _, a, b => match a.num?, b.num? with
    | some x, some y => .ok ((x.compare y).elim false op.holds)
    | _, _ => .error (.notOrdered op.symbol a.typeName b.typeName)

def ordered (h : Heap) (op : BinaryOp) (a b : Value) : Except Fault Bool :=
  h.orderedWithin op (h.depth + 1) a b

end Heap

end Bhasha
