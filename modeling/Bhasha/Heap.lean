import Bhasha.Value

namespace Bhasha

/-- Keys and values in the order in which the keys came; equal keys meet in the first of them. -/
abbrev Dict := Array (Value × Value)

namespace Dict

def position? (d : Dict) (key : Value) : Option Nat :=
  d.findIdx? fun e => e.1.sameKey key

def value? (d : Dict) (key : Value) : Option Value :=
  (d.find? fun e => e.1.sameKey key).map (·.2)

def insert (d : Dict) (key value : Value) : Dict :=
  match d.position? key with
  | some i => d.modify i fun e => (e.1, value)
  | none => d.push (key, value)

def ofPairs (ps : List (Value × Value)) : Dict :=
  ps.foldl (fun d (k, v) => d.insert k v) #[]

end Dict

structure Object where
  classValue : ClassValue
  properties : Bindings Value := []

/-- The lists, dictionaries and objects of a run. -/
structure Heap where
  lists : Array (Array Value) := #[]
  dicts : Array Dict := #[]
  objects : Array Object := #[]
  /-- How many values that are not numbers were made. -/
  marks : Nat := 0
deriving Inhabited

namespace Heap

def list (h : Heap) (i : Nat) : Array Value :=
  h.lists.getD i #[]

def dict (h : Heap) (i : Nat) : Dict :=
  h.dicts.getD i #[]

def object? (h : Heap) (i : Nat) : Option Object :=
  h.objects[i]?

/-- How deep values can be nested that do not contain themselves. -/
def depth (h : Heap) : Nat :=
  h.lists.size + h.dicts.size + 1

def isTrue (h : Heap) : Value → Bool
  | .none => false
  | .bool b => b
  | .int n => n != 0
  | .float x _ => x != 0
  | .str s => !s.isEmpty
  | .list i => !(h.list i).isEmpty
  | .dict i => !(h.dict i).isEmpty
  | _ => true

end Heap

/-- Computations on the heap. -/
abbrev Work := EStateM Fault Heap

namespace Work

def newList (vs : Array Value) : Work Value :=
  modifyGet fun h => (.list h.lists.size, { h with lists := h.lists.push vs })

def newDict (d : Dict) : Work Value :=
  modifyGet fun h => (.dict h.dicts.size, { h with dicts := h.dicts.push d })

def newObject (c : ClassValue) : Work Value :=
  modifyGet fun h =>
    (.object h.objects.size, { h with objects := h.objects.push { classValue := c } })

def setList (i : Nat) (f : Array Value → Array Value) : Work Unit :=
  modify fun h => { h with lists := h.lists.modify i f }

def setDict (i : Nat) (f : Dict → Dict) : Work Unit :=
  modify fun h => { h with dicts := h.dicts.modify i f }

def setProperty (i : Nat) (x : String) (v : Value) : Work Unit :=
  modify fun h =>
    { h with objects := h.objects.modify i fun o => { o with properties := o.properties.bind x v } }

/-- A number as a value; each result that is not a number is one of its own. -/
def number : Num → Work Value
  | .int n => return .int n
  | .float x =>
    if Number.isNaN x then modifyGet fun h => (.float x h.marks, { h with marks := h.marks + 1 })
    else return .float x

def scalar : Scalar → Work Value
  | .none => return .none
  | .bool b => return .bool b
  | .int n => return .int n
  | .float x => number (.float x)
  | .str s => return .str s

def ofExcept {α : Type} : Except Fault α → Work α
  | .ok a => return a
  | .error f => throw f

end Work

end Bhasha
