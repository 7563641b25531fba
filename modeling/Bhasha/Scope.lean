import Bhasha.Bindings
import Bhasha.Diagnostic

/-! Nested scopes. Every scope but a root lies in its parent, and a name means what the innermost
scope that binds it says. -/

namespace Bhasha

structure Scope (α : Type) where
  parent : Option Nat := none
  /-- How many scopes lie around this one. -/
  depth : Nat := 0
  bindings : Bindings α := []
deriving Inhabited

/-- All scopes made so far; a scope is known by its place. -/
structure Scopes (α : Type) where
  all : Array (Scope α) := #[]

namespace Scopes

variable {α : Type}

def depthLimit : Nat := 1000

def tooDeep : Diagnostic :=
  .plain .runtime
    s!"Maximum recursion depth exceeded ({depthLimit}). Possible infinite recursion." none

def depth (s : Scopes α) (i : Nat) : Nat :=
  (s.all[i]?.map Scope.depth).getD 0

def bindings (s : Scopes α) (i : Nat) : Bindings α :=
  (s.all[i]?.map Scope.bindings).getD []

def parent? (s : Scopes α) (i : Nat) : Option Nat :=
  s.all[i]?.bind Scope.parent

/-- How many scopes lie around one inside `parent`. -/
def innerDepth (s : Scopes α) : Option Nat → Nat
  | some p => s.depth p + 1
  | none => 0

def add (s : Scopes α) (parent : Option Nat) : Scopes α :=
  ⟨s.all.push { parent, depth := s.innerDepth parent }⟩

/-- A new scope inside `parent`, or a root. -/
def create (s : Scopes α) (parent : Option Nat) : Except Diagnostic (Nat × Scopes α) :=
  if depthLimit < s.innerDepth parent then .error tooDeep
  else .ok (s.all.size, s.add parent)

/-- `count` scopes, each inside the one before, the first inside `start`. -/
def createChain (s : Scopes α) (start : Nat) : Nat → Except Diagnostic (Nat × Scopes α)
  | 0 => .ok (start, s)
  | n + 1 => do
    let (i, s) ← s.create (some start)
    s.createChain i n

/-- Binds `x` in the scope `i` itself. -/
def define (s : Scopes α) (i : Nat) (x : String) (v : α) : Scopes α :=
  ⟨s.all.modify i fun scope => { scope with bindings := scope.bindings.bind x v }⟩

/-- What the scope `i` says of `x`, or else the nearest of at most `fuel` scopes around it. -/
def getWithin (s : Scopes α) (x : String) : (fuel : Nat) → (i : Nat) → Option α
  | fuel, i => match (s.bindings i).find? x with
    | some v => some v
    | none => match fuel, s.parent? i with
      | fuel + 1, some p => s.getWithin x fuel p
      | _, _ => none

def get? (s : Scopes α) (i : Nat) (x : String) : Option α :=
  s.getWithin x (s.depth i) i

/-- Binds `x` anew in the scope `i`, or else in the nearest of at most `fuel` scopes around it that
binds it. -/
def setWithin (s : Scopes α) (x : String) (v : α) : (fuel : Nat) → (i : Nat) → Option (Scopes α)
  | fuel, i =>
    if (s.bindings i).has x then some (s.define i x v)
    else match fuel, s.parent? i with
      | fuel + 1, some p => s.setWithin x v fuel p
      | _, _ => none

def set? (s : Scopes α) (i : Nat) (x : String) (v : α) : Option (Scopes α) :=
  s.setWithin x v (s.depth i) i

/-- Does the scope `i` or one of at most `fuel` scopes around it bind `x`? -/
def isBoundWithin (s : Scopes α) (x : String) : (fuel : Nat) → (i : Nat) → Bool
  | fuel, i =>
    if (s.bindings i).has x then true
    else match fuel, s.parent? i with
      | fuel + 1, some p => s.isBoundWithin x fuel p
      | _, _ => false

def isBound (s : Scopes α) (i : Nat) (x : String) : Bool :=
  s.isBoundWithin x (s.depth i) i

def isBoundHere (s : Scopes α) (i : Nat) (x : String) : Bool :=
  (s.bindings i).has x

def undefined (x : String) (line : Option Nat) : Diagnostic :=
  .undefinedVariable s!"Undefined variable: '{x}'" line

def unassignable (x : String) (line : Option Nat) : Diagnostic :=
  .undefinedVariable
    s!"Cannot assign to undefined variable: '{x}'. Use 'maan {x} = ...' to declare it first." line

def get (s : Scopes α) (i : Nat) (x : String) (line : Option Nat) : Except Diagnostic α :=
  match s.get? i x with
  | some v => .ok v
  | none => .error (undefined x line)

def set (s : Scopes α) (i : Nat) (x : String) (v : α) (line : Option Nat) :
    Except Diagnostic (Scopes α) :=
  match s.set? i x v with
  | some s => .ok s
  | none => .error (unassignable x line)

def visibleWithin (s : Scopes α) : (fuel : Nat) → (i : Nat) → List String
  | fuel, i =>
    let own := (s.bindings i).names
    match fuel, s.parent? i with
    | fuel + 1, some p => own ++ (s.visibleWithin fuel p).filter fun x => !own.contains x
    | _, _ => own

/-- The names that have a meaning in the scope `i`, each once, sorted. -/
def visible (s : Scopes α) (i : Nat) : List String :=
  (s.visibleWithin (s.depth i) i).mergeSort fun x y => x ≤ y

/-- One line about a scope and its own bindings. -/
def render (describe : α → String) (s : Scopes α) (i : Nat) : String :=
  let own := ", ".intercalate ((s.bindings i).map fun (x, v) => x ++ "=" ++ describe v)
  let place := if (s.parent? i).isSome then "with parent" else "global"
  s!"Environment({own}) [{place}]"

end Scopes

end Bhasha
