namespace Bhasha

/-- Names with what they are bound to, in the order in which they were first bound. -/
abbrev Bindings (α : Type) := List (String × α)

namespace Bindings

variable {α : Type}

def find? : Bindings α → String → Option α
  | [], _ => none
  | (y, v) :: b, x => if y == x then some v else find? b x

def has (b : Bindings α) (x : String) : Bool :=
  (b.find? x).isSome

/-- Binding a name anew keeps its place. -/
def bind : Bindings α → String → α → Bindings α
  | [], x, v => [(x, v)]
  | (y, w) :: b, x, v => if y == x then (y, v) :: b else (y, w) :: bind b x v

def names (b : Bindings α) : List String :=
  b.map (·.1)

end Bindings

end Bhasha
