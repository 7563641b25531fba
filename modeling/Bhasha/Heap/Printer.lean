import Bhasha.Heap
import Bhasha.Number.Reading
import Bhasha.Number.Shortest

/-! Values as text. A list or dictionary inside itself is written as dots. -/

namespace Bhasha.Heap

def intText (n : Int) : Except Fault String :=
  if Number.unwritable ≤ n.natAbs then .error .longInteger else .ok (toString n)

/-- A list or dictionary that is being written. -/
inductive Open
  | list (place : Nat)
  | dict (place : Nat)
deriving DecidableEq

def literalWithin (h : Heap) : (fuel : Nat) → List Open → Value → Except Fault String
  | _, _, .none => .ok "None"
  | _, _, .bool b => .ok (Scalar.boolText b)
  | _, _, .int n => intText n
  | _, _, .float x _ => .ok (Number.showDouble x)
  | _, _, .str s => .ok (Text.quoted s)
  | _, _, .function f => .ok ("<function " ++ f.name ++ ">")
  | _, _, .lambda f => .ok ("<lambda with " ++ toString f.parameters.length ++ " params>")
  | _, _, .classValue c => .ok ("<class " ++ c.name ++ ">")
  | _, _, .object i => .ok ("<instance of " ++ ((h.object? i).elim "" (·.classValue.name)) ++ ">")
  | _, _, .builtin b => .ok ("<function " ++ b.title ++ ">")
  | 0, _, _ => .error .outOfBudget
  | fuel + 1, around, .list i =>
    if around.contains (.list i) then .ok "[...]" else do
      let items ← (h.list i).toList.mapM (h.literalWithin fuel (.list i :: around))
      return "[" ++ ", ".intercalate items ++ "]"
  | fuel + 1, around, .dict i =>
    if around.contains (.dict i) then .ok "\x7b...\x7d" else do
      let entries ← (h.dict i).toList.mapM fun (k, v) => do
        let k ← h.literalWithin fuel (.dict i :: around) k
        let v ← h.literalWithin fuel (.dict i :: around) v
        return k ++ ": " ++ v
      return "\x7b" ++ ", ".intercalate entries ++ "\x7d"

/-- The value as it stands inside a list. -/
def literal (h : Heap) (v : Value) : Except Fault String :=
  h.literalWithin (h.depth + 1) [] v

/-- The value on its own: text has no quotes. -/
def text (h : Heap) : Value → Except Fault String
  | .str s => .ok s
  | v => h.literal v

/-- The value as `likho` writes it. -/
def printed (h : Heap) : Value → Except Fault String
  | .bool b => .ok (if b then "sach" else "jhoot")
  | .none => .ok ""
  | v => h.text v

end Bhasha.Heap
