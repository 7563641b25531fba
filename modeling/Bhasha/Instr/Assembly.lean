import Bhasha.Bindings
import Bhasha.Fault
import Bhasha.Instr

namespace Bhasha

/-- What a slot of an instruction is filled with. -/
inductive Slot
  | operand (o : Operand)
  | label (l : Label)
  | several (os : List Operand)

namespace Slot

def render : Slot → String
  | operand o => o.render
  | label l => l.name
  | several os => "[" ++ ", ".intercalate (os.map Operand.literal) ++ "]"

def isNone : Slot → Bool
  | operand (.scalar .none) => true
  | _ => false

/-- Nothing, an empty text, zero and `false` leave a slot open. -/
def isBlank : Slot → Bool
  | operand (.scalar v) => match v with
    | .none => true
    | .str s => s.isEmpty
    | .float x => x == 0
    | v => v.asInt? == some 0
  | several os => os.isEmpty
  | _ => false

def asOperand : Slot → Operand
  | operand o => o
  | s => .scalar (.str s.render)

def asTemp (s : Slot) : Temp :=
  ⟨s.render⟩

def asLabel (s : Slot) : Label :=
  ⟨s.render⟩

def asPlace : Slot → Place
  | operand (.temp t) => .temp t
  | s => .named s.render

def asOperands : Slot → List Operand
  | several os => os
  | s => [s.asOperand]

end Slot

namespace Instr

/-- The slots of an instruction: those that must be filled, and those that may. -/
def slots : String → Option (List String × List String)
  | "BinOp" => some (["result", "op", "left", "right"], ["source_line"])
  | "UnaryOp" => some (["result", "op", "operand"], ["source_line"])
  | "Assign" => some (["result", "value"], ["source_line"])
  | "Copy" => some (["dest", "src"], ["source_line"])
  | "LabelInstr" => some (["label"], ["source_line"])
  | "Jump" => some (["target"], ["source_line"])
  | "CondJump" => some (["condition", "true_label", "false_label"], ["source_line"])
  | "FuncLabel" => some (["func_name"], ["source_line"])
  | "Param" => some (["value"], ["source_line"])
  | "Call" => some (["result", "func_name", "n_args"], ["source_line"])
  | "Return" => some (["value"], ["source_line"])
  | "NewObj" => some (["result", "class_name"], ["source_line"])
  | "FieldLoad" => some (["result", "obj", "field_name"], ["source_line"])
  | "FieldStore" => some (["obj", "field_name", "value"], ["source_line"])
  | "IndexLoad" => some (["result", "obj", "index"], ["source_line"])
  | "IndexStore" => some (["obj", "index", "value"], ["source_line"])
  | "PrintIR" => some ([], ["args", "source_line"])
  | "InputIR" => some (["var_name"], ["prompt", "source_line"])
  | "ThrowIR" => some (["value"], ["source_line"])
  | "TryBegin" => some (["catch_label"], ["finally_label", "source_line"])
  | "TryEnd" => some ([], [])
  | "CatchBegin" => some ([], ["var_name", "source_line"])
  | _ => none

def operationOf (title : String) (b : Bindings Slot) : Operation :=
  let slot (x : String) := (b.find? x).getD (.operand (.scalar .none))
  let unlessNone (x : String) :=
    if (slot x).isNone then none else some (slot x)
  let unlessBlank (x : String) :=
    if (slot x).isBlank then none else some (slot x)
  let operand x := (slot x).asOperand
  let temp x := (slot x).asTemp
  let label x := (slot x).asLabel
  let name x := (slot x).render
  match title with
  | "BinOp" => .binary (temp "result") (name "op") (operand "left") (operand "right")
  | "UnaryOp" => .unary (temp "result") (name "op") (operand "operand")
  | "Assign" => .assign (temp "result") (operand "value")
  | "Copy" => .copy (slot "dest").asPlace (slot "src").asPlace
  | "LabelInstr" => .label (label "label")
  | "Jump" => .jump (label "target")
  | "CondJump" => .branch (operand "condition") (label "true_label") (label "false_label")
  | "FuncLabel" => .function (name "func_name")
  | "Param" => .param (operand "value")
  | "Call" =>
    let count := match operand "n_args" with
      | .scalar (.int n) => n.toNat
      | _ => 0
    .call ((unlessBlank "result").map Slot.asTemp) (name "func_name") count
  | "Return" => .giveBack ((unlessNone "value").map Slot.asOperand)
  | "NewObj" => .newObject (temp "result") (name "class_name")
  | "FieldLoad" => .loadField (temp "result") (operand "obj") (name "field_name")
  | "FieldStore" => .storeField (operand "obj") (name "field_name") (operand "value")
  | "IndexLoad" => .loadIndex (temp "result") (operand "obj") (operand "index")
  | "IndexStore" => .storeIndex (operand "obj") (operand "index") (operand "value")
  | "PrintIR" => .print ((b.find? "args").elim [] Slot.asOperands)
  | "InputIR" => .input (name "var_name") ((unlessNone "prompt").map Slot.asOperand)
  | "ThrowIR" => .raiseError (operand "value")
  | "TryBegin" =>
    .beginAttempt (label "catch_label") ((unlessBlank "finally_label").map Slot.asLabel)
  | "TryEnd" => .endAttempt
  | _ => .beginHandler ((unlessBlank "var_name").map Slot.render)

def lineOf (b : Bindings Slot) : Nat :=
  match b.find? "source_line" with
  | some (.operand (.scalar (.int n))) => n.toNat
  | _ => 1

/-- The instruction with this title and these slots; a slot it does not have is reported before one
that is left open. -/
def assemble (title : String) (b : Bindings Slot) : Except Fault Instr :=
  match slots title with
  | none => .error (.noKey title)
  | some (required, optional) =>
    match b.names.find? fun x => !(required ++ optional).contains x with
    | some x => .error (.unknownSlot (title ++ ".__init__") x)
    | none =>
      match required.filter fun x => !b.has x with
      | [] => .ok { op := operationOf title b, line := lineOf b }
      | unfilled => .error (.missingSlots (title ++ ".__init__") unfilled)

end Instr

end Bhasha
