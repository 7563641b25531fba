import Bhasha.Scalar

namespace Bhasha

/-- A temporary of the three-address code. -/
structure Temp where
  name : String
deriving DecidableEq

/-- A place that can be jumped to. -/
structure Label where
  name : String
deriving DecidableEq

/-- What an instruction computes with. -/
inductive Operand
  | temp (t : Temp)
  | scalar (v : Scalar)

/-- What an instruction copies from or to. -/
inductive Place
  | temp (t : Temp)
  | named (x : String)
deriving DecidableEq

namespace Operand

def render : Operand → String
  | temp t => t.name
  | scalar v => v.text

/-- As a constant of the program. -/
def literal : Operand → String
  | temp t => let name := Text.quoted t.name; s!"Temp(name={name})"
  | scalar v => v.literal

end Operand

def Place.render : Place → String
  | temp t => t.name
  | named x => x

/-- The instructions of the three-address code. -/
inductive Operation
  | binary (result : Temp) (op : String) (left right : Operand)
  | unary (result : Temp) (op : String) (operand : Operand)
  | assign (result : Temp) (value : Operand)
  | copy (target source : Place)
  | label (l : Label)
  | jump (target : Label)
  | branch (condition : Operand) (ifTrue ifFalse : Label)
  | function (name : String)
  | param (value : Operand)
  | call (result : Option Temp) (function : String) (arguments : Nat)
  | giveBack (value : Option Operand)
  | newObject (result : Temp) (className : String)
  | loadField (result : Temp) (object : Operand) (field : String)
  | storeField (object : Operand) (field : String) (value : Operand)
  | loadIndex (result : Temp) (object index : Operand)
  | storeIndex (object index value : Operand)
  | print (arguments : List Operand)
  | input (name : String) (prompt : Option Operand)
  | raiseError (value : Operand)
  | beginAttempt (handler : Label) (finalizer : Option Label)
  | endAttempt
  | beginHandler (name : Option String)

namespace Operation

def title : Operation → String
  | binary .. => "BinOp"
  | unary .. => "UnaryOp"
  | assign .. => "Assign"
  | copy .. => "Copy"
  | label .. => "LabelInstr"
  | jump .. => "Jump"
  | branch .. => "CondJump"
  | function .. => "FuncLabel"
  | param .. => "Param"
  | call .. => "Call"
  | giveBack .. => "Return"
  | newObject .. => "NewObj"
  | loadField .. => "FieldLoad"
  | storeField .. => "FieldStore"
  | loadIndex .. => "IndexLoad"
  | storeIndex .. => "IndexStore"
  | print .. => "PrintIR"
  | input .. => "InputIR"
  | raiseError .. => "ThrowIR"
  | beginAttempt .. => "TryBegin"
  | endAttempt => "TryEnd"
  | beginHandler .. => "CatchBegin"

def render : Operation → String
  | binary r op a b => "    " ++ r.name ++ " = " ++ a.render ++ " " ++ op ++ " " ++ b.render
  | unary r op a => "    " ++ r.name ++ " = " ++ op ++ " " ++ a.render
  | assign r v => "    " ++ r.name ++ " = " ++ v.literal
  | copy t s => "    " ++ t.render ++ " = " ++ s.render
  | label l => l.name ++ ":"
  | jump l => "    GOTO " ++ l.name
  | branch c t f => "    IF " ++ c.render ++ " GOTO " ++ t.name ++ " ELSE " ++ f.name
  | function x => "FUNC " ++ x ++ ":"
  | param v => "    PARAM " ++ v.render
  | call r x n =>
    let target := match r with
      | some t => t.name ++ " = "
      | none => ""
    "    " ++ target ++ "CALL " ++ x ++ " " ++ toString n
  | giveBack v => "    RETURN" ++ (match v with
    | some v => " " ++ v.render
    | none => "")
  | newObject r c => "    " ++ r.name ++ " = NEW " ++ c
  | loadField r a x => "    " ++ r.name ++ " = " ++ a.render ++ "." ++ x
  | storeField a x v => "    " ++ a.render ++ "." ++ x ++ " = " ++ v.render
  | loadIndex r a i => "    " ++ r.name ++ " = " ++ a.render ++ "[" ++ i.render ++ "]"
  | storeIndex a i v => "    " ++ a.render ++ "[" ++ i.render ++ "] = " ++ v.render
  | print vs => "    PRINT " ++ ", ".intercalate (vs.map Operand.render)
  | input x p => "    INPUT " ++ x ++ (match p with
    | some v => " " ++ v.render
    | none => "")
  | raiseError v => "    THROW " ++ v.render
  | beginAttempt h f => "    TRY_BEGIN catch=" ++ h.name ++ (match f with
    | some l => " finally=" ++ l.name
    | none => "")
  | endAttempt => "    TRY_END"
  | beginHandler x => "    CATCH" ++ (match x with
    | some x => " AS " ++ x
    | none => "")

end Operation

/-- An operation with the line it comes from. -/
structure Instr where
  op : Operation
  line : Nat := 1

namespace Instr

/-- The listing of a program. -/
def listing (code : List Instr) : String :=
  "\n".intercalate (code.map fun i => i.op.render)

def summary (code : List Instr) : String :=
  let n := code.length
  s!"IRProgram({n} instructions)"

end Instr

end Bhasha
