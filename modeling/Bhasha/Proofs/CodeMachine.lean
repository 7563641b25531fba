import Mathlib.Logic.Relation
import Bhasha.Execution
import Bhasha.Proofs.LabelPlacement

namespace Bhasha

/-- The code from the first place of a label on. -/
def Instr.fromLabel (l : Label) : List Instr → Option (List Instr)
  | [] => none
  | i :: code => if i.placed? = some l then some (i :: code) else fromLabel l code

/-- A machine for the instructions that assignments, `likho`, branches and loops are lowered to;
calls, objects and attempts have no meaning in it. -/
structure CodeState where
  /-- The instructions from the next one on. -/
  next : List Instr
  temps : Bindings Value := []
  names : Bindings Value := []
  heap : Heap := {}
  output : String := ""

/-- A computation of the code machine; it fails where an instruction has no meaning. -/
abbrev Coded := EStateM Unit CodeState

namespace Coded

variable {α : Type}

def require : Option α → Coded α
  | some a => return a
  | none => throw ()

/-- What the interpreter does with values. It sees the heap and the output, and no names. -/
def borrow (p : Run α) : Coded α := fun st =>
  match p { heap := st.heap, output := st.output } with
  | .ok a m => .ok a { st with heap := m.heap, output := m.output }
  | .error _ _ => .error () st

def read : Operand → Coded Value
  | .temp t => do require ((← get).temps.find? t.name)
  | .scalar v => borrow (Run.work (Work.scalar v))

def readAll : List Operand → Coded (List Value)
  | [] => return []
  | o :: os => do
    let v ← read o
    let vs ← readAll os
    return v :: vs

def load : Place → Coded Value
  | .temp t => read (.temp t)
  | .named x => do require ((← get).names.find? x)

def store (p : Place) (v : Value) : Coded Unit :=
  modify fun st => match p with
    | .temp t => { st with temps := st.temps.bind t.name v }
    | .named x => { st with names := st.names.bind x v }

def jump (code : List Instr) (l : Label) : Coded Unit := do
  let next ← require (Instr.fromLabel l code)
  modify fun st => { st with next }

/-- What an instruction does, apart from going on to the one behind it. -/
def perform (code : List Instr) (i : Instr) : Coded Unit := do
  match i.op with
  | .binary t op a b =>
    let left ← read a
    let right ← read b
    store (.temp t) (← borrow (Run.binary .both (.ofSymbol op) left right i.line))
  | .unary t op a =>
    let v ← read a
    store (.temp t) (← borrow (Run.unary (.ofSymbol op) v i.line))
  | .assign t value => store (.temp t) (← read value)
  | .copy target source => store target (← load source)
  | .label _ => return ()
  | .jump l => jump code l
  | .branch condition ifTrue ifFalse =>
    let v ← read condition
    if ← borrow (Run.isTrue v) then jump code ifTrue else jump code ifFalse
  | .print os =>
    let vs ← readAll os
    borrow (Run.print vs)
  | _ => throw ()

def step (code : List Instr) : Coded Unit := fun st =>
  match st.next with
  | [] => .error () st
  | i :: rest => perform code i { st with next := rest }

end Coded

/-- The state in which code comes to its end, if it does in this many steps. -/
def runCode (code : List Instr) : (steps : Nat) → CodeState → Option CodeState
  | 0, st => if st.next.isEmpty then some st else none
  | n + 1, st =>
    if st.next.isEmpty then some st
    else match Coded.step code st with
      | .ok _ st => runCode code n st
      | .error _ _ => none

/-- Some steps lead from the one state to the other. -/
abbrev CodeState.Reaches (code : List Instr) : CodeState → CodeState → Prop :=
  Relation.ReflTransGen fun st st' => Coded.step code st = .ok () st'

theorem runCode_of_reaches {code : List Instr} {st st' : CodeState} (h : st.Reaches code st')
    (hend : st'.next = []) : ∃ n, runCode code n st = some st' := by
  induction h using Relation.ReflTransGen.head_induction_on with
  | refl => exact ⟨0, by simp [runCode, hend]⟩
  | @head st st₁ hstep _ ih =>
    obtain ⟨n, hn⟩ := ih
    refine ⟨n + 1, ?_⟩
    have hnext : st.next ≠ [] := by
      intro hnil
      simp [Coded.step, hnil] at hstep
    simp [runCode, hnext, hstep, hn]

/-- A label that is placed once is found where it is placed. -/
theorem fromLabel_eq {l : Label} {i : Instr} {before behind : List Instr} (hi : i.placed? = some l)
    (h : (Instr.labels (before ++ i :: behind)).Nodup) :
    Instr.fromLabel l (before ++ i :: behind) = some (i :: behind) := by
  induction before with
  | nil => simp [Instr.fromLabel, hi]
  | cons j before ih =>
    have htail : (Instr.labels (before ++ i :: behind)).Nodup := by
      refine Multiset.nodup_of_le ?_ h
      exact Multiset.coe_le.mpr ((List.sublist_cons_self _ _).filterMap _).subperm
    have hj : j.placed? ≠ some l := by
      intro hj
      rw [Instr.labels, Multiset.coe_nodup, List.cons_append, List.filterMap_cons_some hj] at h
      refine (List.nodup_cons.mp h).1 (List.mem_filterMap.mpr ⟨i, by simp, hi⟩)
    rw [List.cons_append, Instr.fromLabel, if_neg hj, ih htail]

end Bhasha
