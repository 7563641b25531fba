import Bhasha.Machine

namespace Bhasha

/-- The body of a function, a method or a file, or of a lambda. -/
inductive Task
  | statements (ss : List Stmt)
  | expression (e : Expr)

/-- What a run is given. -/
structure Setting where
  lang : Lang := .both
  maxIterations : Int := 1000000
  maxCallDepth : Int := 1000
  /-- The files that can be imported. -/
  files : List (String × String) := []
  /-- What reading past the end of the input ends in. -/
  endOfInput : Fault := .endOfInput
  /-- What the use of a name without a meaning ends in, if not in the error for that. -/
  unbound : Option Fault := none

/-- A setting with a way to enter bodies. -/
structure Context extends Setting where
  perform : Task → Run Value
  /-- How many turns a loop over a list may take. -/
  turns : Nat

namespace Run

def unknownOperator (lang : Lang) (op : BinaryOp) (line : Nat) : Run Value :=
  let symbol := op.symbol
  let told := (Diagnostic.plain .runtime s!"Unknown operator: {symbol}" (some line)).text lang
  runtimeError s!"Error in operation '{symbol}': {told}" line

/-- A fault of type is told as an operation without meaning, any other one with its own text. -/
def binary (lang : Lang) (op : BinaryOp) (a b : Value) (line : Nat) : Run Value :=
  match op with
  | .unknown _ => unknownOperator lang op line
  | op => fun m =>
    let h := m.heap
    let m := { m with heap := {} }
    match Work.binary op a b h with
    | .ok v h => .ok v { m with heap := h }
    | .error f h =>
      let symbol := op.symbol
      let left := a.typeName
      let right := b.typeName
      let message := f.message
      let d := if f.kind == .type then
          Diagnostic.plain .type s!"Invalid operation '{symbol}' between {left} and {right}"
            (some line)
        else Diagnostic.plain .runtime s!"Error in operation '{symbol}': {message}" (some line)
      .error (.error d) { m with heap := h }

def unary (op : UnaryOp) (v : Value) (line : Nat) : Run Value :=
  match op with
  | .negate => match v.num? with
    | some n => work (Work.number n.neg)
    | none => let type := v.typeName; typeError s!"Cannot negate {type}" line
  | .not => return .bool (!(← isTrue v))
  | .unknown symbol => runtimeError s!"Unknown unary operator: {symbol}" line

def applyBuiltin (b : Builtin) (name : String) (args : List Value) (line : Nat) :
    Run Value := fun m =>
  let h := m.heap
  let m := { m with heap := {} }
  match b.apply args h with
  | .ok v h => .ok v { m with heap := h }
  | .error (.diagnostic d) h => .error (.error d) { m with heap := h }
  | .error (.fault f) h =>
    let message := f.message
    let d := Diagnostic.plain .runtime s!"Error in function '{name}': {message}" (some line)
    .error (.error d) { m with heap := h }

/-- The arguments of a call of `what`, one for each parameter. -/
def bindArguments (what : String) (parameters : List String) (args : List Value) (line : Nat) :
    Run (List (String × Value)) :=
  let expected := parameters.length
  let given := args.length
  if given != expected then runtimeError s!"{what} expects {expected} arguments, got {given}" line
  else return parameters.zip args

def callFunction (c : Context) (f : Closure) (args : List Value) (line : Nat) : Run Value := do
  let name := f.name
  let bindings ← bindArguments s!"Function '{name}'" f.parameters args line
  if c.maxCallDepth ≤ (← get).calls.length then unmade .recursion
  let scope ← newScope f.scope bindings
  within scope (called name (result (discard (c.perform (.statements f.body)))))

def callLambda (c : Context) (f : Lambda) (args : List Value) (line : Nat) : Run Value := do
  let bindings ← bindArguments "Lambda" f.parameters args line
  let scope ← newScope f.scope bindings
  within scope (c.perform (.expression f.body))

/-- A method knows its object as `yeh`. -/
def callMethod (c : Context) (what : String) (f : Closure) (this : Value) (args : List Value)
    (line : Nat) : Run Value := do
  let bindings ← bindArguments what f.parameters args line
  let scope ← newScope f.scope (("yeh", this) :: bindings)
  within scope (result (discard (c.perform (.statements f.body))))

def call (c : Context) (name : String) (f : Value) (args : List Value) (line : Nat) : Run Value :=
  match f with
  | .builtin b => applyBuiltin b name args line
  | .function f => callFunction c f args line
  | .lambda f => callLambda c f args line
  | _ => typeError s!"'{name}' is not callable" line

def classNamed (unbound : Option Fault) (x : String) (line : Nat) : Run ClassValue := do
  match ← lookup unbound x with
  | .classValue c => return c
  | _ => typeError s!"'{x}' is not a class" line

def thisObject (line : Nat) : Run Value := do
  match ← find? "yeh" with
  | some (.object i) => return .object i
  | some _ => runtimeError "'yeh' is not bound to an instance" line
  | none => runtimeError "'yeh' can only be used inside methods" line

/-- The method of the parent of the class of `yeh`, and `yeh`. -/
def superMethod (x : String) (line : Nat) : Run (Closure × Value) := do
  let some this ← find? "yeh" | runtimeError "'upar' can only be used inside methods" line
  let some o ← object? this | runtimeError "'upar' requires an instance" line
  let name := o.classValue.name
  let some parent := o.classValue.parent | runtimeError s!"Class '{name}' has no parent" line
  let some f := parent.method? x | unmade .member
  return (f, this)

/-- The object a value is, or the type error that says what cannot be done with the value. -/
def objectFor (what : String) (v : Value) (line : Nat) : Run Object := do
  let some o ← object? v | let type := v.typeName; typeError s!"{what} {type}" line
  return o

/-- Nothing lies at this place; to say so the place is written out first. -/
def noEntry {α : Type} (place : Value) : Run α := do
  let _ ← text place
  unmade .index

def entryOf (d : Dict) (key : Value) : Run Value := do
  if !key.isHashable then fault (.unhashable key.typeName)
  let some v := d.value? key | noEntry key
  return v

def itemOf (items : Array Value) (place : Value) (line : Nat) : Run Value := do
  let some n := place.int?
    | let type := place.typeName; typeError s!"Index must be integer, got {type}" line
  let some i := Builtin.position? items.size n | noEntry place
  return items.getD i .none

def characters (s : String) : Array Value :=
  (s.toList.map fun c => .str (String.singleton c)).toArray

def indexInto (v place : Value) (line : Nat) : Run Value := do
  match v with
  | .dict i => entryOf ((← get).heap.dict i) place
  | .list i => itemOf ((← get).heap.list i) place line
  | .str s => itemOf (characters s) place line
  | v => let type := v.typeName; typeError s!"Cannot index {type}" line

def checkKey (key : Value) (line : Nat) : Run Unit :=
  if key.isKey then return ()
  else let type := key.typeName; typeError s!"Dictionary key must be immutable, got {type}" line

def assignIndex (v place value : Value) (line : Nat) : Run Unit := do
  match v with
  | .dict i =>
    checkKey place line
    work (Work.setDict i (·.insert place value))
  | .list i =>
    let some n := place.int?
      | let type := place.typeName; typeError s!"List index must be integer, got {type}" line
    let some k := Builtin.position? ((← get).heap.list i).size n | noEntry place
    work (Work.setList i (·.setIfInBounds k value))
  | v => let type := v.typeName; typeError s!"Cannot index assign to {type}" line

end Run

namespace Eval

mutual

def expr (c : Context) : Expr → Run Value
  | .literal _ v _ => Run.work (Work.scalar v)
  | .list es _ => do
    let vs ← exprs c es
    Run.work (Work.newList vs.toArray)
  | .dict ps l => do
    let d ← entries c l #[] ps
    Run.work (Work.newDict d)
  | .var x _ => Run.lookup c.unbound x
  | .binary op a b l => do
    let left ← expr c a
    match op with
    | .or =>
      if ← Run.isTrue left then return .bool true
      return .bool (← Run.isTrue (← expr c b))
    | .and =>
      if !(← Run.isTrue left) then return .bool false
      return .bool (← Run.isTrue (← expr c b))
    | op =>
      let right ← expr c b
      Run.binary c.lang op left right l
  | .unary op a l => do
    let v ← expr c a
    Run.unary op v l
  | .paren a _ => expr c a
  | .call x es l => do
    let some f ← Run.find? x | Run.unresolved c.unbound (Run.unmade .name)
    let args ← exprs c es
    Run.call c x f args l
  | .lambda ps b _ => return .lambda { parameters := ps, body := b, scope := (← get).current }
  | .newObject x es l => do
    let cls ← Run.classNamed c.unbound x l
    let this ← Run.work (Work.newObject cls)
    match cls.method? "__init__" with
    | some f =>
      let args ← exprs c es
      let _ ← Run.callMethod c "Constructor" f this args l
    | none => pure ()
    return this
  | .method a x es l => do
    let v ← expr c a
    let o ← Run.objectFor "Cannot call method on" v l
    let some f := o.classValue.method? x | Run.unmade .member
    let args ← exprs c es
    Run.callMethod c s!"Method '{x}'" f v args l
  | .property a x l => do
    let v ← expr c a
    let o ← Run.objectFor "Cannot access property on" v l
    let some w := o.properties.find? x | Run.unmade .member
    return w
  | .thisObject l => Run.thisObject l
  | .superCall x es l => do
    let (f, this) ← Run.superMethod x l
    let args ← exprs c es
    Run.callMethod c s!"Method '{x}'" f this args l
  | .index a i l => do
    let v ← expr c a
    let place ← expr c i
    Run.indexInto v place l
  | .foreign cls _ l => Run.runtimeError s!"No visitor method for {cls}" l
termination_by structural e => e

def exprs (c : Context) : List Expr → Run (List Value)
  | [] => return []
  | e :: es => do
    let v ← expr c e
    let vs ← exprs c es
    return v :: vs
termination_by structural es => es

def entries (c : Context) (line : Nat) (d : Dict) : List (Expr × Expr) → Run Dict
  | [] => return d
  | (k, v) :: ps => do
    let key ← expr c k
    let value ← expr c v
    Run.checkKey key line
    entries c line (d.insert key value) ps
termination_by structural ps => ps

end

end Eval

end Bhasha
