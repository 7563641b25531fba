import Bhasha.Execution
import Bhasha.Proofs.ScopeWalks

namespace Bhasha

/-- `E` holds across every expression and `S` across every statement, however they end, if they
allow these steps. -/
structure Discipline (E S : Machine → Machine → Prop) : Prop where
  le : ∀ m m', E m m' → S m m'
  heap : ∀ (m : Machine) (heap : Heap), E m { m with heap }
  console : ∀ (m : Machine) (input : List Char) (output : String), S m { m with input, output }
  bound : ∀ (m : Machine) (x : String) (v : Value),
    S m { m with scopes := m.scopes.define m.current x v }
  rebound : ∀ (m : Machine) (x : String) (v : Value) (i : Nat),
    m.scopes.owner? m.current x = some i → S m { m with scopes := m.scopes.define i x v }
  called : ∀ {body : Run Value} (name : String), Keeps S body → Keeps S (Run.called name body)
  /-- What a body does in a scope made for it is a step of an expression. -/
  entered : ∀ {α : Type} {body : Run α} (parent : Nat) (bindings : List (String × Value)),
    Keeps S body → Keeps E (do
      let scope ← Run.newScope parent bindings
      Run.within scope body)

namespace Run

variable {α : Type} {R : Machine → Machine → Prop}

theorem finalState_result (body : Run Unit) (m : Machine) :
    finalState (result body) m = finalState body m := by
  unfold finalState result
  cases body m with
  | ok _ _ => rfl
  | error e _ => cases e <;> rfl

theorem finalState_turn (body : Run Unit) (m : Machine) :
    finalState (turn body) m = finalState body m := by
  unfold finalState turn
  cases body m with
  | ok _ _ => rfl
  | error e _ => cases e <;> rfl

theorem finalState_attempt (body : Run Unit) (m : Machine) :
    finalState (attempt body) m = finalState body m := by
  unfold finalState attempt
  cases body m with
  | ok _ _ => rfl
  | error e _ =>
    cases e with
    | error d => cases h : d.kind.isRuntime <;> simp [h]
    | _ => rfl

theorem finalState_guardImport (body : Run Unit) (m : Machine) :
    finalState (guardImport body) m = finalState body m := by
  unfold finalState guardImport
  cases body m with
  | ok _ _ => rfl
  | error e _ =>
    cases e with
    | fault f => cases f <;> rfl
    | _ => rfl

theorem keeps_result {body : Run Unit} (h : Keeps R body) : Keeps R (result body) :=
  h.congr (finalState_result body)

theorem keeps_turn {body : Run Unit} (h : Keeps R body) : Keeps R (turn body) :=
  h.congr (finalState_turn body)

theorem keeps_attempt {body : Run Unit} (h : Keeps R body) : Keeps R (attempt body) :=
  h.congr (finalState_attempt body)

theorem keeps_guardImport {body : Run Unit} (h : Keeps R body) : Keeps R (guardImport body) :=
  h.congr (finalState_guardImport body)

section

variable [Std.Refl R]

theorem keeps_error (d : Diagnostic) : Keeps R (error d : Run α) :=
  .throw _

theorem keeps_fault (f : Fault) : Keeps R (fault f : Run α) :=
  .throw _

theorem keeps_lift (r : Except Fault α) : Keeps R (lift r) := by
  cases r with
  | ok a => exact .pure a
  | error f => exact keeps_fault f

theorem keeps_bindArguments (what : String) (parameters : List String) (args : List Value)
    (line : Nat) : Keeps R (bindArguments what parameters args line) :=
  .ite (keeps_error _) (.pure _)

theorem keeps_checkKey (key : Value) (line : Nat) : Keeps R (checkKey key line) :=
  .ite (.pure _) (keeps_error _)

theorem keeps_fileStatements (s : Setting) (x : String) : Keeps R (fileStatements s x) := by
  unfold fileStatements
  split
  · split
    · exact .pure _
    · exact keeps_fault _
  · exact keeps_fault _

theorem keeps_unresolved (unbound : Option Fault) {otherwise : Run α} (h : Keeps R otherwise) :
    Keeps R (unresolved unbound otherwise) := by
  unfold unresolved
  split
  · exact keeps_fault _
  · exact h

variable [IsTrans Machine R]

theorem keeps_text (v : Value) : Keeps R (text v) :=
  .bind .get fun _ => keeps_lift _

theorem keeps_isTrue (v : Value) : Keeps R (isTrue v) :=
  .bind .get fun _ => .pure _

theorem keeps_object? (v : Value) : Keeps R (object? v) := by
  unfold object?
  split
  · exact .bind .get fun _ => .pure _
  · exact .pure _

theorem keeps_find? (x : String) : Keeps R (find? x) :=
  .bind .get fun _ => .pure _

theorem keeps_lookup (unbound : Option Fault) (x : String) : Keeps R (lookup unbound x) := by
  refine .bind .get fun m => ?_
  split
  · exact .pure _
  · exact keeps_unresolved unbound (keeps_error _)

theorem keeps_classNamed (unbound : Option Fault) (x : String) (line : Nat) :
    Keeps R (classNamed unbound x line) := by
  refine .bind (keeps_lookup unbound x) fun v => ?_
  split
  · exact .pure _
  · exact keeps_error _

theorem keeps_thisObject (line : Nat) : Keeps R (thisObject line) := by
  refine .bind (keeps_find? _) fun v => ?_
  split
  · exact .pure _
  · exact keeps_error _
  · exact keeps_error _

theorem keeps_superMethod (x : String) (line : Nat) : Keeps R (superMethod x line) := by
  refine .bind (keeps_find? _) fun this? => ?_
  split
  · refine .bind (keeps_object? _) fun o? => ?_
    split
    · dsimp only
      split
      · split
        · exact .pure _
        · exact keeps_fault _
      · exact keeps_error _
    · exact keeps_error _
  · exact keeps_error _

theorem keeps_objectFor (what : String) (v : Value) (line : Nat) :
    Keeps R (objectFor what v line) := by
  refine .bind (keeps_object? v) fun o? => ?_
  split
  · exact .pure _
  · exact keeps_error _

theorem keeps_noEntry (place : Value) : Keeps R (noEntry place : Run α) :=
  .bind (keeps_text place) fun _ => keeps_fault _

theorem keeps_entryOf (d : Dict) (key : Value) : Keeps R (entryOf d key) := by
  refine .ite (.bind (keeps_fault _) fun _ => ?_) ?_ <;> split
  · exact .pure _
  · exact keeps_noEntry _
  · exact .pure _
  · exact keeps_noEntry _

theorem keeps_itemOf (items : Array Value) (place : Value) (line : Nat) :
    Keeps R (itemOf items place line) := by
  unfold itemOf
  split
  · split
    · exact .pure _
    · exact keeps_noEntry _
  · exact keeps_error _

theorem keeps_indexInto (v place : Value) (line : Nat) : Keeps R (indexInto v place line) := by
  unfold indexInto
  split
  · exact .bind .get fun _ => keeps_entryOf _ _
  · exact .bind .get fun _ => keeps_itemOf _ _ _
  · exact keeps_itemOf _ _ _
  · exact keeps_error _

end

section

variable (hheap : ∀ (m : Machine) (heap : Heap), R m { m with heap })
include hheap

theorem keeps_work (w : Work α) : Keeps R (work w) := by
  intro m
  unfold finalState work
  dsimp only
  cases w m.heap <;> exact hheap _ _

variable [Std.Refl R]

theorem keeps_binary (lang : Lang) (op : BinaryOp) (a b : Value) (line : Nat) :
    Keeps R (binary lang op a b line) := by
  cases op
  case unknown symbol => exact keeps_error _
  all_goals
    intro m
    unfold finalState binary
    dsimp only
    cases Work.binary _ a b m.heap <;> exact hheap _ _

theorem keeps_unary [IsTrans Machine R] (op : UnaryOp) (v : Value) (line : Nat) :
    Keeps R (unary op v line) := by
  cases op with
  | negate =>
    unfold unary
    dsimp only
    split
    · exact keeps_work hheap _
    · exact keeps_error _
  | not => exact .bind (keeps_isTrue v) fun _ => .pure _
  | unknown symbol => exact keeps_error _

end

end Run

theorem Run.readLine_run (atEnd : Fault) (m : Machine) : Run.readLine atEnd m =
    if m.input.isEmpty then .error (.fault atEnd) m
    else .ok (String.ofList (m.input.takeWhile (· != '\n')))
      { m with input := (m.input.dropWhile (· != '\n')).drop 1 } := by
  change (if m.input.isEmpty then Run.fault atEnd else _ : Run String) m = _
  split <;> rfl

/-- Both operands count, except for `ya` and `aur`. -/
theorem expr_binary {c : Context} {op : BinaryOp} (hor : op ≠ .or) (hand : op ≠ .and)
    (a b : Expr) (l : Nat) :
    Eval.expr c (.binary op a b l) = (do
      let left ← Eval.expr c a
      let right ← Eval.expr c b
      Run.binary c.lang op left right l) := by
  rw [Eval.expr]
  cases op
  case or => exact absurd rfl hor
  case and => exact absurd rfl hand
  all_goals rfl

namespace Discipline

set_option linter.unusedSectionVars false

variable {α : Type} {E S : Machine → Machine → Prop} [Std.Refl E] [IsTrans Machine E]
  [Std.Refl S] [IsTrans Machine S]

section

variable (d : Discipline E S)
include d

theorem work (w : Work α) : Keeps E (Run.work w) :=
  Run.keeps_work d.heap w

theorem binary (lang : Lang) (op : BinaryOp) (a b : Value) (line : Nat) :
    Keeps E (Run.binary lang op a b line) :=
  Run.keeps_binary d.heap lang op a b line

theorem unary (op : UnaryOp) (v : Value) (line : Nat) :
    Keeps E (Run.unary op v line) :=
  Run.keeps_unary d.heap op v line

theorem applyBuiltin (b : Builtin) (name : String) (args : List Value) (line : Nat) :
    Keeps E (Run.applyBuiltin b name args line) := by
  intro m
  unfold finalState Run.applyBuiltin
  dsimp only
  cases b.apply args m.heap with
  | ok v h => exact d.heap _ _
  | error e h => cases e <;> exact d.heap _ _

section

-- The way to enter bodies that a context holds is assumed to respect the relation for statements.
variable {c : Context} (hc : ∀ t, Keeps S (c.perform t))
include hc

omit d in
theorem body (ss : List Stmt) : Keeps S (Run.result (discard (c.perform (.statements ss)))) :=
  Run.keeps_result (hc _).discard

theorem callFunction (f : Closure) (args : List Value) (line : Nat) :
    Keeps E (Run.callFunction c f args line) := by
  have enter (bindings : List (String × Value)) :=
    d.entered f.scope bindings (d.called f.name (body hc f.body))
  refine .bind (Run.keeps_bindArguments _ _ _ _) fun bindings => .bind .get fun m => .ite ?_ ?_
  · exact .bind (Run.keeps_fault _) fun _ => enter bindings
  · exact enter bindings

theorem callLambda (f : Lambda) (args : List Value) (line : Nat) :
    Keeps E (Run.callLambda c f args line) :=
  .bind (Run.keeps_bindArguments _ _ _ _) fun _ => d.entered _ _ (hc _)

theorem callMethod (what : String) (f : Closure) (this : Value) (args : List Value)
    (line : Nat) : Keeps E (Run.callMethod c what f this args line) :=
  .bind (Run.keeps_bindArguments _ _ _ _) fun _ => d.entered _ _ (body hc _)

theorem call (name : String) (f : Value) (args : List Value) (line : Nat) :
    Keeps E (Run.call c name f args line) := by
  unfold Run.call
  split
  · exact d.applyBuiltin _ _ _ _
  · exact d.callFunction hc _ _ _
  · exact d.callLambda hc _ _ _
  · exact Run.keeps_error _

end

end

variable {c : Context}

mutual

theorem expr (d : Discipline E S) (hc : ∀ t, Keeps S (c.perform t)) : ∀ e, Keeps E (Eval.expr c e)
  | .literal _ v _ => by
    rw [Eval.expr]
    exact d.work _
  | .list es _ => by
    rw [Eval.expr]
    exact .bind (d.exprs hc es) fun _ => d.work _
  | .dict ps l => by
    rw [Eval.expr]
    exact .bind (d.entries hc l _ ps) fun _ => d.work _
  | .var x _ => by
    rw [Eval.expr]
    exact Run.keeps_lookup _ x
  | .binary op a b l => by
    rw [Eval.expr]
    refine .bind (d.expr hc a) fun left => ?_
    split
    · refine .bind (Run.keeps_isTrue left) fun _ => .ite (.pure _) ?_
      exact .bind (d.expr hc b) fun _ => .bind (Run.keeps_isTrue _) fun _ => .pure _
    · refine .bind (Run.keeps_isTrue left) fun _ => .ite (.pure _) ?_
      exact .bind (d.expr hc b) fun _ => .bind (Run.keeps_isTrue _) fun _ => .pure _
    · exact .bind (d.expr hc b) fun _ => d.binary _ _ _ _ _
  | .unary op a l => by
    rw [Eval.expr]
    exact .bind (d.expr hc a) fun _ => d.unary _ _ _
  | .paren a _ => by
    rw [Eval.expr]
    exact d.expr hc a
  | .call x es l => by
    rw [Eval.expr]
    refine .bind (Run.keeps_find? x) fun f? => ?_
    split
    · exact .bind (d.exprs hc es) fun _ => d.call hc _ _ _ _
    · exact Run.keeps_unresolved _ (Run.keeps_fault _)
  | .lambda ps b _ => by
    rw [Eval.expr]
    exact .bind .get fun _ => .pure _
  | .newObject x es l => by
    rw [Eval.expr]
    refine .bind (Run.keeps_classNamed _ x l) fun cls => .bind (d.work _) fun this => ?_
    dsimp only
    split
    · refine .bind (d.exprs hc es) fun _ => ?_
      exact .bind (d.callMethod hc _ _ _ _ _) fun _ => .pure _
    · exact .pure _
  | .method a x es l => by
    rw [Eval.expr]
    refine .bind (d.expr hc a) fun v => .bind (Run.keeps_objectFor _ v l) fun o => ?_
    split
    · exact .bind (d.exprs hc es) fun _ => d.callMethod hc _ _ _ _ _
    · exact Run.keeps_fault _
  | .property a x l => by
    rw [Eval.expr]
    refine .bind (d.expr hc a) fun v => .bind (Run.keeps_objectFor _ v l) fun o => ?_
    split
    · exact .pure _
    · exact Run.keeps_fault _
  | .thisObject l => by
    rw [Eval.expr]
    exact Run.keeps_thisObject l
  | .superCall x es l => by
    rw [Eval.expr]
    refine .bind (Run.keeps_superMethod x l) fun found => ?_
    exact .bind (d.exprs hc es) fun _ => d.callMethod hc _ _ _ _ _
  | .index a i l => by
    rw [Eval.expr]
    exact .bind (d.expr hc a) fun _ => .bind (d.expr hc i) fun _ => Run.keeps_indexInto _ _ _
  | .foreign cls _ l => by
    rw [Eval.expr]
    exact Run.keeps_error _
termination_by structural e => e

theorem exprs (d : Discipline E S) (hc : ∀ t, Keeps S (c.perform t)) :
    ∀ es, Keeps E (Eval.exprs c es)
  | [] => by
    rw [Eval.exprs]
    exact .pure _
  | e :: es => by
    rw [Eval.exprs]
    exact .bind (d.expr hc e) fun _ => .bind (d.exprs hc es) fun _ => .pure _
termination_by structural es => es

theorem entries (d : Discipline E S) (hc : ∀ t, Keeps S (c.perform t)) (line : Nat) :
    ∀ (found : Dict) ps, Keeps E (Eval.entries c line found ps)
  | _, [] => by
    rw [Eval.entries]
    exact .pure _
  | _, (k, v) :: ps => by
    rw [Eval.entries]
    refine .bind (d.expr hc k) fun key => .bind (d.expr hc v) fun value => ?_
    exact .bind (Run.keeps_checkKey key line) fun _ => d.entries hc line _ ps
termination_by structural _ ps => ps

end

section

variable (d : Discipline E S)
include d

theorem define (x : String) (v : Value) : Keeps S (Run.define x v) :=
  .modified fun m => d.bound m x v

theorem assign (x : String) (v : Value) : Keeps S (Run.assign x v) := by
  rw [Run.assign_eq]
  refine .modified fun m => ?_
  cases h : m.scopes.owner? m.current x with
  | some i => simpa only [h, Option.getD_some] using d.rebound m x v i h
  | none => simpa only [h, Option.getD_none] using d.bound m x v

theorem reassign (unbound : Option Fault) (x : String) (v : Value) :
    Keeps S (Run.reassign unbound x v) := by
  intro m
  cases h : m.scopes.owner? m.current x with
  | some i =>
    have hr : Run.reassign unbound x v m = .ok () { m with scopes := m.scopes.define i x v } := by
      rw [Run.reassign_eq, bind_get, h]
      rfl
    rw [finalState_ok hr]
    exact d.rebound m x v i h
  | none =>
    have hr : Run.reassign unbound x v m =
        Run.unresolved unbound (Run.error (Scopes.unassignable x none)) m := by
      rw [Run.reassign_eq, bind_get, h]
    rw [finalState, hr]
    exact Run.keeps_unresolved unbound (Run.keeps_error _) m

theorem write (s : String) : Keeps S (Run.write s) :=
  .modified fun m => d.console m m.input (m.output ++ s)

theorem readLine (atEnd : Fault) : Keeps S (Run.readLine atEnd) := by
  intro m
  by_cases h : m.input.isEmpty
  · have hrun := (Run.readLine_run atEnd m).trans (if_pos h)
    rw [finalState_error hrun]
    exact Std.Refl.refl m
  · have hrun := (Run.readLine_run atEnd m).trans (if_neg h)
    rw [finalState_ok hrun]
    exact d.console m _ m.output

theorem assignIndex (v place value : Value) (line : Nat) :
    Keeps S (Run.assignIndex v place value line) := by
  unfold Run.assignIndex
  split
  · exact .bind (Run.keeps_checkKey _ _) fun _ => (d.work _).mono d.le
  · split
    · refine .bind .get fun m => ?_
      split
      · exact (d.work _).mono d.le
      · exact Run.keeps_noEntry _
    · exact Run.keeps_error _
  · exact Run.keeps_error _

omit d in
theorem whileLoop {condition : Run Value} {body : Run Unit}
    (hcond : Keeps S condition) (hbody : Keeps S body) (limit : Int) (line : Nat) :
    ∀ n, Keeps S (Run.whileLoop limit line condition body n)
  | 0 => .bind hcond fun v => .bind (Run.keeps_isTrue v) fun _ => .ite (Run.keeps_error _) (.pure _)
  | n + 1 => by
    refine .bind hcond fun v => .bind (Run.keeps_isTrue v) fun _ => .ite ?_ (.pure _)
    exact .bind (Run.keeps_turn hbody) fun _ =>
      .ite (whileLoop hcond hbody limit line n) (.pure _)

omit d in
theorem forList (d : Discipline E S) {body : Run Unit} (hbody : Keeps S body) (x : String)
    (place : Nat) : ∀ n i, Keeps S (Run.forList x body place n i)
  | 0, _ => .throw _
  | n + 1, i => by
    refine .bind .get fun m => ?_
    split
    · exact .pure _
    · refine .bind (d.define _ _) fun _ => .bind (Run.keeps_turn hbody) fun _ => ?_
      exact .ite (d.forList hbody x place n (i + 1)) (.pure _)

omit d in
theorem forText (d : Discipline E S) {body : Run Unit} (hbody : Keeps S body) (x : String) :
    ∀ cs, Keeps S (Run.forText x body cs)
  | [] => .pure _
  | _ :: cs => .bind (d.define _ _) fun _ => .bind (Run.keeps_turn hbody) fun _ =>
    .ite (d.forText hbody x cs) (.pure _)

theorem forLoop {body : Run Unit} (hbody : Keeps S body) (turns : Nat) (x : String)
    (v : Value) (line : Nat) : Keeps E (Run.forLoop turns x v body line) := by
  unfold Run.forLoop
  split
  · exact .bind .get fun _ => d.entered _ _ (d.forList hbody _ _ _ _)
  · exact .bind .get fun _ => d.entered _ _ (d.forText hbody _ _)
  · exact Run.keeps_error _

theorem print (vs : List Value) : Keeps S (Run.print vs) :=
  .bind .get fun _ => .bind (Run.keeps_lift _) fun _ => d.write _

theorem defineClass (unbound : Option Fault) (x : String) (parent : Option String)
    (methods : List FunctionDef) (line : Nat) :
    Keeps S (Run.defineClass unbound x parent methods line) := by
  have bound (p : Option ClassValue) : Keeps S (do
      Run.define x (.classValue (.mk x p (Run.methodsOf methods (← get).current)))) :=
    .bind .get fun _ => d.define _ _
  unfold Run.defineClass
  dsimp only
  split
  · exact .bind ((Run.keeps_classNamed _ _ _).map _) bound
  · exact .bind (.pure _) bound

theorem handle {handler : Run Unit} (hh : Keeps S handler) (lang : Lang)
    (caught : Option Diagnostic) (x? : Option String) (isEmpty : Bool) :
    Keeps E (Run.handle lang caught x? isEmpty handler) := by
  unfold Run.handle
  split
  · exact .pure _
  · refine .ite (.pure _) (.bind .get fun _ => ?_)
    exact (d.entered _ _ hh).bind_bind fun _ => .pure _

end

mutual

theorem stmt (d : Discipline E S) (hc : ∀ t, Keeps S (c.perform t)) : ∀ s, Keeps S (Exec.stmt c s)
  | .expr e => by
    rw [Exec.stmt]
    exact .bind ((d.expr hc e).mono d.le) fun _ => .pure _
  | .assign x e _ => by
    rw [Exec.stmt]
    exact .bind ((d.expr hc e).mono d.le) fun v => d.assign x v
  | .setProperty a x e l => by
    rw [Exec.stmt]
    refine .bind ((d.expr hc a).mono d.le) fun v => ?_
    split
    · exact .bind ((d.expr hc e).mono d.le) fun _ => (d.work _).mono d.le
    · exact .bind (Run.keeps_objectFor _ _ _) fun _ => .pure _
  | .setIndex a i e l => by
    rw [Exec.stmt]
    refine .bind ((d.expr hc a).mono d.le) fun v => .bind ((d.expr hc i).mono d.le) fun place => ?_
    exact .bind ((d.expr hc e).mono d.le) fun w => d.assignIndex v place w l
  | .print es _ => by
    rw [Exec.stmt]
    exact .bind ((d.exprs hc es).mono d.le) fun vs => d.print vs
  | .input x (some e) _ => by
    rw [Exec.stmt]
    refine .bind ((d.expr hc e).mono d.le) fun v => .bind (Run.keeps_text v) fun _ => ?_
    refine .bind (d.write _) fun _ => .bind (d.readLine _) fun _ => ?_
    exact d.reassign _ _ _
  | .input x none _ => by
    rw [Exec.stmt]
    · exact .bind (d.readLine _) fun _ => d.reassign _ _ _
    · nofun
  | .ifElse condition body bs (some b) _ => by
    rw [Exec.stmt]
    refine .bind ((d.expr hc condition).mono d.le) fun v => .bind (Run.keeps_isTrue v) fun _ => ?_
    refine .ite (d.stmts hc body) (.bind (d.branches hc bs) fun _ => .ite (.pure _) ?_)
    exact d.stmts hc b
  | .ifElse condition body bs none _ => by
    rw [Exec.stmt]
    refine .bind ((d.expr hc condition).mono d.le) fun v => .bind (Run.keeps_isTrue v) fun _ => ?_
    refine .ite (d.stmts hc body) (.bind (d.branches hc bs) fun _ => .ite (.pure _) ?_)
    exact .pure _
  | .whileLoop condition body l => by
    rw [Exec.stmt]
    exact whileLoop ((d.expr hc condition).mono d.le) (d.stmts hc body) _ _ _
  | .forLoop x e body l => by
    rw [Exec.stmt]
    exact .bind ((d.expr hc e).mono d.le) fun v =>
      (d.forLoop (d.stmts hc body) _ _ _ _).mono d.le
  | .breakLoop _ => by
    rw [Exec.stmt]
    exact .throw _
  | .continueLoop _ => by
    rw [Exec.stmt]
    exact .throw _
  | .function f => by
    rw [Exec.stmt]
    exact .bind .get fun _ => d.define _ _
  | .giveBack (some e) _ => by
    rw [Exec.stmt]
    exact .bind ((d.expr hc e).mono d.le) fun _ => .throw _
  | .giveBack none _ => by
    rw [Exec.stmt]
    exact .throw _
  | .classDef x parent methods l => by
    rw [Exec.stmt]
    exact d.defineClass _ _ _ _ _
  | .attempt body x handler finalizer _ => by
    have again (pending : Option Diagnostic) : Keeps S (match pending with
        | some d => Run.error d
        | _ => pure () : Run Unit) := by
      split
      · exact Run.keeps_error _
      · exact .pure _
    have ending (pending : Option Diagnostic) : Keeps S (match finalizer with
        | some b => (do
          let _ ← Exec.stmts c b
          match pending with
          | some d => Run.error d
          | _ => pure ())
        | none => match pending with
          | some d => Run.error d
          | _ => pure () : Run Unit) := by
      match finalizer with
      | some b => exact .bind (d.stmts hc b) fun _ => again pending
      | none => exact again pending
    rw [Exec.stmt]
    refine .bind (Run.keeps_attempt (d.stmts hc body)) fun caught => ?_
    match handler with
    | some b => exact .bind ((d.handle (d.stmts hc b) _ _ _ _).mono d.le) ending
    | none => exact .bind (.pure _) ending
  | .raiseError e _ => by
    rw [Exec.stmt]
    exact .bind ((d.expr hc e).mono d.le) fun v =>
      .bind (Run.keeps_text v) fun _ => Run.keeps_fault _
  | .importFile x _ => by
    rw [Exec.stmt]
    exact .bind (Run.keeps_fileStatements _ _) fun _ => Run.keeps_guardImport (hc _).discard
  | .foreign cls _ l => by
    rw [Exec.stmt]
    exact Run.keeps_error _
termination_by structural s => s

theorem stmts (d : Discipline E S) (hc : ∀ t, Keeps S (c.perform t)) :
    ∀ ss, Keeps S (Exec.stmts c ss)
  | [] => by
    rw [Exec.stmts]
    exact .pure _
  | s :: ss => by
    rw [Exec.stmts]
    exact .bind (d.stmt hc s) fun _ => d.stmts hc ss
termination_by structural ss => ss

theorem branches (d : Discipline E S) (hc : ∀ t, Keeps S (c.perform t)) :
    ∀ bs, Keeps S (Exec.branches c bs)
  | [] => by
    rw [Exec.branches]
    exact .pure _
  | .mk condition body :: bs => by
    rw [Exec.branches]
    refine .bind ((d.expr hc condition).mono d.le) fun v => .bind (Run.keeps_isTrue v) fun _ => ?_
    exact .ite (.bind (d.stmts hc body) fun _ => .pure _) (d.branches hc bs)
termination_by structural bs => bs

end

/-- A body respects the relation if the bodies it enters do, one level further down. -/
theorem perform (d : Discipline E S) (s : Setting) : ∀ n t, Keeps S (Bhasha.perform s n t)
  | 0, _ => .throw _
  | n + 1, .statements ss => .bind (d.stmts (d.perform s n) ss) fun _ => .pure _
  | n + 1, .expression e => (d.expr (d.perform s n) e).mono d.le

theorem execute (d : Discipline E S) (s : Setting) (ss : List Stmt) :
    Keeps S (Bhasha.execute s ss) :=
  (Run.keeps_result (d.perform s budget _).discard).discard

end Discipline

end Bhasha
