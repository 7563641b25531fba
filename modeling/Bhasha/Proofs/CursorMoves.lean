import Bhasha.Program.Parser
import Bhasha.Proofs.StateRelations

namespace Bhasha

namespace Cursor

/-- The cursor is moved in one way only, a token at a time and never past the end mark. -/
inductive Advances : Cursor → Cursor → Prop
  | refl (c) : Advances c c
  | step {c c'} : Advances c c' → Advances c c'.advanced

instance : Std.Refl Advances := ⟨.refl⟩

instance : IsTrans Cursor Advances where
  trans _ _ _ h h' := by
    induction h' with
    | refl => exact h
    | step _ ih => exact ih.step

theorem Advances.same {c c' : Cursor} (h : c.Advances c') :
    c'.tokens = c.tokens ∧ c'.errors = c.errors ∧ c.index ≤ c'.index := by
  induction h with
  | refl => exact ⟨rfl, rfl, Nat.le_refl _⟩
  | @step c' _ ih =>
    rw [advanced]
    split
    · exact ih
    · exact ⟨ih.1, ih.2.1, Nat.le_succ_of_le ih.2.2⟩

end Cursor

namespace Parse

variable {α : Type}

/-- However `p` ends, it has only advanced the cursor. -/
abbrev Steady (p : Parse α) : Prop :=
  Keeps Cursor.Advances p

theorem steady_current : Steady current :=
  .bind .get fun _ => .pure _

theorem steady_line : Steady line :=
  .bind .get fun _ => .pure _

theorem steady_atEnd : Steady atEnd :=
  .bind .get fun _ => .pure _

theorem steady_advance : Steady advance := by
  refine .bind (.modified fun c => (Cursor.Advances.refl c).step) fun _ => .bind .get fun c => ?_
  split
  · exact .pure _
  · exact .throw _

theorem steady_sees (k : TokenKind) : Steady (sees k) :=
  .bind steady_current fun _ => .pure _

theorem steady_seesAny (ks : List TokenKind) : Steady (seesAny ks) :=
  .bind steady_current fun _ => .pure _

theorem steady_expect (k : TokenKind) : Steady (expect k) :=
  .bind (steady_sees k) fun _ => .ite steady_advance (.throw _)

theorem steady_nameOr (f : Fault) : Steady (nameOr f) :=
  .bind steady_current fun _ => .ite (.bind steady_advance fun _ => .pure _) (.throw _)

theorem steady_name : Steady name :=
  steady_nameOr _

theorem steady_memberName : Steady memberName :=
  steady_nameOr _

section

variable {item : Parse α}

theorem Steady.commaTail (h : Steady item) (n : Nat) (found : List α) :
    Steady (commaTail item n found) := by
  induction n generalizing found with
  | zero => exact .throw _
  | succ n ih =>
    refine .bind (steady_sees _) fun _ => .ite ?_ (.pure _)
    exact .bind steady_advance fun _ => .bind h fun a => ih _

theorem Steady.separated (h : Steady item) : Steady (separated item) :=
  .bind h fun _ => .bind .get fun _ => h.commaTail _ _

theorem Steady.commaTailUpTo (h : Steady item) (close : TokenKind) (n : Nat) (found : List α) :
    Steady (commaTailUpTo close item n found) := by
  induction n generalizing found with
  | zero => exact .throw _
  | succ n ih =>
    refine .bind (steady_sees _) fun _ => .ite ?_ (.pure _)
    refine .bind steady_advance fun _ => .bind (steady_sees _) fun _ => .ite (.pure _) ?_
    exact .bind h fun a => ih _

theorem Steady.literalItems (h : Steady item) (close : TokenKind) :
    Steady (literalItems close item) := by
  have hrest : ∀ items : List α, Steady (do let _ ← expect close; return items) := fun _ =>
    .bind (steady_expect _) fun _ => .pure _
  refine .bind (steady_sees _) fun _ => .ite (.bind (.pure _) hrest) ?_
  exact .bind h fun _ => .bind .get fun _ => .bind (h.commaTailUpTo _ _ _) hrest

theorem Steady.enclosed (h : Steady item) : Steady (enclosed item) := by
  have hrest : ∀ items : List α, Steady (do let _ ← expect .rparen; return items) := fun _ =>
    .bind (steady_expect _) fun _ => .pure _
  exact .bind (steady_sees _) fun _ => .ite (.bind (.pure _) hrest) (.bind h.separated hrest)

theorem Steady.itemsUntil (h : Steady item) (close : TokenKind) (n : Nat) (found : List α) :
    Steady (itemsUntil close item n found) := by
  induction n generalizing found with
  | zero => exact .throw _
  | succ n ih => exact .bind (steady_sees _) fun _ => .ite (.pure _) (.bind h fun a => ih _)

theorem Steady.braced (h : Steady item) : Steady (braced item) :=
  .bind (steady_expect _) fun _ => .bind .get fun _ => .bind (h.itemsUntil _ _ _) fun _ =>
    .bind (steady_expect _) fun _ => .pure _

end

section

variable {expr : Parse Expr}

theorem Steady.pair (h : Steady expr) : Steady (pair expr) :=
  .bind h fun _ => .bind (steady_expect _) fun _ => .bind h fun _ => .pure _

theorem Steady.optionalArguments (h : Steady expr) : Steady (optionalArguments expr) :=
  .bind (steady_sees _) fun _ => .ite (.bind steady_advance fun _ => h.enclosed) (.pure _)

theorem Steady.list (h : Steady expr) : Steady (list expr) :=
  .bind steady_line fun _ => .bind (steady_expect _) fun _ => .bind (h.literalItems _) fun _ =>
    .pure _

theorem Steady.dict (h : Steady expr) : Steady (dict expr) :=
  .bind steady_line fun _ => .bind (steady_expect _) fun _ => .bind (h.pair.literalItems _) fun _ =>
    .pure _

theorem Steady.newObject (h : Steady expr) : Steady (newObject expr) :=
  .bind steady_line fun _ => .bind (steady_expect _) fun _ => .bind steady_name fun _ =>
    .bind h.optionalArguments fun _ => .pure _

theorem Steady.lambda (h : Steady expr) : Steady (lambda expr) := by
  refine .bind steady_line fun _ => .bind (steady_expect _) fun _ => ?_
  refine .bind (steady_sees _) fun _ => ?_
  have hbody : ∀ xs l, Steady (do
      let _ ← expect .colon
      return Expr.lambda xs (← expr) l) := fun _ _ =>
    .bind (steady_expect _) fun _ => .bind h fun _ => .pure _
  exact .ite (.bind (Steady.separated steady_name) fun _ => hbody _ _)
    (.bind (.pure _) fun _ => hbody _ _)

theorem Steady.superCall (h : Steady expr) : Steady (superCall expr) :=
  .bind steady_line fun _ => .bind (steady_expect _) fun _ => .bind (steady_expect _) fun _ =>
    .bind steady_memberName fun _ => .bind h.optionalArguments fun _ => .pure _

theorem Steady.primary (h : Steady expr) : Steady (primary expr) := by
  refine .bind steady_current fun t => ?_
  have hpure : ∀ e : Expr, Steady (do let _ ← advance; return e) := fun _ =>
    .bind steady_advance fun _ => .pure _
  split
  case h_4 => exact h.list
  case h_5 => exact h.dict
  case h_6 => exact h.newObject
  case h_7 => exact h.lambda
  case h_9 => exact h.superCall
  case h_11 =>
    exact .bind steady_advance fun _ => .bind h fun _ => .bind (steady_expect _) fun _ => .pure _
  case h_12 => exact .throw _
  all_goals exact hpure _

theorem Steady.postfixes (h : Steady expr) (n : Nat) (e : Expr) : Steady (postfixes expr n e) := by
  induction n generalizing e with
  | zero => exact .throw _
  | succ n ih =>
    refine .bind steady_current fun t => ?_
    split
    · split
      · exact .bind steady_advance fun _ => .bind h.enclosed fun _ => ih _
      · exact .throw _
    · exact .bind steady_advance fun _ => .bind h fun _ => .bind (steady_expect _) fun _ => ih _
    · refine .bind steady_advance fun _ => .bind steady_memberName fun _ =>
        .bind (steady_sees _) fun _ => .ite ?_ (ih _)
      exact .bind steady_advance fun _ => .bind h.enclosed fun _ => ih _
    · exact .pure _

theorem Steady.applied (h : Steady expr) : Steady (applied expr) :=
  .bind h.primary fun _ => .bind .get fun _ => h.postfixes _ _

theorem Steady.signs (h : Steady expr) (n : Nat) : Steady (signs expr n) := by
  induction n with
  | zero => exact .throw _
  | succ n ih =>
    refine .bind steady_current fun t => ?_
    split
    · exact .bind steady_advance fun _ => .bind ih fun _ => .pure _
    · exact .bind steady_advance fun _ => .bind ih fun _ => .pure _
    · exact h.applied

theorem Steady.unary (h : Steady expr) : Steady (unary expr) :=
  .bind .get fun _ => h.signs _

theorem Steady.chain {operand : Parse Expr} (h : Steady operand) (ops : List TokenKind) (n : Nat)
    (left : Expr) : Steady (chain ops operand n left) := by
  induction n generalizing left with
  | zero => exact .throw _
  | succ n ih =>
    refine .bind steady_current fun t => .ite ?_ (.pure _)
    exact .bind steady_advance fun _ => .bind h fun _ => ih _

theorem Steady.level {operand : Parse Expr} (h : Steady operand) (ops : List TokenKind) :
    Steady (level ops operand) :=
  .bind h fun _ => .bind .get fun _ => h.chain _ _ _

theorem Steady.disjunction (h : Steady expr) : Steady (disjunction expr) :=
  (((((h.unary.level _).level _).level _).level _).level _).level _

theorem steady_expressionWithin (n : Nat) : Steady (expressionWithin n) := by
  induction n with
  | zero => exact .throw _
  | succ n ih => exact ih.disjunction

theorem steady_expression : Steady expression :=
  .bind .get fun _ => steady_expressionWithin _

end

theorem steady_declaration : Steady declaration :=
  .bind steady_line fun _ => .bind (steady_expect _) fun _ => .bind steady_name fun _ =>
    .bind (steady_expect _) fun _ => .bind steady_expression fun _ => .pure _

theorem steady_print : Steady print :=
  .bind steady_line fun _ => .bind (steady_expect _) fun _ => .bind (steady_expect _) fun _ =>
    .bind (Steady.enclosed steady_expression) fun _ => .pure _

theorem steady_input : Steady input :=
  .bind steady_line fun _ => .bind (steady_expect _) fun _ => .bind steady_name fun _ =>
    .bind steady_current fun _ => .ite (.bind steady_advance fun _ => .pure _) (.pure _)

theorem steady_giveBack : Steady giveBack :=
  .bind steady_line fun _ => .bind (steady_expect _) fun _ => .bind (steady_seesAny _) fun _ =>
    .ite (.pure _) (.bind steady_expression fun _ => .pure _)

theorem steady_raiseError : Steady raiseError :=
  .bind steady_line fun _ => .bind (steady_expect _) fun _ => .bind steady_expression fun _ =>
    .pure _

theorem steady_thisAssignment : Steady thisAssignment := by
  refine .bind steady_line fun _ => .bind steady_advance fun _ => .bind (steady_sees _) fun _ =>
    .ite ?_ (.throw _)
  exact .bind steady_advance fun _ => .bind steady_memberName fun _ =>
    .bind (steady_expect _) fun _ => .bind steady_expression fun _ => .pure _

theorem steady_named : Steady named := by
  have hargs : Steady (enclosed expression) := Steady.enclosed steady_expression
  refine .bind steady_line fun _ => .bind steady_name fun _ => .bind steady_current fun t => ?_
  split
  · refine .bind steady_advance fun _ => .bind steady_memberName fun _ =>
      .bind (steady_sees _) fun _ => .ite ?_ ?_
    · exact .bind steady_advance fun _ => .bind hargs fun _ => .pure _
    · exact .bind (steady_expect _) fun _ => .bind steady_expression fun _ => .pure _
  · exact .bind steady_advance fun _ => .bind steady_expression fun _ =>
      .bind (steady_expect _) fun _ => .bind (steady_expect _) fun _ =>
        .bind steady_expression fun _ => .pure _
  · exact .bind steady_advance fun _ => .bind steady_expression fun _ => .pure _
  · exact .bind steady_advance fun _ => .bind hargs fun _ => .pure _
  · exact .throw _

theorem steady_assignmentOrExpression : Steady assignmentOrExpression :=
  .bind (steady_sees _) fun _ => .ite steady_thisAssignment (.bind (steady_sees _) fun _ =>
    .ite steady_named (.bind steady_expression fun _ => .pure _))

section

variable {stmt : Parse Stmt}

theorem Steady.branches (h : Steady stmt) (n : Nat) (found : List Branch) :
    Steady (branches stmt n found) := by
  induction n generalizing found with
  | zero => exact .throw _
  | succ n ih =>
    refine .bind (steady_sees _) fun _ => .ite ?_ (.pure _)
    exact .bind steady_advance fun _ => .bind steady_expression fun _ =>
      .bind h.braced fun _ => ih _

theorem Steady.optionalBlock (h : Steady stmt) (k : TokenKind) : Steady (optionalBlock k stmt) :=
  .bind (steady_sees _) fun _ =>
    .ite (.bind steady_advance fun _ => .bind h.braced fun _ => .pure _) (.pure _)

theorem Steady.conditional (h : Steady stmt) : Steady (conditional stmt) :=
  .bind steady_line fun _ => .bind (steady_expect _) fun _ => .bind steady_expression fun _ =>
    .bind h.braced fun _ => .bind .get fun _ => .bind (h.branches _ _) fun _ =>
      .bind (h.optionalBlock _) fun _ => .pure _

theorem Steady.whileLoop (h : Steady stmt) : Steady (whileLoop stmt) :=
  .bind steady_line fun _ => .bind (steady_expect _) fun _ => .bind steady_expression fun _ =>
    .bind h.braced fun _ => .pure _

theorem Steady.forLoop (h : Steady stmt) : Steady (forLoop stmt) :=
  .bind steady_line fun _ => .bind (steady_expect _) fun _ => .bind steady_name fun _ =>
    .bind (steady_expect _) fun _ => .bind steady_expression fun _ =>
      .bind h.braced fun _ => .pure _

theorem Steady.functionDef (h : Steady stmt) : Steady (functionDef stmt) :=
  .bind steady_line fun _ => .bind (steady_expect _) fun _ => .bind steady_name fun _ =>
    .bind (steady_expect _) fun _ => .bind (Steady.enclosed steady_name) fun _ =>
      .bind h.braced fun _ => .pure _

theorem Steady.methodDef (h : Steady stmt) : Steady (methodDef stmt) :=
  .bind (steady_sees _) fun _ => .ite h.functionDef (.throw _)

theorem Steady.classDef (h : Steady stmt) : Steady (classDef stmt) := by
  refine .bind steady_line fun l => .bind (steady_expect _) fun _ => .bind steady_name fun x =>
    .bind (steady_sees _) fun _ => ?_
  have hbody : ∀ parent, Steady (do
      return Stmt.classDef x parent (← Parse.braced (Parse.methodDef stmt)) l) := fun _ =>
    .bind h.methodDef.braced fun _ => .pure _
  exact .ite (.bind steady_advance fun _ => .bind (steady_name.map _) hbody) (.bind (.pure _) hbody)

theorem Steady.attempt (h : Steady stmt) : Steady (attempt stmt) := by
  refine .bind steady_line fun l => .bind (steady_expect _) fun _ => .bind h.braced fun body =>
    .bind (steady_sees _) fun _ => ?_
  have hlast : ∀ caught : Option String × Option (List Stmt), Steady (do
      let finalizer ← Parse.optionalBlock .finallyKw stmt
      return Stmt.attempt body caught.1 caught.2 finalizer l) := fun _ =>
    .bind (h.optionalBlock _) fun _ => .pure _
  refine .ite (.bind steady_advance fun _ => .bind (steady_sees _) fun _ => ?_)
    (.bind (.pure _) hlast)
  have hhandler : ∀ x?, Steady (do
      let handler ← Parse.braced stmt
      let caught ← pure (x?, some handler)
      let finalizer ← Parse.optionalBlock .finallyKw stmt
      return Stmt.attempt body caught.1 caught.2 finalizer l) := fun _ =>
    .bind h.braced fun _ => .bind (.pure _) hlast
  exact .ite (.bind (steady_name.map _) hhandler) (.bind (.pure _) hhandler)

theorem Steady.statementWith (h : Steady stmt) : Steady (statementWith stmt) := by
  refine .bind steady_current fun t => ?_
  have hpure : ∀ s : Stmt, Steady (do let _ ← advance; return s) := fun _ =>
    .bind steady_advance fun _ => .pure _
  split
  case h_1 => exact steady_declaration
  case h_2 => exact steady_print
  case h_3 => exact steady_input
  case h_4 => exact h.conditional
  case h_5 => exact h.whileLoop
  case h_6 => exact h.forLoop
  case h_7 => exact hpure _
  case h_8 => exact hpure _
  case h_9 => exact h.functionDef.map _
  case h_10 => exact steady_giveBack
  case h_11 => exact h.classDef
  case h_12 => exact h.attempt
  case h_13 => exact steady_raiseError
  case h_16 => exact .throw _
  all_goals exact steady_assignmentOrExpression

end

theorem steady_statementWithin (n : Nat) : Steady (statementWithin n) := by
  induction n with
  | zero => exact .throw _
  | succ n ih => exact ih.statementWith

theorem steady_statement : Steady statement :=
  .bind .get fun _ => steady_statementWithin _

theorem steady_synchronizeWithin (n : Nat) : Steady (synchronizeWithin n) := by
  induction n with
  | zero => exact .throw _
  | succ n ih =>
    refine .bind steady_atEnd fun _ => .ite (.pure _) (.bind (steady_seesAny _) fun _ => .ite ?_ ?_)
    · exact .bind (steady_sees _) fun _ => .ite (.pure _) (.bind steady_advance fun _ => .pure _)
    · exact .bind steady_advance fun _ => ih

theorem steady_synchronize : Steady synchronize :=
  .bind .get fun _ => steady_synchronizeWithin _

end Parse

end Bhasha
