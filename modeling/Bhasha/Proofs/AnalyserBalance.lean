import Bhasha.Analysis
import Bhasha.Proofs.ScopeNesting

namespace Bhasha

namespace Bindings

variable {α : Type}

/-- A name that is bound for the first time comes last. -/
theorem names_prefix_bind (b : Bindings α) (x : String) (v : α) :
    b.names <+: (b.bind x v).names := by
  induction b with
  | nil => exact List.nil_prefix
  | cons e b ih =>
    obtain ⟨y, w⟩ := e
    by_cases hyx : y = x
    · simp [Bindings.bind, Bindings.names, hyx]
    · have hbind : Bindings.bind ((y, w) :: b) x v = (y, w) :: Bindings.bind b x v := by
        simp [Bindings.bind, hyx]
      rw [hbind]
      exact List.cons_prefix_cons.2 ⟨rfl, ih⟩

end Bindings

/-- The scope `b'` has the names of `b` and says the same of each, but that a name that was none of
a variable may be one now. Then it was assigned to, and `assigned` has it with the line. -/
structure Rebinds (assigned : List (String × Nat)) (b b' : Bindings Symbol) : Prop where
  names : b.names <+: b'.names
  symbols : ∀ x s, b.find? x = some s → ∃ s', b'.find? x = some s' ∧
    (s' = s ∨ s.kind ≠ .var ∧ s'.kind = .var ∧ s'.name = x ∧ (x, s'.line) ∈ assigned)

namespace Rebinds

variable {assigned : List (String × Nat)} {b b' b'' : Bindings Symbol}

theorem of_eq (h : b' = b) : Rebinds assigned b b' := by
  subst h
  exact ⟨List.prefix_refl _, fun x s hs => ⟨s, hs, .inl rfl⟩⟩

theorem trans (h : Rebinds assigned b b') (h' : Rebinds assigned b' b'') :
    Rebinds assigned b b'' := by
  refine ⟨h.names.trans h'.names, fun x s hs => ?_⟩
  obtain ⟨s', hs', hfirst⟩ := h.symbols x s hs
  obtain ⟨s'', hs'', hsecond⟩ := h'.symbols x s' hs'
  refine ⟨s'', hs'', ?_⟩
  rcases hsecond with rfl | ⟨hold, hnew, hname, hmem⟩
  · exact hfirst
  · -- A variable stays one, so only one of the two steps can have changed the symbol.
    rcases hfirst with rfl | ⟨-, hvar, -⟩
    · exact .inr ⟨hold, hnew, hname, hmem⟩
    · exact absurd hvar hold

/-- A name that the scope did not have. -/
theorem bind_new {s : Symbol} (h : b.find? s.name = none) :
    Rebinds assigned b (b.bind s.name s) := by
  refine ⟨Bindings.names_prefix_bind b s.name s, fun x t ht => ⟨t, ?_, .inl rfl⟩⟩
  have hne : s.name ≠ x := by
    rintro rfl
    rw [h] at ht
    cases ht
  rw [Bindings.find?_bind, if_neg hne, ht]

/-- A name that was none of a variable is assigned to. -/
theorem bind_var {s : Symbol} (hkind : s.kind = .var)
    (h : ∀ t, b.find? s.name = some t → t.kind ≠ .var) (hmem : (s.name, s.line) ∈ assigned) :
    Rebinds assigned b (b.bind s.name s) := by
  refine ⟨Bindings.names_prefix_bind b s.name s, fun x t ht => ?_⟩
  by_cases hx : s.name = x
  · subst hx
    refine ⟨s, ?_, .inr ⟨h t ht, hkind, rfl, hmem⟩⟩
    rw [Bindings.find?_bind, if_pos rfl]
  · refine ⟨t, ?_, .inl rfl⟩
    rw [Bindings.find?_bind, if_neg hx, ht]

end Rebinds

instance {assigned : List (String × Nat)} : Std.Refl (Rebinds assigned) :=
  ⟨fun _ => .of_eq rfl⟩

instance {assigned : List (String × Nat)} : IsTrans (Bindings Symbol) (Rebinds assigned) :=
  ⟨fun _ _ _ => Rebinds.trans⟩

/-- A scope that is about to be left may change in any way. -/
def Scratch (_ _ : Bindings Symbol) : Prop :=
  True

instance : Std.Refl Scratch :=
  ⟨fun _ => trivial⟩

instance : IsTrans (Bindings Symbol) Scratch :=
  ⟨fun _ _ _ _ _ => trivial⟩

/-- The analyser is in the same scopes, functions, classes and loops as before, and has forgotten no
error. The innermost scope has changed as `R` says, the ones around it not at all. -/
structure Analysis.Balanced (R : Bindings Symbol → Bindings Symbol → Prop) (a a' : Analysis) :
    Prop where
  inner : R a.scope.inner a'.scope.inner
  outer : a'.scope.outer = a.scope.outer
  functions : a'.functions = a.functions
  classes : a'.classes = a.classes
  loops : a'.loops = a.loops
  errors : a.errors <+: a'.errors

namespace Analysis.Balanced

variable {R R' : Bindings Symbol → Bindings Symbol → Prop} {a a' a'' : Analysis}

theorem refl [Std.Refl R] (a : Analysis) : a.Balanced R a :=
  ⟨Std.Refl.refl _, rfl, rfl, rfl, rfl, List.prefix_refl _⟩

theorem trans [IsTrans (Bindings Symbol) R] (h : a.Balanced R a') (h' : a'.Balanced R a'') :
    a.Balanced R a'' where
  inner := trans_of R h.inner h'.inner
  outer := h'.outer.trans h.outer
  functions := h'.functions.trans h.functions
  classes := h'.classes.trans h.classes
  loops := h'.loops.trans h.loops
  errors := h.errors.trans h'.errors

theorem mono (h : a.Balanced R a') (hR : ∀ b b', R b b' → R' b b') : a.Balanced R' a' :=
  { h with inner := hR _ _ h.inner }

theorem depth (h : a.Balanced R a') : a'.scope.depth = a.scope.depth := by
  rw [SymbolTable.depth, SymbolTable.depth, h.outer]

/-- If the innermost scope has not changed, no scope has. -/
theorem scope (h : a.Balanced Eq a') : a'.scope = a.scope := by
  show (⟨a'.scope.inner, a'.scope.outer⟩ : SymbolTable) = a.scope
  rw [← h.inner, h.outer]

end Analysis.Balanced

/-- From the state `a` the analyser gets through `p`, and comes back. -/
def ComesBackFrom {α : Type} (R : Bindings Symbol → Bindings Symbol → Prop) (p : Analyse α)
    (a : Analysis) : Prop :=
  ∃ v a', p a = .ok v a' ∧ a.Balanced R a'

/-- The analyser gets through `p` from any state, and comes back. -/
def ComesBack {α : Type} (R : Bindings Symbol → Bindings Symbol → Prop) (p : Analyse α) : Prop :=
  ∀ a, ComesBackFrom R p a

namespace ComesBack

variable {α β : Type} {R R' : Bindings Symbol → Bindings Symbol → Prop} {p q : Analyse α}

theorem mono (h : ComesBack R p) (hR : ∀ b b', R b b' → R' b b') : ComesBack R' p := by
  intro a
  obtain ⟨v, a', hp, hb⟩ := h a
  exact ⟨v, a', hp, hb.mono hR⟩

theorem pure [Std.Refl R] (v : α) : ComesBack R (Pure.pure v : Analyse α) :=
  fun a => ⟨v, a, rfl, .refl a⟩

theorem bindFrom [IsTrans (Bindings Symbol) R] {f : α → Analyse β} {a : Analysis}
    (hp : ComesBackFrom R p a) (hf : ∀ v, ComesBack R (f v)) : ComesBackFrom R (p >>= f) a := by
  obtain ⟨v, a₁, hrun, hb⟩ := hp
  obtain ⟨w, a₂, hrun', hb'⟩ := hf v a₁
  exact ⟨w, a₂, (bind_of_ok hrun).trans hrun', hb.trans hb'⟩

theorem bind [IsTrans (Bindings Symbol) R] {f : α → Analyse β} (hp : ComesBack R p)
    (hf : ∀ v, ComesBack R (f v)) : ComesBack R (p >>= f) :=
  fun a => bindFrom (hp a) hf

theorem get {f : Analysis → Analyse β} (hf : ∀ a, ComesBackFrom R (f a) a) :
    ComesBack R (MonadState.get >>= f) :=
  hf

theorem ite {c : Prop} [Decidable c] (hp : ComesBack R p) (hq : ComesBack R q) :
    ComesBack R (if c then p else q) := by
  by_cases hc : c
  · rwa [if_pos hc]
  · rwa [if_neg hc]

theorem report [Std.Refl R] (d : Diagnostic) : ComesBack R (Analyse.report d) :=
  fun _ => ⟨(), _, rfl, Std.Refl.refl _, rfl, rfl, rfl, rfl, List.prefix_append _ _⟩

theorem resolve [Std.Refl R] [IsTrans (Bindings Symbol) R] (x : String) (line : Nat) :
    ComesBack R (Analyse.resolve x line) := by
  apply get
  intro a
  apply ite
  · exact bind (get fun _ => report _ _) fun _ => pure _
  · exact pure _

theorem checkArity [Std.Refl R] (s : Symbol) (x : String) (given line : Nat) :
    ComesBack R (Analyse.checkArity s x given line) := by
  unfold Analyse.checkArity
  split
  · exact ite (report _) (pure _)
  · exact pure _

/-- A symbol that may be bound in the innermost scope as it is. -/
theorem define {s : Symbol} {a : Analysis} (h : R a.scope.inner (a.scope.inner.bind s.name s)) :
    ComesBackFrom R (Analyse.define s) a :=
  ⟨(), _, rfl, h, rfl, rfl, rfl, rfl, List.prefix_refl _⟩

theorem declare {assigned : List (String × Nat)} (s : Symbol) :
    ComesBack (Rebinds assigned) (Analyse.declare s) := by
  apply get
  intro a
  split
  · exact report _ a
  · next hnew => exact define (.bind_new hnew)

theorem assign {assigned : List (String × Nat)} {x : String} {line : Nat} (tag : Tag)
    (h : (x, line) ∈ assigned) : ComesBack (Rebinds assigned) (Analyse.assign x tag line) := by
  apply get
  intro a
  split
  · exact pure _ a
  · next hnone =>
    refine define (.bind_var rfl (fun t ht hvar => ?_) h)
    obtain ⟨name, kind, tag', line', arity⟩ := t
    cases hvar
    exact hnone _ _ _ _ ht

theorem parameters (ps : List String) (line : Nat) :
    ComesBack Scratch (Analyse.parameters ps line) := by
  unfold Analyse.parameters
  induction ps with
  | nil => exact pure _
  | cons p ps ih => exact bind (fun _ => define trivial) fun _ => ih

/-- A scope that was opened is closed again, so that the scopes are the same as before. -/
theorem inScope {body : Analyse Unit} (h : ComesBack Scratch body) :
    ComesBack Eq (Analyse.inScope body) := by
  intro a
  obtain ⟨_, a₁, hbody, hb⟩ := h { a with scope := a.scope.enter }
  have hexit : a₁.scope.exit = .ok a.scope := by
    rw [SymbolTable.exit, hb.outer]
    rfl
  have henter : (modify fun a => { a with scope := a.scope.enter } : Analyse PUnit) a =
      .ok () { a with scope := a.scope.enter } := rfl
  have hrun : Analyse.inScope body a = .ok () { a₁ with scope := a.scope } := by
    rw [Analyse.inScope, bind_of_ok henter, bind_of_ok hbody, bind_get, hexit]
    rfl
  exact ⟨(), _, hrun, rfl, rfl, hb.functions, hb.classes, hb.loops, hb.errors⟩

/-- What is noted before `body` is taken back behind it. -/
theorem wrapped {note undo : Analysis → Analysis} {body : Analyse Unit} (h : ComesBack Eq body)
    (hundo : ∀ {a a' : Analysis}, (note a).Balanced Eq a' → a.Balanced Eq (undo a')) :
    ComesBack Eq (do modify note; body; modify undo) := by
  intro a
  obtain ⟨_, a₁, hbody, hb⟩ := h (note a)
  have hnote : (modify note : Analyse PUnit) a = .ok () (note a) := rfl
  refine ⟨(), undo a₁, ?_, hundo hb⟩
  rw [bind_of_ok hnote, bind_of_ok hbody]
  rfl

theorem inLoop {body : Analyse Unit} (h : ComesBack Eq body) :
    ComesBack Eq (Analyse.inLoop body) := by
  apply wrapped h
  intro a a' hb
  refine ⟨hb.inner, hb.outer, hb.functions, hb.classes, ?_, hb.errors⟩
  show a'.loops - 1 = a.loops
  have hloops : a'.loops = a.loops + 1 := hb.loops
  omega

theorem inFunction (x : String) {body : Analyse Unit} (h : ComesBack Eq body) :
    ComesBack Eq (Analyse.inFunction x body) := by
  apply wrapped h
  intro a a' hb
  exact ⟨hb.inner, hb.outer, congrArg List.tail hb.functions, hb.classes, hb.loops, hb.errors⟩

theorem inClass (x : String) {body : Analyse Unit} (h : ComesBack Eq body) :
    ComesBack Eq (Analyse.inClass x body) := by
  apply wrapped h
  intro a a' hb
  exact ⟨hb.inner, hb.outer, hb.functions, congrArg List.tail hb.classes, hb.loops, hb.errors⟩

mutual

theorem expr : ∀ e, ComesBack Eq (Analyse.expr e)
  | .literal .number _ _ | .literal .string _ _ | .literal .boolean _ _ => by
    rw [Analyse.expr]
    exact pure _
  | .list es _ => by
    rw [Analyse.expr]
    exact bind (exprs es) fun _ => pure _
  | .dict ps _ => by
    rw [Analyse.expr]
    exact bind (pairs ps) fun _ => pure _
  | .var x l => by
    rw [Analyse.expr]
    exact bind (resolve x l) fun _ => pure _
  | .binary op a b l => by
    rw [Analyse.expr]
    refine bind (expr a) fun left => bind (expr b) fun right => ?_
    dsimp only
    split
    · exact bind (report _) fun _ => pure _
    · exact pure _
  | .unary op a l => by
    rw [Analyse.expr]
    refine bind (expr a) fun operand => ?_
    dsimp only
    split
    · exact bind (report _) fun _ => pure _
    · exact pure _
  | .paren a _ => by
    rw [Analyse.expr]
    exact expr a
  | .call x es l => by
    rw [Analyse.expr]
    refine bind (resolve x l) fun s? => ?_
    dsimp only
    split
    · exact bind (checkArity _ _ _ _) fun _ => bind (exprs es) fun _ => pure _
    · exact bind (exprs es) fun _ => pure _
  | .lambda ps a l => by
    rw [Analyse.expr]
    refine bind (inScope (bind (parameters ps l) fun _ => ?_)) fun _ => pure _
    exact bind ((expr a).mono fun _ _ _ => trivial) fun _ => pure _
  | .newObject x es l => by
    rw [Analyse.expr]
    exact bind (resolve x l) fun _ => bind (exprs es) fun _ => pure _
  | .method a _ es _ => by
    rw [Analyse.expr]
    exact bind (expr a) fun _ => bind (exprs es) fun _ => pure _
  | .property a _ _ => by
    rw [Analyse.expr]
    exact bind (expr a) fun _ => pure _
  | .thisObject l => by
    rw [Analyse.expr]
    exact get fun a => ite (bind (report _) fun _ => pure _) (pure _) a
  | .superCall _ es l => by
    rw [Analyse.expr]
    have hrest : ComesBack Eq (do Analyse.exprs es; return Tag.any) :=
      bind (exprs es) fun _ => pure _
    exact get fun a => ite (bind (report _) fun _ => hrest) hrest a
  | .index a i _ => by
    rw [Analyse.expr]
    exact bind (expr a) fun _ => bind (expr i) fun _ => pure _
  | .foreign _ es _ => by
    rw [Analyse.expr]
    exact bind (exprs es) fun _ => pure _
termination_by structural e => e

theorem exprs : ∀ es, ComesBack Eq (Analyse.exprs es)
  | [] => by
    rw [Analyse.exprs]
    exact pure _
  | e :: es => by
    rw [Analyse.exprs]
    exact bind (expr e) fun _ => exprs es
termination_by structural es => es

theorem pairs : ∀ ps, ComesBack Eq (Analyse.pairs ps)
  | [] => by
    rw [Analyse.pairs]
    exact pure _
  | (k, v) :: ps => by
    rw [Analyse.pairs]
    exact bind (expr k) fun _ => bind (expr v) fun _ => pairs ps
termination_by structural ps => ps

end

end ComesBack

mutual

/-- The names that the statement assigns to in the scope it stands in, with the lines. Its blocks
have scopes of their own. -/
def Stmt.assigned : Stmt → List (String × Nat)
  | .assign x _ l => [(x, l)]
  | .foreign _ ss _ => Stmt.assignedAll ss
  | _ => []
termination_by structural s => s

def Stmt.assignedAll : List Stmt → List (String × Nat)
  | [] => []
  | s :: ss => s.assigned ++ Stmt.assignedAll ss
termination_by structural ss => ss

end

namespace ComesBack

variable {assigned : List (String × Nat)}

/-- What leaves the innermost scope as it is may stand in any statement. -/
theorem still {α : Type} {p : Analyse α} (h : ComesBack Eq p) : ComesBack (Rebinds assigned) p :=
  h.mono fun _ _ heq => .of_eq heq.symm

theorem block {body : Analyse Unit} (h : ComesBack (Rebinds assigned) body) :
    ComesBack Eq (Analyse.inScope body) :=
  inScope (h.mono fun _ _ _ => trivial)

/-- The part that handles an error has a scope with a name for it. -/
theorem handled (x : Option String) (l : Nat) {body : Analyse Unit}
    (h : ComesBack (Rebinds assigned) body) : ComesBack Eq (Analyse.inScope do
      if let some y := x.filter (!·.isEmpty) then
        Analyse.define { name := y, kind := .var, tag := .any, line := l }
      body) := by
  apply inScope
  have hbody : ComesBack Scratch body := h.mono fun _ _ _ => trivial
  cases x.filter (!·.isEmpty) with
  | some y => exact bind (fun _ => define trivial) fun _ => hbody
  | none => exact hbody

/-- A name is brought in, unless the innermost scope has it, before the analyser goes on. -/
theorem introduce {x : String} {l : Nat} {rest : Analyse Unit}
    (hrest : ComesBack (Rebinds assigned) rest) : ComesBack (Rebinds assigned) (do
      if ((← MonadState.get).scope.resolveLocal? x).isNone then
        Analyse.define { name := x, kind := .var, tag := .string, line := l }
      rest) := by
  apply get
  intro a
  by_cases hnew : (a.scope.resolveLocal? x).isNone = true
  · rw [if_pos hnew]
    exact bindFrom (define (.bind_new (Option.isNone_iff_eq_none.1 hnew))) fun _ => hrest
  · rw [if_neg hnew]
    exact hrest a

mutual

theorem stmt : ∀ s {assigned}, Stmt.assigned s ⊆ assigned →
    ComesBack (Rebinds assigned) (Analyse.stmt s)
  | .expr e, _, _ => by
    rw [Analyse.stmt]
    exact bind (expr e).still fun _ => pure _
  | .assign x e l, _, h => by
    rw [Analyse.stmt]
    exact bind (expr e).still fun tag => assign tag (h (List.mem_singleton_self _))
  | .setProperty a _ e _, _, _ => by
    rw [Analyse.stmt]
    exact bind (expr a).still fun _ => bind (expr e).still fun _ => pure _
  | .setIndex a i e _, _, _ => by
    rw [Analyse.stmt]
    refine bind (expr a).still fun _ => bind (expr i).still fun _ => ?_
    exact bind (expr e).still fun _ => pure _
  | .print es _, _, _ => by
    rw [Analyse.stmt]
    exact (exprs es).still
  | .input x (some e) l, _, _ => by
    rw [Analyse.stmt]
    exact introduce (bind (expr e).still fun _ => pure _)
  | .input x none l, _, _ => by
    rw [Analyse.stmt]
    · exact introduce (pure _)
    · intro _ h
      cases h
  | .ifElse c body others (some b) _, _, _ => by
    rw [Analyse.stmt]
    refine bind (expr c).still fun _ => bind (block (stmts body (List.Subset.refl _))).still ?_
    exact fun _ => bind (branches others).still fun _ =>
      (block (stmts b (List.Subset.refl _))).still
  | .ifElse c body others none _, _, _ => by
    rw [Analyse.stmt]
    refine bind (expr c).still fun _ => bind (block (stmts body (List.Subset.refl _))).still ?_
    exact fun _ => bind (branches others).still fun _ => pure _
  | .whileLoop c body _, _, _ => by
    rw [Analyse.stmt]
    exact bind (expr c).still fun _ => (inLoop (block (stmts body (List.Subset.refl _)))).still
  | .forLoop x e body l, _, _ => by
    rw [Analyse.stmt]
    refine bind (expr e).still fun _ => (inLoop (inScope (bind (fun _ => define trivial) ?_))).still
    exact fun _ => (stmts body (List.Subset.refl _)).mono fun _ _ _ => trivial
  | .breakLoop l, _, _ => by
    rw [Analyse.stmt]
    exact get fun a => ite (report _) (pure _) a
  | .continueLoop l, _, _ => by
    rw [Analyse.stmt]
    exact get fun a => ite (report _) (pure _) a
  | .function f, _, _ => by
    rw [Analyse.stmt]
    exact function f
  | .giveBack (some e) l, assigned, _ => by
    rw [Analyse.stmt]
    have hvalue : ComesBack (Rebinds assigned) (do let _ ← Analyse.expr e) :=
      bind (expr e).still fun _ => pure _
    exact get fun a => ite (bind (report _) fun _ => hvalue) hvalue a
  | .giveBack none l, _, _ => by
    rw [Analyse.stmt]
    · exact get fun a => ite (bind (report _) fun _ => pure _) (pure _) a
    · intro _ h
      cases h
  | .classDef x (some p) methods l, _, _ => by
    rw [Analyse.stmt]
    refine bind (declare _) fun _ => bind (resolve p l) fun _ => ?_
    exact (inClass x (inScope (functions methods))).still
  | .classDef x none methods l, _, _ => by
    rw [Analyse.stmt]
    refine bind (declare _) fun _ => ?_
    exact (inClass x (inScope (functions methods))).still
  | .attempt body x (some b) (some d) l, _, _ => by
    rw [Analyse.stmt]
    refine bind (block (stmts body (List.Subset.refl _))).still fun _ => ?_
    refine bind (handled x l (stmts b (List.Subset.refl _))).still fun _ => ?_
    exact (block (stmts d (List.Subset.refl _))).still
  | .attempt body x (some b) none l, _, _ => by
    rw [Analyse.stmt]
    refine bind (block (stmts body (List.Subset.refl _))).still fun _ => ?_
    exact bind (handled x l (stmts b (List.Subset.refl _))).still fun _ => pure _
  | .attempt body x none (some d) l, _, _ => by
    rw [Analyse.stmt]
    refine bind (block (stmts body (List.Subset.refl _))).still fun _ => ?_
    exact (block (stmts d (List.Subset.refl _))).still
  | .attempt body x none none l, _, _ => by
    rw [Analyse.stmt]
    exact bind (block (stmts body (List.Subset.refl _))).still fun _ => pure _
  | .raiseError e _, _, _ => by
    rw [Analyse.stmt]
    exact bind (expr e).still fun _ => pure _
  | .importFile _ _, _, _ => by
    rw [Analyse.stmt]
    exact pure _
  | .foreign _ ss _, _, h => by
    rw [Analyse.stmt]
    exact stmts ss h
termination_by structural s => s

theorem stmts : ∀ ss {assigned}, Stmt.assignedAll ss ⊆ assigned →
    ComesBack (Rebinds assigned) (Analyse.stmts ss)
  | [], _, _ => by
    rw [Analyse.stmts]
    exact pure _
  | s :: ss, _, h => by
    rw [Analyse.stmts]
    obtain ⟨hs, hss⟩ := List.append_subset.1 h
    exact bind (stmt s hs) fun _ => stmts ss hss
termination_by structural ss => ss

theorem branches : ∀ bs, ComesBack Eq (Analyse.branches bs)
  | [] => by
    rw [Analyse.branches]
    exact pure _
  | .mk c body :: bs => by
    rw [Analyse.branches]
    refine bind (expr c) fun _ => bind (block (stmts body (List.Subset.refl _))) fun _ => ?_
    exact branches bs
termination_by structural bs => bs

theorem function : ∀ f {assigned}, ComesBack (Rebinds assigned) (Analyse.function f)
  | .mk x ps body l, _ => by
    rw [Analyse.function]
    refine bind (declare _) fun _ => (inFunction x (inScope (bind (parameters ps l) ?_))).still
    exact fun _ => (stmts body (List.Subset.refl _)).mono fun _ _ _ => trivial
termination_by structural f => f

theorem functions : ∀ fs, ComesBack Scratch (Analyse.functions fs)
  | [] => by
    rw [Analyse.functions]
    exact pure _
  | f :: fs => by
    rw [Analyse.functions]
    have hf : ComesBack (Rebinds []) (Analyse.function f) := function f
    exact bind (hf.mono fun _ _ _ => trivial) fun _ => functions fs
termination_by structural fs => fs

end

end ComesBack

/-- From every state the analyser gets through every expression, statement and program; it never
leaves the outermost scope. Behind it the scopes around the innermost one are the same, as are the
functions, classes and loops that it is in, and the errors from before are still there. An
expression leaves the innermost scope as it is. A statement takes no name out of it, and an
assignment that stands in that scope itself is the only thing that changes a symbol: one that was
none of a variable gives way to that of a variable. -/
theorem analyser_balances_scopes :
    (∀ (e : Expr) (a : Analysis), ∃ tag a', Analyse.expr e a = .ok tag a' ∧
      a.Balanced Eq a' ∧ a'.scope = a.scope) ∧
    (∀ (s : Stmt) (a : Analysis), ∃ a', Analyse.stmt s a = .ok () a' ∧
      a.Balanced (Rebinds s.assigned) a' ∧ a'.scope.depth = a.scope.depth) ∧
    ∀ (p : Program) (a : Analysis), ∃ a', Analyse.stmts p.statements a = .ok () a' ∧
      a.Balanced (Rebinds (Stmt.assignedAll p.statements)) a' ∧
      a'.scope.depth = a.scope.depth := by
  refine ⟨fun e a => ?_, fun s a => ?_, fun p a => ?_⟩
  · obtain ⟨tag, a', hrun, hb⟩ := ComesBack.expr e a
    exact ⟨tag, a', hrun, hb, hb.scope⟩
  · obtain ⟨_, a', hrun, hb⟩ := ComesBack.stmt s (List.Subset.refl _) a
    exact ⟨a', hrun, hb, hb.depth⟩
  · obtain ⟨_, a', hrun, hb⟩ := ComesBack.stmts p.statements (List.Subset.refl _) a
    exact ⟨a', hrun, hb, hb.depth⟩

end Bhasha
