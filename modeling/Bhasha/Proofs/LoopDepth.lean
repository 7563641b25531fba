import Bhasha.Analysis
import Bhasha.Proofs.JumpPlaces

namespace Bhasha

/-- A place with this many loops around it. -/
def Spot.under : Nat → Spot
  | 0 => .outside
  | _ + 1 => .inLoop

/-- Where `n` loops are around, `p` leaves it at that and forgets no error; and if there is no error
to report, then `C` holds. -/
def Clears {α : Type} (n : Nat) (p : Analyse α) (C : Prop) : Prop :=
  ∀ ⦃a v a'⦄, a.loops = n → p a = .ok v a' →
    a'.loops = n ∧ a.errors <+: a'.errors ∧ (a'.errors = [] → C)

namespace Clears

variable {α β : Type} {n : Nat} {p q : Analyse α} {C D : Prop}

theorem imp (h : Clears n p C) (hCD : C → D) : Clears n p D := by
  intro a v a' ha hp
  obtain ⟨hloops, herrors, hC⟩ := h ha hp
  exact ⟨hloops, herrors, fun hclean => hCD (hC hclean)⟩

theorem pure (v : α) : Clears n (Pure.pure v : Analyse α) True := by
  intro a w a' ha hp
  obtain ⟨-, rfl⟩ := pure_ok hp
  exact ⟨ha, List.prefix_refl _, fun _ => trivial⟩

theorem throw (f : Fault) : Clears n (MonadExcept.throw f : Analyse α) C :=
  fun _ _ _ _ hp => absurd hp throw_ne_ok

theorem bind {f : α → Analyse β} (hp : Clears n p C) (hf : ∀ v, Clears n (f v) D) :
    Clears n (p >>= f) (C ∧ D) := by
  intro a w a' ha hrun
  obtain ⟨v, a₁, hrun₁, hrun⟩ := bind_eq_ok hrun
  obtain ⟨ha₁, herrors₁, hC⟩ := hp ha hrun₁
  obtain ⟨ha', herrors, hD⟩ := hf v ha₁ hrun
  refine ⟨ha', herrors₁.trans herrors, fun hclean => ⟨hC ?_, hD hclean⟩⟩
  exact List.prefix_nil.1 (hclean ▸ herrors)

/-- Behind something that has nothing to say about jumps. -/
theorem behind {f : α → Analyse β} (hp : Clears n p True) (hf : ∀ v, Clears n (f v) C) :
    Clears n (p >>= f) C :=
  (hp.bind hf).imp And.right

/-- Two parts, each with a verdict of its own. -/
theorem both {f : α → Analyse β} {b b' : Bool} (hp : Clears n p (b = true))
    (hf : ∀ v, Clears n (f v) (b' = true)) : Clears n (p >>= f) ((b && b') = true) :=
  (hp.bind hf).imp Bool.and_eq_true_iff.2

theorem ahead {f : α → Analyse β} (hp : Clears n p C) (hf : ∀ v, Clears n (f v) True) :
    Clears n (p >>= f) C :=
  (hp.bind hf).imp And.left

theorem get {f : Analysis → Analyse β} (hf : ∀ a, Clears n (f a) C) :
    Clears n (MonadState.get >>= f) C :=
  fun a _ _ ha hp => hf a ha (bind_get_ok hp)

theorem modified {f : Analysis → Analysis}
    (hf : ∀ a, (f a).loops = a.loops ∧ a.errors <+: (f a).errors) :
    Clears n (modify f : Analyse PUnit) True := by
  intro a v a' ha hp
  cases hp
  exact ⟨(hf a).1.trans ha, (hf a).2, fun _ => trivial⟩

theorem ite {c : Prop} [Decidable c] (hp : Clears n p C) (hq : Clears n q C) :
    Clears n (if c then p else q) C := by
  split
  · exact hp
  · exact hq

/-- An error to report makes up for anything. -/
theorem report (d : Diagnostic) : Clears n (Analyse.report d) C := by
  intro a v a' ha hp
  cases hp
  exact ⟨ha, List.prefix_append _ _, fun hclean => by simp at hclean⟩

theorem define (s : Symbol) : Clears n (Analyse.define s) True :=
  modified fun _ => ⟨rfl, List.prefix_refl _⟩

theorem resolve (x : String) (l : Nat) : Clears n (Analyse.resolve x l) True :=
  get fun _ => ite (behind (get fun _ => report _) fun _ => pure _) (pure _)

theorem checkArity (s : Symbol) (x : String) (given l : Nat) :
    Clears n (Analyse.checkArity s x given l) True := by
  unfold Analyse.checkArity
  split
  · exact ite (report _) (pure _)
  · exact pure _

theorem declare (s : Symbol) : Clears n (Analyse.declare s) True := by
  refine get fun a => ?_
  split
  · exact report _
  · exact define s

theorem assign (x : String) (tag : Tag) (l : Nat) : Clears n (Analyse.assign x tag l) True := by
  refine get fun a => ?_
  split
  · exact pure _
  · exact define _

theorem parameters (ps : List String) (l : Nat) : Clears n (Analyse.parameters ps l) True := by
  unfold Analyse.parameters
  induction ps with
  | nil => exact pure _
  | cons p ps ih => exact behind (define _) fun _ => ih

/-- A jump is reported where no loop is around. -/
theorem jump (d : Diagnostic) : Clears n (do
    if (← MonadState.get).loops == 0 then Analyse.report d) ((Spot.under n).jumps = true) := by
  intro a v a' ha hp
  have hrun := bind_get_ok hp
  split at hrun
  · exact report d ha hrun
  · next hloops =>
    obtain ⟨-, rfl⟩ := pure_ok hrun
    refine ⟨ha, List.prefix_refl _, fun _ => ?_⟩
    cases n with
    | zero => simp [ha] at hloops
    | succ n => rfl

theorem inScope {body : Analyse Unit} (h : Clears n body C) :
    Clears n (Analyse.inScope body) C := by
  refine behind (modified fun _ => ⟨rfl, List.prefix_refl _⟩) fun _ => h.ahead fun _ =>
    get fun a => ?_
  split
  · exact modified fun _ => ⟨rfl, List.prefix_refl _⟩
  · exact throw _

theorem inFunction (x : String) {body : Analyse Unit} (h : Clears n body C) :
    Clears n (Analyse.inFunction x body) C :=
  behind (modified fun _ => ⟨rfl, List.prefix_refl _⟩) fun _ => h.ahead fun _ =>
    modified fun _ => ⟨rfl, List.prefix_refl _⟩

theorem inClass (x : String) {body : Analyse Unit} (h : Clears n body C) :
    Clears n (Analyse.inClass x body) C :=
  behind (modified fun _ => ⟨rfl, List.prefix_refl _⟩) fun _ => h.ahead fun _ =>
    modified fun _ => ⟨rfl, List.prefix_refl _⟩

/-- In the body of a loop there is one loop more. -/
theorem inLoop {body : Analyse Unit} (h : Clears (n + 1) body C) :
    Clears n (Analyse.inLoop body) C := by
  intro a v a' ha hp
  unfold Analyse.inLoop at hp
  obtain ⟨_, a₁, hmore, hp⟩ := bind_eq_ok hp
  obtain ⟨_, a₂, hbody, hless⟩ := bind_eq_ok hp
  cases hmore
  cases hless
  obtain ⟨hloops, herrors, hC⟩ := h (congrArg (· + 1) ha) hbody
  exact ⟨by simp [hloops], herrors, hC⟩

mutual

theorem expr : ∀ e, Clears n (Analyse.expr e) True
  | .literal .number _ _ | .literal .string _ _ | .literal .boolean _ _ => by
    rw [Analyse.expr]
    exact pure _
  | .list es _ => by
    rw [Analyse.expr]
    exact behind (exprs es) fun _ => pure _
  | .dict ps _ => by
    rw [Analyse.expr]
    exact behind (pairs ps) fun _ => pure _
  | .var x l => by
    rw [Analyse.expr]
    exact behind (resolve x l) fun _ => pure _
  | .binary op a b l => by
    rw [Analyse.expr]
    refine behind (expr a) fun left => behind (expr b) fun right => ?_
    dsimp only
    split
    · exact behind (report _) fun _ => pure _
    · exact pure _
  | .unary op a l => by
    rw [Analyse.expr]
    refine behind (expr a) fun operand => ?_
    dsimp only
    split
    · exact behind (report _) fun _ => pure _
    · exact pure _
  | .paren a _ => by
    rw [Analyse.expr]
    exact expr a
  | .call x es l => by
    rw [Analyse.expr]
    refine behind (resolve x l) fun s? => ?_
    dsimp only
    split
    · exact behind (checkArity _ _ _ _) fun _ => behind (exprs es) fun _ => pure _
    · exact behind (exprs es) fun _ => pure _
  | .lambda ps a l => by
    rw [Analyse.expr]
    exact behind (inScope (behind (parameters ps l) fun _ => behind (expr a) fun _ => pure _))
      fun _ => pure _
  | .newObject x es l => by
    rw [Analyse.expr]
    exact behind (resolve x l) fun _ => behind (exprs es) fun _ => pure _
  | .method a _ es _ => by
    rw [Analyse.expr]
    exact behind (expr a) fun _ => behind (exprs es) fun _ => pure _
  | .property a _ _ => by
    rw [Analyse.expr]
    exact behind (expr a) fun _ => pure _
  | .thisObject l => by
    rw [Analyse.expr]
    exact get fun _ => ite (behind (report _) fun _ => pure _) (pure _)
  | .superCall _ es l => by
    rw [Analyse.expr]
    exact get fun _ => ite (behind (report _) fun _ => behind (exprs es) fun _ => pure _)
      (behind (exprs es) fun _ => pure _)
  | .index a i _ => by
    rw [Analyse.expr]
    exact behind (expr a) fun _ => behind (expr i) fun _ => pure _
  | .foreign _ es _ => by
    rw [Analyse.expr]
    exact behind (exprs es) fun _ => pure _
termination_by structural e => e

theorem exprs : ∀ es, Clears n (Analyse.exprs es) True
  | [] => by
    rw [Analyse.exprs]
    exact pure _
  | e :: es => by
    rw [Analyse.exprs]
    exact behind (expr e) fun _ => exprs es
termination_by structural es => es

theorem pairs : ∀ ps, Clears n (Analyse.pairs ps) True
  | [] => by
    rw [Analyse.pairs]
    exact pure _
  | (a, b) :: ps => by
    rw [Analyse.pairs]
    exact behind (expr a) fun _ => behind (expr b) fun _ => pairs ps
termination_by structural ps => ps

end

theorem handled (x : Option String) (l : Nat) {body : Analyse Unit} (h : Clears n body C) :
    Clears n (Analyse.inScope do
      if let some y := x.filter (!·.isEmpty) then
        Analyse.define { name := y, kind := .var, tag := .any, line := l }
      body) C := by
  apply inScope
  cases x.filter (!·.isEmpty) with
  | some y => exact behind (define _) fun _ => h
  | none => exact h

mutual

theorem stmt : ∀ s {n}, Clears n (Analyse.stmt s) (s.contained .lexical (.under n) = true)
  | .expr e, _ => by
    rw [Analyse.stmt]
    exact behind (expr e) fun _ => (pure _).imp fun _ => rfl
  | .assign x e l, _ => by
    rw [Analyse.stmt]
    exact behind (expr e) fun tag => (assign x tag l).imp fun _ => rfl
  | .setProperty a _ e _, _ => by
    rw [Analyse.stmt]
    exact behind (expr a) fun _ => behind (expr e) fun _ => (pure _).imp fun _ => rfl
  | .setIndex a i e _, _ => by
    rw [Analyse.stmt]
    exact behind (expr a) fun _ => behind (expr i) fun _ => behind (expr e) fun _ =>
      (pure _).imp fun _ => rfl
  | .print es _, _ => by
    rw [Analyse.stmt]
    exact (exprs es).imp fun _ => rfl
  | .input x (some e) l, n => by
    rw [Analyse.stmt]
    have hprompt : Clears n (do let _ ← Analyse.expr e) True := behind (expr e) fun _ => pure _
    exact (get fun _ => ite (behind (define _) fun _ => hprompt) hprompt).imp fun _ => rfl
  | .input x none l, _ => by
    rw [Analyse.stmt]
    · exact (get fun _ => ite (behind (define _) fun _ => pure _) (pure _)).imp fun _ => rfl
    · intro _ h
      cases h
  | .ifElse c body others (some b) _, _ => by
    rw [Analyse.stmt]
    exact behind (expr c) fun _ => (inScope (block body)).both fun _ => (branches others).both
      fun _ => inScope (block b)
  | .ifElse c body others none _, _ => by
    rw [Analyse.stmt]
    exact behind (expr c) fun _ => (inScope (block body)).both fun _ => (branches others).both
      fun _ => (pure _).imp fun _ => rfl
  | .whileLoop c body _, _ => by
    rw [Analyse.stmt]
    exact behind (expr c) fun _ => inLoop (inScope (block body))
  | .forLoop x e body l, _ => by
    rw [Analyse.stmt]
    exact behind (expr e) fun _ => inLoop (inScope (behind (define _) fun _ => block body))
  | .breakLoop l, _ => by
    rw [Analyse.stmt]
    exact jump _
  | .continueLoop l, _ => by
    rw [Analyse.stmt]
    exact jump _
  | .function f, _ => by
    rw [Analyse.stmt]
    exact function f
  | .giveBack (some e) l, n => by
    rw [Analyse.stmt]
    have hvalue : Clears n (do let _ ← Analyse.expr e) True := behind (expr e) fun _ => pure _
    exact (get fun _ => ite (behind (report _) fun _ => hvalue) hvalue).imp fun _ => rfl
  | .giveBack none l, _ => by
    rw [Analyse.stmt]
    · exact (get fun _ => ite (behind (report _) fun _ => pure _) (pure _)).imp fun _ => rfl
    · intro _ h
      cases h
  | .classDef x (some p) methods l, _ => by
    rw [Analyse.stmt]
    exact behind (declare _) fun _ => behind (resolve p l) fun _ =>
      inClass x (inScope (functions methods))
  | .classDef x none methods l, _ => by
    rw [Analyse.stmt]
    exact behind (declare _) fun _ => inClass x (inScope (functions methods))
  | .attempt body x (some b) (some d) l, _ => by
    rw [Analyse.stmt]
    exact (inScope (block body)).both fun _ => (handled x l (block b)).both fun _ =>
      inScope (block d)
  | .attempt body x (some b) none l, _ => by
    rw [Analyse.stmt]
    exact (inScope (block body)).both fun _ => (handled x l (block b)).both fun _ =>
      (pure _).imp fun _ => rfl
  | .attempt body x none (some d) l, _ => by
    rw [Analyse.stmt]
    exact (inScope (block body)).both fun _ => inScope (block d)
  | .attempt body x none none l, _ => by
    rw [Analyse.stmt]
    exact (inScope (block body)).both fun _ => (pure _).imp fun _ => rfl
  | .raiseError e _, _ => by
    rw [Analyse.stmt]
    exact behind (expr e) fun _ => (pure _).imp fun _ => rfl
  | .importFile _ _, _ => by
    rw [Analyse.stmt]
    exact (pure _).imp fun _ => rfl
  | .foreign _ ss _, _ => by
    rw [Analyse.stmt]
    exact (block ss).imp fun _ => rfl
termination_by structural s => s

theorem block : ∀ ss {n},
    Clears n (Analyse.stmts ss) (Stmt.containedAll .lexical (.under n) ss = true)
  | [], _ => by
    rw [Analyse.stmts]
    exact (pure _).imp fun _ => rfl
  | s :: ss, _ => by
    rw [Analyse.stmts]
    exact (stmt s).both fun _ => block ss
termination_by structural ss => ss

theorem branches : ∀ bs {n},
    Clears n (Analyse.branches bs) (Branch.containedAll .lexical (.under n) bs = true)
  | [], _ => by
    rw [Analyse.branches]
    exact (pure _).imp fun _ => rfl
  | .mk c body :: bs, _ => by
    rw [Analyse.branches]
    exact behind (expr c) fun _ => (inScope (block body)).both fun _ => branches bs
termination_by structural bs => bs

theorem function : ∀ f {n}, Clears n (Analyse.function f) (f.contained .lexical (.under n) = true)
  | .mk x ps body l, _ => by
    rw [Analyse.function]
    exact behind (declare _) fun _ => inFunction x (inScope (behind (parameters ps l) fun _ =>
      block body))
termination_by structural f => f

theorem functions : ∀ fs {n},
    Clears n (Analyse.functions fs) (FunctionDef.containedAll .lexical (.under n) fs = true)
  | [], _ => by
    rw [Analyse.functions]
    exact (pure _).imp fun _ => rfl
  | f :: fs, _ => by
    rw [Analyse.functions]
    exact (function f).both fun _ => functions fs
termination_by structural fs => fs

end

end Clears

/-- A program without semantic errors has every jump in a loop, be it around the function that the
jump is in. -/
theorem lexical_of_analyse {ss : List Stmt} {a : Analysis} (h : analyseStatements ss = .ok a)
    (hclean : a.errors = []) : Stmt.containedAll .lexical .outside ss = true := by
  unfold analyseStatements at h
  split at h
  · next a' hrun =>
    cases h
    exact (Clears.block ss (n := 0) rfl hrun).2.2 hclean
  · cases h

end Bhasha
