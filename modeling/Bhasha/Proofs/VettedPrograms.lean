import Bhasha.Proofs.CodeSimulation
import Bhasha.Proofs.MachinePlace
import Bhasha.Proofs.NameResolution
import Bhasha.Proofs.SourceConcatenation

namespace Bhasha

/-- What is in sight when a program starts: the built-in functions. -/
def Sight.initial : Sight :=
  { bound := Builtin.all.map Builtin.word }

/-- The statements of a program that the parser gives and the analyser passes. Each name that they
use is bound by then, or the analyser has not heard of it: it is neither registered, nor the name of
a method of the class around it or of the class that extends it, nor a name that `padho` would
bring in. -/
structure Vetted (ss : List Stmt) : Prop where
  passed : ∃ lang source p a, parse lang source = .ok p ∧ analyse p = .ok a ∧ a.errors = [] ∧
    p.statements = ss
  own : Stmt.admittedAll ⟨Sight.own, true, true⟩ .initial ss = true

theorem binds_initial (input : List Char) (x : String) :
    (Machine.initial input).scopes.binds Machine.globalScope x ↔ x ∈ Sight.initial.bound := by
  have hnames : ((Machine.initial input).scopes.bindings Machine.globalScope).names =
      Sight.initial.bound := by
    simp [Machine.initial, Scopes.bindings, Machine.globalScope, Bindings.names, Sight.initial]
  rw [← hnames]
  exact Bindings.has_iff_mem

/-- Names without a meaning end a run of the step in `u`. -/
def SessionStep.ending (u : Option Fault) (p : SessionStep) : SessionStep :=
  { p with setting := { p.setting with unbound := u } }

/-- The machine that the step is given. -/
def SessionStep.start (p : SessionStep) (m : Machine) : Machine :=
  { m with output := "", input := p.input }

/-- As `Pairing.otherwise`, with classes, objects and `padho`. -/
def Pairing.wholly (unbound : Option Fault → Option Fault) : Pairing :=
  { Pairing.otherwise unbound with objects := true }

namespace Vetted

variable {ss : List Stmt}

/-- All that the program refers to is bound. -/
theorem binds (h : Vetted ss) :
    Stmt.admittedAll ⟨Sight.binds, true, false⟩ .initial ss = true := by
  obtain ⟨lang, source, p, a, hparse, ha, hclean, rfl⟩ := h.passed
  obtain ⟨-, -, -, -, hgrammatical⟩ := sequence_of_parse hparse
  -- What the parser gives has no strange parts.
  have hown : Stmt.admittedAll ⟨Sight.own, true, false⟩ .initial p.statements = true :=
    Stmt.admittedAll_generous (fun _ => rfl) p.statements (fun _ => hgrammatical) h.own
  have hcovers : Sight.initial.Covers [] := nofun
  have hvouches : Vouches [] [] _ (Analyse.stmts p.statements) _ :=
    Vouches.block p.statements hcovers
  obtain ⟨_, a', hrun, -⟩ := hvouches.settles Analysis.initial
  rw [analyse, analyseStatements, hrun] at ha
  cases ha
  exact (hvouches.vouches Analysis.inside_initial hrun hclean).introduces true false hown

/-- A run is the same whatever names without a meaning would end in. -/
theorem resolves (h : Vetted ss) {u : Option Fault} {m : Machine}
    (hm : (Pairing.wholly fun _ => u).At Sight.initial.bound m) (s : Setting) (u' : Option Fault) :
    execute { s with unbound := u' } ss m = execute { s with unbound := u } ss m ∧
      (Pairing.wholly fun _ => u).At Sight.initial.bound
        (finalState (execute { s with unbound := u' } ss) m) := by
  have hagrees := (Pairing.wholly fun _ => u).agrees_run { s with unbound := u' } trivial hm
    (.inr h.binds)
  have htwin : ∀ m, (Pairing.wholly fun _ => u).twin m = m := Pairing.otherwise_twin fun _ => u
  exact ⟨hagrees.eq_of_twin htwin id, hm.leads (hagrees.leads id)⟩

end Vetted

namespace SessionStep

variable {u : Option Fault} {m : Machine}

theorem at_start (hm : (Pairing.wholly fun _ => u).At Sight.initial.bound m) (p : SessionStep) :
    (Pairing.wholly fun _ => u).At Sight.initial.bound (p.start m) :=
  ⟨⟨⟨hm.sound.values.present, hm.sound.values.bound, hm.sound.values.heap⟩, False.elim, trivial⟩,
    hm.known⟩

theorem session_ending {ps : List SessionStep} (h : ∀ p ∈ ps, Vetted p.statements)
    (hm : (Pairing.wholly fun _ => u).At Sight.initial.bound m) (u' : Option Fault) :
    session (ps.map (ending u')) m = session (ps.map (ending u)) m ∧
      (Pairing.wholly fun _ => u).At Sight.initial.bound (session (ps.map (ending u')) m) := by
  induction ps generalizing m with
  | nil => exact ⟨rfl, hm⟩
  | cons p ps ih =>
    obtain ⟨hp, hps⟩ := List.forall_mem_cons.mp h
    obtain ⟨heq, hat⟩ := hp.resolves (p.at_start hm) p.setting u'
    obtain ⟨heq', hat'⟩ := ih hps hat
    refine ⟨heq'.trans ?_, hat'⟩
    have hstate : finalState (execute (p.ending u').setting p.statements) (p.start m) =
        finalState (execute (p.ending u).setting p.statements) (p.start m) := by
      have hrun : execute (p.ending u').setting p.statements (p.start m) = _ := heq
      rw [finalState, finalState, hrun]
      rfl
    exact congrArg (session _) hstate

end SessionStep

/-- An exit that functions do not hold back ends the program. -/
theorem execute_of_error {s : Setting} {ss : List Stmt} {e : Exit} {m m' : Machine}
    (he : e.inFunction = .error e) (h : Exec.stmts s.context ss m = .error e m') :
    execute s ss m = .error e m' := by
  have hperform : perform s budget (.statements ss) =
      (Exec.stmts s.context ss >>= fun _ => pure .none) := rfl
  have hdiscard : discard (perform s budget (.statements ss)) m = .error e m' :=
    map_of_error (hperform ▸ bind_of_error h)
  have hresult := Run.result_of_error hdiscard
  rw [he] at hresult
  exact map_of_error hresult

theorem owner?_initial {x : String} (hx : x ∉ Sight.initial.bound) (input : List Char) :
    (Machine.initial input).scopes.owner? Machine.globalScope x = none :=
  Scopes.ownerWithin_eq_none (mt (binds_initial input x).mp hx) (.inl rfl)

theorem semanticErrors_of_stmt {s : Stmt} {a : Analysis}
    (h : Analyse.stmt s Analysis.initial = .ok () a) :
    Program.semanticErrors { statements := [s] } = a.errors := by
  have hrun : Analyse.stmts [s] Analysis.initial = .ok () a := by
    rw [Analyse.stmts, bind_of_ok h, Analyse.stmts]
    rfl
  rw [Program.semanticErrors, finalState_ok hrun]

theorem analyse_input (x : String) (l : Nat) (a : Analysis) :
    ∃ a', Analyse.stmt (.input x none l) a = .ok () a' ∧ a'.errors = a.errors := by
  rw [Analyse.stmt]
  · rw [bind_get]
    split <;> exact ⟨_, rfl, rfl⟩
  · intro _ h
    cases h

theorem analyse_var {x : String} {a : Analysis} (h : (a.scope.resolve? x).isSome = true) (l : Nat) :
    Analyse.stmt (.print [.var x l] l) a = .ok () a := by
  have hresolve : Analyse.resolve x l a = .ok (a.scope.resolve? x) a := by
    rw [Analyse.resolve, bind_get]
    dsimp only
    rw [if_neg (by simpa [Option.isSome_iff_ne_none] using h)]
    rfl
  rw [Analyse.stmt, Analyse.exprs, Analyse.expr, Analyse.exprs]
  exact bind_of_ok (bind_of_ok hresolve)

section

variable {m : Machine} {x : String}

theorem reassign_unbound (h : m.scopes.owner? m.current x = none) (f : Fault) (v : Value) :
    Run.reassign (some f) x v m = .error (.fault f) m := by
  rw [Run.reassign_eq, bind_get, h]
  rfl

theorem lookup_unbound (h : m.scopes.owner? m.current x = none) (f : Fault) :
    Run.lookup (some f) x m = .error (.fault f) m := by
  have hnone : m.scopes.get m.current x none = .error (Scopes.undefined x none) := by
    simp [Scopes.get, Scopes.get?_eq_bind, h]
  rw [Run.lookup, bind_get, hnone]
  rfl

end

/-- Of a name that is not bound yet the analyser says that `padho` brings it in. The run fails. -/
theorem padho_unbound {x : String} (hx : x ∉ Sight.initial.bound) (l : Nat) (s : Setting)
    (f : Fault) (c : Char) (cs : List Char) :
    Program.semanticErrors { statements := [.input x none l] } = [] ∧
      ∃ m, execute { s with unbound := some f } [.input x none l] (Machine.initial (c :: cs)) =
        .error (.fault f) m := by
  obtain ⟨a, ha, herrors⟩ := analyse_input x l Analysis.initial
  obtain ⟨line, m, hread, hplace⟩ : ∃ line m,
      Run.readLine s.endOfInput (Machine.initial (c :: cs)) = .ok line m ∧
        m.scopes.owner? m.current x = none := by
    rw [Run.readLine_run]
    exact ⟨_, _, rfl, owner?_initial hx (c :: cs)⟩
  refine ⟨(semanticErrors_of_stmt ha).trans herrors, m, execute_of_error rfl (bind_of_error ?_)⟩
  rw [Exec.stmt]
  · exact (bind_of_ok hread).trans (reassign_unbound hplace f _)
  · intro _ h
    cases h

/-- None of the registered names is bound. -/
theorem registered_unbound {x : String} (hx : isKnown x = true) (l : Nat) (s : Setting) (f : Fault)
    (input : List Char) :
    Program.semanticErrors { statements := [.print [.var x l] l] } = [] ∧
      ∃ m, execute { s with unbound := some f } [.print [.var x l] l] (Machine.initial input) =
        .error (.fault f) m := by
  obtain ⟨g, hg, hname⟩ := List.any_eq_true.mp hx
  rw [← beq_iff_eq.mp hname]
  have hresolved : ∀ g ∈ knownFunctions, (Analysis.initial.scope.resolve? g.1).isSome = true := by
    decide
  have hunbound : ∀ g ∈ knownFunctions, g.1 ∉ Sight.initial.bound := by decide
  have hlookup := lookup_unbound (owner?_initial (hunbound g hg) input) f
  refine ⟨semanticErrors_of_stmt (analyse_var (hresolved g hg) l), Machine.initial input,
    execute_of_error rfl (bind_of_error ?_)⟩
  rw [Exec.stmt, Eval.exprs, Eval.expr]
  exact bind_of_error (bind_of_error hlookup)

/-- In a session of such programs no program ends because a name has no meaning, be it of a
variable, a function or a class, or one that `padho` is to give a value: it makes no difference what
that would end in. Being passed by the analyser is not enough for that. It passes `padho` into any
name, and the use of each registered name, and both fail in a run on a new machine. -/
theorem vetted_run_resolves (s : Setting) (input : List Char) :
    (∀ (before : List SessionStep) (p : SessionStep), (∀ q ∈ before, Vetted q.statements) →
      Vetted p.statements → ∀ u u',
      execute (p.ending u).setting p.statements
          (p.start (session (before.map (.ending u)) (Machine.initial input))) =
        execute (p.ending u').setting p.statements
          (p.start (session (before.map (.ending u')) (Machine.initial input)))) ∧
    (∀ x, x ∉ Sight.initial.bound → input ≠ [] → ∀ l f,
      Program.semanticErrors { statements := [.input x none l] } = [] ∧
        ∃ m, execute { s with unbound := some f } [.input x none l] (Machine.initial input) =
          .error (.fault f) m) ∧
    ∀ x, isKnown x = true → ∀ l f,
      Program.semanticErrors { statements := [.print [.var x l] l] } = [] ∧
        ∃ m, execute { s with unbound := some f } [.print [.var x l] l] (Machine.initial input) =
          .error (.fault f) m := by
  refine ⟨fun before p hbefore hp u u' => ?_, fun x hx hinput l f => ?_, fun x hx l f => ?_⟩
  · have hm : (Pairing.wholly fun _ => u').At Sight.initial.bound (Machine.initial input) := by
      refine ⟨⟨Machine.hosted_initial _ input, False.elim, trivial⟩, fun x hx => ?_⟩
      exact Scopes.isBound_of_binds ((binds_initial input x).mpr hx)
    obtain ⟨heq, hat⟩ := SessionStep.session_ending hbefore hm u
    rw [← heq]
    exact (hp.resolves (p.at_start hat) p.setting u).1
  · obtain ⟨c, cs, rfl⟩ := List.exists_cons_of_ne_nil hinput
    exact padho_unbound hx l s f c cs
  · exact registered_unbound hx l s f input

/-- A `padho` into a variable, and then a program with a class and an object of it. -/
theorem vetted_run_resolves_objects :
    let q : SessionStep :=
      { input := ['5']
        statements := [.assign "x" (.literal .number (.int 0) 1) 1, .input "x" none 2] }
    let p : SessionStep :=
      { statements := [.classDef "A" none [] 1, .assign "a" (.newObject "A" [] 2) 2] }
    (Vetted q.statements ∧ Vetted p.statements) ∧
      execute { unbound := some .interrupted } p.statements
          (p.start (session [q.ending (some .interrupted)] Machine.initial)) =
        execute {} p.statements (p.start (session [q] Machine.initial)) := by
  intro q p
  have hparse : parse .both "maan x = 0\npadho x" = .ok { statements := q.statements } := by cbv
  have hparse' : parse .both "class A \x7b \x7d\nmaan a = naya A" =
      .ok { statements := p.statements } := by cbv
  have hq : Vetted q.statements :=
    ⟨⟨_, _, _, _, hparse, rfl, rfl, rfl⟩, by decide +kernel⟩
  have hp : Vetted p.statements :=
    ⟨⟨_, _, _, _, hparse', rfl, rfl, rfl⟩, by decide +kernel⟩
  refine ⟨⟨hq, hp⟩, ?_⟩
  exact (vetted_run_resolves {} []).1 [q] p (by simpa using hq) hp (some .interrupted) none

end Bhasha
