import Bhasha.Proofs.CallDepth
import Bhasha.Proofs.LoopDepth
import Bhasha.Proofs.SealedRuns
import Bhasha.Proofs.VettedPrograms

namespace Bhasha

/-- Runs `body`; a jump that would come out of it ends in the fault `f` instead. -/
def Run.sealed {α : Type} (f : Fault) (body : Run α) : Run α := fun m =>
  match body m with
  | .error .breakLoop m => .error (.fault f) m
  | .error .continueLoop m => .error (.fault f) m
  | r => r

/-- As `perform`, but the body of each function, method and lambda that is called is sealed. -/
def performSealed (s : Setting) (f : Fault) : (budget : Nat) → Task → Run Value
  | 0, _ => throw .exhausted
  | n + 1, t => Run.sealed f (t.carriedOut { s with perform := performSealed s f n, turns := n })

def executeSealed (s : Setting) (f : Fault) (ss : List Stmt) : Run Unit :=
  discard (Run.result (discard (performSealed s f budget (.statements ss))))

namespace Seals

variable {α : Type} {m : Machine} {p q : Run α} {V : α → Prop}

/-- A seal is of no account where no jump comes out. -/
theorem sealed (h : Seals false m p q V) (f : Fault) : Seals false m p (Run.sealed f q) V := by
  cases h with
  | ended a m' hp hq hm hv => exact .ended a m' hp (by simp only [Run.sealed, hq]) hm hv
  | exited e m' hp hq hm he =>
    refine .exited e m' hp ?_ hm he
    cases e with
    | breakLoop => cases he
    | continueLoop => cases he
    | _ => simp only [Run.sealed, hq]

theorem perform (s : Setting) (f : Fault) : ∀ n,
    Performs (Bhasha.perform s n) (performSealed s f n)
  | 0, _, _, _, hm => throw hm trivial
  | n + 1, t, _, ht, hm => by
    rw [perform_succ, performSealed]
    exact (carriedOut (c := { s with perform := Bhasha.perform s n, turns := n })
      (perform s f n) t ht hm).sealed f

theorem execute (s : Setting) (f : Fault) {ss : List Stmt}
    (h : Stmt.containedAll .strict .outside ss = true) (hm : m.Contained) :
    Seals false m (Bhasha.execute s ss) (executeSealed s f ss) fun _ => True :=
  (perform s f budget (t := .statements ss) h hm).discard.result.discard

theorem not_jump (h : Seals false m p q V) (m' : Machine) :
    p m ≠ .error .breakLoop m' ∧ p m ≠ .error .continueLoop m' := by
  cases h with
  | ended a m₁ hp =>
    rw [hp]
    exact ⟨nofun, nofun⟩
  | exited e m₁ hp _ _ he =>
    rw [hp]
    constructor
    · rintro ⟨⟩
      cases he
    · rintro ⟨⟩
      cases he

end Seals

/-- The statements of a program that the parser gives and the analyser passes. The functions that
stand in its loops have loops of their own for their jumps. -/
structure Fenced (ss : List Stmt) : Prop where
  passed : ∃ lang ts p a, parseTokens lang ts = .ok p ∧ analyse p = .ok a ∧ a.errors = [] ∧
    p.statements = ss
  own : Stmt.containedAll .own .lenient ss = true

theorem Fenced.strict {ss : List Stmt} (h : Fenced ss) :
    Stmt.containedAll .strict .outside ss = true := by
  obtain ⟨lang, ts, p, a, hparse, ha, hclean, rfl⟩ := h.passed
  have hlexical := Stmt.containedAll_iff.1 (lexical_of_analyse ha hclean)
  have hown := Stmt.containedAll_iff.1 h.own
  refine Stmt.containedAll_iff.2 fun s hs => ?_
  have hmeet : Spot.Meet .outside .lenient .outside :=
    ⟨fun h => absurd h Bool.false_ne_true, fun h => absurd h Bool.false_ne_true⟩
  have hclosed := closed_of_parseTokens hparse s hs .lenient rfl
  exact s.tightens hmeet (hlexical s hs) (hown s hs) hclosed

theorem SessionStep.contained_session {ps : List SessionStep} {m : Machine}
    (h : ∀ p ∈ ps, Fenced p.statements) (hm : m.Contained) : (session ps m).Contained := by
  induction ps generalizing m with
  | nil => exact hm
  | cons p ps ih =>
    obtain ⟨hp, hps⟩ := List.forall_mem_cons.mp h
    have hstart : (p.start m).Contained := hm.congr rfl rfl
    exact ih hps (Seals.execute p.setting .endOfInput hp.strict hstart).finalState

namespace Stray

/-- `kaam f() { ruk }` -/
def function : FunctionDef :=
  .mk "f" [] [.breakLoop 3] 3

def loop : Stmt :=
  .whileLoop (.literal .boolean (.bool true) 2)
    [.function function, .assign "g" (.var "f" 4) 4, .breakLoop 5] 2

/-- `g` is called when the loop that its `ruk` was meant for is over. -/
def program : Program where
  statements := [.assign "g" (.literal .number (.int 0) 1) 1, loop, .expr (.call "g" [] 6)]

def tokens : List Token :=
  [⟨.identifier, .str "g", 1, 1⟩, ⟨.assign, .str "=", 1, 3⟩, ⟨.number, .int 0, 1, 5⟩,
   ⟨.whileKw, .str "jab_tak", 2, 1⟩, ⟨.boolean, .bool true, 2, 9⟩, ⟨.lbrace, .str "\x7b", 2, 14⟩,
   ⟨.function, .str "kaam", 3, 3⟩, ⟨.identifier, .str "f", 3, 8⟩, ⟨.lparen, .str "(", 3, 9⟩,
   ⟨.rparen, .str ")", 3, 10⟩, ⟨.lbrace, .str "\x7b", 3, 12⟩, ⟨.breakKw, .str "ruk", 3, 14⟩,
   ⟨.rbrace, .str "\x7d", 3, 18⟩, ⟨.identifier, .str "g", 4, 3⟩, ⟨.assign, .str "=", 4, 5⟩,
   ⟨.identifier, .str "f", 4, 7⟩, ⟨.breakKw, .str "ruk", 5, 3⟩, ⟨.rbrace, .str "\x7d", 5, 7⟩,
   ⟨.identifier, .str "g", 6, 1⟩, ⟨.lparen, .str "(", 6, 2⟩, ⟨.rparen, .str ")", 6, 3⟩,
   ⟨.eof, .none, 6, 4⟩]

theorem parse_tokens : parseTokens .both tokens = .ok program :=
  rfl

theorem semanticErrors_program : program.semanticErrors = [] :=
  rfl

/-- Before the loop. -/
def before (input : List Char) : Machine :=
  { Machine.initial input with
    scopes := (Machine.initial input).scopes.define Machine.globalScope "g" (.int 0) }

/-- Behind the loop both names are bound to the function. -/
def behind (input : List Char) : Machine :=
  let f : Value := .function (function.closure Machine.globalScope)
  { before input with
    scopes := ((before input).scopes.define Machine.globalScope "f" f).define
      Machine.globalScope "g" f }

variable {s : Setting}

theorem stmt_loop (hturns : 0 < s.maxIterations) (input : List Char) :
    Exec.stmt s.context loop (before input) = .ok () (behind input) := by
  obtain ⟨n, hn⟩ : ∃ n, s.context.maxIterations.toNat = n + 1 :=
    Nat.exists_eq_succ_of_ne_zero (Nat.ne_of_gt (Int.lt_toNat.2 hturns))
  rw [loop, Exec.stmt, hn]
  rfl

theorem stmt_call (hcalls : 0 < s.maxCallDepth) (input : List Char) :
    ∃ m, Exec.stmt s.context (.expr (.call "g" [] 6)) (behind input) = .error .breakLoop m := by
  have hdepth : ¬s.context.maxCallDepth ≤ (behind input).calls.length := Int.not_le.2 hcalls
  obtain ⟨m, hcall⟩ : ∃ m, Run.callFunction s.context (function.closure Machine.globalScope) [] 6
      (behind input) = .error .breakLoop m := by
    rw [callFunction_run _ _ _ rfl, if_neg hdepth]
    exact ⟨_, rfl⟩
  have hexpr : Eval.expr s.context (.call "g" [] 6) (behind input) =
      Run.callFunction s.context (function.closure Machine.globalScope) [] 6 (behind input) := by
    rw [Eval.expr, Eval.exprs]
    rfl
  refine ⟨m, ?_⟩
  rw [Exec.stmt]
  exact bind_of_error (hexpr.trans hcall)

/-- The jump comes out of the call, and then out of the program. -/
theorem execute_program (hturns : 0 < s.maxIterations) (hcalls : 0 < s.maxCallDepth)
    (input : List Char) :
    ∃ m, execute s program.statements (Machine.initial input) = .error .breakLoop m := by
  have hassign : Exec.stmt s.context (.assign "g" (.literal .number (.int 0) 1) 1)
      (Machine.initial input) = .ok () (before input) := rfl
  obtain ⟨m, hcall⟩ := stmt_call hcalls input
  refine ⟨m, execute_of_error rfl ((bind_of_ok hassign).trans ?_)⟩
  exact (bind_of_ok (stmt_loop hturns input)).trans (bind_of_error hcall)

end Stray

/-- In a session of such programs no program ends in a jump, and no call does: it makes no
difference if a seal turns every jump that comes out of a body into a fault, whichever fault. Being
passed by the analyser is not enough for that. Of a function in a loop it says that its jumps are in
the loop, and when the function is called behind the loop, a jump comes out of the program. -/
theorem fenced_run_keeps_jumps (input : List Char) :
    (∀ (before : List SessionStep) (p : SessionStep), (∀ q ∈ before, Fenced q.statements) →
      Fenced p.statements →
      let m := p.start (session before (Machine.initial input))
      (∀ f, execute p.setting p.statements m = executeSealed p.setting f p.statements m) ∧
      ∀ m', execute p.setting p.statements m ≠ .error .breakLoop m' ∧
        execute p.setting p.statements m ≠ .error .continueLoop m') ∧
    ∀ s : Setting, 0 < s.maxIterations → 0 < s.maxCallDepth →
      ∃ p : Program, (∃ lang ts, parseTokens lang ts = .ok p) ∧ p.semanticErrors = [] ∧
        ∃ m, execute s p.statements (Machine.initial input) = .error .breakLoop m := by
  constructor
  · intro before p hbefore hp m
    have hm : m.Contained :=
      (SessionStep.contained_session hbefore (.initial input)).congr rfl rfl
    have hseals (f : Fault) := Seals.execute p.setting f hp.strict hm
    exact ⟨fun f => (hseals f).eq, (hseals .endOfInput).not_jump⟩
  · intro s hturns hcalls
    exact ⟨Stray.program, ⟨_, _, Stray.parse_tokens⟩, Stray.semanticErrors_program,
      Stray.execute_program hturns hcalls input⟩

/-- `kaam f() { jab_tak sach { ruk } }` and `f()` in a loop, run twice. -/
theorem fenced_run_keeps_jumps_twice :
    let p : SessionStep :=
      { statements := [.whileLoop (.literal .boolean (.bool true) 1)
          [.function (.mk "f" []
            [.whileLoop (.literal .boolean (.bool true) 2) [.breakLoop 2] 2] 2),
           .expr (.call "f" [] 3), .breakLoop 4] 1] }
    Fenced p.statements ∧
      (∀ f, execute {} p.statements (p.start (session [p] Machine.initial)) =
        executeSealed {} f p.statements (p.start (session [p] Machine.initial))) ∧
      ∃ p : Program, p.semanticErrors = [] ∧
        ∃ m, execute {} p.statements Machine.initial = .error .breakLoop m := by
  intro p
  have hparse : parseTokens .both
      [⟨.whileKw, .str "jab_tak", 1, 1⟩, ⟨.boolean, .bool true, 1, 9⟩,
       ⟨.lbrace, .str "\x7b", 1, 14⟩, ⟨.function, .str "kaam", 2, 3⟩, ⟨.identifier, .str "f", 2, 8⟩,
       ⟨.lparen, .str "(", 2, 9⟩, ⟨.rparen, .str ")", 2, 10⟩, ⟨.lbrace, .str "\x7b", 2, 12⟩,
       ⟨.whileKw, .str "jab_tak", 2, 14⟩, ⟨.boolean, .bool true, 2, 22⟩,
       ⟨.lbrace, .str "\x7b", 2, 27⟩, ⟨.breakKw, .str "ruk", 2, 29⟩, ⟨.rbrace, .str "\x7d", 2, 33⟩,
       ⟨.rbrace, .str "\x7d", 2, 35⟩, ⟨.identifier, .str "f", 3, 3⟩, ⟨.lparen, .str "(", 3, 4⟩,
       ⟨.rparen, .str ")", 3, 5⟩, ⟨.breakKw, .str "ruk", 4, 3⟩, ⟨.rbrace, .str "\x7d", 5, 1⟩,
       ⟨.eof, .none, 5, 2⟩] = .ok { statements := p.statements } := rfl
  have hp : Fenced p.statements := ⟨⟨_, _, _, _, hparse, rfl, rfl, rfl⟩, rfl⟩
  obtain ⟨hsession, hstray⟩ := fenced_run_keeps_jumps []
  refine ⟨hp, (hsession [p] p (by simpa using hp) hp).1, ?_⟩
  obtain ⟨program, -, hrest⟩ := hstray {} (by decide) (by decide)
  exact ⟨program, hrest⟩

end Bhasha
