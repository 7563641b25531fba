import Bhasha.Proofs.SyntaxErrorRecovery

namespace Bhasha

/-- Where the first end mark stands. -/
def firstEnd (ts : List Token) : Nat :=
  ts.findIdx fun t => t.kind == .eof

theorem kind_firstEnd {ts : List Token} {t : Token} (h : ts[firstEnd ts]? = some t) :
    t.kind = .eof := by
  obtain ⟨hlt, rfl⟩ := List.getElem?_eq_some_iff.1 h
  exact beq_iff_eq.1 (List.findIdx_getElem (w := hlt))

namespace Cursor

/-- The cursor advances, and errors may be recorded on the way. -/
inductive Moves : Cursor → Cursor → Prop
  | refl (c) : Moves c c
  | step {c c'} : Moves c c' → Moves c c'.advanced
  | recorded {c c'} (d : Diagnostic) : Moves c c' → Moves c (Parse.record c' d)

instance : Std.Refl Moves := ⟨.refl⟩

instance : IsTrans Cursor Moves where
  trans _ _ _ h h' := by
    induction h' with
    | refl => exact h
    | step _ ih => exact ih.step
    | recorded d _ ih => exact ih.recorded d

variable {c c' : Cursor}

theorem Advances.moves (h : c.Advances c') : c.Moves c' := by
  induction h with
  | refl => exact .refl _
  | step _ ih => exact ih.step

namespace Moves

theorem tokens_eq (h : c.Moves c') : c'.tokens = c.tokens := by
  induction h with
  | refl => rfl
  | step _ ih =>
    rw [advanced]
    split <;> exact ih
  | recorded _ _ ih => exact ih

theorem index_le (h : c.Moves c') : c.index ≤ c'.index := by
  induction h with
  | refl => exact Nat.le_refl _
  | step _ ih =>
    rw [advanced]
    split
    · exact ih
    · exact Nat.le_succ_of_le ih
  | recorded _ _ ih => exact ih

theorem ended (h : c.Moves c') (hc : c.Ended) : c'.Ended := by
  induction h with
  | refl => exact hc
  | step _ ih => exact ih.advanced
  | recorded _ _ ih => exact ih

/-- At the first end mark there is no further step. -/
theorem index_le_firstEnd {ts : List Token} (h : c.Moves c') (hts : c.tokens = ts.toArray)
    (hc : c.Ended) (hle : c.index ≤ firstEnd ts) : c'.index ≤ firstEnd ts := by
  induction h with
  | refl => exact hle
  | recorded _ _ ih => exact ih
  | @step c' hmoves ih =>
    rw [advanced]
    split
    · exact ih
    next hend =>
      have hcurrent := (hmoves.ended hc).getElem?
      rw [hmoves.tokens_eq, hts, List.getElem?_toArray] at hcurrent
      have hne : c'.index ≠ firstEnd ts := by
        intro heq
        rw [heq] at hcurrent
        exact hend (beq_iff_eq.2 (kind_firstEnd hcurrent))
      change c'.index + 1 ≤ firstEnd ts
      omega

end Moves

end Cursor

namespace Parse

section

variable {α : Type} {p : Parse α}

theorem Steady.moves (h : Steady p) : Keeps Cursor.Moves p :=
  h.mono fun _ _ => Cursor.Advances.moves

/-- Wherever `p` starts, it only moves the cursor, and it does not run out of budget. -/
structure Orderly (p : Parse α) : Prop where
  moves : Keeps Cursor.Moves p
  lasts : ∀ {c c'}, c.Ended → p c ≠ .error (.fault .outOfBudget) c'

theorem Orderly.of_leaves (hp : Steady p) (h : ∀ c, c.Ended → ∃ r q, LeavesFrom c r q p) :
    Orderly p where
  moves := Steady.moves hp
  lasts := by
    intro c c' hc herr
    obtain ⟨r, q, hleaves⟩ := h c hc
    have hmem : Fault.outOfBudget ∉ faults := by decide
    exact hmem (hleaves.broken herr)

theorem Orderly.discard (h : Orderly p) : Orderly (Functor.discard p) where
  moves := h.moves.discard
  lasts hc herr := h.lasts hc (map_eq_error herr)

theorem Orderly.of_takes (hp : Steady p) (h : ∀ n, Takes (n + 1) p) :
    Orderly (Functor.discard p) :=
  .discard (.of_leaves hp fun c hc =>
    ⟨_, _, h c.remaining (Nat.le_succ _) (Nat.le_refl _) c hc (Nat.le_refl _)⟩)

theorem Orderly.of_commits (hp : Steady p) (h : ∀ n, Commits (n + 1) p) :
    Orderly (Functor.discard p) :=
  .of_takes hp fun n => (h n).takes

end

/-- The token `offset` places on, or a fault. -/
def peeked (offset : Int) : Parse Token := do
  match (← get).peek offset with
  | .ok t => return t
  | .error f => throw (.fault f)

/-- The methods of the parser that can be called on their own. -/
inductive Call
  | advance | peek (offset : Int) | seesAny (ks : List TokenKind) | expect (k : TokenKind) | atEnd
  | synchronize | program (lang : Lang)
  | statement | declaration | print | input | conditional | whileLoop | forLoop | functionDef
  | giveBack | classDef | attempt | raiseError | importFile | assignmentOrExpression
  | expression | disjunction | conjunction | equality | comparison | addition | multiplication
  | unary | applied | primary | list | dict | newObject | lambda | superCall

namespace Call

def run : Call → Parse Unit
  | advance => Functor.discard Parse.advance
  | peek offset => Functor.discard (Parse.peeked offset)
  | seesAny ks => Functor.discard (Parse.seesAny ks)
  | expect k => Functor.discard (Parse.expect k)
  | atEnd => Functor.discard Parse.atEnd
  | synchronize => Parse.synchronize
  | program lang => Functor.discard (Parse.program lang)
  | statement => Functor.discard Parse.statement
  | declaration => Functor.discard Parse.declaration
  | print => Functor.discard Parse.print
  | input => Functor.discard Parse.input
  | conditional => Functor.discard (Parse.conditional Parse.statement)
  | whileLoop => Functor.discard (Parse.whileLoop Parse.statement)
  | forLoop => Functor.discard (Parse.forLoop Parse.statement)
  | functionDef => Functor.discard (Parse.functionDef Parse.statement)
  | giveBack => Functor.discard Parse.giveBack
  | classDef => Functor.discard (Parse.classDef Parse.statement)
  | attempt => Functor.discard (Parse.attempt Parse.statement)
  | raiseError => Functor.discard Parse.raiseError
  | importFile => Functor.discard Parse.importFile
  | assignmentOrExpression => Functor.discard Parse.assignmentOrExpression
  | expression => Functor.discard Parse.expression
  | disjunction => Functor.discard (Parse.disjunction Parse.expression)
  | conjunction => Functor.discard (Parse.conjunction Parse.expression)
  | equality => Functor.discard (Parse.equality Parse.expression)
  | comparison => Functor.discard (Parse.comparison Parse.expression)
  | addition => Functor.discard (Parse.addition Parse.expression)
  | multiplication => Functor.discard (Parse.multiplication Parse.expression)
  | unary => Functor.discard (Parse.unary Parse.expression)
  | applied => Functor.discard (Parse.applied Parse.expression)
  | primary => Functor.discard (Parse.primary Parse.expression)
  | list => Functor.discard (Parse.list Parse.expression)
  | dict => Functor.discard (Parse.dict Parse.expression)
  | newObject => Functor.discard (Parse.newObject Parse.expression)
  | lambda => Functor.discard (Parse.lambda Parse.expression)
  | superCall => Functor.discard (Parse.superCall Parse.expression)

end Call

theorem orderly_advance : Orderly advance where
  moves := Steady.moves steady_advance
  lasts := by
    intro c c' _ herr
    rcases bind_eq_error herr with hmodify | ⟨_, c₁, -, hprevious⟩
    · cases hmodify
    · rw [bind_get] at hprevious
      cases hbehind : c₁.previous? with
      | some t =>
        rw [hbehind] at hprevious
        cases hprevious
      | none =>
        rw [hbehind] at hprevious
        cases hprevious

theorem peek_eq_error {c : Cursor} {offset : Int} {f : Fault} (h : c.peek offset = .error f) :
    f = .listIndex := by
  grind [Cursor.peek]

theorem orderly_peeked (offset : Int) : Orderly (peeked offset) := by
  constructor
  · refine .bind .get fun c => ?_
    split
    · exact .pure _
    · exact .throw _
  · intro c c' _ herr
    rw [peeked, bind_get] at herr
    cases hpeek : c.peek offset with
    | ok t =>
      rw [hpeek] at herr
      cases herr
    | error f =>
      rw [hpeek, peek_eq_error hpeek] at herr
      cases herr

theorem orderly_expect (k : TokenKind) : Orderly (expect k) where
  moves := Steady.moves (steady_expect k)
  lasts := by
    intro c c' hc herr
    have hsees : sees k c = .ok (c.current.kind == k) c := rfl
    rw [expect, bind_of_ok hsees] at herr
    split at herr
    · exact orderly_advance.lasts hc herr
    · cases herr

theorem orderly_synchronize : Orderly synchronize where
  moves := Steady.moves steady_synchronize
  lasts := by
    intro c c' hc herr
    obtain ⟨c'', hok, -⟩ := synchronize_ok hc
    rw [hok] at herr
    cases herr

theorem orderly_assignmentOrExpression : Orderly assignmentOrExpression := by
  refine .of_leaves steady_assignmentOrExpression fun c hc => ?_
  by_cases hkind : c.current.kind = .identifier ∨ c.current.kind = .this
  · exact ⟨_, _, leavesFrom_assignmentOrExpression hc (Nat.le_refl _) (Nat.le_refl _) hkind⟩
  · obtain ⟨hname, hthis⟩ := not_or.1 hkind
    have hsees (k : TokenKind) : sees k c = .ok (c.current.kind == k) c := rfl
    have hexpr : Leaves c.remaining (c.remaining - 1) c.remaining
        (do return Stmt.expr (← expression)) :=
      (leaves_expression (Nat.le_refl _)).bind fun _ => .pure _ (Nat.le_refl _)
    refine ⟨_, _, (hexpr c hc (Nat.le_refl _)).congr ?_⟩
    rw [assignmentOrExpression, bind_of_ok (hsees .this), if_neg (by simpa using hthis),
      bind_of_ok (hsees .identifier), if_neg (by simpa using hname)]

/-- A parse goes on behind its syntax errors, so these may become more. -/
theorem moves_program (lang : Lang) : Keeps Cursor.Moves (program lang) := by
  have hstatement : Keeps Cursor.Moves statement := Steady.moves steady_statement
  have hrecover (e : Failure) : Keeps Cursor.Moves (recover e) := by
    cases e with
    | fault f => exact .throw _
    | diagnostic d =>
      refine .bind (.modified fun c => ?_) fun _ => .bind orderly_synchronize.moves fun _ => .pure _
      exact (Cursor.Moves.refl c).recorded d
  have hturns (n : Nat) (found : List Stmt) : Keeps Cursor.Moves (statementsWithin n found) := by
    induction n generalizing found with
    | zero => exact .throw _
    | succ n ih =>
      refine .bind (Steady.moves steady_atEnd) fun _ => .ite (.pure _) ?_
      exact .bind (.tryCatch (hstatement.map _) hrecover) fun _ => ih _
  exact .bind .get fun _ => .bind (hturns _ _) fun _ => .bind .get fun _ =>
    .ite (.pure _) (.throw _)

/-- How a parse can end: with a program, with all of its syntax errors, or with the fault that broke
it off. -/
inductive Outcome (lang : Lang) : EStateM.Result Failure Cursor Program → Prop
  | read (p c) : Outcome lang (.ok p c)
  | failed {ds} (c) : ds ≠ [] → Outcome lang (.error (.diagnostic (.parserCollection lang ds)) c)
  | broken {f} (c) : f ∈ faults → Outcome lang (.error (.fault f) c)

theorem outcome_program (lang : Lang) {c : Cursor} (hc : c.Ended) :
    Outcome lang (program lang c) := by
  obtain ⟨ss, ds, f?, hcourse⟩ := exists_course hc
  obtain ⟨hdone, hbroken⟩ := hcourse.run hc (Nat.le_add_right _ 2) []
  rw [program, bind_get]
  cases f? with
  | some f =>
    obtain ⟨hf, c', hrun⟩ := hbroken f rfl
    rw [bind_of_error hrun]
    exact .broken c' hf
  | none =>
    obtain ⟨c', hrun, -⟩ := hdone rfl
    rw [bind_of_ok hrun, bind_get]
    split
    · exact .read _ c'
    next herrors => exact .failed c' (by simpa using herrors)

theorem orderly_program (lang : Lang) : Orderly (program lang) where
  moves := moves_program lang
  lasts := by
    intro c c' hc herr
    have houtcome := outcome_program lang hc
    rw [herr] at houtcome
    cases houtcome with
    | broken _ hf => exact absurd hf (by decide)

theorem orderly_run (call : Call) : Orderly call.run := by
  have hexpr (n : Nat) : Takes n expression := takes_expression n
  have hstmt (n : Nat) : Takes n statement := (commits_statement n).takes
  have hmultiplication (n : Nat) : Takes (n + 1) (multiplication expression) :=
    (hexpr n).unary.level (by simp)
  have haddition (n : Nat) : Takes (n + 1) (addition expression) :=
    (hmultiplication n).level (by simp)
  have hcomparison (n : Nat) : Takes (n + 1) (comparison expression) :=
    (haddition n).level (by simp)
  have hequality (n : Nat) : Takes (n + 1) (equality expression) := (hcomparison n).level (by simp)
  have hse : Steady expression := steady_expression
  have hss : Steady statement := steady_statement
  have hsm : Steady (multiplication expression) := hse.unary.level _
  cases call with
  | advance => exact orderly_advance.discard
  | peek offset => exact (orderly_peeked offset).discard
  | seesAny ks => exact .discard ⟨Steady.moves (steady_seesAny ks), fun _ herr => by cases herr⟩
  | expect k => exact (orderly_expect k).discard
  | atEnd => exact .discard ⟨Steady.moves steady_atEnd, fun _ herr => by cases herr⟩
  | synchronize => exact orderly_synchronize
  | program lang => exact (orderly_program lang).discard
  | importFile => exact .discard ⟨.throw _, fun _ herr => by cases herr⟩
  | assignmentOrExpression => exact orderly_assignmentOrExpression.discard
  | statement => exact .of_takes hss fun n => hstmt _
  | declaration => exact .of_commits steady_declaration fun n => commits_declaration _
  | print => exact .of_commits steady_print fun n => commits_print _
  | input => exact .of_commits steady_input fun n => commits_input _
  | giveBack => exact .of_commits steady_giveBack fun n => commits_giveBack _
  | raiseError => exact .of_commits steady_raiseError fun n => commits_raiseError _
  | conditional => exact .of_commits (Steady.conditional hss) fun n => (hstmt n).conditional
  | whileLoop => exact .of_commits (Steady.whileLoop hss) fun n => (hstmt n).whileLoop
  | forLoop => exact .of_commits (Steady.forLoop hss) fun n => (hstmt n).forLoop
  | functionDef => exact .of_commits (Steady.functionDef hss) fun n => (hstmt n).functionDef
  | classDef => exact .of_commits (Steady.classDef hss) fun n => (hstmt n).classDef
  | attempt => exact .of_commits (Steady.attempt hss) fun n => (hstmt n).attempt
  | expression => exact .of_takes hse fun n => hexpr _
  | disjunction => exact .of_takes (Steady.disjunction hse) fun n => (hexpr n).disjunction
  | unary => exact .of_takes (Steady.unary hse) fun n => (hexpr n).unary
  | applied => exact .of_takes (Steady.applied hse) fun n => (hexpr n).applied
  | primary => exact .of_takes (Steady.primary hse) fun n => (hexpr n).primary
  | list => exact .of_takes (Steady.list hse) fun n => (hexpr n).list
  | dict => exact .of_takes (Steady.dict hse) fun n => (hexpr n).dict
  | newObject => exact .of_takes (Steady.newObject hse) fun n => (hexpr n).newObject
  | lambda => exact .of_takes (Steady.lambda hse) fun n => (hexpr n).lambda
  | superCall => exact .of_takes (Steady.superCall hse) fun n => (hexpr n).superCall
  | multiplication => exact .of_takes hsm hmultiplication
  | addition => exact .of_takes (hsm.level _) haddition
  | comparison => exact .of_takes ((hsm.level _).level _) hcomparison
  | equality => exact .of_takes (((hsm.level _).level _).level _) hequality
  | conjunction =>
    exact .of_takes ((((hsm.level _).level _).level _).level _) fun n =>
      (hequality n).level (by simp)

/-- Where the parser stands after these calls, whichever of them failed. -/
def reached (ts : List Token) (calls : List Call) : Cursor :=
  calls.foldl (fun c call => finalState call.run c) (.ofTokens ts)

theorem moves_reached (ts : List Token) (calls : List Call) :
    (Cursor.ofTokens ts).Moves (reached ts calls) := by
  unfold reached
  generalize Cursor.ofTokens ts = c
  induction calls generalizing c with
  | nil => exact .refl c
  | cons call calls ih => exact trans_of Cursor.Moves ((orderly_run call).moves c) (ih _)

theorem index_lt_of_remaining_lt {c c' : Cursor} (h : c.Moves c')
    (hlt : c'.remaining < c.remaining) : c.index < c'.index := by
  have htokens := h.tokens_eq
  unfold Cursor.remaining at hlt
  rw [htokens] at hlt
  omega

/-- After any calls on tokens with an end mark, the parser stands at a token up to the first end
mark, and from there every call moves it forward, if at all, and ends. A statement takes a token
when it is read and when it has a syntax error. A parse gives a program, its syntax errors or the
fault that broke it off. -/
theorem reached_progress {ts us : List Token} {last : Token} (hts : ts = us ++ [last])
    (hlast : last.kind = .eof) (calls : List Call) :
    let c := reached ts calls
    c.index ≤ firstEnd ts ∧ ts[c.index]? = some c.current ∧
    (∀ call : Call, c.index ≤ (finalState call.run c).index ∧
      ∀ c', call.run c ≠ .error (.fault .outOfBudget) c') ∧
    (∀ s c', statement c = .ok s c' → c.index < c'.index) ∧
    (∀ d c', statement c = .error (.diagnostic d) c' → c.index < c'.index) ∧
    ∀ lang, Outcome lang (program lang c) := by
  intro c
  have hstart : (Cursor.ofTokens ts).Ended := hts ▸ ended_ofTokens hlast
  have hmoves : (Cursor.ofTokens ts).Moves c := moves_reached ts calls
  have hc : c.Ended := hmoves.ended hstart
  have hcurrent := hc.getElem?
  rw [hmoves.tokens_eq, Cursor.ofTokens, List.getElem?_toArray] at hcurrent
  have hstatement := steady_statement c
  refine ⟨hmoves.index_le_firstEnd rfl hstart (Nat.zero_le _), hcurrent, fun call => ?_,
    fun s c' hs => ?_, fun d c' hs => ?_, fun lang => outcome_program lang hc⟩
  · exact ⟨((orderly_run call).moves c).index_le, fun c' => (orderly_run call).lasts hc⟩
  · rw [finalState_ok hs] at hstatement
    exact index_lt_of_remaining_lt hstatement.moves (statement_ok hc hs).2
  · rw [finalState_error hs] at hstatement
    exact index_lt_of_remaining_lt hstatement.moves (statement_diagnosed hc hs).2

/-- `maan x = ) khatam`, in front of its end mark. -/
def strayFinish : List Token :=
  [⟨.letVar, .str "maan", 1, 1⟩, ⟨.identifier, .str "x", 1, 6⟩, ⟨.assign, .str "=", 1, 8⟩,
   ⟨.rparen, .str ")", 1, 10⟩, ⟨.finish, .str "khatam", 1, 12⟩]

/-- The parser comes to `khatam` and stays there; a parse from there ends all the same. -/
theorem reached_progress_finish :
    let ts := strayFinish ++ [⟨.eof, .none, 1, 18⟩]
    let c := reached ts [.statement, .synchronize, .synchronize]
    c.index = 4 ∧ firstEnd ts = 5 ∧ c.index ≤ firstEnd ts ∧ ts[c.index]? = some c.current ∧
      Outcome .english (program .english c) := by
  have h := reached_progress (rfl : strayFinish ++ [⟨.eof, .none, 1, 18⟩] = _) rfl
    [.statement, .synchronize, .synchronize]
  exact ⟨rfl, rfl, h.1, h.2.1, h.2.2.2.2.2 .english⟩

end Parse

end Bhasha
