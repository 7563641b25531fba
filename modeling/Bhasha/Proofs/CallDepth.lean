import Bhasha.Proofs.ScopeTree

namespace Bhasha

/-- No more calls are open than the limit allows. -/
def Machine.WithinCalls (limit : Int) (m : Machine) : Prop :=
  (m.calls.length : Int) ≤ max limit 0

instance (limit : Int) (m : Machine) : Decidable (m.WithinCalls limit) :=
  inferInstanceAs (Decidable (_ ≤ _))

def Upkeep.withinCalls (limit : Int) : Upkeep where
  holds _ calls := (calls.length : Int) ≤ max limit 0
  limits l := l = limit
  define h _ _ _ := h
  enclose h _ _ _ := h
  call h hlimit hdepth x := by
    rw [List.length_cons]
    omega
  back h := by
    rw [List.length_tail]
    omega

/-- A call at the limit leaves the machine as it is. Any other one is open while its body runs. -/
theorem callFunction_run (c : Context) {f : Closure} {args : List Value} (l : Nat) (m : Machine)
    (hargs : args.length = f.parameters.length) :
    Run.callFunction c f args l m =
      if c.maxCallDepth ≤ m.calls.length then
        .error (.fault (.unknownSlot "RecursionError.__init__" "message_en")) m
      else (Run.newScope f.scope (f.parameters.zip args) >>= fun i => Run.within i
        (Run.called f.name (Run.result (discard (c.perform (.statements f.body)))))) m := by
  have hbind (what : String) :
      Run.bindArguments what f.parameters args l m = .ok (f.parameters.zip args) m := by
    simp only [Run.bindArguments, hargs, bne_self_eq_false, Bool.false_eq_true, if_false]
    rfl
  rw [Run.callFunction, bind_of_ok (hbind _), bind_get]
  split <;> rfl

/-- `n aur f(n - 1)` -/
def descentBody : Expr :=
  .binary .and (.var "n" 1)
    (.call "f" [.binary .subtract (.var "n" 1) (.literal .number (.int 1) 1) 1] 1) 1

/-- The lambda `f` calls itself until `n` is zero. -/
def descent : Lambda where
  parameters := ["n"]
  body := descentBody
  scope := Machine.globalScope

/-- A program that goes down from `k`. -/
def descentFrom (k : Nat) : List Stmt :=
  [.assign "f" (.lambda ["n"] descentBody 1) 1, .expr (.call "f" [.literal .number (.int k) 2] 2)]

/-- The outermost scope has `f`. -/
structure Machine.Descends (m : Machine) : Prop where
  present : Machine.globalScope < m.scopes.all.size
  depth : m.scopes.depth Machine.globalScope = 0
  bound : (m.scopes.bindings Machine.globalScope).find? "f" = some (.lambda descent)

/-- The machine that `f` is entered on. -/
def Machine.descended (m : Machine) (v : Value) : Machine :=
  { m with
    scopes := m.scopes.enclose Machine.globalScope [("n", v)]
    current := m.scopes.all.size }

section

variable {m : Machine} {v : Value} {c : Context} {l : Nat}

theorem Scopes.get?_of_parent? {s : Scopes Value} {i p : Nat} {x : String}
    (hown : (s.bindings i).find? x = none) (hparent : s.parent? i = some p)
    (hdepth : s.depth i = s.depth p + 1) : s.get? i x = s.get? p x := by
  have hnot : ¬s.binds i x := by simp [binds, Bindings.has, hown]
  rw [get?_eq_bind, owner?, hdepth, ownerWithin_of_parent? _ hnot hparent, get?_eq_bind, owner?]

theorem Scopes.bindings_enclose_one {s : Scopes Value} (parent : Nat) (x : String) (v : Value)
    {j : Nat} (hj : j ≤ s.all.size) :
    (s.enclose parent [(x, v)]).bindings j =
      if s.all.size = j then [(x, v)] else s.bindings j := by
  have hsize : j < (s.add (some parent)).all.size := by
    rw [Scopes.add, Array.size_push]
    omega
  have hdefine := bindings_define (s.add (some parent)) s.all.size j x v hsize
  rw [bindings_add] at hdefine
  refine hdefine.trans ?_
  split
  · rename_i h
    have hnone : s.bindings j = [] := by simp [bindings, ← h]
    rw [hnone]
    rfl
  · rfl

theorem Machine.Descends.descended (h : m.Descends) (v : Value) : (m.descended v).Descends where
  present := ((m.scopes.extends_enclose _ _).depth h.present).1
  depth := ((m.scopes.extends_enclose _ _).depth h.present).2.trans h.depth
  bound := by
    rw [Machine.descended, Scopes.bindings_enclose_one _ _ _ (Nat.le_of_lt h.present),
      if_neg (Nat.ne_of_gt h.present), h.bound]

theorem Machine.descended_n (m : Machine) (v : Value) :
    (m.descended v).scopes.get? (m.descended v).current "n" = some v := by
  apply Scopes.get?_of_bindings
  rw [descended, Scopes.bindings_enclose_one _ _ _ (Nat.le_refl _), if_pos rfl]
  rfl

theorem Machine.Descends.descended_f (h : m.Descends) (v : Value) :
    (m.descended v).scopes.get? (m.descended v).current "f" = some (.lambda descent) := by
  have hown : ((m.descended v).scopes.bindings m.scopes.all.size).find? "f" = none := by
    rw [Machine.descended, Scopes.bindings_enclose_one _ _ _ (Nat.le_refl _), if_pos rfl]
    rfl
  have hparent := Scopes.parent?_enclose_self m.scopes globalScope [("n", v)]
  have hdepth := Scopes.depth_enclose_self m.scopes globalScope [("n", v)]
  rw [h.depth, ← (h.descended v).depth] at hdepth
  exact (Scopes.get?_of_parent? hown hparent hdepth).trans
    (Scopes.get?_of_bindings (h.descended v).bound)

theorem subtract_one (lang : Lang) (k l : Nat) (m : Machine) :
    Run.binary lang .subtract (.int (k + 1 : Nat)) (.int 1) l m = .ok (.int k) m := by
  have hk : ((k + 1 : Nat) : Int) - 1 = k := by omega
  rw [← hk]
  rfl

/-- The call has a scope right inside the outermost one, wherever it is made. -/
theorem callLambda_descent (h : m.Descends) (v : Value) :
    Run.callLambda c descent [v] l m = Run.within m.scopes.all.size
      (c.perform (.expression descentBody))
      { m with scopes := m.scopes.enclose Machine.globalScope [("n", v)] } := by
  have hbind : Run.bindArguments "Lambda" descent.parameters [v] l m = .ok [("n", v)] m := rfl
  have hscope := Run.newScope_run descent.scope [("n", v)] m
  have hdepth : ¬Scopes.depthLimit < m.scopes.innerDepth (some descent.scope) := by
    have hinner : m.scopes.innerDepth (some descent.scope) = 1 := congrArg (· + 1) h.depth
    rw [hinner]
    decide
  rw [if_neg hdepth] at hscope
  rw [Run.callLambda, bind_of_ok hbind, bind_of_ok hscope]
  rfl

theorem callLambda_of_ok (h : m.Descends) {a : Value} {m' : Machine}
    (hperform : c.perform (.expression descentBody) (m.descended v) = .ok a m') :
    Run.callLambda c descent [v] l m = .ok a { m' with current := m.current } := by
  rw [Machine.descended] at hperform
  rw [callLambda_descent h, Run.within, hperform]

theorem callLambda_of_error (h : m.Descends) {e : Exit} {m' : Machine}
    (hperform : c.perform (.expression descentBody) (m.descended v) = .error e m') :
    Run.callLambda c descent [v] l m = .error e { m' with current := m.current } := by
  rw [Machine.descended] at hperform
  rw [callLambda_descent h, Run.within, hperform]

theorem expr_call_descent {e : Expr} (hf : m.scopes.get? m.current "f" = some (.lambda descent))
    (he : Eval.expr c e m = .ok v m) :
    Eval.expr c (.call "f" [e] l) m = Run.callLambda c descent [v] l m := by
  have hfind : Run.find? "f" m = .ok (some (.lambda descent)) m :=
    congrArg (EStateM.Result.ok · m) hf
  have hargs : Eval.exprs c [e] m = .ok [v] m := by
    rw [Eval.exprs, bind_of_ok he]
    rfl
  rw [Eval.expr, bind_of_ok hfind]
  dsimp only
  rw [bind_of_ok hargs]
  rfl

theorem expr_descentBody_zero (m : Machine) :
    Eval.expr c descentBody (m.descended (.int 0)) = .ok (.bool false) (m.descended (.int 0)) := by
  have hn : Eval.expr c (.var "n" 1) (m.descended (.int 0)) =
      .ok (.int 0) (m.descended (.int 0)) := by
    rw [Eval.expr]
    exact Run.lookup_eq_ok.mpr ⟨m.descended_n _, rfl⟩
  rw [descentBody, Eval.expr, bind_of_ok hn]
  rfl

theorem expr_descentBody_succ (h : m.Descends) (k : Nat) :
    Eval.expr c descentBody (m.descended (.int (k + 1 : Nat))) =
      (do return .bool (← Run.isTrue (← Run.callLambda c descent [.int k] 1)) : Run Value)
        (m.descended (.int (k + 1 : Nat))) := by
  generalize hm : m.descended (.int (k + 1 : Nat)) = m'
  have hn : Eval.expr c (.var "n" 1) m' = .ok (.int (k + 1 : Nat)) m' := by
    rw [Eval.expr]
    subst hm
    exact Run.lookup_eq_ok.mpr ⟨m.descended_n _, rfl⟩
  have hf : m'.scopes.get? m'.current "f" = some (.lambda descent) := hm ▸ h.descended_f _
  have htrue : Run.isTrue (.int (k + 1 : Nat)) m' = .ok true m' := rfl
  have hone : Eval.expr c (.literal .number (.int 1) 1) m' = .ok (.int 1) m' := rfl
  have hless : Eval.expr c (.binary .subtract (.var "n" 1) (.literal .number (.int 1) 1) 1) m' =
      .ok (.int k) m' := by
    rw [Eval.expr, bind_of_ok hn]
    dsimp only
    rw [bind_of_ok hone]
    exact subtract_one c.lang k 1 m'
  have hcall := expr_call_descent (l := 1) hf hless
  rw [descentBody, Eval.expr, bind_of_ok hn]
  dsimp only
  rw [bind_of_ok htrue]
  change EStateM.bind _ _ m' = EStateM.bind _ _ m'
  simp only [EStateM.bind, hcall]

/-- Going down from `k` takes a nesting of `k + 1` bodies, and no limit on calls has a say in it. -/
theorem perform_descentBody (s : Setting) (n k : Nat) (h : m.Descends) :
    (k < n → ∃ m', perform s n (.expression descentBody) (m.descended (.int k)) =
      .ok (.bool false) m') ∧
    (n ≤ k → ∃ m', perform s n (.expression descentBody) (m.descended (.int k)) =
      .error .exhausted m') := by
  -- Both outcomes go by one induction on the budget; the next call is made on another machine.
  induction n generalizing k m with
  | zero => exact ⟨nofun, fun _ => ⟨_, rfl⟩⟩
  | succ n ih =>
    rw [perform_succ, Task.carriedOut]
    cases k with
    | zero => exact ⟨fun _ => ⟨_, expr_descentBody_zero m⟩, nofun⟩
    | succ k =>
      have hbody := h.descended (.int (k + 1 : Nat))
      obtain ⟨hok, hexhausted⟩ := ih k hbody
      rw [expr_descentBody_succ h k]
      constructor
      · intro hk
        obtain ⟨m', hperform⟩ := hok (Nat.lt_of_succ_lt_succ hk)
        exact ⟨_, (bind_of_ok (callLambda_of_ok hbody hperform)).trans rfl⟩
      · intro hn
        obtain ⟨m', hperform⟩ := hexhausted (Nat.le_of_succ_le_succ hn)
        exact ⟨_, bind_of_error (callLambda_of_error hbody hperform)⟩

theorem assign_descent (c : Context) (input : List Char) :
    ∃ m, Exec.stmt c (.assign "f" (.lambda ["n"] descentBody 1) 1) (Machine.initial input) =
      .ok () m ∧ m.Descends ∧ m.current = Machine.globalScope :=
  ⟨_, rfl, ⟨Nat.zero_lt_one, rfl, rfl⟩, rfl⟩

/-- The program is one body more. -/
theorem perform_descentFrom (s : Setting) (n k : Nat) (input : List Char) :
    (k + 1 < n → ∃ m, perform s n (.statements (descentFrom k)) (Machine.initial input) =
      .ok .none m) ∧
    (n ≤ k + 1 → ∃ m, perform s n (.statements (descentFrom k)) (Machine.initial input) =
      .error .exhausted m) := by
  cases n with
  | zero => exact ⟨nofun, fun _ => ⟨_, rfl⟩⟩
  | succ n =>
    let c : Context := { s with perform := perform s n, turns := n }
    obtain ⟨m, hassign, hm, hcurrent⟩ := assign_descent c input
    have hf : m.scopes.get? m.current "f" = some (.lambda descent) := by
      rw [hcurrent]
      exact Scopes.get?_of_bindings hm.bound
    have hcall : Eval.expr c (.call "f" [.literal .number (.int k) 2] 2) m =
        Run.callLambda c descent [.int k] 2 m := expr_call_descent hf rfl
    obtain ⟨hok, hexhausted⟩ := perform_descentBody s n k hm
    rw [perform_succ, Task.carriedOut, descentFrom, Exec.stmts, Exec.stmts, Exec.stmt]
    constructor
    · intro hk
      obtain ⟨m', hperform⟩ := hok (Nat.lt_of_succ_lt_succ hk)
      have hexpr := hcall.trans (callLambda_of_ok hm hperform)
      exact ⟨_, bind_of_ok ((bind_of_ok hassign).trans (bind_of_ok (bind_of_ok hexpr)))⟩
    · intro hn
      obtain ⟨m', hperform⟩ := hexhausted (Nat.le_of_succ_le_succ hn)
      have hexpr := hcall.trans (callLambda_of_error hm hperform)
      exact ⟨_, bind_of_error ((bind_of_ok hassign).trans (bind_of_error (bind_of_error hexpr)))⟩

end

/-- The calls of functions that are open at once are never more than the limit, at whatever point of
a session a body is entered: it makes no difference if bodies are refused where they are more. A
function that is called at the limit is refused before its body, and the machine is as before.
Lambdas and methods, constructors among them, do not count and are never refused: whatever the
limit, `k + 1` calls of a lambda are open at once in the program that goes down from `k`. It comes
to an end if as many bodies may be nested inside its own, and not if fewer may. -/
theorem function_calls_within_limit (s : Setting) :
    (∀ guard refusal,
      (∀ t m, Machine.WithinCalls s.maxCallDepth m → guard t m = true) →
      ∀ n t m, m.Anchored → m.WithinCalls s.maxCallDepth →
        performGuarded s guard refusal n t m = perform s n t m) ∧
    (∀ ps input, (session ps (Machine.initial input)).Anchored ∧
      (session ps (Machine.initial input)).calls = []) ∧
    (∀ c : Context, ∀ f args l m, args.length = f.parameters.length →
      Run.callFunction c f args l m =
        if c.maxCallDepth ≤ m.calls.length then
          .error (.fault (.unknownSlot "RecursionError.__init__" "message_en")) m
        else (Run.newScope f.scope (f.parameters.zip args) >>= fun i => Run.within i
          (Run.called f.name (Run.result (discard (c.perform (.statements f.body)))))) m) ∧
    (∀ c : Context, ∀ limit, Run.callLambda { c with maxCallDepth := limit } = Run.callLambda c ∧
      Run.callMethod { c with maxCallDepth := limit } = Run.callMethod c) ∧
    ∀ n k input,
      (k + 1 < n → ∃ m, perform s n (.statements (descentFrom k)) (Machine.initial input) =
        .ok .none m) ∧
      (n ≤ k + 1 → ∃ m, perform s n (.statements (descentFrom k)) (Machine.initial input) =
        .error .exhausted m) := by
  refine ⟨fun guard refusal hguard n t m hm hcalls => ?_, fun ps input => ⟨?_, ?_⟩,
    fun c f args l m => callFunction_run c l m, fun c limit => ⟨rfl, rfl⟩, perform_descentFrom s⟩
  · have hholds : (Upkeep.withinCalls s.maxCallDepth).Holds m := ⟨hm, hcalls⟩
    exact Upkeep.performGuarded_eq rfl hholds refusal (fun t m hm => hguard t m hm.kept) n t
  · exact (session_formed ps (Machine.formed_initial input)).anchored
  · exact (session_samePlace ps (Machine.initial input)).calls

/-- Where the limit is two, `g` cannot be called a third time, but the lambda is open six times. -/
theorem function_calls_within_limit_two :
    let s : Setting := { maxCallDepth := 2 }
    let body : List Stmt := [.expr (.call "g" [] 1)]
    let g : Closure := { name := "g", parameters := [], body, scope := Machine.globalScope }
    let ss : List Stmt := [.function (.mk "g" [] body 1), .expr (.call "g" [] 2)]
    let m : Machine := { Machine.initial with calls := ["g", "g"] }
    performGuarded s (fun _ m => decide (m.WithinCalls 2)) .exhausted 4 (.statements ss)
        Machine.initial = perform s 4 (.statements ss) Machine.initial ∧
    Run.callFunction { s with perform := perform s 1, turns := 1 } g [] 1 m =
      .error (.fault (.unknownSlot "RecursionError.__init__" "message_en")) m ∧
    (∃ m', perform s 7 (.statements (descentFrom 5)) Machine.initial = .ok .none m') ∧
    ∃ m', perform s 6 (.statements (descentFrom 5)) Machine.initial = .error .exhausted m' := by
  intro s body g ss m
  obtain ⟨hguarded, hsession, hfunction, -, hlambda⟩ := function_calls_within_limit s
  refine ⟨?_, ?_, (hlambda 7 5 []).1 (by decide), (hlambda 6 5 []).2 (by decide)⟩
  · exact hguarded _ _ (fun _ _ => decide_eq_true) 4 _ _ (hsession [] []).1 (by decide)
  · exact hfunction _ g [] 1 m rfl

end Bhasha
