import Bhasha.Proofs.Finalizers
import Bhasha.Proofs.ScopeGains

namespace Bhasha

namespace Scopes

variable {α : Type}

/-- The scopes with one more inside `parent`, which holds `bindings` and nothing else. -/
def inside (s : Scopes α) (parent : Nat) (bindings : Bindings α) : Scopes α :=
  ⟨s.all.push { parent := some parent, depth := s.depth parent + 1, bindings }⟩

theorem define_inside_nil (s : Scopes α) (parent : Nat) (x : String) (v : α) :
    (s.inside parent []).define s.all.size x v = s.inside parent [(x, v)] := by
  unfold inside define
  congr 1
  apply Array.ext_getElem?
  intro i
  rw [Array.getElem?_modify, Array.getElem?_push, Array.getElem?_push]
  by_cases hi : i = s.all.size
  · rw [if_pos hi, if_pos hi, if_pos hi.symm]
    rfl
  · rw [if_neg hi, if_neg hi, if_neg (Ne.symm hi)]

/-- At most one name is bound here, so no binding replaces another. -/
theorem enclose_named (s : Scopes α) (parent : Nat) (x? : Option String) (v : α) :
    s.enclose parent (x?.toList.map fun x => (x, v)) =
      s.inside parent (x?.toList.map fun x => (x, v)) := by
  cases x? with
  | none => rfl
  | some x => exact define_inside_nil s parent x v

end Scopes

/-- The machine that a handler starts in: a new scope inside the current one has become the current
one, and the name of the error, if it has one, is all that is bound there. -/
def Machine.catching (m : Machine) (x? : Option String) (text : String) : Machine :=
  { m with
    scopes := m.scopes.inside m.current ((Run.nonempty x?).toList.map fun x => (x, .str text))
    current := m.scopes.all.size }

section

variable {c : Context} {body : List Stmt} {x? : Option String} {handler : Option (List Stmt)}
  {m m₁ m₂ : Machine} {d : Diagnostic} {b : List Stmt} {e : Exit}

theorem stmt_attempt_getD (c : Context) (body : List Stmt) (x? : Option String)
    (handler finalizer : Option (List Stmt)) (l : Nat) :
    Exec.stmt c (.attempt body x? handler finalizer l) = (do
      let pending ← guarded c body x? handler
      Exec.stmts c (finalizer.getD [])
      Run.reraise pending) := by
  cases finalizer with
  | none => exact stmt_attempt_none c body x? handler l
  | some f => exact stmt_attempt c body x? handler f l

namespace Run

theorem handling_tooDeep (lang : Lang) (x? : Option String) (d : Diagnostic) (run : Run Unit)
    (h : Scopes.depthLimit ≤ m.scopes.depth m.current) :
    handling lang x? d run m = .error (.error Scopes.tooDeep) m := by
  have hdepth : Scopes.depthLimit < m.scopes.innerDepth (some m.current) := Nat.lt_succ_of_le h
  have hscope := newScope_run m.current
    ((nonempty x?).toList.map fun x => (x, Value.str (d.text lang))) m
  rw [if_pos hdepth] at hscope
  rw [handling, bind_get]
  exact bind_of_error hscope

theorem handling_eq_within (lang : Lang) (x? : Option String) (d : Diagnostic) (run : Run Unit)
    (h : m.scopes.depth m.current < Scopes.depthLimit) :
    handling lang x? d run m = within m.scopes.all.size run
      { m with scopes := (m.catching x? (d.text lang)).scopes } := by
  have hdepth : ¬ Scopes.depthLimit < m.scopes.innerDepth (some m.current) := Nat.not_lt.mpr h
  have hscope := newScope_run m.current
    ((nonempty x?).toList.map fun x => (x, Value.str (d.text lang))) m
  rw [if_neg hdepth, Scopes.enclose_named] at hscope
  rw [handling, bind_get]
  exact bind_of_ok hscope

theorem handling_of_ok {lang : Lang} {run : Run Unit}
    (h : m.scopes.depth m.current < Scopes.depthLimit)
    (hrun : run (m.catching x? (d.text lang)) = .ok () m₂) :
    handling lang x? d run m = .ok () { m₂ with current := m.current } := by
  rw [handling_eq_within lang x? d run h]
  unfold within
  exact hrun ▸ rfl

theorem handling_of_error {lang : Lang} {run : Run Unit}
    (h : m.scopes.depth m.current < Scopes.depthLimit)
    (hrun : run (m.catching x? (d.text lang)) = .error e m₂) :
    handling lang x? d run m = .error e { m₂ with current := m.current } := by
  rw [handling_eq_within lang x? d run h]
  unfold within
  exact hrun ▸ rfl

end Run

/-- A runtime error of the `koshish` part is handled by a `pakdo` part with a statement in it. Its
statements start in a scope of their own, where the name of the error, if there is one, is all that
is bound, and holds the text of the error. What they end with is the end of the attempt, or else
what the `akhir` part ends with, so that nothing else is raised. Only where scopes lie too deep for
one more does the attempt fail by itself. Without a `pakdo` part, and also with an empty one, the
error is raised again behind the `akhir` part. -/
theorem runtime_error_handled (c : Context) (body : List Stmt) (x? : Option String)
    (handler finalizer : Option (List Stmt)) (l : Nat) {m m₁ : Machine} {d : Diagnostic}
    (hbody : Exec.stmts c body m = .error (.error d) m₁) (hd : d.kind.isRuntime = true) :
    let attempt := Exec.stmt c (.attempt body x? handler finalizer l) m
    let final := Exec.stmts c (finalizer.getD [])
    let start := m₁.catching x? (d.text c.lang)
    (∀ b ∈ handler, b ≠ [] → m₁.scopes.depth m₁.current < Scopes.depthLimit →
      (∀ m₂, Exec.stmts c b start = .ok () m₂ →
        attempt = final { m₂ with current := m₁.current }) ∧
      (∀ e m₂, Exec.stmts c b start = .error e m₂ →
        attempt = .error e { m₂ with current := m₁.current }) ∧
      (∀ e m', attempt = .error e m' →
        (∃ m₂, Exec.stmts c b start = .error e m₂) ∨
        ∃ m₂, Exec.stmts c b start = .ok () m₂ ∧
          final { m₂ with current := m₁.current } = .error e m')) ∧
    (∀ b ∈ handler, b ≠ [] → Scopes.depthLimit ≤ m₁.scopes.depth m₁.current →
      attempt = .error (.error Scopes.tooDeep) m₁) ∧
    ((∀ b ∈ handler, b = []) →
      (∀ m₂, final m₁ = .ok () m₂ → attempt = .error (.error d) m₂) ∧
      ∀ e m₂, final m₁ = .error e m₂ → attempt = .error e m₂) := by
  intro attempt final start
  have hattempt : attempt = (do
      let pending ← guarded c body x? handler
      final
      Run.reraise pending) m := by
    exact congrFun (stmt_attempt_getD c body x? handler finalizer l) m
  refine ⟨fun b hb hne hdepth => ?_, fun b hb hne hdepth => ?_, fun hempty => ?_⟩
  · have hok (m₂ : Machine) (hrun : Exec.stmts c b start = .ok () m₂) :
        attempt = final { m₂ with current := m₁.current } := by
      have hsettled := Settled.handled hbody hd hb hne (Run.handling_of_ok hdepth hrun)
      rw [hattempt, bind_of_ok hsettled.guarded_eq]
      exact congrFun (bind_pure final) _
    have herror (e : Exit) (m₂ : Machine) (hrun : Exec.stmts c b start = .error e m₂) :
        attempt = .error e { m₂ with current := m₁.current } := by
      have hescapes := Escapes.handler hbody hd hb hne (Run.handling_of_error hdepth hrun)
      rw [hattempt]
      exact bind_of_error hescapes.guarded_eq
    refine ⟨hok, herror, fun e m' hraised => ?_⟩
    cases hrun : Exec.stmts c b start with
    | ok u m₂ => exact .inr ⟨m₂, rfl, (hok m₂ hrun).symm.trans hraised⟩
    | error e' m₂ =>
      have heq := (herror e' m₂ hrun).symm.trans hraised
      cases heq
      exact .inl ⟨m₂, rfl⟩
  · have hescapes := Escapes.handler hbody hd hb hne
      (Run.handling_tooDeep c.lang x? d (Exec.stmts c b) hdepth)
    rw [hattempt]
    exact bind_of_error hescapes.guarded_eq
  · have hsettled : Settled c body x? handler m (some d) m₁ := .held hbody hd hempty
    rw [hattempt, bind_of_ok hsettled.guarded_eq]
    exact ⟨fun m₂ hfinal => bind_of_ok hfinal, fun e m₂ hfinal => bind_of_error hfinal⟩

/-- `koshish { maan x = 1 - "a" } pakdo e { wapas e }` gives back the text of the error, and with
`pakdo e { }` the error is raised again. -/
theorem runtime_error_handled_operands :
    let context : Context := { perform := fun _ => throw .exhausted, turns := 0 }
    let difference : Expr :=
      .binary .subtract (.literal .number (.int 1) 1) (.literal .string (.str "a") 1) 1
    let body : List Stmt := [.assign "x" difference 1]
    let d : Diagnostic := .plain .type "Invalid operation '-' between int and str" (some 1)
    let scope : Scope Value :=
      { parent := some 0, depth := 1, bindings := [("e", .str (d.text .both))] }
    Exec.stmt context
        (.attempt body (some "e") (some [.giveBack (some (.var "e" 1)) 1]) none 1) {} =
      .error (.giveBack (.str (d.text .both))) { scopes := ⟨#[scope]⟩ } ∧
    Exec.stmt context (.attempt body (some "e") (some []) none 1) {} = .error (.error d) {} := by
  intro context difference body d scope
  have hbody : Exec.stmts context body {} = .error (.error d) {} := rfl
  constructor
  · have hhandler : Exec.stmts context [.giveBack (some (.var "e" 1)) 1]
        (Machine.catching {} (some "e") (d.text .both)) =
          .error (.giveBack (.str (d.text .both))) { scopes := ⟨#[scope]⟩ } := rfl
    have hhandled := (runtime_error_handled context body (some "e")
      (some [.giveBack (some (.var "e" 1)) 1]) none 1 hbody rfl).1 _ rfl (by simp) (by decide)
    exact hhandled.2.1 _ _ hhandler
  · exact ((runtime_error_handled context body (some "e") (some []) none 1 hbody rfl).2.2
      (by simp)).1 {} rfl

end

end Bhasha
