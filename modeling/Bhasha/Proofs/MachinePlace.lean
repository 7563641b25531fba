import Bhasha.Proofs.MachineRelations

namespace Bhasha

/-- The machines `m` and `m'` stand in the same scope, inside the same calls. -/
structure Machine.SamePlace (m m' : Machine) : Prop where
  current : m'.current = m.current
  calls : m'.calls = m.calls

open Machine (SamePlace)

instance : Std.Refl SamePlace where
  refl _ := ⟨rfl, rfl⟩

instance : IsTrans Machine SamePlace where
  trans _ _ _ h h' := ⟨h'.current.trans h.current, h'.calls.trans h.calls⟩

namespace Run

variable {α : Type} {body : Run α}

theorem keeps_newScope (parent : Nat) (bindings : List (String × Value)) :
    Keeps SamePlace (newScope parent bindings) :=
  .bind .get fun _ => .ite (keeps_error _) (.modifyGet fun _ => ⟨rfl, rfl⟩)

/-- The one step that changes the current scope: it changes it back, even if the body lost track. -/
theorem finalState_within (i : Nat) (body : Run α) (m : Machine) :
    finalState (within i body) m =
      { finalState body { m with current := i } with current := m.current } := by
  unfold finalState within
  cases body { m with current := i } <;> rfl

theorem keeps_within (h : Keeps SamePlace body) (i : Nat) : Keeps SamePlace (within i body) := by
  intro m
  rw [finalState_within]
  exact ⟨rfl, (h { m with current := i }).calls⟩

theorem finalState_called (name : String) (body : Run α) (m : Machine) :
    finalState (called name body) m =
      { finalState body { m with calls := name :: m.calls } with
        calls := (finalState body { m with calls := name :: m.calls }).calls.tail } := by
  unfold finalState called
  cases body { m with calls := name :: m.calls } <;> rfl

/-- A call takes the innermost name off again, and that is its own, for its body left the calls as
they were. -/
theorem keeps_called (h : Keeps SamePlace body) (name : String) :
    Keeps SamePlace (called name body) := by
  intro m
  have hb := h { m with calls := name :: m.calls }
  rw [finalState_called]
  exact ⟨hb.current, by simp only [hb.calls, List.tail_cons]⟩

end Run

theorem samePlace_discipline : Discipline SamePlace SamePlace where
  le _ _ h := h
  heap _ _ := ⟨rfl, rfl⟩
  console _ _ _ := ⟨rfl, rfl⟩
  bound _ _ _ := ⟨rfl, rfl⟩
  rebound _ _ _ _ _ := ⟨rfl, rfl⟩
  called name h := Run.keeps_called h name
  entered parent bindings h := .bind (Run.keeps_newScope parent bindings) (Run.keeps_within h)

/-- A program of a session, with the setting it runs in and the input it is given. -/
structure SessionStep where
  setting : Setting := {}
  input : List Char := []
  statements : List Stmt

/-- The machine after the programs of a session, run one after another. A program that fails leaves
the machine as it is then to the next one. -/
def session : List SessionStep → Machine → Machine
  | [], m => m
  | p :: ps, m =>
    session ps
      (finalState (execute p.setting p.statements) { m with output := "", input := p.input })

theorem session_samePlace (ps : List SessionStep) (m : Machine) : m.SamePlace (session ps m) := by
  induction ps generalizing m with
  | nil => exact ⟨rfl, rfl⟩
  | cons p ps ih =>
    have hp := samePlace_discipline.execute p.setting p.statements
      { m with output := "", input := p.input }
    have hps := ih (finalState (execute p.setting p.statements)
      { m with output := "", input := p.input })
    exact ⟨hps.current.trans hp.current, hps.calls.trans hp.calls⟩

/-- Every expression, statement and body of a run ends at the place where it began, with a value or
by any kind of exit, from any machine at all. So after each session the outermost scope is current
and no call is open, whichever of its programs failed. -/
theorem run_restores_place (s : Setting) (n turns : Nat) :
    let c : Context := { s with perform := perform s n, turns }
    (∀ e m, SamePlace m (finalState (Eval.expr c e) m)) ∧
    (∀ st m, SamePlace m (finalState (Exec.stmt c st) m)) ∧
    (∀ t m, SamePlace m (finalState (perform s n t) m)) ∧
    ∀ ps input, (session ps (Machine.initial input)).atGlobal ∧
      (session ps (Machine.initial input)).calls = [] := by
  have d := samePlace_discipline
  have hn := d.perform s n
  refine ⟨d.expr hn, d.stmt hn, hn, fun ps input => ?_⟩
  have h := session_samePlace ps (Machine.initial input)
  refine ⟨?_, h.calls⟩
  rw [Machine.atGlobal, h.current]
  rfl

end Bhasha
