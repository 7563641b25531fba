import Bhasha.Execution
import Bhasha.Proofs.StateRelations

namespace Bhasha

namespace Run

/-- Runs the handler of an error in a scope of its own, where the name holds the error's text. -/
def handling (lang : Lang) (x? : Option String) (d : Diagnostic) (handler : Run Unit) :
    Run Unit := do
  let scope ← newScope (← get).current
    ((nonempty x?).toList.map fun x => (x, Value.str (d.text lang)))
  within scope handler

/-- Tells an error that is still pending. -/
def reraise : Option Diagnostic → Run Unit
  | some d => error d
  | none => return ()

end Run

/-- The `koshish` and `pakdo` parts of an attempt; what they give is the error still pending. -/
def guarded (c : Context) (body : List Stmt) (x? : Option String) (handler : Option (List Stmt)) :
    Run (Option Diagnostic) := do
  let caught ← Run.attempt (Exec.stmts c body)
  match handler with
  | some b => Run.handle c.lang caught x? b.isEmpty (Exec.stmts c b)
  | none => pure caught

section

variable (c : Context) (body : List Stmt) (x? : Option String) (handler : Option (List Stmt))
  (m : Machine)

/-- The ways of the `koshish` and `pakdo` parts to end that lead on: nothing failed, a runtime error
found no handler, or it was handled. -/
inductive Settled : Option Diagnostic → Machine → Prop
  | ended {m₁} : Exec.stmts c body m = .ok () m₁ → Settled none m₁
  | held {d m₁} : Exec.stmts c body m = .error (.error d) m₁ → d.kind.isRuntime = true →
      (∀ b ∈ handler, b = []) → Settled (some d) m₁
  | handled {d m₁ b m₂} : Exec.stmts c body m = .error (.error d) m₁ → d.kind.isRuntime = true →
      b ∈ handler → b ≠ [] → Run.handling c.lang x? d (Exec.stmts c b) m₁ = .ok () m₂ →
      Settled none m₂

/-- The ways that lead out: an exit of the `koshish` part that is no runtime error, and any exit of
the `pakdo` part. -/
inductive Escapes : Exit → Machine → Prop
  | body {e m₁} : Exec.stmts c body m = .error e m₁ →
      (∀ d, e = .error d → d.kind.isRuntime = false) → Escapes e m₁
  | handler {d m₁ b e m₂} : Exec.stmts c body m = .error (.error d) m₁ →
      d.kind.isRuntime = true → b ∈ handler → b ≠ [] →
      Run.handling c.lang x? d (Exec.stmts c b) m₁ = .error e m₂ → Escapes e m₂

end

section

variable {c : Context} {body : List Stmt} {x? : Option String} {handler : Option (List Stmt)}
  {m m₁ : Machine} {d : Diagnostic} {b : List Stmt}

theorem stmt_attempt (c : Context) (body : List Stmt) (x? : Option String)
    (handler : Option (List Stmt)) (finalizer : List Stmt) (l : Nat) :
    Exec.stmt c (.attempt body x? handler (some finalizer) l) = (do
      let pending ← guarded c body x? handler
      Exec.stmts c finalizer
      Run.reraise pending) := by
  cases handler <;> rw [Exec.stmt, guarded, bind_assoc]
  all_goals
    refine bind_congr fun caught => bind_congr fun pending => bind_congr fun _ => ?_
    cases pending <;> rfl

theorem stmt_attempt_none (c : Context) (body : List Stmt) (x? : Option String)
    (handler : Option (List Stmt)) (l : Nat) :
    Exec.stmt c (.attempt body x? handler none l) = (do
      let pending ← guarded c body x? handler
      Run.reraise pending) := by
  cases handler <;> rw [Exec.stmt, guarded, bind_assoc]
  all_goals
    refine bind_congr fun caught => bind_congr fun pending => ?_
    cases pending <;> rfl

theorem attempt_held (h : Exec.stmts c body m = .error (.error d) m₁)
    (hd : d.kind.isRuntime = true) :
    Run.attempt (Exec.stmts c body) m = .ok (some d) m₁ := by
  unfold Run.attempt
  rw [h]
  exact if_pos hd

theorem guarded_handled (h : Exec.stmts c body m = .error (.error d) m₁)
    (hd : d.kind.isRuntime = true) (hb : b ∈ handler) (hne : b ≠ []) :
    guarded c body x? handler m =
      (Run.handling c.lang x? d (Exec.stmts c b) >>= fun _ => pure none) m₁ := by
  cases hb
  rw [guarded, bind_of_ok (attempt_held h hd)]
  have hempty : b.isEmpty = false := by simpa using hne
  dsimp only
  rw [Run.handle, hempty, Run.handling, if_neg (by decide)]
  simp only [bind_assoc]

theorem Settled.guarded_eq {pending : Option Diagnostic}
    (h : Settled c body x? handler m pending m₁) :
    guarded c body x? handler m = .ok pending m₁ := by
  cases h with
  | ended h =>
    have hattempt : Run.attempt (Exec.stmts c body) m = .ok none m₁ := by
      unfold Run.attempt
      rw [h]
    rw [guarded, bind_of_ok hattempt]
    cases handler <;> rfl
  | @held d _ h hd hhandler =>
    rw [guarded, bind_of_ok (attempt_held h hd)]
    cases handler with
    | none => rfl
    | some b =>
      rw [hhandler b rfl]
      rfl
  | handled h hd hb hne hrun =>
    rw [guarded_handled h hd hb hne, bind_of_ok hrun]
    rfl

theorem Escapes.guarded_eq {e : Exit} (h : Escapes c body x? handler m e m₁) :
    guarded c body x? handler m = .error e m₁ := by
  cases h with
  | body h he =>
    have hattempt : Run.attempt (Exec.stmts c body) m = .error e m₁ := by
      unfold Run.attempt
      rw [h]
      cases e with
      | error d => exact if_neg (by simp [he d rfl])
      | giveBack v | breakLoop | continueLoop | fault f | exhausted => rfl
    rw [guarded]
    exact bind_of_error hattempt
  | handler h hd hb hne hrun =>
    rw [guarded_handled h hd hb hne]
    exact bind_of_error hrun

theorem settled_or_escapes (c : Context) (body : List Stmt) (x? : Option String)
    (handler : Option (List Stmt)) (m : Machine) :
    (∃ pending m₁, Settled c body x? handler m pending m₁) ∨
      ∃ e m₁, Escapes c body x? handler m e m₁ := by
  cases h : Exec.stmts c body m with
  | ok u m₁ => exact .inl ⟨none, m₁, .ended h⟩
  | error e m₁ =>
    by_cases hruntime : ∃ d, e = .error d ∧ d.kind.isRuntime = true
    · obtain ⟨d, rfl, hd⟩ := hruntime
      by_cases hhandler : ∃ b ∈ handler, b ≠ []
      · obtain ⟨b, hb, hne⟩ := hhandler
        cases hrun : Run.handling c.lang x? d (Exec.stmts c b) m₁ with
        | ok u m₂ => exact .inl ⟨none, m₂, .handled h hd hb hne hrun⟩
        | error e m₂ => exact .inr ⟨e, m₂, .handler h hd hb hne hrun⟩
      · refine .inl ⟨some d, m₁, .held h hd fun b hb => ?_⟩
        exact Classical.byContradiction fun hne => hhandler ⟨b, hb, hne⟩
    · refine .inr ⟨e, m₁, .body h fun d he => ?_⟩
      cases hd : d.kind.isRuntime with
      | true => exact absurd ⟨d, he, hd⟩ hruntime
      | false => rfl

/-- The `akhir` part of an attempt runs, once and as its last part, exactly if the other two parts
settle: if nothing fails, or a runtime error of the `koshish` part meets no handler or one that
ends. A value given back, the end or next turn of a loop around, and whatever ends the `pakdo` part
pass it by, and are the end of the attempt as they are without it. -/
theorem finalizer_runs (c : Context) (body : List Stmt) (x? : Option String)
    (handler : Option (List Stmt)) (finalizer : List Stmt) (l : Nat) (m : Machine) :
    (∀ pending m₁, Settled c body x? handler m pending m₁ →
      Exec.stmt c (.attempt body x? handler (some finalizer) l) m = (do
        Exec.stmts c finalizer
        Run.reraise pending) m₁) ∧
    (∀ e m₁, Escapes c body x? handler m e m₁ →
      Exec.stmt c (.attempt body x? handler (some finalizer) l) m = .error e m₁) ∧
    ((∃ pending m₁, Settled c body x? handler m pending m₁) ↔
      ¬ ∃ e m₁, Escapes c body x? handler m e m₁) := by
  rw [stmt_attempt]
  refine ⟨fun pending m₁ h => bind_of_ok h.guarded_eq, fun e m₁ h => bind_of_error h.guarded_eq, ?_⟩
  constructor
  · rintro ⟨pending, m₁, hsettled⟩ ⟨e, m₂, hescapes⟩
    have hboth := hsettled.guarded_eq.symm.trans hescapes.guarded_eq
    cases hboth
  · exact (settled_or_escapes c body x? handler m).resolve_right

/-- `koshish { wapas 1 } akhir { likho("akhir") }` prints nothing. -/
theorem finalizer_runs_passed_by :
    let context : Context := { perform := fun _ => throw .exhausted, turns := 0 }
    let body : List Stmt := [.giveBack (some (.literal .number (.int 1) 1)) 1]
    let finalizer : List Stmt := [.print [.literal .string (.str "akhir") 1] 1]
    Exec.stmt context (.attempt body none none (some finalizer) 1) {} =
      .error (.giveBack (.int 1)) {} := by
  intro context body finalizer
  have hbody : Exec.stmts context body {} = .error (.giveBack (.int 1)) {} := rfl
  have hescapes : Escapes context body none none {} (.giveBack (.int 1)) {} :=
    .body hbody (by simp)
  exact (finalizer_runs context body none none finalizer 1 {}).2.1 _ _ hescapes

end

end Bhasha
