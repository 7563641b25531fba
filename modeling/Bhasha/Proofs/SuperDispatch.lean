import Bhasha.Execution
import Bhasha.Proofs.StateRelations

namespace Bhasha

namespace ClassValue

/-- The class and its ancestors, nearest first. -/
def ancestry : ClassValue → List ClassValue
  | mk x parent methods => mk x parent methods :: match parent with
    | some p => p.ancestry
    | none => []

/-- The method `x` of the first of these classes that has one. -/
def nearest? (x : String) (cs : List ClassValue) : Option Closure :=
  cs.findSome? fun c => c.methods.find? x

/-- The method `x` of the nearest proper ancestor that has one. -/
def superMethod? (x : String) (c : ClassValue) : Option Closure :=
  c.parent.bind (·.method? x)

variable {x : String} {c k : ClassValue} {below : List ClassValue}

theorem ancestry_tail (c : ClassValue) : c.ancestry.tail = (c.parent.map ancestry).getD [] := by
  obtain ⟨_, _ | p, _⟩ := c <;> rw [ancestry] <;> rfl

theorem ancestry_eq_cons (c : ClassValue) : c.ancestry = c :: c.ancestry.tail := by
  obtain ⟨_, _ | p, _⟩ := c <;> rw [ancestry] <;> rfl

theorem nearest?_cons (x : String) (c : ClassValue) (cs : List ClassValue) :
    nearest? x (c :: cs) = (c.methods.find? x).or (nearest? x cs) := by
  unfold nearest?
  rw [List.findSome?_cons]
  cases c.methods.find? x <;> rfl

theorem nearest?_append (x : String) (cs ds : List ClassValue) :
    nearest? x (cs ++ ds) = (nearest? x cs).or (nearest? x ds) :=
  List.findSome?_append

theorem method?_eq (x : String) (c : ClassValue) :
    c.method? x = (c.methods.find? x).or (c.superMethod? x) := by
  obtain ⟨_, parent, methods⟩ := c
  change _ = (methods.find? x).or (parent.bind (·.method? x))
  cases hown : methods.find? x with
  | some f => simp [method?, hown]
  | none => cases parent <;> simp [method?, hown]

theorem method?_eq_nearest? (x : String) : ∀ c : ClassValue, c.method? x = nearest? x c.ancestry
  | mk n none methods => by
    rw [method?_eq, ancestry_eq_cons, nearest?_cons]
    rfl
  | mk n (some p) methods => by
    have hp := method?_eq_nearest? x p
    rw [method?_eq, ancestry_eq_cons, nearest?_cons, ancestry_tail]
    change _ = Option.or _ (nearest? x p.ancestry)
    rw [← hp]
    rfl

theorem superMethod?_eq_nearest? (x : String) (c : ClassValue) :
    c.superMethod? x = nearest? x c.ancestry.tail := by
  rw [superMethod?, ancestry_tail]
  cases c.parent with
  | none => rfl
  | some p => exact method?_eq_nearest? x p

/-- From a class below `k` the search passes `k` and all classes between before it comes to the
ancestors of `k`. -/
theorem superMethod?_of_ancestry (h : c.ancestry = below ++ k.ancestry) :
    c.superMethod? x = (nearest? x (below ++ [k]).tail).or (k.superMethod? x) := by
  rw [superMethod?_eq_nearest?, superMethod?_eq_nearest?, ← nearest?_append, h, ancestry_eq_cons k]
  cases below with
  | nil => rfl
  | cons d below => simp

end ClassValue

section

variable {m : Machine} {i : Nat} {o : Object} {x : String}

theorem superMethod_eq (hthis : m.scopes.get? m.current "yeh" = some (.object i))
    (ho : m.heap.object? i = some o) (x : String) (l : Nat) :
    Run.superMethod x l m = ((if o.classValue.parent.isSome then
        (o.classValue.superMethod? x).elim (Run.unmade .member) fun f => pure (f, .object i)
      else Run.runtimeError s!"Class '{o.classValue.name}' has no parent" l) :
        Run (Closure × Value)) m := by
  have hfind : Run.find? "yeh" m = .ok (some (.object i)) m := by
    change EStateM.Result.ok (m.scopes.get? m.current "yeh") m = _
    rw [hthis]
  have hobject : Run.object? (.object i) m = .ok (some o) m := by
    change EStateM.Result.ok (m.heap.object? i) m = _
    rw [ho]
  rw [Run.superMethod, bind_of_ok hfind]
  dsimp only
  rw [bind_of_ok hobject]
  dsimp only
  rw [ClassValue.superMethod?]
  cases hparent : o.classValue.parent with
  | none => rfl
  | some p =>
    dsimp only [Option.bind_some]
    cases hx : p.method? x <;> rfl

/-- `upar.x` runs the method `x` of the nearest proper ancestor of the class of `yeh` that has one.
In a method of a class `k` the proper ancestors of `k` come last in this search: if `yeh` is of
another class, then the classes between and `k` itself come before them. So a method that the class
of `yeh` has inherited comes back to itself. -/
theorem superCall_invokes (hthis : m.scopes.get? m.current "yeh" = some (.object i))
    (ho : m.heap.object? i = some o) (c : Context) (x : String) (es : List Expr) (l : Nat) :
    (∀ f, o.classValue.superMethod? x = some f → Eval.expr c (.superCall x es l) m = (do
      let args ← Eval.exprs c es
      Run.callMethod c s!"Method '{x}'" f (.object i) args l) m) ∧
    (o.classValue.superMethod? x = none → Eval.expr c (.superCall x es l) m =
      (if o.classValue.parent.isSome then Run.unmade .member
        else Run.runtimeError s!"Class '{o.classValue.name}' has no parent" l) m) ∧
    (∀ below k, o.classValue.ancestry = below ++ k.ancestry → o.classValue.superMethod? x =
      (ClassValue.nearest? x (below ++ [k]).tail).or (k.superMethod? x)) ∧
    (o.classValue.methods.find? x = none →
      o.classValue.superMethod? x = o.classValue.method? x) := by
  refine ⟨fun f hf => ?_, fun hf => ?_, fun below k h => ClassValue.superMethod?_of_ancestry h,
    fun hown => ?_⟩
  · have hparent : o.classValue.parent.isSome = true := by
      rw [ClassValue.superMethod?] at hf
      cases hp : o.classValue.parent with
      | none => simp [hp] at hf
      | some p => rfl
    have hmethod := superMethod_eq hthis ho x l
    rw [hf, if_pos hparent] at hmethod
    rw [Eval.expr, bind_of_ok hmethod]
  · have hmethod := superMethod_eq hthis ho x l
    rw [hf] at hmethod
    rw [Eval.expr]
    by_cases hparent : o.classValue.parent.isSome = true
    · rw [if_pos hparent] at hmethod ⊢
      exact bind_of_error hmethod
    · rw [if_neg hparent] at hmethod ⊢
      exact bind_of_error hmethod
  · rw [ClassValue.method?_eq, hown]
    rfl

theorem superCall_invokes_inherited :
    let method (text : String) : Closure :=
      { name := "m", parameters := [], scope := 0
        body := [.print [.literal .string (.str text) 1] 1] }
    let a : ClassValue := .mk "A" none [("m", method "A")]
    let b : ClassValue := .mk "B" (some a) [("m", method "B")]
    let c : ClassValue := .mk "C" (some b) []
    let m : Machine :=
      { scopes := ⟨#[{ bindings := [("yeh", .object 0)] }]⟩
        heap := { objects := #[{ classValue := c }] } }
    let context : Context := { perform := fun _ => throw .exhausted, turns := 0 }
    let x := "m"
    Eval.expr context (.superCall x [] 2) m = (do
      let args ← Eval.exprs context []
      Run.callMethod context s!"Method '{x}'" (method "B") (.object 0) args 2) m ∧
    c.method? x = some (method "B") ∧ b.superMethod? x = some (method "A") := by
  intro method a b c m context x
  have h := superCall_invokes (m := m) (i := 0) (o := { classValue := c }) rfl rfl context x [] 2
  have hfound : c.superMethod? x = some (method "B") := h.2.2.1 [c] b rfl
  exact ⟨h.1 (method "B") hfound, (h.2.2.2 rfl).symm.trans hfound, rfl⟩

end

end Bhasha
