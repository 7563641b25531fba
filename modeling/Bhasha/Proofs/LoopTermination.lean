import Bhasha.Proofs.Finalizers
import Bhasha.Proofs.MachineRelations
import Bhasha.Proofs.TreeNodes

namespace Bhasha

namespace Heap

/-- There may be more lists in `h'`, but those of `h` are as they were. -/
def KeepsLists (h h' : Heap) : Prop :=
  h.lists.toList <+: h'.lists.toList

instance : Std.Refl KeepsLists := ⟨fun h => List.prefix_refl h.lists.toList⟩

instance : IsTrans Heap KeepsLists := ⟨fun _ _ _ => List.IsPrefix.trans⟩

theorem keepsLists_of_eq {h h' : Heap} (heq : h'.lists = h.lists) : h.KeepsLists h' := by
  unfold KeepsLists
  exact heq ▸ List.prefix_refl _

theorem KeepsLists.list {h h' : Heap} (hk : h.KeepsLists h') {i : Nat} (hi : i < h.lists.size) :
    h'.list i = h.list i := by
  obtain ⟨more, hmore⟩ := hk
  have hget : h'.lists.toList[i]? = h.lists.toList[i]? := by
    rw [← hmore, List.getElem?_append_left (by simpa using hi)]
  rw [Array.getElem?_toList, Array.getElem?_toList] at hget
  unfold Heap.list
  rw [Array.getD_eq_getD_getElem?, Array.getD_eq_getD_getElem?, hget]

end Heap

namespace Work

open Heap (KeepsLists keepsLists_of_eq)

theorem keepsLists_newList (vs : Array Value) : Keeps KeepsLists (newList vs) :=
  .modifyGet fun h => by simp [KeepsLists]

theorem keepsLists_newDict (d : Dict) : Keeps KeepsLists (newDict d) :=
  .modifyGet fun _ => keepsLists_of_eq rfl

theorem keepsLists_setProperty (i : Nat) (x : String) (v : Value) :
    Keeps KeepsLists (setProperty i x v) :=
  .modified fun _ => keepsLists_of_eq rfl

theorem keepsLists_ofExcept {α : Type} (r : Except Fault α) : Keeps KeepsLists (ofExcept r) := by
  cases r with
  | ok a => exact .pure a
  | error f => exact .throw f

theorem keepsLists_number (n : Num) : Keeps KeepsLists (number n) := by
  cases n with
  | int n => exact .pure _
  | float x => exact .ite (.modifyGet fun _ => keepsLists_of_eq rfl) (.pure _)

theorem keepsLists_scalar (v : Scalar) : Keeps KeepsLists (scalar v) := by
  cases v with
  | float x => exact keepsLists_number (.float x)
  | none | bool b | int n | str s => exact .pure _

theorem keepsLists_text (v : Value) : Keeps KeepsLists (text v) :=
  .bind .get fun _ => keepsLists_ofExcept _

theorem keepsLists_arithmetic (op : BinaryOp) (f : Num → Num → Except Fault Num) (a b : Value) :
    Keeps KeepsLists (arithmetic op f a b) := by
  unfold arithmetic
  split
  · exact .bind (keepsLists_ofExcept _) fun _ => keepsLists_number _
  · exact .throw _

theorem keepsLists_add (a b : Value) : Keeps KeepsLists (add a b) := by
  unfold add
  split
  · exact .bind (keepsLists_text _) fun _ => .pure _
  · exact .bind (keepsLists_text _) fun _ => .pure _
  · exact .bind .get fun _ => keepsLists_newList _
  · exact keepsLists_arithmetic _ _ _ _

theorem keepsLists_repetitions (n : Int) : Keeps KeepsLists (repetitions n) :=
  .ite (.throw _) (.pure _)

theorem keepsLists_repeatText (s : String) (n : Int) : Keeps KeepsLists (repeatText s n) := by
  refine .bind (keepsLists_repetitions n) fun count => .ite (.pure _) ?_
  exact .ite (.bind (.throw _) fun _ => .ite (.bind (.throw _) fun _ => .pure _) (.pure _))
    (.ite (.bind (.throw _) fun _ => .pure _) (.pure _))

theorem keepsLists_repeatList (vs : Array Value) (n : Int) :
    Keeps KeepsLists (repeatList vs n) := by
  refine .bind (keepsLists_repetitions n) fun count => .ite (keepsLists_newList _) ?_
  exact .ite (.throw _) (keepsLists_newList _)

theorem keepsLists_multiply (a b : Value) : Keeps KeepsLists (multiply a b) := by
  unfold multiply
  split
  · exact keepsLists_repeatText _ _
  · exact keepsLists_repeatText _ _
  · exact .bind .get fun _ => keepsLists_repeatList _ _
  · exact .bind .get fun _ => keepsLists_repeatList _ _
  · exact keepsLists_arithmetic _ _ _ _

theorem keepsLists_modulo (a b : Value) : Keeps KeepsLists (modulo a b) := by
  refine .ite (.throw _) ?_
  split
  · exact .bind .get fun _ => .bind (keepsLists_ofExcept _) fun _ => .pure _
  · exact keepsLists_arithmetic _ _ _ _

theorem keepsLists_binary (op : BinaryOp) (a b : Value) : Keeps KeepsLists (binary op a b) := by
  have hcompare (h : Heap → Except Fault Bool) (f : Bool → Bool) :
      Keeps KeepsLists (do return Value.bool (f (← ofExcept (h (← get)))) : Work Value) :=
    .bind .get fun _ => .bind (keepsLists_ofExcept _) fun _ => .pure _
  cases op with
  | add => exact keepsLists_add a b
  | multiply => exact keepsLists_multiply a b
  | divide => exact .ite (.throw _) (keepsLists_arithmetic _ _ _ _)
  | modulo => exact keepsLists_modulo a b
  | subtract => exact keepsLists_arithmetic _ _ _ _
  | notEqual => exact hcompare _ not
  | equal | less | greater | lessEqual | greaterEqual | or | and | unknown => exact hcompare _ id

end Work

/-- The lists of `m` are in `m'` as they were. -/
def Machine.KeepsLists (m m' : Machine) : Prop :=
  m.heap.KeepsLists m'.heap

instance : Std.Refl Machine.KeepsLists := ⟨fun m => Std.Refl.refl m.heap⟩

instance : IsTrans Machine Machine.KeepsLists := ⟨fun _ _ _ => trans_of Heap.KeepsLists⟩

theorem Machine.keepsLists_of_eq {m m' : Machine} (h : m'.heap = m.heap) : m.KeepsLists m' :=
  Heap.keepsLists_of_eq (congrArg Heap.lists h)

section

variable {α β : Type}

/-- The budget was too small. -/
def Exhausted (r : EStateM.Result Exit Machine α) : Prop :=
  ∃ m, r = .error .exhausted m

theorem not_exhausted_ok (a : α) (m : Machine) :
    ¬Exhausted (.ok a m : EStateM.Result Exit Machine α) := by
  rintro ⟨m', h⟩
  cases h

theorem exhausted_error_iff {e : Exit} {m : Machine} :
    Exhausted (.error e m : EStateM.Result Exit Machine α) ↔ e = .exhausted := by
  constructor
  · rintro ⟨m', h⟩
    cases h
    rfl
  · rintro rfl
    exact ⟨m, rfl⟩

theorem not_exhausted_error {e : Exit} (he : e ≠ .exhausted) (m : Machine) :
    ¬Exhausted (.error e m : EStateM.Result Exit Machine α) :=
  fun h => he (exhausted_error_iff.1 h)

/-- Whatever the machine, `p` keeps its lists and does not run out of budget. -/
structure Prompt (p : Run α) : Prop where
  keeps : Keeps Machine.KeepsLists p
  ends : ∀ m, ¬Exhausted (p m)

namespace Prompt

theorem pure (a : α) : Prompt (Pure.pure a : Run α) :=
  ⟨.pure a, not_exhausted_ok a⟩

theorem throw {e : Exit} (he : e ≠ .exhausted) : Prompt (MonadExcept.throw e : Run α) :=
  ⟨.throw e, not_exhausted_error he⟩

theorem get : Prompt (MonadState.get : Run Machine) :=
  ⟨.get, fun m => not_exhausted_ok m m⟩

theorem modified {f : Machine → Machine} (h : ∀ m, (f m).heap = m.heap) :
    Prompt (modify f : Run PUnit) :=
  ⟨.modified fun m => Machine.keepsLists_of_eq (h m), fun m => not_exhausted_ok PUnit.unit (f m)⟩

theorem bind {p : Run α} {f : α → Run β} (hp : Prompt p) (hf : ∀ a, Prompt (f a)) :
    Prompt (p >>= f) := by
  refine ⟨hp.keeps.bind fun a => (hf a).keeps, ?_⟩
  rintro m ⟨m', h⟩
  rcases bind_eq_error h with h | ⟨a, m₁, -, h⟩
  · exact hp.ends m ⟨m', h⟩
  · exact (hf a).ends m₁ ⟨m', h⟩

theorem map {p : Run α} (hp : Prompt p) (f : α → β) : Prompt (f <$> p) := by
  refine ⟨hp.keeps.map f, ?_⟩
  rintro m ⟨m', h⟩
  exact hp.ends m ⟨m', map_eq_error h⟩

theorem ite {c : Prop} [Decidable c] {p q : Run α} (hp : Prompt p) (hq : Prompt q) :
    Prompt (if c then p else q) := by
  split
  · exact hp
  · exact hq

theorem error (d : Diagnostic) : Prompt (Run.error d : Run α) :=
  .throw (by simp)

theorem fault (f : Fault) : Prompt (Run.fault f : Run α) :=
  .throw (by simp)

/-- What is done to the heap only is prompt if it keeps the lists. -/
theorem of_work {p : Run α} {w : Work β} (hw : Keeps Heap.KeepsLists w)
    (hheap : ∀ m, (finalState p m).heap = finalState w m.heap) (hends : ∀ m, ¬Exhausted (p m)) :
    Prompt p := by
  refine ⟨fun m => ?_, hends⟩
  rw [Machine.KeepsLists, hheap]
  exact hw m.heap

theorem work {w : Work α} (hw : Keeps Heap.KeepsLists w) : Prompt (Run.work w) := by
  refine of_work hw (fun m => ?_) fun m => ?_
  · unfold finalState Run.work
    dsimp only
    cases w m.heap <;> rfl
  · unfold Run.work
    dsimp only
    cases w m.heap with
    | ok a h => exact not_exhausted_ok a _
    | error f h => exact not_exhausted_error (by simp) _

theorem binary (lang : Lang) (op : BinaryOp) (a b : Value) (line : Nat) :
    Prompt (Run.binary lang op a b line) := by
  have hkeeps := Work.keepsLists_binary op a b
  cases op
  case unknown symbol => exact .error _
  all_goals
    refine of_work hkeeps (fun m => ?_) fun m => ?_
    · unfold finalState Run.binary
      dsimp only
      cases Work.binary _ a b m.heap <;> rfl
    · unfold Run.binary
      dsimp only
      cases Work.binary _ a b m.heap with
      | ok v h => exact not_exhausted_ok v _
      | error f h => exact not_exhausted_error (by simp) _

theorem isTrue (v : Value) : Prompt (Run.isTrue v) :=
  .bind .get fun _ => .pure _

theorem unary (op : UnaryOp) (v : Value) (line : Nat) : Prompt (Run.unary op v line) := by
  cases op with
  | negate =>
    unfold Run.unary
    dsimp only
    split
    · exact .work (Work.keepsLists_number _)
    · exact .error _
  | not => exact .bind (.isTrue v) fun _ => .pure _
  | unknown symbol => exact .error _

theorem lift (r : Except Fault α) : Prompt (Run.lift r) := by
  cases r with
  | ok a => exact .pure a
  | error f => exact .fault f

theorem text (v : Value) : Prompt (Run.text v) :=
  .bind .get fun _ => .lift _

theorem object? (v : Value) : Prompt (Run.object? v) := by
  unfold Run.object?
  split
  · exact .bind .get fun _ => .pure _
  · exact .pure _

theorem unresolved (unbound : Option Fault) (d : Diagnostic) :
    Prompt (Run.unresolved unbound (Run.error d) : Run α) := by
  cases unbound with
  | some f => exact .fault f
  | none => exact .error d

theorem lookup (unbound : Option Fault) (x : String) : Prompt (Run.lookup unbound x) := by
  refine .bind .get fun m => ?_
  split
  · exact .pure _
  · exact .unresolved unbound _

theorem thisObject (line : Nat) : Prompt (Run.thisObject line) := by
  refine .bind (.bind .get fun _ => .pure _) fun v => ?_
  split
  · exact .pure _
  · exact .error _
  · exact .error _

theorem objectFor (what : String) (v : Value) (line : Nat) :
    Prompt (Run.objectFor what v line) := by
  refine .bind (.object? v) fun o? => ?_
  split
  · exact .pure _
  · exact .error _

theorem noEntry (place : Value) : Prompt (Run.noEntry place : Run α) :=
  .bind (.text place) fun _ => .fault _

theorem entryOf (d : Dict) (key : Value) : Prompt (Run.entryOf d key) := by
  refine .ite (.bind (.fault _) fun _ => ?_) ?_ <;> split
  · exact .pure _
  · exact .noEntry _
  · exact .pure _
  · exact .noEntry _

theorem itemOf (items : Array Value) (place : Value) (line : Nat) :
    Prompt (Run.itemOf items place line) := by
  unfold Run.itemOf
  split
  · split
    · exact .pure _
    · exact .noEntry _
  · exact .error _

theorem indexInto (v place : Value) (line : Nat) : Prompt (Run.indexInto v place line) := by
  unfold Run.indexInto
  split
  · exact .bind .get fun _ => .entryOf _ _
  · exact .bind .get fun _ => .itemOf _ _ _
  · exact .itemOf _ _ _
  · exact .error _

theorem checkKey (key : Value) (line : Nat) : Prompt (Run.checkKey key line) :=
  .ite (.pure _) (.error _)

theorem define (x : String) (v : Value) : Prompt (Run.define x v) :=
  .modified fun _ => rfl

theorem assign (x : String) (v : Value) : Prompt (Run.assign x v) :=
  .modified fun _ => rfl

theorem reassign (unbound : Option Fault) (x : String) (v : Value) :
    Prompt (Run.reassign unbound x v) := by
  refine .bind .get fun m => ?_
  split
  · exact .modified fun _ => rfl
  · exact .unresolved unbound _

theorem write (s : String) : Prompt (Run.write s) :=
  .modified fun _ => rfl

theorem print (vs : List Value) : Prompt (Run.print vs) :=
  .bind .get fun _ => .bind (.lift _) fun _ => .write _

theorem readLine (atEnd : Fault) : Prompt (Run.readLine atEnd) := by
  refine ⟨fun m => ?_, fun m => ?_⟩ <;> by_cases h : m.input.isEmpty
  · rw [finalState_error ((Run.readLine_run atEnd m).trans (if_pos h))]
    exact Std.Refl.refl m
  · rw [finalState_ok ((Run.readLine_run atEnd m).trans (if_neg h))]
    exact Machine.keepsLists_of_eq rfl
  · rw [(Run.readLine_run atEnd m).trans (if_pos h)]
    exact not_exhausted_error (by simp) m
  · rw [(Run.readLine_run atEnd m).trans (if_neg h)]
    exact not_exhausted_ok _ _

theorem newScope (parent : Nat) (bindings : List (String × Value)) :
    Prompt (Run.newScope parent bindings) := by
  refine .bind .get fun m => .ite (.error _) ?_
  exact ⟨.modifyGet fun _ => Machine.keepsLists_of_eq rfl, fun m => not_exhausted_ok _ _⟩

theorem defineClass (unbound : Option Fault) (x : String) (parent : Option String)
    (methods : List FunctionDef) (line : Nat) :
    Prompt (Run.defineClass unbound x parent methods line) := by
  have hbound (p : Option ClassValue) : Prompt (do
      Run.define x (.classValue (.mk x p (Run.methodsOf methods (← MonadState.get).current)))) :=
    .bind .get fun _ => .define _ _
  have hclass (p : String) : Prompt (Run.classNamed unbound p line) := by
    refine .bind (.lookup unbound p) fun v => ?_
    split
    · exact .pure _
    · exact .error _
  unfold Run.defineClass
  dsimp only
  split
  · exact .bind ((hclass _).map _) hbound
  · exact .bind (.pure _) hbound

end Prompt

/-- Two computations with the same outcome, unless the first runs out of budget, have it still when
more follows. -/
theorem bind_of_stable {p p' : Run α} {f f' : α → Run β} {m : Machine}
    (hp : ¬Exhausted (p m) → p' m = p m)
    (hf : ∀ a m₁, p m = .ok a m₁ → ¬Exhausted (f a m₁) → f' a m₁ = f a m₁)
    (h : ¬Exhausted ((p >>= f) m)) : (p' >>= f') m = (p >>= f) m := by
  cases hr : p m with
  | ok a m₁ =>
    have hp' := (hp (hr ▸ not_exhausted_ok a m₁)).trans hr
    rw [bind_of_ok hr] at h ⊢
    rw [bind_of_ok hp']
    exact hf a m₁ hr h
  | error e m₁ =>
    rw [bind_of_error hr, exhausted_error_iff] at h
    have hp' := (hp (hr ▸ not_exhausted_error h m₁)).trans hr
    rw [bind_of_error hr, bind_of_error hp']

/-- With a budget that is large enough `f` comes to an end, always to the same one. It keeps the
lists, and if the budget is too small, then because a list is at least as long. -/
structure Halts (f : Nat → Run α) : Prop where
  keeps : ∀ n, Keeps Machine.KeepsLists (f n)
  ends : ∀ m, ∃ n, ¬Exhausted (f n m)
  stable : ∀ {n k m}, n ≤ k → ¬Exhausted (f n m) → f k m = f n m
  spent : ∀ {n m m'}, f n m = .error .exhausted m' → ∃ i, n ≤ (m'.heap.list i).size

theorem Prompt.halts {p : Run α} (hp : Prompt p) : Halts fun _ => p where
  keeps _ := hp.keeps
  ends m := ⟨0, hp.ends m⟩
  stable _ _ := rfl
  spent {_ m m'} h := absurd ⟨m', h⟩ (hp.ends m)

namespace Halts

variable {f : Nat → Run α} {body : Nat → Run Unit}

theorem bind {g : Nat → α → Run β} (hf : Halts f) (hg : ∀ a, Halts fun n => g n a) :
    Halts fun n => f n >>= g n where
  keeps n := (hf.keeps n).bind fun a => (hg a).keeps n
  ends m := by
    obtain ⟨n, hn⟩ := hf.ends m
    cases hr : f n m with
    | ok a m₁ =>
      obtain ⟨k, hk⟩ := (hg a).ends m₁
      refine ⟨max n k, ?_⟩
      rw [bind_of_ok ((hf.stable (Nat.le_max_left n k) hn).trans hr),
        (hg a).stable (Nat.le_max_right n k) hk]
      exact hk
    | error e m₁ =>
      rw [hr, exhausted_error_iff] at hn
      exact ⟨n, by rwa [bind_of_error hr, exhausted_error_iff]⟩
  stable hle h := bind_of_stable (hf.stable hle) (fun a _ _ => (hg a).stable hle) h
  spent h := by
    rcases bind_eq_error h with h | ⟨a, m₁, -, h⟩
    · exact hf.spent h
    · exact (hg a).spent h

theorem ite {c : Prop} [Decidable c] {g : Nat → Run α} (hf : Halts f) (hg : Halts g) :
    Halts fun n => if c then f n else g n := by
  by_cases hc : c
  · simpa only [if_pos hc] using hf
  · simpa only [if_neg hc] using hg

/-- The machine that a result leaves. -/
def left : EStateM.Result Exit Machine α → Machine
  | .ok _ m => m
  | .error _ m => m

theorem finalState_eq_left (p : Run α) (m : Machine) : finalState p m = left (p m) := by
  unfold finalState left
  cases p m <;> rfl

/-- Going elsewhere before, and back or on behind it, makes no difference, as long as the heap stays
as it is and no budget is made up for. -/
theorem through {g : Nat → Run β} (hf : Halts f) (go : Machine → Machine)
    (back : Machine → EStateM.Result Exit Machine α → EStateM.Result Exit Machine β)
    (hg : ∀ n m, g n m = back m (f n (go m))) (hgo : ∀ m, (go m).heap = m.heap)
    (hback : ∀ m r, (left (back m r)).heap = (left r).heap)
    (hspent : ∀ m r, Exhausted (back m r) ↔ Exhausted r) : Halts g where
  keeps n m := by
    have hkept := hf.keeps n (go m)
    rw [Machine.KeepsLists, finalState_eq_left, hgo] at hkept
    rw [Machine.KeepsLists, finalState_eq_left, hg, hback]
    exact hkept
  ends m := by
    obtain ⟨n, hn⟩ := hf.ends (go m)
    exact ⟨n, by rwa [hg, hspent]⟩
  stable {n k m} hle h := by
    rw [hg, hspent] at h
    rw [hg, hg, hf.stable hle h]
  spent {n m m'} h := by
    have hend := hback m (f n (go m))
    rw [← hg, h] at hend
    obtain ⟨m₁, hm₁⟩ := (hspent m (f n (go m))).1 ⟨m', (hg n m).symm.trans h⟩
    rw [hm₁] at hend
    obtain ⟨i, hi⟩ := hf.spent hm₁
    exact ⟨i, by rw [show m'.heap = m₁.heap from hend]; exact hi⟩

theorem turn (h : Halts body) : Halts fun n => Run.turn (body n) := by
  refine h.through id (fun m r => Run.turn (fun _ => r) m) (fun _ _ => rfl) (fun _ => rfl) ?_ ?_
  · intro m r
    cases r with
    | ok a m' => rfl
    | error e m' => cases e <;> rfl
  · intro m r
    cases r with
    | ok a m' => simp [Run.turn, not_exhausted_ok]
    | error e m' => cases e <;> simp [Run.turn, not_exhausted_ok, exhausted_error_iff]

theorem result (h : Halts body) : Halts fun n => Run.result (body n) := by
  refine h.through id (fun m r => Run.result (fun _ => r) m) (fun _ _ => rfl) (fun _ => rfl) ?_ ?_
  · intro m r
    cases r with
    | ok a m' => rfl
    | error e m' => cases e <;> rfl
  · intro m r
    cases r with
    | ok a m' => simp [Run.result, not_exhausted_ok]
    | error e m' => cases e <;> simp [Run.result, not_exhausted_ok, exhausted_error_iff]

theorem attempt (h : Halts body) : Halts fun n => Run.attempt (body n) := by
  refine h.through id (fun m r => Run.attempt (fun _ => r) m) (fun _ _ => rfl) (fun _ => rfl) ?_ ?_
  · intro m r
    cases r with
    | ok a m' => rfl
    | error e m' =>
      cases e with
      | error d => cases hd : d.kind.isRuntime <;> simp [Run.attempt, hd, left]
      | _ => rfl
  · intro m r
    cases r with
    | ok a m' => simp [Run.attempt, not_exhausted_ok]
    | error e m' =>
      cases e with
      | error d =>
        cases hd : d.kind.isRuntime <;>
          simp [Run.attempt, hd, not_exhausted_ok, exhausted_error_iff]
      | _ => simp [Run.attempt, exhausted_error_iff]

theorem within (h : Halts f) (i : Nat) : Halts fun n => Run.within i (f n) := by
  refine h.through (fun m => { m with current := i }) (fun m r => Run.within i (fun _ => r) m)
    (fun _ _ => rfl) (fun _ => rfl) ?_ ?_
  · intro m r
    cases r <;> rfl
  · intro m r
    cases r <;> simp [Run.within, not_exhausted_ok, exhausted_error_iff]

theorem map (h : Halts f) (g : α → β) : Halts fun n => g <$> f n := by
  have hbind := h.bind fun a => (Prompt.pure (g a)).halts
  simpa only [bind_pure_comp] using hbind

/-- The number of turns that a `jab_tak` loop may still take only falls. -/
theorem whileLoop {condition : Nat → Run Value} (hcondition : Halts condition) (hbody : Halts body)
    (limit : Int) (line remaining : Nat) :
    Halts fun n => Run.whileLoop limit line (condition n) (body n) remaining := by
  induction remaining with
  | zero =>
    simp only [Run.whileLoop]
    refine hcondition.bind fun v => (Prompt.isTrue v).halts.bind fun go => ?_
    exact ((Prompt.error _).ite (.pure _)).halts
  | succ remaining ih =>
    simp only [Run.whileLoop]
    refine hcondition.bind fun v => (Prompt.isTrue v).halts.bind fun go => ?_
    exact .ite (hbody.turn.bind fun again => .ite ih (Prompt.pure _).halts) (Prompt.pure _).halts

theorem forText (hbody : Halts body) (x : String) (cs : List Char) :
    Halts fun n => Run.forText x (body n) cs := by
  induction cs with
  | nil => exact (Prompt.pure _).halts
  | cons c cs ih =>
    simp only [Run.forText]
    refine (Prompt.define x _).halts.bind fun _ => hbody.turn.bind fun again => ?_
    exact .ite ih (Prompt.pure _).halts

end Halts

end

namespace Run

variable {body : Run Unit} {x : String} {place i : Nat} {m : Machine}

/-- One turn of a loop over items: does the loop go on? -/
def round (x : String) (w : Value) (body : Run Unit) : Run Bool := do
  define x w
  turn body

theorem forList_of_none (h : (m.heap.list place)[i]? = none) (n : Nat) :
    forList x body place (n + 1) i m = .ok () m := by
  rw [forList, bind_get, h]
  rfl

theorem forList_of_some {w : Value} (h : (m.heap.list place)[i]? = some w) (n : Nat) :
    forList x body place (n + 1) i m = (do
      if ← round x w body then forList x body place n (i + 1)) m := by
  rw [forList, bind_get, h]
  unfold round
  rw [bind_assoc]

end Run

namespace Heap

theorem lt_size_of_getElem? {h : Heap} {place i : Nat} {w : Value}
    (hw : (h.list place)[i]? = some w) : place < h.lists.size ∧ i < (h.list place).size := by
  have hi := (Array.getElem?_eq_some_iff.1 hw).1
  refine ⟨Nat.lt_of_not_le fun hle => ?_, hi⟩
  rw [Heap.list, Array.getD_eq_getD_getElem?, Array.getElem?_eq_none hle] at hi
  exact absurd hi (by simp)

end Heap

namespace Halts

variable {body : Nat → Run Unit}

theorem round (hbody : Halts body) (x : String) (w : Value) :
    Halts fun n => Run.round x w (body n) :=
  (Prompt.define x w).halts.bind fun _ => hbody.turn

/-- A turn on an item of a list leaves that list as it is. -/
theorem list_round (hbody : Halts body) {x : String} {w : Value} {n place i : Nat} {m m' : Machine}
    {go : Bool} (hw : (m.heap.list place)[i]? = some w)
    (h : Run.round x w (body n) m = .ok go m') : m'.heap.list place = m.heap.list place := by
  have hkept := (hbody.round x w).keeps n m
  rw [finalState_ok h] at hkept
  exact Heap.KeepsLists.list hkept (Heap.lt_size_of_getElem? hw).1

section

variable (hbody : Halts body) (x : String) (place : Nat)
include hbody

theorem keeps_forList (n t i : Nat) :
    Keeps Machine.KeepsLists (Run.forList x (body n) place t i) := by
  induction t generalizing i with
  | zero => exact .throw _
  | succ t ih =>
    refine .bind .get fun m => ?_
    split
    · exact .pure _
    · exact .bind (Prompt.define x _).keeps fun _ => .bind (hbody.turn.keeps n) fun _ =>
        .ite (ih (i + 1)) (.pure _)

/-- What is left of the list gets shorter with every turn. -/
theorem ends_forList (i : Nat) (m : Machine) :
    ∃ k, ∀ n t, k ≤ n → k ≤ t → ¬Exhausted (Run.forList x (body n) place t i m) := by
  obtain ⟨left, hleft⟩ : ∃ left, left = (m.heap.list place).size - i := ⟨_, rfl⟩
  induction left generalizing i m with
  | zero =>
    have hnone : (m.heap.list place)[i]? = none := Array.getElem?_eq_none (by omega)
    refine ⟨1, fun n t _ ht => ?_⟩
    obtain ⟨t, rfl⟩ := Nat.exists_eq_add_of_le' ht
    rw [Run.forList_of_none hnone]
    exact not_exhausted_ok () m
  | succ left ih =>
    obtain ⟨w, hw⟩ : ∃ w, (m.heap.list place)[i]? = some w :=
      ⟨_, Array.getElem?_eq_getElem (by omega)⟩
    obtain ⟨k, hk⟩ := (hbody.round x w).ends m
    have hround {n : Nat} (hn : k ≤ n) := (hbody.round x w).stable hn hk
    cases hr : Run.round x w (body k) m with
    | error e m₁ =>
      refine ⟨k + 1, fun n t hn ht => ?_⟩
      obtain ⟨t, rfl⟩ := Nat.exists_eq_add_of_le' (Nat.le_of_add_left_le ht)
      rw [Run.forList_of_some hw, bind_of_error ((hround (by omega)).trans hr)]
      rw [hr, exhausted_error_iff] at hk
      exact not_exhausted_error hk m₁
    | ok go m₁ =>
      cases go with
      | false =>
        refine ⟨k + 1, fun n t hn ht => ?_⟩
        obtain ⟨t, rfl⟩ := Nat.exists_eq_add_of_le' (Nat.le_of_add_left_le ht)
        rw [Run.forList_of_some hw, bind_of_ok ((hround (by omega)).trans hr)]
        exact not_exhausted_ok () m₁
      | true =>
        have hsame := hbody.list_round hw hr
        obtain ⟨k', hk'⟩ := ih (i + 1) m₁ (by rw [hsame]; omega)
        refine ⟨max k k' + 1, fun n t hn ht => ?_⟩
        obtain ⟨t, rfl⟩ := Nat.exists_eq_add_of_le' (Nat.le_of_add_left_le ht)
        rw [Run.forList_of_some hw, bind_of_ok ((hround (by omega)).trans hr)]
        exact hk' n t (by omega) (by omega)

theorem stable_forList {n k t t' i : Nat} {m : Machine} (hn : n ≤ k) (ht : t ≤ t')
    (h : ¬Exhausted (Run.forList x (body n) place t i m)) :
    Run.forList x (body k) place t' i m = Run.forList x (body n) place t i m := by
  induction t generalizing i m t' with
  | zero => exact absurd ⟨m, rfl⟩ h
  | succ t ih =>
    obtain ⟨t', rfl⟩ := Nat.exists_eq_add_of_le' (Nat.le_of_add_left_le ht)
    cases hw : (m.heap.list place)[i]? with
    | none => rw [Run.forList_of_none hw, Run.forList_of_none hw]
    | some w =>
      rw [Run.forList_of_some hw] at h
      rw [Run.forList_of_some hw, Run.forList_of_some hw]
      refine bind_of_stable ((hbody.round x w).stable hn) (fun go m₁ _ hgo => ?_) h
      cases go with
      | false => rfl
      | true => exact ih (by omega) hgo

/-- The budget for turns is spent only where a list has an item for each of them. -/
theorem spent_forList {n t i : Nat} {m m' : Machine} (hi : i ≤ (m.heap.list place).size)
    (hn : n ≤ t + i) (h : Run.forList x (body n) place t i m = .error .exhausted m') :
    ∃ j, n ≤ (m'.heap.list j).size := by
  induction t generalizing i m with
  | zero =>
    cases h
    exact ⟨place, by omega⟩
  | succ t ih =>
    cases hw : (m.heap.list place)[i]? with
    | none =>
      rw [Run.forList_of_none hw] at h
      cases h
    | some w =>
      rw [Run.forList_of_some hw] at h
      rcases bind_eq_error h with h | ⟨go, m₁, hr, h⟩
      · exact (hbody.round x w).spent h
      · cases go with
        | false => cases h
        | true =>
          have hlt := (Heap.lt_size_of_getElem? hw).2
          have hsame := hbody.list_round hw hr
          exact ih (by rw [hsame]; omega) (by omega) h

theorem forList : Halts fun n => Run.forList x (body n) place n 0 where
  keeps n := hbody.keeps_forList x place n n 0
  ends m := by
    obtain ⟨k, hk⟩ := hbody.ends_forList x place 0 m
    exact ⟨k, hk k k (Nat.le_refl k) (Nat.le_refl k)⟩
  stable hle h := hbody.stable_forList x place hle hle h
  spent h := hbody.spent_forList x place (Nat.zero_le _) (Nat.le_refl _) h

omit x place in
theorem forLoop (x : String) (v : Value) (line : Nat) :
    Halts fun n => Run.forLoop n x v (body n) line := by
  cases v with
  | list place =>
    refine Prompt.get.halts.bind fun m => (Prompt.newScope m.current []).halts.bind fun scope => ?_
    exact (hbody.forList x place).within scope
  | str s =>
    refine Prompt.get.halts.bind fun m => (Prompt.newScope m.current []).halts.bind fun scope => ?_
    exact (hbody.forText x s.toList).within scope
  | _ => exact (Prompt.error _).halts

end

end Halts

/-- No call, be it of a function, a method, a constructor or a method of the parent. -/
def Expr.isTame : Expr → Bool
  | .call _ _ _ | .method _ _ _ _ | .newObject _ _ _ | .superCall _ _ _ => false
  | _ => true

/-- No import, and no assignment to an index. -/
def Stmt.isTame : Stmt → Bool
  | .importFile _ _ | .setIndex _ _ _ _ => false
  | _ => true

/-- There is no call, import or assignment to an index anywhere in the statements. -/
def Stmt.callFree (ss : List Stmt) : Bool :=
  Stmt.everyAll Expr.isTame Stmt.isTame ss

/-- The bodies that can be entered, and the turns that a loop over a list can take, in a budget. -/
def Setting.within (s : Setting) (n : Nat) : Context :=
  { s with perform := perform s n, turns := n }

theorem Setting.toSetting_within (s : Setting) (n : Nat) : (s.within n).toSetting = s :=
  rfl

theorem Setting.turns_within (s : Setting) (n : Nat) : (s.within n).turns = n :=
  rfl

namespace Halts

variable (s : Setting)

mutual

theorem expr : ∀ e : Expr, e.every Expr.isTame = true → Halts fun n => Eval.expr (s.within n) e
  | .literal _ v _, _ => by
    simp only [Eval.expr]
    exact (Prompt.work (Work.keepsLists_scalar v)).halts
  | .list es _, h => by
    simp only [Eval.expr]
    exact (exprs es h).bind fun vs => (Prompt.work (Work.keepsLists_newList _)).halts
  | .dict ps l, h => by
    simp only [Eval.expr]
    exact (entries l ps h #[]).bind fun d => (Prompt.work (Work.keepsLists_newDict d)).halts
  | .var x _, _ => by
    simp only [Eval.expr, Setting.toSetting_within]
    exact (Prompt.lookup s.unbound x).halts
  | .binary op a b l, h => by
    have h : (a.every Expr.isTame && b.every Expr.isTame) = true := h
    obtain ⟨ha, hb⟩ := Bool.and_eq_true_iff.1 h
    have htruth : Halts fun n => do
        return Value.bool (← Run.isTrue (← Eval.expr (s.within n) b)) :=
      (expr b hb).bind fun v => (Prompt.isTrue v).halts.bind fun _ => (Prompt.pure _).halts
    simp only [Eval.expr, Setting.toSetting_within]
    refine (expr a ha).bind fun left => ?_
    split
    · exact (Prompt.isTrue left).halts.bind fun _ => .ite (Prompt.pure _).halts htruth
    · exact (Prompt.isTrue left).halts.bind fun _ => .ite (Prompt.pure _).halts htruth
    · exact (expr b hb).bind fun right => (Prompt.binary s.lang op left right l).halts
  | .unary op a l, h => by
    simp only [Eval.expr]
    exact (expr a h).bind fun v => (Prompt.unary op v l).halts
  | .paren a _, h => by
    simp only [Eval.expr]
    exact expr a h
  | .call _ _ _, h | .newObject _ _ _, h | .method _ _ _ _, h | .superCall _ _ _, h => by
    cases h
  | .lambda _ _ _, _ => by
    simp only [Eval.expr]
    exact (Prompt.bind .get fun _ => .pure _).halts
  | .property a x l, h => by
    simp only [Eval.expr]
    refine (expr a h).bind fun v => (Prompt.bind (.objectFor _ v l) fun o => ?_).halts
    split
    · exact .pure _
    · exact .fault _
  | .thisObject l, _ => by
    simp only [Eval.expr]
    exact (Prompt.thisObject l).halts
  | .index a i l, h => by
    have h : (a.every Expr.isTame && i.every Expr.isTame) = true := h
    obtain ⟨ha, hi⟩ := Bool.and_eq_true_iff.1 h
    simp only [Eval.expr]
    exact (expr a ha).bind fun v => (expr i hi).bind fun place =>
      (Prompt.indexInto v place l).halts
  | .foreign _ _ l, _ => by
    simp only [Eval.expr]
    exact (Prompt.error _).halts
termination_by structural e => e

theorem exprs : ∀ es : List Expr, Expr.everyAll Expr.isTame es = true →
    Halts fun n => Eval.exprs (s.within n) es
  | [], _ => by
    simp only [Eval.exprs]
    exact (Prompt.pure _).halts
  | e :: es, h => by
    obtain ⟨he, hes⟩ := Bool.and_eq_true_iff.1 h
    simp only [Eval.exprs]
    exact (expr e he).bind fun _ => (exprs es hes).bind fun _ => (Prompt.pure _).halts
termination_by structural es => es

theorem entries (line : Nat) : ∀ ps : List (Expr × Expr),
    Expr.everyPair Expr.isTame ps = true →
      ∀ d, Halts fun n => Eval.entries (s.within n) line d ps
  | [], _, _ => by
    simp only [Eval.entries]
    exact (Prompt.pure _).halts
  | (k, v) :: ps, h, d => by
    obtain ⟨hkv, hps⟩ := Bool.and_eq_true_iff.1 h
    obtain ⟨hk, hv⟩ := Bool.and_eq_true_iff.1 hkv
    simp only [Eval.entries]
    refine (expr k hk).bind fun key => (expr v hv).bind fun value => ?_
    exact (Prompt.checkKey key line).halts.bind fun _ => entries line ps hps _
termination_by structural ps => ps

end

/-- A runtime error is handled in a scope of its own. -/
theorem handle {handler : Nat → Run Unit} (h : Halts handler) (lang : Lang)
    (caught : Option Diagnostic) (x? : Option String) (isEmpty : Bool) :
    Halts fun n => Run.handle lang caught x? isEmpty (handler n) := by
  cases caught with
  | none => exact (Prompt.pure _).halts
  | some d =>
    refine .ite (Prompt.pure _).halts (Prompt.get.halts.bind fun m => ?_)
    refine (Prompt.newScope m.current _).halts.bind fun scope => ?_
    exact (h.within scope).bind fun _ => (Prompt.pure _).halts

theorem guarded {body : List Stmt} {handler : Option (List Stmt)}
    (hbody : Halts fun n => Exec.stmts (s.within n) body)
    (hhandler : ∀ b ∈ handler, Halts fun n => Exec.stmts (s.within n) b) (x? : Option String) :
    Halts fun n => Bhasha.guarded (s.within n) body x? handler := by
  refine hbody.attempt.bind fun caught => ?_
  cases handler with
  | none => exact (Prompt.pure _).halts
  | some b => exact (hhandler b rfl).handle s.lang caught x? b.isEmpty

theorem reraise (pending : Option Diagnostic) : Prompt (Run.reraise pending) := by
  cases pending with
  | none => exact .pure _
  | some d => exact .error d

mutual

theorem stmt : ∀ st : Stmt, st.every Expr.isTame Stmt.isTame = true →
    Halts fun n => Exec.stmt (s.within n) st
  | .expr e, h => by
    simp only [Exec.stmt]
    exact (expr s e h).bind fun _ => (Prompt.pure _).halts
  | .assign x e _, h => by
    simp only [Exec.stmt]
    exact (expr s e h).bind fun v => (Prompt.assign x v).halts
  | .setProperty a x e l, h => by
    have h : (a.every Expr.isTame && e.every Expr.isTame) = true := h
    obtain ⟨ha, he⟩ := Bool.and_eq_true_iff.1 h
    simp only [Exec.stmt]
    refine (expr s a ha).bind fun v => ?_
    split
    · exact (expr s e he).bind fun w => (Prompt.work (Work.keepsLists_setProperty _ x w)).halts
    · exact (Prompt.bind (.objectFor _ v l) fun _ => .pure _).halts
  | .setIndex _ _ _ _, h | .importFile _ _, h => by
    cases h
  | .print es _, h => by
    simp only [Exec.stmt]
    exact (exprs s es h).bind fun vs => (Prompt.print vs).halts
  | .input x (some e) _, h => by
    simp only [Exec.stmt, Setting.toSetting_within]
    refine (expr s e h).bind fun v => (Prompt.bind (.text v) fun shown => ?_).halts
    refine .bind (.write shown) fun _ => .bind (.readLine s.endOfInput) fun line => ?_
    exact .reassign s.unbound x (.str line)
  | .input x none _, _ => by
    simp only [Exec.stmt, Setting.toSetting_within]
    exact (Prompt.bind (.readLine s.endOfInput) fun line => .reassign s.unbound x _).halts
  | .ifElse e body bs (some b) _, h => by
    have h : (e.every Expr.isTame && Stmt.everyAll Expr.isTame Stmt.isTame body &&
      Branch.everyAll Expr.isTame Stmt.isTame bs &&
      Stmt.everyOption Expr.isTame Stmt.isTame (some b)) = true := h
    simp only [Bool.and_eq_true] at h
    obtain ⟨⟨⟨he, hbody⟩, hbs⟩, hb⟩ := h
    simp only [Exec.stmt]
    refine (expr s e he).bind fun v => (Prompt.isTrue v).halts.bind fun _ => ?_
    refine .ite (stmts body hbody) ((branches bs hbs).bind fun _ => ?_)
    exact .ite (Prompt.pure _).halts (stmts b hb)
  | .ifElse e body bs none _, h => by
    have h : (e.every Expr.isTame && Stmt.everyAll Expr.isTame Stmt.isTame body &&
      Branch.everyAll Expr.isTame Stmt.isTame bs &&
      Stmt.everyOption Expr.isTame Stmt.isTame none) = true := h
    simp only [Bool.and_eq_true] at h
    obtain ⟨⟨⟨he, hbody⟩, hbs⟩, -⟩ := h
    simp only [Exec.stmt]
    refine (expr s e he).bind fun v => (Prompt.isTrue v).halts.bind fun _ => ?_
    refine .ite (stmts body hbody) ((branches bs hbs).bind fun _ => ?_)
    exact .ite (Prompt.pure _).halts (Prompt.pure _).halts
  | .whileLoop e body l, h => by
    have h : (e.every Expr.isTame &&
      Stmt.everyAll Expr.isTame Stmt.isTame body) = true := h
    obtain ⟨he, hbody⟩ := Bool.and_eq_true_iff.1 h
    simp only [Exec.stmt, Setting.toSetting_within]
    exact (expr s e he).whileLoop (stmts body hbody) s.maxIterations l s.maxIterations.toNat
  | .forLoop x e body l, h => by
    have h : (e.every Expr.isTame &&
      Stmt.everyAll Expr.isTame Stmt.isTame body) = true := h
    obtain ⟨he, hbody⟩ := Bool.and_eq_true_iff.1 h
    simp only [Exec.stmt, Setting.turns_within]
    exact (expr s e he).bind fun v => (stmts body hbody).forLoop x v l
  | .breakLoop _, _ | .continueLoop _, _ => by
    simp only [Exec.stmt]
    exact (Prompt.throw (by simp)).halts
  | .function f, _ => by
    simp only [Exec.stmt]
    exact (Prompt.bind .get fun _ => .define _ _).halts
  | .giveBack (some e) _, h => by
    simp only [Exec.stmt]
    exact (expr s e h).bind fun _ => (Prompt.throw (by simp)).halts
  | .giveBack none _, _ => by
    simp only [Exec.stmt]
    exact (Prompt.throw (by simp)).halts
  | .classDef x parent methods l, _ => by
    simp only [Exec.stmt, Setting.toSetting_within]
    exact (Prompt.defineClass s.unbound x parent methods l).halts
  | .attempt body x? handler finalizer l, h => by
    have h : (Stmt.everyAll Expr.isTame Stmt.isTame body &&
      Stmt.everyOption Expr.isTame Stmt.isTame handler &&
      Stmt.everyOption Expr.isTame Stmt.isTame finalizer) = true := h
    simp only [Bool.and_eq_true] at h
    obtain ⟨⟨hbody, hhandler⟩, hfinalizer⟩ := h
    have hguarded := guarded s (stmts body hbody) (option handler hhandler) x?
    have hfinal := option finalizer hfinalizer
    cases finalizer with
    | none =>
      simp only [stmt_attempt_none]
      exact hguarded.bind fun pending => (reraise pending).halts
    | some b =>
      simp only [stmt_attempt]
      exact hguarded.bind fun pending => (hfinal b rfl).bind fun _ => (reraise pending).halts
  | .raiseError e _, h => by
    simp only [Exec.stmt]
    exact (expr s e h).bind fun v => (Prompt.bind (.text v) fun _ => .fault _).halts
  | .foreign _ _ l, _ => by
    simp only [Exec.stmt]
    exact (Prompt.error _).halts
termination_by structural st => st

theorem stmts : ∀ ss : List Stmt, Stmt.everyAll Expr.isTame Stmt.isTame ss = true →
    Halts fun n => Exec.stmts (s.within n) ss
  | [], _ => by
    simp only [Exec.stmts]
    exact (Prompt.pure _).halts
  | st :: ss, h => by
    obtain ⟨hst, hss⟩ := Bool.and_eq_true_iff.1 h
    simp only [Exec.stmts]
    exact (stmt st hst).bind fun _ => stmts ss hss
termination_by structural ss => ss

theorem option : ∀ ss? : Option (List Stmt),
    Stmt.everyOption Expr.isTame Stmt.isTame ss? = true →
      ∀ ss ∈ ss?, Halts fun n => Exec.stmts (s.within n) ss
  | none, _, _, hss => by
    cases hss
  | some ss, h, _, hss => by
    cases hss
    exact stmts ss h
termination_by structural ss? => ss?

theorem branches : ∀ bs : List Branch,
    Branch.everyAll Expr.isTame Stmt.isTame bs = true →
      Halts fun n => Exec.branches (s.within n) bs
  | [], _ => by
    simp only [Exec.branches]
    exact (Prompt.pure _).halts
  | .mk e body :: bs, h => by
    obtain ⟨hhead, hbs⟩ := Bool.and_eq_true_iff.1 h
    obtain ⟨he, hbody⟩ := Bool.and_eq_true_iff.1 hhead
    simp only [Exec.branches]
    refine (expr s e he).bind fun v => (Prompt.isTrue v).halts.bind fun _ => ?_
    exact .ite ((stmts body hbody).bind fun _ => (Prompt.pure _).halts) (branches bs hbs)
termination_by structural bs => bs

end

end Halts

/-- As `execute`, with a budget of its own. -/
def executeWithin (s : Setting) (budget : Nat) (ss : List Stmt) : Run Unit :=
  discard (Run.result (discard (perform s budget (.statements ss))))

theorem halts_executeWithin {ss : List Stmt} (h : Stmt.callFree ss = true) (s : Setting) :
    Halts fun n => executeWithin s (n + 1) ss := by
  have hbody := (Halts.stmts s ss h).bind fun _ => (Prompt.pure Value.none).halts
  exact ((hbody.map fun _ => ()).result).map fun _ => ()

/-- A program without calls, imports and assignments to an index comes to an end, normally or with
an error, on every machine and whatever the setting: from some budget on all runs have the same
outcome, and it is not that the budget was too small. A run with the budget of `execute` has that
outcome too, unless there is a list in it with as many items as the budget has turns. -/
theorem call_free_program_halts {ss : List Stmt} (h : Stmt.callFree ss = true) (s : Setting)
    (m : Machine) :
    ∃ n r, ¬Exhausted r ∧ (∀ k, n ≤ k → executeWithin s k ss m = r) ∧
      (execute s ss m = r ∨ ∃ m' i, execute s ss m = .error .exhausted m' ∧
        budget - 1 ≤ (m'.heap.list i).size) := by
  have hhalts := halts_executeWithin h s
  have hexecute : execute s ss = executeWithin s (budget - 1 + 1) ss := rfl
  obtain ⟨n, hn⟩ := hhalts.ends m
  refine ⟨n + 1, executeWithin s (n + 1) ss m, hn, fun k hk => ?_, ?_⟩
  · obtain ⟨k, rfl⟩ := Nat.exists_eq_add_of_le' (Nat.le_of_add_left_le hk)
    exact hhalts.stable (Nat.le_of_succ_le_succ hk) hn
  · rw [hexecute]
    by_cases hspent : Exhausted (executeWithin s (budget - 1 + 1) ss m)
    · obtain ⟨m', hm'⟩ := hspent
      obtain ⟨i, hi⟩ := hhalts.spent hm'
      exact .inr ⟨m', i, hm', hi⟩
    · left
      rcases Nat.le_total n (budget - 1) with hle | hle
      · exact hhalts.stable hle hn
      · exact (hhalts.stable hle hspent).symm

/-- `jab_tak` without end around a loop that skips one item and leaves at another, with an attempt
in it and a limit on its turns. -/
theorem call_free_program_halts_nested :
    let ss : List Stmt :=
      [.assign "xs" (.list [.literal .number (.int 1) 1, .literal .number (.int 2) 1] 1) 1,
       .whileLoop (.literal .boolean (.bool true) 2)
        [.forLoop "x" (.var "xs" 3)
          [.attempt [.ifElse (.binary .equal (.var "x" 4) (.literal .number (.int 1) 4) 4)
              [.continueLoop 4] [] none 4,
            .assign "xs" (.binary .add (.var "xs" 5) (.var "xs" 5) 5) 5, .breakLoop 5]
            (some "e") (some [.breakLoop 6]) none 4] 3] 2]
    Stmt.callFree ss = true ∧ ∃ n r, ¬Exhausted r ∧
      ∀ k, n ≤ k → executeWithin { maxIterations := 100 } k ss (Machine.initial ['7']) = r := by
  intro ss
  have hfree : Stmt.callFree ss = true := by decide
  obtain ⟨n, r, hr, hrun, -⟩ :=
    call_free_program_halts hfree { maxIterations := 100 } (Machine.initial ['7'])
  exact ⟨hfree, n, r, hr, hrun⟩

end Bhasha
