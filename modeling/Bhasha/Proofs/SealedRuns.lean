import Bhasha.Proofs.JumpPlaces
import Bhasha.Proofs.PairedExecution

namespace Bhasha

def Closure.Contained (f : Closure) : Prop :=
  Stmt.containedAll .strict .outside f.body = true

def Task.Contained : Task → Prop
  | .statements ss => Stmt.containedAll .strict .outside ss = true
  | .expression _ => True

/-- The functions that a call of the value or of one of its methods enters let no jump out. -/
def Value.Contained : Value → Prop
  | .function f => f.Contained
  | .classValue c => ∀ k ∈ c.ancestry, ∀ e ∈ k.methods, e.2.Contained
  | _ => True

structure Machine.Contained (m : Machine) : Prop where
  bound : ∀ i, ∀ e ∈ m.scopes.bindings i, e.2.Contained
  heap : m.heap.All Value.Contained

/-- A jump leaves only where one may. -/
def Exit.Contained (jumps : Bool) : Exit → Prop
  | .giveBack v => v.Contained
  | .breakLoop => jumps = true
  | .continueLoop => jumps = true
  | _ => True

def Object.Contained (o : Object) : Prop :=
  (Value.classValue o.classValue).Contained ∧ ∀ e ∈ o.properties, e.2.Contained

theorem Value.contained_of_isPlain (v : Value) (h : v.isPlain = true) : v.Contained := by
  cases v with
  | function f => cases h
  | lambda f => cases h
  | classValue c => cases h
  | _ => trivial

theorem ClassValue.contained_method {c : ClassValue} (h : (Value.classValue c).Contained)
    {x : String} {f : Closure} (hf : c.method? x = some f) : f.Contained := by
  rw [ClassValue.method?_eq_nearest?] at hf
  obtain ⟨k, hk, hfind⟩ := List.exists_of_findSome?_eq_some hf
  exact h k hk _ (Bindings.mem_of_find? hfind)

theorem ClassValue.contained_parent {c p : ClassValue} (h : (Value.classValue c).Contained)
    (hp : c.parent = some p) : (Value.classValue p).Contained := by
  intro k hk
  refine h k ?_
  rw [ClassValue.ancestry_eq_cons, ClassValue.ancestry_tail, hp]
  exact List.mem_cons_of_mem _ hk

theorem FunctionDef.contained_closure {f : FunctionDef} {p : Spot}
    (h : f.contained .strict p = true) (scope : Nat) : (f.closure scope).Contained := by
  obtain ⟨x, ps, body, l⟩ := f
  exact h

/-- The methods of a class let no jump out if those of its parent and its own ones do not. -/
theorem ClassValue.contained_mk {x : String} {parent : Option ClassValue} {fs : List FunctionDef}
    {p : Spot} (hparent : ∀ c, parent = some c → (Value.classValue c).Contained)
    (h : FunctionDef.containedAll .strict p fs = true) (scope : Nat) :
    (Value.classValue (.mk x parent (Run.methodsOf fs scope))).Contained := by
  intro k hk
  rw [ClassValue.ancestry_eq_cons, ClassValue.ancestry_tail] at hk
  rcases List.mem_cons.mp hk with rfl | hk
  · intro e he
    obtain ⟨f, hf, hclosure⟩ := Run.of_mem_methodsOf he
    rw [hclosure]
    exact FunctionDef.contained_closure (FunctionDef.containedAll_iff.1 h f hf) scope
  · cases parent with
    | some c => exact hparent c rfl k hk
    | none => cases hk

namespace Machine.Contained

variable {m : Machine}

theorem initial (input : List Char) : (Machine.initial input).Contained where
  bound i e he := by
    obtain ⟨b, hb⟩ : ∃ b, e.2 = .builtin b := by
      cases i with
      | zero =>
        obtain ⟨b, -, rfl⟩ := List.mem_map.mp he
        exact ⟨b, rfl⟩
      | succ i => cases he
    rw [hb]
    trivial
  heap := ⟨by simp [Machine.initial], by simp [Machine.initial], by simp [Machine.initial]⟩

/-- The current scope, the open calls, the input and the output do not matter. -/
theorem congr {m' : Machine} (h : m.Contained) (hscopes : m'.scopes = m.scopes)
    (hheap : m'.heap = m.heap) : m'.Contained :=
  ⟨hscopes ▸ h.bound, hheap ▸ h.heap⟩

theorem define (h : m.Contained) (i : Nat) (x : String) {v : Value} (hv : v.Contained) :
    { m with scopes := m.scopes.define i x v }.Contained := by
  refine ⟨fun j e he => ?_, h.heap⟩
  rcases Scopes.of_mem_bindings_define he with hev | he
  · rw [hev]
    exact hv
  · exact h.bound j e he

theorem enclose (h : m.Contained) (parent : Nat) {bindings : List (String × Value)}
    (hbindings : ∀ b ∈ bindings, b.2.Contained) :
    { m with scopes := m.scopes.enclose parent bindings }.Contained := by
  refine ⟨fun j e he => ?_, h.heap⟩
  rcases Scopes.of_mem_bindings_enclose he with ⟨b, hb, hev⟩ | he
  · rw [hev]
    exact hbindings b hb
  · exact h.bound j e he

theorem get? (h : m.Contained) {i : Nat} {x : String} {v : Value}
    (hv : m.scopes.get? i x = some v) : v.Contained := by
  obtain ⟨o, ho⟩ := Scopes.mem_of_get? hv
  exact h.bound o _ ho

end Machine.Contained

/-- From `m` the two runs are the same, and lead to a machine whose jumps stay inside and to a
result for which `V` holds, or to an exit that is no jump unless `jumps` says so. -/
inductive Seals {α : Type} (jumps : Bool) (m : Machine) (p q : Run α) (V : α → Prop) : Prop
  | ended (a : α) (m' : Machine) (hp : p m = .ok a m') (hq : q m = .ok a m')
      (hm : m'.Contained) (hv : V a)
  | exited (e : Exit) (m' : Machine) (hp : p m = .error e m') (hq : q m = .error e m')
      (hm : m'.Contained) (he : e.Contained jumps)

namespace Seals

variable {α β : Type} {jumps : Bool} {m : Machine} {p q : Run α} {V : α → Prop} {W : β → Prop}

theorem eq (h : Seals jumps m p q V) : p m = q m := by
  cases h with
  | ended a m' hp hq => exact hp.trans hq.symm
  | exited e m' hp hq => exact hp.trans hq.symm

theorem finalState (h : Seals jumps m p q V) : (Bhasha.finalState p m).Contained := by
  cases h with
  | ended a m' hp _ hm => exact finalState_ok hp ▸ hm
  | exited e m' hp _ hm => exact finalState_error hp ▸ hm

theorem pure {a : α} (hm : m.Contained) (hv : V a) :
    Seals jumps m (Pure.pure a) (Pure.pure a) V :=
  .ended a m rfl rfl hm hv

theorem throw {e : Exit} (hm : m.Contained) (he : e.Contained jumps) :
    Seals jumps m (MonadExcept.throw e) (MonadExcept.throw e) V :=
  .exited e m rfl rfl hm he

theorem error (d : Diagnostic) (hm : m.Contained) :
    Seals jumps m (Run.error d) (Run.error d) V :=
  throw hm trivial

theorem fault (f : Fault) (hm : m.Contained) : Seals jumps m (Run.fault f) (Run.fault f) V :=
  throw hm trivial

theorem get {k l : Machine → Run β} (h : Seals jumps m (k m) (l m) W) :
    Seals jumps m (MonadState.get >>= k) (MonadState.get >>= l) W := by
  cases h with
  | ended b m' hp hq hm hv => exact .ended b m' hp hq hm hv
  | exited e m' hp hq hm he => exact .exited e m' hp hq hm he

theorem bind {k l : α → Run β} (h : Seals jumps m p q V)
    (hk : ∀ a m', m'.Contained → V a → Seals jumps m' (k a) (l a) W) :
    Seals jumps m (p >>= k) (q >>= l) W := by
  cases h with
  | ended a m₁ hp hq hm hv =>
    cases hk a m₁ hm hv with
    | ended b m' hp' hq' hm' hv' =>
      exact .ended b m' ((bind_of_ok hp).trans hp') ((bind_of_ok hq).trans hq') hm' hv'
    | exited e m' hp' hq' hm' he =>
      exact .exited e m' ((bind_of_ok hp).trans hp') ((bind_of_ok hq).trans hq') hm' he
  | exited e m₁ hp hq hm he => exact .exited e m₁ (bind_of_error hp) (bind_of_error hq) hm he

theorem map {f : α → β} (h : Seals jumps m p q V) (hf : ∀ a, V a → W (f a)) :
    Seals jumps m (f <$> p) (f <$> q) W := by
  cases h with
  | ended a m' hp hq hm hv => exact .ended (f a) m' (map_of_ok hp) (map_of_ok hq) hm (hf a hv)
  | exited e m' hp hq hm he => exact .exited e m' (map_of_error hp) (map_of_error hq) hm he

theorem discard (h : Seals jumps m p q V) :
    Seals jumps m (Functor.discard p) (Functor.discard q) fun _ => True :=
  h.map fun _ _ => trivial

theorem mono {V' : α → Prop} (h : Seals jumps m p q V) (hV : ∀ a, V a → V' a) :
    Seals jumps m p q V' := by
  cases h with
  | ended a m' hp hq hm hv => exact .ended a m' hp hq hm (hV a hv)
  | exited e m' hp hq hm he => exact .exited e m' hp hq hm he

/-- What lets no jump out may stand anywhere. -/
theorem loosen (h : Seals false m p q V) : Seals jumps m p q V := by
  cases h with
  | ended a m' hp hq hm hv => exact .ended a m' hp hq hm hv
  | exited e m' hp hq hm he =>
    refine .exited e m' hp hq hm ?_
    cases e with
    | giveBack v => exact he
    | breakLoop => cases he
    | continueLoop => cases he
    | _ => trivial

theorem ite {c : Prop} [Decidable c] {p' q' : Run α} (h : Seals jumps m p q V)
    (h' : Seals jumps m p' q' V) : Seals jumps m (if c then p else p') (if c then q else q') V := by
  split
  · exact h
  · exact h'

/-- `wrap` looks at how its body ends, and holds back the exits that `held` turns into results. -/
theorem held {jumps' : Bool} {wrap : Run Unit → Run β} {body body' : Run Unit} {V : Unit → Prop}
    (done : β) (held : Exit → Except Exit β)
    (hdone : ∀ {body m m'}, body m = .ok () m' → wrap body m = .ok done m')
    (hheld : ∀ {body m e m'}, body m = .error e m' → wrap body m = Run.settle (held e) m')
    (h : Seals jumps' m body body' V) (hWdone : W done)
    (hWheld : ∀ e b, e.Contained jumps' → held e = .ok b → W b)
    (hexit : ∀ e e', e.Contained jumps' → held e = .error e' → e'.Contained jumps) :
    Seals jumps m (wrap body) (wrap body') W := by
  cases h with
  | ended a m' hp hq hm hv => exact .ended done m' (hdone hp) (hdone hq) hm hWdone
  | exited e m' hp hq hm he =>
    have hrun := hheld hp
    have hrun' := hheld hq
    cases hresult : held e with
    | ok b =>
      rw [hresult] at hrun hrun'
      exact .ended b m' hrun hrun' hm (hWheld e b he hresult)
    | error e' =>
      rw [hresult] at hrun hrun'
      exact .exited e' m' hrun hrun' hm (hexit e e' he hresult)

section

variable {body body' : Run Unit} {V : Unit → Prop}

theorem result (h : Seals jumps m body body' V) :
    Seals jumps m (Run.result body) (Run.result body') Value.Contained := by
  apply held .none Exit.inFunction Run.result_of_ok Run.result_of_error h trivial
  · rintro e v he hv
    cases e <;> cases hv
    exact he
  · rintro e e' he hexit
    cases e <;> cases hexit <;> exact he

/-- A turn of a loop keeps the jumps of its body. -/
theorem turn (h : Seals true m body body' V) :
    Seals jumps m (Run.turn body) (Run.turn body') fun _ => True := by
  apply held true Exit.inLoop Run.turn_of_ok Run.turn_of_error h trivial (fun _ _ _ _ => trivial)
  rintro e e' he hexit
  cases e <;> cases hexit <;> exact he

theorem attempt (h : Seals jumps m body body' V) :
    Seals jumps m (Run.attempt body) (Run.attempt body') fun _ => True := by
  apply held none Exit.inAttempt Run.attempt_of_ok Run.attempt_of_error h trivial
    (fun _ _ _ _ => trivial)
  rintro e e' he hexit
  cases e with
  | error d =>
    unfold Exit.inAttempt at hexit
    dsimp only at hexit
    split at hexit <;> cases hexit
    trivial
  | _ =>
    cases hexit
    exact he

end

theorem lift (r : Except Fault α) (hm : m.Contained) :
    Seals jumps m (Run.lift r) (Run.lift r) fun _ => True := by
  cases r with
  | ok a => exact pure hm trivial
  | error f => exact fault f hm

theorem text (v : Value) (hm : m.Contained) :
    Seals jumps m (Run.text v) (Run.text v) fun _ => True :=
  get (lift (m.heap.text v) hm)

theorem isTrue (v : Value) (hm : m.Contained) :
    Seals jumps m (Run.isTrue v) (Run.isTrue v) fun _ => True :=
  get (pure (a := m.heap.isTrue v) hm trivial)

theorem object? (v : Value) (hm : m.Contained) :
    Seals jumps m (Run.object? v) (Run.object? v) fun o? => ∀ o, o? = some o → o.Contained := by
  unfold Run.object?
  split
  · exact get (pure (a := m.heap.object? _) hm fun o ho => hm.heap.object ho)
  · refine pure hm fun o ho => ?_
    cases ho

theorem find? (x : String) (hm : m.Contained) :
    Seals jumps m (Run.find? x) (Run.find? x) fun v? => ∀ v, v? = some v → v.Contained :=
  get (pure (a := m.scopes.get? m.current x) hm fun _ hv => hm.get? hv)

theorem unresolved {u : Option Fault} {otherwise : Run α}
    (h : Seals jumps m otherwise otherwise V) (hm : m.Contained) :
    Seals jumps m (Run.unresolved u otherwise) (Run.unresolved u otherwise) V := by
  cases u with
  | some f => exact fault f hm
  | none => exact h

theorem lookup (u : Option Fault) (x : String) (hm : m.Contained) :
    Seals jumps m (Run.lookup u x) (Run.lookup u x) Value.Contained := by
  refine get ?_
  rw [Scopes.get]
  cases hget : m.scopes.get? m.current x with
  | some v => exact pure hm (hm.get? hget)
  | none => exact unresolved (error _ hm) hm

theorem classNamed (u : Option Fault) (x : String) (line : Nat) (hm : m.Contained) :
    Seals jumps m (Run.classNamed u x line) (Run.classNamed u x line) fun c =>
      (Value.classValue c).Contained := by
  refine (lookup u x hm).bind fun v m' hm' hv => ?_
  split
  · exact pure hm' hv
  · exact error _ hm'

theorem bindArguments (what : String) (parameters : List String) {args : List Value} (line : Nat)
    (hm : m.Contained) (hargs : ∀ v ∈ args, v.Contained) :
    Seals jumps m (Run.bindArguments what parameters args line)
      (Run.bindArguments what parameters args line) fun bindings =>
        ∀ b ∈ bindings, b.2.Contained := by
  unfold Run.bindArguments
  dsimp only
  split
  · exact error _ hm
  · exact pure hm fun b hb => hargs b.2 (List.of_mem_zip hb).2

theorem checkKey (key : Value) (line : Nat) (hm : m.Contained) :
    Seals jumps m (Run.checkKey key line) (Run.checkKey key line) fun _ => True :=
  ite (pure hm trivial) (error _ hm)

theorem noEntry (place : Value) (hm : m.Contained) :
    Seals jumps m (Run.noEntry place) (Run.noEntry place) V :=
  (text place hm).bind fun _ _ hm' _ => fault _ hm'

theorem objectFor (what : String) (v : Value) (line : Nat) (hm : m.Contained) :
    Seals jumps m (Run.objectFor what v line) (Run.objectFor what v line) Object.Contained := by
  refine (object? v hm).bind fun o? m' hm' ho => ?_
  cases o? with
  | some o => exact pure hm' (ho o rfl)
  | none => exact error _ hm'

theorem thisObject (line : Nat) (hm : m.Contained) :
    Seals jumps m (Run.thisObject line) (Run.thisObject line) Value.Contained := by
  refine (find? _ hm).bind fun v? m' hm' _ => ?_
  split
  · exact pure hm' trivial
  · exact error _ hm'
  · exact error _ hm'

theorem superMethod (x : String) (line : Nat) (hm : m.Contained) :
    Seals jumps m (Run.superMethod x line) (Run.superMethod x line) fun r =>
      r.1.Contained ∧ r.2.Contained := by
  refine (find? _ hm).bind fun this? m₁ hm₁ hthis => ?_
  split
  · rename_i this
    refine (object? this hm₁).bind fun o? m₂ hm₂ ho => ?_
    split
    · rename_i o
      dsimp only
      split
      · rename_i parent hparent
        split
        · rename_i f hf
          have hclass := ClassValue.contained_parent (ho o rfl).1 hparent
          exact pure hm₂ ⟨ClassValue.contained_method hclass hf, hthis this rfl⟩
        · exact fault _ hm₂
      · exact error _ hm₂
    · exact error _ hm₂
  · exact error _ hm₁

theorem entryOf {d : Dict} (key : Value) (hm : m.Contained)
    (hd : ∀ e ∈ d, e.1.Contained ∧ e.2.Contained) :
    Seals jumps m (Run.entryOf d key) (Run.entryOf d key) Value.Contained := by
  refine ite ((fault (V := fun _ => False) _ hm).bind fun _ _ _ h => h.elim) ?_
  split
  · rename_i v hv
    obtain ⟨e, he, rfl⟩ := Dict.mem_of_value? hv
    exact pure hm (hd e he).2
  · exact noEntry _ hm

theorem itemOf {items : Array Value} (place : Value) (line : Nat) (hm : m.Contained)
    (hitems : ∀ v ∈ items, v.Contained) :
    Seals jumps m (Run.itemOf items place line) (Run.itemOf items place line) Value.Contained := by
  unfold Run.itemOf
  split
  · split
    · exact pure hm (Gives.getD_mem hitems trivial _)
    · exact noEntry _ hm
  · exact error _ hm

theorem indexInto (v place : Value) (line : Nat) (hm : m.Contained) :
    Seals jumps m (Run.indexInto v place line) (Run.indexInto v place line) Value.Contained := by
  unfold Run.indexInto
  split
  · exact get (entryOf place hm (hm.heap.dict _))
  · exact get (itemOf place line hm (hm.heap.list _))
  · refine itemOf place line hm fun v hv => ?_
    obtain ⟨c, -, rfl⟩ := List.mem_map.mp (List.mem_toArray.mp hv)
    trivial
  · exact error _ hm

/-- What `p` does is up to `w`, which sees nothing but the heap. -/
theorem heaped {ε : Type} {w : EStateM ε Heap α}
    (hok : ∀ {a heap}, w m.heap = .ok a heap → p m = .ok a { m with heap })
    (herror : ∀ {err heap}, w m.heap = .error err heap →
      ∃ e : Exit, e.Contained jumps ∧ p m = .error e { m with heap })
    (hm : m.Contained) (hw : Gives Value.Contained w V) : Seals jumps m p p V := by
  have hgives := hw m.heap hm.heap
  cases hrun : w m.heap with
  | ok a heap =>
    rw [finalState_ok hrun] at hgives
    exact .ended a _ (hok hrun) (hok hrun) ⟨hm.bound, hgives.1⟩ (hgives.2 a heap hrun)
  | error err heap =>
    obtain ⟨e, he, hexit⟩ := herror hrun
    rw [finalState_error hrun] at hgives
    exact .exited e _ hexit hexit ⟨hm.bound, hgives.1⟩ he

theorem work {w : Work α} (hm : m.Contained) (hw : Gives Value.Contained w V) :
    Seals jumps m (Run.work w) (Run.work w) V := by
  refine heaped (fun hrun => ?_) (fun {f _} hrun => ?_) hm hw
  · simp only [Run.work, hrun]
  · exact ⟨.fault f, trivial, by simp only [Run.work, hrun]⟩

/-- A computation on the heap whose result is no function or class. -/
theorem plain {w : Work Value} (hm : m.Contained)
    (hw : Gives Value.Contained w fun v => v.isPlain = true) :
    Seals jumps m (Run.work w) (Run.work w) Value.Contained :=
  (work hm hw).mono Value.contained_of_isPlain

theorem binary (lang : Lang) (op : BinaryOp) (a b : Value) (line : Nat) (hm : m.Contained) :
    Seals jumps m (Run.binary lang op a b line) (Run.binary lang op a b line)
      Value.Contained := by
  have hw := (Gives.binary (P := Value.Contained) op a b).mono Value.contained_of_isPlain
  cases op
  case unknown symbol => exact error _ hm
  all_goals
    refine heaped (fun hrun => ?_) (fun hrun => ?_) hm hw
    · unfold Run.binary
      simp only [hrun]
    · unfold Run.binary
      exact ⟨.error _, trivial, by simp only [hrun]; rfl⟩

theorem unary (op : UnaryOp) (v : Value) (line : Nat) (hm : m.Contained) :
    Seals jumps m (Run.unary op v line) (Run.unary op v line) Value.Contained := by
  cases op with
  | negate =>
    unfold Run.unary
    dsimp only
    split
    · exact plain hm (Gives.number _)
    · exact error _ hm
  | not => exact (isTrue v hm).bind fun _ _ hm' _ => pure hm' trivial
  | unknown symbol => exact error _ hm

theorem applyBuiltin (b : Builtin) (name : String) {args : List Value} (line : Nat)
    (hm : m.Contained) (hargs : ∀ v ∈ args, v.Contained) :
    Seals jumps m (Run.applyBuiltin b name args line) (Run.applyBuiltin b name args line)
      Value.Contained := by
  refine heaped (fun hrun => ?_) (fun {err _} hrun => ?_) hm
    (Gives.apply b Value.contained_of_isPlain hargs)
  · simp only [Run.applyBuiltin, hrun]
  · cases err with
    | diagnostic d => exact ⟨.error d, trivial, by simp only [Run.applyBuiltin, hrun]⟩
    | fault f =>
      exact ⟨.error _, trivial, by
        simp only [Run.applyBuiltin, hrun]
        rfl⟩

theorem assignIndex (v : Value) {place value : Value} (line : Nat) (hm : m.Contained)
    (hplace : place.Contained) (hvalue : value.Contained) :
    Seals jumps m (Run.assignIndex v place value line) (Run.assignIndex v place value line)
      fun _ => True := by
  unfold Run.assignIndex
  split
  · refine (checkKey place line hm).bind fun _ m' hm' _ => work hm' (Gives.setDict _ fun d hd => ?_)
    exact Dict.all_insert hd hplace hvalue
  · rename_i i
    split
    · refine get ?_
      split
      · refine work hm (Gives.setList i fun vs hvs w hw => ?_)
        rcases Array.mem_or_eq_of_mem_setIfInBounds hw with hw | rfl
        · exact hvs w hw
        · exact hvalue
      · exact noEntry _ hm
    · exact error _ hm
  · exact error _ hm

theorem modified {f : Machine → Machine} (hm : (f m).Contained) {V : Unit → Prop} (hv : V ()) :
    Seals jumps m (modify f) (modify f) V :=
  .ended () (f m) rfl rfl hm hv

theorem define (x : String) {v : Value} (hm : m.Contained) (hv : v.Contained) :
    Seals jumps m (Run.define x v) (Run.define x v) fun _ => True :=
  modified (hm.define _ x hv) trivial

theorem assign (x : String) {v : Value} (hm : m.Contained) (hv : v.Contained) :
    Seals jumps m (Run.assign x v) (Run.assign x v) fun _ => True := by
  rw [Run.assign_eq]
  exact modified (hm.define _ x hv) trivial

theorem reassign (u : Option Fault) (x : String) {v : Value} (hm : m.Contained)
    (hv : v.Contained) :
    Seals jumps m (Run.reassign u x v) (Run.reassign u x v) fun _ => True := by
  rw [Run.reassign_eq]
  refine get ?_
  split
  · exact modified (hm.define _ x hv) trivial
  · exact unresolved (error _ hm) hm

theorem write (s : String) (hm : m.Contained) :
    Seals jumps m (Run.write s) (Run.write s) fun _ => True :=
  modified (hm.congr rfl rfl) trivial

theorem readLine (atEnd : Fault) (hm : m.Contained) :
    Seals jumps m (Run.readLine atEnd) (Run.readLine atEnd) fun _ => True := by
  have hrun := Run.readLine_run atEnd m
  by_cases hempty : m.input.isEmpty = true
  · rw [if_pos hempty] at hrun
    exact .exited _ m hrun hrun hm trivial
  · rw [if_neg hempty] at hrun
    exact .ended _ _ hrun hrun (hm.congr rfl rfl) trivial

theorem print (vs : List Value) (hm : m.Contained) :
    Seals jumps m (Run.print vs) (Run.print vs) fun _ => True :=
  get ((lift (vs.mapM m.heap.printed) hm).bind fun _ _ hm' _ => write _ hm')

/-- `wrap` runs its body at another place and goes back from there. -/
theorem moved {wrap : Run α → Run α} {body body' : Run α} {there : Machine}
    (back : Machine → Machine)
    (hok : ∀ {body a m'}, body there = .ok a m' → wrap body m = .ok a (back m'))
    (herror : ∀ {body e m'}, body there = .error e m' → wrap body m = .error e (back m'))
    (hback : ∀ {m'}, m'.Contained → (back m').Contained) (h : Seals jumps there body body' V) :
    Seals jumps m (wrap body) (wrap body') V := by
  cases h with
  | ended a m' hp hq hm hv => exact .ended a _ (hok hp) (hok hq) (hback hm) hv
  | exited e m' hp hq hm he => exact .exited e _ (herror hp) (herror hq) (hback hm) he

theorem called {body body' : Run α} (name : String)
    (h : Seals jumps { m with calls := name :: m.calls } body body' V) :
    Seals jumps m (Run.called name body) (Run.called name body') V := by
  refine moved (fun m' => { m' with calls := m'.calls.tail }) (fun hrun => ?_)
    (fun hrun => ?_) (fun hm => hm.congr rfl rfl) h
  · simp only [Run.called, hrun]
  · simp only [Run.called, hrun]

theorem within {body body' : Run α} (i : Nat)
    (h : Seals jumps { m with current := i } body body' V) :
    Seals jumps m (Run.within i body) (Run.within i body') V := by
  refine moved (fun m' => { m' with current := m.current }) (fun hrun => ?_)
    (fun hrun => ?_) (fun hm => hm.congr rfl rfl) h
  · simp only [Run.within, hrun]
  · simp only [Run.within, hrun]

theorem newScope (parent : Nat) {bindings : List (String × Value)} (hm : m.Contained)
    (hbindings : ∀ b ∈ bindings, b.2.Contained) :
    Seals jumps m (Run.newScope parent bindings) (Run.newScope parent bindings) fun _ => True := by
  have hrun := Run.newScope_run parent bindings m
  by_cases hdeep : Scopes.depthLimit < m.scopes.innerDepth (some parent)
  · rw [if_pos hdeep] at hrun
    exact .exited _ m hrun hrun hm trivial
  · rw [if_neg hdeep] at hrun
    exact .ended _ _ hrun hrun (hm.enclose parent hbindings) trivial

theorem entered {body body' : Run α} (parent : Nat) {bindings : List (String × Value)}
    (hm : m.Contained) (hbindings : ∀ b ∈ bindings, b.2.Contained)
    (hbody : ∀ {m'}, m'.Contained → Seals jumps m' body body' V) :
    Seals jumps m (do let scope ← Run.newScope parent bindings; Run.within scope body)
      (do let scope ← Run.newScope parent bindings; Run.within scope body') V :=
  (newScope parent hm hbindings).bind fun i _ hm' _ => within i (hbody (hm'.congr rfl rfl))

theorem truth {p p' : Run Value} (h : Seals jumps m p p' Value.Contained) :
    Seals jumps m (do return .bool (← Run.isTrue (← p))) (do return .bool (← Run.isTrue (← p')))
      Value.Contained :=
  h.bind fun v _ hm _ => (isTrue v hm).bind fun _ _ hm' _ => pure hm' trivial

/-- The two ways to enter bodies are the same for every body that lets no jump out. -/
def Performs (p q : Task → Run Value) : Prop :=
  ∀ {t m}, t.Contained → m.Contained → Seals false m (p t) (q t) Value.Contained

section

variable {c : Context} {q : Task → Run Value} (hc : Performs c.perform q)
include hc

theorem callFunction {f : Closure} {args : List Value} (line : Nat) (hm : m.Contained)
    (hf : f.Contained) (hargs : ∀ v ∈ args, v.Contained) :
    Seals jumps m (Run.callFunction c f args line)
      (Run.callFunction { c with perform := q } f args line) Value.Contained := by
  refine (bindArguments _ _ line hm hargs).bind fun bindings m₁ hm₁ hb => get ?_
  refine ite ((fault (V := fun _ => False) _ hm₁).bind fun _ _ _ h => h.elim) ?_
  refine entered f.scope hm₁ hb fun {m'} hm' => called f.name ?_
  have hcall : { m' with calls := f.name :: m'.calls }.Contained := hm'.congr rfl rfl
  exact (hc (t := .statements f.body) hf hcall).discard.result.loosen

theorem callLambda (f : Lambda) {args : List Value} (line : Nat) (hm : m.Contained)
    (hargs : ∀ v ∈ args, v.Contained) :
    Seals jumps m (Run.callLambda c f args line)
      (Run.callLambda { c with perform := q } f args line) Value.Contained := by
  refine (bindArguments _ _ line hm hargs).bind fun bindings m₁ hm₁ hb => ?_
  exact entered f.scope hm₁ hb fun hm' => (hc (t := .expression f.body) trivial hm').loosen

theorem callMethod (what : String) {f : Closure} {this : Value} {args : List Value} (line : Nat)
    (hm : m.Contained) (hf : f.Contained) (hthis : this.Contained)
    (hargs : ∀ v ∈ args, v.Contained) :
    Seals jumps m (Run.callMethod c what f this args line)
      (Run.callMethod { c with perform := q } what f this args line) Value.Contained := by
  refine (bindArguments _ _ line hm hargs).bind fun bindings m₁ hm₁ hb => ?_
  refine entered f.scope hm₁ (List.forall_mem_cons.2 ⟨hthis, hb⟩) fun hm' => ?_
  exact (hc (t := .statements f.body) hf hm').discard.result.loosen

theorem call (name : String) {f : Value} {args : List Value} (line : Nat) (hm : m.Contained)
    (hf : f.Contained) (hargs : ∀ v ∈ args, v.Contained) :
    Seals jumps m (Run.call c name f args line)
      (Run.call { c with perform := q } name f args line) Value.Contained := by
  cases f with
  | builtin b => exact applyBuiltin b name line hm hargs
  | function f => exact callFunction hc line hm hf hargs
  | lambda f => exact callLambda hc f line hm hargs
  | _ => exact error _ hm

end

section

variable {c : Context} {q : Task → Run Value}

mutual

theorem expr (hc : Performs c.perform q) : ∀ e {m}, m.Contained →
    Seals jumps m (Eval.expr c e) (Eval.expr { c with perform := q } e) Value.Contained
  | .literal _ v _, _, hm => by
    rw [Eval.expr, Eval.expr]
    exact plain hm (Gives.scalar v)
  | .list es _, _, hm => by
    rw [Eval.expr, Eval.expr]
    refine (exprs hc es hm).bind fun vs _ hm' hvs => plain hm' (Gives.newList ?_)
    exact fun v hv => hvs v (List.mem_toArray.mp hv)
  | .dict ps l, _, hm => by
    rw [Eval.expr, Eval.expr]
    refine (entries hc l ps hm (d := #[]) (by simp)).bind fun d _ hm' hd => ?_
    exact plain hm' (Gives.newDict hd)
  | .var x _, _, hm => by
    rw [Eval.expr, Eval.expr]
    exact lookup c.unbound x hm
  | .binary op a b l, m, hm => by
    by_cases hor : op = .or
    · subst hor
      rw [Eval.expr, Eval.expr]
      refine (expr hc a hm).bind fun left m₁ hm₁ _ => (isTrue left hm₁).bind fun t m₂ hm₂ _ => ?_
      exact ite (pure hm₂ trivial) (expr hc b hm₂).truth
    · by_cases hand : op = .and
      · subst hand
        rw [Eval.expr, Eval.expr]
        refine (expr hc a hm).bind fun left m₁ hm₁ _ => (isTrue left hm₁).bind fun t m₂ hm₂ _ => ?_
        exact ite (pure hm₂ trivial) (expr hc b hm₂).truth
      · rw [expr_binary hor hand, expr_binary hor hand]
        refine (expr hc a hm).bind fun left m₁ hm₁ _ => ?_
        exact (expr hc b hm₁).bind fun right m₂ hm₂ _ => binary c.lang op left right l hm₂
  | .unary op a l, _, hm => by
    rw [Eval.expr, Eval.expr]
    exact (expr hc a hm).bind fun v _ hm' _ => unary op v l hm'
  | .paren a _, _, hm => by
    rw [Eval.expr, Eval.expr]
    exact expr hc a hm
  | .call x es l, _, hm => by
    rw [Eval.expr, Eval.expr]
    refine (find? x hm).bind fun f? m₁ hm₁ hf => ?_
    cases f? with
    | some f =>
      refine (exprs hc es hm₁).bind fun args m₂ hm₂ hargs => ?_
      exact call hc x l hm₂ (hf f rfl) hargs
    | none => exact unresolved (fault _ hm₁) hm₁
  | .lambda ps b _, _, hm => by
    rw [Eval.expr, Eval.expr]
    exact get (pure hm trivial)
  | .newObject x es l, _, hm => by
    rw [Eval.expr, Eval.expr]
    refine (classNamed c.unbound x l hm).bind fun cls m₁ hm₁ hcls => ?_
    refine (plain hm₁ (Gives.newObject hcls)).bind fun this m₂ hm₂ hthis => ?_
    dsimp only
    cases hinit : cls.method? "__init__" with
    | some f =>
      refine (exprs hc es hm₂).bind fun args m₃ hm₃ hargs => ?_
      have hf := ClassValue.contained_method hcls hinit
      exact (callMethod hc _ l hm₃ hf hthis hargs).bind fun _ m₄ hm₄ _ => pure hm₄ hthis
    | none => exact pure hm₂ hthis
  | .method a x es l, _, hm => by
    rw [Eval.expr, Eval.expr]
    refine (expr hc a hm).bind fun v m₁ hm₁ hv => (objectFor _ v l hm₁).bind fun o m₂ hm₂ ho => ?_
    cases hmethod : o.classValue.method? x with
    | some f =>
      refine (exprs hc es hm₂).bind fun args m₃ hm₃ hargs => ?_
      exact callMethod hc _ l hm₃ (ClassValue.contained_method ho.1 hmethod) hv hargs
    | none => exact fault _ hm₂
  | .property a x l, _, hm => by
    rw [Eval.expr, Eval.expr]
    refine (expr hc a hm).bind fun v m₁ hm₁ _ => (objectFor _ v l hm₁).bind fun o m₂ hm₂ ho => ?_
    cases hfind : o.properties.find? x with
    | some w => exact pure hm₂ (ho.2 _ (Bindings.mem_of_find? hfind))
    | none => exact fault _ hm₂
  | .thisObject l, _, hm => by
    rw [Eval.expr, Eval.expr]
    exact thisObject l hm
  | .superCall x es l, _, hm => by
    rw [Eval.expr, Eval.expr]
    refine (superMethod x l hm).bind fun r m₁ hm₁ hr => ?_
    refine (exprs hc es hm₁).bind fun args m₂ hm₂ hargs => ?_
    exact callMethod hc _ l hm₂ hr.1 hr.2 hargs
  | .index a i l, _, hm => by
    rw [Eval.expr, Eval.expr]
    refine (expr hc a hm).bind fun v m₁ hm₁ _ => (expr hc i hm₁).bind fun place m₂ hm₂ _ => ?_
    exact indexInto v place l hm₂
  | .foreign cls _ l, _, hm => by
    rw [Eval.expr, Eval.expr]
    exact error _ hm
termination_by structural e => e

theorem exprs (hc : Performs c.perform q) : ∀ es {m}, m.Contained →
    Seals jumps m (Eval.exprs c es) (Eval.exprs { c with perform := q } es) fun vs =>
      ∀ v ∈ vs, v.Contained
  | [], _, hm => by
    rw [Eval.exprs, Eval.exprs]
    exact pure hm (List.forall_mem_nil _)
  | e :: es, _, hm => by
    rw [Eval.exprs, Eval.exprs]
    refine (expr hc e hm).bind fun v m₁ hm₁ hv => (exprs hc es hm₁).bind fun vs m₂ hm₂ hvs => ?_
    exact pure hm₂ (List.forall_mem_cons.mpr ⟨hv, hvs⟩)
termination_by structural es => es

theorem entries (hc : Performs c.perform q) (line : Nat) : ∀ ps {m d}, m.Contained →
    (∀ e ∈ d, e.1.Contained ∧ e.2.Contained) →
    Seals jumps m (Eval.entries c line d ps) (Eval.entries { c with perform := q } line d ps)
      fun d => ∀ e ∈ d, e.1.Contained ∧ e.2.Contained
  | [], _, _, hm, hd => by
    rw [Eval.entries, Eval.entries]
    exact pure hm hd
  | (a, v) :: ps, _, d, hm, hd => by
    rw [Eval.entries, Eval.entries]
    refine (expr hc a hm).bind fun key m₁ hm₁ hkey => ?_
    refine (expr hc v hm₁).bind fun value m₂ hm₂ hvalue => ?_
    refine (checkKey key line hm₂).bind fun _ m₃ hm₃ _ => ?_
    exact entries hc line ps hm₃ (Dict.all_insert hd hkey hvalue)
termination_by structural ps => ps

end

end

section

variable {body body' : Run Unit} {V : Unit → Prop}

theorem whileLoop {condition condition' : Run Value} (limit : Int) (line : Nat)
    (hcond : ∀ {m}, m.Contained → Seals jumps m condition condition' Value.Contained)
    (hbody : ∀ {m}, m.Contained → Seals true m body body' V) : ∀ n {m}, m.Contained →
    Seals jumps m (Run.whileLoop limit line condition body n)
      (Run.whileLoop limit line condition' body' n) fun _ => True
  | 0, m, hm => by
    refine (hcond hm).bind fun v m₁ hm₁ _ => (isTrue v hm₁).bind fun t m₂ hm₂ _ => ?_
    exact ite (error _ hm₂) (pure hm₂ trivial)
  | n + 1, m, hm => by
    refine (hcond hm).bind fun v m₁ hm₁ _ => (isTrue v hm₁).bind fun t m₂ hm₂ _ => ?_
    refine ite ((hbody hm₂).turn.bind fun more m₃ hm₃ _ => ?_) (pure hm₂ trivial)
    exact ite (whileLoop limit line hcond hbody n hm₃) (pure hm₃ trivial)

theorem forList (x : String) (place : Nat)
    (hbody : ∀ {m}, m.Contained → Seals true m body body' V) : ∀ n i {m}, m.Contained →
    Seals jumps m (Run.forList x body place n i) (Run.forList x body' place n i) fun _ => True
  | 0, _, m, hm => throw hm trivial
  | n + 1, i, m, hm => by
    refine get ?_
    split
    · exact pure hm trivial
    · rename_i v hv
      have hvalue := hm.heap.list place v (Array.mem_of_getElem? hv)
      refine (define x hm hvalue).bind fun _ m₁ hm₁ _ => (hbody hm₁).turn.bind
        fun more m₂ hm₂ _ => ?_
      exact ite (forList x place hbody n (i + 1) hm₂) (pure hm₂ trivial)

theorem forText (x : String) (hbody : ∀ {m}, m.Contained → Seals true m body body' V) :
    ∀ cs {m}, m.Contained →
    Seals jumps m (Run.forText x body cs) (Run.forText x body' cs) fun _ => True
  | [], m, hm => pure hm trivial
  | ch :: cs, m, hm => by
    refine (define x (v := .str (.singleton ch)) hm trivial).bind fun _ m₁ hm₁ _ => ?_
    refine (hbody hm₁).turn.bind fun more m₂ hm₂ _ => ?_
    exact ite (forText x hbody cs hm₂) (pure hm₂ trivial)

theorem forLoop (turns : Nat) (x : String) (v : Value) (line : Nat)
    (hbody : ∀ {m}, m.Contained → Seals true m body body' V) (hm : m.Contained) :
    Seals jumps m (Run.forLoop turns x v body line) (Run.forLoop turns x v body' line)
      fun _ => True := by
  cases v with
  | list i =>
    exact get (entered _ hm (List.forall_mem_nil _) fun hm' => forList x i hbody turns 0 hm')
  | str s =>
    exact get (entered _ hm (List.forall_mem_nil _) fun hm' => forText x hbody s.toList hm')
  | _ => exact error _ hm

theorem defineClass (u : Option Fault) (x : String) (parent : Option String)
    {methods : List FunctionDef} {p : Spot} (line : Nat) (hm : m.Contained)
    (hmethods : FunctionDef.containedAll .strict p methods = true) :
    Seals jumps m (Run.defineClass u x parent methods line)
      (Run.defineClass u x parent methods line) fun _ => True := by
  have bound {c? : Option ClassValue} {m : Machine} (hm : m.Contained)
      (hc : ∀ c, c? = some c → (Value.classValue c).Contained) : Seals jumps m
      (do Run.define x (.classValue (.mk x c? (Run.methodsOf methods (← MonadState.get).current))))
      (do Run.define x (.classValue (.mk x c? (Run.methodsOf methods (← MonadState.get).current))))
      fun _ => True :=
    get (define x hm (ClassValue.contained_mk hc hmethods _))
  unfold Run.defineClass
  dsimp only
  cases Run.nonempty parent with
  | some p =>
    refine ((classNamed u p line hm).map (W := fun c? => ∀ c, c? = some c →
      (Value.classValue c).Contained) fun cls hcls c hc => ?_).bind fun c? _ hm' hc => bound hm' hc
    cases hc
    exact hcls
  | none =>
    have hnone : ∀ c, (none : Option ClassValue) = some c → (Value.classValue c).Contained := by
      intro c hc
      cases hc
    exact bound hm hnone

theorem handle {handler handler' : Run Unit} (lang : Lang) (caught : Option Diagnostic)
    (x? : Option String) (isEmpty : Bool)
    (hh : ∀ {m}, m.Contained → Seals jumps m handler handler' V) (hm : m.Contained) :
    Seals jumps m (Run.handle lang caught x? isEmpty handler)
      (Run.handle lang caught x? isEmpty handler') fun _ => True := by
  cases caught with
  | none => exact pure hm trivial
  | some d =>
    refine ite (pure hm trivial) (get ?_)
    have hvalues : ∀ b ∈ (Run.nonempty x?).toList.map fun x => (x, Value.str (d.text lang)),
        b.2.Contained := by
      intro b hb
      obtain ⟨y, -, rfl⟩ := List.mem_map.mp hb
      trivial
    have hrun := (entered m.current hm hvalues hh).bind (W := fun _ => True)
      fun _ _ hm' _ => pure (a := (none : Option Diagnostic)) hm' trivial
    rw [bind_assoc, bind_assoc] at hrun
    exact hrun

theorem reraise (pending : Option Diagnostic) (hm : m.Contained) :
    Seals jumps m (Run.reraise pending) (Run.reraise pending) fun _ => True := by
  cases pending with
  | some d => exact error d hm
  | none => exact pure hm trivial

end

section

variable {c : Context} {q : Task → Run Value}

mutual

theorem stmt (hc : Performs c.perform q) : ∀ s {p m}, m.Contained →
    s.contained .strict p = true →
    Seals p.jumps m (Exec.stmt c s) (Exec.stmt { c with perform := q } s) fun _ => True
  | .expr e, _, _, hm, _ => by
    rw [Exec.stmt, Exec.stmt]
    exact (expr hc e hm).bind fun _ _ hm' _ => pure hm' trivial
  | .assign x e _, _, _, hm, _ => by
    rw [Exec.stmt, Exec.stmt]
    exact (expr hc e hm).bind fun v _ hm' hv => assign x hm' hv
  | .setProperty a x e l, _, _, hm, _ => by
    rw [Exec.stmt, Exec.stmt]
    refine (expr hc a hm).bind fun v m₁ hm₁ _ => ?_
    cases v with
    | object i =>
      exact (expr hc e hm₁).bind fun w m₂ hm₂ hw => (work hm₂ (Gives.setProperty i x hw)).mono
        fun _ _ => trivial
    | _ => exact (objectFor _ _ l hm₁).bind fun _ _ hm' _ => pure hm' trivial
  | .setIndex a i e l, _, _, hm, _ => by
    rw [Exec.stmt, Exec.stmt]
    refine (expr hc a hm).bind fun v m₁ hm₁ _ => (expr hc i hm₁).bind fun place m₂ hm₂ hplace => ?_
    exact (expr hc e hm₂).bind fun w m₃ hm₃ hw => assignIndex v l hm₃ hplace hw
  | .print es _, _, _, hm, _ => by
    rw [Exec.stmt, Exec.stmt]
    exact (exprs hc es hm).bind fun vs _ hm' _ => print vs hm'
  | .input x (some e) _, _, _, hm, _ => by
    rw [Exec.stmt, Exec.stmt]
    refine (expr hc e hm).bind fun v m₁ hm₁ _ => (text v hm₁).bind fun s m₂ hm₂ _ => ?_
    refine (write s hm₂).bind fun _ m₃ hm₃ _ => (readLine c.endOfInput hm₃).bind
      fun line m₄ hm₄ _ => ?_
    exact reassign c.unbound x (v := .str line) hm₄ trivial
  | .input x none _, _, _, hm, _ => by
    rw [Exec.stmt, Exec.stmt]
    · exact (readLine c.endOfInput hm).bind fun line m₁ hm₁ _ =>
        reassign c.unbound x (v := .str line) hm₁ trivial
    all_goals
      intro _ h
      cases h
  | .ifElse condition body bs otherwise _, p, m, hm, h => by
    obtain ⟨hbody, h⟩ := Bool.and_eq_true_iff.1 h
    obtain ⟨hbs, hotherwise⟩ := Bool.and_eq_true_iff.1 h
    have hrun {r r' : Run Unit} (hr : ∀ {m}, m.Contained → Seals p.jumps m r r' fun _ => True) :
        Seals p.jumps m
          (do if ← Run.isTrue (← Eval.expr c condition) then Exec.stmts c body
              else if ← Exec.branches c bs then return () else r)
          (do if ← Run.isTrue (← Eval.expr { c with perform := q } condition) then
                Exec.stmts { c with perform := q } body
              else if ← Exec.branches { c with perform := q } bs then return () else r')
          fun _ => True := by
      refine (expr hc condition hm).bind fun v m₁ hm₁ _ => (isTrue v hm₁).bind fun t m₂ hm₂ _ => ?_
      refine ite (stmts hc body hm₂ hbody) ((branches hc bs hm₂ hbs).bind fun one m₃ hm₃ _ => ?_)
      exact ite (pure hm₃ trivial) (hr hm₃)
    match otherwise, hotherwise with
    | some b, hb =>
      rw [Exec.stmt, Exec.stmt]
      exact hrun fun hm' => stmts hc b hm' hb
    | none, _ =>
      rw [Exec.stmt, Exec.stmt]
      exact hrun fun hm' => pure hm' trivial
  | .whileLoop condition body l, _, _, hm, h => by
    rw [Exec.stmt, Exec.stmt]
    exact whileLoop _ l (fun hm' => expr hc condition hm')
      (fun hm' => stmts hc body (p := .inLoop) hm' h) _ hm
  | .forLoop x e body l, _, _, hm, h => by
    rw [Exec.stmt, Exec.stmt]
    exact (expr hc e hm).bind fun v m₁ hm₁ _ =>
      forLoop _ x v l (fun hm' => stmts hc body (p := .inLoop) hm' h) hm₁
  | .breakLoop _, _, _, hm, h => by
    rw [Exec.stmt, Exec.stmt]
    exact throw hm h
  | .continueLoop _, _, _, hm, h => by
    rw [Exec.stmt, Exec.stmt]
    exact throw hm h
  | .function f, _, m, hm, h => by
    rw [Exec.stmt, Exec.stmt]
    exact get (define f.name hm (FunctionDef.contained_closure h m.current))
  | .giveBack (some e) _, _, _, hm, _ => by
    rw [Exec.stmt, Exec.stmt]
    exact (expr hc e hm).bind fun v _ hm' hv => throw hm' hv
  | .giveBack none _, _, _, hm, _ => by
    rw [Exec.stmt, Exec.stmt]
    exact throw hm trivial
  | .classDef x parent methods l, _, _, hm, h => by
    rw [Exec.stmt, Exec.stmt]
    exact defineClass c.unbound x parent l hm h
  | .attempt body x? handler finalizer l, p, m, hm, h => by
    obtain ⟨hbody, h⟩ := Bool.and_eq_true_iff.1 h
    obtain ⟨hhandler, hfinalizer⟩ := Bool.and_eq_true_iff.1 h
    have hguarded : Seals p.jumps m (guarded c body x? handler)
        (guarded { c with perform := q } body x? handler) fun _ => True := by
      refine (stmts hc body hm hbody).attempt.bind fun caught m₁ hm₁ _ => ?_
      match handler, hhandler with
      | some b, hb =>
        exact handle c.lang caught x? b.isEmpty (fun hm' => stmts hc b hm' hb) hm₁
      | none, _ => exact pure hm₁ trivial
    match finalizer, hfinalizer with
    | some b, hb =>
      rw [stmt_attempt, stmt_attempt]
      refine hguarded.bind fun pending m₁ hm₁ _ => (stmts hc b hm₁ hb).bind fun _ m₂ hm₂ _ => ?_
      exact reraise pending hm₂
    | none, _ =>
      rw [stmt_attempt_none, stmt_attempt_none]
      exact hguarded.bind fun pending m₁ hm₁ _ => reraise pending hm₁
  | .raiseError e _, _, _, hm, _ => by
    rw [Exec.stmt, Exec.stmt]
    exact (expr hc e hm).bind fun v _ hm' _ => (text v hm').bind fun _ _ hm'' _ => fault _ hm''
  | .importFile x _, _, _, _, h => absurd h Bool.false_ne_true
  | .foreign cls _ l, _, _, hm, _ => by
    rw [Exec.stmt, Exec.stmt]
    exact error _ hm
termination_by structural s => s

theorem stmts (hc : Performs c.perform q) : ∀ ss {p m}, m.Contained →
    Stmt.containedAll .strict p ss = true →
    Seals p.jumps m (Exec.stmts c ss) (Exec.stmts { c with perform := q } ss) fun _ => True
  | [], _, _, hm, _ => by
    rw [Exec.stmts, Exec.stmts]
    exact pure hm trivial
  | s :: ss, _, _, hm, h => by
    obtain ⟨hs, hss⟩ := Bool.and_eq_true_iff.1 h
    rw [Exec.stmts, Exec.stmts]
    exact (stmt hc s hm hs).bind fun _ m₁ hm₁ _ => stmts hc ss hm₁ hss
termination_by structural ss => ss

theorem branches (hc : Performs c.perform q) : ∀ bs {p m}, m.Contained →
    Branch.containedAll .strict p bs = true →
    Seals p.jumps m (Exec.branches c bs) (Exec.branches { c with perform := q } bs) fun _ => True
  | [], _, _, hm, _ => by
    rw [Exec.branches, Exec.branches]
    exact pure hm trivial
  | .mk condition body :: bs, _, _, hm, h => by
    obtain ⟨hbody, hbs⟩ := Bool.and_eq_true_iff.1 h
    rw [Exec.branches, Exec.branches]
    refine (expr hc condition hm).bind fun v m₁ hm₁ _ => (isTrue v hm₁).bind fun t m₂ hm₂ _ => ?_
    refine ite ?_ (branches hc bs hm₂ hbs)
    exact (stmts hc body hm₂ hbody).bind fun _ _ hm' _ => pure hm' trivial
termination_by structural bs => bs

end

/-- What lets no jump out lets none out, whichever way the bodies in it are entered. -/
theorem carriedOut (hc : Performs c.perform q) : ∀ (t : Task) {m}, t.Contained → m.Contained →
    Seals false m (t.carriedOut c) (t.carriedOut { c with perform := q }) Value.Contained
  | .statements ss, _, h, hm =>
    (stmts hc ss (p := .outside) hm h).bind fun _ _ hm' _ => pure hm' trivial
  | .expression e, _, _, hm => expr hc e hm

end

end Seals

end Bhasha
