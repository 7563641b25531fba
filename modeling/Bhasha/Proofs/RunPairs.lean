import Bhasha.Proofs.AdmittedPrograms

namespace Bhasha

/-- Something that every step of a run keeps true of the scopes and of the calls that are open, as
long as the setting of the run limits the calls in one of these ways. -/
structure Upkeep where
  holds : Scopes Value → List String → Prop
  limits : Int → Prop
  define : ∀ {s calls}, holds s calls → ∀ i x v, holds (s.define i x v) calls
  enclose : ∀ {s calls parent}, holds s calls → parent < s.all.size →
    ¬Scopes.depthLimit < s.innerDepth (some parent) → ∀ bindings,
    holds (s.enclose parent bindings) calls
  call : ∀ {s calls limit}, holds s calls → limits limit → ¬limit ≤ calls.length →
    ∀ x, holds s (x :: calls)
  back : ∀ {s calls}, holds s calls → holds s calls.tail

def Upkeep.nothing : Upkeep where
  holds _ _ := True
  limits _ := True
  define _ _ _ _ := trivial
  enclose _ _ _ _ := trivial
  call _ _ _ _ := trivial
  back _ := trivial

/-- What the second of two runs has of its own. -/
structure Pairing where
  /-- Any name may be referred to; otherwise every name that is must have a meaning. -/
  free : Prop
  /-- Classes, objects and `padho` are part of the program. -/
  objects : Bool
  /-- The first run has no input, and after a fault in it the second run may do anything. -/
  idle : Prop
  unbound : Option Fault → Option Fault
  lead : String
  input : List Char → List Char
  upkeep : Upkeep
  unbound_of_free : free → ∀ u, unbound u = u
  input_or_idle : idle ∨ ∀ cs, input cs = cs

/-- The second run has the input of the first. -/
def Pairing.alike (free : Prop) (unbound : Option Fault → Option Fault)
    (h : free → ∀ u, unbound u = u) (lead : String) : Pairing where
  free
  objects := false
  idle := False
  unbound
  lead
  input := id
  upkeep := .nothing
  unbound_of_free := h
  input_or_idle := .inr fun _ => rfl

/-- A value is only given back where one may be, and it is hosted. -/
def Exit.Hosted (give : Prop) (fit : Sight → Task → Prop) (s : Scopes Value) : Exit → Prop
  | .giveBack v => give ∧ v.Hosted fit s
  | _ => True

def Object.Hosted (fit : Sight → Task → Prop) (s : Scopes Value) (o : Object) : Prop :=
  (Value.classValue o.classValue).Hosted fit s ∧ ∀ e ∈ o.properties, e.2.Hosted fit s

namespace Exit

/-- What holds an exit back turns it into a result, or into the exit that is left. -/
def inFunction : Exit → Except Exit Value
  | .giveBack v => .ok v
  | e => .error e

def inLoop : Exit → Except Exit Bool
  | .breakLoop => .ok false
  | .continueLoop => .ok true
  | e => .error e

def inAttempt : Exit → Except Exit (Option Diagnostic)
  | .error d => if d.kind.isRuntime then .ok (some d) else .error (.error d)
  | e => .error e

def inImport : Exit → Except Exit Unit
  | .exhausted => .error .exhausted
  | .fault .interrupted => .error (.fault .interrupted)
  | _ =>
    .error (.fault (.unknownSlot (Diagnostic.Kind.fileAccess.title ++ ".__init__") "message_en"))

end Exit

/-- Goes on with a result, or leaves. -/
def Run.settle {α : Type} : Except Exit α → Run α
  | .ok a => pure a
  | .error e => throw e

section

variable {body : Run Unit} {m m' : Machine} {e : Exit}

theorem Run.result_of_ok (h : body m = .ok () m') : Run.result body m = .ok .none m' := by
  simp only [Run.result, h]

theorem Run.result_of_error (h : body m = .error e m') :
    Run.result body m = Run.settle e.inFunction m' := by
  cases e <;> simp only [Run.result, h] <;> rfl

theorem Run.turn_of_ok (h : body m = .ok () m') : Run.turn body m = .ok true m' := by
  simp only [Run.turn, h]

theorem Run.turn_of_error (h : body m = .error e m') :
    Run.turn body m = Run.settle e.inLoop m' := by
  cases e <;> simp only [Run.turn, h] <;> rfl

theorem Run.attempt_of_ok (h : body m = .ok () m') : Run.attempt body m = .ok none m' := by
  simp only [Run.attempt, h]

theorem Run.attempt_of_error (h : body m = .error e m') :
    Run.attempt body m = Run.settle e.inAttempt m' := by
  cases e with
  | error d =>
    simp only [Run.attempt, h, Exit.inAttempt]
    split <;> rfl
  | _ =>
    simp only [Run.attempt, h]
    rfl

end

namespace Pairing

variable (P : Pairing)

/-- The machine of the second run beside that of the first. -/
def twin (m : Machine) : Machine :=
  { m with output := P.lead ++ m.output, input := P.input m.input }

/-- The context of the second run, which enters bodies by `perform`. -/
def second (c : Context) (perform : Task → Run Value) : Context :=
  { c with unbound := P.unbound c.unbound, perform }

/-- Every name that the run refers to is bound, where names matter. -/
def rule : Rule :=
  ⟨Sight.binds, P.objects, false⟩

/-- The part of a program with this verdict may be run. -/
def Fits (admitted : Bool) : Prop :=
  P.free ∨ admitted = true

def fit (k : Sight) (t : Task) : Prop :=
  P.Fits (t.admitted P.rule k)

structure Sound (m : Machine) : Prop where
  values : m.Hosted P.fit
  input : P.idle → m.input = []
  kept : P.upkeep.holds m.scopes m.calls

/-- These names have a meaning in the current scope of the machine. -/
def brings (names : List String) (_ : Unit) (m : Machine) : Prop :=
  ∀ x ∈ names, m.scopes.isBound m.current x = true

/-- The machine is sound, and these names have a meaning in it. -/
structure At (names : List String) (m : Machine) : Prop where
  sound : P.Sound m
  known : brings names () m

/-- What every part of a run does to the machine. -/
structure Leads (m m' : Machine) : Prop where
  current : m'.current = m.current
  grows : m.scopes.Grows m'.scopes
  sound : P.Sound m'

/-- The value is hosted in the machine. -/
def value (v : Value) (m : Machine) : Prop :=
  v.Hosted P.fit m.scopes

/-- From `m` and its twin, `p` and `q` end alike, in a machine and its twin, with a result for which
`V` holds; or `p` ends in a fault that is spared. They give back no value unless `give` allows
it. -/
inductive Agrees {α : Type} (give : Prop) (m : Machine) (p q : Run α)
    (V : α → Machine → Prop) : Prop
  | ended (a : α) (m' : Machine) (hp : p m = .ok a m') (hq : q (P.twin m) = .ok a (P.twin m'))
      (hl : P.Leads m m') (hv : V a m')
  | exited (e : Exit) (m' : Machine) (hp : p m = .error e m')
      (hq : q (P.twin m) = .error e (P.twin m')) (hl : P.Leads m m')
      (he : e.Hosted give P.fit m'.scopes)
  | spared (f : Fault) (m' : Machine) (hp : p m = .error (.fault f) m') (hidle : P.idle)

variable {P} {α β : Type} {give : Prop} {m m' m'' : Machine} {names : List String}

theorem Fits.of_and {a b : Bool} (h : P.Fits (a && b)) : P.Fits a ∧ P.Fits b := by
  rcases h with h | h
  · exact ⟨.inl h, .inl h⟩
  · exact (Bool.and_eq_true_iff.mp h).imp .inr .inr

theorem Fits.free (h : P.Fits false) : P.free :=
  h.resolve_right Bool.false_ne_true

theorem Leads.refl (h : P.Sound m) : P.Leads m m :=
  ⟨rfl, .refl m.scopes, h⟩

theorem Leads.trans (h : P.Leads m m') (h' : P.Leads m' m'') : P.Leads m m'' :=
  ⟨h'.current.trans h.current, h.grows.trans h'.grows, h'.sound⟩

theorem At.leads (h : P.At names m) (hl : P.Leads m m') : P.At names m' := by
  refine ⟨hl.sound, fun x hx => ?_⟩
  rw [hl.current]
  exact hl.grows.isBound h.sound.values.present (h.known x hx)

theorem At.append {more : List String} (h : P.At names m) (hmore : brings more () m) :
    P.At (more ++ names) m :=
  ⟨h.sound, fun x hx => (List.mem_append.mp hx).elim (hmore x) (h.known x)⟩

theorem value_leads {v : Value} (h : P.value v m) (hl : P.Leads m m') : P.value v m' :=
  Value.Hosted.grows h hl.grows

theorem value_of_isPlain {v : Value} (h : v.isPlain = true) : P.value v m :=
  v.hosted_of_isPlain P.fit m.scopes h

theorem Sound.heap (h : P.Sound m) {heap : Heap} (hheap : heap.All (Value.Hosted P.fit m.scopes)) :
    P.Leads m { m with heap } :=
  ⟨rfl, .refl m.scopes, ⟨h.values.present, h.values.bound, hheap⟩, h.input, h.kept⟩

namespace Agrees

variable {p q : Run α} {V : α → Machine → Prop} {W : β → Machine → Prop}

theorem pure {a : α} (hm : P.Sound m) (hv : V a m) :
    P.Agrees give m (Pure.pure a) (Pure.pure a) V :=
  .ended a m rfl rfl (.refl hm) hv

theorem throw {e : Exit} (hm : P.Sound m) (he : e.Hosted give P.fit m.scopes) :
    P.Agrees give m (MonadExcept.throw e) (MonadExcept.throw e) V :=
  .exited e m rfl rfl (.refl hm) he

theorem error (d : Diagnostic) (hm : P.Sound m) : P.Agrees give m (Run.error d) (Run.error d) V :=
  throw hm trivial

theorem fault (f : Fault) (hm : P.Sound m) : P.Agrees give m (Run.fault f) (Run.fault f) V :=
  throw hm trivial

/-- Both runs read the machine, and find the same apart from input and output. -/
theorem get {k l : Machine → Run β} (h : P.Agrees give m (k m) (l (P.twin m)) W) :
    P.Agrees give m (MonadState.get >>= k) (MonadState.get >>= l) W := by
  cases h with
  | ended b m' hp hq hl hv => exact .ended b m' hp hq hl hv
  | exited e m' hp hq hl he => exact .exited e m' hp hq hl he
  | spared f m' hp hidle => exact .spared f m' hp hidle

theorem bind {k l : α → Run β} (h : P.Agrees give m p q V)
    (hk : ∀ a m', P.Leads m m' → V a m' → P.Agrees give m' (k a) (l a) W) :
    P.Agrees give m (p >>= k) (q >>= l) W := by
  cases h with
  | ended a m₁ hp hq hl hv =>
    cases hk a m₁ hl hv with
    | ended b m' hp' hq' hl' hv' =>
      exact .ended b m' ((bind_of_ok hp).trans hp') ((bind_of_ok hq).trans hq') (hl.trans hl') hv'
    | exited e m' hp' hq' hl' he =>
      exact .exited e m' ((bind_of_ok hp).trans hp') ((bind_of_ok hq).trans hq') (hl.trans hl') he
    | spared f m' hp' hidle => exact .spared f m' ((bind_of_ok hp).trans hp') hidle
  | exited e m₁ hp hq hl he => exact .exited e m₁ (bind_of_error hp) (bind_of_error hq) hl he
  | spared f m₁ hp hidle => exact .spared f m₁ (bind_of_error hp) hidle

theorem map {f : α → β} (h : P.Agrees give m p q V) (hf : ∀ a m', V a m' → W (f a) m') :
    P.Agrees give m (f <$> p) (f <$> q) W := by
  cases h with
  | ended a m' hp hq hl hv => exact .ended (f a) m' (map_of_ok hp) (map_of_ok hq) hl (hf a m' hv)
  | exited e m' hp hq hl he => exact .exited e m' (map_of_error hp) (map_of_error hq) hl he
  | spared f m' hp hidle => exact .spared f m' (map_of_error hp) hidle

theorem discard (h : P.Agrees give m p q V) :
    P.Agrees give m (Functor.discard p) (Functor.discard q) fun _ _ => True :=
  h.map fun _ _ _ => trivial

theorem mono {V' : α → Machine → Prop} (h : P.Agrees give m p q V)
    (hV : ∀ a m', P.Leads m m' → V a m' → V' a m') : P.Agrees give m p q V' := by
  cases h with
  | ended a m' hp hq hl hv => exact .ended a m' hp hq hl (hV a m' hl hv)
  | exited e m' hp hq hl he => exact .exited e m' hp hq hl he
  | spared f m' hp hidle => exact .spared f m' hp hidle

theorem congr {q' : Run α} (h : P.Agrees give m p q V) (hq : q' (P.twin m) = q (P.twin m)) :
    P.Agrees give m p q' V := by
  cases h with
  | ended a m' hp hq' hl hv => exact .ended a m' hp (hq.trans hq') hl hv
  | exited e m' hp hq' hl he => exact .exited e m' hp (hq.trans hq') hl he
  | spared f m' hp hidle => exact .spared f m' hp hidle

/-- What the second run does, when the first comes to an end. -/
theorem of_ok {a : α} (h : P.Agrees give m p q V) (hp : p m = .ok a m') :
    q (P.twin m) = .ok a (P.twin m') ∧ P.Leads m m' ∧ V a m' := by
  cases h with
  | ended b m₁ hp' hq hl hv =>
    cases hp.symm.trans hp'
    exact ⟨hq, hl, hv⟩
  | exited e m₁ hp' => cases hp.symm.trans hp'
  | spared f m₁ hp' => cases hp.symm.trans hp'

/-- The machine the first run ends in, however it ends. -/
theorem leads (h : P.Agrees give m p q V) (hidle : ¬P.idle) : P.Leads m (finalState p m) := by
  cases h with
  | ended a m' hp hq hl hv => exact finalState_ok hp ▸ hl
  | exited e m' hp hq hl he => exact finalState_error hp ▸ hl
  | spared f m' hp hidle' => exact absurd hidle' hidle

/-- What the first run has done, when the second comes to an end. -/
theorem of_twin_ok {a : α} (h : P.Agrees give m p q V) (hidle : ¬P.idle)
    (hq : q (P.twin m) = .ok a m'') : ∃ m', p m = .ok a m' ∧ m'' = P.twin m' := by
  cases h with
  | ended b m₁ hp hq' hl hv =>
    cases hq.symm.trans hq'
    exact ⟨m₁, hp, rfl⟩
  | exited e m₁ hp hq' => cases hq.symm.trans hq'
  | spared f m₁ hp hidle' => exact absurd hidle' hidle

/-- What gives back no value may also stand where one may be given back. -/
theorem loosen (h : P.Agrees False m p q V) : P.Agrees give m p q V := by
  cases h with
  | ended a m' hp hq hl hv => exact .ended a m' hp hq hl hv
  | exited e m' hp hq hl he =>
    refine .exited e m' hp hq hl ?_
    cases e with
    | giveBack v => exact he.1.elim
    | _ => trivial
  | spared f m' hp hidle => exact .spared f m' hp hidle

theorem ite_of_not {c : Prop} [Decidable c] {p' q' : Run α} (h : P.Agrees give m p q V)
    (h' : ¬c → P.Agrees give m p' q' V) :
    P.Agrees give m (if c then p else p') (if c then q else q') V := by
  split
  · exact h
  · exact h' ‹_›

theorem ite {c : Prop} [Decidable c] {p' q' : Run α} (h : P.Agrees give m p q V)
    (h' : P.Agrees give m p' q' V) :
    P.Agrees give m (if c then p else p') (if c then q else q') V :=
  ite_of_not h fun _ => h'

/-- `wrap` looks at how its body ends: the exits that `held` turns into results are held back, but
never a fault. -/
theorem held {give' : Prop} {wrap : Run Unit → Run β} {body body' : Run Unit}
    {V : Unit → Machine → Prop}
    (done : β) (held : Exit → Except Exit β)
    (hdone : ∀ {body m m'}, body m = .ok () m' → wrap body m = .ok done m')
    (hheld : ∀ {body m e m'}, body m = .error e m' → wrap body m = Run.settle (held e) m')
    (hfault : ∀ f, ∃ f', held (.fault f) = .error (.fault f')) (h : P.Agrees give' m body body' V)
    (hWdone : ∀ m', W done m')
    (hWheld : ∀ e m' b, e.Hosted give' P.fit m'.scopes → held e = .ok b → W b m')
    (hexit : ∀ e s e', e.Hosted give' P.fit s → held e = .error e' → e'.Hosted give P.fit s) :
    P.Agrees give m (wrap body) (wrap body') W := by
  cases h with
  | ended a m' hp hq hl hv => exact .ended done m' (hdone hp) (hdone hq) hl (hWdone m')
  | exited e m' hp hq hl he =>
    have hrun := hheld hp
    have hrun' := hheld hq
    cases hresult : held e with
    | ok b =>
      rw [hresult] at hrun hrun'
      exact .ended b m' hrun hrun' hl (hWheld e m' b he hresult)
    | error e' =>
      rw [hresult] at hrun hrun'
      exact .exited e' m' hrun hrun' hl (hexit e _ e' he hresult)
  | spared f m' hp hidle =>
    obtain ⟨f', hf'⟩ := hfault f
    have hrun := hheld hp
    rw [hf'] at hrun
    exact .spared f' m' hrun hidle

section

variable {body body' : Run Unit} {V : Unit → Machine → Prop}

theorem result (h : P.Agrees True m body body' V) :
    P.Agrees give m (Run.result body) (Run.result body') P.value := by
  apply held .none Exit.inFunction Run.result_of_ok Run.result_of_error (fun f => ⟨f, rfl⟩) h
    (fun _ => trivial)
  · rintro e m' v he hv
    cases e <;> cases hv
    exact he.2
  · rintro e s e' he hexit
    cases e <;> cases hexit <;> trivial

theorem turn (h : P.Agrees give m body body' V) :
    P.Agrees give m (Run.turn body) (Run.turn body') fun _ _ => True := by
  apply held true Exit.inLoop Run.turn_of_ok Run.turn_of_error (fun f => ⟨f, rfl⟩) h
    (fun _ => trivial) (fun _ _ _ _ _ => trivial)
  rintro e s e' he hexit
  cases e <;> cases hexit <;> exact he

theorem attempt (h : P.Agrees give m body body' V) :
    P.Agrees give m (Run.attempt body) (Run.attempt body') fun _ _ => True := by
  apply held none Exit.inAttempt Run.attempt_of_ok Run.attempt_of_error (fun f => ⟨f, rfl⟩) h
    (fun _ => trivial) (fun _ _ _ _ _ => trivial)
  rintro e s e' he hexit
  cases e with
  | error d =>
    unfold Exit.inAttempt at hexit
    dsimp only at hexit
    split at hexit <;> cases hexit
    trivial
  | _ =>
    cases hexit
    exact he

theorem guardImport (h : P.Agrees True m body body' V) :
    P.Agrees give m (Run.guardImport body) (Run.guardImport body') fun _ _ => True := by
  apply held () Exit.inImport _ _ _ h (fun _ => trivial) (fun _ _ _ _ _ => trivial)
  · rintro e s e' he hexit
    cases e with
    | fault f => cases f <;> cases hexit <;> trivial
    | _ =>
      cases hexit
      trivial
  · intro body m m' hbody
    simp only [Run.guardImport, hbody]
  · intro body m e m' hbody
    cases e with
    | fault f => cases f <;> simp only [Run.guardImport, hbody] <;> rfl
    | _ =>
      simp only [Run.guardImport, hbody]
      rfl
  · intro f
    cases f <;> exact ⟨_, rfl⟩

end

theorem lift (r : Except Fault α) (hm : P.Sound m) :
    P.Agrees give m (Run.lift r) (Run.lift r) fun _ _ => True := by
  cases r with
  | ok a => exact pure hm trivial
  | error f => exact fault f hm

theorem text (v : Value) (hm : P.Sound m) :
    P.Agrees give m (Run.text v) (Run.text v) fun _ _ => True :=
  get (lift (m.heap.text v) hm)

theorem isTrue (v : Value) (hm : P.Sound m) :
    P.Agrees give m (Run.isTrue v) (Run.isTrue v) fun _ _ => True :=
  get (pure (a := m.heap.isTrue v) hm trivial)

theorem object? (v : Value) (hm : P.Sound m) :
    P.Agrees give m (Run.object? v) (Run.object? v) fun o? m' =>
      ∀ o, o? = some o → o.Hosted P.fit m'.scopes := by
  unfold Run.object?
  split
  · exact get (pure (a := m.heap.object? _) hm fun o ho => hm.values.heap.object ho)
  · refine pure hm fun o ho => ?_
    cases ho

theorem find? (x : String) (hm : P.Sound m) :
    P.Agrees give m (Run.find? x) (Run.find? x) fun v? m' =>
      v? = m.scopes.get? m.current x ∧ ∀ v, v? = some v → P.value v m' := by
  refine get (pure (a := m.scopes.get? m.current x) hm ⟨rfl, fun v hv => ?_⟩)
  obtain ⟨o, ho⟩ := Scopes.mem_of_get? hv
  exact hm.values.bound o _ ho

/-- A name that has no meaning can only be referred to where both runs deal with that alike. -/
theorem unresolved {u : Option Fault} {otherwise : Run α} (hfree : P.free)
    (h : P.Agrees give m otherwise otherwise V) (hm : P.Sound m) :
    P.Agrees give m (Run.unresolved u otherwise) (Run.unresolved (P.unbound u) otherwise) V := by
  rw [P.unbound_of_free hfree]
  cases u with
  | some f => exact fault f hm
  | none => exact h

theorem lookup {u : Option Fault} {x : String} (hm : P.At names m)
    (hx : P.Fits (introduced names x)) :
    P.Agrees give m (Run.lookup u x) (Run.lookup (P.unbound u) x) P.value := by
  refine get ?_
  have htwin : (P.twin m).scopes.get (P.twin m).current x none = m.scopes.get m.current x none :=
    rfl
  rw [htwin, Scopes.get]
  cases hget : m.scopes.get? m.current x with
  | some v =>
    obtain ⟨o, ho⟩ := Scopes.mem_of_get? hget
    exact pure hm.sound (hm.sound.values.bound o _ ho)
  | none =>
    rcases hx with hfree | hx
    · exact unresolved hfree (error _ hm.sound) hm.sound
    · obtain ⟨v, hv⟩ := Scopes.get?_of_isBound (hm.known x (List.contains_iff_mem.mp hx))
      cases hget.symm.trans hv

theorem bindArguments (what : String) (parameters : List String) {args : List Value} (line : Nat)
    (hm : P.Sound m) (hargs : ∀ v ∈ args, P.value v m) :
    P.Agrees give m (Run.bindArguments what parameters args line)
      (Run.bindArguments what parameters args line) fun bindings m' =>
        bindings.map Prod.fst = parameters ∧ ∀ b ∈ bindings, P.value b.2 m' := by
  unfold Run.bindArguments
  dsimp only
  split
  · exact error _ hm
  · rename_i hcount
    have hlength : args.length = parameters.length := by simpa using hcount
    refine pure hm ⟨List.map_fst_zip (Nat.le_of_eq hlength.symm), fun b hb => ?_⟩
    exact hargs b.2 (List.of_mem_zip hb).2

theorem checkKey (key : Value) (line : Nat) (hm : P.Sound m) :
    P.Agrees give m (Run.checkKey key line) (Run.checkKey key line) fun _ _ => True :=
  ite (pure hm trivial) (error _ hm)

theorem noEntry (place : Value) (hm : P.Sound m) :
    P.Agrees give m (Run.noEntry place) (Run.noEntry place) V :=
  (text place hm).bind fun _ _ hl _ => fault _ hl.sound

theorem objectFor (what : String) (v : Value) (line : Nat) (hm : P.Sound m) :
    P.Agrees give m (Run.objectFor what v line) (Run.objectFor what v line) fun o m' =>
      o.Hosted P.fit m'.scopes := by
  refine (object? v hm).bind fun o? m' hl ho => ?_
  cases o? with
  | some o => exact pure hl.sound (ho o rfl)
  | none => exact error _ hl.sound

theorem thisObject (line : Nat) (hm : P.Sound m) :
    P.Agrees give m (Run.thisObject line) (Run.thisObject line) P.value := by
  refine (find? _ hm).bind fun v? m' hl hv => ?_
  split
  · exact pure hl.sound trivial
  · exact error _ hl.sound
  · exact error _ hl.sound

theorem superMethod (x : String) (line : Nat) (hm : P.Sound m) :
    P.Agrees give m (Run.superMethod x line) (Run.superMethod x line) fun r m' =>
      r.1.Hosted P.fit m'.scopes ∧ P.value r.2 m' := by
  refine (find? _ hm).bind fun this? m₁ hl₁ hthis => ?_
  split
  · rename_i this
    refine (object? this hl₁.sound).bind fun o? m₂ hl₂ ho => ?_
    split
    · rename_i o
      dsimp only
      split
      · rename_i parent hparent
        split
        · rename_i f hf
          have hclass := ClassValue.hosted_parent (ho o rfl).1 hparent
          have hsound := ClassValue.hosted_method hclass hf
          exact pure hl₂.sound ⟨hsound, value_leads (hthis.2 this rfl) hl₂⟩
        · exact fault _ hl₂.sound
      · exact error _ hl₂.sound
    · exact error _ hl₂.sound
  · exact error _ hl₁.sound

theorem entryOf {d : Dict} (key : Value) (hm : P.Sound m)
    (hd : ∀ e ∈ d, P.value e.1 m ∧ P.value e.2 m) :
    P.Agrees give m (Run.entryOf d key) (Run.entryOf d key) P.value := by
  refine ite ((fault (V := fun _ _ => False) _ hm).bind fun _ _ _ h => h.elim) ?_
  split
  · rename_i v hv
    obtain ⟨e, he, rfl⟩ := Dict.mem_of_value? hv
    exact pure hm (hd e he).2
  · exact noEntry _ hm

theorem itemOf {items : Array Value} (place : Value) (line : Nat) (hm : P.Sound m)
    (hitems : ∀ v ∈ items, P.value v m) :
    P.Agrees give m (Run.itemOf items place line) (Run.itemOf items place line) P.value := by
  unfold Run.itemOf
  split
  · split
    · exact pure hm (Gives.getD_mem hitems trivial _)
    · exact noEntry _ hm
  · exact error _ hm

theorem indexInto (v place : Value) (line : Nat) (hm : P.Sound m) :
    P.Agrees give m (Run.indexInto v place line) (Run.indexInto v place line) P.value := by
  unfold Run.indexInto
  split
  · exact get (entryOf place hm (hm.values.heap.dict _))
  · exact get (itemOf place line hm (hm.values.heap.list _))
  · refine itemOf place line hm fun v hv => ?_
    obtain ⟨c, -, rfl⟩ := List.mem_map.mp (List.mem_toArray.mp hv)
    trivial
  · exact error _ hm

/-- What `p` does is up to `w`, which sees nothing but the heap. -/
theorem heaped {ε : Type} {w : EStateM ε Heap α} {Q : α → Prop}
    (hok : ∀ {m : Machine} {a heap}, w m.heap = .ok a heap → p m = .ok a { m with heap })
    (herror : ∀ {err heap heap'}, w heap = .error err heap' → ∃ e : Exit,
      (∀ s, e.Hosted give P.fit s) ∧
      ∀ {m : Machine}, m.heap = heap → p m = .error e { m with heap := heap' })
    (hm : P.Sound m) (hw : Gives (Value.Hosted P.fit m.scopes) w Q)
    (hV : ∀ a heap, Q a → V a { m with heap }) : P.Agrees give m p p V := by
  have hgives := hw m.heap hm.values.heap
  cases hrun : w m.heap with
  | ok a heap =>
    have hrun' : w (P.twin m).heap = .ok a heap := hrun
    rw [finalState_ok hrun] at hgives
    exact .ended a _ (hok hrun) (hok hrun') (hm.heap hgives.1) (hV a heap (hgives.2 a heap hrun))
  | error err heap =>
    obtain ⟨e, he, hexit⟩ := herror hrun
    rw [finalState_error hrun] at hgives
    exact .exited e _ (hexit rfl) (hexit rfl) (hm.heap hgives.1) (he _)

theorem work {w : Work α} {Q : α → Prop} (hm : P.Sound m)
    (hw : Gives (Value.Hosted P.fit m.scopes) w Q) (hV : ∀ a heap, Q a → V a { m with heap }) :
    P.Agrees give m (Run.work w) (Run.work w) V := by
  refine heaped (fun hrun => ?_) (fun {f _ _} hrun => ?_) hm hw hV
  · simp only [Run.work, hrun]
  · exact ⟨.fault f, fun _ => trivial, fun hheap => by simp only [Run.work, hheap, hrun]⟩

/-- A computation on the heap whose result is no function or class. -/
theorem plain {w : Work Value} (hm : P.Sound m)
    (hw : Gives (Value.Hosted P.fit m.scopes) w fun v => v.isPlain = true) :
    P.Agrees give m (Run.work w) (Run.work w) P.value :=
  work hm hw fun _ _ hv => value_of_isPlain hv

theorem binary (lang : Lang) (op : BinaryOp) (a b : Value) (line : Nat) (hm : P.Sound m) :
    P.Agrees give m (Run.binary lang op a b line) (Run.binary lang op a b line) P.value := by
  have hw := Gives.binary (P := Value.Hosted P.fit m.scopes) op a b
  cases op
  case unknown symbol => exact error _ hm
  all_goals
    refine heaped (fun hrun => ?_) (fun hrun => ?_) hm hw fun _ _ hv => value_of_isPlain hv
    · unfold Run.binary
      simp only [hrun]
    · unfold Run.binary
      exact ⟨.error _, fun _ => trivial, fun hheap => by simp only [hheap, hrun]; rfl⟩

theorem unary (op : UnaryOp) (v : Value) (line : Nat) (hm : P.Sound m) :
    P.Agrees give m (Run.unary op v line) (Run.unary op v line) P.value := by
  cases op with
  | negate =>
    unfold Run.unary
    dsimp only
    split
    · exact plain hm (Gives.number _)
    · exact error _ hm
  | not => exact (isTrue v hm).bind fun _ _ hl _ => pure hl.sound trivial
  | unknown symbol => exact error _ hm

theorem applyBuiltin (b : Builtin) (name : String) {args : List Value} (line : Nat)
    (hm : P.Sound m) (hargs : ∀ v ∈ args, P.value v m) :
    P.Agrees give m (Run.applyBuiltin b name args line) (Run.applyBuiltin b name args line)
      P.value := by
  have hw := Gives.apply b (Value.hosted_of_isPlain P.fit m.scopes) hargs
  refine heaped (fun hrun => ?_) (fun {err _ _} hrun => ?_) hm hw fun _ _ hv => hv
  · simp only [Run.applyBuiltin, hrun]
  · cases err with
    | diagnostic d =>
      exact ⟨.error d, fun _ => trivial, fun hheap => by simp only [Run.applyBuiltin, hheap, hrun]⟩
    | fault f =>
      exact ⟨.error _, fun _ => trivial, fun hheap => by
        simp only [Run.applyBuiltin, hheap, hrun]
        rfl⟩

theorem assignIndex (v : Value) {place value : Value} (line : Nat) (hm : P.Sound m)
    (hplace : P.value place m) (hvalue : P.value value m) :
    P.Agrees give m (Run.assignIndex v place value line) (Run.assignIndex v place value line)
      fun _ _ => True := by
  unfold Run.assignIndex
  split
  · refine (checkKey place line hm).bind fun _ m' hl _ => ?_
    refine work hl.sound (Gives.setDict _ fun d hd => ?_) fun _ _ _ => trivial
    exact Dict.all_insert hd (value_leads hplace hl) (value_leads hvalue hl)
  · rename_i i
    split
    · rename_i n _
      refine get ?_
      have htwin : (P.twin m).heap.list i = m.heap.list i := rfl
      rw [htwin]
      cases Builtin.position? (m.heap.list i).size n with
      | some k =>
        refine work hm (Gives.setList i fun vs hvs w hw => ?_) fun _ _ _ => trivial
        rcases Array.mem_or_eq_of_mem_setIfInBounds hw with hw | rfl
        · exact hvs w hw
        · exact hvalue
      | none => exact noEntry _ hm
    · exact error _ hm
  · exact error _ hm

theorem modified {f : Machine → Machine} (hf : ∀ m, f (P.twin m) = P.twin (f m))
    (hl : P.Leads m (f m)) {V : Unit → Machine → Prop} (hv : V () (f m)) :
    P.Agrees give m (modify f) (modify f) V :=
  .ended () (f m) rfl (congrArg (EStateM.Result.ok ()) (hf m)) hl hv

end Agrees

/-- Binding a sound value in any scope keeps the machine sound. -/
theorem Sound.define (h : P.Sound m) (i : Nat) (x : String) {v : Value}
    (hv : P.value v { m with scopes := m.scopes.define i x v }) :
    P.Leads m { m with scopes := m.scopes.define i x v } := by
  have hgrows := Scopes.grows_define m.scopes i x v
  refine ⟨rfl, hgrows, ⟨?_, fun j e he => ?_, ?_⟩, h.input, P.upkeep.define h.kept i x v⟩
  · exact hgrows.size h.values.present
  · rcases Scopes.of_mem_bindings_define he with hev | he
    · rw [hev]
      exact hv
    · exact (h.values.bound j e he).grows hgrows
  · exact h.values.heap.imp fun w hw => hw.grows hgrows

namespace Agrees

variable {p q : Run α} {V : α → Machine → Prop}

theorem define (x : String) {v : Value} (hm : P.Sound m)
    (hv : P.value v { m with scopes := m.scopes.define m.current x v }) :
    P.Agrees give m (Run.define x v) (Run.define x v) (brings [x]) := by
  apply modified
  · exact fun _ => rfl
  · exact hm.define _ _ hv
  · intro y hy
    rw [List.mem_singleton.mp hy]
    exact Scopes.isBound_define_self hm.values.present v

theorem assign (x : String) {v : Value} (hm : P.Sound m) (hv : P.value v m) :
    P.Agrees give m (Run.assign x v) (Run.assign x v) (brings [x]) := by
  have hgrows := Scopes.grows_define m.scopes ((m.scopes.owner? m.current x).getD m.current) x v
  rw [Run.assign_eq]
  apply modified
  · exact fun _ => rfl
  · exact hm.define _ _ (hv.grows hgrows)
  · intro y hy
    rw [List.mem_singleton.mp hy]
    cases ho : m.scopes.owner? m.current x with
    | some o =>
      have hx : m.scopes.isBound m.current x = true := by rw [Scopes.isBound_eq_isSome, ho]; rfl
      simpa only [ho] using hgrows.isBound hm.values.present hx
    | none => exact Scopes.isBound_define_self hm.values.present v

theorem reassign {u : Option Fault} {x : String} {v : Value} (hm : P.At names m)
    (hx : P.Fits (introduced names x)) (hv : P.value v m) :
    P.Agrees give m (Run.reassign u x v) (Run.reassign (P.unbound u) x v) (brings [x]) := by
  rw [Run.reassign_eq, Run.reassign_eq]
  refine get ?_
  have htwin : (P.twin m).scopes.owner? (P.twin m).current x = m.scopes.owner? m.current x := rfl
  rw [htwin]
  cases ho : m.scopes.owner? m.current x with
  | some o =>
    have hgrows := Scopes.grows_define m.scopes o x v
    apply modified
    · exact fun _ => rfl
    · exact hm.sound.define _ _ (hv.grows hgrows)
    · intro y hy
      rw [List.mem_singleton.mp hy]
      refine hgrows.isBound hm.sound.values.present ?_
      rw [Scopes.isBound_eq_isSome, ho]
      rfl
  | none =>
    rcases hx with hfree | hx
    · exact unresolved hfree (error _ hm.sound) hm.sound
    · have hbound := hm.known x (List.contains_iff_mem.mp hx)
      rw [Scopes.isBound_eq_isSome, ho] at hbound
      cases hbound

theorem classNamed {u : Option Fault} {x : String} (line : Nat) (hm : P.At names m)
    (hx : P.Fits (introduced names x)) :
    P.Agrees give m (Run.classNamed u x line) (Run.classNamed (P.unbound u) x line) fun c m' =>
      P.value (.classValue c) m' := by
  refine (lookup hm hx).bind fun v m' hl hv => ?_
  split
  · exact pure hl.sound hv
  · exact error _ hl.sound

theorem write (s : String) (hm : P.Sound m) :
    P.Agrees give m (Run.write s) (Run.write s) fun _ _ => True := by
  have hvalues := hm.values
  apply modified
  · intro m
    simp only [twin, String.append_assoc]
  · exact ⟨rfl, .refl _, ⟨hvalues.present, hvalues.bound, hvalues.heap⟩, hm.input, hm.kept⟩
  · trivial

theorem readLine (atEnd : Fault) (hm : P.Sound m) :
    P.Agrees give m (Run.readLine atEnd) (Run.readLine atEnd) fun _ _ => True := by
  have hrun := Run.readLine_run atEnd
  rcases P.input_or_idle with hidle | hsame
  · refine .spared atEnd m ?_ hidle
    rw [hrun, hm.input hidle]
    rfl
  · have htwin : (P.twin m).input = m.input := hsame m.input
    by_cases hempty : m.input.isEmpty = true
    · refine .exited (.fault atEnd) m ?_ ?_ (.refl hm) trivial
      · rw [hrun, if_pos hempty]
      · rw [hrun, htwin, if_pos hempty]
    · have hvalues := hm.values
      refine .ended (String.ofList (m.input.takeWhile (· != '\n')))
        { m with input := (m.input.dropWhile (· != '\n')).drop 1 } ?_ ?_
        ⟨rfl, .refl _, ⟨hvalues.present, hvalues.bound, hvalues.heap⟩, ?_, hm.kept⟩ trivial
      · rw [hrun, if_neg hempty]
      · rw [hrun, htwin, if_neg hempty]
        simp only [twin, hsame]
      · intro hidle
        rw [hm.input hidle] at hempty
        cases hempty rfl

theorem print (vs : List Value) (hm : P.Sound m) :
    P.Agrees give m (Run.print vs) (Run.print vs) fun _ _ => True :=
  get ((lift (vs.mapM m.heap.printed) hm).bind fun _ _ hl _ => write _ hl.sound)

/-- `wrap` runs its body at another place and goes back from there. -/
theorem moved {wrap : Run α → Run α} {body body' : Run α} (there : Machine → Machine)
    (back : Machine → Machine → Machine)
    (hok : ∀ {body m a m'}, body (there m) = .ok a m' → wrap body m = .ok a (back m m'))
    (herror : ∀ {body m e m'}, body (there m) = .error e m' → wrap body m = .error e (back m m'))
    (hthere : there (P.twin m) = P.twin (there m))
    (hback : ∀ m', back (P.twin m) (P.twin m') = P.twin (back m m'))
    (h : P.Agrees give (there m) body body' V)
    (hleads : ∀ m', P.Leads (there m) m' → P.Leads m (back m m'))
    (hscopes : ∀ m', (back m m').scopes = m'.scopes)
    (hV : ∀ a m', V a m' → V a (back m m')) : P.Agrees give m (wrap body) (wrap body') V := by
  cases h with
  | ended a m' hp hq hl hv =>
    rw [← hthere] at hq
    exact .ended a _ (hok hp) (by rw [hok hq, hback]) (hleads m' hl) (hV a m' hv)
  | exited e m' hp hq hl he =>
    rw [← hthere] at hq
    exact .exited e _ (herror hp) (by rw [herror hq, hback]) (hleads m' hl) (by rwa [hscopes])
  | spared f m' hp hidle => exact .spared f _ (herror hp) hidle

theorem called {body body' : Run Value} (name : String)
    (h : P.Agrees give { m with calls := name :: m.calls } body body' P.value) :
    P.Agrees give m (Run.called name body) (Run.called name body') P.value := by
  refine moved (fun m => { m with calls := name :: m.calls })
    (fun _ m' => { m' with calls := m'.calls.tail }) (fun hbody => ?_) (fun hbody => ?_) rfl
    (fun _ => rfl) h (fun m' hl => ?_) (fun _ => rfl) fun _ _ hv => hv
  · simp only [Run.called, hbody]
  · simp only [Run.called, hbody]
  · have hvalues := hl.sound.values
    exact ⟨hl.current, hl.grows, ⟨hvalues.present, hvalues.bound, hvalues.heap⟩, hl.sound.input,
      P.upkeep.back hl.sound.kept⟩

theorem newScope {parent : Nat} {bindings : List (String × Value)} (hm : P.Sound m)
    (hparent : parent < m.scopes.all.size) (hbindings : ∀ b ∈ bindings, P.value b.2 m) :
    P.Agrees give m (Run.newScope parent bindings) (Run.newScope parent bindings) fun i m' =>
      i = m.scopes.all.size ∧ m'.scopes = m.scopes.enclose parent bindings ∧
        m'.calls = m.calls := by
  have hrun := Run.newScope_run parent bindings m
  have hrun' := Run.newScope_run parent bindings (P.twin m)
  have hgrows := Scopes.grows_enclose m.scopes parent bindings
  by_cases hdeep : Scopes.depthLimit < m.scopes.innerDepth (some parent)
  · rw [if_pos hdeep] at hrun
    exact .exited _ m hrun (hrun'.trans (if_pos hdeep)) (.refl hm) trivial
  · rw [if_neg hdeep] at hrun
    have hkept := P.upkeep.enclose hm.kept hparent hdeep bindings
    refine .ended _ _ hrun (hrun'.trans (if_neg hdeep))
      ⟨rfl, hgrows, ⟨hgrows.size hm.values.present, fun j e he => ?_, ?_⟩, hm.input, hkept⟩
      ⟨rfl, rfl, rfl⟩
    · rcases Scopes.of_mem_bindings_enclose he with ⟨b, hb, hev⟩ | he
      · rw [hev]
        exact (hbindings b hb).grows hgrows
      · exact (hm.values.bound j e he).grows hgrows
    · exact hm.values.heap.imp fun w hw => hw.grows hgrows

/-- A body in a new scope knows the names of that scope and those around it. -/
theorem entered {body body' : Run α} (names : List String) {parent : Nat}
    {bindings : List (String × Value)} (hm : P.Sound m) (hparent : parent < m.scopes.all.size)
    (hbindings : ∀ b ∈ bindings, P.value b.2 m)
    (hnames : ∀ x ∈ names, x ∈ bindings.map Prod.fst ∨ m.scopes.isBound parent x = true)
    (hbody : ∀ m', P.At names m' → m'.calls = m.calls → P.Agrees give m' body body' V)
    (hV : ∀ a m' current, V a m' → V a { m' with current }) :
    P.Agrees give m (do let scope ← Run.newScope parent bindings; Run.within scope body)
      (do let scope ← Run.newScope parent bindings; Run.within scope body') V := by
  refine (newScope hm hparent hbindings).bind fun i m₁ hl₁ hscope => ?_
  obtain ⟨rfl, hscopes, hcalls⟩ := hscope
  have hvalues := hl₁.sound.values
  have hinner : P.At names { m₁ with current := m.scopes.all.size } := by
    refine ⟨⟨⟨?_, hvalues.bound, hvalues.heap⟩, hl₁.sound.input, hl₁.sound.kept⟩, fun x hx => ?_⟩
    · simp only [hscopes, Scopes.size_enclose, Nat.lt_succ_self]
    · simp only [hscopes]
      exact Scopes.isBound_enclose (hnames x hx)
  refine moved (fun m₁ => { m₁ with current := m.scopes.all.size })
    (fun m m' => { m' with current := m.current }) (fun hrun => ?_) (fun hrun => ?_) rfl
    (fun _ => rfl) (hbody _ hinner hcalls) (fun m' hl => ?_) (fun _ => rfl)
    fun a m' hv => hV a m' _ hv
  · simp only [Run.within, hrun]
  · simp only [Run.within, hrun]
  · have hvalues' := hl.sound.values
    have hpresent := Scopes.Grows.size hl.grows hvalues.present
    exact ⟨rfl, hl.grows, ⟨hpresent, hvalues'.bound, hvalues'.heap⟩, hl.sound.input,
      hl.sound.kept⟩

end Agrees

end Pairing

end Bhasha
