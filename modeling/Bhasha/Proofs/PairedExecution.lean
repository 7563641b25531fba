import Bhasha.Proofs.Finalizers
import Bhasha.Proofs.RunPairs

namespace Bhasha

/-- A function that is defined in the scope. -/
def FunctionDef.closure (f : FunctionDef) (scope : Nat) : Closure :=
  { name := f.name, parameters := f.parameters, body := f.body, scope }

theorem Run.of_mem_methodsOf {fs : List FunctionDef} {scope : Nat} {e : String × Closure}
    (h : e ∈ Run.methodsOf fs scope) : ∃ f ∈ fs, e.2 = f.closure scope := by
  have hfold (gs : List FunctionDef) (ms : Bindings Closure) (hgs : ∀ g ∈ gs, g ∈ fs)
      (hms : ∀ e ∈ ms, ∃ f ∈ fs, e.2 = f.closure scope) :
      ∀ e ∈ gs.foldl (fun ms f => ms.bind f.name (f.closure scope)) ms,
        ∃ f ∈ fs, e.2 = f.closure scope := by
    induction gs generalizing ms with
    | nil => exact hms
    | cons g gs ih =>
      obtain ⟨hg, hgs⟩ := List.forall_mem_cons.mp hgs
      refine ih _ hgs fun e he => ?_
      rcases Bindings.of_mem_bind he with heq | he
      · exact ⟨g, hg, heq⟩
      · exact hms e he
  exact hfold fs [] (fun _ hg => hg) nofun e h

def Task.carriedOut (c : Context) : Task → Run Value
  | .statements ss => do
    Exec.stmts c ss
    return .none
  | .expression e => Eval.expr c e

theorem perform_succ (s : Setting) (n : Nat) (t : Task) :
    perform s (n + 1) t = t.carriedOut { s with perform := perform s n, turns := n } := by
  cases t <;> rfl

namespace Pairing

variable {P : Pairing} {give : Prop} {m : Machine} {names : List String}

theorem At.enter (h : P.At names m) {calls : List String} (hkept : P.upkeep.holds m.scopes calls) :
    P.At names { m with calls } :=
  ⟨⟨⟨h.sound.values.present, h.sound.values.bound, h.sound.values.heap⟩, h.sound.input, hkept⟩,
    h.known⟩

/-- The two ways to enter bodies agree about every body that fits. -/
def Performs (P : Pairing) (p q : Task → Run Value) : Prop :=
  ∀ {t k m}, P.At k.bound m → P.fit k t → P.Agrees t.gives m (p t) (q t) P.value

/-- The first run is in the context `c`, and the second enters bodies by `q`. -/
structure Drives (P : Pairing) (c : Context) (q : Task → Run Value) : Prop where
  performs : P.Performs c.perform q
  limits : P.upkeep.limits c.maxCallDepth

namespace Agrees

theorem truth {p p' : Run Value} (h : P.Agrees give m p p' P.value) :
    P.Agrees give m (do return .bool (← Run.isTrue (← p)))
      (do return .bool (← Run.isTrue (← p'))) P.value :=
  h.bind fun v _ hl _ => (isTrue v hl.sound).bind fun _ _ hl' _ => pure hl'.sound trivial

/-- A body that the scope around it hosts fits once its parameters are bound. -/
theorem hosted {body body' : Run Value} {parent : Nat} {ps : List String} {t : Task}
    {bindings : List (String × Value)} (hm : P.Sound m)
    (hhosts : m.scopes.Hosts P.fit parent ps t) (hps : ∀ x ∈ ps, x ∈ bindings.map Prod.fst)
    (hbindings : ∀ b ∈ bindings, P.value b.2 m)
    (hbody : ∀ {k m'}, P.At k.bound m' → P.fit k t → m'.calls = m.calls →
      P.Agrees give m' body body' P.value) :
    P.Agrees give m (do let scope ← Run.newScope parent bindings; Run.within scope body)
      (do let scope ← Run.newScope parent bindings; Run.within scope body') P.value := by
  obtain ⟨hparent, k, hk, hfits⟩ := hhosts
  refine entered (k.bind ps).bound hm hparent hbindings (fun x hx => ?_)
    (fun m' hm' => hbody hm' hfits) fun _ _ _ hv => hv
  exact (List.mem_append.mp hx).imp (hps x) (hk x)

variable {c : Context} {q : Task → Run Value} (hc : P.Drives c q)
include hc

theorem callFunction {f : Closure} {args : List Value} (line : Nat) (hm : P.Sound m)
    (hf : f.Hosted P.fit m.scopes) (hargs : ∀ v ∈ args, P.value v m) :
    P.Agrees give m (Run.callFunction c f args line) (Run.callFunction (P.second c q) f args line)
      P.value := by
  refine (bindArguments _ _ line hm hargs).bind fun bindings m₁ hl₁ hb => get ?_
  -- Past the check the call is below the limit, which the upkeep may rely on.
  refine ite_of_not ((fault (V := fun _ _ => False) _ hl₁.sound).bind fun _ _ _ h => h.elim)
    fun hdepth => ?_
  refine hosted hl₁.sound (hf.grows hl₁.grows) (fun x hx => hb.1.symm ▸ hx) hb.2
    fun hm' hfits hcalls => called f.name ?_
  have hkept := P.upkeep.call hm'.sound.kept hc.limits (hcalls ▸ hdepth) f.name
  exact (hc.performs (hm'.enter hkept) hfits).discard.result

theorem callLambda {f : Lambda} {args : List Value} (line : Nat) (hm : P.Sound m)
    (hf : P.value (.lambda f) m) (hargs : ∀ v ∈ args, P.value v m) :
    P.Agrees give m (Run.callLambda c f args line) (Run.callLambda (P.second c q) f args line)
      P.value := by
  refine (bindArguments _ _ line hm hargs).bind fun bindings m₁ hl₁ hb => ?_
  exact hosted hl₁.sound (value_leads hf hl₁) (fun x hx => hb.1.symm ▸ hx) hb.2
    fun hm' hfits _ => (hc.performs hm' hfits).loosen

theorem callMethod (what : String) {f : Closure} {this : Value} {args : List Value} (line : Nat)
    (hm : P.Sound m) (hf : f.Hosted P.fit m.scopes) (hthis : P.value this m)
    (hargs : ∀ v ∈ args, P.value v m) :
    P.Agrees give m (Run.callMethod c what f this args line)
      (Run.callMethod (P.second c q) what f this args line) P.value := by
  refine (bindArguments _ _ line hm hargs).bind fun bindings m₁ hl₁ hb => ?_
  refine hosted hl₁.sound (hf.grows hl₁.grows) (fun x hx => ?_) (fun b hb' => ?_)
    fun hm' hfits _ => (hc.performs hm' hfits).discard.result
  · exact List.mem_cons_of_mem _ (hb.1.symm ▸ hx)
  · rcases List.mem_cons.mp hb' with rfl | hb'
    · exact value_leads hthis hl₁
    · exact hb.2 b hb'

theorem call (name : String) {f : Value} {args : List Value} (line : Nat) (hm : P.Sound m)
    (hf : P.value f m) (hargs : ∀ v ∈ args, P.value v m) :
    P.Agrees give m (Run.call c name f args line) (Run.call (P.second c q) name f args line)
      P.value := by
  cases f with
  | builtin b => exact applyBuiltin b name line hm hargs
  | function f => exact callFunction hc line hm hf hargs
  | lambda f => exact callLambda hc line hm hf hargs
  | _ => exact error _ hm

end Agrees

section

variable {c : Context} {q : Task → Run Value}

/-- What holds of a list of arguments. -/
def values (P : Pairing) (vs : List Value) (m : Machine) : Prop :=
  ∀ v ∈ vs, P.value v m

def entries (P : Pairing) (d : Dict) (m : Machine) : Prop :=
  ∀ e ∈ d, P.value e.1 m ∧ P.value e.2 m

open Agrees

mutual

theorem agrees_expr (hc : P.Drives c q) : ∀ e {k m}, P.At k.bound m →
    P.Fits (e.admitted P.rule k) →
    P.Agrees give m (Eval.expr c e) (Eval.expr (P.second c q) e) P.value
  | .literal _ v _, _, _, hm, _ => by
    rw [Eval.expr, Eval.expr]
    exact plain hm.sound (Gives.scalar v)
  | .list es _, k, m, hm, h => by
    rw [Eval.expr, Eval.expr]
    refine (agrees_exprs hc es hm h).bind fun vs m' hl hvs => plain hl.sound (Gives.newList ?_)
    exact fun v hv => hvs v (List.mem_toArray.mp hv)
  | .dict ps l, k, m, hm, h => by
    rw [Eval.expr, Eval.expr]
    refine (agrees_entries hc l ps hm h (by simp [entries])).bind fun d m' hl hd => ?_
    exact plain hl.sound (Gives.newDict hd)
  | .var x _, k, m, hm, h => by
    rw [Eval.expr, Eval.expr]
    exact lookup hm h
  | .binary op a b l, k, m, hm, h => by
    obtain ⟨ha, hb⟩ := Fits.of_and h
    by_cases hor : op = .or
    · subst hor
      rw [Eval.expr, Eval.expr]
      refine (agrees_expr hc a hm ha).bind fun left m₁ hl₁ hleft => ?_
      refine (isTrue left hl₁.sound).bind fun t m₂ hl₂ _ => ?_
      exact ite (pure hl₂.sound trivial) (agrees_expr hc b (hm.leads (hl₁.trans hl₂)) hb).truth
    · by_cases hand : op = .and
      · subst hand
        rw [Eval.expr, Eval.expr]
        refine (agrees_expr hc a hm ha).bind fun left m₁ hl₁ hleft => ?_
        refine (isTrue left hl₁.sound).bind fun t m₂ hl₂ _ => ?_
        exact ite (pure hl₂.sound trivial) (agrees_expr hc b (hm.leads (hl₁.trans hl₂)) hb).truth
      · rw [expr_binary hor hand, expr_binary hor hand]
        refine (agrees_expr hc a hm ha).bind fun left m₁ hl₁ _ => ?_
        refine (agrees_expr hc b (hm.leads hl₁) hb).bind fun right m₂ hl₂ _ => ?_
        exact binary c.lang op left right l hl₂.sound
  | .unary op a l, k, m, hm, h => by
    rw [Eval.expr, Eval.expr]
    exact (agrees_expr hc a hm h).bind fun v _ hl _ => unary op v l hl.sound
  | .paren a _, k, m, hm, h => by
    rw [Eval.expr, Eval.expr]
    exact agrees_expr hc a hm h
  | .call x es l, k, m, hm, h => by
    obtain ⟨hx, hes⟩ := Fits.of_and h
    rw [Eval.expr, Eval.expr]
    refine (find? x hm.sound).bind fun f? m₁ hl₁ hf => ?_
    cases f? with
    | some f =>
      refine (agrees_exprs hc es (hm.leads hl₁) hes).bind fun args m₂ hl₂ hargs => ?_
      exact call hc x l hl₂.sound (value_leads (hf.2 f rfl) hl₂) hargs
    | none =>
      -- Either both runs deal with it alike, or the name is in sight and so has a meaning.
      rcases hx with hfree | hx
      · exact unresolved hfree (fault _ hl₁.sound) hl₁.sound
      · obtain ⟨v, hv⟩ := Scopes.get?_of_isBound (hm.known x (List.contains_iff_mem.mp hx))
        cases hf.1.trans hv
  | .lambda ps b _, k, m, hm, h => by
    rw [Eval.expr, Eval.expr]
    refine get (pure hm.sound ?_)
    exact ⟨hm.sound.values.present, k, hm.known, h⟩
  | .newObject x es l, k, m, hm, h => by
    obtain ⟨h, hes⟩ := Fits.of_and h
    obtain ⟨-, hx⟩ := Fits.of_and h
    rw [Eval.expr, Eval.expr]
    refine (classNamed l hm hx).bind fun cls m₁ hl₁ hcls => ?_
    refine (plain hl₁.sound (Gives.newObject hcls)).bind fun this m₂ hl₂ hthis => ?_
    dsimp only
    cases hinit : cls.method? "__init__" with
    | some f =>
      have hm₂ := hm.leads (hl₁.trans hl₂)
      refine (agrees_exprs hc es hm₂ hes).bind fun args m₃ hl₃ hargs => ?_
      have hf : f.Hosted P.fit m₃.scopes :=
        ClassValue.hosted_method (value_leads (value_leads hcls hl₂) hl₃) hinit
      have hthis₃ := value_leads hthis hl₃
      refine (callMethod hc _ l hl₃.sound hf hthis₃ hargs).bind fun _ m₄ hl₄ _ => ?_
      exact pure hl₄.sound (value_leads hthis₃ hl₄)
    | none => exact pure hl₂.sound hthis
  | .method a x es l, k, m, hm, h => by
    obtain ⟨ha, hes⟩ := Fits.of_and h
    rw [Eval.expr, Eval.expr]
    refine (agrees_expr hc a hm ha).bind fun v m₁ hl₁ hv => ?_
    refine (objectFor _ v l hl₁.sound).bind fun o m₂ hl₂ ho => ?_
    cases hmethod : o.classValue.method? x with
    | some f =>
      refine (agrees_exprs hc es (hm.leads (hl₁.trans hl₂)) hes).bind fun args m₃ hl₃ hargs => ?_
      have hf : f.Hosted P.fit m₃.scopes :=
        ClassValue.hosted_method (Value.Hosted.grows ho.1 hl₃.grows) hmethod
      exact callMethod hc _ l hl₃.sound hf (value_leads hv (hl₂.trans hl₃)) hargs
    | none => exact fault _ hl₂.sound
  | .property a x l, k, m, hm, h => by
    rw [Eval.expr, Eval.expr]
    refine (agrees_expr hc a hm h).bind fun v m₁ hl₁ _ => ?_
    refine (objectFor _ v l hl₁.sound).bind fun o m₂ hl₂ ho => ?_
    cases hfind : o.properties.find? x with
    | some w => exact pure hl₂.sound (ho.2 _ (Bindings.mem_of_find? hfind))
    | none => exact fault _ hl₂.sound
  | .thisObject l, _, _, hm, _ => by
    rw [Eval.expr, Eval.expr]
    exact thisObject l hm.sound
  | .superCall x es l, k, m, hm, h => by
    obtain ⟨-, hes⟩ := Fits.of_and h
    rw [Eval.expr, Eval.expr]
    refine (superMethod x l hm.sound).bind fun r m₁ hl₁ hr => ?_
    refine (agrees_exprs hc es (hm.leads hl₁) hes).bind fun args m₂ hl₂ hargs => ?_
    exact callMethod hc _ l hl₂.sound (hr.1.grows hl₂.grows)
      (value_leads hr.2 hl₂) hargs
  | .index a i l, k, m, hm, h => by
    obtain ⟨ha, hi⟩ := Fits.of_and h
    rw [Eval.expr, Eval.expr]
    refine (agrees_expr hc a hm ha).bind fun v m₁ hl₁ _ => ?_
    refine (agrees_expr hc i (hm.leads hl₁) hi).bind fun place m₂ hl₂ _ => ?_
    exact indexInto v place l hl₂.sound
  | .foreign cls _ l, _, _, hm, _ => by
    rw [Eval.expr, Eval.expr]
    exact error _ hm.sound
termination_by structural e => e

theorem agrees_exprs (hc : P.Drives c q) : ∀ es {k m}, P.At k.bound m →
    P.Fits (Expr.admittedAll P.rule k es) →
    P.Agrees give m (Eval.exprs c es) (Eval.exprs (P.second c q) es) P.values
  | [], _, _, hm, _ => by
    rw [Eval.exprs, Eval.exprs]
    exact pure hm.sound nofun
  | e :: es, k, m, hm, h => by
    obtain ⟨he, hes⟩ := Fits.of_and h
    rw [Eval.exprs, Eval.exprs]
    refine (agrees_expr hc e hm he).bind fun v m₁ hl₁ hv => ?_
    refine (agrees_exprs hc es (hm.leads hl₁) hes).bind fun vs m₂ hl₂ hvs => ?_
    exact pure hl₂.sound (List.forall_mem_cons.mpr ⟨value_leads hv hl₂, hvs⟩)
termination_by structural es => es

theorem agrees_entries (hc : P.Drives c q) (line : Nat) : ∀ ps {k m d}, P.At k.bound m →
    P.Fits (Expr.admittedPairs P.rule k ps) → P.entries d m →
    P.Agrees give m (Eval.entries c line d ps) (Eval.entries (P.second c q) line d ps) P.entries
  | [], _, _, _, hm, _, hd => by
    rw [Eval.entries, Eval.entries]
    exact pure hm.sound hd
  | (a, v) :: ps, k, m, d, hm, h, hd => by
    obtain ⟨hav, hps⟩ := Fits.of_and h
    obtain ⟨ha, hv⟩ := Fits.of_and hav
    rw [Eval.entries, Eval.entries]
    refine (agrees_expr hc a hm ha).bind fun key m₁ hl₁ hkey => ?_
    refine (agrees_expr hc v (hm.leads hl₁) hv).bind fun value m₂ hl₂ hvalue => ?_
    refine (checkKey key line hl₂.sound).bind fun _ m₃ hl₃ _ => ?_
    have hl := (hl₁.trans hl₂).trans hl₃
    refine agrees_entries hc line ps (hm.leads hl) hps (Dict.all_insert (fun e he => ?_) ?_ ?_)
    · exact (hd e he).imp (value_leads · hl) (value_leads · hl)
    · exact value_leads hkey (hl₂.trans hl₃)
    · exact value_leads hvalue hl₃
termination_by structural ps => ps

end

theorem brings_nil (u : Unit) (m : Machine) : brings [] u m := by
  intro x hx
  cases hx

theorem agrees_whileLoop {condition condition' : Run Value} {body body' : Run Unit}
    {V : Unit → Machine → Prop} (limit : Int) (line : Nat)
    (hcond : ∀ {m}, P.At names m → P.Agrees give m condition condition' P.value)
    (hbody : ∀ {m}, P.At names m → P.Agrees give m body body' V) : ∀ n {m}, P.At names m →
    P.Agrees give m (Run.whileLoop limit line condition body n)
      (Run.whileLoop limit line condition' body' n) fun _ _ => True
  | 0, m, hm => by
    refine (hcond hm).bind fun v m₁ hl₁ _ => (isTrue v hl₁.sound).bind fun t m₂ hl₂ _ => ?_
    exact ite (error _ hl₂.sound) (pure hl₂.sound trivial)
  | n + 1, m, hm => by
    refine (hcond hm).bind fun v m₁ hl₁ _ => (isTrue v hl₁.sound).bind fun t m₂ hl₂ _ => ?_
    have hm₂ := hm.leads (hl₁.trans hl₂)
    refine ite ?_ (pure hl₂.sound trivial)
    refine (hbody hm₂).turn.bind fun more m₃ hl₃ _ => ?_
    exact ite (agrees_whileLoop limit line hcond hbody n (hm₂.leads hl₃)) (pure hl₃.sound trivial)

theorem At.bound {x : String} {m' : Machine} (h : P.At names m) (hl : P.Leads m m')
    (hx : brings [x] () m') : P.At (x :: names) m' :=
  (h.leads hl).append hx

theorem agrees_forList {body body' : Run Unit} {V : Unit → Machine → Prop} (x : String)
    (place : Nat) (hbody : ∀ {m}, P.At (x :: names) m → P.Agrees give m body body' V) : ∀ n i {m},
    P.At names m → P.Agrees give m (Run.forList x body place n i) (Run.forList x body' place n i)
      fun _ _ => True
  | 0, _, m, hm => throw hm.sound trivial
  | n + 1, i, m, hm => by
    refine get ?_
    have htwin : (P.twin m).heap.list place = m.heap.list place := rfl
    rw [htwin]
    split
    · exact pure hm.sound trivial
    · rename_i v hv
      have hsound : P.value v m := hm.sound.values.heap.list place v (Array.mem_of_getElem? hv)
      refine (define x hm.sound (hsound.grows (Scopes.grows_define _ _ _ _))).bind
        fun _ m₁ hl₁ hx => (hbody (hm.bound hl₁ hx)).turn.bind fun more m₂ hl₂ _ => ?_
      have hm₂ := hm.leads (hl₁.trans hl₂)
      exact ite (agrees_forList x place hbody n (i + 1) hm₂) (pure hl₂.sound trivial)

theorem agrees_forText {body body' : Run Unit} {V : Unit → Machine → Prop} (x : String)
    (hbody : ∀ {m}, P.At (x :: names) m → P.Agrees give m body body' V) : ∀ cs {m}, P.At names m →
    P.Agrees give m (Run.forText x body cs) (Run.forText x body' cs) fun _ _ => True
  | [], m, hm => pure hm.sound trivial
  | ch :: cs, m, hm => by
    refine (define x (v := .str (.singleton ch)) hm.sound trivial).bind fun _ m₁ hl₁ hx => ?_
    refine (hbody (hm.bound hl₁ hx)).turn.bind fun more m₂ hl₂ _ => ?_
    exact ite (agrees_forText x hbody cs (hm.leads (hl₁.trans hl₂))) (pure hl₂.sound trivial)

theorem agrees_forLoop {body body' : Run Unit} {V : Unit → Machine → Prop} (turns : Nat)
    (x : String) (v : Value) (line : Nat)
    (hbody : ∀ {m}, P.At (x :: names) m → P.Agrees give m body body' V) (hm : P.At names m) :
    P.Agrees give m (Run.forLoop turns x v body line) (Run.forLoop turns x v body' line)
      fun _ _ => True := by
  cases v with
  | list i =>
    refine get (entered names hm.sound hm.sound.values.present nofun
      (fun y hy => .inr (hm.known y hy)) ?_ fun _ _ _ h => h)
    exact fun m' hm' _ => agrees_forList x i hbody turns 0 hm'
  | str s =>
    refine get (entered names hm.sound hm.sound.values.present nofun
      (fun y hy => .inr (hm.known y hy)) ?_ fun _ _ _ h => h)
    exact fun m' hm' _ => agrees_forText x hbody s.toList hm'
  | _ => exact error _ hm.sound

/-- A function that is defined along with `x` can see `x`. -/
theorem hosted_closure {k : Sight} {x : String} {f : FunctionDef} (v : Value)
    (hk : ∀ y ∈ k.bound, y = x ∨ y ∈ names) (hm : P.At names m)
    (h : P.Fits (f.admitted P.rule k)) :
    (f.closure m.current).Hosted P.fit (m.scopes.define m.current x v) := by
  have hgrows := Scopes.grows_define m.scopes m.current x v
  have hpresent := hm.sound.values.present
  obtain ⟨name, ps, body, l⟩ := f
  refine ⟨hgrows.size hpresent, k, fun y hy => ?_, h⟩
  rcases hk y hy with rfl | hy
  · exact Scopes.isBound_define_self hpresent v
  · exact hgrows.isBound hpresent (hm.known y hy)

theorem fits_of_mem {k : Sight} {fs : List FunctionDef}
    (h : P.Fits (FunctionDef.admittedAll P.rule k fs)) {f : FunctionDef} (hf : f ∈ fs) :
    P.Fits (f.admitted P.rule k) := by
  induction fs with
  | nil => cases hf
  | cons g fs ih =>
    obtain ⟨hg, hfs⟩ := Fits.of_and h
    rcases List.mem_cons.mp hf with rfl | hf
    · exact hg
    · exact ih hfs hf

/-- The methods of a class close over the current scope, which binds its name. -/
theorem value_classValue {k : Sight} {x : String} {parent : Option ClassValue}
    {fs : List FunctionDef} (v : Value) (hk : ∀ y ∈ k.bound, y = x ∨ y ∈ names) (hm : P.At names m)
    (hparent : ∀ p, parent = some p → P.value (.classValue p) m)
    (h : P.Fits (FunctionDef.admittedAll P.rule k fs)) :
    P.value (.classValue (.mk x parent (Run.methodsOf fs m.current)))
      { m with scopes := m.scopes.define m.current x v } := by
  intro cls hcls
  rw [ClassValue.ancestry_eq_cons, ClassValue.ancestry_tail] at hcls
  rcases List.mem_cons.mp hcls with rfl | hcls
  · intro e he
    obtain ⟨f, hf, hclosure⟩ := Run.of_mem_methodsOf he
    rw [hclosure]
    exact hosted_closure v hk hm (fits_of_mem h hf)
  · cases parent with
    | some p => exact (hparent p rfl).grows (Scopes.grows_define _ _ _ _) cls hcls
    | none => cases hcls

theorem agrees_defineClass {u : Option Fault} {k : Sight} {x : String} {parent : Option String}
    {methods : List FunctionDef} (line : Nat) (hk : ∀ y ∈ k.bound, y = x ∨ y ∈ names)
    (hm : P.At names m) (hparent : P.Fits ((Run.nonempty parent).all (introduced names)))
    (hmethods : P.Fits (FunctionDef.admittedAll P.rule k methods)) :
    P.Agrees give m (Run.defineClass u x parent methods line)
      (Run.defineClass (P.unbound u) x parent methods line) (brings [x]) := by
  have bound {p : Option ClassValue} {m : Machine} (hm : P.At names m)
      (hp : ∀ c, p = some c → P.value (.classValue c) m) : P.Agrees give m
      (do Run.define x (.classValue (.mk x p (Run.methodsOf methods (← MonadState.get).current))))
      (do Run.define x (.classValue (.mk x p (Run.methodsOf methods (← MonadState.get).current))))
      (brings [x]) :=
    get (define x hm.sound (value_classValue _ hk hm hp hmethods))
  unfold Run.defineClass
  dsimp only
  cases hnonempty : Run.nonempty parent with
  | some p =>
    rw [hnonempty] at hparent
    refine ((classNamed line hm hparent).map (W := fun c? m' => ∀ c, c? = some c →
      P.value (.classValue c) m') fun cls m' hcls c hc => ?_).bind
      fun p? m₁ hl₁ hp => bound (hm.leads hl₁) hp
    cases hc
    exact hcls
  | none =>
    refine (pure (a := none) (V := fun c? m' => ∀ c, c? = some c → P.value (.classValue c) m')
      hm.sound nofun).bind fun p? m₁ hl₁ hp => bound (hm.leads hl₁) hp

theorem agrees_ifElse {condition condition' : Run Value}
    {body body' otherwise otherwise' : Run Unit} {found found' : Run Bool}
    {V W : Unit → Machine → Prop}
    (hcond : ∀ {m}, P.At names m → P.Agrees give m condition condition' P.value)
    (hbody : ∀ {m}, P.At names m → P.Agrees give m body body' V)
    (hfound : ∀ {m}, P.At names m → P.Agrees give m found found' fun _ _ => True)
    (hotherwise : ∀ {m}, P.At names m → P.Agrees give m otherwise otherwise' W)
    (hm : P.At names m) :
    P.Agrees give m
      (do if ← Run.isTrue (← condition) then body else if ← found then return () else otherwise)
      (do if ← Run.isTrue (← condition') then body' else if ← found' then return () else otherwise')
      (brings []) := by
  refine (hcond hm).bind fun v m₁ hl₁ _ => (isTrue v hl₁.sound).bind fun t m₂ hl₂ _ => ?_
  have hm₂ := hm.leads (hl₁.trans hl₂)
  refine ite ((hbody hm₂).mono fun _ _ _ _ => brings_nil _ _)
    ((hfound hm₂).bind fun one m₃ hl₃ _ => ?_)
  exact ite (pure hl₃.sound (brings_nil _ _))
    ((hotherwise (hm₂.leads hl₃)).mono fun _ _ _ _ => brings_nil _ _)

theorem agrees_fileStatements (x : String) (hm : P.Sound m) :
    P.Agrees give m (Run.fileStatements c.toSetting x)
      (Run.fileStatements (P.second c q).toSetting x) fun _ _ => True := by
  have hfiles : (P.second c q).files = c.files := rfl
  have hlang : (P.second c q).lang = c.lang := rfl
  unfold Run.fileStatements
  rw [hfiles, hlang]
  split
  · split
    · exact pure hm trivial
    · exact fault _ hm
  · exact fault _ hm

theorem agrees_handle {handler handler' : Run Unit} {V : Unit → Machine → Prop} (lang : Lang)
    (caught : Option Diagnostic) (x? : Option String) (isEmpty : Bool)
    (hh : ∀ {m}, P.At ((Run.nonempty x?).toList ++ names) m → P.Agrees give m handler handler' V)
    (hm : P.At names m) :
    P.Agrees give m (Run.handle lang caught x? isEmpty handler)
      (Run.handle lang caught x? isEmpty handler') fun _ _ => True := by
  cases caught with
  | none => exact pure hm.sound trivial
  | some d =>
    refine ite (pure hm.sound trivial) (get ?_)
    have hbindings : ((Run.nonempty x?).toList.map fun x => (x, Value.str (d.text lang))).map
        Prod.fst = (Run.nonempty x?).toList := by
      rw [List.map_map]
      exact List.map_id _
    have hvalues : ∀ b ∈ (Run.nonempty x?).toList.map fun x => (x, Value.str (d.text lang)),
        P.value b.2 m := by
      intro b hb
      obtain ⟨y, -, rfl⟩ := List.mem_map.mp hb
      trivial
    have hrun := (entered (V := fun _ _ => True) _ hm.sound hm.sound.values.present hvalues
      (fun y hy => ?_) (fun m' hm' _ => (hh hm').mono fun _ _ _ _ => trivial) fun _ _ _ h => h).bind
      (W := fun _ _ => True)
      fun _ _ hl _ => pure (a := (none : Option Diagnostic)) hl.sound trivial
    · rw [bind_assoc, bind_assoc] at hrun
      exact hrun
    · rw [hbindings]
      exact (List.mem_append.mp hy).imp_right (hm.known y)

theorem gives_of_or {a b : Bool} (h : (a || b) = true → give) :
    (a = true → give) ∧ (b = true → give) :=
  ⟨fun ha => h (Bool.or_eq_true_iff.mpr (.inl ha)), fun hb => h (Bool.or_eq_true_iff.mpr (.inr hb))⟩

theorem agrees_reraise (pending : Option Diagnostic) (hm : P.Sound m) :
    P.Agrees give m (Run.reraise pending) (Run.reraise pending) fun _ _ => True := by
  cases pending with
  | some d => exact error d hm
  | none => exact pure hm trivial

mutual

theorem agrees_stmt (hc : P.Drives c q) : ∀ s {k m}, P.At k.bound m →
    P.Fits (s.admitted P.rule k) → (s.gives = true → give) →
    P.Agrees give m (Exec.stmt c s) (Exec.stmt (P.second c q) s) (brings s.binds)
  | .expr e, k, m, hm, h, _ => by
    rw [Exec.stmt, Exec.stmt]
    exact (agrees_expr hc e hm h).bind fun _ _ hl _ => pure hl.sound (brings_nil _ _)
  | .assign x e _, k, m, hm, h, _ => by
    rw [Exec.stmt, Exec.stmt]
    exact (agrees_expr hc e hm h).bind fun v _ hl hv => assign x hl.sound hv
  | .setProperty a x e l, k, m, hm, h, _ => by
    obtain ⟨ha, he⟩ := Fits.of_and h
    rw [Exec.stmt, Exec.stmt]
    refine (agrees_expr hc a hm ha).bind fun v m₁ hl₁ hv => ?_
    cases v with
    | object i =>
      refine (agrees_expr hc e (hm.leads hl₁) he).bind fun w m₂ hl₂ hw => ?_
      exact work hl₂.sound (Gives.setProperty i x hw) fun _ _ _ => brings_nil _ _
    | _ =>
      exact (objectFor _ _ l hl₁.sound).bind fun _ _ hl _ =>
        pure hl.sound (brings_nil _ _)
  | .setIndex a i e l, k, m, hm, h, _ => by
    obtain ⟨hai, he⟩ := Fits.of_and h
    obtain ⟨ha, hi⟩ := Fits.of_and hai
    rw [Exec.stmt, Exec.stmt]
    refine (agrees_expr hc a hm ha).bind fun v m₁ hl₁ _ => ?_
    refine (agrees_expr hc i (hm.leads hl₁) hi).bind fun place m₂ hl₂ hplace => ?_
    refine (agrees_expr hc e (hm.leads (hl₁.trans hl₂)) he).bind fun w m₃ hl₃ hw => ?_
    exact (assignIndex v l hl₃.sound (value_leads hplace hl₃) hw).mono
      fun _ _ _ _ => brings_nil _ _
  | .print es _, k, m, hm, h, _ => by
    rw [Exec.stmt, Exec.stmt]
    exact (agrees_exprs hc es hm h).bind fun vs _ hl _ => (print vs hl.sound).mono
      fun _ _ _ _ => brings_nil _ _
  | .input x (some e) _, k, m, hm, h, _ => by
    obtain ⟨h, he⟩ := Fits.of_and h
    obtain ⟨-, hx⟩ := Fits.of_and h
    rw [Exec.stmt, Exec.stmt]
    refine (agrees_expr hc (k := k.claim [x]) e hm he).bind fun v m₁ hl₁ _ => ?_
    refine (text v hl₁.sound).bind fun s m₂ hl₂ _ => (write s hl₂.sound).bind fun _ m₃ hl₃ _ => ?_
    refine (readLine c.endOfInput hl₃.sound).bind fun line m₄ hl₄ _ => ?_
    have hl := (hl₁.trans hl₂).trans (hl₃.trans hl₄)
    exact reassign (hm.leads hl) hx (v := .str line) trivial
  | .input x none _, k, m, hm, h, _ => by
    obtain ⟨h, -⟩ := Fits.of_and h
    obtain ⟨-, hx⟩ := Fits.of_and h
    rw [Exec.stmt, Exec.stmt]
    · refine (readLine c.endOfInput hm.sound).bind fun line m₁ hl₁ _ => ?_
      exact reassign (hm.leads hl₁) hx (v := .str line) trivial
    all_goals nofun
  | .ifElse condition body bs otherwise _, k, m, hm, h, hg => by
    obtain ⟨h, hotherwise⟩ := Fits.of_and h
    obtain ⟨h, hbs⟩ := Fits.of_and h
    obtain ⟨hcond, hbody⟩ := Fits.of_and h
    obtain ⟨hg, hgotherwise⟩ := gives_of_or hg
    obtain ⟨hgbody, hgbs⟩ := gives_of_or hg
    have hrun {p p' : Run Unit} {V} (hp : ∀ {m}, P.At k.bound m → P.Agrees give m p p' V) :=
      agrees_ifElse (fun hm' => agrees_expr hc condition hm' hcond)
        (fun hm' => agrees_stmts hc body hm' hbody hgbody)
        (fun hm' => agrees_branches hc bs hm' hbs hgbs) hp hm
    match otherwise, hotherwise, hgotherwise with
    | some b, hb, hgb =>
      rw [Exec.stmt, Exec.stmt]
      exact hrun fun hm' => agrees_stmts hc b hm' hb hgb
    | none, _, _ =>
      rw [Exec.stmt, Exec.stmt]
      exact hrun (V := fun _ _ => True) fun hm' => pure hm'.sound trivial
  | .whileLoop condition body l, k, m, hm, h, hg => by
    obtain ⟨hcond, hbody⟩ := Fits.of_and h
    rw [Exec.stmt, Exec.stmt]
    exact (agrees_whileLoop _ l (fun hm' => agrees_expr hc condition hm' hcond)
      (fun hm' => agrees_stmts hc body hm' hbody hg) _ hm).mono
      fun _ _ _ _ => brings_nil _ _
  | .forLoop x e body l, k, m, hm, h, hg => by
    obtain ⟨he, hbody⟩ := Fits.of_and h
    rw [Exec.stmt, Exec.stmt]
    refine (agrees_expr hc e hm he).bind fun v m₁ hl₁ _ => ?_
    exact (agrees_forLoop _ x v l (fun hm' => agrees_stmts hc body hm' hbody hg)
      (hm.leads hl₁)).mono fun _ _ _ _ => brings_nil _ _
  | .breakLoop _, _, _, hm, _, _ => by
    rw [Exec.stmt, Exec.stmt]
    exact throw hm.sound trivial
  | .continueLoop _, _, _, hm, _, _ => by
    rw [Exec.stmt, Exec.stmt]
    exact throw hm.sound trivial
  | .function (.mk x ps body l), k, m, hm, h, _ => by
    rw [Exec.stmt, Exec.stmt]
    have hk : ∀ y ∈ (k.bind [x]).bound, y = x ∨ y ∈ k.bound := fun _ hy => List.mem_cons.mp hy
    exact get (define x hm.sound (hosted_closure (f := .mk x ps body l) _ hk hm h))
  | .giveBack (some e) _, k, m, hm, h, hg => by
    rw [Exec.stmt, Exec.stmt]
    exact (agrees_expr hc e hm h).bind fun v _ hl hv => throw hl.sound ⟨hg rfl, hv⟩
  | .giveBack none _, _, _, hm, _, hg => by
    rw [Exec.stmt, Exec.stmt]
    exact throw hm.sound ⟨hg rfl, trivial⟩
  | .classDef x parent methods l, k, m, hm, h, _ => by
    obtain ⟨h, hmethods⟩ := Fits.of_and h
    obtain ⟨-, hparent⟩ := Fits.of_and h
    rw [Exec.stmt, Exec.stmt]
    exact agrees_defineClass l (fun _ hy => List.mem_cons.mp hy) hm hparent hmethods
  | .attempt body x? handler finalizer l, k, m, hm, h, hg => by
    obtain ⟨h, hfinalizer⟩ := Fits.of_and h
    obtain ⟨hbody, hhandler⟩ := Fits.of_and h
    obtain ⟨hg, hgfinalizer⟩ := gives_of_or hg
    obtain ⟨hgbody, hghandler⟩ := gives_of_or hg
    have hguarded : P.Agrees give m (guarded c body x? handler)
        (guarded (P.second c q) body x? handler) fun _ _ => True := by
      refine (agrees_stmts hc body hm hbody hgbody).attempt.bind fun caught m₁ hl₁ _ => ?_
      match handler, hhandler, hghandler with
      | some b, hb, hgb =>
        exact agrees_handle c.lang caught x? b.isEmpty (fun hm' => agrees_stmts hc b hm' hb hgb)
          (hm.leads hl₁)
      | none, _, _ => exact pure hl₁.sound trivial
    match finalizer, hfinalizer, hgfinalizer with
    | some b, hb, hgb =>
      rw [stmt_attempt, stmt_attempt]
      refine hguarded.bind fun pending m₁ hl₁ _ => ?_
      refine (agrees_stmts hc b (hm.leads hl₁) hb hgb).bind fun _ m₂ hl₂ _ => ?_
      exact (agrees_reraise pending hl₂.sound).mono fun _ _ _ _ => brings_nil _ _
    | none, _, _ =>
      rw [stmt_attempt_none, stmt_attempt_none]
      refine hguarded.bind fun pending m₁ hl₁ _ => ?_
      exact (agrees_reraise pending hl₁.sound).mono fun _ _ _ _ => brings_nil _ _
  | .raiseError e _, k, m, hm, h, _ => by
    rw [Exec.stmt, Exec.stmt]
    exact (agrees_expr hc e hm h).bind fun v _ hl _ =>
      (text v hl.sound).bind fun _ _ hl' _ => fault _ hl'.sound
  | .importFile x _, k, m, hm, h, _ => by
    -- No rule knows what is in a file, so an import fits only where everything does.
    rw [Exec.stmt, Exec.stmt]
    refine (agrees_fileStatements x hm.sound).bind fun ss m₁ hl₁ _ => ?_
    have hrun := hc.performs (t := .statements ss) (hm.leads hl₁) (.inl h.free)
    exact hrun.discard.guardImport.mono fun _ _ _ _ => brings_nil _ _
  | .foreign cls _ l, _, _, hm, _, _ => by
    rw [Exec.stmt, Exec.stmt]
    exact error _ hm.sound
termination_by structural s => s

theorem agrees_stmts (hc : P.Drives c q) : ∀ ss {k m}, P.At k.bound m →
    P.Fits (Stmt.admittedAll P.rule k ss) → (Stmt.givesAny ss = true → give) →
    P.Agrees give m (Exec.stmts c ss) (Exec.stmts (P.second c q) ss) (brings (Stmt.bindsAll ss))
  | [], _, _, hm, _, _ => by
    rw [Exec.stmts, Exec.stmts]
    exact pure hm.sound (brings_nil _ _)
  | s :: ss, k, m, hm, h, hg => by
    obtain ⟨hs, hss⟩ := Fits.of_and h
    obtain ⟨hgs, hgss⟩ := gives_of_or hg
    rw [Exec.stmts, Exec.stmts]
    refine (agrees_stmt hc s hm hs hgs).bind fun _ m₁ hl₁ hbrings => ?_
    -- The rest of the block stands behind what the first statement has bound.
    have hm₁ := (hm.leads hl₁).append hbrings
    refine (agrees_stmts hc ss hm₁ hss hgss).mono fun _ m₂ hl₂ hmore x hx => ?_
    rcases List.mem_append.mp hx with hx | hx
    · exact (hm₁.leads hl₂).known x (List.mem_append_left _ hx)
    · exact hmore x hx
termination_by structural ss => ss

theorem agrees_branches (hc : P.Drives c q) : ∀ bs {k m}, P.At k.bound m →
    P.Fits (Branch.admittedAll P.rule k bs) → (Branch.givesAny bs = true → give) →
    P.Agrees give m (Exec.branches c bs) (Exec.branches (P.second c q) bs) fun _ _ => True
  | [], _, _, hm, _, _ => by
    rw [Exec.branches, Exec.branches]
    exact pure hm.sound trivial
  | .mk condition body :: bs, k, m, hm, h, hg => by
    obtain ⟨h, hbs⟩ := Fits.of_and h
    obtain ⟨hgbody, hgbs⟩ := gives_of_or hg
    obtain ⟨hcond, hbody⟩ := Fits.of_and h
    rw [Exec.branches, Exec.branches]
    refine (agrees_expr hc condition hm hcond).bind fun v m₁ hl₁ _ => ?_
    refine (isTrue v hl₁.sound).bind fun t m₂ hl₂ _ => ?_
    have hm₂ := hm.leads (hl₁.trans hl₂)
    refine ite ?_ (agrees_branches hc bs hm₂ hbs hgbs)
    exact (agrees_stmts hc body hm₂ hbody hgbody).bind fun _ _ hl _ => pure hl.sound trivial
termination_by structural bs => bs

end

end

theorem agrees_carriedOut {c : Context} {q : Task → Run Value} (hc : P.Drives c q) :
    ∀ (t : Task) {k : Sight} {m : Machine}, P.At k.bound m → P.fit k t →
      P.Agrees t.gives m (t.carriedOut c) (t.carriedOut (P.second c q)) P.value
  | .statements ss, _, _, hm, h =>
    (agrees_stmts hc ss hm h fun _ => trivial).bind fun _ _ hl _ => .pure hl.sound trivial
  | .expression e, _, _, hm, h => agrees_expr hc e hm h

/-- Two runs agree however deep they enter bodies. -/
theorem performs (P : Pairing) (s : Setting) (hlimits : P.upkeep.limits s.maxCallDepth) : ∀ n,
    P.Performs (perform s n) (perform { s with unbound := P.unbound s.unbound } n)
  | 0, _, _, _, hm, _ => .throw hm.sound trivial
  | n + 1, t, _, _, hm, h => by
    rw [perform_succ, perform_succ]
    exact agrees_carriedOut (c := { s with perform := perform s n, turns := n })
      ⟨performs P s hlimits n, hlimits⟩ t hm h

theorem agrees_run (P : Pairing) (s : Setting) (hlimits : P.upkeep.limits s.maxCallDepth)
    {k : Sight} {ss : List Stmt} (hm : P.At k.bound m)
    (h : P.Fits (Stmt.admittedAll P.rule k ss)) :
    P.Agrees False m (execute s ss) (execute { s with unbound := P.unbound s.unbound } ss)
      fun _ _ => True :=
  (P.performs s hlimits budget (t := .statements ss) hm h).discard.result.discard

/-- The setting of a run may limit its calls in any way. -/
class Unlimited (P : Pairing) : Prop where
  limits : ∀ limit, P.upkeep.limits limit

theorem fit_eq_lexicalFit (h : P.objects = false) : P.fit = lexicalFit P.free := by
  funext k t
  unfold fit Fits rule lexicalFit
  rw [h, t.admitted_eq_lexical Sight.binds k.claimed k.bound]
  rfl

theorem hosted_iff_sound (h : P.objects = false) : m.Hosted P.fit ↔ m.Sound P.free := by
  rw [Machine.sound_iff, fit_eq_lexicalFit h]

theorem fits_of_lexical {t : Task} (h : P.Fits (t.lexical introduced names)) :
    P.fit ⟨names, []⟩ t := by
  have hbinds := t.admitted_eq_lexical Sight.binds [] names
  rcases h with h | h
  · exact .inl h
  · refine .inr (t.admitted_generous (r := ⟨Sight.binds, false, false⟩) ?_ rfl (hbinds.trans h))
    exact fun hobjects => absurd hobjects Bool.false_ne_true

theorem agrees_execute (P : Pairing) [P.Unlimited] (s : Setting) (ss : List Stmt)
    (hm : P.At names m) (h : P.Fits (Stmt.lexicalAll introduced names ss)) :
    P.Agrees False m (execute s ss) (execute { s with unbound := P.unbound s.unbound } ss)
      fun _ _ => True :=
  P.agrees_run s (Unlimited.limits _) hm (fits_of_lexical (t := .statements ss) h)

end Pairing

end Bhasha
