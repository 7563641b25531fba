import Bhasha.Proofs.CodeComputations

namespace Bhasha

/-- Literals, names and operators that look at all their operands. -/
inductive Expr.Core : Expr → Prop
  | literal (k v l) : Core (.literal k v l)
  | var (x l) : Core (.var x l)
  | binary {op a b} (l) : op ≠ .or → op ≠ .and → Core a → Core b → Core (.binary op a b l)
  | unary {a} (op l) : Core a → Core (.unary op a l)
  | paren {a} (l) : Core a → Core (.paren a l)

namespace Lower

def temp (n : Nat) : Temp :=
  ⟨s!"t{n}"⟩

theorem temp_name_inj {j k : Nat} : (temp j).name = (temp k).name ↔ j = k := by
  refine ⟨fun h => ?_, fun h => h ▸ rfl⟩
  have hlists := congrArg String.toList h
  exact toDigits_injective (by simpa [temp] using hlists)

end Lower

theorem find?_bind_temp (temps : Bindings Value) (j k : Nat) (v : Value) :
    (temps.bind (Lower.temp k).name v).find? (Lower.temp j).name =
      if k = j then some v else temps.find? (Lower.temp j).name := by
  rw [Bindings.find?_bind]
  simp only [Lower.temp_name_inj]

/-- The code that is to come behind what `σ` has laid down. -/
def Lowering.next (σ : Lowering) (C : List Instr) : List Instr :=
  C.drop σ.code.size

namespace Lowering

variable {σ σ' : Lowering} {C : List Instr} {i : Instr}

theorem next_push (h : σ'.code = σ.code.push i) (hC : σ'.code.toList <+: C) :
    σ.next C = i :: σ'.next C := by
  obtain ⟨rest, rfl⟩ := hC
  have hcode : σ'.code.toList ++ rest = σ.code.toList ++ i :: rest := by simp [h]
  have hbehind : (σ'.code.toList ++ rest).drop σ'.code.size = rest := by
    rw [← Array.length_toList, List.drop_left]
  rw [next, next, hbehind, hcode, ← Array.length_toList, List.drop_left]

theorem prefix_of_push (h : σ'.code = σ.code.push i) (hC : σ'.code.toList <+: C) :
    σ.code.toList <+: C :=
  List.IsPrefix.trans (by simp [h]) hC

end Lowering

/-- A new temporary takes what one more instruction computes. -/
theorem Lower.result_ok {op : Temp → Operation} {l : Nat} {σ σ' : Lowering} {t : Option Temp}
    (h : (do
      let t ← freshTemp
      emit l (op t)
      return some t : Lower (Option Temp)) σ = .ok t σ') :
    t = some (temp σ.temps) ∧ σ'.temps = σ.temps + 1 ∧
      σ'.code = σ.code.push { op := op (temp σ.temps), line := l } := by
  cases h
  exact ⟨rfl, rfl, rfl⟩

/-- The `k`-th temporary holds `v`. -/
def Holds (k : Nat) (v : Value) (temps : Bindings Value) : Prop :=
  temps.find? (Lower.temp k).name = some v

theorem holds_bind (k : Nat) (v : Value) (temps : Bindings Value) :
    Holds k v (temps.bind (Lower.temp k).name v) := by
  rw [Holds, find?_bind_temp, if_pos rfl]

theorem Holds.bind {j k : Nat} {v : Value} {temps : Bindings Value} (h : Holds j v temps)
    (hj : j < k) (w : Value) : Holds j v (temps.bind (Lower.temp k).name w) := by
  rw [Holds, find?_bind_temp, if_neg (by omega)]
  exact h

section

variable {α β : Type} {C start stop : List Instr} {c : Context} {k : Nat}
  {pre : Bindings Value → Prop} {p : Run α} {post : α → Bindings Value → Prop} {x : String}
  {j l : Nat}

/-- From temporaries that are as `pre` says, the code from `start` on computes `p`, leaves its value
as `post` says, and goes on at `stop`. What the first `k` temporaries hold they go on holding. -/
structure Computes (C start : List Instr) (pre : Bindings Value → Prop) (p : Run α) (k : Nat)
    (post : α → Bindings Value → Prop) (stop : List Instr) : Prop where
  ends : ∀ {m a m'}, m.Rooted → p m = .ok a m' → m'.Rooted ∧ ∀ temps, pre temps → ∃ temps',
    (m.coded start temps).Reaches C (m'.coded stop temps') ∧ post a temps' ∧
      ∀ j < k, ∀ v, Holds j v temps → Holds j v temps'
  fails : ∀ {m e m'}, p m = .error e m' → e.isFailure = true

namespace Computes

theorem pure {a : α} (h : ∀ temps, pre temps → post a temps) (C stop : List Instr) (k : Nat) :
    Computes C stop pre (Pure.pure a) k post stop where
  ends hm hok := by
    obtain ⟨rfl, rfl⟩ := pure_ok hok
    exact ⟨hm, fun temps htemps => ⟨temps, .refl, h temps htemps, fun _ _ _ hj => hj⟩⟩
  fails herr := by cases herr

theorem bind {f : α → Run β} {post' : β → Bindings Value → Prop} {mid : List Instr} {k' : Nat}
    (hp : Computes C start pre p k post mid) (hf : ∀ a, Computes C mid (post a) (f a) k' post' stop)
    (hk : k ≤ k') : Computes C start pre (p >>= f) k post' stop where
  ends hm hok := by
    obtain ⟨a, m₁, hpm, hfm⟩ := bind_eq_ok hok
    obtain ⟨hm₁, hreach⟩ := hp.ends hm hpm
    obtain ⟨hm', hreach'⟩ := (hf a).ends hm₁ hfm
    refine ⟨hm', fun temps htemps => ?_⟩
    obtain ⟨temps₁, hsteps, hpost, hkeep⟩ := hreach temps htemps
    obtain ⟨temps', hsteps', hpost', hkeep'⟩ := hreach' temps₁ hpost
    refine ⟨temps', hsteps.trans hsteps', hpost', fun j hj v hv => ?_⟩
    exact hkeep' j (by omega) v (hkeep j hj v hv)
  fails herr := by
    rcases bind_eq_error herr with hpm | ⟨a, m₁, hpm, hfm⟩
    · exact hp.fails hpm
    · exact (hf a).fails hfm

/-- What an earlier temporary holds is still there behind the code. -/
theorem frame (h : Computes C start (fun _ => True) p k post stop) {j : Nat} (hj : j < k)
    (v : Value) :
    Computes C start (Holds j v) p k (fun a temps => Holds j v temps ∧ post a temps) stop where
  ends hm hok := by
    obtain ⟨hm', hreach⟩ := h.ends hm hok
    refine ⟨hm', fun temps hv => ?_⟩
    obtain ⟨temps', hsteps, hpost, hkeep⟩ := hreach temps trivial
    exact ⟨temps', hsteps, ⟨hkeep j hj v hv, hpost⟩, hkeep⟩
  fails := h.fails

/-- An instruction that computes `p` into a new temporary. -/
theorem result {p : Run Value} {i : Instr}
    (hi : ∀ {m v m'}, m.Rooted → p m = .ok v m' → m'.Rooted ∧ ∀ temps, pre temps →
      Coded.perform C i (m.coded stop temps) =
        .ok () (m'.coded stop (temps.bind (Lower.temp k).name v)))
    (hfails : ∀ {m e m'}, p m = .error e m' → e.isFailure = true) :
    Computes C (i :: stop) pre p k (Holds k) stop where
  ends {m v m'} hm hok := by
    obtain ⟨hm', hstep⟩ := hi hm hok
    refine ⟨hm', fun temps htemps => ?_⟩
    exact ⟨_, .single (hstep temps htemps), holds_bind k v temps, fun j hj w hw => hw.bind hj v⟩
  fails := hfails

end Computes

theorem Holds.read {temps : Bindings Value} {v : Value} (h : Holds k v temps) (m : Machine)
    (next : List Instr) :
    Coded.read (.temp (Lower.temp k)) (m.coded next temps) = .ok v (m.coded next temps) := by
  change Coded.require (temps.find? (Lower.temp k).name) _ = _
  rw [show temps.find? (Lower.temp k).name = some v from h]
  rfl

theorem unresolved_eq (unbound : Option Fault) (d : Diagnostic) (m : Machine) :
    ∃ e : Exit, e.isFailure = true ∧
      (Run.unresolved unbound (Run.error d) : Run Value) m = .error e m := by
  cases unbound with
  | some f => exact ⟨.fault f, rfl, rfl⟩
  | none => exact ⟨.error d, rfl, rfl⟩

theorem lookup_ok {m m' : Machine} (hm : m.Rooted) {unbound : Option Fault} {x : String} {v : Value}
    (h : Run.lookup unbound x m = .ok v m') :
    (m.scopes.bindings m.current).find? x = some v ∧ m' = m := by
  rw [← hm.get?]
  exact Run.lookup_eq_ok.mp h

theorem lookup_failure {m m' : Machine} {unbound : Option Fault} {x : String} {e : Exit}
    (h : Run.lookup unbound x m = .error e m') : e.isFailure = true := by
  rw [Run.lookup, bind_get] at h
  cases hv : m.scopes.get m.current x none with
  | ok v =>
    rw [hv] at h
    cases h
  | error d =>
    rw [hv] at h
    obtain ⟨e, hfails, he⟩ := unresolved_eq unbound d m
    cases he.symm.trans h
    exact hfails

theorem load_named {m : Machine} {x : String} {v : Value}
    (h : (m.scopes.bindings m.current).find? x = some v) (next : List Instr)
    (temps : Bindings Value) :
    Coded.load (.named x) (m.coded next temps) = .ok v (m.coded next temps) := by
  change Coded.require ((m.scopes.bindings m.current).find? x) _ = _
  rw [h]
  rfl

theorem perform_binary {m m' : Machine} {op : BinaryOp} {lang : Lang} {i j : Nat} {l : Nat}
    {left right v : Value} {temps : Bindings Value} (hi : Holds i left temps)
    (hj : Holds j right temps) (h : Run.binary lang op left right l m = .ok v m')
    (C next : List Instr) :
    Coded.perform C
      ⟨.binary (Lower.temp k) op.symbol (.temp (Lower.temp i)) (.temp (Lower.temp j)), l⟩
      (m.coded next temps) = .ok () (m'.coded next (temps.bind (Lower.temp k).name v)) := by
  have hlocal := Run.local_binary .both (.ofSymbol op.symbol) left right l
  change (Coded.read _ >>= fun _ => Coded.read _ >>= _) _ = _
  rw [bind_of_ok (hi.read m next), bind_of_ok (hj.read m next),
    bind_of_ok (hlocal.borrow (Run.binary_ofSymbol h) next temps)]
  rfl

theorem perform_unary {m m' : Machine} {op : UnaryOp} {i : Nat} {l : Nat} {w v : Value}
    {temps : Bindings Value} (hi : Holds i w temps) (h : Run.unary op w l m = .ok v m')
    (C next : List Instr) :
    Coded.perform C ⟨.unary (Lower.temp k) op.symbol (.temp (Lower.temp i)), l⟩
      (m.coded next temps) = .ok () (m'.coded next (temps.bind (Lower.temp k).name v)) := by
  have hlocal := Run.local_unary (.ofSymbol op.symbol) w l
  change (Coded.read _ >>= _) _ = _
  rw [bind_of_ok (hi.read m next), bind_of_ok (hlocal.borrow (Run.unary_ofSymbol h) next temps)]
  rfl

theorem computes_expr {e : Expr} (he : e.Core) {σ σ' : Lowering} {t : Option Temp}
    (h : Lower.expr e σ = .ok t σ') (hC : σ'.code.toList <+: C) :
    ∃ k, t = some (Lower.temp k) ∧ σ.temps ≤ k ∧ k < σ'.temps ∧
      Computes C (σ.next C) (fun _ => True) (Eval.expr c e) σ.temps (Holds k) (σ'.next C) := by
  induction he generalizing σ σ' t with
  | literal kind v l =>
    rw [Lower.expr] at h
    obtain ⟨rfl, htemps, hcode⟩ := Lower.result_ok h
    refine ⟨σ.temps, rfl, Nat.le_refl _, by omega, ?_⟩
    rw [Lowering.next_push hcode hC, Eval.expr]
    have hlocal := Run.local_work (Work.scalar v)
    refine .result (fun hm hok => ⟨hlocal.rooted hok hm, fun temps _ => ?_⟩) hlocal.failure
    change (Coded.borrow (Run.work (Work.scalar v)) >>= _) _ = _
    rw [bind_of_ok (hlocal.borrow hok _ temps)]
    rfl
  | var x l =>
    rw [Lower.expr] at h
    obtain ⟨rfl, htemps, hcode⟩ := Lower.result_ok h
    refine ⟨σ.temps, rfl, Nat.le_refl _, by omega, ?_⟩
    rw [Lowering.next_push hcode hC, Eval.expr]
    refine .result (fun hm hok => ?_) lookup_failure
    obtain ⟨hx, rfl⟩ := lookup_ok hm hok
    refine ⟨hm, fun temps _ => ?_⟩
    change (Coded.load (.named x) >>= _) _ = _
    rw [bind_of_ok (load_named hx _ temps)]
    rfl
  | @binary op a b l hor hand ha hb iha ihb =>
    rw [Lower.expr] at h
    obtain ⟨t₁, σ₁, h₁, h⟩ := bind_eq_ok h
    obtain ⟨t₂, σ₂, h₂, h⟩ := bind_eq_ok h
    obtain ⟨rfl, htemps, hcode⟩ := Lower.result_ok h
    have hC₂ := Lowering.prefix_of_push hcode hC
    have hg₁ := (Lower.tidy_expr a).grows h₁
    have hg₂ := (Lower.tidy_expr b).grows h₂
    obtain ⟨i, rfl, hi, hi', hva⟩ := iha h₁ (hg₂.code.trans hC₂)
    obtain ⟨j, rfl, hj, hj', hvb⟩ := ihb h₂ hC₂
    refine ⟨σ₂.temps, rfl, by omega, by omega, ?_⟩
    rw [Lowering.next_push hcode hC] at hvb
    rw [expr_binary hor hand]
    -- the left operand stays in its temporary while the right one is computed
    refine hva.bind (fun left => (hvb.frame hi' left).bind (fun right => ?_) hg₂.temps) hg₁.temps
    have hlocal := Run.local_binary c.lang op left right l
    exact .result (fun hm hok => ⟨hlocal.rooted hok hm, fun temps htemps =>
      perform_binary htemps.1 htemps.2 hok C _⟩) hlocal.failure
  | @unary a op l ha ih =>
    rw [Lower.expr] at h
    obtain ⟨t₁, σ₁, h₁, h⟩ := bind_eq_ok h
    obtain ⟨rfl, htemps, hcode⟩ := Lower.result_ok h
    have hC₁ := Lowering.prefix_of_push hcode hC
    have hg₁ := (Lower.tidy_expr a).grows h₁
    obtain ⟨i, rfl, hi, hi', hva⟩ := ih h₁ hC₁
    refine ⟨σ₁.temps, rfl, by omega, by omega, ?_⟩
    rw [Lowering.next_push hcode hC] at hva
    rw [Eval.expr]
    refine hva.bind (fun v => ?_) hg₁.temps
    have hlocal := Run.local_unary op v l
    exact .result (fun hm hok => ⟨hlocal.rooted hok hm, fun temps htemps =>
      perform_unary htemps hok C _⟩) hlocal.failure
  | paren l ha ih =>
    rw [Lower.expr] at h
    rw [Eval.expr]
    exact ih h hC

theorem computes_exprs {es : List Expr} (hes : ∀ e ∈ es, e.Core) {σ σ' : Lowering}
    {ts : List (Option Temp)} (h : Lower.exprs es σ = .ok ts σ') (hC : σ'.code.toList <+: C) :
    ∃ ks : List Nat, ts = ks.map (fun k => some (Lower.temp k)) ∧
      Computes C (σ.next C) (fun _ => True) (Eval.exprs c es) σ.temps
        (fun vs temps => List.Forall₂ (fun k v => Holds k v temps) ks vs) (σ'.next C) := by
  induction es generalizing σ σ' ts with
  | nil =>
    rw [Lower.exprs] at h
    obtain ⟨rfl, rfl⟩ := pure_ok h
    rw [Eval.exprs]
    exact ⟨[], rfl, .pure (fun _ _ => .nil) C _ _⟩
  | cons e es ih =>
    rw [Lower.exprs] at h
    obtain ⟨t, σ₁, h₁, h⟩ := bind_eq_ok h
    obtain ⟨ts, σ₂, h₂, h⟩ := bind_eq_ok h
    obtain ⟨rfl, rfl⟩ := pure_ok h
    have hg₁ := (Lower.tidy_expr e).grows h₁
    have hg₂ := (Lower.tidy_exprs es).grows h₂
    obtain ⟨k, rfl, -, hk, hv⟩ := computes_expr (hes e (by simp)) h₁ (hg₂.code.trans hC)
    obtain ⟨ks, rfl, hvs⟩ := ih (fun e he => hes e (by simp [he])) h₂ hC
    refine ⟨k :: ks, rfl, ?_⟩
    rw [Eval.exprs]
    refine hv.bind (fun v => (hvs.frame hk v).bind (fun vs => ?_) (Nat.le_refl _)) hg₁.temps
    exact .pure (fun temps htemps => .cons htemps.1 htemps.2) C _ _

theorem readAll_temps {ks : List Nat} {vs : List Value} {temps : Bindings Value}
    (h : List.Forall₂ (fun k v => Holds k v temps) ks vs) (m : Machine) (next : List Instr) :
    Coded.readAll (ks.map fun k => .temp (Lower.temp k)) (m.coded next temps) =
      .ok vs (m.coded next temps) := by
  induction h with
  | nil => rfl
  | cons hv _ ih =>
    rw [List.map_cons, Coded.readAll, bind_of_ok (hv.read m next), bind_of_ok ih]
    rfl

theorem Computes.carriesOut {f : α → Run β} {behind : β → List Instr} {i : Instr}
    (hp : Computes C start (fun _ => True) p k post (i :: stop))
    (hf : ∀ {a m b m'}, m.Rooted → f a m = .ok b m' → m'.Rooted ∧ ∀ temps, post a temps →
      Coded.perform C i (m.coded stop temps) = .ok () (m'.coded (behind b) temps))
    (hfails : ∀ {a m e m'}, f a m = .error e m' → e.isFailure = true) (t : Targets) :
    CarriesOut C t start (p >>= f) behind where
  ends hm hok := by
    obtain ⟨a, m₁, hpm, hfm⟩ := bind_eq_ok hok
    obtain ⟨hm₁, hreach⟩ := hp.ends hm hpm
    obtain ⟨hm', hstep⟩ := hf hm₁ hfm
    refine ⟨hm', fun temps => ?_⟩
    obtain ⟨temps₁, hsteps, hpost, -⟩ := hreach temps trivial
    exact ⟨temps₁, hsteps.tail (hstep temps₁ hpost)⟩
  exits _ herr := by
    rcases bind_eq_error herr with hpm | ⟨a, m₁, hpm, hfm⟩
    · exact Targets.lead_of_failure (hp.fails hpm)
    · exact Targets.lead_of_failure (hfails hfm)

theorem Machine.Rooted.assign {m : Machine} (hm : m.Rooted) (x : String) (v : Value) :
    Run.assign x v m = .ok () { m with scopes := m.scopes.define m.current x v } := by
  have howner : (m.scopes.owner? m.current x).getD m.current = m.current := by
    rw [hm.owner?]
    split <;> rfl
  rw [Run.assign_eq]
  change EStateM.Result.ok () { m with scopes := m.scopes.define _ x v } = _
  rw [howner]

theorem carriesOut_assign {p : Run Value}
    (hp : Computes C start (fun _ => True) p j (Holds k)
      (⟨.copy (.named x) (.temp (Lower.temp k)), l⟩ :: stop)) (t : Targets) :
    CarriesOut C t start (p >>= Run.assign x) fun _ => stop := by
  refine hp.carriesOut (fun {v m _ m'} hm hok => ?_) (fun herr => by cases herr) t
  rw [hm.assign] at hok
  cases hok
  refine ⟨hm.define x v, fun temps hv => ?_⟩
  change (Coded.read (.temp (Lower.temp k)) >>= _) _ = _
  rw [bind_of_ok (hv.read m stop), hm.coded_define]
  rfl

theorem carriesOut_print {p : Run (List Value)} {ks : List Nat}
    (hp : Computes C start (fun _ => True) p j
      (fun vs temps => List.Forall₂ (fun k v => Holds k v temps) ks vs)
      (⟨.print (ks.map fun k => .temp (Lower.temp k)), l⟩ :: stop)) (t : Targets) :
    CarriesOut C t start (p >>= Run.print) fun _ => stop := by
  refine hp.carriesOut (fun {vs m _ m'} hm hok => ?_) (Run.local_print _).failure t
  have hlocal := Run.local_print vs
  refine ⟨hlocal.rooted hok hm, fun temps hvs => ?_⟩
  change (Coded.readAll _ >>= _) _ = _
  rw [bind_of_ok (readAll_temps hvs m stop)]
  exact hlocal.borrow hok stop temps

theorem carriesOut_branch {p : Run Value} {yes no : Label} {yesPlace noPlace : List Instr}
    (hp : Computes C start (fun _ => True) p j (Holds k)
      (⟨.branch (.temp (Lower.temp k)) yes no, l⟩ :: stop))
    (hyes : Instr.fromLabel yes C = some yesPlace) (hno : Instr.fromLabel no C = some noPlace)
    (t : Targets) :
    CarriesOut C t start (p >>= Run.isTrue) fun b => if b then yesPlace else noPlace := by
  refine hp.carriesOut (fun {v m b m'} hm hok => ?_) (Run.local_isTrue _).failure t
  have hlocal := Run.local_isTrue v
  refine ⟨hlocal.rooted hok hm, fun temps hv => ?_⟩
  change (Coded.read _ >>= _) _ = _
  rw [bind_of_ok (hv.read m stop), bind_of_ok (hlocal.borrow hok stop temps)]
  cases b with
  | true =>
    change (Coded.require (Instr.fromLabel yes C) >>= _) _ = _
    rw [hyes]
    rfl
  | false =>
    change (Coded.require (Instr.fromLabel no C) >>= _) _ = _
    rw [hno]
    rfl

end

end Bhasha
