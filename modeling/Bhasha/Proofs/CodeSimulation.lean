import Bhasha.Proofs.ExprCode
import Bhasha.Proofs.ScopeNesting

namespace Bhasha

def Branch.condition : Branch → Expr
  | .mk c _ => c

/-- Assignments, `likho`, conditionals, `jab_tak`, `ruk` and `age_badho`. -/
inductive Stmt.Core : Stmt → Prop
  | assign {e} (x l) : e.Core → Core (.assign x e l)
  | print {es : List Expr} (l) : (∀ e ∈ es, e.Core) → Core (.print es l)
  | ifElse {c body bs otherwise} (l) : c.Core → (∀ s ∈ body, Core s) →
      (∀ b ∈ bs, (Branch.condition b).Core) → (∀ b ∈ bs, ∀ s ∈ Branch.body b, Core s) →
      (∀ ss ∈ otherwise, ∀ s ∈ ss, Core s) → Core (.ifElse c body bs otherwise l)
  | whileLoop {c body} (l) : c.Core → (∀ s ∈ body, Core s) → Core (.whileLoop c body l)
  | breakLoop (l) : Core (.breakLoop l)
  | continueLoop (l) : Core (.continueLoop l)

namespace Lower

variable {σ σ' : Lowering} {l : Nat} {op : Operation} {u : Unit}

theorem emit_ok (h : emit l op σ = .ok u σ') :
    σ'.code = σ.code.push { op, line := l } ∧ σ.Grows σ' := by
  cases h
  exact ⟨rfl, grows_emit l op σ⟩

end Lower

namespace Lowering

/-- Where `ruk` and `age_badho` lead from here. -/
def targets (σ : Lowering) : Targets where
  out := σ.breaks.head?
  again := σ.continues.head?

/-- Nothing is laid down from `σ` to `σ'`. -/
structure Idle (σ σ' : Lowering) : Prop where
  code : σ'.code = σ.code
  breaks : σ'.breaks = σ.breaks
  continues : σ'.continues = σ.continues

variable {σ σ₁ σ' : Lowering} {C : List Instr}

theorem Idle.refl (σ : Lowering) : σ.Idle σ :=
  ⟨rfl, rfl, rfl⟩

theorem Idle.trans (h : σ.Idle σ₁) (h' : σ₁.Idle σ') : σ.Idle σ' where
  code := h'.code.trans h.code
  breaks := h'.breaks.trans h.breaks
  continues := h'.continues.trans h.continues

theorem Idle.next (h : σ.Idle σ') (C : List Instr) : σ'.next C = σ.next C := by
  rw [Lowering.next, h.code, Lowering.next]

theorem Idle.targets (h : σ.Idle σ') : σ'.targets = σ.targets := by
  rw [Lowering.targets, h.breaks, h.continues, Lowering.targets]

theorem Grows.targets (h : σ.Grows σ') : σ'.targets = σ.targets := by
  rw [Lowering.targets, h.breaks, h.continues, Lowering.targets]

theorem idle_freshLabel {hint : String} {l : Label} (h : Lower.freshLabel hint σ = .ok l σ') :
    σ.Idle σ' := by
  cases h
  exact ⟨rfl, rfl, rfl⟩

theorem idle_freshLabels {hint : String} {n : Nat} {ls : List Label}
    (h : Lower.freshLabels hint n σ = .ok ls σ') : σ.Idle σ' := by
  induction n generalizing σ ls with
  | zero =>
    obtain ⟨-, rfl⟩ := pure_ok h
    exact .refl σ
  | succ n ih =>
    obtain ⟨l, σ₁, h₁, h⟩ := bind_eq_ok h
    obtain ⟨ls', σ₂, h₂, h⟩ := bind_eq_ok h
    obtain ⟨-, rfl⟩ := pure_ok h
    exact (idle_freshLabel h₁).trans (ih h₂)

/-- A label is found where it was placed. -/
theorem fromLabel_of_push {l : Label} {line : Nat}
    (h : σ'.code = σ.code.push { op := .label l, line }) (hC : σ'.code.toList <+: C)
    (hnodup : (Instr.labels C).Nodup) : Instr.fromLabel l C = some (σ.next C) := by
  have hsplit : C = σ.code.toList ++ { op := .label l, line } :: σ'.next C := by
    have htake : C.take σ.code.size = σ.code.toList := by
      rw [← Array.length_toList]
      exact (List.prefix_iff_eq_take.mp (prefix_of_push h hC)).symm
    rw [← next_push h hC, ← htake]
    exact (List.take_append_drop _ _).symm
  have hfound := fromLabel_eq (i := ⟨.label l, line⟩) rfl (hsplit ▸ hnodup)
  rw [← hsplit] at hfound
  rw [hfound, next_push h hC]

theorem skips_placed {l : Label} {line : Nat}
    (h : σ'.code = σ.code.push { op := .label l, line }) (hC : σ'.code.toList <+: C) :
    Skips C (σ.next C) (σ'.next C) := by
  rw [next_push h hC]
  exact skips_label C l line _

end Lowering

/-- The code that `p` lays down carries out `q`. -/
def Simulates (C : List Instr) (p : Lower Unit) (q : Run Unit) : Prop :=
  ∀ {σ σ'}, p σ = .ok () σ' → σ'.code.toList <+: C →
    CarriesOut C σ.targets (σ.next C) q fun _ => σ'.next C

section

variable {C : List Instr} {c : Context} {ss : List Stmt}

theorem simulates_stmts (hss : ∀ s ∈ ss, Simulates C (Lower.stmt s) (Exec.stmt c s)) :
    Simulates C (Lower.stmts ss) (Exec.stmts c ss) := by
  induction ss with
  | nil =>
    intro σ σ' h hC
    rw [Lower.stmts] at h
    obtain ⟨-, rfl⟩ := pure_ok h
    rw [Exec.stmts]
    exact CarriesOut.pure C σ.targets () fun _ => σ.next C
  | cons s ss ih =>
    intro σ σ' h hC
    rw [Lower.stmts] at h
    obtain ⟨_, σ₁, h₁, h₂⟩ := bind_eq_ok h
    have hg₁ := (Lower.tidy_stmt s).grows h₁
    have hg₂ := (Lower.tidy_stmts ss).grows h₂
    have hs := hss s (by simp) h₁ (hg₂.code.trans hC)
    have hrest := ih (fun s hs => hss s (by simp [hs])) h₂ hC
    rw [hg₁.targets] at hrest
    rw [Exec.stmts]
    exact hs.bind fun _ => hrest

/-- The code of a condition goes on at the one label or the other. -/
theorem carriesOut_condition {e : Expr} (he : e.Core) {σ σ₁ σ₂ : Lowering} {t : Option Temp}
    {yes no : Label} {l : Nat} {yesPlace noPlace : List Instr} (h₁ : Lower.expr e σ = .ok t σ₁)
    (h₂ : σ₂.code = σ₁.code.push { op := .branch (Lower.operand t) yes no, line := l })
    (hC : σ₂.code.toList <+: C) (hyes : Instr.fromLabel yes C = some yesPlace)
    (hno : Instr.fromLabel no C = some noPlace) (targets : Targets) :
    CarriesOut C targets (σ.next C) (Eval.expr c e >>= Run.isTrue)
      fun b => if b then yesPlace else noPlace := by
  obtain ⟨k, rfl, -, -, hv⟩ := computes_expr he h₁ (Lowering.prefix_of_push h₂ hC)
  rw [Lowering.next_push h₂ hC] at hv
  exact carriesOut_branch hv hyes hno targets

/-- From `σ` to `σ'` the code is that of a condition and of a body that jumps to `back` at its end.
Where the condition does not hold, the code goes on at `no`. -/
inductive Arm (e : Expr) (body : List Stmt) (l : Nat) (no back : Label) (σ σ' : Lowering) : Prop
  | laid {t inside σ₁ σ₂ σ₃ σ₄ σ₅} : Lower.expr e σ = .ok t σ₁ → σ₁.Idle σ₂ →
      Lower.emit l (.branch (Lower.operand t) inside no) σ₂ = .ok () σ₃ →
      Lower.emit l (.label inside) σ₃ = .ok () σ₄ → Lower.stmts body σ₄ = .ok () σ₅ →
      Lower.emit l (.jump back) σ₅ = .ok () σ' → Arm e body l no back σ σ'

section

variable {e : Expr} {body : List Stmt} {l : Nat} {no back : Label} {σ σ' : Lowering}

theorem Arm.code (h : Arm e body l no back σ σ') : σ.code.toList <+: σ'.code.toList := by
  obtain ⟨hexpr, hidle, hbranch, hinside, hstmts, hjump⟩ := h
  have hcondition := ((Lower.tidy_expr e).grows hexpr).code
  have hbody := ((Lower.tidy_stmts body).grows hstmts).code
  rw [← hidle.code] at hcondition
  have hplaced := (Lower.emit_ok hbranch).2.code.trans (Lower.emit_ok hinside).2.code
  exact hcondition.trans (hplaced.trans (hbody.trans (Lower.emit_ok hjump).2.code))

theorem Arm.targets (h : Arm e body l no back σ σ') : σ'.targets = σ.targets := by
  obtain ⟨hexpr, hidle, hbranch, hinside, hstmts, hjump⟩ := h
  rw [(Lower.emit_ok hjump).2.targets, ((Lower.tidy_stmts body).grows hstmts).targets,
    (Lower.emit_ok hinside).2.targets, (Lower.emit_ok hbranch).2.targets, hidle.targets,
    ((Lower.tidy_expr e).grows hexpr).targets]

theorem Arm.carriesOut (h : Arm e body l no back σ σ') (hnodup : (Instr.labels C).Nodup)
    (he : e.Core) (hbody : Simulates C (Lower.stmts body) (Exec.stmts c body))
    {noPlace backPlace : List Instr} (hno : Instr.fromLabel no C = some noPlace)
    (hback : Instr.fromLabel back C = some backPlace) (hC : σ'.code.toList <+: C) :
    ∃ yes, (∀ t, CarriesOut C t (σ.next C) (Eval.expr c e >>= Run.isTrue)
        fun b => if b then yes else noPlace) ∧
      CarriesOut C σ.targets yes (Exec.stmts c body) fun _ => backPlace := by
  obtain @⟨t, inside, σ₁, σ₂, σ₃, σ₄, σ₅, hexpr, hidle, hbranch, hinside, hstmts, hjump⟩ := h
  have hg₁ := (Lower.tidy_expr e).grows hexpr
  have hg₅ := (Lower.tidy_stmts body).grows hstmts
  obtain ⟨hbranch, hg₃⟩ := Lower.emit_ok hbranch
  obtain ⟨hinside, hg₄⟩ := Lower.emit_ok hinside
  obtain ⟨hjump, hg⟩ := Lower.emit_ok hjump
  have hC₅ := hg.code.trans hC
  have hC₄ := hg₅.code.trans hC₅
  have hyes := Lowering.fromLabel_of_push hinside hC₄ hnodup
  have hruns := hbody hstmts hC₅
  rw [hg₄.targets, hg₃.targets, hidle.targets, hg₁.targets] at hruns
  have hleave : Skips C (σ₅.next C) backPlace := by
    rw [Lowering.next_push hjump hC]
    exact skips_jump hback l _
  refine ⟨σ₃.next C, fun t => ?_, ?_⟩
  · exact carriesOut_condition he hexpr (hidle.code ▸ hbranch) (hg₄.code.trans hC₄) hyes hno t
  · exact .before (Lowering.skips_placed hinside hC₄) (hruns.after fun _ => hleave)

end

theorem exec_branches_cons (condition : Expr) (body : List Stmt) (bs : List Branch) :
    Exec.branches c (.mk condition body :: bs) = (do
      if ← Run.isTrue (← Eval.expr c condition) then
        Exec.stmts c body
        return true
      else Exec.branches c bs) := by
  rw [Exec.branches]

theorem carriesOut_branches (hnodup : (Instr.labels C).Nodup) {bs : List Branch}
    (hconditions : ∀ b ∈ bs, (Branch.condition b).Core)
    (hbodies : ∀ b ∈ bs, Simulates C (Lower.stmts (Branch.body b)) (Exec.stmts c (Branch.body b)))
    {l : Nat} {out otherwise : Label} {outPlace elsePlace : List Instr}
    (hout : Instr.fromLabel out C = some outPlace)
    (helse : Instr.fromLabel otherwise C = some elsePlace) {labels : List Label}
    (hlength : labels.length = bs.length) {σ σ' : Lowering}
    (h : Lower.branches l out otherwise labels bs σ = .ok () σ') (hC : σ'.code.toList <+: C) :
    ∃ start, Instr.fromLabel (labels.headD otherwise) C = some start ∧
      CarriesOut C σ.targets start (Exec.branches c bs)
        fun taken => if taken then outPlace else elsePlace := by
  induction bs generalizing labels σ with
  | nil =>
    rw [List.eq_nil_of_length_eq_zero hlength, Exec.branches]
    exact ⟨elsePlace, helse, CarriesOut.pure C σ.targets false
      fun taken => if taken then outPlace else elsePlace⟩
  | cons b bs ih =>
    obtain ⟨condition, body⟩ := b
    obtain ⟨label, labels, rfl⟩ := List.exists_cons_of_length_eq_add_one hlength
    rw [Lower.branches] at h
    obtain ⟨_, σ₁, hlabel, h⟩ := bind_eq_ok h
    obtain ⟨t, σ₂, hexpr, h⟩ := bind_eq_ok h
    obtain ⟨inside, σ₃, hfresh, h⟩ := bind_eq_ok h
    obtain ⟨_, σ₄, hbranch, h⟩ := bind_eq_ok h
    obtain ⟨_, σ₅, hinside, h⟩ := bind_eq_ok h
    obtain ⟨_, σ₆, hstmts, h⟩ := bind_eq_ok h
    obtain ⟨_, σ₇, hjump, hrest⟩ := bind_eq_ok h
    have harm : Arm condition body l (labels.headD otherwise) out σ₁ σ₇ :=
      .laid hexpr (Lowering.idle_freshLabel hfresh) hbranch hinside hstmts hjump
    obtain ⟨hlabel, hg₁⟩ := Lower.emit_ok hlabel
    have hlength' : labels.length = bs.length := by simpa using hlength
    have hg₈ := (Lower.lays_branches l out otherwise bs labels 0 hlength' _ _ _ hrest).1
    have hC₇ := hg₈.code.trans hC
    have hC₁ := harm.code.trans hC₇
    obtain ⟨start, hstart, hothers⟩ := ih (fun b hb => hconditions b (by simp [hb]))
      (fun b hb => hbodies b (by simp [hb])) hlength' hrest
    rw [harm.targets, hg₁.targets] at hothers
    obtain ⟨yes, hcondition, hbody⟩ := harm.carriesOut hnodup
      (hconditions (.mk condition body) (by simp)) (hbodies (.mk condition body) (by simp)) hstart
      hout hC₇
    rw [hg₁.targets] at hbody
    refine ⟨σ.next C, Lowering.fromLabel_of_push hlabel hC₁ hnodup, ?_⟩
    rw [exec_branches_cons]
    refine .before (Lowering.skips_placed hlabel hC₁) ((hcondition _).test ?_ hothers)
    refine hbody.bind fun _ => ?_
    exact CarriesOut.pure C σ.targets true fun taken => if taken then outPlace else elsePlace

/-- `elsePlace` is the place of a `warna` part that runs `elseRun`, and `outPlace` is the end of the
conditional. -/
structure ElsePart (C : List Instr) (t : Targets) (out otherwise : Label) (elseRun : Run Unit)
    (stop outPlace elsePlace : List Instr) : Prop where
  out_found : Instr.fromLabel out C = some outPlace
  else_found : Instr.fromLabel otherwise C = some elsePlace
  leaves : Skips C outPlace stop
  runs : CarriesOut C t elsePlace elseRun fun _ => outPlace

theorem carriesOut_ladder (hnodup : (Instr.labels C).Nodup) {e : Expr} {body : List Stmt}
    {bs : List Branch} (he : e.Core) (hbody : Simulates C (Lower.stmts body) (Exec.stmts c body))
    (hconditions : ∀ b ∈ bs, (Branch.condition b).Core)
    (hbodies : ∀ b ∈ bs, Simulates C (Lower.stmts (Branch.body b)) (Exec.stmts c (Branch.body b)))
    {l : Nat} {inside out otherwise : Label} {labels : List Label}
    (hlength : labels.length = bs.length) {last : Lower Unit} {elseRun : Run Unit} {σ σ' : Lowering}
    (hlast : ∀ {τ}, last τ = .ok () σ' →
      τ.Grows σ' ∧ ∃ outPlace elsePlace,
        ElsePart C τ.targets out otherwise elseRun (σ'.next C) outPlace elsePlace)
    (h : (do
      let condition ← Lower.expr e
      Lower.emit l (.branch (Lower.operand condition) inside (labels.headD otherwise))
      Lower.emit l (.label inside)
      Lower.stmts body
      Lower.emit l (.jump out)
      Lower.branches l out otherwise labels bs
      last) σ = .ok () σ') (hC : σ'.code.toList <+: C) :
    CarriesOut C σ.targets (σ.next C) (do
      if ← Run.isTrue (← Eval.expr c e) then Exec.stmts c body
      else if ← Exec.branches c bs then return ()
      else elseRun) fun _ => σ'.next C := by
  obtain ⟨t, σ₁, hexpr, h⟩ := bind_eq_ok h
  obtain ⟨_, σ₂, hbranch, h⟩ := bind_eq_ok h
  obtain ⟨_, σ₃, hinside, h⟩ := bind_eq_ok h
  obtain ⟨_, σ₄, hthen, h⟩ := bind_eq_ok h
  obtain ⟨_, σ₅, hjump, h⟩ := bind_eq_ok h
  obtain ⟨_, σ₆, hbranches, h⟩ := bind_eq_ok h
  have harm : Arm e body l (labels.headD otherwise) out σ σ₅ :=
    .laid hexpr (.refl σ₁) hbranch hinside hthen hjump
  obtain ⟨hg₇, outPlace, elsePlace, rest⟩ := hlast h
  have hg₆ := (Lower.lays_branches l out otherwise bs labels 0 hlength _ _ _ hbranches).1
  have hC₆ := hg₇.code.trans hC
  have hC₅ := hg₆.code.trans hC₆
  obtain ⟨start, hstart, hothers⟩ := carriesOut_branches hnodup hconditions hbodies rest.out_found
    rest.else_found hlength hbranches hC₆
  obtain ⟨yes, hcondition, hbody⟩ := harm.carriesOut hnodup he hbody hstart rest.out_found hC₅
  have hrest := rest.runs
  rw [harm.targets] at hothers
  rw [hg₆.targets, harm.targets] at hrest
  have done := CarriesOut.pure C σ.targets () fun _ => outPlace
  have hbelow := hothers.bind fun _ => .ite done hrest
  exact ((hcondition _).test hbody hbelow).after fun _ => rest.leaves

theorem simulates_ifElse (hnodup : (Instr.labels C).Nodup) {e : Expr} {body : List Stmt}
    {bs : List Branch} {otherwise : Option (List Stmt)} (l : Nat) (he : e.Core)
    (hbody : Simulates C (Lower.stmts body) (Exec.stmts c body))
    (hconditions : ∀ b ∈ bs, (Branch.condition b).Core)
    (hbodies : ∀ b ∈ bs, Simulates C (Lower.stmts (Branch.body b)) (Exec.stmts c (Branch.body b)))
    (helse : ∀ b ∈ otherwise, Simulates C (Lower.stmts b) (Exec.stmts c b)) :
    Simulates C (Lower.stmt (.ifElse e body bs otherwise l))
      (Exec.stmt c (.ifElse e body bs otherwise l)) := by
  intro σ σ' h hC
  cases otherwise with
  | none =>
    rw [Lower.stmt] at h
    obtain ⟨inside, σ₁, hinside, h⟩ := bind_eq_ok h
    obtain ⟨out, σ₂, hout, h⟩ := bind_eq_ok h
    obtain ⟨labels, σ₃, hlabels, h⟩ := bind_eq_ok h
    have hidle := ((Lowering.idle_freshLabel hinside).trans (Lowering.idle_freshLabel hout)).trans
      (Lowering.idle_freshLabels hlabels)
    rw [Exec.stmt, ← hidle.next, ← hidle.targets]
    refine carriesOut_ladder hnodup he hbody hconditions hbodies (Lower.length_freshLabels hlabels)
      (fun {τ} hlast => ?_) h hC
    obtain ⟨hcode, hg⟩ := Lower.emit_ok hlast
    have hfound := Lowering.fromLabel_of_push hcode hC hnodup
    exact ⟨hg, τ.next C, τ.next C, hfound, hfound, Lowering.skips_placed hcode hC,
      CarriesOut.pure C τ.targets () fun _ => τ.next C⟩
  | some b =>
    rw [Lower.stmt] at h
    obtain ⟨inside, σ₁, hinside, h⟩ := bind_eq_ok h
    obtain ⟨out, σ₂, hout, h⟩ := bind_eq_ok h
    obtain ⟨labels, σ₃, hlabels, h⟩ := bind_eq_ok h
    obtain ⟨elseLabel, σ₄, helseLabel, h⟩ := bind_eq_ok h
    have hidle := ((Lowering.idle_freshLabel hinside).trans (Lowering.idle_freshLabel hout)).trans
      ((Lowering.idle_freshLabels hlabels).trans (Lowering.idle_freshLabel helseLabel))
    rw [Exec.stmt, ← hidle.next, ← hidle.targets]
    refine carriesOut_ladder hnodup he hbody hconditions hbodies (Lower.length_freshLabels hlabels)
      (fun {τ} hlast => ?_) h hC
    obtain ⟨_, τ₁, hlabel, hlast⟩ := bind_eq_ok hlast
    obtain ⟨_, τ₂, hstmts, hlast⟩ := bind_eq_ok hlast
    obtain ⟨hlabel, hg₁⟩ := Lower.emit_ok hlabel
    obtain ⟨hcode, hg₃⟩ := Lower.emit_ok hlast
    have hg₂ := (Lower.tidy_stmts b).grows hstmts
    have hC₂ := hg₃.code.trans hC
    have hC₁ := hg₂.code.trans hC₂
    have hruns := helse b rfl hstmts hC₂
    rw [hg₁.targets] at hruns
    exact ⟨hg₁.trans (hg₂.trans hg₃), τ₂.next C, τ.next C,
      Lowering.fromLabel_of_push hcode hC hnodup, Lowering.fromLabel_of_push hlabel hC₁ hnodup,
      Lowering.skips_placed hcode hC, hruns.before (Lowering.skips_placed hlabel hC₁)⟩

theorem simulates_whileLoop (hnodup : (Instr.labels C).Nodup) {e : Expr} {body : List Stmt}
    (l : Nat) (he : e.Core) (hbody : Simulates C (Lower.stmts body) (Exec.stmts c body)) :
    Simulates C (Lower.stmt (.whileLoop e body l)) (Exec.stmt c (.whileLoop e body l)) := by
  intro σ σ' h hC
  rw [Lower.stmt] at h
  obtain ⟨again, σ₁, hagain, h⟩ := bind_eq_ok h
  obtain ⟨inside, σ₂, hinside, h⟩ := bind_eq_ok h
  obtain ⟨out, σ₃, hout, h⟩ := bind_eq_ok h
  have hidle := ((Lowering.idle_freshLabel hagain).trans (Lowering.idle_freshLabel hinside)).trans
    (Lowering.idle_freshLabel hout)
  obtain ⟨_, σ₄, henter, h⟩ := bind_eq_ok h
  obtain ⟨_, σ₅, hlaid, hleave⟩ := bind_eq_ok h
  cases hleave
  obtain ⟨_, σ₆, hagain, h⟩ := bind_eq_ok hlaid
  obtain ⟨t, σ₇, hexpr, h⟩ := bind_eq_ok h
  obtain ⟨_, σ₈, hbranch, h⟩ := bind_eq_ok h
  obtain ⟨_, σ₉, hinside, h⟩ := bind_eq_ok h
  obtain ⟨_, σ₁₀, hstmts, h⟩ := bind_eq_ok h
  obtain ⟨_, σ₁₁, hjump, hout⟩ := bind_eq_ok h
  have harm : Arm e body l out again σ₆ σ₁₁ :=
    .laid hexpr (.refl σ₇) hbranch hinside hstmts hjump
  obtain ⟨hagain, hg₆⟩ := Lower.emit_ok hagain
  obtain ⟨hout, hg₁₂⟩ := Lower.emit_ok hout
  have hC₁₁ := hg₁₂.code.trans hC
  have hC₆ := harm.code.trans hC₁₁
  have hagainPlace := Lowering.fromLabel_of_push hagain hC₆ hnodup
  have houtPlace := Lowering.fromLabel_of_push hout hC hnodup
  obtain ⟨yes, hcondition, hturn⟩ := harm.carriesOut hnodup he hbody houtPlace hagainPlace hC₁₁
  -- inside the loop its own ends are the targets
  have htargets : σ₆.targets = { out := some out, again := some again } := by
    rw [hg₆.targets]
    cases henter
    rfl
  have hstart : σ.next C = σ₄.next C := by
    rw [← hidle.next]
    cases henter
    rfl
  rw [htargets] at hturn
  rw [Exec.stmt, hstart]
  have htest := (hcondition σ.targets).before (Lowering.skips_placed hagain hC₆)
  refine .after (.whileLoop htest ?_ _ l _) fun _ => Lowering.skips_placed hout hC
  exact .turn σ.targets hagainPlace houtPlace hturn

/-- Leaving a loop leads to the innermost of its targets, if there is one. -/
theorem skips_leave {targets : Lowering → List Label} {l : Nat} {σ σ' : Lowering} {target : Label}
    {stop : List Instr}
    (h : (do if let target :: _ := targets (← get) then Lower.emit l (.jump target) :
      Lower Unit) σ = .ok () σ')
    (hC : σ'.code.toList <+: C) (htarget : (targets σ).head? = some target)
    (hstop : Instr.fromLabel target C = some stop) : Skips C (σ.next C) stop := by
  obtain ⟨rest, htargets⟩ := List.head?_eq_some_iff.mp htarget
  have h := bind_get_ok h
  rw [htargets] at h
  rw [Lowering.next_push (Lower.emit_ok h).1 hC]
  exact skips_jump hstop l _

theorem simulates_breakLoop (l : Nat) :
    Simulates C (Lower.stmt (.breakLoop l)) (Exec.stmt c (.breakLoop l)) := by
  intro σ σ' h hC
  rw [Lower.stmt] at h
  rw [Exec.stmt]
  refine ⟨fun _ hok => absurd hok throw_ne_ok, fun hm herr => ?_⟩
  cases herr
  exact ⟨hm, fun out hout stop hstop => skips_leave h hC hout hstop _⟩

theorem simulates_continueLoop (l : Nat) :
    Simulates C (Lower.stmt (.continueLoop l)) (Exec.stmt c (.continueLoop l)) := by
  intro σ σ' h hC
  rw [Lower.stmt] at h
  rw [Exec.stmt]
  refine ⟨fun _ hok => absurd hok throw_ne_ok, fun hm herr => ?_⟩
  cases herr
  exact ⟨hm, fun again hagain stop hstop => skips_leave h hC hagain hstop _⟩

theorem simulates_stmt (hnodup : (Instr.labels C).Nodup) {s : Stmt} (hs : s.Core) :
    Simulates C (Lower.stmt s) (Exec.stmt c s) := by
  induction hs with
  | assign x l he =>
    intro σ σ' h hC
    rw [Lower.stmt] at h
    obtain ⟨t, σ₁, hexpr, h⟩ := bind_eq_ok h
    obtain ⟨hcode, -⟩ := Lower.emit_ok h
    obtain ⟨k, rfl, -, -, hv⟩ := computes_expr he hexpr (Lowering.prefix_of_push hcode hC)
    rw [Lowering.next_push hcode hC] at hv
    rw [Exec.stmt]
    exact carriesOut_assign hv σ.targets
  | print l hes =>
    intro σ σ' h hC
    rw [Lower.stmt] at h
    obtain ⟨ts, σ₁, hexprs, h⟩ := bind_eq_ok h
    obtain ⟨hcode, -⟩ := Lower.emit_ok h
    obtain ⟨ks, rfl, hvs⟩ := computes_exprs hes hexprs (Lowering.prefix_of_push hcode hC)
    rw [Lowering.next_push hcode hC, List.map_map] at hvs
    rw [Exec.stmt]
    exact carriesOut_print hvs σ.targets
  | ifElse l he _ hconditions _ _ ihbody ihbranches ihelse =>
    exact simulates_ifElse hnodup l he (simulates_stmts ihbody) hconditions
      (fun b hb => simulates_stmts (ihbranches b hb)) fun b hb => simulates_stmts (ihelse b hb)
  | whileLoop l he _ ih => exact simulates_whileLoop hnodup l he (simulates_stmts ih)
  | breakLoop l => exact simulates_breakLoop l
  | continueLoop l => exact simulates_continueLoop l

end

namespace Lower

variable {α β : Type}

def Total (p : Lower α) : Prop :=
  ∀ σ, ∃ a σ', p σ = .ok a σ'

theorem Total.bind {p : Lower α} {f : α → Lower β} (hp : Total p) (hf : ∀ a, Total (f a)) :
    Total (p >>= f) := by
  intro σ
  obtain ⟨a, σ₁, h₁⟩ := hp σ
  obtain ⟨b, σ', h'⟩ := hf a σ₁
  exact ⟨b, σ', (bind_of_ok h₁).trans h'⟩

theorem total_pure (a : α) : Total (pure a : Lower α) :=
  fun σ => ⟨a, σ, rfl⟩

theorem total_modify (f : Lowering → Lowering) : Total (modify f) :=
  fun σ => ⟨(), f σ, rfl⟩

theorem total_modifyGet (f : Lowering → α × Lowering) : Total (modifyGet f : Lower α) :=
  fun σ => ⟨(f σ).1, (f σ).2, rfl⟩

theorem total_emit (l : Nat) (op : Operation) : Total (emit l op) :=
  total_modify _

theorem total_freshLabels (hint : String) (n : Nat) : Total (freshLabels hint n) := by
  induction n with
  | zero => exact total_pure _
  | succ n ih => exact (total_modifyGet _).bind fun l => ih.bind fun ls => total_pure _

/-- One more instruction computes into a new temporary. -/
theorem total_result (l : Nat) (op : Temp → Operation) :
    Total (do
      let t ← freshTemp
      emit l (op t)
      return some t) :=
  (total_modifyGet _).bind fun t => (total_emit l (op t)).bind fun _ => total_pure _

theorem total_expr {e : Expr} (he : e.Core) : Total (expr e) := by
  induction he with
  | literal k v l =>
    rw [expr]
    exact total_result l fun t => .assign t (.scalar v)
  | var x l =>
    rw [expr]
    exact total_result l fun t => .copy (.temp t) (.named x)
  | binary l _ _ _ _ iha ihb =>
    rw [expr]
    refine iha.bind fun a => ihb.bind fun b => ?_
    exact total_result l fun t => .binary t _ (operand a) (operand b)
  | unary op l _ ih =>
    rw [expr]
    exact ih.bind fun a => total_result l fun t => .unary t op.symbol (operand a)
  | paren l _ ih =>
    rw [expr]
    exact ih

theorem total_exprs {es : List Expr} (hes : ∀ e ∈ es, e.Core) : Total (exprs es) := by
  induction es with
  | nil =>
    rw [exprs]
    exact total_pure _
  | cons e es ih =>
    rw [exprs]
    refine (total_expr (hes e (by simp))).bind fun t => ?_
    exact (ih fun e he => hes e (by simp [he])).bind fun ts => total_pure _

theorem total_stmts {ss : List Stmt} (hss : ∀ s ∈ ss, Total (stmt s)) : Total (stmts ss) := by
  induction ss with
  | nil =>
    rw [stmts]
    exact total_pure _
  | cons s ss ih =>
    rw [stmts]
    exact (hss s (by simp)).bind fun _ => ih fun s hs => hss s (by simp [hs])

theorem total_branches {bs : List Branch} (hconditions : ∀ b ∈ bs, (Branch.condition b).Core)
    (hbodies : ∀ b ∈ bs, Total (stmts (Branch.body b))) (l : Nat) (out otherwise : Label)
    (labels : List Label) : Total (branches l out otherwise labels bs) := by
  induction bs generalizing labels with
  | nil =>
    rw [branches]
    exact total_pure _
  | cons b bs ih =>
    obtain ⟨condition, body⟩ := b
    have hcondition := total_expr (hconditions (.mk condition body) (by simp))
    have hbody := hbodies (.mk condition body) (by simp)
    have hrest := ih (fun b hb => hconditions b (by simp [hb]))
      (fun b hb => hbodies b (by simp [hb]))
    rw [branches]
    refine (total_emit l _).bind fun _ => hcondition.bind fun _ => ?_
    refine (total_modifyGet _).bind fun _ => ?_
    refine (total_emit l _).bind fun _ => (total_emit l _).bind fun _ => hbody.bind fun _ => ?_
    exact (total_emit l _).bind fun _ => hrest labels.tail

theorem total_leave (l : Nat) (targets : Lowering → List Label) : Total (do
    if let target :: _ := targets (← get) then emit l (.jump target)) := by
  refine Total.bind (fun σ => ⟨σ, σ, rfl⟩) fun σ => ?_
  split
  · exact total_emit l _
  · exact total_pure _

theorem total_stmt {s : Stmt} (hs : s.Core) : Total (stmt s) := by
  induction hs with
  | assign x l he =>
    rw [stmt]
    exact (total_expr he).bind fun _ => total_emit l _
  | print l hes =>
    rw [stmt]
    exact (total_exprs hes).bind fun _ => total_emit l _
  | @ifElse e body bs otherwise l he _ hconditions _ _ ihbody ihbranches ihelse =>
    have hbranches := total_branches hconditions (fun b hb => total_stmts (ihbranches b hb)) l
    cases otherwise with
    | none =>
      rw [stmt]
      refine (total_modifyGet _).bind fun _ => (total_modifyGet _).bind fun out => ?_
      refine (total_freshLabels _ _).bind fun labels => (total_expr he).bind fun _ => ?_
      refine (total_emit l _).bind fun _ => (total_emit l _).bind fun _ => ?_
      refine (total_stmts ihbody).bind fun _ => (total_emit l _).bind fun _ => ?_
      exact (hbranches out out labels).bind fun _ => total_emit l _
    | some b =>
      rw [stmt]
      refine (total_modifyGet _).bind fun _ => (total_modifyGet _).bind fun out => ?_
      refine (total_freshLabels _ _).bind fun labels => (total_modifyGet _).bind fun elseLabel => ?_
      refine (total_expr he).bind fun _ => (total_emit l _).bind fun _ => ?_
      refine (total_emit l _).bind fun _ => (total_stmts ihbody).bind fun _ => ?_
      refine (total_emit l _).bind fun _ => (hbranches out elseLabel labels).bind fun _ => ?_
      refine (total_emit l _).bind fun _ => (total_stmts (ihelse b rfl)).bind fun _ => ?_
      exact total_emit l _
  | whileLoop l he _ ih =>
    rw [stmt]
    refine (total_modifyGet _).bind fun _ => (total_modifyGet _).bind fun _ => ?_
    refine (total_modifyGet _).bind fun _ => (total_modify _).bind fun _ => ?_
    refine Total.bind ?_ fun _ => total_modify _
    refine (total_emit l _).bind fun _ => (total_expr he).bind fun _ => ?_
    refine (total_emit l _).bind fun _ => (total_emit l _).bind fun _ => ?_
    exact (total_stmts ih).bind fun _ => (total_emit l _).bind fun _ => total_emit l _
  | breakLoop l =>
    rw [stmt]
    exact total_leave l Lowering.breaks
  | continueLoop l =>
    rw [stmt]
    exact total_leave l Lowering.continues

end Lower

theorem rooted_session (ps : List SessionStep) (input : List Char) :
    (session ps (Machine.initial input)).Rooted := by
  have hcurrent := (session_samePlace ps (Machine.initial input)).current
  have hroot : (Machine.initial input).current < (Machine.initial input).scopes.all.size := by
    simp [Machine.initial]
  obtain ⟨hpresent, hdepth⟩ := Scopes.Extends.depth (session_nests ps (Machine.initial input)) hroot
  refine ⟨hcurrent ▸ hpresent, ?_⟩
  rw [hcurrent, hdepth]
  rfl

theorem Run.result_ok {body : Run Unit} {m m' : Machine} {v : Value}
    (h : Run.result body m = .ok v m') :
    body m = .ok () m' ∨ body m = .error (.giveBack v) m' := by
  unfold Run.result at h
  cases hbody : body m with
  | ok _ m₁ =>
    rw [hbody] at h
    cases h
    exact .inl rfl
  | error e m₁ =>
    rw [hbody] at h
    cases e with
    | giveBack w =>
      cases h
      exact .inr rfl
    | breakLoop | continueLoop | error d | fault f | exhausted => cases h

/-- The context in which the statements of a program are run. -/
def Setting.context (s : Setting) : Context :=
  { s with perform := perform s (budget - 1), turns := budget - 1 }

/-- A program ends when it has run through its statements or has given back a value. -/
theorem execute_eq_ok {s : Setting} {ss : List Stmt} {m m' : Machine} :
    execute s ss m = .ok () m' ↔ Exec.stmts s.context ss m = .ok () m' ∨
      ∃ v, Exec.stmts s.context ss m = .error (.giveBack v) m' := by
  have hperform : perform s budget (.statements ss) =
      (Exec.stmts s.context ss >>= fun _ => pure .none) := rfl
  unfold execute
  rw [hperform]
  constructor
  · intro h
    obtain ⟨v, hresult, -⟩ := map_eq_ok h
    rcases Run.result_ok hresult with hbody | hgave
    · obtain ⟨w, hrun, -⟩ := map_eq_ok hbody
      obtain ⟨_, m₁, hstmts, hpure⟩ := bind_eq_ok hrun
      obtain ⟨-, rfl⟩ := pure_ok hpure
      exact .inl hstmts
    · rcases bind_eq_error (map_eq_error hgave) with hstmts | ⟨_, m₁, hstmts, hpure⟩
      · exact .inr ⟨v, hstmts⟩
      · cases hpure
  · rintro (hstmts | ⟨v, hstmts⟩)
    · have hbody : discard (Exec.stmts s.context ss >>= fun _ => pure Value.none) m = .ok () m' :=
        map_of_ok ((bind_of_ok hstmts).trans rfl)
      exact map_of_ok (a := .none) (by simp only [Run.result, hbody])
    · have hbody : discard (Exec.stmts s.context ss >>= fun _ => pure Value.none) m =
          .error (.giveBack v) m' := map_of_error (bind_of_error hstmts)
      exact map_of_ok (a := v) (by simp only [Run.result, hbody])

theorem execute_ok {s : Setting} {ss : List Stmt} {m m' : Machine}
    (h : execute s ss m = .ok () m') : ∃ c : Context, Exec.stmts c ss m = .ok () m' ∨
      ∃ v, Exec.stmts c ss m = .error (.giveBack v) m' :=
  ⟨s.context, execute_eq_ok.mp h⟩

/-- The machine as the next program of a session finds it. -/
def Machine.ready (m : Machine) (input : List Char) : Machine :=
  { m with output := "", input }

/-- The code of an imperative program does what the program does: if a program ends, at whatever
point of a session, then its code, started with the same names and heap, comes to its end with the
output, the names and the heap that the program ends with. -/
theorem runCode_of_execute {p : Program} (hp : ∀ s ∈ p.statements, s.Core) (s : Setting)
    (ps : List SessionStep) (first input : List Char) {m m' : Machine}
    (hm : m = (session ps (Machine.initial first)).ready input)
    (h : execute s p.statements m = .ok () m') :
    ∃ code n st, lower p = (code, none) ∧
      runCode code n
        { next := code, names := m.scopes.bindings Machine.globalScope, heap := m.heap } = some st ∧
      st.output = m'.output ∧ st.names = m'.scopes.bindings Machine.globalScope ∧
      st.heap = m'.heap := by
  obtain ⟨_, σ, hlower⟩ := Lower.total_stmts (fun s hs => Lower.total_stmt (hp s hs)) {}
  have hlowered : lower p = (σ.code.toList, none) := by
    unfold lower lowerStatements lowering
    rw [hlower]
  have hroot : m.current = Machine.globalScope :=
    hm ▸ (session_samePlace ps (Machine.initial first)).current
  have hrooted : m.Rooted := by
    have hsession := rooted_session ps first
    exact hm ▸ ⟨hsession.present, hsession.outermost⟩
  have houtput : m.output = "" := hm ▸ rfl
  obtain ⟨c, hends⟩ := execute_ok h
  have hsim := simulates_stmts (c := c)
    (fun s hs => simulates_stmt (labels_nodup hlower) (hp s hs)) hlower (List.prefix_refl _)
  rcases hends with hends | ⟨v, hgave⟩
  · have hroot' : m'.current = Machine.globalScope := by
      have hplace := samePlace_discipline.execute s p.statements m
      rw [finalState_ok h] at hplace
      exact hplace.current.trans hroot
    obtain ⟨-, harrives⟩ := hsim.ends hrooted hends
    obtain ⟨temps, hreach⟩ := harrives []
    have hend : σ.next σ.code.toList = [] := by simp [Lowering.next]
    obtain ⟨n, hn⟩ := runCode_of_reaches hreach hend
    refine ⟨σ.code.toList, n, m'.coded (σ.next σ.code.toList) temps, hlowered, ?_, rfl, ?_, rfl⟩
    · rw [← hroot, ← hn, Machine.coded, houtput]
      rfl
    · rw [← hroot']
      rfl
  · exact (hsim.exits hrooted hgave).elim

theorem runCode_of_execute_counting :
    let p : Program :=
      { statements := [.whileLoop (.literal .boolean (.bool true) 1)
          [.assign "i" (.binary .add (.var "i" 2) (.literal .number (.int 1) 2) 2) 2,
           .ifElse (.binary .equal (.var "i" 3) (.literal .number (.int 2) 3) 3) [.continueLoop 3]
            [.mk (.binary .greater (.var "i" 4) (.literal .number (.int 3) 4) 4) [.breakLoop 4]]
            (some [.print [.var "i" 5] 5]) 3] 1] }
    let m := (session [{ statements := [.assign "i" (.literal .number (.int 0) 1) 1] }]
      (Machine.initial [])).ready []
    ∃ code n st, lower p = (code, none) ∧
      runCode code n
        { next := code, names := m.scopes.bindings Machine.globalScope, heap := m.heap } = some st ∧
      st.output = "1\n3\n" := by
  intro p m
  have hcore : ∀ s ∈ p.statements, s.Core := by
    have hx (l : Nat) : (Expr.var "i" l).Core := .var "i" l
    have hn (n : Int) (l : Nat) : (Expr.literal .number (.int n) l).Core := .literal _ _ l
    have hloop : ∀ s ∈ [Stmt.breakLoop 4], s.Core := List.forall_mem_singleton.mpr (.breakLoop 4)
    refine List.forall_mem_singleton.mpr (.whileLoop 1 (.literal _ _ 1) ?_)
    refine List.forall_mem_cons.mpr ⟨.assign "i" 2 ?_, ?_⟩
    · exact .binary 2 (by decide) (by decide) (hx 2) (hn 1 2)
    refine List.forall_mem_singleton.mpr
      (.ifElse 3 (.binary 3 (by decide) (by decide) (hx 3) (hn 2 3)) ?_ ?_ ?_ ?_)
    · exact List.forall_mem_singleton.mpr (.continueLoop 3)
    · exact List.forall_mem_singleton.mpr (.binary 4 (by decide) (by decide) (hx 4) (hn 3 4))
    · exact List.forall_mem_singleton.mpr hloop
    · rintro ss ⟨⟩
      exact List.forall_mem_singleton.mpr (.print 5 (List.forall_mem_singleton.mpr (hx 5)))
  have hends : succeeds (execute {} p.statements) m = true := by decide +kernel
  have houtput : (finalState (execute {} p.statements) m).output = "1\n3\n" := by decide +kernel
  obtain ⟨code, n, st, hcode, hrun, hsame, -⟩ :=
    runCode_of_execute hcore {} _ [] [] rfl (ok_of_succeeds hends)
  exact ⟨code, n, st, hcode, hrun, hsame.trans houtput⟩

end Bhasha
