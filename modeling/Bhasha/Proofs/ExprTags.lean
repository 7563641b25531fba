import Bhasha.Proofs.AnalyserBalance
import Bhasha.Proofs.LoopTermination
import Bhasha.Proofs.OperandRules

namespace Bhasha

/-- The scopes are the same, and so is the current one. -/
structure Machine.SameScopes (m m' : Machine) : Prop where
  scopes : m'.scopes = m.scopes
  current : m'.current = m.current

open Machine (SameScopes)

instance : Std.Refl SameScopes :=
  ⟨fun _ => ⟨rfl, rfl⟩⟩

instance : IsTrans Machine SameScopes :=
  ⟨fun _ _ _ h h' => ⟨h'.scopes.trans h.scopes, h'.current.trans h.current⟩⟩

theorem Machine.sameScopes_heap (m : Machine) (heap : Heap) : m.SameScopes { m with heap } :=
  ⟨rfl, rfl⟩

namespace Eval

variable {c : Context}

mutual

theorem sameScopes_expr : ∀ e : Expr, e.every Expr.isTame = true →
    Keeps SameScopes (expr c e)
  | .literal _ v _, _ => by
    rw [expr]
    exact Run.keeps_work Machine.sameScopes_heap _
  | .list es _, h => by
    rw [expr]
    exact .bind (sameScopes_exprs es h) fun _ => Run.keeps_work Machine.sameScopes_heap _
  | .dict ps l, h => by
    rw [expr]
    exact .bind (sameScopes_entries l ps h _) fun _ => Run.keeps_work Machine.sameScopes_heap _
  | .var x _, _ => by
    rw [expr]
    exact Run.keeps_lookup _ x
  | .binary op a b l, h => by
    have h : (a.every Expr.isTame && b.every Expr.isTame) = true := h
    obtain ⟨ha, hb⟩ := Bool.and_eq_true_iff.1 h
    have hright : Keeps SameScopes (do return Value.bool (← Run.isTrue (← expr c b)) : Run Value) :=
      .bind (sameScopes_expr b hb) fun _ => .bind (Run.keeps_isTrue _) fun _ => .pure _
    rw [expr]
    refine .bind (sameScopes_expr a ha) fun left => ?_
    split
    · exact .bind (Run.keeps_isTrue left) fun _ => .ite (.pure _) hright
    · exact .bind (Run.keeps_isTrue left) fun _ => .ite (.pure _) hright
    · refine .bind (sameScopes_expr b hb) fun _ => ?_
      exact Run.keeps_binary Machine.sameScopes_heap _ _ _ _ _
  | .unary op a l, h => by
    rw [expr]
    refine .bind (sameScopes_expr a h) fun _ => ?_
    exact Run.keeps_unary Machine.sameScopes_heap _ _ _
  | .paren a _, h => by
    rw [expr]
    exact sameScopes_expr a h
  | .lambda ps b _, _ => by
    rw [expr]
    exact .bind .get fun _ => .pure _
  | .property a x l, h => by
    rw [expr]
    refine .bind (sameScopes_expr a h) fun v => .bind (Run.keeps_objectFor _ v l) fun o => ?_
    split
    · exact .pure _
    · exact Run.keeps_fault _
  | .thisObject l, _ => by
    rw [expr]
    exact Run.keeps_thisObject l
  | .index a i l, h => by
    have h : (a.every Expr.isTame && i.every Expr.isTame) = true := h
    obtain ⟨ha, hi⟩ := Bool.and_eq_true_iff.1 h
    rw [expr]
    refine .bind (sameScopes_expr a ha) fun _ => .bind (sameScopes_expr i hi) fun _ => ?_
    exact Run.keeps_indexInto _ _ _
  | .foreign cls _ l, _ => by
    rw [expr]
    exact Run.keeps_error _
  | .call _ _ _, h | .method _ _ _ _, h | .newObject _ _ _, h | .superCall _ _ _, h => by
    cases h
termination_by structural e => e

theorem sameScopes_exprs : ∀ es : List Expr, Expr.everyAll Expr.isTame es = true →
    Keeps SameScopes (exprs c es)
  | [], _ => by
    rw [exprs]
    exact .pure _
  | e :: es, h => by
    obtain ⟨he, hes⟩ := Bool.and_eq_true_iff.1 h
    rw [exprs]
    exact .bind (sameScopes_expr e he) fun _ => .bind (sameScopes_exprs es hes) fun _ => .pure _
termination_by structural es => es

theorem sameScopes_entries (line : Nat) : ∀ ps : List (Expr × Expr),
    Expr.everyPair Expr.isTame ps = true → ∀ d, Keeps SameScopes (entries c line d ps)
  | [], _, d => by
    rw [entries]
    exact .pure _
  | (k, v) :: ps, h, d => by
    obtain ⟨hkv, hps⟩ := Bool.and_eq_true_iff.1 h
    obtain ⟨hk, hv⟩ := Bool.and_eq_true_iff.1 hkv
    rw [entries]
    refine .bind (sameScopes_expr k hk) fun key => .bind (sameScopes_expr v hv) fun value => ?_
    exact .bind (Run.keeps_checkKey key line) fun _ => sameScopes_entries line ps hps _
termination_by structural ps => ps

end

end Eval

namespace Work

variable {h h' : Heap} {a b v : Value}

theorem tag_number {n : Num} (hv : number n h = .ok v h') : v.tag = .number := by
  cases n with
  | int n =>
    cases hv
    rfl
  | float x =>
    rw [number] at hv
    rcases ite_ok hv with ⟨-, hv⟩ | ⟨-, hv⟩
    · cases hv
      rfl
    · cases hv
      rfl

theorem tag_arithmetic {op : BinaryOp} {f : Num → Num → Except Fault Num}
    (hv : arithmetic op f a b h = .ok v h') : v.tag = .number := by
  unfold arithmetic at hv
  cases hx : a.num? with
  | none =>
    rw [hx] at hv
    exact absurd hv throw_ne_ok
  | some x =>
    cases hy : b.num? with
    | none =>
      rw [hx, hy] at hv
      exact absurd hv throw_ne_ok
    | some y =>
      rw [hx, hy] at hv
      obtain ⟨n, h₁, -, hv⟩ := bind_eq_ok hv
      exact tag_number hv

/-- What an operator says of two values is true or false. -/
theorem tag_predicate {op : BinaryOp} (hop : op.isPredicate = true)
    (hv : binary op a b h = .ok v h') : v.tag = .bool := by
  have hbool {r : Heap → Except Fault Bool} {f : Bool → Bool}
      (hv : (do return Value.bool (f (← ofExcept (r (← get)))) : Work Value) h = .ok v h') :
      v.tag = .bool := by
    obtain ⟨t, h₁, -, hv⟩ := bind_eq_ok (bind_get_ok hv)
    cases hv
    rfl
  cases op with
  | notEqual => exact hbool (f := not) hv
  | equal | less | greater | lessEqual | greaterEqual | or | and => exact hbool (f := id) hv
  | add | subtract | multiply | divide | modulo | unknown => cases hop

/-- Two numbers, neither of them a truth value, make a number. -/
theorem tag_numbers {op : BinaryOp} (hop : op.isPredicate = false) (hknown : ∀ s, op ≠ .unknown s)
    (ha : a.tag = .number) (hb : b.tag = .number) (hv : binary op a b h = .ok v h') :
    v.tag = .number := by
  cases op with
  | subtract => exact tag_arithmetic hv
  | divide =>
    have hv : divide a b h = .ok v h' := hv
    unfold divide at hv
    split at hv
    · exact absurd hv throw_ne_ok
    · exact tag_arithmetic hv
  | modulo =>
    have hv : modulo a b h = .ok v h' := hv
    unfold modulo at hv
    split at hv
    · exact absurd hv throw_ne_ok
    · split at hv
      · cases ha
      · exact tag_arithmetic hv
  | add =>
    have hadd : add a b = arithmetic .add Num.add a b := by
      cases a <;> cases ha <;> cases b <;> cases hb <;> rfl
    have hv : add a b h = .ok v h' := hv
    rw [hadd] at hv
    exact tag_arithmetic hv
  | multiply =>
    have hmultiply : multiply a b = arithmetic .multiply Num.mul a b := by
      cases a <;> cases ha <;> cases b <;> cases hb <;> rfl
    have hv : multiply a b h = .ok v h' := hv
    rw [hmultiply] at hv
    exact tag_arithmetic hv
  | unknown s => exact absurd rfl (hknown s)
  | equal | notEqual | less | greater | lessEqual | greaterEqual | or | and => cases hop

theorem tag_texts (ha : a.tag = .string) (hv : binary .add a b h = .ok v h') : v.tag = .string := by
  cases a with
  | str s =>
    obtain ⟨t, h₁, -, hv⟩ := bind_eq_ok (p := text b) hv
    cases hv
    rfl
  | _ => cases ha

end Work

theorem Run.work_eq_ok {α : Type} {w : Work α} {m m' : Machine} {v : α}
    (h : Run.work w m = .ok v m') : ∃ heap, w m.heap = .ok v heap := by
  unfold Run.work at h
  dsimp only at h
  split at h
  · next hw =>
    cases h
    exact ⟨_, hw⟩
  · cases h

theorem Run.binary_eq_ok {lang : Lang} {op : BinaryOp} {a b v : Value} {line : Nat}
    {m m' : Machine} (h : Run.binary lang op a b line m = .ok v m') :
    (∀ s, op ≠ .unknown s) ∧ ∃ heap, Work.binary op a b m.heap = .ok v heap := by
  cases op
  case unknown s => cases h
  all_goals
    refine ⟨fun s hs => (by cases hs), ?_⟩
    unfold Run.binary at h
    dsimp only at h
    split at h
    · next hw =>
      cases h
      exact ⟨_, hw⟩
    · cases h

theorem Run.tag_unary {op : UnaryOp} {a v : Value} {line : Nat} {m m' : Machine}
    (h : Run.unary op a line m = .ok v m') : v.tag = op.resultTag := by
  cases op with
  | negate =>
    unfold Run.unary at h
    cases hn : a.num? with
    | some n =>
      rw [hn] at h
      obtain ⟨heap, hw⟩ := Run.work_eq_ok h
      exact Work.tag_number hw
    | none =>
      rw [hn] at h
      cases h
  | not =>
    obtain ⟨t, m₁, -, h⟩ := bind_eq_ok (p := Run.isTrue a) h
    cases h
    rfl
  | unknown s => cases h

/-- The values that a literal of a kind may hold. -/
def LiteralKind.admits : LiteralKind → Scalar → Bool
  | .number, .int _ | .number, .float _ | .string, .str _ | .boolean, .bool _ => true
  | _, _ => false

/-- If `e` is a literal, it holds a value of its kind. -/
def Expr.isProper : Expr → Bool
  | literal kind v _ => kind.admits v
  | _ => true

def LiteralKind.tag : LiteralKind → Tag
  | number => .number
  | string => .string
  | boolean => .bool

theorem Work.tag_scalar {kind : LiteralKind} {s : Scalar} {h h' : Heap} {v : Value}
    (hkind : kind.admits s = true) (hv : Work.scalar s h = .ok v h') : v.tag = kind.tag := by
  cases kind <;> cases s <;> cases hkind
  case number.float x =>
    rw [Work.scalar] at hv
    exact Work.tag_number hv
  all_goals
    cases hv
    rfl

/-- Each name of which the analyser knows more than that it has a value has a value of that tag. -/
def SymbolTable.Describes (t : SymbolTable) (m : Machine) : Prop :=
  ∀ x s, t.resolve? x = some s → s.tag ≠ .any →
    ∃ v, m.scopes.get? m.current x = some v ∧ v.tag = s.tag

theorem SymbolTable.Describes.sameScopes {t : SymbolTable} {m m' : Machine} (h : t.Describes m)
    (hm : m.SameScopes m') : t.Describes m' := by
  unfold SymbolTable.Describes
  rw [hm.scopes, hm.current]
  exact h

namespace Analyse

variable {a a₁ a' : Analysis} {t : Tag}

theorem balanced_expr {e : Expr} (h : expr e a = .ok t a') : a.Balanced Eq a' := by
  obtain ⟨u, a₁, hrun, hb⟩ := ComesBack.expr e a
  rw [h] at hrun
  cases hrun
  exact hb

/-- Errors are never taken back, so there were none on the way. -/
theorem clean_between (h : a.errors <+: a₁.errors) (h' : a₁.errors <+: a'.errors)
    (hclean : a'.errors = a.errors) : a₁.errors = a.errors := by
  rw [hclean] at h'
  exact h'.eq_of_length_le h.length_le

/-- A check behind which the analyser has found nothing has found nothing itself. -/
theorem check_clean {d? : Option Diagnostic} {u : Tag}
    (h : (do if let some d := d? then report d
             return u : Analyse Tag) a₁ = .ok t a') (hpre : a.errors <+: a₁.errors)
    (hclean : a'.errors = a.errors) : d? = none ∧ t = u ∧ a' = a₁ := by
  cases d? with
  | none =>
    obtain ⟨rfl, rfl⟩ := pure_ok h
    exact ⟨rfl, rfl, rfl⟩
  | some d =>
    cases h
    have hlonger : (a₁.errors ++ [d]).length = a.errors.length := congrArg List.length hclean
    rw [List.length_append] at hlonger
    have := hpre.length_le
    have : [d].length = 1 := rfl
    omega

theorem expr_var_clean {x : String} {line : Nat} (h : expr (.var x line) a = .ok t a')
    (hclean : a'.errors = a.errors) : ∃ s, a.scope.resolve? x = some s ∧ t = s.tag := by
  rw [expr] at h
  obtain ⟨s?, a₁, hresolve, h⟩ := bind_eq_ok h
  obtain ⟨rfl, rfl⟩ := pure_ok h
  have hresolve := bind_get_ok hresolve
  cases hs : a.scope.resolve? x with
  | some s =>
    rw [hs] at hresolve
    cases hresolve
    exact ⟨s, rfl, rfl⟩
  | none =>
    rw [hs] at hresolve
    cases hresolve
    have hlonger := congrArg List.length hclean
    simp only [List.length_append, List.length_singleton] at hlonger
    omega

theorem expr_binary_clean {op : BinaryOp} {x y : Expr} {line : Nat}
    (h : expr (.binary op x y line) a = .ok t a') (hclean : a'.errors = a.errors) :
    ∃ left right a₁, expr x a = .ok left a₁ ∧ a₁.errors = a.errors ∧
      expr y a₁ = .ok right a' ∧ a'.errors = a₁.errors ∧ op.accepts left right = true ∧
      t = op.resultTag left right := by
  rw [expr] at h
  obtain ⟨left, a₁, hx, h⟩ := bind_eq_ok h
  obtain ⟨right, a₂, hy, h⟩ := bind_eq_ok h
  have hfirst := (balanced_expr hx).errors
  have hsecond := (balanced_expr hy).errors
  obtain ⟨hcheck, rfl, rfl⟩ := check_clean h (hfirst.trans hsecond) hclean
  have hclean₁ := clean_between hfirst hsecond hclean
  refine ⟨left, right, a₁, hx, hclean₁, hy, hclean.trans hclean₁.symm, ?_, rfl⟩
  unfold checkBinary at hcheck
  split at hcheck
  · assumption
  · cases hcheck

theorem expr_unary_tag {op : UnaryOp} {x : Expr} {line : Nat}
    (h : expr (.unary op x line) a = .ok t a') : t = op.resultTag := by
  rw [expr] at h
  obtain ⟨operand, a₁, -, h⟩ := bind_eq_ok h
  cases hd : checkUnary op operand line with
  | none =>
    rw [hd] at h
    cases h
    rfl
  | some d =>
    rw [hd] at h
    cases h
    rfl

end Analyse

/-- An operator that is not a predicate gets a tag only from two numbers or, if it passes the check,
as the sum of two strings. -/
theorem BinaryOp.resultTag_cases {op : BinaryOp} {left right : Tag} (hop : op.isPredicate = false)
    (haccepts : op.accepts left right = true) (hknown : op.resultTag left right ≠ .any)
    (hnamed : ∀ s, op ≠ .unknown s) :
    left = .number ∧ right = .number ∧ op.resultTag left right = .number ∨
      op = .add ∧ left = .string ∧ right = .string ∧ op.resultTag left right = .string := by
  unfold BinaryOp.resultTag at hknown ⊢
  rw [hop] at hknown ⊢
  by_cases hnumbers : left = .number ∧ right = .number
  · obtain ⟨rfl, rfl⟩ := hnumbers
    exact .inl ⟨rfl, rfl, rfl⟩
  · by_cases hstrings : left = .string ∧ right = .string
    · obtain ⟨rfl, rfl⟩ := hstrings
      right
      cases op with
      | add => exact ⟨rfl, rfl, rfl, rfl⟩
      | unknown s => exact absurd rfl (hnamed s)
      | subtract | multiply | divide | modulo => cases haccepts
      | _ => cases hop
    · simp_all

section

variable {c : Context} {a a' : Analysis} {m m' : Machine} {t : Tag} {v : Value}

/-- `ya` and `aur` make a truth value of what they are given, evaluated or not. -/
theorem Eval.tag_lazy {op : BinaryOp} {x y : Expr} {line : Nat} (hop : op = .or ∨ op = .and)
    (hrun : Eval.expr c (.binary op x y line) m = .ok v m') : v.tag = .bool := by
  have hright {m₁ : Machine}
      (h : (do return Value.bool (← Run.isTrue (← Eval.expr c y)) : Run Value) m₁ = .ok v m') :
      v.tag = .bool := by
    obtain ⟨w, m₂, -, h⟩ := bind_eq_ok h
    cases h
    rfl
  have hleft {b : Bool} {m₁ : Machine} (h : (return Value.bool b : Run Value) m₁ = .ok v m') :
      v.tag = .bool := by
    cases h
    rfl
  rw [Eval.expr] at hrun
  obtain ⟨left, m₁, -, hrun⟩ := bind_eq_ok hrun
  rcases hop with rfl | rfl <;> obtain ⟨b, m₂, -, hrun⟩ := bind_eq_ok hrun
  · exact (ite_ok hrun).elim (fun h => hleft h.2) fun h => hright h.2
  · exact (ite_ok hrun).elim (fun h => hleft h.2) fun h => hright h.2

theorem Eval.tag_predicate {op : BinaryOp} {x y : Expr} {line : Nat} (hop : op.isPredicate = true)
    (hrun : Eval.expr c (.binary op x y line) m = .ok v m') : v.tag = .bool := by
  by_cases hlazy : op = .or ∨ op = .and
  · exact Eval.tag_lazy hlazy hrun
  · rw [expr_binary (fun h => hlazy (.inl h)) (fun h => hlazy (.inr h))] at hrun
    obtain ⟨left, m₁, -, hrun⟩ := bind_eq_ok hrun
    obtain ⟨right, m₂, -, hrun⟩ := bind_eq_ok hrun
    obtain ⟨-, heap, hw⟩ := Run.binary_eq_ok hrun
    exact Work.tag_predicate hop hw

end

/-- If a visit of `e` finds nothing wrong and infers a tag, then a value of `e` has that tag, as
long as the names have theirs. -/
def Expr.SoundlyTagged (c : Context) (e : Expr) : Prop :=
  ∀ ⦃a a' : Analysis⦄ ⦃m m' : Machine⦄ ⦃t : Tag⦄ ⦃v : Value⦄, a.scope.Describes m →
    Analyse.expr e a = .ok t a' → a'.errors = a.errors → t ≠ .any → Eval.expr c e m = .ok v m' →
    v.tag = t

namespace Expr.SoundlyTagged

variable {c : Context}

theorem literal {kind : LiteralKind} {s : Scalar} (h : kind.admits s = true) (line : Nat) :
    (Expr.literal kind s line).SoundlyTagged c := by
  intro a a' m m' t v _ ht _ _ hrun
  have hkind : kind.tag = t := by
    cases kind <;> exact (pure_ok ht).1
  rw [Eval.expr] at hrun
  obtain ⟨heap, hw⟩ := Run.work_eq_ok hrun
  rw [← hkind]
  exact Work.tag_scalar h hw

theorem list (es : List Expr) (line : Nat) : (Expr.list es line).SoundlyTagged c := by
  intro a a' m m' t v _ ht _ _ hrun
  rw [Analyse.expr] at ht
  obtain ⟨-, a₁, -, ht⟩ := bind_eq_ok ht
  rw [Eval.expr] at hrun
  obtain ⟨vs, m₁, -, hrun⟩ := bind_eq_ok hrun
  cases ht
  cases hrun
  rfl

theorem dict (ps : List (Expr × Expr)) (line : Nat) : (Expr.dict ps line).SoundlyTagged c := by
  intro a a' m m' t v _ ht _ _ hrun
  rw [Analyse.expr] at ht
  obtain ⟨-, a₁, -, ht⟩ := bind_eq_ok ht
  rw [Eval.expr] at hrun
  obtain ⟨d, m₁, -, hrun⟩ := bind_eq_ok hrun
  cases ht
  cases hrun
  rfl

theorem lambda (ps : List String) (e : Expr) (line : Nat) :
    (Expr.lambda ps e line).SoundlyTagged c := by
  intro a a' m m' t v _ ht _ _ hrun
  rw [Analyse.expr] at ht
  obtain ⟨-, a₁, -, ht⟩ := bind_eq_ok ht
  rw [Eval.expr] at hrun
  cases ht
  cases hrun
  rfl

theorem var (x : String) (line : Nat) : (Expr.var x line).SoundlyTagged c := by
  intro a a' m m' t v hnames ht hclean hknown hrun
  obtain ⟨s, hs, rfl⟩ := Analyse.expr_var_clean ht hclean
  obtain ⟨w, hw, htag⟩ := hnames x s hs hknown
  rw [Eval.expr] at hrun
  obtain ⟨hv, -⟩ := Run.lookup_eq_ok.mp hrun
  rw [hw] at hv
  cases hv
  exact htag

/-- Where an operand may be anything, the operator alone decides; otherwise the operands have the
tags that were found for them. -/
theorem binary {op : BinaryOp} {x y : Expr} {line : Nat} (hx : x.SoundlyTagged c)
    (hy : y.SoundlyTagged c) (hscopes : Keeps Machine.SameScopes (Eval.expr c x)) :
    (Expr.binary op x y line).SoundlyTagged c := by
  intro a a' m m' t v hnames ht hclean hknown hrun
  obtain ⟨left, right, a₁, hleft, hclean₁, hright, hclean₂, haccepts, rfl⟩ :=
    Analyse.expr_binary_clean ht hclean
  cases hop : op.isPredicate with
  | true =>
    rw [Eval.tag_predicate hop hrun, BinaryOp.resultTag, if_pos hop]
  | false =>
    have hor : op ≠ .or := by
      rintro rfl
      cases hop
    have hand : op ≠ .and := by
      rintro rfl
      cases hop
    rw [expr_binary hor hand] at hrun
    obtain ⟨l, m₁, hl, hrun⟩ := bind_eq_ok hrun
    obtain ⟨r, m₂, hr, hrun⟩ := bind_eq_ok hrun
    obtain ⟨hnamed, heap, hw⟩ := Run.binary_eq_ok hrun
    have hnames₁ : a₁.scope.Describes m₁ := by
      have hsame := hscopes m
      rw [finalState_ok hl] at hsame
      rw [(Analyse.balanced_expr hleft).scope]
      exact hnames.sameScopes hsame
    rcases BinaryOp.resultTag_cases hop haccepts hknown hnamed with
      ⟨rfl, rfl, htag⟩ | ⟨rfl, rfl, rfl, htag⟩
    · have hlnum : l.tag = .number := hx hnames hleft hclean₁ (by decide) hl
      have hrnum : r.tag = .number := hy hnames₁ hright hclean₂ (by decide) hr
      rw [htag]
      exact Work.tag_numbers hop hnamed hlnum hrnum hw
    · have hltext : l.tag = .string := hx hnames hleft hclean₁ (by decide) hl
      rw [htag]
      exact Work.tag_texts hltext hw

theorem unary (op : UnaryOp) (x : Expr) (line : Nat) : (Expr.unary op x line).SoundlyTagged c := by
  intro a a' m m' t v _ ht _ _ hrun
  rw [Eval.expr] at hrun
  obtain ⟨w, m₁, -, hrun⟩ := bind_eq_ok hrun
  rw [Run.tag_unary hrun, Analyse.expr_unary_tag ht]

theorem paren {x : Expr} (hx : x.SoundlyTagged c) (line : Nat) :
    (Expr.paren x line).SoundlyTagged c := by
  intro a a' m m' t v hnames ht hclean hknown hrun
  rw [Analyse.expr] at ht
  rw [Eval.expr] at hrun
  exact hx hnames ht hclean hknown hrun

/-- Where the analyser infers nothing, there is nothing to be wrong. -/
theorem untagged {e : Expr}
    (h : ∀ {a a' : Analysis} {t : Tag}, Analyse.expr e a = .ok t a' → t = .any) :
    e.SoundlyTagged c := by
  intro a a' m m' t v _ ht _ hknown _
  exact absurd (h ht) hknown

end Expr.SoundlyTagged

theorem Expr.soundlyTagged (c : Context) : ∀ e : Expr, e.every Expr.isTame = true →
    e.every Expr.isProper = true → e.SoundlyTagged c
  | .literal kind v line, _, hproper => by
    have hkind : kind.admits v = true := (Bool.and_eq_true_iff.1 hproper).1
    exact .literal hkind line
  | .list es _, _, _ => .list es _
  | .dict ps _, _, _ => .dict ps _
  | .var x _, _, _ => .var x _
  | .lambda ps e _, _, _ => .lambda ps e _
  | .binary op x y _, htame, hproper => by
    have htame : (x.every Expr.isTame && y.every Expr.isTame) = true := htame
    have hproper : (x.every Expr.isProper && y.every Expr.isProper) = true := hproper
    obtain ⟨hx, hy⟩ := Bool.and_eq_true_iff.1 htame
    obtain ⟨hpx, hpy⟩ := Bool.and_eq_true_iff.1 hproper
    exact .binary (soundlyTagged c x hx hpx) (soundlyTagged c y hy hpy) (Eval.sameScopes_expr x hx)
  | .unary op x _, _, _ => .unary op x _
  | .paren x _, htame, hproper => .paren (soundlyTagged c x htame hproper) _
  | .property x _ _, _, _ => by
    apply SoundlyTagged.untagged
    intro a a' t ht
    rw [Analyse.expr] at ht
    obtain ⟨u, a₁, -, ht⟩ := bind_eq_ok ht
    exact (pure_ok ht).1.symm
  | .index x i _, _, _ => by
    apply SoundlyTagged.untagged
    intro a a' t ht
    rw [Analyse.expr] at ht
    obtain ⟨u, a₁, -, ht⟩ := bind_eq_ok ht
    obtain ⟨w, a₂, -, ht⟩ := bind_eq_ok ht
    exact (pure_ok ht).1.symm
  | .foreign _ es _, _, _ => by
    apply SoundlyTagged.untagged
    intro a a' t ht
    rw [Analyse.expr] at ht
    obtain ⟨-, a₁, -, ht⟩ := bind_eq_ok ht
    exact (pure_ok ht).1.symm
  | .thisObject l, _, _ => by
    apply SoundlyTagged.untagged
    intro a a' t ht
    rw [Analyse.expr] at ht
    have ht := bind_get_ok ht
    rcases ite_ok ht with ⟨-, ht⟩ | ⟨-, ht⟩
    · obtain ⟨-, a₁, -, ht⟩ := bind_eq_ok ht
      exact (pure_ok ht).1.symm
    · exact (pure_ok ht).1.symm
  | .call _ _ _, htame, _ | .method _ _ _ _, htame, _ | .newObject _ _ _, htame, _
  | .superCall _ _ _, htame, _ => by
    cases htame
termination_by structural e => e

/-- Take an expression without calls, and let the names of which the analyser knows a tag have
values of that tag. If the analyser finds nothing wrong with the expression and infers a tag for it,
then every value that the expression gets has that tag. -/
theorem inferred_tag_sound (c : Context) (e : Expr) (a a' : Analysis) (m m' : Machine) (t : Tag)
    (v : Value) (htame : e.every Expr.isTame = true) (hproper : e.every Expr.isProper = true)
    (hnames : a.scope.Describes m) (ht : Analyse.expr e a = .ok t a')
    (hclean : a'.errors = a.errors) (hknown : t ≠ .any) (hrun : Eval.expr c e m = .ok v m') :
    v.tag = t :=
  e.soundlyTagged c htame hproper hnames ht hclean hknown hrun

/-- `n + 2 * -(flag)`, where `n` is a number and of `flag`, which is true, nothing is known. -/
theorem inferred_tag_sound_mixed :
    let e : Expr := .binary .add (.var "n" 1)
      (.binary .multiply (.literal .number (.int 2) 1)
        (.unary .negate (.paren (.var "flag" 1) 1) 1) 1) 1
    let scope : SymbolTable :=
      { inner := [("n", { name := "n", kind := .var, tag := .number, line := 1 })]
        outer := [[("flag", { name := "flag", kind := .parameter, tag := .any, line := 1 })]] }
    let a : Analysis := { scope }
    let m : Machine := { scopes := ⟨#[{ bindings := [("flag", .bool true), ("n", .int 5)] }]⟩ }
    let c : Context := { perform := fun _ => throw .exhausted, turns := 0 }
    Analyse.expr e a = .ok .number a ∧ Eval.expr c e m = .ok (.int 3) m ∧
      Value.tag (.int 3) = .number := by
  intro e scope a m c
  have hnames : scope.Describes m := by
    intro x s hs hknown
    by_cases hx : x = "n"
    · subst hx
      cases hs
      exact ⟨.int 5, rfl, rfl⟩
    · by_cases hflag : x = "flag"
      · subst hflag
        cases hs
        exact absurd rfl hknown
      · have hnone : scope.resolve? x = none := by
          simp [scope, SymbolTable.resolve?, Bindings.find?, Ne.symm hx, Ne.symm hflag]
        rw [hnone] at hs
        cases hs
  have ht : Analyse.expr e a = .ok .number a := rfl
  have hrun : Eval.expr c e m = .ok (.int 3) m := rfl
  exact ⟨ht, hrun, inferred_tag_sound c e a a m m .number (.int 3) (by decide) (by decide) hnames ht
    rfl (by decide) hrun⟩

end Bhasha
