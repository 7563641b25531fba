import Bhasha.Proofs.ExprReading
import Bhasha.Proofs.TokensTaken

namespace Bhasha

namespace Parse

/-- Whatever `operand` reads is grammatical and holds together as tightly as tier `k`, and what
follows binds less tightly; behind an open lambda, not at all. -/
def SoundFrom (k : Nat) (operand : Parse Expr) : Prop :=
  Yields operand Expr.Spelled fun e t =>
    e.grammatical = true ∧ k ≤ e.tier ∧ t.binding < k ∧ (e.opens = true → t.binding = 0)

variable {expr : Parse Expr} {e : Expr} {c c' : Cursor} {k n : Nat}

theorem SoundFrom.arguments {es : List Expr} (hE : SoundFrom 1 expr) (hc : Complete c.rest)
    (h : enclosed expr c = .ok es c') :
    ∃ ts, Took c ts c' ∧ Enclosed Expr.Spelled es ts ∧ Expr.grammaticalAll es = true := by
  obtain ⟨ts, htook, hs, hg⟩ := enclosed_ok hE hc h
  refine ⟨ts, htook, hs, Expr.grammaticalAll_iff.mpr fun e he => ?_⟩
  obtain ⟨k, hk⟩ := hg e he
  exact hk.1

theorem SoundFrom.yields_pair (hE : SoundFrom 1 expr) :
    Yields (pair expr) PairSpelled fun p _ => p.1.grammatical = true ∧ p.2.grammatical = true := by
  intro c p c' hc h
  obtain ⟨key, c₁, hkey, h⟩ := bind_eq_ok h
  obtain ⟨us, htook, hus, hg, -⟩ := hE c key c₁ hc hkey
  obtain ⟨c₂, hcolon, htook₁, h⟩ := bind_expect_ok htook.complete rfl h
  obtain ⟨value, c₃, hvalue, h⟩ := bind_eq_ok h
  obtain ⟨vs, htook₂, hvs, hg', -⟩ := hE c₂ value c₃ htook₁.complete hvalue
  obtain ⟨rfl, rfl⟩ := pure_ok h
  exact ⟨_, htook.trans (htook₁.cons htook₂), .mk hus hcolon hvs, hg, hg'⟩

theorem SoundFrom.optionalArguments {es : List Expr} (hE : SoundFrom 1 expr)
    (hc : Complete c.rest) (h : optionalArguments expr c = .ok es c') :
    ∃ ts, Took c ts c' ∧ OptionallyEnclosed Expr.Spelled es ts ∧
      Expr.grammaticalAll es = true := by
  rcases bind_sees_ok h with ⟨hk, h⟩ | ⟨-, h⟩
  · obtain ⟨c₁, ht, htook, h⟩ := bind_advance_is_ok hc hk rfl h
    obtain ⟨ts, htook₁, hs, hg⟩ := hE.arguments htook.complete h
    exact ⟨_, htook.cons htook₁, .items ht hs, hg⟩
  · obtain ⟨rfl, rfl⟩ := pure_ok h
    exact ⟨[], .refl hc, .none, rfl⟩

/-- What `primary` reads: nothing of the same expression follows a lambda. -/
def SoundPrimary (p : Parse Expr) : Prop :=
  Yields p Expr.Spelled fun e t =>
    e.grammatical = true ∧ 8 ≤ e.tier ∧ (e.opens = true → t.binding = 0)

theorem SoundFrom.list (hE : SoundFrom 1 expr) : SoundPrimary (list expr) := by
  intro c e c' hc h
  obtain ⟨c₁, ht, htook, h⟩ := bind_expect_ok hc rfl (bind_line_ok h)
  obtain ⟨es, c₂, hitems, h⟩ := bind_eq_ok h
  obtain ⟨ts, htook₁, hs, hg⟩ := literalItems_ok hE rfl htook.complete hitems
  obtain ⟨rfl, rfl⟩ := pure_ok h
  refine ⟨_, htook.cons htook₁, .list ht hs, ?_, by simp [Expr.tier], by simp [Expr.opens]⟩
  exact Expr.grammaticalAll_iff.mpr fun e he => (hg e he).elim fun _ hk => hk.1

theorem SoundFrom.dict (hE : SoundFrom 1 expr) : SoundPrimary (dict expr) := by
  intro c e c' hc h
  obtain ⟨c₁, ht, htook, h⟩ := bind_expect_ok hc rfl (bind_line_ok h)
  obtain ⟨ps, c₂, hitems, h⟩ := bind_eq_ok h
  obtain ⟨ts, htook₁, hs, hg⟩ := literalItems_ok hE.yields_pair rfl htook.complete hitems
  obtain ⟨rfl, rfl⟩ := pure_ok h
  refine ⟨_, htook.cons htook₁, .dict ht hs, ?_, by simp [Expr.tier], by simp [Expr.opens]⟩
  exact Expr.grammaticalPairs_iff.mpr fun p hp => (hg p hp).elim fun _ hk => hk

theorem SoundFrom.newObject (hE : SoundFrom 1 expr) : SoundPrimary (newObject expr) := by
  intro c e c' hc h
  obtain ⟨c₁, ht, htook, h⟩ := bind_expect_ok hc rfl (bind_line_ok h)
  obtain ⟨x, c₂, hx, htook₁, h⟩ := bind_nameOr_ok htook.complete h
  obtain ⟨es, c₃, hargs, h⟩ := bind_eq_ok h
  obtain ⟨ts, htook₂, hs, hg⟩ := hE.optionalArguments htook₁.complete hargs
  obtain ⟨rfl, rfl⟩ := pure_ok h
  exact ⟨_, htook.cons (htook₁.cons htook₂), .newObject ht hx hs, hg, by simp [Expr.tier],
    by simp [Expr.opens]⟩

theorem SoundFrom.superCall (hE : SoundFrom 1 expr) : SoundPrimary (superCall expr) := by
  intro c e c' hc h
  obtain ⟨c₁, ht, htook, h⟩ := bind_expect_ok hc rfl (bind_line_ok h)
  obtain ⟨c₂, hdot, htook₁, h⟩ := bind_expect_ok htook.complete rfl h
  obtain ⟨x, c₃, hx, htook₂, h⟩ := bind_nameOr_ok htook₁.complete h
  obtain ⟨es, c₄, hargs, h⟩ := bind_eq_ok h
  obtain ⟨ts, htook₃, hs, hg⟩ := hE.optionalArguments htook₂.complete hargs
  obtain ⟨rfl, rfl⟩ := pure_ok h
  exact ⟨_, htook.cons (htook₁.cons (htook₂.cons htook₃)), .superCall ht hdot hx hs, hg,
    by simp [Expr.tier], by simp [Expr.opens]⟩

theorem SoundFrom.lambda (hE : SoundFrom 1 expr) : SoundPrimary (lambda expr) := by
  intro c e c' hc h
  obtain ⟨c₁, ht, htook, h⟩ := bind_expect_ok hc rfl (bind_line_ok h)
  have hbody : ∀ {xs c₂ us}, Took c₁ us c₂ → ParametersSpelled xs us →
      (do let _ ← expect .colon; return Expr.lambda xs (← expr) c.current.line) c₂ = .ok e c' →
      ∃ ts, Took c ts c' ∧ e.Spelled ts ∧ e.grammatical = true ∧ 8 ≤ e.tier ∧
        (e.opens = true → c'.current.kind.binding = 0) := by
    intro xs c₂ us htook₁ hxs h
    obtain ⟨c₃, hcolon, htook₂, h⟩ := bind_expect_ok htook₁.complete rfl h
    obtain ⟨b, c₄, hb, h⟩ := bind_eq_ok h
    obtain ⟨vs, htook₃, hvs, hg, -, hbind, -⟩ := hE c₃ b c₄ htook₂.complete hb
    obtain ⟨rfl, rfl⟩ := pure_ok h
    exact ⟨_, htook.cons (htook₁.trans (htook₂.cons htook₃)), .lambda ht hxs hcolon hvs, hg,
      by simp [Expr.tier], fun _ => by omega⟩
  rcases bind_sees_ok h with ⟨-, h⟩ | ⟨-, h⟩
  · obtain ⟨xs, c₂, hsep, h⟩ := bind_eq_ok h
    obtain ⟨us, htook₁, hs, -⟩ := separated_ok (yields_name _) htook.complete hsep
    exact hbody htook₁ (.some hs) h
  · exact hbody (.refl htook.complete) .none h

theorem SoundFrom.primary (hE : SoundFrom 1 expr) : SoundPrimary (primary expr) := by
  intro c e c' hc h
  obtain ⟨-, -, hfits⟩ := Cursor.rest_eq hc
  have h := bind_current_ok h
  cases hk : c.current.kind with
  | number | string | boolean =>
    rw [hk] at h
    obtain ⟨c₁, htook, h⟩ := bind_advance_ok hc (by rw [hk]; decide) h
    obtain ⟨rfl, rfl⟩ := pure_ok h
    exact ⟨_, htook, .literal hk, rfl, by simp [Expr.tier], by simp [Expr.opens]⟩
  | lbracket =>
    rw [hk] at h
    exact hE.list c e c' hc h
  | lbrace =>
    rw [hk] at h
    exact hE.dict c e c' hc h
  | new =>
    rw [hk] at h
    exact hE.newObject c e c' hc h
  | lambda =>
    rw [hk] at h
    exact hE.lambda c e c' hc h
  | this =>
    rw [hk] at h
    obtain ⟨c₁, ht, htook, h⟩ := bind_advance_is_ok hc hk rfl h
    obtain ⟨rfl, rfl⟩ := pure_ok h
    exact ⟨_, htook, .thisObject ht, rfl, by simp [Expr.tier], by simp [Expr.opens]⟩
  | super =>
    rw [hk] at h
    exact hE.superCall c e c' hc h
  | identifier =>
    rw [hk] at h
    obtain ⟨c₁, htook, h⟩ := bind_advance_ok hc (by rw [hk]; decide) h
    obtain ⟨rfl, rfl⟩ := pure_ok h
    exact ⟨_, htook, .var (hfits.names hk), rfl, by simp [Expr.tier], by simp [Expr.opens]⟩
  | lparen =>
    rw [hk] at h
    obtain ⟨c₁, ht, htook, h⟩ := bind_advance_is_ok hc hk rfl h
    obtain ⟨a, c₂, ha, h⟩ := bind_eq_ok h
    obtain ⟨us, htook₁, hus, hg, -⟩ := hE c₁ a c₂ htook.complete ha
    obtain ⟨c₃, hclose, htook₂, h⟩ := bind_expect_ok htook₁.complete rfl h
    obtain ⟨rfl, rfl⟩ := pure_ok h
    exact ⟨_, htook.cons (htook₁.trans htook₂), .paren ht hus hclose, hg,
      by simp [Expr.tier], by simp [Expr.opens]⟩
  | _ =>
    rw [hk] at h
    exact absurd h throw_ne_ok

/-- What the loop makes of an expression `e`, spelled by `ts`, behind which it starts. -/
theorem SoundFrom.postfixes {e e' : Expr} {c : Cursor} {ts : List Token} (hE : SoundFrom 1 expr)
    (hc : Complete c.rest) (he : e.Spelled ts) (hg : e.grammatical = true) (h8 : 8 ≤ e.tier)
    (hopen : e.opens = true → c.current.kind.binding = 0)
    (h : postfixes expr n e c = .ok e' c') :
    ∃ us, Took c us c' ∧ e'.Spelled (ts ++ us) ∧ e'.grammatical = true ∧ 8 ≤ e'.tier ∧
      c'.current.kind.binding < 8 ∧ (e'.opens = true → c'.current.kind.binding = 0) := by
  induction n generalizing e c ts with
  | zero => exact absurd h throw_ne_ok
  | succ n ih =>
    have h := bind_current_ok h
    cases hk : c.current.kind with
    | lparen =>
      rw [hk] at h
      cases e with
      | var =>
        cases he with
        | var hx =>
          obtain ⟨c₁, ht, htook, h⟩ := bind_advance_is_ok hc hk rfl h
          obtain ⟨es, c₂, hargs, h⟩ := bind_eq_ok h
          obtain ⟨us, htook₁, hs, hgs⟩ := hE.arguments htook.complete hargs
          obtain ⟨vs, htook₂, hrest⟩ := ih htook₁.complete (.call hx ht hs) hgs
            (by simp [Expr.tier]) (by simp [Expr.opens]) h
          exact ⟨_, htook.cons (htook₁.trans htook₂), by simpa using hrest⟩
      | _ => exact absurd h throw_ne_ok
    | lbracket =>
      rw [hk] at h hopen
      -- Behind an open lambda there would be no bracket and no dot.
      have ho : e.opens = false := by simpa [TokenKind.binding] using hopen
      obtain ⟨c₁, ht, htook, h⟩ := bind_advance_is_ok hc hk rfl h
      obtain ⟨i, c₂, hi, h⟩ := bind_eq_ok h
      obtain ⟨us, htook₁, hus, hgi, -⟩ := hE c₁ i c₂ htook.complete hi
      obtain ⟨c₃, hclose, htook₂, h⟩ := bind_expect_ok htook₁.complete rfl h
      obtain ⟨vs, htook₃, hrest⟩ := ih htook₂.complete (.index he ht hus hclose)
        (by simp [Expr.grammatical, hg, h8, ho, hgi]) (by simp [Expr.tier]) (by simp [Expr.opens]) h
      exact ⟨_, htook.cons (htook₁.trans (htook₂.cons htook₃)), by simpa using hrest⟩
    | dot =>
      rw [hk] at h hopen
      have ho : e.opens = false := by simpa [TokenKind.binding] using hopen
      obtain ⟨c₁, ht, htook, h⟩ := bind_advance_is_ok hc hk rfl h
      obtain ⟨x, c₂, hx, htook₁, h⟩ := bind_nameOr_ok htook.complete h
      rcases bind_sees_ok h with ⟨hk', h⟩ | ⟨-, h⟩
      · obtain ⟨c₃, hopening, htook₂, h⟩ := bind_advance_is_ok htook₁.complete hk' rfl h
        obtain ⟨es, c₄, hargs, h⟩ := bind_eq_ok h
        obtain ⟨us, htook₃, hs, hgs⟩ := hE.arguments htook₂.complete hargs
        obtain ⟨vs, htook₄, hrest⟩ := ih htook₃.complete
          (.method he ht hx hopening hs)
          (by simp [Expr.grammatical, hg, h8, ho, hgs]) (by simp [Expr.tier])
          (by simp [Expr.opens]) h
        exact ⟨_, htook.cons (htook₁.cons (htook₂.cons (htook₃.trans htook₄))),
          by simpa using hrest⟩
      · obtain ⟨vs, htook₂, hrest⟩ := ih htook₁.complete (.property he ht hx)
          (by simp [Expr.grammatical, hg, h8, ho]) (by simp [Expr.tier]) (by simp [Expr.opens]) h
        exact ⟨_, htook.cons (htook₁.cons htook₂), by simpa using hrest⟩
    | _ =>
      rw [hk] at h
      obtain ⟨rfl, rfl⟩ := pure_ok h
      exact ⟨[], .refl hc, by rwa [List.append_nil], hg, h8, by rw [hk]; decide, hopen⟩

theorem SoundFrom.applied (hE : SoundFrom 1 expr) : SoundFrom 8 (applied expr) := by
  intro c e c' hc h
  obtain ⟨e₀, c₁, hprimary, h⟩ := bind_eq_ok h
  obtain ⟨ts, htook, hs, hg, h8, hopen⟩ := hE.primary c e₀ c₁ hc hprimary
  obtain ⟨us, htook₁, hs', hg', h8', hb, hopen'⟩ :=
    hE.postfixes htook.complete hs hg h8 hopen (bind_get_ok h)
  exact ⟨_, htook.trans htook₁, hs', hg', h8', hb, hopen'⟩

theorem binding_ne_seven (k : TokenKind) : k.binding ≠ 7 := by
  cases k <;> nofun

theorem SoundFrom.unsigned {p : Parse Expr} (h : SoundFrom 8 p) : SoundFrom 7 p := by
  intro c e c' hc hp
  obtain ⟨ts, htook, hs, hg, h8, hb, hopen⟩ := h c e c' hc hp
  have h7 := binding_ne_seven c'.current.kind
  exact ⟨ts, htook, hs, hg, by omega, by omega, hopen⟩

theorem SoundFrom.signs (hE : SoundFrom 1 expr) (n : Nat) : SoundFrom 7 (signs expr n) := by
  induction n with
  | zero => exact fun _ _ _ _ h => absurd h throw_ne_ok
  | succ n ih =>
    intro c e c' hc h
    have h := bind_current_ok h
    cases hk : c.current.kind with
    | minus | not =>
      rw [hk] at h
      obtain ⟨c₁, ht, htook, h⟩ := bind_advance_is_ok hc hk rfl h
      obtain ⟨a, c₂, ha, h⟩ := bind_eq_ok h
      obtain ⟨ts, htook₁, hs, hg, h7, hb, hopen⟩ := ih c₁ a c₂ htook.complete ha
      obtain ⟨rfl, rfl⟩ := pure_ok h
      exact ⟨_, htook.cons htook₁, .unary rfl ht hs,
        by simp [Expr.grammatical, UnaryOp.tokenKind?, hg, h7], by simp [Expr.tier], hb, hopen⟩
    | _ =>
      rw [hk] at h
      exact hE.applied.unsigned c e c' hc h

theorem SoundFrom.unary (hE : SoundFrom 1 expr) : SoundFrom 7 (unary expr) :=
  fun c e c' hc h => hE.signs _ c e c' hc (bind_get_ok h)

theorem tokenKind?_operator {t : Token} (ht : t.Fits) (hk : 1 ≤ k) (hk' : k ≤ 6)
    (hb : t.kind.binding = k) :
    (chain.operator t).tokenKind? = some t.kind ∧ (chain.operator t).tier = k := by
  subst hb
  rw [Token.Fits] at ht
  unfold chain.operator
  cases h : t.kind <;> rw [h] at ht hk hk' <;> dsimp only at ht ⊢ <;>
    first | exact ⟨rfl, rfl⟩ | rw [ht]; exact ⟨rfl, rfl⟩ | simp [TokenKind.binding] at hk hk'

theorem isFixed_of_binding {k : TokenKind} (h : 1 ≤ k.binding) : k.isFixed = true := by
  cases k <;> first | rfl | simp [TokenKind.binding] at h

section

variable {ops : List TokenKind} {operand : Parse Expr}

/-- What the loop makes of an operand `e`, spelled by `ts`, with which it starts. -/
theorem SoundFrom.chain {e e' : Expr} {c : Cursor} {ts : List Token}
    (ho : SoundFrom (k + 1) operand) (hops : ∀ u : TokenKind, ops.contains u = (u.binding == k))
    (hk : 1 ≤ k) (hk' : k ≤ 6) (hc : Complete c.rest) (he : e.Spelled ts)
    (hg : e.grammatical = true) (htier : k ≤ e.tier) (hb : c.current.kind.binding < k + 1)
    (hopen : e.opens = true → c.current.kind.binding = 0)
    (h : chain ops operand n e c = .ok e' c') :
    ∃ us, Took c us c' ∧ e'.Spelled (ts ++ us) ∧ e'.grammatical = true ∧ k ≤ e'.tier ∧
      c'.current.kind.binding < k ∧ (e'.opens = true → c'.current.kind.binding = 0) := by
  induction n generalizing e c ts with
  | zero => exact absurd h throw_ne_ok
  | succ n ih =>
    obtain ⟨-, -, hfits⟩ := Cursor.rest_eq hc
    rcases ite_ok (bind_current_ok h) with ⟨hin, h⟩ | ⟨hout, h⟩
    · have hbind : c.current.kind.binding = k := by
        rw [hops] at hin
        exact eq_of_beq hin
      -- An operator follows, so the left operand does not end in a lambda.
      have hclosed : e.opens = false := by
        cases h : e.opens with
        | false => rfl
        | true => have := hopen h; omega
      obtain ⟨hkind, hop⟩ := tokenKind?_operator hfits hk hk' hbind
      have hfixed := isFixed_of_binding (by rwa [← hbind] at hk)
      obtain ⟨c₁, ht, htook, h⟩ := bind_advance_is_ok hc rfl hfixed h
      obtain ⟨b, c₂, hright, h⟩ := bind_eq_ok h
      obtain ⟨us, htook₁, hus, hgb, htb, hbb, hopen'⟩ := ho c₁ b c₂ htook.complete hright
      obtain ⟨vs, htook₂, hrest⟩ := ih htook₁.complete
        (.binary hkind he ht hus)
        (by simp [Expr.grammatical, hkind, hg, hgb, hop, htier, hclosed]; omega)
        (by rw [Expr.tier, hop]) hbb hopen' h
      exact ⟨_, htook.cons (htook₁.trans htook₂), by simpa using hrest⟩
    · obtain ⟨rfl, rfl⟩ := pure_ok h
      refine ⟨[], .refl hc, by simpa using he, hg, htier, ?_, hopen⟩
      have hne : c.current.kind.binding ≠ k := by
        rw [hops] at hout
        simpa using hout
      omega

theorem SoundFrom.level (ho : SoundFrom (k + 1) operand)
    (hops : ∀ u : TokenKind, ops.contains u = (u.binding == k)) (hk : 1 ≤ k) (hk' : k ≤ 6) :
    SoundFrom k (level ops operand) := by
  intro c e c' hc h
  obtain ⟨e₀, c₁, hleft, h⟩ := bind_eq_ok h
  obtain ⟨ts, htook, hs, hg, htier, hb, hopen⟩ := ho c e₀ c₁ hc hleft
  obtain ⟨us, htook₁, hrest⟩ := ho.chain hops hk hk' htook.complete hs hg (by omega) hb hopen
    (bind_get_ok h)
  exact ⟨_, htook.trans htook₁, hrest⟩

end

theorem SoundFrom.disjunction (hE : SoundFrom 1 expr) : SoundFrom 1 (disjunction expr) :=
  disjunction_induction (P := SoundFrom) hE.unary
    fun _ _ _ hk hk' hops h => h.level hops hk hk'

theorem soundFrom_expressionWithin (n : Nat) : SoundFrom 1 (expressionWithin n) := by
  induction n with
  | zero => exact fun _ _ _ _ h => absurd h throw_ne_ok
  | succ n ih => exact ih.disjunction

theorem soundFrom_expression : SoundFrom 1 expression :=
  fun c e c' hc h => soundFrom_expressionWithin _ c e c' hc (bind_get_ok h)

theorem unary_ne_ok (h : c.current.kind = .eof) : unary expr c ≠ .ok e c' := by
  intro hok
  have hok := bind_current_ok (bind_get_ok hok)
  rw [h] at hok
  obtain ⟨e₀, c₁, hok, -⟩ := bind_eq_ok hok
  have hok := bind_current_ok hok
  rw [h] at hok
  exact throw_ne_ok hok

/-- No expression is found at the end. -/
theorem expression_ne_ok (h : c.current.kind = .eof) : expression c ≠ .ok e c' := by
  intro hok
  refine disjunction_induction (P := fun _ p => ∀ e c', p c ≠ .ok e c') (fun _ _ => unary_ne_ok h)
    (fun _ ops operand _ _ _ ih e c' hok => ?_) e c' (bind_get_ok hok)
  obtain ⟨e₀, c₁, hoperand, -⟩ := bind_eq_ok hok
  exact ih e₀ c₁ hoperand

end Parse

end Bhasha
