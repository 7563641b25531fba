import Bhasha.Proofs.CursorMoves
import Bhasha.Proofs.ExprSoundness

namespace Bhasha

/-- Is it the kind of a binary operator? -/
def TokenKind.isOperator (k : TokenKind) : Bool :=
  1 ≤ k.binding && k.binding ≤ 6

/-- The expression holds together at least as tightly as tier `n`, if an operator may have been read
from a token of kind `k` where `reads k op`. Operators of one tier group to the left, and nothing
follows an open lambda. -/
inductive Expr.Holds (reads : TokenKind → BinaryOp → Prop) : Nat → Expr → Prop
  | literal {n kind v l} : Holds reads n (.literal kind v l)
  | var {n x l} : Holds reads n (.var x l)
  | thisObject {n l} : Holds reads n (.thisObject l)
  | list {n es l} : (∀ e ∈ es, Holds reads 1 e) → Holds reads n (.list es l)
  | dict {n ps l} : (∀ p ∈ ps, Holds reads 1 p.1) → (∀ p ∈ ps, Holds reads 1 p.2) →
    Holds reads n (.dict ps l)
  | call {n x es l} : (∀ e ∈ es, Holds reads 1 e) → Holds reads n (.call x es l)
  | newObject {n x es l} : (∀ e ∈ es, Holds reads 1 e) → Holds reads n (.newObject x es l)
  | superCall {n x es l} : (∀ e ∈ es, Holds reads 1 e) → Holds reads n (.superCall x es l)
  | paren {n a l} : Holds reads 1 a → Holds reads n (.paren a l)
  | lambda {n xs b l} : Holds reads 1 b → Holds reads n (.lambda xs b l)
  | method {n a x es l} : Holds reads 8 a → a.opens = false → (∀ e ∈ es, Holds reads 1 e) →
    Holds reads n (.method a x es l)
  | property {n a x l} : Holds reads 8 a → a.opens = false → Holds reads n (.property a x l)
  | index {n a i l} : Holds reads 8 a → a.opens = false → Holds reads 1 i →
    Holds reads n (.index a i l)
  | unary {n op a l} : n ≤ 7 → op.tokenKind?.isSome = true → Holds reads 7 a →
    Holds reads n (.unary op a l)
  | binary {n k op a b l} : n ≤ k.binding → k.isOperator = true → reads k op →
    Holds reads k.binding a → a.opens = false → Holds reads (k.binding + 1) b →
    Holds reads n (.binary op a b l)

namespace Expr.Holds

variable {reads : TokenKind → BinaryOp → Prop} {m n : Nat} {e : Expr}

theorem mono (h : Holds reads n e) (hm : m ≤ n) : Holds reads m e := by
  cases h with
  | literal => exact .literal
  | var => exact .var
  | thisObject => exact .thisObject
  | list hes => exact .list hes
  | dict hkeys hvalues => exact .dict hkeys hvalues
  | call hes => exact .call hes
  | newObject hes => exact .newObject hes
  | superCall hes => exact .superCall hes
  | paren ha => exact .paren ha
  | lambda hb => exact .lambda hb
  | method ha hopens hes => exact .method ha hopens hes
  | property ha hopens => exact .property ha hopens
  | index ha hopens hi => exact .index ha hopens hi
  | unary hn hop ha => exact .unary (Nat.le_trans hm hn) hop ha
  | binary hn hk hop ha hopens hb => exact .binary (Nat.le_trans hm hn) hk hop ha hopens hb

theorem binding_tokenKind? {op : BinaryOp} {k : TokenKind} (h : op.tokenKind? = some k) :
    op.tier = k.binding := by
  cases op <;> cases h <;> rfl

/-- Where each operator stands for one kind of token, the expression is grammatical. -/
theorem grammatical (h : Holds reads n e) (hn : n ≤ 8)
    (hreads : ∀ k op, k.isOperator = true → reads k op → op.tokenKind? = some k) :
    e.grammatical = true ∧ n ≤ e.tier := by
  induction h with
  | literal | var | thisObject => exact ⟨rfl, hn⟩
  | list _ ih | call _ ih | newObject _ ih | superCall _ ih =>
    exact ⟨grammaticalAll_iff.2 fun e he => (ih e he (by omega)).1, hn⟩
  | dict _ _ ihkeys ihvalues =>
    refine ⟨grammaticalPairs_iff.2 fun p hp => ?_, hn⟩
    exact ⟨(ihkeys p hp (by omega)).1, (ihvalues p hp (by omega)).1⟩
  | paren _ ih | lambda _ ih => exact ⟨(ih (by omega)).1, hn⟩
  | method _ hopens _ ih ihes =>
    obtain ⟨ha, htier⟩ := ih (by omega)
    have hes := grammaticalAll_iff.2 fun e he => (ihes e he (by omega)).1
    exact ⟨by simp [Expr.grammatical, ha, htier, hopens, hes], hn⟩
  | property _ hopens ih =>
    obtain ⟨ha, htier⟩ := ih (by omega)
    exact ⟨by simp [Expr.grammatical, ha, htier, hopens], hn⟩
  | index _ hopens _ ih ihi =>
    obtain ⟨ha, htier⟩ := ih (by omega)
    exact ⟨by simp [Expr.grammatical, ha, htier, hopens, (ihi (by omega)).1], hn⟩
  | unary hle hop _ ih =>
    obtain ⟨ha, htier⟩ := ih (by omega)
    exact ⟨by simp [Expr.grammatical, ha, htier, hop], hle⟩
  | binary hle hk hop _ hopens _ iha ihb =>
    have hkind := hreads _ _ hk hop
    simp only [TokenKind.isOperator, Bool.and_eq_true, decide_eq_true_eq] at hk
    have htier := binding_tokenKind? hkind
    obtain ⟨ha, hatier⟩ := iha (by omega)
    obtain ⟨hb, hbtier⟩ := ihb (by omega)
    refine ⟨?_, Nat.le_trans hle (Nat.le_of_eq htier.symm)⟩
    simp [Expr.grammatical, hkind, ha, hb, hopens, htier, hatier, Nat.lt_of_succ_le hbtier]

end Expr.Holds

/-- A token that is not an end mark is one of the tokens. -/
theorem Cursor.current_mem (c : Cursor) (h : c.current.kind ≠ .eof) : c.current ∈ c.tokens := by
  rw [c.stands] at h ⊢
  rw [Array.getD_eq_getD_getElem?] at h ⊢
  cases hget : c.tokens[min c.index (c.tokens.size - 1)]? with
  | none =>
    rw [hget] at h
    exact absurd rfl h
  | some t => exact Array.mem_of_getElem? hget

namespace Parse

section

variable {α β : Type} {T : Array Token} {k : TokenKind}

/-- Of the tokens `T`, wherever the next one is of kind `k`, what `p` reads and the kind of the
token behind it satisfy `Q`. -/
def FindsFrom (T : Array Token) (k : TokenKind) (p : Parse α) (Q : α → TokenKind → Prop) : Prop :=
  ∀ ⦃c a c'⦄, c.tokens = T → c.current.kind = k → p c = .ok a c' →
    c'.tokens = T ∧ Q a c'.current.kind

/-- The same wherever `p` starts. -/
def Finds (T : Array Token) (p : Parse α) (Q : α → TokenKind → Prop) : Prop :=
  ∀ k, FindsFrom T k p Q

/-- Whatever moves the cursor leaves the tokens as they are. -/
theorem Steady.finds {p : Parse α} (h : Steady p) : Finds T p fun _ _ => True := by
  intro k c a c' hc _ hok
  have hsame := (h c).same
  rw [finalState_ok hok] at hsame
  exact ⟨hsame.1.trans hc, trivial⟩

namespace FindsFrom

variable {p : Parse α} {f : α → Parse β} {Q Q' : α → TokenKind → Prop} {R : β → TokenKind → Prop}

theorem mono (h : FindsFrom T k p Q) (hQ : ∀ a k', Q a k' → Q' a k') : FindsFrom T k p Q' := by
  intro c a c' hc hk hok
  obtain ⟨hc', hq⟩ := h hc hk hok
  exact ⟨hc', hQ _ _ hq⟩

theorem bind (hp : FindsFrom T k p Q) (hf : ∀ a k', Q a k' → FindsFrom T k' (f a) R) :
    FindsFrom T k (p >>= f) R := by
  intro c b c' hc hk hok
  obtain ⟨a, c₁, hpok, hfok⟩ := bind_eq_ok hok
  obtain ⟨hc₁, hq⟩ := hp hc hk hpok
  exact hf a _ hq hc₁ rfl hfok

theorem map {f : α → β} (hp : FindsFrom T k p Q) (hQ : ∀ a k', Q a k' → R (f a) k') :
    FindsFrom T k (f <$> p) R := by
  intro c b c' hc hk hok
  obtain ⟨a, hpok, rfl⟩ := map_eq_ok hok
  obtain ⟨hc', hq⟩ := hp hc hk hpok
  exact ⟨hc', hQ _ _ hq⟩

/-- As `bind`, behind what only moves the cursor. -/
theorem behind (hp : Steady p) (hf : ∀ a, Finds T (f a) R) : FindsFrom T k (p >>= f) R :=
  (hp.finds k).bind fun a k' _ => hf a k'

theorem pure {a : α} (h : Q a k) : FindsFrom T k (Pure.pure a) Q := by
  intro c b c' hc hk hok
  obtain ⟨rfl, rfl⟩ := pure_ok hok
  exact ⟨hc, hk ▸ h⟩

theorem throw (e : Failure) : FindsFrom T k (MonadExcept.throw e) Q :=
  fun _ _ _ _ _ hok => absurd hok throw_ne_ok

theorem get {f : Cursor → Parse β} (h : ∀ c, FindsFrom T k (f c) R) :
    FindsFrom T k (MonadState.get >>= f) R :=
  fun c _ _ hc hk hok => h c hc hk (bind_get_ok hok)

theorem current {f : Token → Parse β}
    (h : ∀ t, t.kind = k → (k ≠ .eof → t ∈ T) → FindsFrom T k (f t) R) :
    FindsFrom T k (Parse.current >>= f) R := by
  intro c b c' hc hk hok
  exact h c.current hk (fun hne => hc ▸ c.current_mem (hk ▸ hne)) hc hk hok

theorem ite {b : Prop} [Decidable b] {q : Parse α} (hp : FindsFrom T k p Q)
    (hq : FindsFrom T k q Q) : FindsFrom T k (if b then p else q) Q := by
  split
  · exact hp
  · exact hq

/-- Whether a token is there does not move the cursor. -/
theorem sees {k' : TokenKind} {f : Bool → Parse β} (h : ∀ b, FindsFrom T k (f b) R) :
    FindsFrom T k (Parse.sees k' >>= f) R :=
  fun _ _ _ hc hk hok => h _ hc hk hok

end FindsFrom

section

variable {item : Parse α} {G : α → Prop}

theorem Finds.commaTail (h : Finds T item fun a _ => G a) (n : Nat) {found : List α}
    (hfound : ∀ a ∈ found, G a) : Finds T (commaTail item n found) fun as _ => ∀ a ∈ as, G a := by
  intro k
  induction n generalizing found k with
  | zero => exact .throw _
  | succ n ih =>
    have hdone : ∀ a ∈ found.reverse, G a := by simpa using hfound
    refine .sees fun _ => .ite (.behind steady_advance fun _ k => ?_) (.pure hdone)
    exact (h k).bind fun a k' ha => ih (List.forall_mem_cons.2 ⟨ha, hfound⟩) k'

theorem Finds.separated (h : Finds T item fun a _ => G a) :
    Finds T (separated item) fun as _ => ∀ a ∈ as, G a :=
  fun k => (h k).bind fun _ k' ha => .get fun _ =>
    h.commaTail _ (List.forall_mem_singleton.2 ha) k'

theorem Finds.commaTailUpTo (h : Finds T item fun a _ => G a) (close : TokenKind) (n : Nat)
    {found : List α} (hfound : ∀ a ∈ found, G a) :
    Finds T (commaTailUpTo close item n found) fun as _ => ∀ a ∈ as, G a := by
  intro k
  induction n generalizing found k with
  | zero => exact .throw _
  | succ n ih =>
    have hdone : ∀ a ∈ found.reverse, G a := by simpa using hfound
    refine .sees fun _ => .ite (.behind steady_advance fun _ k => ?_) (.pure hdone)
    refine .sees fun _ => .ite (.pure hdone) ((h k).bind fun a k' ha => ?_)
    exact ih (List.forall_mem_cons.2 ⟨ha, hfound⟩) k'

theorem Finds.literalItems (h : Finds T item fun a _ => G a) (close : TokenKind) :
    Finds T (literalItems close item) fun as _ => ∀ a ∈ as, G a := by
  have hrest (as : List α) (has : ∀ a ∈ as, G a) :
      Finds T (do let _ ← expect close; return as) fun as _ => ∀ a ∈ as, G a :=
    fun _ => .behind (steady_expect _) fun _ _ => .pure has
  intro k
  refine .sees fun _ => .ite ?_ ?_
  · exact hrest [] (List.forall_mem_nil _) k
  · refine (h k).bind fun a k' ha => .get fun _ => ?_
    exact (h.commaTailUpTo close _ (List.forall_mem_singleton.2 ha) k').bind
      fun as k' has => hrest as has k'

theorem Finds.enclosed (h : Finds T item fun a _ => G a) :
    Finds T (enclosed item) fun as _ => ∀ a ∈ as, G a := by
  have hrest (as : List α) (has : ∀ a ∈ as, G a) :
      Finds T (do let _ ← expect .rparen; return as) fun as _ => ∀ a ∈ as, G a :=
    fun _ => .behind (steady_expect _) fun _ _ => .pure has
  intro k
  refine .sees fun _ => .ite ?_ ?_
  · exact hrest [] (List.forall_mem_nil _) k
  · exact (h.separated k).bind fun as k' has => hrest as has k'

theorem Finds.itemsUntil (h : Finds T item fun a _ => G a) (close : TokenKind) (n : Nat)
    {found : List α} (hfound : ∀ a ∈ found, G a) :
    Finds T (itemsUntil close item n found) fun as _ => ∀ a ∈ as, G a := by
  intro k
  induction n generalizing found k with
  | zero => exact .throw _
  | succ n ih =>
    refine .sees fun _ => .ite (.pure (by simpa using hfound)) ((h k).bind fun a k' ha => ?_)
    exact ih (List.forall_mem_cons.2 ⟨ha, hfound⟩) k'

theorem Finds.braced (h : Finds T item fun a _ => G a) :
    Finds T (braced item) fun as _ => ∀ a ∈ as, G a := by
  intro k
  refine .behind (steady_expect _) fun _ k => .get fun _ => ?_
  refine (h.itemsUntil .rbrace _ (List.forall_mem_nil _) k).bind fun as _ has => ?_
  exact .behind (steady_expect _) fun _ _ => .pure has

end

end

/-- Is the operator read from a token of kind `k` among these? -/
def operatorsOf (T : Array Token) (k : TokenKind) (op : BinaryOp) : Prop :=
  ∃ t ∈ T, t.kind = k ∧ chain.operator t = op

/-- What is read holds together as tightly as tier `n`, and what stands behind it binds less
tightly; behind an open lambda, not at all. -/
def Munches (T : Array Token) (n : Nat) (p : Parse Expr) : Prop :=
  Finds T p fun e k => e.Holds (operatorsOf T) n ∧ k.binding < n ∧ (e.opens = true → k.binding = 0)

variable {T : Array Token} {expr operand : Parse Expr} {ops : List TokenKind} {n : Nat}

namespace Munches

theorem item (h : Munches T n expr) : Finds T expr fun e _ => e.Holds (operatorsOf T) n :=
  fun k => (h k).mono fun _ _ hq => hq.1

theorem pair (h : Munches T 1 expr) : Finds T (pair expr) fun p _ =>
    p.1.Holds (operatorsOf T) 1 ∧ p.2.Holds (operatorsOf T) 1 := by
  intro k
  refine (h k).bind fun a _ ha => .behind (steady_expect _) fun _ k => ?_
  exact (h k).bind fun b _ hb => .pure ⟨ha.1, hb.1⟩

theorem optionalArguments (h : Munches T 1 expr) :
    Finds T (optionalArguments expr) fun es _ => ∀ e ∈ es, e.Holds (operatorsOf T) 1 := by
  intro k
  refine .sees fun _ => .ite (.behind steady_advance fun _ k => ?_) (.pure (List.forall_mem_nil _))
  exact h.item.enclosed k

/-- What is no open lambda has no say in what stands behind it. -/
theorem closed {e : Expr} {k : TokenKind} (h : e.opens = false) (ho : e.opens = true) :
    k.binding = 0 :=
  absurd (h.symm.trans ho) Bool.false_ne_true

/-- What `primary` reads: nothing of the same expression follows a lambda. -/
theorem primary (h : Munches T 1 expr) : Finds T (primary expr) fun e k =>
    e.Holds (operatorsOf T) 8 ∧ (e.opens = true → k.binding = 0) := by
  have hpure {e : Expr} (he : e.Holds (operatorsOf T) 8) (hopens : e.opens = false)
      (k : TokenKind) : FindsFrom T k (do let _ ← advance; return e) fun e k =>
        e.Holds (operatorsOf T) 8 ∧ (e.opens = true → k.binding = 0) :=
    .behind steady_advance fun _ _ => .pure ⟨he, closed hopens⟩
  intro k
  refine .current fun t ht _ => ?_
  split
  case h_4 =>
    refine .behind steady_line fun _ _ => .behind (steady_expect _) fun _ k => ?_
    exact (h.item.literalItems _ k).bind fun es _ hes => .pure ⟨.list hes, closed rfl⟩
  case h_5 =>
    refine .behind steady_line fun _ _ => .behind (steady_expect _) fun _ k => ?_
    refine (h.pair.literalItems _ k).bind fun ps _ hps => .pure ⟨.dict ?_ ?_, closed rfl⟩
    · exact fun p hp => (hps p hp).1
    · exact fun p hp => (hps p hp).2
  case h_6 =>
    refine .behind steady_line fun _ _ => .behind (steady_expect _) fun _ _ => ?_
    refine .behind steady_name fun _ k => ?_
    exact (h.optionalArguments k).bind fun es _ hes => .pure ⟨.newObject hes, closed rfl⟩
  case h_7 =>
    have hbody (xs : List String) (l : Nat) : Finds T (do
        let _ ← expect .colon
        return Expr.lambda xs (← expr) l) fun e k =>
          e.Holds (operatorsOf T) 8 ∧ (e.opens = true → k.binding = 0) := by
      refine fun _ => .behind (steady_expect _) fun _ k => (h k).bind fun b k' hb => ?_
      exact .pure ⟨.lambda hb.1, fun _ => by have := hb.2.1; omega⟩
    refine .behind steady_line fun l _ => .behind (steady_expect _) fun _ _ => .sees fun _ => ?_
    refine .ite (.behind (Steady.separated steady_name) fun xs => hbody xs l) ?_
    exact hbody [] l _
  case h_9 =>
    refine .behind steady_line fun _ _ => .behind (steady_expect _) fun _ _ => ?_
    refine .behind (steady_expect _) fun _ _ => .behind steady_memberName fun _ k => ?_
    exact (h.optionalArguments k).bind fun es _ hes => .pure ⟨.superCall hes, closed rfl⟩
  case h_11 =>
    refine .behind steady_advance fun _ k => (h k).bind fun a _ ha => ?_
    exact .behind (steady_expect _) fun _ _ => .pure ⟨.paren ha.1, closed rfl⟩
  case h_12 => exact .throw _
  case h_8 => exact hpure .thisObject rfl k
  case h_10 => exact hpure .var rfl k
  all_goals exact hpure .literal rfl k

theorem postfixes (h : Munches T 1 expr) (m : Nat) {e : Expr} {k : TokenKind}
    (he : e.Holds (operatorsOf T) 8) (hopens : e.opens = true → k.binding = 0) :
    FindsFrom T k (postfixes expr m e) fun e k =>
      e.Holds (operatorsOf T) 8 ∧ k.binding < 8 ∧ (e.opens = true → k.binding = 0) := by
  induction m generalizing e k with
  | zero => exact .throw _
  | succ m ih =>
    refine .current fun t ht _ => ?_
    rw [ht]
    cases k with
    | lparen =>
      cases e with
      | var =>
        refine .behind steady_advance fun _ k => (h.item.enclosed k).bind fun es _ hes => ?_
        exact ih (.call hes) (closed rfl)
      | _ => exact .throw _
    | lbracket =>
      -- Behind an open lambda there would be no bracket and no dot.
      have hclosed : e.opens = false := by simpa [TokenKind.binding] using hopens
      refine .behind steady_advance fun _ k => (h k).bind fun i _ hi => ?_
      exact .behind (steady_expect _) fun _ _ => ih (.index he hclosed hi.1) (closed rfl)
    | dot =>
      have hclosed : e.opens = false := by simpa [TokenKind.binding] using hopens
      refine .behind steady_advance fun _ _ => .behind steady_memberName fun _ _ => ?_
      refine .sees fun _ => .ite (.behind steady_advance fun _ k => ?_) ?_
      · exact (h.item.enclosed k).bind fun es _ hes => ih (.method he hclosed hes) (closed rfl)
      · exact ih (.property he hclosed) (closed rfl)
    | _ => exact .pure ⟨he, by decide, hopens⟩

theorem applied (h : Munches T 1 expr) : Munches T 8 (applied expr) :=
  fun k => (h.primary k).bind fun _ _ he => .get fun _ => h.postfixes _ he.1 he.2

theorem signs (h : Munches T 1 expr) (m : Nat) : Munches T 7 (signs expr m) := by
  have hsign {op : UnaryOp} (hop : op.tokenKind?.isSome = true) {p : Parse Expr}
      (hp : Munches T 7 p) (l : Nat) : Munches T 7 (do return Expr.unary op (← p) l) :=
    fun k => (hp k).bind fun a _ ha => .pure ⟨.unary (Nat.le_refl 7) hop ha.1, ha.2⟩
  induction m with
  | zero => exact fun _ => .throw _
  | succ m ih =>
    refine fun k => .current fun t _ _ => ?_
    split
    · exact .behind steady_advance fun _ => hsign rfl ih _
    · exact .behind steady_advance fun _ => hsign rfl ih _
    · refine (h.applied k).mono fun e k' he => ⟨he.1.mono (by decide), ?_, he.2.2⟩
      have hseven := binding_ne_seven k'
      have hlt := he.2.1
      omega

theorem unary (h : Munches T 1 expr) : Munches T 7 (unary expr) :=
  fun k => .get fun _ => h.signs _ k

/-- The operators of one tier take operands of the next one. -/
theorem chain (h : Munches T (n + 1) operand)
    (hops : ∀ k : TokenKind, ops.contains k = (k.binding == n)) (hn : 1 ≤ n) (hn' : n ≤ 6)
    (m : Nat) {left : Expr} {k : TokenKind}
    (hleft : left.Holds (operatorsOf T) n) (hk : k.binding ≤ n)
    (hopens : left.opens = true → k.binding = 0) :
    FindsFrom T k (chain ops operand m left) fun e k =>
      e.Holds (operatorsOf T) n ∧ k.binding < n ∧ (e.opens = true → k.binding = 0) := by
  induction m generalizing left k with
  | zero => exact .throw _
  | succ m ih =>
    refine .current fun t ht hmem => ?_
    split
    next hop =>
      have hbinding : k.binding = n := by
        rw [ht, hops] at hop
        exact eq_of_beq hop
      have hclosed : left.opens = false := by
        cases ho : left.opens with
        | false => rfl
        | true => exact absurd (hopens ho) (by omega)
      have hne : k ≠ .eof := by
        rintro rfl
        exact absurd hbinding (by simp [TokenKind.binding]; omega)
      refine .behind steady_advance fun _ k' => (h k').bind fun right k'' hright => ?_
      refine ih ?_ (Nat.le_of_lt_succ hright.2.1) hright.2.2
      have hoperator : k.isOperator = true := by simp [TokenKind.isOperator, hbinding, hn, hn']
      exact .binary (Nat.le_of_eq hbinding.symm) hoperator ⟨t, hmem hne, ht, rfl⟩
        (hbinding ▸ hleft) hclosed (hbinding ▸ hright.1)
    next hop =>
      have hne : k.binding ≠ n := by
        rw [ht, hops] at hop
        simpa using hop
      exact .pure ⟨hleft, by omega, hopens⟩

theorem level (h : Munches T (n + 1) operand)
    (hops : ∀ k : TokenKind, ops.contains k = (k.binding == n)) (hn : 1 ≤ n)
    (hn' : n ≤ 6) : Munches T n (level ops operand) := by
  refine fun k => (h k).bind fun left k' hleft => .get fun _ => ?_
  exact h.chain hops hn hn' _ (hleft.1.mono (by omega)) (Nat.le_of_lt_succ hleft.2.1) hleft.2.2

theorem disjunction (h : Munches T 1 expr) : Munches T 1 (disjunction expr) :=
  disjunction_induction (P := Munches T) h.unary fun _ _ _ hn hn' hops h => h.level hops hn hn'

end Munches

theorem munches_expressionWithin (n : Nat) : Munches T 1 (expressionWithin n) := by
  induction n with
  | zero => exact fun _ => .throw _
  | succ n ih => exact ih.disjunction

theorem munches_expression : Munches T 1 expression :=
  fun k => .get fun _ => munches_expressionWithin _ k

theorem tokenKind?_of_spelling {t : Token} (hk : t.kind.isOperator = true)
    (ht : t.value.text = t.kind.spelling) : (chain.operator t).tokenKind? = some t.kind := by
  unfold chain.operator
  rw [ht]
  cases h : t.kind <;> rw [h] at hk <;> first | rfl | cases hk

/-- An expression that is read from any tokens groups its operands by the kinds of the operators
between them, and it ends only where the next token can be no part of it. If the operators say what
tokens of their kinds say, the expression is grammatical. -/
theorem expression_shape {c c' : Cursor} {e : Expr} (h : expression c = .ok e c') :
    e.Holds (operatorsOf c.tokens) 1 ∧ c'.current.kind.binding = 0 ∧
    ((∀ t ∈ c.tokens, t.kind.isOperator = true → t.value.text = t.kind.spelling) →
      e.grammatical = true) := by
  obtain ⟨-, hholds, hbinding, -⟩ := munches_expression c.current.kind rfl rfl h
  refine ⟨hholds, Nat.lt_one_iff.1 hbinding, fun hspelled => ?_⟩
  refine (hholds.grammatical (by decide) ?_).1
  rintro k op hk ⟨t, hmem, rfl, rfl⟩
  exact tokenKind?_of_spelling hk (hspelled t hmem hk)

/-- `- 1 * lambada x: x ya 2 ] + 3`, and the end mark. -/
def greedyLambda : List Token :=
  [⟨.minus, .str "-", 1, 1⟩, ⟨.number, .int 1, 1, 3⟩, ⟨.multiply, .str "*", 1, 5⟩,
   ⟨.lambda, .str "lambada", 1, 7⟩, ⟨.identifier, .str "x", 1, 15⟩, ⟨.colon, .str ":", 1, 16⟩,
   ⟨.identifier, .str "x", 1, 18⟩, ⟨.or, .str "ya", 1, 20⟩, ⟨.number, .int 2, 1, 23⟩,
   ⟨.rbracket, .str "]", 1, 25⟩, ⟨.plus, .str "+", 1, 27⟩, ⟨.number, .int 3, 1, 29⟩,
   ⟨.eof, .none, 1, 30⟩]

/-- The body of the lambda takes in all up to the bracket. -/
theorem expression_shape_lambda :
    ∃ (e : Expr) (c' : Cursor), expression (.ofTokens greedyLambda) = .ok e c' ∧ c'.index = 9 ∧
      e.Holds (operatorsOf greedyLambda.toArray) 1 ∧ c'.current.kind.binding = 0 ∧
      e.grammatical = true := by
  have hspelled : ∀ t ∈ greedyLambda.toArray, t.kind.isOperator = true →
      t.value.text = t.kind.spelling := by decide
  refine ⟨_, _, rfl, rfl, ?_⟩
  obtain ⟨hholds, hbinding, hgrammatical⟩ := expression_shape (c := .ofTokens greedyLambda) rfl
  exact ⟨hholds, hbinding, hgrammatical hspelled⟩

end Parse

end Bhasha
