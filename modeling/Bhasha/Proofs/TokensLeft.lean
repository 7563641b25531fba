import Bhasha.Proofs.CursorMoves

namespace Bhasha

namespace Cursor

variable {c c' : Cursor}

/-- An end mark stands at the cursor or behind it. -/
def Ended (c : Cursor) : Prop :=
  ∃ (j : Nat) (t : Token), c.index ≤ j ∧ c.tokens[j]? = some t ∧ t.kind = .eof

theorem Ended.index_lt (h : c.Ended) : c.index < c.tokens.size := by
  obtain ⟨j, t, hj, ht, -⟩ := h
  have hlt := (Array.getElem?_eq_some_iff.mp ht).1
  omega

theorem Ended.remaining_pos (h : c.Ended) : 0 < c.remaining :=
  Nat.sub_pos_of_lt h.index_lt

theorem Ended.getElem? (h : c.Ended) : c.tokens[c.index]? = some c.current := by
  have hlt := h.index_lt
  rw [c.stands, Nat.min_eq_left (by omega), Array.getD_eq_getD_getElem?,
    Array.getElem?_eq_getElem hlt]
  rfl

theorem Ended.advanced (h : c.Ended) : c.advanced.Ended := by
  rw [Cursor.advanced]
  split
  · exact h
  next hend =>
    have hcurrent := h.getElem?
    obtain ⟨j, t, hj, ht, hkind⟩ := h
    refine ⟨j, t, ?_, ht, hkind⟩
    have hne : c.index ≠ j := by
      intro heq
      rw [heq, ht] at hcurrent
      cases hcurrent
      exact hend (by simp [atEnd, hkind])
    change c.index + 1 ≤ j
    omega

theorem advanced_of_ne (hc : c.current.kind ≠ .eof) :
    c.advanced.tokens = c.tokens ∧ c.advanced.index = c.index + 1 := by
  rw [advanced, if_neg (by simpa [atEnd] using hc)]
  exact ⟨rfl, rfl⟩

theorem remaining_advanced (hc : c.current.kind ≠ .eof) :
    c.advanced.remaining = c.remaining - 1 := by
  obtain ⟨htokens, hindex⟩ := advanced_of_ne hc
  rw [remaining, htokens, hindex]
  exact Nat.sub_add_eq _ _ _

/-- The syntax error of an expression that cannot start with the token at the cursor. -/
def blame (c : Cursor) : Diagnostic :=
  .unexpectedToken "expression" c.current.value.text c.current.line c.current.column

end Cursor

namespace Parse

/-- What the parser breaks off with: errors that could not be made. -/
def faults : List Fault :=
  [.noMember "ParserError" "expected_token", .noMember "ParserError" "expected_identifier",
   .unknownSlot "MeriLangError.__init__" "message",
   .unknownSlot "ParserError.unexpected_token" "token"]

section

variable {α β : Type} {s s' r r₁ r' q q₁ q' : Nat} {c : Cursor} {p : Parse α} {f : α → Parse β}

/-- From `c`, `p` leaves at most `r` tokens if it succeeds and at most `q` if it finds a syntax
error, which is about the token it has come to; otherwise it breaks off. -/
structure LeavesFrom (c : Cursor) (r q : Nat) (p : Parse α) : Prop where
  ok : ∀ {a c'}, p c = .ok a c' → c'.Ended ∧ c'.remaining ≤ r
  diagnosed : ∀ {d c'}, p c = .error (.diagnostic d) c' →
    c'.Ended ∧ c'.remaining ≤ q ∧ d = c'.blame
  broken : ∀ {f c'}, p c = .error (.fault f) c' → f ∈ faults

/-- The same wherever at most `s` tokens are left. -/
def Leaves (s r q : Nat) (p : Parse α) : Prop :=
  ∀ c : Cursor, c.Ended → c.remaining ≤ s → LeavesFrom c r q p

/-- Wherever at most `n` tokens are left, `p` takes one if it succeeds. -/
def Takes (n : Nat) (p : Parse α) : Prop :=
  ∀ ⦃s q⦄, s ≤ n → s ≤ q → Leaves s (s - 1) q p

/-- Wherever at most `n` tokens are left, `p` takes one before it succeeds or finds a syntax
error. -/
def Commits (n : Nat) (p : Parse α) : Prop :=
  ∀ ⦃s q⦄, s ≤ n → s - 1 ≤ q → Leaves s (s - 1) q p

theorem Commits.takes {n : Nat} (h : Commits n p) : Takes n p :=
  fun _ _ hs hq => h hs (by omega)

theorem LeavesFrom.congr {p' : Parse α} (h : LeavesFrom c r q p') (hp : p c = p' c) :
    LeavesFrom c r q p where
  ok hok := h.ok (hp ▸ hok)
  diagnosed herr := h.diagnosed (hp ▸ herr)
  broken herr := h.broken (hp ▸ herr)

theorem LeavesFrom.bind (hp : LeavesFrom c r₁ q p) (hf : ∀ a, Leaves r₁ r q (f a)) :
    LeavesFrom c r q (p >>= f) where
  ok hok := by
    obtain ⟨a, c₁, hpc, hfc⟩ := bind_eq_ok hok
    exact (hf a c₁ (hp.ok hpc).1 (hp.ok hpc).2).ok hfc
  diagnosed herr := by
    rcases bind_eq_error herr with hpc | ⟨a, c₁, hpc, hfc⟩
    · exact hp.diagnosed hpc
    · exact (hf a c₁ (hp.ok hpc).1 (hp.ok hpc).2).diagnosed hfc
  broken herr := by
    rcases bind_eq_error herr with hpc | ⟨a, c₁, hpc, hfc⟩
    · exact hp.broken hpc
    · exact (hf a c₁ (hp.ok hpc).1 (hp.ok hpc).2).broken hfc

namespace Leaves

theorem mono (h : Leaves s r q p) (hr : r ≤ r') : Leaves s r' q p := by
  intro c hc hs
  have hp := h c hc hs
  exact ⟨fun hok => ⟨(hp.ok hok).1, Nat.le_trans (hp.ok hok).2 hr⟩, hp.diagnosed, hp.broken⟩

theorem bind (hp : Leaves s r₁ q p) (hf : ∀ a, Leaves r₁ r q (f a)) : Leaves s r q (p >>= f) :=
  fun c hc hs => (hp c hc hs).bind hf

theorem map {g : α → β} (hp : Leaves s r q p) : Leaves s r q (g <$> p) := by
  intro c hc hs
  have h := hp c hc hs
  refine ⟨fun hok => ?_, fun herr => h.diagnosed (map_eq_error herr),
    fun herr => h.broken (map_eq_error herr)⟩
  obtain ⟨a, hpc, -⟩ := map_eq_ok hok
  exact h.ok hpc

theorem get {f : Cursor → Parse β} (h : ∀ c, c.Ended → c.remaining ≤ s →
    Leaves c.remaining r q (f c)) : Leaves s r q (MonadState.get >>= f) :=
  fun c hc hs => (h c hc hs c hc (Nat.le_refl _)).congr rfl

/-- An end mark is always left. -/
theorem zero (r q : Nat) (p : Parse α) : Leaves 0 r q p :=
  fun _ hc hs => absurd hc.remaining_pos (by omega)

theorem pure (a : α) (h : s ≤ r) : Leaves s r q (Pure.pure a) := by
  intro c hc hs
  refine ⟨fun hok => ?_, fun herr => ?_, fun herr => ?_⟩
  · obtain ⟨-, rfl⟩ := pure_ok hok
    exact ⟨hc, Nat.le_trans hs h⟩
  · cases herr
  · cases herr

theorem fault {f : Fault} (h : f ∈ faults) : Leaves s r q (throw (.fault f) : Parse α) := by
  intro c hc hs
  refine ⟨fun hok => ?_, fun herr => ?_, fun herr => ?_⟩
  · cases hok
  · cases herr
  · cases herr
    exact h

end Leaves

theorem LeavesFrom.blame (hc : c.Ended) (hq : c.remaining ≤ q) :
    LeavesFrom c r q (throw (.diagnostic c.blame) : Parse α) := by
  refine ⟨fun hok => ?_, fun herr => ?_, fun herr => ?_⟩
  · cases hok
  · cases herr
    exact ⟨hc, hq, rfl⟩
  · cases herr

theorem advance_of_ended (hc : c.Ended) (hne : c.current.kind ≠ .eof) :
    advance c = .ok c.current c.advanced := by
  have hmodify : (modify Cursor.advanced : Parse PUnit) c = .ok ⟨⟩ c.advanced := rfl
  have hget : (MonadState.get : Parse Cursor) c.advanced = .ok c.advanced c.advanced := rfl
  have hprevious : c.advanced.previous? = some c.current := by
    obtain ⟨htokens, hindex⟩ := Cursor.advanced_of_ne hne
    rw [Cursor.previous?, htokens, hindex, if_neg (Nat.succ_ne_zero _)]
    exact hc.getElem?
  rw [advance, bind_of_ok hmodify, bind_of_ok hget, hprevious]
  rfl

theorem leavesFrom_advance (hc : c.Ended) (hne : c.current.kind ≠ .eof) :
    LeavesFrom c (c.remaining - 1) q advance := by
  have hrun := advance_of_ended hc hne
  refine ⟨fun hok => ?_, fun herr => ?_, fun herr => ?_⟩
  · rw [hrun] at hok
    cases hok
    exact ⟨hc.advanced, Nat.le_of_eq (Cursor.remaining_advanced hne)⟩
  · rw [hrun] at herr
    cases herr
  · rw [hrun] at herr
    cases herr

theorem LeavesFrom.advance {f : Token → Parse β} (hc : c.Ended) (hne : c.current.kind ≠ .eof)
    (hs : c.remaining ≤ s) (hf : ∀ t, Leaves (s - 1) r q (f t)) :
    LeavesFrom c r q (Parse.advance >>= f) :=
  (leavesFrom_advance hc hne).bind fun t c' hc' hs' => hf t c' hc' (by omega)

theorem LeavesFrom.current {f : Token → Parse β} (h : LeavesFrom c r q (f c.current)) :
    LeavesFrom c r q (Parse.current >>= f) :=
  h.congr rfl

theorem LeavesFrom.line {f : Nat → Parse β} (h : LeavesFrom c r q (f c.current.line)) :
    LeavesFrom c r q (Parse.line >>= f) :=
  h.congr rfl

theorem Leaves.line {f : Nat → Parse β} (h : ∀ l, Leaves s r q (f l)) :
    Leaves s r q (Parse.line >>= f) :=
  fun c hc hs => (h c.current.line c hc hs).line

theorem Leaves.sees {k : TokenKind} {f : Bool → Parse β} (h : ∀ b, Leaves s r q (f b)) :
    Leaves s r q (Parse.sees k >>= f) :=
  fun c hc hs => (h _ c hc hs).congr rfl

theorem Leaves.seesAny {ks : List TokenKind} {f : Bool → Parse β} (h : ∀ b, Leaves s r q (f b)) :
    Leaves s r q (Parse.seesAny ks >>= f) :=
  fun c hc hs => (h _ c hc hs).congr rfl

/-- A token that is not an end mark can be asked for and taken. -/
theorem Leaves.ifSees {k : TokenKind} {f : Token → Parse β} {g : Parse β} (hk : k ≠ .eof)
    (hf : ∀ t, Leaves (s - 1) r q (f t)) (hg : Leaves s r q g) :
    Leaves s r q (do if ← Parse.sees k then Parse.advance >>= f else g) := by
  intro c hc hs
  have h : LeavesFrom c r q (if c.current.kind == k then Parse.advance >>= f else g) := by
    by_cases hsees : c.current.kind = k
    · rw [if_pos (by simpa using hsees)]
      exact .advance hc (hsees ▸ hk) hs hf
    · rw [if_neg (by simpa using hsees)]
      exact hg c hc hs
  exact h.congr rfl

theorem leaves_expect {k : TokenKind} (hk : k ≠ .eof) : Leaves s (s - 1) q (expect k) := by
  intro c hc hs
  have h : LeavesFrom c (s - 1) q (if c.current.kind == k then Parse.advance >>= Pure.pure else
      throw (.fault (.noMember "ParserError" "expected_token"))) := by
    by_cases hsees : c.current.kind = k
    · rw [if_pos (by simpa using hsees)]
      exact .advance hc (hsees ▸ hk) hs fun t => .pure t (Nat.le_refl _)
    · rw [if_neg (by simpa using hsees)]
      exact Leaves.fault (by simp [faults]) c hc hs
  rw [bind_pure] at h
  exact h.congr rfl

theorem leaves_nameOr {f : Fault} (hf : f ∈ faults) : Leaves s (s - 1) q (nameOr f) := by
  intro c hc hs
  refine LeavesFrom.current ?_
  by_cases hname : c.current.kind = .identifier
  · rw [if_pos (by simpa using hname)]
    exact .advance hc (by simp [hname]) hs fun t => .pure _ (Nat.le_refl _)
  · rw [if_neg (by simpa using hname)]
    exact Leaves.fault hf c hc hs

theorem leaves_name : Leaves s (s - 1) q name :=
  leaves_nameOr (by simp [faults])

theorem leaves_memberName : Leaves s (s - 1) q memberName :=
  leaves_nameOr (by simp [faults])

theorem takes_name (n : Nat) : Takes n name :=
  fun _ _ _ _ => leaves_name

section

variable {n m : Nat} {item : Parse α}

theorem Takes.commaTail (h : Takes n item) (hn : s ≤ n + 1) (hm : s ≤ m) (hq : s ≤ q)
    (found : List α) : Leaves s s q (commaTail item m found) := by
  -- the budget is never below what is left, as a comma is taken in every turn
  induction m generalizing s found with
  | zero => exact Nat.le_zero.mp hm ▸ .zero _ _ _
  | succ m ih =>
    refine .ifSees (by simp) (fun _ => ?_) (.pure _ (Nat.le_refl s))
    refine (h (by omega) (by omega)).bind fun a => ?_
    exact (ih (by omega) (by omega) (by omega) _).mono (by omega)

theorem Takes.separated (h : Takes n item) : Takes n (separated item) := by
  intro s q hs hq
  refine (h hs hq).bind fun a => .get fun c hc hr => ?_
  exact (h.commaTail (by omega) (by omega) (by omega) _).mono (by omega)

theorem Takes.commaTailUpTo (h : Takes n item) (close : TokenKind) (hn : s ≤ n + 1) (hm : s ≤ m)
    (hq : s ≤ q) (found : List α) : Leaves s s q (commaTailUpTo close item m found) := by
  induction m generalizing s found with
  | zero => exact Nat.le_zero.mp hm ▸ .zero _ _ _
  | succ m ih =>
    refine .ifSees (by simp) (fun _ => .sees fun b => ?_) (.pure _ (Nat.le_refl s))
    split
    · exact .pure _ (by omega)
    · refine (h (by omega) (by omega)).bind fun a => ?_
      exact (ih (by omega) (by omega) (by omega) _).mono (by omega)

theorem Takes.literalItems (h : Takes n item) {close : TokenKind} (hclose : close ≠ .eof) :
    Takes n (literalItems close item) := by
  intro s q hs hq
  have hrest {u : Nat} (hu : u ≤ s) (items : List α) :
      Leaves u (s - 1) q (do let _ ← expect close; return items) :=
    (leaves_expect hclose).bind fun _ => .pure _ (by omega)
  refine .sees fun b => ?_
  split
  · exact (Leaves.pure [] (Nat.le_refl s)).bind (hrest (Nat.le_refl s))
  · refine (h hs hq).bind fun a => .get fun c hc hr => ?_
    exact (h.commaTailUpTo close (by omega) (by omega) (by omega) _).bind (hrest (by omega))

theorem Takes.enclosed (h : Takes n item) : Takes n (enclosed item) := by
  intro s q hs hq
  have hrest {u : Nat} (hu : u ≤ s) (items : List α) :
      Leaves u (s - 1) q (do let _ ← expect .rparen; return items) :=
    (leaves_expect (by simp)).bind fun _ => .pure _ (by omega)
  refine .sees fun b => ?_
  split
  · exact (Leaves.pure [] (Nat.le_refl s)).bind (hrest (Nat.le_refl s))
  · exact (h.separated hs hq).bind (hrest (by omega))

theorem Takes.itemsUntil (h : Takes n item) (close : TokenKind) (hn : s ≤ n) (hm : s ≤ m)
    (hq : s ≤ q) (found : List α) : Leaves s s q (itemsUntil close item m found) := by
  -- no token is asked for between the items, so each item itself has to take one
  induction m generalizing s found with
  | zero => exact Nat.le_zero.mp hm ▸ .zero _ _ _
  | succ m ih =>
    refine .sees fun b => ?_
    split
    · exact .pure _ (Nat.le_refl s)
    · refine (h hn hq).bind fun a => ?_
      exact (ih (by omega) (by omega) (by omega) _).mono (by omega)

theorem Takes.braced (h : Takes n item) : Commits (n + 1) (braced item) := by
  intro s q hs hq
  refine (leaves_expect (by simp)).bind fun _ => .get fun c hc hr => ?_
  refine (h.itemsUntil .rbrace (by omega) (by omega) (by omega) _).bind fun items => ?_
  exact (leaves_expect (by simp)).bind fun _ => .pure _ (by omega)

end

section

variable {n m : Nat} {expr operand : Parse Expr} {ops : List TokenKind}

theorem Takes.pair (h : Takes n expr) : Takes n (pair expr) := by
  intro s q hs hq
  refine (h hs hq).bind fun _ => (leaves_expect (by simp)).bind fun _ => ?_
  exact (h (by omega) (by omega)).bind fun _ => .pure _ (by omega)

theorem Takes.list (h : Takes n expr) : Takes (n + 1) (list expr) := by
  intro s q hs hq
  refine .line fun _ => (leaves_expect (by simp)).bind fun _ => ?_
  exact (h.literalItems (by simp) (by omega) (by omega)).bind fun _ => .pure _ (by omega)

theorem Takes.dict (h : Takes n expr) : Takes (n + 1) (dict expr) := by
  intro s q hs hq
  refine .line fun _ => (leaves_expect (by simp)).bind fun _ => ?_
  exact (h.pair.literalItems (by simp) (by omega) (by omega)).bind fun _ => .pure _ (by omega)

theorem Takes.optionalArguments (h : Takes n expr) (hs : s ≤ n + 1) (hq : s ≤ q) :
    Leaves s s q (optionalArguments expr) :=
  .ifSees (by simp) (fun _ => (h.enclosed (by omega) (by omega)).mono (by omega))
    (.pure _ (Nat.le_refl s))

theorem Takes.newObject (h : Takes n expr) : Takes (n + 1) (newObject expr) := by
  intro s q hs hq
  refine .line fun _ => (leaves_expect (by simp)).bind fun _ => leaves_name.bind fun _ => ?_
  exact (h.optionalArguments (by omega) (by omega)).bind fun _ => .pure _ (by omega)

theorem Takes.lambda (h : Takes n expr) : Takes (n + 1) (lambda expr) := by
  intro s q hs hq
  refine .line fun l => (leaves_expect (by simp)).bind fun _ => .sees fun b => ?_
  have hbody {u : Nat} (hu : u ≤ s - 1) (xs : List String) : Leaves u (s - 1) q (do
      let _ ← expect .colon
      return Expr.lambda xs (← expr) l) := by
    refine (leaves_expect (by simp)).bind fun _ => ?_
    exact (h (by omega) (by omega)).bind fun _ => .pure _ (by omega)
  split
  · exact ((takes_name s).separated (by omega) (by omega)).bind (hbody (by omega))
  · exact (Leaves.pure [] (Nat.le_refl _)).bind (hbody (Nat.le_refl _))

theorem Takes.superCall (h : Takes n expr) : Takes (n + 1) (superCall expr) := by
  intro s q hs hq
  refine .line fun _ => (leaves_expect (by simp)).bind fun _ => ?_
  refine (leaves_expect (by simp)).bind fun _ => leaves_memberName.bind fun _ => ?_
  exact (h.optionalArguments (by omega) (by omega)).bind fun _ => .pure _ (by omega)

theorem Takes.primary (h : Takes n expr) : Takes (n + 1) (primary expr) := by
  intro s q hs hq c hc hr
  refine LeavesFrom.current ?_
  have hpure (hne : c.current.kind ≠ .eof) (e : Expr) :
      LeavesFrom c (s - 1) q (do let _ ← advance; return e) :=
    .advance hc hne hr fun _ => .pure _ (Nat.le_refl _)
  split
  case h_4 => exact h.list hs hq c hc hr
  case h_5 => exact h.dict hs hq c hc hr
  case h_6 => exact h.newObject hs hq c hc hr
  case h_7 => exact h.lambda hs hq c hc hr
  case h_9 => exact h.superCall hs hq c hc hr
  case h_11 hk =>
    refine .advance hc (by simp [hk]) hr fun _ => (h (by omega) (by omega)).bind fun _ => ?_
    exact (leaves_expect (by simp)).bind fun _ => .pure _ (by omega)
  case h_12 => exact .blame hc (Nat.le_trans hr hq)
  all_goals
    next hk => exact hpure (by simp [hk]) _

theorem Takes.postfixes (h : Takes n expr) (hn : s ≤ n + 1) (hm : s ≤ m) (hq : s ≤ q) (e : Expr) :
    Leaves s s q (postfixes expr m e) := by
  induction m generalizing s e with
  | zero => exact Nat.le_zero.mp hm ▸ .zero _ _ _
  | succ m ih =>
    intro c hc hr
    refine LeavesFrom.current ?_
    split
    next hk =>
      split
      · refine .advance hc (by simp [hk]) hr fun _ => ?_
        refine (h.enclosed (by omega) (by omega)).bind fun _ => ?_
        exact (ih (by omega) (by omega) (by omega) _).mono (by omega)
      · exact Leaves.fault (by simp [faults]) c hc hr
    next hk =>
      refine .advance hc (by simp [hk]) hr fun _ => (h (by omega) (by omega)).bind fun _ => ?_
      refine (leaves_expect (by simp)).bind fun _ => ?_
      exact (ih (by omega) (by omega) (by omega) _).mono (by omega)
    next hk =>
      refine .advance hc (by simp [hk]) hr fun _ => leaves_memberName.bind fun _ => ?_
      refine .ifSees (by simp) (fun _ => ?_) ?_
      · refine (h.enclosed (by omega) (by omega)).bind fun _ => ?_
        exact (ih (by omega) (by omega) (by omega) _).mono (by omega)
      · exact (ih (by omega) (by omega) (by omega) _).mono (by omega)
    · exact Leaves.pure e (Nat.le_refl s) c hc hr

theorem Takes.applied (h : Takes n expr) : Takes (n + 1) (applied expr) := by
  intro s q hs hq
  refine (h.primary hs hq).bind fun e => .get fun c hc hr => ?_
  exact (h.postfixes (by omega) (by omega) (by omega) e).mono hr

theorem Takes.signs (h : Takes n expr) (hn : s ≤ n + 1) (hm : s ≤ m) (hq : s ≤ q) :
    Leaves s (s - 1) q (signs expr m) := by
  induction m generalizing s with
  | zero => exact Nat.le_zero.mp hm ▸ .zero _ _ _
  | succ m ih =>
    intro c hc hr
    refine LeavesFrom.current ?_
    split
    next hk =>
      refine .advance hc (by simp [hk]) hr fun _ => ?_
      exact (ih (by omega) (by omega) (by omega)).bind fun _ => .pure _ (by omega)
    next hk =>
      refine .advance hc (by simp [hk]) hr fun _ => ?_
      exact (ih (by omega) (by omega) (by omega)).bind fun _ => .pure _ (by omega)
    · exact h.applied hn hq c hc hr

theorem Takes.unary (h : Takes n expr) : Takes (n + 1) (unary expr) := by
  intro s q hs hq
  refine .get fun c hc hr => ?_
  exact (h.signs (by omega) (by omega) (by omega)).mono (by omega)

theorem Takes.chain (h : Takes n operand) (hops : .eof ∉ ops) (hn : s ≤ n + 1) (hm : s ≤ m)
    (hq : s ≤ q) (left : Expr) : Leaves s s q (chain ops operand m left) := by
  induction m generalizing s left with
  | zero => exact Nat.le_zero.mp hm ▸ .zero _ _ _
  | succ m ih =>
    intro c hc hr
    refine LeavesFrom.current ?_
    split
    next hk =>
      -- an end mark is no operator
      have hne : c.current.kind ≠ .eof := by
        intro heof
        rw [heof] at hk
        exact hops (List.contains_iff_mem.mp hk)
      refine .advance hc hne hr fun _ => (h (by omega) (by omega)).bind fun _ => ?_
      exact (ih (by omega) (by omega) (by omega) _).mono (by omega)
    · exact Leaves.pure left (Nat.le_refl s) c hc hr

theorem Takes.level (h : Takes n operand) (hops : .eof ∉ ops) : Takes n (level ops operand) := by
  intro s q hs hq
  refine (h hs hq).bind fun left => .get fun c hc hr => ?_
  exact (h.chain hops (by omega) (by omega) (by omega) left).mono hr

theorem Takes.disjunction (h : Takes n expr) : Takes (n + 1) (disjunction expr) := by
  have hmultiplication : Takes (n + 1) (multiplication expr) := h.unary.level (by simp)
  have haddition : Takes (n + 1) (addition expr) := hmultiplication.level (by simp)
  have hcomparison : Takes (n + 1) (comparison expr) := haddition.level (by simp)
  have hequality : Takes (n + 1) (equality expr) := hcomparison.level (by simp)
  have hconjunction : Takes (n + 1) (conjunction expr) := hequality.level (by simp)
  exact hconjunction.level (by simp)

theorem takes_expressionWithin (n : Nat) : Takes n (expressionWithin n) := by
  induction n with
  | zero => exact fun _ _ hs _ => Nat.le_zero.mp hs ▸ .zero _ _ _
  | succ n ih => exact ih.disjunction

theorem takes_expression (n : Nat) : Takes n expression := by
  intro s q _ hq
  refine .get fun c hc hr => ?_
  exact (takes_expressionWithin _ (Nat.le_succ _) (by omega)).mono (by omega)

end

theorem leaves_expression (hq : s ≤ q) : Leaves s (s - 1) q expression :=
  takes_expression s (Nat.le_refl s) hq

theorem leaves_arguments (hq : s ≤ q) : Leaves s (s - 1) q (enclosed expression) :=
  (takes_expression s).enclosed (Nat.le_refl s) hq

theorem commits_declaration (n : Nat) : Commits n declaration := by
  intro s q _ hq
  refine .line fun _ => (leaves_expect (by simp)).bind fun _ => leaves_name.bind fun _ => ?_
  refine (leaves_expect (by simp)).bind fun _ => ?_
  exact (leaves_expression (by omega)).bind fun _ => .pure _ (by omega)

theorem commits_print (n : Nat) : Commits n print := by
  intro s q _ hq
  refine .line fun _ => (leaves_expect (by simp)).bind fun _ => ?_
  refine (leaves_expect (by simp)).bind fun _ => ?_
  exact (leaves_arguments (by omega)).bind fun _ => .pure _ (by omega)

theorem commits_input (n : Nat) : Commits n input := by
  intro s q _ hq
  refine .line fun _ => (leaves_expect (by simp)).bind fun _ => leaves_name.bind fun _ => ?_
  intro c hc hr
  refine LeavesFrom.current ?_
  split
  next hk => exact .advance hc (by simp [beq_iff_eq.mp hk]) hr fun _ => .pure _ (by omega)
  · exact Leaves.pure _ (by omega) c hc hr

theorem commits_giveBack (n : Nat) : Commits n giveBack := by
  intro s q _ hq
  refine .line fun _ => (leaves_expect (by simp)).bind fun _ => .seesAny fun b => ?_
  split
  · exact .pure _ (Nat.le_refl _)
  · exact (leaves_expression (by omega)).bind fun _ => .pure _ (by omega)

theorem commits_raiseError (n : Nat) : Commits n raiseError := by
  intro s q _ hq
  refine .line fun _ => (leaves_expect (by simp)).bind fun _ => ?_
  exact (leaves_expression (by omega)).bind fun _ => .pure _ (by omega)

theorem leavesFrom_thisAssignment (hc : c.Ended) (hs : c.remaining ≤ s) (hq : s - 1 ≤ q)
    (hne : c.current.kind ≠ .eof) : LeavesFrom c (s - 1) q thisAssignment := by
  refine .line (.advance hc hne hs fun _ => ?_)
  refine .ifSees (by simp) (fun _ => ?_) (.fault (by simp [faults]))
  refine leaves_memberName.bind fun _ => (leaves_expect (by simp)).bind fun _ => ?_
  exact (leaves_expression (by omega)).bind fun _ => .pure _ (by omega)

theorem commits_named (n : Nat) : Commits n named := by
  intro s q _ hq
  refine .line fun _ => leaves_name.bind fun _ => ?_
  intro c hc hr
  refine LeavesFrom.current ?_
  split
  next hk =>
    refine .advance hc (by simp [hk]) hr fun _ => leaves_memberName.bind fun _ => ?_
    refine .ifSees (by simp) (fun _ => ?_) ?_
    · exact (leaves_arguments (by omega)).bind fun _ => .pure _ (by omega)
    · refine (leaves_expect (by simp)).bind fun _ => ?_
      exact (leaves_expression (by omega)).bind fun _ => .pure _ (by omega)
  next hk =>
    refine .advance hc (by simp [hk]) hr fun _ => (leaves_expression (by omega)).bind fun _ => ?_
    refine (leaves_expect (by simp)).bind fun _ => (leaves_expect (by simp)).bind fun _ => ?_
    exact (leaves_expression (by omega)).bind fun _ => .pure _ (by omega)
  next hk =>
    refine .advance hc (by simp [hk]) hr fun _ => ?_
    exact (leaves_expression (by omega)).bind fun _ => .pure _ (by omega)
  next hk =>
    refine .advance hc (by simp [hk]) hr fun _ => ?_
    exact (leaves_arguments (by omega)).bind fun _ => .pure _ (by omega)
  · exact Leaves.fault (by simp [faults]) c hc hr

/-- Only where a statement starts with a name or `yeh` does it take a token before it can fail. -/
theorem leavesFrom_assignmentOrExpression (hc : c.Ended) (hs : c.remaining ≤ s) (hq : s - 1 ≤ q)
    (hkind : c.current.kind = .identifier ∨ c.current.kind = .this) :
    LeavesFrom c (s - 1) q assignmentOrExpression := by
  have hsees (k : TokenKind) : Parse.sees k c = .ok (c.current.kind == k) c := rfl
  rcases hkind with hname | hthis
  · refine (commits_named s (Nat.le_refl s) hq c hc hs).congr ?_
    rw [assignmentOrExpression, bind_of_ok (hsees .this), hname, if_neg (by simp),
      bind_of_ok (hsees .identifier), hname, if_pos (by simp)]
  · refine (leavesFrom_thisAssignment hc hs hq (by simp [hthis])).congr ?_
    rw [assignmentOrExpression, bind_of_ok (hsees .this), hthis, if_pos (by simp)]

section

variable {n m : Nat} {stmt : Parse Stmt}

theorem Takes.branches (h : Takes n stmt) (hn : s ≤ n + 2) (hm : s ≤ m) (hq : s ≤ q)
    (found : List Branch) : Leaves s s q (branches stmt m found) := by
  induction m generalizing s found with
  | zero => exact Nat.le_zero.mp hm ▸ .zero _ _ _
  | succ m ih =>
    refine .ifSees (by simp) (fun _ => ?_) (.pure _ (Nat.le_refl s))
    refine (leaves_expression (by omega)).bind fun _ => ?_
    refine (h.braced (by omega) (by omega)).bind fun _ => ?_
    exact (ih (by omega) (by omega) (by omega) _).mono (by omega)

theorem Takes.optionalBlock (h : Takes n stmt) {k : TokenKind} (hk : k ≠ .eof) (hn : s ≤ n + 2)
    (hq : s ≤ q) : Leaves s s q (optionalBlock k stmt) :=
  .ifSees hk (fun _ => (h.braced (by omega) (by omega)).bind fun _ => .pure _ (by omega))
    (.pure _ (Nat.le_refl s))

theorem Takes.conditional (h : Takes n stmt) : Commits (n + 1) (conditional stmt) := by
  intro s q hs hq
  refine .line fun _ => (leaves_expect (by simp)).bind fun _ => ?_
  refine (leaves_expression (by omega)).bind fun _ => ?_
  refine (h.braced (by omega) (by omega)).bind fun _ => ?_
  refine .get fun c hc hr => (h.branches (by omega) (by omega) (by omega) _).bind fun _ => ?_
  exact (h.optionalBlock (by simp) (by omega) (by omega)).bind fun _ => .pure _ (by omega)

theorem Takes.whileLoop (h : Takes n stmt) : Commits (n + 1) (whileLoop stmt) := by
  intro s q hs hq
  refine .line fun _ => (leaves_expect (by simp)).bind fun _ => ?_
  refine (leaves_expression (by omega)).bind fun _ => ?_
  exact (h.braced (by omega) (by omega)).bind fun _ => .pure _ (by omega)

theorem Takes.forLoop (h : Takes n stmt) : Commits (n + 1) (forLoop stmt) := by
  intro s q hs hq
  refine .line fun _ => (leaves_expect (by simp)).bind fun _ => leaves_name.bind fun _ => ?_
  refine (leaves_expect (by simp)).bind fun _ => (leaves_expression (by omega)).bind fun _ => ?_
  exact (h.braced (by omega) (by omega)).bind fun _ => .pure _ (by omega)

theorem Takes.functionDef (h : Takes n stmt) : Commits (n + 1) (functionDef stmt) := by
  intro s q hs hq
  refine .line fun _ => (leaves_expect (by simp)).bind fun _ => leaves_name.bind fun _ => ?_
  refine (leaves_expect (by simp)).bind fun _ => ?_
  refine ((takes_name s).enclosed (by omega) (by omega)).bind fun _ => ?_
  exact (h.braced (by omega) (by omega)).bind fun _ => .pure _ (by omega)

theorem Takes.methodDef (h : Takes n stmt) : Takes (n + 1) (methodDef stmt) := by
  intro s q hs hq
  refine .sees fun b => ?_
  split
  · exact h.functionDef.takes hs hq
  · exact .fault (by simp [faults])

theorem Takes.classDef (h : Takes n stmt) : Commits (n + 1) (classDef stmt) := by
  intro s q hs hq
  refine .line fun l => (leaves_expect (by simp)).bind fun _ => leaves_name.bind fun x => ?_
  have hbody {u : Nat} (hu : u ≤ s - 1) (parent : Option String) : Leaves u (s - 1) q (do
      return Stmt.classDef x parent (← Parse.braced (Parse.methodDef stmt)) l) :=
    (h.methodDef.braced (by omega) (by omega)).bind fun _ => .pure _ (by omega)
  refine .ifSees (by simp) (fun _ => leaves_name.map.bind (hbody (by omega))) ?_
  exact (Leaves.pure none (Nat.le_refl _)).bind (hbody (by omega))

theorem Takes.attempt (h : Takes n stmt) : Commits (n + 1) (attempt stmt) := by
  intro s q hs hq
  refine .line fun l => (leaves_expect (by simp)).bind fun _ => ?_
  refine (h.braced (by omega) (by omega)).bind fun body => ?_
  -- the three forms of a handler meet again in front of the last block
  have hlast {u : Nat} (hu : u ≤ s - 1) (caught : Option String × Option (List Stmt)) :
      Leaves u (s - 1) q (do
        let finalizer ← Parse.optionalBlock .finallyKw stmt
        return Stmt.attempt body caught.1 caught.2 finalizer l) :=
    (h.optionalBlock (by simp) (by omega) (by omega)).bind fun _ => .pure _ (by omega)
  have hhandler {u : Nat} (hu : u ≤ s - 1) (x? : Option String) : Leaves u (s - 1) q (do
      let handler ← Parse.braced stmt
      let caught ← pure (x?, some handler)
      let finalizer ← Parse.optionalBlock .finallyKw stmt
      return Stmt.attempt body caught.1 caught.2 finalizer l) :=
    (h.braced (by omega) (by omega)).bind fun _ =>
      (Leaves.pure _ (Nat.le_refl _)).bind (hlast (by omega))
  refine .ifSees (by simp) (fun _ => .sees fun b => ?_)
    ((Leaves.pure _ (Nat.le_refl _)).bind (hlast (by omega)))
  split
  · exact leaves_name.map.bind (hhandler (by omega))
  · exact (Leaves.pure none (Nat.le_refl _)).bind (hhandler (by omega))

theorem Takes.statementWith (h : Takes n stmt) : Commits (n + 1) (statementWith stmt) := by
  intro s q hs hq c hc hr
  refine LeavesFrom.current ?_
  have hpure (hne : c.current.kind ≠ .eof) (st : Stmt) :
      LeavesFrom c (s - 1) q (do let _ ← advance; return st) :=
    .advance hc hne hr fun _ => .pure _ (Nat.le_refl _)
  split
  case h_1 => exact commits_declaration _ hs hq c hc hr
  case h_2 => exact commits_print _ hs hq c hc hr
  case h_3 => exact commits_input _ hs hq c hc hr
  case h_4 => exact h.conditional hs hq c hc hr
  case h_5 => exact h.whileLoop hs hq c hc hr
  case h_6 => exact h.forLoop hs hq c hc hr
  case h_7 hk => exact hpure (by simp [hk]) _
  case h_8 hk => exact hpure (by simp [hk]) _
  case h_9 => exact (h.functionDef hs hq).map c hc hr
  case h_10 => exact commits_giveBack _ hs hq c hc hr
  case h_11 => exact h.classDef hs hq c hc hr
  case h_12 => exact h.attempt hs hq c hc hr
  case h_13 => exact commits_raiseError _ hs hq c hc hr
  case h_14 hk => exact leavesFrom_assignmentOrExpression hc hr hq (.inl hk)
  case h_15 hk => exact leavesFrom_assignmentOrExpression hc hr hq (.inr hk)
  case h_16 => exact Leaves.fault (by simp [faults]) c hc hr

end

theorem commits_statementWithin (n : Nat) : Commits n (statementWithin n) := by
  induction n with
  | zero => exact fun _ _ hs _ => Nat.le_zero.mp hs ▸ .zero _ _ _
  | succ n ih => exact ih.takes.statementWith

theorem commits_statement (n : Nat) : Commits n statement := by
  intro s q _ hq
  refine .get fun c hc hr => ?_
  exact (commits_statementWithin _ (Nat.le_succ _) (by omega)).mono (by omega)

theorem leavesFrom_statement (hc : c.Ended) :
    LeavesFrom c (c.remaining - 1) (c.remaining - 1) statement :=
  commits_statement _ (Nat.le_refl _) (Nat.le_refl _) c hc (Nat.le_refl _)

/-- A statement that is read has taken a token. -/
theorem statement_ok (hc : c.Ended) {st : Stmt} {c' : Cursor} (h : statement c = .ok st c') :
    c'.Ended ∧ c'.remaining < c.remaining := by
  obtain ⟨hc', hr⟩ := (leavesFrom_statement hc).ok h
  have hpos := hc.remaining_pos
  exact ⟨hc', by omega⟩

/-- A statement with a syntax error has taken a token. -/
theorem statement_diagnosed (hc : c.Ended) {d : Diagnostic} {c' : Cursor}
    (h : statement c = .error (.diagnostic d) c') : c'.Ended ∧ c'.remaining < c.remaining := by
  obtain ⟨hc', hr, -⟩ := (leavesFrom_statement hc).diagnosed h
  have hpos := hc.remaining_pos
  exact ⟨hc', by omega⟩

theorem statement_blames (hc : c.Ended) {d : Diagnostic} {c' : Cursor}
    (h : statement c = .error (.diagnostic d) c') : d = c'.blame :=
  ((leavesFrom_statement hc).diagnosed h).2.2

end

end Parse

end Bhasha
