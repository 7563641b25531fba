import Mathlib.Data.List.Chain
import Bhasha.Proofs.Grammar
import Bhasha.Proofs.StateRelations

namespace Bhasha

namespace Cursor

/-- The tokens that have not been consumed. -/
def rest (c : Cursor) : List Token :=
  c.tokens.toList.drop c.index

def skip (c : Cursor) (n : Nat) : Cursor :=
  { c with
    index := c.index + n
    current := c.tokens.getD (min (c.index + n) (c.tokens.size - 1)) .endMark
    stands := rfl }

@[simp] theorem rest_ofTokens (ts : List Token) : (ofTokens ts).rest = ts := by
  simp [rest, ofTokens]

@[simp] theorem rest_skip (c : Cursor) (n : Nat) : (c.skip n).rest = c.rest.drop n := by
  simp [rest, skip, List.drop_drop]

@[simp] theorem skip_zero (c : Cursor) : c.skip 0 = c := by
  rw [skip, Cursor.mk.injEq]
  exact ⟨rfl, rfl, c.stands.symm, rfl⟩

@[simp] theorem skip_skip (c : Cursor) (m n : Nat) : (c.skip m).skip n = c.skip (m + n) := by
  simp [skip, Nat.add_assoc]

theorem remaining_eq (c : Cursor) : c.remaining = c.rest.length := by
  simp [remaining, rest]

theorem getElem?_of_rest {c : Cursor} {t : Token} {ts : List Token} (h : c.rest = t :: ts) :
    c.tokens[c.index]? = some t := by
  have hd : c.rest[0]? = some t := by rw [h]; rfl
  rw [rest, List.getElem?_drop] at hd
  simpa using hd

theorem current_of_rest {c : Cursor} {t : Token} {ts : List Token} (h : c.rest = t :: ts) :
    c.current = t := by
  have hi := getElem?_of_rest h
  obtain ⟨hlt, -⟩ := Array.getElem?_eq_some_iff.mp hi
  have hm : min c.index (c.tokens.size - 1) = c.index := by omega
  rw [c.stands, hm, Array.getD_eq_getD_getElem?, hi]
  rfl

theorem advanced_of_not_atEnd {c : Cursor} (h : c.atEnd = false) : c.advanced = c.skip 1 := by
  rw [advanced, h, skip, if_neg Bool.false_ne_true, Cursor.mk.injEq]
  exact ⟨rfl, rfl, c.stands_next, rfl⟩

end Cursor

namespace Parse

variable {α β : Type}

/-- With the tokens `x` in front of it, `p` does what `q` does with the tokens `y`. -/
structure Leads (p : Parse α) (x : List Token) (q : Parse α) (y : List Token) : Prop where
  suffix : y <:+ x
  run : ∀ c : Cursor, c.rest = x → p c = q (c.skip (x.length - y.length))

/-- `p` reads `a` from the front of `x` and leaves `y`. -/
abbrev Reads (p : Parse α) (x : List Token) (a : α) (y : List Token) : Prop :=
  Leads p x (pure a) y

theorem rest_skip_of_suffix {c : Cursor} {x y : List Token} (hs : y <:+ x) (hc : c.rest = x) :
    (c.skip (x.length - y.length)).rest = y := by
  rw [Cursor.rest_skip, hc]
  exact (List.suffix_iff_eq_drop.mp hs).symm

namespace Leads

variable {p q r : Parse α} {x y z : List Token}

theorem refl (p : Parse α) (x : List Token) : Leads p x p x where
  suffix := List.suffix_rfl
  run c _ := by rw [Nat.sub_self, Cursor.skip_zero]

theorem trans (h : Leads p x q y) (h' : Leads q y r z) : Leads p x r z where
  suffix := h'.suffix.trans h.suffix
  run c hc := by
    have hxy := h.suffix.length_le
    have hyz := h'.suffix.length_le
    rw [h.run c hc, h'.run _ (rest_skip_of_suffix h.suffix hc), Cursor.skip_skip]
    congr 2
    omega

theorem bind {f : α → Parse β} {a : α} (h : Reads p x a y) : Leads (p >>= f) x (f a) y where
  suffix := h.suffix
  run c hc := bind_of_ok (h.run c hc)

theorem map {f : α → β} {a : α} (h : Reads p x a y) : Reads (f <$> p) x (f a) y where
  suffix := h.suffix
  run c hc := map_of_ok (h.run c hc)

theorem tryCatch {handler : Failure → Parse α} {a : α} (h : Reads p x a y) :
    Reads (MonadExcept.tryCatch p handler) x a y where
  suffix := h.suffix
  run c hc := tryCatch_of_ok (h.run c hc)

theorem of_eq (h : ∀ c : Cursor, c.rest = x → p c = q c) : Leads p x q x where
  suffix := List.suffix_rfl
  run c hc := by rw [Nat.sub_self, Cursor.skip_zero, h c hc]

theorem cursor {f : Cursor → Parse α} (h : ∀ c : Cursor, c.remaining = x.length → f c = q) :
    Leads (get >>= f) x q x := by
  refine of_eq fun c hc => ?_
  have hn : c.remaining = x.length := by rw [Cursor.remaining_eq, hc]
  rw [← h c hn]
  rfl

theorem ite_true {b : Bool} (hb : b = true) : Leads (if b then p else q) x p x :=
  of_eq fun _ _ => by rw [if_pos hb]

theorem ite_false {b : Bool} (hb : b = false) : Leads (if b then p else q) x q x :=
  of_eq fun _ _ => by rw [if_neg (by simp [hb])]

end Leads

variable {t : Token} {x z : List Token} {k : TokenKind}

theorem reads_current : Reads current (t :: x) t (t :: x) :=
  .of_eq fun c hc => by
    change EStateM.Result.ok c.current c = _
    rw [Cursor.current_of_rest hc]
    rfl

theorem reads_line : Reads line (t :: x) t.line (t :: x) :=
  .of_eq fun c hc => by
    change EStateM.Result.ok c.current.line c = _
    rw [Cursor.current_of_rest hc]
    rfl

theorem reads_sees : Reads (sees k) (t :: x) (t.kind == k) (t :: x) :=
  .of_eq fun c hc => by
    change EStateM.Result.ok (c.current.kind == k) c = _
    rw [Cursor.current_of_rest hc]
    rfl

theorem reads_atEnd : Reads atEnd (t :: x) (t.kind == .eof) (t :: x) :=
  .of_eq fun c hc => by
    change EStateM.Result.ok (c.current.kind == .eof) c = _
    rw [Cursor.current_of_rest hc]
    rfl

theorem reads_seesAny {ks : List TokenKind} :
    Reads (seesAny ks) (t :: x) (ks.contains t.kind) (t :: x) :=
  .of_eq fun c hc => by
    change EStateM.Result.ok (ks.contains c.current.kind) c = _
    rw [Cursor.current_of_rest hc]
    rfl

theorem advance_run {c : Cursor} (hc : c.rest = t :: x) (ht : t.kind ≠ .eof) :
    advance c = .ok t (c.skip 1) := by
  have hend : c.atEnd = false := by
    rw [Cursor.atEnd, Cursor.current_of_rest hc]
    simpa using ht
  have hp : (c.skip 1).previous? = some t := by
    rw [Cursor.previous?, if_neg (by simp [Cursor.skip])]
    exact Cursor.getElem?_of_rest hc
  have hmodify : (modify Cursor.advanced : Parse PUnit) c = .ok ⟨⟩ (c.skip 1) := by
    rw [← Cursor.advanced_of_not_atEnd hend]
    rfl
  rw [advance, bind_of_ok hmodify, bind_get, hp]
  rfl

theorem reads_advance (ht : t.kind ≠ .eof) : Reads advance (t :: x) t x where
  suffix := List.suffix_cons t x
  run c hc := by
    rw [advance_run hc ht]
    simp only [List.length_cons, Nat.add_sub_cancel_left]
    rfl

theorem reads_expect (ht : t.kind = k) (hk : k ≠ .eof) : Reads (expect k) (t :: x) t x := by
  refine (Leads.bind reads_sees).trans ((Leads.ite_true (by simp [ht])).trans ?_)
  exact reads_advance (ht ▸ hk)

theorem reads_nameOr {y : String} {f : Fault} (ht : t.Names y) :
    Reads (nameOr f) (t :: x) y x := by
  refine (Leads.bind reads_current).trans ((Leads.ite_true (by simp [ht.kind])).trans ?_)
  refine (Leads.bind (reads_advance (by simp [ht.kind]))).trans ?_
  rw [ht.value]
  exact .refl _ _

/-- Can each of the items `as` be read from any of its spellings, of at most `n` tokens, before a
comma or a token of kind `close`? None of them may start like what closes them. -/
structure Readable (item : Parse α) (R : α → List Token → Prop) (close : TokenKind)
    (as : List α) (n : Nat) : Prop where
  starts : ∀ a ∈ as, ∀ us, R a us → ∃ t us', us = t :: us' ∧ t.kind ≠ close
  reads : ∀ a ∈ as, ∀ us, us.length ≤ n → R a us → ∀ (t : Token) (z : List Token),
    t.kind = .comma ∨ t.kind = close → Reads item (us ++ t :: z) a (t :: z)

section

variable {item : Parse α} {R : α → List Token → Prop} {close : TokenKind} {as bs : List α}
  {ts : List Token} {m n : Nat}

theorem Readable.mono (h : Readable item R close as n) (hs : bs ⊆ as) (hm : m ≤ n) :
    Readable item R close bs m where
  starts a ha := h.starts a (hs ha)
  reads a ha us hu := h.reads a (hs ha) us (Nat.le_trans hu hm)

/-- Separated items start as the first of them does. -/
theorem Readable.head (hr : Readable item R close as n) (h : Separated R as ts) :
    ∃ t us, ts = t :: us ∧ t.kind ≠ close := by
  cases h with
  | mk ha _ =>
    obtain ⟨t, us, rfl, ht⟩ := hr.starts _ List.mem_cons_self _ ha
    exact ⟨t, _, rfl, ht⟩

/-- What follows the items that have commas before them: a comma again, or what closes them. -/
theorem Following.append_head (h : Following R as ts) (ht : t.kind = close) :
    ∃ u us, ts ++ t :: z = u :: us ∧ (u.kind = .comma ∨ u.kind = close) := by
  cases h with
  | nil => exact ⟨t, z, rfl, .inr ht⟩
  | cons hcomma => exact ⟨_, _, rfl, .inl hcomma.kind⟩

theorem reads_commaTail (h : Following R as ts) (hr : Readable item R close as ts.length)
    (ht : t.kind = close) (hk : close ≠ .comma) (n : Nat) (found : List α) (hn : ts.length < n) :
    Reads (commaTail item n found) (ts ++ t :: z) (found.reverse ++ as) (t :: z) := by
  induction h generalizing n found with
  | nil =>
    obtain ⟨m, rfl⟩ : ∃ m, n = m + 1 := ⟨n - 1, by omega⟩
    rw [commaTail]
    refine (Leads.bind reads_sees).trans ((Leads.ite_false (by simp [ht, hk])).trans ?_)
    rw [List.append_nil]
    exact .refl _ _
  | @cons a as us vs comma hcomma ha hvs ih =>
    obtain ⟨m, rfl⟩ : ∃ m, n = m + 1 := ⟨n - 1, by omega⟩
    simp only [List.length_append, List.length_cons] at hn hr
    rw [commaTail, List.append_assoc, List.cons_append]
    refine (Leads.bind reads_sees).trans ((Leads.ite_true (by simp [hcomma.kind])).trans ?_)
    refine (Leads.bind (reads_advance (by simp [hcomma.kind]))).trans ?_
    obtain ⟨u, ws, hw, hu⟩ := Following.append_head (z := z) hvs ht
    have hread := hr.reads a List.mem_cons_self us (by omega) ha u ws hu
    rw [← hw] at hread
    refine (Leads.bind hread).trans ?_
    have hvs := ih (hr.mono (List.subset_cons_self a as) (by omega)) m (a :: found) (by omega)
    rwa [List.reverse_cons, List.append_assoc] at hvs

theorem reads_separated (h : Separated R as ts) (hr : Readable item R close as ts.length)
    (ht : t.kind = close) (hk : close ≠ .comma) :
    Reads (separated item) (ts ++ t :: z) as (t :: z) := by
  cases h with
  | @mk a as us vs ha hvs =>
    rw [List.length_append] at hr
    rw [separated, List.append_assoc]
    obtain ⟨u, ws, hw, hu⟩ := Following.append_head (z := z) hvs ht
    have hread := hr.reads a List.mem_cons_self us (by omega) ha u ws hu
    rw [← hw] at hread
    refine (Leads.bind hread).trans ((Leads.cursor fun c hc => by rw [hc]).trans ?_)
    refine reads_commaTail hvs (hr.mono (List.subset_cons_self a as) (by omega)) ht hk _ [a] ?_
    rw [List.length_append]
    omega

theorem reads_enclosed (h : Enclosed R as ts) (hr : Readable item R .rparen as ts.length) :
    Reads (enclosed item) (ts ++ z) as z := by
  rw [enclosed]
  cases h with
  | none hc =>
    refine (Leads.bind reads_sees).trans ((Leads.ite_true (by simp [hc.kind])).trans ?_)
    refine (Leads.bind (.refl _ _)).trans ((Leads.bind (reads_expect hc.kind (by decide))).trans ?_)
    exact .refl _ _
  | @items as us close hs hc =>
    rw [List.length_append] at hr
    obtain ⟨u, vs, rfl, hu⟩ := hr.head hs
    rw [List.append_assoc, List.singleton_append]
    refine (Leads.bind reads_sees).trans ((Leads.ite_false (by simp [hu])).trans ?_)
    refine (Leads.bind (reads_separated hs (hr.mono (List.Subset.refl _) (by omega)) hc.kind
      nofun)).trans ?_
    exact (Leads.bind (reads_expect hc.kind (by decide))).trans (.refl _ _)

/-- `extra` is nothing, or one comma. -/
def AtMostComma (extra : List Token) : Prop :=
  extra = [] ∨ ∃ comma : Token, extra = [comma] ∧ comma.Is .comma

theorem AtMostComma.append_head {extra : List Token} (he : AtMostComma extra)
    (ht : t.kind = close) :
    ∃ u us, extra ++ t :: z = u :: us ∧ (u.kind = .comma ∨ u.kind = close) := by
  rcases he with rfl | ⟨comma, rfl, hcomma⟩
  · exact ⟨t, z, rfl, .inr ht⟩
  · exact ⟨comma, _, rfl, .inl hcomma.kind⟩

theorem Following.append_extra_head {extra : List Token} (h : Following R as ts)
    (he : AtMostComma extra) (ht : t.kind = close) :
    ∃ u us, ts ++ (extra ++ t :: z) = u :: us ∧ (u.kind = .comma ∨ u.kind = close) := by
  cases h with
  | nil => exact he.append_head ht
  | cons hcomma => exact ⟨_, _, rfl, .inl hcomma.kind⟩

theorem reads_commaTailUpTo {extra : List Token} (h : Following R as ts)
    (hr : Readable item R close as ts.length) (he : AtMostComma extra) (ht : t.kind = close)
    (hk : close ≠ .comma) (n : Nat) (found : List α) (hn : ts.length < n) :
    Reads (commaTailUpTo close item n found) (ts ++ (extra ++ t :: z)) (found.reverse ++ as)
      (t :: z) := by
  induction h generalizing n found with
  | nil =>
    obtain ⟨m, rfl⟩ : ∃ m, n = m + 1 := ⟨n - 1, by omega⟩
    rw [commaTailUpTo, List.append_nil]
    rcases he with rfl | ⟨comma, rfl, hcomma⟩
    · exact (Leads.bind reads_sees).trans (Leads.ite_false (by simp [ht, hk]))
    · refine (Leads.bind reads_sees).trans ((Leads.ite_true (by simp [hcomma.kind])).trans ?_)
      refine (Leads.bind (reads_advance (by simp [hcomma.kind]))).trans ?_
      exact (Leads.bind reads_sees).trans (Leads.ite_true (by simp [ht]))
  | @cons a as us vs comma hcomma ha hvs ih =>
    obtain ⟨m, rfl⟩ : ∃ m, n = m + 1 := ⟨n - 1, by omega⟩
    simp only [List.length_append, List.length_cons] at hn hr
    rw [commaTailUpTo, List.append_assoc, List.cons_append]
    refine (Leads.bind reads_sees).trans ((Leads.ite_true (by simp [hcomma.kind])).trans ?_)
    refine (Leads.bind (reads_advance (by simp [hcomma.kind]))).trans ?_
    obtain ⟨u, ws, hw, hu⟩ := Following.append_extra_head (z := z) hvs he ht
    have hread := hr.reads a List.mem_cons_self us (by omega) ha u ws hu
    rw [← hw] at hread
    obtain ⟨v, us', hus, hv⟩ := hr.starts a List.mem_cons_self us ha
    have hsees : Leads (sees close >>= fun b => if b then pure found.reverse else
        item >>= fun a => commaTailUpTo close item m (a :: found)) (us ++ (vs ++ (extra ++ t :: z)))
        (item >>= fun a => commaTailUpTo close item m (a :: found))
        (us ++ (vs ++ (extra ++ t :: z))) := by
      rw [hus, List.cons_append]
      exact (Leads.bind reads_sees).trans (Leads.ite_false (by simp [hv]))
    refine hsees.trans ((Leads.bind hread).trans ?_)
    have hvs := ih (hr.mono (List.subset_cons_self a as) (by omega)) m (a :: found) (by omega)
    rwa [List.reverse_cons, List.append_assoc] at hvs

/-- Items of a literal, from the first one on. -/
theorem reads_literalItems_separated {extra : List Token} (h : Separated R as ts)
    (hr : Readable item R close as ts.length) (he : AtMostComma extra) (ht : t.kind = close)
    (hk : close ≠ .comma) (hend : close ≠ .eof) :
    Reads (literalItems close item) (ts ++ (extra ++ t :: z)) as z := by
  obtain ⟨u, vs, hu, huk⟩ := hr.head h
  cases h with
  | @mk a as us vs ha hvs =>
    rw [List.length_append] at hr
    have hsees : Reads (sees close) (us ++ vs ++ (extra ++ t :: z)) (u.kind == close)
        (us ++ vs ++ (extra ++ t :: z)) := by
      rw [hu]
      exact reads_sees
    rw [literalItems]
    refine (Leads.bind hsees).trans ((Leads.ite_false (by simp [huk])).trans ?_)
    obtain ⟨w, ws, hw, hwk⟩ := Following.append_extra_head (z := z) hvs he ht
    have hread := hr.reads a List.mem_cons_self us (by omega) ha w ws hwk
    rw [← hw] at hread
    rw [List.append_assoc]
    refine (Leads.bind hread).trans ((Leads.cursor fun c hc => by rw [hc]).trans ?_)
    refine (Leads.bind (reads_commaTailUpTo hvs (hr.mono (List.subset_cons_self a as) (by omega))
      he ht hk _ [a] ?_)).trans ?_
    · rw [List.length_append]
      omega
    · exact (Leads.bind (reads_expect ht hend)).trans (.refl _ _)

theorem reads_literalItems (h : Listed R close as ts) (hr : Readable item R close as ts.length)
    (hk : close ≠ .comma) (hend : close ≠ .eof) :
    Reads (literalItems close item) (ts ++ z) as z := by
  cases h with
  | none hc =>
    rw [literalItems]
    refine (Leads.bind reads_sees).trans ((Leads.ite_true (by simp [hc.kind])).trans ?_)
    refine (Leads.bind (.refl _ _)).trans ((Leads.bind (reads_expect hc.kind hend)).trans ?_)
    exact .refl _ _
  | @items as us c hs hc =>
    rw [List.length_append] at hr
    have h := reads_literalItems_separated (z := z) hs (hr.mono (List.Subset.refl _) (by omega))
      (.inl rfl) hc.kind hk hend
    simpa using h
  | @trailing as us comma c hs hcomma hc =>
    rw [List.length_append] at hr
    have h := reads_literalItems_separated (z := z) hs (hr.mono (List.Subset.refl _) (by omega))
      (.inr ⟨comma, rfl, hcomma⟩) hc.kind hk hend
    simpa using h

/-- Can each of the items `as` be read from any of its spellings, of at most `n` tokens? What may
stand behind an item depends on it; what starts another one may, and the brace that closes them
all. -/
structure ReadableBlock (item : Parse α) (R : α → List Token → Prop) (starts : TokenKind → Prop)
    (follows : α → TokenKind → Prop) (as : List α) (n : Nat) : Prop where
  head : ∀ a ∈ as, ∀ us, R a us → ∃ t us', us = t :: us' ∧ starts t.kind
  brace : ¬ starts .rbrace
  last : ∀ a ∈ as, follows a .rbrace
  chain : as.IsChain fun a _ => ∀ k, starts k → follows a k
  reads : ∀ a ∈ as, ∀ us, us.length ≤ n → R a us → ∀ (t : Token) (z : List Token),
    follows a t.kind → Reads item (us ++ t :: z) a (t :: z)

section

variable {starts : TokenKind → Prop} {follows : α → TokenKind → Prop}

theorem ReadableBlock.tail {a : α} (h : ReadableBlock item R starts follows (a :: as) n)
    (hm : m ≤ n) : ReadableBlock item R starts follows as m where
  head b hb := h.head b (List.mem_cons_of_mem a hb)
  brace := h.brace
  last b hb := h.last b (List.mem_cons_of_mem a hb)
  chain := h.chain.tail
  reads b hb us hu := h.reads b (List.mem_cons_of_mem a hb) us (Nat.le_trans hu hm)

/-- Behind the first item of a block stands what starts the second one, or a brace. -/
theorem ReadableBlock.next {a : α} (h : ReadableBlock item R starts follows (a :: as) n)
    (hb : Block R as ts) : ∃ u us, ts ++ z = u :: us ∧ follows a u.kind := by
  cases hb with
  | close hc => exact ⟨_, z, rfl, hc.kind ▸ h.last a List.mem_cons_self⟩
  | cons hb =>
    obtain ⟨u, us, rfl, hu⟩ := h.head _ (by simp) _ hb
    exact ⟨u, _, rfl, (List.isChain_cons_cons.mp h.chain).1 _ hu⟩

theorem reads_itemsUntil (h : Block R as ts)
    (hr : ReadableBlock item R starts follows as ts.length) (n : Nat) (found : List α)
    (hn : ts.length ≤ n) :
    ∃ close : Token, close.kind = .rbrace ∧
      Reads (itemsUntil .rbrace item n found) (ts ++ z) (found.reverse ++ as) (close :: z) := by
  induction h generalizing n found with
  | @close t ht =>
    obtain ⟨m, rfl⟩ : ∃ m, n = m + 1 := ⟨n - 1, by simp at hn; omega⟩
    refine ⟨t, ht.kind, ?_⟩
    rw [itemsUntil, List.append_nil]
    exact (Leads.bind reads_sees).trans (Leads.ite_true (by simp [ht.kind]))
  | @cons a as us vs ha hvs ih =>
    obtain ⟨t, us', hus, ht⟩ := hr.head a List.mem_cons_self us ha
    rw [List.length_append] at hn hr
    have hlen : us.length = us'.length + 1 := by rw [hus]; rfl
    obtain ⟨m, rfl⟩ : ∃ m, n = m + 1 := ⟨n - 1, by omega⟩
    have hne : t.kind ≠ .rbrace := fun h => hr.brace (h ▸ ht)
    obtain ⟨u, ws, hw, hu⟩ := hr.next (z := z) hvs
    have hitem := hr.reads a List.mem_cons_self us (by omega) ha u ws hu
    rw [← hw] at hitem
    obtain ⟨close, hclose, htail⟩ := ih (hr.tail (by omega)) m (a :: found) (by omega)
    refine ⟨close, hclose, ?_⟩
    have hsees : Reads (sees .rbrace) (us ++ (vs ++ z)) (t.kind == .rbrace) (us ++ (vs ++ z)) := by
      rw [hus]
      exact reads_sees
    rw [itemsUntil, List.append_assoc]
    refine (Leads.bind hsees).trans ((Leads.ite_false (by simp [hne])).trans ?_)
    refine (Leads.bind hitem).trans ?_
    rwa [List.reverse_cons, List.append_assoc] at htail

theorem reads_braced {brace : Token} (hbrace : brace.Is .lbrace) (h : Block R as ts)
    (hr : ReadableBlock item R starts follows as ts.length) :
    Reads (braced item) (brace :: ts ++ z) as z := by
  rw [braced, List.cons_append]
  refine (Leads.bind (reads_expect hbrace.kind (by decide))).trans ?_
  refine (Leads.cursor fun c hc => by rw [hc]).trans ?_
  obtain ⟨close, hclose, hitems⟩ := reads_itemsUntil (z := z) h hr ((ts ++ z).length + 1) []
    (by rw [List.length_append]; omega)
  refine (Leads.bind hitems).trans ((Leads.bind (reads_expect hclose (by decide))).trans ?_)
  exact .refl _ _

end

end

theorem operator_eq {op : BinaryOp} {k : TokenKind} (hop : op.tokenKind? = some k) (ht : t.Is k) :
    chain.operator t = op := by
  unfold chain.operator
  cases op <;> cases hop <;> rw [ht.kind, ht.value] <;> rfl

theorem binding_eq_tier {op : BinaryOp} {k : TokenKind} (hop : op.tokenKind? = some k) :
    k.binding = op.tier := by
  cases op <;> cases hop <;> rfl

/-- What each tier passes on to the next looser one holds of the loosest. -/
theorem disjunction_induction {expr : Parse Expr} {P : Nat → Parse Expr → Prop}
    (h7 : P 7 (unary expr))
    (hlevel : ∀ k ops operand, 1 ≤ k → k ≤ 6 →
      (∀ u : TokenKind, ops.contains u = (u.binding == k)) → P (k + 1) operand →
      P k (level ops operand)) : P 1 (disjunction expr) := by
  have h6 : P 6 (multiplication expr) :=
    hlevel 6 _ _ (by omega) (by omega) (fun u => by cases u <;> rfl) h7
  have h5 : P 5 (addition expr) :=
    hlevel 5 _ _ (by omega) (by omega) (fun u => by cases u <;> rfl) h6
  have h4 : P 4 (comparison expr) :=
    hlevel 4 _ _ (by omega) (by omega) (fun u => by cases u <;> rfl) h5
  have h3 : P 3 (equality expr) :=
    hlevel 3 _ _ (by omega) (by omega) (fun u => by cases u <;> rfl) h4
  have h2 : P 2 (conjunction expr) :=
    hlevel 2 _ _ (by omega) (by omega) (fun u => by cases u <;> rfl) h3
  exact hlevel 1 _ _ (by omega) (by omega) (fun u => by cases u <;> rfl) h2

end Parse

end Bhasha
