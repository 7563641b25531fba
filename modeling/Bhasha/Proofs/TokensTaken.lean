import Bhasha.Proofs.TokenReading

namespace Bhasha

/-- Do tokens of this kind all say the same? -/
def TokenKind.isFixed : TokenKind → Bool
  | number | string | boolean | identifier | eof => false
  | _ => true

theorem Token.Fits.is {k : TokenKind} {t : Token} (h : t.Fits) (ht : t.kind = k)
    (hk : k.isFixed = true) : t.Is k := by
  refine ⟨ht, ?_⟩
  rw [Fits, ht] at h
  cases k <;> first | exact h | simp [TokenKind.isFixed] at hk

theorem Token.fits_of_is {k : TokenKind} {t : Token} (h : t.Is k) (hk : k.isFixed = true) :
    t.Fits := by
  rw [Fits, h.kind]
  cases k <;> first | exact h.value | simp [TokenKind.isFixed] at hk

theorem Token.Fits.names {t : Token} (h : t.Fits) (ht : t.kind = .identifier) :
    t.Names t.value.text := by
  rw [Fits, ht] at h
  obtain ⟨s, hs⟩ := h
  exact ⟨ht, by rw [hs]; rfl⟩

/-- Tokens such as a source text has them: each carries a fitting value, and the last one and no
other is an end mark. -/
structure Complete (x : List Token) : Prop where
  fits : ∀ t ∈ x, t.Fits
  ended : ∃ us last, x = us ++ [last] ∧ last.kind = .eof ∧ ∀ t ∈ us, t.kind ≠ .eof

namespace Complete

variable {t : Token} {x : List Token}

theorem head (h : Complete x) : ∃ t y, x = t :: y ∧ t.Fits := by
  obtain ⟨us, last, rfl, -, -⟩ := h.ended
  cases us with
  | nil => exact ⟨last, [], rfl, h.fits _ List.mem_cons_self⟩
  | cons t us => exact ⟨t, _, rfl, h.fits _ List.mem_cons_self⟩

theorem tail (h : Complete (t :: x)) (ht : t.kind ≠ .eof) : Complete x := by
  obtain ⟨us, last, hx, hlast, hus⟩ := h.ended
  refine ⟨fun u hu => h.fits u (List.mem_cons_of_mem t hu), ?_⟩
  cases us with
  | nil =>
    obtain ⟨rfl, rfl⟩ := List.cons.inj hx
    exact absurd hlast ht
  | cons u us =>
    obtain ⟨rfl, rfl⟩ := List.cons.inj hx
    exact ⟨us, last, rfl, hlast, fun v hv => hus v (List.mem_cons_of_mem _ hv)⟩

/-- Nothing follows the end mark. -/
theorem tail_eq_nil (h : Complete (t :: x)) (ht : t.kind = .eof) : x = [] := by
  obtain ⟨us, last, hx, -, hus⟩ := h.ended
  cases us with
  | nil => exact (List.cons.inj hx).2
  | cons u us =>
    obtain ⟨rfl, -⟩ := List.cons.inj hx
    exact absurd ht (hus t List.mem_cons_self)

theorem drop {n : Nat} (h : Complete x) (hn : n < x.length) : Complete (x.drop n) := by
  obtain ⟨us, last, rfl, hlast, hus⟩ := h.ended
  refine ⟨fun t ht => h.fits t (List.mem_of_mem_drop ht), us.drop n, last, ?_, hlast,
    fun t ht => hus t (List.mem_of_mem_drop ht)⟩
  rw [List.length_append, List.length_singleton] at hn
  exact List.drop_append_of_le_length (by omega)

end Complete

/-- From `c` the tokens `ts` were consumed, and `c'` is what came of it. -/
structure Took (c : Cursor) (ts : List Token) (c' : Cursor) : Prop where
  rest : c.rest = ts ++ c'.rest
  cursor : c' = c.skip ts.length
  complete : Complete c'.rest

namespace Took

variable {c c₁ c₂ : Cursor} {ts us : List Token}

theorem refl (h : Complete c.rest) : Took c [] c :=
  ⟨rfl, c.skip_zero.symm, h⟩

theorem trans (h : Took c ts c₁) (h' : Took c₁ us c₂) : Took c (ts ++ us) c₂ where
  rest := by rw [h.rest, h'.rest, List.append_assoc]
  cursor := by rw [h'.cursor, h.cursor, Cursor.skip_skip, List.length_append]
  complete := h'.complete

theorem cons {t : Token} (h : Took c [t] c₁) (h' : Took c₁ us c₂) : Took c (t :: us) c₂ :=
  h.trans h'

end Took

theorem Cursor.rest_eq {c : Cursor} (hc : Complete c.rest) :
    ∃ y, c.rest = c.current :: y ∧ c.current.Fits := by
  obtain ⟨t, y, hy, ht⟩ := hc.head
  have hcur := Cursor.current_of_rest hy
  exact ⟨y, by rw [hcur, hy], by rwa [hcur]⟩

theorem Cursor.current_past_end {c : Cursor} (hc : Complete c.tokens.toList)
    (h : c.tokens.size ≤ c.index) : c.current.kind = .eof := by
  obtain ⟨us, last, htokens, hlast, -⟩ := hc.ended
  have hsize : c.tokens.size = us.length + 1 := by
    rw [← Array.length_toList, htokens, List.length_append, List.length_singleton]
  have hmin : min c.index (c.tokens.size - 1) = us.length := by omega
  have hget : c.tokens[us.length]? = some last := by
    rw [← Array.getElem?_toList, htokens, List.getElem?_concat_length]
  rw [c.stands, hmin, Array.getD_eq_getD_getElem?, hget]
  exact hlast

namespace Parse

variable {α β : Type} {c c' : Cursor}

section

variable {b : β} {k : TokenKind}

theorem bind_line_ok {f : Nat → Parse β} (h : (line >>= f) c = .ok b c') :
    f c.current.line c = .ok b c' :=
  h

theorem bind_current_ok {f : Token → Parse β} (h : (current >>= f) c = .ok b c') :
    f c.current c = .ok b c' :=
  h

theorem bind_sees_ok {p q : Parse β} (h : (do if ← sees k then p else q) c = .ok b c') :
    c.current.kind = k ∧ p c = .ok b c' ∨ c.current.kind ≠ k ∧ q c = .ok b c' := by
  have h : (if c.current.kind == k then p else q) c = .ok b c' := h
  rcases ite_ok h with ⟨hk, h⟩ | ⟨hk, h⟩
  · exact .inl ⟨by simpa using hk, h⟩
  · exact .inr ⟨by simpa using hk, h⟩

theorem bind_seesAny_ok {ks : List TokenKind} {p q : Parse β}
    (h : (do if ← seesAny ks then p else q) c = .ok b c') :
    c.current.kind ∈ ks ∧ p c = .ok b c' ∨ c.current.kind ∉ ks ∧ q c = .ok b c' := by
  have h : (if ks.contains c.current.kind then p else q) c = .ok b c' := h
  rcases ite_ok h with ⟨hk, h⟩ | ⟨hk, h⟩
  · exact .inl ⟨by simpa using hk, h⟩
  · exact .inr ⟨by simpa using hk, h⟩

theorem advance_ok {t : Token} (hc : Complete c.rest) (hk : c.current.kind ≠ .eof)
    (h : advance c = .ok t c') : t = c.current ∧ Took c [c.current] c' := by
  obtain ⟨y, hy, -⟩ := Cursor.rest_eq hc
  rw [advance_run hy hk] at h
  cases h
  have hrest : (c.skip 1).rest = y := by rw [Cursor.rest_skip, hy]; rfl
  refine ⟨rfl, ?_, rfl, ?_⟩
  · rw [hrest]
    exact hy
  · rw [hrest]
    exact (hy ▸ hc).tail hk

theorem bind_advance_ok {f : Token → Parse β} (hc : Complete c.rest) (hk : c.current.kind ≠ .eof)
    (h : (advance >>= f) c = .ok b c') :
    ∃ c₁, Took c [c.current] c₁ ∧ f c.current c₁ = .ok b c' := by
  obtain ⟨t, c₁, hadv, h⟩ := bind_eq_ok h
  obtain ⟨rfl, htook⟩ := advance_ok hc hk hadv
  exact ⟨c₁, htook, h⟩

theorem bind_advance_is_ok {f : Token → Parse β} (hc : Complete c.rest) (hkind : c.current.kind = k)
    (hk : k.isFixed = true) (h : (advance >>= f) c = .ok b c') :
    ∃ c₁, c.current.Is k ∧ Took c [c.current] c₁ ∧ f c.current c₁ = .ok b c' := by
  obtain ⟨-, -, hfits⟩ := Cursor.rest_eq hc
  have hend : c.current.kind ≠ .eof := fun he => by
    rw [← hkind, he] at hk
    cases hk
  obtain ⟨c₁, htook, h⟩ := bind_advance_ok hc hend h
  exact ⟨c₁, hfits.is hkind hk, htook, h⟩

theorem bind_expect_ok {f : Token → Parse β} (hc : Complete c.rest) (hk : k.isFixed = true)
    (h : (expect k >>= f) c = .ok b c') :
    ∃ c₁, c.current.Is k ∧ Took c [c.current] c₁ ∧ f c.current c₁ = .ok b c' := by
  obtain ⟨t, c₁, hexpect, h⟩ := bind_eq_ok h
  rcases bind_sees_ok hexpect with ⟨hkind, hadv⟩ | ⟨-, hadv⟩
  · exact bind_advance_is_ok hc hkind hk (bind_of_ok hadv ▸ h)
  · exact absurd hadv throw_ne_ok

theorem bind_nameOr_ok {x? : Fault} {f : String → Parse β} (hc : Complete c.rest)
    (h : (nameOr x? >>= f) c = .ok b c') :
    ∃ x c₁, c.current.Names x ∧ Took c [c.current] c₁ ∧ f x c₁ = .ok b c' := by
  obtain ⟨x, c₁, hname, h⟩ := bind_eq_ok h
  have hname : (if c.current.kind == .identifier then
      (do let _ ← advance; return c.current.value.text) else throw (.fault x?) : Parse String) c =
        .ok x c₁ := hname
  rcases ite_ok hname with ⟨hkind, hname⟩ | ⟨-, hname⟩
  · have hkind : c.current.kind = .identifier := by simpa using hkind
    obtain ⟨-, -, hfits⟩ := Cursor.rest_eq hc
    obtain ⟨c₂, htook, hname⟩ := bind_advance_ok hc (by rw [hkind]; decide) hname
    obtain ⟨rfl, rfl⟩ := pure_ok hname
    exact ⟨_, c₂, hfits.names hkind, htook, h⟩
  · exact absurd hname throw_ne_ok

end

/-- Whatever `item` reads, the tokens that it took spell it, and `g` holds of it and of what comes
next. -/
def Yields (item : Parse α) (S : α → List Token → Prop) (g : α → TokenKind → Prop) : Prop :=
  ∀ c a c', Complete c.rest → item c = .ok a c' →
    ∃ ts, Took c ts c' ∧ S a ts ∧ g a c'.current.kind

section

variable {item : Parse α} {S : α → List Token → Prop} {g : α → TokenKind → Prop} {as : List α}

theorem commaTail_ok (hi : Yields item S g) {n : Nat} {found : List α} {c : Cursor}
    (hc : Complete c.rest) (h : commaTail item n found c = .ok as c') :
    ∃ bs ts, as = found.reverse ++ bs ∧ Took c ts c' ∧ Following S bs ts ∧
      ∀ b ∈ bs, ∃ k, g b k := by
  induction n generalizing found c with
  | zero => exact absurd h throw_ne_ok
  | succ n ih =>
    rcases bind_sees_ok h with ⟨hk, h⟩ | ⟨-, h⟩
    · obtain ⟨c₁, hcomma, htook, h⟩ := bind_advance_is_ok hc hk rfl h
      obtain ⟨a, c₂, hitem, h⟩ := bind_eq_ok h
      obtain ⟨us, htook₁, ha, hg⟩ := hi c₁ a c₂ htook.complete hitem
      obtain ⟨bs, vs, rfl, htook₂, hbs, hgs⟩ := ih htook₁.complete h
      refine ⟨a :: bs, _, by simp, htook.cons (htook₁.trans htook₂), .cons hcomma ha hbs, ?_⟩
      exact List.forall_mem_cons.mpr ⟨⟨_, hg⟩, hgs⟩
    · obtain ⟨rfl, rfl⟩ := pure_ok h
      exact ⟨[], [], by simp, .refl hc, .nil, nofun⟩

theorem separated_ok (hi : Yields item S g) (hc : Complete c.rest)
    (h : separated item c = .ok as c') :
    ∃ ts, Took c ts c' ∧ Separated S as ts ∧ ∀ a ∈ as, ∃ k, g a k := by
  obtain ⟨a, c₁, hitem, h⟩ := bind_eq_ok h
  obtain ⟨us, htook, ha, hg⟩ := hi c a c₁ hc hitem
  obtain ⟨bs, vs, rfl, htook₁, hbs, hgs⟩ := commaTail_ok hi htook.complete (bind_get_ok h)
  exact ⟨_, htook.trans htook₁, .mk ha hbs, List.forall_mem_cons.mpr ⟨⟨_, hg⟩, hgs⟩⟩

theorem enclosed_ok (hi : Yields item S g) (hc : Complete c.rest)
    (h : enclosed item c = .ok as c') :
    ∃ ts, Took c ts c' ∧ Enclosed S as ts ∧ ∀ a ∈ as, ∃ k, g a k := by
  rcases bind_sees_ok h with ⟨-, h⟩ | ⟨-, h⟩
  · obtain ⟨c₁, hclose, htook, h⟩ := bind_expect_ok hc rfl h
    obtain ⟨rfl, rfl⟩ := pure_ok h
    exact ⟨_, htook, .none hclose, nofun⟩
  · obtain ⟨bs, c₁, hsep, h⟩ := bind_eq_ok h
    obtain ⟨ts, htook, hs, hg⟩ := separated_ok hi hc hsep
    obtain ⟨c₂, hclose, htook₁, h⟩ := bind_expect_ok htook.complete rfl h
    obtain ⟨rfl, rfl⟩ := pure_ok h
    exact ⟨_, htook.trans htook₁, .items hs hclose, hg⟩

theorem commaTailUpTo_ok (hi : Yields item S g) {close : TokenKind} {n : Nat} {found : List α}
    {c : Cursor} (hc : Complete c.rest) (h : commaTailUpTo close item n found c = .ok as c') :
    ∃ bs ts extra, as = found.reverse ++ bs ∧ Took c (ts ++ extra) c' ∧ Following S bs ts ∧
      AtMostComma extra ∧ ∀ b ∈ bs, ∃ k, g b k := by
  induction n generalizing found c with
  | zero => exact absurd h throw_ne_ok
  | succ n ih =>
    rcases bind_sees_ok h with ⟨hk, h⟩ | ⟨-, h⟩
    · obtain ⟨c₁, hcomma, htook, h⟩ := bind_advance_is_ok hc hk rfl h
      -- Nothing but the closing token may follow the last comma.
      rcases bind_sees_ok h with ⟨-, h⟩ | ⟨-, h⟩
      · obtain ⟨rfl, rfl⟩ := pure_ok h
        exact ⟨[], [], _, by simp, htook, .nil, .inr ⟨_, rfl, hcomma⟩, nofun⟩
      · obtain ⟨a, c₂, hitem, h⟩ := bind_eq_ok h
        obtain ⟨us, htook₁, ha, hg⟩ := hi c₁ a c₂ htook.complete hitem
        obtain ⟨bs, vs, extra, rfl, htook₂, hbs, hextra, hgs⟩ := ih htook₁.complete h
        refine ⟨a :: bs, c.current :: us ++ vs, extra, by simp, ?_, .cons hcomma ha hbs, hextra, ?_⟩
        · have hall := htook.cons (htook₁.trans htook₂)
          simpa using hall
        · exact List.forall_mem_cons.mpr ⟨⟨_, hg⟩, hgs⟩
    · obtain ⟨rfl, rfl⟩ := pure_ok h
      exact ⟨[], [], [], by simp, .refl hc, .nil, .inl rfl, nofun⟩

theorem literalItems_ok (hi : Yields item S g) {close : TokenKind} (hclose : close.isFixed = true)
    (hc : Complete c.rest) (h : literalItems close item c = .ok as c') :
    ∃ ts, Took c ts c' ∧ Listed S close as ts ∧ ∀ a ∈ as, ∃ k, g a k := by
  rcases bind_sees_ok h with ⟨-, h⟩ | ⟨-, h⟩
  · obtain ⟨c₁, hc₁, htook, h⟩ := bind_expect_ok hc hclose h
    obtain ⟨rfl, rfl⟩ := pure_ok h
    exact ⟨_, htook, .none hc₁, nofun⟩
  · obtain ⟨a, c₁, hitem, h⟩ := bind_eq_ok h
    obtain ⟨us, htook, ha, hg⟩ := hi c a c₁ hc hitem
    obtain ⟨bs, c₂, htail, h⟩ := bind_eq_ok (bind_get_ok h)
    obtain ⟨bs, vs, extra, rfl, htook₁, hbs, hextra, hgs⟩ :=
      commaTailUpTo_ok hi htook.complete htail
    obtain ⟨c₃, hc₃, htook₂, h⟩ := bind_expect_ok htook₁.complete hclose h
    obtain ⟨rfl, rfl⟩ := pure_ok h
    have hs : Separated S (a :: bs) (us ++ vs) := .mk ha hbs
    have hall := htook.trans (htook₁.trans htook₂)
    have hg := List.forall_mem_cons.mpr ⟨⟨_, hg⟩, hgs⟩
    rcases hextra with rfl | ⟨comma, rfl, hcomma⟩
    · exact ⟨_, by simpa using hall, .items hs hc₃, hg⟩
    · exact ⟨_, by simpa using hall, .trailing hs hcomma hc₃, hg⟩

theorem yields_name (f : Fault) : Yields (nameOr f) NameSpelled fun _ _ => True := by
  intro c x c' hc h
  have h : (nameOr f >>= pure) c = .ok x c' := by rwa [bind_pure]
  obtain ⟨y, c₁, hname, htook, h⟩ := bind_nameOr_ok hc h
  obtain ⟨rfl, rfl⟩ := pure_ok h
  exact ⟨_, htook, .mk hname, trivial⟩

end

end Parse

end Bhasha
