import Bhasha.Proofs.TokenReading

namespace Bhasha

/-- May an expression start with such a token? -/
def TokenKind.startsExpr : TokenKind → Bool
  | number | string | boolean | identifier | lbracket | lbrace | lparen | lambda | new | this
  | super | minus | not => true
  | _ => false

/-- Does such a token only ever stand before the operand it belongs to? -/
def TokenKind.isSign : TokenKind → Bool
  | minus | not => true
  | _ => false

namespace Expr

theorem Spelled.head {e : Expr} {ts : List Token} (h : e.Spelled ts) :
    ∃ t us, ts = t :: us ∧ t.kind.startsExpr = true := by
  cases h with
  | @literal k t ht => exact ⟨t, [], rfl, by rw [ht]; cases k <;> rfl⟩
  | list ht | dict ht | lambda ht | newObject ht | paren ht | superCall ht | thisObject ht
  | var ht | call ht => exact ⟨_, _, rfl, by rw [ht.kind]; rfl⟩
  | @unary op k a us t hop ht ha =>
    refine ⟨t, us, rfl, ?_⟩
    rw [ht.kind]
    cases op <;> cases hop <;> rfl
  | binary _ ha | method ha | property ha | index ha =>
    obtain ⟨t, us, rfl, ht⟩ := ha.head
    exact ⟨t, _, rfl, ht⟩
termination_by e

/-- Only an operator expression starts with a sign. -/
theorem Spelled.head_isSign {e : Expr} {ts : List Token} (h : e.Spelled ts)
    (hg : e.grammatical = true) (h8 : 8 ≤ e.tier) :
    ∃ t us, ts = t :: us ∧ t.kind.isSign = false := by
  cases h with
  | @literal k t ht => exact ⟨t, [], rfl, by rw [ht]; cases k <;> rfl⟩
  | list ht | dict ht | lambda ht | newObject ht | paren ht | superCall ht | thisObject ht
  | var ht | call ht => exact ⟨_, _, rfl, by rw [ht.kind]; rfl⟩
  | unary => simp [tier] at h8
  | @binary op => cases op <;> simp [tier, BinaryOp.tier] at h8
  | method ha | property ha | index ha =>
    simp only [grammatical, Bool.and_eq_true, decide_eq_true_eq] at hg
    obtain ⟨t, us, rfl, ht⟩ := ha.head_isSign (by simp [hg]) (by simp [hg])
    exact ⟨t, _, rfl, ht⟩
termination_by e

/-- Is the expression neither an operator's, nor built on the one before it, nor a lambda? -/
def isPrimary : Expr → Bool
  | literal _ _ _ | list _ _ | dict _ _ | var _ _ | paren _ _ | newObject _ _ _ | thisObject _
  | superCall _ _ _ => true
  | _ => false

theorem eq_lambda {e : Expr} (h8 : 8 ≤ e.tier) (ho : e.opens = true) :
    ∃ xs b l, e = .lambda xs b l := by
  cases e with
  | lambda xs b l => exact ⟨xs, b, l, rfl⟩
  | binary op => cases op <;> simp [tier, BinaryOp.tier] at h8
  | unary => simp [tier] at h8
  | _ => simp [opens] at ho

theorem tier_pos {e : Expr} (hg : e.grammatical = true) : 1 ≤ e.tier := by
  cases e with
  | binary op => cases op <;> simp [tier, BinaryOp.tier, grammatical, BinaryOp.tokenKind?] at hg ⊢
  | _ => simp [tier]

end Expr

namespace Parse

/-- Does `operand` read each grammatical expression that holds together as tightly as tier `k`, from
each of its spellings of at most `m` tokens? What follows must bind less tightly; behind an open
lambda, not at all. -/
def ReadsFrom (k m : Nat) (operand : Parse Expr) : Prop :=
  ∀ e ts, e.Spelled ts → e.grammatical = true → ts.length ≤ m → k ≤ e.tier →
    ∀ (t : Token) (z : List Token), t.kind.binding < k → (e.opens = true → t.kind.binding = 0) →
      Reads operand (ts ++ t :: z) e (t :: z)

variable {expr : Parse Expr} {e : Expr} {es : List Expr} {ts z : List Token} {t : Token}
  {k m n : Nat}

theorem ReadsFrom.inner (hE : ReadsFrom 1 m expr) (h : e.Spelled ts) (hg : e.grammatical = true)
    (hm : ts.length ≤ m) (ht : t.kind.binding = 0) : Reads expr (ts ++ t :: z) e (t :: z) :=
  hE e ts h hg hm (Expr.tier_pos hg) t z (by omega) fun _ => ht

theorem ReadsFrom.readable {close : TokenKind} (hE : ReadsFrom 1 m expr)
    (hg : ∀ e ∈ es, e.grammatical = true) (hn : n ≤ m) (hs : close.startsExpr = false)
    (hb : close.binding = 0) : Readable expr Expr.Spelled close es n where
  starts e _ us hu := by
    obtain ⟨t, us', rfl, ht⟩ := hu.head
    exact ⟨t, us', rfl, fun h => by simp [h, hs] at ht⟩
  reads e he us hu h t z ht := by
    refine hE.inner h (hg e he) (by omega) ?_
    rcases ht with ht | ht <;> rw [ht]
    · rfl
    · exact hb

theorem ReadsFrom.enclosed (hE : ReadsFrom 1 m expr) (h : Enclosed Expr.Spelled es ts)
    (hg : Expr.grammaticalAll es = true) (hm : ts.length ≤ m) :
    Reads (enclosed expr) (ts ++ z) es z :=
  reads_enclosed h (hE.readable (Expr.grammaticalAll_iff.mp hg) hm rfl rfl)

theorem ReadsFrom.pair {p : Expr × Expr} (hE : ReadsFrom 1 m expr) (h : PairSpelled p ts)
    (hg : p.1.grammatical = true ∧ p.2.grammatical = true) (hm : ts.length ≤ m)
    (ht : t.kind.binding = 0) : Reads (pair expr) (ts ++ t :: z) p (t :: z) := by
  cases h with
  | @mk k v us vs colon hk hc hv =>
    simp only [List.length_append, List.length_cons] at hm
    rw [Parse.pair, List.append_assoc, List.cons_append]
    refine (Leads.bind (hE.inner hk hg.1 (by omega) (by rw [hc.kind]; rfl))).trans ?_
    refine (Leads.bind (reads_expect hc.kind (by decide))).trans ?_
    exact (Leads.bind (hE.inner hv hg.2 (by omega) ht)).trans (.refl _ _)

theorem ReadsFrom.readable_pair {ps : List (Expr × Expr)} (hE : ReadsFrom 1 m expr)
    (hg : Expr.grammaticalPairs ps = true) (hn : n ≤ m) :
    Readable (Parse.pair expr) PairSpelled .rbrace ps n where
  starts p _ us hu := by
    cases hu with
    | mk hk =>
      obtain ⟨t, us', rfl, ht⟩ := hk.head
      exact ⟨t, _, rfl, fun h => by simp [h, TokenKind.startsExpr] at ht⟩
  reads p hp us hu h t z ht := by
    refine hE.pair h (Expr.grammaticalPairs_iff.mp hg p hp) (by omega) ?_
    rcases ht with ht | ht <;> rw [ht] <;> rfl

theorem ReadsFrom.optionalArguments (hE : ReadsFrom 1 m expr)
    (h : OptionallyEnclosed Expr.Spelled es ts) (hg : Expr.grammaticalAll es = true)
    (hm : ts.length ≤ m + 1) (ht : t.kind ≠ .lparen) :
    Reads (optionalArguments expr) (ts ++ t :: z) es (t :: z) := by
  rw [Parse.optionalArguments]
  cases h with
  | none => exact (Leads.bind reads_sees).trans (Leads.ite_false (by simp [ht]))
  | @items es us opening ho hs =>
    rw [List.length_cons] at hm
    rw [List.cons_append]
    refine (Leads.bind reads_sees).trans ((Leads.ite_true (by simp [ho.kind])).trans ?_)
    refine (Leads.bind (reads_advance (by simp [ho.kind]))).trans ?_
    exact hE.enclosed hs hg (by omega)

theorem readable_name {close : TokenKind} {xs : List String} (hc : close ≠ .identifier) :
    Readable name NameSpelled close xs n where
  starts x _ us hu := by
    cases hu with
    | mk ht => exact ⟨_, [], rfl, by rw [ht.kind]; exact hc.symm⟩
  reads x _ us _ hu t z _ := by
    cases hu with
    | mk hx => exact reads_nameOr hx

theorem reads_parameters {xs : List String} (h : ParametersSpelled xs ts) (ht : t.kind = .colon)
    {f : List String → Parse Expr} :
    Leads (sees .identifier >>= fun b => if b then separated name >>= f else pure [] >>= f)
      (ts ++ t :: z) (f xs) (t :: z) := by
  cases h with
  | none =>
    refine (Leads.bind reads_sees).trans ((Leads.ite_false (by simp [ht])).trans ?_)
    exact Leads.bind (.refl _ _)
  | some hs =>
    have hr : Readable name NameSpelled .colon xs ts.length := readable_name (by decide)
    have hread := reads_separated (z := z) hs hr ht (by decide)
    cases hs with
    | mk hx _ => cases hx with
      | mk hx =>
        refine (Leads.bind reads_sees).trans ((Leads.ite_true (by simp [hx.kind])).trans ?_)
        exact Leads.bind hread

/-- Everything that `primary` reads, save a lambda. -/
theorem ReadsFrom.primary (hE : ReadsFrom 1 m expr) (h : e.Spelled ts)
    (hg : e.grammatical = true) (hm : ts.length ≤ m + 1) (hp : e.isPrimary = true)
    (hcall : t.kind = .lparen → ∃ x l, e = .var x l) :
    Reads (primary expr) (ts ++ t :: z) e (t :: z) := by
  unfold Parse.primary
  cases h with
  | @literal k t ht =>
    refine (Leads.bind reads_current).trans ?_
    rw [ht]
    cases k <;> exact (Leads.bind (reads_advance (by rw [ht]; decide))).trans (.refl _ _)
  | @list es us t ht hs =>
    rw [List.length_cons] at hm
    refine (Leads.bind reads_current).trans ?_
    rw [ht.kind]
    refine (Leads.bind reads_line).trans ((Leads.bind (reads_expect ht.kind (by decide))).trans ?_)
    have hr := hE.readable (n := us.length) (Expr.grammaticalAll_iff.mp hg) (by omega)
      (show TokenKind.startsExpr .rbracket = false from rfl) rfl
    exact (Leads.bind (reads_literalItems hs hr (by decide) (by decide))).trans (.refl _ _)
  | @dict ps us t ht hs =>
    rw [List.length_cons] at hm
    refine (Leads.bind reads_current).trans ?_
    rw [ht.kind]
    refine (Leads.bind reads_line).trans ((Leads.bind (reads_expect ht.kind (by decide))).trans ?_)
    have hr := hE.readable_pair (n := us.length) hg (by omega)
    exact (Leads.bind (reads_literalItems hs hr (by decide) (by decide))).trans (.refl _ _)
  | @var x t ht =>
    refine (Leads.bind reads_current).trans ?_
    rw [ht.kind, ht.value]
    exact (Leads.bind (reads_advance (by rw [ht.kind]; decide))).trans (.refl _ _)
  | @paren a us t close ht ha hc =>
    simp only [List.cons_append, List.length_cons, List.length_append, List.length_nil] at hm
    rw [List.append_assoc]
    refine (Leads.bind reads_current).trans ?_
    rw [ht.kind]
    refine (Leads.bind (reads_advance (by rw [ht.kind]; decide))).trans ?_
    refine (Leads.bind (hE.inner ha hg (by omega) (by rw [hc.kind]; rfl))).trans ?_
    exact (Leads.bind (reads_expect hc.kind (by decide))).trans (.refl _ _)
  | @newObject x es us t name ht hname hs =>
    simp only [List.length_cons] at hm
    refine (Leads.bind reads_current).trans ?_
    rw [ht.kind]
    refine (Leads.bind reads_line).trans ((Leads.bind (reads_expect ht.kind (by decide))).trans ?_)
    refine (Leads.bind (reads_nameOr hname)).trans ?_
    refine (Leads.bind (hE.optionalArguments hs hg (by omega) fun h => ?_)).trans (.refl _ _)
    obtain ⟨_, _, h⟩ := hcall h
    cases h
  | @superCall x es us t dot name ht hdot hname hs =>
    simp only [List.length_cons] at hm
    refine (Leads.bind reads_current).trans ?_
    rw [ht.kind]
    refine (Leads.bind reads_line).trans ((Leads.bind (reads_expect ht.kind (by decide))).trans ?_)
    refine (Leads.bind (reads_expect hdot.kind (by decide))).trans ?_
    refine (Leads.bind (reads_nameOr hname)).trans ?_
    refine (Leads.bind (hE.optionalArguments hs hg (by omega) fun h => ?_)).trans (.refl _ _)
    obtain ⟨_, _, h⟩ := hcall h
    cases h
  | @thisObject t ht =>
    refine (Leads.bind reads_current).trans ?_
    rw [ht.kind]
    exact (Leads.bind (reads_advance (by rw [ht.kind]; decide))).trans (.refl _ _)
  | binary | unary | call | lambda | method | property | index => simp [Expr.isPrimary] at hp

theorem ReadsFrom.primary_lambda {xs : List String} {l : Nat} (hE : ReadsFrom 1 m expr)
    (h : (Expr.lambda xs e l).Spelled ts) (hg : e.grammatical = true) (hm : ts.length ≤ m + 1)
    (hb : t.kind.binding = 0) :
    Reads (Parse.primary expr) (ts ++ t :: z) (.lambda xs e l) (t :: z) := by
  unfold Parse.primary
  cases h with
  | @lambda _ _ us vs t colon ht hxs hc hb =>
    simp only [List.cons_append, List.length_cons, List.length_append] at hm
    rw [List.append_assoc]
    refine (Leads.bind reads_current).trans ?_
    rw [ht.kind]
    refine (Leads.bind reads_line).trans ((Leads.bind (reads_expect ht.kind (by decide))).trans ?_)
    refine (reads_parameters hxs hc.kind).trans ?_
    refine (Leads.bind (reads_expect hc.kind (by decide))).trans ?_
    exact (Leads.bind (hE.inner hb hg (by omega) ‹_›)).trans (.refl _ _)

theorem reads_postfixes_end (hb : t.kind.binding < 8) :
    Reads (postfixes expr (n + 1) e) (t :: z) e (t :: z) := by
  refine (Leads.bind reads_current).trans ?_
  cases hk : t.kind <;> first | exact .refl _ _ | simp [hk, TokenKind.binding] at hb

theorem ReadsFrom.postfixes_call {x : String} {l : Nat} (hE : ReadsFrom 1 m expr)
    (ht : t.Is .lparen) (hs : Enclosed Expr.Spelled es ts) (hg : Expr.grammaticalAll es = true)
    (hm : ts.length ≤ m) :
    Leads (postfixes expr (n + 1) (.var x l)) (t :: ts ++ z) (postfixes expr n (.call x es t.line))
      z := by
  refine (Leads.bind reads_current).trans ?_
  rw [ht.kind]
  refine (Leads.bind (reads_advance (by rw [ht.kind]; decide))).trans ?_
  exact Leads.bind (hE.enclosed hs hg hm)

theorem ReadsFrom.postfixes_index {i : Expr} {close : Token} (hE : ReadsFrom 1 m expr)
    (ht : t.Is .lbracket) (hi : i.Spelled ts) (hc : close.Is .rbracket)
    (hg : i.grammatical = true) (hm : ts.length ≤ m) :
    Leads (postfixes expr (n + 1) e) (t :: ts ++ close :: z) (postfixes expr n (.index e i t.line))
      z := by
  refine (Leads.bind reads_current).trans ?_
  rw [ht.kind]
  refine (Leads.bind (reads_advance (by rw [ht.kind]; decide))).trans ?_
  refine (Leads.bind (hE.inner hi hg hm (by rw [hc.kind]; rfl))).trans ?_
  exact Leads.bind (reads_expect hc.kind (by decide))

theorem ReadsFrom.postfixes_method {x : String} {name opening : Token} (hE : ReadsFrom 1 m expr)
    (ht : t.Is .dot) (hx : name.Names x) (ho : opening.Is .lparen)
    (hs : Enclosed Expr.Spelled es ts) (hg : Expr.grammaticalAll es = true) (hm : ts.length ≤ m) :
    Leads (postfixes expr (n + 1) e) (t :: name :: opening :: ts ++ z)
      (postfixes expr n (.method e x es t.line)) z := by
  refine (Leads.bind reads_current).trans ?_
  rw [ht.kind]
  refine (Leads.bind (reads_advance (by rw [ht.kind]; decide))).trans ?_
  refine (Leads.bind (reads_nameOr hx)).trans ((Leads.bind reads_sees).trans ?_)
  refine (Leads.ite_true (by simp [ho.kind])).trans ?_
  refine (Leads.bind (reads_advance (by rw [ho.kind]; decide))).trans ?_
  exact Leads.bind (hE.enclosed hs hg hm)

theorem leads_postfixes_property {x : String} {name next : Token} (ht : t.Is .dot)
    (hx : name.Names x) (hn : next.kind ≠ .lparen) :
    Leads (postfixes expr (n + 1) e) (t :: name :: next :: z)
      (postfixes expr n (.property e x t.line)) (next :: z) := by
  refine (Leads.bind reads_current).trans ?_
  rw [ht.kind]
  refine (Leads.bind (reads_advance (by rw [ht.kind]; decide))).trans ?_
  refine (Leads.bind (reads_nameOr hx)).trans ((Leads.bind reads_sees).trans ?_)
  exact Leads.ite_false (by simp [hn])

/-- Behind an expression that a primary one starts, `applied` is in its loop, with turns enough for
what is left. -/
theorem ReadsFrom.applied {e : Expr} {ts z : List Token} {t : Token} (hE : ReadsFrom 1 m expr)
    (h : e.Spelled ts) (hg : e.grammatical = true) (hm : ts.length ≤ m + 1) (h8 : 8 ≤ e.tier)
    (ho : e.opens = false) (hcall : t.kind = .lparen → ∃ x l, e = .var x l) :
    ∃ n, z.length < n ∧
      Leads (applied expr) (ts ++ t :: z) (postfixes expr (n + 1) e) (t :: z) := by
  by_cases hp : e.isPrimary = true
  · refine ⟨z.length + 1, by omega, ?_⟩
    exact (Leads.bind (hE.primary h hg hm hp hcall)).trans (.cursor fun c hc => by rw [hc]; rfl)
  -- What the last call, index or member is applied to was read by the same loop a turn before.
  cases h with
  | literal | list | dict | var | paren | newObject | thisObject | superCall =>
    exact absurd rfl hp
  | lambda => simp [Expr.opens] at ho
  | unary => simp [Expr.tier] at h8
  | @binary op => cases op <;> simp [Expr.tier, BinaryOp.tier] at h8
  | @call x es us name opening hname hopening hs =>
    simp only [List.length_cons] at hm
    have hvar := hE.primary (t := opening) (z := us ++ t :: z) (.var hname) rfl (by simp) rfl
      fun _ => ⟨x, _, rfl⟩
    refine ⟨us.length + (z.length + 1), by omega, ?_⟩
    refine (Leads.bind hvar).trans ((Leads.cursor fun c hc => by rw [hc]).trans ?_)
    rw [List.length_cons, List.length_append, List.length_cons]
    exact hE.postfixes_call hopening hs hg (by omega)
  | @method a x es us vs dot name opening ha hdot hname hopening hs =>
    simp only [Expr.grammatical, Bool.and_eq_true, decide_eq_true_eq, Bool.not_eq_true'] at hg
    simp only [List.length_append, List.length_cons] at hm
    obtain ⟨n, hn, ha⟩ := ReadsFrom.applied (t := dot) (z := name :: opening :: (vs ++ t :: z)) hE
      ha hg.1.1.1 (by omega) hg.1.1.2 hg.1.2 fun h => absurd (hdot.kind.symm.trans h) (by decide)
    simp only [List.length_append, List.length_cons] at hn
    obtain ⟨n, rfl⟩ : ∃ n', n = n' + 1 := ⟨n - 1, by omega⟩
    refine ⟨n, by omega, ?_⟩
    rw [List.append_assoc]
    exact ha.trans (hE.postfixes_method hdot hname hopening hs hg.2 (by omega))
  | @property a x us dot name ha hdot hname =>
    simp only [Expr.grammatical, Bool.and_eq_true, decide_eq_true_eq, Bool.not_eq_true'] at hg
    rw [List.length_append] at hm
    obtain ⟨n, hn, ha⟩ := ReadsFrom.applied (t := dot) (z := name :: t :: z) hE ha hg.1.1
      (by omega) hg.1.2 hg.2 fun h => absurd (hdot.kind.symm.trans h) (by decide)
    simp only [List.length_cons] at hn
    obtain ⟨n, rfl⟩ : ∃ n', n = n' + 1 := ⟨n - 1, by omega⟩
    refine ⟨n, by omega, ?_⟩
    rw [List.append_assoc]
    refine ha.trans (leads_postfixes_property hdot hname fun h => ?_)
    obtain ⟨_, _, h⟩ := hcall h
    cases h
  | @index a i us vs opening close ha hopening hi hc =>
    simp only [Expr.grammatical, Bool.and_eq_true, decide_eq_true_eq, Bool.not_eq_true'] at hg
    simp only [List.length_append, List.length_cons, List.length_nil] at hm
    obtain ⟨n, hn, ha⟩ := ReadsFrom.applied (t := opening) (z := vs ++ close :: t :: z) hE ha
      hg.1.1.1 (by omega) hg.1.1.2 hg.1.2 fun h => absurd (hopening.kind.symm.trans h) (by decide)
    simp only [List.length_append, List.length_cons] at hn
    obtain ⟨n, rfl⟩ : ∃ n', n = n' + 1 := ⟨n - 1, by omega⟩
    refine ⟨n, by omega, ?_⟩
    simp only [List.append_assoc, List.cons_append, List.nil_append]
    exact ha.trans (hE.postfixes_index hopening hi hc hg.2 (by omega))
termination_by e

/-- `applied` reads to the end what holds together without operators. -/
theorem ReadsFrom.applied_reads (hE : ReadsFrom 1 m expr) :
    ReadsFrom 8 (m + 1) (Parse.applied expr) := by
  intro e ts h hg hm h8 t z hb hopen
  by_cases ho : e.opens = true
  · obtain ⟨xs, b, l, rfl⟩ := Expr.eq_lambda h8 ho
    refine (Leads.bind (hE.primary_lambda h hg hm (hopen ho))).trans ?_
    exact (Leads.cursor fun c hc => by rw [hc]).trans (reads_postfixes_end hb)
  · have hcall : t.kind ≠ .lparen := fun hc => by simp [hc, TokenKind.binding] at hb
    obtain ⟨n, -, happlied⟩ := hE.applied (z := z) h hg hm h8 (by simpa using ho) fun hc =>
      absurd hc hcall
    exact happlied.trans (reads_postfixes_end hb)

theorem leads_signs_applied (ht : t.kind.isSign = false) :
    Leads (signs expr (n + 1)) (t :: z) (applied expr) (t :: z) := by
  refine (Leads.bind reads_current).trans ?_
  cases hk : t.kind <;> first | exact .refl _ _ | simp [hk, TokenKind.isSign] at ht

theorem ReadsFrom.signs {e : Expr} {ts : List Token} {n : Nat} (hE : ReadsFrom 1 m expr)
    (h : e.Spelled ts) (hg : e.grammatical = true) (hm : ts.length ≤ m + 1) (h7 : 7 ≤ e.tier)
    (hb : t.kind.binding < 7) (hopen : e.opens = true → t.kind.binding = 0) (hn : ts.length ≤ n) :
    Reads (signs expr n) (ts ++ t :: z) e (t :: z) := by
  by_cases h8 : 8 ≤ e.tier
  · have happlied := hE.applied_reads e ts h hg hm h8 t z (by omega) hopen
    obtain ⟨u, us, rfl, hu⟩ := h.head_isSign hg h8
    obtain ⟨n, rfl⟩ : ∃ n', n = n' + 1 := ⟨n - 1, by simp at hn; omega⟩
    exact (leads_signs_applied hu).trans happlied
  · cases h with
    | @unary op k a us sign hop hsign ha =>
      simp only [Expr.grammatical, Bool.and_eq_true, decide_eq_true_eq] at hg
      rw [List.length_cons] at hm hn
      obtain ⟨n, rfl⟩ : ∃ n', n = n' + 1 := ⟨n - 1, by omega⟩
      have ha := ReadsFrom.signs (n := n) hE ha hg.1.2 (by omega) hg.2 hb hopen (by omega)
      refine (Leads.bind reads_current).trans ?_
      rw [hsign.kind]
      cases op <;> cases hop
      all_goals
        refine (Leads.bind (reads_advance (by rw [hsign.kind]; decide))).trans ?_
        exact (Leads.bind ha).trans (.refl _ _)
    | @binary op => cases op <;> simp [Expr.tier, BinaryOp.tier] at h7
    | _ => simp [Expr.tier] at h8
termination_by e

theorem ReadsFrom.unary (hE : ReadsFrom 1 m expr) : ReadsFrom 7 (m + 1) (unary expr) := by
  intro e ts h hg hm h7 t z hb hopen
  refine (Leads.cursor fun c hc => by rw [hc]).trans (hE.signs h hg hm h7 hb hopen ?_)
  rw [List.length_append]
  omega

section

variable {ops : List TokenKind} {operand : Parse Expr}

theorem reads_chain_end (ht : ops.contains t.kind = false) :
    Reads (chain ops operand (n + 1) e) (t :: z) e (t :: z) :=
  (Leads.bind reads_current).trans (Leads.ite_false ht)

/-- Behind an expression of tier `k` or a tighter one, `level` is in its loop, with turns enough for
what is left. -/
theorem ReadsFrom.leads_chain {e : Expr} {ts z : List Token} {t : Token}
    (h : ReadsFrom (k + 1) m operand) (hops : ∀ u : TokenKind, ops.contains u = (u.binding == k))
    (h6 : k ≤ 6) (he : e.Spelled ts) (hg : e.grammatical = true) (hm : ts.length ≤ m)
    (hk : k ≤ e.tier) (hb : t.kind.binding ≤ k) (hopen : e.opens = true → t.kind.binding = 0) :
    ∃ n, z.length < n ∧ Leads (level ops operand) (ts ++ t :: z) (chain ops operand (n + 1) e)
      (t :: z) := by
  by_cases hlt : k < e.tier
  · refine ⟨z.length + 1, by omega, ?_⟩
    refine (Leads.bind (h e ts he hg hm hlt t z (by omega) hopen)).trans ?_
    exact .cursor fun c hc => by rw [hc]; rfl
  -- Else the operator is of this tier, and the loop has read the left operand before.
  cases he with
  | @binary op kind a b us vs sign hop ha hsign hb' =>
    simp only [Expr.grammatical, Bool.and_eq_true, decide_eq_true_eq, Bool.not_eq_true'] at hg
    simp only [List.length_append, List.length_cons] at hm
    have hkop : op.tier = k := by simp only [Expr.tier] at hk hlt; omega
    have hsk : sign.kind.binding = k := by rw [hsign.kind, binding_eq_tier hop, hkop]
    obtain ⟨n, hn, ha⟩ := ReadsFrom.leads_chain (z := vs ++ t :: z) h hops h6 ha
      hg.1.1.1.1.2 (by omega) (by omega) (Nat.le_of_eq hsk) (by simp [hg.2])
    rw [List.length_append, List.length_cons] at hn
    obtain ⟨n, rfl⟩ : ∃ n', n = n' + 1 := ⟨n - 1, by omega⟩
    refine ⟨n, by omega, ?_⟩
    rw [List.append_assoc]
    refine ha.trans ((Leads.bind reads_current).trans ?_)
    refine (Leads.ite_true (by rw [hops, hsk, beq_self_eq_true])).trans ?_
    have hend : sign.kind ≠ .eof := by
      rw [hsign.kind]
      rintro rfl
      cases op <;> cases hop
    refine (Leads.bind (reads_advance hend)).trans ?_
    refine (Leads.bind (h b vs hb' hg.1.1.1.2 (by omega) (by omega) t z (by omega) hopen)).trans ?_
    rw [operator_eq hop hsign]
    exact .refl _ _
  | _ => simp only [Expr.tier] at hlt; omega
termination_by e

theorem ReadsFrom.level (h : ReadsFrom (k + 1) m operand)
    (hops : ∀ u : TokenKind, ops.contains u = (u.binding == k)) (h6 : k ≤ 6) :
    ReadsFrom k m (level ops operand) := by
  intro e ts he hg hm hk t z hb hopen
  obtain ⟨n, -, hlead⟩ := h.leads_chain (z := z) hops h6 he hg hm hk (by omega) hopen
  refine hlead.trans (reads_chain_end ?_)
  rw [hops]
  simp only [beq_eq_false_iff_ne]
  omega

end

theorem ReadsFrom.disjunction (hE : ReadsFrom 1 m expr) :
    ReadsFrom 1 (m + 1) (disjunction expr) :=
  disjunction_induction (P := fun k p => ReadsFrom k (m + 1) p) hE.unary
    fun _ _ _ _ h6 hops h => h.level hops h6

/-- Expressions of at most `n` tokens are nested less than `n` deep. -/
theorem readsFrom_expressionWithin (n : Nat) : ReadsFrom 1 n (expressionWithin n) := by
  induction n with
  | zero =>
    intro e ts h _ hm
    obtain ⟨t, us, rfl, -⟩ := h.head
    simp at hm
  | succ n ih => exact ih.disjunction

theorem reads_expression (h : e.Spelled ts) (hg : e.grammatical = true) (ht : t.kind.binding = 0) :
    Reads expression (ts ++ t :: z) e (t :: z) := by
  refine (Leads.cursor fun c hc => by rw [hc]).trans ?_
  refine (readsFrom_expressionWithin _).inner h hg ?_ ht
  rw [List.length_append]
  omega

end Parse

end Bhasha
