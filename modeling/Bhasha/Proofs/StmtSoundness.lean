import Bhasha.Proofs.CursorMoves
import Bhasha.Proofs.ExprSoundness
import Bhasha.Proofs.StmtReading

namespace Bhasha

namespace Parse

/-- Whatever `stmt` reads is grammatical, and only what closes a block or ends the source follows a
`wapas` without a value. -/
def SoundStmt (stmt : Parse Stmt) : Prop :=
  Yields stmt Stmt.Spelled fun s t =>
    s.grammatical = true ∧ (s.isBare = true → t = .rbrace ∨ t = .eof)

variable {stmt : Parse Stmt} {s : Stmt} {ss : List Stmt} {c c' : Cursor} {k : TokenKind} {n : Nat}

section

variable {α : Type} {item : Parse α} {S : α → List Token → Prop} {g : α → TokenKind → Prop}
  {P : List α → Prop} {as : List α}

theorem itemsUntil_ok (hi : Yields item S g) (hnil : P [])
    (hcons : ∀ a as k us, g a k → Sequence S as us → (∀ t us', us = t :: us' → t.kind = k) →
      P as → P (a :: as))
    {found : List α} {c : Cursor} (hc : Complete c.rest)
    (h : itemsUntil k item n found c = .ok as c') :
    ∃ bs ts, as = found.reverse ++ bs ∧ Took c ts c' ∧ Sequence S bs ts ∧ P bs := by
  induction n generalizing found c with
  | zero => exact absurd h throw_ne_ok
  | succ n ih =>
    rcases bind_sees_ok h with ⟨-, h⟩ | ⟨-, h⟩
    · obtain ⟨rfl, rfl⟩ := pure_ok h
      exact ⟨[], [], by simp, .refl hc, .nil, hnil⟩
    · obtain ⟨a, c₁, hitem, h⟩ := bind_eq_ok h
      obtain ⟨us, htook, ha, hg⟩ := hi c a c₁ hc hitem
      obtain ⟨bs, vs, rfl, htook₁, hbs, hP⟩ := ih htook.complete h
      refine ⟨a :: bs, us ++ vs, by simp, htook.trans htook₁, .cons ha hbs, ?_⟩
      -- If more items follow, the token seen behind `a` is the first of theirs.
      refine hcons a bs _ vs hg hbs (fun t vs' hvs => ?_) hP
      have hrest : c₁.rest = t :: (vs' ++ c'.rest) := by rw [htook₁.rest, hvs]; rfl
      rw [Cursor.current_of_rest hrest]

theorem braced_ok (hi : Yields item S g) (hnil : P [])
    (hcons : ∀ a as k us, g a k → Sequence S as us → (∀ t us', us = t :: us' → t.kind = k) →
      P as → P (a :: as))
    (hc : Complete c.rest) (h : braced item c = .ok as c') :
    ∃ brace ts, brace.Is .lbrace ∧ Took c (brace :: ts) c' ∧ Block S as ts ∧ P as := by
  obtain ⟨c₁, hbrace, htook, h⟩ := bind_expect_ok hc rfl h
  obtain ⟨bs, c₂, hitems, h⟩ := bind_eq_ok (bind_get_ok h)
  obtain ⟨bs, ts, rfl, htook₁, hs, hP⟩ := itemsUntil_ok hi hnil hcons htook.complete hitems
  obtain ⟨c₃, hclose, htook₂, h⟩ := bind_expect_ok htook₁.complete rfl h
  obtain ⟨rfl, rfl⟩ := pure_ok h
  exact ⟨_, _, hbrace, htook.cons (htook₁.trans htook₂), hs.block hclose, hP⟩

end

/-- A bare `wapas` is not followed by a statement. -/
theorem grammaticalBlock_cons {us : List Token}
    (hg : s.grammatical = true ∧ (s.isBare = true → k = .rbrace ∨ k = .eof))
    (hs : Sequence Stmt.Spelled ss us) (hk : ∀ t us', us = t :: us' → t.kind = k)
    (hss : Stmt.grammaticalBlock ss = true) : Stmt.grammaticalBlock (s :: ss) = true := by
  have hbare : s.isBare = true → ss = [] := by
    intro hb
    cases hs with
    | nil => rfl
    | cons hs' =>
      obtain ⟨t, us, rfl, ht⟩ := hs'.head
      rw [hk t _ rfl] at ht
      rcases hg.2 hb with rfl | rfl <;> simp [TokenKind.startsStatement] at ht
  simp only [Stmt.grammaticalBlock, Bool.and_eq_true, hg.1, hss, and_true, true_and]
  cases hb : s.isBare with
  | false => rfl
  | true => rw [hbare hb]; rfl

theorem SoundStmt.braced (hS : SoundStmt stmt) (hc : Complete c.rest)
    (h : braced stmt c = .ok ss c') :
    ∃ brace ts, brace.Is .lbrace ∧ Took c (brace :: ts) c' ∧ Block Stmt.Spelled ss ts ∧
      Stmt.grammaticalBlock ss = true :=
  braced_ok (P := fun ss => Stmt.grammaticalBlock ss = true) hS rfl
    (fun _ _ _ _ hg hs hk hss => grammaticalBlock_cons hg hs hk hss) hc h

theorem SoundStmt.optionalBlock {o : Option (List Stmt)} (hS : SoundStmt stmt)
    (hk : k.isFixed = true) (hc : Complete c.rest) (h : optionalBlock k stmt c = .ok o c') :
    ∃ ts, Took c ts c' ∧ OptionallyBraced Stmt.Spelled k o ts ∧
      Stmt.grammaticalOption o = true := by
  rcases bind_sees_ok h with ⟨hkind, h⟩ | ⟨-, h⟩
  · obtain ⟨c₁, ht, htook, h⟩ := bind_advance_is_ok hc hkind hk h
    obtain ⟨ss, c₂, hbody, h⟩ := bind_eq_ok h
    obtain ⟨brace, ts, hbrace, htook₁, hs, hg⟩ := hS.braced htook.complete hbody
    obtain ⟨rfl, rfl⟩ := pure_ok h
    exact ⟨_, htook.cons htook₁, .some ht hbrace hs, hg⟩
  · obtain ⟨rfl, rfl⟩ := pure_ok h
    exact ⟨[], .refl hc, .none, rfl⟩

theorem SoundStmt.branches {c : Cursor} {found bs : List Branch} (hS : SoundStmt stmt)
    (hc : Complete c.rest) (h : branches stmt n found c = .ok bs c') :
    ∃ bs' ts, bs = found.reverse ++ bs' ∧ Took c ts c' ∧ Sequence Branch.Spelled bs' ts ∧
      Branch.grammaticalAll bs' = true := by
  induction n generalizing found c with
  | zero => exact absurd h throw_ne_ok
  | succ n ih =>
    rcases bind_sees_ok h with ⟨hk, h⟩ | ⟨-, h⟩
    · obtain ⟨c₁, ht, htook, h⟩ := bind_advance_is_ok hc hk rfl h
      obtain ⟨e, c₂, he, h⟩ := bind_eq_ok h
      obtain ⟨us, htook₁, hus, hg, -⟩ := soundFrom_expression c₁ e c₂ htook.complete he
      obtain ⟨body, c₃, hbody, h⟩ := bind_eq_ok h
      obtain ⟨brace, vs, hbrace, htook₂, hs, hg'⟩ := hS.braced htook₁.complete hbody
      obtain ⟨bs', ws, rfl, htook₃, hbs, hgs⟩ := ih htook₂.complete h
      have hall := htook.cons (htook₁.trans (htook₂.trans htook₃))
      exact ⟨.mk e body :: bs', _, by simp, by simpa using hall,
        .cons (.mk ht hus hbrace hs) hbs,
        by simp [Branch.grammaticalAll, Branch.grammatical, hg, hg', hgs]⟩
    · obtain ⟨rfl, rfl⟩ := pure_ok h
      exact ⟨[], [], by simp, .refl hc, .nil, rfl⟩

theorem SoundStmt.functionDef {f : FunctionDef} (hS : SoundStmt stmt) (hc : Complete c.rest)
    (h : functionDef stmt c = .ok f c') :
    ∃ ts, Took c ts c' ∧ f.Spelled ts ∧ f.grammatical = true := by
  obtain ⟨c₁, hword, htook, h⟩ := bind_expect_ok hc rfl (bind_line_ok h)
  obtain ⟨x, c₂, hx, htook₁, h⟩ := bind_nameOr_ok htook.complete h
  obtain ⟨c₃, hopening, htook₂, h⟩ := bind_expect_ok htook₁.complete rfl h
  obtain ⟨xs, c₄, hxs, h⟩ := bind_eq_ok h
  obtain ⟨us, htook₃, hs, -⟩ := enclosed_ok (yields_name _) htook₂.complete hxs
  obtain ⟨body, c₅, hbody, h⟩ := bind_eq_ok h
  obtain ⟨brace, vs, hbrace, htook₄, hb, hg⟩ := hS.braced htook₃.complete hbody
  obtain ⟨rfl, rfl⟩ := pure_ok h
  exact ⟨_, htook.cons (htook₁.cons (htook₂.cons (htook₃.trans htook₄))),
    .mk hword hx hopening hs hbrace hb, hg⟩

theorem SoundStmt.methods {fs : List FunctionDef} (hS : SoundStmt stmt) (hc : Complete c.rest)
    (h : Parse.braced (methodDef stmt) c = .ok fs c') :
    ∃ brace ts, brace.Is .lbrace ∧ Took c (brace :: ts) c' ∧ Block FunctionDef.Spelled fs ts ∧
      FunctionDef.grammaticalAll fs = true := by
  have hi : Yields (methodDef stmt) FunctionDef.Spelled fun f _ => f.grammatical = true := by
    intro c f c' hc h
    rcases bind_sees_ok h with ⟨-, h⟩ | ⟨-, h⟩
    · exact hS.functionDef hc h
    · exact absurd h throw_ne_ok
  refine braced_ok (P := fun fs => FunctionDef.grammaticalAll fs = true) hi rfl ?_ hc h
  intro f fs k us hf _ _ hfs
  simp [FunctionDef.grammaticalAll, hf, hfs]

/-- From `c` the statement `s` was read, which is not a bare `wapas`. -/
def TookStmt (c : Cursor) (s : Stmt) (c' : Cursor) : Prop :=
  ∃ ts, Took c ts c' ∧ s.Spelled ts ∧ s.grammatical = true ∧ s.isBare = false

theorem SoundStmt.of_took {p : Parse Stmt}
    (h : ∀ c s c', Complete c.rest → p c = .ok s c' → TookStmt c s c') : SoundStmt p := by
  intro c s c' hc hp
  obtain ⟨ts, htook, hs, hg, hb⟩ := h c s c' hc hp
  exact ⟨ts, htook, hs, hg, by simp [hb]⟩

theorem soundStmt_declaration : SoundStmt declaration := by
  refine .of_took fun c s c' hc h => ?_
  obtain ⟨c₁, ht, htook, h⟩ := bind_expect_ok hc rfl (bind_line_ok h)
  obtain ⟨x, c₂, hx, htook₁, h⟩ := bind_nameOr_ok htook.complete h
  obtain ⟨c₃, heq, htook₂, h⟩ := bind_expect_ok htook₁.complete rfl h
  obtain ⟨e, c₄, he, h⟩ := bind_eq_ok h
  obtain ⟨ts, htook₃, hs, hg, -⟩ := soundFrom_expression c₃ e c₄ htook₂.complete he
  obtain ⟨rfl, rfl⟩ := pure_ok h
  exact ⟨_, htook.cons (htook₁.cons (htook₂.cons htook₃)), .declare ht hx heq hs, hg, rfl⟩

theorem soundStmt_print : SoundStmt print := by
  refine .of_took fun c s c' hc h => ?_
  obtain ⟨c₁, ht, htook, h⟩ := bind_expect_ok hc rfl (bind_line_ok h)
  obtain ⟨c₂, hopening, htook₁, h⟩ := bind_expect_ok htook.complete rfl h
  obtain ⟨es, c₃, hes, h⟩ := bind_eq_ok h
  obtain ⟨ts, htook₂, hs, hg⟩ := soundFrom_expression.arguments htook₁.complete hes
  obtain ⟨rfl, rfl⟩ := pure_ok h
  exact ⟨_, htook.cons (htook₁.cons htook₂), .print ht hopening hs, hg, rfl⟩

theorem soundStmt_input : SoundStmt input := by
  refine .of_took fun c s c' hc h => ?_
  obtain ⟨c₁, ht, htook, h⟩ := bind_expect_ok hc rfl (bind_line_ok h)
  obtain ⟨x, c₂, hx, htook₁, h⟩ := bind_nameOr_ok htook.complete h
  rcases ite_ok (bind_current_ok h) with ⟨hk, h⟩ | ⟨-, h⟩
  · have hk : c₂.current.kind = .string := eq_of_beq hk
    obtain ⟨c₃, htook₂, h⟩ := bind_advance_ok htook₁.complete (by rw [hk]; decide) h
    obtain ⟨rfl, rfl⟩ := pure_ok h
    exact ⟨_, htook.cons (htook₁.cons htook₂), .inputWith ht hx hk, rfl, rfl⟩
  · obtain ⟨rfl, rfl⟩ := pure_ok h
    exact ⟨_, htook.cons htook₁, .input ht hx, rfl, rfl⟩

theorem soundStmt_raiseError : SoundStmt raiseError := by
  refine .of_took fun c s c' hc h => ?_
  obtain ⟨c₁, ht, htook, h⟩ := bind_expect_ok hc rfl (bind_line_ok h)
  obtain ⟨e, c₂, he, h⟩ := bind_eq_ok h
  obtain ⟨ts, htook₁, hs, hg, -⟩ := soundFrom_expression c₁ e c₂ htook.complete he
  obtain ⟨rfl, rfl⟩ := pure_ok h
  exact ⟨_, htook.cons htook₁, .raiseError ht hs, hg, rfl⟩

theorem soundStmt_giveBack : SoundStmt giveBack := by
  intro c s c' hc h
  obtain ⟨c₁, ht, htook, h⟩ := bind_expect_ok hc rfl (bind_line_ok h)
  rcases bind_seesAny_ok h with ⟨hk, h⟩ | ⟨-, h⟩
  · obtain ⟨rfl, rfl⟩ := pure_ok h
    exact ⟨_, htook, .giveBack ht, rfl, fun _ => by simpa using hk⟩
  · obtain ⟨e, c₂, he, h⟩ := bind_eq_ok h
    obtain ⟨ts, htook₁, hs, hg, -⟩ := soundFrom_expression c₁ e c₂ htook.complete he
    obtain ⟨rfl, rfl⟩ := pure_ok h
    exact ⟨_, htook.cons htook₁, .giveBackWith ht hs, hg, nofun⟩

theorem tookStmt_thisAssignment (hc : Complete c.rest) (hk : c.current.kind = .this)
    (h : thisAssignment c = .ok s c') : TookStmt c s c' := by
  obtain ⟨c₁, ht, htook, h⟩ := bind_advance_is_ok hc hk rfl (bind_line_ok h)
  rcases bind_sees_ok h with ⟨hk, h⟩ | ⟨-, h⟩
  · obtain ⟨c₂, hdot, htook₁, h⟩ := bind_advance_is_ok htook.complete hk rfl h
    obtain ⟨x, c₃, hx, htook₂, h⟩ := bind_nameOr_ok htook₁.complete h
    obtain ⟨c₄, heq, htook₃, h⟩ := bind_expect_ok htook₂.complete rfl h
    obtain ⟨e, c₅, he, h⟩ := bind_eq_ok h
    obtain ⟨ts, htook₄, hs, hg, -⟩ := soundFrom_expression c₄ e c₅ htook₃.complete he
    obtain ⟨rfl, rfl⟩ := pure_ok h
    exact ⟨_, htook.cons (htook₁.cons (htook₂.cons (htook₃.cons htook₄))),
      .setThis ht hdot hx heq hs, hg, rfl⟩
  · exact absurd h throw_ne_ok

theorem tookStmt_named (hc : Complete c.rest) (h : named c = .ok s c') : TookStmt c s c' := by
  obtain ⟨x, c₁, hx, htook, h⟩ := bind_nameOr_ok hc (bind_line_ok h)
  have h := bind_current_ok h
  have hc₁ := htook.complete
  cases hk : c₁.current.kind with
  | dot =>
    rw [hk] at h
    obtain ⟨c₂, hdot, htook₁, h⟩ := bind_advance_is_ok hc₁ hk rfl h
    obtain ⟨y, c₃, hy, htook₂, h⟩ := bind_nameOr_ok htook₁.complete h
    rcases bind_sees_ok h with ⟨hk, h⟩ | ⟨-, h⟩
    · obtain ⟨c₄, hopening, htook₃, h⟩ := bind_advance_is_ok htook₂.complete hk rfl h
      obtain ⟨es, c₅, hes, h⟩ := bind_eq_ok h
      obtain ⟨ts, htook₄, hs, hg⟩ := soundFrom_expression.arguments htook₃.complete hes
      obtain ⟨rfl, rfl⟩ := pure_ok h
      exact ⟨_, htook.cons (htook₁.cons (htook₂.cons (htook₃.cons htook₄))),
        .method hx hdot hy hopening hs, hg, rfl⟩
    · obtain ⟨c₄, heq, htook₃, h⟩ := bind_expect_ok htook₂.complete rfl h
      obtain ⟨e, c₅, he, h⟩ := bind_eq_ok h
      obtain ⟨ts, htook₄, hs, hg, -⟩ := soundFrom_expression c₄ e c₅ htook₃.complete he
      obtain ⟨rfl, rfl⟩ := pure_ok h
      exact ⟨_, htook.cons (htook₁.cons (htook₂.cons (htook₃.cons htook₄))),
        .setProperty hx hdot hy heq hs, hg, rfl⟩
  | lbracket =>
    rw [hk] at h
    obtain ⟨c₂, hopening, htook₁, h⟩ := bind_advance_is_ok hc₁ hk rfl h
    obtain ⟨i, c₃, hi, h⟩ := bind_eq_ok h
    obtain ⟨ts, htook₂, his, hgi, -⟩ := soundFrom_expression c₂ i c₃ htook₁.complete hi
    obtain ⟨c₄, hclose, htook₃, h⟩ := bind_expect_ok htook₂.complete rfl h
    obtain ⟨c₅, heq, htook₄, h⟩ := bind_expect_ok htook₃.complete rfl h
    obtain ⟨e, c₆, he, h⟩ := bind_eq_ok h
    obtain ⟨us, htook₅, hs, hg, -⟩ := soundFrom_expression c₅ e c₆ htook₄.complete he
    obtain ⟨rfl, rfl⟩ := pure_ok h
    exact ⟨_, htook.cons (htook₁.cons (htook₂.trans (htook₃.cons (htook₄.cons htook₅)))),
      .setIndex hx hopening his hclose heq hs, by simp [Stmt.grammatical, hgi, hg], rfl⟩
  | assign =>
    rw [hk] at h
    obtain ⟨c₂, heq, htook₁, h⟩ := bind_advance_is_ok hc₁ hk rfl h
    obtain ⟨e, c₃, he, h⟩ := bind_eq_ok h
    obtain ⟨ts, htook₂, hs, hg, -⟩ := soundFrom_expression c₂ e c₃ htook₁.complete he
    obtain ⟨rfl, rfl⟩ := pure_ok h
    exact ⟨_, htook.cons (htook₁.cons htook₂), .assign hx heq hs, hg, rfl⟩
  | lparen =>
    rw [hk] at h
    obtain ⟨c₂, hopening, htook₁, h⟩ := bind_advance_is_ok hc₁ hk rfl h
    obtain ⟨es, c₃, hes, h⟩ := bind_eq_ok h
    obtain ⟨ts, htook₂, hs, hg⟩ := soundFrom_expression.arguments htook₁.complete hes
    obtain ⟨rfl, rfl⟩ := pure_ok h
    exact ⟨_, htook.cons (htook₁.cons htook₂), .call hx hopening hs, hg, rfl⟩
  | _ =>
    rw [hk] at h
    exact absurd h throw_ne_ok

theorem tookStmt_assignmentOrExpression (hc : Complete c.rest)
    (hk : c.current.kind = .identifier ∨ c.current.kind = .this)
    (h : assignmentOrExpression c = .ok s c') : TookStmt c s c' := by
  rcases bind_sees_ok h with ⟨hthis, h⟩ | ⟨hthis, h⟩
  · exact tookStmt_thisAssignment hc hthis h
  · have hk := hk.resolve_right hthis
    rcases bind_sees_ok h with ⟨-, h⟩ | ⟨hname, -⟩
    · exact tookStmt_named hc h
    · exact absurd hk hname

theorem SoundStmt.conditional (hS : SoundStmt stmt) : SoundStmt (conditional stmt) := by
  refine .of_took fun c s c' hc h => ?_
  obtain ⟨c₁, ht, htook, h⟩ := bind_expect_ok hc rfl (bind_line_ok h)
  obtain ⟨e, c₂, he, h⟩ := bind_eq_ok h
  obtain ⟨ts, htook₁, hts, hg, -⟩ := soundFrom_expression c₁ e c₂ htook.complete he
  obtain ⟨body, c₃, hbody, h⟩ := bind_eq_ok h
  obtain ⟨brace, us, hbrace, htook₂, hus, hg₁⟩ := hS.braced htook₁.complete hbody
  obtain ⟨bs, c₄, hbs, h⟩ := bind_eq_ok (bind_get_ok h)
  obtain ⟨bs, vs, rfl, htook₃, hvs, hg₂⟩ := hS.branches htook₂.complete hbs
  obtain ⟨o, c₅, ho, h⟩ := bind_eq_ok h
  obtain ⟨ws, htook₄, hws, hg₃⟩ := hS.optionalBlock rfl htook₃.complete ho
  obtain ⟨rfl, rfl⟩ := pure_ok h
  have hall := htook.cons (htook₁.trans (htook₂.trans (htook₃.trans htook₄)))
  exact ⟨_, by simpa using hall, .ifElse ht hts hbrace hus hvs hws,
    by simp [Stmt.grammatical, hg, hg₁, hg₂, hg₃], rfl⟩

theorem SoundStmt.whileLoop (hS : SoundStmt stmt) : SoundStmt (whileLoop stmt) := by
  refine .of_took fun c s c' hc h => ?_
  obtain ⟨c₁, ht, htook, h⟩ := bind_expect_ok hc rfl (bind_line_ok h)
  obtain ⟨e, c₂, he, h⟩ := bind_eq_ok h
  obtain ⟨ts, htook₁, hts, hg, -⟩ := soundFrom_expression c₁ e c₂ htook.complete he
  obtain ⟨body, c₃, hbody, h⟩ := bind_eq_ok h
  obtain ⟨brace, us, hbrace, htook₂, hus, hg₁⟩ := hS.braced htook₁.complete hbody
  obtain ⟨rfl, rfl⟩ := pure_ok h
  exact ⟨_, htook.cons (htook₁.trans htook₂), .whileLoop ht hts hbrace hus,
    by simp [Stmt.grammatical, hg, hg₁], rfl⟩

theorem SoundStmt.forLoop (hS : SoundStmt stmt) : SoundStmt (forLoop stmt) := by
  refine .of_took fun c s c' hc h => ?_
  obtain ⟨c₁, ht, htook, h⟩ := bind_expect_ok hc rfl (bind_line_ok h)
  obtain ⟨x, c₂, hx, htook₁, h⟩ := bind_nameOr_ok htook.complete h
  obtain ⟨c₃, hword, htook₂, h⟩ := bind_expect_ok htook₁.complete rfl h
  obtain ⟨e, c₄, he, h⟩ := bind_eq_ok h
  obtain ⟨ts, htook₃, hts, hg, -⟩ := soundFrom_expression c₃ e c₄ htook₂.complete he
  obtain ⟨body, c₅, hbody, h⟩ := bind_eq_ok h
  obtain ⟨brace, us, hbrace, htook₄, hus, hg₁⟩ := hS.braced htook₃.complete hbody
  obtain ⟨rfl, rfl⟩ := pure_ok h
  exact ⟨_, htook.cons (htook₁.cons (htook₂.cons (htook₃.trans htook₄))),
    .forLoop ht hx hword hts hbrace hus, by simp [Stmt.grammatical, hg, hg₁], rfl⟩

theorem SoundStmt.classDef (hS : SoundStmt stmt) : SoundStmt (classDef stmt) := by
  refine .of_took fun c s c' hc h => ?_
  obtain ⟨c₁, ht, htook, h⟩ := bind_expect_ok hc rfl (bind_line_ok h)
  obtain ⟨x, c₂, hx, htook₁, h⟩ := bind_nameOr_ok htook.complete h
  have hbody : ∀ {parent c₃ us}, Took c₂ us c₃ → ParentSpelled parent us →
      (do return Stmt.classDef x parent (← Parse.braced (methodDef stmt)) c.current.line) c₃ =
        .ok s c' → TookStmt c s c' := by
    intro parent c₃ us htook₂ hparent h
    obtain ⟨fs, c₄, hfs, h⟩ := bind_eq_ok h
    obtain ⟨brace, vs, hbrace, htook₃, hvs, hg⟩ := hS.methods htook₂.complete hfs
    obtain ⟨rfl, rfl⟩ := pure_ok h
    exact ⟨_, htook.cons (htook₁.cons (htook₂.trans htook₃)), .classDef ht hx hparent hbrace hvs,
      hg, rfl⟩
  rcases bind_sees_ok h with ⟨hk, h⟩ | ⟨-, h⟩
  · obtain ⟨c₃, hword, htook₂, h⟩ := bind_advance_is_ok htook₁.complete hk rfl h
    rw [bind_map_left] at h
    obtain ⟨y, c₄, hy, htook₃, h⟩ := bind_nameOr_ok htook₂.complete h
    exact hbody (htook₂.cons htook₃) (.some hword hy) h
  · exact hbody (.refl htook₁.complete) .none h

theorem SoundStmt.attempt (hS : SoundStmt stmt) : SoundStmt (attempt stmt) := by
  refine .of_took fun c s c' hc h => ?_
  obtain ⟨c₁, ht, htook, h⟩ := bind_expect_ok hc rfl (bind_line_ok h)
  obtain ⟨body, c₂, hbody, h⟩ := bind_eq_ok h
  obtain ⟨brace, ts, hbrace, htook₁, hts, hg⟩ := hS.braced htook.complete hbody
  rcases bind_sees_ok h with ⟨hk, h⟩ | ⟨-, h⟩
  · obtain ⟨c₃, hword, htook₂, h⟩ := bind_advance_is_ok htook₁.complete hk rfl h
    have hcaught : ∀ {x c₄ us}, Took c₃ us c₄ → CaughtSpelled x us →
        (do
          let handler ← Parse.braced stmt
          let finalizer ← Parse.optionalBlock .finallyKw stmt
          return Stmt.attempt body x (some handler) finalizer c.current.line) c₄ = .ok s c' →
        TookStmt c s c' := by
      intro x c₄ us htook₃ hus h
      obtain ⟨handler, c₅, hhandler, h⟩ := bind_eq_ok h
      obtain ⟨brace', vs, hbrace', htook₄, hvs, hg₁⟩ := hS.braced htook₃.complete hhandler
      obtain ⟨o, c₆, ho, h⟩ := bind_eq_ok h
      obtain ⟨ws, htook₅, hws, hg₂⟩ := hS.optionalBlock rfl htook₄.complete ho
      obtain ⟨rfl, rfl⟩ := pure_ok h
      have hall := htook.trans (htook₁.trans (htook₂.trans (htook₃.trans (htook₄.trans htook₅))))
      exact ⟨_, by simpa using hall, .attemptWith ht hbrace hts hword hus hbrace' hvs hws,
        by simp [Stmt.grammatical, Stmt.grammaticalOption, hg, hg₁, hg₂], rfl⟩
    rcases bind_sees_ok h with ⟨-, h⟩ | ⟨-, h⟩
    · rw [bind_map_left] at h
      obtain ⟨y, c₄, hy, htook₃, h⟩ := bind_nameOr_ok htook₂.complete h
      exact hcaught htook₃ (.some hy) h
    · exact hcaught (.refl htook₂.complete) .none h
  · rw [pure_bind] at h
    obtain ⟨o, c₃, ho, h⟩ := bind_eq_ok h
    obtain ⟨us, htook₂, hus, hg₁⟩ := hS.optionalBlock rfl htook₁.complete ho
    obtain ⟨rfl, rfl⟩ := pure_ok h
    exact ⟨_, htook.cons (htook₁.trans htook₂), .attempt ht hbrace hts hus,
      by simp [Stmt.grammatical, Stmt.grammaticalOption, hg, hg₁], rfl⟩

theorem SoundStmt.statementWith (hS : SoundStmt stmt) : SoundStmt (statementWith stmt) := by
  intro c s c' hc h
  have h := bind_current_ok h
  cases hk : c.current.kind with
  | letVar =>
    rw [hk] at h
    exact soundStmt_declaration c s c' hc h
  | print =>
    rw [hk] at h
    exact soundStmt_print c s c' hc h
  | input =>
    rw [hk] at h
    exact soundStmt_input c s c' hc h
  | ifKw =>
    rw [hk] at h
    exact hS.conditional c s c' hc h
  | whileKw =>
    rw [hk] at h
    exact hS.whileLoop c s c' hc h
  | forKw =>
    rw [hk] at h
    exact hS.forLoop c s c' hc h
  | breakKw =>
    rw [hk] at h
    obtain ⟨c₁, ht, htook, h⟩ := bind_advance_is_ok hc hk rfl h
    obtain ⟨rfl, rfl⟩ := pure_ok h
    exact ⟨_, htook, .breakLoop ht, rfl, nofun⟩
  | continueKw =>
    rw [hk] at h
    obtain ⟨c₁, ht, htook, h⟩ := bind_advance_is_ok hc hk rfl h
    obtain ⟨rfl, rfl⟩ := pure_ok h
    exact ⟨_, htook, .continueLoop ht, rfl, nofun⟩
  | function =>
    rw [hk] at h
    obtain ⟨f, hf, rfl⟩ := map_eq_ok h
    obtain ⟨ts, htook, hs, hg⟩ := hS.functionDef hc hf
    exact ⟨ts, htook, .function hs, hg, nofun⟩
  | returnKw =>
    rw [hk] at h
    exact soundStmt_giveBack c s c' hc h
  | classKw =>
    rw [hk] at h
    exact hS.classDef c s c' hc h
  | tryKw =>
    rw [hk] at h
    exact hS.attempt c s c' hc h
  | throwKw =>
    rw [hk] at h
    exact soundStmt_raiseError c s c' hc h
  | identifier | this =>
    rw [hk] at h
    obtain ⟨ts, htook, hs, hg, hb⟩ :=
      tookStmt_assignmentOrExpression hc (by simp [hk]) h
    exact ⟨ts, htook, hs, hg, by simp [hb]⟩
  | _ =>
    rw [hk] at h
    exact absurd h throw_ne_ok

theorem soundStmt_statementWithin (n : Nat) : SoundStmt (statementWithin n) := by
  induction n with
  | zero => exact fun _ _ _ _ h => absurd h throw_ne_ok
  | succ n ih => exact ih.statementWith

theorem soundStmt_statement : SoundStmt statement :=
  fun c s c' hc h => soundStmt_statementWithin _ c s c' hc (bind_get_ok h)

/-- The errors of before are still there. -/
def Records (c c' : Cursor) : Prop :=
  c.errors <+: c'.errors

instance : Std.Refl Records := ⟨fun c => List.prefix_refl c.errors⟩

instance : IsTrans Cursor Records := ⟨fun _ _ _ h h' => h.trans h'⟩

theorem Steady.records {α : Type} {p : Parse α} (h : Steady p) : Keeps Records p :=
  h.mono fun _ _ hadv => ⟨[], by rw [List.append_nil, hadv.same.2.1]⟩

theorem keeps_recover (e : Failure) : Keeps Records (recover e) := by
  cases e with
  | diagnostic d =>
    refine .bind (.modified fun c => List.prefix_append c.errors [d]) fun _ => ?_
    exact .bind steady_synchronize.records fun _ => .pure _
  | _ => exact .throw _

theorem keeps_statementsWithin (n : Nat) (found : List Stmt) :
    Keeps Records (statementsWithin n found) := by
  induction n generalizing found with
  | zero => exact .throw _
  | succ n ih =>
    refine .bind steady_atEnd.records fun _ => .ite (.pure _) ?_
    exact .bind (.tryCatch (steady_statement.records.map _) keeps_recover) fun _ => ih _

theorem recover_errors {e : Failure} {s? : Option Stmt} (h : recover e c = .ok s? c') :
    c'.errors ≠ [] := by
  cases e with
  | diagnostic d =>
    obtain ⟨u, c₁, hmodify, h⟩ := bind_eq_ok h
    cases hmodify
    obtain ⟨u, c₂, hsync, h⟩ := bind_eq_ok h
    obtain ⟨-, rfl⟩ := pure_ok h
    have hrec := steady_synchronize.records { c with errors := c.errors ++ [d] }
    rw [finalState_ok hsync] at hrec
    intro hnil
    simp [Records, hnil] at hrec
  | _ => exact absurd h throw_ne_ok

theorem statementsWithin_ok {found : List Stmt} {c : Cursor} (hc : Complete c.rest)
    (h : statementsWithin n found c = .ok ss c') (he : c'.errors = []) :
    ∃ bs ts, ss = found.reverse ++ bs ∧ Took c ts c' ∧ Sequence Stmt.Spelled bs ts ∧
      Stmt.grammaticalBlock bs = true ∧ c'.current.kind = .eof := by
  induction n generalizing found c with
  | zero => exact absurd h throw_ne_ok
  | succ n ih =>
    rcases bind_sees_ok h with ⟨hk, h⟩ | ⟨-, h⟩
    · obtain ⟨rfl, rfl⟩ := pure_ok h
      exact ⟨[], [], by simp, .refl hc, .nil, rfl, hk⟩
    · obtain ⟨s?, c₁, hs, h⟩ := bind_eq_ok h
      rcases tryCatch_eq_ok hs with hs | ⟨e, c₂, -, hrec⟩
      · obtain ⟨s, hstmt, rfl⟩ := map_eq_ok hs
        obtain ⟨us, htook, hus, hg⟩ := soundStmt_statement c s c₁ hc hstmt
        obtain ⟨bs, vs, rfl, htook₁, hbs, hgs, hend⟩ := ih htook.complete h
        refine ⟨s :: bs, us ++ vs, by simp, htook.trans htook₁, .cons hus hbs, ?_, hend⟩
        refine grammaticalBlock_cons hg hbs (fun t vs' hvs => ?_) hgs
        have hrest : c₁.rest = t :: (vs' ++ c'.rest) := by rw [htook₁.rest, hvs]; rfl
        rw [Cursor.current_of_rest hrest]
      · -- A recorded error would still be there at the end.
        have hkept := keeps_statementsWithin n (s?.toList ++ found) c₁
        rw [finalState_ok h, Records, he, List.prefix_nil] at hkept
        exact absurd hkept (recover_errors hrec)

theorem program_ok {lang : Lang} {p : Program} (hc : Complete c.rest)
    (h : program lang c = .ok p c') :
    ∃ us, Took c us c' ∧ Sequence Stmt.Spelled p.statements us ∧
      Stmt.grammaticalBlock p.statements = true ∧ c'.current.kind = .eof := by
  obtain ⟨ss, c₁, hss, h⟩ := bind_eq_ok (bind_get_ok h)
  have h := bind_get_ok h
  rcases ite_ok h with ⟨he, h⟩ | ⟨-, h⟩
  · obtain ⟨rfl, rfl⟩ := pure_ok h
    obtain ⟨bs, us, rfl, htook, hs, hg, hend⟩ :=
      statementsWithin_ok hc hss (List.isEmpty_iff.mp he)
    exact ⟨us, htook, hs, hg, hend⟩
  · exact absurd h throw_ne_ok

theorem sequence_of_program {lang : Lang} {p : Program} {ts : List Token} (hc : Complete ts)
    (h : program lang (.ofTokens ts) = .ok p c') :
    ∃ us last, ts = us ++ [last] ∧ last.kind = .eof ∧ Sequence Stmt.Spelled p.statements us ∧
      Stmt.grammaticalBlock p.statements = true := by
  rw [← Cursor.rest_ofTokens ts] at hc
  obtain ⟨us, htook, hs, hg, hend⟩ := program_ok hc h
  obtain ⟨y, hy, -⟩ := Cursor.rest_eq htook.complete
  have hlast := htook.complete
  rw [hy] at hlast
  obtain rfl := hlast.tail_eq_nil hend
  have hrest := htook.rest
  rw [Cursor.rest_ofTokens, hy] at hrest
  exact ⟨us, c'.current, hrest, hend, hs, hg⟩

end Parse

end Bhasha
