import Bhasha.Proofs.ExprReading

namespace Bhasha

namespace Stmt

/-- May a token of kind `k` stand behind the statement? -/
def mayPrecede (s : Stmt) (k : TokenKind) : Bool :=
  k == .rbrace || k == .eof || !s.isBare && k.startsStatement

variable {s : Stmt} {ss : List Stmt} {k : TokenKind}

theorem mayPrecede_binding (h : s.mayPrecede k = true) : k.binding = 0 := by
  cases k <;> first | rfl | simp [mayPrecede, TokenKind.startsStatement] at h

/-- What carries a statement on starts none. -/
theorem mayPrecede_ne (h : s.mayPrecede k = true) :
    k ≠ .string ∧ k ≠ .elseIf ∧ k ≠ .elseKw ∧ k ≠ .catchKw ∧ k ≠ .finallyKw := by
  refine ⟨?_, ?_, ?_, ?_, ?_⟩ <;> rintro rfl <;> simp [mayPrecede, TokenKind.startsStatement] at h

theorem Spelled.head {ts : List Token} (h : s.Spelled ts) :
    ∃ t us, ts = t :: us ∧ t.kind.startsStatement = true := by
  cases h with
  | function hf => cases hf with
    | mk ht => exact ⟨_, _, rfl, by rw [ht.kind]; rfl⟩
  | call ht | method ht | declare ht | assign ht | setThis ht | setProperty ht | setIndex ht
  | print ht | input ht | inputWith ht | ifElse ht | whileLoop ht | forLoop ht | breakLoop ht
  | continueLoop ht | giveBack ht | giveBackWith ht | classDef ht | attempt ht | attemptWith ht
  | raiseError ht => exact ⟨_, _, rfl, by rw [ht.kind]; rfl⟩

theorem grammatical_of_mem (h : grammaticalBlock ss = true) (hs : s ∈ ss) :
    s.grammatical = true := by
  induction ss with
  | nil => simp at hs
  | cons a ss ih =>
    simp only [grammaticalBlock, Bool.and_eq_true] at h
    rcases List.mem_cons.mp hs with rfl | hs
    · exact h.1.1
    · exact ih h.2 hs

theorem isChain_of_grammaticalBlock (h : grammaticalBlock ss = true) :
    ss.IsChain fun a _ => ∀ k : TokenKind, k.startsStatement = true → a.mayPrecede k = true := by
  induction ss with
  | nil => exact .nil
  | cons a ss ih =>
    simp only [grammaticalBlock, Bool.and_eq_true] at h
    cases ss with
    | nil => exact .singleton a
    | cons b ss =>
      have hbare : a.isBare = false := by simpa using h.1.2
      refine .cons_cons (fun k hk => ?_) (ih h.2)
      simp [mayPrecede, hbare, hk]

end Stmt

theorem Branch.grammatical_of_mem {b : Branch} {bs : List Branch}
    (h : grammaticalAll bs = true) (hb : b ∈ bs) : b.grammatical = true := by
  induction bs with
  | nil => simp at hb
  | cons c bs ih =>
    simp only [grammaticalAll, Bool.and_eq_true] at h
    rcases List.mem_cons.mp hb with rfl | hb
    · exact h.1
    · exact ih h.2 hb

theorem FunctionDef.grammatical_of_mem {f : FunctionDef} {fs : List FunctionDef}
    (h : grammaticalAll fs = true) (hf : f ∈ fs) : f.grammatical = true := by
  induction fs with
  | nil => simp at hf
  | cons g fs ih =>
    simp only [grammaticalAll, Bool.and_eq_true] at h
    rcases List.mem_cons.mp hf with rfl | hf
    · exact h.1
    · exact ih h.2 hf

namespace Parse

/-- Does `stmt` read each grammatical statement from each of its spellings of at most `m` tokens,
before what may stand behind it? -/
def ReadsStmt (m : Nat) (stmt : Parse Stmt) : Prop :=
  ∀ s ts, s.Spelled ts → s.grammatical = true → ts.length ≤ m →
    ∀ (t : Token) (z : List Token), s.mayPrecede t.kind = true →
      Reads stmt (ts ++ t :: z) s (t :: z)

variable {stmt : Parse Stmt} {s : Stmt} {ss : List Stmt} {e : Expr} {es : List Expr}
  {ts us z : List Token} {t : Token} {k : TokenKind} {m n : Nat}

theorem reads_arguments (h : Enclosed Expr.Spelled es ts) (hg : Expr.grammaticalAll es = true) :
    Reads (enclosed expression) (ts ++ z) es z := by
  refine reads_enclosed h ⟨fun e _ us hu => ?_, fun e he us _ hu t z ht => ?_⟩
  · obtain ⟨t, us', rfl, ht⟩ := hu.head
    exact ⟨t, us', rfl, fun h => by simp [h, TokenKind.startsExpr] at ht⟩
  · refine reads_expression hu (Expr.grammaticalAll_iff.mp hg e he) ?_
    rcases ht with ht | ht <;> rw [ht] <;> rfl

theorem ReadsStmt.braced {brace : Token} (hS : ReadsStmt m stmt) (hbrace : brace.Is .lbrace)
    (h : Block Stmt.Spelled ss ts) (hg : Stmt.grammaticalBlock ss = true) (hm : ts.length ≤ m) :
    Reads (braced stmt) (brace :: (ts ++ z)) ss z := by
  have hr : ReadableBlock stmt Stmt.Spelled (fun k => k.startsStatement = true)
      (fun s k => s.mayPrecede k = true) ss ts.length :=
    { head := fun s _ us hu => hu.head
      brace := by simp [TokenKind.startsStatement]
      last := fun s _ => by simp [Stmt.mayPrecede]
      chain := Stmt.isChain_of_grammaticalBlock hg
      reads := fun s hs us hu h t z ht =>
        hS s us h (Stmt.grammatical_of_mem hg hs) (by omega) t z ht }
  exact reads_braced hbrace h hr

theorem ReadsStmt.optionalBlock {otherwise : Option (List Stmt)} (hS : ReadsStmt m stmt)
    (h : OptionallyBraced Stmt.Spelled k otherwise ts)
    (hg : Stmt.grammaticalOption otherwise = true) (hm : ts.length ≤ m) (ht : t.kind ≠ k)
    (hk : k ≠ .eof) : Reads (optionalBlock k stmt) (ts ++ t :: z) otherwise (t :: z) := by
  cases h with
  | none => exact (Leads.bind reads_sees).trans (Leads.ite_false (by simp [ht]))
  | @some ss us word brace hword hbrace hs =>
    simp only [List.length_cons] at hm
    refine (Leads.bind reads_sees).trans ((Leads.ite_true (by simp [hword.kind])).trans ?_)
    refine (Leads.bind (reads_advance (by rwa [hword.kind]))).trans ?_
    exact (Leads.bind (hS.braced hbrace hs hg (by omega))).trans (.refl _ _)

theorem ReadsStmt.branches {bs : List Branch} (hS : ReadsStmt m stmt)
    (h : Sequence Branch.Spelled bs ts) (hg : Branch.grammaticalAll bs = true)
    (hm : ts.length ≤ m) (ht : t.kind ≠ .elseIf) (n : Nat) (found : List Branch)
    (hn : ts.length < n) :
    Reads (branches stmt n found) (ts ++ t :: z) (found.reverse ++ bs) (t :: z) := by
  induction h generalizing n found with
  | nil =>
    obtain ⟨n, rfl⟩ : ∃ n', n = n' + 1 := ⟨n - 1, by omega⟩
    rw [List.append_nil]
    exact (Leads.bind reads_sees).trans (Leads.ite_false (by simp [ht]))
  | @cons b bs us vs hb hvs ih =>
    simp only [Branch.grammaticalAll, Bool.and_eq_true] at hg
    rw [List.length_append] at hm hn
    obtain ⟨n, rfl⟩ : ∃ n', n = n' + 1 := ⟨n - 1, by omega⟩
    have hvs := ih hg.2 (by omega) n (b :: found)
    cases hb with
    | @mk e body cs ds word brace hword he hbrace hs =>
      simp only [Branch.grammatical, Bool.and_eq_true] at hg
      simp only [List.cons_append, List.length_cons, List.length_append] at hm hn
      simp only [List.cons_append, List.append_assoc]
      refine (Leads.bind reads_sees).trans ((Leads.ite_true (by simp [hword.kind])).trans ?_)
      refine (Leads.bind (reads_advance (by rw [hword.kind]; decide))).trans ?_
      refine (Leads.bind (reads_expression he hg.1.1 (by rw [hbrace.kind]; rfl))).trans ?_
      refine (Leads.bind (hS.braced hbrace hs hg.1.2 (by omega))).trans ?_
      rw [List.reverse_cons, List.append_assoc] at hvs
      exact hvs (by omega)

theorem ReadsStmt.functionDef {f : FunctionDef} (hS : ReadsStmt m stmt) (h : f.Spelled ts)
    (hg : f.grammatical = true) (hm : ts.length ≤ m + 1) :
    Reads (functionDef stmt) (ts ++ z) f z := by
  cases h with
  | @mk x xs body us vs word name opening brace hword hname hopening hxs hbrace hs =>
    simp only [List.cons_append, List.length_cons, List.length_append] at hm
    simp only [List.cons_append, List.append_assoc]
    refine (Leads.bind reads_line).trans ?_
    refine (Leads.bind (reads_expect hword.kind (by decide))).trans ?_
    refine (Leads.bind (reads_nameOr hname)).trans ?_
    refine (Leads.bind (reads_expect hopening.kind (by decide))).trans ?_
    refine (Leads.bind (reads_enclosed hxs (readable_name (by decide)))).trans ?_
    exact (Leads.bind (hS.braced hbrace hs hg (by omega))).trans (.refl _ _)

theorem ReadsStmt.methods {brace : Token} {fs : List FunctionDef} (hS : ReadsStmt m stmt)
    (hbrace : brace.Is .lbrace) (h : Block FunctionDef.Spelled fs ts)
    (hg : FunctionDef.grammaticalAll fs = true) (hm : ts.length ≤ m) :
    Reads (Parse.braced (methodDef stmt)) (brace :: (ts ++ z)) fs z := by
  have hhead : ∀ (f : FunctionDef) us, f.Spelled us → ∃ t us', us = t :: us' ∧ t.kind = .function :=
    fun f us hu => by
      cases hu with
      | mk ht => exact ⟨_, _, rfl, ht.kind⟩
  have hr : ReadableBlock (methodDef stmt) FunctionDef.Spelled (fun k => k = .function)
      (fun _ _ => True) fs ts.length :=
    { head := fun f _ us hu => hhead f us hu
      brace := nofun
      last := fun _ _ => trivial
      chain := (List.isChain_isInfix fs).imp fun _ _ _ _ _ => trivial
      reads := fun f hf us hu h t z _ => by
        have hgf := FunctionDef.grammatical_of_mem hg hf
        have hdef := hS.functionDef (z := t :: z) h hgf (by omega)
        obtain ⟨u, us', rfl, hfun⟩ := hhead f us h
        exact (Leads.bind reads_sees).trans ((Leads.ite_true (by simp [hfun])).trans hdef) }
  exact reads_braced hbrace h hr

theorem reads_declaration {x : String} {word name equals : Token} (hword : word.Is .letVar)
    (hname : name.Names x) (hequals : equals.Is .assign) (he : e.Spelled ts)
    (hg : e.grammatical = true) (hb : t.kind.binding = 0) :
    Reads declaration (word :: name :: equals :: (ts ++ t :: z)) (.assign x e word.line)
      (t :: z) := by
  refine (Leads.bind reads_line).trans ((Leads.bind (reads_expect hword.kind (by decide))).trans ?_)
  refine (Leads.bind (reads_nameOr hname)).trans ?_
  refine (Leads.bind (reads_expect hequals.kind (by decide))).trans ?_
  exact (Leads.bind (reads_expression he hg hb)).trans (.refl _ _)

theorem reads_print {word opening : Token} (hword : word.Is .print) (hopening : opening.Is .lparen)
    (hs : Enclosed Expr.Spelled es ts) (hg : Expr.grammaticalAll es = true) :
    Reads print (word :: opening :: (ts ++ z)) (.print es word.line) z := by
  refine (Leads.bind reads_line).trans ((Leads.bind (reads_expect hword.kind (by decide))).trans ?_)
  refine (Leads.bind (reads_expect hopening.kind (by decide))).trans ?_
  exact (Leads.bind (reads_arguments hs hg)).trans (.refl _ _)

theorem reads_input {x : String} {word name : Token} (hword : word.Is .input)
    (hname : name.Names x) (ht : t.kind ≠ .string) :
    Reads input (word :: name :: t :: z) (.input x none word.line) (t :: z) := by
  refine (Leads.bind reads_line).trans ((Leads.bind (reads_expect hword.kind (by decide))).trans ?_)
  refine (Leads.bind (reads_nameOr hname)).trans ((Leads.bind reads_current).trans ?_)
  exact (Leads.ite_false (by simp [ht])).trans (.refl _ _)

theorem reads_input_prompt {x : String} {word name prompt : Token} (hword : word.Is .input)
    (hname : name.Names x) (hprompt : prompt.kind = .string) :
    Reads input (word :: name :: prompt :: z)
      (.input x (some (.literal .string prompt.value prompt.line)) word.line) z := by
  refine (Leads.bind reads_line).trans ((Leads.bind (reads_expect hword.kind (by decide))).trans ?_)
  refine (Leads.bind (reads_nameOr hname)).trans ((Leads.bind reads_current).trans ?_)
  refine (Leads.ite_true (by simp [hprompt])).trans ?_
  exact (Leads.bind (reads_advance (by rw [hprompt]; decide))).trans (.refl _ _)

theorem reads_giveBack {word : Token} (hword : word.Is .returnKw)
    (ht : t.kind = .rbrace ∨ t.kind = .eof) :
    Reads giveBack (word :: t :: z) (.giveBack none word.line) (t :: z) := by
  refine (Leads.bind reads_line).trans ((Leads.bind (reads_expect hword.kind (by decide))).trans ?_)
  refine (Leads.bind reads_seesAny).trans (Leads.ite_true ?_)
  rcases ht with ht | ht <;> rw [ht] <;> rfl

theorem reads_giveBack_value {word : Token} (hword : word.Is .returnKw) (he : e.Spelled ts)
    (hg : e.grammatical = true) (hb : t.kind.binding = 0) :
    Reads giveBack (word :: (ts ++ t :: z)) (.giveBack (some e) word.line) (t :: z) := by
  have hread := reads_expression (z := z) he hg hb
  obtain ⟨u, us, rfl, hu⟩ := he.head
  refine (Leads.bind reads_line).trans ((Leads.bind (reads_expect hword.kind (by decide))).trans ?_)
  refine (Leads.bind reads_seesAny).trans ((Leads.ite_false ?_).trans ?_)
  · cases hk : u.kind <;> first | rfl | simp [hk, TokenKind.startsExpr] at hu
  · exact (Leads.bind hread).trans (.refl _ _)

theorem reads_raiseError {word : Token} (hword : word.Is .throwKw) (he : e.Spelled ts)
    (hg : e.grammatical = true) (hb : t.kind.binding = 0) :
    Reads raiseError (word :: (ts ++ t :: z)) (.raiseError e word.line) (t :: z) := by
  refine (Leads.bind reads_line).trans ((Leads.bind (reads_expect hword.kind (by decide))).trans ?_)
  exact (Leads.bind (reads_expression he hg hb)).trans (.refl _ _)

theorem reads_thisAssignment {x : String} {word dot name equals : Token} (hword : word.Is .this)
    (hdot : dot.Is .dot) (hname : name.Names x) (hequals : equals.Is .assign) (he : e.Spelled ts)
    (hg : e.grammatical = true) (hb : t.kind.binding = 0) :
    Reads thisAssignment (word :: dot :: name :: equals :: (ts ++ t :: z))
      (.setProperty (.thisObject word.line) x e word.line) (t :: z) := by
  refine (Leads.bind reads_line).trans ?_
  refine (Leads.bind (reads_advance (by rw [hword.kind]; decide))).trans ?_
  refine (Leads.bind reads_sees).trans ((Leads.ite_true (by simp [hdot.kind])).trans ?_)
  refine (Leads.bind (reads_advance (by rw [hdot.kind]; decide))).trans ?_
  refine (Leads.bind (reads_nameOr hname)).trans ?_
  refine (Leads.bind (reads_expect hequals.kind (by decide))).trans ?_
  exact (Leads.bind (reads_expression he hg hb)).trans (.refl _ _)

section named

variable {x y : String} {name dot member opening close equals : Token}

theorem reads_named_call (hname : name.Names x) (hopening : opening.Is .lparen)
    (hs : Enclosed Expr.Spelled es ts) (hg : Expr.grammaticalAll es = true) :
    Reads named (name :: opening :: (ts ++ z)) (.expr (.call x es name.line)) z := by
  refine (Leads.bind reads_line).trans ((Leads.bind (reads_nameOr hname)).trans ?_)
  refine (Leads.bind reads_current).trans ?_
  rw [hopening.kind]
  refine (Leads.bind (reads_advance (by rw [hopening.kind]; decide))).trans ?_
  exact (Leads.bind (reads_arguments hs hg)).trans (.refl _ _)

theorem reads_named_assign (hname : name.Names x) (hequals : equals.Is .assign)
    (he : e.Spelled ts) (hg : e.grammatical = true) (hb : t.kind.binding = 0) :
    Reads named (name :: equals :: (ts ++ t :: z)) (.assign x e name.line) (t :: z) := by
  refine (Leads.bind reads_line).trans ((Leads.bind (reads_nameOr hname)).trans ?_)
  refine (Leads.bind reads_current).trans ?_
  rw [hequals.kind]
  refine (Leads.bind (reads_advance (by rw [hequals.kind]; decide))).trans ?_
  exact (Leads.bind (reads_expression he hg hb)).trans (.refl _ _)

theorem reads_named_method (hname : name.Names x) (hdot : dot.Is .dot) (hmember : member.Names y)
    (hopening : opening.Is .lparen) (hs : Enclosed Expr.Spelled es ts)
    (hg : Expr.grammaticalAll es = true) :
    Reads named (name :: dot :: member :: opening :: (ts ++ z))
      (.expr (.method (.var x name.line) y es name.line)) z := by
  refine (Leads.bind reads_line).trans ((Leads.bind (reads_nameOr hname)).trans ?_)
  refine (Leads.bind reads_current).trans ?_
  rw [hdot.kind]
  refine (Leads.bind (reads_advance (by rw [hdot.kind]; decide))).trans ?_
  refine (Leads.bind (reads_nameOr hmember)).trans ((Leads.bind reads_sees).trans ?_)
  refine (Leads.ite_true (by simp [hopening.kind])).trans ?_
  refine (Leads.bind (reads_advance (by rw [hopening.kind]; decide))).trans ?_
  exact (Leads.bind (reads_arguments hs hg)).trans (.refl _ _)

theorem reads_named_setProperty (hname : name.Names x) (hdot : dot.Is .dot)
    (hmember : member.Names y) (hequals : equals.Is .assign) (he : e.Spelled ts)
    (hg : e.grammatical = true) (hb : t.kind.binding = 0) :
    Reads named (name :: dot :: member :: equals :: (ts ++ t :: z))
      (.setProperty (.var x name.line) y e name.line) (t :: z) := by
  refine (Leads.bind reads_line).trans ((Leads.bind (reads_nameOr hname)).trans ?_)
  refine (Leads.bind reads_current).trans ?_
  rw [hdot.kind]
  refine (Leads.bind (reads_advance (by rw [hdot.kind]; decide))).trans ?_
  refine (Leads.bind (reads_nameOr hmember)).trans ((Leads.bind reads_sees).trans ?_)
  refine (Leads.ite_false (by simp [hequals.kind])).trans ?_
  refine (Leads.bind (reads_expect hequals.kind (by decide))).trans ?_
  exact (Leads.bind (reads_expression he hg hb)).trans (.refl _ _)

theorem reads_named_setIndex {i : Expr} (hname : name.Names x) (hopening : opening.Is .lbracket)
    (hi : i.Spelled ts) (hclose : close.Is .rbracket) (hequals : equals.Is .assign)
    (he : e.Spelled us) (hgi : i.grammatical = true) (hg : e.grammatical = true)
    (hb : t.kind.binding = 0) :
    Reads named (name :: opening :: (ts ++ close :: equals :: (us ++ t :: z)))
      (.setIndex (.var x name.line) i e name.line) (t :: z) := by
  refine (Leads.bind reads_line).trans ((Leads.bind (reads_nameOr hname)).trans ?_)
  refine (Leads.bind reads_current).trans ?_
  rw [hopening.kind]
  refine (Leads.bind (reads_advance (by rw [hopening.kind]; decide))).trans ?_
  refine (Leads.bind (reads_expression hi hgi (by rw [hclose.kind]; rfl))).trans ?_
  refine (Leads.bind (reads_expect hclose.kind (by decide))).trans ?_
  refine (Leads.bind (reads_expect hequals.kind (by decide))).trans ?_
  exact (Leads.bind (reads_expression he hg hb)).trans (.refl _ _)

end named

section

variable {body : List Stmt} {word brace : Token}

theorem ReadsStmt.conditional {bs : List Branch} {otherwise : Option (List Stmt)}
    {vs ws : List Token} (hS : ReadsStmt m stmt) (hword : word.Is .ifKw) (he : e.Spelled ts)
    (hbrace : brace.Is .lbrace) (hs : Block Stmt.Spelled body us)
    (hbs : Sequence Branch.Spelled bs vs)
    (ho : OptionallyBraced Stmt.Spelled .elseKw otherwise ws)
    (hg : (Stmt.ifElse e body bs otherwise word.line).grammatical = true)
    (hm : us.length + vs.length + ws.length ≤ m) (hi : t.kind ≠ .elseIf) (he' : t.kind ≠ .elseKw) :
    Reads (conditional stmt) (word :: (ts ++ brace :: (us ++ (vs ++ (ws ++ t :: z)))))
      (.ifElse e body bs otherwise word.line) (t :: z) := by
  simp only [Stmt.grammatical, Bool.and_eq_true] at hg
  refine (Leads.bind reads_line).trans ((Leads.bind (reads_expect hword.kind (by decide))).trans ?_)
  refine (Leads.bind (reads_expression he hg.1.1.1 (by rw [hbrace.kind]; rfl))).trans ?_
  refine (Leads.bind (hS.braced hbrace hs hg.1.1.2 (by omega))).trans ?_
  refine (Leads.cursor fun c hc => by rw [hc]).trans ?_
  have hnext : ∃ u us, ws ++ t :: z = u :: us ∧ u.kind ≠ .elseIf := by
    cases ho with
    | none => exact ⟨t, z, rfl, hi⟩
    | some hw => exact ⟨_, _, rfl, by rw [hw.kind]; decide⟩
  have hn : vs.length < (vs ++ (ws ++ t :: z)).length + 1 := by rw [List.length_append]; omega
  obtain ⟨u, us', hu, huk⟩ := hnext
  have hbranches := hS.branches (z := us') hbs hg.1.2 (by omega) huk _ [] hn
  rw [hu] at hbranches ⊢
  refine (Leads.bind hbranches).trans ?_
  rw [← hu]
  exact (Leads.bind (hS.optionalBlock ho hg.2 (by omega) he' (by decide))).trans (.refl _ _)

theorem ReadsStmt.whileLoop (hS : ReadsStmt m stmt) (hword : word.Is .whileKw) (he : e.Spelled ts)
    (hbrace : brace.Is .lbrace) (hs : Block Stmt.Spelled body us) (hge : e.grammatical = true)
    (hg : Stmt.grammaticalBlock body = true) (hm : us.length ≤ m) :
    Reads (whileLoop stmt) (word :: (ts ++ brace :: (us ++ z))) (.whileLoop e body word.line)
      z := by
  refine (Leads.bind reads_line).trans ((Leads.bind (reads_expect hword.kind (by decide))).trans ?_)
  refine (Leads.bind (reads_expression he hge (by rw [hbrace.kind]; rfl))).trans ?_
  exact (Leads.bind (hS.braced hbrace hs hg hm)).trans (.refl _ _)

theorem ReadsStmt.forLoop {x : String} {name inWord : Token} (hS : ReadsStmt m stmt)
    (hword : word.Is .forKw) (hname : name.Names x) (hin : inWord.Is .inKw) (he : e.Spelled ts)
    (hbrace : brace.Is .lbrace) (hs : Block Stmt.Spelled body us) (hge : e.grammatical = true)
    (hg : Stmt.grammaticalBlock body = true) (hm : us.length ≤ m) :
    Reads (forLoop stmt) (word :: name :: inWord :: (ts ++ brace :: (us ++ z)))
      (.forLoop x e body word.line) z := by
  refine (Leads.bind reads_line).trans ((Leads.bind (reads_expect hword.kind (by decide))).trans ?_)
  refine (Leads.bind (reads_nameOr hname)).trans ?_
  refine (Leads.bind (reads_expect hin.kind (by decide))).trans ?_
  refine (Leads.bind (reads_expression he hge (by rw [hbrace.kind]; rfl))).trans ?_
  exact (Leads.bind (hS.braced hbrace hs hg hm)).trans (.refl _ _)

theorem ReadsStmt.classDef {x : String} {parent : Option String} {fs : List FunctionDef}
    {name : Token} (hS : ReadsStmt m stmt) (hword : word.Is .classKw) (hname : name.Names x)
    (hp : ParentSpelled parent ts) (hbrace : brace.Is .lbrace)
    (hs : Block FunctionDef.Spelled fs us) (hg : FunctionDef.grammaticalAll fs = true)
    (hm : us.length ≤ m) :
    Reads (classDef stmt) (word :: name :: (ts ++ brace :: (us ++ z)))
      (.classDef x parent fs word.line) z := by
  refine (Leads.bind reads_line).trans ((Leads.bind (reads_expect hword.kind (by decide))).trans ?_)
  refine (Leads.bind (reads_nameOr hname)).trans ?_
  have hbody := hS.methods (z := z) hbrace hs hg hm
  cases hp with
  | none =>
    refine (Leads.bind reads_sees).trans ((Leads.ite_false (by simp [hbrace.kind])).trans ?_)
    exact (Leads.bind (.refl _ _)).trans ((Leads.bind hbody).trans (.refl _ _))
  | @some y word name hword hname =>
    refine (Leads.bind reads_sees).trans ((Leads.ite_true (by simp [hword.kind])).trans ?_)
    refine (Leads.bind (reads_advance (by rw [hword.kind]; decide))).trans ?_
    exact (Leads.bind (Leads.map (reads_nameOr hname))).trans ((Leads.bind hbody).trans (.refl _ _))

theorem ReadsStmt.attempt {finalizer : Option (List Stmt)} (hS : ReadsStmt m stmt)
    (hword : word.Is .tryKw) (hbrace : brace.Is .lbrace) (hs : Block Stmt.Spelled body ts)
    (hf : OptionallyBraced Stmt.Spelled .finallyKw finalizer us)
    (hg : Stmt.grammaticalBlock body = true) (hgf : Stmt.grammaticalOption finalizer = true)
    (hm : ts.length + us.length ≤ m) (hc : t.kind ≠ .catchKw) (ht : t.kind ≠ .finallyKw) :
    Reads (attempt stmt) (word :: brace :: (ts ++ (us ++ t :: z)))
      (.attempt body none none finalizer word.line) (t :: z) := by
  refine (Leads.bind reads_line).trans ((Leads.bind (reads_expect hword.kind (by decide))).trans ?_)
  refine (Leads.bind (hS.braced hbrace hs hg (by omega))).trans ?_
  have hlast := hS.optionalBlock (z := z) hf hgf (by omega) ht (by decide)
  have hnext : ∃ u us', us ++ t :: z = u :: us' ∧ u.kind ≠ .catchKw := by
    cases hf with
    | none => exact ⟨t, z, rfl, hc⟩
    | some hw => exact ⟨_, _, rfl, by rw [hw.kind]; decide⟩
  obtain ⟨u, us', hu, huk⟩ := hnext
  rw [hu] at hlast ⊢
  refine (Leads.bind reads_sees).trans ((Leads.ite_false (by simp [huk])).trans ?_)
  exact (Leads.bind (.refl _ _)).trans ((Leads.bind hlast).trans (.refl _ _))

theorem ReadsStmt.attempt_catch {x? : Option String} {handler : List Stmt}
    {finalizer : Option (List Stmt)} {vs ws : List Token} {catchWord brace' : Token}
    (hS : ReadsStmt m stmt) (hword : word.Is .tryKw) (hbrace : brace.Is .lbrace)
    (hs : Block Stmt.Spelled body ts) (hcatch : catchWord.Is .catchKw) (hx : CaughtSpelled x? us)
    (hbrace' : brace'.Is .lbrace) (hh : Block Stmt.Spelled handler vs)
    (hf : OptionallyBraced Stmt.Spelled .finallyKw finalizer ws)
    (hg : Stmt.grammaticalBlock body = true) (hgh : Stmt.grammaticalBlock handler = true)
    (hgf : Stmt.grammaticalOption finalizer = true)
    (hm : ts.length + vs.length + ws.length ≤ m) (ht : t.kind ≠ .finallyKw) :
    Reads (Parse.attempt stmt)
      (word :: brace :: (ts ++ catchWord :: (us ++ brace' :: (vs ++ (ws ++ t :: z)))))
      (.attempt body x? (some handler) finalizer word.line) (t :: z) := by
  refine (Leads.bind reads_line).trans ((Leads.bind (reads_expect hword.kind (by decide))).trans ?_)
  refine (Leads.bind (hS.braced hbrace hs hg (by omega))).trans ?_
  refine (Leads.bind reads_sees).trans ((Leads.ite_true (by simp [hcatch.kind])).trans ?_)
  refine (Leads.bind (reads_advance (by rw [hcatch.kind]; decide))).trans ?_
  have hhandler := hS.braced (z := ws ++ t :: z) hbrace' hh hgh (by omega)
  have hlast := hS.optionalBlock (z := z) hf hgf (by omega) ht (by decide)
  cases hx with
  | none =>
    refine (Leads.bind reads_sees).trans ((Leads.ite_false (by simp [hbrace'.kind])).trans ?_)
    refine (Leads.bind (.refl _ _)).trans ((Leads.bind hhandler).trans ?_)
    exact (Leads.bind (.refl _ _)).trans ((Leads.bind hlast).trans (.refl _ _))
  | @some x name hname =>
    refine (Leads.bind reads_sees).trans ((Leads.ite_true (by simp [hname.kind])).trans ?_)
    refine (Leads.bind (Leads.map (reads_nameOr hname))).trans ((Leads.bind hhandler).trans ?_)
    exact (Leads.bind (.refl _ _)).trans ((Leads.bind hlast).trans (.refl _ _))

end

theorem leads_assignmentOrExpression_named (ht : t.kind = .identifier) :
    Leads assignmentOrExpression (t :: z) named (t :: z) := by
  refine (Leads.bind reads_sees).trans ((Leads.ite_false (by simp [ht])).trans ?_)
  exact (Leads.bind reads_sees).trans (Leads.ite_true (by simp [ht]))

theorem ReadsStmt.statementWith (hS : ReadsStmt m stmt) :
    ReadsStmt (m + 1) (statementWith stmt) := by
  intro s ts h hg hm t z ht
  have hb := Stmt.mayPrecede_binding ht
  obtain ⟨hstring, helseIf, helse, hcatch, hfinally⟩ := Stmt.mayPrecede_ne ht
  unfold Parse.statementWith
  cases h with
  | call hname hopening hs =>
    refine (Leads.bind reads_current).trans ?_
    rw [hname.kind]
    refine (leads_assignmentOrExpression_named hname.kind).trans ?_
    exact reads_named_call hname hopening hs hg
  | method hname hdot hmember hopening hs =>
    refine (Leads.bind reads_current).trans ?_
    rw [hname.kind]
    refine (leads_assignmentOrExpression_named hname.kind).trans ?_
    exact reads_named_method hname hdot hmember hopening hs hg
  | declare hword hname hequals he =>
    refine (Leads.bind reads_current).trans ?_
    rw [hword.kind]
    exact reads_declaration hword hname hequals he hg hb
  | assign hname hequals he =>
    refine (Leads.bind reads_current).trans ?_
    rw [hname.kind]
    refine (leads_assignmentOrExpression_named hname.kind).trans ?_
    exact reads_named_assign hname hequals he hg hb
  | setThis hword hdot hname hequals he =>
    refine (Leads.bind reads_current).trans ?_
    rw [hword.kind]
    refine (Leads.bind reads_sees).trans ((Leads.ite_true (by simp [hword.kind])).trans ?_)
    exact reads_thisAssignment hword hdot hname hequals he hg hb
  | setProperty hname hdot hmember hequals he =>
    refine (Leads.bind reads_current).trans ?_
    rw [hname.kind]
    refine (leads_assignmentOrExpression_named hname.kind).trans ?_
    exact reads_named_setProperty hname hdot hmember hequals he hg hb
  | setIndex hname hopening hi hclose hequals he =>
    simp only [Stmt.grammatical, Bool.and_eq_true] at hg
    refine (Leads.bind reads_current).trans ?_
    rw [hname.kind]
    refine (leads_assignmentOrExpression_named hname.kind).trans ?_
    have hread := reads_named_setIndex (z := z) hname hopening hi hclose hequals he hg.1 hg.2 hb
    simpa using hread
  | print hword hopening hs =>
    refine (Leads.bind reads_current).trans ?_
    rw [hword.kind]
    exact reads_print hword hopening hs hg
  | input hword hname =>
    refine (Leads.bind reads_current).trans ?_
    rw [hword.kind]
    exact reads_input hword hname hstring
  | inputWith hword hname hprompt =>
    refine (Leads.bind reads_current).trans ?_
    rw [hword.kind]
    exact reads_input_prompt hword hname hprompt
  | ifElse hword he hbrace hs hbs ho =>
    simp only [List.cons_append, List.length_cons, List.length_append] at hm
    refine (Leads.bind reads_current).trans ?_
    rw [hword.kind]
    have hread := hS.conditional (z := z) hword he hbrace hs hbs ho hg (by omega) helseIf helse
    simpa using hread
  | whileLoop hword he hbrace hs =>
    simp only [Stmt.grammatical, Bool.and_eq_true] at hg
    simp only [List.cons_append, List.length_cons, List.length_append] at hm
    refine (Leads.bind reads_current).trans ?_
    rw [hword.kind]
    have hread := hS.whileLoop (z := t :: z) hword he hbrace hs hg.1 hg.2 (by omega)
    simpa using hread
  | forLoop hword hname hin he hbrace hs =>
    simp only [Stmt.grammatical, Bool.and_eq_true] at hg
    simp only [List.cons_append, List.length_cons, List.length_append] at hm
    refine (Leads.bind reads_current).trans ?_
    rw [hword.kind]
    have hread := hS.forLoop (z := t :: z) hword hname hin he hbrace hs hg.1 hg.2 (by omega)
    simpa using hread
  | breakLoop hword =>
    refine (Leads.bind reads_current).trans ?_
    rw [hword.kind]
    exact (Leads.bind (reads_advance (by rw [hword.kind]; decide))).trans (.refl _ _)
  | continueLoop hword =>
    refine (Leads.bind reads_current).trans ?_
    rw [hword.kind]
    exact (Leads.bind (reads_advance (by rw [hword.kind]; decide))).trans (.refl _ _)
  | function hf =>
    have hread := hS.functionDef (z := t :: z) hf hg hm
    cases hf with
    | mk hword =>
      refine (Leads.bind reads_current).trans ?_
      rw [hword.kind]
      exact Leads.map hread
  | giveBack hword =>
    refine (Leads.bind reads_current).trans ?_
    rw [hword.kind]
    exact reads_giveBack hword (by simpa [Stmt.mayPrecede, Stmt.isBare] using ht)
  | giveBackWith hword he =>
    refine (Leads.bind reads_current).trans ?_
    rw [hword.kind]
    exact reads_giveBack_value hword he hg hb
  | classDef hword hname hp hbrace hs =>
    simp only [List.cons_append, List.length_cons, List.length_append] at hm
    refine (Leads.bind reads_current).trans ?_
    rw [hword.kind]
    have hread := hS.classDef (z := t :: z) hword hname hp hbrace hs hg (by omega)
    simpa using hread
  | attempt hword hbrace hs hf =>
    simp only [Stmt.grammatical, Bool.and_eq_true] at hg
    simp only [List.cons_append, List.length_cons, List.length_append] at hm
    refine (Leads.bind reads_current).trans ?_
    rw [hword.kind]
    have hread := hS.attempt (z := z) hword hbrace hs hf hg.1.1.1 hg.2 (by omega) hcatch hfinally
    simpa using hread
  | attemptWith hword hbrace hs hcatch hx hbrace' hh hf =>
    simp only [Stmt.grammatical, Bool.and_eq_true] at hg
    simp only [List.cons_append, List.length_cons, List.length_append] at hm
    refine (Leads.bind reads_current).trans ?_
    rw [hword.kind]
    have hread := hS.attempt_catch (z := z) hword hbrace hs hcatch hx hbrace' hh hf hg.1.1.1 hg.1.2
      hg.2 (by omega) hfinally
    simpa using hread
  | raiseError hword he =>
    refine (Leads.bind reads_current).trans ?_
    rw [hword.kind]
    exact reads_raiseError hword he hg hb

/-- Statements of at most `n` tokens are nested less than `n` deep. -/
theorem readsStmt_statementWithin (n : Nat) : ReadsStmt n (statementWithin n) := by
  induction n with
  | zero =>
    intro s ts h _ hm
    obtain ⟨t, us, rfl, -⟩ := h.head
    simp at hm
  | succ n ih => exact ih.statementWith

theorem reads_statement (h : s.Spelled ts) (hg : s.grammatical = true)
    (ht : s.mayPrecede t.kind = true) : Reads statement (ts ++ t :: z) s (t :: z) := by
  refine (Leads.cursor fun c hc => by rw [hc]).trans ?_
  refine readsStmt_statementWithin _ s ts h hg ?_ t z ht
  rw [List.length_append]
  omega

theorem reads_statementsWithin (h : Sequence Stmt.Spelled ss ts)
    (hg : Stmt.grammaticalBlock ss = true) (ht : t.kind = .eof) (n : Nat) (found : List Stmt)
    (hn : ts.length < n) :
    Reads (statementsWithin n found) (ts ++ t :: z) (found.reverse ++ ss) (t :: z) := by
  induction h generalizing n found with
  | nil =>
    obtain ⟨n, rfl⟩ : ∃ n', n = n' + 1 := ⟨n - 1, by omega⟩
    rw [List.append_nil]
    refine (Leads.bind reads_atEnd).trans (Leads.ite_true (by simp [ht]))
  | @cons s ss us vs hs hvs ih =>
    have hgs := Stmt.grammatical_of_mem hg List.mem_cons_self
    simp only [Stmt.grammaticalBlock, Bool.and_eq_true] at hg
    rw [List.length_append] at hn
    -- Behind the statement: the next one, which it does not swallow, or the end.
    have hnext : ∃ u ws, vs ++ t :: z = u :: ws ∧ s.mayPrecede u.kind = true := by
      cases hvs with
      | nil => exact ⟨t, z, rfl, by simp [Stmt.mayPrecede, ht]⟩
      | cons hs' =>
        obtain ⟨u, us, rfl, hu⟩ := hs'.head
        have hbare : s.isBare = false := by simpa using hg.1.2
        exact ⟨u, _, rfl, by simp [Stmt.mayPrecede, hbare, hu]⟩
    obtain ⟨u, ws, hw, hu⟩ := hnext
    have hread := reads_statement (z := ws) hs hgs hu
    rw [← hw] at hread
    obtain ⟨v, us', rfl, hv⟩ := hs.head
    have hend : v.kind ≠ .eof := fun h => by simp [h, TokenKind.startsStatement] at hv
    rw [List.length_cons] at hn
    obtain ⟨n, rfl⟩ : ∃ n', n = n' + 1 := ⟨n - 1, by omega⟩
    have hvs := ih hg.2 n (s :: found) (by omega)
    rw [List.reverse_cons, List.append_assoc] at hvs
    rw [List.append_assoc]
    refine (Leads.bind reads_atEnd).trans ((Leads.ite_false (by simp [hend])).trans ?_)
    exact (Leads.bind (Leads.map hread).tryCatch).trans hvs

/-- Each spelling of a grammatical program is read to the end, and read right. -/
theorem program_of_sequence (lang : Lang) (h : Sequence Stmt.Spelled ss ts)
    (hg : Stmt.grammaticalBlock ss = true) (ht : t.kind = .eof) :
    program lang (.ofTokens (ts ++ t :: z)) =
      .ok { statements := ss } ((Cursor.ofTokens (ts ++ t :: z)).skip ts.length) := by
  have hn : ts.length < (Cursor.ofTokens (ts ++ t :: z)).remaining + 2 := by
    rw [Cursor.remaining_eq, Cursor.rest_ofTokens, List.length_append]
    omega
  have hrun := (reads_statementsWithin (z := z) h hg ht _ [] hn).run _ (Cursor.rest_ofTokens _)
  have hlen : (ts ++ t :: z).length - (t :: z).length = ts.length := by
    rw [List.length_append, Nat.add_sub_cancel]
  rw [hlen] at hrun
  rw [program, bind_get, bind_of_ok hrun]
  rfl

end Parse

end Bhasha
