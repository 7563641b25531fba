import Bhasha.Proofs.ExprShape
import Bhasha.Proofs.TreeInduction

namespace Bhasha

/-- A place in a program. -/
structure Spot where
  /-- The place is in a loop, and in no function that is in the loop. -/
  looped : Bool
  /-- A jump may stand here. -/
  jumps : Bool

namespace Spot

def inLoop : Spot := ⟨true, true⟩

/-- Outside of all loops, where a jump has nothing to leave. -/
def outside : Spot := ⟨false, false⟩

/-- Outside of all loops, where jumps are let pass all the same. -/
def lenient : Spot := ⟨false, true⟩

end Spot

/-- Which jumps are let pass. -/
structure JumpRule where
  /-- Where a body of a function is, if the function is here. -/
  body : Spot → Spot
  /-- Files may be imported. -/
  imports : Bool

namespace JumpRule

/-- A jump leaves a loop of its own function. -/
def strict : JumpRule := ⟨fun _ => .outside, false⟩

/-- A jump leaves any loop around it. -/
def lexical : JumpRule := ⟨id, true⟩

/-- As `lexical`, without imports. -/
def closed : JumpRule := ⟨id, false⟩

/-- A function in a loop has loops of its own for its jumps. -/
def own : JumpRule := ⟨fun p => ⟨false, p.jumps && !p.looped⟩, true⟩

end JumpRule

mutual

/-- The rule lets every jump of the statement pass, if the statement is at `p`. -/
def Stmt.contained (r : JumpRule) (p : Spot) : Stmt → Bool
  | .ifElse _ body bs otherwise _ =>
    Stmt.containedAll r p body && (Branch.containedAll r p bs && Stmt.containedOption r p otherwise)
  | .whileLoop _ body _ => Stmt.containedAll r .inLoop body
  | .forLoop _ _ body _ => Stmt.containedAll r .inLoop body
  | .breakLoop _ => p.jumps
  | .continueLoop _ => p.jumps
  | .function f => f.contained r p
  | .classDef _ _ fs _ => FunctionDef.containedAll r p fs
  | .attempt body _ handler finalizer _ =>
    Stmt.containedAll r p body &&
      (Stmt.containedOption r p handler && Stmt.containedOption r p finalizer)
  | .importFile _ _ => r.imports
  | _ => true
termination_by structural s => s

def Stmt.containedAll (r : JumpRule) (p : Spot) : List Stmt → Bool
  | [] => true
  | s :: ss => s.contained r p && Stmt.containedAll r p ss
termination_by structural ss => ss

def Stmt.containedOption (r : JumpRule) (p : Spot) : Option (List Stmt) → Bool
  | none => true
  | some ss => Stmt.containedAll r p ss
termination_by structural ss? => ss?

def Branch.containedAll (r : JumpRule) (p : Spot) : List Branch → Bool
  | [] => true
  | .mk _ body :: bs => Stmt.containedAll r p body && Branch.containedAll r p bs
termination_by structural bs => bs

def FunctionDef.contained (r : JumpRule) (p : Spot) : FunctionDef → Bool
  | .mk _ _ body _ => Stmt.containedAll r (r.body p) body
termination_by structural f => f

def FunctionDef.containedAll (r : JumpRule) (p : Spot) : List FunctionDef → Bool
  | [] => true
  | f :: fs => f.contained r p && FunctionDef.containedAll r p fs
termination_by structural fs => fs

end

section

variable {r : JumpRule} {p : Spot}

theorem Stmt.containedAll_iff {ss : List Stmt} :
    Stmt.containedAll r p ss = true ↔ ∀ s ∈ ss, s.contained r p = true := by
  induction ss with
  | nil => simp [Stmt.containedAll]
  | cons s ss ih => simp [Stmt.containedAll, ih]

theorem Stmt.containedOption_iff {ss? : Option (List Stmt)} :
    Stmt.containedOption r p ss? = true ↔ ∀ ss ∈ ss?, ∀ s ∈ ss, s.contained r p = true := by
  cases ss? with
  | none => simp [Stmt.containedOption]
  | some ss => simp [Stmt.containedOption, Stmt.containedAll_iff]

theorem Branch.containedAll_iff {bs : List Branch} :
    Branch.containedAll r p bs = true ↔ ∀ b ∈ bs, ∀ s ∈ b.body, s.contained r p = true := by
  induction bs with
  | nil => simp [Branch.containedAll]
  | cons b bs ih =>
    obtain ⟨e, body⟩ := b
    simp [Branch.containedAll, Branch.body, Stmt.containedAll_iff, ih]

theorem FunctionDef.contained_iff {f : FunctionDef} :
    f.contained r p = true ↔ ∀ s ∈ f.body, s.contained r (r.body p) = true := by
  obtain ⟨x, ps, body, l⟩ := f
  simp [FunctionDef.contained, FunctionDef.body, Stmt.containedAll_iff]

theorem FunctionDef.containedAll_iff {fs : List FunctionDef} :
    FunctionDef.containedAll r p fs = true ↔ ∀ f ∈ fs, f.contained r p = true := by
  induction fs with
  | nil => simp [FunctionDef.containedAll]
  | cons f fs ih => simp [FunctionDef.containedAll, ih]

end

/-- Of one place, `a` is what `lexical` says, `o` what `own` says, and `t` what `strict` says. -/
structure Spot.Meet (a o t : Spot) : Prop where
  jumps : a.jumps = true → o.jumps = true → t.jumps = true
  /-- A loop around the place is around the function too, or jumps are not let pass. -/
  looped : a.jumps = true → o.looped = true ∨ o.jumps = false

namespace Spot.Meet

variable {a o t : Spot}

theorem inLoop : Meet .inLoop .inLoop .inLoop :=
  ⟨fun _ _ => rfl, fun _ => .inl rfl⟩

theorem body (h : Meet a o t) : Meet a (JumpRule.own.body o) .outside := by
  have hjumps (ha : a.jumps = true) : (JumpRule.own.body o).jumps = false := by
    rcases h.looped ha with ho | ho <;> simp [JumpRule.own, ho]
  refine ⟨fun ha ho => ?_, fun ha => .inr (hjumps ha)⟩
  rw [hjumps ha] at ho
  cases ho

end Spot.Meet

/-- What the three other rules let pass, the strict one lets pass too. -/
def Stmt.Tightens (s : Stmt) : Prop :=
  ∀ {a o t q : Spot}, Spot.Meet a o t → s.contained .lexical a = true → s.contained .own o = true →
    s.contained .closed q = true → s.contained .strict t = true

theorem Stmt.tightens (s : Stmt) : s.Tightens := by
  have hblock {ss : List Stmt} {a o t q : Spot} (ih : ∀ s ∈ ss, s.Tightens)
      (hm : Spot.Meet a o t) (ha : ∀ s ∈ ss, s.contained .lexical a = true)
      (ho : ∀ s ∈ ss, s.contained .own o = true) (hq : ∀ s ∈ ss, s.contained .closed q = true) :
      ∀ s ∈ ss, s.contained .strict t = true :=
    fun s hs => ih s hs hm (ha s hs) (ho s hs) (hq s hs)
  induction s using Stmt.induct with
  | ifElse e body bs otherwise l ihbody ihbs ihotherwise =>
    intro a o t q hm ha ho hq
    simp only [Stmt.contained, Bool.and_eq_true, Stmt.containedAll_iff, Branch.containedAll_iff,
      Stmt.containedOption_iff] at ha ho hq ⊢
    refine ⟨hblock ihbody hm ha.1 ho.1 hq.1, fun b hb => ?_, fun ss hss => ?_⟩
    · exact hblock (ihbs b hb) hm (ha.2.1 b hb) (ho.2.1 b hb) (hq.2.1 b hb)
    · exact hblock (ihotherwise ss hss) hm (ha.2.2 ss hss) (ho.2.2 ss hss) (hq.2.2 ss hss)
  | whileLoop e body l ih | forLoop x e body l ih =>
    intro a o t q _ ha ho hq
    simp only [Stmt.contained, Stmt.containedAll_iff] at ha ho hq ⊢
    exact hblock ih .inLoop ha ho hq
  | breakLoop l | continueLoop l => exact fun hm ha ho _ => hm.jumps ha ho
  | function f ih =>
    intro a o t q hm ha ho hq
    simp only [Stmt.contained, FunctionDef.contained_iff] at ha ho hq ⊢
    exact hblock ih hm.body ha ho hq
  | classDef x parent fs l ih =>
    intro a o t q hm ha ho hq
    simp only [Stmt.contained, FunctionDef.containedAll_iff, FunctionDef.contained_iff]
      at ha ho hq ⊢
    exact fun f hf => hblock (ih f hf) hm.body (ha f hf) (ho f hf) (hq f hf)
  | attempt body x handler finalizer l ihbody ihhandler ihfinalizer =>
    intro a o t q hm ha ho hq
    simp only [Stmt.contained, Bool.and_eq_true, Stmt.containedAll_iff, Stmt.containedOption_iff]
      at ha ho hq ⊢
    refine ⟨hblock ihbody hm ha.1 ho.1 hq.1, fun ss hss => ?_, fun ss hss => ?_⟩
    · exact hblock (ihhandler ss hss) hm (ha.2.1 ss hss) (ho.2.1 ss hss) (hq.2.1 ss hss)
    · exact hblock (ihfinalizer ss hss) hm (ha.2.2 ss hss) (ho.2.2 ss hss) (hq.2.2 ss hss)
  | importFile x l => exact fun _ _ _ hq => absurd hq Bool.false_ne_true
  | _ => exact fun _ _ _ _ => rfl

/-- The statement imports no file, nor does any statement inside it. -/
def Stmt.Closed (s : Stmt) : Prop :=
  ∀ p : Spot, p.jumps = true → s.contained .closed p = true

namespace Parse

section

variable {T : Array Token} {stmt : Parse Stmt}

theorem finds_declaration : Finds T declaration fun s _ => s.Closed :=
  fun _ => .behind steady_line fun _ _ => .behind (steady_expect _) fun _ _ =>
    .behind steady_name fun _ _ => .behind (steady_expect _) fun _ _ =>
      .behind steady_expression fun _ _ => .pure fun _ _ => rfl

theorem finds_print : Finds T print fun s _ => s.Closed :=
  fun _ => .behind steady_line fun _ _ => .behind (steady_expect _) fun _ _ =>
    .behind (steady_expect _) fun _ _ => .behind (Steady.enclosed steady_expression) fun _ _ =>
      .pure fun _ _ => rfl

theorem finds_input : Finds T input fun s _ => s.Closed :=
  fun _ => .behind steady_line fun _ _ => .behind (steady_expect _) fun _ _ =>
    .behind steady_name fun _ _ => .behind steady_current fun _ _ =>
      .ite (.behind steady_advance fun _ _ => .pure fun _ _ => rfl) (.pure fun _ _ => rfl)

theorem finds_giveBack : Finds T giveBack fun s _ => s.Closed :=
  fun _ => .behind steady_line fun _ _ => .behind (steady_expect _) fun _ _ =>
    .behind (steady_seesAny _) fun _ _ => .ite (.pure fun _ _ => rfl)
      (.behind steady_expression fun _ _ => .pure fun _ _ => rfl)

theorem finds_raiseError : Finds T raiseError fun s _ => s.Closed :=
  fun _ => .behind steady_line fun _ _ => .behind (steady_expect _) fun _ _ =>
    .behind steady_expression fun _ _ => .pure fun _ _ => rfl

theorem finds_thisAssignment : Finds T thisAssignment fun s _ => s.Closed :=
  fun _ => .behind steady_line fun _ _ => .behind steady_advance fun _ _ => .sees fun _ =>
    .ite (.behind steady_advance fun _ _ => .behind steady_memberName fun _ _ =>
      .behind (steady_expect _) fun _ _ => .behind steady_expression fun _ _ =>
        .pure fun _ _ => rfl) (.throw _)

theorem finds_named : Finds T named fun s _ => s.Closed := by
  have hargs : Steady (enclosed expression) := Steady.enclosed steady_expression
  refine fun _ => .behind steady_line fun _ _ => .behind steady_name fun _ _ =>
    .behind steady_current fun t _ => ?_
  split
  · refine .behind steady_advance fun _ _ => .behind steady_memberName fun _ _ => .sees fun _ =>
      .ite (.behind steady_advance fun _ _ => ?_) (.behind (steady_expect _) fun _ _ => ?_)
    · exact .behind hargs fun _ _ => .pure fun _ _ => rfl
    · exact .behind steady_expression fun _ _ => .pure fun _ _ => rfl
  · exact .behind steady_advance fun _ _ => .behind steady_expression fun _ _ =>
      .behind (steady_expect _) fun _ _ => .behind (steady_expect _) fun _ _ =>
        .behind steady_expression fun _ _ => .pure fun _ _ => rfl
  · exact .behind steady_advance fun _ _ => .behind steady_expression fun _ _ =>
      .pure fun _ _ => rfl
  · exact .behind steady_advance fun _ _ => .behind hargs fun _ _ => .pure fun _ _ => rfl
  · exact .throw _

theorem finds_assignmentOrExpression : Finds T assignmentOrExpression fun s _ => s.Closed :=
  fun k => .sees fun _ => .ite (finds_thisAssignment k) (.sees fun _ => .ite (finds_named k)
    (.behind steady_expression fun _ _ => .pure fun _ _ => rfl))

theorem finds_branches (h : Finds T stmt fun s _ => s.Closed) (n : Nat) {found : List Branch}
    (hfound : ∀ b ∈ found, ∀ s ∈ b.body, s.Closed) :
    Finds T (branches stmt n found) fun bs _ => ∀ b ∈ bs, ∀ s ∈ b.body, s.Closed := by
  induction n generalizing found with
  | zero => exact fun _ => .throw _
  | succ n ih =>
    have hdone : ∀ b ∈ found.reverse, ∀ s ∈ b.body, s.Closed := by simpa using hfound
    refine fun _ => .sees fun _ => .ite (.behind steady_advance fun _ _ => ?_) (.pure hdone)
    refine .behind steady_expression fun e k => (h.braced k).bind fun body k' hbody => ?_
    have hmore : ∀ b ∈ Branch.mk e body :: found, ∀ s ∈ b.body, s.Closed :=
      List.forall_mem_cons.2 ⟨hbody, hfound⟩
    exact ih hmore k'

theorem finds_optionalBlock (h : Finds T stmt fun s _ => s.Closed) (k : TokenKind) :
    Finds T (optionalBlock k stmt) fun ss? _ => ∀ ss ∈ ss?, ∀ s ∈ ss, s.Closed := by
  refine fun _ => .sees fun _ => .ite (.behind steady_advance fun _ k => ?_) (.pure (by simp))
  exact (h.braced k).bind fun ss _ hss => .pure (by simpa using hss)

theorem finds_conditional (h : Finds T stmt fun s _ => s.Closed) :
    Finds T (conditional stmt) fun s _ => s.Closed := by
  refine fun _ => .behind steady_line fun l _ => .behind (steady_expect _) fun _ _ =>
    .behind steady_expression fun e k => (h.braced k).bind fun body k hbody => .get fun _ => ?_
  refine (finds_branches h _ (List.forall_mem_nil _) k).bind fun bs k hbs => ?_
  refine (finds_optionalBlock h _ k).bind fun otherwise _ hotherwise => .pure fun p hp => ?_
  simp only [Stmt.contained, Bool.and_eq_true, Stmt.containedAll_iff, Branch.containedAll_iff,
    Stmt.containedOption_iff]
  exact ⟨fun s hs => hbody s hs p hp, fun b hb s hs => hbs b hb s hs p hp,
    fun ss hss s hs => hotherwise ss hss s hs p hp⟩

theorem finds_whileLoop (h : Finds T stmt fun s _ => s.Closed) :
    Finds T (whileLoop stmt) fun s _ => s.Closed := by
  refine fun _ => .behind steady_line fun l _ => .behind (steady_expect _) fun _ _ =>
    .behind steady_expression fun e k => (h.braced k).bind fun body _ hbody => .pure fun p _ => ?_
  exact Stmt.containedAll_iff.2 fun s hs => hbody s hs .inLoop rfl

theorem finds_forLoop (h : Finds T stmt fun s _ => s.Closed) :
    Finds T (forLoop stmt) fun s _ => s.Closed := by
  refine fun _ => .behind steady_line fun l _ => .behind (steady_expect _) fun _ _ =>
    .behind steady_name fun _ _ => .behind (steady_expect _) fun _ _ =>
      .behind steady_expression fun e k => (h.braced k).bind fun body _ hbody => .pure fun p _ => ?_
  exact Stmt.containedAll_iff.2 fun s hs => hbody s hs .inLoop rfl

theorem finds_functionDef (h : Finds T stmt fun s _ => s.Closed) :
    Finds T (functionDef stmt) fun f _ => (Stmt.function f).Closed := by
  refine fun _ => .behind steady_line fun l _ => .behind (steady_expect _) fun _ _ =>
    .behind steady_name fun _ _ => .behind (steady_expect _) fun _ _ =>
      .behind (Steady.enclosed steady_name) fun _ k => (h.braced k).bind fun body _ hbody =>
        .pure fun p hp => ?_
  exact FunctionDef.contained_iff.2 fun s hs => hbody s hs p hp

theorem finds_classDef (h : Finds T stmt fun s _ => s.Closed) :
    Finds T (classDef stmt) fun s _ => s.Closed := by
  have hmethod : Finds T (methodDef stmt) fun f _ => (Stmt.function f).Closed :=
    fun k => .sees fun _ => .ite (finds_functionDef h k) (.throw _)
  have hrest (x : String) (parent : Option String) (l : Nat) :
      Finds T (do return Stmt.classDef x parent (← braced (methodDef stmt)) l)
        fun s _ => s.Closed :=
    fun k => (hmethod.braced k).bind fun fs _ hfs => .pure fun p hp =>
      FunctionDef.containedAll_iff.2 fun f hf => hfs f hf p hp
  refine fun _ => .behind steady_line fun l _ => .behind (steady_expect _) fun _ _ =>
    .behind steady_name fun x k => .sees fun _ => .ite (.behind steady_advance fun _ _ => ?_) ?_
  · exact .behind (steady_name.map _) fun _ => hrest x _ l
  · exact hrest x none l k

theorem finds_attempt (h : Finds T stmt fun s _ => s.Closed) :
    Finds T (attempt stmt) fun s _ => s.Closed := by
  refine fun _ => .behind steady_line fun l _ => .behind (steady_expect _) fun _ k =>
    (h.braced k).bind fun body k hbody => .sees fun _ => ?_
  have hrest {x? : Option String} {handler : Option (List Stmt)}
      (hhandler : ∀ ss ∈ handler, ∀ s ∈ ss, s.Closed) : Finds T (do
        let finalizer ← optionalBlock .finallyKw stmt
        return Stmt.attempt body x? handler finalizer l) fun s _ => s.Closed := by
    refine fun k => (finds_optionalBlock h _ k).bind fun finalizer _ hfinalizer =>
      .pure fun p hp => ?_
    simp only [Stmt.contained, Bool.and_eq_true, Stmt.containedAll_iff, Stmt.containedOption_iff]
    exact ⟨fun s hs => hbody s hs p hp, fun ss hss s hs => hhandler ss hss s hs p hp,
      fun ss hss s hs => hfinalizer ss hss s hs p hp⟩
  have hhandled (x? : Option String) : Finds T (do
      let handler ← braced stmt
      let finalizer ← optionalBlock .finallyKw stmt
      return Stmt.attempt body x? (some handler) finalizer l) fun s _ => s.Closed :=
    fun k => (h.braced k).bind fun ss k hss => hrest (by simpa using hss) k
  refine .ite (.behind steady_advance fun _ k => .sees fun _ => ?_) (hrest (by simp) k)
  exact .ite (.behind (steady_name.map _) hhandled) (hhandled none k)

theorem finds_statementWith (h : Finds T stmt fun s _ => s.Closed) :
    Finds T (statementWith stmt) fun s _ => s.Closed := by
  refine fun k => .behind steady_current fun t k => ?_
  split
  case h_1 => exact finds_declaration k
  case h_2 => exact finds_print k
  case h_3 => exact finds_input k
  case h_4 => exact finds_conditional h k
  case h_5 => exact finds_whileLoop h k
  case h_6 => exact finds_forLoop h k
  case h_7 | h_8 => exact .behind steady_advance fun _ _ => .pure fun _ hp => hp
  case h_9 => exact (finds_functionDef h k).map fun _ _ hf => hf
  case h_10 => exact finds_giveBack k
  case h_11 => exact finds_classDef h k
  case h_12 => exact finds_attempt h k
  case h_13 => exact finds_raiseError k
  case h_14 | h_15 => exact finds_assignmentOrExpression k
  case h_16 => exact .throw _

theorem finds_statementWithin (n : Nat) : Finds T (statementWithin n) fun s _ => s.Closed := by
  induction n with
  | zero => exact fun _ => .throw _
  | succ n ih => exact finds_statementWith ih

end

theorem closed_statement {c c' : Cursor} {s : Stmt} (h : statement c = .ok s c') : s.Closed :=
  (finds_statementWithin _ _ rfl rfl (bind_get_ok h)).2

theorem eq_none_of_recover {e : Failure} {s? : Option Stmt} {c c' : Cursor}
    (h : recover e c = .ok s? c') : s? = none := by
  cases e with
  | diagnostic d =>
    obtain ⟨_, c₁, -, h⟩ := bind_eq_ok h
    obtain ⟨_, c₂, -, h⟩ := bind_eq_ok h
    exact (pure_ok h).1.symm
  | _ => exact absurd h throw_ne_ok

theorem closed_statementsWithin {n : Nat} {found ss : List Stmt} {c c' : Cursor}
    (hfound : ∀ s ∈ found, s.Closed) (h : statementsWithin n found c = .ok ss c') :
    ∀ s ∈ ss, s.Closed := by
  induction n generalizing found c with
  | zero => exact absurd h throw_ne_ok
  | succ n ih =>
    obtain ⟨atEnd, c₁, -, h⟩ := bind_eq_ok h
    cases atEnd with
    | true =>
      obtain ⟨rfl, -⟩ := pure_ok h
      simpa using hfound
    | false =>
      obtain ⟨s?, c₂, hs, h⟩ := bind_eq_ok h
      refine ih (fun s hmem => ?_) h
      rcases List.mem_append.1 hmem with hmem | hmem
      · rcases tryCatch_eq_ok hs with hs | ⟨e, c₃, -, hs⟩
        · obtain ⟨s', hs', rfl⟩ := map_eq_ok hs
          rw [List.mem_singleton.1 hmem]
          exact closed_statement hs'
        · rw [eq_none_of_recover hs] at hmem
          cases hmem
      · exact hfound s hmem

end Parse

theorem closed_of_parseTokens {lang : Lang} {ts : List Token} {p : Program}
    (h : parseTokens lang ts = .ok p) : ∀ s ∈ p.statements, s.Closed := by
  unfold parseTokens at h
  split at h
  next p' c' hprogram =>
    cases h
    obtain ⟨ss, c₁, hss, h⟩ := bind_eq_ok (bind_get_ok hprogram)
    have hrest := bind_get_ok h
    split at hrest
    · obtain ⟨rfl, -⟩ := pure_ok hrest
      exact Parse.closed_statementsWithin (List.forall_mem_nil _) hss
    · exact absurd hrest throw_ne_ok
  next => cases h

end Bhasha
