import Bhasha.Proofs.Grammar
import Bhasha.Proofs.TreeInduction

namespace Bhasha

mutual

/-- The same tree with other lines. -/
def Expr.mapLines (f : Nat → Nat) : Expr → Expr
  | .literal k v l => .literal k v (f l)
  | .list es l => .list (Expr.mapLinesAll f es) (f l)
  | .dict ps l => .dict (Expr.mapLinesPairs f ps) (f l)
  | .var x l => .var x (f l)
  | .binary op a b l => .binary op (a.mapLines f) (b.mapLines f) (f l)
  | .unary op a l => .unary op (a.mapLines f) (f l)
  | .paren a l => .paren (a.mapLines f) (f l)
  | .call x es l => .call x (Expr.mapLinesAll f es) (f l)
  | .lambda xs b l => .lambda xs (b.mapLines f) (f l)
  | .newObject x es l => .newObject x (Expr.mapLinesAll f es) (f l)
  | .method a x es l => .method (a.mapLines f) x (Expr.mapLinesAll f es) (f l)
  | .property a x l => .property (a.mapLines f) x (f l)
  | .thisObject l => .thisObject (f l)
  | .superCall x es l => .superCall x (Expr.mapLinesAll f es) (f l)
  | .index a i l => .index (a.mapLines f) (i.mapLines f) (f l)
  | .foreign x es l => .foreign x (Expr.mapLinesAll f es) (f l)
termination_by structural e => e

def Expr.mapLinesAll (f : Nat → Nat) : List Expr → List Expr
  | [] => []
  | e :: es => e.mapLines f :: Expr.mapLinesAll f es
termination_by structural es => es

def Expr.mapLinesPairs (f : Nat → Nat) : List (Expr × Expr) → List (Expr × Expr)
  | [] => []
  | (k, v) :: ps => (k.mapLines f, v.mapLines f) :: Expr.mapLinesPairs f ps
termination_by structural ps => ps

end

mutual

def Stmt.mapLines (f : Nat → Nat) : Stmt → Stmt
  | .expr e => .expr (e.mapLines f)
  | .assign x e l => .assign x (e.mapLines f) (f l)
  | .setProperty a x e l => .setProperty (a.mapLines f) x (e.mapLines f) (f l)
  | .setIndex a i e l => .setIndex (a.mapLines f) (i.mapLines f) (e.mapLines f) (f l)
  | .print es l => .print (Expr.mapLinesAll f es) (f l)
  | .input x prompt l => .input x (prompt.map (Expr.mapLines f)) (f l)
  | .ifElse e body bs otherwise l =>
    .ifElse (e.mapLines f) (Stmt.mapLinesAll f body) (Branch.mapLinesAll f bs)
      (Stmt.mapLinesOption f otherwise) (f l)
  | .whileLoop e body l => .whileLoop (e.mapLines f) (Stmt.mapLinesAll f body) (f l)
  | .forLoop x e body l => .forLoop x (e.mapLines f) (Stmt.mapLinesAll f body) (f l)
  | .breakLoop l => .breakLoop (f l)
  | .continueLoop l => .continueLoop (f l)
  | .function g => .function (g.mapLines f)
  | .giveBack e? l => .giveBack (e?.map (Expr.mapLines f)) (f l)
  | .classDef x parent gs l => .classDef x parent (FunctionDef.mapLinesAll f gs) (f l)
  | .attempt body x? handler finalizer l =>
    .attempt (Stmt.mapLinesAll f body) x? (Stmt.mapLinesOption f handler)
      (Stmt.mapLinesOption f finalizer) (f l)
  | .raiseError e l => .raiseError (e.mapLines f) (f l)
  | .importFile x l => .importFile x (f l)
  | .foreign x ss l => .foreign x (Stmt.mapLinesAll f ss) (f l)
termination_by structural s => s

def Stmt.mapLinesAll (f : Nat → Nat) : List Stmt → List Stmt
  | [] => []
  | s :: ss => s.mapLines f :: Stmt.mapLinesAll f ss
termination_by structural ss => ss

def Stmt.mapLinesOption (f : Nat → Nat) : Option (List Stmt) → Option (List Stmt)
  | none => none
  | some ss => some (Stmt.mapLinesAll f ss)
termination_by structural o => o

def Branch.mapLines (f : Nat → Nat) : Branch → Branch
  | .mk e body => .mk (e.mapLines f) (Stmt.mapLinesAll f body)
termination_by structural b => b

def Branch.mapLinesAll (f : Nat → Nat) : List Branch → List Branch
  | [] => []
  | b :: bs => b.mapLines f :: Branch.mapLinesAll f bs
termination_by structural bs => bs

def FunctionDef.mapLines (f : Nat → Nat) : FunctionDef → FunctionDef
  | .mk x xs body l => .mk x xs (Stmt.mapLinesAll f body) (f l)
termination_by structural g => g

def FunctionDef.mapLinesAll (f : Nat → Nat) : List FunctionDef → List FunctionDef
  | [] => []
  | g :: gs => g.mapLines f :: FunctionDef.mapLinesAll f gs
termination_by structural gs => gs

end

variable {f : Nat → Nat}

@[simp] theorem Expr.mapLinesAll_eq_map (es : List Expr) :
    mapLinesAll f es = es.map (mapLines f) := by
  induction es with
  | nil => rfl
  | cons e es ih => rw [mapLinesAll, ih, List.map_cons]

def Expr.mapLinesPair (f : Nat → Nat) (p : Expr × Expr) : Expr × Expr :=
  (p.1.mapLines f, p.2.mapLines f)

@[simp] theorem Expr.mapLinesPairs_eq_map (ps : List (Expr × Expr)) :
    mapLinesPairs f ps = ps.map (mapLinesPair f) := by
  induction ps with
  | nil => rfl
  | cons p ps ih => rw [mapLinesPairs, ih, List.map_cons]; rfl

@[simp] theorem Stmt.mapLinesAll_eq_map (ss : List Stmt) :
    mapLinesAll f ss = ss.map (mapLines f) := by
  induction ss with
  | nil => rfl
  | cons s ss ih => rw [mapLinesAll, ih, List.map_cons]

@[simp] theorem Branch.mapLinesAll_eq_map (bs : List Branch) :
    mapLinesAll f bs = bs.map (mapLines f) := by
  induction bs with
  | nil => rfl
  | cons b bs ih => rw [mapLinesAll, ih, List.map_cons]

@[simp] theorem FunctionDef.mapLinesAll_eq_map (gs : List FunctionDef) :
    mapLinesAll f gs = gs.map (mapLines f) := by
  induction gs with
  | nil => rfl
  | cons g gs ih => rw [mapLinesAll, ih, List.map_cons]

def Program.mapLines (f : Nat → Nat) (p : Program) : Program :=
  { statements := p.statements.map (Stmt.mapLines f), line := f p.line }

@[simp] theorem Expr.tier_mapLines (e : Expr) : (e.mapLines f).tier = e.tier := by
  cases e <;> rfl

@[simp] theorem Expr.opens_mapLines (e : Expr) : (e.mapLines f).opens = e.opens := by
  cases e with
  | binary op a b l => exact b.opens_mapLines
  | unary op a l => exact a.opens_mapLines
  | _ => rfl

mutual

@[simp] theorem Expr.grammatical_mapLines (e : Expr) :
    (e.mapLines f).grammatical = e.grammatical := by
  cases e with
  | literal | var | thisObject | foreign => rfl
  | list es | call _ es | newObject _ es | superCall _ es =>
    exact Expr.grammaticalAll_mapLines es
  | dict ps => exact Expr.grammaticalPairs_mapLines ps
  | binary op a b l =>
    simp only [mapLines, grammatical, tier_mapLines, opens_mapLines, a.grammatical_mapLines,
      b.grammatical_mapLines]
  | unary op a l => simp only [mapLines, grammatical, tier_mapLines, a.grammatical_mapLines]
  | paren a => exact a.grammatical_mapLines
  | lambda _ b => exact b.grammatical_mapLines
  | method a x es l =>
    simp only [mapLines, grammatical, tier_mapLines, opens_mapLines, a.grammatical_mapLines]
    rw [Expr.grammaticalAll_mapLines es]
  | property a x l =>
    simp only [mapLines, grammatical, tier_mapLines, opens_mapLines, a.grammatical_mapLines]
  | index a i l =>
    simp only [mapLines, grammatical, tier_mapLines, opens_mapLines, a.grammatical_mapLines,
      i.grammatical_mapLines]

theorem Expr.grammaticalAll_mapLines (es : List Expr) :
    grammaticalAll (mapLinesAll f es) = grammaticalAll es := by
  cases es with
  | nil => rfl
  | cons e es =>
    rw [mapLinesAll, grammaticalAll, grammaticalAll, e.grammatical_mapLines,
      Expr.grammaticalAll_mapLines es]

theorem Expr.grammaticalPairs_mapLines (ps : List (Expr × Expr)) :
    grammaticalPairs (mapLinesPairs f ps) = grammaticalPairs ps := by
  match ps with
  | [] => rfl
  | (k, v) :: ps =>
    rw [mapLinesPairs, grammaticalPairs, grammaticalPairs, k.grammatical_mapLines,
      v.grammatical_mapLines, Expr.grammaticalPairs_mapLines ps]

end

@[simp] theorem Stmt.isBare_mapLines (s : Stmt) : (s.mapLines f).isBare = s.isBare := by
  cases s with
  | giveBack e? => cases e? <;> rfl
  | _ => rfl

mutual

@[simp] theorem Stmt.grammatical_mapLines (s : Stmt) :
    (s.mapLines f).grammatical = s.grammatical := by
  cases s with
  | expr e =>
    cases e with
    | call _ es => exact Expr.grammaticalAll_mapLines es
    | method a _ es =>
      cases a with
      | var => exact Expr.grammaticalAll_mapLines es
      | _ => rfl
    | _ => rfl
  | assign _ e | raiseError e => exact e.grammatical_mapLines
  | setProperty a _ e =>
    cases a with
    | var | thisObject => exact e.grammatical_mapLines
    | _ => rfl
  | setIndex a i e =>
    cases a with
    | var => simp only [Stmt.mapLines, Expr.mapLines, Stmt.grammatical, Expr.grammatical_mapLines]
    | _ => rfl
  | print es => exact Expr.grammaticalAll_mapLines es
  | input _ prompt =>
    cases prompt with
    | none => rfl
    | some e =>
      cases e with
      | literal k => cases k <;> rfl
      | _ => rfl
  | ifElse e body bs otherwise =>
    simp only [Stmt.mapLines, Stmt.grammatical, Expr.grammatical_mapLines,
      Stmt.grammaticalBlock_mapLines body, Branch.grammaticalAll_mapLines bs,
      Stmt.grammaticalOption_mapLines otherwise]
  | whileLoop e body =>
    simp only [Stmt.mapLines, Stmt.grammatical, Expr.grammatical_mapLines,
      Stmt.grammaticalBlock_mapLines body]
  | forLoop _ e body =>
    simp only [Stmt.mapLines, Stmt.grammatical, Expr.grammatical_mapLines,
      Stmt.grammaticalBlock_mapLines body]
  | function g => exact g.grammatical_mapLines
  | giveBack e? =>
    match e? with
    | none => rfl
    | some e => exact e.grammatical_mapLines
  | classDef _ _ gs => exact FunctionDef.grammaticalAll_mapLines gs
  | attempt body x? handler finalizer =>
    simp only [Stmt.mapLines, Stmt.grammatical, Stmt.grammaticalBlock_mapLines body,
      Stmt.grammaticalOption_mapLines handler, Stmt.grammaticalOption_mapLines finalizer]
    cases handler <;> rfl
  | breakLoop | continueLoop | importFile | foreign => rfl

theorem Stmt.grammaticalBlock_mapLines (ss : List Stmt) :
    Stmt.grammaticalBlock (Stmt.mapLinesAll f ss) = Stmt.grammaticalBlock ss := by
  cases ss with
  | nil => rfl
  | cons s ss =>
    rw [Stmt.mapLinesAll, Stmt.grammaticalBlock, Stmt.grammaticalBlock, s.grammatical_mapLines,
      Stmt.grammaticalBlock_mapLines ss, Stmt.isBare_mapLines]
    cases ss <;> rfl

theorem Stmt.grammaticalOption_mapLines (o : Option (List Stmt)) :
    Stmt.grammaticalOption (Stmt.mapLinesOption f o) = Stmt.grammaticalOption o := by
  cases o with
  | none => rfl
  | some ss => exact Stmt.grammaticalBlock_mapLines ss

theorem Branch.grammatical_mapLines (b : Branch) :
    (b.mapLines f).grammatical = b.grammatical := by
  cases b with
  | mk e body =>
    rw [Branch.mapLines, Branch.grammatical, Branch.grammatical, Expr.grammatical_mapLines,
      Stmt.grammaticalBlock_mapLines body]

theorem Branch.grammaticalAll_mapLines (bs : List Branch) :
    Branch.grammaticalAll (Branch.mapLinesAll f bs) = Branch.grammaticalAll bs := by
  cases bs with
  | nil => rfl
  | cons b bs =>
    rw [Branch.mapLinesAll, Branch.grammaticalAll, Branch.grammaticalAll, b.grammatical_mapLines,
      Branch.grammaticalAll_mapLines bs]

theorem FunctionDef.grammatical_mapLines (g : FunctionDef) :
    (g.mapLines f).grammatical = g.grammatical := by
  cases g with
  | mk _ _ body => exact Stmt.grammaticalBlock_mapLines body

theorem FunctionDef.grammaticalAll_mapLines (gs : List FunctionDef) :
    FunctionDef.grammaticalAll (FunctionDef.mapLinesAll f gs) = FunctionDef.grammaticalAll gs := by
  cases gs with
  | nil => rfl
  | cons g gs =>
    rw [FunctionDef.mapLinesAll, FunctionDef.grammaticalAll, FunctionDef.grammaticalAll,
      g.grammatical_mapLines, FunctionDef.grammaticalAll_mapLines gs]

end

namespace Token

def mapLine (f : Nat → Nat) (t : Token) : Token :=
  { t with line := f t.line }

theorem Is.mapLine {k : TokenKind} {t : Token} (h : t.Is k) : (t.mapLine f).Is k :=
  ⟨h.kind, h.value⟩

theorem Names.mapLine {x : String} {t : Token} (h : t.Names x) : (t.mapLine f).Names x :=
  ⟨h.kind, h.value⟩

end Token

section

variable {α : Type} {R : α → List Token → Prop} {g : α → α} {as : List α} {ts : List Token}
  {k : TokenKind}

theorem Following.mapLines
    (hR : ∀ a ∈ as, ∀ us, R a us → R (g a) (us.map (Token.mapLine f)))
    (h : Following R as ts) : Following R (as.map g) (ts.map (Token.mapLine f)) := by
  induction h with
  | nil => exact .nil
  | cons hcomma ha _ ih =>
    rw [List.map_append]
    refine .cons hcomma.mapLine (hR _ List.mem_cons_self _ ha) (ih fun b hb => ?_)
    exact hR b (List.mem_cons_of_mem _ hb)

theorem Separated.mapLines
    (hR : ∀ a ∈ as, ∀ us, R a us → R (g a) (us.map (Token.mapLine f)))
    (h : Separated R as ts) : Separated R (as.map g) (ts.map (Token.mapLine f)) := by
  cases h with
  | mk ha hs =>
    rw [List.map_append]
    exact .mk (hR _ List.mem_cons_self _ ha) (hs.mapLines fun b hb => hR b (.tail _ hb))

theorem Enclosed.mapLines
    (hR : ∀ a ∈ as, ∀ us, R a us → R (g a) (us.map (Token.mapLine f)))
    (h : Enclosed R as ts) : Enclosed R (as.map g) (ts.map (Token.mapLine f)) := by
  cases h with
  | none hc => exact .none hc.mapLine
  | items hs hc =>
    rw [List.map_append]
    exact .items (hs.mapLines hR) hc.mapLine

theorem Listed.mapLines
    (hR : ∀ a ∈ as, ∀ us, R a us → R (g a) (us.map (Token.mapLine f)))
    (h : Listed R k as ts) : Listed R k (as.map g) (ts.map (Token.mapLine f)) := by
  cases h with
  | none hc => exact .none hc.mapLine
  | items hs hc =>
    rw [List.map_append]
    exact .items (hs.mapLines hR) hc.mapLine
  | trailing hs hcomma hc =>
    rw [List.map_append]
    exact .trailing (hs.mapLines hR) hcomma.mapLine hc.mapLine

theorem OptionallyEnclosed.mapLines
    (hR : ∀ a ∈ as, ∀ us, R a us → R (g a) (us.map (Token.mapLine f)))
    (h : OptionallyEnclosed R as ts) :
    OptionallyEnclosed R (as.map g) (ts.map (Token.mapLine f)) := by
  cases h with
  | none => exact .none
  | items ho hs => exact .items ho.mapLine (hs.mapLines hR)

theorem Sequence.mapLines
    (hR : ∀ a ∈ as, ∀ us, R a us → R (g a) (us.map (Token.mapLine f)))
    (h : Sequence R as ts) : Sequence R (as.map g) (ts.map (Token.mapLine f)) := by
  induction h with
  | nil => exact .nil
  | cons ha _ ih =>
    rw [List.map_append]
    exact .cons (hR _ List.mem_cons_self _ ha) (ih fun b hb => hR b (.tail _ hb))

theorem Block.mapLines
    (hR : ∀ a ∈ as, ∀ us, R a us → R (g a) (us.map (Token.mapLine f)))
    (h : Block R as ts) : Block R (as.map g) (ts.map (Token.mapLine f)) := by
  induction h with
  | close hc => exact .close hc.mapLine
  | cons ha _ ih =>
    rw [List.map_append]
    exact .cons (hR _ List.mem_cons_self _ ha) (ih fun b hb => hR b (.tail _ hb))

end

theorem NameSpelled.mapLines {x : String} {ts : List Token} (h : NameSpelled x ts) :
    NameSpelled x (ts.map (Token.mapLine f)) := by
  cases h with
  | mk hx => exact .mk hx.mapLine

theorem ParametersSpelled.mapLines {xs : List String} {ts : List Token}
    (h : ParametersSpelled xs ts) : ParametersSpelled xs (ts.map (Token.mapLine f)) := by
  cases h with
  | none => exact .none
  | some hs =>
    have hs := hs.mapLines (g := id) (f := f) fun x _ us hx => hx.mapLines
    rw [List.map_id] at hs
    exact .some hs

theorem Expr.Spelled.mapLines {e : Expr} {ts : List Token} (h : e.Spelled ts) :
    (e.mapLines f).Spelled (ts.map (Token.mapLine f)) := by
  induction e using Expr.induct generalizing ts with
  | literal k v l =>
    cases h with
    | @literal _ t ht => exact .literal (t := t.mapLine f) ht
  | list es l ih =>
    cases h with
    | list ht hs =>
      rw [Expr.mapLines, Expr.mapLinesAll_eq_map]
      exact .list ht.mapLine (hs.mapLines fun e he us h => ih e he h)
  | dict ps l ih =>
    cases h with
    | dict ht hs =>
      rw [Expr.mapLines, Expr.mapLinesPairs_eq_map]
      refine .dict ht.mapLine (hs.mapLines fun p hp us h => ?_)
      cases h with
      | mk hk hc hv =>
        rw [List.map_append]
        exact .mk ((ih _ hp).1 hk) hc.mapLine ((ih _ hp).2 hv)
  | var x l =>
    cases h with
    | var hx => exact .var hx.mapLine
  | binary op a b l iha ihb =>
    cases h with
    | binary hop ha ht hb =>
      rw [List.map_append]
      exact .binary hop (iha ha) ht.mapLine (ihb hb)
  | unary op a l ih =>
    cases h with
    | unary hop ht ha => exact .unary hop ht.mapLine (ih ha)
  | paren a l ih =>
    cases h with
    | paren ht ha hc =>
      rw [List.map_append]
      exact .paren ht.mapLine (ih ha) hc.mapLine
  | call x es l ih =>
    cases h with
    | call hx ht hs =>
      rw [Expr.mapLines, Expr.mapLinesAll_eq_map]
      exact .call hx.mapLine ht.mapLine (hs.mapLines fun e he us h => ih e he h)
  | lambda xs b l ih =>
    cases h with
    | lambda ht hxs hc hb =>
      rw [List.map_append]
      exact .lambda ht.mapLine hxs.mapLines hc.mapLine (ih hb)
  | newObject x es l ih =>
    cases h with
    | newObject ht hx hs =>
      rw [Expr.mapLines, Expr.mapLinesAll_eq_map]
      exact .newObject ht.mapLine hx.mapLine (hs.mapLines fun e he us h => ih e he h)
  | method a x es l iha ih =>
    cases h with
    | method ha ht hx ho hs =>
      rw [Expr.mapLines, Expr.mapLinesAll_eq_map, List.map_append]
      exact .method (iha ha) ht.mapLine hx.mapLine ho.mapLine
        (hs.mapLines fun e he us h => ih e he h)
  | property a x l ih =>
    cases h with
    | property ha ht hx =>
      rw [List.map_append]
      exact .property (ih ha) ht.mapLine hx.mapLine
  | thisObject l =>
    cases h with
    | thisObject ht => exact .thisObject ht.mapLine
  | superCall x es l ih =>
    cases h with
    | superCall ht hdot hx hs =>
      rw [Expr.mapLines, Expr.mapLinesAll_eq_map]
      exact .superCall ht.mapLine hdot.mapLine hx.mapLine
        (hs.mapLines fun e he us h => ih e he h)
  | index a i l iha ihi =>
    cases h with
    | index ha ht hi hc =>
      rw [List.map_append, List.map_append]
      exact .index (iha ha) ht.mapLine (ihi hi) hc.mapLine
  | foreign => cases h

theorem ParentSpelled.mapLines {x? : Option String} {ts : List Token} (h : ParentSpelled x? ts) :
    ParentSpelled x? (ts.map (Token.mapLine f)) := by
  cases h with
  | none => exact .none
  | some ht hx => exact .some ht.mapLine hx.mapLine

theorem CaughtSpelled.mapLines {x? : Option String} {ts : List Token} (h : CaughtSpelled x? ts) :
    CaughtSpelled x? (ts.map (Token.mapLine f)) := by
  cases h with
  | none => exact .none
  | some hx => exact .some hx.mapLine

theorem Expr.mapLines_enclosed {es : List Expr} {ts : List Token}
    (h : Enclosed Expr.Spelled es ts) :
    Enclosed Expr.Spelled (mapLinesAll f es) (ts.map (Token.mapLine f)) := by
  rw [Expr.mapLinesAll_eq_map]
  exact h.mapLines fun e _ us h => h.mapLines

section

variable {ts : List Token} {body : List Stmt} {o : Option (List Stmt)} {k : TokenKind}

theorem Stmt.mapLines_block
    (hR : ∀ s ∈ body, ∀ us, Stmt.Spelled s us → (s.mapLines f).Spelled (us.map (Token.mapLine f)))
    (h : Block Stmt.Spelled body ts) :
    Block Stmt.Spelled (Stmt.mapLinesAll f body) (ts.map (Token.mapLine f)) := by
  rw [Stmt.mapLinesAll_eq_map]
  exact h.mapLines hR

theorem Stmt.mapLines_optionallyBraced
    (hR : ∀ ss ∈ o, ∀ s ∈ ss, ∀ us, Stmt.Spelled s us →
      (s.mapLines f).Spelled (us.map (Token.mapLine f)))
    (h : OptionallyBraced Stmt.Spelled k o ts) :
    OptionallyBraced Stmt.Spelled k (Stmt.mapLinesOption f o) (ts.map (Token.mapLine f)) := by
  cases h with
  | none => exact .none
  | some ht hb hs => exact .some ht.mapLine hb.mapLine (Stmt.mapLines_block (hR _ rfl) hs)

theorem Branch.Spelled.mapLines {b : Branch}
    (hR : ∀ s ∈ b.body, ∀ us, s.Spelled us → (s.mapLines f).Spelled (us.map (Token.mapLine f)))
    (h : b.Spelled ts) : (b.mapLines f).Spelled (ts.map (Token.mapLine f)) := by
  cases h with
  | mk ht he hb hs =>
    rw [List.map_append]
    exact .mk ht.mapLine he.mapLines hb.mapLine (Stmt.mapLines_block hR hs)

theorem FunctionDef.Spelled.mapLines {g : FunctionDef}
    (hR : ∀ s ∈ g.body, ∀ us, s.Spelled us → (s.mapLines f).Spelled (us.map (Token.mapLine f)))
    (h : g.Spelled ts) : (g.mapLines f).Spelled (ts.map (Token.mapLine f)) := by
  cases h with
  | mk ht hx ho hxs hb hs =>
    have hxs := hxs.mapLines (g := id) (f := f) fun x _ us hx => hx.mapLines
    rw [List.map_id] at hxs
    rw [List.map_append]
    exact .mk ht.mapLine hx.mapLine ho.mapLine hxs hb.mapLine (Stmt.mapLines_block hR hs)

end

theorem Stmt.Spelled.mapLines {s : Stmt} {ts : List Token} (h : s.Spelled ts) :
    (s.mapLines f).Spelled (ts.map (Token.mapLine f)) := by
  induction s using Stmt.induct generalizing ts with
  | expr e =>
    cases h with
    | call hx ho hs => exact .call hx.mapLine ho.mapLine (Expr.mapLines_enclosed hs)
    | method hx hd hy ho hs =>
      exact .method hx.mapLine hd.mapLine hy.mapLine ho.mapLine (Expr.mapLines_enclosed hs)
  | assign x e l =>
    cases h with
    | declare ht hx hq he => exact .declare ht.mapLine hx.mapLine hq.mapLine he.mapLines
    | assign hx hq he => exact .assign hx.mapLine hq.mapLine he.mapLines
  | setProperty a x e l =>
    cases h with
    | setThis ht hd hx hq he =>
      exact .setThis ht.mapLine hd.mapLine hx.mapLine hq.mapLine he.mapLines
    | setProperty hx hd hy hq he =>
      exact .setProperty hx.mapLine hd.mapLine hy.mapLine hq.mapLine he.mapLines
  | setIndex a i e l =>
    cases h with
    | setIndex hx ho hi hc hq he =>
      rw [List.map_append]
      exact .setIndex hx.mapLine ho.mapLine hi.mapLines hc.mapLine hq.mapLine he.mapLines
  | print es l =>
    cases h with
    | print ht ho hs => exact .print ht.mapLine ho.mapLine (Expr.mapLines_enclosed hs)
  | input x prompt l =>
    cases h with
    | input ht hx => exact .input ht.mapLine hx.mapLine
    | @inputWith _ t name prompt ht hx hp =>
      have hp : (prompt.mapLine f).kind = .string := hp
      exact .inputWith ht.mapLine hx.mapLine hp
  | ifElse e body bs otherwise l ihbody ihbs iho =>
    cases h with
    | ifElse ht he hb hs hbs ho =>
      rw [Stmt.mapLines, Branch.mapLinesAll_eq_map]
      simp only [List.map_append]
      exact .ifElse ht.mapLine he.mapLines hb.mapLine
        (Stmt.mapLines_block (fun s hs us h => ihbody s hs h) hs)
        (hbs.mapLines fun b hb us h => h.mapLines fun s hs us h => ihbs b hb s hs h)
        (Stmt.mapLines_optionallyBraced (fun ss hss s hs us h => iho ss hss s hs h) ho)
  | whileLoop e body l ih =>
    cases h with
    | whileLoop ht he hb hs =>
      rw [List.map_append]
      exact .whileLoop ht.mapLine he.mapLines hb.mapLine
        (Stmt.mapLines_block (fun s hs us h => ih s hs h) hs)
  | forLoop x e body l ih =>
    cases h with
    | forLoop ht hx hin he hb hs =>
      rw [List.map_append]
      exact .forLoop ht.mapLine hx.mapLine hin.mapLine he.mapLines hb.mapLine
        (Stmt.mapLines_block (fun s hs us h => ih s hs h) hs)
  | breakLoop l =>
    cases h with
    | breakLoop ht => exact .breakLoop ht.mapLine
  | continueLoop l =>
    cases h with
    | continueLoop ht => exact .continueLoop ht.mapLine
  | function g ih =>
    cases h with
    | function hg => exact .function (hg.mapLines fun s hs us h => ih s hs h)
  | giveBack e? l =>
    cases h with
    | giveBack ht => exact .giveBack ht.mapLine
    | giveBackWith ht he => exact .giveBackWith ht.mapLine he.mapLines
  | classDef x parent gs l ih =>
    cases h with
    | classDef ht hx hp hb hs =>
      rw [Stmt.mapLines, FunctionDef.mapLinesAll_eq_map, List.map_append]
      exact .classDef ht.mapLine hx.mapLine hp.mapLines hb.mapLine
        (hs.mapLines fun g hg us h => h.mapLines fun s hs us h => ih g hg s hs h)
  | attempt body x? handler finalizer l ihbody ihh ihf =>
    cases h with
    | attempt ht hb hs hf =>
      rw [List.map_append]
      exact .attempt ht.mapLine hb.mapLine
        (Stmt.mapLines_block (fun s hs us h => ihbody s hs h) hs)
        (Stmt.mapLines_optionallyBraced (fun ss hss s hs us h => ihf ss hss s hs h) hf)
    | attemptWith ht hb hs hc hx hb' hh hf =>
      simp only [List.map_append]
      exact .attemptWith ht.mapLine hb.mapLine
        (Stmt.mapLines_block (fun s hs us h => ihbody s hs h) hs) hc.mapLine hx.mapLines
        hb'.mapLine (Stmt.mapLines_block (fun s hs us h => ihh _ rfl s hs h) hh)
        (Stmt.mapLines_optionallyBraced (fun ss hss s hs us h => ihf ss hss s hs h) hf)
  | raiseError e l =>
    cases h with
    | raiseError ht he => exact .raiseError ht.mapLine he.mapLines
  | importFile | foreign => cases h

end Bhasha
