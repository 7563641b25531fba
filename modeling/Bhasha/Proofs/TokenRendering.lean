import Bhasha.Proofs.SourceLines
import Bhasha.Proofs.StmtReading

namespace Bhasha

namespace Face

/-- What tokens of kind `k` say. -/
def word (k : TokenKind) : Face :=
  (k, .str k.spelling)

def name (x : String) : Face :=
  (.identifier, .str x)

/-- Commas between the parts. -/
def joined : List (List Face) → List Face
  | [] => []
  | part :: parts => part ++ parts.flatMap (word .comma :: ·)

def arguments (parts : List (List Face)) : List Face :=
  word .lparen :: joined parts ++ [word .rparen]

def block (body : List Face) : List Face :=
  word .lbrace :: body ++ [word .rbrace]

end Face

open Face

def BinaryOp.face (op : BinaryOp) : Face :=
  word (op.tokenKind?.getD .eof)

def UnaryOp.face (op : UnaryOp) : Face :=
  word (op.tokenKind?.getD .eof)

mutual

def Expr.faces : Expr → List Face
  | .literal k v _ => [(k.tokenKind, v)]
  | .list es _ => word .lbracket :: joined (Expr.facesAll es) ++ [word .rbracket]
  | .dict ps _ => word .lbrace :: joined (Expr.facesPairs ps) ++ [word .rbrace]
  | .var x _ => [name x]
  | .binary op a b _ => a.faces ++ op.face :: b.faces
  | .unary op a _ => op.face :: a.faces
  | .paren a _ => word .lparen :: a.faces ++ [word .rparen]
  | .call x es _ => name x :: arguments (Expr.facesAll es)
  | .lambda xs b _ =>
    word .lambda :: joined (xs.map fun x => [name x]) ++ word .colon :: b.faces
  | .newObject x es _ => word .new :: name x :: arguments (Expr.facesAll es)
  | .method a x es _ => a.faces ++ word .dot :: name x :: arguments (Expr.facesAll es)
  | .property a x _ => a.faces ++ [word .dot, name x]
  | .thisObject _ => [word .this]
  | .superCall x es _ => word .super :: word .dot :: name x :: arguments (Expr.facesAll es)
  | .index a i _ => a.faces ++ word .lbracket :: i.faces ++ [word .rbracket]
  | .foreign _ _ _ => []
termination_by structural e => e

def Expr.facesAll : List Expr → List (List Face)
  | [] => []
  | e :: es => e.faces :: Expr.facesAll es
termination_by structural es => es

def Expr.facesPairs : List (Expr × Expr) → List (List Face)
  | [] => []
  | (k, v) :: ps => (k.faces ++ word .colon :: v.faces) :: Expr.facesPairs ps
termination_by structural ps => ps

end

@[simp] theorem Expr.facesAll_eq_map (es : List Expr) :
    facesAll es = es.map faces := by
  induction es with
  | nil => rfl
  | cons e es ih => rw [facesAll, ih, List.map_cons]

def Expr.pairFaces (p : Expr × Expr) : List Face :=
  p.1.faces ++ word .colon :: p.2.faces

@[simp] theorem Expr.facesPairs_eq_map (ps : List (Expr × Expr)) :
    facesPairs ps = ps.map pairFaces := by
  induction ps with
  | nil => rfl
  | cons p ps ih => rw [facesPairs, ih, List.map_cons]; rfl

mutual

def Stmt.faces : Stmt → List Face
  | .expr e => e.faces
  | .assign x e _ => name x :: word .assign :: e.faces
  | .setProperty a x e _ => a.faces ++ word .dot :: name x :: word .assign :: e.faces
  | .setIndex a i e _ =>
    a.faces ++ word .lbracket :: i.faces ++ word .rbracket :: word .assign :: e.faces
  | .print es _ => word .print :: arguments (Expr.facesAll es)
  | .input x none _ => [word .input, name x]
  | .input x (some e) _ => word .input :: name x :: e.faces
  | .ifElse e body bs otherwise _ =>
    word .ifKw :: e.faces ++ block (Stmt.facesAll body) ++ Branch.facesAll bs ++
      Stmt.facesOption .elseKw otherwise
  | .whileLoop e body _ => word .whileKw :: e.faces ++ block (Stmt.facesAll body)
  | .forLoop x e body _ =>
    word .forKw :: name x :: word .inKw :: e.faces ++ block (Stmt.facesAll body)
  | .breakLoop _ => [word .breakKw]
  | .continueLoop _ => [word .continueKw]
  | .function g => g.faces
  | .giveBack none _ => [word .returnKw]
  | .giveBack (some e) _ => word .returnKw :: e.faces
  | .classDef x none gs _ => word .classKw :: name x :: block (FunctionDef.facesAll gs)
  | .classDef x (some y) gs _ =>
    word .classKw :: name x :: word .extendsKw :: name y :: block (FunctionDef.facesAll gs)
  | .attempt body _ none finalizer _ =>
    word .tryKw :: block (Stmt.facesAll body) ++ Stmt.facesOption .finallyKw finalizer
  | .attempt body none (some handler) finalizer _ =>
    word .tryKw :: block (Stmt.facesAll body) ++ word .catchKw ::
      block (Stmt.facesAll handler) ++ Stmt.facesOption .finallyKw finalizer
  | .attempt body (some x) (some handler) finalizer _ =>
    word .tryKw :: block (Stmt.facesAll body) ++ word .catchKw :: name x ::
      block (Stmt.facesAll handler) ++ Stmt.facesOption .finallyKw finalizer
  | .raiseError e _ => word .throwKw :: e.faces
  | .importFile _ _ | .foreign _ _ _ => []
termination_by structural s => s

def Stmt.facesAll : List Stmt → List Face
  | [] => []
  | s :: ss => s.faces ++ Stmt.facesAll ss
termination_by structural ss => ss

def Stmt.facesOption (k : TokenKind) : Option (List Stmt) → List Face
  | none => []
  | some ss => word k :: block (Stmt.facesAll ss)
termination_by structural o => o

def Branch.faces : Branch → List Face
  | .mk e body => word .elseIf :: e.faces ++ block (Stmt.facesAll body)
termination_by structural b => b

def Branch.facesAll : List Branch → List Face
  | [] => []
  | b :: bs => b.faces ++ Branch.facesAll bs
termination_by structural bs => bs

def FunctionDef.faces : FunctionDef → List Face
  | .mk x xs body _ =>
    word .function :: name x :: arguments (xs.map fun x => [name x]) ++ block (Stmt.facesAll body)
termination_by structural g => g

def FunctionDef.facesAll : List FunctionDef → List Face
  | [] => []
  | g :: gs => g.faces ++ FunctionDef.facesAll gs
termination_by structural gs => gs

end

@[simp] theorem Stmt.facesAll_eq_flatMap (ss : List Stmt) :
    facesAll ss = ss.flatMap faces := by
  induction ss with
  | nil => rfl
  | cons s ss ih => rw [facesAll, ih, List.flatMap_cons]

@[simp] theorem Branch.facesAll_eq_flatMap (bs : List Branch) :
    facesAll bs = bs.flatMap faces := by
  induction bs with
  | nil => rfl
  | cons b bs ih => rw [facesAll, ih, List.flatMap_cons]

@[simp] theorem FunctionDef.facesAll_eq_flatMap (gs : List FunctionDef) :
    facesAll gs = gs.flatMap faces := by
  induction gs with
  | nil => rfl
  | cons g gs ih => rw [facesAll, ih, List.flatMap_cons]

theorem Token.is_of_face {k : TokenKind} {t : Token} (h : t.face = word k) : t.Is k :=
  ⟨congrArg Prod.fst h, congrArg Prod.snd h⟩

theorem Token.names_of_face {x : String} {t : Token} (h : t.face = name x) : t.Names x :=
  ⟨congrArg Prod.fst h, congrArg Prod.snd h⟩

section

variable {α : Type} {R : α → List Token → Prop} {L : α → List Face} {U : α → α} {as : List α}
  {ts : List Token} {k : TokenKind}

/-- Wherever they stand, do the tokens `L a` spell `a`, up to what `U` leaves out? -/
def Placed (R : α → List Token → Prop) (L : α → List Face) (U : α → α) (a : α) : Prop :=
  ∀ ts : List Token, ts.map Token.face = L a → ∃ b, U b = U a ∧ R b ts

theorem Placed.following (h : ∀ a ∈ as, Placed R L U a)
    (hts : ts.map Token.face = (as.map L).flatMap (word .comma :: ·)) :
    ∃ bs, bs.map U = as.map U ∧ Following R bs ts := by
  induction as generalizing ts with
  | nil =>
    rw [List.map_eq_nil_iff.mp hts]
    exact ⟨[], rfl, .nil⟩
  | cons a as ih =>
    rw [List.map_cons, List.flatMap_cons, List.cons_append] at hts
    obtain ⟨comma, us, rfl, hcomma, hus⟩ := List.map_eq_cons_iff.mp hts
    obtain ⟨us, vs, rfl, hu, hv⟩ := List.map_eq_append_iff.mp hus
    obtain ⟨b, hb, hR⟩ := h a List.mem_cons_self us hu
    obtain ⟨bs, hbs, hfollow⟩ := ih (fun a ha => h a (List.mem_cons_of_mem _ ha)) hv
    refine ⟨b :: bs, by rw [List.map_cons, List.map_cons, hb, hbs], ?_⟩
    exact .cons (Token.is_of_face hcomma) hR hfollow

theorem Placed.separated (h : ∀ a ∈ as, Placed R L U a) (hne : as ≠ [])
    (hts : ts.map Token.face = joined (as.map L)) :
    ∃ bs, bs.map U = as.map U ∧ Separated R bs ts := by
  cases as with
  | nil => exact absurd rfl hne
  | cons a as =>
    obtain ⟨us, vs, rfl, hu, hv⟩ := List.map_eq_append_iff.mp hts
    obtain ⟨b, hb, hR⟩ := h a List.mem_cons_self us hu
    obtain ⟨bs, hbs, hfollow⟩ := Placed.following (fun a ha => h a (List.mem_cons_of_mem _ ha)) hv
    exact ⟨b :: bs, by rw [List.map_cons, List.map_cons, hb, hbs], .mk hR hfollow⟩

theorem Placed.closed (h : ∀ a ∈ as, Placed R L U a)
    (hts : ts.map Token.face = joined (as.map L) ++ [word k]) :
    ∃ (bs : List α) (us : List Token) (close : Token), bs.map U = as.map U ∧ ts = us ++ [close] ∧
      close.Is k ∧ (bs = [] ∧ us = [] ∨ Separated R bs us) := by
  obtain ⟨us, vs, rfl, hu, hv⟩ := List.map_eq_append_iff.mp hts
  obtain ⟨close, rfl, hclose⟩ := List.map_eq_singleton_iff.mp hv
  by_cases hne : as = []
  · subst hne
    refine ⟨[], us, close, rfl, rfl, Token.is_of_face hclose, .inl ⟨rfl, ?_⟩⟩
    exact List.map_eq_nil_iff.mp hu
  · obtain ⟨bs, hbs, hsep⟩ := Placed.separated h hne hu
    exact ⟨bs, us, close, hbs, rfl, Token.is_of_face hclose, .inr hsep⟩

theorem Placed.listed (h : ∀ a ∈ as, Placed R L U a)
    (hts : ts.map Token.face = joined (as.map L) ++ [word k]) :
    ∃ bs, bs.map U = as.map U ∧ Listed R k bs ts := by
  obtain ⟨bs, us, close, hbs, rfl, hc, ⟨rfl, rfl⟩ | hsep⟩ := Placed.closed h hts
  · exact ⟨[], hbs, .none hc⟩
  · exact ⟨bs, hbs, .items hsep hc⟩

theorem Placed.arguments (h : ∀ a ∈ as, Placed R L U a)
    (hts : ts.map Token.face = arguments (as.map L)) :
    ∃ bs opening us, bs.map U = as.map U ∧ ts = opening :: us ∧ opening.Is .lparen ∧
      Enclosed R bs us := by
  obtain ⟨opening, us, rfl, hopening, hus⟩ := List.map_eq_cons_iff.mp hts
  have ho := Token.is_of_face hopening
  obtain ⟨bs, us, close, hbs, rfl, hc, ⟨rfl, rfl⟩ | hsep⟩ := Placed.closed h hus
  · exact ⟨[], opening, _, hbs, rfl, ho, .none hc⟩
  · exact ⟨bs, opening, _, hbs, rfl, ho, .items hsep hc⟩

theorem Placed.sequence (h : ∀ a ∈ as, Placed R L U a)
    (hts : ts.map Token.face = as.flatMap L) :
    ∃ bs, bs.map U = as.map U ∧ Sequence R bs ts := by
  induction as generalizing ts with
  | nil =>
    rw [List.map_eq_nil_iff.mp hts]
    exact ⟨[], rfl, .nil⟩
  | cons a as ih =>
    rw [List.flatMap_cons] at hts
    obtain ⟨us, vs, rfl, hu, hv⟩ := List.map_eq_append_iff.mp hts
    obtain ⟨b, hb, hR⟩ := h a List.mem_cons_self us hu
    obtain ⟨bs, hbs, hseq⟩ := ih (fun a ha => h a (List.mem_cons_of_mem _ ha)) hv
    exact ⟨b :: bs, by rw [List.map_cons, List.map_cons, hb, hbs], .cons hR hseq⟩

theorem Placed.block (h : ∀ a ∈ as, Placed R L U a)
    (hts : ts.map Token.face = block (as.flatMap L)) :
    ∃ bs brace us, bs.map U = as.map U ∧ ts = brace :: us ∧ brace.Is .lbrace ∧ Block R bs us := by
  obtain ⟨brace, us, rfl, hbrace, hus⟩ := List.map_eq_cons_iff.mp hts
  obtain ⟨us, vs, rfl, hu, hv⟩ := List.map_eq_append_iff.mp hus
  obtain ⟨close, rfl, hclose⟩ := List.map_eq_singleton_iff.mp hv
  obtain ⟨bs, hbs, hseq⟩ := Placed.sequence h hu
  exact ⟨bs, brace, _, hbs, rfl, Token.is_of_face hbrace, hseq.block (Token.is_of_face hclose)⟩

end

theorem placed_name (x : String) : Placed NameSpelled (fun x => [name x]) id x := by
  intro ts hts
  obtain ⟨t, rfl, ht⟩ := List.map_eq_singleton_iff.mp hts
  exact ⟨x, rfl, .mk (Token.names_of_face ht)⟩

/-- The tree with all its lines forgotten. -/
abbrev Expr.unlined (e : Expr) : Expr :=
  e.mapLines fun _ => 1

theorem BinaryOp.tokenKind?_of_isSome {op : BinaryOp} (h : op.tokenKind?.isSome = true) :
    ∃ k, op.tokenKind? = some k ∧ op.face = word k := by
  obtain ⟨k, hk⟩ := Option.isSome_iff_exists.mp h
  exact ⟨k, hk, by rw [face, hk]; rfl⟩

theorem UnaryOp.tokenKind?_of_isSome {op : UnaryOp} (h : op.tokenKind?.isSome = true) :
    ∃ k, op.tokenKind? = some k ∧ op.face = word k := by
  obtain ⟨k, hk⟩ := Option.isSome_iff_exists.mp h
  exact ⟨k, hk, by rw [face, hk]; rfl⟩

theorem Expr.placed_pair {k v : Expr} (hk : Placed Expr.Spelled Expr.faces Expr.unlined k)
    (hv : Placed Expr.Spelled Expr.faces Expr.unlined v) :
    Placed PairSpelled pairFaces (mapLinesPair fun _ => 1) (k, v) := by
  intro ts hts
  obtain ⟨us, vs, rfl, hu, hv'⟩ := List.map_eq_append_iff.mp hts
  obtain ⟨colon, vs, rfl, hcolon, hv'⟩ := List.map_eq_cons_iff.mp hv'
  obtain ⟨k', hk', hks⟩ := hk us hu
  obtain ⟨v', hv', hvs⟩ := hv vs hv'
  exact ⟨(k', v'), Prod.ext hk' hv', .mk hks (Token.is_of_face hcolon) hvs⟩

theorem Expr.placed_arguments {es : List Expr} {ts : List Token}
    (h : ∀ e ∈ es, e.grammatical = true → Placed Expr.Spelled Expr.faces Expr.unlined e)
    (hg : grammaticalAll es = true) (hts : ts.map Token.face = arguments (facesAll es)) :
    ∃ es' opening us, es'.map unlined = es.map unlined ∧ ts = opening :: us ∧
      opening.Is .lparen ∧ Enclosed Expr.Spelled es' us := by
  rw [facesAll_eq_map] at hts
  exact Placed.arguments (fun e he => h e he (grammaticalAll_iff.mp hg e he)) hts

theorem placed_lambda_parameters {xs : List String} {ts : List Token}
    (hts : ts.map Token.face = joined (xs.map fun x => [name x])) : ParametersSpelled xs ts := by
  by_cases hne : xs = []
  · subst hne
    rw [List.map_eq_nil_iff.mp hts]
    exact .none
  · obtain ⟨ys, hys, hs⟩ := Placed.separated (fun x _ => placed_name x) hne hts
    rw [List.map_id, List.map_id] at hys
    exact .some (hys ▸ hs)

theorem Expr.placed (e : Expr) (hg : e.grammatical = true) :
    Placed Expr.Spelled Expr.faces Expr.unlined e := by
  induction e using Expr.induct with
  | literal k v l =>
    intro ts hts
    obtain ⟨t, rfl, ht⟩ := List.map_eq_singleton_iff.mp hts
    have hv : t.value = v := congrArg Prod.snd ht
    exact ⟨.literal k t.value t.line, by rw [hv]; rfl, .literal (congrArg Prod.fst ht)⟩
  | list es l ih =>
    intro ts hts
    rw [faces, facesAll_eq_map] at hts
    obtain ⟨t, us, rfl, ht, hus⟩ := List.map_eq_cons_iff.mp hts
    obtain ⟨es', hes, hs⟩ := Placed.listed (fun e he => ih e he (grammaticalAll_iff.mp hg e he)) hus
    exact ⟨_, by simp [mapLines, hes], .list (Token.is_of_face ht) hs⟩
  | dict ps l ih =>
    intro ts hts
    rw [faces, facesPairs_eq_map] at hts
    obtain ⟨t, us, rfl, ht, hus⟩ := List.map_eq_cons_iff.mp hts
    have hpairs : ∀ p ∈ ps, Placed PairSpelled pairFaces (mapLinesPair fun _ => 1) p :=
      fun p hp =>
        have hkv := grammaticalPairs_iff.mp hg p hp
        placed_pair ((ih p hp).1 hkv.1) ((ih p hp).2 hkv.2)
    obtain ⟨ps', hps, hs⟩ := Placed.listed hpairs hus
    exact ⟨_, by simp [mapLines, hps], .dict (Token.is_of_face ht) hs⟩
  | var x l =>
    intro ts hts
    obtain ⟨t, rfl, ht⟩ := List.map_eq_singleton_iff.mp hts
    exact ⟨.var x t.line, rfl, .var (Token.names_of_face ht)⟩
  | binary op a b l iha ihb =>
    intro ts hts
    simp only [grammatical, Bool.and_eq_true] at hg
    obtain ⟨us, vs, rfl, hu, hv⟩ := List.map_eq_append_iff.mp hts
    obtain ⟨t, vs, rfl, ht, hv⟩ := List.map_eq_cons_iff.mp hv
    obtain ⟨a', ha, has⟩ := iha hg.1.1.1.1.2 us hu
    obtain ⟨b', hb, hbs⟩ := ihb hg.1.1.1.2 vs hv
    obtain ⟨k, hk, hop⟩ := BinaryOp.tokenKind?_of_isSome hg.1.1.1.1.1
    exact ⟨_, by simp [mapLines, ha, hb], .binary hk has (Token.is_of_face (ht.trans hop)) hbs⟩
  | unary op a l ih =>
    intro ts hts
    simp only [grammatical, Bool.and_eq_true] at hg
    obtain ⟨t, us, rfl, ht, hus⟩ := List.map_eq_cons_iff.mp hts
    obtain ⟨a', ha, has⟩ := ih hg.1.2 us hus
    obtain ⟨k, hk, hop⟩ := UnaryOp.tokenKind?_of_isSome hg.1.1
    exact ⟨_, by simp [mapLines, ha], .unary hk (Token.is_of_face (ht.trans hop)) has⟩
  | paren a l ih =>
    intro ts hts
    obtain ⟨t, us, rfl, ht, hus⟩ := List.map_eq_cons_iff.mp hts
    obtain ⟨us, vs, rfl, hu, hv⟩ := List.map_eq_append_iff.mp hus
    obtain ⟨close, rfl, hclose⟩ := List.map_eq_singleton_iff.mp hv
    obtain ⟨a', ha, has⟩ := ih hg us hu
    exact ⟨_, by simp [mapLines, ha],
      .paren (Token.is_of_face ht) has (Token.is_of_face hclose)⟩
  | call x es l ih =>
    intro ts hts
    obtain ⟨n, us, rfl, hn, hus⟩ := List.map_eq_cons_iff.mp hts
    obtain ⟨es', t, us, hes, rfl, ht, hs⟩ := placed_arguments ih hg hus
    exact ⟨_, by simp [mapLines, hes], .call (Token.names_of_face hn) ht hs⟩
  | lambda xs b l ih =>
    intro ts hts
    obtain ⟨t, us, rfl, ht, hus⟩ := List.map_eq_cons_iff.mp hts
    obtain ⟨us, vs, rfl, hu, hv⟩ := List.map_eq_append_iff.mp hus
    obtain ⟨colon, vs, rfl, hcolon, hv⟩ := List.map_eq_cons_iff.mp hv
    obtain ⟨b', hb, hbs⟩ := ih hg vs hv
    exact ⟨_, by simp [mapLines, hb],
      .lambda (Token.is_of_face ht) (placed_lambda_parameters hu) (Token.is_of_face hcolon) hbs⟩
  | newObject x es l ih =>
    intro ts hts
    obtain ⟨t, us, rfl, ht, hus⟩ := List.map_eq_cons_iff.mp hts
    obtain ⟨n, us, rfl, hn, hus⟩ := List.map_eq_cons_iff.mp hus
    obtain ⟨es', opening, us, hes, rfl, ho, hs⟩ := placed_arguments ih hg hus
    exact ⟨_, by simp [mapLines, hes],
      .newObject (Token.is_of_face ht) (Token.names_of_face hn) (.items ho hs)⟩
  | method a x es l iha ih =>
    intro ts hts
    simp only [grammatical, Bool.and_eq_true] at hg
    obtain ⟨us, vs, rfl, hu, hv⟩ := List.map_eq_append_iff.mp hts
    obtain ⟨dot, vs, rfl, hdot, hv⟩ := List.map_eq_cons_iff.mp hv
    obtain ⟨n, vs, rfl, hn, hv⟩ := List.map_eq_cons_iff.mp hv
    obtain ⟨a', ha, has⟩ := iha hg.1.1.1 us hu
    obtain ⟨es', opening, vs, hes, rfl, ho, hs⟩ := placed_arguments ih hg.2 hv
    exact ⟨_, by simp [mapLines, ha, hes],
      .method has (Token.is_of_face hdot) (Token.names_of_face hn) ho hs⟩
  | property a x l ih =>
    intro ts hts
    simp only [grammatical, Bool.and_eq_true] at hg
    obtain ⟨us, vs, rfl, hu, hv⟩ := List.map_eq_append_iff.mp hts
    obtain ⟨dot, vs, rfl, hdot, hv⟩ := List.map_eq_cons_iff.mp hv
    obtain ⟨n, rfl, hn⟩ := List.map_eq_singleton_iff.mp hv
    obtain ⟨a', ha, has⟩ := ih hg.1.1 us hu
    exact ⟨_, by simp [mapLines, ha],
      .property has (Token.is_of_face hdot) (Token.names_of_face hn)⟩
  | thisObject l =>
    intro ts hts
    obtain ⟨t, rfl, ht⟩ := List.map_eq_singleton_iff.mp hts
    exact ⟨.thisObject t.line, rfl, .thisObject (Token.is_of_face ht)⟩
  | superCall x es l ih =>
    intro ts hts
    obtain ⟨t, us, rfl, ht, hus⟩ := List.map_eq_cons_iff.mp hts
    obtain ⟨dot, us, rfl, hdot, hus⟩ := List.map_eq_cons_iff.mp hus
    obtain ⟨n, us, rfl, hn, hus⟩ := List.map_eq_cons_iff.mp hus
    obtain ⟨es', opening, us, hes, rfl, ho, hs⟩ := placed_arguments ih hg hus
    exact ⟨_, by simp [mapLines, hes], .superCall (Token.is_of_face ht)
      (Token.is_of_face hdot) (Token.names_of_face hn) (.items ho hs)⟩
  | index a i l iha ihi =>
    intro ts hts
    simp only [grammatical, Bool.and_eq_true] at hg
    obtain ⟨us, vs, rfl, hu, hv⟩ := List.map_eq_append_iff.mp hts
    obtain ⟨close, rfl, hclose⟩ := List.map_eq_singleton_iff.mp hv
    obtain ⟨us, vs, rfl, ha, hv⟩ := List.map_eq_append_iff.mp hu
    obtain ⟨opening, vs, rfl, ho, hv⟩ := List.map_eq_cons_iff.mp hv
    obtain ⟨a', ha, has⟩ := iha hg.1.1.1 us ha
    obtain ⟨i', hi, his⟩ := ihi hg.2 vs hv
    exact ⟨_, by simp [mapLines, ha, hi],
      .index has (Token.is_of_face ho) his (Token.is_of_face hclose)⟩
  | foreign => simp [grammatical] at hg

abbrev Stmt.unlined (s : Stmt) : Stmt :=
  s.mapLines fun _ => 1

abbrev Branch.unlined (b : Branch) : Branch :=
  b.mapLines fun _ => 1

abbrev FunctionDef.unlined (g : FunctionDef) : FunctionDef :=
  g.mapLines fun _ => 1

/-- Are all of these statements in place that are grammatical? -/
abbrev Stmt.PlacedAll (ss : List Stmt) : Prop :=
  ∀ s ∈ ss, s.grammatical = true → Placed Stmt.Spelled Stmt.faces Stmt.unlined s

theorem placed_parameters {xs : List String} {ts : List Token}
    (hts : ts.map Token.face = arguments (xs.map fun x => [name x])) :
    ∃ opening us, ts = opening :: us ∧ opening.Is .lparen ∧ Enclosed NameSpelled xs us := by
  obtain ⟨ys, opening, us, hys, rfl, ho, hs⟩ := Placed.arguments (fun x _ => placed_name x) hts
  rw [List.map_id, List.map_id] at hys
  exact ⟨opening, us, rfl, ho, hys ▸ hs⟩

section

variable {ts : List Token} {body : List Stmt}

theorem Stmt.placed_block (h : Stmt.PlacedAll body) (hg : Stmt.grammaticalBlock body = true)
    (hts : ts.map Token.face = block (Stmt.facesAll body)) :
    ∃ body' brace us, body'.map Stmt.unlined = body.map Stmt.unlined ∧ ts = brace :: us ∧
      brace.Is .lbrace ∧ Block Stmt.Spelled body' us := by
  rw [Stmt.facesAll_eq_flatMap] at hts
  exact Placed.block (fun s hs => h s hs (Stmt.grammatical_of_mem hg hs)) hts

theorem Stmt.placed_option {o : Option (List Stmt)} (h : ∀ ss ∈ o, Stmt.PlacedAll ss)
    (hg : Stmt.grammaticalOption o = true) (k : TokenKind) :
    Placed (OptionallyBraced Stmt.Spelled k) (Stmt.facesOption k)
      (Stmt.mapLinesOption fun _ => 1) o := by
  intro ts hts
  cases o with
  | none =>
    rw [List.map_eq_nil_iff.mp hts]
    exact ⟨none, rfl, .none⟩
  | some ss =>
    obtain ⟨t, us, rfl, ht, hus⟩ := List.map_eq_cons_iff.mp hts
    obtain ⟨ss', brace, us, hss, rfl, hb, hs⟩ := Stmt.placed_block (h ss rfl) hg hus
    exact ⟨_, by simp [Stmt.mapLinesOption, hss], .some (Token.is_of_face ht) hb hs⟩

theorem Branch.placed {b : Branch} (h : Stmt.PlacedAll b.body) (hg : b.grammatical = true) :
    Placed Branch.Spelled Branch.faces Branch.unlined b := by
  intro ts hts
  cases b with
  | mk e body =>
    simp only [Branch.grammatical, Bool.and_eq_true] at hg
    obtain ⟨ts, us, rfl, hts, hus⟩ := List.map_eq_append_iff.mp hts
    obtain ⟨t, ts, rfl, ht, hts⟩ := List.map_eq_cons_iff.mp hts
    obtain ⟨e', he, hes⟩ := e.placed hg.1 ts hts
    have hbody : Stmt.PlacedAll body := h
    obtain ⟨body', brace, us, hbody, rfl, hb, hs⟩ := Stmt.placed_block hbody hg.2 hus
    exact ⟨_, by simp [Branch.mapLines, he, hbody], .mk (Token.is_of_face ht) hes hb hs⟩

theorem FunctionDef.placed {g : FunctionDef} (h : Stmt.PlacedAll g.body)
    (hg : g.grammatical = true) :
    Placed FunctionDef.Spelled FunctionDef.faces FunctionDef.unlined g := by
  intro ts hts
  cases g with
  | mk x xs body l =>
    obtain ⟨ts, us, rfl, hts, hus⟩ := List.map_eq_append_iff.mp hts
    obtain ⟨t, ts, rfl, ht, hts⟩ := List.map_eq_cons_iff.mp hts
    obtain ⟨n, ts, rfl, hn, hts⟩ := List.map_eq_cons_iff.mp hts
    obtain ⟨opening, ts, rfl, ho, hxs⟩ := placed_parameters hts
    have hbody : Stmt.PlacedAll body := h
    obtain ⟨body', brace, us, hbody, rfl, hb, hs⟩ := Stmt.placed_block hbody hg hus
    exact ⟨_, by simp [FunctionDef.mapLines, hbody],
      .mk (Token.is_of_face ht) (Token.names_of_face hn) ho hxs hb hs⟩

end

/-- How the parent of a class is written. -/
def parentFaces : Option String → List Face
  | none => []
  | some x => [word .extendsKw, name x]

/-- How the name for a caught error is written. -/
def caughtFaces : Option String → List Face
  | none => []
  | some x => [name x]

theorem placed_parent {parent : Option String} {ts : List Token}
    (hts : ts.map Token.face = parentFaces parent) : ParentSpelled parent ts := by
  cases parent with
  | none =>
    rw [List.map_eq_nil_iff.mp hts]
    exact .none
  | some x =>
    obtain ⟨t, us, rfl, ht, hus⟩ := List.map_eq_cons_iff.mp hts
    obtain ⟨n, rfl, hn⟩ := List.map_eq_singleton_iff.mp hus
    exact .some (Token.is_of_face ht) (Token.names_of_face hn)

theorem placed_caught {x? : Option String} {ts : List Token}
    (hts : ts.map Token.face = caughtFaces x?) : CaughtSpelled x? ts := by
  cases x? with
  | none =>
    rw [List.map_eq_nil_iff.mp hts]
    exact .none
  | some x =>
    obtain ⟨n, rfl, hn⟩ := List.map_eq_singleton_iff.mp hts
    exact .some (Token.names_of_face hn)

namespace Stmt

theorem faces_classDef (x : String) (parent : Option String) (gs : List FunctionDef) (l : Nat) :
    (classDef x parent gs l).faces =
      word .classKw :: name x :: (parentFaces parent ++ block (gs.flatMap FunctionDef.faces)) := by
  rw [← FunctionDef.facesAll_eq_flatMap]
  cases parent <;> rfl

theorem faces_attempt_handler (body : List Stmt) (x? : Option String) (handler : List Stmt)
    (finalizer : Option (List Stmt)) (l : Nat) :
    (attempt body x? (some handler) finalizer l).faces =
      word .tryKw :: block (facesAll body) ++
        word .catchKw :: (caughtFaces x? ++ block (facesAll handler)) ++
          facesOption .finallyKw finalizer := by
  cases x? <;> rfl

section

variable {a i e : Expr} {es : List Expr} {x y : String} {l : Nat} {body : List Stmt}

theorem placed_expr (hg : (expr e).grammatical = true) :
    Placed Stmt.Spelled faces unlined (.expr e) := by
  intro ts hts
  cases e with
  | call x es l =>
    obtain ⟨n, us, rfl, hn, hus⟩ := List.map_eq_cons_iff.mp hts
    obtain ⟨es', opening, us, hes, rfl, ho, hs⟩ :=
      Expr.placed_arguments (fun e _ => e.placed) hg hus
    exact ⟨_, by simp [mapLines, Expr.mapLines, hes], .call (Token.names_of_face hn) ho hs⟩
  | method a y es l' =>
    cases a with
    | var x l =>
      obtain ⟨n, us, rfl, hn, hus⟩ := List.map_eq_cons_iff.mp hts
      obtain ⟨dot, us, rfl, hdot, hus⟩ := List.map_eq_cons_iff.mp hus
      obtain ⟨n', us, rfl, hn', hus⟩ := List.map_eq_cons_iff.mp hus
      obtain ⟨es', opening, us, hes, rfl, ho, hs⟩ :=
        Expr.placed_arguments (fun e _ => e.placed) hg hus
      exact ⟨_, by simp [mapLines, Expr.mapLines, hes], .method (Token.names_of_face hn)
        (Token.is_of_face hdot) (Token.names_of_face hn') ho hs⟩
    | _ => cases hg
  | _ => cases hg

theorem placed_assign (hg : e.grammatical = true) :
    Placed Stmt.Spelled faces unlined (.assign x e l) := by
  intro ts hts
  obtain ⟨n, us, rfl, hn, hus⟩ := List.map_eq_cons_iff.mp hts
  obtain ⟨equals, us, rfl, hequals, hus⟩ := List.map_eq_cons_iff.mp hus
  obtain ⟨e', he, hes⟩ := e.placed hg us hus
  exact ⟨_, by simp [mapLines, he],
    .assign (Token.names_of_face hn) (Token.is_of_face hequals) hes⟩

/-- What stands behind the object in an assignment to one of its properties. -/
theorem placed_property {ts : List Token} (hg : e.grammatical = true)
    (hts : ts.map Token.face = word .dot :: name y :: word .assign :: e.faces) :
    ∃ (e' : Expr) (dot n equals : Token) (us : List Token), e'.unlined = e.unlined ∧
      ts = dot :: n :: equals :: us ∧ dot.Is .dot ∧ n.Names y ∧ equals.Is .assign ∧
        e'.Spelled us := by
  obtain ⟨dot, us, rfl, hdot, hus⟩ := List.map_eq_cons_iff.mp hts
  obtain ⟨n, us, rfl, hn, hus⟩ := List.map_eq_cons_iff.mp hus
  obtain ⟨equals, us, rfl, hequals, hus⟩ := List.map_eq_cons_iff.mp hus
  obtain ⟨e', he, hes⟩ := e.placed hg us hus
  exact ⟨e', dot, n, equals, us, he, rfl, Token.is_of_face hdot, Token.names_of_face hn,
    Token.is_of_face hequals, hes⟩

theorem placed_setProperty (hg : (setProperty a y e l).grammatical = true) :
    Placed Stmt.Spelled faces unlined (.setProperty a y e l) := by
  intro ts hts
  cases a with
  | var x l' =>
    obtain ⟨n, us, rfl, hn, hus⟩ := List.map_eq_cons_iff.mp hts
    obtain ⟨e', dot, n', equals, us, he, rfl, hdot, hn', hequals, hes⟩ := placed_property hg hus
    exact ⟨_, by simp [mapLines, Expr.mapLines, he],
      .setProperty (Token.names_of_face hn) hdot hn' hequals hes⟩
  | thisObject l' =>
    obtain ⟨t, us, rfl, ht, hus⟩ := List.map_eq_cons_iff.mp hts
    obtain ⟨e', dot, n, equals, us, he, rfl, hdot, hn, hequals, hes⟩ := placed_property hg hus
    exact ⟨_, by simp [mapLines, Expr.mapLines, he],
      .setThis (Token.is_of_face ht) hdot hn hequals hes⟩
  | _ => cases hg

theorem placed_setIndex (hg : (setIndex a i e l).grammatical = true) :
    Placed Stmt.Spelled faces unlined (.setIndex a i e l) := by
  intro ts hts
  cases a with
  | var x l' =>
    simp only [grammatical, Bool.and_eq_true] at hg
    obtain ⟨us, vs, rfl, hus, hvs⟩ := List.map_eq_append_iff.mp hts
    obtain ⟨n, us, rfl, hn, hus⟩ := List.map_eq_cons_iff.mp hus
    obtain ⟨opening, us, rfl, ho, hus⟩ := List.map_eq_cons_iff.mp hus
    obtain ⟨close, vs, rfl, hc, hvs⟩ := List.map_eq_cons_iff.mp hvs
    obtain ⟨equals, vs, rfl, hequals, hvs⟩ := List.map_eq_cons_iff.mp hvs
    obtain ⟨i', hi, his⟩ := i.placed hg.1 us hus
    obtain ⟨e', he, hes⟩ := e.placed hg.2 vs hvs
    exact ⟨_, by simp [mapLines, Expr.mapLines, hi, he], .setIndex (Token.names_of_face hn)
      (Token.is_of_face ho) his (Token.is_of_face hc) (Token.is_of_face hequals) hes⟩
  | _ => cases hg

theorem placed_print (hg : Expr.grammaticalAll es = true) :
    Placed Stmt.Spelled faces unlined (.print es l) := by
  intro ts hts
  obtain ⟨t, us, rfl, ht, hus⟩ := List.map_eq_cons_iff.mp hts
  obtain ⟨es', opening, us, hes, rfl, ho, hs⟩ :=
    Expr.placed_arguments (fun e _ => e.placed) hg hus
  exact ⟨_, by simp [mapLines, hes], .print (Token.is_of_face ht) ho hs⟩

theorem placed_input {prompt : Option Expr} (hg : (input x prompt l).grammatical = true) :
    Placed Stmt.Spelled faces unlined (.input x prompt l) := by
  intro ts hts
  cases prompt with
  | none =>
    obtain ⟨t, us, rfl, ht, hus⟩ := List.map_eq_cons_iff.mp hts
    obtain ⟨n, rfl, hn⟩ := List.map_eq_singleton_iff.mp hus
    exact ⟨.input x none t.line, rfl, .input (Token.is_of_face ht) (Token.names_of_face hn)⟩
  | some e =>
    -- the grammar has no other prompt than a string
    cases e with
    | literal k v l' =>
      cases k with
      | string =>
        obtain ⟨t, us, rfl, ht, hus⟩ := List.map_eq_cons_iff.mp hts
        obtain ⟨n, us, rfl, hn, hus⟩ := List.map_eq_cons_iff.mp hus
        obtain ⟨prompt, rfl, hp⟩ := List.map_eq_singleton_iff.mp hus
        have hv : prompt.value = v := congrArg Prod.snd hp
        exact ⟨_, by simp [mapLines, Expr.mapLines, hv], .inputWith (Token.is_of_face ht)
          (Token.names_of_face hn) (congrArg Prod.fst hp)⟩
      | _ => cases hg
    | _ => cases hg

theorem placed_giveBack {e? : Option Expr} (hg : (giveBack e? l).grammatical = true) :
    Placed Stmt.Spelled faces unlined (.giveBack e? l) := by
  intro ts hts
  cases e? with
  | none =>
    obtain ⟨t, rfl, ht⟩ := List.map_eq_singleton_iff.mp hts
    exact ⟨.giveBack none t.line, rfl, .giveBack (Token.is_of_face ht)⟩
  | some e =>
    obtain ⟨t, us, rfl, ht, hus⟩ := List.map_eq_cons_iff.mp hts
    obtain ⟨e', he, hes⟩ := e.placed hg us hus
    exact ⟨_, by simp [mapLines, he], .giveBackWith (Token.is_of_face ht) hes⟩

theorem placed_raiseError (hg : e.grammatical = true) :
    Placed Stmt.Spelled faces unlined (.raiseError e l) := by
  intro ts hts
  obtain ⟨t, us, rfl, ht, hus⟩ := List.map_eq_cons_iff.mp hts
  obtain ⟨e', he, hes⟩ := e.placed hg us hus
  exact ⟨_, by simp [mapLines, he], .raiseError (Token.is_of_face ht) hes⟩

theorem placed_whileLoop (h : PlacedAll body) (hg : (whileLoop e body l).grammatical = true) :
    Placed Stmt.Spelled faces unlined (.whileLoop e body l) := by
  intro ts hts
  simp only [grammatical, Bool.and_eq_true] at hg
  obtain ⟨ts, us, rfl, hts, hus⟩ := List.map_eq_append_iff.mp hts
  obtain ⟨t, ts, rfl, ht, hts⟩ := List.map_eq_cons_iff.mp hts
  obtain ⟨e', he, hes⟩ := e.placed hg.1 ts hts
  obtain ⟨body', brace, us, hbody, rfl, hb, hs⟩ := placed_block h hg.2 hus
  exact ⟨_, by simp [mapLines, he, hbody], .whileLoop (Token.is_of_face ht) hes hb hs⟩

theorem placed_forLoop (h : PlacedAll body) (hg : (forLoop x e body l).grammatical = true) :
    Placed Stmt.Spelled faces unlined (.forLoop x e body l) := by
  intro ts hts
  simp only [grammatical, Bool.and_eq_true] at hg
  obtain ⟨ts, us, rfl, hts, hus⟩ := List.map_eq_append_iff.mp hts
  obtain ⟨t, ts, rfl, ht, hts⟩ := List.map_eq_cons_iff.mp hts
  obtain ⟨n, ts, rfl, hn, hts⟩ := List.map_eq_cons_iff.mp hts
  obtain ⟨inWord, ts, rfl, hin, hts⟩ := List.map_eq_cons_iff.mp hts
  obtain ⟨e', he, hes⟩ := e.placed hg.1 ts hts
  obtain ⟨body', brace, us, hbody, rfl, hb, hs⟩ := placed_block h hg.2 hus
  exact ⟨_, by simp [mapLines, he, hbody], .forLoop (Token.is_of_face ht)
    (Token.names_of_face hn) (Token.is_of_face hin) hes hb hs⟩

theorem placed_ifElse {bs : List Branch} {otherwise : Option (List Stmt)}
    (hbody : PlacedAll body) (hbs : ∀ b ∈ bs, PlacedAll b.body)
    (ho : ∀ ss ∈ otherwise, PlacedAll ss)
    (hg : (ifElse e body bs otherwise l).grammatical = true) :
    Placed Stmt.Spelled faces unlined (.ifElse e body bs otherwise l) := by
  intro ts hts
  simp only [grammatical, Bool.and_eq_true] at hg
  rw [faces, Branch.facesAll_eq_flatMap] at hts
  obtain ⟨ts, ws, rfl, hts, hws⟩ := List.map_eq_append_iff.mp hts
  obtain ⟨ts, vs, rfl, hts, hvs⟩ := List.map_eq_append_iff.mp hts
  obtain ⟨ts, us, rfl, hts, hus⟩ := List.map_eq_append_iff.mp hts
  obtain ⟨t, ts, rfl, ht, hts⟩ := List.map_eq_cons_iff.mp hts
  obtain ⟨e', he, hes⟩ := e.placed hg.1.1.1 ts hts
  obtain ⟨body', brace, us, hbody, rfl, hb, hs⟩ := placed_block hbody hg.1.1.2 hus
  obtain ⟨bs', hbs, hbss⟩ := Placed.sequence
    (fun b hb => Branch.placed (hbs b hb) (Branch.grammatical_of_mem hg.1.2 hb)) hvs
  obtain ⟨otherwise', ho, hos⟩ := placed_option ho hg.2 .elseKw ws hws
  exact ⟨_, by simp [mapLines, he, hbody, hbs, ho],
    .ifElse (Token.is_of_face ht) hes hb hs hbss hos⟩

theorem placed_classDef {parent : Option String} {gs : List FunctionDef}
    (h : ∀ g ∈ gs, PlacedAll g.body) (hg : FunctionDef.grammaticalAll gs = true) :
    Placed Stmt.Spelled faces unlined (.classDef x parent gs l) := by
  intro ts hts
  rw [faces_classDef] at hts
  obtain ⟨t, us, rfl, ht, hus⟩ := List.map_eq_cons_iff.mp hts
  obtain ⟨n, us, rfl, hn, hus⟩ := List.map_eq_cons_iff.mp hus
  obtain ⟨us, vs, rfl, hus, hvs⟩ := List.map_eq_append_iff.mp hus
  have hp := placed_parent hus
  obtain ⟨gs', brace, vs, hgs, rfl, hb, hs⟩ := Placed.block
    (fun g hmem => FunctionDef.placed (h g hmem) (FunctionDef.grammatical_of_mem hg hmem)) hvs
  exact ⟨_, by simp [mapLines, hgs],
    .classDef (Token.is_of_face ht) (Token.names_of_face hn) hp hb hs⟩

theorem placed_attempt {finalizer : Option (List Stmt)} (hbody : PlacedAll body)
    (hf : ∀ ss ∈ finalizer, PlacedAll ss)
    (hg : grammaticalBlock body = true) (hgf : grammaticalOption finalizer = true) :
    Placed Stmt.Spelled faces unlined (.attempt body none none finalizer l) := by
  intro ts hts
  obtain ⟨ts, us, rfl, hts, hus⟩ := List.map_eq_append_iff.mp hts
  obtain ⟨t, ts, rfl, ht, hts⟩ := List.map_eq_cons_iff.mp hts
  obtain ⟨body', brace, ts, hbody, rfl, hb, hs⟩ := placed_block hbody hg hts
  obtain ⟨finalizer', hf, hfs⟩ := placed_option hf hgf .finallyKw us hus
  exact ⟨_, by simp [mapLines, hbody, hf], .attempt (Token.is_of_face ht) hb hs hfs⟩

theorem placed_attempt_handler {x? : Option String} {handler : List Stmt}
    {finalizer : Option (List Stmt)} (hbody : PlacedAll body) (hh : PlacedAll handler)
    (hf : ∀ ss ∈ finalizer, PlacedAll ss)
    (hg : grammaticalBlock body = true) (hgh : grammaticalBlock handler = true)
    (hgf : grammaticalOption finalizer = true) :
    Placed Stmt.Spelled faces unlined (.attempt body x? (some handler) finalizer l) := by
  intro ts hts
  rw [faces_attempt_handler] at hts
  obtain ⟨ts, ws, rfl, hts, hws⟩ := List.map_eq_append_iff.mp hts
  obtain ⟨ts, vs, rfl, hts, hvs⟩ := List.map_eq_append_iff.mp hts
  obtain ⟨t, ts, rfl, ht, hblock⟩ := List.map_eq_cons_iff.mp hts
  obtain ⟨body', brace, ts, hbody, rfl, hb, hs⟩ := placed_block hbody hg hblock
  obtain ⟨t', vs, rfl, ht', hvs⟩ := List.map_eq_cons_iff.mp hvs
  obtain ⟨us, vs, rfl, hus, hvs⟩ := List.map_eq_append_iff.mp hvs
  have hx := placed_caught hus
  obtain ⟨handler', brace', vs, hh, rfl, hb', hhs⟩ := placed_block hh hgh hvs
  obtain ⟨finalizer', hf, hfs⟩ := placed_option hf hgf .finallyKw ws hws
  have hspelled := Stmt.Spelled.attemptWith (Token.is_of_face ht) hb hs
    (Token.is_of_face ht') hx hb' hhs hfs
  refine ⟨_, ?_, by simpa using hspelled⟩
  simp [mapLines, mapLinesOption, hbody, hh, hf]

end

theorem placed (s : Stmt) (hg : s.grammatical = true) : Placed Stmt.Spelled faces unlined s := by
  induction s using Stmt.induct with
  | expr e => exact placed_expr hg
  | assign x e l => exact placed_assign hg
  | setProperty a y e l => exact placed_setProperty hg
  | setIndex a i e l => exact placed_setIndex hg
  | print es l => exact placed_print hg
  | input x prompt l => exact placed_input hg
  | ifElse e body bs otherwise l ihbody ihbs iho => exact placed_ifElse ihbody ihbs iho hg
  | whileLoop e body l ih => exact placed_whileLoop ih hg
  | forLoop x e body l ih => exact placed_forLoop ih hg
  | breakLoop l =>
    intro ts hts
    obtain ⟨t, rfl, ht⟩ := List.map_eq_singleton_iff.mp hts
    exact ⟨.breakLoop t.line, rfl, .breakLoop (Token.is_of_face ht)⟩
  | continueLoop l =>
    intro ts hts
    obtain ⟨t, rfl, ht⟩ := List.map_eq_singleton_iff.mp hts
    exact ⟨.continueLoop t.line, rfl, .continueLoop (Token.is_of_face ht)⟩
  | function g ih =>
    intro ts hts
    obtain ⟨g', hg', hs⟩ := FunctionDef.placed ih hg ts hts
    exact ⟨.function g', by simp [mapLines, hg'], .function hs⟩
  | giveBack e? l => exact placed_giveBack hg
  | classDef x parent gs l ih => exact placed_classDef ih hg
  | attempt body x? handler finalizer l ihbody ihh ihf =>
    simp only [grammatical, Bool.and_eq_true] at hg
    cases handler with
    | none =>
      cases x? with
      | none => exact placed_attempt ihbody ihf hg.1.1.1 hg.2
      | some x => simp at hg
    | some handler =>
      exact placed_attempt_handler ihbody (ihh _ rfl) ihf hg.1.1.1 hg.1.2 hg.2
  | raiseError e l => exact placed_raiseError hg
  | importFile | foreign => cases hg

end Stmt

namespace Program

def grammatical (p : Program) : Bool :=
  Stmt.grammaticalBlock p.statements

def faces (p : Program) : List Face :=
  Stmt.facesAll p.statements

abbrev unlined (p : Program) : Program :=
  p.mapLines fun _ => 1

/-- A grammatical program, written down and parsed again, is the same program up to its lines. All
of its tokens are consumed, and there is nothing to complain about. -/
theorem parse_faces (lang : Lang) (p : Program) (hp : p.grammatical = true) (ts : List Token)
    (hts : ts.map Token.face = p.faces) (last : Token) (hlast : last.kind = .eof) :
    ∃ q c, Parse.program lang (.ofTokens (ts ++ [last])) = .ok q c ∧ q.unlined = p.unlined ∧
      c.index = ts.length ∧ c.errors = [] := by
  rw [faces, Stmt.facesAll_eq_flatMap] at hts
  obtain ⟨ss, hss, hs⟩ := Placed.sequence
    (fun s hs => s.placed (Stmt.grammatical_of_mem hp hs)) hts
  have hg : Stmt.grammaticalBlock ss = true := by
    rw [← Stmt.grammaticalBlock_mapLines (f := fun _ => 1), Stmt.mapLinesAll_eq_map]
    rw [hss, ← Stmt.mapLinesAll_eq_map, Stmt.grammaticalBlock_mapLines]
    exact hp
  refine ⟨{ statements := ss }, _, Parse.program_of_sequence lang hs hg hlast, ?_, ?_, rfl⟩
  · rw [unlined, unlined, mapLines, mapLines, hss]
  · exact Nat.zero_add _

theorem parse_faces_conditional :
    let p : Program :=
      { statements :=
          [.assign "x" (.binary .multiply (.paren (.binary .add (.literal .number (.int 1) 1)
            (.var "y" 1) 1) 1) (.index (.var "z" 1) (.literal .number (.int 0) 1) 1) 1) 1,
           .ifElse (.binary .less (.var "x" 1) (.call "f" [.var "y" 1, .thisObject 1] 1) 1)
            [.print [.lambda ["a"] (.unary .negate (.var "a" 1) 1) 1] 2] []
            (some [.giveBack none 3]) 2,
           .attempt [.raiseError (.dict [(.literal .string (.str "k") 4, .list [] 4)] 4) 4]
            (some "e") (some [.breakLoop 5]) none 4] }
    let ts := p.faces.map fun (k, v) => { kind := k, value := v, line := 9 : Token }
    p.grammatical = true ∧ ∃ q c, Parse.program .english (.ofTokens (ts ++ [{ kind := .eof }])) =
      .ok q c ∧ q.unlined = p.unlined ∧ c.index = ts.length ∧ c.errors = [] := by
  intro p ts
  exact ⟨by decide, parse_faces .english p (by decide) ts rfl { kind := .eof } rfl⟩

end Program

end Bhasha
