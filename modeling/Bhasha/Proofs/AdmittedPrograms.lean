import Bhasha.Proofs.Grammar
import Bhasha.Proofs.LexicalNames

namespace Bhasha

/-- What is in sight at a place of a program: the names that have been bound there, and others that
are taken for bound. -/
structure Sight where
  bound : List String := []
  claimed : List String := []

namespace Sight

def bind (k : Sight) (xs : List String) : Sight :=
  { k with bound := xs ++ k.bound }

def claim (k : Sight) (xs : List String) : Sight :=
  { k with claimed := xs ++ k.claimed }

def binds (k : Sight) (x : String) : Bool :=
  introduced k.bound x

end Sight

/-- What is admitted: references to these names, and perhaps other parts of a program. -/
structure Rule where
  name : Sight → String → Bool
  /-- Classes, objects and `padho` are admitted. -/
  objects : Bool
  /-- Imports are admitted, and parts without a meaning. -/
  strange : Bool

mutual

/-- The rule admits the expression and all references in it. -/
def Expr.admitted (r : Rule) (k : Sight) : Expr → Bool
  | .literal _ _ _ => true
  | .list es _ => Expr.admittedAll r k es
  | .dict ps _ => Expr.admittedPairs r k ps
  | .var x _ => r.name k x
  | .binary _ a b _ => a.admitted r k && b.admitted r k
  | .unary _ a _ => a.admitted r k
  | .paren a _ => a.admitted r k
  | .call x es _ => r.name k x && Expr.admittedAll r k es
  | .lambda ps b _ => b.admitted r (k.bind ps)
  | .newObject x es _ => r.objects && r.name k x && Expr.admittedAll r k es
  | .method a _ es _ => a.admitted r k && Expr.admittedAll r k es
  | .property a _ _ => a.admitted r k
  | .thisObject _ => r.objects
  | .superCall _ es _ => r.objects && Expr.admittedAll r k es
  | .index a i _ => a.admitted r k && i.admitted r k
  | .foreign _ _ _ => r.strange
termination_by structural e => e

def Expr.admittedAll (r : Rule) (k : Sight) : List Expr → Bool
  | [] => true
  | e :: es => e.admitted r k && Expr.admittedAll r k es
termination_by structural es => es

def Expr.admittedPairs (r : Rule) (k : Sight) : List (Expr × Expr) → Bool
  | [] => true
  | (a, b) :: ps => a.admitted r k && b.admitted r k && Expr.admittedPairs r k ps
termination_by structural ps => ps

end

def FunctionDef.names (fs : List FunctionDef) : List String :=
  fs.map FunctionDef.name

mutual

/-- The rule admits the statement and all references in it. What a block binds is in sight to the
end of the block. `padho` claims its name, a class claims its own name before it looks up its
parent, and the methods of a class claim each other. -/
def Stmt.admitted (r : Rule) (k : Sight) : Stmt → Bool
  | .expr e => e.admitted r k
  | .assign _ e _ => e.admitted r k
  | .setProperty a _ e _ => a.admitted r k && e.admitted r k
  | .setIndex a i e _ => a.admitted r k && i.admitted r k && e.admitted r k
  | .print es _ => Expr.admittedAll r k es
  | .input x e? _ => r.objects && r.name (k.claim [x]) x && e?.all (Expr.admitted r (k.claim [x]))
  | .ifElse e body bs otherwise _ =>
    e.admitted r k && Stmt.admittedAll r k body && Branch.admittedAll r k bs &&
      Stmt.admittedOption r k otherwise
  | .whileLoop e body _ => e.admitted r k && Stmt.admittedAll r k body
  | .forLoop x e body _ => e.admitted r k && Stmt.admittedAll r (k.bind [x]) body
  | .breakLoop _ => true
  | .continueLoop _ => true
  | .function f => f.admitted r (k.bind [f.name])
  | .giveBack e? _ => e?.all (Expr.admitted r k)
  | .classDef x parent fs _ =>
    r.objects && (Run.nonempty parent).all (r.name (k.claim [x])) &&
      FunctionDef.admittedAll r ((k.bind [x]).claim (FunctionDef.names fs)) fs
  | .attempt body x? handler finalizer _ =>
    Stmt.admittedAll r k body &&
      Stmt.admittedOption r (k.bind (Run.nonempty x?).toList) handler &&
      Stmt.admittedOption r k finalizer
  | .raiseError e _ => e.admitted r k
  | .importFile _ _ => r.strange
  | .foreign _ _ _ => r.strange
termination_by structural s => s

def Stmt.admittedAll (r : Rule) (k : Sight) : List Stmt → Bool
  | [] => true
  | s :: ss => s.admitted r k && Stmt.admittedAll r (k.bind s.binds) ss
termination_by structural ss => ss

def Stmt.admittedOption (r : Rule) (k : Sight) : Option (List Stmt) → Bool
  | none => true
  | some ss => Stmt.admittedAll r k ss
termination_by structural ss? => ss?

def Branch.admittedAll (r : Rule) (k : Sight) : List Branch → Bool
  | [] => true
  | .mk e body :: bs =>
    e.admitted r k && Stmt.admittedAll r k body && Branch.admittedAll r k bs
termination_by structural bs => bs

def FunctionDef.admitted (r : Rule) (k : Sight) : FunctionDef → Bool
  | .mk _ ps body _ => Stmt.admittedAll r (k.bind ps) body
termination_by structural f => f

def FunctionDef.admittedAll (r : Rule) (k : Sight) : List FunctionDef → Bool
  | [] => true
  | f :: fs => f.admitted r k && FunctionDef.admittedAll r k fs
termination_by structural fs => fs

end

def Task.admitted (r : Rule) (k : Sight) : Task → Bool
  | .statements ss => Stmt.admittedAll r k ss
  | .expression e => e.admitted r k

theorem and_eq_and {a a' b b' : Bool} (ha : a = a') (hb : b = b') : (a && b) = (a' && b') := by
  rw [ha, hb]

section

variable (name : Sight → String → Bool) (claimed : List String)

mutual

theorem Expr.admitted_eq_lexical : ∀ (e : Expr) names,
    e.admitted ⟨name, false, false⟩ ⟨names, claimed⟩ =
      e.lexical (fun bound => name ⟨bound, claimed⟩) names
  | .literal _ _ _, _ => rfl
  | .list es _, names => Expr.admittedAll_eq_lexicalAll es names
  | .dict ps _, names => Expr.admittedPairs_eq_lexicalPairs ps names
  | .var _ _, _ => rfl
  | .binary _ a b _, names => and_eq_and (a.admitted_eq_lexical names) (b.admitted_eq_lexical names)
  | .unary _ a _, names => a.admitted_eq_lexical names
  | .paren a _, names => a.admitted_eq_lexical names
  | .call _ es _, names => and_eq_and rfl (Expr.admittedAll_eq_lexicalAll es names)
  | .lambda ps b _, names => b.admitted_eq_lexical (ps ++ names)
  | .newObject _ _ _, _ => rfl
  | .method a _ es _, names =>
    and_eq_and (a.admitted_eq_lexical names) (Expr.admittedAll_eq_lexicalAll es names)
  | .property a _ _, names => a.admitted_eq_lexical names
  | .thisObject _, _ => rfl
  | .superCall _ _ _, _ => rfl
  | .index a i _, names => and_eq_and (a.admitted_eq_lexical names) (i.admitted_eq_lexical names)
  | .foreign _ _ _, _ => rfl
termination_by structural e => e

theorem Expr.admittedAll_eq_lexicalAll : ∀ (es : List Expr) names,
    Expr.admittedAll ⟨name, false, false⟩ ⟨names, claimed⟩ es =
      Expr.lexicalAll (fun bound => name ⟨bound, claimed⟩) names es
  | [], _ => rfl
  | e :: es, names =>
    and_eq_and (e.admitted_eq_lexical names) (Expr.admittedAll_eq_lexicalAll es names)
termination_by structural es => es

theorem Expr.admittedPairs_eq_lexicalPairs : ∀ (ps : List (Expr × Expr)) names,
    Expr.admittedPairs ⟨name, false, false⟩ ⟨names, claimed⟩ ps =
      Expr.lexicalPairs (fun bound => name ⟨bound, claimed⟩) names ps
  | [], _ => rfl
  | (a, b) :: ps, names =>
    and_eq_and (and_eq_and (a.admitted_eq_lexical names) (b.admitted_eq_lexical names))
      (Expr.admittedPairs_eq_lexicalPairs ps names)
termination_by structural ps => ps

end

mutual

theorem Stmt.admitted_eq_lexical : ∀ (s : Stmt) names,
    s.admitted ⟨name, false, false⟩ ⟨names, claimed⟩ =
      s.lexical (fun bound => name ⟨bound, claimed⟩) names
  | .expr e, names => e.admitted_eq_lexical name claimed names
  | .assign _ e _, names => e.admitted_eq_lexical name claimed names
  | .setProperty a _ e _, names =>
    and_eq_and (a.admitted_eq_lexical name claimed names) (e.admitted_eq_lexical name claimed names)
  | .setIndex a i e _, names =>
    and_eq_and (and_eq_and (a.admitted_eq_lexical name claimed names)
      (i.admitted_eq_lexical name claimed names)) (e.admitted_eq_lexical name claimed names)
  | .print es _, names => Expr.admittedAll_eq_lexicalAll name claimed es names
  | .input _ _ _, _ => rfl
  | .ifElse e body bs otherwise _, names =>
    and_eq_and (and_eq_and (and_eq_and (e.admitted_eq_lexical name claimed names)
      (Stmt.admittedAll_eq_lexicalAll body names)) (Branch.admittedAll_eq_lexicalAll bs names))
      (Stmt.admittedOption_eq_lexicalOption otherwise names)
  | .whileLoop e body _, names =>
    and_eq_and (e.admitted_eq_lexical name claimed names)
      (Stmt.admittedAll_eq_lexicalAll body names)
  | .forLoop x e body _, names =>
    and_eq_and (e.admitted_eq_lexical name claimed names)
      (Stmt.admittedAll_eq_lexicalAll body (x :: names))
  | .breakLoop _, _ => rfl
  | .continueLoop _, _ => rfl
  | .function (.mk x ps body _), names => Stmt.admittedAll_eq_lexicalAll body (ps ++ x :: names)
  | .giveBack none _, _ => rfl
  | .giveBack (some e) _, names => e.admitted_eq_lexical name claimed names
  | .classDef _ _ _ _, _ => rfl
  | .attempt body x? handler finalizer _, names =>
    and_eq_and (and_eq_and (Stmt.admittedAll_eq_lexicalAll body names)
      (Stmt.admittedOption_eq_lexicalOption handler ((Run.nonempty x?).toList ++ names)))
      (Stmt.admittedOption_eq_lexicalOption finalizer names)
  | .raiseError e _, names => e.admitted_eq_lexical name claimed names
  | .importFile _ _, _ => rfl
  | .foreign _ _ _, _ => rfl
termination_by structural s => s

theorem Stmt.admittedAll_eq_lexicalAll : ∀ (ss : List Stmt) names,
    Stmt.admittedAll ⟨name, false, false⟩ ⟨names, claimed⟩ ss =
      Stmt.lexicalAll (fun bound => name ⟨bound, claimed⟩) names ss
  | [], _ => rfl
  | s :: ss, names =>
    and_eq_and (s.admitted_eq_lexical names) (Stmt.admittedAll_eq_lexicalAll ss (s.binds ++ names))
termination_by structural ss => ss

theorem Stmt.admittedOption_eq_lexicalOption : ∀ (ss? : Option (List Stmt)) names,
    Stmt.admittedOption ⟨name, false, false⟩ ⟨names, claimed⟩ ss? =
      Stmt.lexicalOption (fun bound => name ⟨bound, claimed⟩) names ss?
  | none, _ => rfl
  | some ss, names => Stmt.admittedAll_eq_lexicalAll ss names
termination_by structural ss? => ss?

theorem Branch.admittedAll_eq_lexicalAll : ∀ (bs : List Branch) names,
    Branch.admittedAll ⟨name, false, false⟩ ⟨names, claimed⟩ bs =
      Branch.lexicalAll (fun bound => name ⟨bound, claimed⟩) names bs
  | [], _ => rfl
  | .mk e body :: bs, names =>
    and_eq_and (and_eq_and (e.admitted_eq_lexical name claimed names)
      (Stmt.admittedAll_eq_lexicalAll body names)) (Branch.admittedAll_eq_lexicalAll bs names)
termination_by structural bs => bs

end

theorem Task.admitted_eq_lexical (t : Task) (names : List String) :
    t.admitted ⟨name, false, false⟩ ⟨names, claimed⟩ =
      t.lexical (fun bound => name ⟨bound, claimed⟩) names := by
  cases t with
  | statements ss => exact Stmt.admittedAll_eq_lexicalAll name claimed ss names
  | expression e => exact e.admitted_eq_lexical name claimed names

end

theorem and_imp_and {a a' b b' : Bool} (ha : a = true → a' = true) (hb : b = true → b' = true)
    (h : (a && b) = true) : (a' && b') = true := by
  obtain ⟨h₁, h₂⟩ := Bool.and_eq_true_iff.mp h
  exact Bool.and_eq_true_iff.mpr ⟨ha h₁, hb h₂⟩

theorem imp_of_imp_and {p : Prop} {a b : Bool} (h : p → (a && b) = true) :
    (p → a = true) ∧ (p → b = true) :=
  ⟨fun hp => (Bool.and_eq_true_iff.mp (h hp)).1, fun hp => (Bool.and_eq_true_iff.mp (h hp)).2⟩

namespace Stmt

theorem grammatical_of_expr {e : Expr} (h : (Stmt.expr e).grammatical = true) :
    e.grammatical = true := by
  cases e with
  | call => exact h
  | method a x es l =>
    cases a with
    | var y =>
      have hes : Expr.grammaticalAll es = true := h
      simp [Expr.grammatical, Expr.tier, Expr.opens, hes]
    | _ => cases h
  | _ => cases h

theorem grammatical_of_setProperty {a e : Expr} {x : String} {l : Nat}
    (h : (Stmt.setProperty a x e l).grammatical = true) :
    (a.grammatical && e.grammatical) = true := by
  cases a with
  | var => exact h
  | thisObject => exact h
  | _ => cases h

theorem grammatical_of_setIndex {a i e : Expr} {l : Nat}
    (h : (Stmt.setIndex a i e l).grammatical = true) :
    (a.grammatical && i.grammatical && e.grammatical) = true := by
  cases a with
  | var => exact h
  | _ => cases h

theorem grammatical_of_input {x : String} {e : Expr} {l : Nat}
    (h : (Stmt.input x (some e) l).grammatical = true) : e.grammatical = true := by
  cases e with
  | literal => rfl
  | _ => cases h

end Stmt

section

variable {r : Rule} {objects strange : Bool}

mutual

/-- A rule that is more generous with objects admits what a rule admits, if that rule is not
generous with strange parts or there are none. -/
theorem Expr.admitted_generous (ho : r.objects = true → objects = true) :
    ∀ (e : Expr) {k}, (r.strange = true → e.grammatical = true) →
    e.admitted r k = true → e.admitted ⟨r.name, objects, strange⟩ k = true
  | .literal _ _ _, _, _ => id
  | .list es _, _, hg => Expr.admittedAll_generous ho es hg
  | .dict ps _, _, hg => Expr.admittedPairs_generous ho ps hg
  | .var _ _, _, _ => id
  | .binary _ a b _, _, hg => by
    obtain ⟨hg, -⟩ := imp_of_imp_and hg
    obtain ⟨hg, -⟩ := imp_of_imp_and hg
    obtain ⟨hg, -⟩ := imp_of_imp_and hg
    obtain ⟨hg, hb⟩ := imp_of_imp_and hg
    obtain ⟨-, ha⟩ := imp_of_imp_and hg
    exact and_imp_and (a.admitted_generous ho ha) (b.admitted_generous ho hb)
  | .unary _ a _, _, hg => by
    obtain ⟨hg, -⟩ := imp_of_imp_and hg
    exact a.admitted_generous ho (imp_of_imp_and hg).2
  | .paren a _, _, hg => a.admitted_generous ho hg
  | .call _ es _, _, hg => and_imp_and id (Expr.admittedAll_generous ho es hg)
  | .lambda _ b _, _, hg => b.admitted_generous ho hg
  | .newObject _ es _, _, hg => and_imp_and (and_imp_and ho id) (Expr.admittedAll_generous ho es hg)
  | .method a _ es _, _, hg => by
    obtain ⟨hg, hes⟩ := imp_of_imp_and hg
    obtain ⟨hg, -⟩ := imp_of_imp_and hg
    exact and_imp_and (a.admitted_generous ho (imp_of_imp_and hg).1)
      (Expr.admittedAll_generous ho es hes)
  | .property a _ _, _, hg => by
    obtain ⟨hg, -⟩ := imp_of_imp_and hg
    exact a.admitted_generous ho (imp_of_imp_and hg).1
  | .thisObject _, _, _ => ho
  | .superCall _ es _, _, hg => and_imp_and ho (Expr.admittedAll_generous ho es hg)
  | .index a i _, _, hg => by
    obtain ⟨hg, hi⟩ := imp_of_imp_and hg
    obtain ⟨hg, -⟩ := imp_of_imp_and hg
    exact and_imp_and (a.admitted_generous ho (imp_of_imp_and hg).1) (i.admitted_generous ho hi)
  | .foreign _ _ _, _, hg => fun h => absurd (hg h) Bool.false_ne_true
termination_by structural e => e

theorem Expr.admittedAll_generous (ho : r.objects = true → objects = true) :
    ∀ (es : List Expr) {k},
    (r.strange = true → Expr.grammaticalAll es = true) →
    Expr.admittedAll r k es = true → Expr.admittedAll ⟨r.name, objects, strange⟩ k es = true
  | [], _, _ => id
  | e :: es, _, hg => by
    obtain ⟨he, hes⟩ := imp_of_imp_and hg
    exact and_imp_and (e.admitted_generous ho he) (Expr.admittedAll_generous ho es hes)
termination_by structural es => es

theorem Expr.admittedPairs_generous (ho : r.objects = true → objects = true) :
    ∀ (ps : List (Expr × Expr)) {k},
    (r.strange = true → Expr.grammaticalPairs ps = true) →
    Expr.admittedPairs r k ps = true → Expr.admittedPairs ⟨r.name, objects, strange⟩ k ps = true
  | [], _, _ => id
  | (a, b) :: ps, _, hg => by
    obtain ⟨hg, hps⟩ := imp_of_imp_and hg
    obtain ⟨ha, hb⟩ := imp_of_imp_and hg
    exact and_imp_and (and_imp_and (a.admitted_generous ho ha) (b.admitted_generous ho hb))
      (Expr.admittedPairs_generous ho ps hps)
termination_by structural ps => ps

end

mutual

theorem Stmt.admitted_generous (ho : r.objects = true → objects = true) :
    ∀ (s : Stmt) {k}, (r.strange = true → s.grammatical = true) →
    s.admitted r k = true → s.admitted ⟨r.name, objects, strange⟩ k = true
  | .expr e, _, hg =>
    e.admitted_generous ho fun hs => Stmt.grammatical_of_expr (hg hs)
  | .assign _ e _, _, hg => e.admitted_generous ho hg
  | .setProperty a _ e _, _, hg => by
    obtain ⟨ha, he⟩ := imp_of_imp_and fun hs => Stmt.grammatical_of_setProperty (hg hs)
    exact and_imp_and (a.admitted_generous ho ha) (e.admitted_generous ho he)
  | .setIndex a i e _, _, hg => by
    obtain ⟨hg, he⟩ := imp_of_imp_and fun hs => Stmt.grammatical_of_setIndex (hg hs)
    obtain ⟨ha, hi⟩ := imp_of_imp_and hg
    exact and_imp_and (and_imp_and (a.admitted_generous ho ha) (i.admitted_generous ho hi))
      (e.admitted_generous ho he)
  | .print es _, _, hg => Expr.admittedAll_generous ho es hg
  | .input _ none _, _, _ => and_imp_and (and_imp_and ho id) id
  | .input _ (some e) _, _, hg =>
    and_imp_and (and_imp_and ho id)
      (e.admitted_generous ho fun hs => Stmt.grammatical_of_input (hg hs))
  | .ifElse e body bs otherwise _, _, hg => by
    obtain ⟨hg, hotherwise⟩ := imp_of_imp_and hg
    obtain ⟨hg, hbs⟩ := imp_of_imp_and hg
    obtain ⟨he, hbody⟩ := imp_of_imp_and hg
    exact and_imp_and (and_imp_and (and_imp_and (e.admitted_generous ho he)
      (Stmt.admittedAll_generous ho body hbody)) (Branch.admittedAll_generous ho bs hbs))
      (Stmt.admittedOption_generous ho otherwise hotherwise)
  | .whileLoop e body _, _, hg => by
    obtain ⟨he, hbody⟩ := imp_of_imp_and hg
    exact and_imp_and (e.admitted_generous ho he) (Stmt.admittedAll_generous ho body hbody)
  | .forLoop _ e body _, _, hg => by
    obtain ⟨he, hbody⟩ := imp_of_imp_and hg
    exact and_imp_and (e.admitted_generous ho he) (Stmt.admittedAll_generous ho body hbody)
  | .breakLoop _, _, _ => id
  | .continueLoop _, _, _ => id
  | .function f, _, hg => f.admitted_generous ho hg
  | .giveBack none _, _, _ => id
  | .giveBack (some e) _, _, hg => e.admitted_generous ho hg
  | .classDef _ _ fs _, _, hg =>
    and_imp_and (and_imp_and ho id) (FunctionDef.admittedAll_generous ho fs hg)
  | .attempt body _ handler finalizer _, _, hg => by
    obtain ⟨hg, hfinalizer⟩ := imp_of_imp_and hg
    obtain ⟨hg, hhandler⟩ := imp_of_imp_and hg
    exact and_imp_and (and_imp_and (Stmt.admittedAll_generous ho body (imp_of_imp_and hg).1)
      (Stmt.admittedOption_generous ho handler hhandler))
      (Stmt.admittedOption_generous ho finalizer hfinalizer)
  | .raiseError e _, _, hg => e.admitted_generous ho hg
  | .importFile _ _, _, hg => fun h => absurd (hg h) Bool.false_ne_true
  | .foreign _ _ _, _, hg => fun h => absurd (hg h) Bool.false_ne_true
termination_by structural s => s

theorem Stmt.admittedAll_generous (ho : r.objects = true → objects = true) :
    ∀ (ss : List Stmt) {k},
    (r.strange = true → Stmt.grammaticalBlock ss = true) →
    Stmt.admittedAll r k ss = true → Stmt.admittedAll ⟨r.name, objects, strange⟩ k ss = true
  | [], _, _ => id
  | s :: ss, _, hg => by
    obtain ⟨hg, hss⟩ := imp_of_imp_and hg
    exact and_imp_and (s.admitted_generous ho (imp_of_imp_and hg).1)
      (Stmt.admittedAll_generous ho ss hss)
termination_by structural ss => ss

theorem Stmt.admittedOption_generous (ho : r.objects = true → objects = true) :
    ∀ (ss? : Option (List Stmt)) {k},
    (r.strange = true → Stmt.grammaticalOption ss? = true) →
    Stmt.admittedOption r k ss? = true →
      Stmt.admittedOption ⟨r.name, objects, strange⟩ k ss? = true
  | none, _, _ => id
  | some ss, _, hg => Stmt.admittedAll_generous ho ss hg
termination_by structural ss? => ss?

theorem Branch.admittedAll_generous (ho : r.objects = true → objects = true) :
    ∀ (bs : List Branch) {k},
    (r.strange = true → Branch.grammaticalAll bs = true) →
    Branch.admittedAll r k bs = true → Branch.admittedAll ⟨r.name, objects, strange⟩ k bs = true
  | [], _, _ => id
  | .mk e body :: bs, _, hg => by
    obtain ⟨hg, hbs⟩ := imp_of_imp_and hg
    obtain ⟨he, hbody⟩ := imp_of_imp_and hg
    exact and_imp_and (and_imp_and (e.admitted_generous ho he)
      (Stmt.admittedAll_generous ho body hbody)) (Branch.admittedAll_generous ho bs hbs)
termination_by structural bs => bs

theorem FunctionDef.admitted_generous (ho : r.objects = true → objects = true) :
    ∀ (f : FunctionDef) {k},
    (r.strange = true → f.grammatical = true) →
    f.admitted r k = true → f.admitted ⟨r.name, objects, strange⟩ k = true
  | .mk _ _ body _, _, hg => Stmt.admittedAll_generous ho body hg
termination_by structural f => f

theorem FunctionDef.admittedAll_generous (ho : r.objects = true → objects = true) :
    ∀ (fs : List FunctionDef) {k},
    (r.strange = true → FunctionDef.grammaticalAll fs = true) →
    FunctionDef.admittedAll r k fs = true →
      FunctionDef.admittedAll ⟨r.name, objects, strange⟩ k fs = true
  | [], _, _ => id
  | f :: fs, _, hg => by
    obtain ⟨hf, hfs⟩ := imp_of_imp_and hg
    exact and_imp_and (f.admitted_generous ho hf) (FunctionDef.admittedAll_generous ho fs hfs)
termination_by structural fs => fs

end

theorem Task.admitted_generous (ho : r.objects = true → objects = true) (t : Task) {k : Sight}
    (hs : r.strange = false) (h : t.admitted r k = true) :
    t.admitted ⟨r.name, objects, strange⟩ k = true := by
  have hg {p : Prop} (hstrange : r.strange = true) : p := by
    rw [hs] at hstrange
    cases hstrange
  cases t with
  | statements ss => exact Stmt.admittedAll_generous ho ss hg h
  | expression e => exact e.admitted_generous ho hg h

end

/-- A body that runs in a scope inside `i`, which binds its parameters, is fit for what is in sight
there, where `i` binds all that is said to be bound. -/
def Scopes.Hosts (fit : Sight → Task → Prop) (s : Scopes Value) (i : Nat) (parameters : List String)
    (body : Task) : Prop :=
  i < s.all.size ∧ ∃ k : Sight, (∀ x ∈ k.bound, s.isBound i x = true) ∧ fit (k.bind parameters) body

def Closure.Hosted (fit : Sight → Task → Prop) (s : Scopes Value) (f : Closure) : Prop :=
  s.Hosts fit f.scope f.parameters (.statements f.body)

/-- The bodies that a call of the value or of one of its methods enters are fit for where they
run. -/
def Value.Hosted (fit : Sight → Task → Prop) (s : Scopes Value) : Value → Prop
  | .function f => f.Hosted fit s
  | .lambda f => s.Hosts fit f.scope f.parameters (.expression f.body)
  | .classValue c => ∀ k ∈ c.ancestry, ∀ e ∈ k.methods, e.2.Hosted fit s
  | _ => True

/-- All values within reach of the machine are hosted. -/
structure Machine.Hosted (fit : Sight → Task → Prop) (m : Machine) : Prop where
  present : m.current < m.scopes.all.size
  bound : ∀ i, ∀ e ∈ m.scopes.bindings i, e.2.Hosted fit m.scopes
  heap : m.heap.All (Value.Hosted fit m.scopes)

section

variable {fit fit' : Sight → Task → Prop} {s s' : Scopes Value}

theorem Scopes.Hosts.grows {i : Nat} {parameters : List String} {body : Task}
    (h : s.Hosts fit i parameters body) (hs : s.Grows s') : s'.Hosts fit i parameters body := by
  obtain ⟨hi, k, hk, hfits⟩ := h
  exact ⟨hs.size hi, k, fun x hx => hs.isBound hi (hk x hx), hfits⟩

theorem Value.Hosted.grows {v : Value} (h : v.Hosted fit s) (hs : s.Grows s') :
    v.Hosted fit s' := by
  cases v with
  | function f => exact Scopes.Hosts.grows h hs
  | lambda f => exact Scopes.Hosts.grows h hs
  | classValue c => exact fun k hk e he => Scopes.Hosts.grows (h k hk e he) hs
  | _ => trivial

theorem Value.hosted_of_isPlain (fit : Sight → Task → Prop) (s : Scopes Value) (v : Value)
    (h : v.isPlain = true) : v.Hosted fit s := by
  cases v with
  | function f => cases h
  | lambda f => cases h
  | classValue c => cases h
  | _ => trivial

theorem ClassValue.hosted_method {c : ClassValue} (h : (Value.classValue c).Hosted fit s)
    {x : String} {f : Closure} (hf : c.method? x = some f) : f.Hosted fit s := by
  rw [ClassValue.method?_eq_nearest?] at hf
  obtain ⟨k, hk, hfind⟩ := List.exists_of_findSome?_eq_some hf
  exact h k hk _ (Bindings.mem_of_find? hfind)

theorem ClassValue.hosted_parent {c p : ClassValue} (h : (Value.classValue c).Hosted fit s)
    (hp : c.parent = some p) : (Value.classValue p).Hosted fit s := by
  intro k hk
  refine h k ?_
  rw [ClassValue.ancestry_eq_cons, ClassValue.ancestry_tail, hp]
  exact List.mem_cons_of_mem _ hk

end

theorem Machine.hosted_initial (fit : Sight → Task → Prop) (input : List Char) :
    (Machine.initial input).Hosted fit where
  present := Nat.one_pos
  bound i e he := by
    obtain ⟨b, hb⟩ : ∃ b, e.2 = .builtin b := by
      cases i with
      | zero =>
        obtain ⟨b, -, rfl⟩ := List.mem_map.mp he
        exact ⟨b, rfl⟩
      | succ i => cases he
    rw [hb]
    trivial
  heap := ⟨by simp [initial], by simp [initial], by simp [initial]⟩

/-- A body is fit if it is free of objects and refers only to names that are bound, or if any body
will do. -/
def lexicalFit (free : Prop) (k : Sight) (t : Task) : Prop :=
  free ∨ t.lexical introduced k.bound = true

theorem Value.sound_iff {free : Prop} {s : Scopes Value} {v : Value} :
    v.Sound free s ↔ v.Hosted (lexicalFit free) s := by
  have hserves {i ps t} : s.Serves free i ps t ↔ s.Hosts (lexicalFit free) i ps t :=
    and_congr_right fun _ =>
      ⟨fun ⟨names, hnames, h⟩ => ⟨⟨names, []⟩, hnames, h⟩, fun ⟨k, hk, h⟩ => ⟨k.bound, hk, h⟩⟩
  cases v with
  | function f => exact hserves
  | lambda f => exact hserves
  | classValue c =>
    exact forall₂_congr fun k _ => forall₂_congr fun e _ => hserves
  | _ => exact Iff.rfl

theorem Machine.sound_iff {free : Prop} {m : Machine} :
    m.Sound free ↔ m.Hosted (lexicalFit free) := by
  constructor
  · intro h
    exact ⟨h.present, fun i e he => Value.sound_iff.mp (h.bound i e he),
      h.heap.imp fun _ => Value.sound_iff.mp⟩
  · intro h
    exact ⟨h.present, fun i e he => Value.sound_iff.mpr (h.bound i e he),
      h.heap.imp fun _ => Value.sound_iff.mpr⟩

theorem Machine.sound_initial (free : Prop) (input : List Char) :
    (Machine.initial input).Sound free :=
  Machine.sound_iff.mpr (Machine.hosted_initial _ input)

end Bhasha
