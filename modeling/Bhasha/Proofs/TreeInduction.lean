import Bhasha.Program

namespace Bhasha

theorem Expr.induct {P : Expr → Prop} (literal : ∀ k v l, P (.literal k v l))
    (list : ∀ es l, (∀ e ∈ es, P e) → P (.list es l))
    (dict : ∀ ps l, (∀ p ∈ ps, P p.1 ∧ P p.2) → P (.dict ps l)) (var : ∀ x l, P (.var x l))
    (binary : ∀ op a b l, P a → P b → P (.binary op a b l))
    (unary : ∀ op a l, P a → P (.unary op a l)) (paren : ∀ a l, P a → P (.paren a l))
    (call : ∀ x es l, (∀ e ∈ es, P e) → P (.call x es l))
    (lambda : ∀ xs b l, P b → P (.lambda xs b l))
    (newObject : ∀ x es l, (∀ e ∈ es, P e) → P (.newObject x es l))
    (method : ∀ a x es l, P a → (∀ e ∈ es, P e) → P (.method a x es l))
    (property : ∀ a x l, P a → P (.property a x l)) (thisObject : ∀ l, P (.thisObject l))
    (superCall : ∀ x es l, (∀ e ∈ es, P e) → P (.superCall x es l))
    (index : ∀ a i l, P a → P i → P (.index a i l))
    (foreign : ∀ x es l, (∀ e ∈ es, P e) → P (.foreign x es l)) (e : Expr) : P e :=
  @Expr.rec P (fun es => ∀ e ∈ es, P e) (fun ps => ∀ p ∈ ps, P p.1 ∧ P p.2)
    (fun p => P p.1 ∧ P p.2) literal list dict var binary unary paren call lambda newObject method
    property thisObject superCall index foreign nofun
    (fun _ _ h hs => List.forall_mem_cons.mpr ⟨h, hs⟩) nofun
    (fun _ _ h hs => List.forall_mem_cons.mpr ⟨h, hs⟩) (fun _ _ hk hv => ⟨hk, hv⟩) e

def Branch.body : Branch → List Stmt
  | .mk _ body => body

theorem Stmt.induct {P : Stmt → Prop} (expr : ∀ e, P (.expr e))
    (assign : ∀ x e l, P (.assign x e l)) (setProperty : ∀ a x e l, P (.setProperty a x e l))
    (setIndex : ∀ a i e l, P (.setIndex a i e l)) (print : ∀ es l, P (.print es l))
    (input : ∀ x prompt l, P (.input x prompt l))
    (ifElse : ∀ e body bs otherwise l, (∀ s ∈ body, P s) → (∀ b ∈ bs, ∀ s ∈ Branch.body b, P s) →
      (∀ ss ∈ otherwise, ∀ s ∈ ss, P s) → P (.ifElse e body bs otherwise l))
    (whileLoop : ∀ e body l, (∀ s ∈ body, P s) → P (.whileLoop e body l))
    (forLoop : ∀ x e body l, (∀ s ∈ body, P s) → P (.forLoop x e body l))
    (breakLoop : ∀ l, P (.breakLoop l)) (continueLoop : ∀ l, P (.continueLoop l))
    (function : ∀ g, (∀ s ∈ FunctionDef.body g, P s) → P (.function g))
    (giveBack : ∀ e? l, P (.giveBack e? l))
    (classDef : ∀ x parent gs l, (∀ g ∈ gs, ∀ s ∈ FunctionDef.body g, P s) →
      P (.classDef x parent gs l))
    (attempt : ∀ body x? handler finalizer l, (∀ s ∈ body, P s) →
      (∀ ss ∈ handler, ∀ s ∈ ss, P s) → (∀ ss ∈ finalizer, ∀ s ∈ ss, P s) →
      P (.attempt body x? handler finalizer l))
    (raiseError : ∀ e l, P (.raiseError e l)) (importFile : ∀ x l, P (.importFile x l))
    (foreign : ∀ x ss l, (∀ s ∈ ss, P s) → P (.foreign x ss l)) (s : Stmt) : P s :=
  @Stmt.rec P (fun b => ∀ s ∈ b.body, P s) (fun g => ∀ s ∈ g.body, P s) (fun ss => ∀ s ∈ ss, P s)
    (fun bs => ∀ b ∈ bs, ∀ s ∈ Branch.body b, P s) (fun o => ∀ ss ∈ o, ∀ s ∈ ss, P s)
    (fun gs => ∀ g ∈ gs, ∀ s ∈ FunctionDef.body g, P s) expr assign setProperty setIndex print input
    ifElse whileLoop forLoop breakLoop continueLoop function giveBack classDef attempt raiseError
    importFile foreign (fun _ _ h => h) (fun _ _ _ _ h => h) nofun
    (fun _ _ h hs => List.forall_mem_cons.mpr ⟨h, hs⟩) nofun
    (fun _ _ h hs => List.forall_mem_cons.mpr ⟨h, hs⟩) nofun
    (fun _ h _ hss => by cases hss; exact h) nofun
    (fun _ _ h hs => List.forall_mem_cons.mpr ⟨h, hs⟩) s

end Bhasha
