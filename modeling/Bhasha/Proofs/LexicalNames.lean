import Bhasha.Proofs.HeapValues
import Bhasha.Proofs.ScopeGains
import Bhasha.Proofs.SuperDispatch

namespace Bhasha

mutual

/-- The expression is free of objects of its own (`naya`, `yeh` and `upar`), and `ok` admits every
name that a variable or a call in it refers to, given the names the program has introduced there. -/
def Expr.lexical (ok : List String → String → Bool) (names : List String) : Expr → Bool
  | .literal _ _ _ => true
  | .list es _ => Expr.lexicalAll ok names es
  | .dict ps _ => Expr.lexicalPairs ok names ps
  | .var x _ => ok names x
  | .binary _ a b _ => a.lexical ok names && b.lexical ok names
  | .unary _ a _ => a.lexical ok names
  | .paren a _ => a.lexical ok names
  | .call x es _ => ok names x && Expr.lexicalAll ok names es
  | .lambda ps b _ => b.lexical ok (ps ++ names)
  | .newObject _ _ _ => false
  | .method a _ es _ => a.lexical ok names && Expr.lexicalAll ok names es
  | .property a _ _ => a.lexical ok names
  | .thisObject _ => false
  | .superCall _ _ _ => false
  | .index a i _ => a.lexical ok names && i.lexical ok names
  | .foreign _ _ _ => false
termination_by structural e => e

def Expr.lexicalAll (ok : List String → String → Bool) (names : List String) : List Expr → Bool
  | [] => true
  | e :: es => e.lexical ok names && Expr.lexicalAll ok names es
termination_by structural es => es

def Expr.lexicalPairs (ok : List String → String → Bool) (names : List String) :
    List (Expr × Expr) → Bool
  | [] => true
  | (k, v) :: ps => k.lexical ok names && v.lexical ok names && Expr.lexicalPairs ok names ps
termination_by structural ps => ps

end

mutual

/-- The names that a statement may bring into the scope it stands in. -/
def Stmt.binds : Stmt → List String
  | .assign x _ _ => [x]
  | .input x _ _ => [x]
  | .function (.mk x _ _ _) => [x]
  | .classDef x _ _ _ => [x]
  | .foreign _ ss _ => Stmt.bindsAll ss
  | _ => []
termination_by structural s => s

def Stmt.bindsAll : List Stmt → List String
  | [] => []
  | s :: ss => s.binds ++ Stmt.bindsAll ss
termination_by structural ss => ss

end

mutual

/-- The statement is free of classes, objects of its own, `padho` and imports, and `ok` admits every
name it refers to. What a block introduces is known to the end of the block. -/
def Stmt.lexical (ok : List String → String → Bool) (names : List String) : Stmt → Bool
  | .expr e => e.lexical ok names
  | .assign _ e _ => e.lexical ok names
  | .setProperty a _ e _ => a.lexical ok names && e.lexical ok names
  | .setIndex a i e _ => a.lexical ok names && i.lexical ok names && e.lexical ok names
  | .print es _ => Expr.lexicalAll ok names es
  | .input _ _ _ => false
  | .ifElse e body bs otherwise _ =>
    e.lexical ok names && Stmt.lexicalAll ok names body && Branch.lexicalAll ok names bs &&
      Stmt.lexicalOption ok names otherwise
  | .whileLoop e body _ => e.lexical ok names && Stmt.lexicalAll ok names body
  | .forLoop x e body _ => e.lexical ok names && Stmt.lexicalAll ok (x :: names) body
  | .breakLoop _ => true
  | .continueLoop _ => true
  | .function (.mk x ps body _) => Stmt.lexicalAll ok (ps ++ x :: names) body
  | .giveBack e? _ => e?.all (Expr.lexical ok names)
  | .classDef _ _ _ _ => false
  | .attempt body x? handler finalizer _ =>
    Stmt.lexicalAll ok names body &&
      Stmt.lexicalOption ok ((Run.nonempty x?).toList ++ names) handler &&
      Stmt.lexicalOption ok names finalizer
  | .raiseError e _ => e.lexical ok names
  | .importFile _ _ => false
  | .foreign _ _ _ => false
termination_by structural s => s

def Stmt.lexicalAll (ok : List String → String → Bool) (names : List String) : List Stmt → Bool
  | [] => true
  | s :: ss => s.lexical ok names && Stmt.lexicalAll ok (s.binds ++ names) ss
termination_by structural ss => ss

def Stmt.lexicalOption (ok : List String → String → Bool) (names : List String) :
    Option (List Stmt) → Bool
  | none => true
  | some ss => Stmt.lexicalAll ok names ss
termination_by structural ss? => ss?

def Branch.lexicalAll (ok : List String → String → Bool) (names : List String) :
    List Branch → Bool
  | [] => true
  | .mk e body :: bs =>
    e.lexical ok names && Stmt.lexicalAll ok names body && Branch.lexicalAll ok names bs
termination_by structural bs => bs

end

def Task.lexical (ok : List String → String → Bool) (names : List String) : Task → Bool
  | .statements ss => Stmt.lexicalAll ok names ss
  | .expression e => e.lexical ok names

mutual

/-- The statement may give back a value itself, to the function around it. -/
def Stmt.gives : Stmt → Bool
  | .ifElse _ body bs otherwise _ =>
    Stmt.givesAny body || Branch.givesAny bs || Stmt.givesOption otherwise
  | .whileLoop _ body _ => Stmt.givesAny body
  | .forLoop _ _ body _ => Stmt.givesAny body
  | .giveBack _ _ => true
  | .attempt body _ handler finalizer _ =>
    Stmt.givesAny body || Stmt.givesOption handler || Stmt.givesOption finalizer
  | _ => false
termination_by structural s => s

def Stmt.givesAny : List Stmt → Bool
  | [] => false
  | s :: ss => s.gives || Stmt.givesAny ss
termination_by structural ss => ss

def Stmt.givesOption : Option (List Stmt) → Bool
  | none => false
  | some ss => Stmt.givesAny ss
termination_by structural ss? => ss?

def Branch.givesAny : List Branch → Bool
  | [] => false
  | .mk _ body :: bs => Stmt.givesAny body || Branch.givesAny bs
termination_by structural bs => bs

end

/-- Only a value given back by one of its own statements ends a task. -/
def Task.gives : Task → Prop
  | .statements _ => True
  | .expression _ => False

/-- The program has introduced the name. -/
def introduced (names : List String) (x : String) : Bool :=
  names.contains x

namespace Scopes

variable {α : Type} {s s' s'' : Scopes α} {i : Nat} {x : String}

/-- Each scope of `s` is in `s'`, inside the same scope, and has lost no name. -/
structure Grows (s s' : Scopes α) : Prop where
  nested : s.Extends s'
  kept : ∀ i < s.all.size, ∀ x, s.binds i x → s'.binds i x

theorem Grows.refl (s : Scopes α) : s.Grows s :=
  ⟨.refl s, fun _ _ _ h => h⟩

theorem Grows.size (h : s.Grows s') (hi : i < s.all.size) : i < s'.all.size :=
  (h.nested.depth hi).1

theorem Grows.trans (h : s.Grows s') (h' : s'.Grows s'') : s.Grows s'' :=
  ⟨h.nested.trans h'.nested, fun i hi x hx => h'.kept i (h.size hi) x (h.kept i hi x hx)⟩

theorem grows_define (s : Scopes α) (i : Nat) (x : String) (v : α) : s.Grows (s.define i x v) :=
  ⟨extends_define s i x v, fun _ hj _ hy => (binds_define _ _ _ _ _ hj).mpr (.inr hy)⟩

theorem grows_enclose (s : Scopes α) (parent : Nat) (bindings : List (String × α)) :
    s.Grows (s.enclose parent bindings) :=
  ⟨extends_enclose s parent bindings, fun _ hj _ hy => (binds_enclose parent bindings hj).mpr hy⟩

theorem lt_size_of_binds (h : s.binds i x) : i < s.all.size := by
  apply Nat.lt_of_not_le
  intro hi
  rw [binds, Scopes.bindings, Array.getElem?_eq_none hi] at h
  cases h

theorem lt_size_of_parent? {p : Nat} (h : s.parent? i = some p) : i < s.all.size := by
  apply Nat.lt_of_not_le
  intro hi
  rw [parent?, Array.getElem?_eq_none hi] at h
  cases h

theorem ownerWithin_of_binds (fuel : Nat) (h : s.binds i x) :
    s.ownerWithin x fuel i = some i := by
  unfold ownerWithin
  exact if_pos h

theorem ownerWithin_of_parent? {p : Nat} (fuel : Nat) (hown : ¬s.binds i x)
    (h : s.parent? i = some p) : s.ownerWithin x (fuel + 1) i = s.ownerWithin x fuel p := by
  rw [ownerWithin.eq_def]
  refine (if_neg hown).trans ?_
  rw [h]

theorem ownerWithin_eq_none {fuel : Nat} (hown : ¬s.binds i x)
    (h : fuel = 0 ∨ s.parent? i = none) : s.ownerWithin x fuel i = none := by
  unfold ownerWithin
  refine (if_neg hown).trans ?_
  rcases h with rfl | h
  · rfl
  · rw [h]
    cases fuel <;> rfl

theorem Extends.parent? (h : s.Extends s') {p : Nat} (hp : s.parent? i = some p) :
    s'.parent? i = some p := by
  have hi := lt_size_of_parent? hp
  obtain ⟨sc', hi', hparent, -⟩ := h i _ (Array.getElem?_eq_getElem hi)
  rw [Scopes.parent?, Array.getElem?_eq_getElem hi] at hp
  rw [Scopes.parent?, hi']
  exact hparent.trans hp

theorem Grows.ownerWithin (h : s.Grows s') {fuel : Nat}
    (hx : (s.ownerWithin x fuel i).isSome = true) : (s'.ownerWithin x fuel i).isSome = true := by
  induction fuel generalizing i with
  | zero =>
    by_cases hown : s.binds i x
    · rw [ownerWithin_of_binds 0 (h.kept i (lt_size_of_binds hown) x hown)]
      rfl
    · rw [ownerWithin_eq_none hown (.inl rfl)] at hx
      cases hx
  | succ fuel ih =>
    by_cases hown : s.binds i x
    · rw [ownerWithin_of_binds _ (h.kept i (lt_size_of_binds hown) x hown)]
      rfl
    · cases hp : s.parent? i with
      | none =>
        rw [ownerWithin_eq_none hown (.inr hp)] at hx
        cases hx
      | some p =>
        rw [ownerWithin_of_parent? fuel hown hp] at hx
        by_cases hown' : s'.binds i x
        · rw [ownerWithin_of_binds _ hown']
          rfl
        · rw [ownerWithin_of_parent? fuel hown' (h.nested.parent? hp)]
          exact ih hx

/-- Later steps of a run take no meaning away. -/
theorem Grows.isBound (h : s.Grows s') (hi : i < s.all.size) (hx : s.isBound i x = true) :
    s'.isBound i x = true := by
  rw [isBound_eq_isSome, owner?] at hx ⊢
  rw [(h.nested.depth hi).2]
  exact h.ownerWithin hx

theorem isBound_of_binds (h : s.binds i x) : s.isBound i x = true := by
  rw [isBound_eq_isSome, owner?, ownerWithin_of_binds _ h]
  rfl

theorem isBound_define_self (hi : i < s.all.size) (v : α) : (s.define i x v).isBound i x = true :=
  isBound_of_binds ((binds_define _ _ _ _ _ hi).mpr (.inl ⟨rfl, rfl⟩))

theorem get?_of_isBound (h : s.isBound i x = true) : ∃ v, s.get? i x = some v := by
  rw [isBound_eq_isSome] at h
  obtain ⟨o, ho⟩ := Option.isSome_iff_exists.mp h
  obtain ⟨v, hv⟩ := Option.isSome_iff_exists.mp (binds_of_owner? ho)
  refine ⟨v, ?_⟩
  rw [get?_eq_bind, ho]
  exact hv

theorem mem_of_get? {v : α} (h : s.get? i x = some v) : ∃ o, (x, v) ∈ s.bindings o := by
  rw [get?_eq_bind] at h
  obtain ⟨o, -, hv⟩ := Option.bind_eq_some_iff.mp h
  exact ⟨o, Bindings.mem_of_find? hv⟩

theorem size_defineAll (bindings : List (String × α)) (s : Scopes α) (i : Nat) :
    (bindings.foldl (fun s (x, v) => s.define i x v) s).all.size = s.all.size := by
  induction bindings generalizing s with
  | nil => rfl
  | cons b bindings ih => rw [List.foldl_cons, ih, size_define]

theorem size_enclose (s : Scopes α) (parent : Nat) (bindings : List (String × α)) :
    (s.enclose parent bindings).all.size = s.all.size + 1 := by
  rw [enclose, size_defineAll, add, Array.size_push]

theorem binds_defineAll_self {bindings : List (String × α)} {s : Scopes α} (hi : i < s.all.size)
    (hx : s.binds i x ∨ x ∈ bindings.map Prod.fst) :
    (bindings.foldl (fun s (x, v) => s.define i x v) s).binds i x := by
  induction bindings generalizing s with
  | nil => simpa using hx
  | cons b bindings ih =>
    rw [List.foldl_cons]
    refine ih (by rwa [size_define]) ?_
    rw [binds_define _ _ _ _ _ hi]
    rw [List.map_cons, List.mem_cons] at hx
    rcases hx with hx | rfl | hx
    · exact .inl (.inr hx)
    · exact .inl (.inl ⟨rfl, rfl⟩)
    · exact .inr hx

theorem getElem?_add_self (s : Scopes α) (parent : Nat) :
    (s.add (some parent)).all[s.all.size]? =
      some { parent := some parent, depth := s.depth parent + 1 } := by
  simp [add, innerDepth]

theorem depth_enclose_self (s : Scopes α) (parent : Nat) (bindings : List (String × α)) :
    (s.enclose parent bindings).depth s.all.size = s.depth parent + 1 := by
  have hadd : s.all.size < (s.add (some parent)).all.size := by simp [add]
  have hext := extends_defineAll (s.add (some parent)) s.all.size bindings
  rw [enclose, (hext.depth hadd).2, Scopes.depth, getElem?_add_self]
  rfl

theorem parent?_enclose_self (s : Scopes α) (parent : Nat) (bindings : List (String × α)) :
    (s.enclose parent bindings).parent? s.all.size = some parent := by
  refine (extends_defineAll (s.add (some parent)) s.all.size bindings).parent? ?_
  rw [parent?, getElem?_add_self]
  rfl

/-- In a new scope its own names have a meaning, and those that have one in the scope around it. -/
theorem isBound_enclose {parent : Nat} {bindings : List (String × α)}
    (hx : x ∈ bindings.map Prod.fst ∨ s.isBound parent x = true) :
    (s.enclose parent bindings).isBound s.all.size x = true := by
  have hadd : s.all.size < (s.add (some parent)).all.size := by simp [add]
  by_cases hown : (s.enclose parent bindings).binds s.all.size x
  · exact isBound_of_binds hown
  · rcases hx with hx | hx
    · exact absurd (binds_defineAll_self hadd (.inr hx)) hown
    · rw [isBound_eq_isSome, owner?] at hx ⊢
      rw [depth_enclose_self,
        ownerWithin_of_parent? _ hown (parent?_enclose_self s parent bindings)]
      exact (grows_enclose s parent bindings).ownerWithin hx

theorem bindings_add (s : Scopes α) (parent : Option Nat) (j : Nat) :
    (s.add parent).bindings j = s.bindings j := by
  unfold bindings add
  rw [Array.getElem?_push]
  split
  · rename_i hj
    rw [hj, Array.getElem?_eq_none (Nat.le_refl _)]
    rfl
  · rfl

theorem of_mem_bindings_define {j : Nat} {y : String} {w : α} {e : String × α}
    (h : e ∈ (s.define i y w).bindings j) : e.2 = w ∨ e ∈ s.bindings j := by
  by_cases hj : j < s.all.size
  · rw [bindings_define s i j y w hj] at h
    split at h
    · exact Bindings.of_mem_bind h
    · exact .inr h
  · rw [bindings, Array.getElem?_eq_none (by rw [size_define]; omega)] at h
    cases h

theorem of_mem_bindings_enclose {parent j : Nat} {bindings : List (String × α)} {e : String × α}
    (h : e ∈ (s.enclose parent bindings).bindings j) :
    (∃ b ∈ bindings, e.2 = b.2) ∨ e ∈ s.bindings j := by
  unfold enclose at h
  rw [← bindings_add s (some parent) j]
  generalize s.add (some parent) = s₁ at h ⊢
  induction bindings generalizing s₁ with
  | nil => exact .inr h
  | cons b bindings ih =>
    rw [List.foldl_cons] at h
    rcases ih _ h with ⟨b', hb', hv⟩ | h
    · exact .inl ⟨b', List.mem_cons_of_mem _ hb', hv⟩
    · rcases of_mem_bindings_define h with hv | h
      · exact .inl ⟨b, List.mem_cons_self, hv⟩
      · exact .inr h

end Scopes

/-- A body that runs in a scope inside `i`, which binds its parameters, refers only to these and to
names that have a meaning in `i`, unless any body will do. -/
def Scopes.Serves (free : Prop) (s : Scopes Value) (i : Nat) (parameters : List String)
    (body : Task) : Prop :=
  i < s.all.size ∧ ∃ names : List String, (∀ x ∈ names, s.isBound i x = true) ∧
    (free ∨ body.lexical introduced (parameters ++ names) = true)

def Closure.Sound (free : Prop) (s : Scopes Value) (f : Closure) : Prop :=
  s.Serves free f.scope f.parameters (.statements f.body)

/-- The bodies that a call of the value or of one of its methods enters find the names they refer
to. -/
def Value.Sound (free : Prop) (s : Scopes Value) : Value → Prop
  | .function f => f.Sound free s
  | .lambda f => s.Serves free f.scope f.parameters (.expression f.body)
  | .classValue c => ∀ k ∈ c.ancestry, ∀ e ∈ k.methods, e.2.Sound free s
  | _ => True

/-- All values within reach of the machine are sound. -/
structure Machine.Sound (free : Prop) (m : Machine) : Prop where
  present : m.current < m.scopes.all.size
  bound : ∀ i, ∀ e ∈ m.scopes.bindings i, e.2.Sound free m.scopes
  heap : m.heap.All (Value.Sound free m.scopes)

end Bhasha
