import Bhasha.Analysis
import Bhasha.Proofs.AdmittedPrograms

namespace Bhasha

variable {α β : Type}

/-- The name is registered before any program is analysed. -/
def isKnown (x : String) : Bool :=
  knownFunctions.any fun f => f.1 == x

/-- The name is one that the program has introduced, or at least none that is registered. -/
def ownReference (names : List String) (x : String) : Bool :=
  introduced names x || !isKnown x

/-- The name is bound, or at least none that is claimed or registered. -/
def Sight.own (k : Sight) (x : String) : Bool :=
  introduced k.bound x || !(k.claimed.contains x || isKnown x)

/-- Only what is in sight has one of these names. -/
def Sight.Covers (k : Sight) (names : List String) : Prop :=
  ∀ x ∈ names, x ∈ k.bound ∨ x ∈ k.claimed

namespace Sight.Covers

variable {k : Sight} {names more : List String}

theorem mono (h : k.Covers names) (hsub : more ⊆ names) : k.Covers more :=
  fun x hx => h x (hsub hx)

theorem bind (h : k.Covers names) (xs : List String) : (k.bind xs).Covers (xs ++ names) := by
  intro x hx
  rcases List.mem_append.mp hx with hx | hx
  · exact .inl (List.mem_append_left _ hx)
  · exact (h x hx).imp_left (List.mem_append_right _)

theorem claim (h : k.Covers names) (xs : List String) : (k.claim xs).Covers (xs ++ names) := by
  intro x hx
  rcases List.mem_append.mp hx with hx | hx
  · exact .inr (List.mem_append_left _ hx)
  · exact (h x hx).imp_right (List.mem_append_right _)

end Sight.Covers

/-- What the analyser vouches for: a reference that is not to a claimed or registered name is to a
name that is bound. -/
def Grounded (admitted : Rule → Bool) : Prop :=
  ∀ objects strange, admitted ⟨Sight.own, objects, strange⟩ = true →
    admitted ⟨Sight.binds, objects, strange⟩ = true

theorem grounded_and {p q : Rule → Bool} (hp : Grounded p) (hq : Grounded q) :
    Grounded fun r => p r && q r :=
  fun objects strange => and_imp_and (hp objects strange) (hq objects strange)

/-- A claim does not bind its name. -/
theorem grounded_claim (k : Sight) (x : String) : Grounded fun r => r.name (k.claim [x]) x := by
  intro _ _ h
  simpa [Sight.own, Sight.claim, Sight.binds] using h

/-- Where nothing is claimed: a reference that is not to a registered name is to a name that the
program has introduced. -/
def Introduces (lexical : (List String → String → Bool) → Bool) : Prop :=
  lexical ownReference = true → lexical introduced = true

/-- What the analyser vouches for in a part of a program that stands inside the functions
`around`. -/
structure Passed (around : List String) (C : Prop) (gives : Bool) : Prop where
  introduces : C
  holds : around = [] → gives = false

namespace Passed

variable {around : List String} {C : Prop} {p q : Rule → Bool} {g g' : Bool}

theorem still (h : C) : Passed around C false :=
  ⟨h, fun _ => rfl⟩

theorem after (h : Passed around (Grounded q) g) (hp : Grounded p) :
    Passed around (Grounded fun r => p r && q r) g :=
  ⟨grounded_and hp h.introduces, h.holds⟩

theorem and (h : Passed around (Grounded p) g) (h' : Passed around (Grounded q) g') :
    Passed around (Grounded fun r => p r && q r) (g || g') :=
  ⟨grounded_and h.introduces h'.introduces,
    fun hout => Bool.or_eq_false_iff.mpr ⟨h.holds hout, h'.holds hout⟩⟩

theorem nothing : Passed around (Grounded fun _ => true) false :=
  still fun _ _ => id

end Passed

namespace SymbolTable

variable {t t' : SymbolTable} {x : String}

theorem resolve?_congr (houter : t'.outer = t.outer) (hinner : t'.inner.find? x = t.inner.find? x) :
    t'.resolve? x = t.resolve? x := by
  unfold resolve?
  rw [List.findSome?_cons, List.findSome?_cons, hinner, houter]

/-- Only these names and the registered ones are resolved. -/
def Covered (t : SymbolTable) (names : List String) : Prop :=
  ∀ x, (t.resolve? x).isSome = true → x ∈ names ∨ isKnown x = true

end SymbolTable

theorem Analysis.covered_initial : Analysis.initial.scope.Covered [] := by
  intro x hx
  obtain ⟨s, hs⟩ := Option.isSome_iff_exists.mp hx
  have hfind :
      Bindings.find? (knownFunctions.map fun f => (f.1, knownSymbol f.1 f.2)) x = some s := by
    simpa [SymbolTable.resolve?, Analysis.initial] using hs
  obtain ⟨f, hf, heq⟩ := List.mem_map.mp (Bindings.mem_of_find? hfind)
  exact .inr (List.any_eq_true.mpr ⟨f, hf, beq_iff_eq.mpr (congrArg Prod.fst heq)⟩)

/-- The analysis stands inside the functions `around`, and resolves only `names` and what is
registered. -/
structure Analysis.Inside (names around : List String) (a : Analysis) : Prop where
  covered : a.scope.Covered names
  functions : a.functions = around

/-- The functions and the scopes around the innermost one are the same, the innermost one has
changed only in the names `gained`, and no error is forgotten. -/
structure Analysis.Follows (gained : List String) (a a' : Analysis) : Prop where
  functions : a'.functions = a.functions
  outer : a'.scope.outer = a.scope.outer
  inner : ∀ x, x ∉ gained → a'.scope.inner.find? x = a.scope.inner.find? x
  errors : a.errors <+: a'.errors

namespace Analysis.Follows

variable {a a' a'' : Analysis} {gained more names around : List String}

theorem refl (gained : List String) (a : Analysis) : a.Follows gained a :=
  ⟨rfl, rfl, fun _ _ => rfl, List.prefix_refl _⟩

theorem trans (h : a.Follows gained a') (h' : a'.Follows more a'') :
    a.Follows (gained ++ more) a'' := by
  refine ⟨h'.functions.trans h.functions, h'.outer.trans h.outer, fun x hx => ?_,
    h.errors.trans h'.errors⟩
  rw [List.mem_append, not_or] at hx
  exact (h'.inner x hx.2).trans (h.inner x hx.1)

theorem clean (h : a.Follows gained a') (ha' : a'.errors = []) : a.errors = [] :=
  List.prefix_nil.mp (ha' ▸ h.errors)

theorem inside (h : a.Follows gained a') (ha : a.Inside names around) :
    a'.Inside (gained ++ names) around := by
  refine ⟨fun x hx => ?_, h.functions.trans ha.functions⟩
  by_cases hmem : x ∈ gained
  · exact .inl (List.mem_append_left _ hmem)
  · rw [SymbolTable.resolve?_congr h.outer (h.inner x hmem)] at hx
    exact (ha.covered x hx).imp_left (List.mem_append_right _)

end Analysis.Follows

/-- The analyser gets through `p` and brings in no names but `gained`. If it stands inside `around`,
resolves only `names` before, and has no error to report, then `C` holds. -/
structure Vouches (names around gained : List String) (p : Analyse α) (C : Prop) : Prop where
  settles : ∀ a, ∃ v a', p a = .ok v a' ∧ a.Follows gained a'
  vouches : ∀ {a v a'}, a.Inside names around → p a = .ok v a' → a'.errors = [] → C

namespace Vouches

variable {names around gained more : List String} {C D : Prop}

theorem follows {p : Analyse α} (h : Vouches names around gained p C) {a a' : Analysis} {v : α}
    (hp : p a = .ok v a') : a.Follows gained a' := by
  obtain ⟨w, a₁, hrun, hfollows⟩ := h.settles a
  rw [hp] at hrun
  cases hrun
  exact hfollows

theorem imp {p : Analyse α} (h : Vouches names around gained p C) (hCD : C → D) :
    Vouches names around gained p D :=
  ⟨h.settles, fun ha hp hclean => hCD (h.vouches ha hp hclean)⟩

theorem mono {p : Analyse α} (h : Vouches names around gained p C) (hsub : gained ⊆ more) :
    Vouches names around more p C := by
  refine ⟨fun a => ?_, h.vouches⟩
  obtain ⟨v, a', hrun, hf⟩ := h.settles a
  exact ⟨v, a', hrun, hf.functions, hf.outer, fun x hx => hf.inner x fun hmem => hx (hsub hmem),
    hf.errors⟩

theorem pure (v : α) : Vouches names around [] (Pure.pure v : Analyse α) True :=
  ⟨fun a => ⟨v, a, rfl, .refl _ a⟩, fun _ _ _ => trivial⟩

theorem bind {p : Analyse α} {f : α → Analyse β} (hp : Vouches names around gained p C)
    (hf : ∀ v, Vouches (gained ++ names) around more (f v) D) :
    Vouches names around (gained ++ more) (p >>= f) (C ∧ D) := by
  refine ⟨fun a => ?_, fun {a w a''} ha hrun hclean => ?_⟩
  · obtain ⟨v, a₁, hrun, hfollows⟩ := hp.settles a
    obtain ⟨w, a₂, hrun', hfollows'⟩ := (hf v).settles a₁
    exact ⟨w, a₂, (bind_of_ok hrun).trans hrun', hfollows.trans hfollows'⟩
  · obtain ⟨v, a', hpa, hfa⟩ := bind_eq_ok hrun
    have hclean' := ((hf v).follows hfa).clean hclean
    have ha' := (hp.follows hpa).inside ha
    exact ⟨hp.vouches ha hpa hclean', (hf v).vouches ha' hfa hclean⟩

/-- Looking at the state changes nothing. -/
theorem get {f : Analysis → Analyse β} (hf : ∀ a, Vouches names around gained (f a) C) :
    Vouches names around gained (MonadState.get >>= f) C :=
  ⟨fun a => (hf a).settles a, fun {a _ _} ha hrun => (hf a).vouches ha hrun⟩

theorem modified {f : Analysis → Analysis} (h : ∀ a : Analysis, a.Follows gained (f a)) :
    Vouches names around gained (modify f : Analyse PUnit) True :=
  ⟨fun a => ⟨(), f a, rfl, h a⟩, fun _ _ _ => trivial⟩

theorem ite {c : Prop} [Decidable c] {p q : Analyse α} (hp : Vouches names around gained p C)
    (hq : Vouches names around gained q C) :
    Vouches names around gained (if c then p else q) C := by
  split
  · exact hp
  · exact hq

/-- With an error to report the analyser need not vouch for anything. -/
theorem report (d : Diagnostic) : Vouches names around [] (Analyse.report d) C := by
  refine ⟨fun a => ⟨(), _, rfl, rfl, rfl, fun _ _ => rfl, List.prefix_append _ _⟩,
    fun _ hp hclean => ?_⟩
  cases hp
  simp at hclean

theorem define (s : Symbol) : Vouches names around [s.name] (Analyse.define s) True := by
  apply modified
  intro a
  refine ⟨rfl, rfl, fun x hx => ?_, List.prefix_refl _⟩
  have hne : s.name ≠ x := fun h => hx (List.mem_singleton.mpr h.symm)
  change (a.scope.inner.bind s.name s).find? x = _
  rw [Bindings.find?_bind, if_neg hne]

/-- A name that is neither in sight nor registered would be reported. -/
theorem resolve {k : Sight} (hk : k.Covers names) (x : String) (line : Nat) :
    Vouches names around [] (Analyse.resolve x line) (Grounded fun r => r.name k x) := by
  have hreport (s? : Option Symbol) :
      Vouches names around [] (Analyse.undefinedName x line >>= fun _ => Pure.pure s?)
        (Grounded fun r => r.name k x) :=
    ((get fun _ => report (C := False) _).bind fun _ => pure s?).imp fun h => h.1.elim
  have hget (a : Analysis) : Analyse.resolve x line a =
      (if (a.scope.resolve? x).isNone then do
        Analyse.undefinedName x line
        return a.scope.resolve? x
      else return a.scope.resolve? x : Analyse (Option Symbol)) a := rfl
  refine ⟨fun a => ?_, fun {a _ _} ha hp hclean objects strange hown => ?_⟩
  · rw [hget]
    split
    · exact (hreport _).settles a
    · exact ⟨_, a, rfl, .refl _ a⟩
  · rw [hget] at hp
    split at hp
    · exact (hreport _).vouches ha hp hclean objects strange hown
    · rename_i hsome
      have hresolved : (a.scope.resolve? x).isSome = true :=
        Option.isSome_iff_ne_none.mpr (by simpa using hsome)
      -- What is resolved is in sight or registered; a claimed or registered name is not its own.
      have hown : k.own x = true := hown
      rcases ha.covered x hresolved with hmem | hknown
      · rcases hk x hmem with hbound | hclaimed
        · exact List.contains_iff_mem.mpr hbound
        · simpa [Sight.own, Sight.binds, hclaimed] using hown
      · simpa [Sight.own, Sight.binds, hknown] using hown

theorem checkArity (s : Symbol) (x : String) (given line : Nat) :
    Vouches names around [] (Analyse.checkArity s x given line) True := by
  unfold Analyse.checkArity
  split
  · exact ite (report _) (pure _)
  · exact pure _

theorem declare (s : Symbol) : Vouches names around [s.name] (Analyse.declare s) True := by
  refine get fun a => ?_
  split
  · exact (report _).mono (List.nil_subset _)
  · exact define s

theorem assign (x : String) (tag : Tag) (line : Nat) :
    Vouches names around [x] (Analyse.assign x tag line) True := by
  refine get fun a => ?_
  split
  · exact (pure _).mono (List.nil_subset _)
  · exact define { name := x, kind := .var, tag, line }

theorem parameters (ps : List String) (line : Nat) :
    Vouches names around ps (Analyse.parameters ps line) True := by
  unfold Analyse.parameters
  induction ps generalizing names with
  | nil => exact pure _
  | cons p ps ih =>
    exact ((define { name := p, kind := .parameter, tag := .any, line }).bind fun _ => ih).imp
      fun _ => trivial

/-- A scope of its own lets no name out. -/
theorem inScope {body : Analyse Unit} (h : Vouches names around gained body C) :
    Vouches names around [] (Analyse.inScope body) C := by
  have hrun {a a₁ : Analysis} (hbody : body { a with scope := a.scope.enter } = .ok () a₁) :
      Analyse.inScope body a = .ok () { a₁ with scope := a.scope } := by
    have hexit : a₁.scope.exit = .ok a.scope := by
      rw [SymbolTable.exit, (h.follows hbody).outer]
      rfl
    have henter : (modify fun a => { a with scope := a.scope.enter } : Analyse PUnit) a =
        .ok () { a with scope := a.scope.enter } := rfl
    have hget : (MonadState.get : Analyse Analysis) a₁ = .ok a₁ a₁ := rfl
    rw [Analyse.inScope, bind_of_ok henter, bind_of_ok hbody, bind_of_ok hget, hexit]
    rfl
  refine ⟨fun a => ?_, fun {a _ a'} ha hp hclean => ?_⟩
  · obtain ⟨_, a₁, hbody, hfollows⟩ := h.settles { a with scope := a.scope.enter }
    exact ⟨(), _, hrun hbody, hfollows.functions, rfl, fun _ _ => rfl, hfollows.errors⟩
  · obtain ⟨_, a₁, hbody, -⟩ := h.settles { a with scope := a.scope.enter }
    rw [hrun hbody] at hp
    cases hp
    exact h.vouches (a := { a with scope := a.scope.enter }) ⟨ha.covered, ha.functions⟩ hbody hclean

/-- Steps before and behind a part that leave the scopes alone. -/
theorem wrapped {f g : Analysis → Analysis} {inner : List String} {body : Analyse Unit}
    (h : Vouches names inner gained body C)
    (hinside : ∀ {a : Analysis}, a.Inside names around → (f a).Inside names inner)
    (hfollows : ∀ {a a' : Analysis}, (f a).Follows gained a' → a.Follows gained (g a'))
    (herrors : ∀ a, (g a).errors = a.errors) :
    Vouches names around gained (do modify f; body; modify g) C := by
  have hrun {a a₁ : Analysis} (hbody : body (f a) = .ok () a₁) :
      (do modify f; body; modify g : Analyse Unit) a = .ok () (g a₁) := by
    have hbefore : (modify f : Analyse PUnit) a = .ok () (f a) := rfl
    rw [bind_of_ok hbefore, bind_of_ok hbody]
    rfl
  refine ⟨fun a => ?_, fun {a _ a'} ha hp hclean => ?_⟩
  · obtain ⟨_, a₁, hbody, hinner⟩ := h.settles (f a)
    exact ⟨(), _, hrun hbody, hfollows hinner⟩
  · obtain ⟨_, a₁, hbody, -⟩ := h.settles (f a)
    rw [hrun hbody] at hp
    cases hp
    exact h.vouches (hinside ha) hbody ((herrors a₁).symm.trans hclean)

theorem inLoop {body : Analyse Unit} (h : Vouches names around gained body C) :
    Vouches names around gained (Analyse.inLoop body) C := by
  refine wrapped h ?_ ?_ fun _ => rfl
  · exact fun ha => ⟨ha.covered, ha.functions⟩
  · exact fun hf => ⟨hf.functions, hf.outer, hf.inner, hf.errors⟩

theorem inClass (x : String) {body : Analyse Unit} (h : Vouches names around gained body C) :
    Vouches names around gained (Analyse.inClass x body) C := by
  refine wrapped h ?_ ?_ fun _ => rfl
  · exact fun ha => ⟨ha.covered, ha.functions⟩
  · exact fun hf => ⟨hf.functions, hf.outer, hf.inner, hf.errors⟩

theorem inFunction (x : String) {body : Analyse Unit}
    (h : Vouches names (x :: around) gained body C) :
    Vouches names around gained (Analyse.inFunction x body) C := by
  refine wrapped h ?_ ?_ fun _ => rfl
  · exact fun ha => ⟨ha.covered, congrArg (x :: ·) ha.functions⟩
  · exact fun hf => ⟨congrArg List.tail hf.functions, hf.outer, hf.inner, hf.errors⟩

mutual

theorem expr : ∀ e {names k}, k.Covers names → Vouches names around [] (Analyse.expr e)
    (Grounded fun r => e.admitted r k)
  | .literal .number _ _, _, _, _ => by
    rw [Analyse.expr]
    exact (pure _).imp fun _ _ _ => id
  | .literal .string _ _, _, _, _ => by
    rw [Analyse.expr]
    exact (pure _).imp fun _ _ _ => id
  | .literal .boolean _ _, _, _, _ => by
    rw [Analyse.expr]
    exact (pure _).imp fun _ _ _ => id
  | .list es _, _, _, hk => by
    rw [Analyse.expr]
    exact ((exprs es hk).bind fun _ => pure _).imp fun h => h.1
  | .dict ps _, _, _, hk => by
    rw [Analyse.expr]
    exact ((pairs ps hk).bind fun _ => pure _).imp fun h => h.1
  | .var x l, _, _, hk => by
    rw [Analyse.expr]
    exact ((resolve hk x l).bind fun _ => pure _).imp fun h => h.1
  | .binary op a b l, names, _, hk => by
    rw [Analyse.expr]
    refine ((expr a hk).bind fun left => (expr b hk).bind fun right =>
      (?_ : Vouches names around [] _ True)).imp fun h => grounded_and h.1 h.2.1
    dsimp only
    split
    · exact ((report (C := True) _).bind fun _ => pure _).imp fun _ => trivial
    · exact pure _
  | .unary op a l, names, _, hk => by
    rw [Analyse.expr]
    refine ((expr a hk).bind fun operand => (?_ : Vouches names around [] _ True)).imp fun h => h.1
    dsimp only
    split
    · exact ((report (C := True) _).bind fun _ => pure _).imp fun _ => trivial
    · exact pure _
  | .paren a _, _, _, hk => by
    rw [Analyse.expr]
    exact expr a hk
  | .call x es l, names, k, hk => by
    rw [Analyse.expr]
    refine ((resolve hk x l).bind fun s? =>
      (?_ : Vouches names around [] _ (Grounded fun r => Expr.admittedAll r k es))).imp
      fun h => grounded_and h.1 h.2
    dsimp only
    split
    · exact ((checkArity _ _ _ _).bind fun _ => (exprs es hk).bind fun _ => pure _).imp
        fun h => h.2.1
    · exact ((exprs es hk).bind fun _ => pure _).imp fun h => h.1
  | .lambda ps a l, names, _, hk => by
    rw [Analyse.expr]
    exact ((inScope ((parameters ps l).bind fun _ => (expr a (hk.bind ps)).bind fun _ =>
      pure _)).bind fun _ => pure _).imp fun h => h.1.2.1
  | .newObject x es l, _, _, hk => by
    rw [Analyse.expr]
    exact ((resolve hk x l).bind fun _ => (exprs es hk).bind fun _ => pure _).imp
      fun h => grounded_and (grounded_and (fun _ _ => id) h.1) h.2.1
  | .method a _ es _, _, _, hk => by
    rw [Analyse.expr]
    exact ((expr a hk).bind fun _ => (exprs es hk).bind fun _ => pure _).imp
      fun h => grounded_and h.1 h.2.1
  | .property a _ _, _, _, hk => by
    rw [Analyse.expr]
    exact ((expr a hk).bind fun _ => pure _).imp fun h => h.1
  | .thisObject l, _, _, _ => by
    rw [Analyse.expr]
    exact get fun _ => ite (((report _).bind fun _ => pure _).imp fun h => h.1)
      ((pure _).imp fun _ _ _ => id)
  | .superCall _ es l, _, _, hk => by
    rw [Analyse.expr]
    refine get fun _ => ite (((report (C := False) _).bind fun _ => (exprs es hk).bind fun _ =>
      pure _).imp fun h => h.1.elim) ?_
    exact ((exprs es hk).bind fun _ => pure _).imp fun h => grounded_and (fun _ _ => id) h.1
  | .index a i _, _, _, hk => by
    rw [Analyse.expr]
    exact ((expr a hk).bind fun _ => (expr i hk).bind fun _ => pure _).imp
      fun h => grounded_and h.1 h.2.1
  | .foreign _ es _, _, _, hk => by
    rw [Analyse.expr]
    exact ((exprs es hk).bind fun _ => pure _).imp fun _ _ _ => id
termination_by structural e => e

theorem exprs : ∀ es {names k}, k.Covers names → Vouches names around [] (Analyse.exprs es)
    (Grounded fun r => Expr.admittedAll r k es)
  | [], _, _, _ => by
    rw [Analyse.exprs]
    exact (pure _).imp fun _ _ _ => id
  | e :: es, _, _, hk => by
    rw [Analyse.exprs]
    exact ((expr e hk).bind fun _ => exprs es hk).imp fun h => grounded_and h.1 h.2
termination_by structural es => es

theorem pairs : ∀ ps {names k}, k.Covers names → Vouches names around [] (Analyse.pairs ps)
    (Grounded fun r => Expr.admittedPairs r k ps)
  | [], _, _, _ => by
    rw [Analyse.pairs]
    exact (pure _).imp fun _ _ _ => id
  | (a, b) :: ps, _, _, hk => by
    rw [Analyse.pairs]
    exact ((expr a hk).bind fun _ => (expr b hk).bind fun _ => pairs ps hk).imp
      fun h => grounded_and (grounded_and h.1 h.2.1) h.2.2
termination_by structural ps => ps

end

/-- A handler knows the name of the error it handles, if it gives it one. -/
theorem handled (x : Option String) (l : Nat) {body : Analyse Unit}
    (h : Vouches ((Run.nonempty x).toList ++ names) around gained body C) :
    Vouches names around [] (Analyse.inScope do
      if let some y := x.filter (!·.isEmpty) then
        Analyse.define { name := y, kind := .var, tag := .any, line := l }
      body) C := by
  revert h
  unfold Run.nonempty
  cases x.filter (!·.isEmpty) with
  | some y =>
    intro h
    have hbody := (define { name := y, kind := .var, tag := .any, line := l }).bind fun _ => h
    exact inScope (hbody.imp fun hC => hC.2)
  | none =>
    intro h
    exact inScope h

/-- Outside of all functions giving back a value is reported. -/
theorem giveBack {p : Analyse Unit} (d : Diagnostic) (h : Vouches names around [] p C) :
    Vouches names around [] (do
      if (← MonadState.get).functions.isEmpty then Analyse.report d
      p) (C ∧ around ≠ []) := by
  have hget (a : Analysis) : (do
      if (← MonadState.get).functions.isEmpty then Analyse.report d
      p : Analyse Unit) a =
        (if a.functions.isEmpty then Analyse.report d >>= fun _ => p else p) a := rfl
  refine ⟨fun a => ?_, fun {a _ _} ha hp hclean => ?_⟩
  · rw [hget]
    split
    · exact ((report (C := True) d).bind fun _ => h).settles a
    · exact h.settles a
  · rw [hget] at hp
    split at hp
    · exact (((report (C := False) d).bind fun _ => h).vouches ha hp hclean).1.elim
    · rename_i hinside
      refine ⟨h.vouches ha hp hclean, fun houtside => hinside ?_⟩
      rw [ha.functions, houtside]
      rfl

/-- A name that `padho` gives a value is resolved from then on. -/
theorem input (x : String) (l : Nat) {p : Analyse Unit} (h : Vouches names around [] p C)
    (h' : Vouches (x :: names) around [] p C) :
    Vouches names around [x] (do
      if ((← MonadState.get).scope.resolveLocal? x).isNone then
        Analyse.define { name := x, kind := .var, tag := .string, line := l }
      p) C := by
  refine get fun a => ite ?_ (h.mono (List.nil_subset _))
  exact ((define { name := x, kind := .var, tag := .string, line := l }).bind fun _ => h').imp
    fun hC => hC.2

mutual

theorem stmt : ∀ s {names around k}, k.Covers names → Vouches names around s.binds (Analyse.stmt s)
    (Passed around (Grounded fun r => s.admitted r k) s.gives)
  | .expr e, _, _, _, hk => by
    rw [Analyse.stmt]
    exact ((expr e hk).bind fun _ => pure _).imp fun h => .still h.1
  | .assign x e l, _, _, _, hk => by
    rw [Analyse.stmt]
    exact ((expr e hk).bind fun tag => assign x tag l).imp fun h => .still h.1
  | .setProperty a _ e _, _, _, _, hk => by
    rw [Analyse.stmt]
    exact ((expr a hk).bind fun _ => (expr e hk).bind fun _ => pure _).imp
      fun h => .still (grounded_and h.1 h.2.1)
  | .setIndex a i e _, _, _, _, hk => by
    rw [Analyse.stmt]
    exact ((expr a hk).bind fun _ => (expr i hk).bind fun _ => (expr e hk).bind fun _ => pure _).imp
      fun h => .still (grounded_and (grounded_and h.1 h.2.1) h.2.2.1)
  | .print es _, _, _, _, hk => by
    rw [Analyse.stmt]
    exact (exprs es hk).imp .still
  | .input x (some e) l, _, _, k, hk => by
    -- The prompt comes behind the name, which may have been declared before.
    have hx := hk.claim [x]
    rw [Analyse.stmt]
    exact (input x l ((expr e (hx.mono (List.subset_cons_self _ _))).bind fun _ => pure _)
      ((expr e hx).bind fun _ => pure _)).imp
        fun h => .still (grounded_and (grounded_and (fun _ _ => id) (grounded_claim k x)) h.1)
  | .input x none l, _, _, k, _ => by
    rw [Analyse.stmt]
    · exact (input x l (pure _) (pure _)).imp fun _ =>
        .still (grounded_and (grounded_and (fun _ _ => id) (grounded_claim k x)) fun _ _ => id)
    · nofun
  | .ifElse c body others (some b) _, _, _, _, hk => by
    rw [Analyse.stmt]
    exact ((expr c hk).bind fun _ => (inScope (block body hk)).bind fun _ =>
      (branches others hk).bind fun _ => inScope (block b hk)).imp fun h =>
        ((h.2.1.after h.1).and h.2.2.1).and h.2.2.2
  | .ifElse c body others none _, _, _, _, hk => by
    rw [Analyse.stmt]
    exact ((expr c hk).bind fun _ => (inScope (block body hk)).bind fun _ =>
      (branches others hk).bind fun _ => pure _).imp fun h =>
        ((h.2.1.after h.1).and h.2.2.1).and .nothing
  | .whileLoop c body _, _, _, _, hk => by
    rw [Analyse.stmt]
    exact ((expr c hk).bind fun _ => inLoop (inScope (block body hk))).imp fun h => h.2.after h.1
  | .forLoop x e body l, _, _, _, hk => by
    rw [Analyse.stmt]
    exact ((expr e hk).bind fun _ => inLoop (inScope
      ((define { name := x, kind := .var, tag := .any, line := l }).bind fun _ =>
        block body (hk.bind [x])))).imp fun h => h.2.2.after h.1
  | .breakLoop l, _, _, _, _ => by
    rw [Analyse.stmt]
    exact (get fun _ => ite (report _) (pure _)).imp fun _ => .nothing
  | .continueLoop l, _, _, _, _ => by
    rw [Analyse.stmt]
    exact (get fun _ => ite (report _) (pure _)).imp fun _ => .nothing
  | .function (.mk x ps body l), _, _, _, hk => by
    rw [Analyse.stmt]
    exact (function (.mk x ps body l) (hk.bind [x])).imp .still
  | .giveBack (some e) l, _, _, _, hk => by
    rw [Analyse.stmt]
    exact (giveBack _ ((expr e hk).bind fun _ => pure _)).imp fun h =>
      ⟨h.1.1, fun houtside => absurd houtside h.2⟩
  | .giveBack none l, _, _, _, _ => by
    rw [Analyse.stmt]
    · exact (giveBack _ (pure _)).imp fun h =>
        ⟨fun _ _ => id, fun houtside => absurd houtside h.2⟩
    · nofun
  | .classDef x (some p) methods l, _, _, _, hk => by
    rw [Analyse.stmt]
    -- The class is declared before its parent is resolved: there its name is only a claim.
    refine ((declare { name := x, kind := .classKind, tag := .classTag, line := l }).bind fun _ =>
      (resolve (hk.claim [x]) p l).bind fun _ =>
        inClass x (inScope (functions methods ((hk.bind [x]).claim _)))).imp fun h => ?_
    refine .still (grounded_and (grounded_and (fun _ _ => id) ?_) h.2.2)
    unfold Run.nonempty Option.filter
    dsimp only
    split
    · exact h.2.1
    · exact fun _ _ => id
  | .classDef x none methods l, _, _, _, hk => by
    rw [Analyse.stmt]
    exact ((declare { name := x, kind := .classKind, tag := .classTag, line := l }).bind fun _ =>
      inClass x (inScope (functions methods ((hk.bind [x]).claim _)))).imp fun h =>
        .still (grounded_and (grounded_and (fun _ _ => id) fun _ _ => id) h.2)
  | .attempt body x (some b) (some d) l, _, _, _, hk => by
    rw [Analyse.stmt]
    exact ((inScope (block body hk)).bind fun _ => (handled x l (block b (hk.bind _))).bind fun _ =>
      inScope (block d hk)).imp fun h => (h.1.and h.2.1).and h.2.2
  | .attempt body x (some b) none l, _, _, _, hk => by
    rw [Analyse.stmt]
    exact ((inScope (block body hk)).bind fun _ => (handled x l (block b (hk.bind _))).bind fun _ =>
      pure _).imp fun h => (h.1.and h.2.1).and .nothing
  | .attempt body x none (some d) l, _, _, _, hk => by
    rw [Analyse.stmt]
    exact ((inScope (block body hk)).bind fun _ => inScope (block d hk)).imp fun h =>
      (h.1.and .nothing).and h.2
  | .attempt body x none none l, _, _, _, hk => by
    rw [Analyse.stmt]
    exact ((inScope (block body hk)).bind fun _ => pure _).imp
      fun h => (h.1.and .nothing).and .nothing
  | .raiseError e _, _, _, _, hk => by
    rw [Analyse.stmt]
    exact ((expr e hk).bind fun _ => pure _).imp fun h => .still h.1
  | .importFile _ _, _, _, _, _ => by
    rw [Analyse.stmt]
    exact (pure _).imp fun _ => .still fun _ _ => id
  | .foreign _ ss _, _, _, _, hk => by
    rw [Analyse.stmt]
    exact (block ss hk).imp fun _ => .still fun _ _ => id
termination_by structural s => s

theorem block : ∀ ss {names around k}, k.Covers names →
    Vouches names around (Stmt.bindsAll ss) (Analyse.stmts ss)
      (Passed around (Grounded fun r => Stmt.admittedAll r k ss) (Stmt.givesAny ss))
  | [], _, _, _, _ => by
    rw [Analyse.stmts]
    exact (pure _).imp fun _ => .nothing
  | s :: ss, _, _, _, hk => by
    rw [Analyse.stmts]
    exact ((stmt s hk).bind fun _ => block ss (hk.bind s.binds)).imp fun h => h.1.and h.2
termination_by structural ss => ss

theorem branches : ∀ bs {names around k}, k.Covers names →
    Vouches names around [] (Analyse.branches bs)
      (Passed around (Grounded fun r => Branch.admittedAll r k bs) (Branch.givesAny bs))
  | [], _, _, _, _ => by
    rw [Analyse.branches]
    exact (pure _).imp fun _ => .nothing
  | .mk c body :: bs, _, _, _, hk => by
    rw [Analyse.branches]
    exact ((expr c hk).bind fun _ => (inScope (block body hk)).bind fun _ => branches bs hk).imp
      fun h => (h.2.1.after h.1).and h.2.2
termination_by structural bs => bs

theorem function : ∀ f {names around k}, k.Covers (f.name :: names) →
    Vouches names around [f.name] (Analyse.function f) (Grounded fun r => f.admitted r k)
  | .mk x ps body l, _, _, _, hk => by
    rw [Analyse.function]
    exact ((declare
      { name := x, kind := .function, tag := .function, line := l, arity := some ps.length }).bind
        fun _ => inFunction x (inScope ((parameters ps l).bind fun _ =>
          block body (hk.bind ps)))).imp fun h => h.2.2.introduces
termination_by structural f => f

/-- What all the functions are called is in sight of each of them. -/
theorem functions : ∀ fs {names around k}, k.Covers (FunctionDef.names fs ++ names) →
    Vouches names around (FunctionDef.names fs) (Analyse.functions fs)
      (Grounded fun r => FunctionDef.admittedAll r k fs)
  | [], _, _, _, _ => by
    rw [Analyse.functions]
    exact (pure _).imp fun _ _ _ => id
  | f :: fs, names, _, k, hk => by
    have hf : k.Covers (f.name :: names) := hk.mono <| List.cons_subset_cons _ <|
      List.subset_append_right _ _
    have hfs : k.Covers (FunctionDef.names fs ++ ([f.name] ++ names)) := by
      refine hk.mono fun x hx => ?_
      simp only [FunctionDef.names, List.map_cons, List.mem_append, List.mem_cons] at hx ⊢
      grind
    rw [Analyse.functions]
    exact ((function f hf).bind fun _ => functions fs hfs).imp fun h => grounded_and h.1 h.2
termination_by structural fs => fs

end

/-- Where nothing is claimed it is a matter of names alone, but for classes, objects, `padho` and
imports. -/
theorem stmts (ss : List Stmt) {names around : List String} :
    Vouches names around (Stmt.bindsAll ss) (Analyse.stmts ss)
      (Passed around (Introduces fun ok => Stmt.lexicalAll ok names ss) (Stmt.givesAny ss)) := by
  have hcovers : Sight.Covers ⟨names, []⟩ names := fun _ hx => .inl hx
  refine (block ss hcovers).imp fun h => ⟨fun hown => ?_, h.holds⟩
  have heq := Stmt.admittedAll_eq_lexicalAll Sight.own [] ss names
  have hbinds := Stmt.admittedAll_eq_lexicalAll Sight.binds [] ss names
  exact hbinds.symm.trans (h.introduces false false (heq.trans hown))

end Vouches

theorem Analysis.inside_initial : Analysis.initial.Inside [] [] :=
  ⟨covered_initial, rfl⟩

/-- What the analyser finds wrong in a program. -/
def Program.semanticErrors (p : Program) : List Diagnostic :=
  (finalState (Analyse.stmts p.statements) Analysis.initial).errors

/-- The analyser gets through every program. -/
theorem exists_analyse (p : Program) : ∃ a, analyse p = .ok a ∧ a.errors = p.semanticErrors := by
  have hvouches : Vouches [] [] _ (Analyse.stmts p.statements) _ := Vouches.stmts p.statements
  obtain ⟨_, a, hrun, -⟩ := hvouches.settles Analysis.initial
  refine ⟨a, ?_, ?_⟩
  · rw [analyse, analyseStatements, hrun]
  · rw [Program.semanticErrors, finalState_ok hrun]

theorem passed_of_semanticErrors {p : Program} (h : p.semanticErrors = []) :
    Passed [] (Introduces fun ok => Stmt.lexicalAll ok [] p.statements)
      (Stmt.givesAny p.statements) := by
  have hvouches : Vouches [] [] _ (Analyse.stmts p.statements) _ := Vouches.stmts p.statements
  obtain ⟨_, a, hrun, -⟩ := hvouches.settles Analysis.initial
  rw [Program.semanticErrors, finalState_ok hrun] at h
  exact hvouches.vouches Analysis.inside_initial hrun h

end Bhasha
