import Bhasha.Proofs.Dialogue
import Bhasha.Proofs.ExprTags

namespace Bhasha

/-- The statement assigns to a variable an expression without calls, whose literals are proper. -/
def Stmt.assignsTame : Stmt → Bool
  | .assign _ e _ => e.every Expr.isTame && e.every Expr.isProper
  | _ => false

theorem Stmt.of_assignsTame {st : Stmt} (h : st.assignsTame = true) :
    ∃ x e l, st = .assign x e l ∧ e.every Expr.isTame = true ∧ e.every Expr.isProper = true := by
  cases st with
  | assign x e l =>
    obtain ⟨htame, hproper⟩ := Bool.and_eq_true_iff.1 h
    exact ⟨x, e, l, rfl, htame, hproper⟩
  | _ => cases h

theorem Stmt.givesAny_of_assignsTame {ss : List Stmt} (h : ∀ st ∈ ss, st.assignsTame = true) :
    Stmt.givesAny ss = false := by
  induction ss with
  | nil => rfl
  | cons st ss ih =>
    obtain ⟨hst, hss⟩ := List.forall_mem_cons.mp h
    obtain ⟨x, e, l, rfl, -⟩ := Stmt.of_assignsTame hst
    exact ih hss

/-- The names that the statements assign to. -/
def Stmt.targets (ss : List Stmt) : List String :=
  (Stmt.assignedAll ss).map (·.1)

theorem Stmt.targets_append (ss ss' : List Stmt) :
    Stmt.targets (ss ++ ss') = Stmt.targets ss ++ Stmt.targets ss' := by
  induction ss with
  | nil => rfl
  | cons st ss ih =>
    unfold Stmt.targets at ih ⊢
    rw [List.cons_append, Stmt.assignedAll, List.map_append, ih, Stmt.assignedAll, List.map_append,
      List.append_assoc]

theorem Stmt.mem_targets_assign {ss : List Stmt} {x y : String} {e : Expr} {l : Nat} :
    y ∈ Stmt.targets (ss ++ [Stmt.assign x e l]) ↔ y ∈ Stmt.targets ss ∨ y = x := by
  have hlast : Stmt.targets [Stmt.assign x e l] = [x] := rfl
  rw [Stmt.targets_append, hlast, List.mem_append, List.mem_singleton]

/-- What the analyser knows behind these statements. -/
def Analysis.behind (ss : List Stmt) : Analysis :=
  finalState (Analyse.stmts ss) Analysis.initial

/-- The machine on which these statements have run. -/
def Machine.behind (s : Setting) (input : List Char) (ss : List Stmt) : Machine :=
  finalState (execute s ss) (Machine.initial input)

/-- The variable has a symbol and a value, and its tag is that of the value or says nothing. -/
def Analysis.TagsRightly (a : Analysis) (m : Machine) (x : String) : Prop :=
  ∃ sym v, a.scope.resolveLocal? x = some sym ∧ m.scopes.get? m.current x = some v ∧
    (sym.tag = .any ∨ v.tag = sym.tag)

theorem Analyse.stmts_append (ss ss' : List Stmt) :
    Analyse.stmts (ss ++ ss') = (do Analyse.stmts ss; Analyse.stmts ss') := by
  induction ss with
  | nil => rw [List.nil_append, Analyse.stmts, pure_bind]
  | cons st ss ih => rw [List.cons_append, Analyse.stmts, ih, Analyse.stmts, bind_assoc]

/-- The analyser finds nothing wrong in the statements, and they run to their end. -/
structure Walked (s : Setting) (input : List Char) (ss : List Stmt) (a : Analysis) (m : Machine) :
    Prop where
  analysed : Analyse.stmts ss Analysis.initial = .ok () a
  clean : a.errors = []
  ran : Exec.stmts s.context ss (Machine.initial input) = .ok () m

namespace Walked

variable {s : Setting} {input : List Char} {ss ss' : List Stmt} {a : Analysis} {m : Machine}

theorem analysis_behind (h : Walked s input ss a m) : Analysis.behind ss = a :=
  finalState_ok h.analysed

theorem machine_behind (h : Walked s input ss a m) : Machine.behind s input ss = m :=
  finalState_ok (execute_eq_ok.mpr (.inl h.ran))

theorem of_execute {p : Program} (hp : ∀ st ∈ p.statements, st.assignsTame = true)
    (ha : analyse p = .ok a) (hclean : a.errors = [])
    (hrun : execute s p.statements (Machine.initial input) = .ok () m) :
    Walked s input p.statements a m := by
  obtain ⟨_, a', hanalysed, -⟩ := ComesBack.stmts p.statements (List.Subset.refl _) Analysis.initial
  rw [analyse, analyseStatements, hanalysed] at ha
  cases ha
  refine ⟨hanalysed, hclean, ?_⟩
  rcases execute_eq_ok.mp hrun with hran | ⟨v, hgave⟩
  · exact hran
  · have hgives := Stmt.givesAny_of_assignsTame hp
    exact absurd hgave ((Machine.sound_initial True input).stmts_ne_giveBack hgives v)

/-- The first of the statements have been walked through too, and the others from there on. -/
theorem of_append (h : Walked s input (ss ++ ss') a m) :
    ∃ a₁ m₁, Walked s input ss a₁ m₁ ∧ Analyse.stmts ss' a₁ = .ok () a ∧
      Exec.stmts s.context ss' m₁ = .ok () m := by
  have hanalysed := h.analysed
  have hran := h.ran
  rw [Analyse.stmts_append] at hanalysed
  rw [Exec.stmts_append] at hran
  obtain ⟨_, a₁, hfirst, hsecond⟩ := bind_eq_ok hanalysed
  obtain ⟨_, m₁, hran₁, hran₂⟩ := bind_eq_ok hran
  refine ⟨a₁, m₁, ⟨hfirst, ?_, hran₁⟩, hsecond, hran₂⟩
  obtain ⟨_, a', hrest, hb⟩ := ComesBack.stmts ss' (List.Subset.refl _) a₁
  rw [hsecond] at hrest
  cases hrest
  have hprefix := hb.errors
  rw [h.clean] at hprefix
  exact List.prefix_nil.mp hprefix

end Walked

/-- What is known of a variable stays; another name becomes a variable. -/
theorem Analyse.assign_cases {x : String} {t : Tag} {l : Nat} {a a' : Analysis}
    (h : Analyse.assign x t l a = .ok () a') :
    (∃ sym, a.scope.resolveLocal? x = some sym ∧ sym.kind = .var) ∧ a' = a ∨
      (∀ sym, a.scope.resolveLocal? x = some sym → sym.kind ≠ .var) ∧
        a' = { a with
          scope := a.scope.define { name := x, kind := .var, tag := t, line := l } } := by
  unfold Analyse.assign at h
  have h := bind_get_ok h
  cases hsym : a.scope.resolveLocal? x with
  | none =>
    rw [hsym] at h
    cases h
    refine .inr ⟨fun sym hnone => ?_, rfl⟩
    cases hnone
  | some sym =>
    obtain ⟨name, kind, tag, line, arity⟩ := sym
    rw [hsym] at h
    cases kind with
    | var =>
      cases h
      exact .inl ⟨⟨_, rfl, rfl⟩, rfl⟩
    | parameter | function | classKind =>
      cases h
      refine .inr ⟨fun sym heq hvar => ?_, rfl⟩
      cases heq
      cases hvar

namespace Machine.Rooted

variable {m m' : Machine}

theorem sameScopes (h : m.Rooted) (hm : m.SameScopes m') : m'.Rooted := by
  refine ⟨?_, ?_⟩ <;> rw [hm.scopes, hm.current]
  · exact h.present
  · exact h.outermost

theorem values_assign (h : m.Rooted) (x : String) (v : Value)
    (hassign : Run.assign x v m = .ok () m') :
    m'.Rooted ∧ ∀ y, m'.scopes.get? m'.current y =
      if y = x then some v else m.scopes.get? m.current y := by
  rw [h.assign] at hassign
  cases hassign
  refine ⟨h.define x v, fun y => ?_⟩
  rw [(h.define x v).get?, h.get?, h.bindings_define, Bindings.find?_bind]
  simp [eq_comm]

end Machine.Rooted

/-- The analyser and the run are in their outermost scopes, and the analyser knows these names as
variables and no others. -/
structure Kept (names : List String) (a : Analysis) (m : Machine) : Prop where
  rooted : m.Rooted
  outermost : a.scope.outer = []
  known : ∀ x ∈ names, ∃ sym, a.scope.resolveLocal? x = some sym ∧ sym.kind = .var
  others : ∀ x ∉ names, ∀ sym, a.scope.resolveLocal? x = some sym →
    sym.kind ≠ .var ∧ sym.tag = .any

/-- What comes of assigning `e` to `x` where `names` are the variables so far: the analyser infers
the tag `t` for the value `v`, and takes note of it only if `x` is new. -/
structure Assigned (names : List String) (x : String) (e : Expr) (l : Nat) (a : Analysis)
    (m : Machine) (a' : Analysis) (m' : Machine) (t : Tag) (v : Value) : Prop where
  inferred : ∃ b, Analyse.expr e a = .ok t b
  sound : a.scope.Describes m → t ≠ .any → v.tag = t
  outer : a'.scope.outer = a.scope.outer
  symbols : ∀ y, a'.scope.resolveLocal? y =
    if y = x ∧ x ∉ names then some { name := x, kind := .var, tag := t, line := l }
    else a.scope.resolveLocal? y
  rooted : m'.Rooted
  values : ∀ y, m'.scopes.get? m'.current y =
    if y = x then some v else m.scopes.get? m.current y

namespace Kept

variable {names names' : List String} {a a' : Analysis} {m m' : Machine} {x : String} {e : Expr}
  {l : Nat} {t : Tag} {v : Value}

theorem initial (input : List Char) : Kept [] Analysis.initial (Machine.initial input) where
  rooted := rooted_session [] input
  outermost := rfl
  known _ hx := absurd hx List.not_mem_nil
  others x _ sym hsym := by
    obtain ⟨f, -, heq⟩ := List.mem_map.mp (Bindings.mem_of_find? hsym)
    cases heq
    exact ⟨(by decide : SymbolKind.function ≠ SymbolKind.var), rfl⟩

theorem of_scope (h : Kept names a m) (hscope : a'.scope = a.scope) : Kept names a' m := by
  refine ⟨h.rooted, ?_, ?_, ?_⟩ <;> rw [hscope]
  · exact h.outermost
  · exact h.known
  · exact h.others

/-- If the tags of the variables are right, the analyser is wrong about no name. -/
theorem describes (h : Kept names a m) (hright : ∀ x ∈ names, a.TagsRightly m x) :
    a.scope.Describes m := by
  intro x sym hsym hknown
  have hlocal : a.scope.resolveLocal? x = some sym := by
    simpa [SymbolTable.resolve?, SymbolTable.resolveLocal?, h.outermost] using hsym
  by_cases hx : x ∈ names
  · obtain ⟨sym', v, hsym', hv, htag⟩ := hright x hx
    rw [hlocal] at hsym'
    cases hsym'
    exact ⟨v, hv, htag.resolve_left hknown⟩
  · exact absurd (h.others x hx sym hlocal).2 hknown

theorem symbols_assign (h : Kept names a m) (hassign : Analyse.assign x t l a = .ok () a') :
    a'.scope.outer = a.scope.outer ∧ ∀ y, a'.scope.resolveLocal? y =
      if y = x ∧ x ∉ names then some { name := x, kind := .var, tag := t, line := l }
      else a.scope.resolveLocal? y := by
  rcases Analyse.assign_cases hassign with ⟨⟨sym, hsym, hvar⟩, rfl⟩ | ⟨hnone, rfl⟩
  · have hx : x ∈ names := by
      by_contra hx
      exact (h.others x hx sym hsym).1 hvar
    refine ⟨rfl, fun y => ?_⟩
    rw [if_neg fun hnew => hnew.2 hx]
  · have hx : x ∉ names := by
      intro hx
      obtain ⟨sym, hsym, hvar⟩ := h.known x hx
      exact hnone sym hsym hvar
    refine ⟨rfl, fun y => (Bindings.find?_bind _ x y _).trans ?_⟩
    simp [hx, eq_comm, SymbolTable.resolveLocal?]

theorem assigned (h : Kept names a m) {c : Context} (htame : e.every Expr.isTame = true)
    (hproper : e.every Expr.isProper = true) (hclean : a.errors = []) (hclean' : a'.errors = [])
    (ha : Analyse.stmt (.assign x e l) a = .ok () a')
    (hm : Exec.stmt c (.assign x e l) m = .ok () m') :
    ∃ t v, Assigned names x e l a m a' m' t v := by
  rw [Analyse.stmt] at ha
  rw [Exec.stmt] at hm
  obtain ⟨t, b, hinferred, hassign⟩ := bind_eq_ok ha
  obtain ⟨v, m₁, hvalue, hassigned⟩ := bind_eq_ok hm
  have hbalanced := Analyse.balanced_expr hinferred
  have hb : b.errors = a.errors := by
    rw [hclean, ← hclean']
    rcases Analyse.assign_cases hassign with ⟨-, rfl⟩ | ⟨-, rfl⟩ <;> rfl
  have hsame := Eval.sameScopes_expr (c := c) e htame m
  rw [finalState_ok hvalue] at hsame
  obtain ⟨houter, hsymbols⟩ := (h.of_scope hbalanced.scope).symbols_assign hassign
  obtain ⟨hrooted, hvalues⟩ := (h.rooted.sameScopes hsame).values_assign x v hassigned
  rw [hbalanced.scope] at houter hsymbols
  rw [hsame.scopes, hsame.current] at hvalues
  exact ⟨t, v, ⟨b, hinferred⟩,
    fun hnames hknown => e.soundlyTagged c htame hproper hnames hinferred hb hknown hvalue,
    houter, hsymbols, hrooted, hvalues⟩

end Kept

theorem Assigned.kept {names names' : List String} {a a' : Analysis} {m m' : Machine} {x : String}
    {e : Expr} {l : Nat} {t : Tag} {v : Value} (h : Assigned names x e l a m a' m' t v)
    (hkept : Kept names a m) (hnames : ∀ y, y ∈ names' ↔ y ∈ names ∨ y = x) :
    Kept names' a' m' where
  rooted := h.rooted
  outermost := h.outer.trans hkept.outermost
  known y hy := by
    rw [h.symbols]
    split
    · exact ⟨_, rfl, rfl⟩
    · next hold =>
      rcases (hnames y).mp hy with hy | rfl
      · exact hkept.known y hy
      · exact hkept.known y (Decidable.not_not.mp fun hnew => hold ⟨rfl, hnew⟩)
  others y hy := by
    have hboth : y ∉ names ∧ y ≠ x := not_or.mp (mt (hnames y).mpr hy)
    rw [h.symbols, if_neg fun hnew => hboth.2 hnew.1]
    exact hkept.others y hboth.1

section

variable {s : Setting} {input : List Char} {ss before : List Stmt} {a : Analysis} {m : Machine}
  {x : String} {e : Expr} {l : Nat}

theorem Walked.last (h : Walked s input (ss ++ [Stmt.assign x e l]) a m)
    (htame : e.every Expr.isTame = true) (hproper : e.every Expr.isProper = true)
    (hkept : ∀ {a₁ m₁}, Walked s input ss a₁ m₁ → Kept (Stmt.targets ss) a₁ m₁) :
    ∃ a₁ m₁ t v, Walked s input ss a₁ m₁ ∧
      Assigned (Stmt.targets ss) x e l a₁ m₁ a m t v := by
  obtain ⟨a₁, m₁, hwalked, hanalysed, hran⟩ := h.of_append
  rw [Analyse.stmts, Analyse.stmts] at hanalysed
  rw [Exec.stmts, Exec.stmts] at hran
  obtain ⟨_, a₂, hanalysed, hpure⟩ := bind_eq_ok hanalysed
  cases hpure
  obtain ⟨_, m₂, hran, hpure⟩ := bind_eq_ok hran
  cases hpure
  obtain ⟨t, v, hassigned⟩ :=
    (hkept hwalked).assigned htame hproper hwalked.clean h.clean hanalysed hran
  exact ⟨a₁, m₁, t, v, hwalked, hassigned⟩

theorem Walked.kept (h : Walked s input ss a m) (hss : ∀ st ∈ ss, st.assignsTame = true) :
    Kept (Stmt.targets ss) a m := by
  induction ss using List.reverseRecOn generalizing a m with
  | nil =>
    have hanalysed := h.analysed
    have hran := h.ran
    rw [Analyse.stmts] at hanalysed
    rw [Exec.stmts] at hran
    cases hanalysed
    cases hran
    exact .initial input
  | append_singleton ss st ih =>
    obtain ⟨x, e, l, rfl, htame, hproper⟩ := Stmt.of_assignsTame (hss st (by simp))
    have hss' : ∀ st ∈ ss, st.assignsTame = true := fun st hst => hss st (by simp [hst])
    obtain ⟨a₁, m₁, t, v, hwalked, hassigned⟩ := h.last htame hproper fun hw => ih hw hss'
    exact hassigned.kept (ih hwalked hss') fun _ => Stmt.mem_targets_assign

theorem Walked.of_prefix (h : Walked s input ss a m) (hbefore : before <+: ss) :
    ∃ a₁ m₁, Walked s input before a₁ m₁ := by
  obtain ⟨after, rfl⟩ := hbefore
  obtain ⟨a₁, m₁, hwalked, -⟩ := h.of_append
  exact ⟨a₁, m₁, hwalked⟩

/-- Each assignment leads from what lies behind the statements in front of it to what lies behind
it. -/
theorem Walked.step (h : Walked s input ss a m) (hss : ∀ st ∈ ss, st.assignsTame = true)
    (hstep : before ++ [Stmt.assign x e l] <+: ss) :
    Kept (Stmt.targets before) (Analysis.behind before) (Machine.behind s input before) ∧
      ∃ t v, Assigned (Stmt.targets before) x e l (Analysis.behind before)
        (Machine.behind s input before) (Analysis.behind (before ++ [Stmt.assign x e l]))
        (Machine.behind s input (before ++ [Stmt.assign x e l])) t v := by
  have hmem : ∀ st ∈ before ++ [Stmt.assign x e l], st.assignsTame = true := fun st hst =>
    hss st (hstep.subset hst)
  have hbefore : ∀ st ∈ before, st.assignsTame = true := fun st hst => hmem st (by simp [hst])
  obtain ⟨x', e', l', heq, htame, hproper⟩ := Stmt.of_assignsTame (hmem (.assign x e l) (by simp))
  cases heq
  obtain ⟨a₂, m₂, hthrough⟩ := h.of_prefix hstep
  obtain ⟨a₁, m₁, t, v, hwalked, hassigned⟩ :=
    hthrough.last htame hproper fun hw => hw.kept hbefore
  rw [hwalked.analysis_behind, hwalked.machine_behind, hthrough.analysis_behind,
    hthrough.machine_behind]
  exact ⟨hwalked.kept hbefore, t, v, hassigned⟩

/-- What is known of a variable behind some of the statements is known of it behind all. -/
theorem Walked.symbol_kept (h : Walked s input ss a m) (hbefore : before <+: ss) {sym : Symbol}
    (hsym : (Analysis.behind before).scope.resolveLocal? x = some sym) (hvar : sym.kind = .var) :
    a.scope.resolveLocal? x = some sym := by
  obtain ⟨after, rfl⟩ := hbefore
  obtain ⟨a₁, m₁, hwalked, hanalysed, -⟩ := h.of_append
  rw [hwalked.analysis_behind] at hsym
  obtain ⟨_, a', hrest, hb⟩ := ComesBack.stmts after (List.Subset.refl _) a₁
  rw [hanalysed] at hrest
  cases hrest
  obtain ⟨sym', hsym', hsame | ⟨hother, -⟩⟩ := hb.inner.symbols x sym hsym
  · rwa [hsame] at hsym'
  · exact absurd hvar hother

/-- Assigning to an old variable leaves its symbol as it is. -/
theorem Walked.tagsRightly_old (h : Walked s input ss a m)
    (hss : ∀ st ∈ ss, st.assignsTame = true) (hstep : before ++ [Stmt.assign x e l] <+: ss)
    (hold : x ∈ Stmt.targets before) {m' : Machine} :
    (Analysis.behind (before ++ [Stmt.assign x e l])).TagsRightly m' x ↔
      (Analysis.behind before).TagsRightly m' x := by
  obtain ⟨-, t, v, hassigned⟩ := h.step hss hstep
  unfold Analysis.TagsRightly
  rw [hassigned.symbols, if_neg fun hnew => hnew.2 hold]

/-- The tags of all variables so far are right behind these statements. -/
def RightBehind (s : Setting) (input : List Char) (ss : List Stmt) : Prop :=
  ∀ x ∈ Stmt.targets ss, (Analysis.behind ss).TagsRightly (Machine.behind s input ss) x

/-- As long as the tags are right, a tag that is inferred is the one to compare with. -/
theorem Walked.fits_iff (h : Walked s input ss a m) (hss : ∀ st ∈ ss, st.assignsTame = true)
    (hstep : before ++ [Stmt.assign x e l] <+: ss) (hright : RightBehind s input before)
    {sym : Symbol} {t : Tag} {b : Analysis}
    (hsym : (Analysis.behind before).scope.resolveLocal? x = some sym)
    (hinferred : Analyse.expr e (Analysis.behind before) = .ok t b) (ht : t ≠ .any) :
    (Analysis.behind before).TagsRightly
        (Machine.behind s input (before ++ [Stmt.assign x e l])) x ↔
      sym.tag = .any ∨ t = sym.tag := by
  obtain ⟨hkept, t', v, hassigned⟩ := h.step hss hstep
  obtain ⟨b', hinferred'⟩ := hassigned.inferred
  rw [hinferred] at hinferred'
  cases hinferred'
  have hv : v.tag = t := hassigned.sound (hkept.describes hright) ht
  unfold Analysis.TagsRightly
  rw [hsym, hassigned.values, if_pos rfl, ← hv]
  simp

/-- The tags stay right as long as an old variable gets no value that its tag does not fit. -/
theorem Walked.right (h : Walked s input ss a m) (hss : ∀ st ∈ ss, st.assignsTame = true)
    (hfits : ∀ before x e l, before ++ [Stmt.assign x e l] <+: ss → x ∈ Stmt.targets before →
      RightBehind s input before →
      (Analysis.behind before).TagsRightly
        (Machine.behind s input (before ++ [Stmt.assign x e l])) x)
    (hbefore : before <+: ss) : RightBehind s input before := by
  induction before using List.reverseRecOn with
  | nil => exact fun y hy => absurd hy List.not_mem_nil
  | append_singleton before st ih =>
    obtain ⟨x, e, l, rfl, -⟩ := Stmt.of_assignsTame (hss st (hbefore.subset (by simp)))
    have hright := ih ((List.prefix_append _ _).trans hbefore)
    obtain ⟨hkept, t, v, hassigned⟩ := h.step hss hbefore
    intro y hy
    by_cases hold : y ∈ Stmt.targets before
    · by_cases hyx : y = x
      · subst hyx
        exact (h.tagsRightly_old hss hbefore hold).mpr (hfits before y e l hbefore hold hright)
      · have hy := hright y hold
        unfold Analysis.TagsRightly
        rwa [hassigned.symbols, if_neg fun hnew => hyx hnew.1, hassigned.values, if_neg hyx]
    · -- The tag of a new variable was inferred from tags that are right.
      obtain rfl : y = x := (Stmt.mem_targets_assign.mp hy).resolve_left hold
      have htag := hassigned.sound (hkept.describes hright)
      unfold Analysis.TagsRightly
      rw [hassigned.symbols, if_pos ⟨rfl, hold⟩, hassigned.values, if_pos rfl]
      exact ⟨_, v, rfl, rfl, Classical.or_iff_not_imp_left.mpr htag⟩

end

/-- Take a program of assignments of expressions without calls, in which the analyser finds nothing
wrong and which runs to its end. The symbol of a variable is made where it is first assigned to,
with the tag inferred there, and later assignments leave it as it is. So the tags are right all
along if and only if no variable gets a value that its old tag does not fit. That is so, and the
tags are right in the end, if for each later assignment the analyser infers the tag that the
variable has already, unless that says nothing. But where it infers another, the variable has the
wrong tag behind the assignment. -/
theorem variable_keeps_first_tag (p : Program)
    (hp : ∀ st ∈ p.statements, st.assignsTame = true) (s : Setting) (input : List Char)
    (a : Analysis) (m : Machine) (ha : analyse p = .ok a) (hclean : a.errors = [])
    (hrun : execute s p.statements (Machine.initial input) = .ok () m) :
    (∀ before x e l, before ++ [Stmt.assign x e l] <+: p.statements → x ∉ Stmt.targets before →
      ∃ t b, Analyse.expr e (Analysis.behind before) = .ok t b ∧
        a.scope.resolveLocal? x = some { name := x, kind := .var, tag := t, line := l }) ∧
    ((∀ before, before <+: p.statements → RightBehind s input before) ↔
      ∀ before x e l, before ++ [Stmt.assign x e l] <+: p.statements → x ∈ Stmt.targets before →
        (Analysis.behind before).TagsRightly
          (Machine.behind s input (before ++ [Stmt.assign x e l])) x) ∧
    ((∀ before x e l, before ++ [Stmt.assign x e l] <+: p.statements → x ∈ Stmt.targets before →
      ∀ sym, (Analysis.behind before).scope.resolveLocal? x = some sym → sym.tag = .any ∨
        ∃ b, Analyse.expr e (Analysis.behind before) = .ok sym.tag b) →
      ∀ x ∈ Stmt.targets p.statements, a.TagsRightly m x) ∧
    ∀ before x e l, before ++ [Stmt.assign x e l] <+: p.statements → x ∈ Stmt.targets before →
      RightBehind s input before →
      ∀ sym t b, (Analysis.behind before).scope.resolveLocal? x = some sym →
        Analyse.expr e (Analysis.behind before) = .ok t b → sym.tag ≠ .any → t ≠ .any →
        t ≠ sym.tag → ¬(Analysis.behind (before ++ [Stmt.assign x e l])).TagsRightly
          (Machine.behind s input (before ++ [Stmt.assign x e l])) x := by
  have h := Walked.of_execute hp ha hclean hrun
  refine ⟨fun before x e l hstep hnew => ?_, ⟨fun hright before x e l hstep hold => ?_,
    fun hfits before hbefore => ?_⟩, fun hsteady => ?_, ?_⟩
  · obtain ⟨-, t, v, hassigned⟩ := h.step hp hstep
    obtain ⟨b, hinferred⟩ := hassigned.inferred
    refine ⟨t, b, hinferred, h.symbol_kept hstep ?_ rfl⟩
    rw [hassigned.symbols, if_pos ⟨rfl, hnew⟩]
  · have hx := hright _ hstep x (Stmt.mem_targets_assign.mpr (.inr rfl))
    exact (h.tagsRightly_old hp hstep hold).mp hx
  · exact h.right hp (fun before x e l hstep hold _ => hfits before x e l hstep hold) hbefore
  · have hright := h.right hp (fun before x e l hstep hold hright => ?_) (List.prefix_refl _)
    · rwa [RightBehind, h.analysis_behind, h.machine_behind] at hright
    · obtain ⟨hkept, t, v, hassigned⟩ := h.step hp hstep
      obtain ⟨sym, hsym, -⟩ := hkept.known x hold
      by_cases hany : sym.tag = .any
      · exact ⟨sym, v, hsym, (hassigned.values x).trans (if_pos rfl), .inl hany⟩
      · obtain ⟨b, hinferred⟩ := (hsteady before x e l hstep hold sym hsym).resolve_left hany
        exact (h.fits_iff hp hstep hright hsym hinferred hany).mpr (.inr rfl)
  · intro before x e l hstep hold hright sym t b hsym hinferred hknown ht hchanged hx
    have hfits := (h.tagsRightly_old hp hstep hold).mp hx
    exact ((h.fits_iff hp hstep hright hsym hinferred ht).mp hfits).elim hknown hchanged

/-- In `x = 1`, `y = x * 2`, `y = y + x` the tags are right, and then comes `x = "a"`. -/
theorem variable_keeps_first_tag_changed :
    let steady : List Stmt :=
      [.assign "x" (.literal .number (.int 1) 1) 1,
       .assign "y" (.binary .multiply (.var "x" 2) (.literal .number (.int 2) 2) 2) 2,
       .assign "y" (.binary .add (.var "y" 3) (.var "x" 3) 3) 3]
    let p : Program := { statements := steady ++ [.assign "x" (.literal .string (.str "a") 4) 4] }
    ∃ a m, analyse p = .ok a ∧ a.errors = [] ∧
      execute {} p.statements Machine.initial = .ok () m ∧ RightBehind {} [] steady ∧
      ¬a.TagsRightly m "x" := by
  intro steady p
  have hp : ∀ st ∈ p.statements, st.assignsTame = true := by decide
  obtain ⟨a, ha, hclean⟩ : ∃ a, analyse p = .ok a ∧ a.errors = [] := ⟨_, rfl, rfl⟩
  have hrun : execute {} p.statements Machine.initial =
      .ok () (finalState (execute {} p.statements) Machine.initial) :=
    ok_of_succeeds (by decide +kernel)
  have hright : RightBehind {} [] steady := by
    have htags : ∀ x ∈ Stmt.targets steady,
        ((Analysis.behind steady).scope.resolveLocal? x).map (·.tag) = some .number ∧
          ((Machine.behind {} [] steady).scopes.get? (Machine.behind {} [] steady).current x).map
            Value.tag = some .number := by
      decide +kernel
    intro x hx
    obtain ⟨sym, hsym, hnumber⟩ := Option.map_eq_some_iff.mp (htags x hx).1
    obtain ⟨v, hv, hnumber'⟩ := Option.map_eq_some_iff.mp (htags x hx).2
    exact ⟨sym, v, hsym, hv, .inr (hnumber'.trans hnumber.symm)⟩
  have hsym : (Analysis.behind steady).scope.resolveLocal? "x" =
      some { name := "x", kind := .var, tag := .number, line := 1 } := by
    decide +kernel
  have hinferred : Analyse.expr (.literal .string (.str "a") 4) (Analysis.behind steady) =
      .ok .string (Analysis.behind steady) := by
    rw [Analyse.expr]
    rfl
  refine ⟨a, _, ha, hclean, hrun, hright, ?_⟩
  have h := Walked.of_execute hp ha hclean hrun
  rw [← h.analysis_behind, ← h.machine_behind]
  exact (variable_keeps_first_tag p hp {} [] a _ ha hclean hrun).2.2.2 steady "x" _ 4
    (List.prefix_refl _) (by decide) hright _ _ _ hsym hinferred (by decide) (by decide) (by decide)

end Bhasha
