import Bhasha.Proofs.ScopeNesting

namespace Bhasha

theorem Bindings.has_bind {α : Type} (b : Bindings α) (x y : String) (v : α) :
    (b.bind x v).has y = (decide (x = y) || b.has y) := by
  unfold Bindings.has
  rw [Bindings.find?_bind]
  by_cases hxy : x = y <;> simp [hxy]

theorem Bindings.has_iff_mem {α : Type} {b : Bindings α} {x : String} :
    b.has x = true ↔ x ∈ b.names := by
  induction b with
  | nil => simp [Bindings.has, Bindings.find?, Bindings.names]
  | cons e b ih =>
    have hnames : Bindings.names (e :: b) = e.1 :: Bindings.names b := rfl
    rw [hnames, List.mem_cons, ← ih, Bindings.has, Bindings.find?]
    by_cases he : e.1 = x
    · simp [he]
    · simp [he, Ne.symm he, Bindings.has]

namespace Scopes

variable {α : Type} {s : Scopes α}

/-- Does the scope `i` itself bind the name? -/
def binds (s : Scopes α) (i : Nat) (x : String) : Prop :=
  (s.bindings i).has x = true

theorem bindings_define (s : Scopes α) (i j : Nat) (x : String) (v : α) (hj : j < s.all.size) :
    (s.define i x v).bindings j = if i = j then (s.bindings j).bind x v else s.bindings j := by
  unfold Scopes.bindings Scopes.define
  rw [Array.getElem?_modify, Array.getElem?_eq_getElem hj]
  split <;> rfl

theorem size_define (s : Scopes α) (i : Nat) (x : String) (v : α) :
    (s.define i x v).all.size = s.all.size := by
  simp [define]

theorem binds_define (i j : Nat) (x y : String) (v : α) (hj : j < s.all.size) :
    (s.define i x v).binds j y ↔ (i = j ∧ x = y) ∨ s.binds j y := by
  unfold binds
  rw [bindings_define s i j x v hj]
  by_cases hij : i = j
  · rw [if_pos hij, Bindings.has_bind]
    simp [hij]
  · rw [if_neg hij]
    simp [hij]

theorem binds_of_owner? {i o : Nat} {x : String} (h : s.owner? i x = some o) : s.binds o x := by
  unfold owner? at h
  generalize s.depth i = fuel at h
  induction fuel generalizing i with
  | zero =>
    unfold ownerWithin at h
    split at h
    · rename_i hhas
      cases h
      exact hhas
    · cases h
  | succ fuel ih =>
    unfold ownerWithin at h
    split at h
    · rename_i hhas
      cases h
      exact hhas
    · split at h
      · rename_i heq _
        cases heq
        exact ih h
      · cases h

/-- The scopes with one more inside `parent`, which binds these names. -/
def enclose (s : Scopes α) (parent : Nat) (bindings : List (String × α)) : Scopes α :=
  bindings.foldl (fun s' (x, v) => s'.define s.all.size x v) (s.add (some parent))

theorem extends_enclose (s : Scopes α) (parent : Nat) (bindings : List (String × α)) :
    s.Extends (s.enclose parent bindings) :=
  (extends_add s (some parent)).trans (extends_defineAll _ _ bindings)

theorem binds_defineAll {i j : Nat} {y : String} (bindings : List (String × α)) (s : Scopes α)
    (hj : j < s.all.size) (hij : i ≠ j) :
    (bindings.foldl (fun s (x, v) => s.define i x v) s).binds j y ↔ s.binds j y := by
  induction bindings generalizing s with
  | nil => exact Iff.rfl
  | cons b bindings ih =>
    rw [List.foldl_cons, ih _ (by rwa [size_define]), binds_define _ _ _ _ _ hj]
    simp [hij]

theorem binds_add (parent : Option Nat) {j : Nat} {y : String} (hj : j < s.all.size) :
    (s.add parent).binds j y ↔ s.binds j y := by
  unfold binds bindings add
  rw [Array.getElem?_push, if_neg (Nat.ne_of_lt hj)]

/-- A new scope changes nothing in the others. -/
theorem binds_enclose (parent : Nat) (bindings : List (String × α)) {j : Nat} {y : String}
    (hj : j < s.all.size) : (s.enclose parent bindings).binds j y ↔ s.binds j y := by
  have hsize : j < (s.add (some parent)).all.size := by
    simp only [add, Array.size_push]
    omega
  rw [enclose, binds_defineAll bindings _ hsize (Nat.ne_of_gt hj), binds_add _ hj]

end Scopes

theorem Run.newScope_run (parent : Nat) (bindings : List (String × Value)) (m : Machine) :
    newScope parent bindings m =
      if Scopes.depthLimit < m.scopes.innerDepth (some parent) then .error (.error Scopes.tooDeep) m
      else .ok m.scopes.all.size { m with scopes := m.scopes.enclose parent bindings } := by
  rw [newScope, bind_get]
  split <;> rfl

namespace Machine

/-- Every scope of `m` is one of `m'`, inside the same scope as before; it has lost no name, and has
gained none unless it is the scope `gaining`. -/
structure Frames (gaining : Option Nat) (m m' : Machine) : Prop where
  current : m'.current = m.current
  nested : m.scopes.Extends m'.scopes
  kept : ∀ i < m.scopes.all.size, ∀ x, m.scopes.binds i x → m'.scopes.binds i x
  framed : ∀ i < m.scopes.all.size, gaining ≠ some i →
    ∀ x, m'.scopes.binds i x → m.scopes.binds i x

theorem Frames.trans {gaining : Option Nat} {m m' m'' : Machine} (h : Frames gaining m m')
    (h' : Frames gaining m' m'') : Frames gaining m m'' := by
  have hsize {i : Nat} (hi : i < m.scopes.all.size) : i < m'.scopes.all.size :=
    (h.nested.depth hi).1
  refine ⟨h'.current.trans h.current, Scopes.Extends.trans h.nested h'.nested, ?_, ?_⟩
  · intro i hi x hx
    exact h'.kept i (hsize hi) x (h.kept i hi x hx)
  · intro i hi hne x hx
    exact h.framed i hi hne x (h'.framed i (hsize hi) hne x hx)

/-- Only the heap, the calls, the input or the output differ. -/
theorem Frames.of_scopes {gaining : Option Nat} {m m' : Machine} (hcurrent : m'.current = m.current)
    (hscopes : m'.scopes = m.scopes) : Frames gaining m m' := by
  refine ⟨hcurrent, ?_, ?_, ?_⟩
  · rw [hscopes]
    exact .refl m.scopes
  · intro i _ x hx
    rwa [hscopes]
  · intro i _ _ x hx
    rwa [hscopes] at hx

theorem Frames.mono {gaining : Option Nat} {m m' : Machine} (h : Frames none m m') :
    Frames gaining m m' :=
  ⟨h.current, h.nested, h.kept, fun i hi _ => h.framed i hi nofun⟩

/-- Only the current scope may have gained a name. -/
def Defines (m m' : Machine) : Prop :=
  Frames (some m.current) m m'

theorem Defines.trans {m m' m'' : Machine} (h : Defines m m') (h' : Defines m' m'') :
    Defines m m'' := by
  unfold Defines at h' ⊢
  rw [h.current] at h'
  exact Frames.trans h h'

theorem defines_bound (m : Machine) (x : String) (v : Value) :
    Defines m { m with scopes := m.scopes.define m.current x v } := by
  refine ⟨rfl, Scopes.extends_define _ _ x v, ?_, ?_⟩
  · intro i hi y hy
    exact (Scopes.binds_define _ _ _ _ _ hi).mpr (.inr hy)
  · intro i hi hne y hy
    rcases (Scopes.binds_define _ _ _ _ _ hi).mp hy with ⟨hcurrent, -⟩ | hy
    · exact absurd (congrArg some hcurrent) hne
    · exact hy

/-- A name that is bound anew where it is bound is new to no scope. -/
theorem frames_rebound {m : Machine} {x : String} {i : Nat}
    (h : m.scopes.owner? m.current x = some i) (v : Value) :
    Frames none m { m with scopes := m.scopes.define i x v } := by
  refine ⟨rfl, Scopes.extends_define _ _ x v, ?_, ?_⟩
  · intro j hj y hy
    exact (Scopes.binds_define _ _ _ _ _ hj).mpr (.inr hy)
  · intro j hj _ y hy
    rcases (Scopes.binds_define _ _ _ _ _ hj).mp hy with ⟨rfl, rfl⟩ | hy
    · exact Scopes.binds_of_owner? h
    · exact hy

end Machine

open Machine (Frames Defines)

instance : Std.Refl (Frames none) where
  refl _ := .of_scopes rfl rfl

instance : IsTrans Machine (Frames none) where
  trans _ _ _ h h' := h.trans h'

instance : Std.Refl Defines where
  refl _ := .of_scopes rfl rfl

instance : IsTrans Machine Defines where
  trans _ _ _ h h' := h.trans h'

/-- The scope that a body gains names in is made for it, so no scope from before has gained any. -/
theorem Run.frames_entered {α : Type} {body : Run α} (h : Keeps Defines body) (parent : Nat)
    (bindings : List (String × Value)) : Keeps (Frames none) (do
      let scope ← Run.newScope parent bindings
      Run.within scope body) := by
  intro m
  have hscope := Run.newScope_run parent bindings m
  split at hscope
  · rw [finalState_error (bind_of_error hscope)]
    exact Std.Refl.refl m
  · have hfinal : finalState (do
        let scope ← Run.newScope parent bindings
        Run.within scope body) m = finalState (Run.within m.scopes.all.size body)
          { m with scopes := m.scopes.enclose parent bindings } := by
      simp only [finalState, bind_of_ok hscope]
    rw [hfinal, Run.finalState_within]
    have hbody := h
      { m with scopes := m.scopes.enclose parent bindings, current := m.scopes.all.size }
    have hextends := Scopes.extends_enclose m.scopes parent bindings
    have hsize {i : Nat} (hi : i < m.scopes.all.size) :
        i < (m.scopes.enclose parent bindings).all.size := (hextends.depth hi).1
    refine ⟨rfl, hextends.trans hbody.nested, ?_, ?_⟩
    · intro i hi x hx
      exact hbody.kept i (hsize hi) x ((Scopes.binds_enclose parent bindings hi).mpr hx)
    · intro i hi _ x hx
      have hne : some m.scopes.all.size ≠ some i := by
        simpa using Nat.ne_of_gt hi
      exact (Scopes.binds_enclose parent bindings hi).mp (hbody.framed i (hsize hi) hne x hx)

theorem frames_discipline : Discipline (Frames none) Defines where
  le _ _ h := h.mono
  heap _ _ := .of_scopes rfl rfl
  console _ _ _ := .of_scopes rfl rfl
  bound m x v := m.defines_bound x v
  rebound m x v i h := (Machine.frames_rebound h v).mono
  called name h := by
    intro m
    rw [Run.finalState_called]
    have hbody := h { m with calls := name :: m.calls }
    exact ⟨hbody.current, hbody.nested, hbody.kept, hbody.framed⟩
  entered parent bindings h := Run.frames_entered h parent bindings

/-- Whatever a run does, each scope stays inside its scope and keeps its names. An expression, with
all the calls in it, and a `bar_bar` loop bring no name into any scope that was there before, and a
statement or the body of a function or file brings names only into the scope it runs in. This holds
from every machine and however the part of the run ends. -/
theorem run_frames_scopes (s : Setting) (n turns : Nat) :
    let c : Context := { s with perform := perform s n, turns }
    (∀ e m, Frames none m (finalState (Eval.expr c e) m)) ∧
    (∀ x e body l m, Frames none m (finalState (Exec.stmt c (.forLoop x e body l)) m)) ∧
    (∀ st m, Frames (some m.current) m (finalState (Exec.stmt c st) m)) ∧
    ∀ t m, Frames (some m.current) m (finalState (perform s n t) m) := by
  intro c
  have d := frames_discipline
  have hn := d.perform s n
  refine ⟨d.expr hn, fun x e body l => ?_, d.stmt hn, hn⟩
  have hloop : Keeps (Frames none) (Exec.stmt c (.forLoop x e body l)) := by
    rw [Exec.stmt]
    exact .bind (d.expr hn e) fun v => d.forLoop (d.stmts hn body) _ _ _ _
  exact hloop

end Bhasha
