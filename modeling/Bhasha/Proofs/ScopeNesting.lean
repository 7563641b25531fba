import Bhasha.Proofs.MachinePlace

namespace Bhasha

theorem Bindings.find?_bind {α : Type} (b : Bindings α) (x y : String) (v : α) :
    (b.bind x v).find? y = if x = y then some v else b.find? y := by
  induction b with
  | nil => simp [Bindings.bind, Bindings.find?]
  | cons e b ih =>
    obtain ⟨z, w⟩ := e
    by_cases hzx : z = x
    · subst hzx
      by_cases hzy : z = y <;> simp [Bindings.bind, Bindings.find?, hzy]
    · by_cases hzy : z = y
      · subst hzy
        simp [Bindings.bind, Bindings.find?, hzx, Ne.symm hzx]
      · simp [Bindings.bind, Bindings.find?, hzx, hzy, ih]

namespace Scopes

variable {α : Type} {s s' s'' : Scopes α}

/-- Each scope of `s` is in `s'` too, inside the same scope and at the same depth. -/
def Extends (s s' : Scopes α) : Prop :=
  ∀ (i : Nat) (sc : Scope α), s.all[i]? = some sc →
    ∃ sc' : Scope α, s'.all[i]? = some sc' ∧ sc'.parent = sc.parent ∧ sc'.depth = sc.depth

theorem Extends.refl (s : Scopes α) : s.Extends s :=
  fun _ sc h => ⟨sc, h, rfl, rfl⟩

theorem Extends.trans (h : s.Extends s') (h' : s'.Extends s'') : s.Extends s'' := by
  intro i sc hi
  obtain ⟨sc', hi', hparent, hdepth⟩ := h i sc hi
  obtain ⟨sc'', hi'', hparent', hdepth'⟩ := h' i sc' hi'
  exact ⟨sc'', hi'', hparent'.trans hparent, hdepth'.trans hdepth⟩

theorem extends_define (s : Scopes α) (j : Nat) (x : String) (v : α) :
    s.Extends (s.define j x v) := by
  intro i sc hi
  unfold define
  rw [Array.getElem?_modify, hi]
  by_cases hij : j = i
  · exact ⟨_, if_pos hij, rfl, rfl⟩
  · exact ⟨sc, if_neg hij, rfl, rfl⟩

theorem extends_add (s : Scopes α) (parent : Option Nat) : s.Extends (s.add parent) := by
  intro i sc hi
  have hlt : i < s.all.size := (Array.getElem?_eq_some_iff.mp hi).1
  refine ⟨sc, ?_, rfl, rfl⟩
  rw [add, Array.getElem?_push, if_neg (by omega), hi]

theorem extends_defineAll (s : Scopes α) (j : Nat) (bindings : List (String × α)) :
    s.Extends (bindings.foldl (fun s (x, v) => s.define j x v) s) := by
  induction bindings generalizing s with
  | nil => exact .refl s
  | cons b bindings ih => exact (extends_define s j b.1 b.2).trans (ih _)

theorem Extends.depth (h : s.Extends s') {i : Nat} (hi : i < s.all.size) :
    i < s'.all.size ∧ s'.depth i = s.depth i := by
  obtain ⟨sc', hi', -, hdepth⟩ := h i _ (Array.getElem?_eq_getElem hi)
  refine ⟨(Array.getElem?_eq_some_iff.mp hi').1, ?_⟩
  rw [Scopes.depth, Scopes.depth, hi', Array.getElem?_eq_getElem hi]
  exact hdepth

end Scopes

/-- The scopes of `m` are among those of `m'`. -/
def Machine.Nests (m m' : Machine) : Prop :=
  m.scopes.Extends m'.scopes

open Machine (Nests)

instance : Std.Refl Nests where
  refl m := .refl m.scopes

instance : IsTrans Machine Nests where
  trans _ _ _ h h' := h.trans h'

theorem Run.lookup_eq_ok {unbound : Option Fault} {x : String} {v : Value} {m m' : Machine} :
    lookup unbound x m = .ok v m' ↔ m.scopes.get? m.current x = some v ∧ m' = m := by
  rw [lookup, bind_get, Scopes.get]
  constructor
  · intro h
    cases hget : m.scopes.get? m.current x with
    | some w =>
      rw [hget] at h
      cases h
      exact ⟨rfl, rfl⟩
    | none =>
      rw [hget] at h
      cases unbound <;> cases h
  · rintro ⟨hget, rfl⟩
    rw [hget]
    rfl

theorem Run.nests_newScope (parent : Nat) (bindings : List (String × Value)) :
    Keeps Nests (newScope parent bindings) :=
  .bind .get fun _ => .ite (keeps_error _) (.modifyGet fun m =>
    (Scopes.extends_add m.scopes (some parent)).trans (Scopes.extends_defineAll _ _ bindings))

theorem nests_discipline : Discipline Nests Nests where
  le _ _ h := h
  heap m _ := .refl m.scopes
  console m _ _ := .refl m.scopes
  bound m x v := Scopes.extends_define m.scopes m.current x v
  rebound m x v i _ := Scopes.extends_define m.scopes i x v
  called name h := by
    intro m
    rw [Run.finalState_called]
    exact h { m with calls := name :: m.calls }
  entered parent bindings h := by
    refine .bind (Run.nests_newScope parent bindings) fun i m => ?_
    rw [Run.finalState_within]
    exact h { m with current := i }

theorem session_nests (ps : List SessionStep) (m : Machine) : m.Nests (session ps m) := by
  induction ps generalizing m with
  | nil => exact .refl m.scopes
  | cons p ps ih =>
    have hp := nests_discipline.execute p.setting p.statements
      { m with output := "", input := p.input }
    exact Scopes.Extends.trans hp (ih _)

end Bhasha
