import Bhasha.Machine
import Bhasha.Proofs.StateRelations

namespace Bhasha

namespace Scopes

variable {α : Type}

/-- The scope that `i` finds `x` in: itself, or one of at most `fuel` scopes around it. -/
def ownerWithin (s : Scopes α) (x : String) : (fuel : Nat) → (i : Nat) → Option Nat
  | fuel, i =>
    if (s.bindings i).has x then some i
    else match fuel, s.parent? i with
      | fuel + 1, some p => s.ownerWithin x fuel p
      | _, _ => none

def owner? (s : Scopes α) (i : Nat) (x : String) : Option Nat :=
  s.ownerWithin x (s.depth i) i

/-- A walk outwards that makes `found` of the first scope that binds `x`, and `missing` of none, has
come to the owner of `x`. -/
theorem walk_eq_owner {β : Type} (s : Scopes α) (x : String) (walk : Nat → Nat → β)
    (found : Nat → β) (missing : β)
    (hwalk : ∀ fuel i, walk fuel i =
      if (s.bindings i).has x then found i
      else match fuel, s.parent? i with
        | fuel + 1, some p => walk fuel p
        | _, _ => missing) (fuel i : Nat) :
    walk fuel i = ((s.ownerWithin x fuel i).map found).getD missing := by
  induction fuel generalizing i with
  | zero =>
    rw [hwalk]
    unfold ownerWithin
    split <;> rfl
  | succ fuel ih =>
    rw [hwalk]
    unfold ownerWithin
    split
    · rfl
    · cases s.parent? i with
      | none => rfl
      | some p => exact ih p

theorem getWithin_eq_bind (s : Scopes α) (x : String) (fuel i : Nat) :
    s.getWithin x fuel i = (s.ownerWithin x fuel i).bind fun o => (s.bindings o).find? x := by
  rw [s.walk_eq_owner x (s.getWithin x) (fun o => (s.bindings o).find? x) none]
  · cases s.ownerWithin x fuel i <;> rfl
  · intro fuel i
    rw [getWithin.eq_def, Bindings.has]
    dsimp only
    cases (s.bindings i).find? x <;> rfl

theorem setWithin_eq_map (s : Scopes α) (x : String) (v : α) (fuel i : Nat) :
    s.setWithin x v fuel i = (s.ownerWithin x fuel i).map fun o => s.define o x v := by
  rw [s.walk_eq_owner x (s.setWithin x v) (fun o => some (s.define o x v)) none]
  · cases s.ownerWithin x fuel i <;> rfl
  · intro fuel i
    exact setWithin.eq_def s x v fuel i

theorem isBoundWithin_eq_isSome (s : Scopes α) (x : String) (fuel i : Nat) :
    s.isBoundWithin x fuel i = (s.ownerWithin x fuel i).isSome := by
  rw [s.walk_eq_owner x (s.isBoundWithin x) (fun _ => true) false]
  · cases s.ownerWithin x fuel i <;> rfl
  · intro fuel i
    exact isBoundWithin.eq_def s x fuel i

/-- Reading, setting and asking for a name all come to the same scope. -/
theorem get?_eq_bind (s : Scopes α) (i : Nat) (x : String) :
    s.get? i x = (s.owner? i x).bind fun o => (s.bindings o).find? x :=
  s.getWithin_eq_bind x (s.depth i) i

theorem set?_eq_map (s : Scopes α) (i : Nat) (x : String) (v : α) :
    s.set? i x v = (s.owner? i x).map fun o => s.define o x v :=
  s.setWithin_eq_map x v (s.depth i) i

theorem isBound_eq_isSome (s : Scopes α) (i : Nat) (x : String) :
    s.isBound i x = (s.owner? i x).isSome :=
  s.isBoundWithin_eq_isSome x (s.depth i) i

end Scopes

namespace Run

theorem assign_eq (x : String) (v : Value) : assign x v = modify fun m =>
    { m with scopes := m.scopes.define ((m.scopes.owner? m.current x).getD m.current) x v } := by
  unfold assign
  congr 1
  funext m
  rw [Scopes.set?_eq_map]
  cases m.scopes.owner? m.current x <;> rfl

theorem reassign_eq (unbound : Option Fault) (x : String) (v : Value) :
    reassign unbound x v = (do
      let m ← get
      match m.scopes.owner? m.current x with
      | some scope => modify fun m => { m with scopes := m.scopes.define scope x v }
      | none => unresolved unbound (error (Scopes.unassignable x none))) := by
  funext m
  rw [reassign, bind_get, bind_get, Scopes.set, Scopes.set?_eq_map]
  cases m.scopes.owner? m.current x <;> rfl

end Run

end Bhasha
