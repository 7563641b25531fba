import Bhasha.Proofs.MachinePlace
import Bhasha.Proofs.NameResolution

namespace Bhasha

/-- The scopes that the bodies of the value lie in. -/
def Value.scopes : Value → List Nat
  | .function f => [f.scope]
  | .lambda f => [f.scope]
  | .classValue c => c.ancestry.flatMap fun k => k.methods.map fun e => e.2.scope
  | _ => []

/-- The scopes of the value are among `s`. -/
def Value.Anchored (s : Scopes Value) (v : Value) : Prop :=
  ∀ i ∈ v.scopes, i < s.all.size

/-- All values within reach of the machine are anchored. -/
structure Machine.Anchored (m : Machine) : Prop where
  present : m.current < m.scopes.all.size
  bound : ∀ i, ∀ e ∈ m.scopes.bindings i, e.2.Anchored m.scopes
  heap : m.heap.All (Value.Anchored m.scopes)

section

variable {fit : Sight → Task → Prop}

theorem Scopes.hosts_iff (hfit : ∀ k t, fit k t) {s : Scopes Value} {i : Nat} {ps : List String}
    {t : Task} : s.Hosts fit i ps t ↔ i < s.all.size :=
  ⟨And.left, fun h => ⟨h, {}, nofun, hfit _ _⟩⟩

theorem Value.hosted_iff (hfit : ∀ k t, fit k t) {s : Scopes Value} {v : Value} :
    v.Hosted fit s ↔ v.Anchored s := by
  cases v with
  | function f => simp [Hosted, Closure.Hosted, Anchored, scopes, Scopes.hosts_iff hfit]
  | lambda f => simp [Hosted, Anchored, scopes, Scopes.hosts_iff hfit]
  | classValue c =>
    simp only [Hosted, Closure.Hosted, Anchored, scopes, Scopes.hosts_iff hfit, List.mem_flatMap,
      List.mem_map]
    constructor
    · rintro h i ⟨k, hk, e, he, rfl⟩
      exact h k hk e he
    · exact fun h k hk e he => h _ ⟨k, hk, e, he, rfl⟩
  | _ => simp [Hosted, Anchored, scopes]

theorem Machine.hosted_iff (hfit : ∀ k t, fit k t) {m : Machine} : m.Hosted fit ↔ m.Anchored := by
  constructor
  · intro h
    exact ⟨h.present, fun i e he => (Value.hosted_iff hfit).mp (h.bound i e he),
      h.heap.imp fun _ => (Value.hosted_iff hfit).mp⟩
  · intro h
    exact ⟨h.present, fun i e he => (Value.hosted_iff hfit).mpr (h.bound i e he),
      h.heap.imp fun _ => (Value.hosted_iff hfit).mpr⟩

end

theorem Pairing.unbound_id (_ : True) (f : Option Fault) : id f = f :=
  rfl

/-- The same run, which is watched for `u`. -/
def Pairing.watching (u : Upkeep) : Pairing :=
  { Pairing.alike True id unbound_id "" with upkeep := u }

namespace Upkeep

/-- What is watched for holds of the machine. -/
structure Holds (u : Upkeep) (m : Machine) : Prop where
  anchored : m.Anchored
  kept : u.holds m.scopes m.calls

variable {u : Upkeep} {m m' : Machine} {s : Setting}

theorem fits (u : Upkeep) (k : Sight) (t : Task) : (Pairing.watching u).fit k t :=
  .inl trivial

theorem watching_twin (u : Upkeep) (m : Machine) : (Pairing.watching u).twin m = m :=
  Pairing.otherwise_twin id m

theorem sound_iff : (Pairing.watching u).Sound m ↔ u.Holds m :=
  ⟨fun h => ⟨(Machine.hosted_iff u.fits).mp h.values, h.kept⟩,
    fun h => ⟨(Machine.hosted_iff u.fits).mpr h.anchored, False.elim, h.kept⟩⟩

theorem Holds.at (h : u.Holds m) : (Pairing.watching u).At ({} : Sight).bound m :=
  ⟨sound_iff.mpr h, Pairing.brings_nil _ _⟩

theorem of_agrees {α : Type} {give : Prop} {p q : Run α} {V : α → Machine → Prop}
    (h : (Pairing.watching u).Agrees give m p q V) : u.Holds (finalState p m) :=
  sound_iff.mp (h.leads id).sound

theorem drives (hlimits : u.limits s.maxCallDepth) (n turns : Nat) :
    (Pairing.watching u).Drives { s with perform := perform s n, turns } (perform s n) :=
  ⟨(Pairing.watching u).performs s hlimits n, hlimits⟩

section

variable (hlimits : u.limits s.maxCallDepth) (h : u.Holds m)
include hlimits h

/-- An expression keeps what is watched for, and its value is anchored. -/
theorem expr (n turns : Nat) (e : Expr) :
    let c : Context := { s with perform := perform s n, turns }
    u.Holds (finalState (Eval.expr c e) m) ∧
      ∀ v m', Eval.expr c e m = .ok v m' → v.Anchored m'.scopes := by
  have hagrees : (Pairing.watching u).Agrees True m _ _ _ :=
    Pairing.agrees_expr (drives hlimits n turns) e h.at (.inl trivial)
  exact ⟨of_agrees hagrees, fun v m' hrun => (Value.hosted_iff u.fits).mp (hagrees.of_ok hrun).2.2⟩

theorem stmt (n turns : Nat) (st : Stmt) :
    u.Holds (finalState (Exec.stmt { s with perform := perform s n, turns } st) m) := by
  have hagrees : (Pairing.watching u).Agrees True m _ _ _ :=
    Pairing.agrees_stmt (drives hlimits n turns) st h.at (.inl trivial) fun _ => trivial
  exact of_agrees hagrees

theorem execute (ss : List Stmt) : u.Holds (finalState (Bhasha.execute s ss) m) :=
  of_agrees ((Pairing.watching u).agrees_run s hlimits h.at (.inl trivial))

/-- Every body is entered on a machine for which it holds: if all others are refused, it makes no
difference. -/
theorem performGuarded_eq {guard : Task → Machine → Bool} (refusal : Exit)
    (hguard : ∀ t m, u.Holds m → guard t m = true) (n : Nat) (t : Task) :
    performGuarded s guard refusal n t m = perform s n t m := by
  have hagrees := (Pairing.watching u).performs_fitting (watching_twin u) rfl hlimits refusal
    (fun {t _ m} hm _ => hguard t m (sound_iff.mp hm.sound)) n h.at (u.fits {} t)
  exact (hagrees.eq_of_twin (watching_twin u) id).symm

end

end Upkeep

end Bhasha
