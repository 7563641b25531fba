import Bhasha.Proofs.RunInvariants

namespace Bhasha

namespace Scopes

variable {α : Type} {s s' : Scopes α} {i : Nat} {ps : List Nat}

/-- The scopes around `i`, the nearest first, up to the outermost one. -/
inductive Chain (s : Scopes α) : Nat → List Nat → Prop
  | outermost (hpresent : 0 < s.all.size) (h : s.parent? 0 = none) : Chain s 0 []
  | inner {i p : Nat} {ps : List Nat} (h : s.parent? i = some p) (hp : Chain s p ps) :
    Chain s i (p :: ps)

/-- Around each scope lie as many scopes as its depth says, and that is never too deep. -/
def Formed (s : Scopes α) : Prop :=
  ∀ i < s.all.size, ∃ ps, s.Chain i ps ∧ s.depth i = ps.length ∧ s.depth i ≤ depthLimit

theorem Extends.parent?_eq (h : s.Extends s') (hi : i < s.all.size) :
    s'.parent? i = s.parent? i := by
  obtain ⟨sc', hi', hparent, -⟩ := h i _ (Array.getElem?_eq_getElem hi)
  rw [Scopes.parent?, Scopes.parent?, hi', Array.getElem?_eq_getElem hi]
  exact hparent

theorem Chain.extends (h : s.Chain i ps) (hs : s.Extends s') : s'.Chain i ps := by
  induction h with
  | outermost hpresent h =>
    exact .outermost (hs.depth hpresent).1 ((hs.parent?_eq hpresent).trans h)
  | inner h _ ih => exact .inner (hs.parent? h) ih

/-- New scopes lie inside old ones, and not too deep. -/
theorem Formed.extends (h : s.Formed) (hs : s.Extends s')
    (hnew : ∀ i < s'.all.size, s.all.size ≤ i → ∃ p < s.all.size, s'.parent? i = some p ∧
      s'.depth i = s.depth p + 1 ∧ s.depth p + 1 ≤ depthLimit) : s'.Formed := by
  intro i hi
  -- An old scope keeps its chain, and a new one has its parent in front of the parent's.
  by_cases hold : i < s.all.size
  · obtain ⟨ps, hchain, hdepth, hlimit⟩ := h i hold
    rw [(hs.depth hold).2]
    exact ⟨ps, hchain.extends hs, hdepth, hlimit⟩
  · obtain ⟨p, hp, hparent, hdepth, hlimit⟩ := hnew i hi (Nat.le_of_not_lt hold)
    obtain ⟨ps, hchain, hlength, -⟩ := h p hp
    rw [hdepth]
    exact ⟨p :: ps, .inner hparent (hchain.extends hs), congrArg (· + 1) hlength, hlimit⟩

theorem Formed.define (h : s.Formed) (i : Nat) (x : String) (v : α) : (s.define i x v).Formed := by
  refine h.extends (extends_define s i x v) fun j hj hsize => ?_
  rw [size_define] at hj
  omega

theorem Formed.enclose {parent : Nat} (h : s.Formed) (hparent : parent < s.all.size)
    (hdepth : ¬depthLimit < s.innerDepth (some parent)) (bindings : List (String × α)) :
    (s.enclose parent bindings).Formed := by
  refine h.extends (extends_enclose s parent bindings) fun j hj hsize => ?_
  rw [size_enclose] at hj
  obtain rfl : j = s.all.size := by omega
  exact ⟨parent, hparent, parent?_enclose_self s parent bindings,
    depth_enclose_self s parent bindings, Nat.le_of_not_lt hdepth⟩

/-- The names bound in these scopes, without those that a scope before has. -/
def namesAlong (s : Scopes α) : List Nat → List String
  | [] => []
  | i :: is =>
    let own := (s.bindings i).names
    own ++ (s.namesAlong is).filter fun x => !own.contains x

theorem visibleWithin_of_parent? {p : Nat} (fuel : Nat) (h : s.parent? i = some p) :
    s.visibleWithin (fuel + 1) i = (s.bindings i).names ++
      (s.visibleWithin fuel p).filter fun x => !(s.bindings i).names.contains x := by
  rw [visibleWithin.eq_def]
  dsimp only
  rw [h]

theorem visibleWithin_of_root {fuel : Nat} (h : s.parent? i = none) :
    s.visibleWithin fuel i = (s.bindings i).names := by
  rw [visibleWithin.eq_def]
  dsimp only
  rw [h]
  cases fuel <;> rfl

/-- The scope `i` and the scopes around it, the nearest first, up to one that lies in no other. -/
inductive Lineage (s : Scopes α) : Nat → List Nat → Prop
  | root {i : Nat} (hpresent : i < s.all.size) (h : s.parent? i = none) : Lineage s i [i]
  | inner {i p : Nat} {is : List Nat} (h : s.parent? i = some p) (hp : Lineage s p is) :
    Lineage s i (i :: is)

theorem Lineage.extends {is : List Nat} (h : s.Lineage i is) (hs : s.Extends s') :
    s'.Lineage i is := by
  induction h with
  | root hpresent h => exact .root (hs.depth hpresent).1 ((hs.parent?_eq hpresent).trans h)
  | inner h _ ih => exact .inner (hs.parent? h) ih

namespace Lineage

variable {is : List Nat} {j fuel : Nat}

theorem exists_fuel (h : s.Lineage i is) (hfuel : (j :: is).length ≤ fuel + 1) :
    ∃ n, fuel = n + 1 := by
  have hpos : 0 < is.length := by cases h <;> exact Nat.succ_pos _
  rw [List.length_cons] at hfuel
  exact ⟨fuel - 1, by omega⟩

/-- With enough fuel for the lineage, a lookup goes through all of it. -/
theorem ownerWithin (h : s.Lineage i is) (hfuel : is.length ≤ fuel + 1) (x : String) :
    s.ownerWithin x fuel i = is.find? fun j => (s.bindings j).has x := by
  induction h generalizing fuel with
  | @root i hpresent h =>
    cases hown : (s.bindings i).has x with
    | true => rw [ownerWithin_of_binds _ hown, List.find?_cons, hown]
    | false =>
      have hnot : ¬s.binds i x := by simp [binds, hown]
      rw [ownerWithin_eq_none hnot (.inr h), List.find?_cons, hown, List.find?_nil]
  | @inner i p is h hp ih =>
    cases hown : (s.bindings i).has x with
    | true => rw [ownerWithin_of_binds _ hown, List.find?_cons, hown]
    | false =>
      have hnot : ¬s.binds i x := by simp [binds, hown]
      obtain ⟨fuel, rfl⟩ := hp.exists_fuel hfuel
      rw [ownerWithin_of_parent? _ hnot h, List.find?_cons, hown]
      exact ih (Nat.le_of_succ_le_succ hfuel)

theorem visibleWithin (h : s.Lineage i is) (hfuel : is.length ≤ fuel + 1) :
    s.visibleWithin fuel i = s.namesAlong is := by
  induction h generalizing fuel with
  | root hpresent h => simp [visibleWithin_of_root h, namesAlong]
  | @inner i p is h hp ih =>
    obtain ⟨fuel, rfl⟩ := hp.exists_fuel hfuel
    rw [visibleWithin_of_parent? _ h, ih (Nat.le_of_succ_le_succ hfuel)]
    rfl

end Lineage

theorem Chain.lineage (h : s.Chain i ps) : s.Lineage i (i :: ps) := by
  induction h with
  | outermost hpresent h => exact .root hpresent h
  | inner h _ ih => exact .inner h ih

theorem mem_namesAlong {x : String} {is : List Nat} :
    x ∈ s.namesAlong is ↔ ∃ i ∈ is, s.binds i x := by
  induction is with
  | nil => simp [namesAlong]
  | cons i is ih =>
    have hown : s.binds i x ↔ x ∈ (s.bindings i).names := Bindings.has_iff_mem
    simp only [namesAlong, List.mem_append, List.mem_filter, ih, ← hown]
    grind

/-- The names that can be seen in a scope are those that have a meaning in it. -/
theorem Lineage.mem_visible {is : List Nat} (h : s.Lineage i is)
    (hdepth : is.length = s.depth i + 1) (x : String) :
    x ∈ s.visible i ↔ s.isBound i x = true := by
  have hfuel := Nat.le_of_eq hdepth
  rw [visible, List.mem_mergeSort, h.visibleWithin hfuel, mem_namesAlong, isBound_eq_isSome,
    owner?, h.ownerWithin hfuel, List.find?_isSome]
  rfl

theorem find?_bind_find? (s : Scopes α) (is : List Nat) (x : String) :
    ((is.find? fun j => (s.bindings j).has x).bind fun j => (s.bindings j).find? x) =
      is.findSome? fun j => (s.bindings j).find? x := by
  induction is with
  | nil => rfl
  | cons i is ih =>
    rw [List.find?_cons, List.findSome?_cons, Bindings.has]
    cases hx : (s.bindings i).find? x with
    | none => exact ih
    | some v => exact hx

/-- The walks through the scopes around `i` go through these, the nearest first, and no further. -/
structure WalksAlong (s : Scopes α) (fuel i : Nat) (is : List Nat) : Prop where
  get : ∀ x, s.getWithin x fuel i = is.findSome? fun j => (s.bindings j).find? x
  set : ∀ x v, s.setWithin x v fuel i =
    (is.find? fun j => (s.bindings j).has x).map fun j => s.define j x v
  isBound : ∀ x, s.isBoundWithin x fuel i = is.any fun j => (s.bindings j).has x
  visible : s.visibleWithin fuel i = s.namesAlong is

theorem Lineage.walksAlong {is : List Nat} {fuel : Nat} (h : s.Lineage i is)
    (hfuel : is.length ≤ fuel + 1) : s.WalksAlong fuel i is where
  get x := by rw [getWithin_eq_bind, h.ownerWithin hfuel, find?_bind_find?]
  set x v := by rw [setWithin_eq_map, h.ownerWithin hfuel]
  isBound x := by rw [isBoundWithin_eq_isSome, h.ownerWithin hfuel, List.isSome_find?]
  visible := h.visibleWithin hfuel

/-- Looking up a name, or all names, means going through the chain. More fuel than the depth of the
scope is of no use. -/
theorem Formed.lookups (h : s.Formed) (hi : i < s.all.size) : ∃ ps, s.Chain i ps ∧
    ∀ fuel, s.depth i ≤ fuel → s.WalksAlong fuel i (i :: ps) := by
  obtain ⟨ps, hchain, hdepth, -⟩ := h i hi
  refine ⟨ps, hchain, fun fuel hfuel => ?_⟩
  rw [hdepth] at hfuel
  exact hchain.lineage.walksAlong (Nat.succ_le_succ hfuel)

theorem Formed.mem_visible (h : s.Formed) (hi : i < s.all.size) (x : String) :
    x ∈ s.visible i ↔ s.isBound i x = true := by
  obtain ⟨ps, hchain, hdepth, -⟩ := h i hi
  exact hchain.lineage.mem_visible (congrArg (· + 1) hdepth.symm) x

end Scopes

namespace ClassValue

theorem sizeOf_of_mem_ancestry : ∀ {c k : ClassValue}, k ∈ c.ancestry → sizeOf k ≤ sizeOf c
  | mk x none methods, k, hk => by
    rw [ancestry] at hk
    exact Nat.le_of_eq (congrArg sizeOf (List.mem_singleton.mp hk))
  | mk x (some p) methods, k, hk => by
    rw [ancestry] at hk
    rcases List.mem_cons.mp hk with rfl | hk
    · exact Nat.le_refl _
    · have hp := sizeOf_of_mem_ancestry hk
      simp only [mk.sizeOf_spec, Option.some.sizeOf_spec]
      omega

/-- No class is among its own ancestors. -/
theorem ancestry_nodup : ∀ c : ClassValue, c.ancestry.Nodup
  | mk x none methods => by
    rw [ancestry]
    exact List.nodup_cons.mpr ⟨List.not_mem_nil, List.nodup_nil⟩
  | mk x (some p) methods => by
    rw [ancestry]
    -- Among the ancestors of its parent a class would be smaller than itself.
    refine List.nodup_cons.mpr ⟨fun hmem => ?_, ancestry_nodup p⟩
    have hsize := sizeOf_of_mem_ancestry hmem
    simp only [mk.sizeOf_spec, Option.some.sizeOf_spec] at hsize
    omega

end ClassValue

/-- The value is bound in a scope, or it is in the heap, or it is a class that one of these
extends. -/
inductive Machine.Reaches (m : Machine) : Value → Prop
  | bound {i e} : e ∈ m.scopes.bindings i → Reaches m e.2
  | item {vs v} : vs ∈ m.heap.lists → v ∈ vs → Reaches m v
  | key {d e} : d ∈ m.heap.dicts → e ∈ d → Reaches m e.1
  | entry {d e} : d ∈ m.heap.dicts → e ∈ d → Reaches m e.2
  | property {o e} : o ∈ m.heap.objects → e ∈ o.properties → Reaches m e.2
  | classOf {o} : o ∈ m.heap.objects → Reaches m (.classValue o.classValue)
  | parent {k p} : Reaches m (.classValue k) → k.parent = some p → Reaches m (.classValue p)

theorem Machine.Anchored.reaches {m : Machine} (h : m.Anchored) {v : Value} (hv : m.Reaches v) :
    v.Anchored m.scopes := by
  induction hv with
  | bound he => exact h.bound _ _ he
  | item hvs hv => exact h.heap.lists _ hvs _ hv
  | key hd he => exact (h.heap.dicts _ hd _ he).1
  | entry hd he => exact (h.heap.dicts _ hd _ he).2
  | property ho he => exact (h.heap.objects _ ho).2 _ he
  | classOf ho => exact (h.heap.objects _ ho).1
  | @parent k p _ hp ih =>
    intro i hi
    refine ih i ?_
    rw [Value.scopes, ClassValue.ancestry_eq_cons, List.flatMap_cons, ClassValue.ancestry_tail, hp]
    exact List.mem_append_right _ hi

/-- A method that is found lies in one of the scopes of the class. -/
theorem ClassValue.scope_mem_scopes {k : ClassValue} {x : String} {f : Closure}
    (h : k.method? x = some f) : f.scope ∈ (Value.classValue k).scopes := by
  rw [k.method?_eq_nearest?] at h
  obtain ⟨c, hc, hfind⟩ := List.exists_of_findSome?_eq_some h
  exact List.mem_flatMap.mpr ⟨c, hc, List.mem_map.mpr ⟨_, Bindings.mem_of_find? hfind, rfl⟩⟩

/-- A machine in which all scopes and closures are in order. -/
structure Machine.Formed (m : Machine) : Prop where
  scopes : m.scopes.Formed
  anchored : m.Anchored

def Upkeep.formed : Upkeep where
  holds s _ := s.Formed
  limits _ := True
  define h := h.define
  enclose h := h.enclose
  call h _ _ _ := h
  back h := h

theorem Machine.formed_iff {m : Machine} : m.Formed ↔ Upkeep.formed.Holds m :=
  ⟨fun h => ⟨h.anchored, h.scopes⟩, fun h => ⟨h.kept, h.anchored⟩⟩

theorem Machine.anchored_initial (input : List Char) : (Machine.initial input).Anchored :=
  (Machine.hosted_iff fun _ _ => trivial).mp (Machine.hosted_initial (fun _ _ => True) input)

theorem Machine.formed_initial (input : List Char) : (Machine.initial input).Formed := by
  refine ⟨fun i hi => ?_, Machine.anchored_initial input⟩
  obtain rfl : i = 0 := Nat.lt_one_iff.mp hi
  exact ⟨[], .outermost hi rfl, rfl, Nat.zero_le _⟩

/-- A program of a session that ends in any way leaves the machine formed to the next one. -/
theorem session_formed (ps : List SessionStep) {m : Machine} (h : m.Formed) :
    (session ps m).Formed := by
  induction ps generalizing m with
  | nil => exact h
  | cons p ps ih =>
    have hstart : Upkeep.formed.Holds { m with output := "", input := p.input } :=
      ⟨⟨h.anchored.present, h.anchored.bound, h.anchored.heap⟩, h.scopes⟩
    exact ih (Machine.formed_iff.mpr (Upkeep.execute trivial hstart p.statements))

section

variable {m m' : Machine} {u : Option Fault} {x : String} {line : Nat}

theorem Run.classNamed_eq_ok {c : ClassValue} (h : Run.classNamed u x line m = .ok c m') :
    m.scopes.get? m.current x = some (.classValue c) ∧ m' = m := by
  obtain ⟨v, m₁, hlookup, hclass⟩ := bind_eq_ok h
  obtain ⟨hv, rfl⟩ := Run.lookup_eq_ok.mp hlookup
  cases v <;> cases hclass
  exact ⟨hv, rfl⟩

theorem Scopes.get?_of_bindings {s : Scopes Value} {i : Nat} {v : Value}
    (h : (s.bindings i).find? x = some v) : s.get? i x = some v := by
  have hbinds : s.binds i x := by
    rw [binds, Bindings.has, h]
    rfl
  rw [get?_eq_bind, owner?, ownerWithin_of_binds _ hbinds]
  exact h

theorem Scopes.get?_define_self {s : Scopes Value} {i : Nat} (hi : i < s.all.size) (v : Value) :
    (s.define i x v).get? i x = some v := by
  apply get?_of_bindings
  rw [bindings_define s i i x v hi, if_pos rfl, Bindings.find?_bind, if_pos rfl]

/-- A new class has the one that it extends, as that name was bound before, for its parent. -/
theorem defineClass_ancestry {p : String} (hp : p ≠ "") {methods : List FunctionDef}
    (hpresent : m.current < m.scopes.all.size)
    (h : Run.defineClass u x (some p) methods line m = .ok () m') :
    ∃ old new, m.scopes.get? m.current p = some (.classValue old) ∧
      m'.scopes.get? m'.current x = some (.classValue new) ∧
      new.ancestry = new :: old.ancestry := by
  have hnonempty : Run.nonempty (some p) = some p := by simp [Run.nonempty, Option.filter, hp]
  unfold Run.defineClass at h
  rw [hnonempty] at h
  obtain ⟨parent, m₁, hparent, hdefine⟩ := bind_eq_ok h
  obtain ⟨old, hold, rfl⟩ := map_eq_ok hparent
  obtain ⟨hget, rfl⟩ := Run.classNamed_eq_ok hold
  replace hdefine := bind_get_ok hdefine
  cases hdefine
  exact ⟨old, _, hget, Scopes.get?_define_self hpresent _, ClassValue.ancestry.eq_def _⟩

end

/-- Each part of a run keeps the machine formed, however it ends, and the closures in its value lie
in scopes of the machine. It enters no body on any other machine, for it makes no difference if
these are refused. So the machine is formed at every point of a session: around each scope lie as
many others as its depth says, not too many, the last of them the outermost one. There every walk
comes to an end, and has gone through the scopes of the chain. A class that is in reach at the end
of a session is none of its own ancestors, also if it is defined anew under the name of the class
that it extends; and the methods that are found for it lie in scopes of the machine. -/
theorem run_keeps_formed (s : Setting) (n turns : Nat) :
    let c : Context := { s with perform := perform s n, turns }
    (∀ e m, Machine.Formed m → (finalState (Eval.expr c e) m).Formed ∧
      ∀ v m', Eval.expr c e m = .ok v m' → v.Anchored m'.scopes) ∧
    (∀ st m, Machine.Formed m → (finalState (Exec.stmt c st) m).Formed) ∧
    (∀ guard refusal, (∀ t m, Machine.Formed m → guard t m = true) → ∀ t m, m.Formed →
      performGuarded s guard refusal n t m = perform s n t m) ∧
    (∀ ps input, (session ps (Machine.initial input)).Formed) ∧
    (∀ m, Machine.Formed m → ∀ i < m.scopes.all.size,
      (∃ chain, m.scopes.Chain i chain ∧ ∀ fuel, m.scopes.depth i ≤ fuel →
        m.scopes.WalksAlong fuel i (i :: chain)) ∧
      ∀ x, x ∈ m.scopes.visible i ↔ m.scopes.isBound i x = true) ∧
    (∀ ps input, let m := session ps (Machine.initial input)
      ∀ k, m.Reaches (.classValue k) → k.ancestry.Nodup ∧
        ∀ x, k.method? x = ClassValue.nearest? x k.ancestry ∧
          ∀ f, k.method? x = some f → f.scope < m.scopes.all.size) ∧
    ∀ x p methods l m m', Machine.Formed m → p ≠ "" →
      Exec.stmt c (.classDef x (some p) methods l) m = .ok () m' → ∃ old new,
        m.scopes.get? m.current p = some (.classValue old) ∧
        m'.scopes.get? m'.current x = some (.classValue new) ∧
        new.ancestry = new :: old.ancestry ∧ new ∉ old.ancestry := by
  intro c
  refine ⟨fun e m hm => ?_, fun st m hm => ?_, fun guard refusal hguard t m hm => ?_,
    fun ps input => session_formed ps (Machine.formed_initial input),
    fun m hm i hi => ⟨hm.scopes.lookups hi, hm.scopes.mem_visible hi⟩,
    fun ps input => ?_, fun x p methods l m m' hm hp hrun => ?_⟩
  · have hexpr := Upkeep.expr (s := s) trivial (Machine.formed_iff.mp hm) n turns e
    exact ⟨Machine.formed_iff.mpr hexpr.1, hexpr.2⟩
  · exact Machine.formed_iff.mpr (Upkeep.stmt trivial (Machine.formed_iff.mp hm) n turns st)
  · exact Upkeep.performGuarded_eq trivial (Machine.formed_iff.mp hm) refusal
      (fun t m hm => hguard t m (Machine.formed_iff.mpr hm)) n t
  · intro m k hk
    have hm : m.Formed := session_formed ps (Machine.formed_initial input)
    have hscopes := hm.anchored.reaches hk
    exact ⟨k.ancestry_nodup, fun x => ⟨k.method?_eq_nearest? x,
      fun f hf => hscopes _ (ClassValue.scope_mem_scopes hf)⟩⟩
  · rw [Exec.stmt] at hrun
    obtain ⟨old, new, hold, hnew, hancestry⟩ := defineClass_ancestry hp hm.anchored.present hrun
    refine ⟨old, new, hold, hnew, hancestry, ?_⟩
    have hnodup := new.ancestry_nodup
    rw [hancestry] at hnodup
    exact (List.nodup_cons.mp hnodup).1

/-- A class that extends the one whose name it takes over. -/
theorem run_keeps_formed_redefined :
    let m := session [{ statements := [.classDef "A" none [.mk "m" [] [] 1] 1] }] Machine.initial
    m.Formed ∧ ∃ old new m',
      Exec.stmt { perform := perform {} 0, turns := 0 } (.classDef "A" (some "A") [] 2) m =
        .ok () m' ∧
      m.scopes.get? m.current "A" = some (.classValue old) ∧
      m'.scopes.get? m'.current "A" = some (.classValue new) ∧
      new.ancestry = new :: old.ancestry ∧ new ∉ old.ancestry := by
  intro m
  obtain ⟨-, -, -, hsession, -, -, hclass⟩ := run_keeps_formed {} 0 0
  have hm : m.Formed := hsession _ []
  have hrun : ∃ m', Exec.stmt { perform := perform {} 0, turns := 0 }
      (.classDef "A" (some "A") [] 2) m = .ok () m' := ⟨_, rfl⟩
  obtain ⟨m', hrun⟩ := hrun
  obtain ⟨old, new, h⟩ := hclass "A" "A" [] 2 m m' hm (by decide) hrun
  exact ⟨hm, old, new, m', hrun, h⟩

end Bhasha
