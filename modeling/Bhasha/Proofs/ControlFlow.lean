import Mathlib
import Bhasha.Proofs.CodeSize
import Bhasha.Proofs.JumpPlaces
import Bhasha.Proofs.JumpTargets

namespace Bhasha

namespace Operation

/-- Control may go on to the next instruction. -/
def fallsThrough : Operation → Bool
  | jump _ | giveBack _ => false
  | _ => true

/-- The instruction at which a call enters a body. -/
def isEntry : Operation → Bool
  | function _ => true
  | _ => false

/-- Neither jumps nor is a place to come to. -/
def isStill : Operation → Bool
  | label _ | jump _ | branch _ _ _ | function _ => false
  | _ => true

end Operation

namespace Instr

/-- Control may go from one place in the code to another in one step. -/
inductive Leads (code : List Instr) : (i j : Nat) → Prop
  | next {i : Nat} {x y : Instr} : code[i]? = some x → x.op.fallsThrough = true →
      code[i + 1]? = some y → Leads code i (i + 1)
  | jump {i j : Nat} {x y : Instr} {t : Label} : code[i]? = some x → t ∈ x.op.targets →
      code[j]? = some y → y.placed? = some t → Leads code i j

/-- Control may get from one place in the code to another, other than by a call. -/
abbrev Reaches (code : List Instr) : (i j : Nat) → Prop :=
  Relation.ReflTransGen (Leads code)

/-- A call enters a body at this place in the code. -/
def IsEntry (code : List Instr) (j : Nat) : Prop :=
  ∃ x, code[j]? = some x ∧ x.op.isEntry = true

end Instr

/-- A body in the code of a program, known by the place at which it is entered. -/
structure Body where
  entry : Nat
  /-- There is a jump around the body, as for methods and lambdas. -/
  skipped : Bool
deriving DecidableEq

mutual

/-- The owners of each instruction of an expression: the bodies in which it stands, the innermost
first. The code begins at `start` and stands in the bodies `outer`. -/
def Expr.owners (outer : List Body) (start : Nat) : Expr → List (List Body)
  | .literal _ _ _ | .var _ _ | .thisObject _ => [outer]
  | .list es _ => Expr.ownersEach outer start es ++ (List.replicate es.length outer ++ [outer])
  | .dict ps _ => Expr.ownersPairs outer start ps ++ [outer]
  | .binary _ a b _ | .index a b _ =>
    a.owners outer start ++ (b.owners outer (start + a.extent.instrs) ++ [outer])
  | .unary _ a _ | .property a _ _ => a.owners outer start ++ [outer]
  | .paren a _ => a.owners outer start
  | .call _ es _ | .superCall _ es _ => Expr.ownersArguments outer start es ++ [outer]
  | .lambda _ a _ =>
    let inner := ⟨start + 1, true⟩ :: outer
    outer :: inner :: a.owners inner (start + 2) ++ [inner, outer, outer]
  | .newObject _ es _ => outer :: Expr.ownersArguments outer (start + 1) es ++ [outer]
  | .method a _ es _ =>
    a.owners outer start ++ (outer ::
      Expr.ownersArguments outer (start + a.extent.instrs + 1) es ++ [outer])
  | .foreign _ _ _ => []
termination_by structural e => e

def Expr.ownersEach (outer : List Body) (start : Nat) : List Expr → List (List Body)
  | [] => []
  | e :: es => e.owners outer start ++ Expr.ownersEach outer (start + e.extent.instrs) es
termination_by structural es => es

def Expr.ownersArguments (outer : List Body) (start : Nat) : List Expr → List (List Body)
  | [] => []
  | e :: es =>
    e.owners outer start ++ (outer ::
      Expr.ownersArguments outer (start + e.extent.instrs + 1) es)
termination_by structural es => es

def Expr.ownersPairs (outer : List Body) (start : Nat) : List (Expr × Expr) → List (List Body)
  | [] => []
  | (k, v) :: ps =>
    k.owners outer start ++ (v.owners outer (start + k.extent.instrs) ++ (outer :: outer ::
      Expr.ownersPairs outer (start + k.extent.instrs + v.extent.instrs + 2) ps))
termination_by structural ps => ps

end

mutual

/-- As for expressions. The label at the head of a class stands in the first method, to which
control would go on from there. -/
def Stmt.owners (inside : Bool) (outer : List Body) (start : Nat) : Stmt → List (List Body)
  | .expr e => e.owners outer start
  | .assign _ e _ | .raiseError e _ | .input _ (some e) _ | .giveBack (some e) _ =>
    e.owners outer start ++ [outer]
  | .setProperty a _ e _ =>
    a.owners outer start ++ (e.owners outer (start + a.extent.instrs) ++ [outer])
  | .setIndex a i e _ =>
    a.owners outer start ++ (i.owners outer (start + a.extent.instrs) ++
      (e.owners outer (start + a.extent.instrs + i.extent.instrs) ++ [outer]))
  | .print es _ => Expr.ownersEach outer start es ++ [outer]
  | .input _ none _ | .giveBack none _ => [outer]
  | .ifElse c body bs otherwise _ =>
    let first := start + c.extent.instrs + 2
    let others := first + (Stmt.extentAll inside body).instrs + 1
    let last := others + (Branch.extentAll inside bs).instrs
    c.owners outer start ++ (outer :: outer :: Stmt.ownersAll inside outer first body ++
      (outer :: Branch.ownersAll inside outer others bs ++
        (Stmt.ownersElse inside outer last otherwise ++ [outer])))
  | .whileLoop c body _ =>
    outer :: c.owners outer (start + 1) ++ (outer :: outer ::
      Stmt.ownersAll true outer (start + 1 + c.extent.instrs + 2) body ++ [outer, outer])
  | .forLoop _ e body _ =>
    e.owners outer start ++ (List.replicate 10 outer ++
      Stmt.ownersAll true outer (start + e.extent.instrs + 10) body ++ [outer, outer])
  | .breakLoop _ | .continueLoop _ => List.replicate inside.toNat outer
  | .function f => f.owners inside (⟨start, false⟩ :: outer) start
  | .classDef _ _ fs _ =>
    outer :: (fs.head?.elim outer fun _ => ⟨start + 2, true⟩ :: outer) ::
      FunctionDef.ownersAll inside outer (start + 2) fs ++ [outer]
  | .attempt _ _ _ _ _ | .importFile _ _ | .foreign _ _ _ => []
termination_by structural s => s

def Stmt.ownersAll (inside : Bool) (outer : List Body) (start : Nat) :
    List Stmt → List (List Body)
  | [] => []
  | s :: ss =>
    s.owners inside outer start ++
      Stmt.ownersAll inside outer (start + (s.extent inside).instrs) ss
termination_by structural ss => ss

def Stmt.ownersElse (inside : Bool) (outer : List Body) (start : Nat) :
    Option (List Stmt) → List (List Body)
  | none => []
  | some ss => outer :: Stmt.ownersAll inside outer (start + 1) ss
termination_by structural ss? => ss?

def Branch.ownersAll (inside : Bool) (outer : List Body) (start : Nat) :
    List Branch → List (List Body)
  | [] => []
  | .mk c body :: bs =>
    let first := start + 1 + c.extent.instrs + 2
    outer :: c.owners outer (start + 1) ++ (outer :: outer ::
      Stmt.ownersAll inside outer first body ++ (outer ::
        Branch.ownersAll inside outer (first + (Stmt.extentAll inside body).instrs + 1) bs))
termination_by structural bs => bs

/-- Of a body, which is among `outer` itself. -/
def FunctionDef.owners (inside : Bool) (outer : List Body) (start : Nat) :
    FunctionDef → List (List Body)
  | .mk _ _ body _ => outer :: Stmt.ownersAll inside outer (start + 1) body ++ [outer]
termination_by structural f => f

def FunctionDef.ownersAll (inside : Bool) (outer : List Body) (start : Nat) :
    List FunctionDef → List (List Body)
  | [] => []
  | f :: fs =>
    f.owners inside (⟨start, true⟩ :: outer) start ++
      FunctionDef.ownersAll inside outer (start + (f.extent inside).instrs) fs
termination_by structural fs => fs

end

/-- Control may get from the bodies `outer` to the bodies `o`: it stays, or goes further in by
running into functions, if there are any. -/
def Inwards (plain : Prop) (outer o : List Body) : Prop :=
  ∃ inner, o = inner ++ outer ∧ ∀ b ∈ inner, b.skipped = false ∧ plain

namespace Inwards

variable {plain : Prop} {o o₁ o₂ : List Body}

theorem refl : Inwards plain o o :=
  ⟨[], rfl, by simp⟩

theorem trans (h : Inwards plain o o₁) (h' : Inwards plain o₁ o₂) : Inwards plain o o₂ := by
  obtain ⟨inner, rfl, hinner⟩ := h
  obtain ⟨inner', rfl, hinner'⟩ := h'
  refine ⟨inner' ++ inner, (List.append_assoc _ _ _).symm, fun b hb => ?_⟩
  exact (List.mem_append.1 hb).elim (hinner' b) (hinner b)

theorem function (h : plain) (n : Nat) : Inwards plain o (⟨n, false⟩ :: o) :=
  ⟨[⟨n, false⟩], rfl, by simp [h]⟩

theorem eq_of_not (h : Inwards plain o o₁) (hplain : ¬plain) : o₁ = o := by
  obtain ⟨inner, rfl, hinner⟩ := h
  cases inner with
  | nil => rfl
  | cons b _ => exact absurd (hinner b List.mem_cons_self).2 hplain

end Inwards

/-- The owners that control takes along behind an instruction. -/
def Instr.carries (i : Instr) (owners : List Body) : Option (List Body) :=
  if i.op.fallsThrough then some owners else none

/-- Code with its owners, from the `n`-th place on up to the `n'`-th. Falling through, control never
leaves a body: it comes from `before`, if it comes at all, and goes on to `behind`, if it gets
there. Every entry has its own body around it. The labels that are jumped to and those that are
placed are given with the owners of the instructions. -/
inductive Stretch (plain : Prop) : (n : Nat) → (before : Option (List Body)) → List Instr →
    List (List Body) → (n' : Nat) → (behind : Option (List Body)) →
    (jumps placed : List (List Body × Label)) → Prop
  | nil {n before behind} : before = none ∨ before = behind →
      Stretch plain n before [] [] n behind [] []
  | cons {n before i o code owners n' behind jumps placed} :
      (∀ outer, before = some outer → Inwards plain outer o) →
      (i.op.isEntry = true → ∃ b outer, o = b :: outer ∧ b.entry = n) →
      Stretch plain (n + 1) (i.carries o) code owners n' behind jumps placed →
      Stretch plain n before (i :: code) (o :: owners) n' behind
        (i.op.targets.map (o, ·) ++ jumps) (i.placed?.toList.map (o, ·) ++ placed)

namespace Stretch

variable {plain : Prop} {n n₁ n₂ : Nat} {s s₁ s₂ : Option (List Body)} {code code' : List Instr}
  {owners owners' : List (List Body)} {jumps jumps' placed placed' : List (List Body × Label)}

theorem weaken (h : Stretch plain n s₁ code owners n₂ s₂ jumps placed) (hs : s = none ∨ s = s₁) :
    Stretch plain n s code owners n₂ s₂ jumps placed := by
  rcases hs with rfl | rfl
  · cases h with
    | nil _ => exact .nil (.inl rfl)
    | cons _ hentry hrest => exact .cons (by simp) hentry hrest
  · exact h

/-- Control that does not get behind the code may be taken to get there with any owners. -/
theorem relax (h : Stretch plain n s code owners n₁ none jumps placed) :
    Stretch plain n s code owners n₁ s₁ jumps placed := by
  generalize hnone : (none : Option (List Body)) = s₂ at h
  induction h with
  | nil hs =>
    refine .nil (.inl ?_)
    rcases hs with rfl | rfl
    · rfl
    · exact hnone.symm
  | cons hbefore hentry _ ih => exact .cons hbefore hentry (ih hnone)

theorem append (h : Stretch plain n s code owners n₁ s₁ jumps placed)
    (h' : Stretch plain n₁ s₁ code' owners' n₂ s₂ jumps' placed') :
    Stretch plain n s (code ++ code') (owners ++ owners') n₂ s₂ (jumps ++ jumps')
      (placed ++ placed') := by
  induction h with
  | nil hs => exact h'.weaken hs
  | cons hbefore hentry _ ih =>
    rw [List.append_assoc, List.append_assoc]
    exact .cons hbefore hentry (ih h')

theorem comes_of_same {o : List Body} (hs : s = none ∨ s = some o) :
    ∀ outer, s = some outer → Inwards plain outer o := by
  intro outer houter
  obtain rfl | rfl := hs
  · cases houter
  · cases houter
    exact .refl

theorem still {i : Instr} {o : List Body} (hi : i.op.isStill = true)
    (h : Stretch plain (n + 1) (i.carries o) code owners n₁ s₁ jumps placed) :
    Stretch plain n (some o) (i :: code) (o :: owners) n₁ s₁ jumps placed := by
  have hentry : i.op.isEntry = false := by
    revert hi
    cases i.op <;> simp [Operation.isStill, Operation.isEntry]
  have htargets : i.op.targets = [] := by
    revert hi
    cases i.op <;> simp [Operation.isStill]
  have hplaced : i.placed? = none := by
    revert hi
    unfold Instr.placed?
    cases i.op <;> simp [Operation.isStill]
  have hcons : Stretch plain n (some o) (i :: code) (o :: owners) n₁ s₁
      (i.op.targets.map (o, ·) ++ jumps) (i.placed?.toList.map (o, ·) ++ placed) :=
    .cons (comes_of_same (.inr rfl)) (by simp [hentry]) h
  rw [htargets, hplaced] at hcons
  exact hcons

theorem last {i : Instr} {o : List Body} (hi : i.op.isStill = true) :
    Stretch plain n (some o) [i] [o] (n + 1) (some o) [] [] := by
  refine still hi (.nil ?_)
  unfold Instr.carries
  split
  · exact .inr rfl
  · exact .inl rfl

theorem label {o : List Body} {t : Label} {l : Nat} (hs : s = none ∨ s = some o)
    (h : Stretch plain (n + 1) (some o) code owners n₁ s₁ jumps placed) :
    Stretch plain n s (⟨.label t, l⟩ :: code) (o :: owners) n₁ s₁ jumps ((o, t) :: placed) :=
  .cons (comes_of_same hs) (by simp [Operation.isEntry]) h

theorem jump {o : List Body} {t : Label} {l : Nat}
    (h : Stretch plain (n + 1) none code owners n₁ s₁ jumps placed) :
    Stretch plain n (some o) (⟨.jump t, l⟩ :: code) (o :: owners) n₁ s₁ ((o, t) :: jumps) placed :=
  .cons (comes_of_same (.inr rfl)) (by simp [Operation.isEntry]) h

theorem branch {o : List Body} {v : Operand} {t t' : Label} {l : Nat}
    (h : Stretch plain (n + 1) (some o) code owners n₁ s₁ jumps placed) :
    Stretch plain n (some o) (⟨.branch v t t', l⟩ :: code) (o :: owners) n₁ s₁
      ((o, t) :: (o, t') :: jumps) placed :=
  .cons (comes_of_same (.inr rfl)) (by simp [Operation.isEntry]) h

theorem entry {b : Body} {o : List Body} {x : String} {l : Nat}
    (hs : ∀ outer, s = some outer → Inwards plain outer (b :: o)) (hb : b.entry = n)
    (h : Stretch plain (n + 1) (some (b :: o)) code owners n₁ s₁ jumps placed) :
    Stretch plain n s (⟨.function x, l⟩ :: code) ((b :: o) :: owners) n₁ s₁ jumps placed :=
  .cons hs (fun _ => ⟨b, o, rfl, hb⟩) h

/-- The end of a loop. -/
theorem turn {o : List Body} {again out : Label} {l : Nat} :
    Stretch plain n (some o) [⟨.jump again, l⟩, ⟨.label out, l⟩] [o, o] (n + 2) (some o)
      [(o, again)] [(o, out)] :=
  .jump (.label (.inl rfl) (.nil (.inr rfl)))

theorem stop (h : Stretch plain n s code owners n₁ s₁ jumps placed) (hn : n₂ = n₁) :
    Stretch plain n s code owners n₂ s₁ jumps placed :=
  hn ▸ h

theorem pushAll {o : List Body} {l : Nat} (ks : List Nat) :
    Stretch plain n (some o) (ks.map (.pushes l)) (List.replicate ks.length o) (n + ks.length)
      (some o) [] [] := by
  induction ks generalizing n with
  | nil => exact .nil (.inr rfl)
  | cons k ks ih =>
    have hrest : Stretch plain (n + 1) (some o) (ks.map (.pushes l))
        (List.replicate ks.length o) (n + (k :: ks).length) (some o) [] [] :=
      ih.stop (by simp; omega)
    exact still rfl hrest

end Stretch

section

variable (plain : Prop)

mutual

theorem Expr.Laid.stretch : ∀ {e n code k n'}, Expr.Laid e n code k n' → ∀ o start,
    ∃ jumps placed, Stretch plain start (some o) code (e.owners o start)
      (start + e.extent.instrs) (some o) jumps placed ∧ ∀ x ∈ jumps, x ∈ placed
  | _, _, _, _, _, .literal, o, _ | _, _, _, _, _, .var, o, _
  | _, _, _, _, _, .thisObject, o, _ => ⟨_, _, .last rfl, by simp⟩
  | _, _, _, _, _, .list hes, o, start => by
    obtain ⟨jumps, placed, h, hlands⟩ := hes.stretch o start
    have hks := hes.extent.1
    rw [Expr.owners, ← hks]
    refine ⟨_, _, (h.append ((Stretch.pushAll _).append (.last rfl))).stop ?_, ?_⟩
    · simp only [Expr.extent, Extent.instrs_add]
      omega
    · grind
  | _, _, _, _, _, .dict hps, o, start => by
    obtain ⟨jumps, placed, h, hlands⟩ := hps.stretch o start
    refine ⟨_, _, (h.append (.last rfl)).stop ?_, ?_⟩
    · simp only [Expr.extent, Extent.instrs_add]
      omega
    · grind
  | _, _, _, _, _, .binary ha hb, o, start | _, _, _, _, _, .index ha hb, o, start => by
    obtain ⟨jumps, placed, h, hlands⟩ := ha.stretch o start
    obtain ⟨jumps', placed', h', hlands'⟩ := hb.stretch o _
    refine ⟨_, _, (h.append (h'.append (.last rfl))).stop ?_, ?_⟩
    · simp only [Expr.extent, Extent.instrs_add]
      omega
    · grind
  | _, _, _, _, _, .unary ha, o, start | _, _, _, _, _, .property ha, o, start => by
    obtain ⟨jumps, placed, h, hlands⟩ := ha.stretch o start
    refine ⟨_, _, (h.append (.last rfl)).stop ?_, ?_⟩
    · simp only [Expr.extent, Extent.instrs_add]
      omega
    · grind
  | _, _, _, _, _, .paren ha, o, start => ha.stretch o start
  | _, _, _, _, _, .call hes, o, start | _, _, _, _, _, .superCall hes, o, start => by
    obtain ⟨jumps, placed, h, hlands⟩ := hes.stretch o start
    refine ⟨_, _, (h.append (.last rfl)).stop ?_, ?_⟩
    · simp only [Expr.extent, Extent.instrs_add]
      omega
    · grind
  | _, _, _, _, _, .lambda ha, o, start => by
    obtain ⟨jumps, placed, h, hlands⟩ := ha.stretch (⟨start + 1, true⟩ :: o) (start + 2)
    refine ⟨_, _, .jump (.entry (by simp) rfl ((h.append (.still rfl
      (.label (.inl rfl) (.last rfl)))).stop ?_)), ?_⟩
    · simp only [Expr.extent, Extent.instrs_add]
      omega
    · grind
  | _, _, _, _, _, .newObject hes, o, start => by
    obtain ⟨jumps, placed, h, hlands⟩ := hes.stretch o (start + 1)
    refine ⟨_, _, .still rfl ((h.append (.last rfl)).stop ?_), ?_⟩
    · simp only [Expr.extent, Extent.instrs_add]
      omega
    · grind
  | _, _, _, _, _, .method ha hes, o, start => by
    obtain ⟨jumps, placed, h, hlands⟩ := ha.stretch o start
    obtain ⟨jumps', placed', h', hlands'⟩ := hes.stretch o (start + _ + 1)
    refine ⟨_, _, h.append (.still rfl ((h'.append (.last rfl)).stop ?_)), ?_⟩
    · simp only [Expr.extent, Extent.instrs_add]
      omega
    · grind

theorem Expr.LaidEach.stretch : ∀ {es n code ks n'}, Expr.LaidEach es n code ks n' → ∀ o start,
    ∃ jumps placed, Stretch plain start (some o) code (Expr.ownersEach o start es)
      (start + (Expr.extentAll es).instrs) (some o) jumps placed ∧ ∀ x ∈ jumps, x ∈ placed
  | _, _, _, _, _, .nil, _, _ => ⟨_, _, .nil (.inr rfl), by simp⟩
  | _, _, _, _, _, .cons he hes, o, start => by
    obtain ⟨jumps, placed, h, hlands⟩ := he.stretch o start
    obtain ⟨jumps', placed', h', hlands'⟩ := hes.stretch o _
    refine ⟨_, _, (h.append h').stop ?_, ?_⟩
    · simp only [Expr.extentAll, Extent.instrs_add]
      omega
    · grind

theorem Expr.LaidArguments.stretch : ∀ {l es n code n'}, Expr.LaidArguments l es n code n' →
    ∀ o start, ∃ jumps placed, Stretch plain start (some o) code (Expr.ownersArguments o start es)
      (start + ((Expr.extentAll es).instrs + es.length)) (some o) jumps placed ∧
        ∀ x ∈ jumps, x ∈ placed
  | _, _, _, _, _, .nil, _, _ => ⟨_, _, .nil (.inr rfl), by simp⟩
  | _, _, _, _, _, .cons he hes, o, start => by
    obtain ⟨jumps, placed, h, hlands⟩ := he.stretch o start
    obtain ⟨jumps', placed', h', hlands'⟩ := hes.stretch o (start + _ + 1)
    refine ⟨_, _, (h.append (.still rfl h')).stop ?_, ?_⟩
    · simp only [Expr.extentAll, Extent.instrs_add, List.length_cons]
      omega
    · grind

theorem Expr.LaidPairs.stretch : ∀ {l ps n code n'}, Expr.LaidPairs l ps n code n' →
    ∀ o start, ∃ jumps placed, Stretch plain start (some o) code (Expr.ownersPairs o start ps)
      (start + ((Expr.extentPairs ps).instrs + ps.length * 2)) (some o) jumps placed ∧
        ∀ x ∈ jumps, x ∈ placed
  | _, _, _, _, _, .nil, _, _ => ⟨_, _, .nil (.inr rfl), by simp⟩
  | _, _, _, _, _, .cons hkey hvalue hps, o, start => by
    obtain ⟨jumps, placed, h, hlands⟩ := hkey.stretch o start
    obtain ⟨jumps', placed', h', hlands'⟩ := hvalue.stretch o _
    obtain ⟨jumps'', placed'', h'', hlands''⟩ := hps.stretch o (start + _ + _ + 2)
    refine ⟨_, _, (h.append (h'.append (.still rfl (.still rfl h'')))).stop ?_, ?_⟩
    · simp only [Expr.extentPairs, Extent.instrs_add, List.length_cons]
      omega
    · grind

end

/-- Is the statement anything but a function? A class may have methods all the same. -/
def Stmt.isNoFunction : Stmt → Bool
  | .function _ => false
  | _ => true

/-- Jumps are let pass only where they are inside of a loop, or have nowhere to lead to. -/
def Spot.Suits (p : Spot) (loop : Option Loop) : Prop :=
  p.jumps = true → p.looped = true ∨ loop = none

theorem Spot.Suits.inLoop (L : Loop) : Spot.inLoop.Suits (some L) :=
  fun _ => .inl rfl

theorem Spot.Suits.body {p : Spot} {loop : Option Loop} (h : p.Suits loop)
    (hjumps : (JumpRule.own.body p).jumps = true) : p.jumps = true ∧ loop = none := by
  have hboth : (p.jumps && !p.looped) = true := hjumps
  obtain ⟨hp, hlooped⟩ := Bool.and_eq_true_iff.1 hboth
  refine ⟨hp, (h hp).resolve_left fun htrue => ?_⟩
  rw [htrue] at hlooped
  cases hlooped

/-- Every jump leads to a label of the same owners, or out of the statement to a label of the loop,
if jumps are let pass. -/
def Lands (p : Spot) (loop : Option Loop) (o : List Body)
    (jumps placed : List (List Body × Label)) : Prop :=
  ∀ x ∈ jumps, x ∈ placed ∨ p.jumps = true ∧ x.1 = o ∧ x.2 ∈ Loop.labels loop

theorem Lands.inLoop {L : Loop} {o : List Body} {jumps placed : List (List Body × Label)}
    (h : Lands .inLoop (some L) o jumps placed) :
    ∀ x ∈ jumps, x ∈ placed ∨ x = (o, L.out) ∨ x = (o, L.again) := by
  intro x hx
  rcases h x hx with hplaced | ⟨-, rfl, ht⟩
  · exact .inl hplaced
  · have htarget : x.2 = L.out ∨ x.2 = L.again := by simpa [Loop.labels] using ht
    right
    exact htarget.imp (fun h => Prod.ext rfl h) fun h => Prod.ext rfl h

/-- A body in which only jumps out of its own loops are let pass is left by none. -/
theorem Lands.body {p : Spot} {loop : Option Loop} {o : List Body}
    {jumps placed : List (List Body × Label)} (hsuits : p.Suits loop)
    (h : Lands (JumpRule.own.body p) loop o jumps placed) : ∀ x ∈ jumps, x ∈ placed := by
  intro x hx
  refine (h x hx).resolve_right fun ⟨hjumps, _, ht⟩ => ?_
  rw [(hsuits.body hjumps).2] at ht
  exact List.not_mem_nil ht

mutual

theorem Stmt.Laid.stretch : ∀ {loop s n code n'}, Stmt.Laid loop s n code n' →
    ∀ {p : Spot} o start, p.Suits loop → s.contained .own p = true →
    (¬plain → s.every (fun _ => true) Stmt.isNoFunction = true) →
    ∃ jumps placed, Stretch plain start (some o) code (s.owners loop.isSome o start)
      (start + (s.extent loop.isSome).instrs) (some o) jumps placed ∧ Lands p loop o jumps placed
  | _, _, _, _, _, .expr he, p, o, start, _, _, _ => by
    obtain ⟨jumps, placed, h, hlands⟩ := he.stretch plain o start
    exact ⟨_, _, h, fun x hx => .inl (hlands x hx)⟩
  | _, _, _, _, _, .assign he, p, o, start, _, _, _
  | _, _, _, _, _, .prompt he, p, o, start, _, _, _
  | _, _, _, _, _, .giveValue he, p, o, start, _, _, _
  | _, _, _, _, _, .raiseError he, p, o, start, _, _, _ => by
    obtain ⟨jumps, placed, h, hlands⟩ := he.stretch plain o start
    refine ⟨_, _, (h.append (.last rfl)).stop ?_, ?_⟩
    · simp only [Stmt.extent, Extent.instrs_add]
      omega
    · grind [Lands]
  | _, _, _, _, _, .setProperty ha he, p, o, start, _, _, _ => by
    obtain ⟨jumps, placed, h, hlands⟩ := ha.stretch plain o start
    obtain ⟨jumps', placed', h', hlands'⟩ := he.stretch plain o _
    refine ⟨_, _, (h.append (h'.append (.last rfl))).stop ?_, ?_⟩
    · simp only [Stmt.extent, Extent.instrs_add]
      omega
    · grind [Lands]
  | _, _, _, _, _, .setIndex ha hi he, p, o, start, _, _, _ => by
    obtain ⟨jumps, placed, h, hlands⟩ := ha.stretch plain o start
    obtain ⟨jumps', placed', h', hlands'⟩ := hi.stretch plain o _
    obtain ⟨jumps'', placed'', h'', hlands''⟩ := he.stretch plain o _
    refine ⟨_, _, (h.append (h'.append (h''.append (.last rfl)))).stop ?_, ?_⟩
    · simp only [Stmt.extent, Extent.instrs_add]
      omega
    · grind [Lands]
  | _, _, _, _, _, .print hes, p, o, start, _, _, _ => by
    obtain ⟨jumps, placed, h, hlands⟩ := hes.stretch plain o start
    refine ⟨_, _, (h.append (.last rfl)).stop ?_, ?_⟩
    · simp only [Stmt.extent, Extent.instrs_add]
      omega
    · grind [Lands]
  | _, _, _, _, _, .input, p, o, start, _, _, _ | _, _, _, _, _, .giveBack, p, o, start, _, _, _ =>
    ⟨_, _, .last rfl, by simp [Lands]⟩
  | _, _, _, _, _, .ifOnly hc hbody hbs, p, o, start, hsuits, hown, hplain => by
    obtain ⟨hbodyOwn, hrestOwn⟩ := Bool.and_eq_true_iff.1 hown
    obtain ⟨hbsOwn, -⟩ := Bool.and_eq_true_iff.1 hrestOwn
    have hparts := fun h => Bool.and_eq_true_iff.1 (Bool.and_eq_true_iff.1
      (Bool.and_eq_true_iff.1 (hplain h)).2).1
    obtain ⟨jumps, placed, h, hlands⟩ := hc.stretch plain o start
    obtain ⟨jumps', placed', h', hlands'⟩ := hbody.stretch o _ hsuits hbodyOwn
      fun h => (Bool.and_eq_true_iff.1 (hparts h).1).2
    obtain ⟨jumps'', placed'', h'', hlands'', hhead⟩ := hbs.stretch o _ hsuits hbsOwn
      fun h => (hparts h).2
    refine ⟨_, _, (h.append (.branch (.label (.inr rfl) (h'.append (.jump (h''.append
      (.label (.inl rfl) (.nil (.inr rfl))))))))).stop ?_, ?_⟩
    · simp only [Stmt.extent, Stmt.extentElse, Extent.instrs_add]
      omega
    · grind [Lands]
  | _, _, _, _, _, .ifElse hc hbody hbs hss, p, o, start, hsuits, hown, hplain => by
    obtain ⟨hbodyOwn, hrestOwn⟩ := Bool.and_eq_true_iff.1 hown
    obtain ⟨hbsOwn, hssOwn⟩ := Bool.and_eq_true_iff.1 hrestOwn
    have hall := fun h => Bool.and_eq_true_iff.1 (Bool.and_eq_true_iff.1 (hplain h)).2
    have hparts := fun h => Bool.and_eq_true_iff.1 (hall h).1
    obtain ⟨jumps, placed, h, hlands⟩ := hc.stretch plain o start
    obtain ⟨jumps', placed', h', hlands'⟩ := hbody.stretch o _ hsuits hbodyOwn
      fun h => (Bool.and_eq_true_iff.1 (hparts h).1).2
    obtain ⟨jumps'', placed'', h'', hlands'', hhead⟩ := hbs.stretch o _ hsuits hbsOwn
      fun h => (hparts h).2
    obtain ⟨jumps₃, placed₃, h₃, hlands₃⟩ := hss.stretch o _ hsuits hssOwn fun h => (hall h).2
    refine ⟨_, _, (h.append (.branch (.label (.inr rfl) (h'.append (.jump (h''.append
      (.label (.inl rfl) (h₃.append (.label (.inr rfl) (.nil (.inr rfl))))))))))).stop ?_, ?_⟩
    · simp only [Stmt.extent, Stmt.extentElse, Extent.instrs_add]
      omega
    · grind [Lands]
  | _, _, _, _, _, .whileLoop hc hbody, p, o, start, _, hown, hplain => by
    obtain ⟨jumps, placed, h, hlands⟩ := hc.stretch plain o (start + 1)
    obtain ⟨jumps', placed', h', hlands'⟩ := hbody.stretch o _ (.inLoop _) hown
      fun h => (Bool.and_eq_true_iff.1 (Bool.and_eq_true_iff.1 (hplain h)).2).2
    have hlands' := hlands'.inLoop
    refine ⟨_, _, (Stretch.label (.inr rfl) (h.append (.branch (.label (.inr rfl)
      (h'.append .turn))))).stop ?_, ?_⟩
    · simp only [Stmt.extent, Extent.instrs_add, Option.isSome_some]
      omega
    · grind [Lands]
  | _, _, _, _, _, .forLoop he hbody, p, o, start, _, hown, hplain => by
    obtain ⟨jumps, placed, h, hlands⟩ := he.stretch plain o start
    obtain ⟨jumps', placed', h', hlands'⟩ := hbody.stretch o _ (.inLoop _) hown
      fun h => (Bool.and_eq_true_iff.1 (Bool.and_eq_true_iff.1 (hplain h)).2).2
    have hlands' := hlands'.inLoop
    refine ⟨_, _, (h.append (.still rfl (.still rfl (.label (.inr rfl) (.still rfl (.still rfl
      (.branch (.label (.inr rfl) (.still rfl (.still rfl (.still rfl
        (h'.append .turn)))))))))))).stop ?_, ?_⟩
    · simp only [Stmt.extent, Extent.instrs_add, Option.isSome_some]
      omega
    · grind [Lands]
  | loop, _, _, _, _, .breakLoop, p, o, start, _, hown, _
  | loop, _, _, _, _, .continueLoop, p, o, start, _, hown, _ => by
    have hjumps : p.jumps = true := hown
    cases loop with
    | none => exact ⟨_, _, .nil (.inr rfl), by simp [Lands]⟩
    | some L => exact ⟨_, _, .jump (.nil (.inl rfl)), by simp [Lands, Loop.labels, hjumps]⟩
  | _, _, _, _, _, .function hf, p, o, start, hsuits, hown, hplain => by
    have hfunction : plain := by
      by_contra hno
      cases hplain hno
    have hcomes : ∀ outer, some o = some outer → Inwards plain outer (⟨start, false⟩ :: o) := by
      rintro _ ⟨⟩
      exact .function hfunction start
    obtain ⟨jumps, placed, h, hlands⟩ := hf.stretch false o start hcomes hsuits hown
      fun hno => absurd hfunction hno
    -- The function gives back at its end, so control does not take its owners along.
    exact ⟨_, _, h.relax, fun x hx => .inl (hlands x hx)⟩
  | _, _, _, _, _, .classDef hfs, p, o, start, hsuits, hown, hplain => by
    obtain ⟨jumps, placed, h, hlands⟩ := hfs.stretch o (start + 2) hsuits hown
      fun h => (Bool.and_eq_true_iff.1 (hplain h)).2
    -- Control would get from the label at the head of the class to the first method, if any.
    cases hfs with
    | nil =>
      refine ⟨_, _, .jump (.label (.inl rfl) (.label (.inr rfl) (.nil (.inr rfl)))), ?_⟩
      simp [Lands]
    | cons hf hfs =>
      refine ⟨_, _, (Stretch.jump (.label (.inl rfl) (h.append (.label (.inl rfl)
        (.nil (.inr rfl)))))).stop ?_, ?_⟩
      · simp only [Stmt.extent, Extent.instrs_add]
        omega
      · grind [Lands]

theorem Stmt.LaidAll.stretch : ∀ {loop ss n code n'}, Stmt.LaidAll loop ss n code n' →
    ∀ {p : Spot} o start, p.Suits loop → Stmt.containedAll .own p ss = true →
    (¬plain → Stmt.everyAll (fun _ => true) Stmt.isNoFunction ss = true) →
    ∃ jumps placed, Stretch plain start (some o) code (Stmt.ownersAll loop.isSome o start ss)
      (start + (Stmt.extentAll loop.isSome ss).instrs) (some o) jumps placed ∧
        Lands p loop o jumps placed
  | _, _, _, _, _, .nil, _, _, _, _, _, _ => ⟨_, _, .nil (.inr rfl), by simp [Lands]⟩
  | _, _, _, _, _, .cons hs hss, p, o, start, hsuits, hown, hplain => by
    obtain ⟨hsOwn, hssOwn⟩ := Bool.and_eq_true_iff.1 hown
    obtain ⟨jumps, placed, h, hlands⟩ := hs.stretch o start hsuits hsOwn
      fun h => (Bool.and_eq_true_iff.1 (hplain h)).1
    obtain ⟨jumps', placed', h', hlands'⟩ := hss.stretch o _ hsuits hssOwn
      fun h => (Bool.and_eq_true_iff.1 (hplain h)).2
    refine ⟨_, _, (h.append h').stop ?_, ?_⟩
    · simp only [Stmt.extentAll, Extent.instrs_add]
      omega
    · grind [Lands]

/-- Jumps of the parts may also lead to `out` and `last`. -/
theorem Branch.LaidAll.stretch : ∀ {loop l out last labels bs n code n'},
    Branch.LaidAll loop l out last labels bs n code n' →
    ∀ {p : Spot} o start, p.Suits loop → Branch.containedAll .own p bs = true →
    (¬plain → Branch.everyAll (fun _ => true) Stmt.isNoFunction bs = true) →
    ∃ jumps placed, Stretch plain start none code (Branch.ownersAll loop.isSome o start bs)
      (start + (Branch.extentAll loop.isSome bs).instrs) none jumps placed ∧
        Lands p loop o jumps ((o, out) :: (o, last) :: placed) ∧
          ((o, labels.headD last) ∈ placed ∨ labels.headD last = last)
  | _, _, _, _, _, _, _, _, _, .nil, _, _, _, _, _, _ =>
    ⟨_, _, .nil (.inr rfl), by simp [Lands], .inr rfl⟩
  | _, _, _, _, _, _, _, _, _, .cons hc hbody hbs, p, o, start, hsuits, hown, hplain => by
    obtain ⟨hbodyOwn, hbsOwn⟩ := Bool.and_eq_true_iff.1 hown
    have hfunctions := fun h => Bool.and_eq_true_iff.1 (hplain h)
    obtain ⟨jumps, placed, h, hlands⟩ := hc.stretch plain o (start + 1)
    obtain ⟨jumps', placed', h', hlands'⟩ := hbody.stretch o _ hsuits hbodyOwn
      fun h => (Bool.and_eq_true_iff.1 (hfunctions h).1).2
    obtain ⟨jumps'', placed'', h'', hlands'', hhead⟩ := hbs.stretch o _ hsuits hbsOwn
      fun h => (hfunctions h).2
    refine ⟨_, _, (Stretch.label (.inl rfl) (h.append (.branch (.label (.inr rfl)
      (h'.append (.jump h'')))))).stop ?_, ?_, ?_⟩
    · simp only [Branch.extentAll, Extent.instrs_add]
      omega
    · grind [Lands]
    · simp

theorem FunctionDef.Laid.stretch : ∀ {loop f n code n'}, FunctionDef.Laid loop f n code n' →
    ∀ {p : Spot} {s} skipped o start,
    (∀ outer, s = some outer → Inwards plain outer (⟨start, skipped⟩ :: o)) →
    p.Suits loop → f.contained .own p = true →
    (¬plain → f.every (fun _ => true) Stmt.isNoFunction = true) →
    ∃ jumps placed, Stretch plain start s code (f.owners loop.isSome (⟨start, skipped⟩ :: o) start)
      (start + (f.extent loop.isSome).instrs) none jumps placed ∧ ∀ x ∈ jumps, x ∈ placed
  | _, _, _, _, _, .mk hbody, p, s, skipped, o, start, hcomes, hsuits, hown, hplain => by
    have hsuits' : (JumpRule.own.body p).Suits _ := fun hjumps => .inr (hsuits.body hjumps).2
    obtain ⟨jumps, placed, h, hlands⟩ := hbody.stretch _ (start + 1) hsuits' hown hplain
    refine ⟨_, _, (Stretch.entry hcomes rfl (h.append (.still rfl (.nil (.inl rfl))))).stop ?_, ?_⟩
    · simp only [FunctionDef.extent, Extent.instrs_add]
      omega
    · simpa using hlands.body hsuits

theorem FunctionDef.LaidAll.stretch : ∀ {loop fs n code n'},
    FunctionDef.LaidAll loop fs n code n' →
    ∀ {p : Spot} o start, p.Suits loop → FunctionDef.containedAll .own p fs = true →
    (¬plain → FunctionDef.everyAll (fun _ => true) Stmt.isNoFunction fs = true) →
    ∃ jumps placed, Stretch plain start (fs.head?.map fun _ => ⟨start, true⟩ :: o) code
      (FunctionDef.ownersAll loop.isSome o start fs)
      (start + (FunctionDef.extentAll loop.isSome fs).instrs) none jumps placed ∧
        ∀ x ∈ jumps, x ∈ placed
  | _, _, _, _, _, .nil, _, _, _, _, _, _ => ⟨_, _, .nil (.inr rfl), by simp⟩
  | _, _, _, _, _, .cons hf hfs, p, o, start, hsuits, hown, hplain => by
    obtain ⟨hfOwn, hfsOwn⟩ := Bool.and_eq_true_iff.1 hown
    obtain ⟨jumps, placed, h, hlands⟩ := hf.stretch true o start
      (Stretch.comes_of_same (.inr rfl)) hsuits hfOwn
      fun h => (Bool.and_eq_true_iff.1 (hplain h)).1
    obtain ⟨jumps', placed', h', hlands'⟩ := hfs.stretch o _ hsuits hfsOwn
      fun h => (Bool.and_eq_true_iff.1 (hplain h)).2
    refine ⟨_, _, (h.append (h'.weaken (.inl rfl))).stop ?_, ?_⟩
    · simp only [FunctionDef.extentAll, Extent.instrs_add]
      omega
    · grind

end

end

namespace Stretch

variable {plain : Prop} {n n' i : Nat} {s s' : Option (List Body)} {code : List Instr} {x : Instr}
  {owners : List (List Body)} {jumps placed : List (List Body × Label)}

theorem length_owners (h : Stretch plain n s code owners n' s' jumps placed) :
    owners.length = code.length := by
  induction h with
  | nil _ => rfl
  | cons _ _ _ ih => rw [List.length_cons, List.length_cons, ih]

theorem head_owner {o : List Body} (h : Stretch plain n (some o) code owners n' s' jumps placed)
    (hi : code[0]? = some x) : ∃ o', owners[0]? = some o' ∧ Inwards plain o o' := by
  cases h with
  | nil _ => cases hi
  | cons hbefore _ _ => exact ⟨_, rfl, hbefore o rfl⟩

theorem next (h : Stretch plain n s code owners n' s' jumps placed) (hi : code[i]? = some x)
    (hfalls : x.op.fallsThrough = true) {y : Instr} (hnext : code[i + 1]? = some y) :
    ∃ o o', owners[i]? = some o ∧ owners[i + 1]? = some o' ∧ Inwards plain o o' := by
  induction h generalizing i with
  | nil _ => cases hi
  | @cons _ _ _ o _ _ _ _ _ _ _ _ hrest ih =>
    cases i with
    | zero =>
      cases hi
      rw [Instr.carries, if_pos hfalls] at hrest
      exact ⟨o, (hrest.head_owner hnext).imp fun o' ho' => ⟨rfl, ho'⟩⟩
    | succ i => exact ih hi hnext

theorem mem_jumps (h : Stretch plain n s code owners n' s' jumps placed) (hi : code[i]? = some x)
    {t : Label} (ht : t ∈ x.op.targets) : ∃ o, owners[i]? = some o ∧ (o, t) ∈ jumps := by
  induction h generalizing i with
  | nil _ => cases hi
  | cons _ _ _ ih =>
    cases i with
    | zero =>
      cases hi
      exact ⟨_, rfl, List.mem_append_left _ (List.mem_map_of_mem ht)⟩
    | succ i =>
      obtain ⟨o, ho, hmem⟩ := ih hi
      exact ⟨o, ho, List.mem_append_right _ hmem⟩

theorem exists_of_placed (h : Stretch plain n s code owners n' s' jumps placed) {o : List Body}
    {t : Label} (ht : (o, t) ∈ placed) :
    ∃ (j : Nat) (y : Instr), code[j]? = some y ∧ y.placed? = some t ∧ owners[j]? = some o := by
  induction h with
  | nil _ => cases ht
  | @cons _ _ y _ _ _ _ _ _ _ _ _ _ ih =>
    rcases List.mem_append.1 ht with ht | ht
    · obtain ⟨t', ht', heq⟩ := List.mem_map.1 ht
      cases heq
      exact ⟨0, y, rfl, Option.mem_toList.1 ht', rfl⟩
    · obtain ⟨j, y, hj, hplaced, howner⟩ := ih ht
      exact ⟨j + 1, y, hj, hplaced, howner⟩

theorem entry_owner (h : Stretch plain n s code owners n' s' jumps placed)
    (hi : code[i]? = some x) (hentry : x.op.isEntry = true) :
    ∃ b outer, owners[i]? = some (b :: outer) ∧ b.entry = n + i := by
  induction h generalizing i with
  | nil _ => cases hi
  | cons _ howner _ ih =>
    cases i with
    | zero =>
      cases hi
      obtain ⟨b, outer, rfl, hb⟩ := howner hentry
      exact ⟨b, outer, rfl, hb⟩
    | succ i =>
      rw [← Nat.add_assoc, Nat.add_right_comm]
      exact ih hi

end Stretch

/-- A label that is placed once is placed at one place. -/
theorem Instr.place_unique {code : List Instr} (h : (code.filterMap Instr.placed?).Nodup)
    {i j : Nat} {x y : Instr} {t : Label} (hi : code[i]? = some x) (hx : x.placed? = some t)
    (hj : code[j]? = some y) (hy : y.placed? = some t) : i = j := by
  rw [List.Nodup, List.pairwise_filterMap, List.pairwise_iff_getElem] at h
  obtain ⟨hlti, rfl⟩ := List.getElem?_eq_some_iff.1 hi
  obtain ⟨hltj, rfl⟩ := List.getElem?_eq_some_iff.1 hj
  rcases Nat.lt_trichotomy i j with hlt | rfl | hlt
  · exact absurd rfl (h i j hlti hltj hlt t hx t hy)
  · rfl
  · exact absurd rfl (h j i hltj hlti hlt t hy t hx)

/-- Control goes inwards only, if all labels are placed once and no jump leads to other bodies. -/
theorem Stretch.inwards {plain : Prop} {code : List Instr} {owners : List (List Body)}
    {s s' : Option (List Body)} {n n' : Nat} {jumps placed : List (List Body × Label)}
    (h : Stretch plain n s code owners n' s' jumps placed) (hlands : ∀ x ∈ jumps, x ∈ placed)
    (hnodup : (code.filterMap Instr.placed?).Nodup) {i j : Nat} {o : List Body}
    (ho : owners[i]? = some o) (hreaches : Instr.Reaches code i j) :
    ∃ o', owners[j]? = some o' ∧ Inwards plain o o' := by
  induction hreaches with
  | refl => exact ⟨o, ho, .refl⟩
  | tail _ hlast ih =>
    obtain ⟨o₁, ho₁, hin⟩ := ih
    cases hlast with
    | next hi hfalls hnext =>
      obtain ⟨o₂, o', ho₂, ho', hin'⟩ := h.next hi hfalls hnext
      cases ho₁.symm.trans ho₂
      exact ⟨o', ho', hin.trans hin'⟩
    | jump hi ht hj hplaced =>
      obtain ⟨o₂, ho₂, hmem⟩ := h.mem_jumps hi ht
      obtain ⟨j', y, hj', hplaced', howner⟩ := h.exists_of_placed (hlands _ hmem)
      cases ho₁.symm.trans ho₂
      -- Some place of the label has the owners of the jump, and there is only one place.
      rw [← Instr.place_unique hnodup hj' hplaced' hj hplaced]
      exact ⟨o₁, howner, hin⟩

/-- Wherever the code stands, control gets from its start to what is behind it. -/
def Crosses (code : List Instr) : Prop :=
  ∀ front back : List Instr, back ≠ [] →
    Instr.Reaches (front ++ (code ++ back)) front.length (front.length + code.length)

namespace Crosses

variable {code code' : List Instr} {i : Instr}

theorem nil : Crosses [] :=
  fun _ _ _ => .refl

theorem append (h : Crosses code) (h' : Crosses code') : Crosses (code ++ code') := by
  intro front back hback
  have hfirst := h front (code' ++ back) (by simp [hback])
  have hsecond := h' (front ++ code) back hback
  rw [List.append_assoc, List.length_append] at hsecond
  rw [List.append_assoc, List.length_append, ← Nat.add_assoc]
  exact hfirst.trans hsecond

theorem one (hi : i.op.fallsThrough = true) : Crosses [i] := by
  intro front back hback
  obtain ⟨y, back, rfl⟩ := List.exists_cons_of_ne_nil hback
  refine .single (.next (x := i) (y := y) ?_ hi ?_) <;> simp

theorem cons (hi : i.op.fallsThrough = true) (h : Crosses code) : Crosses (i :: code) :=
  (one hi).append h

/-- Code between a jump and its label, of which nothing is said. -/
theorem skip {t : Label} {l : Nat} (hi : t ∈ i.op.targets) (between : List Instr) :
    Crosses (i :: between ++ [⟨.label t, l⟩]) := by
  intro front back hback
  have hlabel := one (i := ⟨.label t, l⟩) rfl (front ++ i :: between) back hback
  have hjump : Instr.Leads (front ++ (i :: between ++ [⟨.label t, l⟩] ++ back)) front.length
      (front.length + (between.length + 1)) := by
    refine .jump (x := i) (y := ⟨.label t, l⟩) ?_ hi ?_ rfl <;> simp
  refine .head hjump ?_
  simpa [Nat.add_assoc] using hlabel

theorem pushAll (l : Nat) (ks : List Nat) : Crosses (ks.map (.pushes l)) := by
  induction ks with
  | nil => exact nil
  | cons k ks ih => exact cons rfl ih

end Crosses

mutual

theorem Expr.Laid.crosses : ∀ {e n code k n'}, Expr.Laid e n code k n' → Crosses code
  | _, _, _, _, _, .literal | _, _, _, _, _, .var | _, _, _, _, _, .thisObject => .one rfl
  | _, _, _, _, _, .list hes => hes.crosses.append ((Crosses.pushAll _ _).append (.one rfl))
  | _, _, _, _, _, .dict hps => hps.crosses.append (.one rfl)
  | _, _, _, _, _, .binary ha hb | _, _, _, _, _, .index ha hb =>
    ha.crosses.append (hb.crosses.append (.one rfl))
  | _, _, _, _, _, .unary ha | _, _, _, _, _, .property ha => ha.crosses.append (.one rfl)
  | _, _, _, _, _, .paren ha => ha.crosses
  | _, _, _, _, _, .call hes | _, _, _, _, _, .superCall hes => hes.crosses.append (.one rfl)
  | _, _, _, _, _, @Expr.Laid.lambda ps a l x out n code k n' _ => by
    have hskip : Crosses (⟨.jump out, l⟩ :: (⟨.function x, l⟩ :: code ++
        [⟨.giveBack (some (.ofTemp k)), l⟩]) ++ [⟨.label out, l⟩]) := .skip (by simp) _
    simpa using hskip.append (.one (i := ⟨.assign (Lower.temp n') (.scalar (.str x)), l⟩) rfl)
  | _, _, _, _, _, .newObject hes => .cons rfl (hes.crosses.append (.one rfl))
  | _, _, _, _, _, .method ha hes =>
    ha.crosses.append (.cons rfl (hes.crosses.append (.one rfl)))

theorem Expr.LaidEach.crosses : ∀ {es n code ks n'}, Expr.LaidEach es n code ks n' → Crosses code
  | _, _, _, _, _, .nil => .nil
  | _, _, _, _, _, .cons he hes => he.crosses.append hes.crosses

theorem Expr.LaidArguments.crosses : ∀ {l es n code n'}, Expr.LaidArguments l es n code n' →
    Crosses code
  | _, _, _, _, _, .nil => .nil
  | _, _, _, _, _, .cons he hes => he.crosses.append (.cons rfl hes.crosses)

theorem Expr.LaidPairs.crosses : ∀ {l ps n code n'}, Expr.LaidPairs l ps n code n' → Crosses code
  | _, _, _, _, _, .nil => .nil
  | _, _, _, _, _, .cons hkey hvalue hps =>
    hkey.crosses.append (hvalue.crosses.append (.cons rfl (.cons rfl hps.crosses)))

end

mutual

/-- Outside of loops, control gets through the statement: on the way there is nothing that gives
back and no function, which gives back at its end. -/
def Stmt.passable : Stmt → Bool
  | .giveBack _ _ | .function _ => false
  | .ifElse _ body _ _ _ => Stmt.passableAll body
  | _ => true
termination_by structural s => s

def Stmt.passableAll : List Stmt → Bool
  | [] => true
  | s :: ss => s.passable && Stmt.passableAll ss
termination_by structural ss => ss

end

mutual

theorem Stmt.Laid.crosses : ∀ {s n code n'}, Stmt.Laid none s n code n' → s.passable = true →
    Crosses code
  | _, _, _, _, .expr he, _ => he.crosses
  | _, _, _, _, .assign he, _ | _, _, _, _, .prompt he, _ | _, _, _, _, .raiseError he, _ =>
    he.crosses.append (.one rfl)
  | _, _, _, _, .setProperty ha he, _ => ha.crosses.append (he.crosses.append (.one rfl))
  | _, _, _, _, .setIndex ha hi he, _ =>
    ha.crosses.append (hi.crosses.append (he.crosses.append (.one rfl)))
  | _, _, _, _, .print hes, _ => hes.crosses.append (.one rfl)
  | _, _, _, _, .input, _ => .one rfl
  | _, _, _, _, .ifOnly hc hbody _, h =>
    hc.crosses.append (.cons rfl (.cons rfl ((hbody.crosses h).append (.skip (by simp) _))))
  | _, _, _, _, @Stmt.Laid.ifElse _ c body bs b l first out last labels n code k n₁ code' n₂ code''
      n₃ code₃ n₄ hc hbody _ _, h => by
    have hskip : Crosses (⟨.jump out, l⟩ :: (code'' ++ ⟨.label last, l⟩ :: code₃) ++
        [⟨.label out, l⟩]) := .skip (by simp) _
    have hbranch : Crosses [⟨.branch (.ofTemp k) first (labels.headD last), l⟩,
        ⟨.label first, l⟩] := .cons rfl (.one rfl)
    simpa using hc.crosses.append (hbranch.append ((hbody.crosses h).append hskip))
  | _, _, _, _, @Stmt.Laid.whileLoop _ c body l out again inside n code k n₁ code' n₂ hc _, _ => by
    have hskip : Crosses (⟨.branch (.ofTemp k) inside out, l⟩ :: (⟨.label inside, l⟩ :: code' ++
        [⟨.jump again, l⟩]) ++ [⟨.label out, l⟩]) := .skip (by simp) _
    have hhead : Crosses (⟨.label again, l⟩ :: code) := .cons rfl hc.crosses
    simpa using hhead.append hskip
  | _, _, _, _, @Stmt.Laid.forLoop _ x e body l out again inside n code k n₁ code' n₂ he _, _ => by
    have hskip : Crosses (⟨.branch (.ofTemp (n + 1)) inside out, l⟩ :: (⟨.label inside, l⟩ ::
        .pushes l n :: .calls l n₁ "__next__" 1 :: ⟨.copy (.named x) (.temp (Lower.temp n₁)), l⟩ ::
        code' ++ [⟨.jump again, l⟩]) ++ [⟨.label out, l⟩]) := .skip (by simp) _
    have hask : Crosses [.pushes l k, .calls l n "__iter__" 1, ⟨.label again, l⟩, .pushes l n,
        .calls l (n + 1) "__has_next__" 1] :=
      .cons rfl (.cons rfl (.cons rfl (.cons rfl (.one rfl))))
    simpa using he.crosses.append (hask.append hskip)
  | _, _, _, _, .breakLoop, _ | _, _, _, _, .continueLoop, _ => .nil
  | _, _, _, _, .classDef hfs, _ => .skip (by simp) _
  | _, _, _, _, .function _, h | _, _, _, _, .giveBack, h | _, _, _, _, .giveValue _, h => by
    cases h

theorem Stmt.LaidAll.crosses : ∀ {ss n code n'}, Stmt.LaidAll none ss n code n' →
    Stmt.passableAll ss = true → Crosses code
  | _, _, _, _, .nil, _ => .nil
  | _, _, _, _, .cons hs hss, h => by
    obtain ⟨hhead, hrest⟩ := Bool.and_eq_true_iff.1 h
    exact (hs.crosses hhead).append (hss.crosses hrest)

end

theorem Stmt.LaidAll.split : ∀ {loop : Option Loop} {ss ss' : List Stmt} {n n' : Nat}
    {code : List Instr}, Stmt.LaidAll loop (ss ++ ss') n code n' →
    ∃ code₁ code₂ n₁, code = code₁ ++ code₂ ∧ Stmt.LaidAll loop ss n code₁ n₁ ∧
      Stmt.LaidAll loop ss' n₁ code₂ n'
  | _, [], _, n, _, code, h => ⟨[], code, n, rfl, .nil, h⟩
  | _, s :: ss, ss', n, n', _, .cons hs hss => by
    obtain ⟨code₁, code₂, n₁, rfl, h₁, h₂⟩ := hss.split
    exact ⟨_, code₂, n₁, (List.append_assoc _ _ _).symm, .cons hs h₁, h₂⟩

/-- A function at the top of a program is run into. -/
theorem Stmt.LaidAll.entered {ss rest : List Stmt} {f : FunctionDef} {n n' : Nat}
    {code : List Instr} (h : Stmt.LaidAll none (ss ++ .function f :: rest) n code n')
    (hss : Stmt.passableAll ss = true) :
    ∃ i, Instr.IsEntry code i ∧ Instr.Reaches code 0 i := by
  obtain ⟨code₁, code₂, n₁, rfl, h₁, h₂⟩ := h.split
  cases h₂ with
  | cons hs hrest =>
    cases hs with
    | function hf =>
      cases hf with
      | @mk _ x _ _ l _ _ _ _ =>
        refine ⟨code₁.length, ⟨⟨.function x, l⟩, by simp, rfl⟩, ?_⟩
        simpa using h₁.crosses hss [] _ (by simp)

/-- A loop around a class takes the jumps of its methods: control gets from the entry of a method to
the end of the loop. -/
theorem Stmt.LaidAll.left {c : Expr} {x m : String} {parent : Option String} {ps : List String}
    {body : List Stmt} {l l₁ l₂ l₃ n n' : Nat} {code : List Instr}
    (h : Stmt.LaidAll none
      [.whileLoop c [.classDef x parent [.mk m ps (.breakLoop l₁ :: body) l₂] l₃] l] n code n') :
    ∃ i, Instr.IsEntry code i ∧ Instr.Reaches code i (code.length - 1) := by
  cases h with | cons hs hnil =>
  cases hnil
  cases hs with | @whileLoop _ _ _ _ out again inside _ codec k n₁ _ _ hc hbody =>
  cases hbody with | cons hclass hnil =>
  cases hnil
  cases hclass with | classDef hfs =>
  cases hfs with | cons hf hnil =>
  cases hnil
  cases hf with | mk hbody =>
  cases hbody with | cons hbreak hbody =>
  cases hbreak
  have hjumps : Loop.jumps (some ⟨out, again⟩) Loop.out l₁ = [⟨.jump out, l₁⟩] := rfl
  -- Before the entry there are the condition, three instructions of the loop and two of the class.
  refine ⟨codec.length + 5, ⟨⟨.function m, l₂⟩, by simp, rfl⟩, ?_⟩
  refine .head (.next (x := ⟨.function m, l₂⟩) (y := ⟨.jump out, l₁⟩) (by simp) rfl ?_)
    (.single (.jump (x := ⟨.jump out, l₁⟩) (y := ⟨.label out, l⟩) (t := out) ?_ (by simp) ?_ rfl))
  · simp [hjumps]
  · simp [hjumps]
  · rw [← List.getLast?_eq_getElem?, List.append_nil, List.getLast?_append, List.getLast?_append]
    rfl

/-- No function is defined in the statements, be it in a method. -/
def Stmt.functionFree (ss : List Stmt) : Bool :=
  Stmt.everyAll (fun _ => true) Stmt.isNoFunction ss

namespace Stretch

variable {plain : Prop} {code : List Instr} {owners : List (List Body)} {n' i j : Nat}
  {s' : Option (List Body)} {jumps placed : List (List Body × Label)}

theorem inwards_of_start (h : Stretch plain 0 (some []) code owners n' s' jumps placed)
    (hlands : ∀ x ∈ jumps, x ∈ placed) (hnodup : (code.filterMap Instr.placed?).Nodup)
    (hj : j < code.length) (hreaches : Instr.Reaches code 0 j) :
    ∃ o, owners[j]? = some o ∧ Inwards plain [] o := by
  have hfirst : code[0]? = some code[0] := List.getElem?_eq_getElem (by omega)
  obtain ⟨o, ho, hin⟩ := h.head_owner hfirst
  obtain ⟨o', ho', hin'⟩ := h.inwards hlands hnodup ho hreaches
  exact ⟨o', ho', hin.trans hin'⟩

/-- Without functions, no entry of a body is reached from the start, nor from another body. -/
theorem sealed (h : Stretch plain 0 (some []) code owners n' s' jumps placed)
    (hlands : ∀ x ∈ jumps, x ∈ placed) (hnodup : (code.filterMap Instr.placed?).Nodup)
    (hplain : ¬plain) (hi : Instr.IsEntry code i) :
    ¬Instr.Reaches code 0 i ∧ ∀ j, Instr.Reaches code i j → owners[j]? = owners[i]? := by
  obtain ⟨x, hx, hentry⟩ := hi
  obtain ⟨b, outer, howner, -⟩ := h.entry_owner hx hentry
  refine ⟨fun hreaches => ?_, fun j hreaches => ?_⟩
  · have hlength : i < code.length := (List.getElem?_eq_some_iff.1 hx).1
    obtain ⟨o, ho, hin⟩ := h.inwards_of_start hlands hnodup hlength hreaches
    rw [hin.eq_of_not hplain, howner] at ho
    cases ho
  · obtain ⟨o, ho, hin⟩ := h.inwards hlands hnodup howner hreaches
    rw [ho, hin.eq_of_not hplain, howner]

end Stretch

/-- In the code of a program that a parser builds, without attempts, control enters the bodies of
methods and lambdas by calls only, if every function or method in a loop has loops of its own for
its jumps. The only bodies that are run into from the start are those of functions, and from the
entry of a body nothing is reached outside of it, nor in another body inside of it, unless it is
that of a function. So if there are no functions, no entry is reached from the start, and only the
instructions of a body from its entry.

But there is no jump around a function: one at the top of the program is run into, unless a
statement before it gives back. And the loop around a class takes the jumps of its methods. -/
theorem bodies_entered_by_calls_only {lang : Lang} {source : String} {p : Program}
    (hparse : parse lang source = .ok p) (hfree : Stmt.attemptFree p.statements = true) :
    ∃ code k, lower p = (code, none) ∧ Stmt.LaidAll none p.statements 0 code k ∧
      let owners := Stmt.ownersAll false [] 0 p.statements
      (Stmt.containedAll .own .lenient p.statements = true →
        owners.length = code.length ∧
        (∀ j < code.length, Instr.Reaches code 0 j →
          ∃ inner, owners[j]? = some inner ∧ ∀ b ∈ inner, b.skipped = false) ∧
        (∀ i, Instr.IsEntry code i → ∃ b outer, owners[i]? = some (b :: outer) ∧ b.entry = i ∧
          ∀ j, Instr.Reaches code i j →
            ∃ inner, owners[j]? = some (inner ++ b :: outer) ∧ ∀ b' ∈ inner, b'.skipped = false) ∧
        (Stmt.functionFree p.statements = true → ∀ i, Instr.IsEntry code i →
          ¬Instr.Reaches code 0 i ∧ ∀ j, Instr.Reaches code i j → owners[j]? = owners[i]?)) ∧
      (∀ ss f rest, p.statements = ss ++ .function f :: rest → Stmt.passableAll ss = true →
        ∃ i, Instr.IsEntry code i ∧ Instr.Reaches code 0 i) ∧
      ∀ c x parent m ps l₁ body l₂ l₃ l, p.statements =
          [.whileLoop c [.classDef x parent [.mk m ps (.breakLoop l₁ :: body) l₂] l₃] l] →
        owners.getLast? = some [] ∧
          ∃ i, Instr.IsEntry code i ∧ Instr.Reaches code i (code.length - 1) := by
  obtain ⟨σ, hrun, -, hlower, -, -, hlaid⟩ := lowered_of_parse hparse hfree
  refine ⟨_, _, hlower, hlaid, fun hown => ?_, fun ss f rest hss hpassable => ?_, ?_⟩
  · have hnodup : (σ.code.toList.filterMap Instr.placed?).Nodup := labels_nodup hrun
    have hsuits : Spot.lenient.Suits none := fun _ => .inr rfl
    obtain ⟨jumps, placed, h, hout⟩ :=
      hlaid.stretch (Stmt.functionFree p.statements = false) [] 0 hsuits hown
        Bool.of_not_eq_false
    have hlands : ∀ x ∈ jumps, x ∈ placed :=
      fun x hx => (hout x hx).resolve_right fun hloop => List.not_mem_nil hloop.2.2
    refine ⟨h.length_owners, fun j hj hreaches => ?_, fun i hi => ?_, fun hfunctions i hi => ?_⟩
    · obtain ⟨o, ho, inner, rfl, hinner⟩ := h.inwards_of_start hlands hnodup hj hreaches
      exact ⟨inner, by simpa using ho, fun b hb => (hinner b hb).1⟩
    · obtain ⟨x, hx, hentry⟩ := hi
      obtain ⟨b, outer, howner, hb⟩ := h.entry_owner hx hentry
      refine ⟨b, outer, howner, by simpa using hb, fun j hreaches => ?_⟩
      obtain ⟨o, ho, inner, rfl, hinner⟩ := h.inwards hlands hnodup howner hreaches
      exact ⟨inner, ho, fun b' hb' => (hinner b' hb').1⟩
    · exact h.sealed hlands hnodup (by simp [hfunctions]) hi
  · rw [hss] at hlaid
    exact hlaid.entered hpassable
  · intro c x parent m ps l₁ body l₂ l₃ l hloop
    rw [hloop] at hlaid ⊢
    refine ⟨?_, hlaid.left⟩
    rw [Stmt.ownersAll, Stmt.ownersAll, List.append_nil, Stmt.owners, List.getLast?_append,
      List.getLast?_append]
    rfl

/-- A method with a lambda, in a class in a loop; a function behind a statement; and a method with a
jump out of the loop around its class. -/
theorem bodies_entered_by_calls_only_method :
    let p : Program :=
      { statements :=
          [.whileLoop (.literal .number (.int 1) 1) [.classDef "A" none
            [.mk "m" [] [.giveBack (some (.lambda ["x"] (.var "x" 1) 1)) 1] 1] 1] 1] }
    let q : Program :=
      { statements :=
          [.print [.literal .number (.int 1) 1] 1,
            .function (.mk "f" [] [.print [.literal .number (.int 2) 2] 2] 2)] }
    let r : Program :=
      { statements :=
          [.whileLoop (.literal .number (.int 1) 1) [.classDef "A" none
            [.mk "m" [] [.breakLoop 1] 1] 1] 1] }
    (parse .both "jab_tak 1 \x7b class A \x7b kaam m() \x7b wapas lambada x: x \x7d \x7d \x7d" =
        .ok p ∧
      ∃ code, lower p = (code, none) ∧
        ∀ i, Instr.IsEntry code i → ¬Instr.Reaches code 0 i) ∧
    (parse .both "likho(1)\nkaam f() \x7b likho(2) \x7d" = .ok q ∧
      ∃ code, lower q = (code, none) ∧ ∃ i, Instr.IsEntry code i ∧ Instr.Reaches code 0 i) ∧
    (parse .both "jab_tak 1 \x7b class A \x7b kaam m() \x7b ruk \x7d \x7d \x7d" = .ok r ∧
      ∃ code, lower r = (code, none) ∧
        ∃ i, Instr.IsEntry code i ∧ Instr.Reaches code i (code.length - 1)) := by
  intro p q r
  have hp : parse .both
      "jab_tak 1 \x7b class A \x7b kaam m() \x7b wapas lambada x: x \x7d \x7d \x7d" = .ok p := by
    cbv
  have hq : parse .both "likho(1)\nkaam f() \x7b likho(2) \x7d" = .ok q := by cbv
  have hr : parse .both "jab_tak 1 \x7b class A \x7b kaam m() \x7b ruk \x7d \x7d \x7d" = .ok r := by
    cbv
  obtain ⟨code, k, hlower, -, hinwards, -⟩ := bodies_entered_by_calls_only hp (by decide)
  obtain ⟨code', k', hlower', -, -, hentered, -⟩ := bodies_entered_by_calls_only hq (by decide)
  obtain ⟨code'', k'', hlower'', -, -, -, hleft⟩ := bodies_entered_by_calls_only hr (by decide)
  obtain ⟨-, -, -, hsealed⟩ := hinwards (by decide)
  refine ⟨⟨hp, code, hlower, fun i hi => (hsealed (by decide) i hi).1⟩, ⟨hq, code', hlower', ?_⟩,
    hr, code'', hlower'', ?_⟩
  · exact hentered [.print [.literal .number (.int 1) 1] 1] _ [] rfl rfl
  · exact (hleft _ _ _ _ _ _ _ _ _ _ rfl).2

end Bhasha
