import Bhasha.Proofs.CodeLayout

namespace Bhasha

/-- How many temporaries and instructions a piece of code has. -/
structure Extent where
  temps : Nat
  instrs : Nat

namespace Extent

instance : Add Extent :=
  ⟨fun a b => ⟨a.temps + b.temps, a.instrs + b.instrs⟩⟩

@[simp]
theorem temps_add (a b : Extent) : (a + b).temps = a.temps + b.temps :=
  rfl

@[simp]
theorem instrs_add (a b : Extent) : (a + b).instrs = a.instrs + b.instrs :=
  rfl

end Extent

mutual

def Expr.extent : Expr → Extent
  | .literal _ _ _ | .var _ _ | .thisObject _ => ⟨1, 1⟩
  | .list es _ | .call _ es _ | .superCall _ es _ => Expr.extentAll es + ⟨1, es.length + 1⟩
  | .dict ps _ => Expr.extentPairs ps + ⟨1, ps.length * 2 + 1⟩
  | .binary _ a b _ | .index a b _ => a.extent + b.extent + ⟨1, 1⟩
  | .unary _ a _ | .property a _ _ => a.extent + ⟨1, 1⟩
  | .paren a _ => a.extent
  | .lambda _ a _ => a.extent + ⟨1, 5⟩
  | .newObject _ es _ => Expr.extentAll es + ⟨2, es.length + 2⟩
  | .method a _ es _ => a.extent + Expr.extentAll es + ⟨1, es.length + 2⟩
  | .foreign _ _ _ => ⟨0, 0⟩
termination_by structural e => e

/-- Of the expressions alone, without what is done with their values. -/
def Expr.extentAll : List Expr → Extent
  | [] => ⟨0, 0⟩
  | e :: es => e.extent + Expr.extentAll es
termination_by structural es => es

def Expr.extentPairs : List (Expr × Expr) → Extent
  | [] => ⟨0, 0⟩
  | (k, v) :: ps => k.extent + v.extent + Expr.extentPairs ps
termination_by structural ps => ps

end

/-- The temporary for the value of the expression, if its temporaries are made from the `n`-th on.
It is the last one made, but for an object, which is there before its constructor is called. -/
def Expr.slot (n : Nat) : Expr → Nat
  | .paren a _ => a.slot n
  | .newObject _ _ _ => n
  | e => n + e.extent.temps - 1

mutual

/-- Of a statement that stands inside of a loop, or not; outside of loops a jump has no code. -/
def Stmt.extent (inside : Bool) : Stmt → Extent
  | .expr e => e.extent
  | .assign _ e _ | .raiseError e _ => e.extent + ⟨0, 1⟩
  | .setProperty a _ e _ => a.extent + e.extent + ⟨0, 1⟩
  | .setIndex a i e _ => a.extent + i.extent + e.extent + ⟨0, 1⟩
  | .print es _ => Expr.extentAll es + ⟨0, 1⟩
  | .input _ none _ | .giveBack none _ => ⟨0, 1⟩
  | .input _ (some e) _ | .giveBack (some e) _ => e.extent + ⟨0, 1⟩
  | .ifElse c body bs otherwise _ =>
    c.extent + Stmt.extentAll inside body + Branch.extentAll inside bs +
      Stmt.extentElse inside otherwise + ⟨0, 4⟩
  | .whileLoop c body _ => c.extent + Stmt.extentAll true body + ⟨0, 5⟩
  | .forLoop _ e body _ => e.extent + Stmt.extentAll true body + ⟨3, 12⟩
  | .breakLoop _ | .continueLoop _ => ⟨0, inside.toNat⟩
  | .function f => f.extent inside
  | .classDef _ _ fs _ => FunctionDef.extentAll inside fs + ⟨0, 3⟩
  | .attempt _ _ _ _ _ | .importFile _ _ | .foreign _ _ _ => ⟨0, 0⟩
termination_by structural s => s

def Stmt.extentAll (inside : Bool) : List Stmt → Extent
  | [] => ⟨0, 0⟩
  | s :: ss => s.extent inside + Stmt.extentAll inside ss
termination_by structural ss => ss

def Stmt.extentElse (inside : Bool) : Option (List Stmt) → Extent
  | none => ⟨0, 0⟩
  | some ss => Stmt.extentAll inside ss + ⟨0, 1⟩
termination_by structural ss? => ss?

def Branch.extentAll (inside : Bool) : List Branch → Extent
  | [] => ⟨0, 0⟩
  | .mk c body :: bs =>
    c.extent + Stmt.extentAll inside body + Branch.extentAll inside bs + ⟨0, 4⟩
termination_by structural bs => bs

def FunctionDef.extent (inside : Bool) : FunctionDef → Extent
  | .mk _ _ body _ => Stmt.extentAll inside body + ⟨0, 2⟩
termination_by structural f => f

def FunctionDef.extentAll (inside : Bool) : List FunctionDef → Extent
  | [] => ⟨0, 0⟩
  | f :: fs => f.extent inside + FunctionDef.extentAll inside fs
termination_by structural fs => fs

end

mutual

theorem Expr.Laid.extent : ∀ {e n code k n'}, Expr.Laid e n code k n' →
    k = e.slot n ∧ n' = n + e.extent.temps ∧ code.length = e.extent.instrs
  | _, _, _, _, _, .literal | _, _, _, _, _, .var | _, _, _, _, _, .thisObject =>
    ⟨rfl, rfl, rfl⟩
  | _, _, _, _, _, .list hes => by
    obtain ⟨hks, hn, hlength⟩ := hes.extent
    simp only [Expr.slot, Expr.extent, Extent.temps_add, Extent.instrs_add, List.length_append,
      List.length_map, List.length_singleton]
    omega
  | _, _, _, _, _, .dict hps => by
    obtain ⟨hn, hlength⟩ := hps.extent
    simp only [Expr.slot, Expr.extent, Extent.temps_add, Extent.instrs_add, List.length_append,
      List.length_singleton]
    omega
  | _, _, _, _, _, .binary ha hb | _, _, _, _, _, .index ha hb => by
    obtain ⟨-, hn, hlength⟩ := ha.extent
    obtain ⟨-, hn', hlength'⟩ := hb.extent
    simp only [Expr.slot, Expr.extent, Extent.temps_add, Extent.instrs_add, List.length_append,
      List.length_singleton]
    omega
  | _, _, _, _, _, .unary ha | _, _, _, _, _, .property ha => by
    obtain ⟨-, hn, hlength⟩ := ha.extent
    simp only [Expr.slot, Expr.extent, Extent.temps_add, Extent.instrs_add, List.length_append,
      List.length_singleton]
    omega
  | _, _, _, _, _, .paren ha => ha.extent
  | _, _, _, _, _, .call hes | _, _, _, _, _, .superCall hes => by
    obtain ⟨hn, hlength⟩ := hes.extent
    simp only [Expr.slot, Expr.extent, Extent.temps_add, Extent.instrs_add, List.length_append,
      List.length_singleton]
    omega
  | _, _, _, _, _, .lambda ha => by
    obtain ⟨-, hn, hlength⟩ := ha.extent
    simp only [Expr.slot, Expr.extent, Extent.temps_add, Extent.instrs_add, List.length_append,
      List.length_cons, List.length_nil]
    omega
  | _, _, _, _, _, .newObject hes => by
    obtain ⟨hn, hlength⟩ := hes.extent
    refine ⟨rfl, ?_⟩
    simp only [Expr.extent, Extent.temps_add, Extent.instrs_add, List.length_append,
      List.length_cons, List.length_nil]
    omega
  | _, _, _, _, _, .method ha hes => by
    obtain ⟨-, hn, hlength⟩ := ha.extent
    obtain ⟨hn', hlength'⟩ := hes.extent
    simp only [Expr.slot, Expr.extent, Extent.temps_add, Extent.instrs_add, List.length_append,
      List.length_cons, List.length_nil]
    omega

theorem Expr.LaidEach.extent : ∀ {es n code ks n'}, Expr.LaidEach es n code ks n' →
    ks.length = es.length ∧ n' = n + (Expr.extentAll es).temps ∧
      code.length = (Expr.extentAll es).instrs
  | _, _, _, _, _, .nil => ⟨rfl, rfl, rfl⟩
  | _, _, _, _, _, .cons he hes => by
    obtain ⟨-, hn, hlength⟩ := he.extent
    obtain ⟨hks, hn', hlength'⟩ := hes.extent
    simp only [Expr.extentAll, Extent.temps_add, Extent.instrs_add, List.length_append,
      List.length_cons]
    omega

theorem Expr.LaidArguments.extent : ∀ {l es n code n'}, Expr.LaidArguments l es n code n' →
    n' = n + (Expr.extentAll es).temps ∧
      code.length = (Expr.extentAll es).instrs + es.length
  | _, _, _, _, _, .nil => ⟨rfl, rfl⟩
  | _, _, _, _, _, .cons he hes => by
    obtain ⟨-, hn, hlength⟩ := he.extent
    obtain ⟨hn', hlength'⟩ := hes.extent
    simp only [Expr.extentAll, Extent.temps_add, Extent.instrs_add, List.length_append,
      List.length_cons]
    omega

theorem Expr.LaidPairs.extent : ∀ {l ps n code n'}, Expr.LaidPairs l ps n code n' →
    n' = n + (Expr.extentPairs ps).temps ∧
      code.length = (Expr.extentPairs ps).instrs + ps.length * 2
  | _, _, _, _, _, .nil => ⟨rfl, rfl⟩
  | _, _, _, _, _, .cons hkey hvalue hps => by
    obtain ⟨-, hn, hlength⟩ := hkey.extent
    obtain ⟨-, hn', hlength'⟩ := hvalue.extent
    obtain ⟨hn'', hlength''⟩ := hps.extent
    simp only [Expr.extentPairs, Extent.temps_add, Extent.instrs_add, List.length_append,
      List.length_cons]
    omega

end

theorem Loop.length_jumps (loop : Option Loop) (target : Loop → Label) (line : Nat) :
    (Loop.jumps loop target line).length = loop.isSome.toNat := by
  cases loop <;> rfl

mutual

theorem Stmt.Laid.extent : ∀ {loop s n code n'}, Stmt.Laid loop s n code n' →
    n' = n + (s.extent loop.isSome).temps ∧ code.length = (s.extent loop.isSome).instrs
  | _, _, _, _, _, .expr he => he.extent.2
  | _, _, _, _, _, .assign he | _, _, _, _, _, .prompt he | _, _, _, _, _, .giveValue he
  | _, _, _, _, _, .raiseError he => by
    obtain ⟨-, hn, hlength⟩ := he.extent
    simp only [Stmt.extent, Extent.temps_add, Extent.instrs_add, List.length_append,
      List.length_singleton]
    omega
  | _, _, _, _, _, .setProperty ha he => by
    obtain ⟨-, hn, hlength⟩ := ha.extent
    obtain ⟨-, hn', hlength'⟩ := he.extent
    simp only [Stmt.extent, Extent.temps_add, Extent.instrs_add, List.length_append,
      List.length_singleton]
    omega
  | _, _, _, _, _, .setIndex ha hi he => by
    obtain ⟨-, hn, hlength⟩ := ha.extent
    obtain ⟨-, hn', hlength'⟩ := hi.extent
    obtain ⟨-, hn'', hlength''⟩ := he.extent
    simp only [Stmt.extent, Extent.temps_add, Extent.instrs_add, List.length_append,
      List.length_singleton]
    omega
  | _, _, _, _, _, .print hes => by
    obtain ⟨-, hn, hlength⟩ := hes.extent
    simp only [Stmt.extent, Extent.temps_add, Extent.instrs_add, List.length_append,
      List.length_singleton]
    omega
  | _, _, _, _, _, .input | _, _, _, _, _, .giveBack => ⟨rfl, rfl⟩
  | _, _, _, _, _, .ifOnly hc hbody hbs => by
    obtain ⟨-, hn, hlength⟩ := hc.extent
    obtain ⟨hn', hlength'⟩ := hbody.extent
    obtain ⟨hn'', hlength''⟩ := hbs.extent
    simp only [Stmt.extent, Stmt.extentElse, Extent.temps_add, Extent.instrs_add,
      List.length_append, List.length_cons, List.length_nil]
    omega
  | _, _, _, _, _, .ifElse hc hbody hbs hb => by
    obtain ⟨-, hn, hlength⟩ := hc.extent
    obtain ⟨hn', hlength'⟩ := hbody.extent
    obtain ⟨hn'', hlength''⟩ := hbs.extent
    obtain ⟨hn₃, hlength₃⟩ := hb.extent
    simp only [Stmt.extent, Stmt.extentElse, Extent.temps_add, Extent.instrs_add,
      List.length_append, List.length_cons, List.length_nil]
    omega
  | _, _, _, _, _, .whileLoop hc hbody | _, _, _, _, _, .forLoop hc hbody => by
    obtain ⟨-, hn, hlength⟩ := hc.extent
    obtain ⟨hn', hlength'⟩ := hbody.extent
    rw [Option.isSome_some] at hn' hlength'
    simp only [Stmt.extent, Extent.temps_add, Extent.instrs_add, List.length_append,
      List.length_cons, List.length_nil]
    omega
  | _, _, _, _, _, .breakLoop | _, _, _, _, _, .continueLoop =>
    ⟨rfl, Loop.length_jumps _ _ _⟩
  | _, _, _, _, _, .function hf => hf.extent
  | _, _, _, _, _, .classDef hfs => by
    obtain ⟨hn, hlength⟩ := hfs.extent
    simp only [Stmt.extent, Extent.temps_add, Extent.instrs_add, List.length_append,
      List.length_cons, List.length_nil]
    omega

theorem Stmt.LaidAll.extent : ∀ {loop ss n code n'}, Stmt.LaidAll loop ss n code n' →
    n' = n + (Stmt.extentAll loop.isSome ss).temps ∧
      code.length = (Stmt.extentAll loop.isSome ss).instrs
  | _, _, _, _, _, .nil => ⟨rfl, rfl⟩
  | _, _, _, _, _, .cons hs hss => by
    obtain ⟨hn, hlength⟩ := hs.extent
    obtain ⟨hn', hlength'⟩ := hss.extent
    simp only [Stmt.extentAll, Extent.temps_add, Extent.instrs_add, List.length_append]
    omega

theorem Branch.LaidAll.extent : ∀ {loop l out last labels bs n code n'},
    Branch.LaidAll loop l out last labels bs n code n' →
    n' = n + (Branch.extentAll loop.isSome bs).temps ∧
      code.length = (Branch.extentAll loop.isSome bs).instrs
  | _, _, _, _, _, _, _, _, _, .nil => ⟨rfl, rfl⟩
  | _, _, _, _, _, _, _, _, _, .cons hc hbody hbs => by
    obtain ⟨-, hn, hlength⟩ := hc.extent
    obtain ⟨hn', hlength'⟩ := hbody.extent
    obtain ⟨hn'', hlength''⟩ := hbs.extent
    simp only [Branch.extentAll, Extent.temps_add, Extent.instrs_add, List.length_append,
      List.length_cons]
    omega

theorem FunctionDef.Laid.extent : ∀ {loop f n code n'}, FunctionDef.Laid loop f n code n' →
    n' = n + (f.extent loop.isSome).temps ∧ code.length = (f.extent loop.isSome).instrs
  | _, _, _, _, _, .mk hbody => by
    obtain ⟨hn, hlength⟩ := hbody.extent
    simp only [FunctionDef.extent, Extent.temps_add, Extent.instrs_add, List.length_append,
      List.length_cons, List.length_nil]
    omega

theorem FunctionDef.LaidAll.extent : ∀ {loop fs n code n'},
    FunctionDef.LaidAll loop fs n code n' →
    n' = n + (FunctionDef.extentAll loop.isSome fs).temps ∧
      code.length = (FunctionDef.extentAll loop.isSome fs).instrs
  | _, _, _, _, _, .nil => ⟨rfl, rfl⟩
  | _, _, _, _, _, .cons hf hfs => by
    obtain ⟨hn, hlength⟩ := hf.extent
    obtain ⟨hn', hlength'⟩ := hfs.extent
    simp only [FunctionDef.extentAll, Extent.temps_add, Extent.instrs_add, List.length_append]
    omega

end

end Bhasha
