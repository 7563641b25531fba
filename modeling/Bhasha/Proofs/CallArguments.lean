import Mathlib
import Bhasha.Proofs.CodeSize

namespace Bhasha

open Lower (temp)

/-- Goes through the code from its start to its end, where a push puts an operand on the stack and a
call takes as many as it says. Gives the calls with what they took, the deepest first, and what is
left on the stack, the topmost first. A call that finds too few operands has no result. -/
def Instr.scan (stack : List Operand) :
    List Instr → Option (List (String × List Operand) × List Operand)
  | [] => some ([], stack)
  | i :: code =>
    match i.op with
    | .param v => scan (v :: stack) code
    | .call _ f n =>
      if n ≤ stack.length then
        (scan (stack.drop n) code).map fun (calls, left) =>
          ((f, (stack.take n).reverse) :: calls, left)
      else none
    | _ => scan stack code

/-- Neither pushes nor calls. -/
def Operation.isInert : Operation → Bool
  | .param _ | .call _ _ _ => false
  | _ => true

namespace Instr

variable {stack left left' : List Operand} {code code' : List Instr} {i : Instr}
  {calls calls' : List (String × List Operand)}

theorem scan_inert (h : i.op.isInert = true) : scan stack (i :: code) = scan stack code := by
  rw [scan]
  split
  · next hop =>
    rw [hop] at h
    cases h
  · next hop =>
    rw [hop] at h
    cases h
  · rfl

theorem scan_append (h : scan stack code = some (calls, left))
    (h' : scan left code' = some (calls', left')) :
    scan stack (code ++ code') = some (calls ++ calls', left') := by
  fun_induction scan stack code generalizing calls with
  | case1 stack =>
    cases h
    exact h'
  | case2 stack i code v hop ih =>
    rw [List.cons_append, scan, hop]
    exact ih h
  | case3 stack i code t f n hop hn ih =>
    obtain ⟨⟨rest, left₁⟩, hrest, heq⟩ := Option.map_eq_some_iff.1 h
    cases heq
    rw [List.cons_append, scan, hop]
    simp [hn, ih hrest]
  | case4 => cases h
  | case5 stack i code hparam hcall ih =>
    have hinert : i.op.isInert = true := by
      cases hop : i.op <;> first | rfl | exact (hparam _ hop).elim | exact (hcall _ _ _ hop).elim
    rw [List.cons_append, scan_inert hinert]
    exact ih h

end Instr

/-- What is passed to a call. -/
inductive Argument
  /-- The value of an expression, whose temporaries are made from the `n`-th on. -/
  | value (e : Expr) (n : Nat)
  /-- The iterator of a loop, which is in the `n`-th temporary. -/
  | iterator (n : Nat)

namespace Argument

def slot : Argument → Nat
  | value e n => e.slot n
  | iterator n => n

def operand (a : Argument) : Operand :=
  .ofTemp a.slot

/-- The code computes the argument into its temporary. -/
def HeldIn (code : List Instr) : Argument → Prop
  | value e n => ∃ piece, piece <:+: code ∧ e.Laid n piece (e.slot n) (n + e.extent.temps)
  | iterator n => ∃ i ∈ code, i.op = .call (some (temp n)) "__iter__" 1

variable {code code' : List Instr} {a : Argument}

theorem HeldIn.mono (h : a.HeldIn code) (hcode : code <:+: code') : a.HeldIn code' := by
  cases a with
  | value e n =>
    obtain ⟨piece, hpiece, hlaid⟩ := h
    exact ⟨piece, hpiece.trans hcode, hlaid⟩
  | iterator n =>
    obtain ⟨i, hi, hop⟩ := h
    exact ⟨i, hcode.subset hi, hop⟩

theorem HeldIn.append_right (h : a.HeldIn code) : a.HeldIn (code ++ code') :=
  h.mono (List.prefix_append code code').isInfix

theorem HeldIn.append_left (h : a.HeldIn code') : a.HeldIn (code ++ code') :=
  h.mono (List.suffix_append code code').isInfix

end Argument

theorem Expr.Laid.held {e : Expr} {n k n' : Nat} {code : List Instr} (h : e.Laid n code k n') :
    (Argument.value e n).HeldIn code := by
  obtain ⟨rfl, rfl, -⟩ := h.extent
  exact ⟨code, List.infix_rfl, h⟩

/-- A call in the code, with the arguments it is for. -/
structure Site where
  function : String
  arguments : List Argument

/-- The call and the operands that it has to take. -/
def Site.taken (s : Site) : String × List Operand :=
  (s.function, s.arguments.map Argument.operand)

/-- On any stack the code makes the calls `sites`, each of which takes its own arguments, and leaves
`left` on top of the stack. All these arguments are computed in the code. -/
structure Passes (code : List Instr) (sites : List Site) (left : List Argument) : Prop where
  scan : ∀ stack, Instr.scan stack code =
    some (sites.map Site.taken, (left.map Argument.operand).reverse ++ stack)
  held : ∀ s ∈ sites, ∀ a ∈ s.arguments, a.HeldIn code
  waiting : ∀ a ∈ left, a.HeldIn code

namespace Passes

variable {code code' : List Instr} {sites sites' : List Site} {left left' : List Argument}

theorem nil : Passes [] [] [] :=
  ⟨fun _ => rfl, by simp, by simp⟩

theorem append (h : Passes code sites left) (h' : Passes code' sites' left') :
    Passes (code ++ code') (sites ++ sites') (left ++ left') where
  scan stack := by
    rw [Instr.scan_append (h.scan stack) (h'.scan _)]
    simp
  held s hs a ha := by
    rcases List.mem_append.1 hs with hs | hs
    · exact (h.held s hs a ha).append_right
    · exact (h'.held s hs a ha).append_left
  waiting a ha := by
    rcases List.mem_append.1 ha with ha | ha
    · exact (h.waiting a ha).append_right
    · exact (h'.waiting a ha).append_left

theorem inert {i : Instr} (h : i.op.isInert = true) : Passes [i] [] [] :=
  ⟨fun _ => Instr.scan_inert h, by simp, by simp⟩

theorem cons {i : Instr} (hi : i.op.isInert = true) (h : Passes code sites left) :
    Passes (i :: code) sites left :=
  (inert hi).append h

theorem behind (h : Passes code sites left) (hinert : (code'.all fun i => i.op.isInert) = true) :
    Passes (code ++ code') sites left := by
  induction code' generalizing code with
  | nil => simpa using h
  | cons i code' ih =>
    obtain ⟨hi, hcode'⟩ := Bool.and_eq_true_iff.1 hinert
    have hone := h.append (inert hi)
    rw [List.append_nil, List.append_nil] at hone
    simpa using ih hone hcode'

/-- A push of what the code has computed. -/
theorem push {a : Argument} {k : Nat} (line : Nat) (h : Passes code sites left)
    (ha : a.HeldIn code) (hk : k = a.slot) :
    Passes (code ++ [.pushes line k]) sites (left ++ [a]) where
  scan stack := by
    subst hk
    have hpush : Instr.scan ((left.map Argument.operand).reverse ++ stack) [.pushes line a.slot] =
        some ([], a.operand :: ((left.map Argument.operand).reverse ++ stack)) := rfl
    rw [Instr.scan_append (h.scan stack) hpush]
    simp
  held s hs b hb := (h.held s hs b hb).append_right
  waiting b hb := by
    rcases List.mem_append.1 hb with hb | hb
    · exact (h.waiting b hb).append_right
    · rw [List.mem_singleton.1 hb]
      exact ha.append_right

theorem pushAll {as : List Argument} (line : Nat) (h : Passes code sites left)
    (has : ∀ a ∈ as, a.HeldIn code) :
    Passes (code ++ (as.map Argument.slot).map (.pushes line)) sites (left ++ as) := by
  induction as generalizing code left with
  | nil => simpa using h
  | cons a as ih =>
    obtain ⟨ha, has⟩ := List.forall_mem_cons.1 has
    have hrest := ih (h.push line ha rfl) fun b hb => (has b hb).append_right
    simpa using hrest

/-- A call takes all that is left, and so exactly that. -/
theorem call {line k n : Nat} {f : String} (h : Passes code sites left) (hn : n = left.length) :
    Passes (code ++ [.calls line k f n]) (sites ++ [⟨f, left⟩]) [] where
  scan stack := by
    subst hn
    have hcall : Instr.scan ((left.map Argument.operand).reverse ++ stack)
        [.calls line k f left.length] = some ([Site.taken ⟨f, left⟩], stack) := by
      simp [Instr.scan, Site.taken]
    rw [Instr.scan_append (h.scan stack) hcall]
    simp
  held s hs b hb := by
    rcases List.mem_append.1 hs with hs | hs
    · exact (h.held s hs b hb).append_right
    · rw [List.mem_singleton.1 hs] at hb
      exact (h.waiting b hb).append_right
  waiting := by simp

end Passes

/-- The values of the expressions as arguments, in their order. -/
def Expr.arguments (n : Nat) : List Expr → List Argument
  | [] => []
  | e :: es => .value e n :: Expr.arguments (n + e.extent.temps) es

theorem Expr.length_arguments (n : Nat) (es : List Expr) :
    (Expr.arguments n es).length = es.length := by
  induction es generalizing n with
  | nil => rfl
  | cons e es ih => rw [Expr.arguments, List.length_cons, ih, List.length_cons]

/-- The keys and values of a dictionary, in their order. -/
def Expr.flatPairs (ps : List (Expr × Expr)) : List Expr :=
  ps.flatMap fun (k, v) => [k, v]

theorem Expr.length_flatPairs (ps : List (Expr × Expr)) :
    (Expr.flatPairs ps).length = ps.length * 2 := by
  simp [Expr.flatPairs]

mutual

/-- The calls in the code of an expression, if its temporaries are made from the `n`-th on. The
arguments are those of the node that makes the call; a method gets its object first. -/
def Expr.sites (n : Nat) : Expr → List Site
  | .literal _ _ _ | .var _ _ | .thisObject _ | .foreign _ _ _ => []
  | .list es _ => Expr.sitesAll n es ++ [⟨"__list__", Expr.arguments n es⟩]
  | .dict ps _ => Expr.sitesPairs n ps ++ [⟨"__dict__", Expr.arguments n (Expr.flatPairs ps)⟩]
  | .binary _ a b _ | .index a b _ => a.sites n ++ b.sites (n + a.extent.temps)
  | .unary _ a _ | .paren a _ | .lambda _ a _ | .property a _ _ => a.sites n
  | .call x es _ => Expr.sitesAll n es ++ [⟨x, Expr.arguments n es⟩]
  | .newObject c es _ =>
    Expr.sitesAll (n + 1) es ++ [⟨c ++ ".__init__", Expr.arguments (n + 1) es⟩]
  | .method a x es _ =>
    a.sites n ++ Expr.sitesAll (n + a.extent.temps) es ++ [⟨x, Expr.arguments n (a :: es)⟩]
  | .superCall x es _ => Expr.sitesAll n es ++ [⟨"__super__." ++ x, Expr.arguments n es⟩]
termination_by structural e => e

def Expr.sitesAll (n : Nat) : List Expr → List Site
  | [] => []
  | e :: es => e.sites n ++ Expr.sitesAll (n + e.extent.temps) es
termination_by structural es => es

def Expr.sitesPairs (n : Nat) : List (Expr × Expr) → List Site
  | [] => []
  | (k, v) :: ps =>
    k.sites n ++ (v.sites (n + k.extent.temps) ++
      Expr.sitesPairs (n + k.extent.temps + v.extent.temps) ps)
termination_by structural ps => ps

end

mutual

theorem Expr.Laid.passes : ∀ {e n code k n'}, Expr.Laid e n code k n' → Passes code (e.sites n) []
  | _, _, _, _, _, .literal | _, _, _, _, _, .var | _, _, _, _, _, .thisObject => .inert rfl
  | _, _, _, _, _, .list hes => by
    obtain ⟨hpasses, rfl, hheld⟩ := hes.passes
    rw [Expr.sites, ← List.append_assoc]
    exact (hpasses.pushAll _ hheld).call (Expr.length_arguments _ _).symm
  | _, _, _, _, _, .dict hps => by
    rw [Expr.sites]
    exact hps.passes.call (by rw [Expr.length_arguments, Expr.length_flatPairs])
  | _, _, _, _, _, .binary ha hb | _, _, _, _, _, .index ha hb => by
    obtain ⟨-, rfl, -⟩ := ha.extent
    rw [Expr.sites, ← List.append_assoc]
    exact (ha.passes.append hb.passes).behind rfl
  | _, _, _, _, _, .unary ha | _, _, _, _, _, .property ha => ha.passes.behind rfl
  | _, _, _, _, _, .paren ha => ha.passes
  | _, _, _, _, _, .call hes | _, _, _, _, _, .superCall hes =>
    hes.passes.call (Expr.length_arguments _ _).symm
  | _, _, _, _, _, .lambda ha => .cons rfl (.cons rfl (ha.passes.behind rfl))
  | _, _, _, _, _, .newObject hes =>
    .cons rfl (hes.passes.call (Expr.length_arguments _ _).symm)
  | _, _, _, _, _, .method ha hes => by
    obtain ⟨hk, rfl, -⟩ := ha.extent
    rw [Expr.sites, ← List.append_assoc]
    refine Passes.call ?_ (Expr.length_arguments _ (_ :: _)).symm
    simpa [Expr.arguments] using (ha.passes.push _ ha.held hk).append hes.passes

theorem Expr.LaidEach.passes : ∀ {es n code ks n'}, Expr.LaidEach es n code ks n' →
    Passes code (Expr.sitesAll n es) [] ∧ ks = (Expr.arguments n es).map Argument.slot ∧
      ∀ a ∈ Expr.arguments n es, a.HeldIn code
  | _, _, _, _, _, .nil => ⟨.nil, rfl, by simp [Expr.arguments]⟩
  | _, _, _, _, _, .cons he hes => by
    obtain ⟨rfl, rfl, -⟩ := he.extent
    obtain ⟨hpasses, rfl, hheld⟩ := hes.passes
    refine ⟨he.passes.append hpasses, rfl, ?_⟩
    rw [Expr.arguments, List.forall_mem_cons]
    exact ⟨he.held.append_right, fun a ha => (hheld a ha).append_left⟩

theorem Expr.LaidArguments.passes : ∀ {l es n code n'}, Expr.LaidArguments l es n code n' →
    Passes code (Expr.sitesAll n es) (Expr.arguments n es)
  | _, _, _, _, _, .nil => .nil
  | l, _, _, _, _, .cons he hes => by
    obtain ⟨hk, rfl, -⟩ := he.extent
    simpa [Expr.sitesAll, Expr.arguments] using (he.passes.push l he.held hk).append hes.passes

theorem Expr.LaidPairs.passes : ∀ {l ps n code n'}, Expr.LaidPairs l ps n code n' →
    Passes code (Expr.sitesPairs n ps) (Expr.arguments n (Expr.flatPairs ps))
  | _, _, _, _, _, .nil => .nil
  | l, _, _, _, _, .cons hkey hvalue hps => by
    obtain ⟨hk, rfl, -⟩ := hkey.extent
    obtain ⟨hk', rfl, -⟩ := hvalue.extent
    have hboth := hkey.passes.append hvalue.passes
    have hpushed := (hboth.push l hkey.held.append_right hk).push l
      hvalue.held.append_left.append_right hk'
    simpa [Expr.sitesPairs, Expr.flatPairs, Expr.arguments] using hpushed.append hps.passes

end

mutual

/-- The calls in the code of a statement. -/
def Stmt.sites (inside : Bool) (n : Nat) : Stmt → List Site
  | .expr e | .assign _ e _ | .raiseError e _ | .input _ (some e) _ | .giveBack (some e) _ =>
    e.sites n
  | .setProperty a _ e _ => a.sites n ++ e.sites (n + a.extent.temps)
  | .setIndex a i e _ =>
    a.sites n ++ (i.sites (n + a.extent.temps) ++
      e.sites (n + a.extent.temps + i.extent.temps))
  | .print es _ => Expr.sitesAll n es
  | .ifElse c body bs otherwise _ =>
    let n₁ := n + c.extent.temps
    let n₂ := n₁ + (Stmt.extentAll inside body).temps
    let n₃ := n₂ + (Branch.extentAll inside bs).temps
    c.sites n ++ (Stmt.sitesAll inside n₁ body ++ (Branch.sitesAll inside n₂ bs ++
      Stmt.sitesElse inside n₃ otherwise))
  | .whileLoop c body _ => c.sites n ++ Stmt.sitesAll true (n + c.extent.temps) body
  | .forLoop _ e body _ =>
    e.sites (n + 2) ++ (⟨"__iter__", [.value e (n + 2)]⟩ :: ⟨"__has_next__", [.iterator n]⟩ ::
      ⟨"__next__", [.iterator n]⟩ :: Stmt.sitesAll true (n + 2 + e.extent.temps + 1) body)
  | .function f => f.sites inside n
  | .classDef _ _ fs _ => FunctionDef.sitesAll inside n fs
  | _ => []
termination_by structural s => s

def Stmt.sitesAll (inside : Bool) (n : Nat) : List Stmt → List Site
  | [] => []
  | s :: ss => s.sites inside n ++ Stmt.sitesAll inside (n + (s.extent inside).temps) ss
termination_by structural ss => ss

def Stmt.sitesElse (inside : Bool) (n : Nat) : Option (List Stmt) → List Site
  | none => []
  | some ss => Stmt.sitesAll inside n ss
termination_by structural ss? => ss?

def Branch.sitesAll (inside : Bool) (n : Nat) : List Branch → List Site
  | [] => []
  | .mk c body :: bs =>
    let n₁ := n + c.extent.temps
    let n₂ := n₁ + (Stmt.extentAll inside body).temps
    c.sites n ++ (Stmt.sitesAll inside n₁ body ++ Branch.sitesAll inside n₂ bs)
termination_by structural bs => bs

def FunctionDef.sites (inside : Bool) (n : Nat) : FunctionDef → List Site
  | .mk _ _ body _ => Stmt.sitesAll inside n body
termination_by structural f => f

def FunctionDef.sitesAll (inside : Bool) (n : Nat) : List FunctionDef → List Site
  | [] => []
  | f :: fs => f.sites inside n ++ FunctionDef.sitesAll inside (n + (f.extent inside).temps) fs
termination_by structural fs => fs

end

/-- The code of a loop over a list up to where the statements in it begin, if `code` puts the list
into the `k`-th temporary. -/
def forHead (x : String) (l : Nat) (out again inside : Label) (n n₁ k : Nat) (code : List Instr) :
    List Instr :=
  code ++ [.pushes l k, .calls l n "__iter__" 1, ⟨.label again, l⟩, .pushes l n,
    .calls l (n + 1) "__has_next__" 1, ⟨.branch (.ofTemp (n + 1)) inside out, l⟩,
    ⟨.label inside, l⟩, .pushes l n, .calls l n₁ "__next__" 1,
    ⟨.copy (.named x) (.temp (temp n₁)), l⟩]

theorem Expr.Laid.passes_forHead {e : Expr} {n k n₁ l : Nat} {code : List Instr} {x : String}
    {out again inside : Label} (h : e.Laid (n + 2) code k n₁) :
    Passes (forHead x l out again inside n n₁ k code) (e.sites (n + 2) ++
      [⟨"__iter__", [.value e (n + 2)]⟩, ⟨"__has_next__", [.iterator n]⟩,
        ⟨"__next__", [.iterator n]⟩]) [] := by
  have hiter : Passes (code ++ [.pushes l k] ++ [.calls l n "__iter__" 1]) _ [] :=
    (h.passes.push l h.held h.extent.1).call rfl
  have hheld {front back : List Instr} :
      (Argument.iterator n).HeldIn (front ++ [.calls l n "__iter__" 1] ++ back) :=
    ⟨.calls l n "__iter__" 1, by simp, rfl⟩
  have hmore : Passes (_ ++ [⟨.label again, l⟩] ++ [.pushes l n] ++
      [.calls l (n + 1) "__has_next__" 1]) _ [] :=
    ((hiter.behind rfl).push l hheld rfl).call rfl
  have hnext : Passes (_ ++ [⟨.branch (.ofTemp (n + 1)) inside out, l⟩, ⟨.label inside, l⟩] ++
      [.pushes l n] ++ [.calls l n₁ "__next__" 1]) _ [] :=
    ((hmore.behind rfl).push l hheld.append_right.append_right.append_right rfl).call rfl
  have hcopy : Passes (_ ++ [⟨.copy (.named x) (.temp (temp n₁)), l⟩]) _ [] := hnext.behind rfl
  simpa [forHead] using hcopy

theorem passes_jumps (loop : Option Loop) (target : Loop → Label) (line : Nat) :
    Passes (Loop.jumps loop target line) [] [] := by
  cases loop with
  | none => exact .nil
  | some L => exact .inert rfl

mutual

theorem Stmt.Laid.passes : ∀ {loop s n code n'}, Stmt.Laid loop s n code n' →
    Passes code (s.sites loop.isSome n) []
  | _, _, _, _, _, .expr he => he.passes
  | _, _, _, _, _, .assign he | _, _, _, _, _, .prompt he | _, _, _, _, _, .giveValue he
  | _, _, _, _, _, .raiseError he => he.passes.behind rfl
  | _, _, _, _, _, .setProperty ha he => by
    obtain ⟨-, rfl, -⟩ := ha.extent
    rw [Stmt.sites, ← List.append_assoc]
    exact (ha.passes.append he.passes).behind rfl
  | _, _, _, _, _, .setIndex ha hi he => by
    obtain ⟨-, rfl, -⟩ := ha.extent
    obtain ⟨-, rfl, -⟩ := hi.extent
    exact ha.passes.append (hi.passes.append (he.passes.behind rfl))
  | _, _, _, _, _, .print hes => hes.passes.1.behind rfl
  | _, _, _, _, _, .input | _, _, _, _, _, .giveBack => .inert rfl
  | _, _, _, _, _, .ifOnly hc hbody hbs => by
    obtain ⟨-, rfl, -⟩ := hc.extent
    obtain ⟨rfl, -⟩ := hbody.extent
    exact hc.passes.append (.cons rfl (.cons rfl (hbody.passes.append (.cons rfl
      (hbs.passes.append (.inert rfl))))))
  | _, _, _, _, _, .ifElse hc hbody hbs hb => by
    obtain ⟨-, rfl, -⟩ := hc.extent
    obtain ⟨rfl, -⟩ := hbody.extent
    obtain ⟨rfl, -⟩ := hbs.extent
    exact hc.passes.append (.cons rfl (.cons rfl (hbody.passes.append (.cons rfl
      (hbs.passes.append (.cons rfl (hb.passes.behind rfl)))))))
  | _, _, _, _, _, .whileLoop hc hbody => by
    obtain ⟨-, rfl, -⟩ := hc.extent
    exact .cons rfl (hc.passes.append (.cons rfl (.cons rfl (hbody.passes.behind rfl))))
  | _, _, _, _, _, .forLoop he hbody => by
    obtain ⟨-, rfl, -⟩ := he.extent
    simpa [Stmt.sites, forHead] using he.passes_forHead.append (hbody.passes.behind rfl)
  | _, _, _, _, _, .breakLoop | _, _, _, _, _, .continueLoop => passes_jumps _ _ _
  | _, _, _, _, _, .function hf => hf.passes
  | _, _, _, _, _, .classDef hfs => .cons rfl (.cons rfl (hfs.passes.behind rfl))

theorem Stmt.LaidAll.passes : ∀ {loop ss n code n'}, Stmt.LaidAll loop ss n code n' →
    Passes code (Stmt.sitesAll loop.isSome n ss) []
  | _, _, _, _, _, .nil => .nil
  | _, _, _, _, _, .cons hs hss => by
    obtain ⟨rfl, -⟩ := hs.extent
    exact hs.passes.append hss.passes

theorem Branch.LaidAll.passes : ∀ {loop l out last labels bs n code n'},
    Branch.LaidAll loop l out last labels bs n code n' →
    Passes code (Branch.sitesAll loop.isSome n bs) []
  | _, _, _, _, _, _, _, _, _, .nil => .nil
  | _, _, _, _, _, _, _, _, _, .cons hc hbody hbs => by
    obtain ⟨-, rfl, -⟩ := hc.extent
    obtain ⟨rfl, -⟩ := hbody.extent
    exact .cons rfl (hc.passes.append (.cons rfl (.cons rfl (hbody.passes.append
      (.cons rfl hbs.passes)))))

theorem FunctionDef.Laid.passes : ∀ {loop f n code n'}, FunctionDef.Laid loop f n code n' →
    Passes code (f.sites loop.isSome n) []
  | _, _, _, _, _, .mk hbody => .cons rfl (hbody.passes.behind rfl)

theorem FunctionDef.LaidAll.passes : ∀ {loop fs n code n'}, FunctionDef.LaidAll loop fs n code n' →
    Passes code (FunctionDef.sitesAll loop.isSome n fs) []
  | _, _, _, _, _, .nil => .nil
  | _, _, _, _, _, .cons hf hfs => by
    obtain ⟨rfl, -⟩ := hf.extent
    exact hf.passes.append hfs.passes

end

mutual

/-- The places in the code that are between the statements inside of a statement, the code of which
begins at `start`. -/
def Stmt.borders (inside : Bool) (start : Nat) : Stmt → List Nat
  | .ifElse c body bs otherwise _ =>
    let first := start + c.extent.instrs + 2
    let others := first + (Stmt.extentAll inside body).instrs + 1
    let last := others + (Branch.extentAll inside bs).instrs
    Stmt.bordersAll inside first body ++ (Branch.bordersAll inside others bs ++
      Stmt.bordersElse inside last otherwise)
  | .whileLoop c body _ => Stmt.bordersAll true (start + c.extent.instrs + 3) body
  | .forLoop _ e body _ => Stmt.bordersAll true (start + e.extent.instrs + 10) body
  | .function f => f.borders inside start
  | .classDef _ _ fs _ => FunctionDef.bordersAll inside (start + 2) fs
  | _ => []
termination_by structural s => s

/-- The places before, between and behind the statements, and those inside of them. -/
def Stmt.bordersAll (inside : Bool) (start : Nat) : List Stmt → List Nat
  | [] => [start]
  | s :: ss =>
    start :: (s.borders inside start ++
      Stmt.bordersAll inside (start + (s.extent inside).instrs) ss)
termination_by structural ss => ss

def Stmt.bordersElse (inside : Bool) (start : Nat) : Option (List Stmt) → List Nat
  | none => []
  | some ss => Stmt.bordersAll inside (start + 1) ss
termination_by structural ss? => ss?

def Branch.bordersAll (inside : Bool) (start : Nat) : List Branch → List Nat
  | [] => []
  | .mk c body :: bs =>
    let first := start + c.extent.instrs + 3
    Stmt.bordersAll inside first body ++
      Branch.bordersAll inside (first + (Stmt.extentAll inside body).instrs + 1) bs
termination_by structural bs => bs

def FunctionDef.borders (inside : Bool) (start : Nat) : FunctionDef → List Nat
  | .mk _ _ body _ => Stmt.bordersAll inside (start + 1) body
termination_by structural f => f

def FunctionDef.bordersAll (inside : Bool) (start : Nat) : List FunctionDef → List Nat
  | [] => []
  | f :: fs =>
    f.borders inside start ++
      FunctionDef.bordersAll inside (start + (f.extent inside).instrs) fs
termination_by structural fs => fs

end

/-- Nothing is left on the stack behind the code. -/
def Drained (code : List Instr) : Prop :=
  ∃ calls, Instr.scan [] code = some (calls, [])

theorem Drained.append {code code' : List Instr} {sites : List Site} (h : Drained code)
    (h' : Passes code' sites []) : Drained (code ++ code') := by
  obtain ⟨calls, h⟩ := h
  exact ⟨_, Instr.scan_append h (h'.scan [])⟩

/-- Nothing is on the stack at the place `b` of the code. -/
def Clear (code : List Instr) (b : Nat) : Prop :=
  ∃ before, before <+: code ∧ before.length = b ∧ Drained before

theorem Clear.mono {code code' : List Instr} {b : Nat} (h : Clear code b) (hcode : code <+: code') :
    Clear code' b := by
  obtain ⟨before, hbefore, hlength, hdrained⟩ := h
  exact ⟨before, hbefore.trans hcode, hlength, hdrained⟩

theorem Clear.le_length {code : List Instr} {b : Nat} (h : Clear code b) : b ≤ code.length := by
  obtain ⟨before, hbefore, rfl, -⟩ := h
  exact hbefore.length_le

theorem Clear.drained_take {code : List Instr} {b : Nat} (h : Clear code b) :
    Drained (code.take b) := by
  obtain ⟨before, ⟨after, rfl⟩, rfl, hdrained⟩ := h
  rwa [List.take_left]

mutual

theorem Stmt.Laid.clear : ∀ {loop s n code n'}, Stmt.Laid loop s n code n' →
    ∀ {front start}, Drained front → start = front.length →
      ∀ b ∈ s.borders loop.isSome start, Clear (front ++ code) b
  | _, _, _, _, _, .expr _, _, _, _, _, _, hb | _, _, _, _, _, .assign _, _, _, _, _, _, hb
  | _, _, _, _, _, .prompt _, _, _, _, _, _, hb | _, _, _, _, _, .giveValue _, _, _, _, _, _, hb
  | _, _, _, _, _, .raiseError _, _, _, _, _, _, hb
  | _, _, _, _, _, .setProperty _ _, _, _, _, _, _, hb
  | _, _, _, _, _, .setIndex _ _ _, _, _, _, _, _, hb | _, _, _, _, _, .print _, _, _, _, _, _, hb
  | _, _, _, _, _, .input, _, _, _, _, _, hb | _, _, _, _, _, .giveBack, _, _, _, _, _, hb
  | _, _, _, _, _, .breakLoop, _, _, _, _, _, hb
  | _, _, _, _, _, .continueLoop, _, _, _, _, _, hb =>
    absurd hb List.not_mem_nil
  | _, _, _, _, _, @Stmt.Laid.ifOnly loop c body bs l first out labels n code k n₁ code' n₂ code''
      n₃ hc hbody hbs, front, start, hfront, hstart, b, hb => by
    have hlength := hc.extent.2.2
    have hlength' := hbody.extent.2
    have hhead : Passes (code ++ [⟨.branch (.ofTemp k) first (labels.headD out), l⟩,
        ⟨.label first, l⟩]) _ [] := hc.passes.behind rfl
    have hthen : Passes (code' ++ [⟨.jump out, l⟩]) _ [] := hbody.passes.behind rfl
    have hinside := hfront.append hhead
    rcases List.mem_append.1 hb with hb | hb
    · have hclear := hbody.clear hinside (by simp; omega) b hb
      exact hclear.mono ⟨⟨.jump out, l⟩ :: code'' ++ [⟨.label out, l⟩], by simp⟩
    · have hb := (List.mem_append.1 hb).resolve_right List.not_mem_nil
      have hclear := hbs.clear (hinside.append hthen) (by simp; omega) b hb
      exact hclear.mono ⟨[⟨.label out, l⟩], by simp⟩
  | _, _, _, _, _, @Stmt.Laid.ifElse loop c body bs ss l first out last labels n code k n₁ code' n₂
      code'' n₃ code₃ n₄ hc hbody hbs hss, front, start, hfront, hstart, b, hb => by
    have hlength := hc.extent.2.2
    have hlength' := hbody.extent.2
    have hlength'' := hbs.extent.2
    have hhead : Passes (code ++ [⟨.branch (.ofTemp k) first (labels.headD last), l⟩,
        ⟨.label first, l⟩]) _ [] := hc.passes.behind rfl
    have hthen : Passes (code' ++ [⟨.jump out, l⟩]) _ [] := hbody.passes.behind rfl
    have hothers : Passes (code'' ++ [⟨.label last, l⟩]) _ [] := hbs.passes.behind rfl
    have hinside := hfront.append hhead
    have hbehind := hinside.append hthen
    rcases List.mem_append.1 hb with hb | hb
    · have hclear := hbody.clear hinside (by simp; omega) b hb
      exact hclear.mono ⟨⟨.jump out, l⟩ :: code'' ++ (⟨.label last, l⟩ :: code₃ ++
        [⟨.label out, l⟩]), by simp⟩
    · rcases List.mem_append.1 hb with hb | hb
      · have hclear := hbs.clear hbehind (by simp; omega) b hb
        exact hclear.mono ⟨⟨.label last, l⟩ :: code₃ ++ [⟨.label out, l⟩], by simp⟩
      · have hclear := hss.clear (hbehind.append hothers) (by simp; omega) b hb
        exact hclear.mono ⟨[⟨.label out, l⟩], by simp⟩
  | _, _, _, _, _, @Stmt.Laid.whileLoop _ c body l out again inside n code k n₁ code' n₂ hc hbody,
      front, start, hfront, hstart, b, hb => by
    have hlength := hc.extent.2.2
    have hhead : Passes (⟨.label again, l⟩ :: code ++
        [⟨.branch (.ofTemp k) inside out, l⟩, ⟨.label inside, l⟩]) _ [] :=
      .cons rfl (hc.passes.behind rfl)
    have hclear := hbody.clear (hfront.append hhead) (by simp; omega) b hb
    exact hclear.mono ⟨[⟨.jump again, l⟩, ⟨.label out, l⟩], by simp⟩
  | _, _, _, _, _, @Stmt.Laid.forLoop _ x e body l out again inside n code k n₁ code' n₂ he hbody,
      front, start, hfront, hstart, b, hb => by
    have hlength := he.extent.2.2
    have hhead : Passes (forHead x l out again inside n n₁ k code) _ [] := he.passes_forHead
    have hclear := hbody.clear (hfront.append hhead) (by simp [forHead]; omega) b hb
    exact hclear.mono ⟨[⟨.jump again, l⟩, ⟨.label out, l⟩], by simp [forHead]⟩
  | _, _, _, _, _, .function hf, _, _, hfront, hstart, b, hb => hf.clear hfront hstart b hb
  | _, _, _, _, _, @Stmt.Laid.classDef loop x parent fs l entry out n code n' hfs, front, start,
      hfront, hstart, b, hb => by
    have hhead : Passes [⟨.jump out, l⟩, ⟨.label entry, l⟩] [] [] := .cons rfl (.inert rfl)
    have hclear := hfs.clear (hfront.append hhead) (by simp; omega) b hb
    exact hclear.mono ⟨[⟨.label out, l⟩], by simp⟩

theorem Stmt.LaidAll.clear : ∀ {loop ss n code n'}, Stmt.LaidAll loop ss n code n' →
    ∀ {front start}, Drained front → start = front.length →
      ∀ b ∈ Stmt.bordersAll loop.isSome start ss, Clear (front ++ code) b
  | _, _, _, _, _, .nil, front, _, hfront, hstart, b, hb => by
    rw [List.mem_singleton.1 hb, List.append_nil]
    exact ⟨front, List.prefix_rfl, hstart.symm, hfront⟩
  | _, _, _, _, _, .cons hs hss, front, _, hfront, hstart, b, hb => by
    have hlength := hs.extent.2
    rcases List.mem_cons.1 hb with rfl | hb
    · exact ⟨front, List.prefix_append _ _, hstart.symm, hfront⟩
    · rcases List.mem_append.1 hb with hb | hb
      · exact (hs.clear hfront hstart b hb).mono (by simp)
      · have hclear := hss.clear (hfront.append hs.passes) (by simp; omega) b hb
        exact hclear.mono (by simp)

theorem Branch.LaidAll.clear : ∀ {loop l out last labels bs n code n'},
    Branch.LaidAll loop l out last labels bs n code n' → ∀ {front start}, Drained front →
      start = front.length →
      ∀ b ∈ Branch.bordersAll loop.isSome start bs, Clear (front ++ code) b
  | _, _, _, _, _, _, _, _, _, .nil, _, _, _, _, _, hb => absurd hb List.not_mem_nil
  | _, _, _, _, _, _, _, _, _, @Branch.LaidAll.cons loop l out last label labels c body bs inside n
      code k n₁ code' n₂ code'' n₃ hc hbody hbs, front, _, hfront, hstart, b, hb => by
    have hlength := hc.extent.2.2
    have hlength' := hbody.extent.2
    have hhead : Passes (⟨.label label, l⟩ :: code ++
        [⟨.branch (.ofTemp k) inside (labels.headD last), l⟩, ⟨.label inside, l⟩]) _ [] :=
      .cons rfl (hc.passes.behind rfl)
    have hthen : Passes (code' ++ [⟨.jump out, l⟩]) _ [] := hbody.passes.behind rfl
    have hinside := hfront.append hhead
    rcases List.mem_append.1 hb with hb | hb
    · have hclear := hbody.clear hinside (by simp; omega) b hb
      exact hclear.mono ⟨⟨.jump out, l⟩ :: code'', by simp⟩
    · have hclear := hbs.clear (hinside.append hthen) (by simp; omega) b hb
      exact hclear.mono (by simp)

theorem FunctionDef.Laid.clear : ∀ {loop f n code n'}, FunctionDef.Laid loop f n code n' →
    ∀ {front start}, Drained front → start = front.length →
      ∀ b ∈ f.borders loop.isSome start, Clear (front ++ code) b
  | _, _, _, _, _, @FunctionDef.Laid.mk loop x ps body l n code n' hbody, front, _, hfront, hstart,
      b, hb => by
    have hhead : Passes [⟨.function x, l⟩] [] [] := .inert rfl
    have hclear := hbody.clear (hfront.append hhead) (by simp; omega) b hb
    exact hclear.mono ⟨[⟨.giveBack none, l⟩], by simp⟩

theorem FunctionDef.LaidAll.clear : ∀ {loop fs n code n'}, FunctionDef.LaidAll loop fs n code n' →
    ∀ {front start}, Drained front → start = front.length →
      ∀ b ∈ FunctionDef.bordersAll loop.isSome start fs, Clear (front ++ code) b
  | _, _, _, _, _, .nil, _, _, _, _, _, hb => absurd hb List.not_mem_nil
  | _, _, _, _, _, .cons hf hfs, front, _, hfront, hstart, b, hb => by
    have hlength := hf.extent.2
    rcases List.mem_append.1 hb with hb | hb
    · exact (hf.clear hfront hstart b hb).mono (by simp)
    · have hclear := hfs.clear (hfront.append hf.passes) (by simp; omega) b hb
      exact hclear.mono (by simp)

end

/-- In the code of a program that a parser builds, without attempts, every call takes exactly its
own arguments from the stack, in the order in which they stand in the source and for a method behind
its object, however calls are nested. It takes them from the temporaries into which the code
computes them. No call finds too few, and between statements, and at the end, the stack is empty. -/
theorem calls_take_own_arguments {lang : Lang} {source : String} {p : Program}
    (hparse : parse lang source = .ok p) (hfree : Stmt.attemptFree p.statements = true) :
    ∃ code k, lower p = (code, none) ∧ Stmt.LaidAll none p.statements 0 code k ∧
      Instr.scan [] code = some ((Stmt.sitesAll false 0 p.statements).map Site.taken, []) ∧
      (∀ s ∈ Stmt.sitesAll false 0 p.statements, ∀ a ∈ s.arguments, a.HeldIn code) ∧
      ∀ b ∈ Stmt.bordersAll false 0 p.statements,
        b ≤ code.length ∧ ∃ calls, Instr.scan [] (code.take b) = some (calls, []) := by
  obtain ⟨σ, -, -, hlower, -, -, hlaid⟩ := lowered_of_parse hparse hfree
  have hpasses := hlaid.passes
  refine ⟨_, _, hlower, hlaid, hpasses.scan [], hpasses.held, fun b hb => ?_⟩
  have hclear : Clear σ.code.toList b := hlaid.clear (⟨[], rfl⟩ : Drained []) rfl b hb
  exact ⟨hclear.le_length, hclear.drained_take⟩

/-- `o.m(f(1), [g(2)])`, where `o` and what `f` gave wait on the stack while `g` is called. -/
theorem calls_take_own_arguments_nested :
    let p : Program :=
      { statements :=
          [.expr (.method (.var "o" 1) "m" [.call "f" [.literal .number (.int 1) 1] 1,
            .list [.call "g" [.literal .number (.int 2) 1] 1] 1] 1)] }
    parse .both "o.m(f(1), [g(2)])" = .ok p ∧ Stmt.attemptFree p.statements = true ∧
      ∃ code, lower p = (code, none) ∧ Instr.scan [] code =
        some ([("f", [.ofTemp 1]), ("g", [.ofTemp 3]), ("__list__", [.ofTemp 4]),
          ("m", [.ofTemp 0, .ofTemp 2, .ofTemp 5])], []) := by
  intro p
  have hparse : parse .both "o.m(f(1), [g(2)])" = .ok p := by cbv
  have hfree : Stmt.attemptFree p.statements = true := by decide
  obtain ⟨code, k, hlower, -, hscan, -⟩ := calls_take_own_arguments hparse hfree
  exact ⟨hparse, hfree, code, hlower, hscan⟩

end Bhasha
