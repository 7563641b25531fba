import Bhasha.Proofs.AdmittedPrograms
import Bhasha.Proofs.ExprCode
import Bhasha.Proofs.SourceConcatenation
import Bhasha.Proofs.TreeNodes

namespace Bhasha

open Lower (temp)

/-- What the `k`-th temporary holds. -/
def Operand.ofTemp (k : Nat) : Operand :=
  .temp (Lower.temp k)

namespace Instr

/-- Pushes what the `k`-th temporary holds. -/
def pushes (line k : Nat) : Instr :=
  { op := .param (.ofTemp k), line }

/-- Calls a function into the `k`-th temporary. -/
def calls (line k : Nat) (function : String) (arguments : Nat) : Instr :=
  { op := .call (some (temp k)) function arguments, line }

@[simp, grind =]
theorem op_pushes (line k : Nat) : (pushes line k).op = .param (.ofTemp k) :=
  rfl

@[simp, grind =]
theorem op_calls (line k : Nat) (function : String) (arguments : Nat) :
    (calls line k function arguments).op = .call (some (temp k)) function arguments :=
  rfl

end Instr

/-- Where `ruk` and `age_badho` lead. -/
structure Loop where
  out : Label
  again : Label

mutual

/-- The code computes the expression into the `k`-th temporary, and makes the temporaries from the
`n`-th on up to the `n'`-th. -/
inductive Expr.Laid : Expr → (n : Nat) → List Instr → (k n' : Nat) → Prop
  | literal {kind v l n} :
      Expr.Laid (.literal kind v l) n [⟨.assign (temp n) (.scalar v), l⟩] n (n + 1)
  | list {es l n code ks n'} : Expr.LaidEach es n code ks n' →
      Expr.Laid (.list es l) n
        (code ++ (ks.map (.pushes l) ++ [.calls l n' "__list__" es.length])) n' (n' + 1)
  | dict {ps l n code n'} : Expr.LaidPairs l ps n code n' →
      Expr.Laid (.dict ps l) n (code ++ [.calls l n' "__dict__" (ps.length * 2)]) n' (n' + 1)
  | var {x l n} :
      Expr.Laid (.var x l) n [⟨.copy (.temp (temp n)) (.named x), l⟩] n (n + 1)
  | binary {op a b l n code k n₁ code' k' n₂} :
      Expr.Laid a n code k n₁ → Expr.Laid b n₁ code' k' n₂ →
      Expr.Laid (.binary op a b l) n
        (code ++ (code' ++ [⟨.binary (temp n₂) op.symbol (.ofTemp k) (.ofTemp k'), l⟩]))
        n₂ (n₂ + 1)
  | unary {op a l n code k n'} : Expr.Laid a n code k n' →
      Expr.Laid (.unary op a l) n
        (code ++ [⟨.unary (temp n') op.symbol (.ofTemp k), l⟩]) n' (n' + 1)
  | paren {a l n code k n'} : Expr.Laid a n code k n' → Expr.Laid (.paren a l) n code k n'
  | call {x es l n code n'} : Expr.LaidArguments l es n code n' →
      Expr.Laid (.call x es l) n (code ++ [.calls l n' x es.length]) n' (n' + 1)
  /-- The body stands behind a jump over it. -/
  | lambda {ps a l x out n code k n'} : Expr.Laid a n code k n' →
      Expr.Laid (.lambda ps a l) n
        (⟨.jump out, l⟩ :: ⟨.function x, l⟩ :: code ++
          [⟨.giveBack (some (.ofTemp k)), l⟩, ⟨.label out, l⟩,
            ⟨.assign (temp n') (.scalar (.str x)), l⟩]) n' (n' + 1)
  | newObject {c es l n code n'} : Expr.LaidArguments l es (n + 1) code n' →
      Expr.Laid (.newObject c es l) n
        (⟨.newObject (temp n) c, l⟩ :: code ++ [.calls l n' (c ++ ".__init__") es.length])
        n (n' + 1)
  | method {a x es l n code k n₁ code' n₂} :
      Expr.Laid a n code k n₁ → Expr.LaidArguments l es n₁ code' n₂ →
      Expr.Laid (.method a x es l) n
        (code ++ (.pushes l k :: code' ++ [.calls l n₂ x (es.length + 1)])) n₂ (n₂ + 1)
  | property {a x l n code k n'} : Expr.Laid a n code k n' →
      Expr.Laid (.property a x l) n
        (code ++ [⟨.loadField (temp n') (.ofTemp k) x, l⟩]) n' (n' + 1)
  | thisObject {l n} :
      Expr.Laid (.thisObject l) n [⟨.copy (.temp (temp n)) (.named "__self__"), l⟩] n (n + 1)
  | superCall {x es l n code n'} : Expr.LaidArguments l es n code n' →
      Expr.Laid (.superCall x es l) n
        (code ++ [.calls l n' ("__super__." ++ x) es.length]) n' (n' + 1)
  | index {a i l n code k n₁ code' k' n₂} :
      Expr.Laid a n code k n₁ → Expr.Laid i n₁ code' k' n₂ →
      Expr.Laid (.index a i l) n
        (code ++ (code' ++ [⟨.loadIndex (temp n₂) (.ofTemp k) (.ofTemp k'), l⟩])) n₂ (n₂ + 1)

/-- The code computes the expressions into the temporaries `ks`. -/
inductive Expr.LaidEach :
    List Expr → (n : Nat) → List Instr → (ks : List Nat) → (n' : Nat) → Prop
  | nil {n} : Expr.LaidEach [] n [] [] n
  | cons {e es n code k n₁ code' ks n₂} :
      Expr.Laid e n code k n₁ → Expr.LaidEach es n₁ code' ks n₂ →
      Expr.LaidEach (e :: es) n (code ++ code') (k :: ks) n₂

/-- The code computes and pushes one expression after the other. -/
inductive Expr.LaidArguments :
    (line : Nat) → List Expr → (n : Nat) → List Instr → (n' : Nat) → Prop
  | nil {l n} : Expr.LaidArguments l [] n [] n
  | cons {l e es n code k n₁ code' n₂} :
      Expr.Laid e n code k n₁ → Expr.LaidArguments l es n₁ code' n₂ →
      Expr.LaidArguments l (e :: es) n (code ++ (.pushes l k :: code')) n₂

/-- The code computes each key and its value, and then pushes both. -/
inductive Expr.LaidPairs :
    (line : Nat) → List (Expr × Expr) → (n : Nat) → List Instr → (n' : Nat) → Prop
  | nil {l n} : Expr.LaidPairs l [] n [] n
  | cons {l key value ps n code k n₁ code' k' n₂ code'' n₃} :
      Expr.Laid key n code k n₁ → Expr.Laid value n₁ code' k' n₂ →
      Expr.LaidPairs l ps n₂ code'' n₃ →
      Expr.LaidPairs l ((key, value) :: ps) n
        (code ++ (code' ++ (.pushes l k :: .pushes l k' :: code''))) n₃

end

/-- The jump that leaves or repeats a loop; outside of loops there is none. -/
def Loop.jumps (loop : Option Loop) (target : Loop → Label) (line : Nat) : List Instr :=
  loop.toList.map fun L => ⟨.jump (target L), line⟩

mutual

/-- The code of a statement that stands in `loop`. -/
inductive Stmt.Laid : Option Loop → Stmt → (n : Nat) → List Instr → (n' : Nat) → Prop
  | expr {loop e n code k n'} : e.Laid n code k n' → Stmt.Laid loop (.expr e) n code n'
  | assign {loop x e l n code k n'} : e.Laid n code k n' →
      Stmt.Laid loop (.assign x e l) n (code ++ [⟨.copy (.named x) (.temp (temp k)), l⟩]) n'
  | setProperty {loop a x e l n code k n₁ code' k' n₂} :
      a.Laid n code k n₁ → e.Laid n₁ code' k' n₂ →
      Stmt.Laid loop (.setProperty a x e l) n
        (code ++ (code' ++ [⟨.storeField (.ofTemp k) x (.ofTemp k'), l⟩])) n₂
  | setIndex {loop a i e l n code k n₁ code' k' n₂ code'' k'' n₃} :
      a.Laid n code k n₁ → i.Laid n₁ code' k' n₂ → e.Laid n₂ code'' k'' n₃ →
      Stmt.Laid loop (.setIndex a i e l) n
        (code ++ (code' ++ (code'' ++
          [⟨.storeIndex (.ofTemp k) (.ofTemp k') (.ofTemp k''), l⟩]))) n₃
  | print {loop es l n code ks n'} : Expr.LaidEach es n code ks n' →
      Stmt.Laid loop (.print es l) n (code ++ [⟨.print (ks.map .ofTemp), l⟩]) n'
  | input {loop x l n} : Stmt.Laid loop (.input x none l) n [⟨.input x none, l⟩] n
  | prompt {loop x e l n code k n'} : e.Laid n code k n' →
      Stmt.Laid loop (.input x (some e) l) n (code ++ [⟨.input x (some (.ofTemp k)), l⟩]) n'
  | ifOnly {loop c body bs l first out labels n code k n₁ code' n₂ code'' n₃} :
      c.Laid n code k n₁ → Stmt.LaidAll loop body n₁ code' n₂ →
      Branch.LaidAll loop l out out labels bs n₂ code'' n₃ →
      Stmt.Laid loop (.ifElse c body bs none l) n
        (code ++ (⟨.branch (.ofTemp k) first (labels.headD out), l⟩ :: ⟨.label first, l⟩ ::
          code' ++ (⟨.jump out, l⟩ :: code'' ++ [⟨.label out, l⟩]))) n₃
  | ifElse {loop c body bs b l first out last labels n code k n₁ code' n₂ code'' n₃ code₃ n₄} :
      c.Laid n code k n₁ → Stmt.LaidAll loop body n₁ code' n₂ →
      Branch.LaidAll loop l out last labels bs n₂ code'' n₃ → Stmt.LaidAll loop b n₃ code₃ n₄ →
      Stmt.Laid loop (.ifElse c body bs (some b) l) n
        (code ++ (⟨.branch (.ofTemp k) first (labels.headD last), l⟩ :: ⟨.label first, l⟩ ::
          code' ++ (⟨.jump out, l⟩ :: code'' ++ (⟨.label last, l⟩ :: code₃ ++
            [⟨.label out, l⟩])))) n₄
  /-- At the label `again` the condition is computed, and the label `out` stands right behind the
  loop. -/
  | whileLoop {loop c body l out again inside n code k n₁ code' n₂} :
      c.Laid n code k n₁ → Stmt.LaidAll (some ⟨out, again⟩) body n₁ code' n₂ →
      Stmt.Laid loop (.whileLoop c body l) n
        (⟨.label again, l⟩ :: code ++
          (⟨.branch (.ofTemp k) inside out, l⟩ :: ⟨.label inside, l⟩ :: code' ++
            [⟨.jump again, l⟩, ⟨.label out, l⟩])) n₂
  /-- The iterator and the answer if there is more have the first two temporaries. At the label
  `again` that is asked for, and the label `out` stands right behind the loop. -/
  | forLoop {loop x e body l out again inside n code k n₁ code' n₂} :
      e.Laid (n + 2) code k n₁ → Stmt.LaidAll (some ⟨out, again⟩) body (n₁ + 1) code' n₂ →
      Stmt.Laid loop (.forLoop x e body l) n
        (code ++ (.pushes l k :: .calls l n "__iter__" 1 ::
          ⟨.label again, l⟩ :: .pushes l n :: .calls l (n + 1) "__has_next__" 1 ::
          ⟨.branch (.ofTemp (n + 1)) inside out, l⟩ ::
          ⟨.label inside, l⟩ :: .pushes l n :: .calls l n₁ "__next__" 1 ::
          ⟨.copy (.named x) (.temp (temp n₁)), l⟩ :: code' ++
            [⟨.jump again, l⟩, ⟨.label out, l⟩])) n₂
  | breakLoop {loop l n} : Stmt.Laid loop (.breakLoop l) n (Loop.jumps loop Loop.out l) n
  | continueLoop {loop l n} : Stmt.Laid loop (.continueLoop l) n (Loop.jumps loop Loop.again l) n
  | function {loop f n code n'} : FunctionDef.Laid loop f n code n' →
      Stmt.Laid loop (.function f) n code n'
  | giveBack {loop l n} : Stmt.Laid loop (.giveBack none l) n [⟨.giveBack none, l⟩] n
  | giveValue {loop e l n code k n'} : e.Laid n code k n' →
      Stmt.Laid loop (.giveBack (some e) l) n (code ++ [⟨.giveBack (some (.ofTemp k)), l⟩]) n'
  | classDef {loop x parent fs l entry out n code n'} : FunctionDef.LaidAll loop fs n code n' →
      Stmt.Laid loop (.classDef x parent fs l) n
        (⟨.jump out, l⟩ :: ⟨.label entry, l⟩ :: code ++ [⟨.label out, l⟩]) n'
  | raiseError {loop e l n code k n'} : e.Laid n code k n' →
      Stmt.Laid loop (.raiseError e l) n (code ++ [⟨.raiseError (.ofTemp k), l⟩]) n'

inductive Stmt.LaidAll : Option Loop → List Stmt → (n : Nat) → List Instr → (n' : Nat) → Prop
  | nil {loop n} : Stmt.LaidAll loop [] n [] n
  | cons {loop s ss n code n₁ code' n₂} :
      Stmt.Laid loop s n code n₁ → Stmt.LaidAll loop ss n₁ code' n₂ →
      Stmt.LaidAll loop (s :: ss) n (code ++ code') n₂

/-- The code of the `agarlena` parts, which have the given labels. From the last one a condition
that fails leads to `last`. -/
inductive Branch.LaidAll : Option Loop → (line : Nat) → (out last : Label) → List Label →
    List Branch → (n : Nat) → List Instr → (n' : Nat) → Prop
  | nil {loop l out last n} : Branch.LaidAll loop l out last [] [] n [] n
  | cons {loop l out last label labels c body bs inside n code k n₁ code' n₂ code'' n₃} :
      c.Laid n code k n₁ → Stmt.LaidAll loop body n₁ code' n₂ →
      Branch.LaidAll loop l out last labels bs n₂ code'' n₃ →
      Branch.LaidAll loop l out last (label :: labels) (.mk c body :: bs) n
        (⟨.label label, l⟩ :: code ++
          (⟨.branch (.ofTemp k) inside (labels.headD last), l⟩ :: ⟨.label inside, l⟩ :: code' ++
            (⟨.jump out, l⟩ :: code''))) n₃

inductive FunctionDef.Laid :
    Option Loop → FunctionDef → (n : Nat) → List Instr → (n' : Nat) → Prop
  | mk {loop x ps body l n code n'} : Stmt.LaidAll loop body n code n' →
      FunctionDef.Laid loop (.mk x ps body l) n
        (⟨.function x, l⟩ :: code ++ [⟨.giveBack none, l⟩]) n'

inductive FunctionDef.LaidAll :
    Option Loop → List FunctionDef → (n : Nat) → List Instr → (n' : Nat) → Prop
  | nil {loop n} : FunctionDef.LaidAll loop [] n [] n
  | cons {loop f fs n code n₁ code' n₂} :
      FunctionDef.Laid loop f n code n₁ → FunctionDef.LaidAll loop fs n₁ code' n₂ →
      FunctionDef.LaidAll loop (f :: fs) n (code ++ code') n₂

end

/-- All but the nodes that leave no value. -/
def Expr.isNative : Expr → Bool
  | .foreign _ _ _ => false
  | _ => true

/-- All that a parser builds but attempts. -/
def Stmt.isLaidOut : Stmt → Bool
  | .attempt _ _ _ _ _ | .importFile _ _ | .foreign _ _ _ => false
  | _ => true

/-- Jumps out of loops lead to where `loop` says. -/
def Lowering.Inside (σ : Lowering) (loop : Option Loop) : Prop :=
  σ.breaks.head? = loop.map Loop.out ∧ σ.continues.head? = loop.map Loop.again

namespace Lower

variable {α β : Type}

/-- From `σ` on `p` succeeds with `a`, puts the code behind what is there, and leaves the loops as
they are. -/
structure Writes (p : Lower α) (σ : Lowering) (a : α) (code : List Instr) (σ' : Lowering) :
    Prop where
  run : p σ = .ok a σ'
  code : σ'.code.toList = σ.code.toList ++ code
  breaks : σ'.breaks = σ.breaks
  continues : σ'.continues = σ.continues

theorem Writes.inside {p : Lower α} {σ σ' : Lowering} {a : α} {code : List Instr}
    {loop : Option Loop} (h : Writes p σ a code σ') (hσ : σ.Inside loop) : σ'.Inside loop := by
  rw [Lowering.Inside, h.breaks, h.continues]
  exact hσ

theorem Writes.bind {p : Lower α} {f : α → Lower β} {σ σ₁ σ₂ : Lowering} {a : α} {b : β}
    {code code' : List Instr} (hp : Writes p σ a code σ₁) (hf : Writes (f a) σ₁ b code' σ₂) :
    Writes (p >>= f) σ b (code ++ code') σ₂ where
  run := (bind_of_ok hp.run).trans hf.run
  code := by rw [hf.code, hp.code, List.append_assoc]
  breaks := hf.breaks.trans hp.breaks
  continues := hf.continues.trans hp.continues

/-- In `loop` and with `n` temporaries made, `p` succeeds, and what it gives, the code that it puts
down and the number of temporaries then are as `post` says. -/
def Puts (loop : Option Loop) (p : Lower α) (n : Nat) (post : α → List Instr → Nat → Prop) :
    Prop :=
  ∀ σ, σ.Inside loop → σ.temps = n → ∃ a code σ', Writes p σ a code σ' ∧ post a code σ'.temps

namespace Puts

variable {loop : Option Loop} {n : Nat} {post : β → List Instr → Nat → Prop}

theorem pure {b : β} (h : post b [] n) : Puts loop (Pure.pure b) n post := by
  rintro σ - rfl
  exact ⟨b, [], σ, ⟨rfl, (List.append_nil _).symm, rfl, rfl⟩, h⟩

theorem bind {p : Lower α} {f : α → Lower β} {mid : α → List Instr → Nat → Prop}
    (hp : Puts loop p n mid)
    (hf : ∀ a code n', mid a code n' →
      Puts loop (f a) n' fun b code' n'' => post b (code ++ code') n'') :
    Puts loop (p >>= f) n post := by
  intro σ hσ hn
  obtain ⟨a, code, σ₁, h₁, hmid⟩ := hp σ hσ hn
  obtain ⟨b, code', σ₂, h₂, hpost⟩ := hf a code σ₁.temps hmid σ₁ (h₁.inside hσ) rfl
  exact ⟨b, code ++ code', σ₂, h₁.bind h₂, hpost⟩

theorem mono {p : Lower β} {post' : β → List Instr → Nat → Prop} (hp : Puts loop p n post)
    (h : ∀ b code n', post b code n' → post' b code n') : Puts loop p n post' := by
  intro σ hσ hn
  obtain ⟨b, code, σ', hrun, hpost⟩ := hp σ hσ hn
  exact ⟨b, code, σ', hrun, h b code σ'.temps hpost⟩

theorem emit {line : Nat} {op : Operation} {post : Unit → List Instr → Nat → Prop}
    (h : post () [⟨op, line⟩] n) : Puts loop (Lower.emit line op) n post := by
  rintro σ - rfl
  exact ⟨(), _, _, ⟨rfl, Array.toList_push, rfl, rfl⟩, h⟩

theorem emit_bind {line : Nat} {op : Operation} {f : Unit → Lower β}
    (h : Puts loop (f ()) n fun b code n' => post b (⟨op, line⟩ :: code) n') :
    Puts loop (Lower.emit line op >>= f) n post := by
  have hemit : Puts loop (Lower.emit line op) n fun _ code n' => code = [⟨op, line⟩] ∧ n' = n :=
    emit ⟨rfl, rfl⟩
  refine hemit.bind ?_
  rintro - _ _ ⟨rfl, rfl⟩
  exact h

theorem push_bind {line k : Nat} {f : Unit → Lower β}
    (h : Puts loop (f ()) n fun b code n' => post b (.pushes line k :: code) n') :
    Puts loop (Lower.push line (some (temp k)) >>= f) n post :=
  emit_bind h

theorem pushAll_bind {line : Nat} {ks : List Nat} {f : Unit → Lower β}
    (h : Puts loop (f ()) n fun b code n' => post b (ks.map (.pushes line) ++ code) n') :
    Puts loop ((ks.map fun k => some (temp k)).forM (Lower.push line) >>= f) n post := by
  induction ks generalizing post with
  | nil => exact h
  | cons k ks ih =>
    rw [List.map_cons, List.forM, bind_assoc]
    exact push_bind (ih h)

/-- A step that puts no code down. -/
theorem quiet_bind {p : Lower α} {f : α → Lower β} {k : Nat}
    (h : ∀ σ : Lowering, σ.Inside loop → σ.temps = n → ∃ a σ', Writes p σ a [] σ' ∧ σ'.temps = k ∧
      Puts loop (f a) k post) : Puts loop (p >>= f) n post := by
  intro σ hσ hn
  obtain ⟨a, σ₁, hp, hk, hf⟩ := h σ hσ hn
  obtain ⟨b, code, σ', hrest, hpost⟩ := hf σ₁ (hp.inside hσ) hk
  exact ⟨b, code, σ', hp.bind hrest, hpost⟩

theorem freshTemp_bind {f : Temp → Lower β} (h : Puts loop (f (temp n)) (n + 1) post) :
    Puts loop (freshTemp >>= f) n post := by
  refine quiet_bind (k := n + 1) fun σ _ hn => ⟨temp n, { σ with temps := n + 1 }, ?_, rfl, h⟩
  subst hn
  exact ⟨rfl, (List.append_nil _).symm, rfl, rfl⟩

theorem freshLabel_bind {hint : String} {f : Label → Lower β} (h : ∀ l, Puts loop (f l) n post) :
    Puts loop (freshLabel hint >>= f) n post :=
  quiet_bind fun σ _ hn => ⟨_, { σ with labels := σ.labels + 1 },
    ⟨rfl, (List.append_nil _).symm, rfl, rfl⟩, hn, h _⟩

theorem freshLambda_bind {f : String → Lower β} (h : ∀ x, Puts loop (f x) n post) :
    Puts loop (freshLambda >>= f) n post :=
  quiet_bind fun σ _ hn => ⟨_, { σ with lambdas := σ.lambdas + 1 },
    ⟨rfl, (List.append_nil _).symm, rfl, rfl⟩, hn, h _⟩

theorem get_bind {f : Lowering → Lower β} (h : ∀ σ, σ.Inside loop → Puts loop (f σ) n post) :
    Puts loop (get >>= f) n post :=
  quiet_bind fun σ hσ hn => ⟨σ, σ, ⟨rfl, (List.append_nil _).symm, rfl, rfl⟩, hn, h σ hσ⟩

theorem freshLabels_bind {hint : String} {count : Nat} {f : List Label → Lower β}
    (h : ∀ ls, ls.length = count → Puts loop (f ls) n post) :
    Puts loop (freshLabels hint count >>= f) n post := by
  induction count generalizing f with
  | zero => exact h [] rfl
  | succ count ih =>
    rw [freshLabels, bind_assoc]
    refine freshLabel_bind fun l => ?_
    rw [bind_assoc]
    refine ih fun ls hls => ?_
    exact h (l :: ls) (congrArg (· + 1) hls)

/-- A new temporary takes what one more instruction computes. -/
theorem result {line : Nat} {op : Temp → Operation} {post : Option Temp → List Instr → Nat → Prop}
    (h : post (some (temp n)) [⟨op (temp n), line⟩] (n + 1)) :
    Puts loop (do
      let t ← freshTemp
      Lower.emit line (op t)
      return some t) n post :=
  freshTemp_bind (emit_bind (pure h))

theorem call_bind {line count : Nat} {x : String} {f : Option Temp → Lower β}
    (h : Puts loop (f (some (temp n))) (n + 1) fun b code n' =>
      post b (.calls line n x count :: code) n') :
    Puts loop (Lower.call line x count >>= f) n post := by
  rw [Lower.call, bind_assoc]
  exact freshTemp_bind (by rw [bind_assoc]; exact emit_bind h)

theorem inLoop {out again : Label} {body : Lower Unit} {post : Unit → List Instr → Nat → Prop}
    (h : Puts (some ⟨out, again⟩) body n post) :
    Puts loop (Lower.inLoop out again body) n post := by
  rintro σ - rfl
  obtain ⟨_, code, σ', hbody, hpost⟩ :=
    h { σ with breaks := out :: σ.breaks, continues := again :: σ.continues } ⟨rfl, rfl⟩ rfl
  refine ⟨(), code, { σ' with breaks := σ'.breaks.tail, continues := σ'.continues.tail },
    ⟨?_, hbody.code, by simp [hbody.breaks], by simp [hbody.continues]⟩, hpost⟩
  have hrest := bind_of_ok (f := fun _ => modify fun s : Lowering =>
    { s with breaks := s.breaks.tail, continues := s.continues.tail }) hbody.run
  exact hrest

/-- `ruk` and `age_badho` jump, if they stand in a loop. -/
theorem leave {line : Nat} {targets : Lowering → List Label} {target : Loop → Label}
    {post : Unit → List Instr → Nat → Prop}
    (htargets : ∀ σ : Lowering, σ.Inside loop → (targets σ).head? = loop.map target)
    (h : post () (Loop.jumps loop target line) n) :
    Puts loop (do
      if let target :: _ := targets (← get) then Lower.emit line (.jump target)) n post := by
  refine get_bind fun σ hσ => ?_
  have hhead := htargets σ hσ
  cases loop with
  | none =>
    rw [List.head?_eq_none_iff.1 hhead]
    exact pure h
  | some L =>
    obtain ⟨rest, hrest⟩ := List.head?_eq_some_iff.1 hhead
    rw [hrest]
    exact emit h

end Puts

mutual

theorem puts_expr : ∀ e : Expr, e.every Expr.isNative = true → ∀ loop n,
    Puts loop (expr e) n fun t code n' => ∃ k, t = some (temp k) ∧ e.Laid n code k n'
  | .literal _ v l, _, _, _ => by
    rw [expr]
    exact .result ⟨_, rfl, .literal⟩
  | .list es l, h, loop, n => by
    rw [expr]
    refine (puts_exprs es h loop n).bind ?_
    rintro _ code n' ⟨ks, rfl, hes⟩
    exact .pushAll_bind (.result ⟨_, rfl, .list hes⟩)
  | .dict ps l, h, loop, n => by
    rw [expr]
    refine (puts_pairs l ps h loop n).bind ?_
    rintro - code n' hps
    exact .result ⟨_, rfl, .dict hps⟩
  | .var x l, _, _, _ => by
    rw [expr]
    exact .result ⟨_, rfl, .var⟩
  | .binary op a b l, h, loop, n => by
    have h : (a.every Expr.isNative && b.every Expr.isNative) = true := h
    obtain ⟨ha, hb⟩ := Bool.and_eq_true_iff.1 h
    rw [expr]
    refine (puts_expr a ha loop n).bind ?_
    rintro _ code n₁ ⟨k, rfl, ha⟩
    refine (puts_expr b hb loop n₁).bind ?_
    rintro _ code' n₂ ⟨k', rfl, hb⟩
    exact .result ⟨_, rfl, .binary ha hb⟩
  | .unary op a l, h, loop, n => by
    rw [expr]
    refine (puts_expr a h loop n).bind ?_
    rintro _ code n' ⟨k, rfl, ha⟩
    exact .result ⟨_, rfl, .unary ha⟩
  | .paren a _, h, loop, n => by
    rw [expr]
    refine (puts_expr a h loop n).mono ?_
    rintro _ code n' ⟨k, rfl, ha⟩
    exact ⟨k, rfl, .paren ha⟩
  | .call x es l, h, loop, n => by
    rw [expr]
    refine (puts_arguments l es h loop n).bind ?_
    rintro - code n' hes
    exact .result ⟨_, rfl, .call hes⟩
  | .lambda _ a l, h, loop, n => by
    rw [expr]
    refine .freshLambda_bind fun x => .freshLabel_bind fun out => .emit_bind (.emit_bind ?_)
    refine (puts_expr a h loop n).bind ?_
    rintro _ code n' ⟨k, rfl, ha⟩
    exact .emit_bind (.emit_bind (.result ⟨_, rfl, .lambda ha⟩))
  | .newObject c es l, h, loop, n => by
    rw [expr]
    refine .freshTemp_bind (.emit_bind ?_)
    refine (puts_arguments l es h loop (n + 1)).bind ?_
    rintro - code n' hes
    exact .call_bind (.pure ⟨_, rfl, .newObject hes⟩)
  | .method a x es l, h, loop, n => by
    have h : (a.every Expr.isNative && Expr.everyAll Expr.isNative es) = true := h
    obtain ⟨ha, hes⟩ := Bool.and_eq_true_iff.1 h
    rw [expr]
    refine (puts_expr a ha loop n).bind ?_
    rintro _ code n₁ ⟨k, rfl, ha⟩
    refine .push_bind ((puts_arguments l es hes loop n₁).bind ?_)
    rintro - code' n₂ hes
    exact .result ⟨_, rfl, .method ha hes⟩
  | .property a x l, h, loop, n => by
    rw [expr]
    refine (puts_expr a h loop n).bind ?_
    rintro _ code n' ⟨k, rfl, ha⟩
    exact .result ⟨_, rfl, .property ha⟩
  | .thisObject l, _, _, _ => by
    rw [expr]
    exact .result ⟨_, rfl, .thisObject⟩
  | .superCall x es l, h, loop, n => by
    rw [expr]
    refine (puts_arguments l es h loop n).bind ?_
    rintro - code n' hes
    exact .result ⟨_, rfl, .superCall hes⟩
  | .index a i l, h, loop, n => by
    have h : (a.every Expr.isNative && i.every Expr.isNative) = true := h
    obtain ⟨ha, hi⟩ := Bool.and_eq_true_iff.1 h
    rw [expr]
    refine (puts_expr a ha loop n).bind ?_
    rintro _ code n₁ ⟨k, rfl, ha⟩
    refine (puts_expr i hi loop n₁).bind ?_
    rintro _ code' n₂ ⟨k', rfl, hi⟩
    exact .result ⟨_, rfl, .index ha hi⟩
  | .foreign _ _ _, h, _, _ => by
    cases h
termination_by structural e => e

theorem puts_exprs : ∀ es : List Expr, Expr.everyAll Expr.isNative es = true → ∀ loop n,
    Puts loop (exprs es) n fun ts code n' =>
      ∃ ks : List Nat, ts = ks.map (fun k => some (temp k)) ∧ Expr.LaidEach es n code ks n'
  | [], _, _, _ => by
    rw [exprs]
    exact .pure ⟨[], rfl, .nil⟩
  | e :: es, h, loop, n => by
    obtain ⟨he, hes⟩ := Bool.and_eq_true_iff.1 h
    rw [exprs]
    refine (puts_expr e he loop n).bind ?_
    rintro _ code n₁ ⟨k, rfl, he⟩
    refine (puts_exprs es hes loop n₁).bind ?_
    rintro _ code' n₂ ⟨ks, rfl, hes⟩
    exact .pure ⟨k :: ks, rfl, (List.append_nil code').symm ▸ .cons he hes⟩
termination_by structural es => es

theorem puts_arguments (l : Nat) : ∀ es : List Expr, Expr.everyAll Expr.isNative es = true →
    ∀ loop n, Puts loop (arguments l es) n fun _ code n' => Expr.LaidArguments l es n code n'
  | [], _, _, _ => by
    rw [arguments]
    exact .pure .nil
  | e :: es, h, loop, n => by
    obtain ⟨he, hes⟩ := Bool.and_eq_true_iff.1 h
    rw [arguments]
    refine (puts_expr e he loop n).bind ?_
    rintro _ code n₁ ⟨k, rfl, he⟩
    exact .push_bind ((puts_arguments l es hes loop n₁).mono fun _ _ _ hes => .cons he hes)
termination_by structural es => es

theorem puts_pairs (l : Nat) : ∀ ps : List (Expr × Expr), Expr.everyPair Expr.isNative ps = true →
    ∀ loop n, Puts loop (pairs l ps) n fun _ code n' => Expr.LaidPairs l ps n code n'
  | [], _, _, _ => by
    rw [pairs]
    exact .pure .nil
  | (key, value) :: ps, h, loop, n => by
    obtain ⟨hkv, hps⟩ := Bool.and_eq_true_iff.1 h
    obtain ⟨hkey, hvalue⟩ := Bool.and_eq_true_iff.1 hkv
    rw [pairs]
    refine (puts_expr key hkey loop n).bind ?_
    rintro _ code n₁ ⟨k, rfl, hkey⟩
    refine (puts_expr value hvalue loop n₁).bind ?_
    rintro _ code' n₂ ⟨k', rfl, hvalue⟩
    refine .push_bind (.push_bind ((puts_pairs l ps hps loop n₂).mono ?_))
    exact fun _ _ _ hps => .cons hkey hvalue hps
termination_by structural ps => ps

end

mutual

theorem puts_stmt : ∀ s : Stmt, s.every Expr.isNative Stmt.isLaidOut = true → ∀ loop n,
    Puts loop (stmt s) n fun _ code n' => s.Laid loop n code n'
  | .expr e, h, loop, n => by
    rw [stmt]
    refine (puts_expr e h loop n).bind ?_
    rintro _ code n' ⟨k, rfl, he⟩
    exact .pure ((List.append_nil code).symm ▸ .expr he)
  | .assign x e l, h, loop, n => by
    rw [stmt]
    refine (puts_expr e h loop n).bind ?_
    rintro _ code n' ⟨k, rfl, he⟩
    exact .emit (.assign he)
  | .setProperty a x e l, h, loop, n => by
    have h : (a.every Expr.isNative && e.every Expr.isNative) = true := h
    obtain ⟨ha, he⟩ := Bool.and_eq_true_iff.1 h
    rw [stmt]
    refine (puts_expr a ha loop n).bind ?_
    rintro _ code n₁ ⟨k, rfl, ha⟩
    refine (puts_expr e he loop n₁).bind ?_
    rintro _ code' n₂ ⟨k', rfl, he⟩
    exact .emit (.setProperty ha he)
  | .setIndex a i e l, h, loop, n => by
    have h : (a.every Expr.isNative && i.every Expr.isNative && e.every Expr.isNative) = true := h
    obtain ⟨hai, he⟩ := Bool.and_eq_true_iff.1 h
    obtain ⟨ha, hi⟩ := Bool.and_eq_true_iff.1 hai
    rw [stmt]
    refine (puts_expr a ha loop n).bind ?_
    rintro _ code n₁ ⟨k, rfl, ha⟩
    refine (puts_expr i hi loop n₁).bind ?_
    rintro _ code' n₂ ⟨k', rfl, hi⟩
    refine (puts_expr e he loop n₂).bind ?_
    rintro _ code'' n₃ ⟨k'', rfl, he⟩
    exact .emit (.setIndex ha hi he)
  | .print es l, h, loop, n => by
    rw [stmt]
    refine (puts_exprs es h loop n).bind ?_
    rintro _ code n' ⟨ks, rfl, hes⟩
    rw [List.map_map]
    exact .emit (.print hes)
  | .input x (some e) l, h, loop, n => by
    rw [stmt]
    refine (puts_expr e h loop n).bind ?_
    rintro _ code n' ⟨k, rfl, he⟩
    exact .emit (.prompt he)
  | .input x none l, _, _, _ => by
    rw [stmt]
    exact .emit .input
  | .ifElse c body bs (some b) l, h, loop, n => by
    have h : (c.every Expr.isNative && Stmt.everyAll Expr.isNative Stmt.isLaidOut body &&
      Branch.everyAll Expr.isNative Stmt.isLaidOut bs &&
      Stmt.everyAll Expr.isNative Stmt.isLaidOut b) = true := h
    simp only [Bool.and_eq_true] at h
    obtain ⟨⟨⟨hc, hbody⟩, hbs⟩, hb⟩ := h
    rw [stmt]
    refine .freshLabel_bind fun first => .freshLabel_bind fun out => ?_
    refine .freshLabels_bind fun labels hlabels => .freshLabel_bind fun last => ?_
    refine (puts_expr c hc loop n).bind ?_
    rintro _ code n₁ ⟨k, rfl, hc⟩
    refine .emit_bind (.emit_bind ((puts_stmts body hbody loop n₁).bind ?_))
    rintro - code' n₂ hbody
    refine .emit_bind ((puts_branches l out last bs hbs labels hlabels loop n₂).bind ?_)
    rintro - code'' n₃ hbs
    refine .emit_bind ((puts_stmts b hb loop n₃).bind ?_)
    rintro - code₃ n₄ hb
    exact .emit (.ifElse hc hbody hbs hb)
  | .ifElse c body bs none l, h, loop, n => by
    have h : (c.every Expr.isNative && Stmt.everyAll Expr.isNative Stmt.isLaidOut body &&
      Branch.everyAll Expr.isNative Stmt.isLaidOut bs && true) = true := h
    simp only [Bool.and_eq_true] at h
    obtain ⟨⟨⟨hc, hbody⟩, hbs⟩, -⟩ := h
    rw [stmt]
    refine .freshLabel_bind fun first => .freshLabel_bind fun out => ?_
    refine .freshLabels_bind fun labels hlabels => ?_
    refine (puts_expr c hc loop n).bind ?_
    rintro _ code n₁ ⟨k, rfl, hc⟩
    refine .emit_bind (.emit_bind ((puts_stmts body hbody loop n₁).bind ?_))
    rintro - code' n₂ hbody
    refine .emit_bind ((puts_branches l out out bs hbs labels hlabels loop n₂).bind ?_)
    rintro - code'' n₃ hbs
    exact .emit (.ifOnly hc hbody hbs)
  | .whileLoop c body l, h, loop, n => by
    have h : (c.every Expr.isNative &&
      Stmt.everyAll Expr.isNative Stmt.isLaidOut body) = true := h
    obtain ⟨hc, hbody⟩ := Bool.and_eq_true_iff.1 h
    rw [stmt]
    refine .freshLabel_bind fun again => .freshLabel_bind fun inside => ?_
    refine .freshLabel_bind fun out => .inLoop (.emit_bind ?_)
    refine (puts_expr c hc _ n).bind ?_
    rintro _ code n₁ ⟨k, rfl, hc⟩
    refine .emit_bind (.emit_bind ((puts_stmts body hbody _ n₁).bind ?_))
    rintro - code' n₂ hbody
    exact .emit_bind (.emit (.whileLoop hc hbody))
  | .forLoop x e body l, h, loop, n => by
    have h : (e.every Expr.isNative &&
      Stmt.everyAll Expr.isNative Stmt.isLaidOut body) = true := h
    obtain ⟨he, hbody⟩ := Bool.and_eq_true_iff.1 h
    rw [stmt]
    refine .freshTemp_bind (.freshTemp_bind (.freshLabel_bind fun again => ?_))
    refine .freshLabel_bind fun inside => .freshLabel_bind fun out => ?_
    refine (puts_expr e he loop (n + 2)).bind ?_
    rintro _ code n₁ ⟨k, rfl, he⟩
    refine .push_bind (.emit_bind (.inLoop (.emit_bind (.push_bind ?_))))
    refine .emit_bind (.emit_bind (.emit_bind (.freshTemp_bind (.push_bind ?_))))
    refine .emit_bind (.emit_bind ((puts_stmts body hbody _ (n₁ + 1)).bind ?_))
    rintro - code' n₂ hbody
    exact .emit_bind (.emit (.forLoop he hbody))
  | .breakLoop l, _, _, _ => by
    rw [stmt]
    exact .leave (fun _ hσ => hσ.1) .breakLoop
  | .continueLoop l, _, _, _ => by
    rw [stmt]
    exact .leave (fun _ hσ => hσ.2) .continueLoop
  | .function f, h, loop, n => by
    rw [stmt]
    exact (puts_function f h loop n).mono fun _ _ _ hf => .function hf
  | .giveBack (some e) l, h, loop, n => by
    rw [stmt]
    refine (puts_expr e h loop n).bind ?_
    rintro _ code n' ⟨k, rfl, he⟩
    exact .emit (.giveValue he)
  | .giveBack none l, _, _, _ => by
    rw [stmt]
    exact .emit .giveBack
  | .classDef x _ fs l, h, loop, n => by
    rw [stmt]
    refine .freshLabel_bind fun entry => .freshLabel_bind fun out => .emit_bind (.emit_bind ?_)
    refine (puts_functions fs h loop n).bind ?_
    rintro - code n' hfs
    exact .emit (.classDef hfs)
  | .attempt _ _ _ _ _, h, _, _ | .importFile _ _, h, _, _ | .foreign _ _ _, h, _, _ => by
    cases h
  | .raiseError e l, h, loop, n => by
    rw [stmt]
    refine (puts_expr e h loop n).bind ?_
    rintro _ code n' ⟨k, rfl, he⟩
    exact .emit (.raiseError he)
termination_by structural s => s

theorem puts_stmts : ∀ ss : List Stmt, Stmt.everyAll Expr.isNative Stmt.isLaidOut ss = true →
    ∀ loop n, Puts loop (stmts ss) n fun _ code n' => Stmt.LaidAll loop ss n code n'
  | [], _, _, _ => by
    rw [stmts]
    exact .pure .nil
  | s :: ss, h, loop, n => by
    obtain ⟨hs, hss⟩ := Bool.and_eq_true_iff.1 h
    rw [stmts]
    refine (puts_stmt s hs loop n).bind ?_
    rintro - code n₁ hs
    exact (puts_stmts ss hss loop n₁).mono fun _ _ _ hss => .cons hs hss
termination_by structural ss => ss

theorem puts_branches (l : Nat) (out last : Label) : ∀ bs : List Branch,
    Branch.everyAll Expr.isNative Stmt.isLaidOut bs = true → ∀ labels, labels.length = bs.length →
    ∀ loop n, Puts loop (branches l out last labels bs) n fun _ code n' =>
      Branch.LaidAll loop l out last labels bs n code n'
  | [], _, labels, hlength, _, _ => by
    rw [branches, List.eq_nil_of_length_eq_zero hlength]
    exact .pure .nil
  | .mk _ _ :: _, _, [], hlength, _, _ => by
    cases hlength
  | .mk c body :: bs, h, label :: labels, hlength, loop, n => by
    obtain ⟨hhead, hbs⟩ := Bool.and_eq_true_iff.1 h
    obtain ⟨hc, hbody⟩ := Bool.and_eq_true_iff.1 hhead
    rw [branches]
    refine .emit_bind ((puts_expr c hc loop n).bind ?_)
    rintro _ code n₁ ⟨k, rfl, hc⟩
    refine .freshLabel_bind fun inside => .emit_bind (.emit_bind ?_)
    refine (puts_stmts body hbody loop n₁).bind ?_
    rintro - code' n₂ hbody
    have hrest := puts_branches l out last bs hbs labels (Nat.succ.inj hlength) loop n₂
    exact .emit_bind (hrest.mono fun _ _ _ hbs => .cons hc hbody hbs)
termination_by structural bs => bs

theorem puts_function : ∀ f : FunctionDef, f.every Expr.isNative Stmt.isLaidOut = true →
    ∀ loop n, Puts loop (function f) n fun _ code n' => f.Laid loop n code n'
  | .mk x _ body l, h, loop, n => by
    rw [function]
    refine .emit_bind ((puts_stmts body h loop n).bind ?_)
    rintro - code n' hbody
    exact .emit (.mk hbody)
termination_by structural f => f

theorem puts_functions : ∀ fs : List FunctionDef,
    FunctionDef.everyAll Expr.isNative Stmt.isLaidOut fs = true →
    ∀ loop n, Puts loop (functions fs) n fun _ code n' => FunctionDef.LaidAll loop fs n code n'
  | [], _, _, _ => by
    rw [functions]
    exact .pure .nil
  | f :: fs, h, loop, n => by
    obtain ⟨hf, hfs⟩ := Bool.and_eq_true_iff.1 h
    rw [functions]
    refine (puts_function f hf loop n).bind ?_
    rintro - code n₁ hf
    exact (puts_functions fs hfs loop n₁).mono fun _ _ _ hfs => .cons hf hfs
termination_by structural fs => fs

end

end Lower

/-- No attempt. -/
def Stmt.isUnguarded : Stmt → Bool
  | .attempt _ _ _ _ _ => false
  | _ => true

/-- There is no attempt anywhere in the statements. -/
def Stmt.attemptFree (ss : List Stmt) : Bool :=
  Stmt.everyAll (fun _ => true) Stmt.isUnguarded ss

mutual

theorem Expr.native_of_grammatical : ∀ e : Expr, e.grammatical = true → e.every isNative = true
  | .literal _ _ _, _ | .var _ _, _ | .thisObject _, _ => rfl
  | .list es _, h | .call _ es _, h | .newObject _ es _, h | .superCall _ es _, h =>
    Expr.native_of_grammaticalAll es h
  | .dict ps _, h => Expr.native_of_grammaticalPairs ps h
  | .binary _ a b _, h => by
    simp only [grammatical, Bool.and_eq_true] at h
    obtain ⟨⟨⟨⟨⟨-, ha⟩, hb⟩, -⟩, -⟩, -⟩ := h
    have hboth := Bool.and_eq_true_iff.2 ⟨a.native_of_grammatical ha, b.native_of_grammatical hb⟩
    exact hboth
  | .unary _ a _, h => by
    simp only [grammatical, Bool.and_eq_true] at h
    exact a.native_of_grammatical h.1.2
  | .paren a _, h | .lambda _ a _, h => a.native_of_grammatical h
  | .method a _ es _, h => by
    simp only [grammatical, Bool.and_eq_true] at h
    obtain ⟨⟨⟨ha, -⟩, -⟩, hes⟩ := h
    have hboth := Bool.and_eq_true_iff.2
      ⟨a.native_of_grammatical ha, Expr.native_of_grammaticalAll es hes⟩
    exact hboth
  | .property a _ _, h => by
    simp only [grammatical, Bool.and_eq_true] at h
    exact a.native_of_grammatical h.1.1
  | .index a i _, h => by
    simp only [grammatical, Bool.and_eq_true] at h
    obtain ⟨⟨⟨ha, -⟩, -⟩, hi⟩ := h
    have hboth := Bool.and_eq_true_iff.2 ⟨a.native_of_grammatical ha, i.native_of_grammatical hi⟩
    exact hboth
  | .foreign _ _ _, h => by
    cases h
termination_by structural e => e

theorem Expr.native_of_grammaticalAll : ∀ es : List Expr,
    Expr.grammaticalAll es = true → Expr.everyAll isNative es = true
  | [], _ => rfl
  | e :: es, h => by
    obtain ⟨he, hes⟩ := Bool.and_eq_true_iff.1 h
    exact Bool.and_eq_true_iff.2
      ⟨e.native_of_grammatical he, Expr.native_of_grammaticalAll es hes⟩
termination_by structural es => es

theorem Expr.native_of_grammaticalPairs : ∀ ps : List (Expr × Expr),
    Expr.grammaticalPairs ps = true → Expr.everyPair isNative ps = true
  | [], _ => rfl
  | (k, v) :: ps, h => by
    obtain ⟨hkv, hps⟩ := Bool.and_eq_true_iff.1 h
    obtain ⟨hk, hv⟩ := Bool.and_eq_true_iff.1 hkv
    exact Bool.and_eq_true_iff.2 ⟨Bool.and_eq_true_iff.2
      ⟨k.native_of_grammatical hk, v.native_of_grammatical hv⟩,
      Expr.native_of_grammaticalPairs ps hps⟩
termination_by structural ps => ps

end

mutual

theorem Stmt.laidOut_of_grammatical : ∀ s : Stmt, s.grammatical = true →
    s.every (fun _ => true) Stmt.isUnguarded = true → s.every Expr.isNative Stmt.isLaidOut = true
  | .expr e, h, _ => e.native_of_grammatical (Stmt.grammatical_of_expr h)
  | .assign _ e _, h, _ | .raiseError e _, h, _ => e.native_of_grammatical h
  | .setProperty a _ e _, h, _ => by
    obtain ⟨ha, he⟩ := Bool.and_eq_true_iff.1 (Stmt.grammatical_of_setProperty h)
    have hboth := Bool.and_eq_true_iff.2 ⟨a.native_of_grammatical ha, e.native_of_grammatical he⟩
    exact hboth
  | .setIndex a i e _, h, _ => by
    obtain ⟨hai, he⟩ := Bool.and_eq_true_iff.1 (Stmt.grammatical_of_setIndex h)
    obtain ⟨ha, hi⟩ := Bool.and_eq_true_iff.1 hai
    have hboth := Bool.and_eq_true_iff.2 ⟨a.native_of_grammatical ha, i.native_of_grammatical hi⟩
    have hall := Bool.and_eq_true_iff.2 ⟨hboth, e.native_of_grammatical he⟩
    exact hall
  | .print es _, h, _ => Expr.native_of_grammaticalAll es h
  | .input _ none _, _, _ | .giveBack none _, _, _ => rfl
  | .input _ (some e) _, h, _ => e.native_of_grammatical (Stmt.grammatical_of_input h)
  | .giveBack (some e) _, h, _ => e.native_of_grammatical h
  | .ifElse c body bs b _, h, hfree => by
    have hfree : (c.every (fun _ => true) && Stmt.everyAll (fun _ => true) Stmt.isUnguarded body &&
      Branch.everyAll (fun _ => true) Stmt.isUnguarded bs &&
      Stmt.everyOption (fun _ => true) Stmt.isUnguarded b) = true := hfree
    simp only [Stmt.grammatical, Bool.and_eq_true] at h hfree
    obtain ⟨⟨⟨hc, hbody⟩, hbs⟩, hb⟩ := h
    obtain ⟨⟨⟨-, fbody⟩, fbs⟩, fb⟩ := hfree
    have hfirst := Bool.and_eq_true_iff.2
      ⟨c.native_of_grammatical hc, Stmt.laidOut_of_grammaticalBlock body hbody fbody⟩
    have hmore := Bool.and_eq_true_iff.2 ⟨hfirst, Branch.laidOut_of_grammaticalAll bs hbs fbs⟩
    have hall := Bool.and_eq_true_iff.2 ⟨hmore, Stmt.laidOut_of_grammaticalOption b hb fb⟩
    exact hall
  | .whileLoop c body _, h, hfree | .forLoop _ c body _, h, hfree => by
    have hfree : (c.every (fun _ => true) &&
      Stmt.everyAll (fun _ => true) Stmt.isUnguarded body) = true := hfree
    obtain ⟨hc, hbody⟩ := Bool.and_eq_true_iff.1 h
    obtain ⟨-, fbody⟩ := Bool.and_eq_true_iff.1 hfree
    have hboth := Bool.and_eq_true_iff.2
      ⟨c.native_of_grammatical hc, Stmt.laidOut_of_grammaticalBlock body hbody fbody⟩
    exact hboth
  | .breakLoop _, _, _ | .continueLoop _, _, _ => rfl
  | .function f, h, hfree => f.laidOut_of_grammatical h hfree
  | .classDef _ _ fs _, h, hfree => FunctionDef.laidOut_of_grammaticalAll fs h hfree
  | .attempt _ _ _ _ _, _, hfree => by
    cases hfree
  | .importFile _ _, h, _ | .foreign _ _ _, h, _ => by
    cases h
termination_by structural s => s

theorem Stmt.laidOut_of_grammaticalBlock : ∀ ss : List Stmt, Stmt.grammaticalBlock ss = true →
    Stmt.everyAll (fun _ => true) Stmt.isUnguarded ss = true →
      Stmt.everyAll Expr.isNative Stmt.isLaidOut ss = true
  | [], _, _ => rfl
  | s :: ss, h, hfree => by
    obtain ⟨hs, hss⟩ := Bool.and_eq_true_iff.1 h
    obtain ⟨fs, fss⟩ := Bool.and_eq_true_iff.1 hfree
    exact Bool.and_eq_true_iff.2 ⟨s.laidOut_of_grammatical (Bool.and_eq_true_iff.1 hs).1 fs,
      Stmt.laidOut_of_grammaticalBlock ss hss fss⟩
termination_by structural ss => ss

theorem Stmt.laidOut_of_grammaticalOption : ∀ ss? : Option (List Stmt),
    Stmt.grammaticalOption ss? = true →
    Stmt.everyOption (fun _ => true) Stmt.isUnguarded ss? = true →
      Stmt.everyOption Expr.isNative Stmt.isLaidOut ss? = true
  | none, _, _ => rfl
  | some ss, h, hfree => Stmt.laidOut_of_grammaticalBlock ss h hfree
termination_by structural ss? => ss?

theorem Branch.laidOut_of_grammaticalAll : ∀ bs : List Branch, Branch.grammaticalAll bs = true →
    Branch.everyAll (fun _ => true) Stmt.isUnguarded bs = true →
      Branch.everyAll Expr.isNative Stmt.isLaidOut bs = true
  | [], _, _ => rfl
  | .mk c body :: bs, h, hfree => by
    obtain ⟨hhead, hbs⟩ := Bool.and_eq_true_iff.1 h
    obtain ⟨hc, hbody⟩ := Bool.and_eq_true_iff.1 hhead
    obtain ⟨fhead, fbs⟩ := Bool.and_eq_true_iff.1 hfree
    exact Bool.and_eq_true_iff.2 ⟨Bool.and_eq_true_iff.2 ⟨c.native_of_grammatical hc,
      Stmt.laidOut_of_grammaticalBlock body hbody (Bool.and_eq_true_iff.1 fhead).2⟩,
      Branch.laidOut_of_grammaticalAll bs hbs fbs⟩
termination_by structural bs => bs

theorem FunctionDef.laidOut_of_grammatical : ∀ f : FunctionDef, f.grammatical = true →
    f.every (fun _ => true) Stmt.isUnguarded = true →
      f.every Expr.isNative Stmt.isLaidOut = true
  | .mk _ _ body _, h, hfree => Stmt.laidOut_of_grammaticalBlock body h hfree
termination_by structural f => f

theorem FunctionDef.laidOut_of_grammaticalAll : ∀ fs : List FunctionDef,
    FunctionDef.grammaticalAll fs = true →
    FunctionDef.everyAll (fun _ => true) Stmt.isUnguarded fs = true →
      FunctionDef.everyAll Expr.isNative Stmt.isLaidOut fs = true
  | [], _, _ => rfl
  | f :: fs, h, hfree => by
    obtain ⟨hf, hfs⟩ := Bool.and_eq_true_iff.1 h
    obtain ⟨ff, ffs⟩ := Bool.and_eq_true_iff.1 hfree
    exact Bool.and_eq_true_iff.2 ⟨f.laidOut_of_grammatical hf ff,
      FunctionDef.laidOut_of_grammaticalAll fs hfs ffs⟩
termination_by structural fs => fs

end

/-- A program that a parser builds, without attempts, can be lowered, and its code is laid out as it
is. Behind the program there is no loop to leave. -/
theorem lowered_of_parse {lang : Lang} {source : String} {p : Program}
    (hparse : parse lang source = .ok p) (hfree : Stmt.attemptFree p.statements = true) :
    ∃ σ, Lower.stmts p.statements {} = .ok () σ ∧ lowering 0 p.statements = (σ, none) ∧
      lower p = (σ.code.toList, none) ∧ σ.breaks = [] ∧ σ.continues = [] ∧
      Stmt.LaidAll none p.statements 0 σ.code.toList σ.temps := by
  obtain ⟨_, _, -, -, hgrammatical⟩ := sequence_of_parse hparse
  have hlaidOut := Stmt.laidOut_of_grammaticalBlock p.statements hgrammatical hfree
  obtain ⟨_, code, σ, hrun, hlaid⟩ :=
    Lower.puts_stmts p.statements hlaidOut none 0 {} ⟨rfl, rfl⟩ rfl
  have hlowering : lowering 0 p.statements = (σ, none) := by
    rw [lowering, hrun.run]
  refine ⟨σ, hrun.run, hlowering, ?_, hrun.breaks, hrun.continues, ?_⟩
  · rw [lower, lowerStatements, hlowering]
  · rw [hrun.code]
    exact hlaid

end Bhasha
