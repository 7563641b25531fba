import Bhasha.Proofs.CodeMachine
import Bhasha.Proofs.ScopeNesting
import Bhasha.Proofs.TreeInduction

namespace Bhasha

namespace Machine

/-- The current scope is there, and no other lies around it. -/
structure Rooted (m : Machine) : Prop where
  present : m.current < m.scopes.all.size
  outermost : m.scopes.depth m.current = 0

variable {m : Machine} {x : String} {v : Value}

theorem Rooted.owner? (h : m.Rooted) (x : String) :
    m.scopes.owner? m.current x =
      if (m.scopes.bindings m.current).has x then some m.current else none := by
  rw [Scopes.owner?, h.outermost, Scopes.ownerWithin]
  intro fuel p hfuel
  omega

theorem Rooted.get? (h : m.Rooted) (x : String) :
    m.scopes.get? m.current x = (m.scopes.bindings m.current).find? x := by
  rw [Scopes.get?_eq_bind, h.owner?]
  cases hx : (m.scopes.bindings m.current).find? x <;> simp [Bindings.has, hx]

theorem Rooted.define (h : m.Rooted) (x : String) (v : Value) :
    ({ m with scopes := m.scopes.define m.current x v } : Machine).Rooted := by
  refine ⟨by simpa [Scopes.define] using h.present, ?_⟩
  have hdepth : (m.scopes.define m.current x v).depth m.current = m.scopes.depth m.current := by
    unfold Scopes.depth Scopes.define
    rw [Array.getElem?_modify, if_pos rfl, Option.map_map]
    rfl
  exact hdepth.trans h.outermost

theorem Rooted.bindings_define (h : m.Rooted) (x : String) (v : Value) :
    (m.scopes.define m.current x v).bindings m.current =
      (m.scopes.bindings m.current).bind x v := by
  unfold Scopes.bindings Scopes.define
  rw [Array.getElem?_modify, if_pos rfl, Array.getElem?_eq_getElem h.present]
  rfl

/-- The machine for code that has the names, the heap and the output of `m`. -/
def coded (m : Machine) (next : List Instr) (temps : Bindings Value) : CodeState where
  next
  temps
  names := m.scopes.bindings m.current
  heap := m.heap
  output := m.output

theorem Rooted.coded_define (h : m.Rooted) (x : String) (v : Value) (next : List Instr)
    (temps : Bindings Value) :
    ({ m with scopes := m.scopes.define m.current x v } : Machine).coded next temps =
      { m.coded next temps with names := (m.scopes.bindings m.current).bind x v } := by
  rw [← h.bindings_define]
  rfl

end Machine

/-- The exits that nothing in a program without attempts and imports holds back. -/
def Exit.isFailure : Exit → Bool
  | .error _ | .fault _ | .exhausted => true
  | _ => false

namespace Run

variable {α : Type}

/-- `p` needs the heap and the output of a machine and nothing else of it, and changes nothing else;
if it does not succeed, it fails. -/
def Local (p : Run α) : Prop :=
  ∀ m : Machine,
    (∃ a w, p { heap := m.heap, output := m.output } = .ok a w ∧
      p m = .ok a { m with heap := w.heap, output := w.output }) ∨
    ∃ e m', p m = .error e m' ∧ e.isFailure = true

theorem local_work (w : Work α) : Local (work w) := by
  intro m
  unfold work
  dsimp only
  cases w m.heap with
  | ok a heap => exact .inl ⟨a, _, rfl, rfl⟩
  | error f heap => exact .inr ⟨_, _, rfl, rfl⟩

theorem local_error (d : Diagnostic) : Local (error d : Run α) :=
  fun m => .inr ⟨_, m, rfl, rfl⟩

theorem local_isTrue (v : Value) : Local (isTrue v) :=
  fun _ => .inl ⟨_, _, rfl, rfl⟩

theorem local_binary (lang : Lang) (op : BinaryOp) (a b : Value) (line : Nat) :
    Local (binary lang op a b line) := by
  cases op
  case unknown symbol => exact local_error _
  all_goals
    intro m
    unfold binary
    dsimp only
    cases Work.binary _ a b m.heap with
    | ok v heap => exact .inl ⟨v, _, rfl, rfl⟩
    | error f heap => exact .inr ⟨_, _, rfl, rfl⟩

theorem local_unary (op : UnaryOp) (v : Value) (line : Nat) : Local (unary op v line) := by
  cases op with
  | negate =>
    unfold unary
    dsimp only
    split
    · exact local_work _
    · exact local_error _
  | not => exact fun _ => .inl ⟨_, _, rfl, rfl⟩
  | unknown symbol => exact local_error _

theorem local_print (vs : List Value) : Local (print vs) := by
  intro m
  have hprint (m : Machine) : print vs m = (lift (vs.mapM m.heap.printed) >>= fun texts =>
      write (" ".intercalate texts ++ "\n")) m := rfl
  rw [hprint, hprint]
  cases vs.mapM m.heap.printed with
  | ok texts => exact .inl ⟨(), _, rfl, rfl⟩
  | error f => exact .inr ⟨_, _, rfl, rfl⟩

/-- The symbol of an operator says which one it is, if it is one. -/
theorem binary_ofSymbol {lang : Lang} {op : BinaryOp} {a b v : Value} {line : Nat} {m m' : Machine}
    (h : binary lang op a b line m = .ok v m') :
    binary .both (.ofSymbol op.symbol) a b line m = .ok v m' := by
  cases op
  case unknown symbol => cases h
  all_goals exact h

theorem unary_ofSymbol {op : UnaryOp} {v w : Value} {line : Nat} {m m' : Machine}
    (h : unary op v line m = .ok w m') : unary (.ofSymbol op.symbol) v line m = .ok w m' := by
  cases op
  case unknown symbol => cases h
  all_goals exact h

section

variable {p : Run α} {m m' : Machine} {a : α}

theorem Local.ok (hp : Local p) (h : p m = .ok a m') :
    ∃ w, p { heap := m.heap, output := m.output } = .ok a w ∧
      m' = { m with heap := w.heap, output := w.output } := by
  rcases hp m with ⟨b, w, hw, hb⟩ | ⟨e, m'', he, -⟩
  · rw [h] at hb
    cases hb
    exact ⟨w, hw, rfl⟩
  · rw [h] at he
    cases he

theorem Local.failure (hp : Local p) {e : Exit} (h : p m = .error e m') : e.isFailure = true := by
  rcases hp m with ⟨b, w, -, hb⟩ | ⟨e', m'', he, hfail⟩
  · rw [h] at hb
    cases hb
  · rw [h] at he
    cases he
    exact hfail

theorem Local.rooted (hp : Local p) (h : p m = .ok a m') (hm : m.Rooted) : m'.Rooted := by
  obtain ⟨w, -, rfl⟩ := hp.ok h
  exact ⟨hm.present, hm.outermost⟩

theorem Local.borrow (hp : Local p) (h : p m = .ok a m') (next : List Instr)
    (temps : Bindings Value) :
    Coded.borrow p (m.coded next temps) = .ok a (m'.coded next temps) := by
  obtain ⟨w, hw, rfl⟩ := hp.ok h
  unfold Coded.borrow Machine.coded
  rw [hw]

end

end Run

section

variable {α β : Type} {C start mid stop : List Instr} {m m₁ m' : Machine}

/-- From `start`, with what `m` holds, the code `C` comes to `stop`, with what `m'` holds. -/
def Arrives (C : List Instr) (m : Machine) (start : List Instr) (m' : Machine)
    (stop : List Instr) : Prop :=
  ∀ temps, ∃ temps', (m.coded start temps).Reaches C (m'.coded stop temps')

theorem Arrives.trans (h : Arrives C m start m₁ mid) (h' : Arrives C m₁ mid m' stop) :
    Arrives C m start m' stop := by
  intro temps
  obtain ⟨temps₁, hreach⟩ := h temps
  obtain ⟨temps₂, hreach'⟩ := h' temps₁
  exact ⟨temps₂, hreach.trans hreach'⟩

/-- The code comes from `start` to `stop` and does nothing on the way. -/
def Skips (C start stop : List Instr) : Prop :=
  ∀ m, Arrives C m start m stop

theorem Skips.refl (C start : List Instr) : Skips C start start :=
  fun _ temps => ⟨temps, .refl⟩

theorem skips_label (C : List Instr) (l : Label) (line : Nat) (rest : List Instr) :
    Skips C ({ op := .label l, line } :: rest) rest :=
  fun _ temps => ⟨temps, .single rfl⟩

theorem skips_jump {l : Label} (h : Instr.fromLabel l C = some stop) (line : Nat)
    (rest : List Instr) : Skips C ({ op := .jump l, line } :: rest) stop := by
  intro m temps
  refine ⟨temps, .single ?_⟩
  change (Coded.require (Instr.fromLabel l C) >>= _) _ = _
  rw [h]
  rfl

/-- Where `ruk` and `age_badho` lead. -/
structure Targets where
  out : Option Label := none
  again : Option Label := none

/-- The code comes to where an exit leads. A failure leads nowhere, and giving back a value is not
possible here. -/
def Targets.Lead (t : Targets) (C : List Instr) (m : Machine) (start : List Instr) (m' : Machine) :
    Exit → Prop
  | .breakLoop => m'.Rooted ∧ ∀ l ∈ t.out, ∀ stop ∈ Instr.fromLabel l C, Arrives C m start m' stop
  | .continueLoop =>
    m'.Rooted ∧ ∀ l ∈ t.again, ∀ stop ∈ Instr.fromLabel l C, Arrives C m start m' stop
  | .giveBack _ => False
  | _ => True

theorem Targets.Lead.after {t : Targets} {e : Exit} (h : Arrives C m start m₁ mid)
    (h' : t.Lead C m₁ mid m' e) : t.Lead C m start m' e := by
  cases e with
  | breakLoop => exact ⟨h'.1, fun l hl stop hstop => h.trans (h'.2 l hl stop hstop)⟩
  | continueLoop => exact ⟨h'.1, fun l hl stop hstop => h.trans (h'.2 l hl stop hstop)⟩
  | giveBack v => exact h'
  | error d => trivial
  | fault f => trivial
  | exhausted => trivial

theorem Targets.lead_of_failure {t : Targets} {e : Exit} (h : e.isFailure = true) :
    t.Lead C m start m' e := by
  cases e with
  | breakLoop | continueLoop | giveBack v => cases h
  | error d | fault f | exhausted => trivial

/-- The code from `start` on does what `p` does and goes on at `behind a` if `p` ends with `a`. -/
structure CarriesOut (C : List Instr) (t : Targets) (start : List Instr) (p : Run α)
    (behind : α → List Instr) : Prop where
  ends : ∀ {m a m'}, m.Rooted → p m = .ok a m' → m'.Rooted ∧ Arrives C m start m' (behind a)
  exits : ∀ {m e m'}, m.Rooted → p m = .error e m' → t.Lead C m start m' e

namespace CarriesOut

variable {t : Targets} {p : Run α} {f : α → Run β} {behind : α → List Instr}
  {behind' : β → List Instr}

theorem pure (C : List Instr) (t : Targets) (a : α) (behind : α → List Instr) :
    CarriesOut C t (behind a) (Pure.pure a) behind where
  ends hm h := by
    obtain ⟨rfl, rfl⟩ := pure_ok h
    exact ⟨hm, Skips.refl C _ _⟩
  exits _ h := by cases h

theorem bind (hp : CarriesOut C t start p behind)
    (hf : ∀ a, CarriesOut C t (behind a) (f a) behind') :
    CarriesOut C t start (p >>= f) behind' where
  ends hm h := by
    obtain ⟨a, m₁, hpm, hfm⟩ := bind_eq_ok h
    obtain ⟨hm₁, harr⟩ := hp.ends hm hpm
    obtain ⟨hm', harr'⟩ := (hf a).ends hm₁ hfm
    exact ⟨hm', harr.trans harr'⟩
  exits hm h := by
    rcases bind_eq_error h with hpm | ⟨a, m₁, hpm, hfm⟩
    · exact hp.exits hm hpm
    · obtain ⟨hm₁, harr⟩ := hp.ends hm hpm
      exact .after harr ((hf a).exits hm₁ hfm)

theorem before (h : Skips C start mid) (hp : CarriesOut C t mid p behind) :
    CarriesOut C t start p behind where
  ends hm hpm := by
    obtain ⟨hm', harr⟩ := hp.ends hm hpm
    exact ⟨hm', (h _).trans harr⟩
  exits hm hpm := .after (h _) (hp.exits hm hpm)

theorem after {behind₁ : α → List Instr} (hp : CarriesOut C t start p behind)
    (h : ∀ a, Skips C (behind a) (behind₁ a)) : CarriesOut C t start p behind₁ where
  ends hm hpm := by
    obtain ⟨hm', harr⟩ := hp.ends hm hpm
    exact ⟨hm', harr.trans (h _ _)⟩
  exits hm hpm := hp.exits hm hpm

theorem ite {p q : Run β} {b : Bool} {yes no : List Instr} (hp : CarriesOut C t yes p behind')
    (hq : CarriesOut C t no q behind') :
    CarriesOut C t (if b then yes else no) (if b then p else q) behind' := by
  cases b with
  | true => exact hp
  | false => exact hq

/-- A turn of a loop takes the exits that lead to the ends of the loop. -/
theorem turn {body : Run Unit} {l k : Label} {again out : List Instr} (t : Targets)
    (hagain : Instr.fromLabel k C = some again) (hout : Instr.fromLabel l C = some out)
    (h : CarriesOut C { out := some l, again := some k } start body fun _ => again) :
    CarriesOut C t start (Run.turn body) fun goesOn => if goesOn then again else out where
  ends {m b m'} hm hok := by
    unfold Run.turn at hok
    cases hbody : body m with
    | ok u m₁ =>
      rw [hbody] at hok
      cases hok
      exact h.ends hm hbody
    | error e m₁ =>
      rw [hbody] at hok
      have hlead := h.exits hm hbody
      cases e with
      | breakLoop =>
        cases hok
        exact ⟨hlead.1, hlead.2 l rfl out hout⟩
      | continueLoop =>
        cases hok
        exact ⟨hlead.1, hlead.2 k rfl again hagain⟩
      | giveBack v | error d | fault f | exhausted => cases hok
  exits {m e m'} hm herr := by
    unfold Run.turn at herr
    cases hbody : body m with
    | ok u m₁ =>
      rw [hbody] at herr
      cases herr
    | error e' m₁ =>
      rw [hbody] at herr
      have hlead := h.exits hm hbody
      cases e' with
      | breakLoop | continueLoop => cases herr
      | giveBack v => exact hlead.elim
      | error d | fault f | exhausted =>
        cases herr
        trivial

section

variable {condition : Run Value} {yes no : List Instr}

/-- A test leads to the one place or the other. -/
theorem test {p q : Run β}
    (h : CarriesOut C t start (condition >>= Run.isTrue) fun b => if b then yes else no)
    (hp : CarriesOut C t yes p behind') (hq : CarriesOut C t no q behind') :
    CarriesOut C t start (do if ← Run.isTrue (← condition) then p else q) behind' := by
  rw [← bind_assoc]
  exact h.bind fun b => .ite hp hq

theorem failure (C : List Instr) (t : Targets) (start : List Instr) {e : Exit}
    (h : e.isFailure = true) (behind : α → List Instr) :
    CarriesOut C t start (throw e : Run α) behind where
  ends _ hok := by cases hok
  exits _ herr := by
    cases herr
    exact Targets.lead_of_failure h

theorem whileLoop {body : Run Unit} {again out : List Instr}
    (htest : CarriesOut C t again (condition >>= Run.isTrue) fun b => if b then yes else out)
    (hturn : CarriesOut C t yes (Run.turn body) fun goesOn => if goesOn then again else out)
    (limit : Int) (line n : Nat) :
    CarriesOut C t again (Run.whileLoop limit line condition body n) fun _ => out := by
  have done := CarriesOut.pure C t () fun _ => out
  induction n with
  | zero => exact htest.test (.failure C t yes rfl _) done
  | succ n ih => exact htest.test (hturn.bind fun _ => .ite ih done) done

end

end CarriesOut

end

end Bhasha
