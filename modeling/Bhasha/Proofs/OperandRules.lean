import Bhasha.Analysis
import Bhasha.Proofs.MachineRelations

namespace Bhasha

/-- What the analyser can know of a value. -/
def Value.tag : Value → Tag
  | none => .none
  | bool _ => .bool
  | int _ | float _ _ => .number
  | str _ => .string
  | list _ => .list
  | dict _ => .dict
  | function _ | lambda _ | builtin _ => .function
  | classValue _ => .classTag
  | object _ => .any

namespace Tag

/-- Truth values count as numbers. -/
def isNumeric : Tag → Bool
  | number | bool => true
  | _ => false

/-- Texts and lists can be repeated. -/
def isSequence : Tag → Bool
  | string | list => true
  | _ => false

/-- The tags of numbers, texts, truth values, lists and dictionaries. -/
def isData : Tag → Bool
  | number | string | bool | list | dict => true
  | _ => false

end Tag

namespace BinaryOp

/-- Is there a result for operands like these, if not for all of them? -/
def hasMeaning (op : BinaryOp) (left right : Tag) : Bool :=
  let numbers := left.isNumeric && right.isNumeric
  match op with
  | add => numbers || left == .string || right == .string || (left == .list && right == .list)
  | subtract | divide => numbers
  | multiply =>
    numbers || (left.isSequence && right.isNumeric) || (left.isNumeric && right.isSequence)
  | modulo => numbers || left == .string
  | less | greater | lessEqual | greaterEqual =>
    numbers || (left.isSequence && left == right)
  | or | and | equal | notEqual => true
  | unknown _ => false

theorem isArithmetic_of_checkBinary {op : BinaryOp} {left right : Tag} {line : Int} {d : Diagnostic}
    (h : checkBinary op left right line = some d) : op.isArithmetic = true := by
  have hop : op.accepts left right = false := by
    rw [Bool.eq_false_iff]
    intro hop
    rw [checkBinary, if_pos hop] at h
    cases h
  simp only [accepts, Bool.or_eq_false_iff, Bool.not_eq_false'] at hop
  exact hop.1.1.2

end BinaryOp

theorem Value.isSome_num? (v : Value) : v.num?.isSome = v.tag.isNumeric := by
  cases v <;> rfl

theorem Value.num?_eq_none {v : Value} (h : v.tag.isNumeric = false) : v.num? = Option.none := by
  rw [← v.isSome_num?] at h
  exact Option.isSome_eq_false_iff.1 h |> Option.isNone_iff_eq_none.1

namespace Work

/-- The operation ends in a fault of type and leaves the heap as it is. -/
def Mistyped (w : Work Value) : Prop :=
  ∀ h, ∃ f, w h = .error f h ∧ f.kind = .type

theorem mistyped_arithmetic {op : BinaryOp} {f : Num → Num → Except Fault Num} {a b : Value}
    (hn : (a.tag.isNumeric && b.tag.isNumeric) = false) : Mistyped (arithmetic op f a b) := by
  intro h
  refine ⟨.unsupported op.symbol a.typeName b.typeName, ?_, rfl⟩
  rw [arithmetic]
  obtain ha | hb := Bool.and_eq_false_iff.1 hn
  · rw [Value.num?_eq_none ha]
    rfl
  · rw [Value.num?_eq_none hb]
    cases a.num? <;> rfl

theorem mistyped_add {a b : Value} (hm : BinaryOp.hasMeaning .add a.tag b.tag = false) :
    Mistyped (add a b) := by
  simp only [BinaryOp.hasMeaning, Bool.or_eq_false_iff] at hm
  obtain ⟨⟨⟨hnumbers, hleft⟩, hright⟩, hlists⟩ := hm
  have harith : add a b = arithmetic .add Num.add a b := by
    unfold add
    split
    · cases hleft
    · cases hright
    · cases hlists
    · rfl
  rw [harith]
  exact mistyped_arithmetic hnumbers

theorem mistyped_multiply {a b : Value} (hm : BinaryOp.hasMeaning .multiply a.tag b.tag = false) :
    Mistyped (multiply a b) := by
  simp only [BinaryOp.hasMeaning, Bool.or_eq_false_iff] at hm
  obtain ⟨⟨hnumbers, hleft⟩, hright⟩ := hm
  have harith : multiply a b = arithmetic .multiply Num.mul a b := by
    unfold multiply
    cases a <;> cases b <;> first | rfl | (cases hleft; done) | cases hright
  rw [harith]
  exact mistyped_arithmetic hnumbers

theorem mistyped_divide {a b : Value} (hm : BinaryOp.hasMeaning .divide a.tag b.tag = false) :
    Mistyped (divide a b) := by
  unfold divide
  split
  · exact fun h => ⟨noDivision, rfl, rfl⟩
  · exact mistyped_arithmetic hm

theorem mistyped_modulo {a b : Value} (hm : BinaryOp.hasMeaning .modulo a.tag b.tag = false) :
    Mistyped (modulo a b) := by
  obtain ⟨hnumbers, hleft⟩ := Bool.or_eq_false_iff.1 hm
  unfold modulo
  split
  · exact fun h => ⟨noDivision, rfl, rfl⟩
  · split
    · cases hleft
    · exact mistyped_arithmetic hnumbers

end Work

theorem Heap.ordered_of_no_meaning {op : BinaryOp} {a b : Value} (h : Heap)
    (hnumbers : (a.tag.isNumeric && b.tag.isNumeric) = false)
    (hsequences : (a.tag.isSequence && a.tag == b.tag) = false) :
    h.ordered op a b = .error (.notOrdered op.symbol a.typeName b.typeName) := by
  cases a <;> cases b <;> first | rfl | (cases hsequences; done) | cases hnumbers

namespace Work

theorem mistyped_binary {op : BinaryOp} {a b : Value} (hop : op.isArithmetic = true)
    (hm : op.hasMeaning a.tag b.tag = false) : Mistyped (binary op a b) := by
  have hordered {o : BinaryOp} (hm : BinaryOp.hasMeaning .less a.tag b.tag = false) :
      Mistyped (do return .bool (← ofExcept ((← get).ordered o a b))) := by
    intro h
    obtain ⟨hnumbers, hsequences⟩ := Bool.or_eq_false_iff.1 hm
    refine ⟨.notOrdered o.symbol a.typeName b.typeName, ?_, rfl⟩
    rw [bind_get, h.ordered_of_no_meaning hnumbers hsequences]
    rfl
  cases op
  case add => exact mistyped_add hm
  case subtract => exact mistyped_arithmetic hm
  case multiply => exact mistyped_multiply hm
  case divide => exact mistyped_divide hm
  case modulo => exact mistyped_modulo hm
  case less | greater | lessEqual | greaterEqual => exact hordered hm
  all_goals cases hop

end Work

/-- The error of an operation without a meaning. -/
def Diagnostic.invalidOperation (op : BinaryOp) (a b : Value) (line : Nat) : Diagnostic :=
  let symbol := op.symbol
  let left := a.typeName
  let right := b.typeName
  .plain .type s!"Invalid operation '{symbol}' between {left} and {right}" (some line)

theorem Run.binary_of_mistyped {lang : Lang} {op : BinaryOp} {a b : Value} (line : Nat)
    (m : Machine) (hop : op.isArithmetic = true) (h : Work.Mistyped (Work.binary op a b)) :
    Run.binary lang op a b line m = .error (.error (.invalidOperation op a b line)) m := by
  obtain ⟨f, hf, hkind⟩ := h m.heap
  cases op
  case or | and | equal | notEqual | unknown => cases hop
  all_goals
    unfold Run.binary
    dsimp only
    rw [hf]
    simp only [hkind, BEq.rfl, if_true]
    rfl

/-- An expression with values of that tag, for the tags of data. -/
def Tag.sample : Tag → Expr
  | number => .literal .number (.int 1) 1
  | string => .literal .string (.str "%s") 1
  | bool => .literal .boolean (.bool true) 1
  | list => .list [] 1
  | dict => .dict [] 1
  | _ => .literal .number .none 1

theorem Tag.sample_tag {t : Tag} (ht : t.isData = true) (c : Context) (m : Machine) :
    ∃ v m', Eval.expr c t.sample m = .ok v m' ∧ v.tag = t := by
  cases t <;> first | exact ⟨_, _, rfl, rfl⟩ | cases ht

theorem Number.one_lt_pow10 {n : Nat} (hn : n ≠ 0) : 1 < pow10 n :=
  Nat.one_lt_pow hn (by decide)

theorem Heap.text_one (h : Heap) : h.text (.int 1) = .ok "1" := by
  have hshort : ¬ Number.unwritable ≤ (1 : Int).natAbs :=
    Nat.not_le.2 (Number.one_lt_pow10 (by decide))
  show Heap.intText 1 = .ok "1"
  rw [Heap.intText, if_neg hshort]
  rfl

theorem Run.binary_of_ok {lang : Lang} {op : BinaryOp} {a b v : Value} {m : Machine} {h : Heap}
    (line : Nat) (hop : op.isArithmetic = true) (hv : Work.binary op a b m.heap = .ok v h) :
    Run.binary lang op a b line m = .ok v { m with heap := h } := by
  cases op
  case or | and | equal | notEqual | unknown => cases hop
  all_goals
    unfold Run.binary
    dsimp only
    rw [hv]

namespace Work

theorem add_text_left {s t : String} {b : Value} {h : Heap} (hb : h.text b = .ok t) :
    add (.str s) b h = .ok (.str (s ++ t)) h := by
  have htext : text b h = .ok t h := by
    rw [text, bind_get, hb]
    rfl
  exact bind_of_ok htext

theorem add_text_right {s t : String} {a : Value} {h : Heap} (ha : h.text a = .ok s) :
    add a (.str t) h = .ok (.str (s ++ t)) h := by
  have htext : text a h = .ok s h := by
    rw [text, bind_get, ha]
    rfl
  cases a
  case str =>
    cases ha
    rfl
  all_goals exact bind_of_ok htext

theorem exists_modulo_text {b : Value} {t : String} {h : Heap} (hzero : isZero b = false)
    (hb : h.text b = .ok t) : ∃ v, modulo (.str "%s") b h = .ok v h := by
  have hfill (f : Template.Filler) (keyed : Option (String → Except Fault Template.Filler))
      (hf : f.text = .ok t) : ∃ s, Template.fill "%s" ⟨f, keyed⟩ = .ok s := by
    obtain ⟨text, literal, number, string⟩ := f
    cases hf
    exact ⟨_, rfl⟩
  rw [modulo, hzero]
  obtain ⟨s, hs⟩ := hfill (filler h b) _ hb
  refine ⟨.str s, ?_⟩
  simp only [fillTemplate, Bool.false_eq_true, if_false]
  rw [bind_get, hs]
  rfl

theorem exists_number (n : Num) (h : Heap) : ∃ v h', number n h = .ok v h' := by
  unfold number
  split
  · exact ⟨_, _, rfl⟩
  · split
    · exact ⟨_, _, rfl⟩
    · exact ⟨_, _, rfl⟩

theorem exists_divide_one {a b : Value} (ha : a.num? = some (.int 1)) (hb : b.num? = some (.int 1))
    (hzero : isNearZero b = false) (h : Heap) : ∃ v h', divide a b h = .ok v h' := by
  obtain ⟨x, hx⟩ : ∃ x, Num.div (.int 1) (.int 1) = .ok x := ⟨_, rfl⟩
  simp only [divide, hzero, arithmetic, ha, hb, hx, Bool.false_eq_true, if_false]
  exact exists_number x h

end Work

theorem sample_result {op : BinaryOp} {tl tr : Tag} (hop : op.isArithmetic = true)
    (hl : tl.isData = true) (hr : tr.isData = true) (hm : op.hasMeaning tl tr = true)
    (c : Context) (input : List Char) :
    ∃ v m, Eval.expr c (.binary op tl.sample tr.sample 1) (.initial input) = .ok v m := by
  have hrun {a b : Value} {m₁ m₂ : Machine}
      (ha : Eval.expr c tl.sample (.initial input) = .ok a m₁)
      (hb : Eval.expr c tr.sample m₁ = .ok b m₂)
      (hv : ∃ v h, Work.binary op a b m₂.heap = .ok v h) :
      ∃ v m, Eval.expr c (.binary op tl.sample tr.sample 1) (.initial input) = .ok v m := by
    obtain ⟨v, h, hv⟩ := hv
    have hor : op ≠ .or := by rintro rfl; cases hop
    have hand : op ≠ .and := by rintro rfl; cases hop
    rw [expr_binary hor hand, bind_of_ok ha, bind_of_ok hb, Run.binary_of_ok 1 hop hv]
    exact ⟨_, _, rfl⟩
  cases tl
  case function | classTag | none | any | custom => cases hl
  all_goals
    cases tr
    case function | classTag | none | any | custom => cases hr
  all_goals
    cases op
    case or | and | equal | notEqual | unknown => cases hop
  -- An integer as text and a quotient do not come out of a definition alone.
  case number.string.add =>
    have hadd := Work.add_text_right (t := "%s") (Heap.text_one {})
    exact hrun rfl rfl ⟨_, _, hadd⟩
  case string.number.add =>
    exact hrun rfl rfl ⟨_, _, Work.add_text_left (Heap.text_one _)⟩
  case string.number.modulo =>
    obtain ⟨v, hv⟩ := Work.exists_modulo_text (b := .int 1) rfl (Heap.text_one {})
    exact hrun rfl rfl ⟨v, {}, hv⟩
  case number.number.divide | number.bool.divide | bool.number.divide | bool.bool.divide =>
    exact hrun rfl rfl (Work.exists_divide_one rfl rfl rfl _)
  all_goals first | (cases hm; done) | exact ⟨_, _, rfl⟩

/-- What the rules for operands refuse ends in the error for an operation without a meaning, if it
has none. Otherwise there are operands of these tags for which the run goes on. -/
theorem rejected_operation_fails (op : BinaryOp) (tl tr : Tag) (line : Int) (d : Diagnostic)
    (hd : checkBinary op tl tr line = some d) :
    (op.hasMeaning tl tr = false →
      ∀ (c : Context) (a b : Expr) (n : Nat) (l r : Value) (m m₁ m₂ : Machine),
        Eval.expr c a m = .ok l m₁ → l.tag = tl → Eval.expr c b m₁ = .ok r m₂ → r.tag = tr →
        Eval.expr c (.binary op a b n) m = .error (.error (.invalidOperation op l r n)) m₂) ∧
    (op.hasMeaning tl tr = true → tl.isData = true → tr.isData = true →
      ∃ a b : Expr, ∀ (c : Context) (input : List Char), ∃ l r v m₁ m₂ m₃,
        Eval.expr c a (.initial input) = .ok l m₁ ∧ l.tag = tl ∧
        Eval.expr c b m₁ = .ok r m₂ ∧ r.tag = tr ∧
        Eval.expr c (.binary op a b 1) (.initial input) = .ok v m₃) := by
  have hop : op.isArithmetic = true := BinaryOp.isArithmetic_of_checkBinary hd
  have hor : op ≠ .or := by rintro rfl; cases hop
  have hand : op ≠ .and := by rintro rfl; cases hop
  constructor
  · rintro hm c a b n l r m m₁ m₂ ha rfl hb rfl
    rw [expr_binary hor hand, bind_of_ok ha, bind_of_ok hb]
    exact Run.binary_of_mistyped n m₂ hop (Work.mistyped_binary hop hm)
  · intro hm hl hr
    refine ⟨tl.sample, tr.sample, fun c input => ?_⟩
    obtain ⟨l, m₁, ha, htl⟩ := Tag.sample_tag hl c (.initial input)
    obtain ⟨r, m₂, hb, htr⟩ := Tag.sample_tag hr c m₁
    obtain ⟨v, m₃, hv⟩ := sample_result hop hl hr hm c input
    exact ⟨l, r, v, m₁, m₂, m₃, ha, htl, hb, htr, hv⟩

/-- A text and a number have no order; a truth value and a number have a sum. -/
theorem rejected_operations_of_scalars :
    let context : Context := { perform := fun _ => throw .exhausted, turns := 0 }
    let text : Expr := .literal .string (.str "a") 1
    let one : Expr := .literal .number (.int 1) 1
    Eval.expr context (.binary .less text one 1) .initial =
      .error (.error (.invalidOperation .less (.str "a") (.int 1) 1)) .initial ∧
    ∃ a b : Expr, ∀ (c : Context) (input : List Char), ∃ l r v m₁ m₂ m₃,
      Eval.expr c a (.initial input) = .ok l m₁ ∧ l.tag = .bool ∧
      Eval.expr c b m₁ = .ok r m₂ ∧ r.tag = .number ∧
      Eval.expr c (.binary .add a b 1) (.initial input) = .ok v m₃ :=
  ⟨(rejected_operation_fails .less .string .number 1 _ rfl).1 rfl _ _ _ 1 (.str "a") (.int 1)
      _ _ _ rfl rfl rfl rfl,
    (rejected_operation_fails .add .bool .number 1 _ rfl).2 rfl rfl rfl⟩

/-- The rules refuse a text and a number as operands of `+`, and a run joins them. -/
theorem rejected_sum_succeeds :
    let context : Context := { perform := fun _ => throw .exhausted, turns := 0 }
    let text : Expr := .literal .string (.str "a") 1
    let one : Expr := .literal .number (.int 1) 1
    (checkBinary .add (Value.str "a").tag (Value.int 1).tag 1).isSome = true ∧
    Eval.expr context text .initial = .ok (.str "a") .initial ∧
    Eval.expr context one .initial = .ok (.int 1) .initial ∧
    Eval.expr context (.binary .add text one 1) .initial = .ok (.str "a1") .initial := by
  intro context text one
  have htext : Eval.expr context text .initial = .ok (.str "a") .initial := rfl
  have hone : Eval.expr context one .initial = .ok (.int 1) .initial := rfl
  have hadd : Work.binary .add (.str "a") (.int 1) {} = .ok (.str ("a" ++ "1")) {} :=
    Work.add_text_left (Heap.text_one {})
  refine ⟨rfl, htext, hone, ?_⟩
  rw [expr_binary (by decide) (by decide), bind_of_ok htext, bind_of_ok hone,
    Run.binary_of_ok (m := .initial) 1 rfl hadd]
  rfl

end Bhasha
