import Mathlib
import Bhasha.Proofs.CodeLayout
import Bhasha.Proofs.SourceConcatenation

namespace Bhasha

open Lower (temp)

namespace Operand

def temps : Operand → List Temp
  | .temp t => [t]
  | .scalar _ => []

def isTemp : Operand → Bool
  | .temp _ => true
  | .scalar _ => false

@[simp]
theorem temps_temp (t : Temp) : (Operand.temp t).temps = [t] :=
  rfl

@[simp]
theorem temps_scalar (v : Scalar) : (Operand.scalar v).temps = [] :=
  rfl

@[simp]
theorem temps_ofTemp (k : Nat) : (Operand.ofTemp k).temps = [Lower.temp k] :=
  rfl

end Operand

namespace Operation

/-- The temporaries that get a value. -/
@[simp]
def results : Operation → List Temp
  | .binary t _ _ _ | .unary t _ _ | .assign t _ | .copy (.temp t) _ | .newObject t _
  | .loadField t _ _ | .loadIndex t _ _ => [t]
  | .call t? _ _ => t?.toList
  | _ => []

/-- The operands in all fields of an operation. -/
@[simp]
def operands : Operation → List Operand
  | .binary _ _ a b | .loadIndex _ a b | .storeField a _ b => [a, b]
  | .unary _ _ a | .assign _ a | .branch a _ _ | .param a | .loadField _ a _ | .raiseError a => [a]
  | .copy _ (.temp t) => [.temp t]
  | .storeIndex a i v => [a, i, v]
  | .giveBack v? | .input _ v? => v?.toList
  | .print vs => vs
  | _ => []

/-- The temporaries whose values are used. -/
@[simp]
def uses (op : Operation) : List Temp :=
  op.operands.flatMap Operand.temps

/-- Is a temporary in each place for the value of an expression? A constant of the program is only
ever assigned, and a name only read into a temporary. -/
def isValued : Operation → Bool
  | .assign _ _ => true
  | .copy (.temp _) (.temp _) => false
  | .copy (.named _) (.named _) => false
  | op => op.operands.all Operand.isTemp

end Operation

/-- The temporaries that get a value in the code. -/
def Instr.results (code : List Instr) : List Temp :=
  code.flatMap fun i => i.op.results

/-- Where the temporaries `known` have values, the code uses no others than these and those that it
has given a value before, and it gives values to `given`, in this order. -/
inductive Fits : (known : List Temp) → List Instr → (given : List Temp) → Prop
  | nil {known} : Fits known [] []
  | cons {known i code given} : i.op.isValued = true → (∀ t ∈ i.op.uses, t ∈ known) →
      Fits (i.op.results ++ known) code given → Fits known (i :: code) (i.op.results ++ given)

namespace Fits

variable {known known' given given' : List Temp} {code code' : List Instr}

theorem mono (h : Fits known code given) (hknown : ∀ t ∈ known, t ∈ known') :
    Fits known' code given := by
  induction h generalizing known' with
  | nil => exact .nil
  | cons hvalued huses _ ih =>
    refine .cons hvalued (fun t ht => hknown t (huses t ht)) (ih fun t ht => ?_)
    rw [List.mem_append] at ht ⊢
    exact ht.imp_right (hknown t)

/-- Code that needs to know nothing can stand anywhere. -/
theorem anywhere (h : Fits [] code given) : Fits known code given :=
  h.mono (by simp)

theorem append (h : Fits known code given) (h' : Fits (given ++ known) code' given') :
    Fits known (code ++ code') (given ++ given') := by
  induction h with
  | nil => exact h'
  | cons hvalued huses _ ih =>
    rw [List.append_assoc]
    exact .cons hvalued huses (ih (h'.mono fun t ht => by grind))

theorem pushAll {ks : List Nat} {l : Nat} (h : ∀ k ∈ ks, temp k ∈ known) :
    Fits known (ks.map (.pushes l)) [] := by
  induction ks with
  | nil => exact .nil
  | cons k ks ih =>
    obtain ⟨hk, hks⟩ := List.forall_mem_cons.1 h
    exact .cons rfl (by simpa using hk) (ih hks)

theorem results_eq (h : Fits known code given) : Instr.results code = given := by
  induction h with
  | nil => rfl
  | cons _ _ _ ih => rw [Instr.results, List.flatMap_cons, ← ih, Instr.results]

theorem valued (h : Fits known code given) : ∀ i ∈ code, i.op.isValued = true := by
  induction h with
  | nil => simp
  | cons hvalued _ _ ih => simpa using ⟨hvalued, ih⟩

/-- What is used at a place is known or was given a value before. -/
theorem mem_of_uses (h : Fits known code given) {j : Nat} {i : Instr} (hi : code[j]? = some i)
    {t : Temp} (ht : t ∈ i.op.uses) : t ∈ Instr.results (code.take j) ∨ t ∈ known := by
  induction h generalizing j with
  | nil => simp at hi
  | cons hvalued huses _ ih =>
    cases j with
    | zero =>
      cases hi
      exact .inr (huses t ht)
    | succ j =>
      have hrest := ih hi
      rw [List.take_succ_cons, Instr.results, List.flatMap_cons]
      rw [List.mem_append] at hrest ⊢
      tauto

end Fits

/-- The temporaries from the `n`-th on up to the `n'`-th, each once. -/
structure Spans (n : Nat) (ts : List Temp) (n' : Nat) : Prop where
  le : n ≤ n'
  perm : ts.Perm ((List.Ico n n').map temp)

namespace Spans

variable {n n₁ n₂ : Nat} {ts ts' : List Temp}

theorem nil : Spans n [] n :=
  ⟨Nat.le_refl n, by simp⟩

theorem one : Spans n [temp n] (n + 1) :=
  ⟨Nat.le_succ n, by simp⟩

theorem append (h : Spans n ts n₁) (h' : Spans n₁ ts' n₂) : Spans n (ts ++ ts') n₂ := by
  refine ⟨Nat.le_trans h.le h'.le, ?_⟩
  rw [← List.Ico.append_consecutive h.le h'.le, List.map_append]
  exact h.perm.append h'.perm

theorem of_perm (h : Spans n ts n₁) (hts : ts'.Perm ts) : Spans n ts' n₁ :=
  ⟨h.le, hts.trans h.perm⟩

end Spans

mutual

theorem Expr.Laid.fits : ∀ {e n code k n'}, Expr.Laid e n code k n' →
    ∃ ts, Fits [] code ts ∧ Spans n ts n' ∧ temp k ∈ ts
  | _, _, _, _, _, .literal | _, _, _, _, _, .var | _, _, _, _, _, .thisObject =>
    ⟨_, .cons rfl (by simp) .nil, .one, by simp⟩
  | _, _, _, _, _, .list hes => by
    obtain ⟨ts, hes, hs, hks⟩ := hes.fits
    refine ⟨_, hes.append ((Fits.pushAll fun k hk => ?_).append (.cons rfl (by simp) .nil)),
      hs.append .one, by simp⟩
    simpa using hks k hk
  | _, _, _, _, _, .dict hps => by
    obtain ⟨ts, hps, hs⟩ := hps.fits
    exact ⟨_, hps.append (.cons rfl (by simp) .nil), hs.append .one, by simp⟩
  | _, _, _, _, _, .binary ha hb | _, _, _, _, _, .index ha hb => by
    obtain ⟨ts, ha, hs, hk⟩ := ha.fits
    obtain ⟨ts', hb, hs', hk'⟩ := hb.fits
    refine ⟨_, ha.append (hb.anywhere.append (.cons rfl ?_ .nil)), hs.append (hs'.append .one), ?_⟩
    · simp [hk, hk']
    · simp
  | _, _, _, _, _, .unary ha | _, _, _, _, _, .property ha => by
    obtain ⟨ts, ha, hs, hk⟩ := ha.fits
    exact ⟨_, ha.append (.cons rfl (by simp [hk]) .nil), hs.append .one, by simp⟩
  | _, _, _, _, _, .paren ha => ha.fits
  | _, _, _, _, _, .call hes | _, _, _, _, _, .superCall hes => by
    obtain ⟨ts, hes, hs⟩ := hes.fits
    exact ⟨_, hes.append (.cons rfl (by simp) .nil), hs.append .one, by simp⟩
  | _, _, _, _, _, .lambda ha => by
    obtain ⟨ts, ha, hs, hk⟩ := ha.fits
    exact ⟨_, .cons rfl (by simp) (.cons rfl (by simp) (ha.anywhere.append (.cons rfl
      (by simp [hk]) (.cons rfl (by simp) (.cons rfl (by simp) .nil))))), hs.append .one, by simp⟩
  | _, _, _, _, _, .newObject hes => by
    obtain ⟨ts, hes, hs⟩ := hes.fits
    exact ⟨_, .cons rfl (by simp) (hes.anywhere.append (.cons rfl (by simp) .nil)),
      Spans.one.append (hs.append .one), by simp⟩
  | _, _, _, _, _, .method ha hes => by
    obtain ⟨ts, ha, hs, hk⟩ := ha.fits
    obtain ⟨ts', hes, hs'⟩ := hes.fits
    refine ⟨_, ha.append (.cons rfl ?_ (hes.anywhere.append (.cons rfl (by simp) .nil))),
      hs.append (hs'.append .one), by simp⟩
    simp [hk]

theorem Expr.LaidEach.fits : ∀ {es n code ks n'}, Expr.LaidEach es n code ks n' →
    ∃ ts, Fits [] code ts ∧ Spans n ts n' ∧ ∀ k ∈ ks, temp k ∈ ts
  | _, _, _, _, _, .nil => ⟨[], .nil, .nil, by simp⟩
  | _, _, _, _, _, .cons he hes => by
    obtain ⟨ts, he, hs, hk⟩ := he.fits
    obtain ⟨ts', hes, hs', hks⟩ := hes.fits
    refine ⟨_, he.append hes.anywhere, hs.append hs', ?_⟩
    simpa [hk] using fun k hk => .inr (hks k hk)

theorem Expr.LaidArguments.fits : ∀ {l es n code n'}, Expr.LaidArguments l es n code n' →
    ∃ ts, Fits [] code ts ∧ Spans n ts n'
  | _, _, _, _, _, .nil => ⟨[], .nil, .nil⟩
  | _, _, _, _, _, .cons he hes => by
    obtain ⟨ts, he, hs, hk⟩ := he.fits
    obtain ⟨ts', hes, hs'⟩ := hes.fits
    exact ⟨_, he.append (.cons rfl (by simp [hk]) hes.anywhere), hs.append hs'⟩

theorem Expr.LaidPairs.fits : ∀ {l ps n code n'}, Expr.LaidPairs l ps n code n' →
    ∃ ts, Fits [] code ts ∧ Spans n ts n'
  | _, _, _, _, _, .nil => ⟨[], .nil, .nil⟩
  | _, _, _, _, _, .cons hkey hvalue hps => by
    obtain ⟨ts, hkey, hs, hk⟩ := hkey.fits
    obtain ⟨ts', hvalue, hs', hk'⟩ := hvalue.fits
    obtain ⟨ts'', hps, hs''⟩ := hps.fits
    refine ⟨_, hkey.append (hvalue.anywhere.append (.cons rfl ?_ (.cons rfl ?_ hps.anywhere))),
      hs.append (hs'.append hs'')⟩
    · simp [hk]
    · simp [hk']

end

theorem fits_jumps (known : List Temp) (loop : Option Loop) (target : Loop → Label) (l : Nat) :
    Fits known (Loop.jumps loop target l) [] := by
  cases loop with
  | none => exact .nil
  | some L => exact .cons rfl (by simp) .nil

mutual

theorem Stmt.Laid.fits : ∀ {loop s n code n'}, Stmt.Laid loop s n code n' →
    ∃ ts, Fits [] code ts ∧ Spans n ts n'
  | _, _, _, _, _, .expr he => by
    obtain ⟨ts, he, hs, -⟩ := he.fits
    exact ⟨ts, he, hs⟩
  | _, _, _, _, _, .assign he | _, _, _, _, _, .prompt he | _, _, _, _, _, .giveValue he
  | _, _, _, _, _, .raiseError he => by
    obtain ⟨ts, he, hs, hk⟩ := he.fits
    exact ⟨_, he.append (.cons rfl (by simp [hk]) .nil), by simpa using hs⟩
  | _, _, _, _, _, .setProperty ha he => by
    obtain ⟨ts, ha, hs, hk⟩ := ha.fits
    obtain ⟨ts', he, hs', hk'⟩ := he.fits
    refine ⟨_, ha.append (he.anywhere.append (.cons rfl ?_ .nil)), by simpa using hs.append hs'⟩
    simp [hk, hk']
  | _, _, _, _, _, .setIndex ha hi he => by
    obtain ⟨ts, ha, hs, hk⟩ := ha.fits
    obtain ⟨ts', hi, hs', hk'⟩ := hi.fits
    obtain ⟨ts'', he, hs'', hk''⟩ := he.fits
    refine ⟨_, ha.append (hi.anywhere.append (he.anywhere.append (.cons rfl ?_ .nil))),
      by simpa using hs.append (hs'.append hs'')⟩
    simp [hk, hk', hk'']
  | _, _, _, _, _, .print hes => by
    obtain ⟨ts, hes, hs, hks⟩ := hes.fits
    refine ⟨_, hes.append (.cons ?_ ?_ .nil), by simpa using hs⟩
    · simp [Operation.isValued, Operand.isTemp, Operand.ofTemp]
    · intro t ht
      obtain ⟨k, hk, rfl⟩ : ∃ k ∈ _, t = temp k := by simpa using ht
      exact List.mem_append_left _ (hks k hk)
  | _, _, _, _, _, .input | _, _, _, _, _, .giveBack => ⟨_, .cons rfl (by simp) .nil, .nil⟩
  | _, _, _, _, _, .ifOnly hc hbody hbs => by
    obtain ⟨ts, hc, hs, hk⟩ := hc.fits
    obtain ⟨ts', hbody, hs'⟩ := hbody.fits
    obtain ⟨ts'', hbs, hs''⟩ := hbs.fits
    refine ⟨_, hc.append (.cons rfl (by simp [hk]) (.cons rfl (by simp) (hbody.anywhere.append
      (.cons rfl (by simp) (hbs.anywhere.append (.cons rfl (by simp) .nil)))))), ?_⟩
    simpa using hs.append (hs'.append hs'')
  | _, _, _, _, _, .ifElse hc hbody hbs hb => by
    obtain ⟨ts, hc, hs, hk⟩ := hc.fits
    obtain ⟨ts', hbody, hs'⟩ := hbody.fits
    obtain ⟨ts'', hbs, hs''⟩ := hbs.fits
    obtain ⟨ts₃, hb, hs₃⟩ := hb.fits
    refine ⟨_, hc.append (.cons rfl (by simp [hk]) (.cons rfl (by simp) (hbody.anywhere.append
      (.cons rfl (by simp) (hbs.anywhere.append (.cons rfl (by simp) (hb.anywhere.append
        (.cons rfl (by simp) .nil)))))))), ?_⟩
    simpa using hs.append (hs'.append (hs''.append hs₃))
  | _, _, _, _, _, .whileLoop hc hbody => by
    obtain ⟨ts, hc, hs, hk⟩ := hc.fits
    obtain ⟨ts', hbody, hs'⟩ := hbody.fits
    refine ⟨_, .cons rfl (by simp) (hc.anywhere.append (.cons rfl (by simp [hk])
      (.cons rfl (by simp) (hbody.anywhere.append (.cons rfl (by simp) (.cons rfl (by simp)
        .nil)))))), ?_⟩
    simpa using hs.append hs'
  | _, _, _, _, _, .forLoop he hbody => by
    obtain ⟨ts, he, hs, hk⟩ := he.fits
    obtain ⟨ts', hbody, hs'⟩ := hbody.fits
    refine ⟨_, he.append (.cons rfl (by simp [hk]) (.cons rfl (by simp) (.cons rfl (by simp)
      (.cons rfl (by simp) (.cons rfl (by simp) (.cons rfl (by simp) (.cons rfl (by simp)
        (.cons rfl (by simp) (.cons rfl (by simp) (.cons rfl (by simp) (hbody.anywhere.append
          (.cons rfl (by simp) (.cons rfl (by simp) .nil))))))))))))), ?_⟩
    -- The first two temporaries are made before those of the iterable, and used behind them.
    have hall := Spans.one.append (Spans.one.append (hs.append (Spans.one.append hs')))
    refine hall.of_perm ?_
    simpa using List.perm_append_comm_assoc ts [temp _, temp _] (temp _ :: ts')
  | _, _, _, _, _, .breakLoop | _, _, _, _, _, .continueLoop => ⟨[], fits_jumps _ _ _ _, .nil⟩
  | _, _, _, _, _, .function hf => hf.fits
  | _, _, _, _, _, .classDef hfs => by
    obtain ⟨ts, hfs, hs⟩ := hfs.fits
    refine ⟨_, .cons rfl (by simp) (.cons rfl (by simp) (hfs.anywhere.append
      (.cons rfl (by simp) .nil))), ?_⟩
    simpa using hs

theorem Stmt.LaidAll.fits : ∀ {loop ss n code n'}, Stmt.LaidAll loop ss n code n' →
    ∃ ts, Fits [] code ts ∧ Spans n ts n'
  | _, _, _, _, _, .nil => ⟨[], .nil, .nil⟩
  | _, _, _, _, _, .cons hst hss => by
    obtain ⟨ts, hst, hs⟩ := hst.fits
    obtain ⟨ts', hss, hs'⟩ := hss.fits
    exact ⟨_, hst.append hss.anywhere, hs.append hs'⟩

theorem Branch.LaidAll.fits : ∀ {loop l out last labels bs n code n'},
    Branch.LaidAll loop l out last labels bs n code n' → ∃ ts, Fits [] code ts ∧ Spans n ts n'
  | _, _, _, _, _, _, _, _, _, .nil => ⟨[], .nil, .nil⟩
  | _, _, _, _, _, _, _, _, _, .cons hc hbody hbs => by
    obtain ⟨ts, hc, hs, hk⟩ := hc.fits
    obtain ⟨ts', hbody, hs'⟩ := hbody.fits
    obtain ⟨ts'', hbs, hs''⟩ := hbs.fits
    refine ⟨_, .cons rfl (by simp) (hc.anywhere.append (.cons rfl (by simp [hk])
      (.cons rfl (by simp) (hbody.anywhere.append (.cons rfl (by simp) hbs.anywhere))))), ?_⟩
    simpa using hs.append (hs'.append hs'')

theorem FunctionDef.Laid.fits : ∀ {loop f n code n'}, FunctionDef.Laid loop f n code n' →
    ∃ ts, Fits [] code ts ∧ Spans n ts n'
  | _, _, _, _, _, .mk hbody => by
    obtain ⟨ts, hbody, hs⟩ := hbody.fits
    refine ⟨_, .cons rfl (by simp) (hbody.anywhere.append (.cons rfl (by simp) .nil)), ?_⟩
    simpa using hs

theorem FunctionDef.LaidAll.fits : ∀ {loop fs n code n'}, FunctionDef.LaidAll loop fs n code n' →
    ∃ ts, Fits [] code ts ∧ Spans n ts n'
  | _, _, _, _, _, .nil => ⟨[], .nil, .nil⟩
  | _, _, _, _, _, .cons hf hfs => by
    obtain ⟨ts, hf, hs⟩ := hf.fits
    obtain ⟨ts', hfs, hs'⟩ := hfs.fits
    exact ⟨_, hf.append hfs.anywhere, hs.append hs'⟩

end

theorem Lower.temp_injective : Function.Injective temp := fun _ _ h =>
  temp_name_inj.1 (congrArg Temp.name h)

/-- The code of a program that a parser builds, without attempts, gives a value to each of the
temporaries `t0`, `t1`, … up to the last one exactly once, uses none before that, and has a
temporary wherever the value of an expression belongs. -/
theorem temporaries_assigned_once {lang : Lang} {source : String} {p : Program}
    (hparse : parse lang source = .ok p) (hfree : Stmt.attemptFree p.statements = true) :
    ∃ code k, lower p = (code, none) ∧ Stmt.LaidAll none p.statements 0 code k ∧
      (Instr.results code).Nodup ∧ (Instr.results code).Perm ((List.range k).map temp) ∧
      (∀ j i, code[j]? = some i → ∀ t ∈ i.op.uses, t ∈ Instr.results (code.take j)) ∧
      ∀ i ∈ code, i.op.isValued = true := by
  obtain ⟨σ, -, -, hlower, -, -, hlaid⟩ := lowered_of_parse hparse hfree
  obtain ⟨ts, hfits, hspans⟩ := hlaid.fits
  have hperm := hspans.perm
  rw [← hfits.results_eq, List.Ico.zero_bot] at hperm
  refine ⟨_, _, hlower, hlaid, ?_, hperm, fun j i hi t ht => ?_, hfits.valued⟩
  · exact hperm.nodup_iff.2 (List.nodup_range.map Lower.temp_injective)
  · exact (hfits.mem_of_uses hi ht).resolve_right List.not_mem_nil

/-- `bar_bar x in [1] { likho(x) }`, where the temporary of the iterator comes first and is given
its value behind those of the list. -/
theorem temporaries_assigned_once_in_loop :
    let p : Program :=
      { statements :=
          [.forLoop "x" (.list [.literal .number (.int 1) 1] 1) [.print [.var "x" 1] 1] 1] }
    parse .both "bar_bar x in [1] \x7b likho(x) \x7d" = .ok p ∧
      Stmt.attemptFree p.statements = true ∧
      ∃ code k, lower p = (code, none) ∧ (Instr.results code).Nodup ∧
        (Instr.results code).Perm ((List.range k).map temp) := by
  intro p
  have hparse : parse .both "bar_bar x in [1] \x7b likho(x) \x7d" = .ok p := by cbv
  have hfree : Stmt.attemptFree p.statements = true := by decide
  obtain ⟨code, k, hlower, -, hnodup, hperm, -⟩ := temporaries_assigned_once hparse hfree
  exact ⟨hparse, hfree, code, k, hlower, hnodup, hperm⟩

end Bhasha
