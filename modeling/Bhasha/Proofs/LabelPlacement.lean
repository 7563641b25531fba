import Mathlib.Algebra.Order.Group.Multiset
import Mathlib.Data.List.DropRight
import Mathlib.Tactic.Abel
import Bhasha.Instr.Lowering
import Bhasha.Proofs.StateRelations

namespace Bhasha

theorem toDigits_injective {n k : Nat} (h : Nat.toDigits 10 n = Nat.toDigits 10 k) : n = k := by
  have hv := congrArg (fun ds => Nat.ofDigitChars 10 ds 0) h
  simpa only [Nat.ofDigitChars_ten_toDigits] using hv

namespace Label

/-- The name ends in the digits of `n`, and in no other digits. -/
def Numbered (l : Label) (n : Nat) : Prop :=
  l.name.toList.rtakeWhile Char.isDigit = Nat.toDigits 10 n

theorem Numbered.unique {l : Label} {n k : Nat} (hn : l.Numbered n) (hk : l.Numbered k) : n = k :=
  toDigits_injective (hn.symm.trans hk)

end Label

theorem rtakeWhile_append_digits (cs : List Char) {ds : List Char}
    (hds : ∀ d ∈ ds, d.isDigit = true) : (cs ++ '_' :: ds).rtakeWhile Char.isDigit = ds := by
  induction ds using List.reverseRecOn with
  | nil => simp
  | append_singleton ds d ih =>
    have hd : d.isDigit = true := hds d (by simp)
    have hinit := ih fun d' hd' => hds d' (by simp [hd'])
    rw [← List.cons_append, ← List.append_assoc, List.rtakeWhile_concat, if_pos hd, hinit]

theorem numbered_of_hint {hint h : String} (hh : hint = h ++ "_") (n : Nat) :
    Label.Numbered ⟨s!"{hint}{n}"⟩ n := by
  have hname : (s!"{hint}{n}").toList = h.toList ++ '_' :: Nat.toDigits 10 n := by
    subst hh
    change ((h ++ "_") ++ toString n).toList = _
    simp
  rw [Label.Numbered, hname]
  exact rtakeWhile_append_digits _ fun d hd => Nat.isDigit_of_mem_toDigits (by omega) (by omega) hd

def Instr.placed? (i : Instr) : Option Label :=
  match i.op with
  | .label l => some l
  | _ => none

/-- The labels that code places. -/
def Instr.labels (code : List Instr) : Multiset Label :=
  (code.filterMap Instr.placed? : List Label)

namespace Lowering

/-- There may be more code and more temporaries in `σ'` than in `σ`; loops are as they were. -/
structure Grows (σ σ' : Lowering) : Prop where
  code : σ.code.toList <+: σ'.code.toList
  temps : σ.temps ≤ σ'.temps
  breaks : σ'.breaks = σ.breaks
  continues : σ'.continues = σ.continues

theorem Grows.refl (σ : Lowering) : σ.Grows σ :=
  ⟨List.prefix_refl _, Nat.le_refl _, rfl, rfl⟩

theorem Grows.trans {σ σ₁ σ₂ : Lowering} (h : σ.Grows σ₁) (h' : σ₁.Grows σ₂) : σ.Grows σ₂ where
  code := h.code.trans h'.code
  temps := Nat.le_trans h.temps h'.temps
  breaks := h'.breaks.trans h.breaks
  continues := h'.continues.trans h.continues

/-- The labels of `pending` were made and are still to be placed. Together with those that are
placed they are all different, and each has a number below the next one. -/
structure Owes (σ : Lowering) (pending : Multiset Label) : Prop where
  distinct : (pending + Instr.labels σ.code.toList).Nodup
  numbered : ∀ l ∈ pending + Instr.labels σ.code.toList, ∃ n < σ.labels, l.Numbered n

end Lowering

namespace Lower

open Lowering (Grows Owes)

variable {α β : Type} {A B C : Multiset Label}

/-- If `p` succeeds, it has only laid code down; and where `before` was pending and more, now
`after` is and that. -/
def Lays (p : Lower α) (before : Multiset Label) (after : α → Multiset Label) : Prop :=
  ∀ σ a σ', p σ = .ok a σ' → σ.Grows σ' ∧ ∀ P, σ.Owes (before + P) → σ'.Owes (after a + P)

/-- Whatever is pending before `p` is pending behind it. -/
def Tidy (p : Lower α) : Prop :=
  ∀ A, Lays p A fun _ => A

namespace Lays

theorem pure (a : α) (D : α → Multiset Label) : Lays (Pure.pure a) (D a) D := by
  intro σ b σ' h
  obtain ⟨rfl, rfl⟩ := pure_ok h
  exact ⟨.refl σ, fun _ h => h⟩

theorem bind_ok {p : Lower α} {f : α → Lower β} {D : α → Multiset Label} {E : β → Multiset Label}
    (hp : Lays p A D) (hf : ∀ σ a σ', p σ = .ok a σ' → Lays (f a) (D a) E) :
    Lays (p >>= f) A E := by
  intro σ b σ' h
  obtain ⟨a, σ₁, h₁, h₂⟩ := bind_eq_ok h
  obtain ⟨hg, ho⟩ := hp σ a σ₁ h₁
  obtain ⟨hg', ho'⟩ := hf σ a σ₁ h₁ σ₁ b σ' h₂
  exact ⟨hg.trans hg', fun P hP => ho' P (ho P hP)⟩

theorem bind {p : Lower α} {f : α → Lower β} {D : α → Multiset Label} {E : β → Multiset Label}
    (hp : Lays p A D) (hf : ∀ a, Lays (f a) (D a) E) : Lays (p >>= f) A E :=
  hp.bind_ok fun _ a _ _ => hf a

/-- What is pending has no order. -/
theorem of_eq {p : Lower α} {D : α → Multiset Label} (hp : Lays p A D) (h : B = A) : Lays p B D :=
  h ▸ hp

end Lays

theorem Tidy.bind {p : Lower α} {f : α → Lower β} (hp : Tidy p) (hf : ∀ a, Tidy (f a)) :
    Tidy (p >>= f) :=
  fun A => (hp A).bind fun a => hf a A

theorem Tidy.grows {p : Lower α} (hp : Tidy p) {σ σ' : Lowering} {a : α} (h : p σ = .ok a σ') :
    σ.Grows σ' :=
  (hp 0 σ a σ' h).1

theorem tidy_pure (a : α) : Tidy (pure a : Lower α) :=
  fun A => .pure a fun _ => A

theorem labels_push (code : Array Instr) (i : Instr) :
    Instr.labels (code.push i).toList =
      Instr.labels code.toList + (i.placed?.toList : List Label) := by
  cases h : i.placed? <;> simp [Instr.labels, h, ← Multiset.coe_add]

theorem grows_emit (line : Nat) (op : Operation) (σ : Lowering) :
    σ.Grows { σ with code := σ.code.push { op, line } } :=
  ⟨by simp, Nat.le_refl _, rfl, rfl⟩

theorem lays_emit_label (line : Nat) (l : Label) (A : Multiset Label) :
    Lays (emit line (.label l)) ({l} + A) fun _ => A := by
  intro σ a σ' h
  cases h
  refine ⟨grows_emit _ _ σ, fun P hP => ?_⟩
  have hsame : A + P + Instr.labels (σ.code.push { op := .label l, line }).toList =
      {l} + A + P + Instr.labels σ.code.toList := by
    rw [labels_push]
    change A + P + (_ + {l}) = _
    abel
  exact ⟨hsame ▸ hP.distinct, hsame ▸ hP.numbered⟩

theorem tidy_emit (line : Nat) {op : Operation} (h : Instr.placed? { op, line } = none) :
    Tidy (emit line op) := by
  intro A σ a σ' hok
  cases hok
  refine ⟨grows_emit _ _ σ, fun P hP => ?_⟩
  have hsame : Instr.labels (σ.code.push { op, line }).toList = Instr.labels σ.code.toList := by
    rw [labels_push, h]
    exact add_zero _
  exact ⟨hsame ▸ hP.distinct, hsame ▸ hP.numbered⟩

theorem tidy_freshTemp : Tidy freshTemp := by
  intro A σ a σ' h
  cases h
  exact ⟨⟨List.prefix_refl _, Nat.le_succ _, rfl, rfl⟩, fun P hP => ⟨hP.distinct, hP.numbered⟩⟩

theorem tidy_freshLambda : Tidy freshLambda := by
  intro A σ a σ' h
  cases h
  exact ⟨⟨List.prefix_refl _, Nat.le_refl _, rfl, rfl⟩, fun P hP => ⟨hP.distinct, hP.numbered⟩⟩

/-- The number of a new label is above those of all others, so that its name is none of theirs. -/
theorem lays_freshLabel {hint h : String} (hh : hint = h ++ "_") (A : Multiset Label) :
    Lays (freshLabel hint) A fun l => {l} + A := by
  intro σ l σ' hok
  cases hok
  refine ⟨⟨List.prefix_refl _, Nat.le_refl _, rfl, rfl⟩, fun P hP => ?_⟩
  have hnew := numbered_of_hint hh σ.labels
  have hsplit (l : Label) : {l} + A + P + Instr.labels σ.code.toList =
      l ::ₘ (A + P + Instr.labels σ.code.toList) := by
    rw [← Multiset.singleton_add]
    abel
  constructor
  · rw [hsplit, Multiset.nodup_cons]
    refine ⟨fun hmem => ?_, hP.distinct⟩
    obtain ⟨n, hn, hnum⟩ := hP.numbered _ hmem
    have := hnum.unique hnew
    omega
  · intro l hl
    rw [hsplit, Multiset.mem_cons] at hl
    rcases hl with rfl | hl
    · exact ⟨σ.labels, Nat.lt_succ_self _, hnew⟩
    · obtain ⟨n, hn, hnum⟩ := hP.numbered l hl
      exact ⟨n, Nat.lt_succ_of_lt hn, hnum⟩

theorem lays_freshLabels {hint h : String} (hh : hint = h ++ "_") (n : Nat) (A : Multiset Label) :
    Lays (freshLabels hint n) A fun ls => (ls : Multiset Label) + A := by
  induction n generalizing A with
  | zero => exact (Lays.pure [] _).of_eq (zero_add A).symm
  | succ n ih =>
    refine (lays_freshLabel hh A).bind fun l => (ih _).bind fun ls => ?_
    refine (Lays.pure (l :: ls) _).of_eq ?_
    rw [← Multiset.cons_coe, ← Multiset.singleton_add]
    abel

theorem tidy_push (line : Nat) (t : Option Temp) : Tidy (push line t) :=
  tidy_emit line rfl

theorem tidy_call (line : Nat) (x : String) (n : Nat) : Tidy (call line x n) :=
  tidy_freshTemp.bind fun _ => (tidy_emit line rfl).bind fun _ => tidy_pure _

theorem tidy_pushAll (line : Nat) (ts : List (Option Temp)) : Tidy (ts.forM (push line)) := by
  induction ts with
  | nil => exact tidy_pure _
  | cons t ts ih => exact (tidy_push line t).bind fun _ => ih

mutual

theorem tidy_expr : ∀ e, Tidy (expr e)
  | .literal _ v l => by
    rw [expr]
    exact tidy_freshTemp.bind fun _ => (tidy_emit l rfl).bind fun _ => tidy_pure _
  | .list es l => by
    rw [expr]
    exact (tidy_exprs es).bind fun ts => (tidy_pushAll l ts).bind fun _ => tidy_call l _ _
  | .dict ps l => by
    rw [expr]
    exact (tidy_pairs l ps).bind fun _ => tidy_call l _ _
  | .var x l => by
    rw [expr]
    exact tidy_freshTemp.bind fun _ => (tidy_emit l rfl).bind fun _ => tidy_pure _
  | .binary op a b l => by
    rw [expr]
    refine (tidy_expr a).bind fun _ => (tidy_expr b).bind fun _ => tidy_freshTemp.bind fun _ => ?_
    exact (tidy_emit l rfl).bind fun _ => tidy_pure _
  | .unary op a l => by
    rw [expr]
    refine (tidy_expr a).bind fun _ => tidy_freshTemp.bind fun _ => ?_
    exact (tidy_emit l rfl).bind fun _ => tidy_pure _
  | .paren a _ => by
    rw [expr]
    exact tidy_expr a
  | .call x es l => by
    rw [expr]
    exact (tidy_arguments l es).bind fun _ => tidy_call l _ _
  | .lambda _ a l => by
    intro A
    rw [expr]
    refine (tidy_freshLambda A).bind fun x => ?_
    refine (lays_freshLabel (h := "lambda_end") rfl A).bind fun out => ?_
    refine (tidy_emit l rfl _).bind fun _ => (tidy_emit l rfl _).bind fun _ => ?_
    refine (tidy_expr a _).bind fun _ => (tidy_emit l rfl _).bind fun _ => ?_
    refine (lays_emit_label l out A).bind fun _ => (tidy_freshTemp A).bind fun _ => ?_
    exact (tidy_emit l rfl A).bind fun _ => tidy_pure _ A
  | .newObject c es l => by
    rw [expr]
    refine tidy_freshTemp.bind fun _ => (tidy_emit l rfl).bind fun _ => ?_
    exact (tidy_arguments l es).bind fun _ => (tidy_call l _ _).bind fun _ => tidy_pure _
  | .method a x es l => by
    rw [expr]
    refine (tidy_expr a).bind fun _ => (tidy_push l _).bind fun _ => ?_
    exact (tidy_arguments l es).bind fun _ => tidy_call l _ _
  | .property a x l => by
    rw [expr]
    refine (tidy_expr a).bind fun _ => tidy_freshTemp.bind fun _ => ?_
    exact (tidy_emit l rfl).bind fun _ => tidy_pure _
  | .thisObject l => by
    rw [expr]
    exact tidy_freshTemp.bind fun _ => (tidy_emit l rfl).bind fun _ => tidy_pure _
  | .superCall x es l => by
    rw [expr]
    exact (tidy_arguments l es).bind fun _ => tidy_call l _ _
  | .index a i l => by
    rw [expr]
    refine (tidy_expr a).bind fun _ => (tidy_expr i).bind fun _ => tidy_freshTemp.bind fun _ => ?_
    exact (tidy_emit l rfl).bind fun _ => tidy_pure _
  | .foreign _ _ _ => by
    rw [expr]
    exact tidy_pure _
termination_by structural e => e

theorem tidy_exprs : ∀ es, Tidy (exprs es)
  | [] => by
    rw [exprs]
    exact tidy_pure _
  | e :: es => by
    rw [exprs]
    exact (tidy_expr e).bind fun _ => (tidy_exprs es).bind fun _ => tidy_pure _
termination_by structural es => es

theorem tidy_arguments (line : Nat) : ∀ es, Tidy (arguments line es)
  | [] => by
    rw [arguments]
    exact tidy_pure _
  | e :: es => by
    rw [arguments]
    exact (tidy_expr e).bind fun _ => (tidy_push line _).bind fun _ => tidy_arguments line es
termination_by structural es => es

theorem tidy_pairs (line : Nat) : ∀ ps, Tidy (pairs line ps)
  | [] => by
    rw [pairs]
    exact tidy_pure _
  | (k, v) :: ps => by
    rw [pairs]
    refine (tidy_expr k).bind fun _ => (tidy_expr v).bind fun _ => ?_
    refine (tidy_push line _).bind fun _ => ?_
    exact (tidy_push line _).bind fun _ => tidy_pairs line ps
termination_by structural ps => ps

end

/-- A loop is taken off again behind its body, for the body left the loops as they were. -/
theorem Lays.inLoop {body : Lower Unit} (h : Lays body A fun _ => B) (out again : Label) :
    Lays (inLoop out again body) A fun _ => B := by
  intro σ a σ' hok
  obtain ⟨_, σ₁, hpush, hok⟩ := bind_eq_ok hok
  obtain ⟨_, σ₂, hbody, hpop⟩ := bind_eq_ok hok
  cases hpush
  cases hpop
  obtain ⟨hg, ho⟩ := h _ _ _ hbody
  refine ⟨⟨hg.code, hg.temps, by simp [hg.breaks], by simp [hg.continues]⟩, fun P hP => ?_⟩
  have hP' := ho P ⟨hP.distinct, hP.numbered⟩
  exact ⟨hP'.distinct, hP'.numbered⟩

theorem tidy_leave (line : Nat) (targets : Lowering → List Label) : Tidy (do
    if let target :: _ := targets (← get) then emit line (.jump target)) := by
  intro A σ a σ' h
  have h := bind_get_ok h
  cases htargets : targets σ with
  | nil =>
    rw [htargets] at h
    exact tidy_pure _ A σ a σ' h
  | cons target rest =>
    rw [htargets] at h
    exact tidy_emit line rfl A σ a σ' h

theorem length_freshLabels {hint : String} {n : Nat} {σ σ' : Lowering} {ls : List Label}
    (h : freshLabels hint n σ = .ok ls σ') : ls.length = n := by
  induction n generalizing σ σ' ls with
  | zero =>
    obtain ⟨rfl, -⟩ := pure_ok h
    rfl
  | succ n ih =>
    obtain ⟨l, σ₁, -, h⟩ := bind_eq_ok h
    obtain ⟨ls', σ₂, hls, h⟩ := bind_eq_ok h
    obtain ⟨rfl, -⟩ := pure_ok h
    rw [List.length_cons, ih hls]

mutual

theorem tidy_stmt : ∀ s, Tidy (stmt s)
  | .expr e => by
    rw [stmt]
    exact (tidy_expr e).bind fun _ => tidy_pure _
  | .assign x e l => by
    rw [stmt]
    exact (tidy_expr e).bind fun _ => tidy_emit l rfl
  | .setProperty a x e l => by
    rw [stmt]
    exact (tidy_expr a).bind fun _ => (tidy_expr e).bind fun _ => tidy_emit l rfl
  | .setIndex a i e l => by
    rw [stmt]
    refine (tidy_expr a).bind fun _ => (tidy_expr i).bind fun _ => (tidy_expr e).bind fun _ => ?_
    exact tidy_emit l rfl
  | .print es l => by
    rw [stmt]
    exact (tidy_exprs es).bind fun _ => tidy_emit l rfl
  | .input x (some e) l => by
    rw [stmt]
    exact (tidy_expr e).bind fun _ => tidy_emit l rfl
  | .input x none l => by
    rw [stmt]
    exact (tidy_pure _).bind fun _ => tidy_emit l rfl
  | .ifElse c body others (some b) l => by
    intro A
    rw [stmt]
    refine (lays_freshLabel (h := "then") rfl A).bind fun thenLabel => ?_
    refine (lays_freshLabel (h := "if_end") rfl _).bind fun out => ?_
    refine (lays_freshLabels (h := "elif") rfl others.length _).bind_ok fun _ labels _ hlabels => ?_
    refine (lays_freshLabel (h := "else") rfl _).bind fun elseLabel => ?_
    refine (tidy_expr c _).bind fun _ => (tidy_emit l rfl _).bind fun _ => ?_
    refine ((lays_emit_label l thenLabel (labels + ({elseLabel} + ({out} + A)))).of_eq
      (by abel)).bind fun _ => ?_
    refine (tidy_stmts body _).bind fun _ => (tidy_emit l rfl _).bind fun _ => ?_
    have hlength := length_freshLabels hlabels
    refine (lays_branches l out elseLabel others labels _ hlength).bind fun _ => ?_
    refine (lays_emit_label l elseLabel _).bind fun _ => (tidy_stmts b _).bind fun _ => ?_
    exact lays_emit_label l out A
  | .ifElse c body others none l => by
    intro A
    rw [stmt]
    refine (lays_freshLabel (h := "then") rfl A).bind fun thenLabel => ?_
    refine (lays_freshLabel (h := "if_end") rfl _).bind fun out => ?_
    refine (lays_freshLabels (h := "elif") rfl others.length _).bind_ok fun _ labels _ hlabels => ?_
    refine (tidy_pure out _).bind fun elseLabel => ?_
    refine (tidy_expr c _).bind fun _ => (tidy_emit l rfl _).bind fun _ => ?_
    refine ((lays_emit_label l thenLabel (labels + ({out} + A))).of_eq (by abel)).bind fun _ => ?_
    refine (tidy_stmts body _).bind fun _ => (tidy_emit l rfl _).bind fun _ => ?_
    have hlength := length_freshLabels hlabels
    refine (lays_branches l out elseLabel others labels _ hlength).bind fun _ => ?_
    exact lays_emit_label l out A
  | .whileLoop c body l => by
    intro A
    rw [stmt]
    refine (lays_freshLabel (h := "while_start") rfl A).bind fun again => ?_
    refine (lays_freshLabel (h := "while_body") rfl _).bind fun inside => ?_
    refine (lays_freshLabel (h := "while_end") rfl _).bind fun out => Lays.inLoop ?_ out again
    refine ((lays_emit_label l again ({inside} + {out} + A)).of_eq (by abel)).bind fun _ => ?_
    refine (tidy_expr c _).bind fun _ => (tidy_emit l rfl _).bind fun _ => ?_
    refine ((lays_emit_label l inside ({out} + A)).of_eq (by abel)).bind fun _ => ?_
    refine (tidy_stmts body _).bind fun _ => (tidy_emit l rfl _).bind fun _ => ?_
    exact lays_emit_label l out A
  | .forLoop x e body l => by
    intro A
    rw [stmt]
    refine (tidy_freshTemp A).bind fun iterator => (tidy_freshTemp A).bind fun more => ?_
    refine (lays_freshLabel (h := "for_start") rfl A).bind fun again => ?_
    refine (lays_freshLabel (h := "for_body") rfl _).bind fun inside => ?_
    refine (lays_freshLabel (h := "for_end") rfl _).bind fun out => (tidy_expr e _).bind fun _ => ?_
    refine (tidy_push l _ _).bind fun _ => (tidy_emit l rfl _).bind fun _ => ?_
    refine Lays.inLoop ?_ out again
    refine ((lays_emit_label l again ({inside} + {out} + A)).of_eq (by abel)).bind fun _ => ?_
    refine (tidy_push l _ _).bind fun _ => (tidy_emit l rfl _).bind fun _ => ?_
    refine (tidy_emit l rfl _).bind fun _ => ?_
    refine ((lays_emit_label l inside ({out} + A)).of_eq (by abel)).bind fun _ => ?_
    refine (tidy_freshTemp _).bind fun _ => (tidy_push l _ _).bind fun _ => ?_
    refine (tidy_emit l rfl _).bind fun _ => (tidy_emit l rfl _).bind fun _ => ?_
    refine (tidy_stmts body _).bind fun _ => (tidy_emit l rfl _).bind fun _ => ?_
    exact lays_emit_label l out A
  | .breakLoop l => by
    rw [stmt]
    exact tidy_leave l _
  | .continueLoop l => by
    rw [stmt]
    exact tidy_leave l _
  | .function f => by
    rw [stmt]
    exact tidy_function f
  | .giveBack (some e) l => by
    rw [stmt]
    exact (tidy_expr e).bind fun _ => tidy_emit l rfl
  | .giveBack none l => by
    rw [stmt]
    exact (tidy_pure _).bind fun _ => tidy_emit l rfl
  | .classDef x _ methods l => by
    intro A
    rw [stmt]
    refine (lays_freshLabel (h := "class_" ++ x) rfl A).bind fun entry => ?_
    refine (lays_freshLabel (h := "class_" ++ x ++ "_end") ?_ _).bind fun out => ?_
    · rw [show "_end_" = "_end" ++ "_" from rfl, ← String.append_assoc]
    refine (tidy_emit l rfl _).bind fun _ => ?_
    refine ((lays_emit_label l entry ({out} + A)).of_eq (by abel)).bind fun _ => ?_
    refine (tidy_functions methods _).bind fun _ => ?_
    exact lays_emit_label l out A
  | .attempt body _ _ finalizer l => by
    -- Behind its body an attempt always breaks off.
    intro A σ a σ' h
    rw [stmt] at h
    obtain ⟨_, _, -, h⟩ := bind_eq_ok h
    dsimp only at h
    split at h
    all_goals
      obtain ⟨_, _, -, h⟩ := bind_eq_ok h
      obtain ⟨_, _, -, h⟩ := bind_eq_ok h
      obtain ⟨_, _, -, h⟩ := bind_eq_ok h
      obtain ⟨_, _, -, h⟩ := bind_eq_ok h
      exact absurd h throw_ne_ok
  | .raiseError e l => by
    rw [stmt]
    exact (tidy_expr e).bind fun _ => tidy_emit l rfl
  | .importFile x l => by
    rw [stmt]
    refine tidy_freshTemp.bind fun _ => (tidy_emit l rfl).bind fun _ => ?_
    exact (tidy_push l _).bind fun _ => tidy_emit l rfl
  | .foreign _ _ _ => by
    rw [stmt]
    exact tidy_pure _
termination_by structural s => s

theorem tidy_stmts : ∀ ss, Tidy (stmts ss)
  | [] => by
    rw [stmts]
    exact tidy_pure _
  | s :: ss => by
    rw [stmts]
    exact (tidy_stmt s).bind fun _ => tidy_stmts ss
termination_by structural ss => ss

theorem lays_branches (line : Nat) (out otherwise : Label) :
    ∀ bs (labels : List Label) (A : Multiset Label), labels.length = bs.length →
      Lays (branches line out otherwise labels bs) ((labels : Multiset Label) + A) fun _ => A
  | [], labels, A, h => by
    rw [branches, List.eq_nil_of_length_eq_zero h]
    exact (tidy_pure _ A).of_eq (zero_add A)
  | .mk c body :: bs, [], A, h => by
    exact absurd h (by simp)
  | .mk c body :: bs, label :: labels, A, h => by
    rw [branches]
    have hsplit : ((label :: labels : List Label) : Multiset Label) + A =
        {label} + (labels + A) := by
      rw [← Multiset.cons_coe, ← Multiset.singleton_add, add_assoc]
    refine ((lays_emit_label line label _).of_eq hsplit).bind fun _ => ?_
    refine (tidy_expr c _).bind fun _ => ?_
    refine (lays_freshLabel (h := "elif_body") rfl _).bind fun inside => ?_
    refine (tidy_emit line rfl _).bind fun _ => (lays_emit_label line inside _).bind fun _ => ?_
    refine (tidy_stmts body _).bind fun _ => (tidy_emit line rfl _).bind fun _ => ?_
    exact lays_branches line out otherwise bs labels A (Nat.succ.inj h)
termination_by structural bs => bs

theorem tidy_function : ∀ f, Tidy (function f)
  | .mk x _ body l => by
    rw [function]
    refine (tidy_emit l rfl).bind fun _ => (tidy_stmts body).bind fun _ => ?_
    exact tidy_emit l rfl
termination_by structural f => f

theorem tidy_functions : ∀ fs, Tidy (functions fs)
  | [] => by
    rw [functions]
    exact tidy_pure _
  | f :: fs => by
    rw [functions]
    exact (tidy_function f).bind fun _ => tidy_functions fs
termination_by structural fs => fs

end

end Lower

/-- No label is placed twice. -/
theorem labels_nodup {ss : List Stmt} {lambdas : Nat} {σ : Lowering}
    (h : Lower.stmts ss { lambdas } = .ok () σ) : (Instr.labels σ.code.toList).Nodup := by
  have hstart : Lowering.Owes { lambdas } (0 + 0) :=
    ⟨Multiset.nodup_zero, fun l hl => absurd hl (by simp [Instr.labels])⟩
  have hend := ((Lower.tidy_stmts ss 0 _ _ _ h).2 0 hstart).distinct
  simpa using hend

end Bhasha
