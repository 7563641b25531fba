import Mathlib
import Bhasha.Proofs.CodeLayout

namespace Bhasha

/-- Where an operation may jump to. -/
@[simp, grind]
def Operation.targets : Operation → List Label
  | .jump l => [l]
  | .branch _ l l' => [l, l']
  | _ => []

namespace Instr

/-- Some instruction jumps to the label. -/
def JumpsTo (code : List Instr) (t : Label) : Prop :=
  ∃ i ∈ code, t ∈ i.op.targets

/-- Some instruction places the label. -/
def Places (code : List Instr) (t : Label) : Prop :=
  t ∈ code.filterMap placed?

variable {i : Instr} {code code' : List Instr} {t l : Label} {line : Nat}

@[simp, grind .]
theorem not_jumpsTo_nil : ¬JumpsTo [] t := by
  simp [JumpsTo]

@[simp, grind =]
theorem jumpsTo_cons : JumpsTo (i :: code) t ↔ t ∈ i.op.targets ∨ JumpsTo code t := by
  simp [JumpsTo]

@[simp, grind =]
theorem jumpsTo_append : JumpsTo (code ++ code') t ↔ JumpsTo code t ∨ JumpsTo code' t := by
  simp [JumpsTo, or_and_right, exists_or]

@[simp, grind =]
theorem places_append : Places (code ++ code') t ↔ Places code t ∨ Places code' t := by
  simp [Places]

@[simp, grind =]
theorem places_cons : Places (i :: code) t ↔ i.placed? = some t ∨ Places code t := by
  cases h : i.placed? <;> simp [Places, h, eq_comm]

@[grind .]
theorem not_jumpsTo_pushAll {ks : List Nat} : ¬JumpsTo (ks.map (pushes line)) t := by
  simp [JumpsTo]

@[simp, grind =]
theorem placed?_label : placed? ⟨.label l, line⟩ = some l :=
  rfl

end Instr

open Instr

mutual

theorem Expr.Laid.lands : ∀ {e n code k n'}, Expr.Laid e n code k n' →
    ∀ t, JumpsTo code t → Places code t
  | _, _, _, _, _, .literal, t, h | _, _, _, _, _, .var, t, h
  | _, _, _, _, _, .thisObject, t, h => by
    simp at h
  | _, _, _, _, _, .list hes, t, h => by
    have hes := hes.lands t
    grind
  | _, _, _, _, _, .dict hps, t, h => by
    have hps := hps.lands t
    grind
  | _, _, _, _, _, .binary ha hb, t, h | _, _, _, _, _, .index ha hb, t, h => by
    have ha := ha.lands t
    have hb := hb.lands t
    grind
  | _, _, _, _, _, .unary ha, t, h | _, _, _, _, _, .property ha, t, h
  | _, _, _, _, _, .lambda ha, t, h => by
    have ha := ha.lands t
    grind
  | _, _, _, _, _, .paren ha, t, h => ha.lands t h
  | _, _, _, _, _, .call hes, t, h | _, _, _, _, _, .superCall hes, t, h
  | _, _, _, _, _, .newObject hes, t, h => by
    have hes := hes.lands t
    grind
  | _, _, _, _, _, .method ha hes, t, h => by
    have ha := ha.lands t
    have hes := hes.lands t
    grind

theorem Expr.LaidEach.lands : ∀ {es n code ks n'}, Expr.LaidEach es n code ks n' →
    ∀ t, JumpsTo code t → Places code t
  | _, _, _, _, _, .nil, t, h => by
    simp at h
  | _, _, _, _, _, .cons he hes, t, h => by
    have he := he.lands t
    have hes := hes.lands t
    grind

theorem Expr.LaidArguments.lands : ∀ {l es n code n'}, Expr.LaidArguments l es n code n' →
    ∀ t, JumpsTo code t → Places code t
  | _, _, _, _, _, .nil, t, h => by
    simp at h
  | _, _, _, _, _, .cons he hes, t, h => by
    have he := he.lands t
    have hes := hes.lands t
    grind

theorem Expr.LaidPairs.lands : ∀ {l ps n code n'}, Expr.LaidPairs l ps n code n' →
    ∀ t, JumpsTo code t → Places code t
  | _, _, _, _, _, .nil, t, h => by
    simp at h
  | _, _, _, _, _, .cons hkey hvalue hps, t, h => by
    have hkey := hkey.lands t
    have hvalue := hvalue.lands t
    have hps := hps.lands t
    grind

end

/-- The labels of a loop. -/
def Loop.labels : Option Loop → List Label
  | none => []
  | some L => [L.out, L.again]

theorem mem_labels_of_jumps {loop : Option Loop} {target : Loop → Label} {line : Nat} {t : Label}
    (htarget : ∀ L, target L ∈ Loop.labels (some L))
    (h : JumpsTo (Loop.jumps loop target line) t) : t ∈ Loop.labels loop := by
  cases loop with
  | none => simp [Loop.jumps] at h
  | some L =>
    obtain rfl : t = target L := by simpa [Loop.jumps] using h
    exact htarget L

/-- The first `agarlena` part begins with its label. -/
theorem Branch.LaidAll.places_headD {loop : Option Loop} {l n n' : Nat} {out last : Label}
    {labels : List Label} {bs : List Branch} {code : List Instr}
    (h : Branch.LaidAll loop l out last labels bs n code n') :
    Places code (labels.headD last) ∨ labels.headD last = last := by
  cases h with
  | nil => exact .inr rfl
  | cons hc hbody hbs => exact .inl (by simp [Instr.placed?])

mutual

/-- A jump of a statement leads to a label that it places, or to one of the loop around it. -/
theorem Stmt.Laid.lands : ∀ {loop s n code n'}, Stmt.Laid loop s n code n' →
    ∀ t, JumpsTo code t → Places code t ∨ t ∈ Loop.labels loop
  | _, _, _, _, _, .expr he, t, h => .inl (he.lands t h)
  | _, _, _, _, _, .assign he, t, h | _, _, _, _, _, .prompt he, t, h
  | _, _, _, _, _, .giveValue he, t, h | _, _, _, _, _, .raiseError he, t, h => by
    have he := he.lands t
    grind
  | _, _, _, _, _, .setProperty ha he, t, h => by
    have ha := ha.lands t
    have he := he.lands t
    grind
  | _, _, _, _, _, .setIndex ha hi he, t, h => by
    have ha := ha.lands t
    have hi := hi.lands t
    have he := he.lands t
    grind
  | _, _, _, _, _, .print hes, t, h => by
    have hes := hes.lands t
    grind
  | _, _, _, _, _, .input, t, h | _, _, _, _, _, .giveBack, t, h => by
    simp at h
  | _, _, _, _, _, .ifOnly hc hbody hbs, t, h => by
    have hc := hc.lands t
    have hbody := hbody.lands t
    have hfirst := hbs.places_headD
    have hbs := hbs.lands t
    grind
  | _, _, _, _, _, .ifElse hc hbody hbs hb, t, h => by
    have hc := hc.lands t
    have hbody := hbody.lands t
    have hfirst := hbs.places_headD
    have hbs := hbs.lands t
    have hb := hb.lands t
    grind
  | _, _, _, _, _, .whileLoop hc hbody, t, h => by
    have hc := hc.lands t
    have hbody := hbody.lands t
    grind [Loop.labels]
  | _, _, _, _, _, .forLoop he hbody, t, h => by
    have he := he.lands t
    have hbody := hbody.lands t
    simp only [List.cons_append, jumpsTo_append, jumpsTo_cons, places_append, places_cons] at h ⊢
    grind [Loop.labels]
  | _, _, _, _, _, .breakLoop, t, h => .inr (mem_labels_of_jumps (by simp [Loop.labels]) h)
  | _, _, _, _, _, .continueLoop, t, h => .inr (mem_labels_of_jumps (by simp [Loop.labels]) h)
  | _, _, _, _, _, .function hf, t, h => hf.lands t h
  | _, _, _, _, _, .classDef hfs, t, h => by
    have hfs := hfs.lands t
    grind

theorem Stmt.LaidAll.lands : ∀ {loop ss n code n'}, Stmt.LaidAll loop ss n code n' →
    ∀ t, JumpsTo code t → Places code t ∨ t ∈ Loop.labels loop
  | _, _, _, _, _, .nil, t, h => by
    simp at h
  | _, _, _, _, _, .cons hs hss, t, h => by
    have hs := hs.lands t
    have hss := hss.lands t
    grind

theorem Branch.LaidAll.lands : ∀ {loop l out last labels bs n code n'},
    Branch.LaidAll loop l out last labels bs n code n' →
    ∀ t, JumpsTo code t → Places code t ∨ t = out ∨ t = last ∨ t ∈ Loop.labels loop
  | _, _, _, _, _, _, _, _, _, .nil, t, h => by
    simp at h
  | _, _, _, _, _, _, _, _, _, .cons hc hbody hbs, t, h => by
    have hc := hc.lands t
    have hbody := hbody.lands t
    have hnext := hbs.places_headD
    have hbs := hbs.lands t
    grind

theorem FunctionDef.Laid.lands : ∀ {loop f n code n'}, FunctionDef.Laid loop f n code n' →
    ∀ t, JumpsTo code t → Places code t ∨ t ∈ Loop.labels loop
  | _, _, _, _, _, .mk hbody, t, h => by
    have hbody := hbody.lands t
    grind

theorem FunctionDef.LaidAll.lands : ∀ {loop fs n code n'}, FunctionDef.LaidAll loop fs n code n' →
    ∀ t, JumpsTo code t → Places code t ∨ t ∈ Loop.labels loop
  | _, _, _, _, _, .nil, t, h => by
    simp at h
  | _, _, _, _, _, .cons hf hfs, t, h => by
    have hf := hf.lands t
    have hfs := hfs.lands t
    grind

end

/-- In the code of a program that a parser builds, without attempts, the labels have names that are
all different, and every jump leads to one that is placed exactly once. The code is laid out so that
`ruk` jumps right behind the innermost loop around it, and `age_badho` to its head. At the end no
loop is left open. -/
theorem labels_distinct_and_jumps_resolve {lang : Lang} {source : String} {p : Program}
    (hparse : parse lang source = .ok p) (hfree : Stmt.attemptFree p.statements = true) :
    ∃ σ code, lowering 0 p.statements = (σ, none) ∧ lower p = (code, none) ∧
      Stmt.LaidAll none p.statements 0 code σ.temps ∧
      ((code.filterMap placed?).map Label.name).Nodup ∧
      (∀ t, JumpsTo code t → (code.filterMap placed?).count t = 1) ∧
      σ.breaks = [] ∧ σ.continues = [] := by
  obtain ⟨σ, hrun, hlowering, hlower, hbreaks, hcontinues, hlaid⟩ := lowered_of_parse hparse hfree
  have hnodup : (σ.code.toList.filterMap placed?).Nodup := labels_nodup hrun
  refine ⟨σ, _, hlowering, hlower, hlaid, ?_, fun t ht => ?_, hbreaks, hcontinues⟩
  · exact hnodup.map fun l l' h => by cases l; cases l'; cases h; rfl
  · have hplaced := (hlaid.lands t ht).resolve_right List.not_mem_nil
    exact List.count_eq_one_of_mem hnodup hplaced

/-- A class with a number in its name, and a loop that is left. -/
theorem labels_distinct_and_jumps_resolve_numbered :
    let p : Program :=
      { statements :=
          [.classDef "A_1" none [] 1, .whileLoop (.literal .number (.int 1) 2) [.breakLoop 2] 2] }
    parse .both "class A_1 \x7b \x7d\njab_tak 1 \x7b ruk \x7d" = .ok p ∧
      Stmt.attemptFree p.statements = true ∧
      ∃ σ code, lowering 0 p.statements = (σ, none) ∧ lower p = (code, none) ∧
        Stmt.LaidAll none p.statements 0 code σ.temps ∧
        ((code.filterMap placed?).map Label.name).Nodup ∧
        ∀ t, JumpsTo code t → (code.filterMap placed?).count t = 1 := by
  intro p
  have hparse : parse .both "class A_1 \x7b \x7d\njab_tak 1 \x7b ruk \x7d" = .ok p := by cbv
  have hfree : Stmt.attemptFree p.statements = true := by decide
  obtain ⟨σ, code, hlowering, hlower, hlaid, hnodup, hresolve, -⟩ :=
    labels_distinct_and_jumps_resolve hparse hfree
  exact ⟨hparse, hfree, σ, code, hlowering, hlower, hlaid, hnodup, hresolve⟩

end Bhasha
