import Bhasha.Builtin
import Bhasha.Proofs.StateRelations

namespace Bhasha

/-- A value that is no function, lambda or class. -/
def Value.isPlain : Value → Bool
  | .function _ | .lambda _ | .classValue _ => false
  | _ => true

/-- `P` holds of every value in the heap, and of the classes of its objects. -/
structure Heap.All (P : Value → Prop) (h : Heap) : Prop where
  lists : ∀ vs ∈ h.lists, ∀ v ∈ vs, P v
  dicts : ∀ d ∈ h.dicts, ∀ e ∈ d, P e.1 ∧ P e.2
  objects : ∀ o ∈ h.objects, P (.classValue o.classValue) ∧ ∀ e ∈ o.properties, P e.2

/-- Changing one item of an array leaves old items, and one that the change made. -/
theorem of_mem_modify {α : Type} {as : Array α} {i : Nat} {f : α → α} {b : α}
    (h : b ∈ as.modify i f) : b ∈ as ∨ ∃ a ∈ as, b = f a := by
  obtain ⟨j, hj, rfl⟩ := Array.getElem_of_mem h
  have hj' : j < as.size := by simpa using hj
  rw [Array.getElem_modify]
  split
  · exact .inr ⟨as[j], Array.getElem_mem hj', rfl⟩
  · exact .inl (Array.getElem_mem hj')

theorem Bindings.mem_of_find? {α : Type} {b : Bindings α} {x : String} {v : α}
    (h : b.find? x = some v) : (x, v) ∈ b := by
  induction b with
  | nil => cases h
  | cons e b ih =>
    obtain ⟨y, w⟩ := e
    by_cases hyx : y = x
    · simp only [Bindings.find?, hyx, BEq.rfl, if_true, Option.some.injEq] at h
      rw [hyx, h]
      exact List.mem_cons_self
    · simp only [Bindings.find?, beq_iff_eq, hyx, if_false] at h
      exact List.mem_cons_of_mem _ (ih h)

theorem Bindings.of_mem_bind {α : Type} {b : Bindings α} {x : String} {v : α} {e : String × α}
    (h : e ∈ b.bind x v) : e.2 = v ∨ e ∈ b := by
  induction b with
  | nil =>
    rw [Bindings.bind, List.mem_singleton] at h
    exact .inl (congrArg Prod.snd h)
  | cons e' b ih =>
    obtain ⟨y, w⟩ := e'
    rw [Bindings.bind] at h
    split at h
    · rcases List.mem_cons.mp h with rfl | h
      · exact .inl rfl
      · exact .inr (List.mem_cons_of_mem _ h)
    · rcases List.mem_cons.mp h with rfl | h
      · exact .inr List.mem_cons_self
      · exact (ih h).imp_right (List.mem_cons_of_mem _)

namespace Dict

theorem mem_of_value? {d : Dict} {key v : Value} (h : d.value? key = some v) :
    ∃ e ∈ d, e.2 = v := by
  obtain ⟨e, he, hv⟩ := Option.map_eq_some_iff.mp h
  exact ⟨e, Array.mem_of_find?_eq_some he, hv⟩

theorem all_insert {P : Value → Prop} {d : Dict} {key value : Value}
    (hd : ∀ e ∈ d, P e.1 ∧ P e.2) (hkey : P key) (hvalue : P value) :
    ∀ e ∈ d.insert key value, P e.1 ∧ P e.2 := by
  intro e he
  unfold insert at he
  split at he
  · rcases of_mem_modify he with he | ⟨old, hold, rfl⟩
    · exact hd e he
    · exact ⟨(hd old hold).1, hvalue⟩
  · rcases Array.mem_push.mp he with he | rfl
    · exact hd e he
    · exact ⟨hkey, hvalue⟩

end Dict

namespace Heap

variable {P : Value → Prop} {h : Heap}

theorem All.list (hh : h.All P) (i : Nat) : ∀ v ∈ h.list i, P v := by
  intro v hv
  unfold Heap.list at hv
  by_cases hi : i < h.lists.size
  · rw [Array.getD_eq_getD_getElem?, Array.getElem?_eq_getElem hi] at hv
    exact hh.lists _ (Array.getElem_mem hi) v hv
  · rw [Array.getD_eq_getD_getElem?, Array.getElem?_eq_none (by omega)] at hv
    simp at hv

theorem All.dict (hh : h.All P) (i : Nat) : ∀ e ∈ h.dict i, P e.1 ∧ P e.2 := by
  intro e he
  unfold Heap.dict at he
  by_cases hi : i < h.dicts.size
  · rw [Array.getD_eq_getD_getElem?, Array.getElem?_eq_getElem hi] at he
    exact hh.dicts _ (Array.getElem_mem hi) e he
  · rw [Array.getD_eq_getD_getElem?, Array.getElem?_eq_none (by omega)] at he
    simp at he

theorem All.object (hh : h.All P) {i : Nat} {o : Object} (ho : h.object? i = some o) :
    P (.classValue o.classValue) ∧ ∀ e ∈ o.properties, P e.2 :=
  hh.objects o (Array.mem_of_getElem? ho)

theorem All.imp {Q : Value → Prop} (hh : h.All P) (hPQ : ∀ v, P v → Q v) : h.All Q where
  lists vs hvs v hv := hPQ v (hh.lists vs hvs v hv)
  dicts d hd e he := (hh.dicts d hd e he).imp (hPQ _) (hPQ _)
  objects o ho := (hh.objects o ho).imp (hPQ _) fun hps e he => hPQ _ (hps e he)

end Heap

/-- From a heap with `P` comes a heap with `P`, and with `Q` of the result if there is one. -/
def Gives {ε α : Type} (P : Value → Prop) (w : EStateM ε Heap α) (Q : α → Prop) : Prop :=
  ∀ h : Heap, h.All P → (finalState w h).All P ∧ ∀ a h', w h = .ok a h' → Q a

namespace Gives

section

variable {ε α β : Type} {P : Value → Prop} {Q : α → Prop} {R : β → Prop}

theorem pure {a : α} (ha : Q a) : Gives P (Pure.pure a : EStateM ε Heap α) Q := by
  intro h hh
  refine ⟨hh, fun b h' hb => ?_⟩
  cases hb
  exact ha

theorem throw (e : ε) : Gives P (MonadExcept.throw e : EStateM ε Heap α) Q :=
  fun _ hh => ⟨hh, fun _ _ hb => absurd hb throw_ne_ok⟩

theorem get : Gives P (MonadState.get : EStateM ε Heap Heap) (Heap.All P) := by
  intro h hh
  refine ⟨hh, fun b h' hb => ?_⟩
  cases hb
  exact hh

theorem bind {w : EStateM ε Heap α} {f : α → EStateM ε Heap β} (hw : Gives P w Q)
    (hf : ∀ a, Q a → Gives P (f a) R) : Gives P (w >>= f) R := by
  intro h hh
  obtain ⟨hfinal, hgives⟩ := hw h hh
  cases hrun : w h with
  | ok a h₁ =>
    rw [finalState_ok hrun] at hfinal
    have hnext := hf a (hgives a h₁ hrun) h₁ hfinal
    simpa only [finalState, bind_of_ok hrun] using hnext
  | error e h₁ =>
    rw [finalState_error hrun] at hfinal
    rw [finalState_error (bind_of_error hrun)]
    refine ⟨hfinal, fun b h' hb => ?_⟩
    rw [bind_of_error hrun] at hb
    cases hb

theorem modifyGet {f : Heap → α × Heap} (hf : ∀ h : Heap, h.All P → (f h).2.All P ∧ Q (f h).1) :
    Gives P (MonadStateOf.modifyGet f : EStateM ε Heap α) Q := by
  intro h hh
  refine ⟨(hf h hh).1, fun a h' ha => ?_⟩
  cases ha
  exact (hf h hh).2

theorem ite {c : Prop} [Decidable c] {w w' : EStateM ε Heap α} (hw : Gives P w Q)
    (hw' : Gives P w' Q) : Gives P (if c then w else w') Q := by
  split
  · exact hw
  · exact hw'

theorem mono {Q' : α → Prop} {w : EStateM ε Heap α} (hw : Gives P w Q) (hQ : ∀ a, Q a → Q' a) :
    Gives P w Q' :=
  fun h hh => ⟨(hw h hh).1, fun a h' ha => hQ a ((hw h hh).2 a h' ha)⟩

theorem foldlM {f : β → α → EStateM ε Heap β} (hf : ∀ b a, R b → Q a → Gives P (f b a) R)
    {as : List α} (has : ∀ a ∈ as, Q a) {b : β} (hb : R b) : Gives P (as.foldlM f b) R := by
  induction as generalizing b with
  | nil => exact pure hb
  | cons a as ih =>
    rw [List.foldlM_cons]
    refine bind (hf b a hb (has a List.mem_cons_self)) fun b' hb' => ?_
    exact ih (fun a' ha' => has a' (List.mem_cons_of_mem _ ha')) hb'

theorem newDict {d : Dict} (hd : ∀ e ∈ d, P e.1 ∧ P e.2) :
    Gives P (Work.newDict d) fun v => v.isPlain = true := by
  refine modifyGet fun h hh => ⟨⟨hh.lists, fun d' hd' => ?_, hh.objects⟩, rfl⟩
  rcases Array.mem_push.mp hd' with hd' | rfl
  · exact hh.dicts d' hd'
  · exact hd

theorem newObject {c : ClassValue} (hc : P (.classValue c)) :
    Gives P (Work.newObject c) fun v => v.isPlain = true := by
  refine modifyGet fun h hh => ⟨⟨hh.lists, hh.dicts, fun o ho => ?_⟩, rfl⟩
  rcases Array.mem_push.mp ho with ho | rfl
  · exact hh.objects o ho
  · exact ⟨hc, nofun⟩

theorem newList {vs : Array Value} (hvs : ∀ v ∈ vs, P v) :
    Gives P (Work.newList vs) fun v => v.isPlain = true := by
  refine modifyGet fun h hh => ⟨⟨fun vs' hvs' => ?_, hh.dicts, hh.objects⟩, rfl⟩
  rcases Array.mem_push.mp hvs' with hvs' | rfl
  · exact hh.lists vs' hvs'
  · exact hvs

theorem setList (i : Nat) {f : Array Value → Array Value}
    (hf : ∀ vs : Array Value, (∀ v ∈ vs, P v) → ∀ v ∈ f vs, P v) :
    Gives P (Work.setList i f) fun _ => True := by
  refine modifyGet fun h hh => ⟨⟨fun vs hvs => ?_, hh.dicts, hh.objects⟩, trivial⟩
  rcases of_mem_modify hvs with hvs | ⟨old, hold, rfl⟩
  · exact hh.lists vs hvs
  · exact hf old (hh.lists old hold)

theorem setDict (i : Nat) {f : Dict → Dict}
    (hf : ∀ d : Dict, (∀ e ∈ d, P e.1 ∧ P e.2) → ∀ e ∈ f d, P e.1 ∧ P e.2) :
    Gives P (Work.setDict i f) fun _ => True := by
  refine modifyGet fun h hh => ⟨⟨hh.lists, fun d hd => ?_, hh.objects⟩, trivial⟩
  rcases of_mem_modify hd with hd | ⟨old, hold, rfl⟩
  · exact hh.dicts d hd
  · exact hf old (hh.dicts old hold)

theorem setProperty (i : Nat) (x : String) {v : Value} (hv : P v) :
    Gives P (Work.setProperty i x v) fun _ => True := by
  refine modifyGet fun h hh => ⟨⟨hh.lists, hh.dicts, fun o ho => ?_⟩, trivial⟩
  dsimp only at ho
  rcases of_mem_modify ho with ho | ⟨old, hold, rfl⟩
  · exact hh.objects o ho
  · refine ⟨(hh.objects old hold).1, fun e he => ?_⟩
    rcases Bindings.of_mem_bind he with hev | he
    · rwa [hev]
    · exact (hh.objects old hold).2 e he

theorem number (n : Num) : Gives P (Work.number n) fun v => v.isPlain = true := by
  unfold Work.number
  split
  · exact pure rfl
  · refine ite (modifyGet fun h hh => ⟨⟨hh.lists, hh.dicts, hh.objects⟩, rfl⟩) ?_
    exact pure rfl

theorem scalar (s : Scalar) : Gives P (Work.scalar s) fun v => v.isPlain = true := by
  cases s with
  | float x => exact number (.float x)
  | _ => exact pure rfl

theorem ofExcept (r : Except Fault α) : Gives P (Work.ofExcept r) fun _ => True := by
  cases r with
  | ok a => exact pure trivial
  | error f => exact throw f

theorem text (v : Value) : Gives P (Work.text v) fun _ => True :=
  get.bind fun _ _ => ofExcept _

theorem arithmetic (op : BinaryOp) (f : Num → Num → Except Fault Num) (a b : Value) :
    Gives P (Work.arithmetic op f a b) fun v => v.isPlain = true := by
  unfold Work.arithmetic
  split
  · exact (ofExcept _).bind fun n _ => number n
  · exact throw _

theorem add (a b : Value) : Gives P (Work.add a b) fun v => v.isPlain = true := by
  unfold Work.add
  split
  · exact (text _).bind fun _ _ => pure rfl
  · exact (text _).bind fun _ _ => pure rfl
  · refine get.bind fun h hh => newList fun v hv => ?_
    rcases Array.mem_append.mp hv with hv | hv
    · exact hh.list _ v hv
    · exact hh.list _ v hv
  · exact arithmetic _ _ _ _

theorem repetitions (n : Int) : Gives P (Work.repetitions n) fun _ => True :=
  ite (throw _) (pure trivial)

theorem repeatText (s : String) (n : Int) :
    Gives P (Work.repeatText s n) fun v => v.isPlain = true := by
  refine (repetitions n).bind fun count _ => ite (pure rfl) ?_
  refine ite ((throw _).bind fun _ (h : False) => h.elim) ?_
  exact ite ((throw _).bind fun _ (h : False) => h.elim) (pure rfl)

theorem repeatList {vs : Array Value} (hvs : ∀ v ∈ vs, P v) (n : Int) :
    Gives P (Work.repeatList vs n) fun v => v.isPlain = true := by
  refine (repetitions n).bind fun count _ => ite (newList (by simp)) ?_
  refine ite (throw _) (newList fun v hv => ?_)
  obtain ⟨ws, hws, hv⟩ := List.mem_flatten.mp (List.mem_toArray.mp hv)
  rw [List.eq_of_mem_replicate hws] at hv
  exact hvs v (Array.mem_toList_iff.mp hv)

theorem multiply (a b : Value) : Gives P (Work.multiply a b) fun v => v.isPlain = true := by
  unfold Work.multiply
  split
  · exact repeatText _ _
  · exact repeatText _ _
  · exact get.bind fun h hh => repeatList (hh.list _) _
  · exact get.bind fun h hh => repeatList (hh.list _) _
  · exact arithmetic _ _ _ _

theorem modulo (a b : Value) : Gives P (Work.modulo a b) fun v => v.isPlain = true := by
  unfold Work.modulo
  refine ite (throw _) ?_
  split
  · exact get.bind fun _ _ => (ofExcept _).bind fun _ _ => pure rfl
  · exact arithmetic _ _ _ _

theorem binary (op : BinaryOp) (a b : Value) :
    Gives P (Work.binary op a b) fun v => v.isPlain = true := by
  unfold Work.binary
  split
  · exact add a b
  · exact arithmetic _ _ _ _
  · exact multiply a b
  · exact ite (throw _) (arithmetic _ _ _ _)
  · exact modulo a b
  all_goals exact get.bind fun _ _ => (ofExcept _).bind fun _ _ => pure rfl

theorem work {w : Work α} (hw : Gives P w Q) : Gives P (Builtin.work w) Q := by
  intro h hh
  have hrun := hw h hh
  unfold finalState Builtin.work at *
  cases hwh : w h with
  | ok a h' =>
    simp only [hwh] at hrun ⊢
    refine ⟨hrun.1, fun b h'' hb => ?_⟩
    cases hb
    exact hrun.2 a h' rfl
  | error f h' =>
    simp only [hwh] at hrun ⊢
    exact ⟨hrun.1, nofun⟩

end

variable {P : Value → Prop}

theorem lengthOf (v : Value) : Gives P (Builtin.lengthOf v) fun v => v.isPlain = true := by
  unfold Builtin.lengthOf
  split
  · exact pure rfl
  · exact get.bind fun _ _ => pure rfl
  · exact get.bind fun _ _ => pure rfl
  · exact throw _

theorem toText (v : Value) : Gives P (Builtin.toText v) fun v => v.isPlain = true := by
  unfold Builtin.toText
  split
  · exact pure rfl
  · exact (work (text _)).bind fun _ _ => pure rfl

theorem toInteger (v : Value) : Gives P (Builtin.toInteger v) fun v => v.isPlain = true := by
  unfold Builtin.toInteger
  split
  · exact pure rfl
  · exact pure rfl
  · split
    · exact throw _
    · split
      · exact pure rfl
      · exact throw _
  · split
    · exact pure rfl
    · exact throw _
  · exact throw _

theorem toDouble (v : Value) : Gives P (Builtin.toDouble v) fun v => v.isPlain = true := by
  unfold Builtin.toDouble
  split
  · exact pure rfl
  · split
    · exact work (number _)
    · exact throw _
  · split
    · exact work ((ofExcept _).bind fun _ _ => number _)
    · exact throw _

theorem index (v : Value) : Gives P (Builtin.index v) fun _ => True := by
  unfold Builtin.index
  split
  · exact pure trivial
  · exact throw _

theorem rangeList (start stop step : Int) (hP : ∀ v : Value, v.isPlain = true → P v) :
    Gives P (Builtin.rangeList start stop step) fun v => v.isPlain = true := by
  unfold Builtin.rangeList
  refine ite ((throw _).bind fun _ (h : False) => h.elim) ?_
  refine ite ((throw _).bind fun _ (h : False) => h.elim) ?_
  refine ite ((throw _).bind fun _ (h : False) => h.elim) (work (newList fun v hv => ?_))
  obtain ⟨k, -, rfl⟩ := Array.mem_map.mp hv
  exact hP _ rfl

theorem rangeOf (start stop step : Value) (hP : ∀ v : Value, v.isPlain = true → P v) :
    Gives P (Builtin.rangeOf start stop step) fun v => v.isPlain = true := by
  unfold Builtin.rangeOf
  split
  · exact (index _).bind fun _ _ => rangeList _ _ _ hP
  · exact (index _).bind fun _ _ => (index _).bind fun _ _ => (index _).bind fun _ _ =>
      rangeList _ _ _ hP

theorem absoluteOf (v : Value) : Gives P (Builtin.absoluteOf v) fun v => v.isPlain = true := by
  unfold Builtin.absoluteOf
  split
  · exact work (number _)
  · exact throw _

theorem extreme (op : BinaryOp) (name : String) {args : List Value} (hargs : ∀ v ∈ args, P v) :
    Gives P (Builtin.extreme op name args) P := by
  refine get.bind fun h hh => ?_
  have hitems : ∀ v ∈ Builtin.itemsOf h args, P v := by
    unfold Builtin.itemsOf
    split
    · exact fun v hv => hh.list _ v (Array.mem_toList_iff.mp hv)
    · exact hargs
  split
  · exact throw _
  · rename_i v vs heq
    rw [heq] at hitems
    have hvs := fun w hw => hitems w (List.mem_cons_of_mem v hw)
    refine foldlM (fun best x hbest hx => ?_) hvs (hitems v List.mem_cons_self)
    refine (work (ofExcept _)).bind fun b _ => pure ?_
    cases b with
    | true => exact hx
    | false => exact hbest

theorem sumOf (v : Value) : Gives P (Builtin.sumOf v) fun v => v.isPlain = true := by
  unfold Builtin.sumOf
  split
  · refine get.bind fun h _ => ?_
    refine bind (Q := fun _ => True)
      (foldlM (Q := fun _ => True) (fun sum x _ _ => ?_) (fun _ _ => trivial) trivial)
      fun n _ => work (number n)
    split
    · exact work (ofExcept _)
    · exact throw _
  · exact throw _

theorem appendTo (v : Value) {item : Value} (hitem : P item) :
    Gives P (Builtin.appendTo v item) fun v => v.isPlain = true := by
  unfold Builtin.appendTo
  split
  · refine (work (setList _ fun vs hvs w hw => ?_)).bind fun _ _ => pure rfl
    rcases Array.mem_push.mp hw with hw | rfl
    · exact hvs w hw
    · exact hitem
  · exact throw _

theorem getD_mem {vs : Array Value} (hvs : ∀ v ∈ vs, P v) (hnone : P .none) (i : Nat) :
    P (vs.getD i .none) := by
  rw [Array.getD_eq_getD_getElem?]
  by_cases hi : i < vs.size
  · rw [Array.getElem?_eq_getElem hi]
    exact hvs _ (Array.getElem_mem hi)
  · rwa [Array.getElem?_eq_none (by omega)]

theorem popFrom (v place : Value) (hP : ∀ v : Value, v.isPlain = true → P v) :
    Gives P (Builtin.popFrom v place) P := by
  unfold Builtin.popFrom
  split
  · refine (index _).bind fun n _ => ite ((throw _).bind fun _ (h : False) => h.elim) ?_
    refine get.bind fun h hh => ?_
    dsimp only
    split
    · refine (work (setList _ fun vs hvs w hw => ?_)).bind fun _ _ => pure ?_
      · rw [Array.eraseIdxIfInBounds] at hw
        split at hw
        · exact hvs w (Array.mem_of_mem_eraseIdx hw)
        · exact hvs w hw
      · exact getD_mem (hh.list _) (hP _ rfl) _
    · exact throw _
  · exact throw _

theorem entriesOf (name : String) {part : Value × Value → Value} (v : Value)
    (hpart : ∀ e : Value × Value, P e.1 ∧ P e.2 → P (part e)) :
    Gives P (Builtin.entriesOf name part v) fun v => v.isPlain = true := by
  unfold Builtin.entriesOf
  split
  · refine get.bind fun h hh => work (newList fun v hv => ?_)
    obtain ⟨e, he, rfl⟩ := Array.mem_map.mp hv
    exact hpart e (hh.dict _ e he)
  · exact throw _

theorem apply (b : Builtin) {args : List Value} (hP : ∀ v : Value, v.isPlain = true → P v)
    (hargs : ∀ v ∈ args, P v) : Gives P (b.apply args) P := by
  have harg (n : Nat) (default : Value) (hdefault : P default) : P (args.getD n default) := by
    rw [List.getD_eq_getElem?_getD]
    cases hn : args[n]? with
    | some v => exact hargs v (List.mem_of_getElem? hn)
    | none => exact hdefault
  unfold Builtin.apply
  dsimp only
  split
  · exact (throw _).bind fun _ (h : False) => h.elim
  · split
    · exact (lengthOf _).mono hP
    · exact pure (hP _ rfl)
    · exact (toText _).mono hP
    · exact (toInteger _).mono hP
    · exact (toDouble _).mono hP
    · exact (rangeOf _ _ _ hP).mono hP
    · exact (absoluteOf _).mono hP
    · exact extreme _ _ hargs
    · exact extreme _ _ hargs
    · exact (sumOf _).mono hP
    · exact (appendTo _ (harg 1 _ (hP _ rfl))).mono hP
    · exact popFrom _ _ hP
    · exact (entriesOf _ _ fun _ he => he.1).mono hP
    · exact (entriesOf _ _ fun _ he => he.2).mono hP

end Gives

end Bhasha
