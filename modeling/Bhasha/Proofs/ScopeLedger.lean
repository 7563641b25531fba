import Bhasha.Proofs.ScopeTree

namespace Bhasha

variable {α : Type}

/-- A change to a forest of scopes. -/
inductive Scopes.Change (α : Type)
  | create (parent : Option Nat)
  | define (i : Nat) (x : String) (v : α)
  | set (i : Nat) (x : String) (v : α)

/-- The scope that has to be there for the change. -/
def Scopes.Change.place? : Scopes.Change α → Option Nat
  | create parent => parent
  | define i _ _ | set i _ _ => some i

namespace Scopes

/-- A change that fails changes nothing. -/
def change (s : Scopes α) : Change α → Scopes α
  | .create parent => match s.create parent with
    | .ok (_, s') => s'
    | .error _ => s
  | .define i x v => s.define i x v
  | .set i x v => match s.set i x v none with
    | .ok s' => s'
    | .error _ => s

/-- The changes one after another, as long as each finds its scope. -/
def changeAll (s : Scopes α) : List (Change α) → Option (Scopes α)
  | [] => some s
  | c :: cs => if c.place?.all (· < s.all.size) then (s.change c).changeAll cs else none

end Scopes

/-- A record of the changes to a forest of scopes. -/
structure Ledger (α : Type) where
  /-- Of each scope: itself and the scopes around it, the nearest first. -/
  chains : List (List Nat) := []
  /-- What was written where, the newest first. -/
  writes : List (Nat × String × α) := []

namespace Ledger

def chain (L : Ledger α) (i : Nat) : List Nat :=
  L.chains.getD i []

/-- What was last written to `x` in the scope `i`. -/
def last? (L : Ledger α) (i : Nat) (x : String) : Option α :=
  (L.writes.find? fun w => w.1 == i && w.2.1 == x).map (·.2.2)

/-- The nearest scope, from `i` on outwards, in which something was written to `x`. -/
def nearest? (L : Ledger α) (i : Nat) (x : String) : Option Nat :=
  (L.chain i).find? fun o => (L.last? o x).isSome

def write (L : Ledger α) (i : Nat) (x : String) (v : α) : Ledger α :=
  { L with writes := (i, x, v) :: L.writes }

/-- One more scope, with these around it. -/
def enclose (L : Ledger α) (around : List Nat) : Ledger α :=
  { L with chains := L.chains ++ [L.chains.length :: around] }

def note (L : Ledger α) : Scopes.Change α → Ledger α
  | .create parent =>
    let around := (parent.map L.chain).getD []
    if around.length ≤ Scopes.depthLimit then L.enclose around else L
  | .define i x v => L.write i x v
  | .set i x v => match L.nearest? i x with
    | some o => L.write o x v
    | none => L

/-- The ledger of a forest that was made by these changes. -/
def of (cs : List (Scopes.Change α)) : Ledger α :=
  cs.foldl note {}

theorem last?_write (L : Ledger α) (o i : Nat) (x y : String) (v : α) :
    (L.write o x v).last? i y = if i = o ∧ y = x then some v else L.last? i y := by
  by_cases h : i = o ∧ y = x
  · obtain ⟨rfl, rfl⟩ := h
    simp [last?, write]
  · have hne : ¬(o = i ∧ x = y) := fun h' => h ⟨h'.1.symm, h'.2.symm⟩
    simp [last?, write, h, hne]

/-- Where something was written to a name before, nothing comes between. -/
theorem nearest?_write {L : Ledger α} {o : Nat} {x : String} (h : (L.last? o x).isSome = true)
    (v : α) (i : Nat) (y : String) : (L.write o x v).nearest? i y = L.nearest? i y := by
  have hbound (j : Nat) : ((L.write o x v).last? j y).isSome = (L.last? j y).isSome := by
    rw [last?_write]
    split
    · rename_i heq
      rw [heq.1, heq.2, h]
      rfl
    · rfl
  unfold nearest?
  simp only [hbound]
  rfl

theorem nearest?_eq_none {L : Ledger α} {i : Nat} {x : String} :
    L.nearest? i x = none ↔ ∀ o ∈ L.chain i, L.last? o x = none := by
  simp [nearest?, List.find?_eq_none]

theorem last?_of_nearest? {L : Ledger α} {i o : Nat} {x : String} (h : L.nearest? i x = some o) :
    (L.last? o x).isSome = true :=
  List.find?_some (p := fun o => (L.last? o x).isSome) h

theorem chain_enclose_self (L : Ledger α) (around : List Nat) :
    (L.enclose around).chain L.chains.length = L.chains.length :: around := by
  simp [chain, enclose]

theorem chain_enclose {L : Ledger α} {i : Nat} (hi : i < L.chains.length) (around : List Nat) :
    (L.enclose around).chain i = L.chain i := by
  simp [chain, enclose, List.getElem?_append_left hi]

end Ledger

theorem Bindings.names_bind_of_has {b : Bindings α} {x : String} (h : b.has x = true) (v : α) :
    (b.bind x v).names = b.names := by
  induction b with
  | nil => cases h
  | cons e b ih =>
    obtain ⟨y, w⟩ := e
    by_cases hyx : y = x
    · simp [Bindings.bind, Bindings.names, hyx]
    · have hb : Bindings.has b x = true := by simpa [Bindings.has, Bindings.find?, hyx] using h
      have hnames : (Bindings.bind b x v).names = Bindings.names b := ih hb
      simpa [Bindings.bind, Bindings.names, hyx] using hnames

namespace Scopes

variable {s s' : Scopes α} {i o : Nat} {x : String}

/-- All that is different in `s'` is what `x` is bound to in the scope `o`. -/
structure Rewritten (s s' : Scopes α) (o : Nat) (x : String) (v : α) : Prop where
  size : s'.all.size = s.all.size
  nested : ∀ i < s.all.size, s'.parent? i = s.parent? i ∧ s'.depth i = s.depth i
  names : ∀ i, (s'.bindings i).names = (s.bindings i).names
  values : ∀ i y, (s'.bindings i).find? y = if i = o ∧ y = x then some v else (s.bindings i).find? y

theorem bindings_define_of_lt (ho : o < s.all.size) (i : Nat) (x : String) (v : α) :
    (s.define o x v).bindings i = if o = i then (s.bindings i).bind x v else s.bindings i := by
  by_cases hi : i < s.all.size
  · exact bindings_define s o i x v hi
  · rw [if_neg (by omega), bindings, bindings, Array.getElem?_eq_none (by rw [size_define]; omega),
      Array.getElem?_eq_none (by omega)]

theorem find?_define (ho : o < s.all.size) (i : Nat) (x y : String) (v : α) :
    ((s.define o x v).bindings i).find? y =
      if i = o ∧ y = x then some v else (s.bindings i).find? y := by
  rw [bindings_define_of_lt ho]
  by_cases hi : o = i
  · rw [if_pos hi, Bindings.find?_bind]
    simp [hi, eq_comm]
  · rw [if_neg hi, if_neg fun h => hi h.1.symm]

theorem rewritten_define (h : s.binds o x) (v : α) : s.Rewritten (s.define o x v) o x v where
  size := size_define s o x v
  nested i hi := ⟨(extends_define s o x v).parent?_eq hi, ((extends_define s o x v).depth hi).2⟩
  names i := by
    rw [bindings_define_of_lt (lt_size_of_binds h)]
    split
    · rename_i hoi
      exact Bindings.names_bind_of_has (hoi ▸ h) v
    · rfl
  values i y := find?_define (lt_size_of_binds h) i x y v

theorem parent?_add_self (s : Scopes α) (parent : Option Nat) :
    (s.add parent).parent? s.all.size = parent := by
  simp [parent?, add]

theorem depth_add_self (s : Scopes α) (parent : Option Nat) :
    (s.add parent).depth s.all.size = s.innerDepth parent := by
  simp [depth, add]

end Scopes

/-- The ledger knows the scopes and what they bind. -/
structure Ledger.Tracks (L : Ledger α) (s : Scopes α) : Prop where
  size : L.chains.length = s.all.size
  lineage : ∀ i < s.all.size, s.Lineage i (L.chain i)
  depth : ∀ i < s.all.size, (L.chain i).length = s.depth i + 1
  bindings : ∀ i x, (s.bindings i).find? x = L.last? i x

namespace Ledger.Tracks

variable {L : Ledger α} {s s' : Scopes α} {i o : Nat} {x : String}

theorem binds_iff (h : L.Tracks s) : s.binds i x ↔ (L.last? i x).isSome = true := by
  rw [Scopes.binds, Bindings.has, h.bindings]

theorem owner? (h : L.Tracks s) (hi : i < s.all.size) (x : String) :
    s.owner? i x = L.nearest? i x := by
  rw [Scopes.owner?, (h.lineage i hi).ownerWithin (Nat.le_of_eq (h.depth i hi)), Ledger.nearest?]
  simp only [Bindings.has, h.bindings]

theorem get? (h : L.Tracks s) (hi : i < s.all.size) (x : String) :
    s.get? i x = (L.nearest? i x).bind fun o => L.last? o x := by
  rw [Scopes.get?_eq_bind, h.owner? hi]
  exact congrArg _ (funext fun o => h.bindings o x)

theorem empty : ({} : Ledger α).Tracks {} where
  size := rfl
  lineage _ hi := absurd hi (Nat.not_lt_zero _)
  depth _ hi := absurd hi (Nat.not_lt_zero _)
  bindings _ _ := rfl

theorem define (h : L.Tracks s) (hi : i < s.all.size) (x : String) (v : α) :
    (L.write i x v).Tracks (s.define i x v) where
  size := h.size.trans (Scopes.size_define s i x v).symm
  lineage j hj := by
    rw [Scopes.size_define] at hj
    exact (h.lineage j hj).extends (Scopes.extends_define s i x v)
  depth j hj := by
    rw [Scopes.size_define] at hj
    rw [((Scopes.extends_define s i x v).depth hj).2]
    exact h.depth j hj
  bindings j y := by
    rw [Scopes.find?_define hi, Ledger.last?_write, h.bindings]

theorem around (h : L.Tracks s) {parent : Option Nat}
    (hparent : parent.all (· < s.all.size) = true) :
    ((parent.map L.chain).getD []).length = s.innerDepth parent := by
  cases parent with
  | none => rfl
  | some p => exact h.depth p (by simpa using hparent)

/-- A new scope lies in its parent and in the scopes around that. -/
theorem add (h : L.Tracks s) {parent : Option Nat}
    (hparent : parent.all (· < s.all.size) = true) :
    (L.enclose ((parent.map L.chain).getD [])).Tracks (s.add parent) := by
  have hsize : (s.add parent).all.size = s.all.size + 1 := by simp [Scopes.add]
  have hext := Scopes.extends_add s parent
  have hold {i : Nat} (hi : i < s.all.size) := Ledger.chain_enclose (h.size.symm ▸ hi)
    ((parent.map L.chain).getD [])
  have hnew := Ledger.chain_enclose_self L ((parent.map L.chain).getD [])
  rw [h.size] at hnew
  refine ⟨?_, fun i hi => ?_, fun i hi => ?_, fun i x => ?_⟩
  · rw [hsize, ← h.size, Ledger.enclose, List.length_append, List.length_singleton]
  · by_cases hi' : i < s.all.size
    · rw [hold hi']
      exact (h.lineage i hi').extends hext
    · obtain rfl : i = s.all.size := by omega
      have hparent? := Scopes.parent?_add_self s parent
      rw [hnew]
      cases parent with
      | none => exact .root hi hparent?
      | some p => exact .inner hparent? ((h.lineage p (by simpa using hparent)).extends hext)
  · by_cases hi' : i < s.all.size
    · rw [hold hi', (hext.depth hi').2]
      exact h.depth i hi'
    · obtain rfl : i = s.all.size := by omega
      rw [hnew, Scopes.depth_add_self, List.length_cons, h.around hparent]
  · rw [Scopes.bindings_add]
    exact h.bindings i x

theorem set (h : L.Tracks s) (hi : i < s.all.size) (ho : L.nearest? i x = some o) (v : α)
    (line : Option Nat) : s.set i x v line = .ok (s.define o x v) := by
  rw [Scopes.set, Scopes.set?_eq_map, h.owner? hi, ho]
  rfl

theorem set_error (h : L.Tracks s) (hi : i < s.all.size) (hnone : L.nearest? i x = none) (v : α)
    (line : Option Nat) : s.set i x v line = .error (Scopes.unassignable x line) := by
  rw [Scopes.set, Scopes.set?_eq_map, h.owner? hi, hnone]
  rfl

theorem change (h : L.Tracks s) {c : Scopes.Change α}
    (hplace : c.place?.all (· < s.all.size) = true) : (L.note c).Tracks (s.change c) := by
  cases c with
  | create parent =>
    have hdepth : ((parent.map L.chain).getD []).length = s.innerDepth parent := h.around hplace
    by_cases hdeep : Scopes.depthLimit < s.innerDepth parent
    · have hnote : L.note (.create parent) = L := if_neg (by rw [hdepth]; omega)
      rwa [hnote, Scopes.change, Scopes.create, if_pos hdeep]
    · have hnote : L.note (.create parent) = L.enclose _ := if_pos (by rw [hdepth]; omega)
      rw [hnote, Scopes.change, Scopes.create, if_neg hdeep]
      exact h.add hplace
  | define i x v => exact h.define (of_decide_eq_true hplace) x v
  | set i x v =>
    have hi : i < s.all.size := of_decide_eq_true hplace
    rw [Ledger.note, Scopes.change]
    cases ho : L.nearest? i x with
    | none =>
      rw [h.set_error hi ho]
      exact h
    | some o =>
      rw [h.set hi ho]
      exact h.define (Scopes.lt_size_of_binds (h.binds_iff.mpr (Ledger.last?_of_nearest? ho))) x v

theorem changeAll (h : L.Tracks s) {cs : List (Scopes.Change α)}
    (hs : s.changeAll cs = some s') : (cs.foldl Ledger.note L).Tracks s' := by
  induction cs generalizing L s with
  | nil =>
    cases hs
    exact h
  | cons c cs ih =>
    rw [Scopes.changeAll] at hs
    split at hs
    · next hplace => exact ih (h.change hplace) hs
    · cases hs

theorem get_eq_ok (h : L.Tracks s) (hi : i < s.all.size) {line : Option Nat} {v : α} :
    s.get i x line = .ok v ↔ ∃ o, L.nearest? i x = some o ∧ L.last? o x = some v := by
  rw [Scopes.get, h.get? hi, ← Option.bind_eq_some_iff]
  cases (L.nearest? i x).bind fun o => L.last? o x <;> simp

theorem get_eq_error (h : L.Tracks s) (hi : i < s.all.size) {line : Option Nat} {d : Diagnostic} :
    s.get i x line = .error d ↔
      (∀ o ∈ L.chain i, L.last? o x = none) ∧ d = Scopes.undefined x line := by
  rw [Scopes.get, h.get? hi, ← Ledger.nearest?_eq_none]
  cases ho : L.nearest? i x with
  | none => simp [eq_comm]
  | some o =>
    obtain ⟨v, hv⟩ := Option.isSome_iff_exists.mp (Ledger.last?_of_nearest? ho)
    simp [hv]

theorem set_eq_error (h : L.Tracks s) (hi : i < s.all.size) {line : Option Nat} {v : α}
    {d : Diagnostic} : s.set i x v line = .error d ↔
      (∀ o ∈ L.chain i, L.last? o x = none) ∧ d = Scopes.unassignable x line := by
  rw [← Ledger.nearest?_eq_none]
  cases ho : L.nearest? i x with
  | none => simp [h.set_error hi ho, eq_comm]
  | some o => simp [h.set hi ho]

/-- Writing to a name where it is bound already is seen from the scopes that find it there, and from
no other. -/
theorem get_define (h : L.Tracks s) (ho : (L.last? o x).isSome = true) (v : α)
    (hi : i < s.all.size) (y : String) (line : Option Nat) :
    (s.define o x v).get i y line =
      if y = x ∧ L.nearest? i x = some o then .ok v else s.get i y line := by
  have hlt : o < s.all.size := Scopes.lt_size_of_binds (h.binds_iff.mpr ho)
  have hi' : i < (s.define o x v).all.size := by rwa [Scopes.size_define]
  rw [Scopes.get, (h.define hlt x v).get? hi', Ledger.nearest?_write ho, Scopes.get, h.get? hi]
  by_cases hseen : y = x ∧ L.nearest? i x = some o
  · obtain ⟨rfl, hx⟩ := hseen
    simp [hx, Ledger.last?_write]
  · rw [if_neg hseen]
    cases hy : L.nearest? i y with
    | none => rfl
    | some o' =>
      have hother : ¬(o' = o ∧ y = x) := by
        rintro ⟨rfl, rfl⟩
        exact hseen ⟨rfl, hy⟩
      simp [Ledger.last?_write, hother]

theorem isBound_iff (h : L.Tracks s) (hi : i < s.all.size) {line : Option Nat} :
    s.isBound i x = true ↔ ∃ v, s.get i x line = .ok v := by
  rw [Scopes.isBound_eq_isSome, h.owner? hi, Option.isSome_iff_exists]
  constructor
  · rintro ⟨o, ho⟩
    obtain ⟨v, hv⟩ := Option.isSome_iff_exists.mp (Ledger.last?_of_nearest? ho)
    exact ⟨v, (h.get_eq_ok hi).mpr ⟨o, ho, hv⟩⟩
  · rintro ⟨v, hv⟩
    obtain ⟨o, ho, -⟩ := (h.get_eq_ok hi).mp hv
    exact ⟨o, ho⟩

end Ledger.Tracks

/-- What the scope `e` says of the name `x` is what the ledger says of it. -/
structure Ledger.Answers (L : Ledger α) (s : Scopes α) (e : Nat) (x : String) (line : Option Nat) :
    Prop where
  lineage : s.Lineage e (L.chain e)
  bindings : ∀ i, (s.bindings i).find? x = L.last? i x
  /-- The value is the one last written in the nearest scope that binds the name. -/
  get : ∀ v, s.get e x line = .ok v ↔ ∃ o, L.nearest? e x = some o ∧ L.last? o x = some v
  /-- Setting the name changes that one binding, which is seen from the scopes that find the name
  there, and from no other. -/
  set : ∀ v o, L.nearest? e x = some o → ∃ s', s.set e x v line = .ok s' ∧ s.Rewritten s' o x v ∧
    ∀ i < s.all.size, ∀ y line', s'.get i y line' =
      if y = x ∧ L.nearest? i x = some o then .ok v else s.get i y line'
  /-- Both fail, with errors of their own, where no scope around binds the name, and only there. -/
  get_error : ∀ d, s.get e x line = .error d ↔
    (∀ o ∈ L.chain e, L.last? o x = none) ∧ d = Scopes.undefined x line
  set_error : ∀ v d, s.set e x v line = .error d ↔
    (∀ o ∈ L.chain e, L.last? o x = none) ∧ d = Scopes.unassignable x line
  name_errors : (Scopes.undefined x line).kind = .name ∧ (Scopes.unassignable x line).kind = .name
  set_failed : (∀ o ∈ L.chain e, L.last? o x = none) → ∀ v, s.change (.set e x v) = s
  /-- To be bound and to be among the visible names both mean to have a value. -/
  isBound : s.isBound e x = true ↔ ∃ v, s.get e x line = .ok v
  visible : x ∈ s.visible e ↔ ∃ v, s.get e x line = .ok v

/-- Whatever creating scopes, binding names and setting them has led to, each scope answers for
every name as the ledger of these changes says. -/
theorem scopes_look_up_nearest {cs : List (Scopes.Change α)} {s : Scopes α}
    (hs : Scopes.changeAll {} cs = some s) {e : Nat} (he : e < s.all.size) (x : String)
    (line : Option Nat) : (Ledger.of cs).Answers s e x line := by
  have h : (Ledger.of cs).Tracks s := Ledger.Tracks.empty.changeAll hs
  refine ⟨h.lineage e he, fun i => h.bindings i x, fun v => h.get_eq_ok he, fun v o ho => ?_,
    fun d => h.get_eq_error he, fun v d => h.set_eq_error he, ⟨rfl, rfl⟩, fun hnone v => ?_,
    h.isBound_iff he, ?_⟩
  · have hbound := Ledger.last?_of_nearest? ho
    exact ⟨s.define o x v, h.set he ho v line, Scopes.rewritten_define (h.binds_iff.mpr hbound) v,
      fun i hi y line' => h.get_define hbound v hi y line'⟩
  · rw [Scopes.change, h.set_error he (Ledger.nearest?_eq_none.mpr hnone)]
  · exact ((h.lineage e he).mem_visible (h.depth e he) x).trans (h.isBound_iff he)

/-- Two scopes in one, the first of which hides the outer `x` from a scope of its own. -/
theorem scopes_look_up_nearest_shadowed :
    let cs : List (Scopes.Change Nat) :=
      [.create none, .define 0 "x" 1, .create (some 0), .create (some 0), .define 1 "x" 2,
       .create (some 1), .set 2 "x" 3, .set 3 "x" 4, .set 3 "y" 5]
    ∃ s, Scopes.changeAll {} cs = some s ∧ s.get 3 "x" none = .ok 4 ∧ s.get 2 "x" none = .ok 3 ∧
      s.get 3 "y" none = .error (Scopes.undefined "y" none) := by
  intro cs
  obtain ⟨s, hs⟩ : ∃ s, Scopes.changeAll {} cs = some s := ⟨_, rfl⟩
  have hsize : s.all.size = 4 := by
    cases hs
    rfl
  refine ⟨s, hs, ?_, ?_, ?_⟩
  · have hinner := scopes_look_up_nearest hs (e := 3) (by omega) "x" none
    exact (hinner.get 4).mpr ⟨1, by decide, by decide⟩
  · have houter := scopes_look_up_nearest hs (e := 2) (by omega) "x" none
    exact (houter.get 3).mpr ⟨0, by decide, by decide⟩
  · have hnowhere := scopes_look_up_nearest hs (e := 3) (by omega) "y" none
    exact (hnowhere.get_error _).mpr ⟨by decide, rfl⟩

end Bhasha
