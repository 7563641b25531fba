import Bhasha.Proofs.LoopTermination
import Bhasha.Proofs.ScopeTree

namespace Bhasha

/-- What a loop over a value goes through, as things stand. -/
def Machine.elements (m : Machine) : Value → List Value
  | .list place => (m.heap.list place).toList
  | .str s => s.toList.map fun ch => .str (String.singleton ch)
  | _ => []

namespace Value

/-- Lists and texts are what a loop can go through. -/
def isIterable : Value → Bool
  | .list _ | .str _ => true
  | _ => false

def isList : Value → Bool
  | .list _ => true
  | _ => false

end Value

theorem Machine.elements_list (m : Machine) (place i : Nat) :
    (m.elements (.list place))[i]? = (m.heap.list place)[i]? := by
  rw [elements, Array.getElem?_toList]

namespace Run

variable {x : String} {body : Run Unit} {v : Value} {i : Nat} {m : Machine}

/-- A loop over a list or a text, from the place `i` on. Only for a list are its turns limited. -/
def forItems (x : String) (body : Run Unit) : Value → (turns i : Nat) → Run Unit
  | .list place, turns, i => forList x body place turns i
  | .str s, _, i => forText x body (s.toList.drop i)
  | _, _, _ => return ()

theorem forItems_of_none (h : (m.elements v)[i]? = none) (n : Nat) :
    forItems x body v (n + 1) i m = .ok () m := by
  cases v with
  | list place =>
    rw [Machine.elements_list] at h
    exact forList_of_none h n
  | str s =>
    have hle : s.toList.length ≤ i := by simpa [Machine.elements] using h
    rw [forItems, List.drop_eq_nil_of_le hle]
    rfl
  | _ => rfl

theorem forItems_of_some {w : Value} (h : (m.elements v)[i]? = some w) (n : Nat) :
    forItems x body v (n + 1) i m = (do
      if ← round x w body then forItems x body v n (i + 1)) m := by
  cases v with
  | list place =>
    rw [Machine.elements_list] at h
    exact forList_of_some h n
  | str s =>
    rw [Machine.elements, List.getElem?_map, Option.map_eq_some_iff] at h
    obtain ⟨ch, hch, rfl⟩ := h
    obtain ⟨hi, hch⟩ := List.getElem?_eq_some_iff.1 hch
    rw [forItems, List.drop_eq_getElem_cons hi, hch, forText, round, bind_assoc]
    rfl
  | _ => cases h

end Run

section

variable (x : String) (v : Value) (body : Run Unit)

/-- From the place `i` on, with the machine at first `m`, the turns of a loop over `v` are on `ws`,
and the loop ends in `r`. -/
inductive Rounds : Nat → Machine → List Value → EStateM.Result Exit Machine Unit → Prop
  | done {i m} : (m.elements v)[i]? = none → Rounds i m [] (.ok () m)
  | left {i m w m'} : (m.elements v)[i]? = some w → Run.round x w body m = .ok false m' →
      Rounds i m [w] (.ok () m')
  | failed {i m w e m'} : (m.elements v)[i]? = some w → Run.round x w body m = .error e m' →
      Rounds i m [w] (.error e m')
  | again {i m w m' ws r} : (m.elements v)[i]? = some w → Run.round x w body m = .ok true m' →
      Rounds (i + 1) m' ws r → Rounds i m (w :: ws) r

/-- The machine is `m` after `i` turns that have gone on, from `start`. -/
inductive Goes (start : Machine) : Nat → Machine → Prop
  | start : Goes start 0 start
  | turn {i m w m'} : Goes start i m → (m.elements v)[i]? = some w →
      Run.round x w body m = .ok true m' → Goes start (i + 1) m'

end

section

variable {x : String} {v : Value} {body : Run Unit} {start m : Machine} {i : Nat}
  {ws : List Value} {r : EStateM.Result Exit Machine Unit}

theorem Rounds.forItems_of_lt {turns : Nat} (h : Rounds x v body i m ws r)
    (hturns : ws.length < turns) : Run.forItems x body v turns i m = r := by
  induction h generalizing turns with
  | done hnone =>
    obtain ⟨t, rfl⟩ := Nat.exists_eq_add_of_lt hturns
    exact Run.forItems_of_none hnone _
  | left hw hround =>
    obtain ⟨t, rfl⟩ := Nat.exists_eq_add_of_lt hturns
    rw [Run.forItems_of_some hw, bind_of_ok hround]
    rfl
  | failed hw hround =>
    obtain ⟨t, rfl⟩ := Nat.exists_eq_add_of_lt hturns
    rw [Run.forItems_of_some hw, bind_of_error hround]
  | again hw hround _ ih =>
    obtain ⟨t, rfl⟩ := Nat.exists_eq_add_of_lt hturns
    rw [Run.forItems_of_some hw, bind_of_ok hround]
    exact ih (by simp only [List.length_cons]; omega)

theorem Rounds.forItems {turns : Nat} (h : Rounds x v body i m ws r)
    (hv : v.isIterable = true) (hturns : v.isList = true → ws.length < turns) :
    Run.forItems x body v turns i m = r := by
  cases v with
  | list place => exact h.forItems_of_lt (hturns rfl)
  | str s =>
    -- The turns of a text are not limited.
    have hunlimited : Run.forItems x body (.str s) turns =
      Run.forItems x body (.str s) (ws.length + 1) := rfl
    rw [hunlimited]
    exact h.forItems_of_lt (Nat.lt_succ_self _)
  | _ => cases hv

theorem exists_rounds_of_forList {place turns : Nat}
    (h : ¬Exhausted (Run.forList x body place turns i m)) :
    ∃ ws, Rounds x (.list place) body i m ws (Run.forList x body place turns i m) := by
  induction turns generalizing i m with
  | zero => exact absurd ⟨m, rfl⟩ h
  | succ t ih =>
    have helements := m.elements_list place i
    cases hw : (m.heap.list place)[i]? with
    | none =>
      rw [Run.forList_of_none hw]
      exact ⟨[], .done (helements.trans hw)⟩
    | some w =>
      rw [Run.forList_of_some hw] at h ⊢
      cases hround : Run.round x w body m with
      | error e m' =>
        rw [bind_of_error hround]
        exact ⟨[w], .failed (helements.trans hw) hround⟩
      | ok go m' =>
        rw [bind_of_ok hround] at h ⊢
        cases go with
        | false => exact ⟨[w], .left (helements.trans hw) hround⟩
        | true =>
          obtain ⟨ws, hws⟩ := ih h
          exact ⟨w :: ws, .again (helements.trans hw) hround hws⟩

theorem Goes.unique {m' : Machine} (h : Goes x v body start i m) (h' : Goes x v body start i m') :
    m' = m := by
  induction h generalizing m' with
  | start =>
    cases h'
    rfl
  | turn _ hw hround ih =>
    obtain - | ⟨h', hw', hround'⟩ := h'
    cases ih h'
    cases hw.symm.trans hw'
    cases hround.symm.trans hround'
    rfl

/-- If there is always one more turn, then no number of turns is enough. -/
theorem exhausted_forList_of_goes {place : Nat}
    (hall : ∀ k, ∃ m', Goes x (.list place) body start k m') (turns : Nat) :
    Exhausted (Run.forList x body place turns 0 start) := by
  have hfrom {k : Nat} {m' : Machine} (h : Goes x (.list place) body start k m') :
      Exhausted (Run.forList x body place turns k m') := by
    induction turns generalizing k m' with
    | zero => exact ⟨m', rfl⟩
    | succ t ih =>
      obtain ⟨m₁, hnext⟩ := hall (k + 1)
      obtain - | ⟨h', hw, hround⟩ := hnext
      cases h.unique h'
      have hagain := h.turn hw hround
      rw [Machine.elements_list] at hw
      rw [Run.forList_of_some hw, bind_of_ok hround]
      exact ih hagain
  exact hfrom .start

/-- If no turn makes what is gone through longer than `most`, then the loop comes to an end. What
falls with every turn is the number of places left. -/
theorem Goes.exists_rounds {most : Nat}
    (hmost : ∀ k m', Goes x v body start k m' → (m'.elements v).length ≤ most)
    (h : Goes x v body start i m) : ∃ ws r, Rounds x v body i m ws r ∧ ws.length ≤ most - i := by
  obtain ⟨left, hleft⟩ : ∃ left, left = most - i := ⟨_, rfl⟩
  induction left generalizing i m with
  | zero =>
    have hlength := hmost i m h
    exact ⟨[], _, .done (List.getElem?_eq_none (by omega)), Nat.zero_le _⟩
  | succ left ih =>
    cases hw : (m.elements v)[i]? with
    | none => exact ⟨[], _, .done hw, Nat.zero_le _⟩
    | some w =>
      cases hround : Run.round x w body m with
      | error e m' => exact ⟨[w], _, .failed hw hround, by simp only [List.length_singleton]; omega⟩
      | ok go m' =>
        cases go with
        | false => exact ⟨[w], _, .left hw hround, by simp only [List.length_singleton]; omega⟩
        | true =>
          obtain ⟨ws, r, hws, hlength⟩ := ih (h.turn hw hround) (by omega)
          exact ⟨w :: ws, r, .again hw hround hws, by simp only [List.length_cons]; omega⟩

/-- If all turns leave what is gone through as it is, then they are on its elements in order. -/
theorem Rounds.isPrefix {ws₀ : List Value}
    (hsame : ∀ k m', Goes x v body start k m' → m'.elements v = ws₀)
    (h : Rounds x v body i m ws r) (hgoes : Goes x v body start i m) : ws <+: ws₀.drop i := by
  have hdrop {k : Nat} {m' : Machine} {w : Value} (hgoes : Goes x v body start k m')
      (hw : (m'.elements v)[k]? = some w) : ws₀.drop k = w :: ws₀.drop (k + 1) := by
    rw [hsame k m' hgoes] at hw
    obtain ⟨hk, hw⟩ := List.getElem?_eq_some_iff.1 hw
    rw [List.drop_eq_getElem_cons hk, hw]
  induction h with
  | done hnone => exact List.nil_prefix
  | left hw hround | failed hw hround =>
    rw [hdrop hgoes hw, List.cons_prefix_cons]
    exact ⟨rfl, List.nil_prefix⟩
  | again hw hround _ ih =>
    rw [hdrop hgoes hw, List.cons_prefix_cons]
    exact ⟨rfl, ih (hgoes.turn hw hround)⟩

/-- A loop fails only as its body does. -/
theorem Rounds.body_of_error {e : Exit} {m' : Machine}
    (h : Rounds x v body i m ws (.error e m')) : ∃ m₀, body m₀ = .error e m' := by
  generalize hr : EStateM.Result.error e m' = r at h
  induction h with
  | done hnone => cases hr
  | left hw hround => cases hr
  | failed hw hround =>
    cases hr
    rcases bind_eq_error hround with hdefine | ⟨u, m₁, hdefine, hturn⟩
    · cases hdefine
    · refine ⟨m₁, ?_⟩
      unfold Run.turn at hturn
      split at hturn
      · cases hturn
      · cases hturn
      · cases hturn
      · rename_i hbody
        cases hturn
        exact hbody
  | again hw hround _ ih => exact ih hr

end

/-- Evaluating `e` gives `v`, which a loop can go through. The loop leaves the scope `outer` for one
of its own, where its turns begin on `start`. -/
inductive Enters (c : Context) (e : Expr) (m : Machine) : Value → Nat → Machine → Prop
  | mk {v m₁ m₂ scope} : Eval.expr c e m = .ok v m₁ → v.isIterable = true →
      Run.newScope m₁.current [] m₁ = .ok scope m₂ →
      Enters c e m v m₂.current { m₂ with current := scope }

/-- The same outcome, back in the scope `outer`. -/
def backTo (outer : Nat) :
    EStateM.Result Exit Machine Unit → EStateM.Result Exit Machine Unit
  | .ok _ m => .ok () { m with current := outer }
  | .error e m => .error e { m with current := outer }

theorem within_eq_backTo (i : Nat) (p : Run Unit) (m : Machine) :
    Run.within i p m = backTo m.current (p { m with current := i }) := by
  unfold Run.within
  cases p { m with current := i } <;> rfl

theorem exhausted_backTo_iff {outer : Nat} {r : EStateM.Result Exit Machine Unit} :
    Exhausted (backTo outer r) ↔ Exhausted r := by
  cases r with
  | ok u m => simp only [backTo, not_exhausted_ok]
  | error e m => simp only [backTo, exhausted_error_iff]

section

variable {c : Context} {e : Expr} {m start : Machine} {v : Value} {outer : Nat}

theorem Enters.isIterable (h : Enters c e m v outer start) : v.isIterable = true := by
  obtain ⟨-, hv, -⟩ := h
  exact hv

theorem Enters.forLoop (h : Enters c e m v outer start) (x : String) (ss : List Stmt) (l : Nat) :
    Exec.stmt c (.forLoop x e ss l) m =
      backTo outer (Run.forItems x (Exec.stmts c ss) v c.turns 0 start) := by
  obtain ⟨he, hv, hscope⟩ := h
  rw [Exec.stmt, bind_of_ok he]
  cases v with
  | list place =>
    rw [Run.forLoop, bind_get, bind_of_ok hscope, within_eq_backTo]
    rfl
  | str s =>
    rw [Run.forLoop, bind_get, bind_of_ok hscope, within_eq_backTo, Run.forItems, List.drop_zero]
  | _ => cases hv

/-- A text stays as it is, and so does a list in the turns of a body without calls. -/
theorem Goes.elements_eq {s : Setting} {n : Nat} {x : String} {ss : List Stmt} {k : Nat}
    {m' : Machine} (hfree : v.isList = false ∨ Stmt.callFree ss = true)
    (h : Goes x v (Exec.stmts (s.within n) ss) start k m') : m'.elements v = start.elements v := by
  induction h with
  | start => rfl
  | turn _ hw hround ih =>
    rw [← ih]
    cases v with
    | list place =>
      have hbody := Halts.stmts s ss (hfree.resolve_left (by simp [Value.isList]))
      rw [Machine.elements_list] at hw
      rw [Machine.elements, Machine.elements, hbody.list_round hw hround]
    | _ => rfl

theorem Enters.exists_rounds {s : Setting} {n : Nat} (h : Enters (s.within n) e m v outer start)
    (x : String) (ss : List Stmt) (l : Nat)
    (hends : ¬Exhausted (Exec.stmt (s.within n) (.forLoop x e ss l) m)) :
    ∃ ws r, Rounds x v (Exec.stmts (s.within n) ss) 0 start ws r ∧
      Exec.stmt (s.within n) (.forLoop x e ss l) m = backTo outer r := by
  rw [h.forLoop] at hends ⊢
  have hiterable := h.isIterable
  cases v with
  | list place =>
    obtain ⟨ws, hws⟩ := exists_rounds_of_forList (mt exhausted_backTo_iff.2 hends)
    exact ⟨ws, _, hws, rfl⟩
  | str text =>
    have hsame (k : Nat) (m' : Machine)
        (hgoes : Goes x (.str text) (Exec.stmts (s.within n) ss) start k m') :
        (m'.elements (.str text)).length ≤ (start.elements (.str text)).length := by
      have hsame := hgoes.elements_eq (.inl rfl)
      exact Nat.le_of_eq (congrArg List.length hsame)
    obtain ⟨ws, r, hws, -⟩ := Goes.exists_rounds hsame .start
    refine ⟨ws, r, hws, ?_⟩
    rw [hws.forItems rfl (by simp [Value.isList])]
  | _ => cases hiterable

end

namespace Machine

/-- `xs` is a list of these items. -/
def listed (items : Array Value) : Machine :=
  { initial [] with
    scopes := (initial []).scopes.define 0 "xs" (.list 0)
    heap := { lists := #[items] } }

/-- A loop over `xs` is about to take its first turn. -/
def looping (items : Array Value) : Machine :=
  { listed items with
    scopes := (listed items).scopes.add (some 0)
    current := 1 }

/-- A loop over `xs` has taken turns with the name `x` on ones, and all the `k` items are ones. -/
def fed (k : Nat) : Machine :=
  let m := looping (Array.replicate k (.int 1))
  { m with scopes := m.scopes.define 1 "x" (.int 1) }

end Machine

theorem enters_listed (c : Context) (items : Array Value) (l : Nat) :
    Enters c (.var "xs" l) (.listed items) (.list 0) 0 (.looping items) := by
  have hscope : Run.newScope 0 [] (.listed items) =
    .ok 1 { Machine.looping items with current := 0 } := rfl
  exact .mk rfl rfl hscope

/-- `jodo(xs, x)`. -/
def feeding : List Stmt :=
  [.expr (.call "jodo" [.var "xs" 3, .var "x" 3] 3)]

theorem round_fed (c : Context) (k : Nat) :
    Run.round "x" (.int 1) (Exec.stmts c feeding) (.fed k) = .ok true (.fed (k + 1)) := by
  unfold Machine.fed
  rw [Array.replicate_succ]
  rfl

/-- Every turn makes the list longer by one, so that there is always an element for the next. -/
theorem goes_feeding (c : Context) (k : Nat) :
    Goes "x" (.list 0) (Exec.stmts c feeding) (.looping #[.int 1]) (k + 1) (.fed (k + 2)) := by
  induction k with
  | zero => exact .turn .start rfl rfl
  | succ k ih =>
    have hw : (Array.replicate (k + 2) (Value.int 1))[k + 1]? = some (.int 1) := by
      rw [Array.getElem?_replicate, if_pos (by omega)]
    exact .turn ih ((Machine.elements_list _ _ _).trans hw) (round_fed c (k + 2))

theorem exhausted_executeWithin {s : Setting} {n : Nat} {ss : List Stmt} {m : Machine}
    (h : Exhausted (Exec.stmts (s.within n) ss m)) : Exhausted (executeWithin s (n + 1) ss m) := by
  obtain ⟨m', hm'⟩ := h
  have hbody : (Exec.stmts (s.within n) ss >>= fun _ => pure Value.none) m =
      .error .exhausted m' := bind_of_error hm'
  have hresult : Run.result ((fun _ => ()) <$> (Exec.stmts (s.within n) ss >>= fun _ =>
      pure Value.none)) m = .error .exhausted m' := by
    unfold Run.result
    rw [map_of_error hbody]
  exact ⟨m', map_of_error hresult⟩

theorem exhausted_feeding (n : Nat) :
    Exhausted (executeWithin {} n [.forLoop "x" (.var "xs" 2) feeding 2] (.listed #[.int 1])) := by
  cases n with
  | zero => exact ⟨_, rfl⟩
  | succ n =>
    have hloop : Exhausted (Exec.stmt (Setting.within {} n) (.forLoop "x" (.var "xs" 2) feeding 2)
        (.listed #[.int 1])) := by
      rw [(enters_listed _ _ _).forLoop, exhausted_backTo_iff]
      apply exhausted_forList_of_goes
      intro k
      cases k with
      | zero => exact ⟨_, .start⟩
      | succ k => exact ⟨_, goes_feeding _ k⟩
    obtain ⟨m', hm'⟩ := hloop
    exact exhausted_executeWithin ⟨m', bind_of_error hm'⟩

/-- The body of a loop can run more often than its list had elements at the beginning, and without
end although every turn ends. -/
theorem appending_loop_outruns_elements :
    let start := Machine.looping #[.int 1]
    Enters (Setting.within {} 9) (.var "xs" 2) (.listed #[.int 1]) (.list 0) 0 start ∧
    start.elements (.list 0) = [.int 1] ∧
    (∀ k, ∃ m, Goes "x" (.list 0) (Exec.stmts (Setting.within {} 9) feeding) start (k + 1) m) ∧
    (∀ n, Exhausted (executeWithin {} n [.forLoop "x" (.var "xs" 2) feeding 2]
      (.listed #[.int 1]))) ∧
    -- `maan xs = [1]` and `bar_bar x in xs { agar lambai(xs) < 3 { jodo(xs, 9) } likho(x) }`
    (finalState (execute {} [.assign "xs" (.list [.literal .number (.int 1) 1] 1) 1,
      .forLoop "x" (.var "xs" 2)
        [.ifElse (.binary .less (.call "lambai" [.var "xs" 3] 3) (.literal .number (.int 3) 3) 3)
          [.expr (.call "jodo" [.var "xs" 3, .literal .number (.int 9) 3] 3)] [] none 3,
        .print [.var "x" 4] 4] 2]) (Machine.initial [])).output = "1\n9\n9\n" := by
  intro start
  refine ⟨enters_listed _ _ _, rfl, fun k => ⟨_, goes_feeding _ k⟩, exhausted_feeding, ?_⟩
  decide +kernel

/-- A `bar_bar` loop takes its turns on the elements that are at the places 0, 1, … when each turn
comes, and ends at the first place without one, unless a turn leaves it or fails. There are at most
`most` turns if no turn makes what the loop goes through longer than that, and they are on the
elements that were there at the beginning, in order, if all turns leave these as they are. So it is
for every text, and for a list if the body has no calls, imports and assignments to an index. A loop
fails, or runs out of budget, only as its body does. -/
theorem for_loop_turns_on_elements {s : Setting} {n : Nat} {e : Expr} {m start : Machine}
    {v : Value} {outer : Nat}
    (h : Enters (s.within n) e m v outer start) (x : String) (ss : List Stmt) (l : Nat) :
    let body := Exec.stmts (s.within n) ss
    let loop := Exec.stmt (s.within n) (.forLoop x e ss l) m
    (∀ ws r, Rounds x v body 0 start ws r → (v.isList = true → ws.length < n) →
      loop = backTo outer r) ∧
    (¬Exhausted loop → ∃ ws r, Rounds x v body 0 start ws r ∧ loop = backTo outer r) ∧
    (∀ most, (∀ k m', Goes x v body start k m' → (m'.elements v).length ≤ most) →
      ∃ ws r, Rounds x v body 0 start ws r ∧ ws.length ≤ most) ∧
    ((∀ k m', Goes x v body start k m' → m'.elements v = start.elements v) →
      ∀ ws r, Rounds x v body 0 start ws r → ws <+: start.elements v) ∧
    (v.isList = false ∨ Stmt.callFree ss = true →
      ∀ k m', Goes x v body start k m' → m'.elements v = start.elements v) ∧
    (∀ ws e' m', Rounds x v body 0 start ws (.error e' m') → ∃ m₀, body m₀ = .error e' m') := by
  intro body loop
  refine ⟨fun ws r hws hturns => ?_, h.exists_rounds x ss l, fun most hmost => ?_,
    fun hsame ws r hws => ?_, fun hfree k m' hgoes => hgoes.elements_eq hfree,
    fun ws e' m' hws => hws.body_of_error⟩
  · have hloop : loop = backTo outer (Run.forItems x body v n 0 start) := h.forLoop x ss l
    rw [hloop, hws.forItems h.isIterable hturns]
  · exact Goes.exists_rounds hmost .start
  · exact hws.isPrefix hsame .start

/-- `bar_bar x in xs { agar x == 2 { ruk } likho(x) }` with two items. -/
theorem for_loop_turns_on_elements_of_pair :
    let ss : List Stmt :=
      [.ifElse (.binary .equal (.var "x" 2) (.literal .number (.int 2) 2) 2)
        [.breakLoop 2] [] none 2,
       .print [.var "x" 3] 3]
    let start := Machine.looping #[.int 1, .int 2]
    Enters (Setting.within {} 9) (.var "xs" 1) (.listed #[.int 1, .int 2]) (.list 0) 0 start ∧
    ∃ ws r, Rounds "x" (.list 0) (Exec.stmts (Setting.within {} 9) ss) 0 start ws r ∧
      ws <+: [.int 1, .int 2] ∧
      Exec.stmt (Setting.within {} 9) (.forLoop "x" (.var "xs" 1) ss 1)
        (.listed #[.int 1, .int 2]) = backTo 0 r := by
  intro ss start
  have henters := enters_listed (Setting.within {} 9) #[.int 1, .int 2] 1
  obtain ⟨hloop, -, hbounded, hordered, hfree, -⟩ := for_loop_turns_on_elements henters "x" ss 1
  have hsame := hfree (.inr rfl)
  obtain ⟨ws, r, hws, hlength⟩ := hbounded 2 fun k m' hgoes =>
    Nat.le_of_eq (congrArg List.length (hsame k m' hgoes))
  exact ⟨henters, ws, r, hws, hordered hsame ws r hws, hloop ws r hws fun _ => by omega⟩

end Bhasha
