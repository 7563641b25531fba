import Bhasha.Proofs.ParserProgress

namespace Bhasha

theorem firstEnd_le_countP (ts : List Token) :
    firstEnd ts ≤ ts.countP fun t => t.kind != .eof := by
  induction ts with
  | nil => exact Nat.le_refl _
  | cons t ts ih =>
    rw [firstEnd, List.findIdx_cons, List.countP_cons]
    cases ht : t.kind == .eof with
    | true => exact Nat.zero_le _
    | false =>
      rw [bne, ht]
      exact Nat.succ_le_succ ih

namespace Parse

/-- The syntax errors of the turns from `c` on, each with the place where it was raised. -/
inductive Raises : Cursor → List (Nat × Diagnostic) → Prop
  | done {c} : c.atEnd = true → Raises c []
  | read {c s c' es} : c.atEnd = false → statement c = .ok s c' → Raises c' es → Raises c es
  | failed {c d c₁ c₂ es} : c.atEnd = false → statement c = .error (.diagnostic d) c₁ →
      synchronize (record c₁ d) = .ok () c₂ → Raises c₂ es → Raises c ((c₁.index, d) :: es)
  | broken {c f c'} : c.atEnd = false → statement c = .error (.fault f) c' → Raises c []

variable {c c₁ c₂ : Cursor} {es : List (Nat × Diagnostic)}

theorem Course.raises {ss : List Stmt} {ds : List Diagnostic} {f? : Option Fault}
    (h : Course c ss ds f?) : ∃ es, Raises c es := by
  induction h with
  | done hend => exact ⟨[], .done hend⟩
  | read hend hs _ ih =>
    obtain ⟨es, hes⟩ := ih
    exact ⟨es, .read hend hs hes⟩
  | failed hend hs hsync _ ih =>
    obtain ⟨es, hes⟩ := ih
    exact ⟨_, .failed hend hs hsync hes⟩
  | broken hend hs => exact ⟨[], .broken hend hs⟩

theorem moves_of_read {s : Stmt} (h : statement c = .ok s c₁) : c.Moves c₁ := by
  have hsteady := steady_statement c
  rw [finalState_ok h] at hsteady
  exact hsteady.moves

/-- A statement with a syntax error has gone on to the token it blames; from there the parser may
skip tokens, but not go back. -/
theorem moves_of_failed {d : Diagnostic} (hc : c.Ended)
    (h : statement c = .error (.diagnostic d) c₁) (hsync : synchronize (record c₁ d) = .ok () c₂) :
    c.Moves c₁ ∧ c.index < c₁.index ∧ c₁.Moves c₂ := by
  have hsteady := steady_statement c
  have hsteady' := steady_synchronize (record c₁ d)
  rw [finalState_error h] at hsteady
  rw [finalState_ok hsync] at hsteady'
  refine ⟨hsteady.moves, index_lt_of_remaining_lt hsteady.moves (statement_diagnosed hc h).2, ?_⟩
  exact trans_of Cursor.Moves ((Cursor.Moves.refl c₁).recorded d) hsteady'.moves

namespace Raises

theorem ascending (h : Raises c es) (hc : c.Ended) :
    (∀ e ∈ es, c.index < e.1) ∧ es.Pairwise fun e e' => e.1 < e'.1 := by
  induction h with
  | done | broken => exact ⟨fun _ he => absurd he List.not_mem_nil, .nil⟩
  | read _ hs _ ih =>
    have hmoves := moves_of_read hs
    obtain ⟨hfirst, hpairs⟩ := ih (hmoves.ended hc)
    exact ⟨fun e he => Nat.lt_of_le_of_lt hmoves.index_le (hfirst e he), hpairs⟩
  | @failed c d c₁ c₂ es _ hs hsync _ ih =>
    obtain ⟨hmoves, hlt, hmoves'⟩ := moves_of_failed hc hs hsync
    obtain ⟨hfirst, hpairs⟩ := ih (hmoves'.ended (hmoves.ended hc))
    -- the next statement starts at the blamed token at the earliest, and takes a token itself
    have hlater : ∀ e ∈ es, c₁.index < e.1 := fun e he =>
      Nat.lt_of_le_of_lt hmoves'.index_le (hfirst e he)
    refine ⟨List.forall_mem_cons.2 ⟨hlt, fun e he => ?_⟩, List.pairwise_cons.2 ⟨hlater, hpairs⟩⟩
    exact Nat.lt_trans hlt (hlater e he)

theorem blames (h : Raises c es) (hc : c.Ended) :
    ∀ e ∈ es, ∃ t, c.tokens[e.1]? = some t ∧
      e.2 = .unexpectedToken "expression" t.value.text t.line t.column := by
  induction h with
  | done | broken => exact fun _ he => absurd he List.not_mem_nil
  | read _ hs _ ih =>
    have hmoves := moves_of_read hs
    rw [← hmoves.tokens_eq]
    exact ih (hmoves.ended hc)
  | failed _ hs hsync _ ih =>
    obtain ⟨hmoves, -, hmoves'⟩ := moves_of_failed hc hs hsync
    have hc₁ := hmoves.ended hc
    have hrest := ih (hmoves'.ended hc₁)
    rw [hmoves'.tokens_eq, hmoves.tokens_eq] at hrest
    refine List.forall_mem_cons.2 ⟨⟨_, ?_, statement_blames hc hs⟩, hrest⟩
    rw [← hmoves.tokens_eq]
    exact hc₁.getElem?

/-- Every turn starts before the first end mark and takes a token. -/
theorem length_le (h : Raises c es) {ts : List Token} (hts : c.tokens = ts.toArray) (hc : c.Ended)
    (hle : c.index ≤ firstEnd ts) : c.index + es.length ≤ firstEnd ts := by
  induction h with
  | done | broken => exact hle
  | read _ hs _ ih =>
    have hmoves := moves_of_read hs
    have hrest := ih (hmoves.tokens_eq.trans hts) (hmoves.ended hc)
      (hmoves.index_le_firstEnd hts hc hle)
    have hindex := hmoves.index_le
    omega
  | failed _ hs hsync _ ih =>
    obtain ⟨hmoves, hlt, hmoves'⟩ := moves_of_failed hc hs hsync
    have hall := trans_of Cursor.Moves hmoves hmoves'
    have hrest := ih (hall.tokens_eq.trans hts) (hall.ended hc)
      (hall.index_le_firstEnd hts hc hle)
    have hindex := hmoves'.index_le
    rw [List.length_cons]
    omega

/-- The loop over the statements records these errors and no others, also where it is broken off. -/
theorem errors_eq (h : Raises c es) (hc : c.Ended) {n : Nat} (hn : c.remaining ≤ n)
    (found : List Stmt) :
    (finalState (statementsWithin n found) c).errors = c.errors ++ es.map Prod.snd := by
  have hpos : 0 < n := Nat.lt_of_lt_of_le hc.remaining_pos hn
  induction h generalizing n found with
  | done hend =>
    rw [finalState_ok (turn_done hpos hend)]
    exact (List.append_nil _).symm
  | @read c s c' es hend hs _ ih =>
    obtain ⟨hc', hr'⟩ := statement_ok hc hs
    have hpos' := hc'.remaining_pos
    have hrest := ih hc' (by omega) (s :: found) (by omega : 0 < n - 1)
    rw [errors_of_statement hs] at hrest
    rw [finalState, turn_read hpos hend hs]
    exact hrest
  | @failed c d c₁ c₂ es hend hs hsync _ ih =>
    obtain ⟨hc₂, hr₂⟩ := ended_of_failed hc hs hsync
    have hpos₂ := hc₂.remaining_pos
    have hrest := ih hc₂ (by omega) found (by omega : 0 < n - 1)
    rw [errors_of_failed hs hsync, List.append_assoc] at hrest
    rw [finalState, turn_failed hpos hend hs hsync]
    exact hrest
  | @broken c f c' hend hs =>
    have hsteady := steady_statement c
    rw [finalState_error hs] at hsteady
    rw [finalState_error (turn_broken hpos hend hs), hsteady.same.2.1]
    exact (List.append_nil _).symm

end Raises

theorem finalState_program (lang : Lang) (c : Cursor) :
    finalState (program lang) c = finalState (statementsWithin (c.remaining + 2) []) c := by
  have hget (c : Cursor) : (get : Parse Cursor) c = .ok c c := rfl
  cases hrun : statementsWithin (c.remaining + 2) [] c with
  | ok ss c' =>
    rw [finalState_ok hrun, finalState, program, bind_of_ok (hget c), bind_of_ok hrun,
      bind_of_ok (hget c')]
    cases c'.errors.isEmpty <;> rfl
  | error e c' =>
    have hprogram : program lang c = .error e c' := by
      rw [program, bind_of_ok (hget c), bind_of_error hrun]
    rw [finalState_error hrun, finalState_error hprogram]

theorem errors_of_parsed {lang : Lang} {ts : List Token} {p : Program}
    (h : parseTokens lang ts = .ok p) :
    (finalState (program lang) (.ofTokens ts)).errors = [] := by
  unfold parseTokens at h
  split at h
  · rename_i p' c' hprogram
    rw [finalState_ok hprogram]
    obtain ⟨ss, c₁, -, hprogram⟩ := bind_eq_ok (bind_get_ok hprogram)
    have hlast := bind_get_ok hprogram
    rcases ite_ok hlast with ⟨hempty, hpure⟩ | ⟨-, hthrow⟩
    · obtain ⟨-, rfl⟩ := pure_ok hpure
      exact List.isEmpty_iff.1 hempty
    · exact absurd hthrow throw_ne_ok
  · cases h

/-- The syntax errors that a parse of tokens with an end mark records, whether it comes to its end
or is broken off. They were raised one behind the other, each at the token whose line and column it
carries, and they are at most as many as there are tokens to read. A parse gives a program only if
there are none. -/
theorem recorded_errors_ascend (lang : Lang) {ts us : List Token} {last : Token}
    (hts : ts = us ++ [last]) (hlast : last.kind = .eof) :
    (∃ es, Raises (.ofTokens ts) es) ∧
    ∀ es, Raises (.ofTokens ts) es →
      (finalState (program lang) (.ofTokens ts)).errors = es.map Prod.snd ∧
      (es.map Prod.fst).Pairwise (· < ·) ∧
      (∀ e ∈ es, ∃ t, ts[e.1]? = some t ∧ e.2.kind = .parser ∧ e.2.line = some (t.line : Int) ∧
        e.2.column = some (t.column : Int)) ∧
      es.length ≤ ts.countP (fun t => t.kind != .eof) ∧
      ∀ p, parseTokens lang ts = .ok p → es = [] := by
  have hc : (Cursor.ofTokens ts).Ended := hts ▸ ended_ofTokens hlast
  refine ⟨?_, fun es hes => ?_⟩
  · obtain ⟨ss, ds, f?, hcourse⟩ := exists_course hc
    exact hcourse.raises
  have herrors : (finalState (program lang) (.ofTokens ts)).errors = es.map Prod.snd := by
    rw [finalState_program, hes.errors_eq hc (Nat.le_add_right _ 2)]
    rfl
  refine ⟨herrors, List.pairwise_map.2 (hes.ascending hc).2, fun e he => ?_, ?_, fun p hp => ?_⟩
  · obtain ⟨t, ht, hblame⟩ := hes.blames hc e he
    rw [Cursor.ofTokens, List.getElem?_toArray] at ht
    exact ⟨t, ht, hblame ▸ ⟨rfl, rfl, rfl⟩⟩
  · have hlength := hes.length_le rfl hc (Nat.zero_le _)
    rw [show (Cursor.ofTokens ts).index = 0 from rfl, Nat.zero_add] at hlength
    exact Nat.le_trans hlength (firstEnd_le_countP ts)
  · rw [errors_of_parsed hp] at herrors
    exact List.map_eq_nil_iff.1 herrors.symm

/-- `maan x = ) agar maan y = )`, with its end mark. -/
def strayParens : List Token :=
  [⟨.letVar, .str "maan", 1, 1⟩, ⟨.identifier, .str "x", 1, 6⟩, ⟨.assign, .str "=", 1, 8⟩,
   ⟨.rparen, .str ")", 1, 10⟩, ⟨.ifKw, .str "agar", 1, 12⟩, ⟨.letVar, .str "maan", 1, 17⟩,
   ⟨.identifier, .str "y", 1, 22⟩, ⟨.assign, .str "=", 1, 24⟩, ⟨.rparen, .str ")", 1, 26⟩] ++
  [⟨.eof, .none, 1, 27⟩]

/-- Where the parser stands when it blames the first parenthesis. -/
def strayFirst : Cursor :=
  { Cursor.ofTokens strayParens with
    index := 3, current := ⟨.rparen, .str ")", 1, 10⟩, stands := rfl }

/-- Where the parser stands when it blames the second one. -/
def straySecond : Cursor :=
  { Cursor.ofTokens strayParens with
    index := 8, current := ⟨.rparen, .str ")", 1, 26⟩,
    errors := [.unexpectedToken "expression" ")" 1 10], stands := rfl }

/-- Both errors are about the same text, at two places. -/
theorem recorded_errors_ascend_twice :
    Raises (.ofTokens strayParens)
      [(3, .unexpectedToken "expression" ")" 1 10), (8, .unexpectedToken "expression" ")" 1 26)] ∧
    (finalState (program .english) (.ofTokens strayParens)).errors =
      [.unexpectedToken "expression" ")" 1 10, .unexpectedToken "expression" ")" 1 26] := by
  have hraises : Raises (.ofTokens strayParens)
      [(3, .unexpectedToken "expression" ")" 1 10), (8, .unexpectedToken "expression" ")" 1 26)] :=
    @Raises.failed _ _ strayFirst _ _ rfl rfl rfl
      (@Raises.failed _ _ straySecond _ _ rfl rfl rfl (.done rfl))
  exact ⟨hraises, ((recorded_errors_ascend .english rfl rfl).2 _ hraises).1⟩

end Parse

end Bhasha
