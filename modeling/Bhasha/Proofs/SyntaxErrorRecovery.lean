import Bhasha.Proofs.TokensLeft

namespace Bhasha

namespace Parse

def record (c : Cursor) (d : Diagnostic) : Cursor :=
  { c with errors := c.errors ++ [d] }

/-- The turns from `c` to the end: the statements that were read, the syntax errors of the
statements that failed, and the fault of the one that broke the parse off, if one did. -/
inductive Course : Cursor → List Stmt → List Diagnostic → Option Fault → Prop
  | done {c} : c.atEnd = true → Course c [] [] none
  | read {c s c' ss ds f?} : c.atEnd = false → statement c = .ok s c' → Course c' ss ds f? →
      Course c (s :: ss) ds f?
  | failed {c d c₁ c₂ ss ds f?} : c.atEnd = false → statement c = .error (.diagnostic d) c₁ →
      synchronize (record c₁ d) = .ok () c₂ → Course c₂ ss ds f? → Course c ss (d :: ds) f?
  | broken {c f c'} : c.atEnd = false → statement c = .error (.fault f) c' → Course c [] [] (some f)

/-- What a parse comes to after these turns. -/
def conclude (lang : Lang) (ss : List Stmt) (ds : List Diagnostic) (f? : Option Fault) :
    Except Failure Program :=
  match f? with
  | some f => .error (.fault f)
  | none =>
    if ds.isEmpty then .ok { statements := ss }
    else .error (.diagnostic (.parserCollection lang ds))

variable {c : Cursor}

theorem synchronizeWithin_ok {n : Nat} (hc : c.Ended) (hn : c.remaining ≤ n) :
    ∃ c', synchronizeWithin n c = .ok () c' ∧ c'.Ended ∧ c'.remaining ≤ c.remaining := by
  induction n generalizing c with
  | zero => exact absurd hc.remaining_pos (by omega)
  | succ n ih =>
    have hatEnd : atEnd c = .ok c.atEnd c := rfl
    have hboundary : seesAny boundaries c = .ok (boundaries.contains c.current.kind) c := rfl
    have hfinish : sees .finish c = .ok (c.current.kind == .finish) c := rfl
    rw [synchronizeWithin, bind_of_ok hatEnd]
    cases hend : c.atEnd with
    | true => exact ⟨c, rfl, hc, Nat.le_refl _⟩
    | false =>
      have hne : c.current.kind ≠ .eof := by simpa [Cursor.atEnd] using hend
      have hadvance := advance_of_ended hc hne
      have hremaining := Cursor.remaining_advanced hne
      rw [if_neg (by simp), bind_of_ok hboundary]
      cases hb : boundaries.contains c.current.kind with
      | true =>
        rw [if_pos rfl, bind_of_ok hfinish]
        cases hf : c.current.kind == .finish with
        | true => exact ⟨c, rfl, hc, Nat.le_refl _⟩
        | false =>
          rw [if_neg (by simp), bind_of_ok hadvance]
          exact ⟨c.advanced, rfl, hc.advanced, by omega⟩
      | false =>
        -- not at a boundary: the search goes on behind this token
        obtain ⟨c', hrun, hc', hr'⟩ := ih hc.advanced (by omega)
        rw [if_neg (by simp), bind_of_ok hadvance]
        exact ⟨c', hrun, hc', by omega⟩

theorem synchronize_ok (hc : c.Ended) :
    ∃ c', synchronize c = .ok () c' ∧ c'.Ended ∧ c'.remaining ≤ c.remaining :=
  synchronizeWithin_ok hc (Nat.le_add_right _ 2)

/-- A statement with a syntax error is never read again. -/
theorem ended_of_failed {d : Diagnostic} {c₁ c₂ : Cursor} (hc : c.Ended)
    (h : statement c = .error (.diagnostic d) c₁) (hsync : synchronize (record c₁ d) = .ok () c₂) :
    c₂.Ended ∧ c₂.remaining < c.remaining := by
  obtain ⟨hc₁, hr₁⟩ := statement_diagnosed hc h
  have hrecord : (record c₁ d).Ended := hc₁
  obtain ⟨c', hrun, hc', hr'⟩ := synchronize_ok hrecord
  have hr : (record c₁ d).remaining = c₁.remaining := rfl
  rw [hsync] at hrun
  cases hrun
  exact ⟨hc', by omega⟩

section

variable {n : Nat} {found : List Stmt} {c' : Cursor}

theorem turn_done (hn : 0 < n) (hend : c.atEnd = true) :
    statementsWithin n found c = .ok found.reverse c := by
  have hatEnd : atEnd c = .ok c.atEnd c := rfl
  obtain ⟨n, rfl⟩ := Nat.exists_eq_succ_of_ne_zero (Nat.ne_of_gt hn)
  rw [statementsWithin, bind_of_ok hatEnd, hend]
  rfl

theorem turn_eq (hn : 0 < n) (hend : c.atEnd = false) : statementsWithin n found c =
    (tryCatch (some <$> statement) recover >>= fun s? =>
      statementsWithin (n - 1) (s?.toList ++ found)) c := by
  have hatEnd : atEnd c = .ok c.atEnd c := rfl
  obtain ⟨n, rfl⟩ := Nat.exists_eq_succ_of_ne_zero (Nat.ne_of_gt hn)
  rw [statementsWithin, bind_of_ok hatEnd, hend]
  rfl

theorem turn_read {s : Stmt} (hn : 0 < n) (hend : c.atEnd = false) (h : statement c = .ok s c') :
    statementsWithin n found c = statementsWithin (n - 1) (s :: found) c' := by
  rw [turn_eq hn hend, bind_of_ok (tryCatch_of_ok (map_of_ok h))]
  rfl

theorem turn_failed {d : Diagnostic} {c₁ : Cursor} (hn : 0 < n) (hend : c.atEnd = false)
    (h : statement c = .error (.diagnostic d) c₁) (hsync : synchronize (record c₁ d) = .ok () c') :
    statementsWithin n found c = statementsWithin (n - 1) found c' := by
  have hrecover : recover (.diagnostic d) c₁ = .ok none c' := by
    have hmodify : (modify fun c => { c with errors := c.errors ++ [d] } : Parse PUnit) c₁ =
        .ok ⟨⟩ (record c₁ d) := rfl
    rw [recover, bind_of_ok hmodify, bind_of_ok hsync]
    rfl
  have htry : tryCatch (some <$> statement) recover c = .ok none c' :=
    (tryCatch_of_error (map_of_error h)).trans hrecover
  rw [turn_eq hn hend, bind_of_ok htry]
  rfl

theorem turn_broken {f : Fault} (hn : 0 < n) (hend : c.atEnd = false)
    (h : statement c = .error (.fault f) c') :
    statementsWithin n found c = .error (.fault f) c' := by
  have htry : tryCatch (some <$> statement) recover c = .error (.fault f) c' :=
    (tryCatch_of_error (map_of_error h)).trans rfl
  rw [turn_eq hn hend]
  exact bind_of_error htry

end

theorem errors_of_statement {s : Stmt} {c' : Cursor} (h : statement c = .ok s c') :
    c'.errors = c.errors := by
  have hsteady := steady_statement c
  rw [finalState_ok h] at hsteady
  exact hsteady.same.2.1

theorem errors_of_failed {d : Diagnostic} {c₁ c₂ : Cursor}
    (h : statement c = .error (.diagnostic d) c₁) (hsync : synchronize (record c₁ d) = .ok () c₂) :
    c₂.errors = c.errors ++ [d] := by
  have hsteady := steady_statement c
  have hsteady' := steady_synchronize (record c₁ d)
  rw [finalState_error h] at hsteady
  rw [finalState_ok hsync] at hsteady'
  rw [hsteady'.same.2.1, record, hsteady.same.2.1]

theorem exists_course (hc : c.Ended) : ∃ ss ds f?, Course c ss ds f? := by
  -- every turn leaves fewer tokens
  generalize hn : c.remaining = n
  induction n using Nat.strongRecOn generalizing c with
  | ind n ih =>
    subst hn
    cases hend : c.atEnd with
    | true => exact ⟨[], [], none, .done hend⟩
    | false =>
      cases hs : statement c with
      | ok s c₁ =>
        obtain ⟨hc₁, hr₁⟩ := statement_ok hc hs
        obtain ⟨ss, ds, f?, hcourse⟩ := ih _ hr₁ hc₁ rfl
        exact ⟨s :: ss, ds, f?, .read hend hs hcourse⟩
      | error e c₁ =>
        cases e with
        | fault f => exact ⟨[], [], some f, .broken hend hs⟩
        | diagnostic d =>
          obtain ⟨hc₁, -⟩ := statement_diagnosed hc hs
          have hrecord : (record c₁ d).Ended := hc₁
          obtain ⟨c₂, hsync, -⟩ := synchronize_ok hrecord
          obtain ⟨hc₂, hr₂⟩ := ended_of_failed hc hs hsync
          obtain ⟨ss, ds, f?, hcourse⟩ := ih _ hr₂ hc₂ rfl
          exact ⟨ss, d :: ds, f?, .failed hend hs hsync hcourse⟩

/-- The loop over the statements does these turns. -/
theorem Course.run {ss : List Stmt} {ds : List Diagnostic} {f? : Option Fault}
    (h : Course c ss ds f?) (hc : c.Ended) {n : Nat} (hn : c.remaining ≤ n) (found : List Stmt) :
    (f? = none → ∃ c', statementsWithin n found c = .ok (found.reverse ++ ss) c' ∧
      c'.errors = c.errors ++ ds) ∧
    ∀ f ∈ f?, f ∈ faults ∧ ∃ c', statementsWithin n found c = .error (.fault f) c' := by
  -- the budget lasts because no turn leaves as many tokens as it found
  have hpos : 0 < n := Nat.lt_of_lt_of_le hc.remaining_pos hn
  induction h generalizing n found with
  | @done c hend =>
    exact ⟨fun _ => ⟨c, by rw [turn_done hpos hend, List.append_nil], (List.append_nil _).symm⟩,
      nofun⟩
  | @read c s c' ss ds f? hend hs _ ih =>
    obtain ⟨hc', hr'⟩ := statement_ok hc hs
    have hpos' := hc'.remaining_pos
    have hrest := ih hc' (by omega) (s :: found) (by omega : 0 < n - 1)
    rw [errors_of_statement hs, List.reverse_cons, List.append_assoc] at hrest
    rw [turn_read hpos hend hs]
    exact hrest
  | @failed c d c₁ c₂ ss ds f? hend hs hsync _ ih =>
    obtain ⟨hc₂, hr₂⟩ := ended_of_failed hc hs hsync
    have hpos₂ := hc₂.remaining_pos
    have hrest := ih hc₂ (by omega) found (by omega : 0 < n - 1)
    rw [errors_of_failed hs hsync, List.append_assoc] at hrest
    rw [turn_failed hpos hend hs hsync]
    exact hrest
  | @broken c f c' hend hs =>
    refine ⟨nofun, fun f' hf' => ?_⟩
    cases hf'
    exact ⟨(leavesFrom_statement hc).broken hs, c', turn_broken hpos hend hs⟩

theorem Course.parseTokens_eq (lang : Lang) {ts : List Token} {ss : List Stmt}
    {ds : List Diagnostic} {f? : Option Fault} (h : Course (.ofTokens ts) ss ds f?)
    (hc : (Cursor.ofTokens ts).Ended) : parseTokens lang ts = conclude lang ss ds f? := by
  obtain ⟨hdone, hbroken⟩ := h.run hc (Nat.le_add_right _ 2) []
  have hget : ∀ c, (get : Parse Cursor) c = .ok c c := fun _ => rfl
  rw [parseTokens, program, bind_of_ok (hget _)]
  cases f? with
  | some f =>
    obtain ⟨-, c', hrun⟩ := hbroken f rfl
    rw [bind_of_error hrun]
    rfl
  | none =>
    obtain ⟨c', hrun, herrors⟩ := hdone rfl
    have herrors : c'.errors = ds := herrors
    rw [bind_of_ok hrun, bind_of_ok (hget _), herrors]
    cases ds <;> rfl

theorem ended_ofTokens {us : List Token} {last : Token} (hlast : last.kind = .eof) :
    (Cursor.ofTokens (us ++ [last])).Ended := by
  refine ⟨us.length, last, Nat.zero_le _, ?_, hlast⟩
  rw [Cursor.ofTokens, List.getElem?_toArray, List.getElem?_concat_length]

/-- How a parse of tokens with an end mark comes out: it goes through its turns to the end, and then
gives the statements, or else all syntax errors in their order; but a turn that breaks off ends it
there, and the syntax errors recorded before are lost. -/
theorem parseTokens_course (lang : Lang) {ts : List Token} {us : List Token} {last : Token}
    (hts : ts = us ++ [last]) (hlast : last.kind = .eof) :
    (∃ ss ds f?, Course (.ofTokens ts) ss ds f?) ∧
    ∀ ss ds f?, Course (.ofTokens ts) ss ds f? →
      parseTokens lang ts = conclude lang ss ds f? ∧ ∀ f ∈ f?, f ∈ faults := by
  have hc : (Cursor.ofTokens ts).Ended := hts ▸ ended_ofTokens hlast
  refine ⟨exists_course hc, fun ss ds f? h => ⟨h.parseTokens_eq lang hc, fun f hf => ?_⟩⟩
  exact ((h.run hc (Nat.le_refl _) []).2 f hf).1

/-- `maan x = ) agar x`, in front of its end mark. -/
def strayParen : List Token :=
  [⟨.letVar, .str "maan", 1, 1⟩, ⟨.identifier, .str "x", 1, 6⟩, ⟨.assign, .str "=", 1, 8⟩,
   ⟨.rparen, .str ")", 1, 10⟩, ⟨.ifKw, .str "agar", 1, 12⟩, ⟨.identifier, .str "x", 1, 17⟩]

/-- The parse goes on behind `agar`, and at `x` it breaks off. -/
theorem parseTokens_course_lost :
    Course (.ofTokens (strayParen ++ [⟨.eof, .none, 1, 18⟩])) []
      [.unexpectedToken "expression" ")" 1 10]
      (some (.unknownSlot "MeriLangError.__init__" "message")) ∧
    parseTokens .english (strayParen ++ [⟨.eof, .none, 1, 18⟩]) =
      .error (.fault (.unknownSlot "MeriLangError.__init__" "message")) := by
  have hcourse : Course (.ofTokens (strayParen ++ [⟨.eof, .none, 1, 18⟩])) []
      [.unexpectedToken "expression" ")" 1 10]
      (some (.unknownSlot "MeriLangError.__init__" "message")) :=
    .failed rfl rfl rfl (.broken rfl rfl)
  exact ⟨hcourse, ((parseTokens_course .english rfl rfl).2 _ _ _ hcourse).1⟩

end Parse

end Bhasha
