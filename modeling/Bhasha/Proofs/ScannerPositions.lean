import Bhasha.Proofs.SourceSegments

namespace Bhasha

open Text Lexeme

namespace Scan

section

variable {lang : Lang} {s s' : Scanner} {ts : List Token} {before : List Char}

/-- What a scan passes first: one segment, the whole gap if there is one. -/
theorem Scanned.front (h : Scanned lang s ts s') (hend : s'.rest = []) (hne : s.rest ≠ [])
    (hs : s.position = .behind before) :
    ∃ g s₁ us, g.Stands s₁.rest ∧ Passes before g s s₁ ∧
      ts = g.tokens (.behind before) ++ us ∧ Scanned lang s₁ us s' := by
  rcases Nat.eq_zero_or_pos s.gapLength with hzero | hpos
  · have hgap : Stops isGap s.rest := by
      have hhead := s.not_gap_of_mem_head?
      rwa [hzero] at hhead
    cases h with
    | done => contradiction
    | @piece _ f n us _ hp h =>
      obtain ⟨g, z, hrest, rfl, hg, heq⟩ := segment_of_piece hp hgap
      obtain ⟨hpasses, hz⟩ := passes_skip hs hrest (heq _).2
      refine ⟨g, _, us, hz ▸ hg, hpasses, ?_, h⟩
      rw [(heq _).1, ← hs]
      rfl
    | @illegal _ _ c cs _ _ hrest hc hrecord h =>
      obtain rfl := record_eq hrecord
      obtain ⟨hpasses, hz⟩ := passes_illegal hs hrest rfl
      exact ⟨.illegal c, _, ts, hz ▸ .illegal hc, hpasses, rfl, h⟩
  · have hrest : s.rest = (Segment.gap (s.rest.takeWhile isGap)).text ++ s.rest.dropWhile isGap :=
      List.takeWhile_append_dropWhile.symm
    obtain ⟨hpasses, hz⟩ := passes_skip hs hrest rfl
    refine ⟨_, _, ts, hz ▸ .gap ?_ (takeWhile_holds _ _) (dropWhile_stops _ _), hpasses, rfl,
      h.behind_gap hend⟩
    exact List.ne_nil_of_length_pos hpos

/-- A scan to the end of a text has passed its segments one after the other. -/
theorem Scanned.segments {s : Scanner} (before : List Char) {ts : List Token}
    (h : Scanned lang s ts s') (hend : s'.rest = []) (hs : s.position = .behind before) :
    ∃ gs, Segment.Row gs [] ∧ s.rest = Segment.texts gs ∧ ts = Segment.tokensFrom before gs ∧
      s'.errors = s.errors ++ Segment.errorsFrom before gs ∧
      s'.position = .behind (before ++ s.rest) := by
  generalize hn : s.rest.length = n
  induction n using Nat.strongRecOn generalizing s before ts with
  | ind n ih =>
    by_cases hne : s.rest = []
    · obtain ⟨rfl, rfl⟩ := h.of_nil hne
      exact ⟨[], .nil, hne, rfl, (List.append_nil _).symm, by rwa [hne, List.append_nil]⟩
    · obtain ⟨g, s₁, us, hg, hpasses, rfl, h₁⟩ := h.front hend hne hs
      have hlength := congrArg List.length hpasses.rest
      rw [List.length_append] at hlength
      have hpos := List.length_pos_of_ne_nil hg.text_ne_nil
      obtain ⟨gs, hrow, hrest, rfl, herrors, hlast⟩ :=
        ih s₁.rest.length (by omega) _ h₁ hpasses.position rfl
      refine ⟨g :: gs, .cons ?_ hrow, ?_, rfl, ?_, ?_⟩
      · rwa [List.append_nil, ← hrest]
      · rw [hpasses.rest, hrest]
        rfl
      · rw [herrors, hpasses.errors, List.append_assoc]
        rfl
      · rw [hlast, List.append_assoc, ← hpasses.rest]

end

end Scan

namespace Scanner

/-- The scanner goes from character to character, and errors may be recorded on the way. -/
inductive Moves : Scanner → Scanner → Prop
  | refl (s) : Moves s s
  | step {s s'} : Moves s s' → Moves s s'.next
  | recorded {s s'} (d : Diagnostic) : Moves s s' → Moves s { s' with errors := s'.errors ++ [d] }

instance : Std.Refl Moves := ⟨.refl⟩

instance : IsTrans Scanner Moves where
  trans _ _ _ h h' := by
    induction h' with
    | refl => exact h
    | step _ ih => exact ih.step
    | recorded d _ ih => exact ih.recorded d

theorem moves_skip (n : Nat) (s : Scanner) : s.Moves (s.skip n) := by
  induction n generalizing s with
  | zero => exact .refl s
  | succ n ih => exact trans_of Moves (Moves.refl s).step (ih s.next)

/-- The rest of the source, the line and the column are those that the place has. -/
structure Placed (s : Scanner) : Prop where
  pos : s.pos ≤ s.source.length
  rest : s.rest = s.source.drop s.pos
  position : s.position = .behind (s.source.take s.pos)

variable {s s' : Scanner}

theorem placed_ofSource (source : List Char) : (ofSource source).Placed :=
  ⟨Nat.zero_le _, rfl, rfl⟩

theorem source_next (s : Scanner) : s.next.source = s.source := by
  unfold next
  split
  · rfl
  · split <;> rfl

theorem pos_next {c : Char} {cs : List Char} (h : s.rest = c :: cs) : s.next.pos = s.pos + 1 := by
  unfold next
  rw [h]
  dsimp only
  split <;> rfl

theorem Placed.next (h : s.Placed) : s.next.Placed := by
  cases hrest : s.rest with
  | nil =>
    have hnext : s.next = s := by
      unfold Scanner.next
      rw [hrest]
    rwa [hnext]
  | cons c cs =>
    have hlength := congrArg List.length h.rest
    rw [hrest, List.length_cons, List.length_drop] at hlength
    constructor
    · rw [pos_next hrest, source_next]
      omega
    · rw [rest_next, pos_next hrest, source_next, h.rest, List.drop_drop]
    · rw [position_next hrest, h.position, ← Position.behind_concat, pos_next hrest, source_next,
        List.take_add_one, ← List.head?_drop, ← h.rest, hrest]
      rfl

theorem Moves.placed (h : s.Moves s') (hs : s.Placed) : s'.Placed ∧ s'.source = s.source := by
  induction h with
  | refl => exact ⟨hs, rfl⟩
  | step _ ih => exact ⟨ih.1.next, (source_next _).trans ih.2⟩
  | recorded d _ ih => exact ⟨⟨ih.1.pos, ih.1.rest, ih.1.position⟩, ih.2⟩

end Scanner

namespace Scan

open Scanner (Moves)

/-- The character `offset` places on, or a fault. -/
def peeked (offset : Int) : Scan (Option Char) := do
  match (← get).peek? offset with
  | .ok c => return c
  | .error f => throw (.fault f)

/-- The methods of the scanner that can be called on their own. -/
inductive Call
  | current | peek (offset : Int) | advance (count : Int) | match? (c : LexemeClass)
  | skipGap | skipComment
  | number (lang : Lang) | string (lang : Lang) | identifier (lang : Lang) | operator (lang : Lang)
  | fail (lang : Lang) (message : String) | record (lang : Lang) (message : String)
  | tokens (lang : Lang)

/-- A negative count moves the scanner nowhere. -/
def Call.run : Call → Scan Unit
  | current => Functor.discard (Scanner.current? <$> get)
  | peek offset => Functor.discard (Scan.peeked offset)
  | advance count => Scan.advance count.toNat
  | match? c => Functor.discard (Scan.match? c)
  | skipGap => Scan.skipGap
  | skipComment => Scan.skipComment
  | number lang => Functor.discard (Scan.number lang)
  | string lang => Functor.discard (Scan.string lang)
  | identifier lang => Functor.discard (Scan.identifier lang)
  | operator lang => Functor.discard (Scan.operator lang)
  | fail lang message => Scan.fail lang message
  | record lang message => Scan.record lang message
  | tokens lang => Functor.discard (Scan.tokens lang)

theorem moves_advance (n : Nat) : Keeps Moves (advance n) :=
  .modified (Scanner.moves_skip n)

theorem moves_match? (c : LexemeClass) : Keeps Moves (match? c) :=
  .bind .get fun _ => .pure _

theorem moves_skipGap : Keeps Moves skipGap := by
  refine .bind (moves_match? _) fun lexeme => ?_
  split
  · exact moves_advance _
  · exact .pure _

theorem moves_skipComment : Keeps Moves skipComment := by
  refine .bind (moves_match? _) fun lexeme => ?_
  split
  · exact moves_advance _
  · exact .pure _

theorem moves_diagnose (lang : Lang) (message : String) : Keeps Moves (diagnose lang message) := by
  refine .bind .get fun s => ?_
  dsimp only
  split
  · exact .pure _
  · exact .throw _

theorem moves_fail {α : Type} (lang : Lang) (message : String) :
    Keeps Moves (fail lang message : Scan α) :=
  .bind (moves_diagnose lang message) fun _ => .throw _

theorem moves_record (lang : Lang) (message : String) : Keeps Moves (record lang message) :=
  .bind (moves_diagnose lang message) fun d =>
    .bind (.modified fun s => (Moves.refl s).recorded d) fun _ => moves_advance 1

theorem moves_number (lang : Lang) : Keeps Moves (number lang) := by
  refine .bind .get fun s => ?_
  split
  · exact moves_fail _ _
  · refine .bind (moves_advance _) fun _ => ?_
    split
    · exact .pure _
    · exact .throw _

theorem moves_string (lang : Lang) : Keeps Moves (string lang) := by
  refine .bind .get fun s => ?_
  split
  · exact moves_fail _ _
  · refine .ite (moves_fail _ _) (.bind (moves_advance _) fun _ => .ite ?_ (moves_fail _ _))
    exact .bind (moves_advance 1) fun _ => .pure _

theorem moves_identifier (lang : Lang) : Keeps Moves (identifier lang) := by
  refine .bind .get fun s => ?_
  split
  · exact moves_fail _ _
  · exact .bind (moves_advance _) fun _ => .pure _

theorem moves_operator (lang : Lang) : Keeps Moves (operator lang) := by
  refine .bind .get fun s => ?_
  split
  · exact .bind (moves_advance _) fun _ => .pure _
  · exact moves_fail _ _

theorem moves_turn (lang : Lang) : Keeps Moves (turn lang) := by
  refine .bind moves_skipGap fun _ => .bind .get fun s => ?_
  split
  · exact .pure _
  · exact .bind moves_skipComment fun _ => .pure _
  · exact .bind (moves_advance 1) fun _ => .pure _
  · refine .ite ((moves_number lang).map _) (.ite ((moves_string lang).map _) ?_)
    refine .ite ((moves_identifier lang).map _) (.ite ((moves_operator lang).map _) ?_)
    exact .bind (moves_record lang _) fun _ => .pure _

theorem moves_turns (lang : Lang) (n : Nat) (found : List Token) :
    Keeps Moves (turns lang n found) := by
  induction n generalizing found with
  | zero => exact .pure _
  | succ n ih =>
    refine .bind .get fun s => .ite (.pure _) (.bind (moves_turn lang) fun t? => ?_)
    cases t? <;> exact ih _

theorem moves_tokens (lang : Lang) : Keeps Moves (tokens lang) := by
  have hall : Keeps Moves (allTokens lang) :=
    .bind .get fun _ => .bind (moves_turns lang _ _) fun _ => .bind .get fun _ => .pure _
  exact .bind hall fun _ => .bind .get fun _ => .ite (.pure _) (.throw _)

theorem moves_run (call : Call) : Keeps Moves call.run := by
  cases call with
  | current => exact (Keeps.get.map _).discard
  | peek offset =>
    refine .discard (.bind .get fun s => ?_)
    split
    · exact .pure _
    · exact .throw _
  | advance count => exact moves_advance _
  | match? c => exact (moves_match? c).discard
  | skipGap => exact moves_skipGap
  | skipComment => exact moves_skipComment
  | number lang => exact (moves_number lang).discard
  | string lang => exact (moves_string lang).discard
  | identifier lang => exact (moves_identifier lang).discard
  | operator lang => exact (moves_operator lang).discard
  | fail lang message => exact moves_fail lang message
  | record lang message => exact moves_record lang message
  | tokens lang => exact (moves_tokens lang).discard

/-- Where the scanner stands after these calls, whichever of them failed. -/
def reached (source : List Char) (calls : List Call) : Scanner :=
  calls.foldl (fun s call => finalState call.run s) (.ofSource source)

theorem moves_reached (source : List Char) (calls : List Call) :
    (Scanner.ofSource source).Moves (reached source calls) := by
  unfold reached
  generalize Scanner.ofSource source = s
  induction calls generalizing s with
  | nil => exact .refl s
  | cons call calls ih => exact trans_of Moves (moves_run call s) (ih _)

end Scan

/-- A text that can be scanned is a row of segments, and its tokens are the lexemes among them: each
has the line and the column that counting in the text before it gives, and so has the end mark. What
is reported are the illegal characters. Beyond that, after any calls of the scanner's methods its
line and column are those of the place it has reached. -/
theorem source_segments (lang : Lang) (source : String) :
    (∀ ts ds, tokenizeSafe lang source = .ok (ts, ds) →
      ∃ gs, Segment.Row gs [] ∧ source.toList = Segment.texts gs ∧
        ts = Segment.tokensFrom [] gs ++ [(Position.behind source.toList).token (.eof, .none)] ∧
        ds = Segment.errorsFrom [] gs) ∧
    ∀ calls : List Scan.Call,
      let s := Scan.reached source.toList calls
      s.pos ≤ source.toList.length ∧ s.position = .behind (source.toList.take s.pos) := by
  constructor
  · intro ts ds h
    unfold tokenizeSafe at h
    split at h
    · rename_i s' hall
      cases h
      obtain ⟨us, hscan, hend, rfl⟩ := Scan.allTokens_iff.mp hall
      obtain ⟨gs, hrow, hrest, rfl, herrors, hlast⟩ := hscan.segments [] hend rfl
      have hlast : s'.position = .behind source.toList := hlast
      refine ⟨gs, hrow, hrest, ?_, herrors⟩
      rw [← hlast]
      rfl
    · cases h
  · intro calls s
    obtain ⟨hplaced, hsource⟩ :=
      (Scan.moves_reached source.toList calls).placed (Scanner.placed_ofSource _)
    have hpos := hplaced.pos
    have hposition := hplaced.position
    rw [hsource] at hpos hposition
    exact ⟨hpos, hposition⟩

/-- A string over two lines, an illegal character, a sign, a gap and a comment. -/
theorem source_segments_lines :
    tokenizeSafe .english "\"\n\"@- //" =
      .ok ([⟨.string, .str "\n", 1, 1⟩, ⟨.minus, .str "-", 2, 3⟩, ⟨.eof, .none, 2, 7⟩],
        [illegalCharacter ('@', ⟨2, 2⟩)]) ∧
    ∃ gs, Segment.Row gs [] ∧ "\"\n\"@- //".toList = Segment.texts gs ∧
      [⟨.string, .str "\n", 1, 1⟩, ⟨.minus, .str "-", 2, 3⟩, ⟨.eof, .none, 2, 7⟩] =
        Segment.tokensFrom [] gs ++ [(Position.behind "\"\n\"@- //".toList).token (.eof, .none)] ∧
      [illegalCharacter ('@', ⟨2, 2⟩)] = Segment.errorsFrom [] gs := by
  have h : tokenizeSafe .english "\"\n\"@- //" =
      .ok ([⟨.string, .str "\n", 1, 1⟩, ⟨.minus, .str "-", 2, 3⟩, ⟨.eof, .none, 2, 7⟩],
        [illegalCharacter ('@', ⟨2, 2⟩)]) := by
    rfl
  exact ⟨h, (source_segments .english _).1 _ _ h⟩

end Bhasha
