import Bhasha.Proofs.IllegalCharacters

namespace Bhasha

open Text Lexeme Number

/-- `z` does not go on with a character in `p`. -/
abbrev Stops (p : Char → Bool) (z : List Char) : Prop :=
  ∀ c ∈ z.head?, p c = false

/-- What can stand between two quotes `q`, and the characters that it stands for. -/
inductive Enquoted (q : Char) : List Char → List Char → Prop
  | nil : Enquoted q [] []
  | plain {c w cs} : c ≠ q → c ≠ '\\' → Enquoted q w cs → Enquoted q (c :: w) (c :: cs)
  | escape {c w cs} : Enquoted q w cs → Enquoted q ('\\' :: c :: w) (Scan.escaped c :: cs)

/-- In front of `z`, the text `w` is a lexeme that cannot be made longer, and `f` is what its token
looks like. -/
inductive Lexed : List Char → Face → List Char → Prop
  | integer {w z} : w ≠ [] → (∀ c ∈ w, isDecimal c = true) → w.length ≤ digitLimit →
      Stops (fun c => isDecimal c || c == '.') z → Lexed w (.number, .int (digitsValue w)) z
  | decimal {w v z} : w ≠ [] → (∀ c ∈ w, isDecimal c = true) → (∀ c ∈ v, isDecimal c = true) →
      Stops isDecimal z →
      Lexed (w ++ '.' :: v)
        (.number, .float (ofDecimal false (digitsValue (w ++ v)) (-(v.length : Int)))) z
  | string {q w cs z} : q = '"' ∨ q = '\'' → Enquoted q w cs →
      Lexed (q :: (w ++ [q])) (.string, .str (String.ofList cs)) z
  | word {c w z} : isDigit c = false → startsName c = true → (∀ d ∈ w, continuesName d = true) →
      Stops continuesName z → Lexed (c :: w) (Scan.word (String.ofList (c :: w)) 1 1).face z
  | pair {c d k z} : TokenKind.ofPair? c d = some k →
      Lexed [c, d] (k, .str (String.ofList [c, d])) z
  | sign {c k z} : TokenKind.ofChar? c = some k →
      Stops (fun d => (TokenKind.ofPair? c d).isSome || (c == '/' && d == '/')) z →
      Lexed [c] (k, .str (String.ofList [c])) z

namespace Scan

section

variable {q c : Char} {w v z cs body lexeme : List Char} {n : Nat} {f : Face}

theorem stringBody_of_enquoted (hq : q ≠ '\\') (h : Enquoted q w body) :
    stringBody q (w ++ q :: z) = (body, w.length, true) := by
  induction h with
  | nil =>
    rw [List.nil_append, stringBody_cons hq, beq_self_eq_true, if_pos rfl]
    rfl
  | plain hne hslash _ ih =>
    rw [List.cons_append, stringBody_cons hslash, if_neg (by simpa using hne), ih]
    rfl
  | escape _ ih =>
    rw [List.cons_append, List.cons_append, stringBody, ih]
    rfl

theorem enquoted_of_stringBody (h : stringBody q cs = (body, n, true)) :
    ∃ w z, cs = w ++ q :: z ∧ w.length = n ∧ Enquoted q w body := by
  fun_induction stringBody q cs generalizing body n with
  | case1 => cases h
  | case2 c cs r m closed hr ih =>
    cases h
    obtain ⟨w, z, rfl, rfl, hw⟩ := ih hr
    exact ⟨_, z, rfl, rfl, hw.escape⟩
  | case3 c cs hesc hc =>
    cases h
    exact ⟨[], cs, by rw [eq_of_beq hc]; rfl, rfl, .nil⟩
  | case4 => cases h
  | case5 c cs hesc hc hslash r m closed hr ih =>
    cases h
    obtain ⟨w, z, rfl, rfl, hw⟩ := ih hr
    exact ⟨_, z, rfl, rfl, .plain (by simpa using hc) (by simpa using hslash) hw⟩

theorem number?_integer (hne : w ≠ []) (hw : ∀ c ∈ w, isDecimal c = true)
    (hz : Stops (fun c => isDecimal c || c == '.') z) : number? (w ++ z) = some w := by
  have hdigits : Stops isDecimal z := fun c hc => (Bool.or_eq_false_iff.1 (hz c hc)).1
  obtain ⟨htake, hdrop⟩ := takeWhile_stops hw hdigits
  rw [number?, htake, hdrop, if_neg (by simpa using hne)]
  split
  · exact absurd (hz '.' rfl) (by decide)
  · rfl

theorem number?_decimal (hne : w ≠ []) (hw : ∀ c ∈ w, isDecimal c = true)
    (hv : ∀ c ∈ v, isDecimal c = true) (hz : Stops isDecimal z) :
    number? (w ++ '.' :: v ++ z) = some (w ++ '.' :: v) := by
  have hpoint : Stops isDecimal ('.' :: v ++ z) := by
    simp [Stops, show isDecimal '.' = false by decide]
  obtain ⟨htake, hdrop⟩ := takeWhile_stops hw hpoint
  rw [List.append_assoc, number?, htake, hdrop, if_neg (by simpa using hne)]
  change some (w ++ '.' :: (v ++ z).takeWhile isDecimal) = _
  rw [(takeWhile_stops hv hz).1]

/-- A number is an integer, or it has a point in it. -/
theorem number?_cases (h : number? cs = some lexeme) :
    (∃ z, cs = lexeme ++ z ∧ lexeme ≠ [] ∧ (∀ c ∈ lexeme, isDecimal c = true) ∧
      Stops (fun c => isDecimal c || c == '.') z) ∨
    ∃ w v z, lexeme = w ++ '.' :: v ∧ cs = lexeme ++ z ∧ w ≠ [] ∧ (∀ c ∈ w, isDecimal c = true) ∧
      (∀ c ∈ v, isDecimal c = true) ∧ Stops isDecimal z := by
  have hsplit := @List.takeWhile_append_dropWhile _ isDecimal cs
  have hall := takeWhile_holds isDecimal cs
  have hstops := dropWhile_stops isDecimal cs
  simp only [number?] at h
  generalize cs.takeWhile isDecimal = w at h hsplit hall
  generalize cs.dropWhile isDecimal = z at h hsplit hstops
  subst hsplit
  split at h
  · cases h
  rename_i hw
  have hne : w ≠ [] := by simpa using hw
  split at h
  · rename_i z
    cases h
    refine .inr ⟨w, z.takeWhile isDecimal, z.dropWhile isDecimal, rfl, ?_, hne, hall,
      takeWhile_holds _ z, dropWhile_stops _ z⟩
    rw [List.append_assoc, List.cons_append, List.takeWhile_append_dropWhile]
  · rename_i hpoint
    cases h
    refine .inl ⟨z, rfl, hne, hall, fun c hc => ?_⟩
    obtain ⟨z', rfl⟩ := List.head?_eq_some_iff.1 hc
    have hne : c ≠ '.' := fun heq => hpoint z' (by rw [heq])
    simp [hstops c hc, hne]

theorem not_mem_point (hw : ∀ c ∈ w, isDecimal c = true) : '.' ∉ w :=
  fun h => absurd (hw '.' h) (by decide)

theorem numberValue_integer (hw : ∀ c ∈ w, isDecimal c = true) :
    numberValue w =
      if digitLimit < w.length then .error (.longIntegerText w.length)
      else .ok (.int (digitsValue w)) := by
  have hpoint : w.contains '.' = false := by simpa using not_mem_point hw
  rw [numberValue, hpoint, if_neg Bool.false_ne_true]

theorem numberValue_decimal (hw : ∀ c ∈ w, isDecimal c = true) :
    numberValue (w ++ '.' :: v) =
      .ok (.float (ofDecimal false (digitsValue (w ++ v)) (-(v.length : Int)))) := by
  have hpoint : (w ++ '.' :: v).contains '.' = true := by simp
  have hwhole : ∀ c ∈ w, (c != '.') = true := by
    intro c hc
    rw [bne_iff_ne]
    rintro rfl
    exact not_mem_point hw hc
  obtain ⟨htake, hdrop⟩ := takeWhile_stops (p := (· != '.')) (z := '.' :: v) hwhole (by simp)
  rw [numberValue, hpoint, if_pos rfl, htake, hdrop]
  rfl

theorem piece_of_lexed (h : Lexed w f z) : Piece (w ++ z) (some f) w.length := by
  cases h with
  | integer hne hw hlimit hz =>
    refine .number (number?_integer hne hw hz) ?_
    rw [numberValue_integer hw, if_neg (Nat.not_lt.2 hlimit)]
  | decimal hne hw hv hz => exact .number (number?_decimal hne hw hv hz) (numberValue_decimal hw)
  | @string q w cs _ hq hw =>
    have hslash : q ≠ '\\' := by rcases hq with rfl | rfl <;> decide
    have hpiece := Piece.string hq (stringBody_of_enquoted (z := z) hslash hw)
    simpa using hpiece
  | @word c w _ hdigit hc hw hz =>
    refine .word hdigit ?_
    change identifier? (c :: (w ++ z)) = some (c :: w)
    rw [identifier?, if_pos hc, (takeWhile_stops hw hz).1]
  | @pair c d k _ hk =>
    have hslash : c ≠ '/' := by rintro rfl; cases hk
    refine .symbol (comment?_cons hslash) ?_
    rw [List.cons_append, List.cons_append, symbol?, hk]
  | @sign c k _ hk hz =>
    have hpair : ∀ d ∈ z.head?, TokenKind.ofPair? c d = none := fun d hd => by
      simpa using (Bool.or_eq_false_iff.1 (hz d hd)).1
    have hcomment : comment? (c :: z) = none := by
      cases hc : comment? (c :: z) with
      | none => rfl
      | some lexeme =>
        obtain ⟨cs, hcs⟩ := comment?_head hc
        cases hcs
        have hslash := (Bool.or_eq_false_iff.1 (hz '/' rfl)).2
        exact absurd hslash (by decide)
    refine .symbol hcomment ?_
    rw [List.singleton_append, symbol?_single hpair, hk]
    rfl

theorem piece_comment (hw : '\n' ∉ w) (hz : ∀ c ∈ z.head?, c = '\n') :
    Piece ('/' :: '/' :: (w ++ z)) none (w.length + 2) := by
  have hall : ∀ c ∈ w, (c != '\n') = true := by
    intro c hc
    rw [bne_iff_ne]
    rintro rfl
    exact hw hc
  have hbreak : Stops (· != '\n') z := fun c hc => by simp [hz c hc]
  have hcomment : comment? ('/' :: '/' :: (w ++ z)) = some ('/' :: '/' :: w) := by
    rw [comment?, (takeWhile_stops hall hbreak).1]
  exact .comment hcomment

theorem lexed_of_piece (h : Piece cs (some f) n) :
    ∃ w z, cs = w ++ z ∧ w.length = n ∧ Lexed w f z := by
  cases h with
  | number hlexeme hv =>
    rcases number?_cases hlexeme with ⟨z, rfl, hne, hw, hz⟩ | ⟨w, v, z, rfl, rfl, hne, hw, hv', hz⟩
    · rw [numberValue_integer hw] at hv
      split at hv
      · cases hv
      · rename_i hlimit
        cases hv
        exact ⟨_, z, rfl, rfl, .integer hne hw (Nat.not_lt.1 hlimit) hz⟩
    · rw [numberValue_decimal hw] at hv
      cases hv
      exact ⟨_, z, rfl, rfl, .decimal hne hw hv' hz⟩
  | string hq hbody =>
    obtain ⟨w, z, rfl, rfl, hw⟩ := enquoted_of_stringBody hbody
    exact ⟨_, z, by simp, by simp, .string hq hw⟩
  | @word c cs lexeme hdigit hlexeme =>
    obtain ⟨hc, rfl⟩ := identifier?_ok hlexeme
    refine ⟨_, cs.dropWhile continuesName, ?_, rfl,
      .word hdigit hc (takeWhile_holds _ cs) (dropWhile_stops _ cs)⟩
    rw [List.cons_append, List.takeWhile_append_dropWhile]
  | @symbol _ k lexeme hcomment hsymbol =>
    obtain ⟨-, -, -, -, -, -, ⟨z, rfl⟩, -⟩ := symbol?_ok hsymbol
    rcases symbol?_lexeme hsymbol with ⟨c, d, rfl, hk⟩ | ⟨c, rfl, hk, hpair⟩
    · exact ⟨_, z, rfl, rfl, .pair hk⟩
    · refine ⟨_, z, rfl, rfl, .sign hk fun d hd => ?_⟩
      obtain ⟨z', rfl⟩ := List.head?_eq_some_iff.1 hd
      -- Two slashes would open a comment.
      have hslash : ¬ (c = '/' ∧ d = '/') := by
        rintro ⟨rfl, rfl⟩
        cases hcomment
      simpa [hpair d rfl] using hslash

end

end Scan

namespace Position

/-- The position behind a text: its line breaks are counted, and the characters behind the last. -/
def behind (before : List Char) : Position where
  line := before.count '\n' + 1
  column := (before.reverse.takeWhile (· != '\n')).length + 1

/-- The token here that looks like `f`. -/
def token (p : Position) (f : Face) : Token :=
  { kind := f.1, value := f.2, line := p.line, column := p.column }

theorem behind_concat (before : List Char) (c : Char) :
    behind (before ++ [c]) = (behind before).after c := by
  unfold behind after
  rw [List.count_append, List.count_singleton, List.reverse_append, List.reverse_singleton,
    List.singleton_append]
  cases hc : c == '\n' with
  | true => simp [eq_of_beq hc]
  | false => simp [bne, hc]

end Position

namespace Scanner

theorem position_skip {s : Scanner} {before : List Char} {n : Nat} (hn : n ≤ s.rest.length)
    (hs : s.position = .behind before) :
    (s.skip n).position = .behind (before ++ s.rest.take n) := by
  induction n generalizing s before with
  | zero => rwa [List.take_zero, List.append_nil]
  | succ n ih =>
    obtain ⟨c, cs, hrest⟩ := List.exists_cons_of_length_pos (Nat.zero_lt_of_lt hn)
    have hcs : s.next.rest = cs := by rw [rest_next, hrest]; rfl
    have hnext : s.next.position = .behind (before ++ [c]) := by
      rw [position_next hrest, hs, Position.behind_concat]
    rw [hrest, List.length_cons] at hn
    rw [skip, ih (by rw [hcs]; omega) hnext, hcs, hrest, List.take_succ_cons, List.append_assoc]
    rfl

end Scanner

/-- A stretch of a source text. -/
inductive Segment
  | gap (w : List Char)
  | newline
  | comment (w : List Char)
  | lexeme (w : List Char) (f : Face)
  | illegal (c : Char)

namespace Segment

def text : Segment → List Char
  | gap w => w
  | newline => ['\n']
  | comment w => '/' :: '/' :: w
  | lexeme w _ => w
  | illegal c => [c]

/-- May the segment stand in front of `z`? A gap and a comment go as far as they can, as a lexeme
does. -/
inductive Stands : Segment → List Char → Prop
  | gap {w z} : w ≠ [] → (∀ c ∈ w, isGap c = true) → Stops isGap z → Stands (.gap w) z
  | newline {z} : Stands .newline z
  | comment {w z} : '\n' ∉ w → Scan.Breaks z → Stands (.comment w) z
  | lexeme {w f z} : Lexed w f z → Stands (.lexeme w f) z
  | illegal {c z} : Scan.Illegal c z → Stands (.illegal c) z

theorem Stands.text_ne_nil {g : Segment} {z : List Char} (h : g.Stands z) : g.text ≠ [] := by
  cases h with
  | gap hne => exact hne
  | newline | comment | illegal => exact List.cons_ne_nil _ _
  | lexeme hw =>
    cases hw with
    | integer hne => exact hne
    | decimal => exact List.append_ne_nil_of_right_ne_nil _ (List.cons_ne_nil _ _)
    | string | word | pair | sign => exact List.cons_ne_nil _ _

/-- The token that a segment at `p` makes, if any. -/
def tokens (p : Position) : Segment → List Token
  | lexeme _ f => [p.token f]
  | _ => []

/-- What is reported of a segment at `p`, if anything. -/
def errors (p : Position) : Segment → List Diagnostic
  | illegal c => [illegalCharacter (c, p)]
  | _ => []

/-- The text of segments in a row. -/
def texts (gs : List Segment) : List Char :=
  gs.flatMap text

/-- The segments stand in a row, with `z` behind them. -/
inductive Row : List Segment → List Char → Prop
  | nil {z} : Row [] z
  | cons {g gs z} : g.Stands (texts gs ++ z) → Row gs z → Row (g :: gs) z

/-- Segments in a row with their positions, if the text `before` is in front of them. -/
def located (before : List Char) : List Segment → List (Position × Segment)
  | [] => []
  | g :: gs => (.behind before, g) :: located (before ++ g.text) gs

def tokensFrom (before : List Char) (gs : List Segment) : List Token :=
  (located before gs).flatMap fun e => e.2.tokens e.1

def errorsFrom (before : List Char) (gs : List Segment) : List Diagnostic :=
  (located before gs).flatMap fun e => e.2.errors e.1

end Segment

namespace Scan

/-- From `s`, where the text `before` is in front, to `s₁` the scanner has passed the segment. -/
structure Passes (before : List Char) (g : Segment) (s s₁ : Scanner) : Prop where
  rest : s.rest = g.text ++ s₁.rest
  position : s₁.position = .behind (before ++ g.text)
  errors : s₁.errors = s.errors ++ g.errors (.behind before)

variable {s : Scanner} {before cs z : List Char} {g : Segment}

/-- A piece other than a gap is a segment. -/
theorem segment_of_piece {f : Option Face} {n : Nat} (h : Piece cs f n) (hgap : Stops isGap cs) :
    ∃ (g : Segment) (z : List Char), cs = g.text ++ z ∧ g.text.length = n ∧ g.Stands z ∧
      ∀ p : Position, g.tokens p = (f.map p.token).toList ∧ g.errors p = [] := by
  cases f with
  | some f =>
    obtain ⟨w, z, rfl, rfl, hw⟩ := lexed_of_piece h
    exact ⟨.lexeme w f, z, rfl, rfl, .lexeme hw, fun _ => ⟨rfl, rfl⟩⟩
  | none =>
    cases h with
    | gap hc =>
      rw [hgap _ rfl] at hc
      cases hc
    | newline => exact ⟨.newline, _, rfl, rfl, .newline, fun _ => ⟨rfl, rfl⟩⟩
    | comment hcomment =>
      obtain ⟨cs, rfl⟩ := comment?_head hcomment
      cases hcomment
      refine ⟨.comment (cs.takeWhile (· != '\n')), cs.dropWhile (· != '\n'), ?_, rfl,
        .comment (fun hmem => ?_) (fun c hc => ?_), fun _ => ⟨rfl, rfl⟩⟩
      · exact congrArg (['/', '/'] ++ ·) List.takeWhile_append_dropWhile.symm
      · exact absurd (takeWhile_holds (· != '\n') cs '\n' hmem) (by decide)
      · simpa using dropWhile_stops (· != '\n') cs c hc

theorem passes_skip (hs : s.position = .behind before) (hrest : s.rest = g.text ++ z)
    (herrors : g.errors (.behind before) = []) :
    Passes before g s (s.skip g.text.length) ∧ (s.skip g.text.length).rest = z := by
  have hz : (s.skip g.text.length).rest = z := by rw [Scanner.rest_skip, hrest, List.drop_left]
  refine ⟨⟨hrest.trans (by rw [hz]), ?_, by rw [Scanner.errors_skip, herrors, List.append_nil]⟩, hz⟩
  have hlength : g.text.length ≤ s.rest.length := by
    rw [hrest, List.length_append]
    exact Nat.le_add_right _ _
  rw [Scanner.position_skip hlength hs, hrest, List.take_left]

theorem passes_illegal {c : Char} {d : Diagnostic} (hs : s.position = .behind before)
    (hrest : s.rest = c :: z) (hd : d = illegalCharacter (c, s.position)) :
    let s₁ := Scanner.skip 1 { s with errors := s.errors ++ [d] }
    Passes before (.illegal c) s s₁ ∧ s₁.rest = z := by
  intro s₁
  have hz : s₁.rest = z := by
    rw [Scanner.rest_skip]
    exact congrArg (List.drop 1) hrest
  have hposition : s₁.position = .behind (before ++ [c]) := by
    rw [Position.behind_concat, ← hs]
    exact Scanner.position_next (s := { s with errors := _ }) hrest
  refine ⟨⟨hrest.trans (by rw [hz]; rfl), hposition, ?_⟩, hz⟩
  rw [Scanner.errors_skip, hd, hs]
  rfl

end Scan

end Bhasha
