import Bhasha.Proofs.SourceConcatenation

namespace Bhasha

open Text Lexeme

/-- A line of a text and a column in it, both counted from one. -/
structure Position where
  line : Nat := 1
  column : Nat := 1
deriving DecidableEq

namespace Position

/-- The position behind a character. -/
def after (p : Position) (c : Char) : Position :=
  if c == '\n' then { line := p.line + 1 } else { p with column := p.column + 1 }

def Before (p q : Position) : Prop :=
  p.line < q.line ∨ p.line = q.line ∧ p.column < q.column

theorem before_after (p : Position) (c : Char) : p.Before (p.after c) := by
  unfold after
  split
  · exact .inl (Nat.lt_succ_self _)
  · exact .inr ⟨rfl, Nat.lt_succ_self _⟩

theorem not_before_self (p : Position) : ¬ p.Before p := by
  unfold Before
  omega

theorem Before.trans {p q r : Position} (h : p.Before q) (h' : q.Before r) : p.Before r := by
  unfold Before at *
  omega

end Position

/-- The characters of a text with their positions, the first of them at `p`. -/
def placed (p : Position) : List Char → List (Char × Position)
  | [] => []
  | c :: cs => (c, p) :: placed (p.after c) cs

theorem map_fst_placed (p : Position) (cs : List Char) : (placed p cs).map (·.1) = cs := by
  induction cs generalizing p with
  | nil => rfl
  | cons c cs ih => rw [placed, List.map_cons, ih]

theorem not_before_of_mem_placed {p : Position} {cs : List Char} :
    ∀ e ∈ placed p cs, ¬ e.2.Before p := by
  induction cs generalizing p with
  | nil => simp [placed]
  | cons c cs ih =>
    intro e he hbefore
    rw [placed, List.mem_cons] at he
    rcases he with rfl | he
    · exact p.not_before_self hbefore
    · exact ih e he (hbefore.trans (p.before_after c))

namespace Scanner

def position (s : Scanner) : Position :=
  ⟨s.line, s.column⟩

variable {s : Scanner} {c : Char} {cs : List Char} {n : Nat}

theorem position_ofSource (source : List Char) : (ofSource source).position = {} :=
  rfl

theorem position_next (h : s.rest = c :: cs) : s.next.position = s.position.after c := by
  unfold next position Position.after
  rw [h]
  dsimp only
  split <;> rfl

theorem before_skip (hn : n < s.rest.length) : s.position.Before (s.skip (n + 1)).position := by
  induction n generalizing s with
  | zero =>
    obtain ⟨c, cs, hrest⟩ := List.exists_cons_of_length_pos hn
    show s.position.Before s.next.position
    rw [position_next hrest]
    exact s.position.before_after c
  | succ n ih =>
    obtain ⟨c, cs, hrest⟩ := List.exists_cons_of_length_pos (Nat.zero_lt_of_lt hn)
    have hlen : n < s.next.rest.length := by
      rw [rest_next, List.length_drop]
      omega
    have hnext := ih hlen
    rw [position_next hrest] at hnext
    exact (s.position.before_after c).trans hnext

theorem position_skip_congr {s t : Scanner} {z : List Char} (hn : n ≤ s.rest.length)
    (h : t.rest = s.rest.take n ++ z) (hp : t.position = s.position) :
    (t.skip n).position = (s.skip n).position ∧ (t.skip n).rest = z := by
  induction n generalizing s t with
  | zero => exact ⟨hp, h⟩
  | succ n ih =>
    obtain ⟨c, cs, hrest⟩ := List.exists_cons_of_length_pos (Nat.zero_lt_of_lt hn)
    have hnext : s.next.rest = cs := by rw [rest_next, hrest]; rfl
    rw [hrest, List.take_succ_cons, List.cons_append] at h
    apply ih (s := s.next) (t := t.next)
    · rw [hnext]
      simpa [hrest] using hn
    · rw [hnext, rest_next, h]
      rfl
    · rw [position_next h, position_next hrest, hp]

theorem token_congr {s t : Scanner} (h : t.position = s.position) (f : Face) :
    t.token f = s.token f := by
  have hline : t.line = s.line := congrArg Position.line h
  have hcolumn : t.column = s.column := congrArg Position.column h
  rw [token, token, hline, hcolumn]

/-- The characters that are skipped lie before those that are not. -/
theorem placed_skip (hn : n ≤ s.rest.length) :
    placed s.position s.rest =
        placed s.position (s.rest.take n) ++ placed (s.skip n).position (s.rest.drop n) ∧
      ∀ e ∈ placed s.position (s.rest.take n), e.2.Before (s.skip n).position := by
  induction n generalizing s with
  | zero => simp [skip, placed]
  | succ n ih =>
    have hfirst := before_skip hn
    obtain ⟨c, cs, hrest⟩ := List.exists_cons_of_length_pos (Nat.zero_lt_of_lt hn)
    have hnext : s.next.rest = cs := by rw [rest_next, hrest]; rfl
    have hlen : n ≤ s.next.rest.length := by
      rw [hnext]
      simpa [hrest] using hn
    obtain ⟨hsplit, hbefore⟩ := ih hlen
    rw [position_next hrest, hnext] at hsplit hbefore
    rw [hrest, List.take_succ_cons, List.drop_succ_cons]
    constructor
    · rw [placed, placed, List.cons_append, hsplit]
      rfl
    · intro e he
      rw [placed, List.mem_cons] at he
      rcases he with rfl | he
      · exact hfirst
      · exact hbefore e he

end Scanner

/-- The text with a space in place of each character at a position that `R` picks. -/
def blankedAt (R : Position → Bool) (p : Position) (cs : List Char) : List Char :=
  (placed p cs).map fun e => if R e.2 then ' ' else e.1

/-- What the scanner reports of a character. -/
def illegalCharacter (e : Char × Position) : Diagnostic :=
  .scanned (Scan.unexpected (some e.1)) e.2.line e.2.column

/-- The position that an error of the scanner is about. -/
def Diagnostic.position? (d : Diagnostic) : Option Position :=
  match d.hi, d.line with
  | .number line, some column => some ⟨line.toNat, column.toNat⟩
  | _, _ => none

theorem position?_illegalCharacter (e : Char × Position) :
    (illegalCharacter e).position? = some e.2 :=
  rfl

/-- Is one of the errors about this position? -/
def recorded (ds : List Diagnostic) (p : Position) : Bool :=
  ds.any fun d => decide (d.position? = some p)

/-- The text with a space in place of each character that one of the errors is about. -/
def blanked (ds : List Diagnostic) (source : String) : String :=
  String.ofList (blankedAt (recorded ds) {} source.toList)

theorem recorded_cons (e : Char × Position) (ds : List Diagnostic) (p : Position) :
    recorded (illegalCharacter e :: ds) p = (decide (e.2 = p) || recorded ds p) := by
  simp [recorded, position?_illegalCharacter]

namespace Scan

/-- `z'` starts as `z` does, or with a space where `z` does not start a line. -/
def Follows (z z' : List Char) : Prop :=
  z'.head? = z.head? ∨ z'.head? = some ' ' ∧ ∃ c ∈ z.head?, c ≠ '\n'

section

variable {p : Char → Bool} {a z z' : List Char}

theorem Follows.stops (h : Follows z z') (hp : p ' ' = false) (hz : ∀ c ∈ z.head?, p c = false) :
    ∀ c ∈ z'.head?, p c = false := by
  intro c hc
  rcases h with h | ⟨h, -⟩
  · exact hz c (h ▸ hc)
  · rw [h, Option.mem_some] at hc
    rw [← hc]
    exact hp

theorem takeWhile_stops (ha : ∀ c ∈ a, p c = true) (hz : ∀ c ∈ z.head?, p c = false) :
    (a ++ z).takeWhile p = a ∧ (a ++ z).dropWhile p = z := by
  rw [List.takeWhile_append_of_pos ha, List.dropWhile_append_of_pos ha]
  cases z with
  | nil => simp
  | cons c z => simp [hz c rfl]

theorem dropWhile_stops (p : Char → Bool) (cs : List Char) :
    ∀ c ∈ (cs.dropWhile p).head?, p c = false := by
  intro c hc
  have hnot := List.head?_dropWhile_not p cs
  rwa [Option.mem_def.mp hc] at hnot

theorem takeWhile_holds (p : Char → Bool) (cs : List Char) : ∀ c ∈ cs.takeWhile p, p c = true :=
  fun _ hc => List.mem_takeWhile_imp hc

theorem eq_dropWhile (h : a.takeWhile p ++ z = a) : z = a.dropWhile p :=
  List.append_cancel_left (h.trans List.takeWhile_append_dropWhile.symm)

theorem comment?_resume (h : comment? (a ++ z) = some a) (hz : Follows z z') :
    comment? (a ++ z') = some a := by
  obtain ⟨cs, hcs⟩ := comment?_head h
  have ha : '/' :: '/' :: cs.takeWhile (· != '\n') = a := by
    rw [hcs] at h
    exact Option.some.inj h
  have hdrop : z = cs.dropWhile (· != '\n') := by
    rw [← ha, List.cons_append, List.cons_append] at hcs
    exact eq_dropWhile (by simpa using hcs)
  have hstops := dropWhile_stops (· != '\n') cs
  rw [← hdrop] at hstops
  have hstops' : ∀ c ∈ z'.head?, (c != '\n') = false := by
    rcases hz with hsame | ⟨-, c, hc, hne⟩
    · rwa [hsame]
    · have hbreak := hstops c hc
      simp [hne] at hbreak
  rw [← ha, List.cons_append, List.cons_append, comment?,
    (takeWhile_stops (takeWhile_holds _ cs) hstops').1]

theorem number?_resume (h : number? (a ++ z) = some a) (hz : Follows z z') :
    number? (a ++ z') = some a := by
  have hsplit := List.takeWhile_append_dropWhile (p := isDecimal) (l := a ++ z)
  have hall := takeWhile_holds isDecimal (a ++ z)
  have hstops := dropWhile_stops isDecimal (a ++ z)
  simp only [number?] at h
  generalize (a ++ z).takeWhile isDecimal = whole at h hsplit hall
  generalize (a ++ z).dropWhile isDecimal = behind at h hsplit hstops
  split at h
  · cases h
  rename_i hwhole
  split at h
  · -- Digits, a point and the digits behind it.
    rename_i cs
    have ha : whole ++ '.' :: cs.takeWhile isDecimal = a := Option.some.inj h
    have hdrop : z = cs.dropWhile isDecimal := by
      rw [← ha, List.append_assoc, List.cons_append] at hsplit
      have hcs := List.append_cancel_left hsplit
      exact eq_dropWhile (List.cons.inj hcs).2.symm
    have hstops' := hz.stops (p := isDecimal) (by decide) (hdrop ▸ dropWhile_stops isDecimal cs)
    obtain ⟨htake, hdrop'⟩ := takeWhile_stops (p := isDecimal)
      (z := '.' :: cs.takeWhile isDecimal ++ z') hall
      (by simp [show isDecimal '.' = false by decide])
    have htail := (takeWhile_stops (takeWhile_holds isDecimal cs) hstops').1
    rw [← ha, number?, List.append_assoc, htake, hdrop']
    simp [hwhole, htail]
  · -- Digits alone; neither a digit nor a point follows.
    rename_i hpoint
    have ha : whole = a := Option.some.inj h
    have hbehind : behind = z := by
      rw [ha] at hsplit
      exact List.append_cancel_left hsplit
    have hends : ∀ c ∈ z'.head?, (isDecimal c || c == '.') = false := by
      apply hz.stops (p := fun c => isDecimal c || c == '.') (by decide)
      intro c hc
      rw [← hbehind] at hc
      obtain ⟨cs, hcs⟩ := List.head?_eq_some_iff.mp hc
      have hne : c ≠ '.' := fun hpoint' => hpoint cs (by rw [hcs, hpoint'])
      simp [hstops c hc, hne]
    have hdigits : ∀ c ∈ z'.head?, isDecimal c = false := fun c hc =>
      (Bool.or_eq_false_iff.mp (hends c hc)).1
    obtain ⟨htake, hdrop⟩ := takeWhile_stops (ha ▸ hall) hdigits
    rw [number?, htake, hdrop, if_neg (ha ▸ hwhole)]
    split
    · exact absurd (hends '.' rfl) (by decide)
    · rfl

theorem identifier?_resume {c : Char} (h : identifier? (c :: (a ++ z)) = some (c :: a))
    (hz : Follows z z') : identifier? (c :: (a ++ z')) = some (c :: a) := by
  obtain ⟨hc, hlexeme⟩ := identifier?_ok h
  have ha : (a ++ z).takeWhile continuesName = a := (List.cons.inj hlexeme).2.symm
  have hdrop : z = (a ++ z).dropWhile continuesName := by
    apply eq_dropWhile
    rw [ha]
  have hstops' := hz.stops (p := continuesName) (by decide)
    (hdrop ▸ dropWhile_stops continuesName (a ++ z))
  have hall : ∀ c ∈ a, continuesName c = true := ha ▸ takeWhile_holds continuesName (a ++ z)
  rw [identifier?, if_pos hc, (takeWhile_stops hall hstops').1]

theorem ofPair?_space (c : Char) : TokenKind.ofPair? c ' ' = none := by
  unfold TokenKind.ofPair?
  split <;> simp_all

/-- Two characters that make a symbol, or one that does not make one with the next. -/
theorem symbol?_lexeme {k : TokenKind} (h : symbol? (a ++ z) = some (k, a)) :
    (∃ c d, a = [c, d] ∧ TokenKind.ofPair? c d = some k) ∨
      ∃ c, a = [c] ∧ TokenKind.ofChar? c = some k ∧
        ∀ d ∈ z.head?, TokenKind.ofPair? c d = none := by
  generalize hcs : a ++ z = cs at h
  unfold symbol? at h
  split at h
  · rename_i c d cs
    split at h
    · rename_i hpair
      cases h
      exact .inl ⟨c, d, rfl, hpair⟩
    · rename_i hpair
      obtain ⟨k', hk, heq⟩ := Option.map_eq_some_iff.mp h
      cases heq
      have hz : z = d :: cs := (List.cons.inj hcs).2
      exact .inr ⟨c, rfl, hk, by simpa [hz] using hpair⟩
  · rename_i c
    obtain ⟨k', hk, heq⟩ := Option.map_eq_some_iff.mp h
    cases heq
    have hz : z = [] := (List.cons.inj hcs).2
    exact .inr ⟨c, rfl, hk, by simp [hz]⟩
  · cases h

theorem symbol?_single {c : Char} (h : ∀ d ∈ z.head?, TokenKind.ofPair? c d = none) :
    symbol? (c :: z) = (TokenKind.ofChar? c).map (·, [c]) := by
  cases z with
  | nil => rfl
  | cons d z => rw [symbol?, h d rfl]

theorem comment?_resume_none (hne : a ≠ []) (h : comment? (a ++ z) = none) (hz : Follows z z') :
    comment? (a ++ z') = none := by
  cases hc : comment? (a ++ z') with
  | none => rfl
  | some lexeme =>
    -- The two slashes would lie in `a`, or the second one would be the first of `z` too.
    obtain ⟨cs, hcs⟩ := comment?_head hc
    match a, hne with
    | [c], _ =>
      obtain ⟨rfl, rfl⟩ := List.cons.inj hcs
      rcases hz with hsame | ⟨hspace, -⟩
      · obtain ⟨cs', rfl⟩ := List.head?_eq_some_iff.mp hsame.symm
        cases h
      · cases hspace
    | c :: d :: a, _ =>
      obtain ⟨rfl, hd⟩ := List.cons.inj hcs
      obtain ⟨rfl, -⟩ := List.cons.inj hd
      cases h

theorem symbol?_resume {k : TokenKind} (h : symbol? (a ++ z) = some (k, a)) (hz : Follows z z') :
    symbol? (a ++ z') = some (k, a) := by
  rcases symbol?_lexeme h with ⟨c, d, rfl, hpair⟩ | ⟨c, rfl, hc, hpair⟩
  · rw [List.cons_append, List.cons_append, symbol?, hpair]
  · have hstops := hz.stops (p := fun d => (TokenKind.ofPair? c d).isSome)
      (by rw [ofPair?_space]; rfl) (fun d hd => by rw [hpair d hd]; rfl)
    rw [List.singleton_append, symbol?_single fun d hd => by simpa using hstops d hd, hc]
    rfl

theorem stringBody_take {q : Char} {cs body : List Char} {n : Nat} (hq : q ≠ '\\')
    (h : stringBody q cs = (body, n, true)) : stringBody q (cs.take (n + 1)) = (body, n, true) := by
  fun_induction stringBody q cs generalizing body n with
  | case1 => cases h
  | case2 c cs r m closed hr ih =>
    cases h
    rw [List.take_succ_cons, List.take_succ_cons, stringBody, ih hr]
  | case3 c cs hesc hc =>
    cases h
    obtain rfl := eq_of_beq hc
    rw [List.take_succ_cons, List.take_zero, stringBody_cons hq, if_pos hc]
  | case4 => cases h
  | case5 c cs hesc hc hslash r m closed hr ih =>
    cases h
    rw [List.take_succ_cons, stringBody_cons (by simpa using hslash), if_neg hc, ih hr]

theorem comment?_front {cs lexeme : List Char} (h : comment? cs = some lexeme) : lexeme <+: cs := by
  obtain ⟨cs', rfl⟩ := comment?_head h
  cases h
  simp [List.takeWhile_prefix]

/-- A piece is read the same with a space behind it in place of another character. -/
theorem Piece.resume {cs z' : List Char} {f : Option Face} {n : Nat} (h : Piece cs f n)
    (hz : Follows (cs.drop n) z') : Piece (cs.take n ++ z') f n := by
  have hcut {lexeme : List Char} (h : lexeme <+: cs) :
      cs.take lexeme.length = lexeme ∧ cs = lexeme ++ cs.drop lexeme.length := by
    have htake := (List.prefix_iff_eq_take.mp h).symm
    have hcs := List.take_append_drop lexeme.length cs
    rw [htake] at hcs
    exact ⟨htake, hcs.symm⟩
  cases h with
  | gap hc => exact .gap hc
  | newline => exact .newline
  | comment hc =>
    obtain ⟨htake, hcs⟩ := hcut (comment?_front hc)
    rw [hcs] at hc
    rw [htake]
    exact .comment (comment?_resume hc hz)
  | number hlexeme hv =>
    obtain ⟨hpre, -⟩ := number?_prefix hlexeme
    obtain ⟨htake, hcs⟩ := hcut hpre
    rw [hcs] at hlexeme
    rw [htake]
    exact .number (number?_resume hlexeme hz) hv
  | @string q cs body n hq hbody =>
    have hslash : q ≠ '\\' := by rcases hq with rfl | rfl <;> decide
    rw [List.take_succ_cons, List.cons_append]
    exact .string hq (stringBody_append hslash (stringBody_take hslash hbody))
  | @word c cs lexeme hd hlexeme =>
    obtain ⟨-, rfl⟩ := identifier?_ok hlexeme
    have hpre : c :: cs.takeWhile continuesName <+: c :: cs := by simp [List.takeWhile_prefix]
    obtain ⟨htake, hcs⟩ := hcut hpre
    rw [hcs] at hlexeme
    rw [htake]
    exact .word hd (identifier?_resume hlexeme hz)
  | symbol hc hsymbol =>
    obtain ⟨c, cs', -, -, -, -, hpre, hne⟩ := symbol?_ok hsymbol
    obtain ⟨htake, hcs⟩ := hcut hpre
    rw [hcs] at hc hsymbol
    rw [htake]
    exact .symbol (comment?_resume_none hne hc hz) (symbol?_resume hsymbol hz)

end

section

variable {lang : Lang} {s s₁ s' : Scanner} {ts : List Token}

theorem record_eq {c : Char} (h : record lang (unexpected (some c)) s = .ok () s₁) :
    s₁ = Scanner.skip 1 { s with errors := s.errors ++ [illegalCharacter (c, s.position)] } := by
  obtain ⟨d, s₂, hd, h⟩ := bind_eq_ok h
  have hd := bind_get_ok hd
  cases hf : (Diagnostic.scanned (unexpected (some c)) s.line s.column).format lang with
  | ok _ =>
    simp only [hf] at hd
    cases hd
    cases h
    rfl
  | error f =>
    simp only [hf] at hd
    cases hd

/-- The same text is left at the same position, but for blanks at the positions that `R` picks. -/
structure Blanks (R : Position → Bool) (s t : Scanner) : Prop where
  rest : t.rest = blankedAt R s.position s.rest
  position : t.position = s.position

theorem follows_blankedAt {R : Position → Bool} {p : Position} {z : List Char}
    (h : ∀ e ∈ placed p z, R e.2 = true → e.1 ≠ '\n') : Follows z (blankedAt R p z) := by
  cases z with
  | nil => exact .inl rfl
  | cons c z =>
    cases hR : R p with
    | false => exact .inl (by simp [blankedAt, placed, hR])
    | true =>
      have hc := h (c, p) (by simp [placed]) hR
      exact .inr ⟨by simp [blankedAt, placed, hR], c, rfl, hc⟩

theorem recorded_eq_false {es : List (Char × Position)} {q : Position} (h : ∀ e ∈ es, e.2 ≠ q) :
    recorded (es.map illegalCharacter) q = false := by
  simpa [recorded, position?_illegalCharacter] using h

/-- `es` are the illegal characters of the rest of the text, and `R` picks their positions. -/
structure Picks (R : Position → Bool) (s : Scanner) (es : List (Char × Position)) : Prop where
  filter : (placed s.position s.rest).filter (fun e => R e.2) = es
  newline : ∀ e ∈ es, e.1 ≠ '\n'

theorem Picks.newline_of_mem {R : Position → Bool} {es : List (Char × Position)}
    (h : Picks R s es) : ∀ e ∈ placed s.position s.rest, R e.2 = true → e.1 ≠ '\n' := by
  intro e he hR
  apply h.newline
  rw [← h.filter]
  exact List.mem_filter.mpr ⟨he, hR⟩

/-- The blanked text gives the same tokens up to its end, and nothing to report. -/
def Rescans (lang : Lang) (R : Position → Bool) (s : Scanner) (ts : List Token) (s' : Scanner) :
    Prop :=
  ∀ t, Blanks R s t →
    ∃ t', Scanned lang t ts t' ∧ t'.rest = [] ∧ t'.errors = t.errors ∧ t'.position = s'.position

section

variable {R : Position → Bool} {es : List (Char × Position)} {f : Option Face} {n : Nat}
  {c : Char} {cs : List Char}

/-- No illegal character lies in a piece. -/
theorem Piece.picks (hp : Piece s.rest f n)
    (hfront : ∀ e ∈ placed s.position (s.rest.take n), R e.2 = false)
    (h : Picks R (s.skip n) es) : Picks R s es := by
  refine ⟨?_, h.newline⟩
  have hfilter := h.filter
  have hnone : (placed s.position (s.rest.take n)).filter (fun e => R e.2) = [] := by
    rw [List.filter_eq_nil_iff]
    intro e he
    rw [hfront e he]
    exact Bool.false_ne_true
  rw [Scanner.rest_skip] at hfilter
  rw [(Scanner.placed_skip hp.length.2).1, List.filter_append, hfilter, hnone, List.nil_append]

theorem Piece.rescans (hp : Piece s.rest f n)
    (hfront : ∀ e ∈ placed s.position (s.rest.take n), R e.2 = false)
    (hpicks : Picks R (s.skip n) es) (h : Rescans lang R (s.skip n) ts s') :
    Rescans lang R s ((f.map s.token).toList ++ ts) s' := by
  intro t ht
  have hrest : t.rest =
      s.rest.take n ++ blankedAt R (s.skip n).position (s.rest.drop n) := by
    have hkept : (placed s.position (s.rest.take n)).map (fun e => if R e.2 then ' ' else e.1) =
        (placed s.position (s.rest.take n)).map (·.1) :=
      List.map_congr_left fun e he => by rw [hfront e he, if_neg Bool.false_ne_true]
    rw [ht.rest, blankedAt, (Scanner.placed_skip hp.length.2).1, List.map_append, hkept,
      map_fst_placed]
    rfl
  have hfollows : Follows (s.rest.drop n) (blankedAt R (s.skip n).position (s.rest.drop n)) := by
    have hnewline := hpicks.newline_of_mem
    rw [Scanner.rest_skip] at hnewline
    exact follows_blankedAt hnewline
  have hp' : Piece t.rest f n := by
    rw [hrest]
    exact hp.resume hfollows
  obtain ⟨hposition, hskip⟩ := Scanner.position_skip_congr hp.length.2 hrest ht.position
  have hblanks : Blanks R (s.skip n) (t.skip n) := by
    refine ⟨?_, hposition⟩
    rw [hskip, Scanner.rest_skip]
  obtain ⟨t', hscan, hend, herrors, hlast⟩ := h (t.skip n) hblanks
  have htoken : f.map t.token = f.map s.token := by
    cases f with
    | none => rfl
    | some f => rw [Option.map_some, Option.map_some, Scanner.token_congr ht.position f]
  refine ⟨t', ?_, hend, ?_, hlast⟩
  · rw [← htoken]
    exact .piece hp' hscan
  · rw [herrors, Scanner.errors_skip]

/-- The space in the place of an illegal character is a piece of its own. -/
theorem rescans_illegal (hrest : s.rest = c :: cs) (hc : c ≠ '\n') (hR : R s.position = true)
    (hposition : s₁.position = s.position.after c) (hrest₁ : s₁.rest = cs)
    (h : Rescans lang R s₁ ts s') : Rescans lang R s ts s' := by
  intro t ht
  have hspace : t.rest = ' ' :: blankedAt R s₁.position s₁.rest := by
    rw [ht.rest, hrest, hrest₁, hposition, blankedAt, placed, List.map_cons, hR]
    rfl
  have hp : Piece t.rest none 1 := by
    rw [hspace]
    exact .gap rfl
  have hafter : s.position.after ' ' = s.position.after c := by
    unfold Position.after
    simp [hc]
  have hblanks : Blanks R s₁ (t.skip 1) := by
    constructor
    · rw [Scanner.rest_skip, hspace]
      rfl
    · show t.next.position = _
      rw [Scanner.position_next hspace, ht.position, hafter, hposition]
  obtain ⟨t', hscan, hend, herrors, hlast⟩ := h (t.skip 1) hblanks
  refine ⟨t', .piece hp hscan, hend, ?_, hlast⟩
  rw [herrors, Scanner.errors_skip]

end

/-- The characters that a scan to the end of the text reports, in their order; where they are blank
the scan is the same without a report. -/
theorem Scanned.blanks (h : Scanned lang s ts s') (hend : s'.rest = []) :
    ∃ es : List (Char × Position), s'.errors = s.errors ++ es.map illegalCharacter ∧
      (∀ e ∈ es, ¬ e.2.Before s.position) ∧
      ∀ R : Position → Bool,
        (∀ q, ¬ q.Before s.position → R q = recorded (es.map illegalCharacter) q) →
        Picks R s es ∧ Rescans lang R s ts s' := by
  induction h with
  | @done s =>
    refine ⟨[], by simp, by simp, fun R _ => ⟨⟨by simp [hend, placed], by simp⟩, ?_⟩⟩
    intro t ht
    refine ⟨t, .done, ?_, rfl, ht.position⟩
    rw [ht.rest, hend]
    rfl
  | @piece s f n ts s' hp _ ih =>
    obtain ⟨es, herrors, hbefore, hR⟩ := ih hend
    obtain ⟨hpos, hle⟩ := hp.length
    have hskip : s.position.Before (s.skip n).position := by
      obtain ⟨m, rfl⟩ := Nat.exists_eq_succ_of_ne_zero (Nat.ne_of_gt hpos)
      exact Scanner.before_skip hle
    refine ⟨es, by rwa [Scanner.errors_skip] at herrors,
      fun e he h => hbefore e he (h.trans hskip), fun R hagree => ?_⟩
    have hfront : ∀ e ∈ placed s.position (s.rest.take n), R e.2 = false := by
      intro e he
      have hlast := (Scanner.placed_skip hle).2 e he
      rw [hagree e.2 (not_before_of_mem_placed e he)]
      exact recorded_eq_false fun e' he' heq => hbefore e' he' (heq ▸ hlast)
    obtain ⟨hpicks, hrescans⟩ := hR R fun q hq => hagree q fun h => hq (h.trans hskip)
    exact ⟨hp.picks hfront hpicks, hp.rescans hfront hpicks hrescans⟩
  | @illegal s s₁ c cs ts s' hrest hc hrecord _ ih =>
    obtain ⟨es, herrors, hbefore, hR⟩ := ih hend
    have hs₁ := record_eq hrecord
    have hposition : s₁.position = s.position.after c := by
      rw [hs₁]
      exact Scanner.position_next (s := { s with errors := _ }) hrest
    have hrest₁ : s₁.rest = cs := by
      rw [hs₁, Scanner.rest_skip, hrest]
      rfl
    have hskip : s.position.Before s₁.position := by
      rw [hposition]
      exact s.position.before_after c
    have hlater {q : Position} (hq : ¬ q.Before s₁.position) : ¬ q.Before s.position :=
      fun h => hq (h.trans hskip)
    refine ⟨(c, s.position) :: es, ?_, ?_, fun R hagree => ?_⟩
    · rw [herrors, hs₁, Scanner.errors_skip, List.append_assoc]
      rfl
    · rw [List.forall_mem_cons]
      exact ⟨s.position.not_before_self, fun e he => hlater (hbefore e he)⟩
    · rw [List.map_cons] at hagree
      have hfirst : R s.position = true := by
        rw [hagree _ s.position.not_before_self, recorded_cons]
        simp
      obtain ⟨hpicks, hrescans⟩ := hR R fun q hq => by
        rw [hagree q (hlater hq), recorded_cons]
        have hne : s.position ≠ q := fun h => hq (h ▸ hskip)
        simp [hne]
      refine ⟨⟨?_, ?_⟩, rescans_illegal hrest hc.newline hfirst hposition hrest₁ hrescans⟩
      · have hfilter := hpicks.filter
        rw [hposition, hrest₁] at hfilter
        rw [hrest, placed, List.filter_cons, if_pos hfirst, hfilter]
      · rw [List.forall_mem_cons]
        exact ⟨hc.newline, hpicks.newline⟩

end

end Scan

/-- Recovering from illegal characters is the same as blanking them. Whenever the scanner gets to
the end of a text, its errors are about one character each, in the order of the text, and the text
with a space in the place of each of these characters has the same tokens, kind, value, line and
column, and no errors. -/
theorem tokenize_blanked (lang : Lang) (source : String) (ts : List Token) (ds : List Diagnostic)
    (h : tokenizeSafe lang source = .ok (ts, ds)) :
    tokenize lang (blanked ds source) = .ok ts ∧
      ds.length = (placed {} source.toList).countP (fun e => recorded ds e.2) ∧
      ds = ((placed {} source.toList).filter fun e => recorded ds e.2).map illegalCharacter := by
  unfold tokenizeSafe at h
  split at h
  · rename_i ts' s' hall
    cases h
    obtain ⟨us, hscan, hend, rfl⟩ := Scan.allTokens_iff.mp hall
    obtain ⟨es, herrors, -, hR⟩ := hscan.blanks hend
    rw [show (Scanner.ofSource source.toList).errors = [] from rfl, List.nil_append] at herrors
    obtain ⟨hpicks, hrescans⟩ := hR (recorded s'.errors) fun q _ => by rw [herrors]
    have hfilter : (placed {} source.toList).filter (fun e => recorded s'.errors e.2) = es :=
      hpicks.filter
    have hblanks : Scan.Blanks (recorded s'.errors) (.ofSource source.toList)
        (.ofSource (blanked s'.errors source).toList) := by
      constructor
      · rw [blanked, String.toList_ofList]
        rfl
      · rw [Scanner.position_ofSource, Scanner.position_ofSource]
    obtain ⟨t', hscan', hend', herrors', hlast⟩ := hrescans _ hblanks
    have hall' : Scan.allTokens lang (.ofSource (blanked s'.errors source).toList) =
        .ok (us ++ [s'.token (.eof, .none)]) t' := by
      rw [← Scanner.token_congr hlast]
      exact Scan.allTokens_iff.mpr ⟨us, hscan', hend', rfl⟩
    refine ⟨tokenize_eq_ok.mpr ⟨t', hall', herrors'⟩, ?_, ?_⟩
    · rw [List.countP_eq_length_filter, hfilter, herrors, List.length_map]
    · rw [hfilter, herrors]
  · cases h

/-- An illegal character in front of `!=`, and not part of it. -/
theorem tokenize_blanked_between :
    tokenizeSafe .english "x@!=1" =
        .ok ([⟨.identifier, .str "x", 1, 1⟩, ⟨.notEqual, .str "!=", 1, 3⟩, ⟨.number, .int 1, 1, 5⟩,
          ⟨.eof, .none, 1, 6⟩], [illegalCharacter ('@', ⟨1, 2⟩)]) ∧
      blanked [illegalCharacter ('@', ⟨1, 2⟩)] "x@!=1" = "x !=1" ∧
      tokenize .english (blanked [illegalCharacter ('@', ⟨1, 2⟩)] "x@!=1") =
        .ok [⟨.identifier, .str "x", 1, 1⟩, ⟨.notEqual, .str "!=", 1, 3⟩, ⟨.number, .int 1, 1, 5⟩,
          ⟨.eof, .none, 1, 6⟩] := by
  have h : tokenizeSafe .english "x@!=1" =
      .ok ([⟨.identifier, .str "x", 1, 1⟩, ⟨.notEqual, .str "!=", 1, 3⟩, ⟨.number, .int 1, 1, 5⟩,
        ⟨.eof, .none, 1, 6⟩], [illegalCharacter ('@', ⟨1, 2⟩)]) := by
    rfl
  exact ⟨h, by rfl, (tokenize_blanked .english _ _ _ h).1⟩

end Bhasha
