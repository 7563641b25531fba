import Bhasha.Proofs.TokensTaken

namespace Bhasha

open Text Lexeme

namespace Scanner

variable {s : Scanner}

/-- The token that starts here and looks like `f`. -/
def token (s : Scanner) (f : Face) : Token :=
  { kind := f.1, value := f.2, line := s.line, column := s.column }

/-- How many spaces and tabs come next. -/
def gapLength (s : Scanner) : Nat :=
  (s.rest.takeWhile isGap).length

theorem rest_next (s : Scanner) : s.next.rest = s.rest.drop 1 := by
  unfold next
  split
  · rename_i h
    rw [h]
    rfl
  · rename_i h
    rw [h]
    split <;> rfl

theorem errors_next (s : Scanner) : s.next.errors = s.errors := by
  unfold next
  split
  · rfl
  · split <;> rfl

@[simp] theorem rest_skip (n : Nat) (s : Scanner) : (s.skip n).rest = s.rest.drop n := by
  induction n generalizing s with
  | zero => rfl
  | succ n ih => rw [skip, ih, rest_next, List.drop_drop, Nat.add_comm 1 n]

@[simp] theorem errors_skip (n : Nat) (s : Scanner) : (s.skip n).errors = s.errors := by
  induction n generalizing s with
  | zero => rfl
  | succ n ih => rw [skip, ih, errors_next]

theorem skip_add (m n : Nat) (s : Scanner) : s.skip (m + n) = (s.skip m).skip n := by
  induction m generalizing s with
  | zero => rw [Nat.zero_add]; rfl
  | succ m ih => rw [Nat.succ_add, skip, ih]; rfl

theorem gapLength_cases (s : Scanner) :
    s.gapLength = 0 ∨
      ∃ c cs, s.rest = c :: cs ∧ isGap c = true ∧ s.gapLength = s.next.gapLength + 1 := by
  unfold gapLength
  rw [rest_next]
  cases hrest : s.rest with
  | nil => exact .inl rfl
  | cons c cs =>
    cases hc : isGap c with
    | false =>
      rw [List.takeWhile_cons_of_neg (by simp [hc])]
      exact .inl rfl
    | true =>
      rw [List.takeWhile_cons_of_pos hc]
      exact .inr ⟨c, cs, rfl, hc, rfl⟩

theorem rest_skip_gapLength (s : Scanner) : (s.skip s.gapLength).rest = s.rest.dropWhile isGap := by
  have hdrop := @List.drop_left _ (s.rest.takeWhile isGap) (s.rest.dropWhile isGap)
  rwa [List.takeWhile_append_dropWhile, ← gapLength, ← rest_skip] at hdrop

/-- No gap follows the gap. -/
theorem not_gap_of_mem_head? (s : Scanner) :
    ∀ c ∈ (s.skip s.gapLength).rest.head?, isGap c = false := by
  intro c hc
  have hnot := List.head?_dropWhile_not isGap s.rest
  rw [rest_skip_gapLength] at hc
  rwa [Option.mem_def.mp hc] at hnot

end Scanner

namespace Scan

/-- What stands at the front of a text: the kind and value of the token that it makes, if any, and
how many characters it takes. -/
inductive Piece : List Char → Option Face → Nat → Prop
  | gap {c cs} : isGap c = true → Piece (c :: cs) none 1
  | newline {cs} : Piece ('\n' :: cs) none 1
  | comment {cs lexeme} : comment? cs = some lexeme → Piece cs none lexeme.length
  | number {cs lexeme v} : number? cs = some lexeme → numberValue lexeme = .ok v →
    Piece cs (some (.number, v)) lexeme.length
  | string {q cs body n} : q = '"' ∨ q = '\'' → stringBody q cs = (body, n, true) →
    Piece (q :: cs) (some (.string, .str (String.ofList body))) (n + 2)
  | word {c cs lexeme} : isDigit c = false → identifier? (c :: cs) = some lexeme →
    Piece (c :: cs) (some (word (String.ofList lexeme) 1 1).face) lexeme.length
  | symbol {cs kind lexeme} : comment? cs = none → symbol? cs = some (kind, lexeme) →
    Piece cs (some (kind, .str (String.ofList lexeme))) lexeme.length

/-- A character that starts neither a gap nor a line, a number, a string or a word. -/
structure Plain (c : Char) : Prop where
  gap : isGap c = false
  newline : c ≠ '\n'
  digit : isDigit c = false
  quote : ¬ (c = '"' ∨ c = '\'')
  word : opensWord c = false

/-- A character that starts no piece at all. -/
structure Illegal (c : Char) (cs : List Char) : Prop extends Plain c where
  symbol : symbol? (c :: cs) = none

theorem number?_head {cs lexeme : List Char} (h : number? cs = some lexeme) :
    ∃ c cs', cs = c :: cs' ∧ isDigit c = true := by
  cases cs with
  | nil => simp [number?] at h
  | cons c cs =>
    refine ⟨c, cs, rfl, ?_⟩
    cases hc : isDecimal c with
    | true => rw [isDigit, hc, Bool.true_or]
    | false => simp [number?, hc] at h

theorem comment?_head {cs lexeme : List Char} (h : comment? cs = some lexeme) :
    ∃ cs', cs = '/' :: '/' :: cs' := by
  unfold comment? at h
  split at h
  · exact ⟨_, rfl⟩
  · cases h

theorem comment?_cons {c : Char} {cs : List Char} (h : c ≠ '/') : comment? (c :: cs) = none := by
  cases hc : comment? (c :: cs) with
  | none => rfl
  | some lexeme =>
    obtain ⟨cs', hcs⟩ := comment?_head hc
    cases hcs
    contradiction

theorem ofPair?_ok {c d : Char} {k : TokenKind} (h : TokenKind.ofPair? c d = some k) :
    Plain c ∧ k.isFixed = true ∧ k.spelling = String.ofList [c, d] := by
  unfold TokenKind.ofPair? at h
  split at h <;> cases h
  all_goals exact ⟨⟨by decide, by decide, by decide, by decide, by decide⟩, rfl, rfl⟩

theorem ofChar?_ok {c : Char} {k : TokenKind} (h : TokenKind.ofChar? c = some k) :
    Plain c ∧ k.isFixed = true ∧ k.spelling = String.ofList [c] := by
  unfold TokenKind.ofChar? at h
  split at h <;> cases h
  all_goals exact ⟨⟨by decide, by decide, by decide, by decide, by decide⟩, rfl, rfl⟩

theorem symbol?_ok {cs lexeme : List Char} {k : TokenKind} (h : symbol? cs = some (k, lexeme)) :
    ∃ c cs', cs = c :: cs' ∧ Plain c ∧ k.isFixed = true ∧
      k.spelling = String.ofList lexeme ∧ lexeme <+: cs ∧ lexeme ≠ [] := by
  have hsingle {c : Char} {cs : List Char}
      (h : (TokenKind.ofChar? c).map (·, [c]) = some (k, lexeme)) :
      Plain c ∧ k.isFixed = true ∧ k.spelling = String.ofList lexeme ∧ lexeme <+: c :: cs ∧
        lexeme ≠ [] := by
    obtain ⟨k', hk', heq⟩ := Option.map_eq_some_iff.mp h
    cases heq
    obtain ⟨hc, hk, hs⟩ := ofChar?_ok hk'
    exact ⟨hc, hk, hs, by simp, nofun⟩
  unfold symbol? at h
  split at h
  · split at h
    · rename_i hpair
      cases h
      obtain ⟨hc, hk, hs⟩ := ofPair?_ok hpair
      exact ⟨_, _, rfl, hc, hk, hs, by simp, nofun⟩
    · exact ⟨_, _, rfl, hsingle h⟩
  · exact ⟨_, _, rfl, hsingle h⟩
  · cases h

theorem identifier?_ok {c : Char} {cs lexeme : List Char}
    (h : identifier? (c :: cs) = some lexeme) :
    startsName c = true ∧ lexeme = c :: cs.takeWhile continuesName := by
  rw [identifier?] at h
  split at h
  · cases h
    exact ⟨‹_›, rfl⟩
  · cases h

theorem opensWord_of_startsName {c : Char} (h : startsName c = true) : opensWord c = true := by
  have hle : ∀ a b : Char, a ≤ b ↔ a.toNat ≤ b.toNat := fun _ _ => Iff.rfl
  have hascii : isAsciiLetter c = true → lettersBelowDevanagari.has c = true := by
    intro h
    simp only [isAsciiLetter, Bool.or_eq_true, Bool.and_eq_true, decide_eq_true_eq, hle] at h
    have hranges : (0x61, 0x7a) ∈ lettersBelowDevanagari ∧
        (0x41, 0x5a) ∈ lettersBelowDevanagari := by decide
    rw [Ranges.has, List.any_eq_true]
    rcases h with h | h
    · exact ⟨_, hranges.1, by simpa using h⟩
    · exact ⟨_, hranges.2, by simpa using h⟩
  simp only [startsName, Bool.or_eq_true, Bool.and_eq_true] at h
  rw [opensWord]
  rcases h with (h | h) | ⟨h, -⟩
  · rw [hascii h, Bool.or_true]
  · rw [h, Bool.or_true, Bool.true_or]
  · rw [h, Bool.true_or, Bool.true_or]

theorem stringBody_length {q : Char} {cs body : List Char} {n : Nat}
    (h : stringBody q cs = (body, n, true)) : n < cs.length := by
  fun_induction stringBody q cs generalizing body n with
  | case1 => cases h
  | case2 c cs r m closed hr ih =>
    cases h
    have hlt := ih hr
    simp only [List.length_cons]
    omega
  | case3 =>
    cases h
    exact Nat.succ_pos _
  | case4 => cases h
  | case5 c cs _ _ _ r m closed hr ih =>
    cases h
    have hlt := ih hr
    simp only [List.length_cons]
    omega

theorem number?_prefix {cs lexeme : List Char} (h : number? cs = some lexeme) :
    lexeme <+: cs ∧ lexeme ≠ [] := by
  have hcs := @List.takeWhile_append_dropWhile _ isDecimal cs
  simp only [number?] at h
  split at h
  · cases h
  · rename_i hwhole
    have hne : cs.takeWhile isDecimal ≠ [] := by simpa using hwhole
    split at h
    · rename_i cs' hdrop
      cases h
      have hpre : cs.takeWhile isDecimal ++ '.' :: cs'.takeWhile isDecimal <+:
          cs.takeWhile isDecimal ++ '.' :: cs' := by simp [List.takeWhile_prefix]
      rw [← hdrop, hcs] at hpre
      exact ⟨hpre, by simp⟩
    · cases h
      exact ⟨List.takeWhile_prefix _, hne⟩

theorem Piece.length {cs : List Char} {f : Option Face} {n : Nat} (h : Piece cs f n) :
    0 < n ∧ n ≤ cs.length := by
  have hpre {lexeme : List Char} (h : lexeme <+: cs) (hne : lexeme ≠ []) :
      0 < lexeme.length ∧ lexeme.length ≤ cs.length :=
    ⟨List.length_pos_of_ne_nil hne, h.length_le⟩
  cases h with
  | gap | newline => simp
  | comment hc =>
    obtain ⟨cs', rfl⟩ := comment?_head hc
    cases hc
    exact hpre (by simp [List.takeWhile_prefix]) nofun
  | number hlexeme _ =>
    obtain ⟨h, hne⟩ := number?_prefix hlexeme
    exact hpre h hne
  | string _ hbody =>
    have hlt := stringBody_length hbody
    rw [List.length_cons]
    omega
  | word _ hlexeme =>
    obtain ⟨-, rfl⟩ := identifier?_ok hlexeme
    exact hpre (by simp [List.takeWhile_prefix]) nofun
  | symbol _ hsymbol =>
    obtain ⟨c, cs, rfl, -, -, -, h, hne⟩ := symbol?_ok hsymbol
    exact hpre h hne

theorem Piece.of_gap {c : Char} {cs : List Char} {f : Option Face} {n : Nat} (hc : isGap c = true)
    (h : Piece (c :: cs) f n) : f = none ∧ n = 1 := by
  have hdigit : isDigit c = false := by
    have hc : c = ' ' ∨ c = '\t' := by simpa [isGap] using hc
    rcases hc with rfl | rfl <;> decide
  cases h with
  | gap | newline => exact ⟨rfl, rfl⟩
  | comment hlexeme =>
    obtain ⟨cs', hcs⟩ := comment?_head hlexeme
    cases hcs
    cases hc
  | number hlexeme =>
    obtain ⟨c', cs', hcs, hd⟩ := number?_head hlexeme
    cases hcs
    rw [hdigit] at hd
    cases hd
  | string hq =>
    rcases hq with rfl | rfl <;> cases hc
  | word _ hlexeme =>
    have hstart := (identifier?_ok hlexeme).1
    have hc : c = ' ' ∨ c = '\t' := by simpa [isGap] using hc
    rcases hc with rfl | rfl <;> exact absurd hstart (by decide)
  | symbol _ hsymbol =>
    obtain ⟨c', cs', hcs, hplain, -⟩ := symbol?_ok hsymbol
    cases hcs
    rw [hplain.gap] at hc
    cases hc

/-- What a turn does behind the gap. -/
def dispatch (lang : Lang) : List Char → Scan (Option Token)
  | [] => return none
  | '/' :: '/' :: _ => do skipComment; return none
  | '\n' :: _ => do advance 1; return none
  | c :: cs =>
    if isDigit c then some <$> number lang
    else if c == '"' || c == '\'' then some <$> string lang
    else if opensWord c then some <$> identifier lang
    else if (symbol? (c :: cs)).isSome then some <$> operator lang
    else do record lang (unexpected (some c)); return none

section

variable {lang : Lang} {s s₁ : Scanner} {t : Token} {c : Char} {cs : List Char}

theorem skipGap_run (s : Scanner) : skipGap s = .ok () (s.skip s.gapLength) := by
  have hmatch : match? .whitespace s = .ok (gap? s.rest) s := rfl
  rw [skipGap, bind_of_ok hmatch, gap?, Scanner.gapLength]
  cases s.rest.takeWhile isGap <;> rfl

theorem skipComment_run {lexeme : List Char} (h : comment? s.rest = some lexeme) :
    skipComment s = .ok () (s.skip lexeme.length) := by
  have hmatch : match? .comment s = .ok (comment? s.rest) s := rfl
  rw [skipComment, bind_of_ok hmatch, h]
  rfl

theorem turn_eq (lang : Lang) (s : Scanner) :
    turn lang s = dispatch lang (s.skip s.gapLength).rest (s.skip s.gapLength) :=
  bind_of_ok (skipGap_run s)

theorem get_run : (get : Scan Scanner) s = .ok s s :=
  rfl

theorem fail_ne_ok {α : Type} {m : String} {a : α} : fail lang m s ≠ .ok a s₁ := by
  intro h
  obtain ⟨d, s₂, -, h⟩ := bind_eq_ok h
  cases h

theorem number_eq (lang : Lang) (s : Scanner) :
    number lang s = match number? s.rest with
      | none => fail lang "Expected number" s
      | some lexeme => match numberValue lexeme with
        | .ok v => .ok (s.token (.number, v)) (s.skip lexeme.length)
        | .error f => .error (.fault f) (s.skip lexeme.length) := by
  rw [number, bind_of_ok get_run]
  cases number? s.rest with
  | none => rfl
  | some lexeme =>
    dsimp only
    cases numberValue lexeme <;> rfl

theorem identifier_eq (lang : Lang) (s : Scanner) :
    identifier lang s = match identifier? s.rest with
      | none => fail lang "Expected identifier" s
      | some lexeme =>
        .ok (s.token (word (String.ofList lexeme) 1 1).face) (s.skip lexeme.length) := by
  rw [identifier, bind_of_ok get_run]
  cases identifier? s.rest with
  | none => rfl
  | some lexeme =>
    have hword : word (String.ofList lexeme) s.line s.column =
        s.token (word (String.ofList lexeme) 1 1).face := by
      unfold word
      split <;> rfl
    dsimp only
    rw [hword]
    rfl

theorem operator_eq (lang : Lang) (s : Scanner) :
    operator lang s = match symbol? s.rest with
      | some (kind, lexeme) =>
        .ok (s.token (kind, .str (String.ofList lexeme))) (s.skip lexeme.length)
      | none => fail lang (unexpected s.current?) s := by
  rw [operator, bind_of_ok get_run]
  cases symbol? s.rest <;> rfl

theorem string_eq (lang : Lang) {s : Scanner} {q : Char} {cs : List Char} (h : s.rest = q :: cs)
    (hq : q = '"' ∨ q = '\'') :
    string lang s = match stringBody q cs with
      | (body, n, true) =>
        .ok (s.token (.string, .str (String.ofList body))) (s.skip (n + 2))
      | (_, n, false) =>
        fail lang s!"Unterminated string (missing closing {q})" (s.skip (n + 1)) := by
  have hquote : (q != '"' && q != '\'') = false := by rcases hq with rfl | rfl <;> rfl
  rw [string, bind_of_ok get_run, h]
  simp only [hquote]
  obtain ⟨body, n, closed⟩ := stringBody q cs
  cases closed with
  | false => rfl
  | true =>
    dsimp only
    rw [Scanner.skip_add (n + 1) 1]
    rfl

/-- From `s`, the piece at the front was read and made the token `t`. -/
def ReadsPiece (s : Scanner) (t : Token) (s₁ : Scanner) : Prop :=
  ∃ f n, Piece s.rest (some f) n ∧ t = s.token f ∧ s₁ = s.skip n

theorem number_ok (h : number lang s = .ok t s₁) : ReadsPiece s t s₁ := by
  rw [number_eq] at h
  split at h
  · exact absurd h fail_ne_ok
  · split at h
    · cases h
      exact ⟨_, _, .number ‹_› ‹_›, rfl, rfl⟩
    · cases h

theorem string_ok (hrest : s.rest = c :: cs) (hc : c = '"' ∨ c = '\'')
    (h : string lang s = .ok t s₁) : ReadsPiece s t s₁ := by
  rw [string_eq lang hrest hc] at h
  split at h
  · cases h
    exact ⟨_, _, hrest ▸ .string hc ‹_›, rfl, rfl⟩
  · exact absurd h fail_ne_ok

theorem identifier_ok (hrest : s.rest = c :: cs) (hc : isDigit c = false)
    (h : identifier lang s = .ok t s₁) : ReadsPiece s t s₁ := by
  rw [identifier_eq, hrest] at h
  split at h
  · exact absurd h fail_ne_ok
  · cases h
    exact ⟨_, _, hrest ▸ .word hc ‹_›, rfl, rfl⟩

theorem operator_ok (hc : comment? s.rest = none) (h : operator lang s = .ok t s₁) :
    ReadsPiece s t s₁ := by
  rw [operator_eq] at h
  split at h
  · cases h
    exact ⟨_, _, .symbol hc ‹_›, rfl, rfl⟩
  · exact absurd h fail_ne_ok

theorem dispatch_cons (hn : c ≠ '\n') (hc : comment? (c :: cs) = none) :
    dispatch lang (c :: cs) =
      if isDigit c then some <$> number lang
      else if c == '"' || c == '\'' then some <$> string lang
      else if opensWord c then some <$> identifier lang
      else if (symbol? (c :: cs)).isSome then some <$> operator lang
      else do record lang (unexpected (some c)); return none := by
  unfold dispatch
  split
  · contradiction
  · rename_i heq
    rw [heq] at hc
    cases hc
  · rename_i heq
    cases heq
    contradiction
  · rename_i heq
    cases heq
    rfl

/-- All that a turn can do behind the gap. -/
theorem dispatch_ok {t? : Option Token} (hgap : ∀ c ∈ s.rest.head?, isGap c = false)
    (h : dispatch lang s.rest s = .ok t? s₁) :
    (s.rest = [] ∧ t? = none ∧ s₁ = s) ∨
      (∃ f n, Piece s.rest f n ∧ t? = f.map s.token ∧ s₁ = s.skip n) ∨
      ∃ c cs, s.rest = c :: cs ∧ Illegal c cs ∧ t? = none ∧
        record lang (unexpected (some c)) s = .ok () s₁ := by
  have htoken {p : Scan Token} (h : (some <$> p) s = .ok t? s₁)
      (hp : ∀ t, p s = .ok t s₁ → ReadsPiece s t s₁) :
      ∃ f n, Piece s.rest f n ∧ t? = f.map s.token ∧ s₁ = s.skip n := by
    obtain ⟨t, ht, rfl⟩ := map_eq_ok h
    obtain ⟨f, n, hpiece, rfl, hs⟩ := hp t ht
    exact ⟨some f, n, hpiece, rfl, hs⟩
  cases hrest : s.rest with
  | nil =>
    rw [hrest] at h
    cases h
    exact .inl ⟨rfl, rfl, rfl⟩
  | cons c cs =>
    rw [hrest] at h
    rw [← hrest]
    -- The tests are made in this order; the first that holds settles the piece.
    by_cases hn : c = '\n'
    · subst hn
      cases h
      exact .inr (.inl ⟨none, 1, hrest ▸ .newline, rfl, rfl⟩)
    cases hc : comment? (c :: cs) with
    | some lexeme =>
      obtain ⟨cs', hcs⟩ := comment?_head hc
      rw [hcs] at h
      obtain ⟨u, s₂, hskip, h⟩ := bind_eq_ok h
      rw [skipComment_run (hrest ▸ hc)] at hskip
      cases hskip
      cases h
      exact .inr (.inl ⟨none, _, .comment (hrest ▸ hc), rfl, rfl⟩)
    | none =>
      rw [dispatch_cons hn hc] at h
      rcases ite_ok h with ⟨-, h⟩ | ⟨hd, h⟩
      · exact .inr (.inl (htoken h fun t => number_ok))
      rcases ite_ok h with ⟨hq, h⟩ | ⟨hq, h⟩
      · have hq : c = '"' ∨ c = '\'' := by simpa using hq
        exact .inr (.inl (htoken h fun t => string_ok hrest hq))
      rcases ite_ok h with ⟨-, h⟩ | ⟨hw, h⟩
      · exact .inr (.inl (htoken h fun t => identifier_ok hrest hd))
      rcases ite_ok h with ⟨-, h⟩ | ⟨hs, h⟩
      · exact .inr (.inl (htoken h fun t => operator_ok (hrest ▸ hc)))
      · obtain ⟨u, s₂, hrecord, h⟩ := bind_eq_ok h
        obtain ⟨rfl, rfl⟩ := pure_ok h
        refine .inr (.inr ⟨c, cs, hrest, ?_, rfl, hrecord⟩)
        exact ⟨⟨hgap c (by rw [hrest]; rfl), hn, hd, by simpa using hq, hw⟩, by simpa using hs⟩

theorem dispatch_comment {lexeme : List Char} (h : comment? s.rest = some lexeme) :
    dispatch lang s.rest s = .ok none (s.skip lexeme.length) := by
  obtain ⟨cs, hcs⟩ := comment?_head h
  rw [hcs]
  exact bind_of_ok (skipComment_run h)

theorem dispatch_of_digit (hc : isDigit c = true) :
    dispatch lang (c :: cs) = some <$> number lang := by
  have hn : c ≠ '\n' := fun h => absurd hc (by rw [h]; decide)
  have hs : c ≠ '/' := fun h => absurd hc (by rw [h]; decide)
  rw [dispatch_cons hn (comment?_cons hs), if_pos hc]

theorem dispatch_of_quote (hc : c = '"' ∨ c = '\'') :
    dispatch lang (c :: cs) = some <$> string lang := by
  have hn : c ≠ '\n' := fun h => absurd hc (by rw [h]; decide)
  have hs : c ≠ '/' := fun h => absurd hc (by rw [h]; decide)
  have hd : isDigit c = false := by rcases hc with rfl | rfl <;> decide
  rw [dispatch_cons hn (comment?_cons hs), hd, if_neg Bool.false_ne_true,
    if_pos (by simpa using hc)]

theorem dispatch_of_opener (hd : isDigit c = false) (hw : opensWord c = true) :
    dispatch lang (c :: cs) = some <$> identifier lang := by
  have hn : c ≠ '\n' := fun h => absurd hw (by rw [h]; decide)
  have hs : c ≠ '/' := fun h => absurd hw (by rw [h]; decide)
  have hq : ¬ (c == '"' || c == '\'') = true := fun h => by
    have h : c = '"' ∨ c = '\'' := by simpa using h
    rcases h with rfl | rfl <;> exact absurd hw (by decide)
  rw [dispatch_cons hn (comment?_cons hs), hd, if_neg Bool.false_ne_true, if_neg hq, if_pos hw]

theorem dispatch_number {lexeme : List Char} {v : Scalar} (h : number? s.rest = some lexeme)
    (hv : numberValue lexeme = .ok v) :
    dispatch lang s.rest s = .ok (some (s.token (.number, v))) (s.skip lexeme.length) := by
  obtain ⟨c, cs, hcs, hc⟩ := number?_head h
  rw [hcs, dispatch_of_digit hc]
  refine map_of_ok ?_
  rw [number_eq, h]
  dsimp only
  rw [hv]

theorem dispatch_string {body : List Char} {n : Nat} (hrest : s.rest = c :: cs)
    (hc : c = '"' ∨ c = '\'') (h : stringBody c cs = (body, n, true)) :
    dispatch lang s.rest s =
      .ok (some (s.token (.string, .str (String.ofList body)))) (s.skip (n + 2)) := by
  rw [hrest, dispatch_of_quote hc]
  refine map_of_ok ?_
  rw [string_eq lang hrest hc, h]

theorem dispatch_word {lexeme : List Char} (hrest : s.rest = c :: cs) (hd : isDigit c = false)
    (h : identifier? (c :: cs) = some lexeme) :
    dispatch lang s.rest s =
      .ok (some (s.token (word (String.ofList lexeme) 1 1).face)) (s.skip lexeme.length) := by
  rw [hrest, dispatch_of_opener hd (opensWord_of_startsName (identifier?_ok h).1)]
  refine map_of_ok ?_
  rw [identifier_eq, hrest, h]

theorem dispatch_plain (h : Plain c) (hc : comment? (c :: cs) = none) :
    dispatch lang (c :: cs) =
      if (symbol? (c :: cs)).isSome then some <$> operator lang
      else do record lang (unexpected (some c)); return none := by
  have hq : ¬ (c == '"' || c == '\'') = true := by simpa using h.quote
  rw [dispatch_cons h.newline hc, h.digit, if_neg Bool.false_ne_true, if_neg hq, h.word,
    if_neg Bool.false_ne_true]

theorem dispatch_symbol {k : TokenKind} {lexeme : List Char} (hc : comment? s.rest = none)
    (h : symbol? s.rest = some (k, lexeme)) :
    dispatch lang s.rest s =
      .ok (some (s.token (k, .str (String.ofList lexeme)))) (s.skip lexeme.length) := by
  obtain ⟨c, cs, hcs, hplain, -⟩ := symbol?_ok h
  have hsome : (symbol? (c :: cs)).isSome = true := by rw [← hcs, h]; rfl
  rw [hcs] at hc
  rw [hcs, dispatch_plain hplain hc, if_pos hsome]
  refine map_of_ok ?_
  rw [operator_eq, h]

theorem dispatch_piece {f : Option Face} {n : Nat} (hgap : ∀ c ∈ s.rest.head?, isGap c = false)
    (h : Piece s.rest f n) : dispatch lang s.rest s = .ok (f.map s.token) (s.skip n) := by
  obtain ⟨r, hrest⟩ : ∃ r, s.rest = r := ⟨_, rfl⟩
  rw [hrest] at h hgap
  cases h with
  | @gap c _ hc =>
    rw [hgap c rfl] at hc
    cases hc
  | newline =>
    rw [hrest]
    rfl
  | comment hc => exact dispatch_comment (hrest ▸ hc)
  | number h hv => exact dispatch_number (hrest ▸ h) hv
  | string hq h => exact dispatch_string hrest hq h
  | word hd h => exact dispatch_word hrest hd h
  | symbol hc h => exact dispatch_symbol (hrest ▸ hc) (hrest ▸ h)

theorem dispatch_illegal (hrest : s.rest = c :: cs) (h : Illegal c cs)
    (hrecord : record lang (unexpected (some c)) s = .ok () s₁) :
    dispatch lang s.rest s = .ok none s₁ := by
  have hs : c ≠ '/' := by
    rintro rfl
    have hsymbol := h.symbol
    cases cs <;> simp [symbol?, TokenKind.ofPair?, TokenKind.ofChar?] at hsymbol
  rw [hrest, dispatch_plain h.toPlain (comment?_cons hs), h.symbol, if_neg (by simp)]
  exact bind_of_ok hrecord

end

theorem keyword_spelling {p : String × TokenKind} (h : p ∈ TokenKind.keywords) :
    p.2 = .boolean ∨ p.2.isFixed = true ∧ p.1 = p.2.spelling := by
  revert p
  decide

theorem fits_word (x : String) (l c : Nat) : (word x l c).Fits ∧ (word x l c).kind ≠ .eof := by
  unfold word
  split
  · exact ⟨⟨_, rfl⟩, nofun⟩
  · rename_i k hk hlookup
    obtain ⟨l₁, l₂, hmem, -⟩ := List.lookup_eq_some_iff.mp hlookup
    have hkey := keyword_spelling (p := (x, k)) (by rw [hmem]; simp)
    rcases hkey with rfl | ⟨hfixed, hx⟩
    · exact absurd rfl hk
    · refine ⟨Token.fits_of_is ⟨rfl, by rw [← hx]⟩ hfixed, ?_⟩
      rintro rfl
      cases hfixed
  · exact ⟨⟨_, rfl⟩, nofun⟩

theorem Piece.fits {cs : List Char} {f : Face} {n : Nat} (h : Piece cs (some f) n) (s : Scanner) :
    (s.token f).Fits ∧ (s.token f).kind ≠ .eof := by
  cases h with
  | number _ hv =>
    refine ⟨?_, nofun⟩
    unfold numberValue at hv
    split at hv
    · cases hv
      exact .inr ⟨_, rfl⟩
    · split at hv
      · cases hv
      · cases hv
        exact .inl ⟨_, rfl⟩
  | string => exact ⟨⟨_, rfl⟩, nofun⟩
  | word => exact fits_word _ 1 1
  | @symbol _ k _ _ hsymbol =>
    obtain ⟨c, cs, rfl, -, hfixed, hs, -⟩ := symbol?_ok hsymbol
    refine ⟨Token.fits_of_is ⟨rfl, congrArg _ hs.symm⟩ hfixed, ?_⟩
    change k ≠ .eof
    rintro rfl
    cases hfixed

end Scan

end Bhasha
