import Mathlib
import Bhasha.Proofs.SourceLines
import Bhasha.Proofs.StmtSoundness
import Bhasha.Proofs.TokenScanning

namespace Bhasha

open Text Lexeme

namespace Scan

/-- Nothing is left, or a new line begins. -/
def Breaks (z : List Char) : Prop :=
  ∀ c ∈ z.head?, c = '\n'

section

variable {p : Char → Bool} {cs z : List Char}

theorem takeWhile_append_breaks (hz : Breaks z) (hp : p '\n' = false) :
    (cs ++ z).takeWhile p = cs.takeWhile p := by
  induction cs with
  | nil =>
    cases z with
    | nil => rfl
    | cons c z =>
      rw [hz c rfl, List.nil_append]
      exact List.takeWhile_cons_of_neg (by simp [hp])
  | cons c cs ih => rw [List.cons_append, List.takeWhile_cons, List.takeWhile_cons, ih]

theorem dropWhile_append_breaks (hz : Breaks z) (hp : p '\n' = false) :
    (cs ++ z).dropWhile p = cs.dropWhile p ++ z := by
  induction cs with
  | nil =>
    cases z with
    | nil => rfl
    | cons c z =>
      rw [hz c rfl, List.nil_append]
      exact List.dropWhile_cons_of_neg (by simp [hp])
  | cons c cs ih =>
    rw [List.cons_append, List.dropWhile_cons, List.dropWhile_cons, ih]
    split <;> rfl

theorem comment?_append (hz : Breaks z) (hcs : cs ≠ []) : comment? (cs ++ z) = comment? cs := by
  cases hc : comment? cs with
  | some lexeme =>
    obtain ⟨cs', rfl⟩ := comment?_head hc
    rw [← hc, List.cons_append, List.cons_append, comment?, comment?,
      takeWhile_append_breaks hz (by decide)]
  | none =>
    cases hc' : comment? (cs ++ z) with
    | none => rfl
    | some lexeme =>
      obtain ⟨cs', hcs'⟩ := comment?_head hc'
      -- The two slashes would lie in `cs`, or the second one would be the break.
      match cs, hcs with
      | [c], _ =>
        obtain ⟨-, rfl⟩ := List.cons.inj hcs'
        exact absurd (hz '/' rfl) (by decide)
      | c :: d :: cs, _ =>
        obtain ⟨rfl, hd⟩ := List.cons.inj hcs'
        obtain ⟨rfl, -⟩ := List.cons.inj hd
        cases hc

theorem number?_append (hz : Breaks z) : number? (cs ++ z) = number? cs := by
  have hdigit : isDecimal '\n' = false := by decide
  rw [number?, number?, takeWhile_append_breaks hz hdigit, dropWhile_append_breaks hz hdigit]
  cases cs.dropWhile isDecimal with
  | nil =>
    cases z with
    | nil => rfl
    | cons c z => rw [hz c rfl]; rfl
  | cons c cs' =>
    by_cases hc : c = '.'
    · subst hc
      simp only [List.cons_append, takeWhile_append_breaks hz hdigit]
    · simp [hc]

theorem identifier?_append {c : Char} (hz : Breaks z) :
    identifier? (c :: cs ++ z) = identifier? (c :: cs) := by
  rw [List.cons_append, identifier?, identifier?, takeWhile_append_breaks hz (by decide)]

theorem symbol?_append (hz : Breaks z) (hcs : cs ≠ []) : symbol? (cs ++ z) = symbol? cs := by
  match cs, hcs with
  | [c], _ =>
    cases z with
    | nil => rfl
    | cons d z =>
      have hpair : TokenKind.ofPair? c '\n' = none := by
        unfold TokenKind.ofPair?
        split <;> simp_all
      rw [hz d rfl, List.singleton_append, symbol?, symbol?, hpair]
  | c :: d :: cs, _ => rfl

theorem stringBody_cons {q c : Char} (hc : c ≠ '\\') :
    stringBody q (c :: cs) = if c == q then ([], 0, true) else
      (c :: (stringBody q cs).1, (stringBody q cs).2.1 + 1, (stringBody q cs).2.2) := by
  have hslash : (c == '\\') = false := by simpa using hc
  rw [stringBody]
  · rw [hslash]
    rfl
  · rintro d ds rfl
    exact absurd rfl hc

theorem stringBody_append {q : Char} {body : List Char} {n : Nat} (hq : q ≠ '\\')
    (h : stringBody q cs = (body, n, true)) : stringBody q (cs ++ z) = (body, n, true) := by
  fun_induction stringBody q cs generalizing body n with
  | case1 => cases h
  | case2 c cs r m closed hr ih =>
    cases h
    rw [List.cons_append, List.cons_append, stringBody, ih hr]
  | case3 c cs hesc hc =>
    cases h
    obtain rfl := eq_of_beq hc
    rw [List.cons_append, stringBody_cons hq, if_pos hc]
  | case4 => cases h
  | case5 c cs hesc hc hslash r m closed hr ih =>
    cases h
    rw [List.cons_append, stringBody_cons (by simpa using hslash), if_neg hc, ih hr]

theorem Piece.append {f : Option Face} {n : Nat} (hz : Breaks z) (h : Piece cs f n) :
    Piece (cs ++ z) f n := by
  have hne : cs ≠ [] := by
    rintro rfl
    have hlen := h.length
    rw [List.length_nil] at hlen
    omega
  cases h with
  | gap hc => exact .gap hc
  | newline => exact .newline
  | comment hc => exact .comment (by rwa [comment?_append hz hne])
  | number hlexeme hv => exact .number (by rwa [number?_append hz]) hv
  | string hq hbody =>
    exact .string hq (stringBody_append (by rcases hq with rfl | rfl <;> decide) hbody)
  | word hd hlexeme =>
    rw [← identifier?_append hz] at hlexeme
    exact .word hd hlexeme
  | symbol hc hsymbol =>
    exact .symbol (by rwa [comment?_append hz hne]) (by rwa [symbol?_append hz hne])

end

/-- The one stands `k` lines below the other, and `z` follows what is left for the other. -/
structure Extends (k : Nat) (z : List Char) (s s' : Scanner) : Prop where
  rest : s'.rest = s.rest ++ z
  line : s'.line = s.line + k
  column : s'.column = s.column
  errors : s'.errors = s.errors

section

variable {lang : Lang} {k : Nat} {z : List Char} {s s' t t' : Scanner} {ts : List Token}

theorem Extends.next (h : Extends k z s s') (hs : s.rest ≠ []) : Extends k z s.next s'.next := by
  obtain ⟨c, cs, hcs⟩ := List.exists_cons_of_ne_nil hs
  have hrest := h.rest
  rw [hcs, List.cons_append] at hrest
  have hline := h.line
  simp only [Scanner.next, hcs, hrest]
  split
  · exact ⟨rfl, by dsimp only; omega, rfl, h.errors⟩
  · exact ⟨rfl, hline, congrArg (· + 1) h.column, h.errors⟩

theorem Extends.skip {n : Nat} {s s' : Scanner} (h : Extends k z s s') (hn : n ≤ s.rest.length) :
    Extends k z (s.skip n) (s'.skip n) := by
  induction n generalizing s s' with
  | zero => exact h
  | succ n ih =>
    have hs : s.rest ≠ [] := List.length_pos_iff.mp (by omega)
    refine ih (h.next hs) ?_
    rw [Scanner.rest_next, List.length_drop]
    omega

theorem Extends.token (h : Extends k z s s') (f : Face) :
    s'.token f = (s.token f).mapLine (· + k) := by
  rw [Scanner.token, h.line, h.column]
  rfl

theorem Scanned.errors (h : Scanned lang s ts t) : s.errors <+: t.errors := by
  induction h with
  | done => exact List.prefix_rfl
  | piece _ _ ih => rwa [Scanner.errors_skip] at ih
  | @illegal s s₁ _ _ _ _ _ _ hrecord _ ih =>
    obtain ⟨d, rfl⟩ := record_ok hrecord
    rw [Scanner.errors_skip] at ih
    exact (List.prefix_append s.errors [d]).trans ih

/-- The same pieces are read in both places. -/
theorem Scanned.extends (h : Scanned lang s ts t) (ht : t.errors = []) (hz : Breaks z)
    (hs : Extends k z s s') :
    ∃ t', Extends k z t t' ∧ Scanned lang s' (ts.map (Token.mapLine (· + k))) t' := by
  induction h generalizing s' with
  | done => exact ⟨s', hs, .done⟩
  | @piece s f n ts t hp _ ih =>
    obtain ⟨t', ht', hscan⟩ := ih ht (hs.skip hp.length.2)
    refine ⟨t', ht', ?_⟩
    have hp' : Piece s'.rest f n := hs.rest ▸ hp.append hz
    have hall := Scanned.piece hp' hscan
    cases f with
    | none => exact hall
    | some f =>
      rw [Option.map_some, hs.token] at hall
      exact hall
  | illegal _ _ hrecord h _ =>
    obtain ⟨d, rfl⟩ := record_ok hrecord
    have herrors := h.errors
    rw [ht, Scanner.errors_skip, List.prefix_nil] at herrors
    simp at herrors

/-- The line goes up by one with each line break. -/
theorem line_next (s : Scanner) :
    s.next.line + s.next.rest.count '\n' = s.line + s.rest.count '\n' := by
  unfold Scanner.next
  split
  · rfl
  · rename_i c cs hrest
    rw [hrest, List.count_cons]
    split
    · dsimp only
      omega
    · rfl

theorem line_skip (n : Nat) (s : Scanner) :
    (s.skip n).line + (s.skip n).rest.count '\n' = s.line + s.rest.count '\n' := by
  induction n generalizing s with
  | zero => rfl
  | succ n ih => rw [Scanner.skip, ih, line_next]

theorem Scanned.line (h : Scanned lang s ts t) :
    t.line + t.rest.count '\n' = s.line + s.rest.count '\n' := by
  induction h with
  | done => rfl
  | piece _ _ ih => rw [ih, line_skip]
  | illegal _ _ hrecord _ ih =>
    obtain ⟨d, rfl⟩ := record_ok hrecord
    rw [ih, line_skip]

end

end Scan

theorem tokenize_append {lang : Lang} {s₁ s₂ : String} {ts us : List Token} {t u : Token}
    (h₁ : tokenize lang s₁ = .ok (ts ++ [t])) (h₂ : tokenize lang s₂ = .ok (us ++ [u])) :
    ∃ last : Token, last.kind = .eof ∧ tokenize lang (s₁ ++ "\n" ++ s₂) =
      .ok (ts ++ us.map (Token.mapLine (· + (s₁.toList.count '\n' + 1))) ++ [last]) := by
  obtain ⟨a, hall₁, herr₁⟩ := tokenize_eq_ok.mp h₁
  obtain ⟨ts', hscan₁, hend₁, hts⟩ := Scan.allTokens_iff.mp hall₁
  obtain ⟨rfl, -⟩ := List.append_inj' hts rfl
  obtain ⟨b, hall₂, herr₂⟩ := tokenize_eq_ok.mp h₂
  obtain ⟨us', hscan₂, hend₂, hus⟩ := Scan.allTokens_iff.mp hall₂
  obtain ⟨rfl, -⟩ := List.append_inj' hus rfl
  -- The first text is read as before, up to the break.
  have hstart : Scan.Extends 0 ('\n' :: s₂.toList) (.ofSource s₁.toList)
      (.ofSource (s₁ ++ "\n" ++ s₂).toList) := by
    refine ⟨?_, rfl, rfl, rfl⟩
    simp [Scanner.ofSource]
  obtain ⟨a', ha, hfirst⟩ := hscan₁.extends herr₁ (by simp [Scan.Breaks]) hstart
  -- Behind the break stands the second text, with the line moved on by the breaks so far.
  have hrest : a'.rest = '\n' :: s₂.toList := by rw [ha.rest, hend₁, List.nil_append]
  have hpiece : Scan.Piece a'.rest none 1 := hrest ▸ .newline
  have hline := hscan₁.line
  have hbelow : Scan.Extends (s₁.toList.count '\n' + 1) [] (.ofSource s₂.toList) (a'.skip 1) := by
    have hnext : a'.skip 1 =
        { a' with rest := s₂.toList, pos := a'.pos + 1, line := a'.line + 1, column := 1 } := by
      simp [Scanner.skip, Scanner.next, hrest]
    rw [hend₁] at hline
    rw [hnext]
    refine ⟨(List.append_nil _).symm, ?_, rfl, ha.errors.trans herr₁⟩
    simp only [ha.line, Scanner.ofSource, List.count_nil] at hline ⊢
    omega
  obtain ⟨b', hb, hsecond⟩ := hscan₂.extends herr₂ (by simp [Scan.Breaks]) hbelow
  have hall := hfirst.trans (.piece hpiece hsecond)
  have hsame : ts.map (Token.mapLine (· + 0)) = ts := List.map_id'' (fun _ => rfl) ts
  rw [hsame] at hall
  refine ⟨b'.token (.eof, .none), rfl, tokenize_eq_ok.mpr ⟨b', ?_, hb.errors.trans herr₂⟩⟩
  exact Scan.allTokens_iff.mpr ⟨_, hall, by rw [hb.rest, hend₂]; rfl, rfl⟩

theorem Stmt.grammaticalBlock_append {ss ss' : List Stmt} (h : grammaticalBlock ss = true)
    (hlast : ∀ s ∈ ss.getLast?, s.isBare = false) (h' : grammaticalBlock ss' = true) :
    grammaticalBlock (ss ++ ss') = true := by
  induction ss with
  | nil => exact h'
  | cons s ss ih =>
    simp only [grammaticalBlock, Bool.and_eq_true, List.cons_append] at h ⊢
    obtain ⟨⟨hs, hbare⟩, hss⟩ := h
    cases ss with
    | nil => simp [hs, hlast s rfl, h']
    | cons s' ss =>
      refine ⟨⟨hs, ?_⟩, ih hss fun s hs => hlast s ?_⟩
      · simpa using hbare
      · rwa [List.getLast?_cons_cons]

theorem Sequence.append {α : Type} {R : α → List Token → Prop} {as bs : List α}
    {ts us : List Token} (h : Sequence R as ts) (h' : Sequence R bs us) :
    Sequence R (as ++ bs) (ts ++ us) := by
  induction h with
  | nil => exact h'
  | cons ha _ ih =>
    rw [List.append_assoc]
    exact .cons ha ih

/-- The tokens that a program was read from. -/
theorem sequence_of_parse {lang : Lang} {source : String} {p : Program}
    (h : parse lang source = .ok p) :
    ∃ ts t, tokenize lang source = .ok (ts ++ [t]) ∧ Sequence Stmt.Spelled p.statements ts ∧
      Stmt.grammaticalBlock p.statements = true := by
  unfold parse at h
  cases hts : tokenize lang source with
  | error e => rw [hts] at h; cases h
  | ok ts =>
    rw [hts] at h
    have h : parseTokens lang ts = .ok p := h
    unfold parseTokens at h
    split at h
    · rename_i hprogram
      cases h
      obtain ⟨us, last, rfl, -, hs, hg⟩ :=
        Parse.sequence_of_program (complete_of_tokenize hts) hprogram
      exact ⟨us, last, rfl, hs, hg⟩
    · cases h

/-- Two texts that parse also do so one below the other, statement for statement, and the lines of
the second go on from those of the first. A `wapas` without a value must not end the first text: it
would take the next expression as its value. -/
theorem parse_append (lang : Lang) (s₁ s₂ : String) (p₁ p₂ : Program)
    (h₁ : parse lang s₁ = .ok p₁) (h₂ : parse lang s₂ = .ok p₂)
    (hlast : ∀ s ∈ p₁.statements.getLast?, s.isBare = false) :
    let k := s₁.toList.count '\n' + 1
    parse lang (s₁ ++ "\n" ++ s₂) =
      .ok { statements := p₁.statements ++ p₂.statements.map (Stmt.mapLines (· + k)) } := by
  intro k
  obtain ⟨ts, t, hts, hs₁, hg₁⟩ := sequence_of_parse h₁
  obtain ⟨us, u, hus, hs₂, hg₂⟩ := sequence_of_parse h₂
  obtain ⟨last, hend, htokens⟩ := tokenize_append hts hus
  have hs := hs₁.append (hs₂.mapLines (f := (· + k)) fun s _ us h => h.mapLines)
  have hg : Stmt.grammaticalBlock (p₁.statements ++ p₂.statements.map (Stmt.mapLines (· + k))) =
      true := by
    refine Stmt.grammaticalBlock_append hg₁ hlast ?_
    rwa [← Stmt.mapLinesAll_eq_map, Stmt.grammaticalBlock_mapLines]
  unfold parse
  rw [htokens]
  change parseTokens lang _ = _
  rw [parseTokens, Parse.program_of_sequence lang hs hg hend]

theorem parse_append_comment :
    let p₁ : Program :=
      { statements := [.assign "x" (.literal .number (.int 1) 1) 1, .print [.var "x" 2] 2] }
    let p₂ : Program :=
      { statements := [.assign "y" (.newObject "Kutta" [] 1) 1, .giveBack none 2] }
    parse .english "maan x = 1\nlikho(x) // ek" = .ok p₁ ∧
      parse .english "y = naya Kutta\nwapas" = .ok p₂ ∧
      parse .english ("maan x = 1\nlikho(x) // ek" ++ "\n" ++ "y = naya Kutta\nwapas") =
        .ok { statements := p₁.statements ++ p₂.statements.map (Stmt.mapLines (· + 2)) } := by
  intro p₁ p₂
  have h₁ : parse .english "maan x = 1\nlikho(x) // ek" = .ok p₁ := by cbv
  have h₂ : parse .english "y = naya Kutta\nwapas" = .ok p₂ := by cbv
  exact ⟨h₁, h₂, parse_append .english _ _ p₁ p₂ h₁ h₂ (by decide)⟩

end Bhasha
