import Bhasha.Proofs.SourceSegments

namespace Bhasha

open Text Lexeme Number

/-- At the front of the text a token should start, but none can be read: a string that is not
closed, a digit that numbers are not made of, a letter that names do not start with, or an integer
that is too long. -/
inductive Unreadable : List Char → Prop
  | string {q cs} : q = '"' ∨ q = '\'' → (∀ w v z, Enquoted q w v → cs ≠ w ++ q :: z) →
      Unreadable (q :: cs)
  | digit {c cs} : isDigit c = true → isDecimal c = false → Unreadable (c :: cs)
  | letter {c cs} : isDigit c = false →
      lettersBelowDevanagari.has c = true ∨ 0x900 ≤ c.toNat → startsName c = false →
      Unreadable (c :: cs)
  | integer {w z} : (∀ c ∈ w, isDecimal c = true) → digitLimit < w.length →
      Stops (fun c => isDecimal c || c == '.') z → Unreadable (w ++ z)

/-- Segments in a row lead from the start of the text to a place that cannot be read. -/
def Refused (cs : List Char) : Prop :=
  ∃ gs z, cs = Segment.texts gs ++ z ∧ Segment.Row gs z ∧ Unreadable z

namespace Scan

section

variable {lang : Lang} {s s₁ s' : Scanner} {c : Char} {cs before z : List Char}
  {ts us : List Token}

theorem piece_or_unreadable_of_digit (hc : isDigit c = true) :
    (∃ f n, Piece (c :: cs) f n) ∨ Unreadable (c :: cs) := by
  cases hdecimal : isDecimal c with
  | false => exact .inr (.digit hc hdecimal)
  | true =>
    obtain ⟨lexeme, hlexeme⟩ : ∃ lexeme, number? (c :: cs) = some lexeme := by
      rw [number?, List.takeWhile_cons_of_pos hdecimal, if_neg (by simp)]
      split
      · exact ⟨_, rfl⟩
      · exact ⟨_, rfl⟩
    rcases number?_cases hlexeme with ⟨z, hcs, -, hw, hz⟩ | ⟨w, v, z, rfl, -, -, hw, -⟩
    · have hv := numberValue_integer hw
      by_cases hlimit : digitLimit < lexeme.length
      · rw [hcs]
        exact .inr (.integer hw hlimit hz)
      · rw [if_neg hlimit] at hv
        exact .inl ⟨_, _, .number hlexeme hv⟩
    · exact .inl ⟨_, _, .number hlexeme (numberValue_decimal hw)⟩

theorem piece_or_unreadable_of_quote (hc : c = '"' ∨ c = '\'') :
    (∃ f n, Piece (c :: cs) f n) ∨ Unreadable (c :: cs) := by
  have hslash : c ≠ '\\' := by rcases hc with rfl | rfl <;> decide
  obtain ⟨body, n, closed, hbody⟩ : ∃ body n closed, stringBody c cs = (body, n, closed) :=
    ⟨_, _, _, rfl⟩
  cases closed with
  | true => exact .inl ⟨_, _, .string hc hbody⟩
  | false =>
    refine .inr (.string hc fun w v z hw hcs => ?_)
    rw [hcs, stringBody_of_enquoted hslash hw] at hbody
    cases hbody

theorem piece_or_unreadable_of_letter (hd : isDigit c = false) (hc : opensWord c = true) :
    (∃ f n, Piece (c :: cs) f n) ∨ Unreadable (c :: cs) := by
  cases hstarts : startsName c with
  | true =>
    have hlexeme : identifier? (c :: cs) = some (c :: cs.takeWhile continuesName) := by
      rw [identifier?, if_pos hstarts]
    exact .inl ⟨_, _, .word hd hlexeme⟩
  | false =>
    refine .inr (.letter hd ?_ hstarts)
    have hunderscore : (c == '_') = false := by
      simp only [startsName, Bool.or_eq_false_iff] at hstarts
      exact hstarts.1.2
    simpa [opensWord, hunderscore, or_comm] using hc

/-- The front of a text is a piece, an illegal character or unreadable. -/
theorem front_cases (c : Char) (cs : List Char) :
    (∃ f n, Piece (c :: cs) f n) ∨ Illegal c cs ∨ Unreadable (c :: cs) := by
  -- in the order in which the scanner asks
  by_cases hgap : isGap c = true
  · exact .inl ⟨_, _, .gap hgap⟩
  by_cases hnewline : c = '\n'
  · subst hnewline
    exact .inl ⟨_, _, .newline⟩
  cases hcomment : comment? (c :: cs) with
  | some lexeme => exact .inl ⟨_, _, .comment hcomment⟩
  | none =>
    by_cases hdigit : isDigit c = true
    · exact (piece_or_unreadable_of_digit hdigit).imp_right .inr
    by_cases hquote : c = '"' ∨ c = '\''
    · exact (piece_or_unreadable_of_quote hquote).imp_right .inr
    have hdigit : isDigit c = false := by simpa using hdigit
    by_cases hword : opensWord c = true
    · exact (piece_or_unreadable_of_letter hdigit hword).imp_right .inr
    cases hsymbol : symbol? (c :: cs) with
    | some found => exact .inl ⟨_, _, .symbol hcomment hsymbol⟩
    | none =>
      exact .inr (.inl ⟨⟨by simpa using hgap, hnewline, hdigit, hquote, by simpa using hword⟩,
        hsymbol⟩)

/-- Every text is a row of segments, up to its end or to a place that cannot be read. -/
theorem exists_row (cs : List Char) :
    ∃ gs z, cs = Segment.texts gs ++ z ∧ Segment.Row gs z ∧ (z = [] ∨ Unreadable z) := by
  generalize hn : cs.length = n
  induction n using Nat.strongRecOn generalizing cs with
  | ind n ih =>
    subst hn
    have hstep (g : Segment) (z : List Char) (hcs : cs = g.text ++ z) (hg : g.Stands z) :
        ∃ gs z, cs = Segment.texts gs ++ z ∧ Segment.Row gs z ∧ (z = [] ∨ Unreadable z) := by
      have hpos := List.length_pos_of_ne_nil hg.text_ne_nil
      obtain ⟨gs, z', rfl, hrow, hz⟩ := ih z.length (by simp [hcs]; omega) z rfl
      exact ⟨g :: gs, z', by rw [hcs, ← List.append_assoc]; rfl, .cons hg hrow, hz⟩
    cases hcs : cs with
    | nil => exact ⟨[], [], rfl, .nil, .inl rfl⟩
    | cons c cs' =>
      rw [← hcs]
      by_cases hgap : isGap c = true
      · refine hstep (.gap (cs.takeWhile isGap)) (cs.dropWhile isGap)
          List.takeWhile_append_dropWhile.symm
          (.gap ?_ (takeWhile_holds _ _) (dropWhile_stops _ _))
        rw [hcs, List.takeWhile_cons_of_pos hgap]
        exact List.cons_ne_nil _ _
      · rcases front_cases c cs' with ⟨f, n, hp⟩ | hillegal | hunreadable
        · have hstops : Stops isGap (c :: cs') := by simpa [Stops] using hgap
          obtain ⟨g, z, hg, -, hstands, -⟩ := segment_of_piece hp hstops
          exact hstep g z (hcs.trans hg) hstands
        · exact hstep (.illegal c) cs' hcs (.illegal hillegal)
        · exact ⟨[], cs, rfl, .nil, .inr (hcs ▸ hunreadable)⟩

theorem record_run (hlang : lang ≠ .hindi) (c : Char) (s : Scanner) :
    record lang (unexpected (some c)) s = .ok ()
      (Scanner.skip 1 { s with errors := s.errors ++ [illegalCharacter (c, s.position)] }) := by
  cases lang with
  | english | both => rfl
  | hindi => contradiction

theorem scanned_of_stands {g : Segment} (h : g.Stands z) (hrest : s.rest = g.text ++ z)
    (hs : s.position = .behind before) (hlang : lang ≠ .hindi) :
    ∃ s₁, Passes before g s s₁ ∧ s₁.rest = z ∧ Scanned lang s (g.tokens (.behind before)) s₁ := by
  have hpiece {f : Option Face} (hp : Piece (g.text ++ z) f g.text.length)
      (htokens : g.tokens (.behind before) = (f.map (Position.behind before).token).toList)
      (herrors : g.errors (.behind before) = []) :
      ∃ s₁, Passes before g s s₁ ∧ s₁.rest = z ∧
        Scanned lang s (g.tokens (.behind before)) s₁ := by
    obtain ⟨hpasses, hz⟩ := passes_skip hs hrest herrors
    refine ⟨_, hpasses, hz, ?_⟩
    have hscan : Scanned lang s ((f.map s.token).toList ++ []) _ := .piece (hrest ▸ hp) .done
    rw [List.append_nil] at hscan
    rw [htokens, ← hs]
    exact hscan
  cases h with
  | @gap w _ hne hw hz =>
    obtain ⟨hpasses, hrest'⟩ := passes_skip hs hrest rfl
    have hlength : s.gapLength = w.length := by
      rw [Scanner.gapLength, hrest]
      exact congrArg List.length (takeWhile_stops hw hz).1
    refine ⟨_, hpasses, hrest', ?_⟩
    have hgap := scanned_gap lang s
    rwa [hlength] at hgap
  | newline => exact hpiece .newline rfl rfl
  | comment hw hz => exact hpiece (piece_comment hw hz) rfl rfl
  | lexeme hw => exact hpiece (piece_of_lexed hw) rfl rfl
  | @illegal c _ hc =>
    obtain ⟨hpasses, hz⟩ := passes_illegal hs hrest rfl
    exact ⟨_, hpasses, hz, .illegal hrest hc (record_run hlang c s) .done⟩

theorem scanned_of_row {s : Scanner} (before : List Char) {gs : List Segment}
    (h : Segment.Row gs z) (hrest : s.rest = Segment.texts gs ++ z)
    (hs : s.position = .behind before) (hlang : lang ≠ .hindi) :
    ∃ s', Scanned lang s (Segment.tokensFrom before gs) s' ∧ s'.rest = z ∧
      s'.errors = s.errors ++ Segment.errorsFrom before gs := by
  induction h generalizing s before with
  | nil => exact ⟨s, .done, hrest, (List.append_nil _).symm⟩
  | @cons g gs z hg _ ih =>
    have hrest : s.rest = g.text ++ (Segment.texts gs ++ z) := by
      rw [hrest, ← List.append_assoc]
      rfl
    obtain ⟨s₁, hpasses, hrest₁, hscan⟩ := scanned_of_stands hg hrest hs hlang
    obtain ⟨s', hscan', hz, herrors⟩ := ih _ hrest₁ hpasses.position
    refine ⟨s', hscan.trans hscan', hz, ?_⟩
    rw [herrors, hpasses.errors, List.append_assoc]
    rfl

theorem Piece.not_illegal {f : Option Face} {n : Nat} (h : Piece (c :: cs) f n) :
    ¬ Illegal c cs := by
  intro hc
  cases h with
  | gap hgap => exact absurd (hc.gap.symm.trans hgap) Bool.false_ne_true
  | newline => exact hc.newline rfl
  | comment hcomment =>
    obtain ⟨cs', hcs⟩ := comment?_head hcomment
    cases hcs
    cases hc.symbol
  | number hlexeme =>
    obtain ⟨_, _, hcs, hdigit⟩ := number?_head hlexeme
    cases hcs
    exact absurd (hc.digit.symm.trans hdigit) Bool.false_ne_true
  | string hq => exact hc.quote hq
  | word _ hlexeme =>
    have hword := opensWord_of_startsName (identifier?_ok hlexeme).1
    exact absurd (hc.word.symm.trans hword) Bool.false_ne_true
  | symbol _ hsymbol =>
    rw [hc.symbol] at hsymbol
    cases hsymbol

/-- At the front of a text stands one piece only. -/
theorem Piece.unique {f f' : Option Face} {n n' : Nat} (h : Piece cs f n) (h' : Piece cs f' n') :
    n = n' := by
  cases cs with
  | nil =>
    have hlength := h.length
    rw [List.length_nil] at hlength
    omega
  | cons c cs =>
    cases hgap : isGap c with
    | true => rw [(h.of_gap hgap).2, (h'.of_gap hgap).2]
    | false =>
      -- the scanner takes it, and the scanner is a function
      let s := Scanner.ofSource (c :: cs)
      have hstops : Stops isGap s.rest := by simpa [Stops, s, Scanner.ofSource] using hgap
      have hrun := @dispatch_piece .english s f n hstops h
      rw [dispatch_piece hstops h'] at hrun
      have hskip : s.skip n' = s.skip n := by
        injection hrun
      have hdrop := congrArg (fun s => s.rest.length) hskip
      have hlength : s.rest.length = (c :: cs).length := rfl
      simp only [Scanner.rest_skip, List.length_drop, hlength] at hdrop
      have hle := h.length.2
      have hle' := h'.length.2
      omega

/-- A scan to the end of the text comes past every place that a scan comes to. -/
theorem Scanned.cancel (h : Scanned lang s ts s₁) (h' : Scanned lang s us s')
    (hend : s'.rest = []) : ∃ vs, Scanned lang s₁ vs s' := by
  induction h generalizing us with
  | done => exact ⟨us, h'⟩
  | piece hp _ ih =>
    cases h' with
    | done =>
      have hlength := hp.length
      rw [hend, List.length_nil] at hlength
      omega
    | piece hp' h' =>
      obtain rfl := hp.unique hp'
      exact ih h'
    | illegal hrest hc =>
      rw [hrest] at hp
      exact absurd hc hp.not_illegal
  | illegal hrest hc hrecord _ ih =>
    cases h' with
    | done =>
      rw [hrest] at hend
      cases hend
    | piece hp' =>
      rw [hrest] at hp'
      exact absurd hc hp'.not_illegal
    | illegal hrest' hc' hrecord' h' =>
      rw [hrest] at hrest'
      cases hrest'
      rw [hrecord] at hrecord'
      cases hrecord'
      exact ih h'

theorem fail_error {α : Type} (lang : Lang) (message : String) (s : Scanner) :
    ∃ e s₁, (fail lang message : Scan α) s = .error e s₁ := by
  cases hd : diagnose lang message s with
  | ok d s₁ => exact ⟨.diagnostic d, s₁, bind_of_ok hd⟩
  | error e s₁ => exact ⟨e, s₁, bind_of_error hd⟩

theorem opensWord_of_letter (h : lettersBelowDevanagari.has c = true ∨ 0x900 ≤ c.toNat) :
    opensWord c = true := by
  rw [opensWord]
  rcases h with h | h <;> simp [h]

/-- At a place that cannot be read the scan breaks off. -/
theorem dispatch_unreadable (h : Unreadable s.rest) :
    ∃ e s₁, dispatch lang s.rest s = .error e s₁ := by
  have hmap {p : Scan Token} (hp : ∃ e s₁, p s = .error e s₁) :
      ∃ e s₁, (some <$> p) s = .error e s₁ := by
    obtain ⟨e, s₁, hp⟩ := hp
    exact ⟨e, s₁, map_of_error hp⟩
  obtain ⟨r, hrest⟩ : ∃ r, s.rest = r := ⟨_, rfl⟩
  rw [hrest] at h
  cases h with
  | @string q cs hq hopen =>
    rw [hrest, dispatch_of_quote hq]
    apply hmap
    rw [string_eq lang hrest hq]
    split
    · rename_i hbody
      obtain ⟨w, z, hcs, -, hw⟩ := enquoted_of_stringBody hbody
      exact absurd hcs (hopen w _ z hw)
    · exact fail_error _ _ _
  | @digit c cs hc hdecimal =>
    have hnone : number? (c :: cs) = none := by simp [number?, hdecimal]
    rw [hrest, dispatch_of_digit hc]
    apply hmap
    rw [number_eq, hrest, hnone]
    exact fail_error _ _ _
  | @letter c cs hd hc hstarts =>
    have hnone : identifier? (c :: cs) = none := by rw [identifier?, if_neg (by simp [hstarts])]
    rw [hrest, dispatch_of_opener hd (opensWord_of_letter hc)]
    apply hmap
    rw [identifier_eq, hrest, hnone]
    exact fail_error _ _ _
  | @integer w z hw hlimit hz =>
    have hne : w ≠ [] := List.ne_nil_of_length_pos (Nat.zero_lt_of_lt hlimit)
    have hnumber := number?_integer hne hw hz
    obtain ⟨c, cs, hcs, hc⟩ := number?_head hnumber
    rw [hrest, hcs, dispatch_of_digit hc]
    apply hmap
    rw [number_eq, hrest, hnumber]
    dsimp only
    rw [numberValue_integer hw, if_pos hlimit]
    exact ⟨_, _, rfl⟩

/-- What cannot be read starts as a number, a string or a word does. -/
theorem head_of_unreadable (h : Unreadable cs) :
    ∃ c cs', cs = c :: cs' ∧ (isDigit c = true ∨ (c = '"' ∨ c = '\'') ∨ opensWord c = true) := by
  cases h with
  | string hq => exact ⟨_, _, rfl, .inr (.inl hq)⟩
  | digit hc => exact ⟨_, _, rfl, .inl hc⟩
  | letter _ hc => exact ⟨_, _, rfl, .inr (.inr (opensWord_of_letter hc))⟩
  | integer hw hlimit hz =>
    have hne := List.ne_nil_of_length_pos (Nat.zero_lt_of_lt hlimit)
    obtain ⟨c, cs', hcs, hc⟩ := number?_head (number?_integer hne hw hz)
    exact ⟨c, cs', hcs, .inl hc⟩

/-- No scan gets past a place that cannot be read. -/
theorem Scanned.of_unreadable (hscan : Scanned lang s ts s') (h : Unreadable s.rest) : s' = s := by
  obtain ⟨c, cs, hcs, hc⟩ := head_of_unreadable h
  cases hscan with
  | done => rfl
  | piece hp =>
    have hgap : Stops isGap s.rest := by
      rw [hcs]
      rintro _ ⟨⟩
      rw [Bool.eq_false_iff]
      intro hgap
      have hblank : c = ' ' ∨ c = '\t' := by simpa [isGap] using hgap
      rcases hblank with rfl | rfl <;> exact absurd hc (by decide)
    obtain ⟨e, s₁, hrun⟩ := @dispatch_unreadable lang s h
    rw [dispatch_piece hgap hp] at hrun
    cases hrun
  | illegal hrest hillegal =>
    rw [hcs] at hrest
    cases hrest
    rcases hc with hc | hc | hc
    · rw [hillegal.digit] at hc
      cases hc
    · exact absurd hc hillegal.quote
    · rw [hillegal.word] at hc
      cases hc

end

end Scan

/-- The scanner breaks off with an error exactly if its way through the text comes to a place that
cannot be read. Otherwise it gives the tokens with one end mark, which is the last, and one error
for each illegal character, in their order. (With diagnostics in Hindi alone it breaks off at an
illegal character too.) -/
theorem tokenizeSafe_fails_iff (lang : Lang) (source : String)
    (hlang : lang = .english ∨ lang = .both) :
    ((∃ e, tokenizeSafe lang source = .error e) ↔ Refused source.toList) ∧
    (¬ Refused source.toList →
      ∃ us last gs, tokenizeSafe lang source = .ok (us ++ [last], Segment.errorsFrom [] gs) ∧
        last.kind = .eof ∧ (∀ t ∈ us, t.kind ≠ .eof) ∧
        source.toList = Segment.texts gs ∧ Segment.Row gs []) := by
  have hhindi : lang ≠ .hindi := by rcases hlang with rfl | rfl <;> decide
  have hgiven (hnot : ¬ Refused source.toList) :
      ∃ us last gs, tokenizeSafe lang source = .ok (us ++ [last], Segment.errorsFrom [] gs) ∧
        last.kind = .eof ∧ (∀ t ∈ us, t.kind ≠ .eof) ∧
        source.toList = Segment.texts gs ∧ Segment.Row gs [] := by
    obtain ⟨gs, z, hsource, hrow, rfl | hz⟩ := Scan.exists_row source.toList
    · obtain ⟨s', hscan, hend, herrors⟩ :=
        Scan.scanned_of_row (s := .ofSource source.toList) [] hrow hsource rfl hhindi
      rw [List.append_nil] at hsource
      refine ⟨_, s'.token (.eof, .none), gs, ?_, rfl, fun t ht => (hscan.fits t ht).2, hsource,
        hrow⟩
      have herrors : s'.errors = Segment.errorsFrom [] gs := herrors
      rw [← herrors, tokenizeSafe, Scan.allTokens_iff.mpr ⟨_, hscan, hend, rfl⟩]
    · exact absurd ⟨gs, z, hsource, hrow, hz⟩ hnot
  refine ⟨⟨?_, ?_⟩, hgiven⟩
  · rintro ⟨e, he⟩
    by_contra hnot
    obtain ⟨us, last, gs, hok, -⟩ := hgiven hnot
    rw [hok] at he
    cases he
  · rintro ⟨gs, z, hsource, hrow, hz⟩
    obtain ⟨s₁, hscan, rfl, -⟩ :=
      Scan.scanned_of_row (s := .ofSource source.toList) [] hrow hsource rfl hhindi
    unfold tokenizeSafe
    cases hall : Scan.allTokens lang (.ofSource source.toList) with
    | error e s' => exact ⟨e, rfl⟩
    | ok ts s' =>
      -- a scan to the end would pass the place that cannot be read
      obtain ⟨us, hscan', hend, -⟩ := Scan.allTokens_iff.mp hall
      obtain ⟨vs, hrest⟩ := hscan.cancel hscan' hend
      obtain rfl := hrest.of_unreadable hz
      obtain ⟨c, cs, hcs, -⟩ := Scan.head_of_unreadable hz
      rw [hend] at hcs
      cases hcs

/-- Behind the sign and the illegal character stands a digit that numbers are not made of. -/
theorem tokenizeSafe_fails_superscript :
    Refused "+@²".toList ∧ ∃ e, tokenizeSafe .both "+@²" = .error e := by
  have hsign : (Segment.lexeme ['+'] (.plus, .str "+")).Stands ['@', '²'] :=
    .lexeme (.sign rfl (by rintro _ ⟨⟩; decide))
  have hillegal : (Segment.illegal '@').Stands ['²'] :=
    .illegal ⟨⟨by decide, by decide, by decide, by decide, by decide⟩, rfl⟩
  have hrefused : Refused "+@²".toList :=
    ⟨[_, _], ['²'], rfl, .cons hsign (.cons hillegal .nil), .digit (by decide) (by decide)⟩
  exact ⟨hrefused, (tokenizeSafe_fails_iff .both "+@²" (.inr rfl)).1.2 hrefused⟩

end Bhasha
