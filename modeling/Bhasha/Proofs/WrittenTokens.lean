import Bhasha.Proofs.SourceSegments

namespace Bhasha

open Text Lexeme Number

/-- The characters that have an escape of their own, with the letter or digit of it. -/
def namedEscapes : List (Char × Char) :=
  [('\n', 'n'), ('\t', 't'), ('\r', 'r'), ('\x00', '0')]

/-- How characters can be written between two quotes `q`. -/
inductive Quoted (q : Char) : List Char → List Char → Prop
  | nil : Quoted q [] []
  | raw {c cs w} : c ≠ '\\' → c ≠ q → Quoted q cs w → Quoted q (c :: cs) (c :: w)
  | shielded {c cs w} : c = '\\' ∨ c = q → Quoted q cs w → Quoted q (c :: cs) ('\\' :: c :: w)
  | named {c e cs w} : (c, e) ∈ namedEscapes → Quoted q cs w → Quoted q (c :: cs) ('\\' :: e :: w)

/-- A word, as keywords and names are. -/
def isWord : List Char → Bool
  | c :: cs => startsName c && !isDigit c && cs.all continuesName
  | [] => false

/-- How a token can be written. -/
inductive Face.Written : Face → List Char → Prop
  | fixed {k} : k.isFixed = true → k ≠ .newline → Written (k, .str k.spelling) k.spelling.toList
  | boolean (b) : Written (.boolean, .bool b) (if b then "sach" else "jhoot").toList
  | name {w} : isWord w = true → String.ofList w ∉ TokenKind.keywords.map Prod.fst →
    Written (.identifier, .str (String.ofList w)) w
  | integer {n : Nat} : (Nat.toDigits 10 n).length ≤ digitLimit →
    Written (.number, .int n) (Nat.toDigits 10 n)
  | string {q cs w} : q = '"' ∨ q = '\'' → Quoted q cs w →
    Written (.string, .str (String.ofList cs)) (q :: (w ++ [q]))

def blanks : List Char :=
  [' ', '\t', '\n']

/-- Blanks, and comments up to the end of their line. -/
inductive Filler : List Char → Prop
  | nil : Filler []
  | blank {c cs} : c ∈ blanks → Filler cs → Filler (c :: cs)
  | comment {text cs} : '\n' ∉ text → Filler cs → Filler ('/' :: '/' :: (text ++ '\n' :: cs))

/-- Tokens in a row. What stands between two of them starts with a blank. -/
inductive WrittenRow : List Face → List Char → Prop
  | nil : WrittenRow [] []
  | single {f w} : Face.Written f w → WrittenRow [f] w
  | cons {f g fs w c gap cs} : Face.Written f w → c ∈ blanks → Filler gap →
    WrittenRow (g :: fs) cs → WrittenRow (f :: g :: fs) (w ++ c :: (gap ++ cs))

namespace Scan

section

variable {p : Char → Bool} {w z : List Char}

theorem escaped_of_named {c e : Char} (h : (c, e) ∈ namedEscapes) : escaped e = c := by
  have hall : ∀ p ∈ namedEscapes, escaped p.2 = p.1 := by decide
  exact hall (c, e) h

theorem enquoted_of_quoted {q : Char} {cs : List Char} (hq : q = '"' ∨ q = '\'')
    (h : Quoted q cs w) : Enquoted q w cs := by
  induction h with
  | nil => exact .nil
  | raw hc hne _ ih => exact .plain hne hc ih
  | @shielded c cs w hc _ ih =>
    -- Neither a quote nor the backslash is the letter of a named escape.
    have hescaped : escaped c = c := by
      rcases hc with rfl | rfl
      · rfl
      · rcases hq with rfl | rfl <;> rfl
    have hw := Enquoted.escape (c := c) ih
    rwa [hescaped] at hw
  | @named c e cs w he _ ih =>
    have hw := Enquoted.escape (c := e) ih
    rwa [escaped_of_named he] at hw

theorem stops_of_blanks (hp : blanks.any p = false) (hz : ∀ c ∈ z.head?, c ∈ blanks) :
    Stops p z :=
  fun c hc => Bool.eq_false_iff.mpr (List.any_eq_false.mp hp c (hz c hc))

theorem lexed_word (hw : isWord w = true) (hz : ∀ c ∈ z.head?, c ∈ blanks) :
    Lexed w (word (String.ofList w) 1 1).face z := by
  cases w with
  | nil => cases hw
  | cons c cs =>
    simp only [isWord, Bool.and_eq_true, Bool.not_eq_true', List.all_eq_true] at hw
    obtain ⟨⟨hstarts, hdigit⟩, hcontinues⟩ := hw
    exact .word hdigit hstarts hcontinues (stops_of_blanks (by decide) hz)

theorem word_of_keyword {p : String × TokenKind} (hp : p ∈ TokenKind.keywords)
    (hne : p.2 ≠ .boolean) :
    isWord p.1.toList = true ∧ (word p.1 1 1).face = (p.2, .str p.1) := by
  have hall : ∀ p ∈ TokenKind.keywords,
      isWord p.1.toList = true ∧ TokenKind.keywords.lookup p.1 = some p.2 := by decide
  refine ⟨(hall p hp).1, ?_⟩
  unfold word
  rw [(hall p hp).2]
  split
  · rename_i h
    exact absurd (Option.some.inj h) hne
  · rename_i h
    cases h
    rfl
  · contradiction

theorem word_of_name (h : String.ofList w ∉ TokenKind.keywords.map Prod.fst) :
    (word (String.ofList w) 1 1).face = (.identifier, .str (String.ofList w)) := by
  have hlookup : TokenKind.keywords.lookup (String.ofList w) = none := by
    rw [List.lookup_eq_none_iff]
    intro p hp
    simpa using fun heq => h (List.mem_map.mpr ⟨p, hp, heq.symm⟩)
  unfold word
  rw [hlookup]
  rfl

/-- A symbol goes no further than its spelling, whichever blank follows. -/
theorem lexed_symbol {k : TokenKind} (h : symbol? w = some (k, w))
    (hz : ∀ c ∈ z.head?, c ∈ blanks) : Lexed w (k, .str (String.ofList w)) z := by
  have hw : symbol? (w ++ []) = some (k, w) := by rwa [List.append_nil]
  rcases symbol?_lexeme hw with ⟨c, d, rfl, hpair⟩ | ⟨c, rfl, hchar, -⟩
  · exact .pair hpair
  · -- Only an equals sign makes a pair, and only a slash a comment: neither is a blank.
    refine .sign hchar fun d hd => ?_
    have hd := hz d hd
    have hpair : TokenKind.ofPair? c d = none := by
      cases hpair : TokenKind.ofPair? c d with
      | none => rfl
      | some k =>
        have hequals : d = '=' := by
          unfold TokenKind.ofPair? at hpair
          split at hpair <;> first | rfl | cases hpair
        exact absurd hd (hequals ▸ by decide)
    have hslash : d ≠ '/' := by
      rintro rfl
      exact absurd hd (by decide)
    simp [hpair, hslash]

theorem decimal?_of_isDigit {c : Char} (h : c.isDigit = true) :
    decimal? c = some (c.toNat - '0'.toNat) := by
  rw [Char.isDigit_iff_toNat] at h
  have hzero : (decide (0x30 ≤ c.toNat) && decide (c.toNat < 0x30 + 10)) = true := by
    have hnine : '9'.toNat = 0x39 := rfl
    have hbase : '0'.toNat = 0x30 := rfl
    simp only [Bool.and_eq_true, decide_eq_true_eq]
    omega
  have hfind : digitZeros.find? (fun z => z ≤ c.toNat && c.toNat < z + 10) = some 0x30 :=
    List.find?_cons_of_pos hzero
  rw [decimal?, hfind]
  rfl

theorem digitsValue_toDigits (n : Nat) : digitsValue (Nat.toDigits 10 n) = n := by
  have hfold := @Nat.ofDigitChars_ten_toDigits n
  rw [Nat.ofDigitChars_eq_foldl] at hfold
  rw [digitsValue]
  conv_rhs => rw [← hfold]
  refine List.foldl_ext _ _ 0 fun m c hc => ?_
  rw [decimal?_of_isDigit (Nat.isDigit_of_mem_toDigits (by decide) (by decide) hc)]
  rfl

theorem lexed_integer {n : Nat} (hn : (Nat.toDigits 10 n).length ≤ digitLimit)
    (hz : ∀ c ∈ z.head?, c ∈ blanks) : Lexed (Nat.toDigits 10 n) (.number, .int n) z := by
  have hdigits : ∀ c ∈ Nat.toDigits 10 n, isDecimal c = true := by
    intro c hc
    rw [isDecimal, decimal?_of_isDigit (Nat.isDigit_of_mem_toDigits (by decide) (by decide) hc)]
    rfl
  have hlexed := Lexed.integer (by simp) hdigits hn (stops_of_blanks (by decide) hz)
  rwa [digitsValue_toDigits] at hlexed

/-- A token as it is written is a lexeme, if it is the last or a blank follows. -/
theorem lexed_of_written {f : Face} (h : f.Written w) (hz : ∀ c ∈ z.head?, c ∈ blanks) :
    Lexed w f z := by
  cases h with
  | @fixed k hk hne =>
    have hcases : (k.spelling, k) ∈ TokenKind.keywords ∨
        symbol? k.spelling.toList = some (k, k.spelling.toList) := by
      cases k <;> first | decide | contradiction
    rcases hcases with hkeyword | hsymbol
    · have hboolean : k ≠ .boolean := by rintro rfl; cases hk
      obtain ⟨hword, hface⟩ := word_of_keyword hkeyword hboolean
      have hlexed := lexed_word hword hz
      rwa [String.ofList_toList, hface] at hlexed
    · have hlexed := lexed_symbol hsymbol hz
      rwa [String.ofList_toList] at hlexed
  | boolean b =>
    cases b
    · exact lexed_word (w := "jhoot".toList) (by decide) hz
    · exact lexed_word (w := "sach".toList) (by decide) hz
  | name hw hname =>
    have hlexed := lexed_word hw hz
    rwa [word_of_name hname] at hlexed
  | integer hn => exact lexed_integer hn hz
  | string hq hquoted => exact .string hq (enquoted_of_quoted hq hquoted)

end

section

variable {lang : Lang} {fs : List Face} {s : Scanner} {cs z : List Char}

theorem piece_blank {c : Char} (hc : c ∈ blanks) : Piece (c :: z) none 1 := by
  have hc : c = ' ' ∨ c = '\t' ∨ c = '\n' := by simpa [blanks] using hc
  rcases hc with rfl | rfl | rfl
  · exact .gap rfl
  · exact .gap rfl
  · exact .newline

theorem scanned_filler (h : Filler cs) (hrest : s.rest = cs ++ z) :
    Scanned lang s [] (s.skip cs.length) := by
  induction h generalizing s with
  | nil => exact .done
  | blank hc _ ih =>
    have hblank : Piece s.rest none 1 := hrest ▸ piece_blank hc
    exact .piece hblank (ih (by rw [Scanner.rest_skip, hrest]; rfl))
  | @comment text cs htext _ ih =>
    have hcomment : Piece s.rest none (text.length + 2) := by
      rw [hrest, List.cons_append, List.cons_append, List.append_assoc]
      exact piece_comment htext (by simp)
    have hbehind : (s.skip (text.length + 2)).rest = '\n' :: (cs ++ z) := by
      rw [Scanner.rest_skip, hrest]
      simp
    -- The newline does not belong to the comment.
    have hnewline : Piece (s.skip (text.length + 2)).rest none 1 := hbehind ▸ .newline
    have hcs := ih (s := (s.skip (text.length + 2)).skip 1) (by
      rw [Scanner.rest_skip, hbehind]
      rfl)
    have hlength : ('/' :: '/' :: (text ++ '\n' :: cs)).length =
        text.length + 2 + (1 + cs.length) := by
      simp only [List.length_cons, List.length_append]
      omega
    rw [hlength, Scanner.skip_add, Scanner.skip_add]
    exact .piece hcomment (.piece hnewline hcs)

theorem scanned_row (h : WrittenRow fs cs) (hrest : s.rest = cs) :
    ∃ ts, Scanned lang s ts (s.skip cs.length) ∧ ts.map Token.face = fs := by
  induction h generalizing s with
  | nil => exact ⟨[], .done, rfl⟩
  | @single f w hf =>
    subst hrest
    have hpiece := piece_of_lexed (lexed_of_written hf (z := []) (by simp))
    rw [List.append_nil] at hpiece
    exact ⟨[s.token f], .piece hpiece .done, rfl⟩
  | @cons f g fs w c gap cs hf hc hgap _ ih =>
    -- The blank behind the token keeps it from running on, whatever comes after the blank.
    have hpiece : Piece s.rest (some f) w.length := by
      rw [hrest]
      exact piece_of_lexed (lexed_of_written hf (by simpa using hc))
    have hbehind : (s.skip w.length).rest = (c :: gap) ++ cs := by
      rw [Scanner.rest_skip, hrest, List.drop_left]
      rfl
    have hfiller : Scanned lang (s.skip w.length) [] _ := scanned_filler (.blank hc hgap) hbehind
    obtain ⟨ts, hts, hfaces⟩ := ih (s := (s.skip w.length).skip (c :: gap).length) (by
      rw [Scanner.rest_skip, hbehind, List.drop_left])
    refine ⟨s.token f :: ts, ?_, by rw [List.map_cons, hfaces]; rfl⟩
    have hlength : (w ++ c :: (gap ++ cs)).length = w.length + ((c :: gap).length + cs.length) := by
      simp only [List.length_append, List.length_cons]
      omega
    rw [hlength, Scanner.skip_add, Scanner.skip_add]
    exact .piece hpiece (hfiller.trans hts)

end

end Scan

/-- Tokens that are written in a row are read back, each with its kind and its value, and the end
mark behind them. Two of them never run together, no matter which they are and what is between them,
and nothing of a comment is read. -/
theorem tokenize_written (lang : Lang) (fs : List Face) (source : String)
    (h : WrittenRow fs source.toList) :
    ∃ ts, tokenize lang source = .ok ts ∧ ts.map Token.face = fs ++ [(.eof, .none)] := by
  have hrow : ∃ ts, Scan.Scanned lang (Scanner.ofSource source.toList) ts _ ∧ _ :=
    Scan.scanned_row h rfl
  obtain ⟨ts, hscanned, hfaces⟩ := hrow
  have hend : ((Scanner.ofSource source.toList).skip source.toList.length).rest = [] := by
    rw [Scanner.rest_skip]
    exact List.drop_length
  refine ⟨_, tokenize_eq_ok.mpr ⟨_, Scan.allTokens_iff.mpr ⟨ts, hscanned, hend, rfl⟩, ?_⟩, ?_⟩
  · rw [Scanner.errors_skip]
    rfl
  · rw [List.map_append, hfaces]
    rfl

/-- Two signs that would make one if it were not for the comment between them, and a string with a
quote, a backslash, a tab and an escaped newline in it. -/
theorem tokenize_written_signs :
    let fs : List Face := [(.identifier, .str "क्र"), (.assign, .str "="), (.assign, .str "="),
      (.string, .str "\"\\\t\n"), (.divide, .str "/"), (.number, .int 10), (.boolean, .bool true)]
    WrittenRow fs "क्र =\t// = \"\n= \"\\\"\\\\\t\\n\" / 10 sach".toList ∧
      ∃ ts, tokenize .hindi "क्र =\t// = \"\n= \"\\\"\\\\\t\\n\" / 10 sach" = .ok ts ∧
        ts.map Token.face = fs ++ [(.eof, .none)] := by
  intro fs
  have hspace : ' ' ∈ blanks := by decide
  have htab : '\t' ∈ blanks := by decide
  have hname : Face.Written (.identifier, .str "क्र") "क्र".toList := .name (by decide) (by decide)
  have hassign : Face.Written (.assign, .str "=") ['='] := .fixed (k := .assign) rfl (by decide)
  have hdivide : Face.Written (.divide, .str "/") ['/'] := .fixed (k := .divide) rfl (by decide)
  have hten : Face.Written (.number, .int 10) ['1', '0'] := .integer (n := 10) (by decide)
  have hquoted : Quoted '"' ['"', '\\', '\t', '\n'] ['\\', '"', '\\', '\\', '\t', '\\', 'n'] :=
    .shielded (.inr rfl) <| .shielded (.inl rfl) <| .raw (by decide) (by decide) <|
      .named (by decide) .nil
  have hstring := Face.Written.string (.inl rfl) hquoted
  have htext : '\n' ∉ [' ', '=', ' ', '"'] := by decide
  have hrow :=
    WrittenRow.cons hname hspace .nil <| .cons hassign htab (.comment htext .nil) <|
    .cons hassign hspace .nil <| .cons hstring hspace .nil <| .cons hdivide hspace .nil <|
    .cons hten hspace .nil <| .single (.boolean true)
  have hsource : WrittenRow fs "क्र =\t// = \"\n= \"\\\"\\\\\t\\n\" / 10 sach".toList := by
    convert hrow
    decide
  exact ⟨hsource, tokenize_written .hindi fs _ hsource⟩

end Bhasha
