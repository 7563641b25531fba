import Bhasha.Console
import Bhasha.Proofs.AnalyserNames
import Bhasha.Proofs.CodeSimulation
import Bhasha.Proofs.PairedExecution
import Bhasha.Proofs.SourceConcatenation

namespace Bhasha

theorem Exec.stmts_append (c : Context) (ss ss' : List Stmt) :
    Exec.stmts c (ss ++ ss') = (do Exec.stmts c ss; Exec.stmts c ss') := by
  induction ss with
  | nil =>
    rw [List.nil_append, Exec.stmts, pure_bind]
  | cons s ss ih =>
    rw [List.cons_append, Exec.stmts, ih, Exec.stmts, bind_assoc]

/-- The same run after other output. -/
def Pairing.after (lead : String) : Pairing :=
  .alike True id (fun _ _ => rfl) lead

/-- The same run after other output, and before other input, which it does not read. -/
def Pairing.beside (lead : String) (input : List Char) : Pairing where
  free := True
  objects := false
  idle := True
  unbound := id
  lead
  input _ := input
  upkeep := .nothing
  unbound_of_free _ _ := rfl
  input_or_idle := .inl trivial

instance (lead : String) : (Pairing.after lead).Unlimited :=
  ⟨fun _ => trivial⟩

instance (lead : String) (input : List Char) : (Pairing.beside lead input).Unlimited :=
  ⟨fun _ => trivial⟩

namespace Machine.Sound

variable {m m' : Machine} {s : Setting} {ss : List Stmt}

theorem at_after (hm : m.Sound True) (lead output : String) :
    (Pairing.after lead).At [] { m with output } := by
  have hhosted := (Pairing.hosted_iff_sound (P := Pairing.after lead) rfl).mpr hm
  exact ⟨⟨⟨hhosted.present, hhosted.bound, hhosted.heap⟩, False.elim, trivial⟩,
    Pairing.brings_nil _ _⟩

theorem stmts_ne_giveBack (hm : m.Sound True) (hgives : Stmt.givesAny ss = false) (v : Value) :
    Exec.stmts s.context ss m ≠ .error (.giveBack v) m' := by
  intro hgave
  have hagrees : (Pairing.after "").Agrees False m (Exec.stmts s.context ss) _ _ :=
    Pairing.agrees_stmts ⟨(Pairing.after "").performs s trivial (budget - 1), trivial⟩ ss
      (k := {}) (hm.at_after "" m.output) (.inl trivial) (by simp [hgives])
  cases hagrees with
  | ended _ _ hp => cases hgave.symm.trans hp
  | exited _ _ hp _ _ he =>
    cases hgave.symm.trans hp
    exact he.1
  | spared _ _ _ hidle => exact hidle

end Machine.Sound

/-- A machine between two programs that are given no input. -/
structure Machine.Idle (m : Machine) : Prop where
  sound : m.Sound True
  input : m.input = []

namespace Machine.Idle

variable {m m' : Machine} {s : Setting} {ss ss' : List Stmt}

theorem at_beside (hm : m.Idle) (lead output : String) (input : List Char) :
    (Pairing.beside lead input).At [] { m with output } := by
  have hhosted := (Pairing.hosted_iff_sound (P := Pairing.beside lead input) rfl).mpr hm.sound
  exact ⟨⟨⟨hhosted.present, hhosted.bound, hhosted.heap⟩, fun _ => hm.input, trivial⟩,
    Pairing.brings_nil _ _⟩

/-- A program that is done without input does the same whatever has been written before and whatever
input is there. -/
theorem execute (hm : m.Idle) (h : Bhasha.execute s ss m = .ok () m') :
    m'.Idle ∧ ∃ out, m'.output = m.output ++ out ∧ ∀ output input,
      Bhasha.execute s ss { m with output, input } =
        .ok () { m' with output := output ++ out, input } := by
  have htwin : (Pairing.after m.output).twin { m with output := "" } = m := by
    simp [Pairing.twin, Pairing.after, Pairing.alike]
  have htwin' (output : String) (input : List Char) :
      (Pairing.beside output input).twin { m with output := "" } = { m with output, input } := by
    simp [Pairing.twin, Pairing.beside]
  have hafter := (Pairing.after m.output).agrees_execute s ss (hm.sound.at_after m.output "")
    (.inl trivial)
  have hbeside (output : String) (input : List Char) :=
    (Pairing.beside output input).agrees_execute s ss (hm.at_beside output "" input) (.inl trivial)
  rw [← htwin] at h
  -- Both runs are compared with the one that starts with an empty output.
  obtain ⟨m₁, hrun, rfl⟩ := hafter.of_twin_ok id h
  obtain ⟨-, hleads, -⟩ := (hbeside "" []).of_ok hrun
  have hvalues := (Pairing.hosted_iff_sound rfl).mp hleads.sound.values
  refine ⟨⟨⟨hvalues.present, hvalues.bound, hvalues.heap⟩, hleads.sound.input trivial⟩,
    m₁.output, rfl, fun output input => ?_⟩
  rw [← htwin']
  exact ((hbeside output input).of_ok hrun).1

/-- Of two programs run as one the second is run from where the first ends. -/
theorem execute_append (hm : m.Idle) (hgives : Stmt.givesAny ss = false)
    (h : Bhasha.execute s (ss ++ ss') m = .ok () m') :
    ∃ m₁, Bhasha.execute s ss m = .ok () m₁ ∧ Bhasha.execute s ss' m₁ = .ok () m' := by
  rw [execute_eq_ok, Exec.stmts_append] at h
  rcases h with hall | ⟨v, hgave⟩
  · obtain ⟨_, m₁, hfirst, hsecond⟩ := bind_eq_ok hall
    exact ⟨m₁, execute_eq_ok.mpr (.inl hfirst), execute_eq_ok.mpr (.inl hsecond)⟩
  · rcases bind_eq_error hgave with hfirst | ⟨_, m₁, hfirst, hsecond⟩
    · exact absurd hfirst (hm.sound.stmts_ne_giveBack hgives v)
    · exact ⟨m₁, execute_eq_ok.mpr (.inl hfirst), execute_eq_ok.mpr (.inr ⟨v, hsecond⟩)⟩

end Machine.Idle

/-- What the console says of a diagnostic. -/
def complaint (lang : Lang) (label : String) (d : Diagnostic) : String :=
  "\n[" ++ label ++ "] " ++ d.text lang ++ "\n"

namespace Talk

variable {α : Type} {lang : Lang} {source : String} {ts : List Token} {p : Program} {c : Console}

theorem complainAll_eq (lang : Lang) (label : String) (ds : List Diagnostic) (c : Console) :
    complainAll lang label ds c =
      .ok () { c with errors := c.errors ++ String.join (ds.map (complaint lang label)) } := by
  unfold complainAll
  induction ds generalizing c with
  | nil =>
    rw [List.map_nil, String.join_nil, String.append_empty]
    rfl
  | cons d ds ih =>
    have hsaid : complain ("\n[" ++ label ++ "] " ++ d.text lang) c =
        .ok () { c with errors := c.errors ++ complaint lang label d } := by
      rw [complaint, ← String.append_assoc]
      rfl
    rw [List.map_cons, String.join_cons, ← String.append_assoc]
    exact (bind_of_ok hsaid).trans (ih _)

theorem scan_of_tokenize (h : tokenize lang source = .ok ts) (c : Console) :
    scan lang {} source c = .ok ts c := by
  obtain ⟨a, hall, herrors⟩ := tokenize_eq_ok.mp h
  have hsafe : tokenizeSafe lang source = .ok (ts, []) := by
    rw [tokenizeSafe, hall, ← herrors]
  unfold scan
  rw [hsafe]
  rfl

theorem parse_of_parseTokens (h : parseTokens lang ts = .ok p) (c : Console) :
    Talk.parse lang {} ts c = .ok (some p) c := by
  unfold parseTokens at h
  unfold Talk.parse
  split at h
  · rename_i hprogram
    cases h
    rw [hprogram]
    rfl
  · cases h

theorem check_eq (lang : Lang) (p : Program) (c : Console) :
    check lang {} p c = .ok p.semanticErrors.isEmpty { c with
      errors :=
        c.errors ++ String.join (p.semanticErrors.map (complaint lang "SemanticError")) } := by
  obtain ⟨a, ha, herrors⟩ := exists_analyse p
  unfold check
  rw [ha, ← herrors]
  refine (bind_of_ok (complainAll_eq lang "SemanticError" a.errors c)).trans ?_
  cases a.errors <;> rfl

theorem run_of_ok {a : Run α} {v : α} {m : Machine} (h : a c.machine = .ok v m) :
    run a c = .ok v { c with machine := m } := by
  simp only [run, h]

theorem run_of_error {a : Run α} {e : Exit} {m : Machine} (h : a c.machine = .error e m) :
    run a c = .error e { c with machine := m } := by
  simp only [run, h]

theorem outcome_of_ok {a : Talk α} {v : α} {c' : Console} (h : a c = .ok v c') :
    outcome a c = .ok (.ok v) c' := by
  simp only [outcome, h]

theorem outcome_of_error {a : Talk α} {e : Exit} {c' : Console} (h : a c = .error e c') :
    outcome a c = .ok (.error e) c' := by
  simp only [outcome, h]

theorem parseTokens_of_parse (h : Bhasha.parse lang source = .ok p) :
    ∃ ts, tokenize lang source = .ok ts ∧ parseTokens lang ts = .ok p := by
  unfold Bhasha.parse at h
  cases hts : tokenize lang source with
  | error e =>
    rw [hts] at h
    cases h
  | ok ts =>
    rw [hts] at h
    exact ⟨ts, rfl, h⟩

/-- A source text whose program the analyser passes is run. -/
theorem pipeline_of_passed {s : Setting} {m : Machine} (hparse : Bhasha.parse s.lang source = .ok p)
    (hpass : p.semanticErrors = []) (hrun : execute s p.statements c.machine = .ok () m) :
    pipeline s {} source c = .ok 0 { c with machine := m } := by
  obtain ⟨ts, htokens, hprogram⟩ := parseTokens_of_parse hparse
  have hcheck : check s.lang {} p c = .ok true c := by
    rw [check_eq, hpass, List.map_nil, String.join_nil, String.append_empty]
    rfl
  refine (bind_of_ok (scan_of_tokenize htokens c)).trans ?_
  refine (bind_of_ok (parse_of_parseTokens hprogram c)).trans ?_
  refine (bind_of_ok hcheck).trans ?_
  exact (bind_of_ok (outcome_of_ok (run_of_ok hrun))).trans rfl

/-- One that the analyser does not pass only has its errors told. -/
theorem pipeline_of_refused {s : Setting} (hparse : Bhasha.parse s.lang source = .ok p)
    (hpass : p.semanticErrors.isEmpty = false) :
    pipeline s {} source c = .ok 1 { c with
      errors :=
        c.errors ++ String.join (p.semanticErrors.map (complaint s.lang "SemanticError")) } := by
  obtain ⟨ts, htokens, hprogram⟩ := parseTokens_of_parse hparse
  have hcheck := check_eq s.lang p c
  rw [hpass] at hcheck
  refine (bind_of_ok (scan_of_tokenize htokens c)).trans ?_
  refine (bind_of_ok (parse_of_parseTokens hprogram c)).trans ?_
  exact (bind_of_ok hcheck).trans rfl

end Talk

/-- What is left of a line without the blanks around it. -/
def stripped (line : String) : List Char :=
  Text.trimBy Text.isBlank line.toList

/-- A line that is typed at the prompt, with the program it holds. -/
structure Entry (lang : Lang) where
  line : String
  program : Program
  unbroken : '\n' ∉ line.toList
  spoken : stripped line ≠ []
  stays : Talk.isFarewell (stripped line) = false
  parsed : parse lang (String.ofList (stripped line)) = .ok program

namespace Entry

variable {lang : Lang}

/-- The analyser, which knows nothing of other lines, has nothing against the line. -/
def passes (e : Entry lang) : Bool :=
  e.program.semanticErrors.isEmpty

/-- What is said of the line. -/
def complaints (e : Entry lang) : String :=
  String.join (e.program.semanticErrors.map (complaint lang "SemanticError"))

/-- The input that these lines are. -/
def typed (es : List (Entry lang)) : List Char :=
  es.flatMap fun e => e.line.toList ++ ['\n']

/-- The statements of the lines that pass. -/
def passed (es : List (Entry lang)) : List Stmt :=
  (es.filter passes).flatMap (·.program.statements)

theorem passed_cons (e : Entry lang) (es : List (Entry lang)) :
    passed (e :: es) = passed [e] ++ passed es := by
  unfold passed
  rw [← List.flatMap_append, ← List.filter_append]
  rfl

theorem passed_of_passes {e : Entry lang} (h : e.passes = true) :
    passed [e] = e.program.statements := by
  simp [passed, h]

theorem passed_of_not_passes {e : Entry lang} (h : e.passes = false) : passed [e] = [] := by
  simp [passed, h]

theorem gives_passed (e : Entry lang) : Stmt.givesAny (passed [e]) = false := by
  cases h : e.passes with
  | true =>
    rw [passed_of_passes h]
    exact (passed_of_semanticErrors (List.isEmpty_iff.mp h)).holds rfl
  | false =>
    rw [passed_of_not_passes h]
    rfl

/-- What the screen shows of lines with what they print, up to the end of the input. -/
def transcript (spoken : List (Entry lang × String)) : String :=
  String.join (spoken.map fun a => ">>> " ++ a.2) ++ ">>> \nAlvida! 👋\n"

theorem transcript_nil : transcript ([] : List (Entry lang × String)) = ">>> \nAlvida! 👋\n" :=
  rfl

theorem transcript_cons (e : Entry lang) (out : String) (spoken : List (Entry lang × String)) :
    transcript ((e, out) :: spoken) = ">>> " ++ out ++ transcript spoken := by
  rw [transcript, List.map_cons, String.join_cons, String.append_assoc]
  rfl

end Entry

namespace Talk

variable {s : Setting} {c : Console}

theorem answer_of_pipeline {e : Entry s.lang} {code : Nat} {c' : Console}
    (h : pipeline s {} (String.ofList (stripped e.line)) c = .ok code c') :
    answer s {} e.line c = .ok true c' := by
  have hspoken : (Text.trimBy Text.isBlank e.line.toList).isEmpty = false :=
    List.isEmpty_eq_false_iff.mpr e.spoken
  have hstays : isFarewell (Text.trimBy Text.isBlank e.line.toList) = false := e.stays
  unfold answer
  simp only [hspoken, hstays]
  exact (bind_of_ok h).trans rfl

theorem readLine_line {atEnd : Fault} {line : String} {rest : List Char} {m : Machine}
    (hline : '\n' ∉ line.toList) (hinput : m.input = line.toList ++ '\n' :: rest) :
    Run.readLine atEnd m = .ok line { m with input := rest } := by
  have hnot : ∀ ch ∈ line.toList, (ch != '\n') = true := by
    intro ch hch
    simp only [bne_iff_ne, ne_eq]
    exact fun h => hline (h ▸ hch)
  have htake : ('\n' :: rest).takeWhile (· != '\n') = [] := rfl
  have hdrop : ('\n' :: rest).dropWhile (· != '\n') = '\n' :: rest := rfl
  rw [Run.readLine_run, hinput, if_neg (by simp), List.takeWhile_append_of_pos hnot,
    List.dropWhile_append_of_pos hnot, htake, hdrop, List.append_nil, String.ofList_toList]
  rfl

/-- An exchange reads a line and answers it. -/
theorem exchange_eq (e : Entry s.lang) {rest : List Char}
    (hinput : c.machine.input = e.line.toList ++ '\n' :: rest) :
    exchange s {} c = answer s {} e.line { c with machine :=
      { c.machine with output := c.machine.output ++ ">>> ", input := rest } } := by
  have hread : (do Run.write ">>> "; Run.readLine s.endOfInput : Run String) c.machine =
      .ok e.line { c.machine with output := c.machine.output ++ ">>> ", input := rest } := by
    have hwrite : Run.write ">>> " c.machine =
        .ok () { c.machine with output := c.machine.output ++ ">>> " } := rfl
    rw [bind_of_ok hwrite]
    exact readLine_line e.unbroken hinput
  exact (bind_of_ok (outcome_of_ok (run_of_ok hread))).trans rfl

/-- The end of the input ends the dialogue. -/
theorem exchange_of_end (hend : s.endOfInput ≠ .awaitingInput) (hinput : c.machine.input = []) :
    exchange s {} c = .ok false { c with machine :=
      { c.machine with output := c.machine.output ++ ">>> \nAlvida! 👋\n" } } := by
  have hread : (do Run.write ">>> "; Run.readLine s.endOfInput : Run String) c.machine =
      .error (.fault s.endOfInput) { c.machine with output := c.machine.output ++ ">>> " } := by
    have hwrite : Run.write ">>> " c.machine =
        .ok () { c.machine with output := c.machine.output ++ ">>> " } := rfl
    rw [bind_of_ok hwrite, Run.readLine_run, hinput]
    rfl
  have hsay : (">>> \nAlvida! 👋\n" : String) = ">>> " ++ "\nAlvida! 👋\n" := rfl
  refine (bind_of_ok (outcome_of_error (run_of_error hread))).trans ?_
  rw [hsay, ← String.append_assoc]
  cases hfault : s.endOfInput with
  | awaitingInput => exact absurd hfault hend
  | _ => rfl

theorem execute_nil (s : Setting) (m : Machine) : execute s [] m = .ok () m := by
  refine execute_eq_ok.mpr (.inl ?_)
  rw [Exec.stmts]
  rfl

/-- A line that passes is run where the lines before it have left off. Of any other only the errors
are told. -/
theorem exchange_entry (e : Entry s.lang) {m m' : Machine} (hm : m.Idle)
    (hrun : execute s (Entry.passed [e]) m = .ok () m') :
    m'.Idle ∧ ∃ out, (e.passes = false → out = "") ∧ m'.output = m.output ++ out ∧
      ∀ output errors rest,
        exchange s {}
            { machine := { m with output, input := e.line.toList ++ '\n' :: rest }, errors } =
          .ok true { machine := { m' with output := output ++ ">>> " ++ out, input := rest },
                     errors := errors ++ e.complaints } := by
  cases hpass : e.passes with
  | true =>
    have herrors : e.program.semanticErrors = [] := List.isEmpty_iff.mp hpass
    have hcomplaints : e.complaints = "" := by
      rw [Entry.complaints, herrors, List.map_nil, String.join_nil]
    rw [Entry.passed_of_passes hpass] at hrun
    obtain ⟨hm', out, hout, hbeside⟩ := hm.execute hrun
    refine ⟨hm', out, nofun, hout, fun output errors rest => ?_⟩
    have hpipeline := pipeline_of_passed e.parsed herrors
      (c := ⟨{ m with output := output ++ ">>> ", input := rest }, errors, 0⟩)
      (hbeside (output ++ ">>> ") rest)
    rw [hcomplaints, String.append_empty]
    exact (exchange_eq e rfl).trans (answer_of_pipeline hpipeline)
  | false =>
    rw [Entry.passed_of_not_passes hpass, execute_nil] at hrun
    cases hrun
    refine ⟨hm, "", fun _ => rfl, String.append_empty.symm, fun output errors rest => ?_⟩
    rw [String.append_empty]
    exact (exchange_eq e rfl).trans (answer_of_pipeline (pipeline_of_refused e.parsed hpass))

/-- The dialogue answers line after line. What it runs is what one program made of the lines that
pass does. -/
theorem exchanges_entries (hend : s.endOfInput ≠ .awaitingInput) (es : List (Entry s.lang))
    {m m' : Machine} {fuel : Nat} (hfuel : es.length < fuel) (hm : m.Idle)
    (hrun : execute s (Entry.passed es) m = .ok () m') (output errors : String) :
    ∃ spoken : List (Entry s.lang × String),
      spoken.map Prod.fst = es ∧ (∀ a ∈ spoken, a.1.passes = false → a.2 = "") ∧
      m'.output = m.output ++ String.join (spoken.map Prod.snd) ∧
      exchanges s {} fuel { machine := { m with output, input := Entry.typed es }, errors } =
        .ok () { machine := { m' with output := output ++ Entry.transcript spoken },
                 errors := errors ++ String.join (es.map Entry.complaints) } := by
  induction es generalizing m fuel output errors with
  | nil =>
    obtain ⟨n, rfl⟩ : ∃ n, fuel = n + 1 := Nat.exists_eq_add_one.mpr hfuel
    change execute s [] m = .ok () m' at hrun
    rw [execute_nil] at hrun
    cases hrun
    refine ⟨[], rfl, (fun a ha => by cases ha), ?_, ?_⟩
    · rw [List.map_nil, String.join_nil, String.append_empty]
    · have hlast := exchange_of_end hend
        (c := { machine := { m' with output, input := [] }, errors }) rfl
      rw [Entry.transcript_nil, List.map_nil, String.join_nil, String.append_empty, hm.input]
      exact (bind_of_ok hlast).trans rfl
  | cons e es ih =>
    obtain ⟨n, rfl⟩ : ∃ n, fuel = n + 1 := Nat.exists_eq_add_one.mpr (Nat.zero_lt_of_lt hfuel)
    rw [Entry.passed_cons] at hrun
    obtain ⟨m₁, hfirst, hrest⟩ := hm.execute_append e.gives_passed hrun
    obtain ⟨hm₁, out, hempty, hout, hexchange⟩ := exchange_entry e hm hfirst
    obtain ⟨spoken, hspoken, hrefused, houtput, hturns⟩ :=
      ih (Nat.lt_of_succ_lt_succ hfuel) hm₁ hrest (output ++ ">>> " ++ out) (errors ++ e.complaints)
    refine ⟨(e, out) :: spoken, ?_, ?_, ?_, ?_⟩
    · rw [List.map_cons, hspoken]
    · exact List.forall_mem_cons.mpr ⟨hempty, hrefused⟩
    · rw [houtput, hout, List.map_cons, String.join_cons, String.append_assoc]
    · have htyped : Entry.typed (e :: es) = e.line.toList ++ '\n' :: Entry.typed es := by
        simp [Entry.typed]
      rw [Entry.transcript_cons, List.map_cons, String.join_cons, htyped]
      simp only [← String.append_assoc] at hturns ⊢
      exact (bind_of_ok (hexchange output errors _)).trans hturns

theorem length_le_typed (es : List (Entry s.lang)) : es.length ≤ (Entry.typed es).length := by
  induction es with
  | nil => exact Nat.le_refl 0
  | cons e es ih =>
    have htyped : Entry.typed (e :: es) = (e.line.toList ++ ['\n']) ++ Entry.typed es := rfl
    rw [htyped, List.length_append, List.length_append, List.length_cons, List.length_singleton]
    omega

end Talk

/-- The statements of programs of one line each that stand one below the other. -/
def stacked : List Program → List Stmt
  | [] => []
  | p :: ps => p.statements ++ (stacked ps).map (Stmt.mapLines (· + 1))

theorem parse_of_sequence {lang : Lang} {source : String} {ts : List Token} {last : Token}
    {ss : List Stmt} (htokens : tokenize lang source = .ok (ts ++ [last]))
    (hend : last.kind = .eof) (hs : Sequence Stmt.Spelled ss ts)
    (hg : Stmt.grammaticalBlock ss = true) : parse lang source = .ok { statements := ss } := by
  unfold parse
  rw [htokens]
  change parseTokens lang _ = _
  rw [parseTokens, Parse.program_of_sequence lang hs hg hend]

theorem Stmt.isBare_of_gives {ss : List Stmt} (h : Stmt.givesAny ss = false) :
    ∀ s ∈ ss, s.isBare = false := by
  induction ss with
  | nil => simp
  | cons s ss ih =>
    obtain ⟨hs, hss⟩ := Bool.or_eq_false_iff.mp h
    refine List.forall_mem_cons.mpr ⟨?_, ih hss⟩
    cases s with
    | giveBack e? l => cases hs
    | _ => rfl

namespace Entry

variable {lang : Lang}

def source (e : Entry lang) : String :=
  String.ofList (stripped e.line)

theorem count_source (e : Entry lang) : e.source.toList.count '\n' = 0 := by
  have hsub : stripped e.line ⊆ e.line.toList := by
    intro ch hch
    unfold stripped Text.trimBy at hch
    rw [List.mem_reverse] at hch
    exact (List.dropWhile_sublist _).subset
      (List.mem_reverse.mp ((List.dropWhile_sublist _).subset hch))
  rw [source, String.toList_ofList]
  exact List.count_eq_zero.mpr fun hmem => e.unbroken (hsub hmem)

/-- The lines also make up one text, of which each line has the statements that it has alone. -/
theorem parse_joined : ∀ es : List (Entry lang), (∀ e ∈ es, e.passes = true) →
    ∃ p, parse lang ("\n".intercalate (es.map source)) = .ok p ∧
      p.statements = stacked (es.map program)
  | [], _ => ⟨{ statements := [] }, rfl, rfl⟩
  | [e], _ => by
    refine ⟨e.program, ?_, (List.append_nil _).symm⟩
    rw [List.map_singleton, String.intercalate_singleton]
    exact e.parsed
  | e :: e' :: es, h => by
    obtain ⟨hpass, hrest⟩ := List.forall_mem_cons.mp h
    obtain ⟨p, hp, hstacked⟩ := parse_joined (e' :: es) hrest
    obtain ⟨ts, t, hts, hspelled, hgrammar⟩ := sequence_of_parse e.parsed
    obtain ⟨us, u, hus, hspelled', hgrammar'⟩ := sequence_of_parse hp
    obtain ⟨last, hend, htokens⟩ := tokenize_append hts hus
    have hcount : (String.ofList (stripped e.line)).toList.count '\n' + 1 = 1 :=
      congrArg (· + 1) e.count_source
    have hgives : Stmt.givesAny e.program.statements = false :=
      passed_of_passes hpass ▸ e.gives_passed
    rw [hcount] at htokens
    have hall := hspelled.append (hspelled'.mapLines (f := (· + 1)) fun s _ us h => h.mapLines)
    have hblock : Stmt.grammaticalBlock (e.program.statements ++ p.statements.map
        (Stmt.mapLines (· + 1))) = true := by
      refine Stmt.grammaticalBlock_append hgrammar (fun s hs => ?_) ?_
      · exact Stmt.isBare_of_gives hgives s (List.mem_of_getLast? hs)
      · rw [← Stmt.mapLinesAll_eq_map, Stmt.grammaticalBlock_mapLines]
        exact hgrammar'
    refine ⟨⟨e.program.statements ++ p.statements.map (Stmt.mapLines (· + 1)), 1⟩, ?_, ?_⟩
    · rw [List.map_cons, List.map_cons, String.intercalate_cons_cons]
      exact parse_of_sequence htokens hend hall hblock
    · rw [hstacked]
      rfl

end Entry

/-- What the dialogue says before the first prompt. -/
def greetingText : String :=
  "Merilang v3.0.0 Interactive REPL\n" ++ "  [semantic-on]\n" ++
    "Type 'niklo' or press Ctrl+C to quit\n\n"

/-- The dialogue runs the lines that the analyser passes one by one. If the program made of them
ends without reading input, the dialogue goes on to the end of its input and leaves the same
machine; between its prompts it shows what the program prints. That program is the one of the joined
lines, but for the line numbers. What no line can do is use a name of another line: the analyser
starts anew with each, so a line that it passes has introduced the names it refers to. -/
theorem repl_runs_passed (s : Setting) (hend : s.endOfInput ≠ .awaitingInput)
    (es : List (Entry s.lang)) (m : Machine)
    (hrun : execute s (Entry.passed es) (Machine.initial []) = .ok () m) :
    (∃ spoken : List (Entry s.lang × String),
      spoken.map Prod.fst = es ∧ (∀ a ∈ spoken, a.1.passes = false → a.2 = "") ∧
      String.join (spoken.map Prod.snd) = m.output ∧
      Talk.repl s {} { machine := Machine.initial (Entry.typed es) } =
        .ok 0 { machine := { m with output := greetingText ++ Entry.transcript spoken },
                errors := String.join (es.map Entry.complaints) }) ∧
    (∃ p, parse s.lang ("\n".intercalate ((es.filter Entry.passes).map Entry.source)) = .ok p ∧
      p.statements = stacked ((es.filter Entry.passes).map Entry.program)) ∧
    ∀ e ∈ es, e.passes = true →
      Stmt.lexicalAll ownReference [] e.program.statements = true →
      Stmt.lexicalAll introduced [] e.program.statements = true := by
  have hidle : (Machine.initial []).Idle := ⟨Machine.sound_initial True [], rfl⟩
  obtain ⟨spoken, hspoken, hrefused, houtput, hturns⟩ := Talk.exchanges_entries hend es
    (Nat.lt_succ_of_le (Talk.length_le_typed es)) hidle hrun greetingText ""
  refine ⟨⟨spoken, hspoken, hrefused, ?_, ?_⟩, ?_, fun e he hpass hown => ?_⟩
  · rw [houtput]
    exact String.empty_append.symm
  · rw [String.empty_append] at hturns
    have hgreeting : Talk.greeting {} { machine := Machine.initial (Entry.typed es) } =
        .ok () { machine := { Machine.initial [] with
          output := greetingText, input := Entry.typed es } } := rfl
    refine (bind_of_ok hgreeting).trans ?_
    exact (bind_of_ok hturns).trans rfl
  · exact Entry.parse_joined _ fun e he => (List.mem_filter.mp he).2
  · exact (passed_of_semanticErrors (List.isEmpty_iff.mp hpass)).introduces hown

/-- Variables of one line are not known in the next: nothing is printed. -/
theorem repl_runs_passed_forgetful :
    let output := greetingText ++ ">>> >>> >>> \nAlvida! 👋\n"
    ∃ m errors, execute {} [.assign "x" (.literal .number (.int 10) 1) 1] (Machine.initial []) =
        .ok () m ∧
      Talk.repl {} {} { machine := Machine.initial "maan x = 10\nlikho(x)\n".toList } =
        .ok 0 { machine := { m with output }, errors } := by
  intro output
  have hassign : ∃ e : Entry .both, e.line = "maan x = 10" ∧
      e.program = { statements := [.assign "x" (.literal .number (.int 10) 1) 1] } := by
    refine ⟨⟨"maan x = 10", _, by decide, by decide +kernel, by decide +kernel, ?_⟩, rfl, rfl⟩
    cbv
  have hprint : ∃ e : Entry .both, e.line = "likho(x)" ∧
      e.program = { statements := [.print [.var "x" 1] 1] } := by
    refine ⟨⟨"likho(x)", _, by decide, by decide +kernel, by decide +kernel, ?_⟩, rfl, rfl⟩
    cbv
  obtain ⟨e, hline, hprogram⟩ := hassign
  obtain ⟨e', hline', hprogram'⟩ := hprint
  have hpasses : e.passes = true := by
    rw [Entry.passes, hprogram]
    rfl
  have hpasses' : e'.passes = false := by
    rw [Entry.passes, hprogram']
    rfl
  have hpassed : Entry.passed [e, e'] = [.assign "x" (.literal .number (.int 10) 1) 1] := by
    simp [Entry.passed, hpasses, hpasses', hprogram]
  have htyped : Entry.typed [e, e'] = "maan x = 10\nlikho(x)\n".toList := by
    simp [Entry.typed, hline, hline']
  have hrun : ∃ m, execute {} (Entry.passed [e, e']) (Machine.initial []) = .ok () m ∧
      m.output = "" := by
    rw [hpassed]
    exact ⟨_, rfl, rfl⟩
  obtain ⟨m, hrun, houtput⟩ := hrun
  obtain ⟨⟨spoken, hspoken, -, hjoin, hrepl⟩, -⟩ :=
    repl_runs_passed {} (by decide) [e, e'] m hrun
  rw [hpassed] at hrun
  rw [htyped] at hrepl
  obtain ⟨⟨_, out⟩, _, rfl, -, hspoken⟩ := List.map_eq_cons_iff.mp hspoken
  obtain ⟨⟨_, out'⟩, _, rfl, -, hspoken⟩ := List.map_eq_cons_iff.mp hspoken
  rw [List.map_eq_nil_iff.mp hspoken] at hjoin hrepl
  have hempty : out = "" ∧ out' = "" := by
    simpa [houtput, String.join_cons] using hjoin
  rw [hempty.1, hempty.2] at hrepl
  exact ⟨m, _, hrun, hrepl⟩

end Bhasha
