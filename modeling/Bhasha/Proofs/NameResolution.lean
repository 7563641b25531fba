import Bhasha.Proofs.AnalyserNames
import Bhasha.Proofs.PairedExecution

namespace Bhasha

variable {α : Type}

theorem Stmt.lexicalAll_of_append {ok : List String → String → Bool} {names : List String}
    {ss rest : List Stmt} (h : Stmt.lexicalAll ok names (ss ++ rest) = true) :
    Stmt.lexicalAll ok names ss = true := by
  induction ss generalizing names with
  | nil => rfl
  | cons s ss ih =>
    obtain ⟨hs, hss⟩ := Bool.and_eq_true_iff.mp h
    exact Bool.and_eq_true_iff.mpr ⟨hs, ih hss⟩

/-- The body refers only to names that have a meaning where the machine stands. -/
def Task.Served (t : Task) (m : Machine) : Prop :=
  ∃ names : List String, t.lexical introduced names = true ∧
    ∀ x ∈ names, m.scopes.isBound m.current x = true

/-- As `perform`, but a body is refused unless `guard` lets it in. -/
def performGuarded (s : Setting) (guard : Task → Machine → Bool) (refusal : Exit) :
    (budget : Nat) → Task → Run Value
  | 0, _ => throw .exhausted
  | n + 1, task => do
    if guard task (← get) then
      task.carriedOut { s with perform := performGuarded s guard refusal n, turns := n }
    else throw refusal

/-- The same run, but for what looking up a name without a meaning would end in. -/
def Pairing.otherwise (unbound : Option Fault → Option Fault) : Pairing :=
  .alike False unbound False.elim ""

namespace Pairing

instance (f : Option Fault → Option Fault) : (Pairing.otherwise f).Unlimited :=
  ⟨fun _ => trivial⟩

variable {f : Option Fault → Option Fault} {give : Prop} {m : Machine} {p q : Run α}
variable {V : α → Machine → Prop}

theorem otherwise_twin (f : Option Fault → Option Fault) (m : Machine) :
    (Pairing.otherwise f).twin m = m := by
  change { m with output := "" ++ m.output, input := m.input } = m
  rw [String.empty_append]

theorem otherwise_at (f : Option Fault → Option Fault) (input : List Char) :
    (Pairing.otherwise f).At [] (Machine.initial input) :=
  ⟨⟨Machine.hosted_initial _ input, False.elim, trivial⟩, brings_nil _ _⟩

/-- Where the second machine is the first one, so are the runs. -/
theorem Agrees.eq_of_twin {P : Pairing} (htwin : ∀ m, P.twin m = m) (hidle : ¬P.idle)
    (h : P.Agrees give m p q V) : p m = q m := by
  cases h with
  | ended a m' hp hq hl hv =>
    rw [htwin, htwin] at hq
    rw [hp, hq]
  | exited e m' hp hq hl he =>
    rw [htwin, htwin] at hq
    rw [hp, hq]
  | spared f m' hp hidle' => exact absurd hidle' hidle

theorem Agrees.eq_of_otherwise (h : (Pairing.otherwise f).Agrees give m p q V) : p m = q m :=
  h.eq_of_twin (otherwise_twin f) id

/-- A body that fits is let in. -/
theorem performs_fitting (P : Pairing) (htwin : ∀ m, P.twin m = m) {s : Setting}
    (hunbound : P.unbound s.unbound = s.unbound) (hlimits : P.upkeep.limits s.maxCallDepth)
    {guard : Task → Machine → Bool} (refusal : Exit)
    (hguard : ∀ {t k m}, P.At k.bound m → P.fit k t → guard t m = true) :
    ∀ n, P.Performs (perform s n) (performGuarded s guard refusal n)
  | 0, _, _, _, hm, _ => .throw hm.sound trivial
  | n + 1, t, k, m, hm, h => by
    have hadmits := hguard hm h
    rw [perform_succ]
    refine (agrees_carriedOut (c := { s with perform := perform s n, turns := n })
      ⟨performs_fitting P htwin hunbound hlimits refusal hguard n, hlimits⟩ t hm h).congr ?_
    rw [htwin]
    change (if guard t m = true then _ else _ : Run Value) m = _
    rw [if_pos hadmits]
    unfold second
    rw [hunbound]

/-- A body that is served is let in. -/
theorem performs_guarded (s : Setting) {guard : Task → Machine → Bool} (refusal : Exit)
    (hguard : ∀ t m, t.Served m → guard t m = true) (n : Nat) {t : Task} {names : List String}
    (hm : (Pairing.otherwise id).At names m)
    (h : (Pairing.otherwise id).Fits (t.lexical introduced names)) :
    (Pairing.otherwise id).Agrees t.gives m (perform s n t) (performGuarded s guard refusal n t)
      (Pairing.otherwise id).value := by
  refine performs_fitting _ (otherwise_twin id) rfl trivial refusal (fun {t k m} hm h => ?_) n hm
    (fits_of_lexical h)
  rw [fit_eq_lexicalFit rfl] at h
  exact hguard t m ⟨k.bound, h.resolve_left id, hm.known⟩

end Pairing

/-- The analyser and a run stand at the same point: what the analyser resolves, unless it is
registered, is among the names that have a meaning in the run, and all bodies that the run can call
find what they refer to. -/
structure Abreast (names : List String) (a : Analysis) (m : Machine) : Prop where
  covered : a.scope.Covered names
  known : ∀ x ∈ names, m.scopes.isBound m.current x = true
  sound : m.Sound False

namespace Abreast

variable {names : List String} {a a' : Analysis} {m m' : Machine} {ss : List Stmt}

theorem initial (input : List Char) : Abreast [] Analysis.initial (Machine.initial input) :=
  ⟨Analysis.covered_initial, Pairing.brings_nil () _, Machine.sound_initial False input⟩

theorem isBound (h : Abreast names a m) {x : String} (hx : (a.scope.resolve? x).isSome = true) :
    isKnown x = true ∨ m.scopes.isBound m.current x = true :=
  (h.covered x hx).symm.imp_right (h.known x)

/-- Statements lead the analyser and the run to the same point again. -/
theorem stmts (h : Abreast names a m) (hlexical : Stmt.lexicalAll introduced names ss = true)
    (ha : Analyse.stmts ss a = .ok () a') {s : Setting} {n : Nat}
    (hrun : Exec.stmts { s with perform := perform s n, turns := n } ss m = .ok () m') :
    Abreast (Stmt.bindsAll ss ++ names) a' m' := by
  have hvouches : Vouches names a.functions _ (Analyse.stmts ss) _ := Vouches.stmts ss
  have hinside := (hvouches.follows ha).inside ⟨h.covered, rfl⟩
  have hat : (Pairing.otherwise id).At names m :=
    ⟨⟨(Pairing.hosted_iff_sound rfl).mpr h.sound, False.elim, trivial⟩, h.known⟩
  have hfits := Pairing.fits_of_lexical (P := Pairing.otherwise id) (t := .statements ss)
    (.inr hlexical)
  have hagrees := Pairing.agrees_stmts (c := { s with perform := perform s n, turns := n })
    ⟨(Pairing.otherwise id).performs s trivial n, trivial⟩ ss hat hfits fun _ => trivial
  obtain ⟨-, hleads, hbrings⟩ := hagrees.of_ok hrun
  have hbehind := (hat.leads hleads).append hbrings
  exact ⟨hinside.covered, hbehind.known, (Pairing.hosted_iff_sound rfl).mp hbehind.sound.values⟩

end Abreast

/-- A program without classes, objects of its own, `padho` and imports that the analyser passes, and
that refers to none of the registered names, is run without ever looking up a name that has no
meaning: it makes no difference what that would end in. Nor does it enter a body, of a function or
of a lambda, that refers to a name without a meaning there: it makes no difference if such bodies
are refused. Between two statements of the program every name that the analyser resolves there,
unless it is a registered one, has a meaning in the run; and so it is in every block, from any point
at which the analyser and the run stand together. -/
theorem analysed_run_resolves (p : Program) (a : Analysis)
    (hown : Stmt.lexicalAll ownReference [] p.statements = true) (ha : analyse p = .ok a)
    (hclean : a.errors = []) (s : Setting) (input : List Char) :
    (∀ u u', execute { s with unbound := u } p.statements (Machine.initial input) =
      execute { s with unbound := u' } p.statements (Machine.initial input)) ∧
    (∀ guard refusal, (∀ t m, Task.Served t m → guard t m = true) → ∀ n,
      performGuarded s guard refusal n (.statements p.statements) (Machine.initial input) =
        perform s n (.statements p.statements) (Machine.initial input)) ∧
    (∀ ss rest, p.statements = ss ++ rest → ∀ n m,
      Exec.stmts { s with perform := perform s n, turns := n } ss (Machine.initial input) =
        .ok () m →
      ∀ x, ((finalState (Analyse.stmts ss) Analysis.initial).scope.resolve? x).isSome = true →
        isKnown x = true ∨ m.scopes.isBound m.current x = true) ∧
    ∀ names a₁ a₂ m₁ m₂ ss n, Abreast names a₁ m₁ →
      Stmt.lexicalAll ownReference names ss = true →
      Analyse.stmts ss a₁ = .ok () a₂ → a₂.errors = [] →
      Exec.stmts { s with perform := perform s n, turns := n } ss m₁ = .ok () m₂ →
      Abreast (Stmt.bindsAll ss ++ names) a₂ m₂ := by
  have herrors : p.semanticErrors = [] := by
    obtain ⟨a', ha', herrors⟩ := exists_analyse p
    cases ha.symm.trans ha'
    exact herrors.symm.trans hclean
  have hlexical := (passed_of_semanticErrors herrors).introduces hown
  refine ⟨fun u u' => ?_, fun guard refusal hguard n => ?_,
    fun ss rest hsplit n m hrun x hx => ?_, ?_⟩
  · exact ((Pairing.otherwise fun _ => u').agrees_execute { s with unbound := u } p.statements
      (Pairing.otherwise_at _ input) (.inr hlexical)).eq_of_otherwise
  · have hagrees := Pairing.performs_guarded s refusal hguard n (t := .statements p.statements)
      (Pairing.otherwise_at id input) (.inr hlexical)
    exact hagrees.eq_of_otherwise.symm
  · have hvouches : Vouches [] [] _ (Analyse.stmts ss) _ := Vouches.stmts ss
    obtain ⟨_, a', hanalysis, -⟩ := hvouches.settles Analysis.initial
    rw [hsplit] at hlexical
    rw [finalState_ok hanalysis] at hx
    have hstart := Abreast.initial input
    exact (hstart.stmts (Stmt.lexicalAll_of_append hlexical) hanalysis hrun).isBound hx
  · intro names a₁ a₂ m₁ m₂ ss n h hown₁ ha₁ hclean₁ hrun
    have hvouches : Vouches names a₁.functions _ (Analyse.stmts ss) _ := Vouches.stmts ss
    have hpassed := hvouches.vouches ⟨h.covered, rfl⟩ ha₁ hclean₁
    exact h.stmts (hpassed.introduces hown₁) ha₁ hrun

/-- A recursive function reached through a lambda, both of which use names from around them. -/
theorem analysed_run_resolves_closures :
    let p : Program :=
      { statements :=
          [.assign "k" (.literal .number (.int 7) 1) 1,
           .function (.mk "f" ["n"]
             [.ifElse (.binary .greater (.var "n" 2) (.literal .number (.int 0) 2) 2)
               [.giveBack (some (.call "f"
                 [.binary .subtract (.var "n" 2) (.literal .number (.int 1) 2) 2] 2)) 2] [] none 2,
              .giveBack (some (.var "k" 2)) 2] 2),
           .assign "g" (.lambda ["y"] (.call "f" [.var "y" 3] 3) 3) 3,
           .print [.call "g" [.literal .number (.int 2) 4] 4] 4] }
    Stmt.lexicalAll ownReference [] p.statements = true ∧
    (∃ a, analyse p = .ok a ∧ a.errors = []) ∧
    execute { unbound := some .interrupted } p.statements (Machine.initial []) =
      execute {} p.statements (Machine.initial []) := by
  intro p
  have hown : Stmt.lexicalAll ownReference [] p.statements = true := by decide +kernel
  have hanalysis : ∃ a, analyse p = .ok a ∧ a.errors = [] := ⟨_, rfl, rfl⟩
  refine ⟨hown, hanalysis, ?_⟩
  obtain ⟨a, ha, hclean⟩ := hanalysis
  exact (analysed_run_resolves p a hown ha hclean {} []).1 (some .interrupted) none

end Bhasha
