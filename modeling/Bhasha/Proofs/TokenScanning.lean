import Bhasha.Proofs.SourcePieces

namespace Bhasha

open Lexeme

namespace Scan

/-- From `s`, piece after piece was read; these are the tokens, and `s'` is where that led. -/
inductive Scanned (lang : Lang) : Scanner → List Token → Scanner → Prop
  | done {s} : Scanned lang s [] s
  | piece {s f n ts s'} : Piece s.rest f n → Scanned lang (s.skip n) ts s' →
    Scanned lang s ((f.map s.token).toList ++ ts) s'
  | illegal {s s₁ c cs ts s'} : s.rest = c :: cs → Illegal c cs →
    record lang (unexpected (some c)) s = .ok () s₁ → Scanned lang s₁ ts s' → Scanned lang s ts s'

section

variable {lang : Lang} {s s₁ s' : Scanner} {ts us : List Token}

theorem Scanned.trans (h : Scanned lang s ts s₁) (h' : Scanned lang s₁ us s') :
    Scanned lang s (ts ++ us) s' := by
  induction h with
  | done => exact h'
  | piece hp _ ih =>
    rw [List.append_assoc]
    exact .piece hp (ih h')
  | illegal hrest hc hr _ ih => exact .illegal hrest hc hr (ih h')

theorem scanned_gap (lang : Lang) (s : Scanner) : Scanned lang s [] (s.skip s.gapLength) := by
  generalize hn : s.gapLength = n
  induction n generalizing s with
  | zero => exact .done
  | succ n ih =>
    rcases s.gapLength_cases with hzero | ⟨c, cs, hrest, hc, hsucc⟩
    · omega
    · have hpiece : Piece s.rest none 1 := hrest ▸ .gap hc
      exact .piece hpiece (ih s.next (by omega))

theorem record_ok {m : String} (h : record lang m s = .ok () s₁) :
    ∃ d, s₁ = Scanner.skip 1 { s with errors := s.errors ++ [d] } := by
  obtain ⟨d, s₂, hd, h⟩ := bind_eq_ok h
  have hd := bind_get_ok hd
  cases hf : (Diagnostic.scanned m s.line s.column).format lang with
  | ok _ =>
    simp only [hf] at hd
    cases hd
    cases h
    exact ⟨_, rfl⟩
  | error f =>
    simp only [hf] at hd
    cases hd

/-- What a turn does; the source gets shorter unless it is at an end. -/
theorem turn_ok {t? : Option Token} (h : turn lang s = .ok t? s₁) :
    Scanned lang s t?.toList s₁ ∧ (s₁.rest = [] ∨ s₁.rest.length < s.rest.length) := by
  rw [turn_eq] at h
  have hgap := scanned_gap lang s
  have hlen : (s.skip s.gapLength).rest.length ≤ s.rest.length := by simp
  have hhead := s.not_gap_of_mem_head?
  generalize s.skip s.gapLength = s₀ at h hgap hlen hhead
  rcases dispatch_ok hhead h with ⟨hrest, rfl, rfl⟩ | ⟨f, n, hp, rfl, rfl⟩ |
    ⟨c, cs, hrest, hc, rfl, hrecord⟩
  · exact ⟨hgap, .inl hrest⟩
  · obtain ⟨hpos, hle⟩ := hp.length
    have hpiece : Scanned lang s₀ (f.map s₀.token).toList (s₀.skip n) := by
      simpa using Scanned.piece hp .done
    refine ⟨hgap.trans hpiece, .inr ?_⟩
    rw [Scanner.rest_skip, List.length_drop]
    omega
  · refine ⟨hgap.trans (.illegal hrest hc hrecord .done), .inr ?_⟩
    obtain ⟨d, rfl⟩ := record_ok hrecord
    rw [hrest] at hlen
    simp only [Scanner.rest_skip, hrest, List.length_drop, List.length_cons] at hlen ⊢
    omega

theorem turns_succ (n : Nat) (found : List Token) (s : Scanner) :
    turns lang (n + 1) found s = (if s.rest.isEmpty then pure found.reverse else do
      match ← turn lang with
      | some t => turns lang n (t :: found)
      | none => turns lang n found) s :=
  rfl

theorem turns_ok {n : Nat} {found : List Token} {s : Scanner} (hn : s.rest.length ≤ n)
    (h : turns lang n found s = .ok ts s') :
    ∃ us, ts = found.reverse ++ us ∧ Scanned lang s us s' ∧ s'.rest = [] := by
  induction n generalizing found s with
  | zero =>
    cases h
    exact ⟨[], by simp, .done, List.length_eq_zero_iff.mp (Nat.le_zero.mp hn)⟩
  | succ n ih =>
    rw [turns_succ] at h
    rcases ite_ok h with ⟨hempty, h⟩ | ⟨-, h⟩
    · cases h
      exact ⟨[], by simp, .done, List.isEmpty_iff.mp hempty⟩
    · obtain ⟨t?, s₁, hturn, h⟩ := bind_eq_ok h
      obtain ⟨hscan, hlen⟩ := turn_ok hturn
      have hn₁ : s₁.rest.length ≤ n := by
        rcases hlen with hnil | hlt
        · rw [hnil]
          exact Nat.zero_le n
        · omega
      cases t? with
      | some t =>
        obtain ⟨us, rfl, hus, hend⟩ := ih hn₁ h
        exact ⟨t :: us, by simp, hscan.trans hus, hend⟩
      | none =>
        obtain ⟨us, rfl, hus, hend⟩ := ih hn₁ h
        exact ⟨us, rfl, hscan.trans hus, hend⟩

theorem Scanned.next_of_gap {c : Char} {cs : List Char} (h : Scanned lang s ts s')
    (hend : s'.rest = []) (hrest : s.rest = c :: cs) (hc : isGap c = true) :
    Scanned lang s.next ts s' := by
  cases h with
  | done =>
    rw [hrest] at hend
    cases hend
  | piece hp h =>
    rw [hrest] at hp
    obtain ⟨rfl, rfl⟩ := hp.of_gap hc
    exact h
  | illegal hrest' hc' =>
    rw [hrest] at hrest'
    cases hrest'
    rw [hc'.gap] at hc
    cases hc

theorem Scanned.behind_gap {s : Scanner} (h : Scanned lang s ts s') (hend : s'.rest = []) :
    Scanned lang (s.skip s.gapLength) ts s' := by
  generalize hn : s.gapLength = n
  induction n generalizing s with
  | zero => exact h
  | succ n ih =>
    rcases s.gapLength_cases with hzero | ⟨c, cs, hrest, hc, hsucc⟩
    · omega
    · exact ih (h.next_of_gap hend hrest hc) (by omega)

theorem Scanned.turn (h : Scanned lang s ts s') (hend : s'.rest = []) :
    ∃ t? s₁ us, turn lang s = .ok t? s₁ ∧ ts = t?.toList ++ us ∧ Scanned lang s₁ us s' := by
  have h := h.behind_gap hend
  have hhead := s.not_gap_of_mem_head?
  rw [turn_eq]
  generalize s.skip s.gapLength = s₀ at h hhead
  cases h with
  | done =>
    rw [hend]
    exact ⟨none, _, [], rfl, rfl, .done⟩
  | piece hp h => exact ⟨_, _, _, dispatch_piece hhead hp, rfl, h⟩
  | illegal hrest hc hrecord h => exact ⟨_, _, _, dispatch_illegal hrest hc hrecord, rfl, h⟩

theorem Scanned.of_nil (h : Scanned lang s ts s') (hs : s.rest = []) : ts = [] ∧ s' = s := by
  cases h with
  | done => exact ⟨rfl, rfl⟩
  | piece hp =>
    have hlen := hp.length
    rw [hs, List.length_nil] at hlen
    omega
  | illegal hrest => rw [hs] at hrest; cases hrest

theorem turns_of_scanned {n : Nat} {found : List Token} {s : Scanner} {ts : List Token}
    (hn : s.rest.length ≤ n) (h : Scanned lang s ts s') (hend : s'.rest = []) :
    turns lang n found s = .ok (found.reverse ++ ts) s' := by
  induction n generalizing found s ts with
  | zero =>
    obtain ⟨rfl, rfl⟩ := h.of_nil (List.length_eq_zero_iff.mp (Nat.le_zero.mp hn))
    rw [List.append_nil]
    rfl
  | succ n ih =>
    rw [turns_succ]
    cases hempty : s.rest.isEmpty with
    | true =>
      obtain ⟨rfl, rfl⟩ := h.of_nil (List.isEmpty_iff.mp hempty)
      rw [List.append_nil]
      rfl
    | false =>
      obtain ⟨t?, s₁, us, hturn, rfl, hus⟩ := h.turn hend
      -- Unless nothing is left, the turn has made the text shorter, so the fuel is enough.
      have hn₁ : s₁.rest.length ≤ n := by
        rcases (turn_ok hturn).2 with hnil | hlt
        · rw [hnil]
          exact Nat.zero_le n
        · omega
      rw [if_neg Bool.false_ne_true, bind_of_ok hturn]
      cases t? with
      | some t =>
        dsimp only
        rw [ih hn₁ hus]
        simp
      | none => exact ih hn₁ hus

/-- The tokens of a text are those of its pieces, and the end mark. -/
theorem allTokens_iff {s : Scanner} :
    allTokens lang s = .ok ts s' ↔
      ∃ us, Scanned lang s us s' ∧ s'.rest = [] ∧ ts = us ++ [s'.token (.eof, .none)] := by
  constructor
  · intro h
    obtain ⟨us, s₁, hturns, h⟩ := bind_eq_ok (bind_get_ok h)
    obtain ⟨us, rfl, hscan, hend⟩ := turns_ok (Nat.le_refl _) hturns
    cases h
    exact ⟨us, hscan, hend, rfl⟩
  · rintro ⟨us, hscan, hend, rfl⟩
    exact bind_of_ok (turns_of_scanned (Nat.le_refl _) hscan hend)

theorem tokens_iff {s : Scanner} :
    tokens lang s = .ok ts s' ↔ allTokens lang s = .ok ts s' ∧ s'.errors = [] := by
  constructor
  · intro h
    obtain ⟨us, s₁, hall, h⟩ := bind_eq_ok h
    have h : (if s₁.errors.isEmpty then pure us
      else throw (.diagnostic (Diagnostic.lexerCollection lang s₁.errors)) : Scan _) s₁ =
        .ok ts s' := h
    rcases ite_ok h with ⟨he, h⟩ | ⟨-, h⟩
    · obtain ⟨rfl, rfl⟩ := pure_ok h
      exact ⟨hall, List.isEmpty_iff.mp he⟩
    · exact absurd h throw_ne_ok
  · rintro ⟨hall, he⟩
    have hrun : tokens lang s = (if s'.errors.isEmpty then pure ts
      else throw (.diagnostic (Diagnostic.lexerCollection lang s'.errors)) : Scan _) s' :=
        bind_of_ok hall
    rw [hrun, he]
    rfl

end

theorem Scanned.fits {lang : Lang} {s s' : Scanner} {ts : List Token} (h : Scanned lang s ts s') :
    ∀ t ∈ ts, t.Fits ∧ t.kind ≠ .eof := by
  induction h with
  | done => exact nofun
  | @piece s f n ts s' hp _ ih =>
    cases f with
    | none => exact ih
    | some f => exact List.forall_mem_cons.mpr ⟨hp.fits s, ih⟩
  | illegal _ _ _ _ ih => exact ih

theorem complete_of_allTokens {lang : Lang} {s s' : Scanner} {ts : List Token}
    (h : allTokens lang s = .ok ts s') : Complete ts := by
  obtain ⟨us, hscan, -, rfl⟩ := allTokens_iff.mp h
  refine ⟨?_, us, _, rfl, rfl, fun t ht => (hscan.fits t ht).2⟩
  simp only [List.mem_append, List.mem_singleton]
  rintro t (ht | rfl)
  · exact (hscan.fits t ht).1
  · rfl

end Scan

theorem tokenize_eq_ok {lang : Lang} {source : String} {ts : List Token} :
    tokenize lang source = .ok ts ↔
      ∃ s, Scan.allTokens lang (Scanner.ofSource source.toList) = .ok ts s ∧ s.errors = [] := by
  unfold tokenize
  constructor
  · intro h
    split at h
    · rename_i htokens
      cases h
      exact ⟨_, Scan.tokens_iff.mp htokens⟩
    · cases h
  · rintro ⟨s, hall, herrors⟩
    rw [Scan.tokens_iff.mpr ⟨hall, herrors⟩]

theorem complete_of_tokenize {lang : Lang} {source : String} {ts : List Token}
    (h : tokenize lang source = .ok ts) : Complete ts := by
  obtain ⟨s, hall, -⟩ := tokenize_eq_ok.mp h
  exact Scan.complete_of_allTokens hall

theorem complete_of_tokenizeSafe {lang : Lang} {source : String} {ts : List Token}
    {ds : List Diagnostic} (h : tokenizeSafe lang source = .ok (ts, ds)) : Complete ts := by
  unfold tokenizeSafe at h
  split at h
  · rename_i hall
    cases h
    exact Scan.complete_of_allTokens hall
  · cases h

end Bhasha
