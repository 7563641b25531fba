import Mathlib.Order.Defs.Unbundled

namespace Bhasha

variable {ε σ α β : Type} {R : σ → σ → Prop}

/-- The state in which `p` ends, with a value or without. -/
def finalState (p : EStateM ε σ α) (s : σ) : σ :=
  match p s with
  | .ok _ s' => s'
  | .error _ s' => s'

theorem finalState_ok {p : EStateM ε σ α} {s s' : σ} {a : α} (h : p s = .ok a s') :
    finalState p s = s' := by
  simp only [finalState, h]

theorem finalState_error {p : EStateM ε σ α} {s s' : σ} {e : ε} (h : p s = .error e s') :
    finalState p s = s' := by
  simp only [finalState, h]

/-- Does `p` end with a value? -/
def succeeds (p : EStateM ε σ α) (s : σ) : Bool :=
  match p s with
  | .ok _ _ => true
  | .error _ _ => false

theorem ok_of_succeeds {p : EStateM ε σ Unit} {s : σ} (h : succeeds p s = true) :
    p s = .ok () (finalState p s) := by
  unfold succeeds at h
  unfold finalState
  cases hp : p s with
  | ok a s' => rfl
  | error e s' =>
    rw [hp] at h
    cases h

/-- A bind that succeeds has succeeded in both of its parts. -/
theorem bind_eq_ok {p : EStateM ε σ α} {f : α → EStateM ε σ β} {s s' : σ} {b : β}
    (h : (p >>= f) s = .ok b s') : ∃ a s₁, p s = .ok a s₁ ∧ f a s₁ = .ok b s' := by
  change EStateM.bind p f s = .ok b s' at h
  unfold EStateM.bind at h
  cases hp : p s with
  | ok a s₁ => exact ⟨a, s₁, rfl, by simpa only [hp] using h⟩
  | error e s₁ => simp only [hp] at h; cases h

theorem bind_of_ok {p : EStateM ε σ α} {f : α → EStateM ε σ β} {s s₁ : σ} {a : α}
    (h : p s = .ok a s₁) : (p >>= f) s = f a s₁ := by
  change EStateM.bind p f s = _
  simp only [EStateM.bind, h]

theorem bind_of_error {p : EStateM ε σ α} {f : α → EStateM ε σ β} {s s₁ : σ} {e : ε}
    (h : p s = .error e s₁) : (p >>= f) s = .error e s₁ := by
  change EStateM.bind p f s = _
  simp only [EStateM.bind, h]

/-- A bind that fails has failed in one of its parts. -/
theorem bind_eq_error {p : EStateM ε σ α} {f : α → EStateM ε σ β} {s s' : σ} {e : ε}
    (h : (p >>= f) s = .error e s') :
    p s = .error e s' ∨ ∃ a s₁, p s = .ok a s₁ ∧ f a s₁ = .error e s' := by
  cases hp : p s with
  | ok a s₁ => exact .inr ⟨a, s₁, rfl, by rwa [bind_of_ok hp] at h⟩
  | error e' s₁ =>
    rw [bind_of_error hp] at h
    cases h
    exact .inl rfl

theorem bind_get (f : σ → EStateM ε σ β) (s : σ) : (get >>= f) s = f s s :=
  rfl

theorem bind_get_ok {f : σ → EStateM ε σ β} {s s' : σ} {b : β}
    (h : (get >>= f) s = .ok b s') : f s s = .ok b s' :=
  h

theorem map_eq_ok {p : EStateM ε σ α} {f : α → β} {s s' : σ} {b : β}
    (h : (f <$> p) s = .ok b s') : ∃ a, p s = .ok a s' ∧ f a = b := by
  change EStateM.map f p s = .ok b s' at h
  unfold EStateM.map at h
  cases hp : p s with
  | ok a s₁ =>
    simp only [hp] at h
    cases h
    exact ⟨a, rfl, rfl⟩
  | error e s₁ => simp only [hp] at h; cases h

theorem map_eq_error {p : EStateM ε σ α} {f : α → β} {s s' : σ} {e : ε}
    (h : (f <$> p) s = .error e s') : p s = .error e s' := by
  change EStateM.map f p s = .error e s' at h
  unfold EStateM.map at h
  cases hp : p s with
  | ok a s₁ => simp only [hp] at h; cases h
  | error e' s₁ =>
    simp only [hp] at h
    cases h
    rfl

theorem map_of_error {p : EStateM ε σ α} {f : α → β} {s s' : σ} {e : ε} (h : p s = .error e s') :
    (f <$> p) s = .error e s' := by
  change EStateM.map f p s = _
  simp only [EStateM.map, h]

theorem map_of_ok {p : EStateM ε σ α} {f : α → β} {s s' : σ} {a : α} (h : p s = .ok a s') :
    (f <$> p) s = .ok (f a) s' := by
  change EStateM.map f p s = _
  simp only [EStateM.map, h]

theorem pure_ok {a b : α} {s s' : σ} (h : (pure a : EStateM ε σ α) s = .ok b s') :
    a = b ∧ s = s' := by
  cases h
  exact ⟨rfl, rfl⟩

theorem throw_ne_ok {e : ε} {a : α} {s s' : σ} : (throw e : EStateM ε σ α) s ≠ .ok a s' :=
  nofun

theorem ite_ok {t : Bool} {p q : EStateM ε σ α} {s s' : σ} {a : α}
    (h : (if t then p else q) s = .ok a s') :
    t = true ∧ p s = .ok a s' ∨ t = false ∧ q s = .ok a s' := by
  cases t with
  | true => exact .inl ⟨rfl, h⟩
  | false => exact .inr ⟨rfl, h⟩

theorem tryCatch_of_ok {p : EStateM ε σ α} {handler : ε → EStateM ε σ α} {s s' : σ} {a : α}
    (h : p s = .ok a s') : tryCatch p handler s = .ok a s' := by
  change EStateM.tryCatch p handler s = _
  unfold EStateM.tryCatch
  rw [h]

theorem tryCatch_of_error {p : EStateM ε σ α} {handler : ε → EStateM ε σ α} {s s₁ : σ} {e : ε}
    (h : p s = .error e s₁) : tryCatch p handler s = handler e s₁ := by
  change EStateM.tryCatch p handler s = _
  unfold EStateM.tryCatch
  rw [h]
  rfl

/-- Of a computation with a handler that succeeds, either the one or the other has succeeded. -/
theorem tryCatch_eq_ok {p : EStateM ε σ α} {handler : ε → EStateM ε σ α} {s s' : σ} {a : α}
    (h : tryCatch p handler s = .ok a s') :
    p s = .ok a s' ∨ ∃ e s₁, p s = .error e s₁ ∧ handler e s₁ = .ok a s' := by
  change EStateM.tryCatch p handler s = .ok a s' at h
  unfold EStateM.tryCatch at h
  cases hp : p s with
  | ok b s₁ =>
    simp only [hp] at h
    exact .inl h
  | error e s₁ =>
    simp only [hp] at h
    exact .inr ⟨e, s₁, rfl, h⟩

/-- However `p` ends, `R` relates the state before it to the state after it. -/
def Keeps (R : σ → σ → Prop) (p : EStateM ε σ α) : Prop :=
  ∀ s, R s (finalState p s)

namespace Keeps

theorem pure [Std.Refl R] (a : α) : Keeps R (Pure.pure a : EStateM ε σ α) :=
  fun s => Std.Refl.refl s

theorem throw [Std.Refl R] (e : ε) : Keeps R (MonadExcept.throw e : EStateM ε σ α) :=
  fun s => Std.Refl.refl s

theorem get [Std.Refl R] : Keeps R (MonadState.get : EStateM ε σ σ) :=
  fun s => Std.Refl.refl s

theorem modified {f : σ → σ} (h : ∀ s, R s (f s)) : Keeps R (modify f : EStateM ε σ PUnit) :=
  h

theorem modifyGet {f : σ → α × σ} (h : ∀ s, R s (f s).2) :
    Keeps R (MonadStateOf.modifyGet f : EStateM ε σ α) :=
  h

theorem bind [IsTrans σ R] {p : EStateM ε σ α} {f : α → EStateM ε σ β} (hp : Keeps R p)
    (hf : ∀ a, Keeps R (f a)) : Keeps R (p >>= f) := by
  intro s
  have hs := hp s
  cases h : p s with
  | ok a s₁ =>
    rw [finalState_ok h] at hs
    have hfin : finalState (p >>= f) s = finalState (f a) s₁ := by
      simp only [finalState, bind_of_ok h]
    rw [hfin]
    exact trans_of R hs (hf a s₁)
  | error e s₁ =>
    rw [finalState_error h] at hs
    rwa [finalState_error (bind_of_error h)]

theorem bind_bind [IsTrans σ R] {γ : Type} {p : EStateM ε σ α} {f : α → EStateM ε σ β}
    {g : β → EStateM ε σ γ} (h : Keeps R (p >>= f)) (hg : ∀ b, Keeps R (g b)) :
    Keeps R (p >>= fun a => f a >>= g) := by
  rw [← bind_assoc]
  exact h.bind hg

theorem map {p : EStateM ε σ α} (hp : Keeps R p) (f : α → β) : Keeps R (f <$> p) := by
  intro s
  have hs := hp s
  have hfin : finalState (f <$> p) s = finalState p s := by
    change finalState (EStateM.map f p) s = _
    unfold finalState EStateM.map
    cases p s <;> rfl
  rwa [hfin]

theorem tryCatch [IsTrans σ R] {p : EStateM ε σ α} {handler : ε → EStateM ε σ α} (hp : Keeps R p)
    (hh : ∀ e, Keeps R (handler e)) : Keeps R (MonadExcept.tryCatch p handler) := by
  intro s
  have hs := hp s
  have hrun : MonadExcept.tryCatch p handler s = EStateM.tryCatch p handler s := rfl
  unfold EStateM.tryCatch at hrun
  cases h : p s with
  | ok a s₁ =>
    rw [finalState_ok h] at hs
    rw [h] at hrun
    rwa [finalState_ok hrun]
  | error e s₁ =>
    rw [finalState_error h] at hs
    rw [h] at hrun
    have hfin : finalState (MonadExcept.tryCatch p handler) s = finalState (handler e) s₁ := by
      simp only [finalState, hrun]
      rfl
    rw [hfin]
    exact trans_of R hs (hh e s₁)

/-- A computation that ends in the same states as `p` keeps what `p` keeps. -/
theorem congr {p : EStateM ε σ α} {q : EStateM ε σ β} (hp : Keeps R p)
    (h : ∀ s, finalState q s = finalState p s) : Keeps R q :=
  fun s => h s ▸ hp s

theorem mono {R' : σ → σ → Prop} {p : EStateM ε σ α} (hp : Keeps R p)
    (h : ∀ s s', R s s' → R' s s') : Keeps R' p :=
  fun s => h _ _ (hp s)

theorem discard {p : EStateM ε σ α} (hp : Keeps R p) : Keeps R (Functor.discard p) :=
  hp.map _

theorem ite {c : Prop} [Decidable c] {p q : EStateM ε σ α} (hp : Keeps R p) (hq : Keeps R q) :
    Keeps R (if c then p else q) := by
  split
  · exact hp
  · exact hq

end Keeps

end Bhasha
