import Mathlib.Tactic

/-!
# Computations that may throw

A computation runs in a state and returns or throws; a throw does not undo what was done
to the state before it. `Post` is the weakest precondition of a computation at one
state, with one postcondition for returning and one for throwing. Its rules follow the
shape of a `do` block : one for each construct, and monotonicity. `Both` is the same for
two runs side by side : they end the same way, with related states.
-/

namespace Rosa

/-- A computation on the state `σ` that returns an `α` or throws an `ε`. -/
def Computation (σ ε α : Type) : Type := σ → Except ε α × σ

namespace Computation

variable {σ ε α β : Type}

instance : Monad (Computation σ ε) where
  pure a := fun s => (.ok a, s)
  bind x f := fun s =>
    match x s with
    | (.ok a, s') => f a s'
    | (.error e, s') => (.error e, s')

/-- Throw. -/
def raise (e : ε) : Computation σ ε α := fun s => (.error e, s)

/-- The state. -/
def get : Computation σ ε σ := fun s => (.ok s, s)

/-- Change the state. -/
def modify (f : σ → σ) : Computation σ ε Unit := fun s => (.ok (), f s)

/-- Throw if the condition holds. -/
def raiseIf (condition : Bool) (e : ε) : Computation σ ε Unit :=
  if condition then raise e else pure ()

theorem bind_ok {x : Computation σ ε α} {f : α → Computation σ ε β} {s s' : σ} {a : α}
    (h : x s = (.ok a, s')) : (x >>= f) s = f a s' := by
  show (match x s with
    | (.ok a, s') => f a s'
    | (.error e, s') => (.error e, s')) = _
  rw [h]

theorem bind_error {x : Computation σ ε α} {f : α → Computation σ ε β} {s s' : σ} {e : ε}
    (h : x s = (.error e, s')) : (x >>= f) s = (.error e, s') := by
  show (match x s with
    | (.ok a, s') => f a s'
    | (.error e, s') => (.error e, s')) = _
  rw [h]

/-! ## Weakest preconditions -/

/-- From `s` the computation returns with `Q` or throws with `F`. -/
def Post (x : Computation σ ε α) (s : σ) (Q : α → σ → Prop) (F : ε → σ → Prop) : Prop :=
  match x s with
  | (.ok a, s') => Q a s'
  | (.error e, s') => F e s'

variable {s : σ} {Q Q' : α → σ → Prop} {F F' : ε → σ → Prop}

theorem Post.mono {x : Computation σ ε α} (h : Post x s Q F) (hQ : ∀ a s', Q a s' → Q' a s')
    (hF : ∀ e s', F e s' → F' e s') : Post x s Q' F' := by
  unfold Post at h ⊢
  split at h
  · exact hQ _ _ h
  · exact hF _ _ h

theorem Post.and {x : Computation σ ε α} (h : Post x s Q F) (h' : Post x s Q' F') :
    Post x s (fun a s' => Q a s' ∧ Q' a s') fun e s' => F e s' ∧ F' e s' := by
  unfold Post at h h' ⊢
  split at h
  · next hx => simp only [hx] at h' ⊢; exact ⟨h, h'⟩
  · next hx => simp only [hx] at h' ⊢; exact ⟨h, h'⟩

theorem Post.bind {x : Computation σ ε β} {f : β → Computation σ ε α}
    (h : Post x s (fun b s' => Post (f b) s' Q F) F) : Post (x >>= f) s Q F := by
  unfold Post at h ⊢
  split at h
  · next b s' hx =>
    rw [bind_ok hx]
    exact h
  · next e s' hx =>
    rw [bind_error hx]
    exact h

theorem Post.pure {a : α} (h : Q a s) : Post (Pure.pure a : Computation σ ε α) s Q F := h

theorem Post.raise {e : ε} (h : F e s) : Post (Computation.raise e : Computation σ ε α) s Q F := h

theorem Post.get {Q : σ → σ → Prop} (h : Q s s) : Post (Computation.get : Computation σ ε σ) s Q F :=
  h

theorem Post.modify {f : σ → σ} {Q : Unit → σ → Prop} (h : Q () (f s)) :
    Post (Computation.modify f : Computation σ ε Unit) s Q F := h

theorem Post.raiseIf {condition : Bool} {e : ε} {Q : Unit → σ → Prop}
    (ht : condition = true → F e s) (hf : condition = false → Q () s) :
    Post (Computation.raiseIf condition e : Computation σ ε Unit) s Q F := by
  cases condition with
  | false => exact hf rfl
  | true => exact ht rfl

/-- The final state, whichever way the computation ends. -/
theorem Post.final {x : Computation σ ε α} {P : σ → Prop}
    (h : Post x s (fun _ s' => P s') fun _ s' => P s') : P (x s).2 := by
  unfold Post at h
  split at h <;> next hx => simpa [hx] using h

/-! ## Two runs -/

/-- From `s` and `t` the two computations return the same with `Q`, or throw the same with
`F`. -/
def Both (x y : Computation σ ε α) (s t : σ) (Q : α → σ → σ → Prop) (F : σ → σ → Prop) : Prop :=
  match x s, y t with
  | (.ok a, s'), (.ok b, t') => a = b ∧ Q a s' t'
  | (.error e, s'), (.error e', t') => e = e' ∧ F s' t'
  | _, _ => False

section

variable {t : σ} {Q Q' : α → σ → σ → Prop} {F F' : σ → σ → Prop}

theorem Both.ok {x y : Computation σ ε α} {a : α} {s' t' : σ} (hx : x s = (.ok a, s'))
    (hy : y t = (.ok a, t')) (h : Q a s' t') : Both x y s t Q F := by
  simp only [Both, hx, hy]
  exact ⟨trivial, h⟩

theorem Both.error {x y : Computation σ ε α} {e : ε} {s' t' : σ} (hx : x s = (.error e, s'))
    (hy : y t = (.error e, t')) (h : F s' t') : Both x y s t Q F := by
  simp only [Both, hx, hy]
  exact ⟨trivial, h⟩

/-- How two such runs end. -/
theorem Both.cases {x y : Computation σ ε α} (h : Both x y s t Q F) :
    (∃ a s' t', x s = (.ok a, s') ∧ y t = (.ok a, t') ∧ Q a s' t') ∨
      ∃ e s' t', x s = (.error e, s') ∧ y t = (.error e, t') ∧ F s' t' := by
  unfold Both at h
  split at h
  · next a s' b t' hx hy =>
    obtain ⟨rfl, hq⟩ := h
    exact .inl ⟨a, s', t', hx, hy, hq⟩
  · next e s' e' t' hx hy =>
    obtain ⟨rfl, hf⟩ := h
    exact .inr ⟨e, s', t', hx, hy, hf⟩
  · exact h.elim

theorem Both.mono {x y : Computation σ ε α} (h : Both x y s t Q F)
    (hQ : ∀ a s' t', Q a s' t' → Q' a s' t') (hF : ∀ s' t', F s' t' → F' s' t') :
    Both x y s t Q' F' := by
  obtain ⟨a, s', t', hx, hy, hq⟩ | ⟨e, s', t', hx, hy, hf⟩ := h.cases
  · exact .ok hx hy (hQ a s' t' hq)
  · exact .error hx hy (hF s' t' hf)

theorem Both.bind {R : β → σ → σ → Prop} {x y : Computation σ ε β} {f g : β → Computation σ ε α}
    (h : Both x y s t R F) (hf : ∀ b s' t', R b s' t' → Both (f b) (g b) s' t' Q F) :
    Both (x >>= f) (y >>= g) s t Q F := by
  obtain ⟨b, s', t', hx, hy, hr⟩ | ⟨e, s', t', hx, hy, hF⟩ := h.cases
  · have hb := hf b s' t' hr
    simp only [Both, bind_ok hx, bind_ok hy]
    exact hb
  · exact .error (bind_error hx) (bind_error hy) hF

theorem Both.pure {a : α} (h : Q a s t) :
    Both (Pure.pure a : Computation σ ε α) (Pure.pure a) s t Q F := ⟨rfl, h⟩

theorem Both.raise {e : ε} (h : F s t) :
    Both (Computation.raise e : Computation σ ε α) (Computation.raise e) s t Q F := ⟨rfl, h⟩

theorem Both.get_bind {f g : σ → Computation σ ε α} (h : Both (f s) (g t) s t Q F) :
    Both (Computation.get >>= f) (Computation.get >>= g) s t Q F := h

theorem Both.modify {f g : σ → σ} {Q : Unit → σ → σ → Prop} (h : Q () (f s) (g t)) :
    Both (Computation.modify f : Computation σ ε Unit) (Computation.modify g) s t Q F := ⟨rfl, h⟩

theorem Both.raiseIf {condition : Bool} {e : ε} {Q : Unit → σ → σ → Prop}
    (ht : condition = true → F s t) (hf : condition = false → Q () s t) :
    Both (Computation.raiseIf condition e : Computation σ ε Unit)
      (Computation.raiseIf condition e) s t Q F := by
  cases condition with
  | false => exact ⟨rfl, hf rfl⟩
  | true => exact ⟨rfl, ht rfl⟩

end

end Computation

end Rosa
