/-!
How a computation with a state is taken apart, and what it keeps true of its state. Readers of
tokens and runs of programs are both of this kind.
-/

namespace Lox

variable {ε σ α β : Type} {p : EStateM ε σ α} {c d : σ}

theorem bind_of_ok {a : α} (h : p c = .ok a d) (f : α → EStateM ε σ β) : (p >>= f) c = f a d := by
  change EStateM.bind p f c = f a d
  rw [EStateM.bind, h]

theorem bind_of_error {e : ε} (h : p c = .error e d) (f : α → EStateM ε σ β) :
    (p >>= f) c = .error e d := by
  change EStateM.bind p f c = .error e d
  rw [EStateM.bind, h]

theorem map_of_ok {a : α} (h : p c = .ok a d) (f : α → β) : (f <$> p) c = .ok (f a) d := by
  rw [map_eq_pure_bind, bind_of_ok h]
  rfl

/-- A sequence gives an answer if both of its parts do. -/
theorem bind_eq_ok_iff {f : α → EStateM ε σ β} {b : β} :
    (p >>= f) c = .ok b d ↔ ∃ a c', p c = .ok a c' ∧ f a c' = .ok b d := by
  constructor
  · intro h
    cases hp : p c with
    | ok a c' =>
      rw [bind_of_ok hp] at h
      exact ⟨a, c', rfl, h⟩
    | error e c' =>
      rw [bind_of_error hp] at h
      cases h
  · rintro ⟨a, c', hp, hf⟩
    rw [bind_of_ok hp, hf]

theorem map_eq_ok_iff {f : α → β} {b : β} :
    (f <$> p) c = .ok b d ↔ ∃ a, p c = .ok a d ∧ f a = b := by
  rw [map_eq_pure_bind, bind_eq_ok_iff]
  constructor
  · rintro ⟨a, _, hp, ⟨⟩⟩
    exact ⟨a, hp, rfl⟩
  · rintro ⟨a, hp, rfl⟩
    exact ⟨a, d, hp, rfl⟩

/-! ### Invariants -/

/-- The state is as `I` says, and the answer, if there is one, as `A` says. -/
def Kept (I : σ → Prop) (A : α → Prop) : EStateM.Result ε σ α → Prop
  | .ok a d => I d ∧ A a
  | .error _ d => I d

/-- From a state as `I` says the computation leads to such a state, and to an answer as `A` says. -/
def Keeps (I : σ → Prop) (A : α → Prop) (p : EStateM ε σ α) : Prop := ∀ c, I c → Kept I A (p c)

/-- Nothing is asked of the answer. -/
def Anything (_ : α) : Prop := True

variable {I : σ → Prop} {A : α → Prop} {B : β → Prop}

theorem keeps_pure {a : α} (ha : A a) : Keeps I A (pure a : EStateM ε σ α) := fun _ hc => ⟨hc, ha⟩

theorem keeps_throw (e : ε) : Keeps I A (throw e : EStateM ε σ α) := fun _ hc => hc

theorem Keeps.bind {f : α → EStateM ε σ β} (hp : Keeps I A p) (hf : ∀ a, A a → Keeps I B (f a)) :
    Keeps I B (p >>= f) := by
  intro c hc
  have hkept := hp c hc
  cases h : p c with
  | ok a d =>
    rw [h] at hkept
    rw [bind_of_ok h]
    exact hf a hkept.2 d hkept.1
  | error e d =>
    rw [h] at hkept
    rw [bind_of_error h]
    exact hkept

end Lox
