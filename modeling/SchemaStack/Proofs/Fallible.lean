/-!
# Computations that may fail

A computation in steps that ends with a result has a result at every step.
-/

namespace SchemaStack

theorem ok_bind {ε α β : Type} (a : α) (f : α → Except ε β) :
    ((Except.ok a : Except ε α) >>= f) = f a := rfl

/-- Where steps in a row have a result, the first one has one that the others go on from. -/
theorem bind_eq_ok {ε α β : Type} {x : Except ε α} {f : α → Except ε β} {b : β}
    (h : (x >>= f) = .ok b) : ∃ a, x = .ok a ∧ f a = .ok b := by
  cases x with
  | error e => cases h
  | ok a => exact ⟨a, rfl, h⟩

theorem bind_eq_error {ε α β : Type} {x : Except ε α} {f : α → Except ε β} {e : ε}
    (h : (x >>= f) = .error e) : x = .error e ∨ ∃ a, x = .ok a ∧ f a = .error e := by
  cases x with
  | error e' => exact Or.inl (congrArg _ (Except.error.inj h))
  | ok a => exact Or.inr ⟨a, rfl, h⟩

theorem map_eq_ok {ε α β : Type} {x : Except ε α} {f : α → β} {b : β}
    (h : x.map f = .ok b) : ∃ a, x = .ok a ∧ f a = b := by
  cases x with
  | error e => cases h
  | ok a => exact ⟨a, rfl, Except.ok.inj h⟩

theorem map_eq_error {ε α β : Type} {x : Except ε α} {f : α → β} {e : ε}
    (h : x.map f = .error e) : x = .error e := by
  cases x with
  | error e' => exact congrArg _ (Except.error.inj h)
  | ok a => cases h

/-- A check of the result shows that there is one. -/
theorem exists_of_any {ε α : Type} {x : Except ε α} {p : α → Bool}
    (h : x.toOption.any p = true) : ∃ a, x = .ok a ∧ p a = true := by
  cases x with
  | error e => cases h
  | ok a => exact ⟨a, rfl, h⟩

/-- Computations of which one has a result where the other has the same one. -/
theorem cases_of_toOption_eq {ε α : Type} {x y : Except ε α} (h : x.toOption = y.toOption) :
    (∃ a, x = .ok a ∧ y = .ok a) ∨ ∃ e e', x = .error e ∧ y = .error e' := by
  cases x with
  | error e =>
    cases y with
    | error e' => exact Or.inr ⟨e, e', rfl, rfl⟩
    | ok a => cases h
  | ok a =>
    cases y with
    | error e' => cases h
    | ok b =>
      cases h
      exact Or.inl ⟨a, rfl, rfl⟩

theorem toOption_bind {ε α β : Type} (x : Except ε α) (f : α → Except ε β) :
    (x >>= f).toOption = x.toOption.bind fun a => (f a).toOption := by
  cases x <;> rfl

theorem toOption_eq_some_iff {ε α : Type} {x : Except ε α} {a : α} :
    x.toOption = some a ↔ x = .ok a := by
  cases x <;> simp [Except.toOption]

theorem map_map {ε α β γ : Type} (x : Except ε α) (f : α → β) (g : β → γ) :
    (x.map f).map g = x.map fun a => g (f a) := by
  cases x with
  | error e => rfl
  | ok a => rfl

/-! ## What can come of a computation -/

/-- A refusal has the one property, a result the other. -/
def Outcome {ε α : Type} (refusal : ε → Prop) (result : α → Prop) : Except ε α → Prop
  | .error e => refusal e
  | .ok a => result a

section Outcome

variable {ε α β : Type} {refusal : ε → Prop} {result : α → Prop} {result' : β → Prop}
  {x : Except ε α}

theorem Outcome.error {e : ε} (h : Outcome refusal result x) (hx : x = .error e) : refusal e := by
  rwa [hx] at h

theorem Outcome.ok {a : α} (h : Outcome refusal result x) (hx : x = .ok a) : result a := by
  rwa [hx] at h

/-- What is known of the result of a step is what the next one may start from. -/
theorem outcome_bind {f : α → Except ε β} (h : Outcome refusal result x)
    (next : ∀ a, result a → Outcome refusal result' (f a)) :
    Outcome refusal result' (x >>= f) := by
  cases x with
  | error e => exact h
  | ok a => exact next a h

theorem outcome_map {f : α → β} (h : Outcome refusal result x)
    (next : ∀ a, result a → result' (f a)) : Outcome refusal result' (x.map f) := by
  cases x with
  | error e => exact h
  | ok a => exact next a h

end Outcome

end SchemaStack
