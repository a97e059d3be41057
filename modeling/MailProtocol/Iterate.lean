/-!
# Repeating a step

A step either leads on to a next state or stops with a result. `iterate` repeats it until it stops,
given a size of states that every step makes smaller; `iterate_eq` unfolds one round.
-/

namespace MailProtocol

variable {α β : Type}

/-- Repeat a step until it stops. -/
def iterate (step : α → α ⊕ β) (size : α → Nat)
    (shrinks : ∀ {a a' : α}, step a = .inl a' → size a' < size a) (a : α) : β :=
  match _h : step a with
  | .inl a' => iterate step size shrinks a'
  | .inr b => b
termination_by size a
decreasing_by exact shrinks _h

/-- One round: stop where the step stops, and go on where it leads on. -/
theorem iterate_eq {step : α → α ⊕ β} {size : α → Nat}
    {shrinks : ∀ {a a' : α}, step a = .inl a' → size a' < size a} (a : α) :
    iterate step size shrinks a = match step a with
      | .inl a' => iterate step size shrinks a'
      | .inr b => b := by
  rw [iterate]
  split <;> simp_all

/-- What holds at the start, is kept by every step and passes to the result holds of the result. -/
theorem iterate_induction {step : α → α ⊕ β} {size : α → Nat}
    {shrinks : ∀ {a a' : α}, step a = .inl a' → size a' < size a} {P : α → Prop} {Q : β → Prop}
    (keep : ∀ a a', P a → step a = .inl a' → P a') (stop : ∀ a b, P a → step a = .inr b → Q b)
    (a : α) (ha : P a) : Q (iterate step size shrinks a) := by
  rw [iterate_eq]
  split
  · next a' h => exact iterate_induction keep stop a' (keep a a' ha h)
  · next b h => exact stop a b ha h
termination_by size a
decreasing_by exact shrinks ‹_›

/-- Where each step of one kind is a step of another kind, both repetitions stop with the same. -/
theorem iterate_map {α' β' : Type} {step : α → α ⊕ β} {size : α → Nat}
    {shrinks : ∀ {a a' : α}, step a = .inl a' → size a' < size a} {step' : α' → α' ⊕ β'}
    {size' : α' → Nat} {shrinks' : ∀ {a a' : α'}, step' a = .inl a' → size' a' < size' a}
    {f : α → α'} {g : β → β'} (h : ∀ a, step' (f a) = (step a).map f g) (a : α) :
    iterate step' size' shrinks' (f a) = g (iterate step size shrinks a) := by
  rw [iterate_eq (f a), h, iterate_eq a]
  cases hstep : step a with
  | inl a' => exact iterate_map h a'
  | inr b => rfl
termination_by size a
decreasing_by exact shrinks ‹_›

end MailProtocol
