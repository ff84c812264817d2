import Mathlib.Tactic.Common

/-!
# Inversion and postconditions for `Except`

A computation in `Except ε` that ends in `.ok` went through `.ok` at every
bind. The inversion lemmas take such a chain apart one bind at a time, so that
a statement about a `do` block never has to unfold the monad. `Sat` goes the
other way: what all results of a computation satisfy is put together from what
the results of its parts do.
-/

namespace Except

universe u v

variable {ε : Type u} {α β : Type v}

/-- A bind ends in `.ok` exactly when both of its parts do. -/
theorem bind_eq_ok_iff {x : Except ε α} {f : α → Except ε β} {b : β} :
    (x >>= f) = .ok b ↔ ∃ a, x = .ok a ∧ f a = .ok b := by
  cases x with
  | error e => simp [bind, Except.bind]
  | ok a => simp [bind, Except.bind]

/-- A bind ends in an error exactly when its first part does, or its second. -/
theorem bind_eq_error_iff {x : Except ε α} {f : α → Except ε β} {e : ε} :
    (x >>= f) = .error e ↔ x = .error e ∨ ∃ a, x = .ok a ∧ f a = .error e := by
  cases x with
  | error e' => simp [bind, Except.bind]
  | ok a => simp [bind, Except.bind]

/-- A mapped computation succeeds exactly as the computation itself does. -/
theorem map_eq_ok_iff {x : Except ε α} {f : α → β} {b : β} :
    x.map f = .ok b ↔ ∃ a, x = .ok a ∧ f a = b := by
  cases x with
  | error e => simp [Except.map]
  | ok a => simp [Except.map]

/-- A computation goes on with the value of a successful one. -/
@[simp] theorem ok_bind (a : α) (f : α → Except ε β) :
    ((.ok a : Except ε α) >>= f) = f a := rfl

/-- A fault ends the computation. -/
@[simp] theorem error_bind (e : ε) (f : α → Except ε β) :
    ((.error e : Except ε α) >>= f) = .error e := rfl

@[simp] theorem pure_eq_ok (a : α) : (pure a : Except ε α) = .ok a := rfl

/-! ## Postconditions -/

/-- The value of `x` has `P`, or its error has `Q`. -/
def Sat (x : Except ε α) (P : α → Prop) (Q : ε → Prop) : Prop :=
  match x with
  | .ok a => P a
  | .error e => Q e

variable {x : Except ε α} {P P' : α → Prop} {Q Q' : ε → Prop}

@[simp] theorem sat_ok (a : α) : (ok a : Except ε α).Sat P Q ↔ P a := Iff.rfl

@[simp] theorem sat_error (e : ε) : (error e : Except ε α).Sat P Q ↔ Q e := Iff.rfl

/-- The rule of sequence: the first computation establishes what the second one starts from, and
    both keep to the condition on faults. -/
theorem Sat.bind {f : α → Except ε β} {R : β → Prop} (hx : x.Sat P Q)
    (hf : ∀ a, P a → (f a).Sat R Q) : (x >>= f).Sat R Q := by
  cases x with
  | ok a => exact hf a hx
  | error e => exact hx

/-- The rule of consequence, for values and for faults. -/
theorem Sat.mono (hx : x.Sat P Q) (hP : ∀ a, P a → P' a) (hQ : ∀ e, Q e → Q' e) :
    x.Sat P' Q' := by
  cases x with
  | ok a => exact hP a hx
  | error e => exact hQ e hx

/-- A successful computation meets its condition on values. -/
theorem Sat.of_eq_ok {a : α} (hx : x.Sat P Q) (h : x = .ok a) : P a := by
  subst h
  exact hx

/-- A fault meets the condition on faults. -/
theorem Sat.of_eq_error {e : ε} (hx : x.Sat P Q) (h : x = .error e) : Q e := by
  subst h
  exact hx

end Except
