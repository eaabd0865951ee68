import Mathlib

set_option relaxedAutoImplicit false
set_option autoImplicit false

/-!
# Computations that may fail

A computation answers a value or an error, and one after another ends with the first error.

## Main definitions

* `Fallible.require` — an error unless a condition holds.
* `Fallible.Errors` — every error of a computation is of a certain kind.

## Main results

* `Fallible.bind_eq_ok`, `Fallible.require_bind_eq_ok` — when computations in sequence succeed.
* `Fallible.Errors.bind` — of what kind their errors are.
-/

namespace Fallible

variable {ε : Type*} {α β : Type} {P : ε → Prop}

/-- An error unless a condition holds. -/
def require (p : Prop) [Decidable p] (e : ε) : Except ε Unit := if p then .ok () else .error e

/-! ## Success -/

/-- A sequence succeeds where both computations do. -/
theorem bind_eq_ok {x : Except ε α} {f : α → Except ε β} {b : β} :
    (x >>= f) = .ok b ↔ ∃ a, x = .ok a ∧ f a = .ok b := by
  cases x with
  | error e =>
    constructor
    · intro h
      cases h
    · rintro ⟨_, h, -⟩
      cases h
  | ok a =>
    constructor
    · intro h
      exact ⟨a, rfl, h⟩
    · rintro ⟨_, heq, h⟩
      obtain rfl := Except.ok.inj heq
      exact h

theorem pure_eq_ok {a b : α} : (pure a : Except ε α) = .ok b ↔ a = b := by
  constructor
  · intro h
    cases h
    rfl
  · rintro rfl
    rfl

/-- What has succeeded goes on. -/
theorem ok_bind (a : α) (f : α → Except ε β) : (.ok a >>= f) = f a := rfl

/-- What becomes of an error does not make it an answer. -/
theorem mapError_eq_ok {ε' : Type} {x : Except ε α} {f : ε → ε'} {a : α} :
    x.mapError f = .ok a ↔ x = .ok a := by
  cases x with
  | error e =>
    constructor
    · intro h
      cases h
    · intro h
      cases h
  | ok a' => exact ⟨fun h => congrArg _ (Except.ok.inj h), fun h => congrArg _ (Except.ok.inj h)⟩

/-- A condition comes before the rest. -/
theorem require_bind_eq_ok {p : Prop} [Decidable p] {e : ε} {f : Unit → Except ε β} {b : β} :
    (require p e >>= f) = .ok b ↔ p ∧ f () = .ok b := by
  unfold require
  split_ifs with hp
  · constructor
    · intro h
      exact ⟨hp, h⟩
    · rintro ⟨-, h⟩
      exact h
  · constructor
    · intro h
      cases h
    · rintro ⟨hp', -⟩
      exact absurd hp' hp

theorem require_eq_ok {p : Prop} [Decidable p] {e : ε} {u : Unit} :
    require p e = .ok u ↔ p := by
  unfold require
  split_ifs with hp
  · exact iff_of_true rfl hp
  · constructor
    · intro h
      cases h
    · intro hp'
      exact absurd hp' hp

/-! ## Errors -/

/-- Every error of the computation is of this kind. -/
def Errors (P : ε → Prop) (x : Except ε α) : Prop := ∀ e, x = .error e → P e

theorem errors_ok (a : α) : Errors P (.ok a : Except ε α) := by
  intro e h
  cases h

theorem errors_pure (a : α) : Errors P (pure a : Except ε α) := errors_ok a

theorem errors_error {e : ε} (he : P e) : Errors P (.error e : Except ε α) := by
  intro e' h
  cases h
  exact he

/-- **The errors of a sequence** are those of its parts. -/
theorem Errors.bind {x : Except ε α} {f : α → Except ε β} (hx : Errors P x)
    (hf : ∀ a, x = .ok a → Errors P (f a)) : Errors P (x >>= f) := by
  cases x with
  | error e =>
    intro e' h
    cases h
    exact hx e rfl
  | ok a => exact hf a rfl

/-- A condition comes before the rest, which may rely on it. -/
theorem Errors.require_bind {p : Prop} [Decidable p] {e : ε} {f : Unit → Except ε β} (he : P e)
    (hf : p → Errors P (f ())) : Errors P (require p e >>= f) := by
  unfold require
  split_ifs with hp
  · exact hf hp
  · exact errors_error he

/-- A computation without such errors that does not succeed fails otherwise. -/
theorem Errors.exists_error {x : Except ε α} (hx : Errors P x) (h : ∀ a, x ≠ .ok a) :
    ∃ e, x = .error e ∧ P e := by
  cases x with
  | error e => exact ⟨e, rfl, hx e rfl⟩
  | ok a => exact absurd rfl (h a)

end Fallible
