import Wosh.Lib.Fallible

set_option relaxedAutoImplicit false
set_option autoImplicit false

/-!
# Readers of an input that may grow

A reader that takes what it needs off the front of its input can fail for one reason only: that the
input ends too early. Such a reader finds the same whatever follows, and every input can be continued
so that it succeeds. Readers put together from such readers are of this kind.

## Main definitions

* `Growing.Grows` — values that hold a rest of an input, which may turn out to be longer.
* `Growing.Total` — a reader that fails only for want of input.

## Main results

* `Growing.Total.bind` — one such reader after another.
* `Growing.Total.exists_ok` — an input that it fails on is an initial part of one it succeeds on.
-/

namespace Growing

variable {σ ε : Type*} {α β γ δ : Type}

/-- Values that hold a rest of an input, which more input makes longer. -/
class Grows (σ : outParam Type*) (γ : Type) where
  grow : γ → List σ → γ
  grow_append : ∀ (c : γ) (d d' : List σ), grow (grow c d) d' = grow c (d ++ d')

/-- The rest itself. -/
instance {σ : Type} : Grows σ (List σ) where
  grow := (· ++ ·)
  grow_append := List.append_assoc

/-- What was read, and the rest. -/
instance [Grows σ γ] : Grows σ (α × γ) where
  grow := fun c d => (c.1, Grows.grow c.2 d)
  grow_append := fun c d d' => Prod.ext rfl (Grows.grow_append c.2 d d')

open Grows (grow grow_append)

/-- A reader that fails only for want of input: what it finds does not depend on what follows, it
succeeds on some continuation of every input, and there is one error. -/
structure Total [Grows σ γ] [Grows σ δ] (short : ε) (read : γ → Except ε δ) : Prop where
  append : ∀ c y (d : List σ), read c = .ok y → read (grow c d) = .ok (grow y d)
  more : ∀ c, ∃ (d : List σ) (y : δ), read (grow c d) = .ok y
  error : ∀ c e, read c = .error e → e = short

section Total

variable [Grows σ β] [Grows σ γ] [Grows σ δ] {short : ε}

/-- What was read before is at hand. -/
theorem total_pair {read : α × γ → Except ε δ} (h : ∀ x, Total short fun c => read (x, c)) :
    Total short read where
  append := fun c y d hread => (h c.1).append c.2 y d hread
  more := fun c => (h c.1).more c.2
  error := fun c e hread => (h c.1).error c.2 e hread

/-- A reader that takes nothing. -/
theorem total_pure {f : γ → δ} (hf : ∀ c (d : List σ), f (grow c d) = grow (f c) d) :
    Total short fun c => (pure (f c) : Except ε δ) where
  append := fun c y d h => by
    cases Fallible.pure_eq_ok.1 h
    exact Fallible.pure_eq_ok.2 (hf c d)
  more := fun c => ⟨[], _, rfl⟩
  error := fun c e h => by cases h

/-- **One reader after another.** -/
theorem Total.bind {read : β → Except ε γ} {next : γ → Except ε δ} (h : Total short read)
    (h' : Total short next) : Total short fun b => read b >>= next where
  append := fun b y d hread => by
    obtain ⟨c, hc, hy⟩ := Fallible.bind_eq_ok.1 hread
    exact Fallible.bind_eq_ok.2 ⟨_, h.append b c d hc, h'.append c y d hy⟩
  more := fun b => by
    -- enough for the first one, and then for the second
    obtain ⟨d, c, hc⟩ := h.more b
    obtain ⟨d', y, hy⟩ := h'.more c
    refine ⟨d ++ d', y, Fallible.bind_eq_ok.2 ⟨grow c d', ?_, hy⟩⟩
    rw [← grow_append]
    exact h.append _ _ _ hc
  error := fun b e hread => by
    cases hb : read b with
    | error e' =>
      rw [hb] at hread
      cases hread
      exact h.error b e hb
    | ok c =>
      rw [hb] at hread
      exact h'.error c e hread

/-- **What it fails on is too short**: more input makes it succeed. -/
theorem Total.exists_ok {read : γ → Except ε δ} (h : Total short read) {c : γ} {e : ε}
    (hread : read c = .error e) :
    e = short ∧ ∃ (d : List σ) (y : δ), read (grow c d) = .ok y :=
  ⟨h.error c e hread, h.more c⟩

end Total

end Growing
