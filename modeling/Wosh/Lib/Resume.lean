import Mathlib

set_option relaxedAutoImplicit false
set_option autoImplicit false

/-!
# Resumable streams

The arithmetic of a byte stream carried by a succession of attachments. The stream `s` grows
at its end. An attachment is opened at an offset `n` and is meant to carry `s` from `n` on;
when it is lost, another one is opened at the offset the receiver reports.

## Main definitions

* `Resume.Fed` — what an attachment opened at `n` was given is an initial part of what it is
  meant to carry.
* `Resume.Full` — it was given all of it so far.
* `Resume.Joined` — the receiver's side: the stream put together so far, when the attachment
  it is reading from was opened at `p` and has delivered `d`.

## Main results

* `Resume.Full.push`, `Resume.Fed.grow` — a full attachment that is given what the stream grows
  by stays full; one that is given nothing more stays fed.
* `Resume.Joined.push`, `Resume.Joined.restart` — a receiver that restarts at exactly the length
  it has put together never puts together anything but an initial part of the stream.
-/

namespace Resume

variable {α : Type*}

/-! ## The sending side -/

/-- What the attachment opened at offset `n` was given, `out`, is an initial part of the stream
from `n` on: nothing is skipped, repeated or reordered. -/
def Fed (n : ℕ) (out s : List α) : Prop := out <+: s.drop n

/-- The attachment opened at offset `n` was given the whole stream from `n` on. -/
def Full (n : ℕ) (out s : List α) : Prop := n ≤ s.length ∧ out = s.drop n

variable {n : ℕ} {out out' s t : List α}

/-- A full attachment is fed. -/
theorem Full.fed (h : Full n out s) : Fed n out s := by
  obtain ⟨-, rfl⟩ := h
  exact List.prefix_refl _

/-- Opening an attachment with the stream from its offset on makes it full. -/
theorem full_drop (h : n ≤ s.length) : Full n (s.drop n) s := ⟨h, rfl⟩

/-- The attachment of a stream that is still empty is full with nothing. -/
theorem full_nil : Full 0 ([] : List α) [] := ⟨Nat.le_refl _, rfl⟩

/-- A full attachment that is given what the stream grows by stays full. -/
theorem Full.push (h : Full n out s) (t : List α) : Full n (out ++ t) (s ++ t) := by
  refine ⟨by rw [List.length_append]; exact Nat.le_add_right_of_le h.1, ?_⟩
  rw [List.drop_append_of_le_length h.1, h.2]

/-- A fed attachment stays fed while the stream grows. -/
theorem Fed.grow (h : Fed n out s) (t : List α) : Fed n out (s ++ t) := by
  rw [Fed, List.drop_append]
  exact h.trans (List.prefix_append _ _)

/-- A fed attachment stays fed along any extension of the stream. -/
theorem Fed.grow_of_isPrefix (h : Fed n out s) (hst : s <+: t) : Fed n out t := by
  obtain ⟨u, rfl⟩ := hst
  exact h.grow u

/-- An attachment from which queued bytes are taken back stays fed. -/
theorem Fed.shrink (h : Fed n out s) (h' : out' <+: out) : Fed n out' s := h'.trans h

/-! ## The receiving side -/

/-- The receiver has put together `u`; the attachment it reads from was opened at offset `p`
and has delivered `d` of the sender's stream `o`. -/
structure Joined (p : ℕ) (d u o : List α) : Prop where
  /-- The receive counter: where the attachment restarted plus what it delivered. -/
  length_eq : u.length = p + d.length
  /-- What was put together is an initial part of the sender's stream. -/
  prefix_of : u <+: o

variable {p : ℕ} {d b u o : List α}

/-- Restarting at the length put together so far. -/
theorem Joined.restart (hu : u <+: o) (hp : u.length = p) : Joined p [] u o :=
  ⟨by simpa using hp, hu⟩

/-- Taking the next bytes of the attachment: if what it has delivered altogether is an initial
part of the sender's stream from `p` on, the receiver still has an initial part of the stream.

**Proof sketch.** `u` is `o` up to `p + |d|`, and `b` follows `d` in `o` from `p` on, so it
follows `u` in `o`. -/
theorem Joined.push (h : Joined p d u o) (hb : d ++ b <+: o.drop p) :
    Joined p (d ++ b) (u ++ b) o := by
  refine ⟨by simp [h.length_eq, Nat.add_assoc], ?_⟩
  have hrest : b <+: o.drop u.length := by
    obtain ⟨r, hr⟩ := hb
    refine ⟨r, ?_⟩
    have hd : (d ++ (b ++ r)).drop d.length = b ++ r := List.drop_left
    rw [h.length_eq, ← List.drop_drop, ← hr, List.append_assoc, hd]
  obtain ⟨v, rfl⟩ := h.prefix_of
  rw [List.drop_left] at hrest
  exact List.prefix_append_right_inj u |>.2 hrest

end Resume
