import Mathlib

set_option relaxedAutoImplicit false
set_option autoImplicit false

/-!
# The replay buffer

One direction's replay bookkeeping, `Replay` of `tunnel/src/lib.rs`: the bytes sent but not yet
acknowledged, and the counters that both the ACK sender and the resume handshake speak in.

## Main definitions

* `Tunnel.Replay` — the record, with `Replay.sent`, `Replay.ack` and `Replay.tailFrom`.
* `Tunnel.Replay.Tracks` — the buffer is the end of the stream recorded so far.

## Main results

* `Tunnel.Replay.Tracks.sent`, `Tunnel.Replay.Tracks.ack` — recording and acknowledging keep it.
* `Tunnel.Replay.Tracks.tailFrom` — a replay tail is exactly the recorded stream from the peer's
  count on, whatever count the peer reports, as long as the cast of their difference is exact.

## Design

The counters are `u64` in the source and ℕ here. The source narrows two differences of counters
with `as usize`; the cast is the parameter `usize` of `Replay.ack` and `Replay.tailFrom`. It is
`id` where the casts are taken as exact, and `wasm32` in the deployed components, where `usize`
is 32 bits wide.
-/

namespace Tunnel

/-- A byte string. -/
abbrev Bytes := List UInt8

/-- Replay-buffer cap per direction (`REPLAY_CAP`): beyond this much unacknowledged data the
session stops being resumable. -/
def replayCap : ℕ := 4 * 1024 * 1024

/-- Send an ACK at least once per this many received bytes (`ACK_EVERY_BYTES`). -/
def ackEveryBytes : ℕ := 128 * 1024

/-- `as usize` on the deployed target, where `usize` is 32 bits wide. -/
def wasm32 (n : ℕ) : ℕ := n % 2 ^ 32

/-- One direction's replay bookkeeping. -/
structure Replay where
  /-- Cumulative bytes ever handed to `sent`. -/
  sentTotal : ℕ := 0
  /-- The peer's last acknowledged cumulative count. -/
  acked : ℕ := 0
  /-- Unacknowledged bytes, oldest first. -/
  buf : Bytes := []
  /-- Set once the buffer would have exceeded `replayCap`. -/
  overflowed : Bool := false
deriving DecidableEq, Repr

namespace Replay

/-- Record bytes as sent. Over the cap, the oldest ones are dropped and remembered as lost. -/
def sent (r : Replay) (payload : Bytes) : Replay :=
  let buf := r.buf ++ payload
  if replayCap < buf.length then
    { r with
      sentTotal := r.sentTotal + payload.length
      buf := buf.drop (buf.length - replayCap)
      overflowed := true }
  else
    { r with sentTotal := r.sentTotal + payload.length, buf := buf }

/-- The peer acknowledged `received` cumulative bytes; stale and nonsensical counts are
ignored. -/
def ack (usize : ℕ → ℕ) (r : Replay) (received : ℕ) : Replay :=
  if received ≤ r.acked ∨ r.sentTotal < received then r
  else
    { r with
      buf := r.buf.drop (min (usize (received - r.acked)) r.buf.length)
      acked := received }

/-- The replay tail from the peer's `received` count, or `none` when that count is outside what
the buffer still covers. -/
def tailFrom (usize : ℕ → ℕ) (r : Replay) (received : ℕ) : Option Bytes :=
  if r.sentTotal < received then none
  else
    let missing := usize (r.sentTotal - received)
    if r.buf.length < missing then none
    else some (r.buf.drop (r.buf.length - missing))

/-! ## What the buffer holds -/

/-- `r` is the bookkeeping of a sender that has recorded the stream `s`: the total is its length
and the buffer is an end of it. -/
structure Tracks (r : Replay) (s : Bytes) : Prop where
  /-- The total counts the recorded bytes. -/
  sentTotal_eq : r.sentTotal = s.length
  /-- What is buffered is the most recent part of the stream. -/
  buf_suffix : r.buf <:+ s

variable {r : Replay} {s : Bytes}

/-- A new buffer tracks the empty stream. -/
theorem tracks_new : Tracks {} [] := ⟨rfl, List.suffix_refl _⟩

/-- Recording extends the stream. -/
theorem Tracks.sent (h : r.Tracks s) (payload : Bytes) :
    (r.sent payload).Tracks (s ++ payload) := by
  have htotal : r.sentTotal + payload.length = (s ++ payload).length := by
    rw [h.sentTotal_eq, List.length_append]
  have hbuf : r.buf ++ payload <:+ s ++ payload := by
    obtain ⟨t, ht⟩ := h.buf_suffix
    exact ⟨t, by rw [← List.append_assoc, ht]⟩
  unfold Replay.sent
  by_cases hcap : replayCap < (r.buf ++ payload).length
  · rw [if_pos hcap]
    refine ⟨htotal, ?_⟩
    dsimp only
    exact (List.drop_suffix _ _).trans hbuf
  · rw [if_neg hcap]
    exact ⟨htotal, hbuf⟩

/-- Acknowledging only trims the buffer at its front. -/
theorem Tracks.ack (usize : ℕ → ℕ) (h : r.Tracks s) (received : ℕ) :
    (r.ack usize received).Tracks s := by
  unfold Replay.ack
  split_ifs
  · exact h
  · exact ⟨h.sentTotal_eq, (List.drop_suffix _ _).trans h.buf_suffix⟩

@[simp] theorem sent_sentTotal (r : Replay) (payload : Bytes) :
    (r.sent payload).sentTotal = r.sentTotal + payload.length := by
  unfold Replay.sent
  by_cases hcap : replayCap < (r.buf ++ payload).length
  · rw [if_pos hcap]
  · rw [if_neg hcap]

@[simp] theorem ack_sentTotal (usize : ℕ → ℕ) (r : Replay) (received : ℕ) :
    (r.ack usize received).sentTotal = r.sentTotal := by
  unfold Replay.ack
  split_ifs <;> rfl

/-- **A replay tail is exact.** When the cast of the difference of the two counters loses
nothing, the tail is the recorded stream from the peer's count on, and that count lies within
the stream.

**Proof sketch.** The buffer is the stream without some initial part `t`. The tail is the last
`|s| - received` bytes of the buffer, and these are also the last ones of `s`. -/
theorem Tracks.tailFrom {usize : ℕ → ℕ} {received : ℕ} {tail : Bytes} (h : r.Tracks s)
    (hcast : usize (r.sentTotal - received) = r.sentTotal - received)
    (ht : r.tailFrom usize received = some tail) :
    received ≤ s.length ∧ tail = s.drop received := by
  unfold Replay.tailFrom at ht
  simp only [hcast] at ht
  split_ifs at ht with hbeyond htrimmed
  obtain ⟨t, rfl⟩ := h.buf_suffix
  have htotal := h.sentTotal_eq
  rw [List.length_append] at htotal
  refine ⟨by rw [List.length_append]; omega, ?_⟩
  have hle : t.length ≤ received := by omega
  have hstart : r.buf.length - (r.sentTotal - received) = received - t.length := by omega
  rw [List.drop_append, List.drop_eq_nil_of_le hle, List.nil_append, ← hstart]
  exact (Option.some_inj.1 ht).symm

/-- A 32-bit cast loses nothing of a small difference, and a tail it does not lose is only
found where the buffer is long enough. -/
theorem wasm32_exact {received : ℕ} {tail : Bytes} (ht : r.tailFrom wasm32 received = some tail)
    (h : r.sentTotal - received < 2 ^ 32 ∨
      r.buf.length < wasm32 (r.sentTotal - received)) :
    wasm32 (r.sentTotal - received) = r.sentTotal - received := by
  rcases h with hsmall | hshort
  · exact Nat.mod_eq_of_lt hsmall
  · unfold Replay.tailFrom at ht
    simp only [if_pos hshort] at ht
    split_ifs at ht

end Replay

end Tunnel
