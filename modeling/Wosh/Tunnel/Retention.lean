import Wosh.Lib.Run
import Wosh.Tunnel.Replay

set_option relaxedAutoImplicit false
set_option autoImplicit false

/-!
# What a replay buffer retains over a run

A replay buffer over any sequence of `sent` and `ack` calls, beside the stream it was given and
the highest offset the cap ever evicted up to.

The source documents the buffer as covering `acked..sent_total`, and `Replay::ack` drops bytes
*relative to* `acked`. After an overflow the buffer starts later than that, so an
acknowledgement then drops as many bytes too many as the cap had evicted past `acked`.

## Main definitions

* `Tunnel.History` — a replay buffer with the stream behind it, and `Tunnel.Call`, its calls.
* `Tunnel.Call.Retains` — what a call may remove from the buffer.
* `Tunnel.Call.Aligned` — the call acknowledges relative to where the buffer starts.
* `Tunnel.Replay.TailExact` — the answer to a resume is the stream from the peer's count on.

## Main results

* `Tunnel.History.retains_iff` — along every run, the buffer is the stream from the larger of
  `acked` and the evicted offset on, exactly as long as each call is aligned.
* `Tunnel.tailExact_wasm32_iff` — when the tail found with a 32-bit `usize` is right.
-/

namespace Tunnel

/-- A call on a replay buffer. -/
inductive Call
  | sent (payload : Bytes)
  | ack (received : ℕ)
deriving DecidableEq, Repr

/-- A replay buffer, with what it was given. -/
structure History where
  /-- Everything ever handed to `sent`. -/
  stream : Bytes := []
  /-- The highest offset the cap ever evicted up to. -/
  evicted : ℕ := 0
  /-- The buffer. -/
  replay : Replay := {}
deriving DecidableEq, Repr

namespace Replay

/-- The offset of the first buffered byte. -/
def start (r : Replay) : ℕ := r.sentTotal - r.buf.length

/-- The acknowledgement is not ignored as stale or nonsensical. -/
def Accepts (r : Replay) (received : ℕ) : Prop := r.acked < received ∧ received ≤ r.sentTotal

instance (r : Replay) (received : ℕ) : Decidable (r.Accepts received) :=
  inferInstanceAs (Decidable (_ ∧ _))

end Replay

namespace History

variable (usize : ℕ → ℕ)

/-- The state after `payload` is recorded. When that takes the buffer over the cap, what is
evicted are the bytes before the new start of the buffer. -/
def sent (h : History) (payload : Bytes) : History :=
  { stream := h.stream ++ payload
    evicted :=
      if replayCap < (h.replay.buf ++ payload).length then (h.replay.sent payload).start
      else h.evicted
    replay := h.replay.sent payload }

/-- The state after an acknowledgement. -/
def ack (h : History) (received : ℕ) : History :=
  { h with replay := h.replay.ack usize received }

/-- The state after a call; every call is possible in every state. -/
def step (h : History) : Call → Option History
  | .sent payload => some (h.sent payload)
  | .ack received => some (h.ack usize received)

/-- The buffer is the stream from the larger of `acked` and the evicted offset on. -/
def Held (h : History) : Prop :=
  h.replay.buf = h.stream.drop (max h.replay.acked h.evicted)

end History

/-- What the call does to the buffer is what it is for: recording appends and removes only the
oldest bytes needed to get back to the cap, an accepted acknowledgement removes what lies below
it, and no tail at or after it is lost or changed. The buffer then holds what it should. -/
def Call.Retains (usize : ℕ → ℕ) (h : History) : Call → Prop
  | .sent payload =>
    (h.sent payload).replay.buf = (h.replay.buf ++ payload).drop
      ((h.replay.buf ++ payload).length - replayCap) ∧ (h.sent payload).Held
  | .ack received =>
    (h.replay.Accepts received →
      (h.ack usize received).replay.buf = h.stream.drop (max received h.replay.start) ∧
      ∀ count tail, received ≤ count → h.replay.tailFrom usize count = some tail →
        (h.ack usize received).replay.tailFrom usize count = some tail) ∧
    (h.ack usize received).Held

/-- The call is no acknowledgement that would be measured from the wrong place: it is not
accepted, or its distance to the last one is its distance to the first buffered byte, or
it covers the whole stream and is measured at least as long as the buffer. -/
def Call.Aligned (usize : ℕ → ℕ) (h : History) : Call → Prop
  | .sent _ => True
  | .ack received =>
    h.replay.Accepts received →
      usize (received - h.replay.acked) = received - h.replay.start ∨
      received = h.replay.sentTotal ∧ h.replay.buf.length ≤ usize (received - h.replay.acked)

instance (usize : ℕ → ℕ) (h : History) : (c : Call) → Decidable (c.Aligned usize h)
  | .sent _ => inferInstanceAs (Decidable True)
  | .ack _ => inferInstanceAs (Decidable (_ → _))

namespace History

variable {usize : ℕ → ℕ} {h h' : History}

/-! ## One call -/

/-- What holds in every state of a run in which the buffer was always right. -/
structure Sound (h : History) : Prop where
  /-- The total counts the stream. -/
  sentTotal_eq : h.replay.sentTotal = h.stream.length
  /-- The buffer is what it should be. -/
  held : h.Held
  /-- Only recorded bytes are acknowledged. -/
  acked_le : h.replay.acked ≤ h.stream.length
  /-- The cap leaves bytes in the buffer. -/
  evicted_lt : h.evicted = 0 ∨ h.evicted < h.stream.length

/-- A new buffer. -/
theorem sound_new : Sound {} := ⟨rfl, rfl, Nat.le_refl _, .inl rfl⟩

/-- The length of a buffer that is right. -/
theorem Sound.length_buf (hs : h.Sound) :
    h.replay.buf.length = h.stream.length - max h.replay.acked h.evicted := by
  rw [hs.held, List.length_drop]

/-- A buffer that is right starts at the larger of the two offsets. -/
theorem Sound.start_eq (hs : h.Sound) : h.replay.start = max h.replay.acked h.evicted := by
  have hlen := hs.length_buf
  have hacked := hs.acked_le
  have hevicted := hs.evicted_lt
  unfold Replay.start
  rw [hlen, hs.sentTotal_eq]
  omega

/-- Recording keeps the newest bytes, up to the cap. -/
theorem buf_sent (r : Replay) (payload : Bytes) :
    (r.sent payload).buf =
      (r.buf ++ payload).drop ((r.buf ++ payload).length - replayCap) := by
  unfold Replay.sent
  by_cases hcap : replayCap < (r.buf ++ payload).length
  · rw [if_pos hcap]
  · rw [if_neg hcap, Nat.sub_eq_zero_of_le (Nat.le_of_not_lt hcap), List.drop_zero]

@[simp] theorem acked_sent (r : Replay) (payload : Bytes) : (r.sent payload).acked = r.acked := by
  unfold Replay.sent
  by_cases hcap : replayCap < (r.buf ++ payload).length
  · rw [if_pos hcap]
  · rw [if_neg hcap]

/-- The start of the buffer after the cap has evicted something. -/
theorem Sound.start_sent (hs : h.Sound) {payload : Bytes}
    (hcap : replayCap < (h.replay.buf ++ payload).length) :
    (h.replay.sent payload).start = (h.stream ++ payload).length - replayCap ∧
      max h.replay.acked h.evicted ≤ (h.replay.sent payload).start := by
  have hlen := hs.length_buf
  have hacked := hs.acked_le
  have hevicted := hs.evicted_lt
  have hbuf : (h.replay.sent payload).buf.length = replayCap := by
    rw [buf_sent, List.length_drop]
    omega
  rw [List.length_append] at hcap
  unfold Replay.start
  rw [hbuf, Replay.sent_sentTotal, hs.sentTotal_eq, List.length_append]
  omega

/-- Recording keeps the buffer right. -/
theorem Sound.sent (hs : h.Sound) (payload : Bytes) : (h.sent payload).Sound := by
  have hlen := hs.length_buf
  have hacked := hs.acked_le
  have hevicted := hs.evicted_lt
  have hstream : (h.replay.sent payload).sentTotal = (h.stream ++ payload).length := by
    rw [Replay.sent_sentTotal, hs.sentTotal_eq, List.length_append]
  have hmax : max h.replay.acked h.evicted ≤ h.stream.length := by omega
  have happend : h.replay.buf ++ payload =
      (h.stream ++ payload).drop (max h.replay.acked h.evicted) := by
    rw [List.drop_append_of_le_length hmax, ← hs.held]
  by_cases hcap : replayCap < (h.replay.buf ++ payload).length
  · obtain ⟨hstart, hle⟩ := hs.start_sent hcap
    refine ⟨hstream, ?_, ?_, ?_⟩
    · show (h.replay.sent payload).buf = (h.stream ++ payload).drop
        (max (h.replay.sent payload).acked (if _ then _ else _))
      rw [if_pos hcap, acked_sent, max_eq_right (le_trans (le_max_left _ _) hle), hstart,
        buf_sent, happend, List.drop_drop, List.length_drop]
      refine congrArg (fun n => (h.stream ++ payload).drop n) ?_
      rw [happend, List.length_drop] at hcap
      omega
    · show (h.replay.sent payload).acked ≤ (h.stream ++ payload).length
      rw [acked_sent, List.length_append]
      omega
    · show (if _ then _ else _) = 0 ∨ (if _ then _ else _) < (h.stream ++ payload).length
      rw [if_pos hcap, hstart]
      have hpos : 0 < replayCap := by norm_num [replayCap]
      have hpos' : 0 < (h.stream ++ payload).length := by
        rw [List.length_append] at hcap ⊢
        omega
      omega
  · refine ⟨hstream, ?_, ?_, ?_⟩
    · show (h.replay.sent payload).buf = (h.stream ++ payload).drop
        (max (h.replay.sent payload).acked (if _ then _ else _))
      rw [if_neg hcap, acked_sent, buf_sent, Nat.sub_eq_zero_of_le (Nat.le_of_not_lt hcap),
        List.drop_zero, happend]
    · show (h.replay.sent payload).acked ≤ (h.stream ++ payload).length
      rw [acked_sent, List.length_append]
      omega
    · show (if _ then _ else _) = 0 ∨ (if _ then _ else _) < (h.stream ++ payload).length
      rw [if_neg hcap, List.length_append]
      omega

/-- An accepted acknowledgement. -/
theorem ack_of_accepts {r : Replay} {received : ℕ} (ha : r.Accepts received) :
    r.ack usize received =
      { r with
        buf := r.buf.drop (min (usize (received - r.acked)) r.buf.length)
        acked := received } := by
  obtain ⟨hlt, hle⟩ := ha
  unfold Replay.ack
  rw [if_neg (by omega)]

/-- An ignored acknowledgement. -/
theorem ack_of_not_accepts {r : Replay} {received : ℕ} (ha : ¬ r.Accepts received) :
    r.ack usize received = r := by
  unfold Replay.Accepts at ha
  unfold Replay.ack
  rw [if_pos (by omega)]

/-- What is right after an accepted acknowledgement, as a condition on the lengths. -/
theorem Sound.buf_ack_eq_iff (hs : h.Sound) {received : ℕ} (ha : h.replay.Accepts received) :
    (h.ack usize received).replay.buf = h.stream.drop (max received h.replay.start) ↔
      (Call.ack received).Aligned usize h := by
  have hlen := hs.length_buf
  have hstart := hs.start_eq
  have hevicted := hs.evicted_lt
  obtain ⟨hlt, hle⟩ := ha
  rw [hs.sentTotal_eq] at hle
  have hbuf : (h.ack usize received).replay.buf =
      h.stream.drop (h.replay.start +
        min (usize (received - h.replay.acked)) h.replay.buf.length) := by
    unfold History.ack
    rw [ack_of_accepts ⟨hlt, hs.sentTotal_eq ▸ hle⟩]
    dsimp only
    rw [hs.held, List.drop_drop, ← hs.held, hstart]
  have hcount : h.replay.start + min (usize (received - h.replay.acked)) h.replay.buf.length =
      max received h.replay.start ↔
      usize (received - h.replay.acked) = received - h.replay.start ∨
      received = h.stream.length ∧ h.replay.buf.length ≤ usize (received - h.replay.acked) := by
    omega
  rw [hbuf]
  show _ ↔ (_ → _ ∨ received = h.replay.sentTotal ∧ _)
  rw [hs.sentTotal_eq, ← hcount]
  constructor
  · intro heq _
    have hlengths := congrArg List.length heq
    rw [List.length_drop, List.length_drop] at hlengths
    omega
  · intro heq
    rw [heq ⟨hlt, hs.sentTotal_eq ▸ hle⟩]

/-- A tail at or after an acknowledged count is found as before. -/
theorem Sound.tailFrom_ack (hs : h.Sound) (hcast : ∀ n, usize n ≤ n) {received count : ℕ}
    {tail : Bytes} (ha : h.replay.Accepts received) (hc : (Call.ack received).Aligned usize h)
    (hcount : received ≤ count) (ht : h.replay.tailFrom usize count = some tail) :
    (h.ack usize received).replay.tailFrom usize count = some tail := by
  have hlen := hs.length_buf
  have hstart := hs.start_eq
  have htotal := hs.sentTotal_eq
  have hmissing := hcast (h.replay.sentTotal - count)
  have hbuf := (hs.buf_ack_eq_iff ha).2 hc
  have hlength : (h.ack usize received).replay.buf.length =
      h.stream.length - max received h.replay.start := by
    rw [hbuf, List.length_drop]
  have hsent : (h.ack usize received).replay.sentTotal = h.replay.sentTotal :=
    Replay.ack_sentTotal usize h.replay received
  unfold Replay.tailFrom at ht ⊢
  simp only [hsent] at ht ⊢
  split_ifs at ht with hbeyond hgone
  have hle : usize (h.replay.sentTotal - count) ≤ (h.ack usize received).replay.buf.length := by
    omega
  rw [if_neg hbeyond, if_neg (Nat.not_lt.2 hle), ← ht, hbuf, hs.held, List.drop_drop,
    List.drop_drop, List.length_drop, List.length_drop]
  refine congrArg (fun n => some (h.stream.drop n)) ?_
  omega

/-- An acknowledgement does to a buffer that is right what it should, exactly when it is
aligned. -/
theorem Sound.retains_ack_iff (hs : h.Sound) (hcast : ∀ n, usize n ≤ n) (received : ℕ) :
    (Call.ack received).Retains usize h ↔ (Call.ack received).Aligned usize h := by
  by_cases ha : h.replay.Accepts received
  · constructor
    · intro hr
      exact (hs.buf_ack_eq_iff ha).1 (hr.1 ha).1
    · intro hc
      have hbuf := (hs.buf_ack_eq_iff ha).2 hc
      refine ⟨fun _ => ⟨hbuf, fun count tail hcount ht =>
        hs.tailFrom_ack hcast ha hc hcount ht⟩, ?_⟩
      have hacked : (h.ack usize received).replay.acked = received := by
        unfold History.ack
        rw [ack_of_accepts ha]
      show (h.ack usize received).replay.buf =
        h.stream.drop (max (h.ack usize received).replay.acked h.evicted)
      have hlt := ha.1
      rw [hbuf, hacked, hs.start_eq]
      refine congrArg (fun n => h.stream.drop n) ?_
      omega
  · have hsame : h.ack usize received = h := by
      unfold History.ack
      rw [ack_of_not_accepts ha]
    refine ⟨fun _ hacc => absurd hacc ha, fun _ => ⟨fun hacc => absurd hacc ha, ?_⟩⟩
    rw [hsame]
    exact hs.held

/-- A call does to a buffer that is right what it should, exactly when it is aligned. -/
theorem Sound.retains_call_iff (hs : h.Sound) (hcast : ∀ n, usize n ≤ n) (c : Call) :
    c.Retains usize h ↔ c.Aligned usize h := by
  cases c with
  | sent payload => exact iff_of_true ⟨buf_sent _ _, (hs.sent payload).held⟩ trivial
  | ack received => exact hs.retains_ack_iff hcast received

/-- A buffer stays right over a call that does what it should. -/
theorem Sound.step (hs : h.Sound) {c : Call} (hr : c.Retains usize h)
    (hstep : h.step usize c = some h') : h'.Sound := by
  cases c with
  | sent payload =>
    obtain rfl : h.sent payload = h' := by simpa [History.step] using hstep
    exact hs.sent payload
  | ack received =>
    obtain rfl : h.ack usize received = h' := by simpa [History.step] using hstep
    refine ⟨(Replay.ack_sentTotal _ _ _).trans hs.sentTotal_eq, hr.2, ?_, hs.evicted_lt⟩
    show (h.replay.ack usize received).acked ≤ h.stream.length
    by_cases ha : h.replay.Accepts received
    · rw [ack_of_accepts ha, ← hs.sentTotal_eq]
      exact ha.2
    · rw [ack_of_not_accepts ha]
      exact hs.acked_le

/-! ## Runs -/

/-- **What a replay buffer retains.** Over every sequence of calls: every call does to the
buffer what it should, and the buffer is always the stream from the larger of `acked` and the
evicted offset on, exactly when every call is aligned.

**Proof sketch.** A call on a buffer that is right does what it should exactly when it is
aligned, and then leaves a buffer that is right; induction on the calls. -/
theorem retains_iff (hcast : ∀ n, usize n ≤ n) (calls : List Call) :
    Run.Along (History.step usize) (fun h c => c.Retains usize h) {} calls ↔
      Run.Along (History.step usize) (fun h c => c.Aligned usize h) {} calls := by
  constructor
  · intro hr
    exact Run.Along.of_inv (P := Sound) (fun _ _ _ hs hr hstep => hs.step hr hstep)
      (fun _ c hs hr => (hs.retains_call_iff hcast c).1 hr) sound_new hr
  · intro hc
    exact Run.Along.of_inv (P := Sound)
      (fun _ c _ hs hc hstep => hs.step ((hs.retains_call_iff hcast c).2 hc) hstep)
      (fun _ c hs hc => (hs.retains_call_iff hcast c).2 hc) sound_new hc

/-- Three bytes are sent, and acknowledged one after the others. -/
theorem retains_iff_small :
    Run.Along (History.step wasm32) (fun h c => c.Retains wasm32 h) {}
      [.sent [1, 2, 3], .ack 1, .ack 1, .ack 4, .ack 3] :=
  (retains_iff (fun _ => Nat.mod_le _ _) _).2 (by decide)

/-- With an exact cast, an accepted acknowledgement of a buffer that is right is aligned exactly
when the buffer still starts at the last acknowledged offset, or all of the stream is
acknowledged. -/
theorem Sound.aligned_id_iff (hs : h.Sound) {received : ℕ} (ha : h.replay.Accepts received) :
    (Call.ack received).Aligned id h ↔
      h.replay.start = h.replay.acked ∨ received = h.replay.sentTotal := by
  have hlen := hs.length_buf
  have hstart := hs.start_eq
  have htotal := hs.sentTotal_eq
  have hevicted := hs.evicted_lt
  obtain ⟨hlt, hle⟩ := ha
  show (_ → id _ = _ ∨ _ ∧ _ ≤ id _) ↔ _
  simp only [id]
  constructor
  · intro hc
    have hacc := hc ⟨hlt, hle⟩
    omega
  · intro hc _
    omega

/-- Four bytes more than the cap are sent, and the peer acknowledges two of them. -/
theorem not_aligned_overflow {payload : Bytes} (hlength : payload.length = replayCap + 4) :
    ¬ (Call.ack 2).Aligned wasm32 (({} : History).sent payload) := by
  intro hc
  have hs := sound_new.sent payload
  have hcap : replayCap < (({} : History).replay.buf ++ payload).length := by
    rw [List.length_append, hlength]
    omega
  have hstart : (({} : History).sent payload).replay.start = 4 := by
    have h := (sound_new.start_sent hcap).1
    rw [List.length_append, hlength] at h
    rw [show (({} : History).sent payload).replay.start = _ from h]
    show 0 + (replayCap + 4) - replayCap = 4
    omega
  have hacked : (({} : History).sent payload).replay.acked = 0 := acked_sent _ _
  have htotal : (({} : History).sent payload).replay.sentTotal = replayCap + 4 := by
    rw [hs.sentTotal_eq, ← hlength]
    rfl
  have hacc := hc ⟨by omega, by omega⟩
  rw [hstart, hacked, htotal] at hacc
  have hwasm : wasm32 (2 - 0) = 2 := by decide
  have hpos : 0 < replayCap := by norm_num [replayCap]
  omega

/-- Four bytes more than the cap are sent, and the peer acknowledges two of them: the four oldest
bytes were evicted already, and the two after them go with the acknowledgement. -/
theorem not_retains : ¬ Run.Along (History.step wasm32) (fun h c => c.Retains wasm32 h) {}
    [.sent (List.replicate (replayCap + 4) 0), .ack 2] := by
  intro hr
  have hlength : (List.replicate (replayCap + 4) (0 : UInt8)).length = replayCap + 4 :=
    List.length_replicate
  revert hr hlength
  generalize List.replicate (replayCap + 4) (0 : UInt8) = payload
  intro hr hlength
  have hs := sound_new.sent payload
  have hack := (hr.2 _ rfl).1
  exact not_aligned_overflow hlength ((hs.retains_ack_iff (fun _ => Nat.mod_le _ _) 2).1 hack)

end History

/-! ## The tail on the deployed target -/

/-- The answer to a peer's count is right: a tail is the stream from the count on, and there is
none when a byte of it is no longer buffered. -/
def Replay.TailExact (usize : ℕ → ℕ) (r : Replay) (stream : Bytes) (received : ℕ) : Prop :=
  (∀ tail, r.tailFrom usize received = some tail →
    received ≤ r.sentTotal ∧ tail = stream.drop received) ∧
  (received < r.start → r.tailFrom usize received = none)

namespace History

variable {usize : ℕ → ℕ} {h h' : History}

/-- A buffer is the end of its stream after every run. -/
theorem tracks_of_run {calls : List Call} (hrun : Run.run (step usize) {} calls = some h) :
    h.replay.Tracks h.stream := by
  refine Run.run_inv_of_step (P := fun h => h.replay.Tracks h.stream) ?_ Replay.tracks_new hrun
  intro h c h' ht hstep
  cases c with
  | sent payload =>
    obtain rfl : h.sent payload = h' := by simpa [step] using hstep
    exact ht.sent payload
  | ack received =>
    obtain rfl : h.ack usize received = h' := by simpa [step] using hstep
    exact ht.ack usize received

end History

namespace Replay

variable {r : Replay} {s : Bytes} {received : ℕ}

/-- Where nothing of the difference is lost, the answer is right. -/
theorem Tracks.tailExact {usize : ℕ → ℕ} (h : r.Tracks s)
    (hcast : usize (r.sentTotal - received) = r.sentTotal - received) :
    r.TailExact usize s received := by
  refine ⟨fun tail ht => ?_, fun hgone => ?_⟩
  · obtain ⟨hle, htail⟩ := h.tailFrom hcast ht
    exact ⟨h.sentTotal_eq ▸ hle, htail⟩
  · unfold start at hgone
    unfold Replay.tailFrom
    rw [if_neg (by omega)]
    dsimp only
    rw [hcast, if_pos (by omega)]

/-- Where there is no tail, the answer is right. -/
theorem tailExact_none {usize : ℕ → ℕ} (h : r.tailFrom usize received = none) :
    r.TailExact usize s received :=
  ⟨fun _ ht => absurd (h.symm.trans ht) (Option.some_ne_none _).symm, fun _ => h⟩

/-- **When the answer is right with a 32-bit `usize`.** It is right exactly when the peer's count
is beyond the stream, or fewer than `2 ^ 32` bytes behind, or when the buffer is shorter than
what the cast leaves of the difference.

**Proof sketch.** The cast of a larger difference is smaller than it. If the buffer has that many
bytes, they are taken for a tail that is longer. -/
theorem Tracks.tailExact_iff (h : r.Tracks s) :
    r.TailExact wasm32 s received ↔
      r.sentTotal < received ∨ r.sentTotal - received < 2 ^ 32 ∨
        r.buf.length < (r.sentTotal - received) % 2 ^ 32 := by
  constructor
  · intro hexact
    by_contra hnot
    push Not at hnot
    obtain ⟨hle, hfar, hlong⟩ := hnot
    have htail : r.tailFrom wasm32 received =
        some (r.buf.drop (r.buf.length - wasm32 (r.sentTotal - received))) := by
      unfold Replay.tailFrom
      rw [if_neg (Nat.not_lt.2 hle)]
      exact if_neg (Nat.not_lt.2 hlong)
    have hlengths := congrArg List.length (hexact.1 _ htail).2
    have hcast : wasm32 (r.sentTotal - received) < 2 ^ 32 := Nat.mod_lt _ (by norm_num)
    have hshort : wasm32 (r.sentTotal - received) ≤ r.buf.length := hlong
    rw [List.length_drop, List.length_drop, ← h.sentTotal_eq] at hlengths
    omega
  · rintro (hbeyond | hnear | hshort)
    · exact tailExact_none (by unfold Replay.tailFrom; rw [if_pos hbeyond])
    · exact h.tailExact (Nat.mod_eq_of_lt hnear)
    · refine tailExact_none ?_
      unfold Replay.tailFrom
      by_cases hbeyond : r.sentTotal < received
      · rw [if_pos hbeyond]
      · rw [if_neg hbeyond]
        exact if_pos hshort

end Replay

/-- **The replay tail on the deployed target.** After every run of calls and for every count the
peer reports, the answer is right exactly when the count is beyond the stream, or fewer than
`2 ^ 32` bytes behind, or the buffer is shorter than the difference modulo `2 ^ 32`. -/
theorem tailExact_wasm32_iff (calls : List Call) {h : History} (received : ℕ)
    (hrun : Run.run (History.step wasm32) {} calls = some h) :
    h.replay.TailExact wasm32 h.stream received ↔
      h.replay.sentTotal < received ∨ h.replay.sentTotal - received < 2 ^ 32 ∨
        h.replay.buf.length < (h.replay.sentTotal - received) % 2 ^ 32 :=
  (History.tracks_of_run hrun).tailExact_iff

/-- Three bytes sent and one acknowledged: the tail from there on is right. -/
theorem tailExact_wasm32_small :
    ∃ h, Run.run (History.step wasm32) {} [.sent [1, 2, 3], .ack 1] = some h ∧
      h.replay.TailExact wasm32 h.stream 1 :=
  ⟨_, rfl, (tailExact_wasm32_iff [.sent [1, 2, 3], .ack 1] 1 rfl).2 (by decide)⟩

/-- The calls that hand over `n` chunks of 4 MiB. -/
def chunks4MiB (n : ℕ) : List Call := List.replicate n (.sent (List.replicate replayCap 0))

/-- The stream after `n` chunks of 4 MiB. -/
theorem exists_run_chunks4MiB (n : ℕ) (h : History) :
    ∃ h', Run.run (History.step wasm32) h (chunks4MiB n) = some h' ∧
      h'.stream.length = h.stream.length + n * replayCap := by
  induction n generalizing h with
  | zero => exact ⟨h, rfl, by omega⟩
  | succ n ih =>
    obtain ⟨h', hrun, hlength⟩ := ih (h.sent (List.replicate replayCap 0))
    refine ⟨h', Run.run_cons_eq_some.2 ⟨_, rfl, hrun⟩, ?_⟩
    rw [hlength]
    show (h.stream ++ List.replicate replayCap 0).length + _ = _
    rw [List.length_append, List.length_replicate, Nat.succ_mul]
    omega

/-- After 4 GiB, a peer that has received nothing is answered with an empty tail. -/
theorem not_tailExact_wasm32 :
    ∃ h, Run.run (History.step wasm32) {} (chunks4MiB 1024) = some h ∧
      h.replay.tailFrom wasm32 0 = some [] ∧ ¬ h.replay.TailExact wasm32 h.stream 0 := by
  obtain ⟨h, hrun, hlength⟩ := exists_run_chunks4MiB 1024 {}
  have ht := History.tracks_of_run hrun
  have htotal : h.replay.sentTotal = 2 ^ 32 := by
    rw [ht.sentTotal_eq, hlength]
    norm_num [replayCap]
  have hcast : wasm32 (h.replay.sentTotal - 0) = 0 := by
    rw [htotal]
    norm_num [wasm32]
  have htail : h.replay.tailFrom wasm32 0 = some [] := by
    unfold Replay.tailFrom
    rw [if_neg (Nat.not_lt_zero _)]
    dsimp only
    rw [hcast, if_neg (Nat.not_lt_zero _), Nat.sub_zero, List.drop_length]
  refine ⟨h, hrun, htail, fun hexact => ?_⟩
  have hempty : [] = h.stream := (hexact.1 [] htail).2
  rw [← hempty] at hlength
  norm_num [replayCap] at hlength

end Tunnel
