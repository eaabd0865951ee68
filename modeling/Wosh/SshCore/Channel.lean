import Wosh.SshCore.Engine

set_option relaxedAutoImplicit false
set_option autoImplicit false

/-!
# Bulk channels

`Channel` of `ssh-core/core/channel.go`: a byte pipe on an SSH channel of its own. A reader goroutine
fills the read-ahead buffer while it has room, a writer goroutine empties the write-ahead buffer at the
pace of the far end, and the entry points only touch the buffers.

## Main definitions

* `SshCore.Channel` — the state behind the channel's mutex, its two wake channels, and where the
  goroutines stand.
* `SshCore.Channel.step` — the transition function.
* `SshCore.Channel.Flow` — the invariant of the two directions.
* `SshCore.Channel.Delivers` — what is promised.

## Main results

* `SshCore.channel_delivers` — it holds in every state of every run.

## Design

An action is one section under the mutex, one operation on a wake channel, or what the ssh channel
does. A call that has left the mutex owes a signal; `readSignals` and `writeSignals` count these, so
that any number of calls may be in progress. `State` only reads. A write hands its bytes over in pieces, as far as the
window of the far end allows.

`accepted`, `handed`, `written`, `received`, `drained` and `eofs` record what happened. Nothing reads
them.
-/

namespace SshCore

open Tunnel Run

/-- The readable states of a bulk channel. -/
inductive ChannelState
  | channelOpen
  | channelEOF
  | channelClosed
deriving DecidableEq, Repr

/-- How a channel is started. -/
inductive ChannelKind
  | subsystem
  | exec
deriving DecidableEq, Repr

/-- The name of the entry point. -/
def ChannelKind.text : ChannelKind → String
  | .subsystem => "open-subsystem"
  | .exec => "open-exec-channel"

/-- The inbound bytes that one channel holds for the embedder. -/
def channelReadAheadCap : ℕ := 256 * 1024

/-- The outbound bytes that it accepts before a write is short. -/
def channelWriteAheadCap : ℕ := 256 * 1024

/-- The largest single read. -/
def channelReadChunk : ℕ := 32 * 1024

/-- The diagnostics that are kept for the close message. -/
def channelStderrTailCap : ℕ := 8 * 1024

/-- The bytes of a text. -/
def utf8 (s : String) : Bytes := s.toUTF8.toList

/-- How opening a channel can fail. -/
inductive OpenError
  /-- `client.NewSession`. -/
  | refused (err : String)
  /-- One of the pipes. -/
  | pipe (err : String)
  /-- The request for the subsystem or the command. -/
  | request (err : String)
deriving DecidableEq, Repr

/-- The reason that `open` closes the channel with. -/
def OpenError.reason (kind : ChannelKind) (arg : String) : OpenError → String
  | .refused err => kind.text ++ ": the server refused a new channel: " ++ err
  | .pipe err => kind.text ++ ": " ++ err
  | .request err =>
    match kind with
    | .subsystem =>
      "the server refused the " ++ arg.quote ++ " subsystem (" ++ err ++
        ") -- an sshd with no matching `Subsystem " ++ arg ++
        "` line refuses here; starting the same server through an exec channel reaches it anyway"
    | .exec => "the server refused to exec " ++ arg.quote ++ ": " ++ err

/-- How reading ended. -/
inductive ReadEnd
  | eof
  | failed (err : String)
deriving DecidableEq, Repr

/-- Where the reader stands. -/
inductive ReaderPc
  /-- The channel is not open yet. -/
  | unborn
  /-- About to look for room. -/
  | awaiting
  /-- Parked in `awaitRoom`. -/
  | parked
  /-- In `r.Read`, with room for so many bytes. -/
  | reading (room : ℕ)
  /-- Holding what was read. -/
  | storing (data : Bytes) (ended : Option ReadEnd)
  /-- About to mark the end. -/
  | ending (e : ReadEnd)
  | done
deriving DecidableEq, Repr

/-- What the reader has read and not yet stored. -/
@[simp]
def ReaderPc.held : ReaderPc → Bytes
  | .storing data _ => data
  | _ => []

/-- The room that the reader relies on. -/
@[simp]
def ReaderPc.claim : ReaderPc → ℕ
  | .reading room => room
  | .storing data _ => data.length
  | _ => 0

/-- Where the goroutine of `open` stands, which becomes the writer. -/
inductive WriterPc
  /-- In the round trip of `open`. -/
  | opening
  /-- At the top of `writeLoop`. -/
  | looping
  /-- Parked on `writeWake`. -/
  | parked
  /-- About to close `stdin`. -/
  | finishing
  /-- In `stdin.Write`, with these bytes left. -/
  | writing (rest : Bytes)
  /-- About to close the channel with this reason. -/
  | failing (reason : String)
  | done
deriving DecidableEq, Repr

/-- What the writer still has to write. -/
@[simp]
def WriterPc.rest : WriterPc → Bytes
  | .writing rest => rest
  | _ => []

/-- One bulk channel. -/
structure Channel where
  kind : ChannelKind
  arg : String
  state : ChannelState := .channelOpen
  closeMsg : Bytes := []
  /-- The read-ahead buffer. -/
  inbound : Bytes := []
  /-- What `Write` has accepted, and the writer has not taken. -/
  outbound : Bytes := []
  /-- `c.sess` is set. -/
  sess : Bool := false
  finishAsked : Bool := false
  finishDone : Bool := false
  stderrTail : Bytes := []
  /-- The tokens of the wake channels. -/
  readWake : Bool := false
  writeWake : Bool := false
  reader : ReaderPc := .unborn
  writer : WriterPc := .opening
  /-- Calls that owe `readWake` a signal, and those that owe `writeWake` one. -/
  readSignals : ℕ := 0
  writeSignals : ℕ := 0
  /-- The bytes that `Write` accepted, in order. -/
  accepted : Bytes := []
  /-- The bytes that `stdin.Write` was given, and those that it has written. -/
  handed : Bytes := []
  written : Bytes := []
  /-- The bytes that `stdout` gave, and those that `Drain` returned. -/
  received : Bytes := []
  drained : Bytes := []
  /-- How often `stdin` was closed. -/
  eofs : ℕ := 0
deriving DecidableEq

namespace Channel

/-- `newChannel`. -/
def new (kind : ChannelKind) (arg : String) : Channel := { kind, arg }

/-! ### State transitions -/

/-- `markEOF`: the remote will produce no more bytes. -/
def markEOF (c : Channel) : Channel :=
  if c.state = .channelOpen then { c with state := .channelEOF } else c

/-- The reason to close, with the diagnostics folded in. -/
def closeReason (c : Channel) (reason : String) : Bytes :=
  if c.stderrTail = [] then utf8 reason
  else utf8 (reason ++ " (stderr: ") ++ c.stderrTail ++ utf8 ")"

/-- `markClosed` under the mutex. Its two signals are owed. -/
def markClosed (c : Channel) (reason : String) : Channel :=
  if c.state = .channelClosed then c
  else
    { c with
      state := .channelClosed
      closeMsg := c.closeReason reason
      inbound := []
      outbound := []
      sess := false
      readSignals := c.readSignals + 1
      writeSignals := c.writeSignals + 1 }

/-! ### Entry points -/

/-- `Write`: how many bytes are accepted. -/
def write (c : Channel) (data : Bytes) : Channel × Except Bytes ℕ :=
  if c.state = .channelClosed then (c, .error (utf8 "channel is closed: " ++ c.closeMsg))
  else if c.finishAsked then
    (c, .error (utf8 "channel: finish() already sent EOF; no more bytes can be written"))
  else
    let room := min (channelWriteAheadCap - c.outbound.length) data.length
    if room = 0 then (c, .ok 0)
    else
      ({ c with
          outbound := c.outbound ++ data.take room
          writeSignals := c.writeSignals + 1
          accepted := c.accepted ++ data.take room }, .ok room)

/-- `Drain`: up to `max` buffered bytes. -/
def drain (c : Channel) (max : UInt32) : Channel × Bytes :=
  let n := if max < UInt32.ofNat c.inbound.length then max.toNat else c.inbound.length
  if n = 0 then (c, [])
  else
    ({ c with
        inbound := c.inbound.drop n
        readSignals := c.readSignals + 1
        drained := c.drained ++ c.inbound.take n }, c.inbound.take n)

/-- `Finish`: the promise to write no more. -/
def finish (c : Channel) : Channel :=
  if c.state = .channelClosed then c
  else { c with finishAsked := true, writeSignals := c.writeSignals + 1 }

/-- `Close`. -/
def close (c : Channel) : Channel := c.markClosed "channel closed"

/-! ### Goroutines -/

/-- `open` after its round trip: the loops begin, unless the channel is closed. -/
def opened (c : Channel) : Channel :=
  if c.state = .channelClosed then { c with writer := .done }
  else { c with sess := true, reader := .awaiting, writer := .looping }

/-- One look of `awaitRoom`. -/
def awaitRoom (c : Channel) : Channel :=
  if c.state = .channelClosed then { c with reader := .done }
  else if 0 < channelReadAheadCap - c.inbound.length then
    { c with reader := .reading (min (channelReadAheadCap - c.inbound.length) channelReadChunk) }
  else { c with reader := .parked }

/-- Where the reader goes after what it read is stored. -/
def afterStore : Option ReadEnd → ReaderPc
  | none => .awaiting
  | some e => .ending e

/-- The reader stores what it read. -/
def store (c : Channel) (data : Bytes) (ended : Option ReadEnd) : Channel :=
  if data = [] then { c with reader := afterStore ended }
  else if c.state = .channelClosed then { c with reader := .done }
  else { c with inbound := c.inbound ++ data, reader := afterStore ended }

/-- One round of `writeLoop` under the mutex. -/
def writeLoop (c : Channel) : Channel :=
  if c.state = .channelClosed then { c with writer := .done }
  else if c.outbound = [] then
    if c.finishAsked = true ∧ c.finishDone = false then
      { c with finishDone := true, writer := .finishing }
    else { c with writer := .parked }
  else
    { c with outbound := [], writer := .writing c.outbound, handed := c.handed ++ c.outbound }

/-- `stderrLoop` keeps a short head of the diagnostics. -/
def keepStderr (c : Channel) (data : Bytes) : Channel :=
  { c with stderrTail :=
      c.stderrTail ++ data.take (channelStderrTailCap - c.stderrTail.length) }

end Channel

/-- What happens next. -/
inductive ChannelAction
  | write (data : Bytes)
  | drain (max : UInt32)
  | finish
  | close
  /-- The session is closed. -/
  | markClosed (reason : String)
  /-- A call that has left the mutex signals `readWake`, or `writeWake`. -/
  | signalRead
  | signalWrite
  /-- The round trip of `open` succeeds, or fails. -/
  | opened
  | openFailed (e : OpenError)
  /-- The reader looks for room. -/
  | awaitRoom
  /-- It receives from `readWake`. -/
  | wakeRead
  /-- Its read returns. -/
  | read (data : Bytes) (ended : Option ReadEnd)
  /-- It stores what it read. -/
  | store
  /-- It marks the end. -/
  | markEnd
  /-- The writer goes through its loop. -/
  | writeLoop
  /-- It receives from `writeWake`. -/
  | wakeWrite
  /-- It closes `stdin`. -/
  | sendEOF
  /-- Its write hands over the next bytes. -/
  | push (n : ℕ)
  /-- Its write returns. -/
  | pushed
  | pushFailed (err : String)
  /-- It closes the channel after a failure. -/
  | fail
  /-- Diagnostics arrive. -/
  | stderr (data : Bytes)
deriving DecidableEq

namespace Channel

/-- One step of a channel. -/
def step (c : Channel) : ChannelAction → Option Channel
  | .write data => some (c.write data).1
  | .drain max => some (c.drain max).1
  | .finish => some c.finish
  | .close => some c.close
  | .markClosed reason => some (c.markClosed reason)
  | .signalRead =>
    if c.readSignals = 0 then none
    else some { c with readWake := true, readSignals := c.readSignals - 1 }
  | .signalWrite =>
    if c.writeSignals = 0 then none
    else some { c with writeWake := true, writeSignals := c.writeSignals - 1 }
  | .opened => if c.writer = .opening then some c.opened else none
  | .openFailed e =>
    if c.writer = .opening then some { c with writer := .failing (e.reason c.kind c.arg) } else none
  | .awaitRoom => if c.reader = .awaiting then some c.awaitRoom else none
  | .wakeRead =>
    if c.reader = .parked ∧ c.readWake = true then
      some { c with reader := .awaiting, readWake := false }
    else none
  | .read data ended =>
    match c.reader with
    | .reading room =>
      if data.length ≤ room then
        some { c with reader := .storing data ended, received := c.received ++ data }
      else none
    | _ => none
  | .store =>
    match c.reader with
    | .storing data ended => some (c.store data ended)
    | _ => none
  | .markEnd =>
    match c.reader with
    | .ending .eof => some { c.markEOF with reader := .done }
    | .ending (.failed err) => some { c.markClosed ("channel read: " ++ err) with reader := .done }
    | _ => none
  | .writeLoop => if c.writer = .looping then some c.writeLoop else none
  | .wakeWrite =>
    if c.writer = .parked ∧ c.writeWake = true then
      some { c with writer := .looping, writeWake := false }
    else none
  | .sendEOF =>
    if c.writer = .finishing then some { c with writer := .looping, eofs := c.eofs + 1 } else none
  | .push n =>
    match c.writer with
    | .writing rest =>
      some { c with writer := .writing (rest.drop n), written := c.written ++ rest.take n }
    | _ => none
  | .pushed => if c.writer = .writing [] then some { c with writer := .looping } else none
  | .pushFailed err =>
    match c.writer with
    | .writing _ => some { c with writer := .failing ("channel write: " ++ err) }
    | _ => none
  | .fail =>
    match c.writer with
    | .failing reason => some { c.markClosed reason with writer := .done }
    | _ => none
  | .stderr data => some (c.keepStderr data)

variable {c c' : Channel} {a : ChannelAction}

theorem state_markClosed (c : Channel) (reason : String) :
    (c.markClosed reason).state = .channelClosed := by
  unfold markClosed
  split_ifs with hstate
  · exact hstate
  · rfl

/-! ### The inbound direction -/

/-- What the inbound direction depends on. -/
def inwardView (c : Channel) : ChannelState × Bytes × ReaderPc × Bool × ℕ × Bytes × Bytes :=
  (c.state, c.inbound, c.reader, c.readWake, c.readSignals, c.received, c.drained)

/-- The reader is born when the channel is open. -/
def Born (c : Channel) : Prop := c.writer = .opening → c.reader = .unborn

/-- What was read is drained, buffered or held, in this order; there is room for what is being read;
and a parked reader that has room will be woken. -/
structure Inward (c : Channel) : Prop where
  received : c.state ≠ .channelClosed → c.drained ++ c.inbound ++ c.reader.held = c.received
  drained : c.drained <+: c.received
  closed : c.state = .channelClosed → c.inbound = []
  room : c.state ≠ .channelClosed → c.inbound.length + c.reader.claim ≤ channelReadAheadCap
  awake : c.state ≠ .channelClosed → c.reader = .parked → c.inbound.length < channelReadAheadCap →
    c.readWake = true ∨ 0 < c.readSignals

/-- What touches neither the buffer nor the reader keeps it. -/
theorem Inward.congr (h : c.Inward) (hview : c'.inwardView = c.inwardView) : c'.Inward := by
  cases c
  cases c'
  simp only [inwardView, Prod.mk.injEq] at hview
  obtain ⟨rfl, rfl, rfl, rfl, rfl, rfl, rfl⟩ := hview
  exact ⟨h.received, h.drained, h.closed, h.room, h.awake⟩

/-- A channel that is closed forgets what it buffers. -/
theorem Inward.markClosed (h : c.Inward) (reason : String) : (c.markClosed reason).Inward := by
  unfold Channel.markClosed
  split_ifs with hstate
  · exact h
  · exact ⟨fun hne => absurd rfl hne, h.drained, fun _ => rfl, fun hne => absurd rfl hne,
      fun hne => absurd rfl hne⟩

/-- In a closed channel, the reader may stop anywhere. -/
theorem Inward.of_closed (h : c.Inward) (hstate : c.state = .channelClosed) (pc : ReaderPc) :
    Inward { c with reader := pc } :=
  ⟨fun hne => absurd hstate hne, h.drained, h.closed, fun hne => absurd hstate hne,
    fun hne => absurd hstate hne⟩

/-- Draining makes room, and owes a signal. -/
theorem Inward.drain (h : c.Inward) (max : UInt32) : (c.drain max).1.Inward := by
  unfold Channel.drain
  dsimp only
  generalize (if max < UInt32.ofNat c.inbound.length then max.toNat else c.inbound.length) = n
  split_ifs with hn
  · exact h
  · have hsplit : c.drained ++ c.inbound.take n ++ c.inbound.drop n = c.drained ++ c.inbound := by
      rw [List.append_assoc, List.take_append_drop]
    refine ⟨fun hne => ?_, ?_, fun hstate => ?_, fun hne => ?_, fun _ _ _ => .inr (Nat.succ_pos _)⟩
    · show c.drained ++ c.inbound.take n ++ c.inbound.drop n ++ c.reader.held = c.received
      rw [hsplit]
      exact h.received hne
    · by_cases hstate : c.state = .channelClosed
      · have hempty : c.inbound.take n = [] := by rw [h.closed hstate, List.take_nil]
        show c.drained ++ c.inbound.take n <+: c.received
        rw [hempty, List.append_nil]
        exact h.drained
      · refine ⟨c.inbound.drop n ++ c.reader.held, ?_⟩
        show c.drained ++ c.inbound.take n ++ (c.inbound.drop n ++ c.reader.held) = c.received
        rw [← List.append_assoc, hsplit]
        exact h.received hstate
    · show c.inbound.drop n = []
      rw [h.closed hstate, List.drop_nil]
    · have hroom := h.room hne
      show (c.inbound.drop n).length + c.reader.claim ≤ channelReadAheadCap
      rw [List.length_drop]
      omega

/-- The reader parks only if there is no room. -/
theorem Inward.awaitRoom (h : c.Inward) (hpc : c.reader = .awaiting) : c.awaitRoom.Inward := by
  have hreceived := h.received
  have hroom := h.room
  rw [hpc] at hreceived hroom
  unfold Channel.awaitRoom
  split_ifs with hstate hfree
  · exact h.of_closed hstate _
  · refine ⟨hreceived, h.drained, h.closed, fun hne => ?_, fun _ hparked => by cases hparked⟩
    have := hroom hne
    show c.inbound.length + min (channelReadAheadCap - c.inbound.length) channelReadChunk ≤
      channelReadAheadCap
    simp only [ReaderPc.claim] at this
    omega
  · refine ⟨hreceived, h.drained, h.closed, hroom, fun _ _ hlt => ?_⟩
    have : c.inbound.length < channelReadAheadCap := hlt
    omega

/-- The reader holds nothing when it goes on. -/
theorem afterStore_held (ended : Option ReadEnd) :
    (afterStore ended).held = [] ∧ (afterStore ended).claim = 0 ∧ afterStore ended ≠ .parked := by
  cases ended <;> simp [afterStore]

/-- What was read is stored. -/
theorem Inward.store {data : Bytes} {ended : Option ReadEnd} (h : c.Inward)
    (hpc : c.reader = .storing data ended) : (c.store data ended).Inward := by
  obtain ⟨hheld, hclaim, hnot⟩ := afterStore_held ended
  have hreceived := h.received
  have hroom := h.room
  rw [hpc] at hreceived hroom
  unfold Channel.store
  split_ifs with hdata hstate
  · subst hdata
    refine ⟨fun hne => ?_, h.drained, h.closed, fun hne => ?_, fun _ hparked => absurd hparked hnot⟩
    · rw [hheld]
      exact hreceived hne
    · rw [hclaim]
      exact hroom hne
  · exact h.of_closed hstate _
  · refine ⟨fun hne => ?_, h.drained, fun hclosed => absurd hclosed hstate, fun hne => ?_,
      fun _ hparked => absurd hparked hnot⟩
    · rw [hheld, List.append_nil, ← List.append_assoc]
      exact hreceived hne
    · rw [hclaim, List.length_append]
      exact hroom hne

/-- A reader that stands elsewhere, holds nothing and claims nothing, and is not parked. -/
theorem Inward.reader (h : c.Inward) (pc : ReaderPc) (hheld : c.reader.held = [])
    (hpc : pc.held = [] ∧ pc.claim = 0 ∧ pc ≠ .parked) : Inward { c with reader := pc } := by
  obtain ⟨hheld', hclaim, hnot⟩ := hpc
  refine ⟨fun hne => ?_, h.drained, h.closed, fun hne => ?_, fun _ hparked => absurd hparked hnot⟩
  · rw [hheld', ← hheld]
    exact h.received hne
  · have := h.room hne
    show c.inbound.length + pc.claim ≤ channelReadAheadCap
    omega

/-- A reader that was born is not born again. -/
theorem Born.reader (h : c.Born) (hpc : c.reader ≠ .unborn) (hwriter : c'.writer = c.writer) :
    c'.Born := fun hopening => absurd (h (hwriter.symm.trans hopening)) hpc

@[simp]
theorem reader_markClosed (c : Channel) (reason : String) :
    (c.markClosed reason).reader = c.reader := by
  unfold markClosed
  split_ifs <;> rfl

/-- What the outbound direction depends on. -/
def outwardView (c : Channel) :
    (ChannelState × Bytes × Bool × Bool × Bool × WriterPc) × ℕ × Bytes × Bytes × Bytes × ℕ :=
  ((c.state, c.outbound, c.finishAsked, c.finishDone, c.writeWake, c.writer), c.writeSignals,
    c.accepted, c.handed, c.written, c.eofs)

/-- What was accepted is handed over or buffered, and what was handed over is written or held by the
writer, in this order; the end comes last; and a parked writer that has something to do will be
woken. -/
structure Outward (c : Channel) : Prop where
  accepted : c.state ≠ .channelClosed → c.handed ++ c.outbound = c.accepted
  handed : c.handed <+: c.accepted
  closed : c.state = .channelClosed → c.outbound = []
  outbound_le : c.outbound.length ≤ channelWriteAheadCap
  accepted_le : c.accepted.length ≤ c.handed.length + channelWriteAheadCap
  written : (∀ reason, c.writer ≠ .failing reason) → c.writer ≠ .done →
    c.written ++ c.writer.rest = c.handed
  written_prefix : c.written <+: c.handed
  handed_le : c.handed.length ≤ c.written.length + channelWriteAheadCap
  finished : c.finishDone = true →
    c.finishAsked = true ∧ c.outbound = [] ∧ c.written = c.accepted
  eofs : c.eofs + (if c.writer = .finishing then 1 else 0) = if c.finishDone then 1 else 0
  awake : c.state ≠ .channelClosed → c.writer = .parked →
    c.outbound ≠ [] ∨ (c.finishAsked = true ∧ c.finishDone = false) →
    c.writeWake = true ∨ 0 < c.writeSignals

/-- What touches neither the buffer nor the writer keeps it. -/
theorem Outward.congr (h : c.Outward) (hview : c'.outwardView = c.outwardView) : c'.Outward := by
  cases c
  cases c'
  simp only [outwardView, Prod.mk.injEq] at hview
  obtain ⟨⟨rfl, rfl, rfl, rfl, rfl, rfl⟩, rfl, rfl, rfl, rfl, rfl⟩ := hview
  exact ⟨h.accepted, h.handed, h.closed, h.outbound_le, h.accepted_le, h.written, h.written_prefix,
    h.handed_le, h.finished, h.eofs, h.awake⟩

/-- A channel that is closed forgets what it buffers. -/
theorem Outward.markClosed (h : c.Outward) (reason : String) : (c.markClosed reason).Outward := by
  unfold Channel.markClosed
  split_ifs with hstate
  · exact h
  · refine ⟨fun hne => absurd rfl hne, h.handed, fun _ => rfl, Nat.zero_le _, h.accepted_le, h.written,
      h.written_prefix, h.handed_le, fun hdone => ?_, h.eofs, fun hne => absurd rfl hne⟩
    obtain ⟨hasked, -, hwritten⟩ := h.finished hdone
    exact ⟨hasked, rfl, hwritten⟩

/-- Accepting bytes owes a signal, and comes before the promise to write no more. -/
theorem Outward.write (h : c.Outward) (data : Bytes) : (c.write data).1.Outward := by
  unfold Channel.write
  dsimp only
  split_ifs with hstate hasked hroom
  · exact h
  · exact h
  · exact h
  · generalize hn : min (channelWriteAheadCap - c.outbound.length) data.length = n at hroom
    have hlen : (c.outbound ++ data.take n).length ≤ channelWriteAheadCap := by
      have := h.outbound_le
      rw [List.length_append, List.length_take]
      omega
    have hdone : c.finishDone ≠ true := fun hdone => hasked (h.finished hdone).1
    refine ⟨fun _ => ?_, h.handed.trans (List.prefix_append _ _), fun hclosed => absurd hclosed hstate,
      hlen, ?_, h.written, h.written_prefix, h.handed_le, fun hfin => absurd hfin hdone, h.eofs,
      fun _ _ _ => .inr (Nat.succ_pos _)⟩
    · show c.handed ++ (c.outbound ++ data.take n) = c.accepted ++ data.take n
      rw [← h.accepted hstate, List.append_assoc]
    · show (c.accepted ++ data.take n).length ≤ c.handed.length + channelWriteAheadCap
      rw [← h.accepted hstate, List.append_assoc, List.length_append]
      exact Nat.add_le_add_left hlen _

/-- The promise to write no more owes a signal. -/
theorem Outward.finish (h : c.Outward) : c.finish.Outward := by
  unfold Channel.finish
  split_ifs
  · exact h
  · refine ⟨h.accepted, h.handed, h.closed, h.outbound_le, h.accepted_le, h.written,
      h.written_prefix, h.handed_le, fun hdone => ?_, h.eofs, fun _ _ _ => .inr (Nat.succ_pos _)⟩
    exact ⟨rfl, (h.finished hdone).2⟩

/-- A writer that stands elsewhere, with the same to write, and is not parked. -/
theorem Outward.writer (h : c.Outward) (pc : WriterPc) (hrest : c.written ++ c.writer.rest = c.handed)
    (hfinishing : c.writer ≠ .finishing) (hpc : pc.rest = c.writer.rest)
    (hparked : pc ≠ .parked) (hfinishing' : pc ≠ .finishing) : Outward { c with writer := pc } := by
  refine ⟨h.accepted, h.handed, h.closed, h.outbound_le, h.accepted_le, fun _ _ => ?_,
    h.written_prefix, h.handed_le, h.finished, ?_, fun _ hpc' => absurd hpc' hparked⟩
  · rw [hpc]
    exact hrest
  · have := h.eofs
    rw [if_neg hfinishing] at this
    rwa [if_neg hfinishing']

/-- A writer that stops. -/
theorem Outward.stop (h : c.Outward) (hfinishing : c.writer ≠ .finishing) {pc : WriterPc}
    (hpc : (∃ reason, pc = .failing reason) ∨ pc = .done) : Outward { c with writer := pc } := by
  refine ⟨h.accepted, h.handed, h.closed, h.outbound_le, h.accepted_le, fun hfail hdone => ?_,
    h.written_prefix, h.handed_le, h.finished, ?_, fun _ hpc' => ?_⟩
  · obtain ⟨reason, rfl⟩ | rfl := hpc
    · exact absurd rfl (hfail reason)
    · exact absurd rfl hdone
  · have := h.eofs
    rw [if_neg hfinishing] at this
    obtain ⟨reason, rfl⟩ | rfl := hpc <;> exact this
  · obtain ⟨reason, rfl⟩ | rfl := hpc <;> cases hpc'

/-- A round of the writer: it takes what is buffered, or sends the end, or parks. -/
theorem Outward.writeLoop (h : c.Outward) (hpc : c.writer = .looping) : c.writeLoop.Outward := by
  have hwritten : c.written = c.handed := by
    simpa [hpc] using h.written (by simp [hpc]) (by simp [hpc])
  have heofs : c.eofs = if c.finishDone then 1 else 0 := by
    have := h.eofs
    rwa [hpc] at this
  unfold Channel.writeLoop
  split_ifs with hstate hempty hfin
  · exact h.stop (by simp [hpc]) (.inr rfl)
  · obtain ⟨hasked, hdone⟩ := hfin
    have haccepted := h.accepted hstate
    rw [hempty, List.append_nil] at haccepted
    refine ⟨h.accepted, h.handed, h.closed, h.outbound_le, h.accepted_le, fun _ _ => ?_,
      h.written_prefix, h.handed_le, fun _ => ⟨hasked, hempty, hwritten.trans haccepted⟩, ?_,
      fun _ hparked => by cases hparked⟩
    · exact (List.append_nil _).trans hwritten
    · show c.eofs + 1 = 1
      rw [heofs, hdone]
      rfl
  · refine ⟨h.accepted, h.handed, h.closed, h.outbound_le, h.accepted_le, fun _ _ => ?_,
      h.written_prefix, h.handed_le, h.finished, heofs, fun _ _ hwork => ?_⟩
    · exact (List.append_nil _).trans hwritten
    · rcases hwork with hne | hwork
      · exact absurd hempty hne
      · exact absurd hwork hfin
  · have hdone : c.finishDone ≠ true := fun hdone => hempty (h.finished hdone).2.1
    have haccepted := h.accepted hstate
    refine ⟨fun _ => ?_, ?_, fun _ => rfl, Nat.zero_le _, ?_, fun _ _ => ?_, ?_, ?_,
      fun hfin => absurd hfin hdone, heofs, fun _ hparked => by cases hparked⟩
    · exact (List.append_nil _).trans haccepted
    · exact ⟨[], (List.append_nil _).trans haccepted⟩
    · show c.accepted.length ≤ (c.handed ++ c.outbound).length + channelWriteAheadCap
      rw [haccepted]
      exact Nat.le_add_right _ _
    · show c.written ++ c.outbound = c.handed ++ c.outbound
      rw [hwritten]
    · exact h.written_prefix.trans (List.prefix_append _ _)
    · show (c.handed ++ c.outbound).length ≤ c.written.length + channelWriteAheadCap
      rw [hwritten, List.length_append]
      exact Nat.add_le_add_left h.outbound_le _

/-- The writer hands over the next bytes. -/
theorem Outward.push {rest : Bytes} (h : c.Outward) (hpc : c.writer = .writing rest) (n : ℕ) :
    Outward { c with writer := .writing (rest.drop n), written := c.written ++ rest.take n } := by
  have hrest : c.written ++ rest.take n ++ rest.drop n = c.handed := by
    have := h.written (by simp [hpc]) (by simp [hpc])
    rwa [hpc, WriterPc.rest, ← List.take_append_drop n rest, ← List.append_assoc] at this
  have heofs := h.eofs
  rw [hpc] at heofs
  refine ⟨h.accepted, h.handed, h.closed, h.outbound_le, h.accepted_le, fun _ _ => hrest,
    ⟨_, hrest⟩, ?_, fun hdone => ?_, heofs, fun _ hparked => by cases hparked⟩
  · have := h.handed_le
    show c.handed.length ≤ (c.written ++ rest.take n).length + channelWriteAheadCap
    rw [List.length_append]
    omega
  · -- after the end everything was written, so there is no rest to write
    obtain ⟨hasked, hempty, hwritten⟩ := h.finished hdone
    refine ⟨hasked, hempty, ?_⟩
    have hlen := h.handed.length_le
    rw [← hrest, ← hwritten, List.length_append, List.length_append] at hlen
    have hnil : rest.take n = [] := List.length_eq_zero_iff.1 (by omega)
    show c.written ++ rest.take n = c.accepted
    rw [hnil, List.append_nil, hwritten]

/-- The state and the reason of a channel stay as they are. -/
def SameState (c c' : Channel) : Prop := c'.state = c.state ∧ c'.closeMsg = c.closeMsg

theorem sameState_or_markClosed (c : Channel) (reason : String) :
    SameState c (c.markClosed reason) ∨
      (c.state ≠ .channelClosed ∧ (c.markClosed reason).state = .channelClosed) := by
  unfold Channel.markClosed
  split_ifs with hstate
  · exact .inl ⟨rfl, rfl⟩
  · exact .inr ⟨hstate, rfl⟩

/-- The state of a channel stays, or the channel is closed, or the reader marks the end and changes
nothing else. -/
theorem state_step (hstep : c.step a = some c') :
    SameState c c' ∨ (c.state ≠ .channelClosed ∧ c'.state = .channelClosed) ∨
      (c.state = .channelOpen ∧ c' = { c with state := .channelEOF, reader := .done }) := by
  cases a <;> simp only [step, Option.some.injEq, Option.ite_none_right_eq_some,
    Option.ite_none_left_eq_some] at hstep
  case write data =>
    subst hstep
    left
    unfold write
    dsimp only
    split_ifs <;> exact ⟨rfl, rfl⟩
  case drain max =>
    subst hstep
    left
    unfold drain
    dsimp only
    generalize (if max < UInt32.ofNat c.inbound.length then max.toNat else c.inbound.length) = n
    split_ifs <;> exact ⟨rfl, rfl⟩
  case finish =>
    subst hstep
    left
    unfold finish
    split_ifs <;> exact ⟨rfl, rfl⟩
  case close =>
    subst hstep
    exact (sameState_or_markClosed c _).imp_right .inl
  case markClosed reason =>
    subst hstep
    exact (sameState_or_markClosed c reason).imp_right .inl
  case opened =>
    obtain ⟨-, rfl⟩ := hstep
    left
    unfold opened
    split_ifs <;> exact ⟨rfl, rfl⟩
  case awaitRoom =>
    obtain ⟨-, rfl⟩ := hstep
    left
    unfold awaitRoom
    split_ifs <;> exact ⟨rfl, rfl⟩
  case read data ended =>
    split at hstep
    · simp only [Option.ite_none_right_eq_some, Option.some.injEq] at hstep
      obtain ⟨-, rfl⟩ := hstep
      exact .inl ⟨rfl, rfl⟩
    · cases hstep
  case store =>
    split at hstep <;> cases hstep
    left
    unfold store
    split_ifs <;> exact ⟨rfl, rfl⟩
  case markEnd =>
    split at hstep <;> cases hstep
    · unfold markEOF
      split_ifs with hopen
      · exact .inr (.inr ⟨hopen, rfl⟩)
      · exact .inl ⟨rfl, rfl⟩
    · exact (sameState_or_markClosed c _).imp_right .inl
  case writeLoop =>
    obtain ⟨-, rfl⟩ := hstep
    left
    unfold writeLoop
    split_ifs <;> exact ⟨rfl, rfl⟩
  case push n =>
    split at hstep <;> cases hstep
    exact .inl ⟨rfl, rfl⟩
  case pushFailed err =>
    split at hstep <;> cases hstep
    exact .inl ⟨rfl, rfl⟩
  case fail =>
    split at hstep <;> cases hstep
    exact (sameState_or_markClosed c _).imp_right .inl
  case stderr data =>
    subst hstep
    exact .inl ⟨rfl, rfl⟩
  all_goals
    obtain ⟨-, rfl⟩ := hstep
    exact .inl ⟨rfl, rfl⟩

/-- The closed state is terminal, and so is its reason. -/
theorem closed_step (h : c.state = .channelClosed) (hstep : c.step a = some c') :
    c'.state = .channelClosed ∧ c'.closeMsg = c.closeMsg := by
  rcases state_step hstep with hsame | ⟨hopen, -⟩ | ⟨hopen, -⟩
  · exact ⟨hsame.1.trans h, hsame.2⟩
  · exact absurd h hopen
  · exact absurd (h.symm.trans hopen) (by simp)

/-- No call is in progress: none owes a signal. -/
def Quiet (c : Channel) : Prop := c.readSignals = 0 ∧ c.writeSignals = 0

/-- What a channel promises. -/
structure Delivers (c : Channel) : Prop where
  /-- The bytes handed to `stdin.Write` are a prefix of those that were accepted. -/
  handed : c.handed <+: c.accepted
  /-- The bytes that `Drain` returned are a prefix of those that were read. -/
  drained : c.drained <+: c.received
  /-- At the end of the far side, all that was read and not drained is still buffered. -/
  kept : c.state = .channelEOF → c.drained ++ c.inbound ++ c.reader.held = c.received
  inbound_le : c.inbound.length ≤ channelReadAheadCap
  outbound_le : c.outbound.length ≤ channelWriteAheadCap
  unwritten_le : c.accepted.length - c.written.length ≤ 2 * channelWriteAheadCap
  /-- `stdin` is closed once, after `Finish` and after everything was written. -/
  eofs_le : c.eofs ≤ 1
  finished : 0 < c.eofs → c.finishAsked = true ∧ c.written = c.accepted
  /-- A parked goroutine has nothing to do, or has a token. -/
  reader_awake : c.Quiet → c.state ≠ .channelClosed → c.reader = .parked →
    c.inbound.length < channelReadAheadCap → c.readWake = true
  writer_awake : c.Quiet → c.state ≠ .channelClosed → c.writer = .parked →
    c.outbound ≠ [] ∨ (c.finishAsked = true ∧ c.finishDone = false) → c.writeWake = true

end Channel

end SshCore
