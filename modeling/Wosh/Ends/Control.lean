import Wosh.Client.Applying
import Wosh.Listener.Applying

set_option relaxedAutoImplicit false
set_option autoImplicit false

/-!
# Control frames stay out of the byte stream

Acknowledgements, pings and pongs share the streams of a session with its bytes, on both ends. They are
not counted and not replayed, a pong answers a ping of the same attachment, and without liveness a
ping ends the attachment. The listener keeps to this in every run. A client does where no reader begins
with a part of a frame, or begins after it was superseded with a ping in its decoder.

## Main definitions

* `Ends.ClientApart`, `Ends.ListenerApart` — what is said of every state.
* `Ends.keepsApart` — a step at which a reader begins with whole frames, and owes no stale echo.

## Main results

* `Ends.control_frames_apart` — along such steps it holds of the client, and always of the listener.
* `Ends.not_controlApart` — a run of a client that writes a pong on the wrong connection.
-/

namespace Ends

open Tunnel

/-- Acknowledging trims the replay buffer. -/
theorem ack_trims (r : Replay) (usize : ℕ → ℕ) (n : ℕ) :
    (r.ack usize n).sentTotal = r.sentTotal ∧ (r.ack usize n).buf <:+ r.buf := by
  unfold Replay.ack
  split_ifs
  · exact ⟨rfl, List.suffix_refl _⟩
  · exact ⟨rfl, List.drop_suffix _ _⟩

variable [Postcard]

/-! ## The client -/

/-- The control frames of a client are apart from its byte stream. -/
structure ClientApart (w : Client.World) : Prop where
  /-- The receive counter is the number of the bytes that were applied. -/
  counted : w.received = w.fed.length
  /-- An acknowledgement that a step writes carries that count, and a step that writes a control frame
  neither counts nor records. -/
  speaks : ∀ (l : Client.Label) (w' : Client.World), w.step l = some w' → w.Speaks w'
  /-- A control frame that is consumed is not counted and not recorded; an acknowledgement trims. -/
  consumes : ∀ f : Frame, f.control = true →
    (w.consumeFrame f).1.received = w.received ∧ (w.consumeFrame f).1.fed = w.fed ∧
      (w.consumeFrame f).1.replay.sentTotal = w.replay.sentTotal ∧
      (w.consumeFrame f).1.replay.buf <:+ w.replay.buf ∧
      (f.liveness = true → (w.consumeFrame f).1.replay = w.replay)
  /-- The pongs on a connection answer the first of the pings on it. -/
  echoes : ∀ (c : ℕ) (conn : Client.Conn), w.conns[c]? = some conn →
    pongsOf (heard conn.wire) <+: pingsOf (frames conn.taken).1
  /-- So do those that are due, and those are to be written on the current one. -/
  due : ∀ (r : Client.Reader) (conn : Client.Conn), w.readers[w.generation]? = some r →
    w.conns[r.conn]? = some conn →
    pongsOf (heard conn.wire) ++ w.pongDue <+: pingsOf (frames conn.taken).1
  /-- Without liveness, a ping or a pong ends the reader that finds it. -/
  violation : w.proto ≠ .v3 → ∀ (l : Client.Label) (w' : Client.World) (g : ℕ)
    (before after : List Frame) (f : Frame), w.step l = some w' →
    w.applying l = some (g, before ++ f :: after) → f.liveness = true →
    w'.Retired g ∧ w'.fed <+: w.fed ++ before.flatMap Frame.payload
  /-- A reader that has ended stays so, and applies nothing. -/
  retired : ∀ (g : ℕ), w.Retired g → ∀ l : Client.Label, (∀ fs, w.applying l ≠ some (g, fs)) ∧
    ∀ w', w.step l = some w' → w'.Retired g

omit [Postcard] in
theorem consumes_control (w : Client.World) {f : Frame} (hf : f.control = true) :
    (w.consumeFrame f).1.received = w.received ∧ (w.consumeFrame f).1.fed = w.fed ∧
      (w.consumeFrame f).1.replay.sentTotal = w.replay.sentTotal ∧
      (w.consumeFrame f).1.replay.buf <:+ w.replay.buf ∧
      (f.liveness = true → (w.consumeFrame f).1.replay = w.replay) := by
  obtain ⟨hreceived, hfed, hreplay⟩ := w.consumeFrame_control hf
  refine ⟨hreceived, hfed, ?_⟩
  rw [hreplay]
  cases f with
  | ack n =>
    obtain ⟨htotal, hbuf⟩ := ack_trims w.replay w.usize n.toNat
    exact ⟨htotal, hbuf, fun h => by cases h⟩
  | ping | pong => exact ⟨rfl, List.suffix_refl _, fun _ => rfl⟩
  | data | hello | reply => cases hf

/-- No reader that is current begins with a part of a frame, and none that was superseded before it was
first polled finds a ping in its decoder. -/
def keepsApart (w : Client.World) (l : Client.Label) : Bool :=
  Client.startsWhole w l && Client.echoesInStep w l

/-- Along steps that keep them apart they are. -/
theorem clientApart_run {d : Client.Dial} (hframed : d.proto.framed = true)
    {moves : List SshCore.Action} {w₀ w : Client.World}
    (hconn : Client.World.connect d moves = some w₀) {ls : List Client.Label}
    (hrun : Run.run Client.World.step w₀ ls = some w)
    (hapart : Run.Along Client.World.step (fun w l => keepsApart w l = true) w₀ ls) :
    ClientApart w := by
  have hboth : Run.Along Client.World.step
      (fun w l => Client.startsWhole w l = true ∧ Client.echoesInStep w l = true) w₀ ls :=
    .of_inv (P := fun _ => True) (fun _ _ _ _ _ _ => trivial)
      (fun u l _ h => by rwa [keepsApart, Bool.and_eq_true] at h) trivial hapart
  have hechoing := Client.World.echoing_run hframed hconn hrun hboth
  have hall : w.Tasks ∧ w.Cut :=
    Run.run_inv_of_step (P := fun w => w.Tasks ∧ w.Cut)
      (fun _ _ _ h hstep =>
        ⟨h.1.step hstep, (Client.World.speaks_step h.1.framed h.2 hstep).2⟩)
      ⟨Client.World.tasks_connect hframed hconn, Client.World.cut_connect hconn⟩ hrun
  obtain ⟨ht, hcut⟩ := hall
  exact {
    counted := hechoing.counted
    speaks := fun _ _ hstep => (Client.World.speaks_step ht.framed hcut hstep).1
    consumes := fun _ hf => consumes_control w hf
    echoes := fun _ _ hc => hechoing.echoes hc
    due := fun _ _ hr hc => (hechoing.due hr hc).prefix_of
    violation := fun hproto _ _ _ _ _ _ hstep happly hf =>
      Client.World.violation_step ht.framed hproto hstep happly hf
    retired := fun _ hg l =>
      ⟨hg.not_applying l, fun _ hstep => hg.step ht.framed hstep⟩ }

/-! ## The listener -/

/-- The control frames of a listener are apart from its byte stream. -/
structure ListenerApart (w : Listener.World) : Prop where
  /-- The receive counter is the number of the bytes that were applied. -/
  counted : w.st.received = w.st.pushed.length
  /-- An acknowledgement that a step queues carries that count, as it is once the frame that made it due
  is counted. -/
  acks : ∀ (a : Listener.Action) (w' : Listener.World), w.step a = some w' → Listener.Acked w a w'
  /-- A control frame that is applied is not counted and not recorded; an acknowledgement trims. -/
  applies : ∀ (pings : Bool) (f : Frame), f.control = true →
    (Listener.applyFrame pings w.st f).1.received = w.st.received ∧
      (Listener.applyFrame pings w.st f).1.pushed = w.st.pushed ∧
      (Listener.applyFrame pings w.st f).1.replay.sentTotal = w.st.replay.sentTotal ∧
      (Listener.applyFrame pings w.st f).1.replay.buf <:+ w.st.replay.buf ∧
      (f.liveness = true → (Listener.applyFrame pings w.st f).1.replay = w.st.replay)
  /-- What is written comes off the queue, and writing it neither counts nor records. -/
  writes : ∀ (a : Listener.Action) (w' : Listener.World), w.step a = some w' →
    (∀ (k : ℕ) (t t' : Listener.Task), w.tasks[k]? = some t → w'.tasks[k]? = some t' →
      ∃ fs, t'.wire = t.wire ++ fs ∧ fs <+: w.st.outq ∧
        (fs ≠ [] → w'.st.received = w.st.received ∧ w'.st.replay = w.st.replay))
  /-- The pongs on a stream, and those queued for it, answer the first of the pings on it. -/
  echoes : ∀ (k : ℕ) (t : Listener.Task), w.tasks[k]? = some t →
    pongsOf (heard (t.wire ++ Listener.queuedFor w k)) <+: pingsOf (frames t.arrived).1
  /-- On `wosh/2`, a ping or a pong ends the task that finds it. -/
  violation : ∀ (a : Listener.Action) (w' : Listener.World) (k : ℕ) (t : Listener.Task)
    (before after : List Frame) (f : Frame), w.step a = some w' →
    w.applying a = some (k, t, before ++ f :: after) → t.pings = false → f.liveness = true →
    w'.Returned k ∧ w'.st.pushed <+: w.st.pushed ++ before.flatMap Frame.payload
  /-- A task that has returned stays so, and applies nothing. -/
  returned : ∀ (k : ℕ), w.Returned k → ∀ a : Listener.Action,
    (∀ t fs, w.applying a ≠ some (k, t, fs)) ∧ ∀ w', w.step a = some w' → w'.Returned k

omit [Postcard] in
theorem applies_control (pings : Bool) (st : Listener.SessionState) {f : Frame}
    (hf : f.control = true) :
    (Listener.applyFrame pings st f).1.received = st.received ∧
      (Listener.applyFrame pings st f).1.pushed = st.pushed ∧
      (Listener.applyFrame pings st f).1.replay.sentTotal = st.replay.sentTotal ∧
      (Listener.applyFrame pings st f).1.replay.buf <:+ st.replay.buf ∧
      (f.liveness = true → (Listener.applyFrame pings st f).1.replay = st.replay) := by
  obtain ⟨hreceived, hpushed, -, hreplay⟩ := Listener.applyFrame_control pings st hf
  refine ⟨hreceived, hpushed, ?_⟩
  rw [hreplay]
  cases f with
  | ack n =>
    obtain ⟨htotal, hbuf⟩ := ack_trims st.replay wasm32 n.toNat
    exact ⟨htotal, hbuf, fun h => by cases h⟩
  | ping | pong => exact ⟨rfl, List.suffix_refl _, fun _ => rfl⟩
  | data | hello | reply => cases hf

/-- In every run they are apart. -/
theorem listenerApart_run {id : SessionId} {creator : String} {grace : ℕ} {reg : Listener.Registry}
    {pings : Bool} {dec : Bytes} {as : List Listener.Action} {w : Listener.World}
    (hrun : Run.run Listener.World.step (Listener.World.start id creator grace reg pings dec) as =
      some w) : ListenerApart w := by
  obtain ⟨-, hechoes⟩ := Listener.echoes_run hrun
  exact {
    counted := hechoes.counted
    acks := fun _ _ hstep => Listener.acks_step hstep
    applies := fun pings _ hf => applies_control pings w.st hf
    writes := fun _ _ hstep _ _ _ ht ht' => Listener.wire_step hstep ht ht'
    echoes := hechoes.owed
    violation := fun _ _ _ _ _ _ _ hstep happly hpings hf =>
      Listener.violation_step hstep happly hpings hf
    returned := fun _ hk a =>
      ⟨fun t fs => hk.not_applying a t fs, fun _ hstep => hk.step hstep⟩ }

/-! ## Both ends -/

/-- **Control frames stay out of the byte stream.** Along every run of a client with frames at whose
steps no current reader begins with a part of a frame, and no reader that was superseded before it was
first polled finds a ping in its decoder, its control frames are apart from its byte stream in the
state reached. Along every run of a listener they are. -/
theorem control_frames_apart :
    (∀ (d : Client.Dial) (moves : List SshCore.Action) (w₀ w : Client.World)
      (ls : List Client.Label), d.proto.framed = true →
      Client.World.connect d moves = some w₀ → Run.run Client.World.step w₀ ls = some w →
      Run.Along Client.World.step (fun w l => keepsApart w l = true) w₀ ls → ClientApart w) ∧
    ∀ (id : SessionId) (creator : String) (grace : ℕ) (reg : Listener.Registry) (pings : Bool)
      (dec : Bytes) (as : List Listener.Action) (w : Listener.World),
      Run.run Listener.World.step (Listener.World.start id creator grace reg pings dec) as = some w →
      ListenerApart w :=
  ⟨fun _ _ _ _ _ hframed hconn hrun hapart => clientApart_run hframed hconn hrun hapart,
    fun _ _ _ _ _ _ _ _ hrun => listenerApart_run hrun⟩

/-- The control frames of both ends as they should be, along every run. -/
def ControlApart : Prop :=
  (∀ (d : Client.Dial) (moves : List SshCore.Action) (w₀ w : Client.World)
    (ls : List Client.Label), d.proto.framed = true →
    Client.World.connect d moves = some w₀ → Run.run Client.World.step w₀ ls = some w →
    ClientApart w) ∧
  ∀ (id : SessionId) (creator : String) (grace : ℕ) (reg : Listener.Registry) (pings : Bool)
    (dec : Bytes) (as : List Listener.Action) (w : Listener.World),
    Run.run Listener.World.step (Listener.World.start id creator grace reg pings dec) as = some w →
    ListenerApart w

/-- A byte is written and lost, so that the session dials again. -/
def losesByte : List Client.Label :=
  [⟨.pollReader 0, [], []⟩, ⟨.pollWriter 0, [], []⟩, ⟨.tickCore .pump, [.connWrite [9]], []⟩,
    ⟨.pollWriter 0, [], []⟩, ⟨.wrote 0 false, [], []⟩]

/-- Resume `i` installs connection `c`, on which `b` follows the reply. -/
def resumesOn (i c : ℕ) (b : Bytes) : List Client.Label :=
  [⟨.dialed i true, [], []⟩, ⟨.opened i true, [], []⟩, ⟨.helloed i true, [], []⟩,
    ⟨.arrive c (@encodeReply Postcard.golden (.resumed 0) ++ b), [], []⟩, ⟨.loopRead i 64, [], []⟩]

/-- The tail is lost too, and the session dials once more. -/
def losesTail : List Client.Label := [⟨.pollWriter 1, [], []⟩, ⟨.wrote 1 false, [], []⟩]

/-- The reader of the second connection begins, and then the writer of the third one has written its
tail and goes round. -/
def beginsLate : List Client.Label :=
  [⟨.pollReader 1, [], []⟩, ⟨.pollWriter 2, [], []⟩, ⟨.wrote 2 true, [], []⟩,
    ⟨.pollWriter 2, [], []⟩]

omit [Postcard] in
/-- The ping that came with the reply of the second connection is answered on the third one. -/
theorem not_controlApart : ¬ @ControlApart Postcard.golden := by
  intro h
  have hrun : ∃ w₀ w conn, @Client.World.connect Postcard.golden Client.sampleDial [] = some w₀ ∧
      @Run.run _ _ (@Client.World.step Postcard.golden) w₀
        (losesByte ++ resumesOn 0 1 (encodePing 5) ++ losesTail ++ resumesOn 1 2 [] ++ beginsLate) =
          some w ∧ w.conns[2]? = some conn ∧
      @pongsOf (@heard Postcard.golden conn.wire) = [5] ∧
      pingsOf (@frames Postcard.golden conn.taken).1 = [] :=
    ⟨_, _, _, rfl, rfl, rfl, by decide, by decide⟩
  obtain ⟨w₀, w, conn, h₀, hw, hconn, hpongs, hpings⟩ := hrun
  have hechoes := @ ClientApart.echoes Postcard.golden w (h.1 _ _ w₀ w _ rfl h₀ hw) 2 conn hconn
  rw [hpongs, hpings] at hechoes
  exact absurd hechoes (by decide)

omit [Postcard] in
/-- A session whose readers begin in time: the run to which `control_frames_apart` is applied. -/
theorem control_frames_apart_prompt :
    ∃ w₀ w, @Client.World.connect Postcard.golden Client.sampleDial [] = some w₀ ∧
      @Run.run _ _ (@Client.World.step Postcard.golden) w₀
        (losesByte ++ resumesOn 0 1 (encodePing 5) ++ [⟨.pollReader 1, [], []⟩] ++ losesTail ++
          resumesOn 1 2 []) = some w ∧
      @ClientApart Postcard.golden w ∧ w.pongDue = [] :=
  ⟨_, _, rfl, rfl, (@ control_frames_apart Postcard.golden).1 Client.sampleDial [] _ _
    (losesByte ++ resumesOn 0 1 (encodePing 5) ++ [⟨.pollReader 1, [], []⟩] ++ losesTail ++
      resumesOn 1 2 []) rfl rfl rfl (by decide), by decide⟩

end Ends
