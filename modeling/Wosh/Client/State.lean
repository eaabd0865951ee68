import Wosh.SshCore.Engine
import Wosh.Tunnel.Frame

set_option relaxedAutoImplicit false
set_option autoImplicit false

/-!
# The client session's state

What the tasks and exported methods of a session share, `Inner` and `State` of
`wosh-client/src/lib.rs`, the program counters of its tasks, and the operations on it that
contain no await.

## Main definitions

* `Client.World` — one session: the shared state, its connections and its tasks.
* `Client.World.driveTurn` — one turn of `drive`.
* `Client.World.consume` — `consume_frames`.
* `Client.World.linkNext`, `Client.World.loopNext` — the decisions of `link_lost` and of the top of
  `resume_loop`.

## Design

A connection is known by its index in `World.conns`. The reader, the writer and the prober born
under a generation are known by that generation: a session begins with one of each, and a resume
that installs a connection adds one of each.

The SSH core is the engine of `Wosh.SshCore.Engine`. An export of the core gives its goroutines
scheduler rounds; what they do in them is a list of the engine's background actions, and the
rounds of calls that follow each other without an await are taken together.

Times are in milliseconds. `usize` is the cast of `Replay` (see `Wosh.Tunnel.Replay`). Fields in
the group *history* are read by no function of the model.
-/

namespace Client

open Tunnel

/-! ## Constants -/

/-- The most SSH bytes put in one DATA frame (`MAX_WIRE_CHUNK`). -/
def maxWireChunk : ℕ := 256 * 1024

/-- Backoff of the resume machine, its cap, and the budget of trying. -/
def resumeBackoffStartMs : ℕ := 500
@[inherit_doc resumeBackoffStartMs] def resumeBackoffCapMs : ℕ := 15000
@[inherit_doc resumeBackoffStartMs] def resumeWindowMs : ℕ := 600000

/-- The most a single attempt can charge the budget. -/
def resumeAttemptCapMs : ℕ := 20000

/-- Probe the peer after this much inbound silence. -/
def pingAfterIdleMs : ℕ := 10000

/-- An outstanding ping older than this is a verdict. -/
def pingVerdictMs : ℕ := 5000

/-- How often the prober wakes. -/
def keepaliveTickMs : ℕ := 1000

/-- A DATA write after this much silence piggybacks a ping. -/
def interactiveProbeMs : ℕ := 2000

/-- The tunnel dialect, fixed for the session's lifetime. -/
inductive Proto
  | v3
  | v2
  | v1
deriving DecidableEq, Repr

/-- Tunnel frames rather than raw ssh bytes. -/
def Proto.framed (p : Proto) : Bool := p ≠ .v1

/-- Why a session ended. -/
inductive CloseKind
  | ended
  | failed
  | lost
deriving DecidableEq, Repr

/-! ## The core -/

/-- The SSH core, with whether it has ever been ready. -/
structure Core where
  engine : SshCore.Engine
  /-- History: the state `ready` was published at some time. -/
  everReady : Bool
  everReady_of_ready : engine.state = .ready → everReady = true

namespace Core

/-- `connect`. -/
def new (user : String) (cols rows : ℕ) (command : String) : Core :=
  ⟨.new user cols rows command, false, nofun⟩

/-- The core after a move of its engine. -/
def note (c : Core) (e : SshCore.Engine) : Core :=
  ⟨e, c.everReady || e.state = .ready, fun h => by simp [h]⟩

/-- The goroutines take these steps. -/
def rounds (c : Core) (moves : List SshCore.Action) : Option Core :=
  Run.run (fun c a => (c.engine.background a).map c.note) c moves

/-- An export of the core: its own piece, the scheduler rounds it gives the goroutines, and what
is left of it after them. -/
def call (c : Core) (entry : SshCore.Action) (moves : List SshCore.Action) : Option Core :=
  (c.engine.call entry).bind fun e =>
    ((c.note e).rounds moves).map fun c =>
      match c.engine.ending with
      | none => c
      | some msg => c.note { c.engine.closeWith msg with ending := none }

/-- `status` is `closed`. -/
def closed (c : Core) : Bool := c.engine.state = .closed

/-- `feed`, up to its rounds. -/
def feed (c : Core) (data : Bytes) : Core :=
  { c with engine := { c.engine with conn := c.engine.conn.push data } }

/-- `drain`: what the core has produced. -/
def drain (c : Core) : Bytes × Core :=
  (c.engine.conn.drainOutbox.1,
    { c with engine := { c.engine with conn := c.engine.conn.drainOutbox.2 } })

end Core

/-! ## Connections and tasks -/

/-- A connection and its one bidirectional stream. -/
structure Conn where
  /-- Bytes that arrived and were not read yet. -/
  inbox : Bytes := []
  /-- Closed at this end: nothing arrives any more. -/
  closed : Bool := false
  /-- History: the bytes read from it. -/
  taken : Bytes := []
  /-- History: the hello that opened its stream. -/
  hello : Option Bytes := none
  /-- History: what its writer wrote after that. -/
  wire : List Bytes := []
  /-- History: the count its hello asked to resume from; `0` on the first one. -/
  resumeFrom : ℕ := 0
  /-- History: the count the peer's `Resumed` reply reported; `0` on the first one. -/
  peerReceived : ℕ := 0
  /-- History: the generation it was installed under. -/
  installed : Option ℕ := none
  /-- History: the reply asked for bytes that are no longer buffered. -/
  gap : Bool := false
deriving DecidableEq

/-- Where a reader stands. -/
inductive ReaderPc
  /-- Spawned with a decoder that may hold frames. -/
  | seeded
  /-- Awaiting a read. -/
  | reading
  /-- Awaiting `drive`; `seeded` when it was spawned with a decoder and has read nothing yet. -/
  | driving (seeded : Bool)
  | done
deriving DecidableEq

/-- A reader task. -/
structure Reader where
  conn : ℕ
  dec : Bytes
  pc : ReaderPc
deriving DecidableEq

/-- The `drive` a reader awaits returns: it reads on, unless it was spawned with a decoder and has
been superseded. -/
def Reader.drove (stale : Bool) (r : Reader) : Reader :=
  match r.pc with
  | .driving seeded => { r with pc := if seeded && stale then .done else .reading }
  | _ => r

/-- Where a writer stands. Each write it awaits has been handed to the stream already. -/
inductive WriterPc
  /-- Spawned with a replay tail. -/
  | spawned (tail : Bytes)
  /-- Writing the tail; the pieces left after the present one. -/
  | tail (rest : List Bytes)
  /-- About to wait for the signal. -/
  | waiting
  /-- Suspended in the wait, with its waker registered. -/
  | parked
  | ack
  | pong
  | ping
  /-- Writing an item of the outbox; the pieces left after the present one. -/
  | data (rest : List Bytes)
  | done
deriving DecidableEq

/-- A writer task. -/
structure Writer where
  conn : ℕ
  pc : WriterPc
deriving DecidableEq

/-- Where a prober stands. -/
inductive KeeperPc
  | spawned
  | sleeping (due : ℕ)
  | done
deriving DecidableEq

/-- Where a `resume_loop` stands. -/
inductive LoopPc
  /-- Spawned by `wake`. -/
  | spawned
  /-- At the top of the loop. -/
  | top
  /-- Awaiting `connect`. -/
  | dialing
  /-- Awaiting `rebind_endpoint`. -/
  | rebinding
  | sleeping (due : ℕ)
  /-- Awaiting `open_bi`. -/
  | opening (conn : ℕ)
  /-- Awaiting the write of the hello. -/
  | helloing (conn : ℕ)
  /-- Awaiting a read of the handshake. -/
  | replying (conn : ℕ) (dec : Bytes) (deferred : List Bytes)
  | done
deriving DecidableEq

/-- The connection an attempt has dialed. -/
def LoopPc.conn : LoopPc → Option ℕ
  | .opening c => some c
  | .helloing c => some c
  | .replying c _ _ => some c
  | _ => none

/-- A run of `resume_loop`. -/
structure Loop where
  generation : ℕ
  spent : ℕ := 0
  attemptStarted : ℕ := 0
  backoff : ℕ := resumeBackoffStartMs
  pc : LoopPc
deriving DecidableEq

/-- What has been spent once the attempt that ended is charged; it is charged at most the cap. -/
def Loop.charged (loop : Loop) (now : ℕ) : ℕ :=
  loop.spent + min (now - loop.attemptStarted) resumeAttemptCapMs

/-- Who awaits a `drive`, and so what happens when it returns. -/
inductive Owner
  | reader (generation : ℕ)
  /-- `detach`, which then closes the connection it found. -/
  | detach (conn : ℕ)
  /-- `confirm_host_key` with a rejection. -/
  | reject
  | other
deriving DecidableEq

/-- The sticky wake signal of the writers. -/
structure Signal where
  dirty : Bool := false
  /-- The writer that registered last. -/
  waker : Option ℕ := none
  /-- History: the writers whose wakers were woken since they last registered. -/
  woken : List ℕ := []
deriving DecidableEq

/-! ## The session -/

/-- One client session. -/
structure World where
  proto : Proto
  usize : ℕ → ℕ
  now : ℕ
  core : Core
  /-- The current connection. -/
  conn : ℕ := 0
  generation : ℕ := 0
  /-- Bytes the core produced, awaiting a writer. -/
  outbox : List Bytes := []
  linkDown : Bool := false
  /-- A signature relay is in flight. -/
  signing : Bool := false
  detached : Bool := false
  sessionId : SessionId
  replay : Replay := {}
  /-- Cumulative DATA bytes received this session. -/
  received : ℕ := 0
  /-- The last value an ACK frame carried. -/
  ackedToPeer : ℕ := 0
  ackDue : Bool := false
  /-- A resume is in flight. -/
  resuming : Bool := false
  suspended : Bool := false
  stalled : Bool := false
  /-- When the last frame of any kind arrived. -/
  lastInboundMs : ℕ
  /-- When the outstanding ping was put on the wire. -/
  pingOutstanding : Option ℕ := none
  pingDue : Bool := false
  pongDue : List UInt64 := []
  pingCounter : ℕ := 0
  /-- The session was seen `ready`. -/
  wasReady : Bool := false
  closeKind : Option CloseKind := none
  /-- The pairing proof, replayed in every hello. -/
  pairing : Bytes
  writerSignal : Signal := {}
  conns : List Conn
  readers : List Reader
  writers : List Writer
  keepers : List KeeperPc
  loops : List Loop := []
  /-- The `drive` that awaits a signature. -/
  parked : Option Owner := none
  /-- History: the payloads fed to the core. -/
  fed : Bytes := []
  /-- History: what `take_core_output` queued. -/
  queued : Bytes := []
  /-- History: what was popped from the outbox. -/
  popped : Bytes := []
  /-- History: how often `endpoint.connect` was called to resume. -/
  dials : ℕ := 0
  /-- History: how many hellos asked to resume. -/
  hellos : ℕ := 0
  /-- History: the death was declared while the core was open. -/
  closedByWire : Bool := false
  /-- History: when a frame became readable on the current connection, since the outstanding
  ping was stamped. -/
  answeredAt : Option ℕ := none

namespace World

variable (w : World)

/-- A task born under `generation` has been superseded. -/
def stale (generation : ℕ) : Bool := w.generation ≠ generation

/-- `writer_signal.notify()`. -/
def notify : World :=
  { w with writerSignal :=
    { dirty := true
      waker := none
      woken := w.writerSignal.waker.toList ++ w.writerSignal.woken } }

/-- Replace a connection. -/
def modifyConn (c : ℕ) (f : Conn → Conn) : World := { w with conns := w.conns.modify c f }

/-- Close a connection at this end. -/
def closeConn (c : ℕ) : World := w.modifyConn c fun conn => { conn with closed := true }

/-- Hand a frame to the stream of a connection. -/
def write (c : ℕ) (frame : Bytes) : World :=
  w.modifyConn c fun conn => { conn with wire := conn.wire ++ [frame] }

/-- A reader moves on. -/
def setReader (g : ℕ) (pc : ReaderPc) : World :=
  { w with readers := w.readers.modify g fun r => { r with pc := pc } }

/-- A writer moves on. -/
def setWriter (g : ℕ) (pc : WriterPc) : World :=
  { w with writers := w.writers.modify g fun t => { t with pc := pc } }

/-- A prober moves on. -/
def setKeeper (g : ℕ) (pc : KeeperPc) : World := { w with keepers := w.keepers.set g pc }

/-- A resume moves on. -/
def setLoop (i : ℕ) (loop : Loop) : World := { w with loops := w.loops.set i loop }

/-! ### The core -/

/-- The goroutines of the core take these steps. -/
def coreRounds (moves : List SshCore.Action) : Option World :=
  (w.core.rounds moves).map fun core => { w with core := core }

/-- An export of the core is called. -/
def coreCall (entry : SshCore.Action) (moves : List SshCore.Action) : Option World :=
  (w.core.call entry moves).map fun core => { w with core := core }

/-- `take_core_output`: the session after it, and whether anything was queued. -/
def takeCoreOutput : World × Bool :=
  let bytes := w.core.drain.1
  let w := { w with core := w.core.drain.2 }
  if bytes = [] then (w, false)
  else ({ w with outbox := w.outbox ++ [bytes], queued := w.queued ++ bytes }, true)

/-- A `drive` returns to the one who awaits it. -/
def finishDrive : Owner → World
  | .reader g => { w with readers := w.readers.modify g (Reader.drove (w.stale g)) }
  | .detach c => w.notify.closeConn c
  | .reject => w.closeConn w.conn
  | .other => w

/-- One turn of `drive`, after the core's pump: queue its output, latch that it is ready, and
either await a signature or return. -/
def driveTurn (owner : Owner) : World :=
  let w := if w.takeCoreOutput.2 then w.takeCoreOutput.1.notify else w.takeCoreOutput.1
  let w := if w.core.engine.state = .ready then { w with wasReady := true } else w
  if w.core.engine.state = .signing ∧ w.signing = false ∧ w.core.engine.sigRequest.isSome then
    { w with signing := true, parked := some owner }
  else w.finishDrive owner

/-- Feed a payload of the session's stream to the core, and count it. -/
def feedCounted (payload : Bytes) : World :=
  { w with
    core := w.core.feed payload
    received := w.received + payload.length
    fed := w.fed ++ payload }

/-! ### Frames -/

/-- One frame of `consume_frames`: the session, whether the core was fed, whether the writer
is to be woken, and the objection if the frame is a violation. -/
def consumeFrame (f : Frame) : World × Bool × Bool × Option String :=
  let w := { w with lastInboundMs := w.now, pingOutstanding := none }
  match f with
  | .data payload => if payload = [] then (w, false, false, none)
      else (w.feedCounted payload, true, false, none)
  | .ack n => ({ w with replay := w.replay.ack w.usize n.toNat }, false, false, none)
  | .ping payload =>
    if w.proto ≠ .v3 then (w, false, false, some "ping frame on a connection without liveness")
    else ({ w with pongDue := w.pongDue ++ [payload] }, false, true, none)
  | .pong _ =>
    if w.proto ≠ .v3 then (w, false, false, some "pong frame on a connection without liveness")
    else (w, false, false, none)
  | .reply _ => (w, false, false, some "unexpected reply frame mid-session")
  | .hello _ => (w, false, false, some "unexpected hello frame from listener")

/-- Frames consumed in order, up to the first violation. -/
def consumeFrames : World → List Frame → World × Bool × Bool × Option String
  | w, [] => (w, false, false, none)
  | w, f :: fs =>
    match w.consumeFrame f with
    | (w, fed, wake, some e) => (w, fed, wake, some e)
    | (w, fed, wake, none) =>
      let r := consumeFrames w fs
      (r.1, fed || r.2.1, wake || r.2.2.1, r.2.2.2)

/-- `consume_frames`: the session, and either the objection, or whether the core was fed and the
rest of the decoder's buffer. -/
def consume [Postcard] (dec : Bytes) : World × Except String (Bool × Bytes) :=
  let r := w.consumeFrames (frames dec).1
  match r.2.2.2, (frames dec).2 with
  | some e, _ => (r.1, .error e)
  | none, .error e => (r.1, .error e)
  | none, .ok rest =>
    let due : Bool := ackEveryBytes ≤ r.1.received - r.1.ackedToPeer
    let w := if due then { r.1 with ackDue := true } else r.1
    (if due || r.2.2.1 then w.notify else w, .ok (r.2.1, rest))

/-! ### The writer -/

/-- The pieces `write_data` puts on the wire one after the other. -/
def wireChunks (bytes : Bytes) : List Bytes :=
  if w.proto.framed then (Incremental.chunks maxWireChunk bytes).map encodeData else [bytes]

/-- Write the first of the pieces; `pc` is where the writer awaits it. -/
def writePieces (g : ℕ) (pc : List Bytes → WriterPc) : List Bytes → World
  | [] => w.setWriter g (pc [])
  | p :: rest =>
    match w.writers[g]? with
    | none => w
    | some t => (w.write t.conn p).setWriter g (pc rest)

/-- The writer writes a control frame. -/
def writeControl (g : ℕ) (frame : Bytes) (pc : WriterPc) : World :=
  w.writePieces g (fun _ => pc) [frame]

/-- The last part of the inner loop: an item of the outbox, recorded before it is written, or
nothing more to write. -/
def writerData (g : ℕ) : World :=
  match w.outbox with
  | [] => if w.detached then w.setWriter g .done else w.setWriter g .waiting
  | bytes :: outbox =>
    let replay := if w.proto.framed then w.replay.sent bytes else w.replay
    { w with outbox := outbox, replay := replay, popped := w.popped ++ bytes }.writePieces g .data
      (w.wireChunks bytes)

/-- Our own probe, stamped where it reaches the wire. -/
def writerPing (g : ℕ) : World :=
  if w.proto = .v3 ∧ w.pingDue = true ∧ w.pingOutstanding = none then
    { w with
      pingDue := false
      pingCounter := w.pingCounter + 1
      pingOutstanding := some w.now
      answeredAt := none }.writeControl g (encodePing (UInt64.ofNat (w.pingCounter + 1))) .ping
  else w.writerData g

/-- Every queued ping gets its echo. -/
def writerPong (g : ℕ) : World :=
  match w.pongDue with
  | payload :: rest => { w with pongDue := rest }.writeControl g (encodePong payload) .pong
  | [] => w.writerPing g

/-- The inner loop from its top: an ACK first. -/
def writerAck (g : ℕ) : World :=
  if w.proto.framed = true ∧ w.ackDue = true then
    { w with ackDue := false, ackedToPeer := w.received }.writeControl g
      (encodeAck (UInt64.ofNat w.received)) .ack
  else w.writerPong g

/-- After an item of the outbox: ask for a ping if the link has been quiet. -/
def interactiveProbe : World :=
  if w.proto = .v3 ∧ w.pingOutstanding = none ∧ w.pingDue = false ∧
      interactiveProbeMs ≤ w.now - w.lastInboundMs then
    { w with pingDue := true }
  else w

/-! ### The prober -/

/-- What a tick of the prober decides. -/
inductive Tick
  | retire
  | idle
  | probe
  | dead
deriving DecidableEq

/-- `keepalive_task`'s decision. -/
def keeperTick (g : ℕ) : Tick :=
  if w.stale g = true ∨ w.detached = true ∨ w.linkDown = true then .retire
  else if w.suspended = true ∨ w.resuming = true then .idle
  else
    match w.pingOutstanding with
    | some sent => if pingVerdictMs ≤ w.now - sent then .dead else .idle
    | none =>
      if w.pingDue = false ∧ pingAfterIdleMs ≤ w.now - w.lastInboundMs then .probe else .idle

/-! ### The resume machine -/

/-- What `link_lost` decides. -/
inductive LinkNext
  | retire
  /-- The page is away: remember that the transport went. -/
  | stall
  | die
  | resume
deriving DecidableEq

/-- The decision of `link_lost`. -/
def linkNext (g : ℕ) : LinkNext :=
  if w.stale g = true ∨ w.detached = true then .retire
  else if w.proto = .v1 then .die
  else if w.resuming = true then .retire
  else if w.suspended = true then .stall
  else .resume

/-- The resume should stop touching the session. -/
def abandoned (g : ℕ) : Bool := w.detached || w.linkDown || w.stale g

/-- What the top of `resume_loop` decides. -/
inductive LoopNext
  | leave
  | standDown
  | die (reason : String)
  | dial
deriving DecidableEq

/-- The decision at the top of `resume_loop`, once the attempt that ended is charged. -/
def loopNext (g spent : ℕ) : LoopNext :=
  if w.abandoned g then .leave
  else if w.suspended then .standDown
  else if resumeWindowMs < spent then
    .die ("connection lost and could not be resumed within " ++ toString (resumeWindowMs / 1000) ++
      "s")
  else if w.replay.overflowed then
    .die "resume impossible: unacknowledged data exceeded the replay buffer"
  else .dial

/-- The sleep charges what it asks for. -/
def backoffSleep (i : ℕ) (loop : Loop) : World :=
  w.setLoop i { loop with spent := loop.spent + loop.backoff, pc := .sleeping (w.now + loop.backoff) }

end World

/-! ## The handshake -/

/-- Where a handshake stands after the frames that have arrived. -/
inductive Handshake
  /-- No reply yet. -/
  | more (dec : Bytes) (deferred : List Bytes)
  | failed (err : String)
  | reply (r : HelloReply) (deferred : List Bytes) (dec : Bytes)

/-- The inner loop of `handshake`, at most `n` frames of it: DATA before the reply is deferred. -/
def handshakeUpTo [Postcard] : ℕ → Bytes → List Bytes → Handshake
  | 0, dec, deferred => .more dec deferred
  | n + 1, dec, deferred =>
    match nextFrame dec with
    | .error e => .failed e
    | .ok none => .more dec deferred
    | .ok (some (f, rest)) =>
      match f with
      | .reply r => .reply r deferred rest
      | .data payload => handshakeUpTo n rest (deferred ++ [payload])
      | .ack _ => handshakeUpTo n rest deferred
      | .hello _ => .failed "listener sent a hello"
      | .ping _ => .failed "listener sent a liveness frame before replying"
      | .pong _ => .failed "listener sent a liveness frame before replying"

/-- The inner loop of `handshake` on everything the decoder holds. -/
def handshakeFrames [Postcard] (dec : Bytes) (deferred : List Bytes) : Handshake :=
  handshakeUpTo (dec.length + 1) dec deferred

end Client
