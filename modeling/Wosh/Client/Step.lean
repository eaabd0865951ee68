import Wosh.Client.State

set_option relaxedAutoImplicit false
set_option autoImplicit false

/-!
# The client session's steps

The tasks of a session, from the return of one await to the next: `reader_task`, `writer_task`,
`keepalive_task`, `resume_loop`, the `drive`s that await a signature, and the exported methods of
`wosh-client/src/lib.rs`.

## Main definitions

* `Client.World.connect` — a session as `connect` leaves it.
* `Client.Action`, `Client.Label` — what happens next, with what the core's goroutines do in the
  rounds they are given.
* `Client.World.piece` — the step up to the point where it calls `link_lost`, goes to the top of
  `resume_loop`, or declares the session dead.
* `Client.World.settle` — what follows from there without an await.
* `Client.World.step` — the transition function.
* `Client.World.linkState`, `Client.World.closeKindOf` — the observers.

## Design

A step is cut in two because three paths lead to the same code: every task can find the transport
dead, every attempt of a resume ends at the top of its loop, and several of both declare the
session dead. `piece` says which of them a step takes, and `settle` is that code.
-/

namespace Client

open Tunnel

/-! ## Actions -/

/-- What happens next. -/
inductive Action
  /-- Bytes become readable on a connection. -/
  | arrive (c : ℕ) (b : Bytes)
  /-- Time passes. -/
  | elapse (d : ℕ)
  /-- A spawned reader is polled. -/
  | pollReader (g : ℕ)
  /-- A reader's read returns the first `n` bytes. -/
  | read (g n : ℕ)
  /-- A reader's read returns the end of the stream, or an error. -/
  | readEnd (g : ℕ) (err : Option String)
  /-- A keeper answers the signature request a `drive` awaits. -/
  | signed (result : Except String SshCore.Signature)
  /-- A writer is polled, spawned or waiting. -/
  | pollWriter (g : ℕ)
  /-- A writer's write returns. -/
  | wrote (g : ℕ) (ok : Bool)
  /-- A spawned prober is polled. -/
  | pollKeeper (g : ℕ)
  /-- A prober's sleep is over. -/
  | tick (g : ℕ)
  /-- A resume spawned by `wake` is polled. -/
  | pollLoop (i : ℕ)
  /-- A resume's `connect`, rebind, sleep, `open_bi`, hello write or handshake read returns. -/
  | dialed (i : ℕ) (ok : Bool)
  | rebound (i : ℕ)
  | slept (i : ℕ)
  | opened (i : ℕ) (ok : Bool)
  | helloed (i : ℕ) (ok : Bool)
  | loopRead (i n : ℕ)
  | loopReadEnd (i : ℕ)
  /-- An export that calls the core and drives it. -/
  | drive (entry : SshCore.Action)
  /-- A tick of `probe` or of a transfer: a call of the core, and its output is queued. -/
  | tickCore (entry : SshCore.Action)
  | drainOutput
  | suspend
  | wake
  | detach

/-- A step: what happens, what the core's goroutines do meanwhile, and what they do when the
step ends in `wire_broken`. -/
structure Label where
  act : Action
  rounds : List SshCore.Action := []
  dying : List SshCore.Action := []

/-- The core's exports that the component follows with `drive`. -/
def driven : SshCore.Action → Bool
  | .confirmHostKey _ => true
  | .authenticatePassword _ => true
  | .authenticatePublickey _ => true
  | .authenticateInteractive => true
  | .authenticateAuto _ => true
  | .answerPrompts _ => true
  | .writeInput _ => true
  | .resize _ _ => true
  | _ => false

/-- The core's exports that `probe` and the transfers call. -/
def ticked : SshCore.Action → Bool
  | .pump => true
  | .probeStart => true
  | .probePoll => true
  | .openChannel _ _ => true
  | _ => false

/-- What a step goes on with, after its own piece. -/
inductive Next
  /-- It awaits something, or its task is over. -/
  | stop
  /-- `link_lost`. -/
  | lost (g : ℕ) (reason : String)
  /-- The top of a `resume_loop`. -/
  | top (i : ℕ)
  /-- `declare_dead`. -/
  | die (reason : String)
deriving DecidableEq

/-- Where the transport stands. -/
inductive LinkState
  | attached
  | reconnecting
  | stalled
deriving DecidableEq

/-- What a session is connected with: the dialect the dial settled on, the target's `usize`, the
clock, the pairing proof, the parameters of the core, and what the first connection delivered
by the end of its handshake. -/
structure Dial where
  proto : Proto
  usize : ℕ → ℕ
  now : ℕ := 0
  pairing : Bytes := []
  user : String := ""
  cols : ℕ := 0
  rows : ℕ := 0
  command : String := ""
  arrived : Bytes := []

namespace World

variable [Postcard] (w : World)

/-! ## Readers -/

/-- How many complete frames have become readable on a connection. -/
def readable (c : ℕ) : ℕ :=
  match w.conns[c]? with
  | some conn => (frames (conn.taken ++ conn.inbox)).1.length
  | none => 0

/-- Bytes become readable. -/
def arrive (c : ℕ) (b : Bytes) : Option World :=
  match w.conns[c]? with
  | none => none
  | some conn =>
    if conn.closed then none
    else
      let w' := w.modifyConn c fun conn => { conn with inbox := conn.inbox ++ b }
      some { w' with
        answeredAt :=
          if c = w.conn ∧ w.answeredAt = none ∧ w.readable c < w'.readable c then some w.now
          else w.answeredAt }

omit [Postcard] in
/-- The first `n` bytes that wait on a connection. -/
def waiting (c n : ℕ) : Bytes := ((w.conns[c]?).map Conn.inbox).elim [] (·.take n)

omit [Postcard] in
/-- These bytes are read. -/
def takeInbox (c n : ℕ) : World :=
  w.modifyConn c fun conn =>
    { conn with inbox := conn.inbox.drop n, taken := conn.taken ++ conn.inbox.take n }

omit [Postcard] in
/-- A reader moves on with this in its decoder. -/
def decode (g : ℕ) (dec : Bytes) (pc : ReaderPc) : World :=
  { w with readers := w.readers.modify g fun r => { r with dec := dec, pc := pc } }

/-- A reader consumes its decoder: it drives the core if that was fed, and otherwise goes on. What is
left in the decoder that it was spawned with is lost, since `reader_task` begins with a new one. -/
def readerConsume (g : ℕ) (seeded : Bool) (dec : Bytes) (moves : List SshCore.Action) :
    Option (World × Next) :=
  match (w.consume dec).2 with
  | .error e =>
    ((w.consume dec).1.coreRounds moves).map fun (w : World) =>
      (w.setReader g .done, .lost g ("tunnel: " ++ e))
  | .ok (fed, rest) =>
    ((w.consume dec).1.coreRounds moves).map fun (w : World) =>
      let w := w.decode g (if seeded then [] else rest) (.driving seeded)
      (if fed then w.driveTurn (.reader g) else w.finishDrive (.reader g), .stop)

/-- A spawned reader begins. -/
def pollReader (g : ℕ) (moves : List SshCore.Action) : Option (World × Next) :=
  match w.readers[g]? with
  | none => none
  | some r => if r.pc = .seeded then w.readerConsume g true r.dec moves else none

omit [Postcard] in
/-- Without frames, the bytes are the SSH stream. -/
def feedRaw (bytes : Bytes) : World :=
  { w with core := w.core.feed bytes, fed := w.fed ++ bytes }

/-- A read returns bytes. -/
def read (g n : ℕ) (moves : List SshCore.Action) : Option (World × Next) :=
  match w.readers[g]? with
  | none => none
  | some r =>
    if r.pc ≠ .reading then none
    else
      let bytes := w.waiting r.conn n
      let w := w.takeInbox r.conn n
      if w.stale g then some (w.setReader g .done, .stop)
      else if bytes = [] then some (w, .stop)
      else if w.proto.framed = false then
        ((w.feedRaw bytes).coreRounds moves).map fun (w : World) =>
          ((w.setReader g (.driving false)).driveTurn (.reader g), .stop)
      else
        (w.decode g (r.dec ++ bytes) .reading).readerConsume g false (r.dec ++ bytes) moves

omit [Postcard] in
/-- A read returns the end of the stream, or an error. -/
def readEnd (g : ℕ) (err : Option String) : Option (World × Next) :=
  match w.readers[g]? with
  | none => none
  | some r =>
    if r.pc ≠ .reading then none
    else if w.stale g then some (w.setReader g .done, .stop)
    else
      some (w.setReader g .done,
        .lost g (err.elim "connection closed" ("connection closed: " ++ ·)))

omit [Postcard] in
/-- A keeper answered: the answer goes to the core, and the `drive` goes round again. -/
def signed (result : Except String SshCore.Signature) (moves : List SshCore.Action) :
    Option (World × Next) :=
  match w.parked with
  | none => none
  | some owner =>
    let w := { w with signing := false, parked := none }
    let entry : SshCore.Action :=
      match result with
      | .error e => .failSignature e
      | .ok sig =>
        match (w.core.engine.provideSignature sig).2 with
        | some e => .failSignature ("signature rejected: " ++ e)
        | none => .provideSignature sig
    (w.coreCall entry moves).map fun (w : World) => (w.driveTurn owner, .stop)

/-! ## Writers -/

omit [Postcard] in
/-- A writer polls the signal: it takes it when it is dirty, and otherwise registers its waker, in the
place of one that was registered before. -/
def takeSignal (g : ℕ) : World :=
  if w.writerSignal.dirty then
    let w := { w with writerSignal := { w.writerSignal with dirty := false } }
    if w.stale g then w.setWriter g .done else w.writerAck g
  else
    { w with writerSignal :=
      { w.writerSignal with
        waker := some g
        woken := w.writerSignal.woken.filter (· ≠ g) } }.setWriter g .parked

omit [Postcard] in
/-- A writer is polled: it begins with its tail, or takes the signal, or registers for it. -/
def pollWriter (g : ℕ) : Option (World × Next) :=
  match w.writers[g]? with
  | none => none
  | some t =>
    match t.pc with
    | .spawned tail =>
      if tail = [] then some (w.setWriter g .waiting, .stop)
      else some (w.writePieces g .tail (w.wireChunks tail), .stop)
    | .waiting => some (w.takeSignal g, .stop)
    | .parked => some (w.takeSignal g, .stop)
    | _ => none

omit [Postcard] in
/-- What a writer that lost its connection was writing. -/
def lostWrite : WriterPc → String
  | .tail _ => "connection closed: replay write failed"
  | .ack => "connection closed: ack write failed"
  | .pong => "connection closed: pong write failed"
  | .ping => "connection closed: ping write failed"
  | _ => "connection closed: write failed"

omit [Postcard] in
/-- A write returns. -/
def wrote (g : ℕ) (ok : Bool) : Option (World × Next) :=
  match w.writers[g]? with
  | none => none
  | some t =>
    let after (next : World) : Option (World × Next) :=
      if ok = false then some (w.setWriter g .done, .lost g (lostWrite t.pc))
      else some (next, .stop)
    let unlessStale (next : World) : World := if w.stale g then w.setWriter g .done else next
    match t.pc with
    | .tail (p :: rest) => after (w.writePieces g .tail (p :: rest))
    | .tail [] => after (w.setWriter g .waiting)
    | .ack => after (unlessStale (w.writerPong g))
    | .pong => after (unlessStale (w.writerPong g))
    | .ping => after (unlessStale (w.writerData g))
    | .data (p :: rest) => after (w.writePieces g .data (p :: rest))
    | .data [] => after (unlessStale (w.interactiveProbe.writerAck g))
    | _ => none

/-! ## Probers -/

omit [Postcard] in
/-- A spawned prober begins to sleep. -/
def pollKeeper (g : ℕ) : Option (World × Next) :=
  if w.keepers[g]? = some .spawned then
    some (w.setKeeper g (.sleeping (w.now + keepaliveTickMs)), .stop)
  else none

omit [Postcard] in
/-- A prober wakes and decides. -/
def tick (g : ℕ) : Option (World × Next) :=
  match w.keepers[g]? with
  | some (.sleeping due) =>
    if w.now < due then none
    else
      let again := KeeperPc.sleeping (w.now + keepaliveTickMs)
      match w.keeperTick g with
      | .retire => some (w.setKeeper g .done, .stop)
      | .idle => some (w.setKeeper g again, .stop)
      | .probe => some ({ w with pingDue := true }.notify.setKeeper g again, .stop)
      | .dead =>
        some (w.setKeeper g .done,
          .lost g ("peer silent: liveness probe unanswered for " ++ toString pingVerdictMs ++ "ms"))
  | _ => none

/-! ## Resumes -/

omit [Postcard] in
/-- An attempt ends because the resume was abandoned; its connection is closed. -/
def leave (i : ℕ) (loop : Loop) (c : ℕ) : World :=
  (w.closeConn c).setLoop i { loop with pc := .done }

omit [Postcard] in
/-- An attempt failed on a connection: close it and sleep, unless the resume was abandoned. -/
def retry (i : ℕ) (loop : Loop) (c : ℕ) : World :=
  if w.abandoned loop.generation then w.leave i loop c
  else (w.closeConn c).backoffSleep i loop

omit [Postcard] in
/-- A resume spawned by `wake` begins. -/
def pollLoop (i : ℕ) : Option (World × Next) :=
  match w.loops[i]? with
  | some loop =>
    if loop.pc = .spawned then
      some ((w.closeConn w.conn).setLoop i { loop with attemptStarted := w.now, pc := .top }, .top i)
    else none
  | none => none

omit [Postcard] in
/-- `connect` returns. -/
def dialed (i : ℕ) (ok : Bool) : Option (World × Next) :=
  match w.loops[i]? with
  | some loop =>
    if loop.pc ≠ .dialing then none
    else if ok then
      let c := w.conns.length
      let w := { w with conns := w.conns ++ [({} : Conn)] }
      if w.abandoned loop.generation then some (w.leave i loop c, .stop)
      else some (w.setLoop i { loop with pc := .opening c }, .stop)
    else if w.abandoned loop.generation then some (w.setLoop i { loop with pc := .done }, .stop)
    else some (w.setLoop i { loop with pc := .rebinding }, .stop)
  | none => none

omit [Postcard] in
/-- `rebind_endpoint` returns. -/
def rebound (i : ℕ) : Option (World × Next) :=
  match w.loops[i]? with
  | some loop => if loop.pc = .rebinding then some (w.backoffSleep i loop, .stop) else none
  | none => none

omit [Postcard] in
/-- The backoff is over. -/
def slept (i : ℕ) : Option (World × Next) :=
  match w.loops[i]? with
  | some loop =>
    match loop.pc with
    | .sleeping due =>
      if w.now < due then none
      else
        some (w.setLoop i { loop with
          backoff := min (loop.backoff * 2) resumeBackoffCapMs, pc := .top }, .top i)
    | _ => none
  | none => none

/-- `open_bi` returns: the hello carries a snapshot of the receive counter. -/
def opened (i : ℕ) (ok : Bool) : Option (World × Next) :=
  match w.loops[i]? with
  | some loop =>
    match loop.pc with
    | .opening c =>
      if ok = false then some ((w.closeConn c).backoffSleep i loop, .stop)
      else if w.abandoned loop.generation then some (w.leave i loop c, .stop)
      else
        let hello : Hello := ⟨w.pairing, some ⟨w.sessionId, UInt64.ofNat w.received⟩⟩
        let w' := w.modifyConn c fun conn =>
          { conn with hello := some (encodeHello hello), resumeFrom := w.received }
        some ({ w' with hellos := w.hellos + 1 }.setLoop i { loop with pc := .helloing c }, .stop)
    | _ => none
  | none => none

omit [Postcard] in
/-- The write of the hello returns. -/
def helloed (i : ℕ) (ok : Bool) : Option (World × Next) :=
  match w.loops[i]? with
  | some loop =>
    match loop.pc with
    | .helloing c =>
      if ok then some (w.setLoop i { loop with pc := .replying c [] [] }, .stop)
      else some (w.retry i loop c, .stop)
    | _ => none
  | none => none

omit [Postcard] in
/-- A connection becomes the current one: the generation is bumped, and liveness starts afresh. -/
def adopt (c : ℕ) : World :=
  { w with
    conn := c
    resuming := false
    ackDue := false
    lastInboundMs := w.now
    pingDue := false
    pingOutstanding := none
    pongDue := []
    generation := w.generation + 1
    conns := w.conns.modify c fun conn => { conn with installed := some (w.generation + 1) } }

omit [Postcard] in
/-- The tasks of a connection just adopted are spawned, and its writer is woken. -/
def spawnTasks (c : ℕ) (dec tail : Bytes) : World :=
  { w.notify with
    readers := w.readers ++ [⟨c, dec, .seeded⟩]
    writers := w.writers ++ [⟨c, .spawned tail⟩]
    keepers := if w.proto = .v3 then w.keepers ++ [.spawned] else w.keepers }

omit [Postcard] in
/-- `install_connection`: adopt the connection, feed what came ahead of the reply, spawn its tasks,
and drive. -/
def install (c : ℕ) (dec : Bytes) (deferred : List Bytes) (tail : Bytes)
    (moves : List SshCore.Action) : Option World :=
  ((deferred.foldl feedCounted (w.adopt c)).coreRounds moves).map fun (w : World) =>
    (w.spawnTasks c dec tail).driveTurn .other

omit [Postcard] in
/-- A resume is over, and the session with it. -/
def loopDie (i : ℕ) (loop : Loop) (c : ℕ) (reason : String) : World × Next :=
  (w.leave i loop c, .die reason)

omit [Postcard] in
/-- The peer reported that it has received `p`: the buffer is trimmed, and the resume is over. -/
def resumed (i : ℕ) (loop : Loop) (c p : ℕ) : World :=
  ({ w with replay := w.replay.ack w.usize p }.modifyConn c fun conn =>
    { conn with peerReceived := p }).setLoop i { loop with pc := .done }

/-- A read of the handshake returns bytes. -/
def loopRead (i n : ℕ) (moves : List SshCore.Action) : Option (World × Next) :=
  match w.loops[i]? with
  | none => none
  | some loop =>
    match loop.pc with
    | .replying c dec deferred =>
      let bytes := w.waiting c n
      let w := w.takeInbox c n
      match handshakeFrames (dec ++ bytes) deferred with
      | .more dec deferred =>
        some (w.setLoop i { loop with pc := .replying c dec deferred }, .stop)
      | .failed _ => some (w.retry i loop c, .stop)
      | .reply r deferred dec =>
        if w.abandoned loop.generation then some (w.leave i loop c, .stop)
        else
          match r with
          | .resumed p =>
            match w.replay.tailFrom w.usize p.toNat with
            | none =>
              some ((w.modifyConn c fun conn =>
                  { conn with peerReceived := p.toNat, gap := true }).loopDie i loop c
                "resume impossible: the listener asked for data no longer buffered")
            | some tail =>
              ((w.resumed i loop c p.toNat).install c dec deferred tail moves).map
                fun (w : World) => (w, .stop)
          | .new _ =>
            some (w.loopDie i loop c "resume refused: the listener started a new session")
          | .refused reason => some (w.loopDie i loop c ("resume refused: " ++ reason))
    | _ => none

omit [Postcard] in
/-- A read of the handshake returns the end of the stream, or an error. -/
def loopReadEnd (i : ℕ) : Option (World × Next) :=
  match w.loops[i]? with
  | some loop =>
    match loop.pc with
    | .replying c _ _ => some (w.retry i loop c, .stop)
    | _ => none
  | none => none

/-! ## Exports -/

omit [Postcard] in
/-- An export that calls the core and drives it. -/
def driveCall (entry : SshCore.Action) (moves : List SshCore.Action) : Option (World × Next) :=
  if driven entry then
    (w.coreCall entry moves).map fun (w : World) =>
      (w.driveTurn (if entry = .confirmHostKey false then .reject else .other), .stop)
  else none

omit [Postcard] in
/-- A call of the core by `probe` or a transfer, whose output is queued. -/
def tickCore (entry : SshCore.Action) (moves : List SshCore.Action) : Option (World × Next) :=
  if ticked entry then
    (w.coreCall entry moves).map fun (w : World) => (w.takeCoreOutput.1.notify, .stop)
  else none

omit [Postcard] in
/-- `suspend`. -/
def suspend : World :=
  if w.detached = true ∨ w.linkDown = true ∨ w.proto = .v1 then w else { w with suspended := true }

omit [Postcard] in
/-- `wake`: a stalled session starts a resume, an attached one is probed. -/
def wake : World :=
  let w := { w with suspended := false }
  if w.detached = true ∨ w.linkDown = true ∨ w.stalled = false ∨ w.resuming = true then
    if w.detached = false ∧ w.linkDown = false ∧ w.stalled = false ∧ w.resuming = false ∧
        w.proto = .v3 then
      { w with
        pingOutstanding := none
        lastInboundMs := w.now - pingAfterIdleMs
        pingDue := true }.notify
    else w
  else
    { w with
      stalled := false
      resuming := true
      loops := w.loops ++ [{ generation := w.generation, pc := .spawned }] }

omit [Postcard] in
/-- `detach`. -/
def detach (moves : List SshCore.Action) : Option (World × Next) :=
  ({ w with detached := true }.coreCall .close moves).map fun (v : World) =>
    (v.driveTurn (.detach w.conn), .stop)

/-! ## Steps -/

/-- The step up to where it is settled. -/
def piece (l : Label) : Option (World × Next) :=
  match l.act with
  | .arrive c b => (w.arrive c b).map (·, .stop)
  | .elapse d => some ({ w with now := w.now + d }, .stop)
  | .pollReader g => w.pollReader g l.rounds
  | .read g n => w.read g n l.rounds
  | .readEnd g err => w.readEnd g err
  | .signed result => w.signed result l.rounds
  | .pollWriter g => w.pollWriter g
  | .wrote g ok => w.wrote g ok
  | .pollKeeper g => w.pollKeeper g
  | .tick g => w.tick g
  | .pollLoop i => w.pollLoop i
  | .dialed i ok => w.dialed i ok
  | .rebound i => w.rebound i
  | .slept i => w.slept i
  | .opened i ok => w.opened i ok
  | .helloed i ok => w.helloed i ok
  | .loopRead i n => w.loopRead i n l.rounds
  | .loopReadEnd i => w.loopReadEnd i
  | .drive entry => w.driveCall entry l.rounds
  | .tickCore entry => w.tickCore entry l.rounds
  | .drainOutput => (w.coreCall .drainOutput l.rounds).map (·, .stop)
  | .suspend => some (w.suspend, .stop)
  | .wake => some (w.wake, .stop)
  | .detach => w.detach l.rounds

omit [Postcard] in
/-- The top of a `resume_loop`: charge the attempt that ended and decide. The reason is that of a
death to declare. -/
def settleTop (i : ℕ) : World × Option String :=
  match w.loops[i]? with
  | none => (w, none)
  | some loop =>
    let loop := { loop with spent := loop.charged w.now, attemptStarted := w.now }
    match w.loopNext loop.generation loop.spent with
    | .leave => (w.setLoop i { loop with pc := .done }, none)
    | .standDown =>
      ({ w with resuming := false, stalled := true }.setLoop i { loop with pc := .done }, none)
    | .die reason => (w.setLoop i { loop with pc := .done }, some reason)
    | .dial => ({ w with dials := w.dials + 1 }.setLoop i { loop with pc := .dialing }, none)

omit [Postcard] in
/-- `resume_loop` begins in the task that found the transport dead: it closes the connection and
comes to the top of its loop. -/
def startLoop (g : ℕ) : World :=
  { w.closeConn w.conn with
    resuming := true
    loops := w.loops ++ [{ generation := g, attemptStarted := w.now, pc := .top }] }

omit [Postcard] in
/-- What follows a piece without an await, up to a death to declare. -/
def settle : Next → World × Option String
  | .stop => (w, none)
  | .lost g reason =>
    match w.linkNext g with
    | .retire => (w, none)
    | .stall => ({ w with stalled := true }, none)
    | .die => (w, some reason)
    | .resume => (w.startLoop g).settleTop w.loops.length
  | .top i => w.settleTop i
  | .die reason => (w, some reason)

omit [Postcard] in
/-- What `declare_dead` records. -/
def markDead : World :=
  { w with
    resuming := false
    linkDown := true
    closeKind := some (if w.wasReady then .lost else .failed)
    closedByWire := !w.core.closed }

omit [Postcard] in
/-- `declare_dead`: the core is told that the wire broke, once. -/
def declareDead (reason : String) (moves : List SshCore.Action) : Option World :=
  if w.linkDown then some w
  else
    (w.markDead.coreCall (.wireBroken reason) moves).map fun (w : World) => w.driveTurn .other

/-- One step of the session. -/
def step (l : Label) : Option World :=
  (w.piece l).bind fun p =>
    match p.1.settle p.2 with
    | (w', none) => some w'
    | (w', some reason) => w'.declareDead reason l.dying

/-! ## Beginning -/

omit [Postcard] in
/-- The session once the handshake is over, before anything that came ahead of the reply is
fed. -/
def fresh (d : Dial) (id : SessionId) (dec hello : Bytes) (pc : ReaderPc) : World :=
  { proto := d.proto
    usize := d.usize
    now := d.now
    pairing := d.pairing
    sessionId := id
    core := .new d.user d.cols d.rows d.command
    lastInboundMs := d.now
    conns := [{ taken := d.arrived, hello := some hello, installed := some 0 }]
    readers := [⟨0, dec, pc⟩]
    writers := [⟨0, .spawned []⟩]
    keepers := if d.proto = .v3 then [.spawned] else [] }

omit [Postcard] in
/-- The end of `connect`: feed what came ahead of the reply, and drive. -/
def begin (w : World) (deferred : List Bytes) (moves : List SshCore.Action) : Option World :=
  ((deferred.foldl feedCounted w).coreRounds moves).map fun (w : World) => w.driveTurn .other

/-- A session as `connect` leaves it. -/
def connect (d : Dial) (moves : List SshCore.Action) : Option World :=
  if d.proto.framed then
    match handshakeFrames d.arrived [] with
    | .reply (.new id) deferred dec =>
      (fresh d id dec (encodeHello ⟨d.pairing, none⟩) .seeded).begin deferred moves
    | _ => none
  else
    (fresh d ⟨List.replicate 16 0, rfl⟩ [] (UInt8.ofNat d.pairing.length :: d.pairing)
      .reading).begin [] moves

/-! ## Observers -/

/-- The connection on which a step reads the peer's `Resumed` reply to a resume that goes on, and
the count in it. -/
def replied (l : Label) : Option (ℕ × ℕ) :=
  match l.act with
  | .loopRead i n =>
    match w.loops[i]? with
    | none => none
    | some loop =>
      match loop.pc with
      | .replying c dec deferred =>
        match handshakeFrames (dec ++ w.waiting c n) deferred with
        | .reply (.resumed p) _ _ =>
          if w.abandoned loop.generation then none else some (c, p.toNat)
        | _ => none
      | _ => none
  | _ => none

/-- The connection that a step installs: the buffer still holds what the reply asks for. -/
def installs (l : Label) : Option ℕ :=
  match w.replied l with
  | none => none
  | some (c, p) => if (w.replay.tailFrom w.usize p).isSome then some c else none

omit [Postcard] in
/-- `link_state`. -/
def linkState : LinkState :=
  if w.resuming then .reconnecting else if w.stalled then .stalled else .attached

omit [Postcard] in
/-- `close_kind`: recorded by a death, and otherwise read off the core. -/
def closeKindOf : Option CloseKind :=
  match w.closeKind with
  | some k => some k
  | none =>
    if w.core.closed then some (if w.wasReady then .ended else .failed)
    else if w.linkDown then some .lost
    else none

end World

/-! ## Sample runs -/

/-- A dial whose handshake gets a new session. -/
def sampleDial : Dial where
  proto := .v3
  usize := wasm32
  arrived := @encodeReply Postcard.golden (.new ⟨List.replicate 16 7, rfl⟩)

/-- Some bytes of the SSH stream arrive, as `frame` wraps them, and are read; the core's goroutines
take these steps. -/
def receives (frame : Bytes → Bytes) (moves : List SshCore.Action) : List Label :=
  [⟨.arrive 0 (frame [0]), [], []⟩, ⟨.read 0 16, moves, []⟩]

/-- A session becomes ready: the server's key is presented and confirmed, a password is offered and
accepted, and the shell is started. -/
def becomesReady (frame : Bytes → Bytes) : List Label :=
  receives frame [.hostKeyCallback "SHA256:host"] ++
    [⟨.drive (.confirmHostKey true), [.hostKeyVerdict, .hostKeyReturn], []⟩] ++
    receives frame [.authCallback .password] ++
    [⟨.drive (.authenticatePassword "pw"), [.authResume], []⟩] ++
    receives frame [.handshakeDone, .shellStarted, .flushInput, .becomeReady]

/-- Its shell exits. -/
def shellExits (frame : Bytes → Bytes) : List Label :=
  receives frame [.shellExited .clean, .runClose]

/-- Its transport ends. -/
def transportEnds : List Label := [⟨.readEnd 0 none, [], []⟩]

/-- A resume begun by the end of the transport gets a reply that reports `p`. -/
def resumes (p : UInt64) : List Label :=
  [⟨.dialed 0 true, [], []⟩, ⟨.opened 0 true, [], []⟩, ⟨.helloed 0 true, [], []⟩,
    ⟨.arrive 1 (@encodeReply Postcard.golden (.resumed p)), [], []⟩, ⟨.loopRead 0 64, [], []⟩]

end Client
