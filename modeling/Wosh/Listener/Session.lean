import Wosh.Lib.Run
import Wosh.Tunnel.Frame

set_option relaxedAutoImplicit false
set_option autoImplicit false

/-!
# The listener's resumable session

The state machine of `listener-core/src/session.rs` that makes one session outlive the transport
carrying it. A session is a set of long-lived tasks that own the sshd leg, and one task for each
client attachment:

* pump A reads from sshd, records into the replay buffer and queues frames;
* pump B writes the queue to the current attachment's send stream;
* pump C writes the inbound queue to sshd;
* pump D, one for each attachment, applies the frames its client sends.

## Main definitions

* `Listener.SessionState` — the `RefCell` the tasks share.
* `Listener.Task` — a connection task: `start_session` or `resume_session`, then pump D.
* `Listener.World` — one session with its tasks, its grace timers and the registry.
* `Listener.Action`, `Listener.World.step` — the transition function.

## Design

No borrow of the state is held across an await, so what a task does from the return of one await
to the next one is a step, and every `.await` is an interleaving point. An action names the task
and carries what the await returned. A task that waits for the state to change may be polled
whenever its poll would be ready, since every change wakes every waiter.

A connection, its streams and its task are known by the task's index in `World.tasks`. Frames are
queued and written in their encoding. Fields in the group *history* are read by no function of
the model; they record what the streams carried.

`usize` is 32 bits wide in the listener's component, so its `Replay` casts with `wasm32`.
-/

namespace Listener

open Tunnel

/-- Chunk size for reads and for slicing a replay tail into DATA frames (`CHUNK`). -/
def chunk : ℕ := 16 * 1024

/-- How many ended sessions to remember (`TOMBSTONES`). -/
def tombstones : ℕ := 64

/-- Two hexadecimal digits of a byte. -/
def hexByte (b : UInt8) : String :=
  let digits := Nat.toDigits 16 b.toNat
  String.ofList (List.replicate (2 - digits.length) '0' ++ digits)

/-- Short, log-safe form of a session id (`id8`). -/
def id8 (id : SessionId) : String := String.join ((id.val.take 4).map hexByte)

/-! ## State -/

/-- The state the tasks of a session share. A stream or connection is the index of the
connection task it came with. -/
structure SessionState where
  /-- Listener to client bookkeeping. -/
  replay : Replay := {}
  /-- Cumulative client to listener DATA bytes received. -/
  received : ℕ := 0
  /-- The `received` value last put on the wire as an ACK. -/
  ackedOut : ℕ := 0
  /-- Framed bytes bound for the client, in order. -/
  outq : List Bytes := []
  /-- DATA payloads bound for sshd, in order. -/
  inq : List Bytes := []
  /-- The current attachment's writer; `none` while parked or borrowed by pump B. -/
  send : Option ℕ := none
  /-- The current attachment's connection. -/
  conn : Option ℕ := none
  attached : Bool := false
  /-- Bumped on every attach and every park. -/
  generation : ℕ := 0
  /-- Bumped on every park. -/
  parkEpoch : ℕ := 0
  /-- The sshd leg is gone. -/
  dead : Bool := false
  /-- History: the task that attached last. -/
  last : Option ℕ := none
  /-- History: the payloads ever pushed to `inq`. -/
  pushed : Bytes := []
deriving DecidableEq

/-- Where a connection task stands. -/
inductive TaskPc
  /-- Awaiting the write of its `New` (`fresh`) or `Resumed` reply, with the tail to queue. -/
  | replying (fresh : Bool) (tail : Bytes)
  /-- Awaiting `refuse` with this reason; a gap also ends the session. -/
  | refusing (reason : String) (gap : Bool) (err : String)
  /-- Pump D of the attachment with this generation, awaiting its read. -/
  | reading (generation : ℕ)
  /-- Returned. -/
  | done (out : Except String String)
deriving DecidableEq

/-- A connection task. -/
structure Task where
  /-- The authenticated endpoint id of its client. -/
  peer : String
  /-- The connection speaks `wosh/3`. -/
  pings : Bool
  /-- The counter its `Resumed` reply carries; `0` in a `New` one. -/
  received : ℕ := 0
  /-- The frame decoder's buffer. -/
  dec : Bytes
  /-- Bytes this attachment handed on to sshd. -/
  toSshd : ℕ := 0
  pc : TaskPc
  /-- History: the count its client resumed from; `0` for a new session. -/
  resumeFrom : ℕ := 0
  /-- History: how much had been recorded when its tail was taken. -/
  mark : ℕ := 0
  /-- History: everything its decoder was fed. -/
  arrived : Bytes
  /-- History: the frames pump B wrote on its send stream. -/
  wire : List Bytes := []
deriving DecidableEq

/-- All live sessions plus a short memory of dead ones. -/
structure Registry where
  live : List SessionId := []
  gone : List (SessionId × String) := []
deriving DecidableEq

/-- `bury`: the oldest tombstones make room. -/
def Registry.bury (reg : Registry) (id : SessionId) (reason : String) : Registry :=
  let gone := reg.gone ++ [(id, reason)]
  { live := reg.live.filter (· ≠ id), gone := gone.drop (gone.length - tombstones) }

/-- `epitaph`: why a session is gone. -/
def Registry.epitaph (reg : Registry) (id : SessionId) : String :=
  ((reg.gone.find? fun p => p.1 = id).map Prod.snd).getD "unknown session"

/-- Pump A. -/
inductive PumpA
  | unborn
  /-- Waiting to be attached or dead. -/
  | waiting
  /-- Awaiting a read from sshd. -/
  | reading
  | done
deriving DecidableEq

/-- Pump B. -/
inductive PumpB
  | unborn
  /-- Waiting for a write job. -/
  | polling
  /-- Awaiting the write of a frame, with the generation and stream it was taken with. -/
  | writing (bytes : Bytes) (generation : ℕ) (send : ℕ)
  | done
deriving DecidableEq

/-- Pump C. -/
inductive PumpC
  | unborn
  /-- Waiting for an inbound chunk. -/
  | polling
  /-- Awaiting the write of a chunk to sshd. -/
  | writing (chunk : Bytes)
  | done
deriving DecidableEq

/-- A grace timer: the park it was started for and when it is due. -/
structure Timer where
  epoch : ℕ
  due : ℕ
deriving DecidableEq

/-- One session of the listener. -/
structure World where
  id : SessionId
  /-- The endpoint id that created the session. -/
  creator : String
  /-- The grace period in seconds; `0` is no parking. -/
  grace : ℕ
  st : SessionState := {}
  reg : Registry
  pumpA : PumpA := .unborn
  pumpB : PumpB := .unborn
  pumpC : PumpC := .unborn
  /-- The connection tasks of this session; the first one is `start_session`. -/
  tasks : List Task
  timers : List Timer := []
  /-- The monotonic clock, in nanoseconds. -/
  now : ℕ := 0
  /-- History: the bytes read from sshd. -/
  sshd : Bytes := []
  /-- History: those of them recorded in the replay buffer. -/
  recorded : Bytes := []
  /-- History: the bytes written to sshd. -/
  toSshd : Bytes := []
deriving DecidableEq

namespace World

/-- A session as `start_session` registers it, with its reply about to be written. -/
def start (id : SessionId) (creator : String) (grace : ℕ) (reg : Registry) (pings : Bool)
    (dec : Bytes) : World where
  id := id
  creator := creator
  grace := grace
  reg := { reg with live := reg.live ++ [id] }
  tasks := [{ peer := creator, pings := pings, dec := dec, arrived := dec
              pc := .replying true [] }]

/-- Replace a connection task. -/
def setTask (w : World) (k : ℕ) (t : Task) : World := { w with tasks := w.tasks.set k t }

/-! ## Session transitions -/

/-- `end_session`. -/
def endSession (w : World) (reason : String) : World :=
  { w with reg := w.reg.bury w.id reason, st := { w.st with dead := true } }

/-- `attach`: the task's streams become the session's, and the tail is queued after clearing
what the previous attachment left unwritten. The task goes on as pump D of the new generation. -/
def attach (w : World) (k : ℕ) (t : Task) (tail : Bytes) : World :=
  { w.setTask k { t with pc := .reading (w.st.generation + 1) } with
    st := { w.st with
      outq := (Incremental.chunks chunk tail).map encodeData
      send := some k
      conn := some k
      attached := true
      generation := w.st.generation + 1
      ackedOut := w.st.received
      last := some k } }

/-- `park`: the attachment died but the session may live. -/
def park (w : World) : World :=
  if w.st.dead then w
  else if w.grace = 0 then w.endSession "session ended"
  else
    { w with
      st := { w.st with
        conn := none
        send := none
        attached := false
        generation := w.st.generation + 1
        parkEpoch := w.st.parkEpoch + 1 }
      timers := w.timers ++
        [⟨w.st.parkEpoch + 1, w.now + min (w.grace * 1000000000) (2 ^ 64 - 1)⟩] }

/-- The grace timer's task, once its wait is over. -/
def expire (w : World) (timer : Timer) : World :=
  if w.st.dead = false ∧ w.st.attached = false ∧ w.st.parkEpoch = timer.epoch then
    w.endSession "session ended"
  else w

end World

/-! ## Pump A -/

/-- How a read from sshd ended. -/
inductive StreamResult
  | complete
  | dropped
  | cancelled
deriving DecidableEq

namespace World

/-- Record the bytes and queue them as DATA frames. -/
def record (w : World) (buf : Bytes) : World :=
  { w with
    st := { w.st with
      replay := w.st.replay.sent buf
      outq := w.st.outq ++ (Incremental.chunks chunk buf).map encodeData }
    recorded := w.recorded ++ buf
    sshd := w.sshd ++ buf }

/-- A read of pump A returns. `refused` is the verdict on the host key these bytes complete, if
they complete one; refused bytes are not recorded. -/
def readSshd (w : World) (buf : Bytes) (result : StreamResult) (refused : Bool) : World :=
  if buf ≠ [] ∧ refused = true then
    { w.endSession "host key refused" with pumpA := .done, sshd := w.sshd ++ buf }
  else
    let w := if buf = [] then w else w.record buf
    match result with
    | .complete => { w with pumpA := .waiting }
    | .dropped => { w.endSession "session ended" with pumpA := .done }
    | .cancelled => { w.endSession "session ended" with pumpA := .done }

end World

/-! ## Pump B -/

/-- What pump B is to do next. -/
inductive WriteJob
  | send (bytes : Bytes) (generation : ℕ) (send : ℕ)
  | finish (send : ℕ)
  | exit
deriving DecidableEq

/-- `next_write_job`: the job and the state it leaves, or `none` while there is none. -/
def nextWriteJob (st : SessionState) : Option (WriteJob × SessionState) :=
  if st.attached then
    match st.send with
    | none => none
    | some k =>
      match st.outq with
      | b :: q => some (.send b st.generation k, { st with send := none, outq := q })
      | [] =>
        if st.dead then
          some (.finish k, { st with send := none, attached := false, conn := none })
        else none
  else if st.dead then some (.exit, st)
  else none

/-- Everything `next_write_job` can answer: a frame of an attachment, the end of a drained
attachment, or the end of a session that has none. -/
theorem nextWriteJob_cases {st st' : SessionState} {job : WriteJob}
    (h : nextWriteJob st = some (job, st')) :
    (∃ b q k, st.attached = true ∧ st.send = some k ∧ st.outq = b :: q ∧
      job = .send b st.generation k ∧ st' = { st with send := none, outq := q }) ∨
    (∃ k, st.attached = true ∧ st.send = some k ∧ st.outq = [] ∧ st.dead = true ∧
      job = .finish k ∧ st' = { st with send := none, attached := false, conn := none }) ∨
    (st.attached = false ∧ st.dead = true ∧ job = .exit ∧ st' = st) := by
  unfold nextWriteJob at h
  by_cases hatt : st.attached = true
  · rw [if_pos hatt] at h
    cases hsend : st.send with
    | none => simp [hsend] at h
    | some k =>
      cases hq : st.outq with
      | cons b q =>
        simp only [hsend, hq, Option.some.injEq, Prod.mk.injEq] at h
        exact .inl ⟨b, q, k, hatt, rfl, rfl, h.1.symm, h.2.symm⟩
      | nil =>
        simp only [hsend, hq, Option.ite_none_right_eq_some, Option.some.injEq,
          Prod.mk.injEq] at h
        exact .inr (.inl ⟨k, hatt, rfl, rfl, h.1, h.2.1.symm, h.2.2.symm⟩)
  · rw [if_neg hatt] at h
    simp only [Option.ite_none_right_eq_some, Option.some.injEq, Prod.mk.injEq] at h
    exact .inr (.inr ⟨by simpa using hatt, h.1, h.2.1.symm, h.2.2.symm⟩)

namespace World

/-- Pump B takes a job. A write it starts is recorded on the stream it writes to. -/
def takeJob (w : World) : Option World :=
  (nextWriteJob w.st).map fun p =>
    match p.1 with
    | .send b g k =>
      { w with
        st := p.2
        pumpB := .writing b g k
        tasks := w.tasks.modify k fun t => { t with wire := t.wire ++ [b] } }
    | .finish _ => { w with st := p.2, pumpB := .done }
    | .exit => { w with st := p.2, pumpB := .done }

/-- Pump B's write returns: the stream is put back, dropped because it was superseded, or its
failure parks the session. -/
def wroteClient (w : World) (generation k : ℕ) (ok : Bool) : World :=
  let w := { w with pumpB := .polling }
  if w.st.generation ≠ generation ∨ w.st.attached = false then w
  else if ok then { w with st := { w.st with send := some k } }
  else w.park

/-! ## Pump C -/

/-- `next_inbound`: pump C takes a chunk, or retires. -/
def takeInbound (w : World) : Option World :=
  match w.st.inq with
  | c :: q => some { w with st := { w.st with inq := q }, pumpC := .writing c }
  | [] => if w.st.dead then some { w with pumpC := .done } else none

/-- It touches nothing but the chunks that wait, and itself. -/
theorem takeInbound_cases {w w' : World} (h : w.takeInbound = some w') :
    ∃ q pc, w' = { w with st := { w.st with inq := q }, pumpC := pc } := by
  unfold takeInbound at h
  split at h
  · exact ⟨_, _, (Option.some.inj h).symm⟩
  · split_ifs at h
    exact ⟨_, _, (Option.some.inj h).symm⟩

/-- Pump C's write returns, having written `n` bytes of the chunk. -/
def wroteSshd (w : World) (c : Bytes) (n : ℕ) : World :=
  let w := { w with toSshd := w.toSshd ++ c.take n }
  if n < c.length then { w.endSession "session ended" with pumpC := .done }
  else { w with pumpC := .polling }

end World

/-! ## Pump D -/

/-- `apply`: one decoded frame; the bytes it hands on to sshd, and the objection if it is a
protocol violation. -/
def applyFrame (pings : Bool) (st : SessionState) : Frame → SessionState × ℕ × Option String
  | .data payload =>
    let st := { st with
      received := st.received + payload.length
      inq := st.inq ++ [payload]
      pushed := st.pushed ++ payload }
    if ackEveryBytes ≤ st.received - st.ackedOut then
      ({ st with
          ackedOut := st.received
          outq := st.outq ++ [encodeAck (UInt64.ofNat st.received)] }, payload.length, none)
    else (st, payload.length, none)
  | .ack n => ({ st with replay := st.replay.ack wasm32 n.toNat }, 0, none)
  | .hello _ => (st, 0, some "a second HELLO mid-session")
  | .reply _ => (st, 0, some "a REPLY from the client")
  | .ping p =>
    if pings then ({ st with outq := st.outq ++ [encodePong p] }, 0, none)
    else (st, 0, some "a PING on a wosh/2 connection")
  | .pong _ => if pings then (st, 0, none) else (st, 0, some "a PONG on a wosh/2 connection")

/-- Frames applied in order, up to the first violation. -/
def applyFrames (pings : Bool) : SessionState → List Frame → SessionState × ℕ × Option String
  | st, [] => (st, 0, none)
  | st, f :: fs =>
    match applyFrame pings st f with
    | (st, n, some e) => (st, n, some e)
    | (st, n, none) =>
      let r := applyFrames pings st fs
      (r.1, n + r.2.1, r.2.2)

/-- What a read of a client's stream returned. -/
inductive ReadResult
  | chunk (b : Bytes)
  | eof
  | failed
deriving DecidableEq

namespace World

variable [Postcard]

/-- The inner loop of `pump_client_reader`: apply the complete frames the decoder holds. A
violation or a malformed frame parks the session. -/
def drainReader (w : World) (k : ℕ) (t : Task) (generation : ℕ) : World :=
  let r := applyFrames t.pings w.st (frames t.dec).1
  let t := { t with toSshd := t.toSshd + r.2.1 }
  let w := { w with st := r.1 }
  match r.2.2, (frames t.dec).2 with
  | some e, _ =>
    (w.setTask k { t with pc := .done (.error ("session " ++ id8 w.id ++ ": " ++ e)) }).park
  | none, .error e =>
    (w.setTask k { t with
      pc := .done (.error ("session " ++ id8 w.id ++ ": malformed frame: " ++ e)) }).park
  | none, .ok rest => w.setTask k { t with dec := rest, pc := .reading generation }

/-- A read of pump D returns. A superseded attachment retires; the end of the current one parks
the session, unless it is over. -/
def readClient (w : World) (k : ℕ) (t : Task) (generation : ℕ) (r : ReadResult) : World :=
  let retire (why : String) : Task := { t with pc := .done (.ok ("session " ++ id8 w.id ++ why)) }
  if w.st.generation ≠ generation then w.setTask k (retire ": attachment superseded")
  else
    match r with
    | .chunk b => w.drainReader k { t with dec := t.dec ++ b, arrived := t.arrived ++ b } generation
    | _ =>
      let sent := " (" ++ toString t.toSshd ++ "B -> target)"
      if w.st.dead then w.setTask k (retire (" ended" ++ sent))
      else (w.setTask k (retire (" detached" ++ sent))).park

/-! ## Connection tasks -/

/-- `resume_session` up to its first await: refused, or about to write its reply. -/
def resumePc (w : World) (peer : String) (received : ℕ) : TaskPc :=
  let refuse (reason : String) (gap : Bool) (why : String) : TaskPc :=
    .refusing reason gap ("refused resume of " ++ id8 w.id ++ ": " ++ why)
  if w.id ∉ w.reg.live then refuse (w.reg.epitaph w.id) false (w.reg.epitaph w.id)
  else if w.creator ≠ peer then refuse "not your session" false "wrong endpoint id"
  else if w.st.dead then refuse "session ended" false "session ended"
  else
    match w.st.replay.tailFrom wasm32 received with
    | none => refuse "resume gap: the session moved on" true "replay gap"
    | some tail => .replying false tail

/-- The connection task of a resume. -/
def resumeSession (w : World) (peer : String) (received : ℕ) (pings : Bool) (dec : Bytes) : Task :=
  { peer, pings, dec, arrived := dec, resumeFrom := received, mark := w.st.replay.sentTotal
    received := w.st.received, pc := w.resumePc peer received }

omit [Postcard] in
/-- A resume that is not refused has a tail. -/
theorem resumePc_replying {w : World} {peer : String} {received : ℕ} {fresh : Bool} {tail : Bytes}
    (h : w.resumePc peer received = .replying fresh tail) :
    fresh = false ∧ w.st.replay.tailFrom wasm32 received = some tail := by
  unfold resumePc at h
  simp only at h
  split_ifs at h
  split at h
  · cases h
  · rename_i tail' htail
    cases h
    exact ⟨rfl, htail⟩

omit [Postcard] in
/-- A resume does not read before it is attached. -/
theorem resumePc_ne_reading {w : World} {peer : String} {received : ℕ} (g : ℕ) :
    w.resumePc peer received ≠ .reading g := by
  unfold resumePc
  simp only
  cases w.st.replay.tailFrom wasm32 received <;> split_ifs <;> simp

/-- `spawn_session_tasks`. -/
def spawnSessionTasks (w : World) : World :=
  { w with pumpA := .waiting, pumpB := .polling, pumpC := .polling }

/-- The reply is written: attach, spawn the pumps if the session is new, and pump D begins with
the frames buffered by the handshake. -/
def attachTask (w : World) (k : ℕ) (t : Task) (fresh : Bool) (tail : Bytes) : World :=
  let generation := w.st.generation + 1
  let w := w.attach k t tail
  let w := if fresh then w.spawnSessionTasks else w
  w.drainReader k { t with pc := .reading generation } generation

end World

/-! ## Steps -/

/-- What happens next. -/
inductive Action
  /-- Pump A is polled while it waits to be attached. -/
  | pollA
  /-- Its read returns. -/
  | readA (buf : Bytes) (result : StreamResult) (refused : Bool)
  /-- Pump B is polled for a job. -/
  | pollB
  /-- Its write returns. -/
  | wroteB (ok : Bool)
  /-- Pump C is polled for a chunk. -/
  | pollC
  /-- Its write returns, having written this many bytes. -/
  | wroteC (n : ℕ)
  /-- A connection resumes this session from `received`; `dec` is what the handshake left in its
  decoder. -/
  | resume (peer : String) (received : ℕ) (pings : Bool) (dec : Bytes)
  /-- The write of a reply returns, with its error if it failed. -/
  | replied (k : ℕ) (err : Option String)
  /-- A refusal was spoken. -/
  | refused (k : ℕ)
  /-- A read of pump D returns. -/
  | read (k : ℕ) (r : ReadResult)
  /-- The wait of a grace timer is over. -/
  | fire (i : ℕ)
  /-- Time passes. -/
  | elapse (d : ℕ)
  /-- Another session of the listener ends. -/
  | otherEnded (id : SessionId) (reason : String)
deriving DecidableEq

variable [Postcard]

/-- One step of the session. -/
def World.step (w : World) : Action → Option World
  | .pollA =>
    if w.pumpA ≠ .waiting then none
    else if w.st.dead then some { w with pumpA := .done }
    else if w.st.attached then some { w with pumpA := .reading }
    else none
  | .readA buf result refused =>
    if w.pumpA = .reading then some (w.readSshd buf result refused) else none
  | .pollB => if w.pumpB = .polling then w.takeJob else none
  | .wroteB ok =>
    match w.pumpB with
    | .writing _ g k => some (w.wroteClient g k ok)
    | _ => none
  | .pollC => if w.pumpC = .polling then w.takeInbound else none
  | .wroteC n =>
    match w.pumpC with
    | .writing c => some (w.wroteSshd c n)
    | _ => none
  | .resume peer received pings dec =>
    some { w with tasks := w.tasks ++ [w.resumeSession peer received pings dec] }
  | .replied k err =>
    match w.tasks[k]? with
    | none => none
    | some t =>
      match t.pc, err with
      | .replying _ _, some e =>
        some (w.setTask k { t with pc := .done (.error ("hello reply: " ++ e)) })
      | .replying fresh tail, none => some (w.attachTask k t fresh tail)
      | _, _ => none
  | .refused k =>
    match w.tasks[k]? with
    | none => none
    | some t =>
      match t.pc with
      | .refusing reason gap err =>
        let w := if gap then w.endSession reason else w
        some (w.setTask k { t with pc := .done (.error err) })
      | _ => none
  | .read k r =>
    match w.tasks[k]? with
    | none => none
    | some t =>
      match t.pc with
      | .reading g => some (w.readClient k t g r)
      | _ => none
  | .fire i =>
    match w.timers[i]? with
    | none => none
    | some timer =>
      if timer.due ≤ w.now then some ({ w with timers := w.timers.eraseIdx i }.expire timer)
      else none
  | .elapse d => some { w with now := w.now + d }
  | .otherEnded id reason => if id = w.id then none else some { w with reg := w.reg.bury id reason }

/-- A session id, for runs on fixed inputs. -/
def sampleId : SessionId := ⟨[7, 7, 7, 7, 7, 7, 7, 7, 7, 7, 7, 7, 7, 7, 7, 7], rfl⟩

end Listener
