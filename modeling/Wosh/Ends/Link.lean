import Wosh.Client.Inbound
import Wosh.Client.Narrow
import Wosh.Listener.Streams
import Wosh.Listener.Control

set_option relaxedAutoImplicit false
set_option autoImplicit false

/-!
# A client and its listener

A session of the listener, the client it was made for, and the streams between them. A connection of
the client is served by one task of the session, once the listener has read its hello. What either
end wrote on a stream arrives at the other in order, in pieces of any size, at any time or never.

Others may ask to resume the session too. They do not have the key of the endpoint that made it.

## Main definitions

* `Ends.Stream` — what a task serves.
* `Ends.Link` — both ends.
* `Ends.Action`, `Ends.Link.step` — the transition function.
* `Ends.calm` — a step at which neither end runs into one of its races.

## Main results

* `Ends.Link.step_cases` — the cases of a step.

## Design

A piece arrives only as long as what arrived on its stream is an initial part of what was written
there; the transport keeps the order of a stream and repeats nothing of it. What is in flight is the
rest of it.
-/

namespace Ends

open Tunnel

/-! ## Both ends -/

/-- What a task of the session serves. -/
structure Stream where
  /-- The connection of the client; none if it is someone else's. -/
  conn : Option ℕ
  /-- The reply that the task writes first. -/
  reply : HelloReply
deriving DecidableEq

/-- A session of the listener and its client, if that is through with its first handshake. -/
structure Link where
  client : Option Client.World := none
  listener : Listener.World
  /-- One for each task. -/
  streams : List Stream

/-- What happens next. -/
inductive Action
  /-- The client is through with its first handshake. -/
  | connect (d : Client.Dial) (moves : List SshCore.Action)
  /-- The client makes a step. -/
  | client (l : Client.Label)
  /-- The session makes a step. -/
  | listener (a : Listener.Action)
  /-- The listener has read `n` bytes of a connection of the client that no task serves yet, and with
  them its hello; the client was authenticated as `peer`. -/
  | accept (c n : ℕ) (peer : String)
  /-- Someone else asks to resume the session. -/
  | stranger (peer : String) (received : ℕ) (pings : Bool) (dec : Bytes)

namespace Link

section Steps

variable [Postcard]

/-- A session that its creator is about to be told of. -/
def start (id : SessionId) (creator : String) (grace : ℕ) (reg : Listener.Registry) (pings : Bool) :
    Link where
  listener := .start id creator grace reg pings []
  streams := [⟨some 0, .new id⟩]

/-- What the listener wrote on a connection: the reply, and what pump B wrote. -/
def toConn (s : Link) (c : ℕ) : Bytes :=
  match (s.streams.zip s.listener.tasks).find? fun p => p.1.conn = some c with
  | some (st, t) => encodeReply st.reply ++ t.wire.flatten
  | none => []

/-- What the client wrote after its hello, on the connection that a task serves. -/
def toTask (s : Link) (k : ℕ) : Bytes :=
  match s.client, (s.streams[k]?).bind Stream.conn with
  | some u, some c => (u.wireOf c).flatten
  | _, _ => []

/-- Some task serves the connection. -/
def serving (s : Link) (c : ℕ) : Bool := s.streams.any fun st => st.conn = some c

/-- What arrives in a step of the client was written by the listener. -/
def carriesDown (s : Link) (u : Client.World) (l : Client.Label) : Bool :=
  match l.act with
  | .arrive c b =>
    s.serving c && (u.conns[c]?).all fun conn =>
      (conn.taken ++ conn.inbox ++ b).isPrefixOf (s.toConn c)
  | _ => true

/-- What a task reads was written by the client. -/
def carriesUp (s : Link) : Listener.Action → Bool
  | .read k (.chunk b) =>
    match s.listener.tasks[k]? with
    | some t => (t.arrived ++ b).isPrefixOf (s.toTask k)
    | none => true
  | _ => true

/-- The session has a new task, for a connection that asks to resume. -/
def attend (s : Link) (conn : Option ℕ) (peer : String) (received : ℕ) (pings : Bool) (dec : Bytes) :
    Link :=
  let t := s.listener.resumeSession peer received pings dec
  { s with
    listener := { s.listener with tasks := s.listener.tasks ++ [t] }
    streams := s.streams ++ [⟨conn, t.reply s.listener.id⟩] }

/-- The hello on a connection of the client, and what the listener has read past it. -/
def greeted (conn : Client.Conn) (n : ℕ) : Option (Hello × Bytes) :=
  match conn.hello with
  | none => none
  | some h =>
    match nextFrame ((h ++ conn.wire.flatten).take n) with
    | .ok (some (.hello hello, dec)) => some (hello, dec)
    | _ => none

/-- The listener has read a hello. -/
def accept (s : Link) (u : Client.World) (c n : ℕ) (peer : String) : Option Link :=
  match u.conns[c]? with
  | none => none
  | some conn =>
    if s.serving c then none
    else
      match greeted conn n with
      | some (⟨_, some r⟩, dec) =>
        if r.sessionId = s.listener.id then
          some (s.attend (some c) peer r.received.toNat (u.proto = .v3) dec)
        else none
      | _ => none

/-- One step of both ends. -/
def step (s : Link) : Action → Option Link
  | .connect d moves =>
    match s.client with
    | some _ => none
    | none =>
      if d.proto.framed = true ∧ d.arrived.isPrefixOf (s.toConn 0) = true then
        (Client.World.connect d moves).map fun u => { s with client := some u }
      else none
  | .client l =>
    match s.client with
    | none => none
    | some u =>
      if s.carriesDown u l then (u.step l).map fun u => { s with client := some u } else none
  | .listener a =>
    match a with
    | .resume _ _ _ _ => none
    | a =>
      if s.carriesUp a then (s.listener.step a).map fun w => { s with listener := w } else none
  | .accept c n peer =>
    match s.client with
    | none => none
    | some u => s.accept u c n peer
  | .stranger peer received pings dec =>
    if peer = s.listener.creator then none else some (s.attend none peer received pings dec)

end Steps

/-! ## What a step can be -/

/-- The cases of a step. -/
inductive Moves [Postcard] (s : Link) : Action → Link → Prop
  | connects {d : Client.Dial} {moves : List SshCore.Action} {u : Client.World}
      (hnone : s.client = none) (hframed : d.proto.framed = true)
      (harrived : d.arrived <+: s.toConn 0) (hconn : Client.World.connect d moves = some u) :
      Moves s (.connect d moves) { s with client := some u }
  | client {l : Client.Label} {u u' : Client.World} (hu : s.client = some u)
      (hcarried : s.carriesDown u l = true) (hstep : u.step l = some u') :
      Moves s (.client l) { s with client := some u' }
  | listener {a : Listener.Action} {w : Listener.World}
      (hown : ∀ peer received pings dec, a ≠ .resume peer received pings dec)
      (hcarried : s.carriesUp a = true) (hstep : s.listener.step a = some w) :
      Moves s (.listener a) { s with listener := w }
  | accepts {c n : ℕ} {peer : String} {u : Client.World} {conn : Client.Conn} {pairing dec : Bytes}
      {r : Resume} (hu : s.client = some u) (hc : u.conns[c]? = some conn)
      (hfree : ∀ st ∈ s.streams, st.conn ≠ some c)
      (hgreeted : greeted conn n = some (⟨pairing, some r⟩, dec)) :
      Moves s (.accept c n peer) (s.attend (some c) peer r.received.toNat (u.proto = .v3) dec)
  | stranger {peer : String} (hpeer : peer ≠ s.listener.creator) (received : ℕ) (pings : Bool)
      (dec : Bytes) :
      Moves s (.stranger peer received pings dec) (s.attend none peer received pings dec)

variable [Postcard] {s s' : Link} {a : Action}

omit [Postcard] in
theorem serving_iff {c : ℕ} : s.serving c = true ↔ ∃ st ∈ s.streams, st.conn = some c := by
  simp [serving]

/-- **The cases of a step.** -/
theorem step_cases (hstep : s.step a = some s') : s.Moves a s' := by
  cases a with
  | connect d moves =>
    simp only [step] at hstep
    split at hstep
    · cases hstep
    · rename_i hnone
      split_ifs at hstep with hguard
      obtain ⟨u, hu, rfl⟩ := Option.map_eq_some_iff.1 hstep
      exact .connects hnone hguard.1 (List.isPrefixOf_iff_prefix.1 hguard.2) hu
  | client l =>
    simp only [step] at hstep
    split at hstep
    · cases hstep
    · rename_i u hu
      split_ifs at hstep with hcarried
      obtain ⟨u', hu', rfl⟩ := Option.map_eq_some_iff.1 hstep
      exact .client hu hcarried hu'
  | listener a =>
    simp only [step] at hstep
    split at hstep
    · cases hstep
    · rename_i hown
      split_ifs at hstep with hcarried
      obtain ⟨w, hw, rfl⟩ := Option.map_eq_some_iff.1 hstep
      exact .listener hown hcarried hw
  | accept c n peer =>
    simp only [step] at hstep
    split at hstep
    · cases hstep
    · rename_i u hu
      unfold accept at hstep
      split at hstep
      · cases hstep
      · rename_i conn hc
        split_ifs at hstep with hfree
        split at hstep
        · rename_i r dec hgreeted
          split_ifs at hstep
          cases hstep
          exact .accepts hu hc (fun st hst heq => hfree (serving_iff.2 ⟨st, hst, heq⟩)) hgreeted
        · cases hstep
  | stranger peer received pings dec =>
    simp only [step] at hstep
    split_ifs at hstep with hpeer
    cases hstep
    exact .stranger hpeer received pings dec

end Link

/-! ## Calm steps -/

/-- Nothing was recorded or received between a reply and its attachment, the client installs a
connection only when it received nothing since its hello, no reader begins with a part of a frame,
and a hello fits a frame. -/
def calm [Postcard] (s : Link) : Action → Bool
  | .client l => s.client.all fun u => Client.resumesInStep u l && Client.startsWhole u l
  | .listener a => Listener.undisturbed s.listener a && Listener.unmoved s.listener a
  | .accept c _ _ =>
    s.client.all fun u => (u.conns[c]?).all fun conn =>
      conn.hello.all fun h => h.length ≤ headerLen + maxFrame
  | _ => true

end Ends
