import Wosh.Ends.Delivery

set_option relaxedAutoImplicit false
set_option autoImplicit false

/-!
# When nothing is in flight

Each end hands over an initial part of what the other produced. Once everything that was written on
the current connection has been read on both sides, and neither side has anything left to write, it
is all of it: the replay of a resume has left no gap.

## Main definitions

* `Ends.Settled` — nothing is in flight, and nothing waits.

## Main results

* `Ends.settled_complete` — each end has all that the other produced.
-/

namespace Ends

open Tunnel

variable [Postcard]

/-- Nothing is in flight between the client and task `k`, which serves its current connection, and
nothing waits on either side. -/
structure Settled (s : Link) (u : Client.World) (k : ℕ) (t : Listener.Task) (conn : Client.Conn) :
    Prop where
  stream : (s.streams[k]?).bind Stream.conn = some u.conn
  task : s.listener.tasks[k]? = some t
  current : u.conns[u.conn]? = some conn
  /-- Task `k` is the current attachment, and its reader has applied what it read. -/
  last : s.listener.st.last = some k
  reading : t.pc = .reading s.listener.st.generation
  applied : t.dec = []
  /-- The listener has nothing to write, to its client or to sshd. -/
  outq : s.listener.st.outq = []
  inq : s.listener.st.inq = []
  pumpC : s.listener.pumpC = .polling
  /-- Pump A records what sshd writes. -/
  pumpA : s.listener.pumpA ≠ .done
  /-- What was written has been read. -/
  up : t.arrived = conn.wire.flatten
  down : conn.taken = s.toConn u.conn
  /-- The client has nothing to write. -/
  outbox : u.outbox = []
  writer : ∃ wr, u.writers[u.generation]? = some wr ∧ wr.pc ≠ .done ∧ wr.pc.pending = []
  /-- The current reader has consumed what it read. -/
  reader : ∃ r, u.readers[u.generation]? = some r ∧ r.pc ≠ .done ∧ r.dec = []

variable {o i : Bytes} {s : Link} {u : Client.World} {k : ℕ} {t : Listener.Task}
  {conn : Client.Conn}

namespace Linked

/-- The core has been fed all that sshd wrote. -/
theorem fed_eq (h : Linked o i s) (hexact : Postcard.Exact) (hu : s.client = some u)
    (hreplies : ∀ st ∈ s.streams, (Frame.reply st.reply).Fits) (hi : s.listener.sshd <+: i)
    (hs : Settled s u k t conn) : u.fed = s.listener.sshd := by
  obtain ⟨hruns, hcar⟩ := h.runs u hu
  obtain ⟨st, hst, hc⟩ := Option.bind_eq_some_iff.1 hs.stream
  obtain ⟨conn', hconn', hserves⟩ := hcar.serves hst hs.task hc
  cases hs.current.symm.trans hconn'
  -- the current reader is on the current connection
  obtain ⟨r, hr, hpc, hdec⟩ := hs.reader
  obtain ⟨conn₁, hconn₁, hinst₁⟩ := hruns.tasks.reader hr
  obtain ⟨conn₂, hconn₂, hinst₂⟩ := hruns.tasks.current
  have hon : r.conn = u.conn := hruns.tasks.installed hconn₁ hconn₂ hinst₁ hinst₂
  have hlen := hruns.inbound.reader hr hpc (hon ▸ hs.current)
  have hnil : streamData ([] : Bytes) = [] := rfl
  -- and what was written on it is all that was recorded from the count of its hello on
  obtain ⟨hle, hfull⟩ := h.listens.toClient.full k t hs.last hs.task
  have hrecorded : s.listener.recorded = s.listener.sshd :=
    h.listens.toClient.recorded_eq hs.pumpA
  rw [hs.outq, List.append_nil, hrecorded] at hfull
  rw [hrecorded] at hle
  have htaken : streamData conn.taken = s.listener.sshd.drop t.resumeFrom := by
    rw [hs.down, h.streamed.toConn_eq hst hs.task hc,
      streamData_reply hexact (hreplies st (List.mem_of_getElem? hst))
        (h.listens.echoes.wires k t hs.task), hfull]
  rw [hdec, hnil, htaken, ← hserves.resumeFrom, List.length_drop, List.length_nil] at hlen
  have hsame : u.fed.length = s.listener.sshd.length := by omega
  exact (List.prefix_of_prefix_length_le hruns.inbound.fed hi hsame.le).eq_of_length hsame

/-- Sshd has been written all that the core produced. -/
theorem toSshd_eq (h : Linked o i s) (hexact : Postcard.Exact) (hu : s.client = some u)
    (hreplies : ∀ st ∈ s.streams, (Frame.reply st.reply).Fits) (ho : u.queued <+: o)
    (hs : Settled s u k t conn) : s.listener.toSshd = u.queued := by
  obtain ⟨hruns, hcar⟩ := h.runs u hu
  obtain ⟨st, hst, hc⟩ := Option.bind_eq_some_iff.1 hs.stream
  obtain ⟨conn', hconn', hserves⟩ := hcar.serves hst hs.task hc
  cases hs.current.symm.trans hconn'
  -- the current writer is on the current connection
  obtain ⟨wr, hw, hpc, hpending⟩ := hs.writer
  obtain ⟨conn₁, hconn₁, hinst₁⟩ := hruns.tasks.writer hw
  obtain ⟨conn₂, hconn₂, hinst₂⟩ := hruns.tasks.current
  have hon : wr.conn = u.conn := hruns.tasks.installed hconn₁ hconn₂ hinst₁ hinst₂
  cases hs.current.symm.trans hconn₂
  -- and what was written on it is all that was popped from the count of its reply on
  have hwr : u.conns[wr.conn]? = some conn := hon ▸ hs.current
  obtain ⟨hle, hfull⟩ := hruns.outbound.full hw hpc hwr
  have hpopped : u.queued = u.popped ++ u.outbox.flatten := hruns.outbound.queued
  rw [hs.outbox, List.flatten_nil, List.append_nil] at hpopped
  have hpeer := hruns.peerReceived_eq hexact hreplies h.streamed hst hs.task hc hs.current hserves
    hinst₂
  have hspells : Spells conn.wire :=
    Client.World.wireOf_eq hs.current ▸ hruns.spells u.conn
  have hwire : dataOf conn.wire = u.queued.drop t.received := by
    rw [hpending, List.append_nil, hpeer] at hfull
    rw [hpopped]
    exact hfull
  have hcur := h.listens.toSshd.reading k t _ nofun hs.task hs.reading rfl
  have hlen := hcur.joined.length_eq
  rw [hs.up, streamData_flatten hspells, hwire, List.length_drop] at hlen
  have hbound : t.received ≤ u.queued.length := by
    rw [hpeer] at hle
    rw [hpopped]
    exact hle
  have hsame : s.listener.st.pushed.length = u.queued.length := by omega
  have hpushed : s.listener.st.pushed = u.queued :=
    (List.prefix_of_prefix_length_le h.listens.toSshd.pushed_isPrefix ho hsame.le).eq_of_length
      hsame
  have hqueue := h.listens.toSshd.queued (by rw [hs.pumpC]; nofun)
  rw [hs.pumpC, hs.inq] at hqueue
  simp only [Listener.PumpC.inFlight, List.flatten_nil, List.append_nil] at hqueue
  rw [hqueue, hpushed]

end Linked

/-- **When nothing is in flight, nothing is missing.** In a state reached by a calm run in which
nothing is in flight on the current connection and nothing waits on either side, the core has been
fed all that sshd wrote, and sshd has been written all that the core produced. -/
theorem settled_complete (hexact : Postcard.Exact) {id : SessionId} {creator : String} {grace : ℕ}
    {reg : Listener.Registry} {pings : Bool} {as : List Action}
    (hrun : Run.run Link.step (Link.start id creator grace reg pings) as = some s)
    (hcalm : Run.Along Link.step (fun s a => calm s a = true)
      (Link.start id creator grace reg pings) as)
    (hu : s.client = some u) (husize : ∀ n < wide, u.usize n = n)
    (hsshd : s.listener.sshd.length < wide) (hqueued : u.queued.length < wide)
    (hreplies : ∀ st ∈ s.streams, (Postcard.ofReply st.reply).length ≤ maxFrame)
    (hs : Settled s u k t conn) : u.fed = s.listener.sshd ∧ s.listener.toSshd = u.queued := by
  have hin : Within u.queued s.listener.sshd s := {
    sshd := List.prefix_refl _
    queued := fun v hv => by
      cases hu.symm.trans hv
      exact ⟨List.prefix_refl _, husize⟩
    replies := hreplies }
  have h := linked_run hexact hrun hcalm hsshd hqueued hin
  exact ⟨h.fed_eq hexact hu hreplies (List.prefix_refl _) hs,
    h.toSshd_eq hexact hu hreplies (List.prefix_refl _) hs⟩

omit [Postcard] in
/-- After the session was resumed, and a byte carried each way: the state to which `settled_complete`
is applied. -/
theorem settled_complete_resumed :
    ∃ s u, @Run.run _ _ (@Link.step Postcard.golden)
        (Link.start Listener.sampleId "client" 60 {} true) (begins ++ redials ++ goesOn) = some s ∧
      s.client = some u ∧ u.fed = s.listener.sshd ∧ s.listener.toSshd = u.queued ∧
      u.fed = [1, 2] ∧ u.queued = [9] := by
  have hall := @settled_complete Postcard.golden _ _ 1 _ _ Postcard.golden_exact Listener.sampleId
    "client" 60 {} true (begins ++ redials ++ goesOn) rfl (by decide) rfl
    (fun _ hn => Nat.mod_eq_of_lt hn) (by decide) (by decide) (by decide)
    (@Settled.mk Postcard.golden _ _ _ _ _ rfl rfl rfl rfl rfl rfl rfl rfl rfl (by decide) rfl rfl rfl
      ⟨_, rfl, nofun, rfl⟩ ⟨_, rfl, nofun, rfl⟩)
  exact ⟨_, _, rfl, rfl, hall.1, hall.2, rfl, rfl⟩

end Ends
