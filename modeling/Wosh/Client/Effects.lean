import Wosh.Client.Step
import Wosh.Lib.Slots
import Wosh.Tunnel.Wire

set_option relaxedAutoImplicit false
set_option autoImplicit false

/-!
# What the operations of a session change

For each operation that several steps share: which fields it changes, and how. That the other
fields are left alone is stated as an equation between the whole session and the one before with
just these fields replaced.

## Main definitions

* `Client.Core.Onward` — how the core moves: the closed state is terminal.
* `Client.World.Drove` — what a turn of `drive` does.
* `Client.World.Consumed` — what consuming frames does.
* `Client.World.Wrote` — what the inner loop of a writer does.
-/

namespace Client

open Tunnel

/-! ## The core -/

namespace Core

variable {c c' c'' : Core}

theorem closed_iff : c.closed = true ↔ c.engine.state = .closed := by simp [closed]

/-- A move of the core: it does not leave the closed state, and it has been ready since it was. -/
structure Onward (c c' : Core) : Prop where
  closed : c.engine.state = .closed →
    c'.engine.state = .closed ∧ c'.everReady = c.everReady
  everReady : c.everReady = true → c'.everReady = true

theorem Onward.refl (c : Core) : c.Onward c := ⟨fun h => ⟨h, rfl⟩, fun h => h⟩

theorem Onward.trans (h : c.Onward c') (h' : c'.Onward c'') : c.Onward c'' where
  closed hc := by
    obtain ⟨hc', he⟩ := h.closed hc
    obtain ⟨hc'', he'⟩ := h'.closed hc'
    exact ⟨hc'', he'.trans he⟩
  everReady hr := h'.everReady (h.everReady hr)

/-- A move that changes neither the state nor what was published. -/
theorem Onward.of_eq (hs : c'.engine.state = c.engine.state) (he : c'.everReady = c.everReady) :
    c.Onward c' :=
  ⟨fun h => ⟨hs.trans h, he⟩, fun h => he.trans h⟩

/-- Noting the move of an engine that does not leave the closed state. -/
theorem onward_note {e : SshCore.Engine}
    (h : c.engine.state = .closed → e.state = .closed) : c.Onward (c.note e) where
  closed hc := ⟨h hc, by simp [note, h hc]⟩
  everReady hr := by simp [note, hr]

theorem onward_rounds {moves : List SshCore.Action} (h : c.rounds moves = some c') :
    c.Onward c' := by
  refine Run.run_mono Onward.refl (fun _ _ _ h h' => h.trans h') ?_ h
  intro d a d' hd
  obtain ⟨e, he, rfl⟩ := Option.map_eq_some_iff.1 hd
  exact onward_note (SshCore.Engine.closed_of_background he)

/-- What is left of an export after its rounds. -/
theorem onward_end (c : Core) :
    c.Onward (match c.engine.ending with
      | none => c
      | some msg => c.note { c.engine.closeWith msg with ending := none }) := by
  split
  · exact .refl c
  · exact onward_note fun _ => SshCore.Engine.state_closeWith _ _

theorem onward_call {entry : SshCore.Action} {moves : List SshCore.Action}
    (h : c.call entry moves = some c') : c.Onward c' := by
  obtain ⟨e, he, h⟩ := Option.bind_eq_some_iff.1 h
  obtain ⟨d, hd, rfl⟩ := Option.map_eq_some_iff.1 h
  have hentry : c.Onward (c.note e) := onward_note (SshCore.Engine.closed_of_call he)
  exact (hentry.trans (onward_rounds hd)).trans (onward_end d)

/-- The wire is broken: the core is closed when the export returns. -/
theorem closed_of_call_wireBroken {reason : String} {moves : List SshCore.Action}
    (h : c.call (.wireBroken reason) moves = some c') : c'.engine.state = .closed := by
  obtain ⟨e, he, h⟩ := Option.bind_eq_some_iff.1 h
  obtain ⟨d, hd, rfl⟩ := Option.map_eq_some_iff.1 h
  cases he
  -- until its end has come, it is still to come
  have hend : d.engine.ending ≠ none ∨ d.engine.state = .closed := by
    refine Run.run_inv_of_step
      (P := fun d : Core => d.engine.ending ≠ none ∨ d.engine.state = .closed) ?_
      (.inl (by simp [note, SshCore.Engine.wireBroken])) hd
    intro d a d' hd hstep
    obtain ⟨e, he, rfl⟩ := Option.map_eq_some_iff.1 hstep
    rcases hd with hd | hd
    · rcases SshCore.Engine.ending_of_background he with heq | hc
      · exact .inl (by rw [note, heq]; exact hd)
      · exact .inr hc
    · exact .inr (SshCore.Engine.closed_of_background he hd)
  rcases hend with hend | hend
  · split
    · contradiction
    · exact SshCore.Engine.state_closeWith _ _
  · exact ((onward_end d).closed hend).1

end Core

/-! ## Driving -/

/-- A connection that differs at most in whether it was closed at this end. -/
def Conn.Same (conn conn' : Conn) : Prop := conn' = { conn with closed := conn'.closed }

theorem Conn.Same.refl (conn : Conn) : conn.Same conn := rfl

theorem Conn.Same.trans {conn conn' conn'' : Conn} (h : conn.Same conn')
    (h' : conn'.Same conn'') : conn.Same conn'' := by
  rw [Conn.Same] at *
  rw [h', h]

/-- A reader that moved on without touching its decoder. -/
structure Reader.Kept (r r' : Reader) : Prop where
  conn : r'.conn = r.conn
  dec : r'.dec = r.dec
  /-- It is not made to begin again. -/
  seeded : r'.pc = .seeded → r.pc = .seeded
  /-- It is not brought back. -/
  done : r.pc = .done → r'.pc = .done

theorem Reader.Kept.refl (r : Reader) : r.Kept r := ⟨rfl, rfl, fun h => h, fun h => h⟩

theorem Reader.Kept.trans {r r' r'' : Reader} (h : r.Kept r') (h' : r'.Kept r'') : r.Kept r'' :=
  ⟨h'.conn.trans h.conn, h'.dec.trans h.dec, fun hs => h.seeded (h'.seeded hs),
    fun hd => h'.done (h.done hd)⟩

theorem Reader.kept_drove (stale : Bool) (r : Reader) : r.Kept (r.drove stale) := by
  unfold Reader.drove
  split
  · rename_i seeded hpc
    refine ⟨rfl, rfl, fun hs => ?_, fun hd => by simp [hpc] at hd⟩
    dsimp only at hs
    split_ifs at hs
  · exact .refl r

namespace World

variable {w w' : World}

/-- A change that wakes the writer for what it queues: the signal and the outbox are left alone, or
the signal is dirty afterwards. -/
def Rings (w w' : World) : Prop :=
  (w'.writerSignal = w.writerSignal ∧ w'.outbox = w.outbox) ∨ w'.writerSignal.dirty = true

theorem Rings.refl (w : World) : w.Rings w := .inl ⟨rfl, rfl⟩

theorem Rings.trans {w'' : World} (h : w.Rings w') (h' : w'.Rings w'') : w.Rings w'' := by
  rcases h' with ⟨hs', ho'⟩ | hdirty
  · rcases h with ⟨hs, ho⟩ | hdirty
    · exact .inl ⟨hs'.trans hs, ho'.trans ho⟩
    · exact .inr (by rw [hs', hdirty])
  · exact .inr hdirty

/-- What a turn of `drive` changes: the output of the core moves to the outbox, `ready` is
latched, and the one who awaits it goes on. -/
structure Drove (w w' : World) : Prop where
  only : w' = { w with
    core := w'.core
    outbox := w'.outbox
    queued := w'.queued
    writerSignal := w'.writerSignal
    wasReady := w'.wasReady
    signing := w'.signing
    parked := w'.parked
    readers := w'.readers
    conns := w'.conns }
  state : w'.core.engine.state = w.core.engine.state
  everReady : w'.core.everReady = w.core.everReady
  queued : ∃ bs, w'.outbox = w.outbox ++ bs ∧ w'.queued = w.queued ++ bs.flatten
  wasReady : w'.wasReady = w.wasReady ∨ (w.core.engine.state = .ready ∧ w'.wasReady = true)
  readers : Slots.Related Reader.Kept w.readers w'.readers
  conns : Slots.Related Conn.Same w.conns w'.conns
  rings : w.Rings w'

/-- A change that leaves the core, the outbox, the signal and the latch alone. -/
theorem Drove.of_tasks (hw : w' = { w with
      signing := w'.signing
      parked := w'.parked
      readers := w'.readers
      conns := w'.conns })
    (hr : Slots.Related Reader.Kept w.readers w'.readers)
    (hc : Slots.Related Conn.Same w.conns w'.conns) : w.Drove w' where
  only := by rw [hw]
  state := by rw [hw]
  everReady := by rw [hw]
  queued := ⟨[], by rw [hw]; simp⟩
  wasReady := .inl (by rw [hw])
  readers := hr
  conns := hc
  rings := .inl (by rw [hw]; exact ⟨rfl, rfl⟩)

theorem Drove.trans {w'' : World} (h : w.Drove w') (h' : w'.Drove w'') : w.Drove w'' where
  only := h'.only.trans (by rw [h.only])
  state := h'.state.trans h.state
  everReady := h'.everReady.trans h.everReady
  queued := by
    obtain ⟨bs, ho, hq⟩ := h.queued
    obtain ⟨bs', ho', hq'⟩ := h'.queued
    exact ⟨bs ++ bs', by rw [ho', ho, List.append_assoc],
      by rw [hq', hq, List.flatten_append, List.append_assoc]⟩
  wasReady := by
    rcases h'.wasReady with heq | ⟨hs, hr⟩
    · rw [heq]
      exact h.wasReady
    · exact .inr ⟨h.state ▸ hs, hr⟩
  readers := h.readers.trans Reader.Kept.trans h'.readers
  conns := h.conns.trans Conn.Same.trans h'.conns
  rings := h.rings.trans h'.rings

theorem drove_notify (w : World) : w.Drove w.notify where
  only := rfl
  state := rfl
  everReady := rfl
  queued := ⟨[], by simp [notify]⟩
  wasReady := .inl rfl
  readers := .refl Reader.Kept.refl _
  conns := .refl Conn.Same.refl _
  rings := .inr rfl

theorem drove_closeConn (w : World) (c : ℕ) : w.Drove (w.closeConn c) :=
  .of_tasks rfl (.refl Reader.Kept.refl _) (Slots.related_modify Conn.Same.refl fun _ _ => rfl)

/-- The output of the core is queued, and the writer woken. -/
theorem drove_queue (w : World) : w.Drove w.takeCoreOutput.1.notify := by
  unfold takeCoreOutput
  simp only
  split_ifs
  · exact ⟨rfl, rfl, rfl, ⟨[], by simp [notify]⟩, .inl rfl, .refl Reader.Kept.refl _,
      .refl Conn.Same.refl _, .inr rfl⟩
  · exact ⟨rfl, rfl, rfl, ⟨[w.core.drain.1], by simp [notify]⟩, .inl rfl,
      .refl Reader.Kept.refl _, .refl Conn.Same.refl _, .inr rfl⟩

/-- It is queued, and the writer woken if there was any. -/
theorem drove_takeCoreOutput (w : World) :
    w.Drove (if w.takeCoreOutput.2 then w.takeCoreOutput.1.notify else w.takeCoreOutput.1) := by
  by_cases hnil : w.core.drain.1 = []
  · have heq : w.takeCoreOutput = ({ w with core := w.core.drain.2 }, false) := if_pos hnil
    rw [heq]
    exact ⟨rfl, rfl, rfl, ⟨[], by simp⟩, .inl rfl, .refl Reader.Kept.refl _, .refl Conn.Same.refl _,
      .inl ⟨rfl, rfl⟩⟩
  · have hqueued : w.takeCoreOutput.2 = true := by
      unfold takeCoreOutput
      dsimp only
      rw [if_neg hnil]
    rw [if_pos hqueued]
    exact w.drove_queue

theorem drove_finishDrive (w : World) (o : Owner) : w.Drove (w.finishDrive o) := by
  cases o with
  | reader g =>
    exact .of_tasks rfl
      (Slots.related_modify Reader.Kept.refl fun r _ => Reader.kept_drove _ r)
      (.refl Conn.Same.refl _)
  | detach c => exact w.drove_notify.trans (w.notify.drove_closeConn c)
  | reject => exact w.drove_closeConn w.conn
  | other => exact .of_tasks rfl (.refl Reader.Kept.refl _) (.refl Conn.Same.refl _)

theorem drove_driveTurn (w : World) (o : Owner) : w.Drove (w.driveTurn o) := by
  have latch : ∀ v : World, v.Drove
      (if v.core.engine.state = .ready then { v with wasReady := true } else v) := by
    intro v
    split_ifs with hready
    · exact ⟨rfl, rfl, rfl, ⟨[], by simp⟩, .inr ⟨hready, rfl⟩, .refl Reader.Kept.refl _,
        .refl Conn.Same.refl _, .inl ⟨rfl, rfl⟩⟩
    · exact .of_tasks rfl (.refl Reader.Kept.refl _) (.refl Conn.Same.refl _)
  have answer : ∀ v : World, v.Drove
      (if v.core.engine.state = .signing ∧ v.signing = false ∧ v.core.engine.sigRequest.isSome then
        { v with signing := true, parked := some o }
      else v.finishDrive o) := by
    intro v
    split_ifs
    · exact .of_tasks rfl (.refl Reader.Kept.refl _) (.refl Conn.Same.refl _)
    · exact v.drove_finishDrive o
  exact (w.drove_takeCoreOutput.trans (latch _)).trans (answer _)

/-! ## Consuming frames -/

/-- A payload is fed to the core, and counted. -/
structure FedOnly (w w' : World) (p : Bytes) : Prop where
  only : w' = { w with core := w'.core, received := w'.received, fed := w'.fed }
  state : w'.core.engine.state = w.core.engine.state
  everReady : w'.core.everReady = w.core.everReady
  fed : w'.fed = w.fed ++ p
  received : w'.received = w.received + p.length

/-- What came ahead of a reply is fed in order. -/
theorem fedOnly_foldl (deferred : List Bytes) (w : World) :
    w.FedOnly (deferred.foldl feedCounted w) deferred.flatten := by
  induction deferred generalizing w with
  | nil => exact ⟨rfl, rfl, rfl, by simp, by simp⟩
  | cons p deferred ih =>
    have h := ih (w.feedCounted p)
    rw [List.foldl_cons]
    exact ⟨h.only, h.state, h.everReady, by rw [h.fed]; simp [feedCounted],
      by rw [h.received]; simp [feedCounted]; omega⟩

/-- What consuming frames changes, when the payloads of those consumed are `p`. -/
structure Consumed (w w' : World) (p : Bytes) : Prop where
  only : w' = { w with
    core := w'.core
    received := w'.received
    fed := w'.fed
    lastInboundMs := w'.lastInboundMs
    pingOutstanding := w'.pingOutstanding
    replay := w'.replay
    pongDue := w'.pongDue
    ackDue := w'.ackDue
    writerSignal := w'.writerSignal }
  state : w'.core.engine.state = w.core.engine.state
  everReady : w'.core.everReady = w.core.everReady
  fed : w'.fed = w.fed ++ p
  received : w'.received = w.received + p.length
  /-- An ACK at most trims the replay buffer. -/
  replay : ∀ s, w.replay.Tracks s → w'.replay.Tracks s
  pingOutstanding : w'.pingOutstanding = w.pingOutstanding ∨ w'.pingOutstanding = none
  rings : w.Rings w'

theorem Consumed.refl (w : World) : w.Consumed w [] :=
  ⟨rfl, rfl, rfl, by simp, by simp, fun _ h => h, .inl rfl, .refl w⟩

theorem Consumed.trans {w'' : World} {p p' : Bytes} (h : w.Consumed w' p)
    (h' : w'.Consumed w'' p') : w.Consumed w'' (p ++ p') where
  only := h'.only.trans (by rw [h.only])
  state := h'.state.trans h.state
  everReady := h'.everReady.trans h.everReady
  fed := by rw [h'.fed, h.fed, List.append_assoc]
  received := by rw [h'.received, h.received, List.length_append, Nat.add_assoc]
  replay s hs := h'.replay s (h.replay s hs)
  pingOutstanding := by
    rcases h'.pingOutstanding with heq | hnone
    · rw [heq]
      exact h.pingOutstanding
    · exact .inr hnone
  rings := h.rings.trans h'.rings

/-- One frame; any frame is evidence that the peer is alive. -/
theorem consumed_frame (w : World) (f : Frame) :
    ∃ p, p <+: f.payload ∧ ((w.consumeFrame f).2.2.2 = none → p = f.payload) ∧
      w.Consumed (w.consumeFrame f).1 p ∧ (w.consumeFrame f).1.pingOutstanding = none := by
  unfold consumeFrame
  cases f with
  | data payload =>
    dsimp only
    split_ifs with hp
    · subst hp
      exact ⟨[], List.prefix_refl _, fun _ => rfl,
        ⟨rfl, rfl, rfl, by simp, by simp, fun _ h => h, .inr rfl, .inl ⟨rfl, rfl⟩⟩, rfl⟩
    · exact ⟨payload, List.prefix_refl _, fun _ => rfl,
        ⟨rfl, rfl, rfl, rfl, rfl, fun _ h => h, .inr rfl, .inl ⟨rfl, rfl⟩⟩, rfl⟩
  | ack n =>
    exact ⟨[], List.prefix_refl _, fun _ => rfl,
      ⟨rfl, rfl, rfl, by simp, by simp, fun _ h => h.ack _ _, .inr rfl, .inl ⟨rfl, rfl⟩⟩, rfl⟩
  | ping payload =>
    dsimp only
    split_ifs <;>
      exact ⟨[], List.prefix_refl _, fun _ => rfl,
        ⟨rfl, rfl, rfl, by simp, by simp, fun _ h => h, .inr rfl, .inl ⟨rfl, rfl⟩⟩, rfl⟩
  | pong payload =>
    dsimp only
    split_ifs <;>
      exact ⟨[], List.prefix_refl _, fun _ => rfl,
        ⟨rfl, rfl, rfl, by simp, by simp, fun _ h => h, .inr rfl, .inl ⟨rfl, rfl⟩⟩, rfl⟩
  | reply r =>
    exact ⟨[], List.prefix_refl _, fun _ => rfl,
      ⟨rfl, rfl, rfl, by simp, by simp, fun _ h => h, .inr rfl, .inl ⟨rfl, rfl⟩⟩, rfl⟩
  | hello h =>
    exact ⟨[], List.prefix_refl _, fun _ => rfl,
      ⟨rfl, rfl, rfl, by simp, by simp, fun _ h => h, .inr rfl, .inl ⟨rfl, rfl⟩⟩, rfl⟩

/-- Any number of frames, up to a violation. -/
theorem consumed_frames (fs : List Frame) (w : World) :
    ∃ p, p <+: fs.flatMap Frame.payload ∧
      ((w.consumeFrames fs).2.2.2 = none → p = fs.flatMap Frame.payload) ∧
      w.Consumed (w.consumeFrames fs).1 p ∧
      (fs ≠ [] → (w.consumeFrames fs).1.pingOutstanding = none) := by
  induction fs generalizing w with
  | nil => exact ⟨[], List.prefix_refl _, fun _ => rfl, .refl w, fun h => absurd rfl h⟩
  | cons f fs ih =>
    obtain ⟨p, hp, hwhole, hcons, hping⟩ := w.consumed_frame f
    rw [List.flatMap_cons]
    unfold consumeFrames
    split
    · rename_i w' fed wake e heq
      rw [heq] at hcons hping
      exact ⟨p, hp.trans (List.prefix_append _ _), nofun, hcons, fun _ => hping⟩
    · rename_i w' fed wake heq
      rw [heq] at hwhole hcons hping
      obtain ⟨p', hp', hwhole', hcons', -⟩ := ih w'
      obtain rfl := hwhole rfl
      refine ⟨f.payload ++ p', (List.prefix_append_right_inj _).2 hp',
        fun h => by rw [hwhole' h], hcons.trans hcons', fun _ => ?_⟩
      rcases hcons'.pingOutstanding with heq' | hnone
      · exact heq'.trans hping
      · exact hnone

/-- A decoder is consumed: its payloads are fed up to a violation, and all of them when there is
none. -/
theorem consumed_consume [Postcard] (w : World) (dec : Bytes) :
    ∃ p, p <+: streamData dec ∧
      (∀ fed rest, (w.consume dec).2 = .ok (fed, rest) →
        p = streamData dec ∧ (frames dec).2 = .ok rest) ∧
      w.Consumed (w.consume dec).1 p ∧
      ((frames dec).1 ≠ [] → (w.consume dec).1.pingOutstanding = none) := by
  obtain ⟨p, hp, hwhole, hcons, hping⟩ := w.consumed_frames (frames dec).1
  unfold consume
  dsimp only
  split
  · exact ⟨p, hp, nofun, hcons, hping⟩
  · exact ⟨p, hp, nofun, hcons, hping⟩
  · rename_i rest hnone hrest
    refine ⟨p, hp, fun fed rest' h => ?_, ?_, ?_⟩
    · cases h
      exact ⟨hwhole hnone, hrest⟩
    · rw [← List.append_nil p]
      refine hcons.trans ?_
      have hdue : ∀ (v : World) (due wake : Bool), v.Consumed
          (if due || wake then (if due then { v with ackDue := true } else v).notify
            else if due then { v with ackDue := true } else v) [] := by
        intro v due wake
        cases due <;> cases wake
        · exact .refl v
        · exact ⟨rfl, rfl, rfl, by simp [notify], by simp [notify], fun _ h => h, .inl rfl, .inr rfl⟩
        · exact ⟨rfl, rfl, rfl, by simp [notify], by simp [notify], fun _ h => h, .inl rfl, .inr rfl⟩
        · exact ⟨rfl, rfl, rfl, by simp [notify], by simp [notify], fun _ h => h, .inl rfl, .inr rfl⟩
      exact hdue _ _ _
    · intro h
      split_ifs <;> exact hping h

/-- What a frame owes: a ping its echo. -/
theorem pongDue_frame (w : World) (f : Frame) :
    ∃ q, (w.consumeFrame f).1.pongDue = w.pongDue ++ q ∧ q <+: pingsOf [f] ∧
      ((w.consumeFrame f).2.2.2 = none → q = pingsOf [f]) := by
  unfold consumeFrame
  cases f with
  | data payload =>
    dsimp only
    split_ifs <;> exact ⟨[], (List.append_nil _).symm, List.nil_prefix, fun _ => rfl⟩
  | ping payload =>
    dsimp only
    split_ifs
    · exact ⟨[], (List.append_nil _).symm, List.nil_prefix, fun h => by cases h⟩
    · exact ⟨[payload], rfl, List.prefix_refl _, fun _ => rfl⟩
  | pong payload =>
    dsimp only
    split_ifs <;> exact ⟨[], (List.append_nil _).symm, List.nil_prefix, fun _ => rfl⟩
  | ack | reply | hello => exact ⟨[], (List.append_nil _).symm, List.nil_prefix, fun _ => rfl⟩

/-- What frames owe, up to a violation. -/
theorem pongDue_frames (fs : List Frame) (w : World) :
    ∃ q, (w.consumeFrames fs).1.pongDue = w.pongDue ++ q ∧ q <+: pingsOf fs ∧
      ((w.consumeFrames fs).2.2.2 = none → q = pingsOf fs) := by
  induction fs generalizing w with
  | nil => exact ⟨[], (List.append_nil _).symm, List.nil_prefix, fun _ => rfl⟩
  | cons f fs ih =>
    obtain ⟨q, hq, hprefix, hall⟩ := w.pongDue_frame f
    have hsplit : pingsOf (f :: fs) = pingsOf [f] ++ pingsOf fs := pingsOf_append [f] fs
    rw [hsplit]
    unfold consumeFrames
    split
    · rename_i w' fed wake e heq
      rw [heq] at hq
      exact ⟨q, hq, hprefix.trans (List.prefix_append _ _), fun h => by cases h⟩
    · rename_i w' fed wake heq
      rw [heq] at hq hall
      obtain rfl := hall rfl
      obtain ⟨q', hq', hprefix', hall'⟩ := ih w'
      refine ⟨pingsOf [f] ++ q', ?_, (List.prefix_append_right_inj _).2 hprefix', fun h => ?_⟩
      · show (consumeFrames w' fs).1.pongDue = _
        rw [hq', hq, List.append_assoc]
      · rw [hall' h]

/-- What a decoder owes. -/
theorem pongDue_consume [Postcard] (w : World) (dec : Bytes) :
    ∃ q, (w.consume dec).1.pongDue = w.pongDue ++ q ∧ q <+: pingsOf (frames dec).1 ∧
      (∀ fed rest, (w.consume dec).2 = .ok (fed, rest) → q = pingsOf (frames dec).1) := by
  obtain ⟨q, hq, hprefix, hall⟩ := w.pongDue_frames (frames dec).1
  unfold consume
  dsimp only
  split
  · exact ⟨q, hq, hprefix, fun _ _ h => by cases h⟩
  · exact ⟨q, hq, hprefix, fun _ _ h => by cases h⟩
  · rename_i rest hnone hrest
    refine ⟨q, ?_, hprefix, fun _ _ _ => hall hnone⟩
    rw [← hq]
    have hdue : ∀ (v : World) (due wake : Bool),
        (if due || wake then (if due then { v with ackDue := true } else v).notify
          else if due then { v with ackDue := true } else v).pongDue = v.pongDue := by
      intro v due wake
      cases due <;> cases wake <;> rfl
    exact hdue _ _ _

/-! ## Writing -/

end World

/-- A writer whose next poll is one of the signal. -/
def WriterPc.listening : WriterPc → Bool
  | .waiting => true
  | .parked => true
  | _ => false

/-- A writer that comes to its wait without looking at the outbox, or is in it. -/
def WriterPc.idle : WriterPc → Bool
  | .spawned _ => true
  | .tail _ => true
  | pc => pc.listening

/-- The session bytes a writer has taken and not handed to its stream yet. -/
def WriterPc.pending [Postcard] : WriterPc → Bytes
  | .spawned b => b
  | .tail rest => dataOf rest
  | .data rest => dataOf rest
  | _ => []

/-- What a writer has yet to write of an item are short DATA frames. -/
def WriterPc.Cut [Postcard] : WriterPc → Prop
  | .tail rest => Pieces rest
  | .data rest => Pieces rest
  | _ => True

namespace World

variable {w w' : World} {g : ℕ} {t : Writer}

/-- What a writer says in a step, in a session with frames: the echoes that are due come first, an
acknowledgement carries the count of that moment, and control frames are not recorded. -/
structure Said [Postcard] (w w' : World) (wire : List Bytes) : Prop where
  spells : Spells wire
  echoes : pongsOf (heard wire) ++ w'.pongDue = w.pongDue
  acks : ∀ n ∈ acksOf (heard wire), n = UInt64.ofNat w.received
  control : ∀ f ∈ heard wire, f.control = true → w'.replay = w.replay

/-- What the inner loop of a writer does between two awaits, when it pops `b` from the outbox: `b`
is recorded, and then written as far as one frame goes. -/
structure Wrote [Postcard] (w w' : World) (g : ℕ) (t : Writer) (b : Bytes) : Prop where
  only : w' = { w with
    outbox := w'.outbox
    replay := w'.replay
    popped := w'.popped
    writers := w'.writers
    conns := w'.conns
    ackDue := w'.ackDue
    ackedToPeer := w'.ackedToPeer
    pongDue := w'.pongDue
    pingDue := w'.pingDue
    pingCounter := w'.pingCounter
    pingOutstanding := w'.pingOutstanding
    answeredAt := w'.answeredAt }
  /-- A probe is stamped when it is written. -/
  ping : (w'.pingOutstanding = w.pingOutstanding ∧ w'.answeredAt = w.answeredAt) ∨
    w'.answeredAt = none
  outbox : w.outbox.flatten = b ++ w'.outbox.flatten
  popped : w'.popped = w.popped ++ b
  replay : w.proto.framed = true → ∀ s, w.replay.Tracks s → w'.replay.Tracks (s ++ b)
  wire : ∃ fs pc, w'.writers = w.writers.modify g (fun t => { t with pc := pc }) ∧
    w'.conns = w.conns.modify t.conn (fun conn => { conn with wire := conn.wire ++ fs }) ∧
    (w.proto.framed = true → dataOf fs ++ pc.pending = b) ∧
    -- it waits only when there is nothing more to write
    (pc.idle = true → w'.outbox = []) ∧
    (w.proto.framed = true → pc.Cut ∧ Said w w' fs)

variable [Postcard]

omit [Postcard] in
/-- No frame is written. -/
theorem modify_wire_nil (conns : List Conn) (c : ℕ) :
    (conns.modify c fun conn => { conn with wire := conn.wire ++ [] }) = conns := by
  simp only [List.append_nil]
  exact List.modify_id c conns

/-- A frame without session bytes is written. -/
theorem wrote_control (ht : w.writers[g]? = some t) {v : World} (hv : v = { w with
      ackDue := v.ackDue
      ackedToPeer := v.ackedToPeer
      pongDue := v.pongDue
      pingDue := v.pingDue
      pingCounter := v.pingCounter
      pingOutstanding := v.pingOutstanding
      answeredAt := v.answeredAt })
    (hping : (v.pingOutstanding = w.pingOutstanding ∧ v.answeredAt = w.answeredAt) ∨
      v.answeredAt = none)
    {f : Frame} (hf : f.control = true) (hechoes : pongsOf [f] ++ v.pongDue = w.pongDue)
    (hacks : ∀ n, f = .ack n → n = UInt64.ofNat w.received) {pc : WriterPc}
    (hpc : pc.pending = []) (hcut : pc.Cut) (hbusy : pc.idle = false) :
    w.Wrote (v.writeControl g (encode f) pc) g t [] := by
  have heq : v.writeControl g (encode f) pc = (v.write t.conn (encode f)).setWriter g pc := by
    have ht' : v.writers[g]? = some t := by rw [hv]; exact ht
    simp [writeControl, writePieces, ht']
  have hplain : f.Plain := Frame.plain_of_control hf
  have hheard : heard [encode f] = [f] := heard_singleton hplain
  have hsaid : ∀ u : World, u.pongDue = v.pongDue → u.replay = w.replay → Said w u [encode f] := by
    intro u hdue hreplay
    refine ⟨spells_singleton hplain, ?_, fun n hn => ?_, fun _ _ _ => hreplay⟩
    · rw [hheard, hdue, hechoes]
    · rw [hheard, mem_acksOf, List.mem_singleton] at hn
      exact hacks n hn.symm
  rw [heq]
  rw [hv] at hsaid ⊢
  exact ⟨rfl, hping, by simp [setWriter, write, modifyConn], by simp [setWriter, write, modifyConn],
    fun _ s hs => by simpa [setWriter, write, modifyConn] using hs, [encode f], pc, rfl, rfl,
    fun _ => by simp [streamData_control hf, hpc], fun hidle => by simp [hbusy] at hidle,
    fun _ => ⟨hcut, hsaid _ rfl rfl⟩⟩

/-- Nothing of the control frames is said when an item is written. -/
theorem said_pieces {v : World} {wire : List Bytes} (h : Pieces wire) (hdue : v.pongDue = w.pongDue) :
    Said w v wire := by
  obtain ⟨ps, hps⟩ := h.heard
  refine ⟨h.spells, ?_, fun n hn => ?_, fun f hf hcontrol => ?_⟩
  · rw [hps, pongsOf_map_data, hdue, List.nil_append]
  · rw [hps, mem_acksOf] at hn
    simp at hn
  · rw [hps] at hf
    obtain ⟨p, -, rfl⟩ := List.mem_map.1 hf
    cases hcontrol

omit [Postcard] in
/-- The pieces of an item are short. -/
theorem pieces_wireChunks (hframed : w.proto.framed = true) (b : Bytes) : Pieces (w.wireChunks b) := by
  rw [wireChunks, if_pos hframed]
  exact pieces_chunks (by decide) b

/-- The pieces of an item carry the item. -/
theorem dataOf_wireChunks (hframed : w.proto.framed = true) (b : Bytes) :
    dataOf (w.wireChunks b) = b := by
  rw [wireChunks, if_pos hframed]
  exact dataOf_map_encodeData (by decide) (by decide) b

omit [Postcard] in
/-- The first of several pieces is handed to the writer's stream. -/
theorem writePieces_cons (ht : w.writers[g]? = some t) (pc : List Bytes → WriterPc) (p : Bytes)
    (rest : List Bytes) :
    w.writePieces g pc (p :: rest) = (w.write t.conn p).setWriter g (pc rest) := by
  simp [writePieces, ht]

/-- The last part of the inner loop: an item of the outbox is popped, recorded and written. -/
theorem wrote_writerData (ht : w.writers[g]? = some t) :
    ∃ b, w.Wrote (w.writerData g) g t b := by
  unfold writerData
  split
  · rename_i hout
    refine ⟨[], ?_⟩
    split_ifs <;>
      exact ⟨rfl, .inl ⟨rfl, rfl⟩, by simp [setWriter], by simp [setWriter],
        fun _ s hs => by simpa [setWriter] using hs, [], _, rfl,
        (modify_wire_nil w.conns t.conn).symm, fun _ => by simp [WriterPc.pending], fun _ => hout,
        fun _ => ⟨trivial, said_pieces pieces_nil rfl⟩⟩
  · rename_i bytes outbox hout
    refine ⟨bytes, ?_⟩
    dsimp only
    have hreplay : ∀ v : Replay, v = (if w.proto.framed then w.replay.sent bytes else w.replay) →
        w.proto.framed = true → ∀ s, w.replay.Tracks s → v.Tracks (s ++ bytes) := by
      rintro v rfl hframed s hs
      rw [if_pos hframed]
      exact hs.sent bytes
    have hchunks : w.proto.framed = true → dataOf (w.wireChunks bytes) = bytes :=
      fun hframed => w.dataOf_wireChunks hframed bytes
    cases hps : w.wireChunks bytes with
    | nil =>
      exact ⟨rfl, .inl ⟨rfl, rfl⟩, by rw [hout]; rfl, rfl, hreplay _ rfl, [], _, rfl,
        (modify_wire_nil w.conns t.conn).symm, fun hframed => by
          rw [← hchunks hframed, hps]
          rfl, nofun, fun _ => ⟨pieces_nil, said_pieces pieces_nil rfl⟩⟩
    | cons p rest =>
      rw [writePieces_cons (t := t) (by exact ht)]
      exact ⟨rfl, .inl ⟨rfl, rfl⟩, by rw [hout]; rfl, rfl, hreplay _ rfl, [p], _, rfl, rfl,
        fun hframed => by
          rw [← hchunks hframed, hps, dataOf_cons, dataOf_cons, dataOf_nil, List.append_nil]
          rfl, nofun, fun hframed => by
            have hcut := pieces_cons.1 (hps ▸ w.pieces_wireChunks hframed bytes)
            exact ⟨hcut.2, said_pieces hcut.1 rfl⟩⟩

theorem wrote_writerPing (ht : w.writers[g]? = some t) :
    ∃ b, w.Wrote (w.writerPing g) g t b := by
  unfold writerPing
  split_ifs
  · refine ⟨[], ?_⟩
    apply wrote_control ht (f := .ping (UInt64.ofNat (w.pingCounter + 1)))
    · rfl
    · exact .inr rfl
    · rfl
    · rfl
    · exact nofun
    · rfl
    · trivial
    · rfl
  · exact wrote_writerData ht

theorem wrote_writerPong (ht : w.writers[g]? = some t) :
    ∃ b, w.Wrote (w.writerPong g) g t b := by
  unfold writerPong
  split
  · rename_i payload rest hdue
    refine ⟨[], ?_⟩
    apply wrote_control ht (f := .pong payload)
    · rfl
    · exact .inl ⟨rfl, rfl⟩
    · rfl
    · exact hdue.symm
    · exact nofun
    · rfl
    · trivial
    · rfl
  · exact wrote_writerPing ht

/-- The inner loop from its top. -/
theorem wrote_writerAck (ht : w.writers[g]? = some t) :
    ∃ b, w.Wrote (w.writerAck g) g t b := by
  unfold writerAck
  split_ifs
  · refine ⟨[], ?_⟩
    apply wrote_control ht (f := .ack (UInt64.ofNat w.received))
    · rfl
    · exact .inl ⟨rfl, rfl⟩
    · rfl
    · rfl
    · exact fun n hn => (Frame.ack.inj hn).symm
    · rfl
    · trivial
    · rfl
  · exact wrote_writerPong ht

end World

end Client
