import Wosh.Client.Outbound
import Wosh.Client.Streams

set_option relaxedAutoImplicit false
set_option autoImplicit false

/-!
# The client where `usize` is narrow

The component is built for a 32-bit target, where the two casts in `Replay` keep the low bits of a
difference of counters. Nothing else in the session depends on the width. As long as less is queued
than the casts are exact on, they lose nothing, and the session goes through the states of one that
is built for a wide target.

## Main definitions

* `Client.World.withUsize` — the session with other casts.
* `Client.World.Agrees` — the casts agree on what they are applied to.

## Main results

* `Client.World.Agrees.step` — the two make the same step.
* `Client.narrow_run` — and so the same runs, and what a narrow session sends is intact.
-/

namespace Client

open Tunnel

namespace World

/-- The session with other casts. -/
@[simps] def withUsize (u : ℕ → ℕ) (w : World) : World := { w with usize := u }

/-- The casts agree on the differences of the counters of the replay buffer. -/
def Agrees (u : ℕ → ℕ) (w : World) : Prop := ∀ n ≤ w.replay.sentTotal, w.usize n = u n

/-- What a piece of a step leads to, with other casts. -/
def withUsizeNext (u : ℕ → ℕ) (p : World × Next) : World × Next := (p.1.withUsize u, p.2)

variable {u : ℕ → ℕ} {w w' : World}

theorem Agrees.ack (h : w.Agrees u) (n : ℕ) : w.replay.ack w.usize n = w.replay.ack u n := by
  unfold Replay.ack
  split_ifs with hskip
  · rfl
  · have hle : n - w.replay.acked ≤ w.replay.sentTotal := by omega
    rw [h _ hle]

theorem Agrees.tailFrom (h : w.Agrees u) (n : ℕ) :
    w.replay.tailFrom w.usize n = w.replay.tailFrom u n := by
  unfold Replay.tailFrom
  rw [h _ (Nat.sub_le _ _)]

variable (u) (w)

/-! ## The core -/

theorem withUsize_coreRounds (moves : List SshCore.Action) :
    (w.withUsize u).coreRounds moves = (w.coreRounds moves).map (withUsize u) := by
  simp only [coreRounds, Option.map_map]
  rfl

theorem withUsize_coreCall (entry : SshCore.Action) (moves : List SshCore.Action) :
    (w.withUsize u).coreCall entry moves = (w.coreCall entry moves).map (withUsize u) := by
  simp only [coreCall, Option.map_map]
  rfl

theorem withUsize_takeCoreOutput :
    (w.withUsize u).takeCoreOutput = (w.takeCoreOutput.1.withUsize u, w.takeCoreOutput.2) := by
  unfold takeCoreOutput
  simp only [withUsize_core]
  split_ifs <;> rfl

theorem withUsize_finishDrive (o : Owner) :
    (w.withUsize u).finishDrive o = (w.finishDrive o).withUsize u := by
  cases o <;> rfl

theorem withUsize_queueOutput :
    (if (w.withUsize u).takeCoreOutput.2 then (w.withUsize u).takeCoreOutput.1.notify
      else (w.withUsize u).takeCoreOutput.1) =
      (if w.takeCoreOutput.2 then w.takeCoreOutput.1.notify
        else w.takeCoreOutput.1).withUsize u := by
  rw [withUsize_takeCoreOutput]
  dsimp only
  split_ifs <;> rfl

theorem withUsize_driveTurn (o : Owner) :
    (w.withUsize u).driveTurn o = (w.driveTurn o).withUsize u := by
  unfold driveTurn
  rw [withUsize_queueOutput]
  generalize (if w.takeCoreOutput.2 then w.takeCoreOutput.1.notify else w.takeCoreOutput.1) = v
  dsimp only [withUsize_core]
  by_cases hready : v.core.engine.state = .ready
  · simp only [if_pos hready, withUsize_signing, withUsize_core]
    split_ifs
    · rfl
    · exact withUsize_finishDrive u { v with wasReady := true } o
  · simp only [if_neg hready, withUsize_signing, withUsize_core]
    split_ifs
    · rfl
    · exact withUsize_finishDrive u v o

/-! ## Frames -/

variable {u} {w}

theorem Agrees.of_eq (h : w.Agrees u) (husize : w'.usize = w.usize)
    (hsent : w'.replay.sentTotal = w.replay.sentTotal) : w'.Agrees u := fun n hn => by
  rw [husize]
  exact h n (hsent ▸ hn)

theorem Agrees.consumeFrame (h : w.Agrees u) (f : Frame) :
    (w.withUsize u).consumeFrame f = ((w.consumeFrame f).1.withUsize u, (w.consumeFrame f).2) ∧
      (w.consumeFrame f).1.Agrees u := by
  cases f with
  | ack n =>
    refine ⟨?_, h.of_eq rfl (Replay.ack_sentTotal _ _ _)⟩
    unfold World.consumeFrame
    dsimp only [withUsize_replay, withUsize_usize]
    rw [h.ack]
    rfl
  | data payload =>
    unfold World.consumeFrame
    dsimp only
    split_ifs <;> exact ⟨rfl, h.of_eq rfl rfl⟩
  | ping payload =>
    unfold World.consumeFrame
    simp only [withUsize_proto]
    split_ifs
    · exact ⟨rfl, h.of_eq rfl rfl⟩
    · exact ⟨rfl, h.of_eq rfl rfl⟩
  | pong payload =>
    unfold World.consumeFrame
    simp only [withUsize_proto]
    split_ifs
    · exact ⟨rfl, h.of_eq rfl rfl⟩
    · exact ⟨rfl, h.of_eq rfl rfl⟩
  | reply r => exact ⟨rfl, h.of_eq rfl rfl⟩
  | hello hello => exact ⟨rfl, h.of_eq rfl rfl⟩

theorem Agrees.consumeFrames (fs : List Frame) (h : w.Agrees u) :
    (w.withUsize u).consumeFrames fs =
        ((w.consumeFrames fs).1.withUsize u, (w.consumeFrames fs).2) ∧
      (w.consumeFrames fs).1.Agrees u := by
  induction fs generalizing w with
  | nil => exact ⟨rfl, h⟩
  | cons f fs ih =>
    obtain ⟨heq, hagrees⟩ := h.consumeFrame f
    obtain ⟨heqs, hrest⟩ := ih hagrees
    unfold World.consumeFrames
    rw [heq]
    rcases hone : w.consumeFrame f with ⟨v, fed, wake, err⟩
    rw [hone] at hagrees heqs hrest
    cases err with
    | some e => exact ⟨rfl, hagrees⟩
    | none =>
      dsimp only
      rw [heqs]
      exact ⟨rfl, hrest⟩

theorem Agrees.consume [Postcard] (h : w.Agrees u) (dec : Bytes) :
    (w.withUsize u).consume dec = ((w.consume dec).1.withUsize u, (w.consume dec).2) := by
  unfold World.consume
  rw [(h.consumeFrames _).1]
  rcases w.consumeFrames (frames dec).1 with ⟨v, fed, wake, err⟩
  rcases (frames dec).2 with e | rest
  · cases err <;> rfl
  · cases err with
    | some e => rfl
    | none =>
      simp only [withUsize_received, withUsize_ackedToPeer]
      split_ifs <;> rfl

/-! ## Readers -/

/-- A continuation that makes the same steps on both. -/
theorem map_withUsize_map (v : Option World) (k : World → World × Next)
    (hk : ∀ w : World, k (w.withUsize u) = withUsizeNext u (k w)) :
    (v.map (withUsize u)).map k = (v.map k).map (withUsizeNext u) := by
  cases v with
  | none => rfl
  | some w => exact congrArg some (hk w)

theorem Agrees.readerConsume [Postcard] (h : w.Agrees u) (g : ℕ) (seeded : Bool) (dec : Bytes)
    (moves : List SshCore.Action) :
    (w.withUsize u).readerConsume g seeded dec moves =
      (w.readerConsume g seeded dec moves).map (withUsizeNext u) := by
  unfold World.readerConsume
  rw [h.consume]
  rcases w.consume dec with ⟨v, e | ⟨fed, rest⟩⟩
  · dsimp only
    rw [withUsize_coreRounds]
    exact map_withUsize_map _ _ fun _ => rfl
  · dsimp only
    rw [withUsize_coreRounds]
    refine map_withUsize_map _ _ fun v => ?_
    let d := v.decode g (if seeded then [] else rest) (.driving seeded)
    cases fed with
    | true => exact congrArg (·, Next.stop) (withUsize_driveTurn u d (.reader g))
    | false => exact congrArg (·, Next.stop) (withUsize_finishDrive u d (.reader g))

theorem Agrees.pollReader [Postcard] (h : w.Agrees u) (g : ℕ) (moves : List SshCore.Action) :
    (w.withUsize u).pollReader g moves = (w.pollReader g moves).map (withUsizeNext u) := by
  unfold World.pollReader
  rw [withUsize_readers]
  rcases w.readers[g]? with _ | r
  · rfl
  · dsimp only
    split_ifs
    · exact h.readerConsume g true r.dec moves
    · rfl

theorem Agrees.read [Postcard] (h : w.Agrees u) (g n : ℕ) (moves : List SshCore.Action) :
    (w.withUsize u).read g n moves = (w.read g n moves).map (withUsizeNext u) := by
  unfold World.read
  rw [withUsize_readers]
  rcases w.readers[g]? with _ | r
  · rfl
  · have hraw : ((((w.withUsize u).takeInbox r.conn n).feedRaw (w.waiting r.conn n)).coreRounds
          moves).map (fun w : World =>
            ((w.setReader g (.driving false)).driveTurn (.reader g), Next.stop)) =
        ((((w.takeInbox r.conn n).feedRaw (w.waiting r.conn n)).coreRounds moves).map
          fun w : World => ((w.setReader g (.driving false)).driveTurn (.reader g),
            Next.stop)).map (withUsizeNext u) := by
      have hfeed := withUsize_coreRounds u ((w.takeInbox r.conn n).feedRaw (w.waiting r.conn n)) moves
      rw [show ((w.withUsize u).takeInbox r.conn n).feedRaw (w.waiting r.conn n) =
        ((w.takeInbox r.conn n).feedRaw (w.waiting r.conn n)).withUsize u from rfl, hfeed]
      exact map_withUsize_map _ _ fun v => congrArg (·, Next.stop)
        (withUsize_driveTurn u (v.setReader g (.driving false)) (.reader g))
    have hframed : (w.takeInbox r.conn n).Agrees u := h.of_eq rfl rfl
    have hdecoded : ((w.takeInbox r.conn n).decode g (r.dec ++ w.waiting r.conn n)
        .reading).Agrees u := hframed.of_eq rfl rfl
    have hdecode := hdecoded.readerConsume g false (r.dec ++ w.waiting r.conn n) moves
    have hwait : (w.withUsize u).waiting r.conn n = w.waiting r.conn n := rfl
    dsimp only
    rw [hwait]
    by_cases hpc : r.pc ≠ .reading
    · rw [if_pos hpc, if_pos hpc]
      rfl
    · rw [if_neg hpc, if_neg hpc]
      have hstale : ((w.withUsize u).takeInbox r.conn n).stale g = (w.takeInbox r.conn n).stale g :=
        rfl
      have hproto : ((w.withUsize u).takeInbox r.conn n).proto = (w.takeInbox r.conn n).proto := rfl
      rw [hstale, hproto]
      split_ifs
      · rfl
      · rfl
      · exact hraw
      · exact hdecode

theorem withUsize_readEnd (g : ℕ) (err : Option String) :
    (w.withUsize u).readEnd g err = (w.readEnd g err).map (withUsizeNext u) := by
  unfold World.readEnd
  rw [withUsize_readers]
  rcases w.readers[g]? with _ | r
  · rfl
  · have hstale : (w.withUsize u).stale g = w.stale g := rfl
    dsimp only
    rw [hstale]
    split_ifs <;> rfl

theorem withUsize_signed (result : Except String SshCore.Signature) (moves : List SshCore.Action) :
    (w.withUsize u).signed result moves = (w.signed result moves).map (withUsizeNext u) := by
  unfold World.signed
  rw [withUsize_parked]
  rcases w.parked with _ | owner
  · rfl
  · dsimp only
    rw [show ({ w.withUsize u with signing := false, parked := none } : World) =
      ({ w with signing := false, parked := none } : World).withUsize u from rfl, withUsize_coreCall]
    exact map_withUsize_map _ _ fun v => congrArg (·, Next.stop) (withUsize_driveTurn u v owner)

/-! ## Writers and probers -/

theorem withUsize_writePieces (g : ℕ) (pc : List Bytes → WriterPc) (pieces : List Bytes) :
    (w.withUsize u).writePieces g pc pieces = (w.writePieces g pc pieces).withUsize u := by
  cases pieces with
  | nil => rfl
  | cons p rest =>
    unfold writePieces
    dsimp only
    rw [withUsize_writers]
    rcases w.writers[g]? with _ | t <;> rfl

theorem withUsize_writerData (g : ℕ) :
    (w.withUsize u).writerData g = (w.writerData g).withUsize u := by
  unfold writerData
  rw [withUsize_outbox]
  rcases w.outbox with _ | ⟨bytes, outbox⟩
  · dsimp only
    rw [withUsize_detached]
    split_ifs <;> rfl
  · exact withUsize_writePieces (w := { w with
      outbox := outbox
      replay := if w.proto.framed then w.replay.sent bytes else w.replay
      popped := w.popped ++ bytes }) g .data (w.wireChunks bytes)

theorem withUsize_writerPing (g : ℕ) :
    (w.withUsize u).writerPing g = (w.writerPing g).withUsize u := by
  unfold writerPing
  rw [withUsize_proto, withUsize_pingDue, withUsize_pingOutstanding]
  split_ifs
  · exact withUsize_writePieces (w := { w with
      pingDue := false
      pingCounter := w.pingCounter + 1
      pingOutstanding := some w.now
      answeredAt := none }) g _ _
  · exact withUsize_writerData g

theorem withUsize_writerPong (g : ℕ) :
    (w.withUsize u).writerPong g = (w.writerPong g).withUsize u := by
  unfold writerPong
  rw [withUsize_pongDue]
  rcases w.pongDue with _ | ⟨payload, rest⟩
  · exact withUsize_writerPing g
  · exact withUsize_writePieces (w := { w with pongDue := rest }) g _ _

theorem withUsize_writerAck (g : ℕ) :
    (w.withUsize u).writerAck g = (w.writerAck g).withUsize u := by
  unfold writerAck
  rw [withUsize_proto, withUsize_ackDue]
  split_ifs
  · exact withUsize_writePieces (w := { w with ackDue := false, ackedToPeer := w.received }) g _ _
  · exact withUsize_writerPong g

theorem withUsize_takeSignal (g : ℕ) :
    (w.withUsize u).takeSignal g = (w.takeSignal g).withUsize u := by
  unfold takeSignal
  rw [withUsize_writerSignal]
  by_cases hdirty : w.writerSignal.dirty = true
  · rw [if_pos hdirty, if_pos hdirty]
    let v : World := { w with writerSignal := { w.writerSignal with dirty := false } }
    show (if v.stale g then (v.withUsize u).setWriter g .done else (v.withUsize u).writerAck g) =
      (if v.stale g then v.setWriter g .done else v.writerAck g).withUsize u
    split_ifs
    · rfl
    · exact withUsize_writerAck g
  · rw [if_neg hdirty, if_neg hdirty]
    rfl

theorem withUsize_pollWriter (g : ℕ) :
    (w.withUsize u).pollWriter g = (w.pollWriter g).map (withUsizeNext u) := by
  unfold World.pollWriter
  rw [withUsize_writers]
  rcases w.writers[g]? with _ | ⟨c, pc⟩
  · rfl
  · cases pc with
    | spawned tail =>
      dsimp only
      split_ifs
      · rfl
      · exact congrArg (fun v => some (v, Next.stop)) (withUsize_writePieces g _ _)
    | waiting => exact congrArg (fun v => some (v, Next.stop)) (withUsize_takeSignal g)
    | parked => exact congrArg (fun v => some (v, Next.stop)) (withUsize_takeSignal g)
    | _ => rfl

theorem withUsize_interactiveProbe :
    (w.withUsize u).interactiveProbe = w.interactiveProbe.withUsize u := by
  unfold interactiveProbe
  rw [withUsize_proto, withUsize_pingDue, withUsize_pingOutstanding, withUsize_now,
    withUsize_lastInboundMs]
  split_ifs <;> rfl

theorem withUsize_wrote (g : ℕ) (ok : Bool) :
    (w.withUsize u).wrote g ok = (w.wrote g ok).map (withUsizeNext u) := by
  have hafter (t : Writer) {next next' : World} (h : next' = next.withUsize u) :
      (if ok = false then some ((w.withUsize u).setWriter g .done, Next.lost g (lostWrite t.pc))
        else some (next', Next.stop)) =
      (if ok = false then some (w.setWriter g .done, Next.lost g (lostWrite t.pc))
        else some (next, Next.stop)).map (withUsizeNext u) := by
    rw [h]
    split_ifs <;> rfl
  have hunless {next next' : World} (h : next' = next.withUsize u) :
      (if (w.withUsize u).stale g then (w.withUsize u).setWriter g .done else next') =
        (if w.stale g then w.setWriter g .done else next).withUsize u := by
    rw [h, show (w.withUsize u).stale g = w.stale g from rfl]
    split_ifs <;> rfl
  unfold World.wrote
  rw [withUsize_writers]
  rcases w.writers[g]? with _ | ⟨c, pc⟩
  · rfl
  · cases pc with
    | tail rest =>
      cases rest with
      | nil => exact hafter ⟨c, .tail []⟩ rfl
      | cons p rest => exact hafter ⟨c, .tail (p :: rest)⟩ (withUsize_writePieces g _ _)
    | ack => exact hafter ⟨c, .ack⟩ (hunless (withUsize_writerPong g))
    | pong => exact hafter ⟨c, .pong⟩ (hunless (withUsize_writerPong g))
    | ping => exact hafter ⟨c, .ping⟩ (hunless (withUsize_writerData g))
    | data rest =>
      cases rest with
      | nil =>
        refine hafter ⟨c, .data []⟩ (hunless ?_)
        rw [withUsize_interactiveProbe]
        exact withUsize_writerAck g
      | cons p rest => exact hafter ⟨c, .data (p :: rest)⟩ (withUsize_writePieces g _ _)
    | _ => rfl

theorem withUsize_pollKeeper (g : ℕ) :
    (w.withUsize u).pollKeeper g = (w.pollKeeper g).map (withUsizeNext u) := by
  unfold World.pollKeeper
  rw [withUsize_keepers]
  split_ifs <;> rfl

theorem withUsize_tick (g : ℕ) : (w.withUsize u).tick g = (w.tick g).map (withUsizeNext u) := by
  unfold World.tick
  rw [withUsize_keepers, show (w.withUsize u).keeperTick g = w.keeperTick g from rfl]
  rcases w.keepers[g]? with _ | k
  · rfl
  · cases k with
    | sleeping due =>
      dsimp only
      rw [withUsize_now]
      split_ifs
      · rfl
      · cases w.keeperTick g <;> rfl
    | _ => rfl

/-! ## Resumes -/

theorem withUsize_leave (i : ℕ) (loop : Loop) (c : ℕ) :
    (w.withUsize u).leave i loop c = (w.leave i loop c).withUsize u := rfl

theorem withUsize_retry (i : ℕ) (loop : Loop) (c : ℕ) :
    (w.withUsize u).retry i loop c = (w.retry i loop c).withUsize u := by
  unfold retry
  rw [show (w.withUsize u).abandoned loop.generation = w.abandoned loop.generation from rfl]
  split_ifs <;> rfl

theorem withUsize_pollLoop (i : ℕ) :
    (w.withUsize u).pollLoop i = (w.pollLoop i).map (withUsizeNext u) := by
  unfold World.pollLoop
  rw [withUsize_loops]
  rcases w.loops[i]? with _ | loop
  · rfl
  · dsimp only
    split_ifs <;> rfl

theorem withUsize_dialed (i : ℕ) (ok : Bool) :
    (w.withUsize u).dialed i ok = (w.dialed i ok).map (withUsizeNext u) := by
  unfold World.dialed
  rw [withUsize_loops]
  rcases w.loops[i]? with _ | loop
  · rfl
  · let v : World := { w with conns := w.conns ++ [({} : Conn)] }
    have hopened : (if (v.withUsize u).abandoned loop.generation then
        some ((v.withUsize u).leave i loop w.conns.length, Next.stop)
        else some ((v.withUsize u).setLoop i { loop with pc := .opening w.conns.length }, .stop)) =
        (if v.abandoned loop.generation then some (v.leave i loop w.conns.length, Next.stop)
          else some (v.setLoop i { loop with pc := .opening w.conns.length }, .stop)).map
            (withUsizeNext u) := by
      rw [show (v.withUsize u).abandoned loop.generation = v.abandoned loop.generation from rfl]
      split_ifs <;> rfl
    dsimp only
    by_cases hpc : loop.pc ≠ .dialing
    · rw [if_pos hpc, if_pos hpc]
      rfl
    · rw [if_neg hpc, if_neg hpc]
      cases ok with
      | true => exact hopened
      | false =>
        rw [show (w.withUsize u).abandoned loop.generation = w.abandoned loop.generation from rfl]
        simp only [Bool.false_eq_true, if_false]
        split_ifs <;> rfl

theorem withUsize_rebound (i : ℕ) :
    (w.withUsize u).rebound i = (w.rebound i).map (withUsizeNext u) := by
  unfold World.rebound
  rw [withUsize_loops]
  rcases w.loops[i]? with _ | loop
  · rfl
  · dsimp only
    split_ifs <;> rfl

theorem withUsize_slept (i : ℕ) : (w.withUsize u).slept i = (w.slept i).map (withUsizeNext u) := by
  unfold World.slept
  rw [withUsize_loops]
  rcases w.loops[i]? with _ | loop
  · rfl
  · dsimp only
    cases loop.pc with
    | sleeping due =>
      dsimp only
      rw [withUsize_now]
      split_ifs <;> rfl
    | _ => rfl

theorem withUsize_opened [Postcard] (i : ℕ) (ok : Bool) :
    (w.withUsize u).opened i ok = (w.opened i ok).map (withUsizeNext u) := by
  unfold World.opened
  rw [withUsize_loops]
  rcases w.loops[i]? with _ | loop
  · rfl
  · dsimp only
    cases loop.pc with
    | opening c =>
      dsimp only
      rw [show (w.withUsize u).abandoned loop.generation = w.abandoned loop.generation from rfl]
      split_ifs <;> rfl
    | _ => rfl

theorem withUsize_helloed (i : ℕ) (ok : Bool) :
    (w.withUsize u).helloed i ok = (w.helloed i ok).map (withUsizeNext u) := by
  unfold World.helloed
  rw [withUsize_loops]
  rcases w.loops[i]? with _ | loop
  · rfl
  · dsimp only
    cases loop.pc with
    | helloing c =>
      dsimp only
      split_ifs
      · rfl
      · exact congrArg (fun v => some (v, Next.stop)) (withUsize_retry i loop c)
    | _ => rfl

theorem withUsize_loopReadEnd (i : ℕ) :
    (w.withUsize u).loopReadEnd i = (w.loopReadEnd i).map (withUsizeNext u) := by
  unfold World.loopReadEnd
  rw [withUsize_loops]
  rcases w.loops[i]? with _ | loop
  · rfl
  · dsimp only
    cases loop.pc with
    | replying c dec deferred =>
      exact congrArg (fun v => some (v, Next.stop)) (withUsize_retry i loop c)
    | _ => rfl

theorem withUsize_foldl_feedCounted (deferred : List Bytes) :
    deferred.foldl feedCounted (w.withUsize u) = (deferred.foldl feedCounted w).withUsize u := by
  induction deferred generalizing w with
  | nil => rfl
  | cons payload rest ih => exact ih (w := w.feedCounted payload)

theorem withUsize_install (c : ℕ) (dec : Bytes) (deferred : List Bytes) (tail : Bytes)
    (moves : List SshCore.Action) :
    (w.withUsize u).install c dec deferred tail moves =
      (w.install c dec deferred tail moves).map (withUsize u) := by
  unfold World.install
  rw [show (w.withUsize u).adopt c = (w.adopt c).withUsize u from rfl, withUsize_foldl_feedCounted,
    withUsize_coreRounds, Option.map_map, Option.map_map]
  refine congrArg (fun k => Option.map k _) (funext fun v => ?_)
  exact withUsize_driveTurn u (v.spawnTasks c dec tail) .other

theorem Agrees.resumed (h : w.Agrees u) (i : ℕ) (loop : Loop) (c p : ℕ) :
    (w.withUsize u).resumed i loop c p = (w.resumed i loop c p).withUsize u := by
  unfold World.resumed
  rw [h.ack]
  rfl

theorem Agrees.loopRead [Postcard] (h : w.Agrees u) (i n : ℕ) (moves : List SshCore.Action) :
    (w.withUsize u).loopRead i n moves = (w.loopRead i n moves).map (withUsizeNext u) := by
  unfold World.loopRead
  rw [withUsize_loops]
  rcases w.loops[i]? with _ | loop
  · rfl
  · dsimp only
    rcases loop.pc with _ | _ | _ | _ | _ | _ | _ | ⟨c, dec, deferred⟩ | _
    case replying =>
      dsimp only
      have hread : (w.takeInbox c n).Agrees u := h.of_eq rfl rfl
      rw [show (w.withUsize u).waiting c n = w.waiting c n from rfl,
        show (w.withUsize u).takeInbox c n = (w.takeInbox c n).withUsize u from rfl]
      generalize w.takeInbox c n = v at hread
      rcases handshakeFrames (dec ++ w.waiting c n) deferred with
        ⟨dec', deferred'⟩ | e | ⟨r, deferred', dec'⟩
      · rfl
      · exact congrArg (fun v => some (v, Next.stop)) (withUsize_retry i loop c)
      · dsimp only
        rw [show (v.withUsize u).abandoned loop.generation = v.abandoned loop.generation from rfl]
        by_cases hab : v.abandoned loop.generation = true
        · rw [if_pos hab, if_pos hab]
          rfl
        · rw [if_neg hab, if_neg hab]
          cases r with
          | new id => rfl
          | refused reason => rfl
          | resumed p =>
            dsimp only
            rw [withUsize_replay, show (v.withUsize u).usize = u from rfl, ← hread.tailFrom]
            rcases v.replay.tailFrom v.usize p.toNat with _ | tail
            · rfl
            · dsimp only
              rw [hread.resumed, withUsize_install]
              exact map_withUsize_map _ _ fun _ => rfl
    all_goals rfl

/-! ## Exports -/

theorem withUsize_driveCall (entry : SshCore.Action) (moves : List SshCore.Action) :
    (w.withUsize u).driveCall entry moves = (w.driveCall entry moves).map (withUsizeNext u) := by
  unfold World.driveCall
  rw [withUsize_coreCall]
  split_ifs
  · exact map_withUsize_map _ _ fun v => congrArg (·, Next.stop) (withUsize_driveTurn u v .reject)
  · exact map_withUsize_map _ _ fun v => congrArg (·, Next.stop) (withUsize_driveTurn u v .other)
  · rfl

theorem withUsize_tickCore (entry : SshCore.Action) (moves : List SshCore.Action) :
    (w.withUsize u).tickCore entry moves = (w.tickCore entry moves).map (withUsizeNext u) := by
  unfold World.tickCore
  rw [withUsize_coreCall]
  split_ifs
  · refine map_withUsize_map _ _ fun v => ?_
    rw [withUsize_takeCoreOutput]
    rfl
  · rfl

theorem withUsize_suspend : (w.withUsize u).suspend = w.suspend.withUsize u := by
  unfold World.suspend
  rw [withUsize_detached, withUsize_linkDown, withUsize_proto]
  split_ifs <;> rfl

theorem withUsize_wake : (w.withUsize u).wake = w.wake.withUsize u := by
  unfold World.wake
  dsimp only
  simp only [withUsize_detached, withUsize_linkDown, withUsize_stalled, withUsize_resuming,
    withUsize_proto]
  split_ifs <;> rfl

theorem withUsize_detach (moves : List SshCore.Action) :
    (w.withUsize u).detach moves = (w.detach moves).map (withUsizeNext u) := by
  unfold World.detach
  rw [show ({ w.withUsize u with detached := true } : World) =
    ({ w with detached := true } : World).withUsize u from rfl, withUsize_coreCall]
  exact map_withUsize_map _ _ fun v => congrArg (·, Next.stop)
    (withUsize_driveTurn u v (.detach w.conn))

theorem withUsize_arrive [Postcard] (c : ℕ) (b : Bytes) :
    (w.withUsize u).arrive c b = (w.arrive c b).map (withUsize u) := by
  unfold World.arrive
  rw [withUsize_conns]
  rcases w.conns[c]? with _ | conn
  · rfl
  · dsimp only
    by_cases hclosed : conn.closed = true
    · rw [if_pos hclosed, if_pos hclosed]
      rfl
    · rw [if_neg hclosed, if_neg hclosed]
      rfl

/-! ## Steps -/

/-- Every piece of a step is the same piece with other casts. -/
theorem Agrees.piece [Postcard] (h : w.Agrees u) (l : Label) :
    (w.withUsize u).piece l = (w.piece l).map (withUsizeNext u) := by
  obtain ⟨act, moves, dying⟩ := l
  cases act with
  | arrive c b =>
    show ((w.withUsize u).arrive c b).map _ = _
    rw [withUsize_arrive]
    exact map_withUsize_map _ _ fun _ => rfl
  | elapse d => rfl
  | pollReader g => exact h.pollReader g moves
  | read g n => exact h.read g n moves
  | readEnd g err => exact withUsize_readEnd g err
  | signed result => exact withUsize_signed result moves
  | pollWriter g => exact withUsize_pollWriter g
  | wrote g ok => exact withUsize_wrote g ok
  | pollKeeper g => exact withUsize_pollKeeper g
  | tick g => exact withUsize_tick g
  | pollLoop i => exact withUsize_pollLoop i
  | dialed i ok => exact withUsize_dialed i ok
  | rebound i => exact withUsize_rebound i
  | slept i => exact withUsize_slept i
  | opened i ok => exact withUsize_opened i ok
  | helloed i ok => exact withUsize_helloed i ok
  | loopRead i n => exact h.loopRead i n moves
  | loopReadEnd i => exact withUsize_loopReadEnd i
  | drive entry => exact withUsize_driveCall entry moves
  | tickCore entry => exact withUsize_tickCore entry moves
  | drainOutput =>
    show ((w.withUsize u).coreCall .drainOutput moves).map _ = _
    rw [withUsize_coreCall]
    exact map_withUsize_map _ _ fun _ => rfl
  | suspend => exact congrArg (fun v => some (v, Next.stop)) withUsize_suspend
  | wake => exact congrArg (fun v => some (v, Next.stop)) withUsize_wake
  | detach => exact withUsize_detach moves

theorem withUsize_settleTop (i : ℕ) :
    (w.withUsize u).settleTop i = ((w.settleTop i).1.withUsize u, (w.settleTop i).2) := by
  unfold settleTop
  rw [withUsize_loops]
  rcases w.loops[i]? with _ | loop
  · rfl
  · dsimp only
    rw [withUsize_now, show (w.withUsize u).loopNext loop.generation (loop.charged w.now) =
      w.loopNext loop.generation (loop.charged w.now) from rfl]
    cases w.loopNext loop.generation (loop.charged w.now) <;> rfl

theorem withUsize_settle (n : Next) :
    (w.withUsize u).settle n = ((w.settle n).1.withUsize u, (w.settle n).2) := by
  cases n with
  | stop => rfl
  | die reason => rfl
  | top i => exact withUsize_settleTop i
  | lost g reason =>
    unfold settle
    dsimp only
    rw [show (w.withUsize u).linkNext g = w.linkNext g from rfl]
    cases w.linkNext g with
    | resume => exact withUsize_settleTop (w := w.startLoop g) w.loops.length
    | _ => rfl

theorem withUsize_declareDead (reason : String) (moves : List SshCore.Action) :
    (w.withUsize u).declareDead reason moves = (w.declareDead reason moves).map (withUsize u) := by
  unfold declareDead
  rw [withUsize_linkDown]
  split_ifs
  · rfl
  · rw [show (w.withUsize u).markDead = w.markDead.withUsize u from rfl, withUsize_coreCall,
      Option.map_map, Option.map_map]
    exact congrArg (fun k => Option.map k _) (funext fun v => withUsize_driveTurn u v .other)

/-- **A step is the same step with other casts**, as long as they agree on what the replay buffer
applies them to. -/
theorem Agrees.step [Postcard] (h : w.Agrees u) (l : Label) :
    (w.withUsize u).step l = (w.step l).map (withUsize u) := by
  unfold World.step
  rw [h.piece]
  rcases w.piece l with _ | ⟨v, n⟩
  · rfl
  · simp only [Option.map_some, Option.bind_some, withUsizeNext, withUsize_settle]
    rcases v.settle n with ⟨v', _ | reason⟩
    · rfl
    · exact withUsize_declareDead reason l.dying

/-- The casts are those that the session began with. -/
theorem usize_step [Postcard] {l : Label} (hstep : w.step l = some w') : w'.usize = w.usize := by
  have hsame := Agrees.step (u := w.usize) (w := w) (fun _ _ => rfl) l
  rw [hstep, show w.withUsize w.usize = w from rfl, hstep] at hsame
  have heq : w' = w'.withUsize w.usize := Option.some_inj.1 hsame
  calc
    w'.usize = (w'.withUsize w.usize).usize := congrArg World.usize heq
    _ = w.usize := rfl

theorem withUsize_begin (deferred : List Bytes) (moves : List SshCore.Action) :
    (w.withUsize u).begin deferred moves = (w.begin deferred moves).map (withUsize u) := by
  unfold World.begin
  rw [withUsize_foldl_feedCounted, withUsize_coreRounds, Option.map_map, Option.map_map]
  exact congrArg (fun k => Option.map k _) (funext fun v => withUsize_driveTurn u v .other)

theorem withUsize_connect [Postcard] (d : Dial) (moves : List SshCore.Action) :
    connect { d with usize := u } moves = (connect d moves).map (withUsize u) := by
  unfold connect
  dsimp only
  by_cases hframed : d.proto.framed = true
  · rw [if_pos hframed, if_pos hframed]
    rcases handshakeFrames d.arrived [] with ⟨dec, deferred⟩ | e | ⟨r, deferred, dec⟩
    · rfl
    · rfl
    · cases r with
      | new id => exact withUsize_begin (w := World.fresh d id dec _ .seeded) deferred moves
      | _ => rfl
  · rw [if_neg hframed, if_neg hframed]
    exact withUsize_begin (w := World.fresh d _ [] _ .reading) [] moves

/-- What is recorded was queued before, so casts that are exact up to what was queued are exact on
every difference of the counters. -/
theorem Agrees.of_outbound [Postcard] (h : (w.withUsize id).Outbound) {bound : ℕ}
    (hexact : ∀ n < bound, w.usize n = n) (hshort : w.queued.length < bound) :
    w.Agrees id := by
  intro n hn
  have hpopped : w.replay.sentTotal = w.popped.length := h.replay.sentTotal_eq
  have hqueued : w.queued = w.popped ++ w.outbox.flatten := h.queued
  rw [hqueued, List.length_append] at hshort
  exact hexact n (by omega)

/-- A step of a session whose casts are exact on what it queued. -/
theorem Outbound.step_narrow [Postcard] {l : Label} {bound : ℕ} (ho : (w.withUsize id).Outbound)
    (ht : (w.withUsize id).Tasks) (hexact : ∀ n < bound, w.usize n = n)
    (hshort : w.queued.length < bound) (hstep : w.step l = some w') :
    (w.withUsize id).step l = some (w'.withUsize id) ∧ (w'.withUsize id).Tasks ∧
      (w'.withUsize id).Outbound := by
  have hagrees := Agrees.of_outbound ho hexact hshort
  have hstep' : (w.withUsize id).step l = some (w'.withUsize id) := by
    rw [hagrees.step, hstep]
    rfl
  exact ⟨hstep', ht.step hstep', ho.step ht hstep'⟩

/-- Whatever the casts are, a session begins with nothing sent. -/
theorem outbound_connect [Postcard] {d : Dial} {moves : List SshCore.Action}
    (hframed : d.proto.framed = true) (hconn : connect d moves = some w) :
    connect { d with usize := id } moves = some (w.withUsize id) ∧ (w.withUsize id).Tasks ∧
      (w.withUsize id).Outbound := by
  have hwide : connect { d with usize := id } moves = some (w.withUsize id) := by
    rw [withUsize_connect, hconn]
    rfl
  obtain ⟨sid, dec, hello, pc, deferred, hbegin, -⟩ := connect_cases hwide
  exact ⟨hwide, tasks_connect (d := { d with usize := id }) hframed hwide,
    (Outbound.fresh rfl sid dec hello pc).quiet
      (Tasks.fresh (d := { d with usize := id }) hframed sid dec hello pc) (quiet_begin hbegin)⟩

/-- The casts are those of the dial. -/
theorem usize_connect [Postcard] {d : Dial} {moves : List SshCore.Action}
    (hconn : connect d moves = some w) : w.usize = d.usize := by
  have hsame := withUsize_connect (u := d.usize) d moves
  rw [show ({ d with usize := d.usize } : Dial) = d from rfl, hconn] at hsame
  have heq : w = w.withUsize d.usize := Option.some_inj.1 hsame
  calc
    w.usize = (w.withUsize d.usize).usize := congrArg World.usize heq
    _ = d.usize := rfl

end World

open World

/-- **A client with narrow counters.** As long as less is queued than the casts of the replay
buffer are exact on, the session makes the steps of one with exact casts, and what it sends across
resumes is intact. -/
theorem narrow_run [Postcard] {d : Dial} {moves : List SshCore.Action} {w₀ w : World} {bound : ℕ}
    (hframed : d.proto.framed = true) (hexact : ∀ n < bound, d.usize n = n)
    (hconn : World.connect d moves = some w₀) {ls : List Label}
    (hrun : Run.run World.step w₀ ls = some w) (hshort : w.queued.length < bound) :
    World.connect { d with usize := id } moves = some (w₀.withUsize id) ∧
      Run.run World.step (w₀.withUsize id) ls = some (w.withUsize id) ∧ w.OutboundIntact := by
  obtain ⟨hwide, hgood⟩ := outbound_connect hframed hconn
  have hall := Run.run_map (withUsize id)
    (P := fun w => w.usize = d.usize ∧ (w.withUsize id).Tasks ∧ (w.withUsize id).Outbound)
    (B := fun w => w.queued.length < bound)
    (fun s l s' hstep hs' => Nat.lt_of_le_of_lt (queued_step hstep).length_le hs')
    (fun s l s' ⟨hu, ht, ho⟩ hb hstep => by
      obtain ⟨hstep', ht', ho'⟩ := ho.step_narrow ht (hu ▸ hexact) hb hstep
      exact ⟨hstep', (usize_step hstep).trans hu, ht', ho'⟩)
    ⟨usize_connect hconn, hgood⟩ hrun hshort
  have hintact := (outbound_run (d := { d with usize := id }) hframed rfl hwide hall.1).1
  exact ⟨hwide, hall.1, { hintact with }⟩

/-- Casts to 32 bits, and a session that queues three bytes and resumes from one: the run to which
`narrow_run` is applied. -/
theorem narrow_run_wasm32 :
    ∃ w₀ w, @World.connect Postcard.golden sampleDial [] = some w₀ ∧
      @Run.run _ _ (@World.step Postcard.golden) w₀ (producesOutput ++ transportEnds ++ resumes 1 ++
        [⟨.pollWriter 1, [], []⟩]) = some w ∧
      w.usize = wasm32 ∧ @OutboundIntact Postcard.golden w ∧
      w.conns.map Conn.wire = [[encodeData [1, 2, 3]], [encodeData [2, 3]]] :=
  ⟨_, _, rfl, rfl, rfl, (@narrow_run Postcard.golden sampleDial [] _ _ (2 ^ 32) rfl
    (fun _ hn => Nat.mod_eq_of_lt hn) rfl (producesOutput ++ transportEnds ++ resumes 1 ++
      [⟨.pollWriter 1, [], []⟩]) rfl (by decide)).2.2, rfl⟩

end Client
