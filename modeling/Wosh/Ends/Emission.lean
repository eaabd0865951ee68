import Wosh.Client.Wire
import Wosh.Listener.Control

set_option relaxedAutoImplicit false
set_option autoImplicit false

/-!
# The DATA frames of both ends

The client cuts what it writes into pieces of 256 KiB, the listener into pieces of 16 KiB, and a decoder
refuses a frame that declares more than 1 MiB. An item, a tail or a read may have any length.

## Main results

* `Ends.emission_lossless` — whatever either end puts into DATA frames, the peer's decoder accepts, and
  gets the same bytes.
-/

namespace Ends

open Tunnel

variable [Postcard]

/-- What the client writes of an item or of a tail. -/
theorem lossless_wireChunks {w : Client.World} (hframed : w.proto.framed = true) (bytes : Bytes) :
    Lossless (w.wireChunks bytes) bytes := by
  rw [Client.World.wireChunks, if_pos hframed]
  exact lossless_chunks (by decide) (by decide) bytes

/-- What the listener queues of a tail, when a task attaches. -/
theorem lossless_attach (w : Listener.World) (k : ℕ) (t : Listener.Task) (tail : Bytes) :
    Lossless (w.attach k t tail).st.outq tail :=
  lossless_chunks (by decide) (by decide) tail

/-- What it queues of a read of sshd: nothing, if these bytes complete a host key that is refused. -/
theorem lossless_readSshd (w : Listener.World) (buf : Bytes) (result : Listener.StreamResult)
    (refused : Bool) : ∃ wire, (w.readSshd buf result refused).st.outq = w.st.outq ++ wire ∧
      (Lossless wire buf ∨ refused = true ∧ wire = []) := by
  unfold Listener.World.readSshd
  by_cases hrefused : buf ≠ [] ∧ refused = true
  · rw [if_pos hrefused]
    exact ⟨[], (List.append_nil _).symm, .inr ⟨hrefused.2, rfl⟩⟩
  · rw [if_neg hrefused]
    refine ⟨(Incremental.chunks Listener.chunk buf).map encodeData, ?_,
      .inl (lossless_chunks (by decide) (by decide) buf)⟩
    have hnil : (Incremental.chunks Listener.chunk ([] : Bytes)).map encodeData = [] := rfl
    have hrec : (if buf = [] then w else w.record buf).st.outq =
        w.st.outq ++ (Incremental.chunks Listener.chunk buf).map encodeData := by
      split_ifs with hbuf
      · rw [hbuf, hnil, List.append_nil]
      · rfl
    cases result <;> exact hrec

/-- **Every DATA frame that either end emits is acceptable, and the split is lossless.** The frames of
any outbox item or tail of the client, of any tail and of any read of the listener carry exactly these
bytes, and a decoder that comes to their beginning accepts them however the stream is divided. And in
every run of a client with frames and of a listener, what was written on a connection is decoded to its
end, however it is divided.

**Proof sketch.** Both piece lengths are positive and at most `maxFrame`, so that the pieces are whole
frames; and a whole frame is decoded as the one it is, whatever comes before and after it. Along a run,
nothing but whole frames is ever written or queued. -/
theorem emission_lossless :
    (∀ w : Client.World, w.proto.framed = true → ∀ bytes, Lossless (w.wireChunks bytes) bytes) ∧
    (∀ (w : Listener.World) (k : ℕ) (t : Listener.Task) (tail : Bytes),
      Lossless (w.attach k t tail).st.outq tail) ∧
    (∀ (w : Listener.World) (buf : Bytes) (result : Listener.StreamResult) (refused : Bool),
      ∃ wire, (w.readSshd buf result refused).st.outq = w.st.outq ++ wire ∧
        (Lossless wire buf ∨ refused = true ∧ wire = [])) ∧
    (∀ (d : Client.Dial) (moves : List SshCore.Action) (w₀ w : Client.World)
      (ls : List Client.Label), d.proto.framed = true →
      Client.World.connect d moves = some w₀ → Run.run Client.World.step w₀ ls = some w →
      ∀ (c : ℕ) (chunks : List Bytes), chunks.flatten = (w.wireOf c).flatten →
        decode chunks = (heard (w.wireOf c), .ok [])) ∧
    ∀ (id : SessionId) (creator : String) (grace : ℕ) (reg : Listener.Registry) (pings : Bool)
      (dec : Bytes) (as : List Listener.Action) (w : Listener.World),
      Run.run Listener.World.step (Listener.World.start id creator grace reg pings dec) as = some w →
      ∀ (k : ℕ) (t : Listener.Task) (chunks : List Bytes), w.tasks[k]? = some t →
        chunks.flatten = t.wire.flatten → decode chunks = (heard t.wire, .ok []) := by
  refine ⟨fun w hframed bytes => lossless_wireChunks hframed bytes, lossless_attach,
    lossless_readSshd, fun d moves w₀ w ls hframed hconn hrun c chunks hchunks => ?_,
    fun id creator grace reg pings dec as w hrun k t chunks ht hchunks => ?_⟩
  · exact (Client.World.spells_run hframed hconn hrun c).decode hchunks
  · obtain ⟨-, hechoes⟩ := Listener.echoes_run hrun
    exact (hechoes.wires k t ht).decode hchunks

/-- A session writes a byte. -/
def writesByte : List Client.Label :=
  [⟨.pollWriter 0, [], []⟩, ⟨.tickCore .pump, [.connWrite [9]], []⟩, ⟨.pollWriter 0, [], []⟩]

omit [Postcard] in
/-- Its peer gets the frame one byte at a time. -/
theorem emission_lossless_bytewise :
    ∃ w₀ w, @Client.World.connect Postcard.golden Client.sampleDial [] = some w₀ ∧
      @Run.run _ _ (@Client.World.step Postcard.golden) w₀ writesByte = some w ∧
      @decode Postcard.golden ((encodeData [9]).map fun b => [b]) =
        (@heard Postcard.golden (w.wireOf 0), .ok []) ∧
      @heard Postcard.golden (w.wireOf 0) = [.data [9]] :=
  ⟨_, _, rfl, rfl, (@ emission_lossless Postcard.golden).2.2.2.1 Client.sampleDial [] _ _ writesByte
    rfl rfl rfl 0 _ (by decide), by decide⟩

end Ends
