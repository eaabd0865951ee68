import Wosh.Sftp.Response

set_option relaxedAutoImplicit false
set_option autoImplicit false

/-!
# The framer

`Framer` of `sftp/src/lib.rs`: packets with a length in front of them, out of chunks that are cut
anywhere.

## Main definitions

* `WoshSftp.Framer`, `WoshSftp.Framer.takePacket` — the framer, and the next packet.
* `WoshSftp.Framer.drained` — the packets that are taken until there is none.

## Main results

* `WoshSftp.Framer.takePacket_poisoned` — a framer that has failed fails for good.
-/

namespace WoshSftp

open Tunnel (Bytes)

/-- The number whose bytes, most significant first, are given. -/
def beNat (bs : Bytes) : ℕ := bs.foldl (fun n b => 256 * n + b.toNat) 0

/-- Reject any packet whose declared length exceeds this many bytes (`MAX_PACKET_LEN`). -/
def maxPacketLen : ℕ := 1024 * 1024

/-- Reassembles packets from transport chunks. -/
structure Framer where
  buf : Bytes := []
  poisoned : Bool := false
deriving DecidableEq

namespace Framer

/-- Append newly received bytes. -/
def feed (f : Framer) (chunk : Bytes) : Framer :=
  if f.poisoned then f else { f with buf := f.buf ++ chunk }

/-- Pull one complete packet off the front of the buffer, if one is fully available. -/
def takePacket (f : Framer) : Except Error (Option Bytes) × Framer :=
  if f.poisoned then (.error (.malformed "framer already poisoned"), f)
  else if f.buf.length < 4 then (.ok none, f)
  else
    let len := beNat (f.buf.take 4)
    if len = 0 then
      (.error (.malformed "zero-length packet (no room for the type byte)"),
        { f with poisoned := true })
    else if maxPacketLen < len then
      (.error (.packetTooLarge (UInt32.ofNat len)), { f with poisoned := true })
    else if f.buf.length < 4 + len then (.ok none, f)
    else (.ok (some ((f.buf.drop 4).take len)), { f with buf := f.buf.drop (4 + len) })

variable {f f' : Framer}

/-- A packet is taken off the buffer. -/
theorem length_takePacket {body : Bytes} (h : f.takePacket = (.ok (some body), f')) :
    f'.buf.length < f.buf.length := by
  unfold takePacket at h
  dsimp only at h
  split_ifs at h <;> cases h
  simp only [List.length_drop]
  omega

/-- A framer that has failed is poisoned. -/
theorem poisoned_takePacket {e : Error} (h : f.takePacket = (.error e, f')) :
    f'.poisoned = true := by
  unfold takePacket at h
  dsimp only at h
  split_ifs at h with hpoisoned <;> cases h
  · exact hpoisoned
  · rfl
  · rfl

/-- A framer that is poisoned fails, and stays as it is. -/
theorem takePacket_poisoned (h : f.poisoned = true) :
    f.takePacket = (.error (.malformed "framer already poisoned"), f) := by
  rw [takePacket, if_pos h]

/-- The packets that are taken until there is none, the error that ends them, and what is left. -/
def drained (f : Framer) : List Bytes × Option Error × Framer :=
  match _h : f.takePacket with
  | (.ok (some body), f') =>
    let r := f'.drained
    (body :: r.1, r.2)
  | (.ok none, f') => ([], none, f')
  | (.error e, f') => ([], some e, f')
termination_by f.buf.length
decreasing_by exact length_takePacket _h

/-- A packet comes before the ones behind it. -/
theorem drained_cons {body : Bytes} (h : f.takePacket = (.ok (some body), f')) :
    f.drained = (body :: f'.drained.1, f'.drained.2) := by
  rw [drained]
  split <;> simp_all

/-- No packet is complete. -/
theorem drained_none (h : f.takePacket = (.ok none, f')) : f.drained = ([], none, f') := by
  rw [drained]
  split <;> simp_all

/-- The framer fails. -/
theorem drained_error {e : Error} (h : f.takePacket = (.error e, f')) :
    f.drained = ([], some e, f') := by
  rw [drained]
  split <;> simp_all

end Framer

end WoshSftp
