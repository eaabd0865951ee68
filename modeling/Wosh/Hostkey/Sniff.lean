import Wosh.Tunnel.Replay

set_option relaxedAutoImplicit false
set_option autoImplicit false

/-!
# The host-key sniffer

The passive observer of `hostkey/src/sniff.rs`: an SSH transport-framing state machine that is fed
copies of the server-to-client bytes of one connection. Identification lines come first, up to and
including the one that starts with `SSH-`, then binary packets, and the first one that carries a
host key ends the scan.

## Main definitions

* `Hostkey.consumeIdent`, `Hostkey.nextPacket`, `Hostkey.hostKeyIn` — the pieces of the framing.
* `Hostkey.Sniffer`, `Hostkey.Sniffer.feed` — the state machine.
* `Hostkey.Parsed`, `Hostkey.CarriesKey` — what a stream looks like, with no sniffer in sight.
* `Hostkey.Sniffer.Follows` — the invariant.

## Main results

* `Hostkey.Sniffer.feed_follows` — the sniffer keeps its place in the stream, however the stream
  is divided into chunks.
* `Hostkey.Sniffer.feed_found` — a key it reports is the one of a packet of the stream, and that
  packet was not complete before the chunk that it reports the key for.

## Design

`PublicKey::from_bytes` of the `ssh-key` crate is not part of the repository: it is the parameter
`parse`. `usize` is 32 bits wide in the listener's component.
-/

namespace Hostkey

open Tunnel (Bytes)

/-- Stop scanning after this much (`MAX_SCAN`). -/
def maxScan : ℕ := 512 * 1024

/-- The largest packet we will believe (`MAX_PACKET`). -/
def maxPacket : ℕ := 256 * 1024

/-- `SSH_MSG_NEWKEYS`: the last cleartext packet (`MSG_NEWKEYS`). -/
def msgNewkeys : UInt8 := 21

/-- The number whose bytes, most significant first, are given (`u32::from_be_bytes`). -/
def beNat (b : Bytes) : ℕ := b.foldl (fun n x => 256 * n + x.toNat) 0

/-! ## Framing -/

/-- What `consumeIdent` found: not a whole line yet, a line of `n` bytes and whether it was the
`SSH-` one, or no identification line. -/
inductive IdentStep
  | need
  | consumed (n : ℕ) (done : Bool)
  | bad
deriving DecidableEq

/-- Consume one identification line if a complete one is buffered (`consume_ident`). -/
def consumeIdent (buf : Bytes) : IdentStep :=
  let horizon := min buf.length 255
  match (buf.take horizon).findIdx? (· = 10) with
  | none => if 255 ≤ buf.length then .bad else .need
  | some lf =>
    if lf = 0 ∨ buf[lf - 1]? ≠ some 13 then .bad
    else .consumed (lf + 1) ([83, 83, 72, 45].isPrefixOf (buf.take (lf - 1)))

/-- What `nextPacket` found: no whole packet yet, one of `total` bytes, or no packet header. -/
inductive PacketStep
  | need
  | packet (total : ℕ) (payload : Bytes)
  | bad
deriving DecidableEq

/-- Split one cleartext binary packet off the front of `buf` (`next_packet`). -/
def nextPacket (buf : Bytes) : PacketStep :=
  if buf.length < 5 then .need
  else
    let packetLength := beNat (buf.take 4)
    let paddingLength := (buf.getD 4 0).toNat
    if paddingLength < 4 ∨ packetLength ≤ paddingLength + 1 ∨ maxPacket < packetLength then .bad
    else
      let total := 4 + packetLength
      if buf.length < total then .need
      else .packet total ((buf.drop 5).take (packetLength - paddingLength - 1))

variable {Key : Type}

/-- The host key that a server message carries right after its message byte (`host_key_in`). -/
def hostKeyIn (parse : Bytes → Option Key) (msg : UInt8) (rest : Bytes) : Option Key :=
  if ¬ (msg = 30 ∨ msg = 31 ∨ msg = 33) then none
  else if rest.length < 4 then none
  else
    let len := beNat (rest.take 4)
    -- `checked_add`
    if 2 ^ 32 ≤ len + 4 then none
    else if rest.length < len + 4 then none
    else parse ((rest.drop 4).take len)

/-! ## The state machine -/

/-- The phase of a scan. -/
inductive State
  | ident
  | packets
  | done
deriving DecidableEq

/-- Watches one connection's server-to-client direction for the host key. -/
structure Sniffer (Key : Type) where
  state : State := .ident
  buf : Bytes := []
  /-- How many bytes it was fed. -/
  seen : ℕ := 0
  key : Option Key := none
deriving DecidableEq

namespace Sniffer

/-- It will never produce anything further. -/
def finished (s : Sniffer Key) : Bool := s.state = .done

/-- Stop for good, releasing the buffer. -/
def giveUp (s : Sniffer Key) : Sniffer Key := { s with state := .done, buf := [] }

/-- One turn of the loop of `drive`, and what the loop returns if it ends here: whether a key was
found. -/
def turn (parse : Bytes → Option Key) (s : Sniffer Key) : Sniffer Key × Option Bool :=
  match s.state with
  | .done => (s, some false)
  | .ident =>
    match consumeIdent s.buf with
    | .need => (s, some false)
    | .bad => (s.giveUp, some false)
    | .consumed n done =>
      let s := { s with buf := s.buf.drop n }
      (if done then { s with state := .packets } else s, none)
  | .packets =>
    match nextPacket s.buf with
    | .need => (s, some false)
    | .bad => (s.giveUp, some false)
    | .packet total payload =>
      let s := { s with buf := s.buf.drop total }
      match payload with
      | [] => (s.giveUp, some false)
      | msg :: rest =>
        if msg = msgNewkeys then (s.giveUp, some false)
        else
          match hostKeyIn parse msg rest with
          | some k => ({ s with key := some k }.giveUp, some true)
          | none => (s, none)

/-- The loop of `drive`, for at most `n` turns. -/
def driveUpTo (parse : Bytes → Option Key) : ℕ → Sniffer Key → Sniffer Key × Bool
  | 0, s => (s, false)
  | n + 1, s =>
    match s.turn parse with
    | (s, some found) => (s, found)
    | (s, none) => driveUpTo parse n s

/-- Consume as much of the buffer as is currently complete: whether a key was found. A turn that
does not end the loop consumes something, so the length bounds their number. -/
def drive (parse : Bytes → Option Key) (s : Sniffer Key) : Sniffer Key × Bool :=
  driveUpTo parse (s.buf.length + 1) s

/-- Feed a copy of the next chunk; the key, if this call is the one that found it. -/
def feed (parse : Bytes → Option Key) (s : Sniffer Key) (chunk : Bytes) :
    Sniffer Key × Option Key :=
  if s.state = .done then (s, none)
  else
    let r := { s with seen := s.seen + chunk.length, buf := s.buf ++ chunk }.drive parse
    let s := if r.2 = false ∧ maxScan < r.1.seen then r.1.giveUp else r.1
    (s, if r.2 then s.key else none)

end Sniffer

/-! ## What is at the front of a buffer -/

section Framing

variable {b c : Bytes} {n lf : ℕ} {done : Bool} {payload : Bytes}

/-- Where the first line feed within the horizon is. -/
theorem findLineFeed_eq_some : (b.take (min b.length 255)).findIdx? (· = 10) = some lf ↔
    lf < 255 ∧ b[lf]? = some 10 ∧ ∀ j < lf, b[j]? ≠ some 10 := by
  rw [List.findIdx?_eq_some_iff_getElem]
  constructor
  · rintro ⟨hlt, hlf, hmin⟩
    rw [List.length_take] at hlt
    refine ⟨by omega, ?_, fun j hj hmem => ?_⟩
    · rw [List.getElem?_eq_getElem (by omega)]
      simpa using hlf
    · obtain ⟨hj', hval⟩ := List.getElem?_eq_some_iff.1 hmem
      exact hmin j hj (by simpa using hval)
  · rintro ⟨hlt, hlf, hmin⟩
    obtain ⟨hb, hval⟩ := List.getElem?_eq_some_iff.1 hlf
    refine ⟨by rw [List.length_take]; omega, by simpa using hval, fun j hj hval' => ?_⟩
    refine hmin j hj ?_
    rw [List.getElem?_eq_getElem (by omega)]
    simpa using hval'

/-- A whole identification line ends with the first line feed. -/
theorem consumeIdent_eq_consumed : consumeIdent b = .consumed n done ↔
    ∃ lf, n = lf + 1 ∧ lf < 255 ∧ b[lf]? = some 10 ∧ (∀ j < lf, b[j]? ≠ some 10) ∧ lf ≠ 0 ∧
      b[lf - 1]? = some 13 ∧ done = [83, 83, 72, 45].isPrefixOf (b.take (lf - 1)) := by
  unfold consumeIdent
  dsimp only
  constructor
  · intro h
    split at h
    · split_ifs at h
    · rename_i lf hlf
      obtain ⟨hlt, hval, hmin⟩ := findLineFeed_eq_some.1 hlf
      split_ifs at h with hbad
      rw [not_or, not_not] at hbad
      cases h
      exact ⟨lf, rfl, hlt, hval, hmin, hbad.1, hbad.2, rfl⟩
  · rintro ⟨lf, rfl, hlt, hval, hmin, hpos, hcr, rfl⟩
    rw [findLineFeed_eq_some.2 ⟨hlt, hval, hmin⟩]
    dsimp only
    rw [if_neg (not_or.2 ⟨hpos, not_not.2 hcr⟩)]

/-- What follows a whole identification line does not matter. -/
theorem consumeIdent_take (h : consumeIdent b = .consumed n done) :
    0 < n ∧ n ≤ b.length ∧ consumeIdent (b.take n) = .consumed n done := by
  obtain ⟨lf, rfl, hlt, hval, hmin, hpos, hcr, hdone⟩ := consumeIdent_eq_consumed.1 h
  have hlen : lf < b.length := (List.getElem?_eq_some_iff.1 hval).1
  have htake : ∀ j ≤ lf, (b.take (lf + 1))[j]? = b[j]? := fun j hj =>
    List.getElem?_take_of_lt (Nat.lt_succ_of_le hj)
  refine ⟨Nat.succ_pos _, hlen, consumeIdent_eq_consumed.2 ⟨lf, rfl, hlt, ?_, ?_, hpos, ?_, ?_⟩⟩
  · rw [htake lf (Nat.le_refl _)]
    exact hval
  · intro j hj
    rw [htake j (Nat.le_of_lt hj)]
    exact hmin j hj
  · rw [htake (lf - 1) (Nat.sub_le _ _)]
    exact hcr
  · rw [List.take_take, Nat.min_eq_left (by omega)]
    exact hdone

/-- A line that later bytes complete ends among them. -/
theorem consumeIdent_need (h : consumeIdent b = .need)
    (h' : consumeIdent (b ++ c) = .consumed n done) : b.length < n := by
  obtain ⟨lf, rfl, hlt, hval, hmin, -, -, -⟩ := consumeIdent_eq_consumed.1 h'
  by_contra hle
  have hb : ∀ j ≤ lf, (b ++ c)[j]? = b[j]? := fun j hj => List.getElem?_append_left (by omega)
  -- otherwise the line feed is one of `b`
  have hfound : (b.take (min b.length 255)).findIdx? (· = 10) = some lf := by
    refine findLineFeed_eq_some.2 ⟨hlt, ?_, fun j hj => ?_⟩
    · rw [← hb lf (Nat.le_refl _)]
      exact hval
    · rw [← hb j (Nat.le_of_lt hj)]
      exact hmin j hj
  unfold consumeIdent at h
  dsimp only at h
  rw [hfound] at h
  dsimp only at h
  split_ifs at h

/-- What a whole packet is. -/
theorem nextPacket_eq_packet : nextPacket b = .packet n payload ↔
    5 ≤ b.length ∧ 4 ≤ (b.getD 4 0).toNat ∧ (b.getD 4 0).toNat + 1 < beNat (b.take 4) ∧
      beNat (b.take 4) ≤ maxPacket ∧ n = 4 + beNat (b.take 4) ∧ n ≤ b.length ∧
      payload = (b.drop 5).take (beNat (b.take 4) - (b.getD 4 0).toNat - 1) := by
  unfold nextPacket
  dsimp only
  constructor
  · intro h
    split_ifs at h with hshort hbad hneed
    cases h
    exact ⟨by omega, by omega, by omega, by omega, rfl, by omega, rfl⟩
  · rintro ⟨hlen, hpad, hlong, hmax, rfl, htotal, rfl⟩
    rw [if_neg (by omega), if_neg (by omega), if_neg (by omega)]

/-- What follows a whole packet does not matter. -/
theorem nextPacket_take (h : nextPacket b = .packet n payload) :
    0 < n ∧ n ≤ b.length ∧ nextPacket (b.take n) = .packet n payload := by
  obtain ⟨hlen, hpad, hlong, hmax, hn, htotal, hpayload⟩ := nextPacket_eq_packet.1 h
  have hfour : (b.take n).take 4 = b.take 4 := by rw [List.take_take, Nat.min_eq_left (by omega)]
  have hbyte : (b.take n).getD 4 0 = b.getD 4 0 := by
    rw [List.getD_eq_getElem?_getD, List.getElem?_take_of_lt (by omega),
      ← List.getD_eq_getElem?_getD]
  have hlength : (b.take n).length = n := by rw [List.length_take, Nat.min_eq_left htotal]
  refine ⟨by omega, htotal, nextPacket_eq_packet.2 ⟨?_, ?_, ?_, ?_, ?_, ?_, ?_⟩⟩
  · omega
  · rw [hbyte]
    exact hpad
  · rw [hbyte, hfour]
    exact hlong
  · rw [hfour]
    exact hmax
  · rw [hfour]
    exact hn
  · exact Nat.le_of_eq hlength.symm
  · rw [hfour, hbyte, hpayload, List.drop_take, List.take_take, Nat.min_eq_left (by omega)]

/-- A packet that later bytes complete ends among them. -/
theorem nextPacket_need (h : nextPacket b = .need) (h' : nextPacket (b ++ c) = .packet n payload) :
    b.length < n := by
  obtain ⟨-, hpad, hlong, hmax, hn, -, -⟩ := nextPacket_eq_packet.1 h'
  by_contra hle
  have hfour : (b ++ c).take 4 = b.take 4 := List.take_append_of_le_length (by omega)
  have hbyte : (b ++ c).getD 4 0 = b.getD 4 0 := by
    rw [List.getD_eq_getElem?_getD, List.getElem?_append_left (by omega),
      ← List.getD_eq_getElem?_getD]
  rw [hfour, hbyte] at hlong
  rw [hbyte] at hpad
  rw [hfour] at hmax hn
  have hpacket := nextPacket_eq_packet.2 ⟨by omega, hpad, hlong, hmax, hn, by omega, rfl⟩
  cases hpacket.symm.trans h

end Framing

/-! ## What a stream looks like -/

/-- `pre` is the beginning of a server's stream up to a boundary: identification lines, and after
the `SSH-` one, packets that neither end the cleartext phase nor carry a host key. -/
inductive Parsed (parse : Bytes → Option Key) : State → Bytes → Prop
  | nil : Parsed parse .ident []
  | line {pre line : Bytes} {done : Bool} (hpre : Parsed parse .ident pre)
      (hline : consumeIdent line = .consumed line.length done) :
      Parsed parse (if done then .packets else .ident) (pre ++ line)
  | packet {pre packet rest : Bytes} {msg : UInt8} (hpre : Parsed parse .packets pre)
      (hpacket : nextPacket packet = .packet packet.length (msg :: rest))
      (hmsg : msg ≠ msgNewkeys) (hnone : hostKeyIn parse msg rest = none) :
      Parsed parse .packets (pre ++ packet)

/-- The bytes are one packet, and it carries the host key `k`. -/
def CarriesKey (parse : Bytes → Option Key) (k : Key) (packet : Bytes) : Prop :=
  ∃ msg rest, nextPacket packet = .packet packet.length (msg :: rest) ∧
    hostKeyIn parse msg rest = some k

/-- The host key of the stream is `k`, in a packet whose last byte is not among the first `n` of
the stream. -/
def PresentsAfter (parse : Bytes → Option Key) (k : Key) (stream : Bytes) (n : ℕ) : Prop :=
  ∃ pre packet rest, stream = pre ++ packet ++ rest ∧ Parsed parse .packets pre ∧
    CarriesKey parse k packet ∧ n < pre.length + packet.length

/-! ## Where the sniffer is in the stream -/

/-- The buffer holds no whole line, or packet, and may become one. -/
def Needs : State → Bytes → Prop
  | .ident, b => consumeIdent b = .need
  | .packets, b => nextPacket b = .need
  | .done, _ => False

/-- A line, or a packet, of `n` bytes is at the front of the buffer. -/
def Holds : State → Bytes → ℕ → Prop
  | .ident, b, n => ∃ done, consumeIdent b = .consumed n done
  | .packets, b, n => ∃ payload, nextPacket b = .packet n payload
  | .done, _, _ => False

/-- What later bytes complete ends among them. -/
theorem Needs.lt {state : State} {b c : Bytes} {n : ℕ} (h : Needs state b)
    (h' : Holds state (b ++ c) n) : b.length < n := by
  cases state with
  | ident =>
    obtain ⟨done, h'⟩ := h'
    exact consumeIdent_need h h'
  | packets =>
    obtain ⟨payload, h'⟩ := h'
    exact nextPacket_need h h'
  | done => exact h.elim

namespace Sniffer

variable {parse : Bytes → Option Key} {s : Sniffer Key} {stream chunk : Bytes} {old : ℕ}

/-- The sniffer has consumed a beginning of the stream, the rest is buffered, and what is at the
front of the buffer ends behind the first `old` bytes of the stream. -/
def Within (parse : Bytes → Option Key) (s : Sniffer Key) (stream : Bytes) (old : ℕ) : Prop :=
  ∃ pre, Parsed parse s.state pre ∧ stream = pre ++ s.buf ∧
    ∀ n, Holds s.state s.buf n → old < pre.length + n

/-- Between two calls, a sniffer that has not finished has consumed a beginning of the stream, the
rest is buffered, and no whole item is. -/
def Follows (parse : Bytes → Option Key) (s : Sniffer Key) (stream : Bytes) : Prop :=
  s.state ≠ .done → ∃ pre, Parsed parse s.state pre ∧ stream = pre ++ s.buf ∧ Needs s.state s.buf

variable (parse) in
/-- A new sniffer is at the beginning. -/
theorem follows_new : Follows parse {} [] := fun _ => ⟨[], .nil, rfl, rfl⟩

/-- One that gave up is nowhere. -/
theorem follows_of_done (h : s.state = .done) : s.Follows parse stream := fun hne => absurd h hne

/-- A chunk arrives. -/
theorem Follows.within (h : s.Follows parse stream) (hs : s.state ≠ .done) (chunk : Bytes) (seen : ℕ) :
    Within parse { s with seen := seen, buf := s.buf ++ chunk } (stream ++ chunk)
      stream.length := by
  obtain ⟨pre, hpre, rfl, hneeds⟩ := h hs
  refine ⟨pre, hpre, List.append_assoc .., fun n hn => ?_⟩
  have hlt := hneeds.lt hn
  rw [List.length_append]
  omega

/-- The cases of one turn of the loop. It ends for want of bytes, or without a key for good, or
with the key of the packet at the front of the buffer; or it goes on, with less in the buffer. -/
theorem turn_cases (h : s.Within parse stream old) :
    (s.turn parse = (s, some false) ∧ s.Follows parse stream) ∨
    (∃ s', s.turn parse = (s', some false) ∧ s'.state = .done) ∨
    (∃ s' k, s.turn parse = (s', some true) ∧ s'.state = .done ∧ s'.key = some k ∧
      PresentsAfter parse k stream old) ∨
    (∃ s', s.turn parse = (s', none) ∧ s'.buf.length < s.buf.length ∧
      s'.Within parse stream old) := by
  obtain ⟨pre, hpre, hstream, hold⟩ := h
  -- what is consumed moves over to `pre`, and whatever comes next ends behind it
  have hnext : ∀ (n : ℕ) (s' : Sniffer Key), Holds s.state s.buf n → n ≤ s.buf.length →
      s'.buf = s.buf.drop n → Parsed parse s'.state (pre ++ s.buf.take n) →
      s'.Within parse stream old := by
    intro n s' hn hle hbuf hparsed
    refine ⟨_, hparsed, ?_, fun m _ => ?_⟩
    · rw [hstream, hbuf, List.append_assoc, List.take_append_drop]
    · have := hold n hn
      rw [List.length_append, List.length_take, Nat.min_eq_left hle]
      omega
  unfold turn
  cases hstate : s.state with
  | done => exact .inr (.inl ⟨s, rfl, hstate⟩)
  | ident =>
    dsimp only
    cases hident : consumeIdent s.buf with
    | need =>
      refine .inl ⟨rfl, fun _ => ⟨pre, hpre, hstream, ?_⟩⟩
      rw [hstate]
      exact hident
    | bad => exact .inr (.inl ⟨_, rfl, rfl⟩)
    | consumed n done =>
      obtain ⟨hpos, hle, htake⟩ := consumeIdent_take hident
      refine .inr (.inr (.inr ⟨_, rfl, ?_, hnext n _ ?_ hle ?_ ?_⟩))
      · split_ifs <;> simp only [List.length_drop] <;> omega
      · rw [hstate]
        exact ⟨done, hident⟩
      · split_ifs <;> rfl
      · have hline : Parsed parse (if done then .packets else .ident) (pre ++ s.buf.take n) := by
          rw [hstate] at hpre
          refine .line hpre ?_
          rw [List.length_take, Nat.min_eq_left hle]
          exact htake
        cases done with
        | true => exact hline
        | false =>
          rw [if_neg Bool.false_ne_true]
          exact hline
  | packets =>
    dsimp only
    rw [hstate] at hpre
    cases hnextPacket : nextPacket s.buf with
    | need =>
      refine .inl ⟨rfl, fun _ => ⟨pre, by rwa [hstate], hstream, ?_⟩⟩
      rw [hstate]
      exact hnextPacket
    | bad => exact .inr (.inl ⟨_, rfl, rfl⟩)
    | packet total payload =>
      obtain ⟨hpos, hle, htake⟩ := nextPacket_take hnextPacket
      have hlength : (s.buf.take total).length = total := by
        rw [List.length_take, Nat.min_eq_left hle]
      have hwhole :
          nextPacket (s.buf.take total) = .packet (s.buf.take total).length payload := by
        rw [hlength]
        exact htake
      have hholds : Holds s.state s.buf total := by
        rw [hstate]
        exact ⟨payload, hnextPacket⟩
      cases payload with
      | nil => exact .inr (.inl ⟨_, rfl, rfl⟩)
      | cons msg rest =>
        dsimp only
        by_cases hmsg : msg = msgNewkeys
        · rw [if_pos hmsg]
          exact .inr (.inl ⟨_, rfl, rfl⟩)
        · rw [if_neg hmsg]
          cases hkey : hostKeyIn parse msg rest with
          | some k =>
            refine .inr (.inr (.inl ⟨_, k, rfl, rfl, rfl, pre, s.buf.take total,
              s.buf.drop total, ?_, hpre, ⟨msg, rest, hwhole, hkey⟩, ?_⟩))
            · rw [hstream, List.append_assoc, List.take_append_drop]
            · rw [hlength]
              exact hold total hholds
          | none =>
            refine .inr (.inr (.inr ⟨_, rfl, ?_, hnext total _ hholds hle rfl ?_⟩))
            · rw [List.length_drop]
              omega
            · exact .packet hpre hwhole hmsg hkey

/-- What the loop comes to, if it is given a turn for each byte of the buffer and one more. -/
theorem driveUpTo_cases {n : ℕ} (h : s.Within parse stream old) (hn : s.buf.length < n) :
    ((s.driveUpTo parse n).2 = false ∧ (s.driveUpTo parse n).1.Follows parse stream) ∨
    ((s.driveUpTo parse n).2 = true ∧ (s.driveUpTo parse n).1.state = .done ∧
      ∃ k, (s.driveUpTo parse n).1.key = some k ∧ PresentsAfter parse k stream old) := by
  induction n generalizing s with
  | zero => omega
  | succ n ih =>
    unfold driveUpTo
    obtain ⟨heq, hfollows⟩ | ⟨s', heq, hdone⟩ | ⟨s', k, heq, hdone, hkey, hpresents⟩ |
      ⟨s', heq, hlt, hwithin⟩ := turn_cases h
    · rw [heq]
      exact .inl ⟨rfl, hfollows⟩
    · rw [heq]
      exact .inl ⟨rfl, follows_of_done hdone⟩
    · rw [heq]
      exact .inr ⟨rfl, hdone, k, hkey, hpresents⟩
    · rw [heq]
      exact ih hwithin (by omega)

/-- **The sniffer keeps its place.** A call leaves it with the rest of the stream buffered, or
finished. -/
theorem feed_follows (h : s.Follows parse stream) (chunk : Bytes) :
    (s.feed parse chunk).1.Follows parse (stream ++ chunk) := by
  unfold feed
  by_cases hs : s.state = .done
  · rw [if_pos hs]
    exact follows_of_done hs
  · rw [if_neg hs]
    dsimp only
    split_ifs
    · exact follows_of_done rfl
    · obtain ⟨-, hfollows⟩ | ⟨-, hdone, -⟩ :=
        driveUpTo_cases (h.within hs chunk (s.seen + chunk.length)) (Nat.lt_succ_self _)
      · exact hfollows
      · exact follows_of_done hdone

/-- **A key that is reported is the stream's.** It is the one in the first packet that carries a
host key, and the packet was not whole before this call.

**Proof sketch.** Before the call no whole item is buffered. So whatever is consumed in it ends
among the new bytes: the first item because it was not whole, and the later ones because they
come after it. -/
theorem feed_found {k : Key} (h : s.Follows parse stream)
    (hfeed : (s.feed parse chunk).2 = some k) :
    PresentsAfter parse k (stream ++ chunk) stream.length := by
  unfold feed at hfeed
  by_cases hs : s.state = .done
  · rw [if_pos hs] at hfeed
    cases hfeed
  · rw [if_neg hs] at hfeed
    dsimp only at hfeed
    obtain ⟨hfound, -⟩ | ⟨hfound, -, k', hkey, hpresents⟩ :=
      driveUpTo_cases (h.within hs chunk (s.seen + chunk.length)) (Nat.lt_succ_self _)
    · rw [drive, hfound] at hfeed
      simp at hfeed
    · rw [drive, hfound] at hfeed
      simp only [Bool.true_eq_false, false_and, if_false, if_true] at hfeed
      cases hkey.symm.trans hfeed
      exact hpresents

end Sniffer

end Hostkey
