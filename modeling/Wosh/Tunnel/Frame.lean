import Wosh.Lib.Incremental
import Wosh.Tunnel.Replay

set_option relaxedAutoImplicit false
set_option autoImplicit false

/-!
# Tunnel frames

The frames of the wosh tunnel, `tunnel/src/lib.rs`: each direction of a framed connection is a
sequence of `[type:u8][len:u32 LE][payload]`.

## Main definitions

* `Tunnel.Frame`, `Tunnel.Hello`, `Tunnel.HelloReply` — what the frames carry.
* `Tunnel.encodeData`, `Tunnel.encodeAck`, … — the encoders.
* `Tunnel.nextFrame` — `Decoder::next_frame`, as a function of the decoder's buffer.
* `Tunnel.streamData` — the concatenated DATA payloads of a byte stream.
* `Tunnel.dataOf` — the same for a queue of encoded frames.
* `Tunnel.Decoded` — what is left of a stream once some frames were decoded.

## Main results

* `Tunnel.nextFrame_framing` — the decoder is a framing, so the division of a stream into reads
  does not matter (`Tunnel.streamData_prefix`).
* `Tunnel.nextFrame_putFrame` — a frame of at most `maxFrame` bytes is decoded as it was encoded.
* `Tunnel.dataOf_map_encodeData` — cutting bytes into DATA frames loses none of them.

## Design

Hello and reply bodies are encoded by the `postcard` crate, which is not part of the repository:
it is the class `Postcard`. `Postcard.golden` is its documented format, as the crate's golden
test pins it.
-/

namespace Tunnel

/-! ## What the frames carry -/

/-- 16 random bytes minted by the listener. -/
abbrev SessionId := { b : Bytes // b.length = 16 }

instance : LawfulBEq SessionId := inferInstance

/-- The resume half of a hello. -/
structure Resume where
  /-- The id `HelloReply.new` handed out at session creation. -/
  sessionId : SessionId
  /-- Cumulative session bytes this client has received. -/
  received : UInt64
deriving DecidableEq

/-- The client's first frame on a fresh connection. -/
structure Hello where
  /-- The pairing proof; empty when the connection string carries none. -/
  pairing : Bytes
  /-- Present when resuming an existing session. -/
  resume : Option Resume
deriving DecidableEq

/-- The listener's answer to a `Hello`. -/
inductive HelloReply
  /-- A fresh session. -/
  | new (sessionId : SessionId)
  /-- Resumed: `received` is the listener's cumulative receive counter. -/
  | resumed (received : UInt64)
  /-- Not happening. -/
  | refused (reason : String)
deriving DecidableEq

/-- A decoded frame. -/
inductive Frame
  | data (payload : Bytes)
  | ack (received : UInt64)
  | hello (h : Hello)
  | reply (r : HelloReply)
  | ping (payload : UInt64)
  | pong (payload : UInt64)
deriving DecidableEq

/-- The `postcard` crate on the two bodies that use it. -/
class Postcard where
  /-- `to_allocvec` of a hello. -/
  ofHello : Hello → Bytes
  /-- `from_bytes` of a hello. -/
  toHello : Bytes → Except String Hello
  /-- `to_allocvec` of a reply. -/
  ofReply : HelloReply → Bytes
  /-- `from_bytes` of a reply. -/
  toReply : Bytes → Except String HelloReply

/-! ## Encoding -/

/-- Frame types on the wire. -/
def ftData : UInt8 := 0
@[inherit_doc ftData] def ftAck : UInt8 := 1
@[inherit_doc ftData] def ftHello : UInt8 := 2
@[inherit_doc ftData] def ftReply : UInt8 := 3
@[inherit_doc ftData] def ftPing : UInt8 := 4
@[inherit_doc ftData] def ftPong : UInt8 := 5

/-- Frame header size: type byte and `u32` length. -/
def headerLen : ℕ := 5

/-- Frames above this are treated as corruption (`MAX_FRAME`). -/
def maxFrame : ℕ := 1024 * 1024

/-- The low `w` bytes of a number, least significant first. -/
def leBytes : ℕ → ℕ → Bytes
  | 0, _ => []
  | w + 1, n => UInt8.ofNat n :: leBytes w (n / 256)

/-- The number whose bytes, least significant first, are given. -/
def leNat : Bytes → ℕ
  | [] => 0
  | b :: bs => b.toNat + 256 * leNat bs

/-- A frame header and its payload. -/
def putFrame (ty : UInt8) (payload : Bytes) : Bytes :=
  ty :: (leBytes 4 payload.length ++ payload)

/-- A DATA frame. -/
def encodeData (payload : Bytes) : Bytes := putFrame ftData payload

/-- An ACK frame. -/
def encodeAck (received : UInt64) : Bytes := putFrame ftAck (leBytes 8 received.toNat)

/-- A PING frame. -/
def encodePing (payload : UInt64) : Bytes := putFrame ftPing (leBytes 8 payload.toNat)

/-- A PONG frame. -/
def encodePong (payload : UInt64) : Bytes := putFrame ftPong (leBytes 8 payload.toNat)

/-- A HELLO frame. -/
def encodeHello [Postcard] (h : Hello) : Bytes := putFrame ftHello (Postcard.ofHello h)

/-- A REPLY frame. -/
def encodeReply [Postcard] (r : HelloReply) : Bytes := putFrame ftReply (Postcard.ofReply r)

/-! ## Decoding -/

/-- The one `u64` that ACK, PING and PONG carry. -/
def word (name : String) (payload : Bytes) : Except String UInt64 :=
  if payload.length = 8 then .ok (UInt64.ofNat (leNat payload))
  else .error (name ++ " payload not 8 bytes")

/-- The frame of a type byte and a payload. -/
def frameOf [Postcard] (ty : UInt8) (payload : Bytes) : Except String Frame :=
  if ty = ftData then .ok (.data payload)
  else if ty = ftAck then (word "ACK" payload).map .ack
  else if ty = ftPing then (word "PING" payload).map .ping
  else if ty = ftPong then (word "PONG" payload).map .pong
  else if ty = ftHello then
    ((Postcard.toHello payload).map .hello).mapError ("hello: " ++ ·)
  else if ty = ftReply then
    ((Postcard.toReply payload).map .reply).mapError ("reply: " ++ ·)
  else .error ("unknown frame type " ++ toString ty.toNat)

/-- The payload length that a header at the front of the buffer declares. -/
def declaredLen (buf : Bytes) : ℕ := leNat ((buf.drop 1).take 4)

/-- Take the next complete frame off the decoder's buffer, if one is buffered. An error ends the
connection, so what it leaves in the buffer is not modelled. -/
def nextFrame [Postcard] (buf : Bytes) : Except String (Option (Frame × Bytes)) :=
  if buf.length < headerLen then .ok none
  else
    let len := declaredLen buf
    if maxFrame < len then .error ("frame of " ++ toString len ++ " bytes: corrupt stream")
    else if buf.length < headerLen + len then .ok none
    else
      match frameOf (buf.headD 0) ((buf.drop headerLen).take len) with
      | .error e => .error e
      | .ok f => .ok (some (f, buf.drop (headerLen + len)))

/-- The bytes a frame contributes to the session's byte stream. -/
def Frame.payload : Frame → Bytes
  | .data p => p
  | _ => []

/-- The complete frames of a buffer, and what is left of it. -/
def frames [Postcard] (buf : Bytes) : List Frame × Except String Bytes :=
  Incremental.drain nextFrame buf

/-- The concatenated DATA payloads of a byte stream. -/
def streamData [Postcard] (stream : Bytes) : Bytes := (frames stream).1.flatMap Frame.payload

/-- The frames `fs` were decoded off `stream`, and `rest` is left of it. -/
def Decoded [Postcard] (stream : Bytes) (fs : List Frame) (rest : Bytes) : Prop :=
  Incremental.Left nextFrame stream fs rest

/-- The concatenated DATA payloads of a queue of encoded frames. -/
def dataOf [Postcard] (queue : List Bytes) : Bytes := queue.flatMap streamData

/-! ## Little-endian numbers -/

@[simp] theorem length_leBytes (w n : ℕ) : (leBytes w n).length = w := by
  induction w generalizing n with
  | zero => rfl
  | succ w ih => simp [leBytes, ih]

/-- A number that fits is read back from its bytes. -/
theorem leNat_leBytes {w n : ℕ} (h : n < 256 ^ w) : leNat (leBytes w n) = n := by
  induction w generalizing n with
  | zero => simp at h; simp [leBytes, leNat, h]
  | succ w ih =>
    have hdiv : n / 256 < 256 ^ w := by
      rw [Nat.div_lt_iff_lt_mul (by omega)]
      rwa [Nat.pow_succ] at h
    simp only [leBytes, leNat, ih hdiv, UInt8.toNat_ofNat']
    omega

/-! ## The decoder is a framing -/

/-- What follows a complete header changes neither the type nor the declared length. -/
private theorem header_append {b : Bytes} (h : headerLen ≤ b.length) (c : Bytes) :
    (b ++ c).headD 0 = b.headD 0 ∧ declaredLen (b ++ c) = declaredLen b := by
  have hlen : 4 ≤ (b.drop 1).length := by
    rw [List.length_drop]
    exact Nat.le_sub_of_add_le h
  refine ⟨?_, ?_⟩
  · cases b with
    | nil => simp [headerLen] at h
    | cons x b => rfl
  · rw [declaredLen, declaredLen,
      List.drop_append_of_le_length (by simp only [headerLen] at h; omega),
      List.take_append_of_le_length hlen]

section Decoder

variable [Postcard]

/-- The three answers of the decoder: no complete frame, an absurd length, or a frame whose body
decides. -/
theorem nextFrame_cases (b : Bytes) :
    nextFrame b = .ok none ∨
    (headerLen ≤ b.length ∧ maxFrame < declaredLen b) ∨
    (declaredLen b ≤ maxFrame ∧ headerLen + declaredLen b ≤ b.length) := by
  unfold nextFrame
  simp only
  split_ifs with hhead hlong hshort
  · exact .inl rfl
  · exact .inr (.inl ⟨Nat.not_lt.1 hhead, hlong⟩)
  · exact .inl rfl
  · exact .inr (.inr ⟨Nat.not_lt.1 hlong, Nat.not_lt.1 hshort⟩)

/-- A header that declares too much is corrupt. -/
theorem nextFrame_long {b : Bytes} (h : headerLen ≤ b.length) (hlong : maxFrame < declaredLen b) :
    nextFrame b =
      .error ("frame of " ++ toString (declaredLen b) ++ " bytes: corrupt stream") := by
  rw [nextFrame, if_neg (Nat.not_lt.2 h)]
  simp only
  rw [if_pos hlong]

/-- A complete frame is taken off the front, unless its body is rejected. -/
theorem nextFrame_whole {b : Bytes} (hmax : declaredLen b ≤ maxFrame)
    (hle : headerLen + declaredLen b ≤ b.length) :
    nextFrame b =
      match frameOf (b.headD 0) ((b.drop headerLen).take (declaredLen b)) with
      | .error e => .error e
      | .ok f => .ok (some (f, b.drop (headerLen + declaredLen b))) := by
  rw [nextFrame, if_neg (by omega)]
  simp only
  rw [if_neg (Nat.not_lt.2 hmax), if_neg (Nat.not_lt.2 hle)]

/-- What follows a complete frame is left in the buffer. -/
theorem nextFrame_append {b : Bytes} (hmax : declaredLen b ≤ maxFrame)
    (hle : headerLen + declaredLen b ≤ b.length) (c : Bytes) :
    nextFrame (b ++ c) =
      match frameOf (b.headD 0) ((b.drop headerLen).take (declaredLen b)) with
      | .error e => .error e
      | .ok f => .ok (some (f, b.drop (headerLen + declaredLen b) ++ c)) := by
  obtain ⟨hty, hlen⟩ := header_append (by omega : headerLen ≤ b.length) c
  have hbody : declaredLen b ≤ (b.drop headerLen).length := by
    rw [List.length_drop]
    omega
  rw [nextFrame_whole (by rwa [hlen]) (by rw [hlen, List.length_append]; omega), hty, hlen,
    List.drop_append_of_le_length (by omega), List.take_append_of_le_length hbody,
    List.drop_append_of_le_length hle]

/-- **The decoder is a framing**: it reads the length of a frame off its first five bytes, and a
frame off exactly as many bytes as that says.

**Proof sketch.** By the answer of the decoder. A complete frame is judged by its own bytes
(`nextFrame_append`), and an absurd length by the header alone. -/
theorem nextFrame_framing : Incremental.Framing (nextFrame : Bytes → _) where
  shorter := by
    intro b f r h
    rcases nextFrame_cases b with hnone | ⟨hhead, hlong⟩ | ⟨hmax, hle⟩
    · simp [hnone] at h
    · simp [nextFrame_long hhead hlong] at h
    · rw [nextFrame_whole hmax hle] at h
      split at h
      · simp at h
      · simp only [Except.ok.injEq, Option.some.injEq, Prod.mk.injEq] at h
        rw [← h.2, List.length_drop]
        simp only [headerLen] at hle ⊢
        omega
  item_append := by
    intro b f r c h
    rcases nextFrame_cases b with hnone | ⟨hhead, hlong⟩ | ⟨hmax, hle⟩
    · simp [hnone] at h
    · simp [nextFrame_long hhead hlong] at h
    · rw [nextFrame_whole hmax hle] at h
      rw [nextFrame_append hmax hle]
      split at h
      · simp at h
      · simp only [Except.ok.injEq, Option.some.injEq, Prod.mk.injEq] at h
        rw [h.1, h.2]
  error_append := by
    intro b e c h
    rcases nextFrame_cases b with hnone | ⟨hhead, hlong⟩ | ⟨hmax, hle⟩
    · simp [hnone] at h
    · have hlen := (header_append hhead c).2
      rw [nextFrame_long hhead hlong] at h
      rw [nextFrame_long (by rw [List.length_append]; omega) (by rwa [hlen]), hlen, h]
    · rw [nextFrame_whole hmax hle] at h
      rw [nextFrame_append hmax hle]
      split at h
      · simp only [Except.error.injEq] at h
        rw [h]
      · simp at h

/-- A frame that was encoded is taken off the front of the buffer, unless its payload is too
long or its body is rejected. -/
theorem nextFrame_putFrame {ty : UInt8} {payload : Bytes} (h : payload.length ≤ maxFrame)
    (rest : Bytes) :
    nextFrame (putFrame ty payload ++ rest) =
      match frameOf ty payload with
      | .error e => .error e
      | .ok f => .ok (some (f, rest)) := by
  have hlen : declaredLen (putFrame ty payload) = payload.length := by
    have hdrop : ((putFrame ty payload).drop 1).take 4 = leBytes 4 payload.length := by
      simp [putFrame]
    rw [declaredLen, hdrop, leNat_leBytes (Nat.lt_of_le_of_lt h (by decide))]
  have hbody : (putFrame ty payload).drop headerLen = payload := by
    simp [putFrame, headerLen]
  have htotal : (putFrame ty payload).length = headerLen + payload.length := by
    simp [putFrame, headerLen]
    omega
  have hall : (putFrame ty payload).drop (headerLen + payload.length) = [] :=
    List.drop_eq_nil_of_le (Nat.le_of_eq htotal)
  have hty : (putFrame ty payload).headD 0 = ty := rfl
  rw [nextFrame_append (by rwa [hlen]) (Nat.le_of_eq (by rw [hlen, htotal])), hlen, hbody, hty, hall,
    List.take_length]
  rfl

/-! ## The byte stream in the frames -/

/-- What arrives later adds to the byte stream, and changes nothing of it. -/
theorem streamData_prefix (b c : Bytes) : streamData b <+: streamData (b ++ c) := by
  obtain ⟨fs, hfs⟩ := Incremental.drain_fst_prefix nextFrame_framing b c
  refine ⟨fs.flatMap Frame.payload, ?_⟩
  rw [streamData, streamData, frames, frames, ← hfs, List.flatMap_append]

/-- Decoding what was left of a buffer together with a new chunk continues its byte stream. -/
theorem streamData_append_rest {b r : Bytes} (hb : (frames b).2 = .ok r) (c : Bytes) :
    streamData (b ++ c) = streamData b ++ streamData (r ++ c) := by
  have h := Incremental.drain_append nextFrame_framing b c
  rw [streamData, streamData, streamData, frames, frames, frames, h]
  rw [frames] at hb
  rw [hb, List.flatMap_append]

/-- What was left of a buffer holds no further frame. -/
theorem frames_rest {b r : Bytes} (hb : (frames b).2 = .ok r) (c : Bytes) :
    (frames (b ++ c)).2 = (frames (r ++ c)).2 := by
  have h := Incremental.drain_append nextFrame_framing b c
  rw [frames] at hb ⊢
  rw [hb] at h
  rw [h]
  rfl

/-- The byte stream is that of the frames that were decoded, and then that of the rest. -/
theorem Decoded.streamData {b r : Bytes} {fs : List Frame} (h : Decoded b fs r) :
    streamData b = fs.flatMap Frame.payload ++ streamData r := by
  rw [Tunnel.streamData, frames, h.items, List.flatMap_append]
  rfl

/-- A whole frame is the only one in its encoding. -/
theorem frames_putFrame {ty : UInt8} {payload : Bytes} {f : Frame}
    (h : payload.length ≤ maxFrame) (hf : frameOf ty payload = .ok f) :
    frames (putFrame ty payload) = ([f], .ok []) := by
  have hnext : nextFrame (putFrame ty payload) = .ok (some (f, [])) := by
    have hput : nextFrame (putFrame ty payload ++ []) = _ := nextFrame_putFrame h []
    rwa [List.append_nil, hf] at hput
  have hnil : Incremental.drain (nextFrame : Bytes → _) [] = ([], .ok []) :=
    Incremental.drain_none rfl
  rw [frames, Incremental.drain_item nextFrame_framing hnext, hnil]

/-- A DATA frame of an acceptable length carries its payload. -/
theorem streamData_encodeData {p : Bytes} (h : p.length ≤ maxFrame) :
    streamData (encodeData p) = p := by
  rw [streamData, encodeData, frames_putFrame h rfl]
  simp [Frame.payload]

/-- A frame around a single `u64` carries no session bytes. -/
private theorem streamData_word {ty : UInt8} {n : UInt64} {f : Frame}
    (hf : frameOf ty (leBytes 8 n.toNat) = .ok f) (hp : f.payload = []) :
    streamData (putFrame ty (leBytes 8 n.toNat)) = [] := by
  rw [streamData, frames_putFrame (by simp [maxFrame]) hf]
  simp [hp]

/-- An ACK carries no session bytes. -/
theorem streamData_encodeAck (n : UInt64) : streamData (encodeAck n) = [] :=
  streamData_word (f := .ack (UInt64.ofNat (leNat (leBytes 8 n.toNat))))
    (by simp [frameOf, word, ftAck, ftData, Except.map]) rfl

/-- A PONG carries no session bytes. -/
theorem streamData_encodePong (n : UInt64) : streamData (encodePong n) = [] :=
  streamData_word (f := .pong (UInt64.ofNat (leNat (leBytes 8 n.toNat))))
    (by simp [frameOf, word, ftAck, ftData, ftPing, ftPong, Except.map]) rfl

/-- A PING carries no session bytes. -/
theorem streamData_encodePing (n : UInt64) : streamData (encodePing n) = [] :=
  streamData_word (f := .ping (UInt64.ofNat (leNat (leBytes 8 n.toNat))))
    (by simp [frameOf, word, ftAck, ftData, ftPing, Except.map]) rfl

@[simp] theorem dataOf_nil : dataOf [] = [] := rfl

/-- The byte stream of two queues, one after the other. -/
@[simp] theorem dataOf_append (q q' : List Bytes) : dataOf (q ++ q') = dataOf q ++ dataOf q' :=
  List.flatMap_append

/-- The byte stream of a queue with one frame in front. -/
@[simp] theorem dataOf_cons (b : Bytes) (q : List Bytes) :
    dataOf (b :: q) = streamData b ++ dataOf q :=
  List.flatMap_cons

/-- **Cutting into DATA frames is lossless**, as long as no piece exceeds `maxFrame`. -/
theorem dataOf_map_encodeData {n : ℕ} (hn : 0 < n) (hmax : n ≤ maxFrame) (p : Bytes) :
    dataOf ((Incremental.chunks n p).map encodeData) = p := by
  have hlen : ∀ c ∈ Incremental.chunks n p, c.length ≤ maxFrame := fun c hc =>
    Nat.le_trans (Incremental.length_le_of_mem_chunks hc) hmax
  have haux : ∀ cs : List Bytes, (∀ c ∈ cs, c.length ≤ maxFrame) →
      dataOf (cs.map encodeData) = cs.flatten := by
    intro cs
    induction cs with
    | nil => intro _; rfl
    | cons c cs ih =>
      intro h
      rw [List.map_cons, dataOf_cons, streamData_encodeData (h c List.mem_cons_self),
        ih fun c' hc' => h c' (List.mem_cons_of_mem _ hc'), List.flatten_cons]
  rw [haux _ hlen, Incremental.flatten_chunks hn]

end Decoder

/-! ## The documented format of the bodies -/

namespace Postcard

/-- An unsigned number in groups of seven bits, least significant first. -/
def varint : ℕ → ℕ → Bytes
  | 0, _ => []
  | k + 1, n =>
    if n < 128 then [UInt8.ofNat n] else UInt8.ofNat (n % 128 + 128) :: varint k (n / 128)

/-- Take such a number off the front. -/
def takeVarint : ℕ → Bytes → Option (ℕ × Bytes)
  | 0, _ => none
  | _ + 1, [] => none
  | k + 1, b :: bs =>
    if b.toNat < 128 then some (b.toNat, bs)
    else (takeVarint k bs).map fun p => (b.toNat - 128 + 128 * p.1, p.2)

/-- Take a session id, which is encoded raw. -/
def takeId (b : Bytes) : Option (SessionId × Bytes) :=
  if h : (b.take 16).length = 16 then some (⟨b.take 16, h⟩, b.drop 16) else none

/-- The body of a hello: the length-prefixed proof, the option tag, the id and the count. -/
def goldenOfHello (h : Hello) : Bytes :=
  varint 10 h.pairing.length ++ h.pairing ++
    match h.resume with
    | none => [0]
    | some r => 1 :: (r.sessionId.val ++ varint 10 r.received.toNat)

/-- Reading the body of a hello. -/
def goldenToHello (b : Bytes) : Option Hello := do
  let (n, b) ← takeVarint 10 b
  let (pairing, b) := (b.take n, b.drop n)
  match b with
  | 0 :: _ => some ⟨pairing, none⟩
  | 1 :: b =>
    let (id, b) ← takeId b
    let (received, _) ← takeVarint 10 b
    some ⟨pairing, some ⟨id, UInt64.ofNat received⟩⟩
  | _ => none

/-- The body of a reply: the variant's index and its field. -/
def goldenOfReply : HelloReply → Bytes
  | .new id => 0 :: id.val
  | .resumed received => 1 :: varint 10 received.toNat
  | .refused reason => 2 :: (varint 10 reason.toUTF8.toList.length ++ reason.toUTF8.toList)

/-- Reading the body of a reply. -/
def goldenToReply (b : Bytes) : Option HelloReply :=
  match b with
  | 0 :: b => (takeId b).map fun p => .new p.1
  | 1 :: b => (takeVarint 10 b).map fun p => .resumed (UInt64.ofNat p.1)
  | 2 :: b => do
    let (n, b) ← takeVarint 10 b
    (String.fromUTF8? ⟨(b.take n).toArray⟩).map .refused
  | _ => none

/-- The crate's format on the two bodies. -/
@[reducible] def golden : Postcard where
  ofHello := goldenOfHello
  toHello b := (goldenToHello b).elim (.error "unexpected end") .ok
  ofReply := goldenOfReply
  toReply b := (goldenToReply b).elim (.error "unexpected end") .ok

/-- The golden bytes of a hello. -/
example :
    @encodeHello golden ⟨[9, 9], some ⟨⟨List.replicate 16 1, rfl⟩, 5⟩⟩ =
      [2, 21, 0, 0, 0, 2, 9, 9, 1, 1, 1, 1, 1, 1, 1, 1, 1, 1, 1, 1, 1, 1, 1, 1, 1, 5] := by
  decide

end Postcard

end Tunnel
