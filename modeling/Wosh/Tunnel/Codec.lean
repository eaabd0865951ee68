import Wosh.Tunnel.Frame

set_option relaxedAutoImplicit false
set_option autoImplicit false

/-!
# The codec as a whole

The six encoders of `tunnel/src/lib.rs` and its decoder agree: whatever frames are written, and
however the connection divides the bytes, the same frames come out.

## Main definitions

* `Tunnel.encode` — the encoder of a frame.
* `Tunnel.Frame.Fits` — the body of a frame is at most `maxFrame` bytes.
* `Tunnel.Frame.Plain` — a frame that may follow the handshake, and fits.
* `Tunnel.decode` — feeding chunks to a decoder, taking frames after each.
* `Tunnel.Postcard.Exact` — a body that fits is read as it was written.

## Main results

* `Tunnel.nextFrame_encode` — a frame that fits is decoded as it was encoded.
* `Tunnel.codec_exact` — the round trip, the independence of the division into chunks, and the
  rejection of absurd headers.
* `Tunnel.Postcard.golden_exact` — the documented format of the bodies is exact.
-/

namespace Tunnel

/-- The encoding of a frame. -/
def encode [Postcard] : Frame → Bytes
  | .data payload => encodeData payload
  | .ack received => encodeAck received
  | .hello h => encodeHello h
  | .reply r => encodeReply r
  | .ping payload => encodePing payload
  | .pong payload => encodePong payload

/-- The body of a frame is acceptable to the decoder. -/
def Frame.Fits [Postcard] : Frame → Prop
  | .data payload => payload.length ≤ maxFrame
  | .hello h => (Postcard.ofHello h).length ≤ maxFrame
  | .reply r => (Postcard.ofReply r).length ≤ maxFrame
  | .ack _ | .ping _ | .pong _ => True

/-- A frame that may follow the handshake, and is acceptable to the decoder. -/
def Frame.Plain : Frame → Prop
  | .data payload => payload.length ≤ maxFrame
  | .hello _ | .reply _ => False
  | .ack _ | .ping _ | .pong _ => True

/-- Feed chunks to a new decoder, and take frames after each: the frames, and what is left in its
buffer or the error that ended the connection. -/
def decode [Postcard] (chunks : List Bytes) : List Frame × Except String Bytes :=
  Incremental.feed nextFrame [] chunks

/-- Bodies that fit a frame are read as they were written. -/
structure Postcard.Exact [Postcard] : Prop where
  hello : ∀ h : Hello, (Postcard.ofHello h).length ≤ maxFrame →
    Postcard.toHello (Postcard.ofHello h) = .ok h
  reply : ∀ r : HelloReply, (Postcard.ofReply r).length ≤ maxFrame →
    Postcard.toReply (Postcard.ofReply r) = .ok r

/-- The one `u64` of a frame is read as it was written. -/
theorem word_leBytes (name : String) (n : UInt64) : word name (leBytes 8 n.toNat) = .ok n := by
  have hn : n.toNat < 256 ^ 8 := n.toNat_lt
  rw [word, if_pos (length_leBytes _ _), leNat_leBytes hn, UInt64.ofNat_toNat]

section Codec

variable [Postcard]

/-- A frame that may follow the handshake is decoded as it was encoded. -/
theorem nextFrame_plain {f : Frame} (hf : f.Plain) (rest : Bytes) :
    nextFrame (encode f ++ rest) = .ok (some (f, rest)) := by
  have hword : (8 : ℕ) ≤ maxFrame := by decide
  cases f with
  | data payload =>
    rw [encode, encodeData, nextFrame_putFrame hf]
    rfl
  | ack received =>
    rw [encode, encodeAck, nextFrame_putFrame (by rwa [length_leBytes])]
    simp [frameOf, ftAck, ftData, word_leBytes, Except.map]
  | hello h => exact hf.elim
  | reply r => exact hf.elim
  | ping payload =>
    rw [encode, encodePing, nextFrame_putFrame (by rwa [length_leBytes])]
    simp [frameOf, ftAck, ftData, ftPing, word_leBytes, Except.map]
  | pong payload =>
    rw [encode, encodePong, nextFrame_putFrame (by rwa [length_leBytes])]
    simp [frameOf, ftAck, ftData, ftPing, ftPong, word_leBytes, Except.map]

/-- **A frame that fits is decoded as it was encoded.** -/
theorem nextFrame_encode (hexact : Postcard.Exact) {f : Frame} (hf : f.Fits) (rest : Bytes) :
    nextFrame (encode f ++ rest) = .ok (some (f, rest)) := by
  cases f with
  | data payload => exact nextFrame_plain (f := .data payload) hf rest
  | hello h =>
    rw [encode, encodeHello, nextFrame_putFrame hf]
    simp [frameOf, ftAck, ftData, ftPing, ftPong, ftHello, hexact.hello h hf, Except.map,
      Except.mapError]
  | reply r =>
    rw [encode, encodeReply, nextFrame_putFrame hf]
    simp [frameOf, ftAck, ftData, ftPing, ftPong, ftHello, ftReply, hexact.reply r hf, Except.map,
      Except.mapError]
  | ack received => exact nextFrame_plain (f := .ack received) trivial rest
  | ping payload => exact nextFrame_plain (f := .ping payload) trivial rest
  | pong payload => exact nextFrame_plain (f := .pong payload) trivial rest

/-- Frames that are each decoded as they were encoded come first, whatever follows them. -/
theorem frames_flatMap_append {fs : List Frame}
    (hfs : ∀ f ∈ fs, ∀ rest, nextFrame (encode f ++ rest) = .ok (some (f, rest))) (rest : Bytes) :
    frames (fs.flatMap encode ++ rest) = (fs ++ (frames rest).1, (frames rest).2) := by
  induction fs with
  | nil => rfl
  | cons f fs ih =>
    have hf := hfs f List.mem_cons_self (fs.flatMap encode ++ rest)
    rw [List.flatMap_cons, List.append_assoc, frames, Incremental.drain_item nextFrame_framing hf]
    have htail := ih fun g hg => hfs g (List.mem_cons_of_mem _ hg)
    rw [frames] at htail
    rw [htail]
    rfl

/-- The frames that were encoded come first, whatever follows them. -/
theorem frames_encode_append (hexact : Postcard.Exact) {fs : List Frame} (hfs : ∀ f ∈ fs, f.Fits)
    (rest : Bytes) :
    frames (fs.flatMap encode ++ rest) = (fs ++ (frames rest).1, (frames rest).2) :=
  frames_flatMap_append (fun f hf => nextFrame_encode hexact (hfs f hf)) rest

/-- So do frames that may follow the handshake. -/
theorem frames_plain_append {fs : List Frame} (hfs : ∀ f ∈ fs, f.Plain) (rest : Bytes) :
    frames (fs.flatMap encode ++ rest) = (fs ++ (frames rest).1, (frames rest).2) :=
  frames_flatMap_append (fun f hf => nextFrame_plain (hfs f hf)) rest

/-- Decoding chunks is decoding their concatenation. -/
theorem decode_eq_frames (chunks : List Bytes) : decode chunks = frames chunks.flatten := by
  rw [decode, Incremental.feed_eq_drain nextFrame_framing rfl, List.nil_append]
  rfl

/-- A header that declares more than `maxFrame` is rejected, whatever follows it. -/
theorem nextFrame_absurd {header : Bytes} (hlen : header.length = headerLen)
    (hlong : maxFrame < declaredLen header) (rest : Bytes) :
    nextFrame (header ++ rest) =
      .error ("frame of " ++ toString (declaredLen header) ++ " bytes: corrupt stream") :=
  nextFrame_framing.error_append rest (nextFrame_long (Nat.le_of_eq hlen.symm) hlong)

end Codec

/-! ## The documented format of the bodies -/

namespace Postcard

/-- A number comes back off the front. -/
theorem takeVarint_varint {k n : ℕ} (hk : 0 < k) (hn : n < 128 ^ k) (rest : Bytes) :
    takeVarint k (varint k n ++ rest) = some (n, rest) := by
  induction k generalizing n with
  | zero => omega
  | succ k ih =>
    rw [varint]
    by_cases hsmall : n < 128
    · have hbyte : (UInt8.ofNat n).toNat = n := by
        rw [UInt8.toNat_ofNat']
        omega
      rw [if_pos hsmall, List.singleton_append, takeVarint, hbyte, if_pos hsmall]
    · have hbyte : (UInt8.ofNat (n % 128 + 128)).toNat = n % 128 + 128 := by
        rw [UInt8.toNat_ofNat']
        omega
      have hdiv : n / 128 < 128 ^ k := by
        rw [Nat.div_lt_iff_lt_mul (by decide)]
        rwa [Nat.pow_succ] at hn
      have hpos : 0 < k := by
        by_contra hzero
        obtain rfl : k = 0 := by omega
        omega
      rw [if_neg hsmall, List.cons_append, takeVarint, hbyte, if_neg (by omega), ih hpos hdiv,
        Option.map_some, Nat.add_sub_cancel, Nat.mod_add_div]

/-- The bytes of an array, from a position on. -/
theorem toList_loop (bs : ByteArray) (i : ℕ) (r : List UInt8) :
    ByteArray.toList.loop bs i r = r.reverse ++ bs.data.toList.drop i := by
  fun_induction ByteArray.toList.loop bs i r with
  | case1 i r h ih =>
    have hi : i < bs.data.toList.length := h
    have hget : bs.get! i = bs.data.toList[i] := getElem!_pos bs.data i h
    rw [ih, List.reverse_cons, List.append_assoc, List.drop_eq_getElem_cons hi, hget]
    rfl
  | case2 i r h =>
    have hi : bs.data.toList.length ≤ i := Nat.not_lt.1 h
    rw [List.drop_eq_nil_of_le hi, List.append_nil]

/-- A string comes back from its bytes. -/
theorem fromUTF8_toUTF8 (s : String) : String.fromUTF8? ⟨s.toUTF8.toList.toArray⟩ = some s := by
  have hbytes : (⟨s.toUTF8.toList.toArray⟩ : ByteArray) = s.toUTF8 := by
    have hlist : s.toUTF8.toList = s.toUTF8.data.toList := toList_loop s.toUTF8 0 []
    rw [hlist, Array.toArray_toList]
  rw [hbytes]
  exact dif_pos s.isValidUTF8

/-- So does a session id. -/
theorem takeId_val (id : SessionId) (rest : Bytes) : takeId (id.val ++ rest) = some (id, rest) := by
  obtain ⟨b, hb⟩ := id
  have htake : (b ++ rest).take 16 = b := by
    rw [← hb, List.take_left]
  have hdrop : (b ++ rest).drop 16 = rest := by
    rw [← hb, List.drop_left]
  simp [takeId, htake, hdrop, hb]

theorem goldenToHello_ofHello {h : Hello} (hlen : h.pairing.length < 128 ^ 10) :
    goldenToHello (goldenOfHello h) = some h := by
  have hword : ∀ n : UInt64, n.toNat < 128 ^ 10 := fun n =>
    Nat.lt_trans n.toNat_lt (by decide)
  obtain ⟨pairing, resume⟩ := h
  rw [goldenToHello, goldenOfHello, List.append_assoc, takeVarint_varint (by decide) hlen]
  cases resume with
  | none => simp
  | some r =>
    have hreceived := takeVarint_varint (by decide) (hword r.received) []
    rw [List.append_nil] at hreceived
    simp [takeId_val, hreceived]

theorem goldenToReply_ofReply {r : HelloReply} (hlen : (goldenOfReply r).length < 128 ^ 10) :
    goldenToReply (goldenOfReply r) = some r := by
  cases r with
  | new id =>
    have hid := takeId_val id []
    rw [List.append_nil] at hid
    simp [goldenOfReply, goldenToReply, hid]
  | resumed received =>
    have hreceived := takeVarint_varint (k := 10) (by decide)
      (Nat.lt_trans received.toNat_lt (by decide)) []
    rw [List.append_nil] at hreceived
    simp [goldenOfReply, goldenToReply, hreceived]
  | refused reason =>
    have hreason := takeVarint_varint (k := 10) (n := reason.toUTF8.toList.length) (by decide)
      (by simp [goldenOfReply] at hlen ⊢; omega) reason.toUTF8.toList
    have hstring := fromUTF8_toUTF8 reason
    simp only [goldenOfReply, goldenToReply, hreason]
    simp only [Option.bind_eq_bind, Option.bind_some, List.take_length, hstring, Option.map_some]

/-- **The documented format of the bodies is exact.** -/
theorem golden_exact : @Postcard.Exact golden := by
  refine @Postcard.Exact.mk golden (fun h hlen => ?_) (fun r hlen => ?_)
  · have hpairing : h.pairing.length < 128 ^ 10 := by
      have hle : h.pairing.length ≤ (goldenOfHello h).length := by
        simp only [goldenOfHello, List.length_append]
        omega
      exact Nat.lt_of_le_of_lt (Nat.le_trans hle hlen) (by decide)
    show (goldenToHello (goldenOfHello h)).elim _ _ = _
    rw [goldenToHello_ofHello hpairing]
    rfl
  · show (goldenToReply (goldenOfReply r)).elim _ _ = _
    rw [goldenToReply_ofReply (Nat.lt_of_le_of_lt hlen (by decide))]
    rfl

end Postcard

/-- **The codec is exact.** Let the bodies be. Then frames that fit come out of their concatenated
encodings in order, with nothing left over, however these are divided into chunks; any two divisions
of a stream give the same frames and the same end; and a header that declares too much ends the
stream as soon as it is complete, after the frames before it.

**Proof sketch.** Feeding chunks is decoding their concatenation (`decode_eq_frames`), and there the
encoded frames come first (`frames_encode_append`). -/
theorem codec_exact [Postcard] (hexact : Postcard.Exact) :
    (∀ (fs : List Frame) (chunks : List Bytes), (∀ f ∈ fs, f.Fits) →
      chunks.flatten = fs.flatMap encode → decode chunks = (fs, .ok [])) ∧
    (∀ chunks chunks' : List Bytes, chunks.flatten = chunks'.flatten →
      decode chunks = decode chunks') ∧
    ∀ (fs : List Frame) (header rest : Bytes) (chunks : List Bytes), (∀ f ∈ fs, f.Fits) →
      header.length = headerLen → maxFrame < declaredLen header →
      chunks.flatten = fs.flatMap encode ++ header ++ rest →
      decode chunks = (fs, .error ("frame of " ++ toString (declaredLen header) ++
        " bytes: corrupt stream")) := by
  refine ⟨fun fs chunks hfs hchunks => ?_, fun chunks chunks' hsame => ?_,
    fun fs header rest chunks hfs hlen hlong hchunks => ?_⟩
  · have hall := frames_encode_append hexact hfs []
    rw [List.append_nil] at hall
    have hnil : frames ([] : Bytes) = ([], .ok []) := Incremental.drain_none rfl
    rw [decode_eq_frames, hchunks, hall, hnil, List.append_nil]
  · rw [decode_eq_frames, decode_eq_frames, hsame]
  · have herror : frames (header ++ rest) = ([], .error _) :=
      Incremental.drain_error (nextFrame_absurd hlen hlong rest)
    rw [decode_eq_frames, hchunks, List.append_assoc, frames_encode_append hexact hfs, herror,
      List.append_nil]

/-- A hello, some data and an answer, cut in the middle of a header and of a body. -/
theorem codec_exact_golden :
    @decode Postcard.golden [[2, 2, 0], [0, 0, 0, 0, 0, 1, 0, 0, 0], [7, 5, 8, 0, 0, 0, 3],
      [0, 0, 0, 0, 0, 0, 0]] = ([.hello ⟨[], none⟩, .data [7], .pong 3], .ok []) :=
  (@codec_exact Postcard.golden Postcard.golden_exact).1
    [.hello ⟨[], none⟩, .data [7], .pong 3] _
    (by
      intro f hf
      simp only [List.mem_cons, List.not_mem_nil, or_false] at hf
      rcases hf with rfl | rfl | rfl
      · show (Postcard.goldenOfHello ⟨[], none⟩).length ≤ maxFrame
        decide
      · show ([7] : Bytes).length ≤ maxFrame
        decide
      · trivial)
    (by decide)

end Tunnel
