import Wosh.Tunnel.Codec

set_option relaxedAutoImplicit false
set_option autoImplicit false

/-!
# What is written on a stream

After its handshake an end writes one encoded frame after the other. A list of such writes is a
wire; what the peer hears on it are the frames, and among them are the control frames of the tunnel:
acknowledgements, pings and their echoes.

## Main definitions

* `Tunnel.acksOf`, `Tunnel.pingsOf`, `Tunnel.pongsOf` — the control payloads among some frames.
* `Tunnel.Frame.control`, `Tunnel.Frame.liveness` — frames without session bytes, and the pings and
  pongs among them.
* `Tunnel.heard` — the frames of a wire.
* `Tunnel.Spells` — a wire is the encoding of frames that may follow the handshake.
* `Tunnel.Pieces` — it is one of short DATA frames.
* `Tunnel.Lossless` — a wire that carries exactly some bytes, in DATA frames that any decoder
  accepts.

## Main results

* `Tunnel.heard_spells` — what is heard on such a wire are the frames.
* `Tunnel.lossless_chunks` — cutting bytes into short DATA frames is lossless.
-/

namespace Tunnel

/-! ## Control frames -/

/-- The payload of an acknowledgement. -/
def Frame.ack? : Frame → Option UInt64
  | .ack n => some n
  | _ => none

/-- The payload of a ping. -/
def Frame.ping? : Frame → Option UInt64
  | .ping p => some p
  | _ => none

/-- The payload of a pong. -/
def Frame.pong? : Frame → Option UInt64
  | .pong p => some p
  | _ => none

/-- The counts of the acknowledgements, in order. -/
def acksOf (fs : List Frame) : List UInt64 := fs.filterMap Frame.ack?

/-- The payloads of the pings, in order. -/
def pingsOf (fs : List Frame) : List UInt64 := fs.filterMap Frame.ping?

/-- The payloads of the pongs, in order. -/
def pongsOf (fs : List Frame) : List UInt64 := fs.filterMap Frame.pong?

/-- An acknowledgement, a ping or a pong. -/
def Frame.control : Frame → Bool
  | .ack _ => true
  | .ping _ => true
  | .pong _ => true
  | _ => false

/-- A ping or a pong. -/
def Frame.liveness : Frame → Bool
  | .ping _ => true
  | .pong _ => true
  | _ => false

@[simp] theorem pingsOf_nil : pingsOf [] = [] := rfl

@[simp] theorem pongsOf_nil : pongsOf [] = [] := rfl

@[simp] theorem pingsOf_append (fs fs' : List Frame) :
    pingsOf (fs ++ fs') = pingsOf fs ++ pingsOf fs' := List.filterMap_append

@[simp] theorem pongsOf_append (fs fs' : List Frame) :
    pongsOf (fs ++ fs') = pongsOf fs ++ pongsOf fs' := List.filterMap_append

@[simp] theorem mem_acksOf {fs : List Frame} {n : UInt64} : n ∈ acksOf fs ↔ .ack n ∈ fs := by
  rw [acksOf, List.mem_filterMap]
  constructor
  · rintro ⟨f, hf, hn⟩
    cases f <;> simp only [Frame.ack?, Option.some.injEq, reduceCtorEq] at hn
    rwa [← hn]
  · exact fun h => ⟨_, h, rfl⟩

/-- DATA frames carry no pong. -/
theorem pongsOf_map_data (ps : List Bytes) : pongsOf (ps.map .data) = [] := by
  induction ps with
  | nil => rfl
  | cons p ps ih =>
    show pongsOf (ps.map .data) = []
    exact ih

/-- The pings of an initial part come first. -/
theorem pingsOf_prefix {fs fs' : List Frame} (h : fs <+: fs') : pingsOf fs <+: pingsOf fs' := by
  obtain ⟨rest, rfl⟩ := h
  rw [pingsOf_append]
  exact List.prefix_append _ _

/-! ## Wires -/

section Wires

variable [Postcard]

/-- The frames of an initial part come first. -/
theorem frames_prefix {b b' : Bytes} (h : b <+: b') : (frames b).1 <+: (frames b').1 := by
  obtain ⟨c, rfl⟩ := h
  exact Incremental.drain_fst_prefix nextFrame_framing b c

/-- What is left of a buffer holds no frame. -/
theorem frames_left {b rest : Bytes} (h : (frames b).2 = .ok rest) : (frames rest).1 = [] := by
  have hnone : nextFrame rest = .ok none := Incremental.take_rest nextFrame_framing h
  rw [frames, Incremental.drain_none hnone]

/-- The frames of a wire. -/
def heard (wire : List Bytes) : List Frame := wire.flatMap fun b => (frames b).1

@[simp] theorem heard_nil : heard [] = [] := rfl

@[simp] theorem heard_append (wire wire' : List Bytes) :
    heard (wire ++ wire') = heard wire ++ heard wire' := List.flatMap_append

@[simp] theorem heard_cons (b : Bytes) (wire : List Bytes) :
    heard (b :: wire) = (frames b).1 ++ heard wire := List.flatMap_cons

/-- The wire is the encoding of frames that may follow the handshake. -/
def Spells (wire : List Bytes) : Prop := ∃ fs : List Frame, wire = fs.map encode ∧ ∀ f ∈ fs, f.Plain

/-- A control frame carries no session bytes. -/
theorem streamData_control {f : Frame} (hf : f.control = true) : streamData (encode f) = [] := by
  cases f with
  | ack n => exact streamData_encodeAck n
  | ping p => exact streamData_encodePing p
  | pong p => exact streamData_encodePong p
  | data | hello | reply => cases hf

omit [Postcard] in
/-- It may follow the handshake. -/
theorem Frame.plain_of_control {f : Frame} (hf : f.control = true) : f.Plain := by
  cases f with
  | ack | ping | pong => trivial
  | data | hello | reply => cases hf

theorem spells_nil : Spells [] := ⟨[], rfl, by simp⟩

theorem Spells.append {wire wire' : List Bytes} (h : Spells wire) (h' : Spells wire') :
    Spells (wire ++ wire') := by
  obtain ⟨fs, rfl, hfs⟩ := h
  obtain ⟨fs', rfl, hfs'⟩ := h'
  refine ⟨fs ++ fs', by rw [List.map_append], fun f hf => ?_⟩
  exact (List.mem_append.1 hf).elim (hfs f) (hfs' f)

theorem spells_cons {b : Bytes} {wire : List Bytes} :
    Spells (b :: wire) ↔ Spells [b] ∧ Spells wire := by
  constructor
  · rintro ⟨fs, heq, hfs⟩
    cases fs with
    | nil => cases heq
    | cons f fs =>
      obtain ⟨rfl, rfl⟩ := List.cons.inj heq
      exact ⟨⟨[f], rfl, fun g hg => hfs g (by simp_all)⟩,
        ⟨fs, rfl, fun g hg => hfs g (List.mem_cons_of_mem _ hg)⟩⟩
  · exact fun h => h.1.append h.2

/-- One frame. -/
theorem spells_singleton {f : Frame} (hf : f.Plain) : Spells [encode f] :=
  ⟨[f], rfl, by simpa using hf⟩

/-- A frame that may follow the handshake is the only one in its encoding. -/
theorem frames_encode {f : Frame} (hf : f.Plain) : frames (encode f) = ([f], .ok []) := by
  have hnil : frames ([] : Bytes) = ([], .ok []) := Incremental.drain_none rfl
  have hplain : ∀ g ∈ [f], g.Plain := by simpa using hf
  have hall := frames_plain_append hplain []
  simpa [hnil] using hall

/-- **What is heard on a wire are the frames that were written.** -/
theorem heard_spells {fs : List Frame} (hfs : ∀ f ∈ fs, f.Plain) : heard (fs.map encode) = fs := by
  induction fs with
  | nil => rfl
  | cons f fs ih =>
    rw [List.map_cons, heard_cons, frames_encode (hfs f List.mem_cons_self),
      ih fun g hg => hfs g (List.mem_cons_of_mem _ hg)]
    rfl

theorem heard_singleton {f : Frame} (hf : f.Plain) : heard [encode f] = [f] := by
  have hplain : ∀ g ∈ [f], g.Plain := by simpa using hf
  exact heard_spells hplain

/-- Every decoder accepts a wire, however it is divided. -/
theorem Spells.decode {wire chunks : List Bytes} (h : Spells wire)
    (hchunks : chunks.flatten = wire.flatten) : decode chunks = (heard wire, .ok []) := by
  obtain ⟨fs, rfl, hfs⟩ := h
  have hnil : frames ([] : Bytes) = ([], .ok []) := Incremental.drain_none rfl
  have hall := frames_plain_append hfs []
  rw [List.append_nil, hnil, List.append_nil] at hall
  rw [decode_eq_frames, hchunks, heard_spells hfs, ← List.flatMap_def, hall]

/-- Short DATA frames. -/
def Pieces (wire : List Bytes) : Prop :=
  ∃ ps : List Bytes, wire = ps.map encodeData ∧ ∀ p ∈ ps, p.length ≤ maxFrame

/-- They spell a wire. -/
theorem Pieces.spells {wire : List Bytes} (h : Pieces wire) : Spells wire := by
  obtain ⟨ps, rfl, hps⟩ := h
  exact ⟨ps.map .data, by simp [encode], by simpa [Frame.Plain] using hps⟩

/-- No control frame is among them. -/
theorem Pieces.heard {wire : List Bytes} (h : Pieces wire) : ∃ ps : List Bytes,
    Tunnel.heard wire = ps.map .data := by
  obtain ⟨ps, rfl, hps⟩ := h
  refine ⟨ps, ?_⟩
  have hplain : ∀ f ∈ ps.map Frame.data, f.Plain := by simpa [Frame.Plain] using hps
  have hall := heard_spells hplain
  rwa [List.map_map] at hall

omit [Postcard] in
/-- One piece, and more of them. -/
theorem pieces_cons {p : Bytes} {wire : List Bytes} :
    Pieces (p :: wire) ↔ Pieces [p] ∧ Pieces wire := by
  constructor
  · rintro ⟨ps, heq, hps⟩
    cases ps with
    | nil => cases heq
    | cons q ps =>
      obtain ⟨rfl, rfl⟩ := List.cons.inj heq
      exact ⟨⟨[q], rfl, fun r hr => hps r (by simp_all)⟩,
        ⟨ps, rfl, fun r hr => hps r (List.mem_cons_of_mem _ hr)⟩⟩
  · rintro ⟨⟨ps, heq, hps⟩, ⟨ps', rfl, hps'⟩⟩
    refine ⟨ps ++ ps', by rw [List.map_append, ← heq]; rfl, fun r hr => ?_⟩
    exact (List.mem_append.1 hr).elim (hps r) (hps' r)

omit [Postcard] in
theorem pieces_nil : Pieces [] := ⟨[], rfl, by simp⟩

omit [Postcard] in
/-- The pieces of some bytes, cut short enough. -/
theorem pieces_chunks {n : ℕ} (hmax : n ≤ maxFrame) (b : Bytes) :
    Pieces ((Incremental.chunks n b).map encodeData) :=
  ⟨_, rfl, fun _ hp => Nat.le_trans (Incremental.length_le_of_mem_chunks hp) hmax⟩

/-! ## Lossless wires -/

/-- The wire carries exactly the bytes `b`: it is a sequence of DATA frames with these bytes, and a
decoder that came to its beginning accepts them all, whatever follows and however the stream is
divided. -/
def Lossless (wire : List Bytes) (b : Bytes) : Prop :=
  ∃ ps : List Bytes, ps.flatten = b ∧
    ∀ (before rest : Bytes) (fs : List Frame) (chunks : List Bytes),
      frames before = (fs, .ok []) → chunks.flatten = before ++ wire.flatten ++ rest →
      decode chunks = (fs ++ ps.map .data ++ (frames rest).1, (frames rest).2)

/-- **Cutting bytes into short DATA frames is lossless.** -/
theorem lossless_chunks {n : ℕ} (hn : 0 < n) (hmax : n ≤ maxFrame) (b : Bytes) :
    Lossless ((Incremental.chunks n b).map encodeData) b := by
  refine ⟨Incremental.chunks n b, Incremental.flatten_chunks hn b,
    fun before rest fs chunks hbefore hchunks => ?_⟩
  have hplain : ∀ f ∈ (Incremental.chunks n b).map Frame.data, f.Plain := by
    intro f hf
    obtain ⟨p, hp, rfl⟩ := List.mem_map.1 hf
    exact Nat.le_trans (Incremental.length_le_of_mem_chunks hp) hmax
  have hwire : ((Incremental.chunks n b).map encodeData).flatten =
      ((Incremental.chunks n b).map Frame.data).flatMap encode := by
    rw [List.flatMap_map, List.flatMap_def]
    rfl
  -- the decoder is empty where the wire begins
  have hleft := Incremental.drain_append nextFrame_framing before
    (((Incremental.chunks n b).map encodeData).flatten ++ rest)
  have hdrain : Incremental.drain nextFrame before = (fs, .ok []) := hbefore
  have hpieces := frames_plain_append hplain rest
  rw [← hwire, frames] at hpieces
  rw [hdrain] at hleft
  dsimp only at hleft
  rw [List.nil_append, hpieces] at hleft
  rw [decode_eq_frames, hchunks, List.append_assoc, frames, hleft, List.append_assoc]

end Wires

end Tunnel
