import Wosh.Sftp.Framer
import Wosh.Lib.BigEndian

set_option relaxedAutoImplicit false
set_option autoImplicit false

/-!
# What the framer reassembles

A stream of packets, and the framer of `sftp/src/lib.rs` against it: in whatever chunks the stream
arrives, and whenever packets are taken, the packets are those of the stream.

## Main definitions

* `WoshSftp.WellFormed`, `WoshSftp.Corrupt` — a packet, and what is none, whatever follows.
* `WoshSftp.Splits` — a stream is packets, and a rest that does not begin with one.
* `WoshSftp.Call`, `WoshSftp.Framer.run` — calls in any order, and what they answer.
* `WoshSftp.frame` — the encoder.

## Main results

* `WoshSftp.Splits.unique`, `WoshSftp.exists_splits` — a stream splits in one way.
* `WoshSftp.Framer.Holds.run` — the invariant.
* `WoshSftp.Framer.framer_exact` — the packets that are yielded, when there is an error, that it lasts,
  and that what was encoded is recovered.
-/

namespace WoshSftp

open Tunnel (Bytes)
open BigEndian (counted value)

/-! ## Streams of packets -/

/-- The body of a packet has a length that is accepted. -/
def WellFormed (body : Bytes) : Prop := 1 ≤ body.length ∧ body.length ≤ maxPacketLen

instance (body : Bytes) : Decidable (WellFormed body) :=
  inferInstanceAs (Decidable (1 ≤ body.length ∧ body.length ≤ maxPacketLen))

/-- The four length bytes have arrived, and no packet is that long. -/
def Corrupt (b : Bytes) : Prop :=
  4 ≤ b.length ∧ (value (b.take 4) = 0 ∨ maxPacketLen < value (b.take 4))

/-- Packets, one after another. -/
def stream (bodies : List Bytes) : Bytes := (bodies.map counted).flatten

/-- The stream is these packets, and a rest that does not begin with one. -/
structure Splits (b : Bytes) (bodies : List Bytes) (rest : Bytes) : Prop where
  split : b = stream bodies ++ rest
  wellFormed : ∀ body ∈ bodies, WellFormed body
  maximal : ∀ body more, WellFormed body → rest ≠ counted body ++ more

section Splits

variable {b rest rest' more : Bytes} {body : Bytes} {bodies bodies' : List Bytes}

@[simp] theorem stream_cons : stream (body :: bodies) = counted body ++ stream bodies := by
  rw [stream, List.map_cons, List.flatten_cons, stream]

@[simp] theorem stream_append : stream (bodies ++ bodies') = stream bodies ++ stream bodies' := by
  rw [stream, List.map_append, List.flatten_append, stream, stream]

theorem WellFormed.lt (h : WellFormed body) : body.length < 2 ^ 32 := by
  have hmax := h.2
  simp only [maxPacketLen] at hmax
  omega

/-- The length bytes of a packet. -/
theorem WellFormed.value_take (h : WellFormed body) (more : Bytes) :
    value ((counted body ++ more).take 4) = body.length := by
  rw [BigEndian.take_counted]
  exact BigEndian.value_bytes h.lt

/-- No packet is at the front of what is corrupt, whatever follows. -/
theorem Corrupt.not_packet (h : Corrupt b) (hbody : WellFormed body) :
    b ++ more ≠ counted body ++ rest := by
  intro heq
  have hvalue := hbody.value_take rest
  rw [← heq, List.take_append_of_le_length h.1] at hvalue
  obtain ⟨hpos, hmax⟩ := hbody
  rcases h.2 with hzero | hlong <;> omega

/-- What follows does not mend it. -/
theorem Corrupt.append (h : Corrupt b) : Corrupt (b ++ more) := by
  refine ⟨?_, ?_⟩
  · rw [List.length_append]
    exact Nat.le_trans h.1 (Nat.le_add_right _ _)
  · rw [List.take_append_of_le_length h.1]
    exact h.2

/-- **A stream splits in one way.** -/
theorem Splits.unique (h : Splits b bodies rest) (h' : Splits b bodies' rest') :
    bodies = bodies' ∧ rest = rest' := by
  induction bodies generalizing b bodies' with
  | nil =>
    cases bodies' with
    | nil => exact ⟨rfl, h.split.symm.trans h'.split⟩
    | cons body' bodies' =>
      have heq := h.split.symm.trans h'.split
      rw [stream_cons, List.append_assoc] at heq
      exact absurd heq (h.maximal body' _ (h'.wellFormed body' List.mem_cons_self))
  | cons body bodies ih =>
    have hbody := h.wellFormed body List.mem_cons_self
    have hsplit := h.split
    rw [stream_cons, List.append_assoc] at hsplit
    cases bodies' with
    | nil =>
      have heq := h'.split.symm.trans hsplit
      exact absurd heq (h'.maximal body _ hbody)
    | cons body' bodies' =>
      have hsplit' := h'.split
      rw [stream_cons, List.append_assoc] at hsplit'
      obtain ⟨rfl, heq⟩ := BigEndian.counted_unique hbody.lt
        (h'.wellFormed body' List.mem_cons_self).lt (hsplit.symm.trans hsplit')
      have htail : Splits (stream bodies' ++ rest') bodies' rest' :=
        ⟨rfl, fun c hc => h'.wellFormed c (List.mem_cons_of_mem _ hc), h'.maximal⟩
      obtain ⟨rfl, hrest⟩ :=
        ih ⟨heq.symm, fun c hc => h.wellFormed c (List.mem_cons_of_mem _ hc), h.maximal⟩ htail
      exact ⟨rfl, hrest⟩

end Splits

namespace Framer

variable {f f' : Framer} {b rest extra : Bytes} {taken : List Bytes}

/-! ## One packet -/

/-- The cases of `takePacket`: a packet, or no packet will ever come, or none is complete. -/
theorem takePacket_cases (h : f.poisoned = false) :
    (∃ body rest, WellFormed body ∧ f.buf = counted body ++ rest ∧
      f.takePacket = (.ok (some body), { f with buf := rest })) ∨
    (Corrupt f.buf ∧ ∃ e, f.takePacket = (.error e, { f with poisoned := true })) ∨
    (¬ Corrupt f.buf ∧ (∀ body more, WellFormed body → f.buf ≠ counted body ++ more) ∧
      f.takePacket = (.ok none, f)) := by
  have hvalue : value (f.buf.take 4) = beNat (f.buf.take 4) := rfl
  have hlength : ∀ {body more : Bytes}, f.buf = counted body ++ more →
      f.buf.length = 4 + body.length + more.length := by
    intro body more heq
    rw [heq, List.length_append, BigEndian.length_counted]
  unfold takePacket
  dsimp only
  rw [if_neg (by rw [h]; exact Bool.false_ne_true)]
  by_cases hshort : f.buf.length < 4
  · rw [if_pos hshort]
    refine .inr (.inr ⟨fun hcorrupt => ?_, fun body more hbody heq => ?_, rfl⟩)
    · have := hcorrupt.1
      omega
    · have := hlength heq
      omega
  · rw [if_neg hshort]
    by_cases hzero : beNat (f.buf.take 4) = 0
    · rw [if_pos hzero]
      exact .inr (.inl ⟨⟨by omega, .inl hzero⟩, _, rfl⟩)
    · rw [if_neg hzero]
      by_cases hlong : maxPacketLen < beNat (f.buf.take 4)
      · rw [if_pos hlong]
        exact .inr (.inl ⟨⟨by omega, .inr hlong⟩, _, rfl⟩)
      · rw [if_neg hlong]
        by_cases hneed : f.buf.length < 4 + beNat (f.buf.take 4)
        · rw [if_pos hneed]
          refine .inr (.inr ⟨fun hcorrupt => ?_, fun body more hbody heq => ?_, rfl⟩)
          · rcases hcorrupt.2 with h' | h' <;> omega
          · have hlen := hlength heq
            have hval := hbody.value_take more
            rw [← heq, hvalue] at hval
            omega
        · rw [if_neg hneed]
          obtain ⟨-, hsplit⟩ := BigEndian.eq_counted f.buf (by omega)
            (by rw [hvalue, List.length_drop]; omega)
          rw [hvalue, List.drop_drop] at hsplit
          refine .inl ⟨_, _, ⟨?_, ?_⟩, hsplit, rfl⟩
          · rw [List.length_take, List.length_drop]
            omega
          · rw [List.length_take]
            omega

/-- What is taken until there is none splits the buffer. -/
theorem splits_drained (h : f.poisoned = false) :
    ∃ rest, Splits f.buf f.drained.1 rest ∧ (f.drained.2.1 ≠ none ↔ Corrupt rest) := by
  induction hlen : f.buf.length using Nat.strongRecOn generalizing f with
  | ind n ih =>
    obtain ⟨body, rest, hbody, hbuf, htake⟩ | ⟨hcorrupt, e, htake⟩ | ⟨hnot, hmax, htake⟩ :=
      takePacket_cases h
    · have hlt := length_takePacket htake
      obtain ⟨rest', hsplits, herror⟩ := ih rest.length (by rw [← hlen]; exact hlt)
        (f := { f with buf := rest }) h rfl
      rw [drained_cons htake]
      refine ⟨rest', ⟨?_, ?_, hsplits.maximal⟩, herror⟩
      · rw [hbuf, stream_cons, List.append_assoc, ← hsplits.split]
      · rw [List.forall_mem_cons]
        exact ⟨hbody, hsplits.wellFormed⟩
    · rw [drained_error htake]
      refine ⟨f.buf, ⟨rfl, by simp, fun body more hbody heq => ?_⟩, by simpa using hcorrupt⟩
      have heq' : f.buf ++ [] = counted body ++ more := by rw [List.append_nil, heq]
      exact hcorrupt.not_packet hbody heq'
    · rw [drained_none htake]
      exact ⟨f.buf, ⟨rfl, by simp, hmax⟩, by simpa using hnot⟩

end Framer

/-- A stream splits. -/
theorem exists_splits (b : Bytes) : ∃ bodies rest, Splits b bodies rest := by
  obtain ⟨rest, h, -⟩ := Framer.splits_drained (f := { buf := b }) rfl
  exact ⟨_, rest, h⟩

/-! ## Calls in any order -/

/-- A chunk is fed, or a packet is taken. -/
inductive Call
  | feed (chunk : Bytes)
  | takePacket

/-- The bytes that are fed. -/
def fed : List Call → Bytes
  | [] => []
  | .feed chunk :: calls => chunk ++ fed calls
  | .takePacket :: calls => fed calls

/-- The packets among some answers. -/
def packets (answers : List (Except Error (Option Bytes))) : List Bytes :=
  answers.filterMap fun
    | .ok packet => packet
    | .error _ => none

namespace Framer

variable {f f' : Framer} {b rest extra : Bytes} {taken : List Bytes}

/-- The calls, and what `takePacket` answers. -/
def run : Framer → List Call → Framer × List (Except Error (Option Bytes))
  | f, [] => (f, [])
  | f, .feed chunk :: calls => run (f.feed chunk) calls
  | f, .takePacket :: calls =>
    let r := run f.takePacket.2 calls
    (r.1, f.takePacket.1 :: r.2)

/-- The packets that were taken and what is buffered are the bytes that were fed; after a failure they
are a beginning of them, and the failure was due. -/
structure Holds (f : Framer) (b : Bytes) (taken : List Bytes) : Prop where
  wellFormed : ∀ body ∈ taken, WellFormed body
  buffered : ∃ extra, b = stream taken ++ (f.buf ++ extra) ∧ (f.poisoned = false → extra = [])
  corrupt : f.poisoned = true → Corrupt f.buf

/-- A chunk is fed. -/
theorem Holds.feed (h : f.Holds b taken) (chunk : Bytes) : (f.feed chunk).Holds (b ++ chunk) taken := by
  obtain ⟨hwell, ⟨extra, rfl, hnil⟩, hcorrupt⟩ := h
  unfold Framer.feed
  split_ifs with hpoisoned
  · refine ⟨hwell, ⟨extra ++ chunk, by simp only [List.append_assoc], fun h => ?_⟩, hcorrupt⟩
    rw [hpoisoned] at h
    cases h
  · have hfine : f.poisoned = false := by simpa using hpoisoned
    refine ⟨hwell, ⟨[], ?_, fun _ => rfl⟩, fun h => absurd h hpoisoned⟩
    rw [hnil hfine]
    simp only [List.append_assoc, List.append_nil]

/-- A packet is taken, or none. -/
theorem Holds.takePacket (h : f.Holds b taken) :
    f.takePacket.2.Holds b (taken ++ packets [f.takePacket.1]) := by
  obtain ⟨hwell, ⟨extra, rfl, hnil⟩, hcorrupt⟩ := h
  cases hpoisoned : f.poisoned with
  | true =>
    rw [takePacket_poisoned hpoisoned]
    refine ⟨by simpa [packets] using hwell, ⟨extra, by simp [packets], fun h => ?_⟩,
      fun _ => hcorrupt hpoisoned⟩
    exact hnil h
  | false =>
    obtain rfl := hnil hpoisoned
    obtain ⟨body, rest, hbody, hbuf, htake⟩ | ⟨hbad, e, htake⟩ | ⟨-, -, htake⟩ :=
      takePacket_cases hpoisoned
    · rw [htake]
      refine ⟨fun c hc => ?_, ⟨[], ?_, fun _ => rfl⟩, fun h => ?_⟩
      · rcases List.mem_append.1 hc with hc | hc
        · exact hwell c hc
        · obtain rfl : c = body := by simpa [packets] using hc
          exact hbody
      · have hone : stream (packets [.ok (some body)]) = counted body := by
          simp [packets, stream]
        rw [hbuf, stream_append, hone]
        simp only [List.append_assoc, List.append_nil]
      · rw [hpoisoned] at h
        cases h
    · rw [htake]
      refine ⟨by simpa [packets] using hwell, ⟨[], by simp [packets], fun _ => rfl⟩, fun _ => hbad⟩
    · rw [htake]
      refine ⟨by simpa [packets] using hwell, ⟨[], by simp [packets], fun _ => rfl⟩, fun h => ?_⟩
      rw [hpoisoned] at h
      cases h

/-- **The invariant**, over calls in any order. -/
theorem Holds.run (h : f.Holds b taken) (calls : List Call) :
    (f.run calls).1.Holds (b ++ fed calls) (taken ++ packets (f.run calls).2) := by
  induction calls generalizing f b taken with
  | nil => simpa [Framer.run, fed, packets] using h
  | cons call calls ih =>
    cases call with
    | feed chunk =>
      have hnext := ih (h.feed chunk)
      rwa [List.append_assoc] at hnext
    | takePacket =>
      have hnext := ih h.takePacket
      rw [List.append_assoc] at hnext
      have hpackets : packets [f.takePacket.1] ++ packets (f.takePacket.2.run calls).2 =
          packets (f.takePacket.1 :: (f.takePacket.2.run calls).2) := by
        rw [packets, packets, packets, ← List.filterMap_append]
        rfl
      rwa [hpackets] at hnext

/-- A framer that has failed answers nothing but failures, and stays as it is. -/
theorem poisoned_run (h : f.poisoned = true) (calls : List Call) :
    (f.run calls).1 = f ∧ ∀ answer ∈ (f.run calls).2, ∃ e, answer = .error e := by
  induction calls with
  | nil => exact ⟨rfl, by simp [run]⟩
  | cons call calls ih =>
    cases call with
    | feed chunk =>
      have hfeed : f.feed chunk = f := if_pos h
      rw [run, hfeed]
      exact ih
    | takePacket =>
      simp only [run, takePacket_poisoned h, List.forall_mem_cons]
      exact ⟨ih.1, ⟨_, rfl⟩, ih.2⟩

/-- **What a framer will still yield**, and whether it will fail, is said by the rest of the stream. -/
theorem Holds.drained (h : f.Holds b taken) : ∃ rest, Splits b (taken ++ f.drained.1) rest ∧
    (f.drained.2.1 ≠ none ↔ Corrupt rest) := by
  obtain ⟨hwell, ⟨extra, rfl, hnil⟩, hcorrupt⟩ := h
  cases hpoisoned : f.poisoned with
  | true =>
    have hbad := hcorrupt hpoisoned
    rw [drained_error (takePacket_poisoned hpoisoned), List.append_nil]
    refine ⟨f.buf ++ extra, ⟨rfl, hwell, fun body more hbody => hbad.not_packet hbody⟩, ?_⟩
    exact iff_of_true (by simp) hbad.append
  | false =>
    obtain rfl := hnil hpoisoned
    obtain ⟨rest, hsplits, herror⟩ := splits_drained hpoisoned
    refine ⟨rest, ⟨?_, fun body hbody => ?_, hsplits.maximal⟩, herror⟩
    · rw [stream_append, List.append_assoc, ← hsplits.split, List.append_nil]
    · rcases List.mem_append.1 hbody with hbody | hbody
      · exact hwell body hbody
      · exact hsplits.wellFormed body hbody

end Framer

/-! ## What was encoded -/

/-- A packet of this kind (`frame`; the length is written `as u32`). -/
def frame (kind : UInt8) (payload : Bytes) : Bytes :=
  BigEndian.bytes 4 (1 + payload.length) ++ kind :: payload

theorem frame_eq_counted (kind : UInt8) (payload : Bytes) :
    frame kind payload = counted (kind :: payload) := by
  rw [frame, counted, List.length_cons, Nat.add_comm]

/-- What the encoder writes splits up to the first packet that is too long. -/
theorem splits_frames (outputs : List (UInt8 × Bytes))
    (hfits : ∀ o ∈ outputs, 1 + o.2.length < 2 ^ 32) :
    ∃ rest, Splits (outputs.map fun o => frame o.1 o.2).flatten
      ((outputs.map fun o => o.1 :: o.2).takeWhile (WellFormed ·)) rest := by
  induction outputs with
  | nil => exact ⟨[], rfl, by simp, fun body more _ heq => by simp [counted, BigEndian.bytes] at heq⟩
  | cons o outputs ih =>
    rw [List.map_cons, List.map_cons, List.flatten_cons, frame_eq_counted]
    by_cases hwell : WellFormed (o.1 :: o.2)
    · obtain ⟨rest, hsplits⟩ := ih fun p hp => hfits p (List.mem_cons_of_mem _ hp)
      rw [List.takeWhile_cons_of_pos (by simpa using hwell)]
      refine ⟨rest, ?_, ?_, hsplits.maximal⟩
      · rw [stream_cons, List.append_assoc, ← hsplits.split]
      · rw [List.forall_mem_cons]
        exact ⟨hwell, hsplits.wellFormed⟩
    · rw [List.takeWhile_cons_of_neg (by simpa using hwell)]
      refine ⟨_, rfl, by simp, fun body more hbody heq => ?_⟩
      obtain ⟨rfl, -⟩ := BigEndian.counted_unique
        (by rw [List.length_cons, Nat.add_comm]; exact hfits o List.mem_cons_self) hbody.lt heq
      exact hwell hbody

namespace Framer

/-- **The framer is exact.** Whatever calls are made, the stream that was fed splits into packets in one
way. The packets that were taken and those that can still be taken are these; as long as not all of them
were taken the next call yields the next one, and after that it fails exactly if the length bytes of what
follows have arrived and are no packet's. After a failure every call fails, and nothing changes any more.
What was encoded is recovered packet by packet, up to the first that is too long. -/
theorem framer_exact (calls : List Call) :
    let f := (({} : Framer).run calls).1
    let taken := packets (({} : Framer).run calls).2
    (∃ bodies rest, Splits (fed calls) bodies rest ∧
      (∀ bodies' rest', Splits (fed calls) bodies' rest' → bodies' = bodies ∧ rest' = rest) ∧
      taken ++ f.drained.1 = bodies ∧
      (taken ≠ bodies → ∃ body, f.takePacket.1 = .ok (some body) ∧ taken ++ [body] <+: bodies) ∧
      (taken = bodies → ((∃ e, f.takePacket.1 = .error e) ↔ Corrupt rest))) ∧
    (∀ e, f.takePacket.1 = .error e → ∀ later : List Call,
      (f.takePacket.2.run later).1 = f.takePacket.2 ∧
        ∀ answer ∈ (f.takePacket.2.run later).2, ∃ e', answer = .error e') ∧
    (∀ outputs : List (UInt8 × Bytes), (∀ o ∈ outputs, 1 + o.2.length < 2 ^ 32) →
      fed calls = (outputs.map fun o => frame o.1 o.2).flatten →
      taken ++ f.drained.1 = (outputs.map fun o => o.1 :: o.2).takeWhile (WellFormed ·)) := by
  intro f taken
  have hnew : Holds {} [] [] := ⟨by simp, ⟨[], rfl, fun _ => rfl⟩, fun h => by cases h⟩
  have hholds : f.Holds (fed calls) taken := hnew.run calls
  obtain ⟨rest, hsplits, herror⟩ := hholds.drained
  refine ⟨⟨_, rest, hsplits, fun bodies' rest' h => h.unique hsplits, rfl, fun hmore => ?_,
    fun hall => ?_⟩, fun e he later => ?_, fun outputs hfits hfed => ?_⟩
  · cases htake : f.takePacket with
    | mk answer f' =>
      cases answer with
      | error e =>
        rw [drained_error htake, List.append_nil] at hmore
        exact absurd rfl hmore
      | ok packet =>
        cases packet with
        | none =>
          rw [drained_none htake, List.append_nil] at hmore
          exact absurd rfl hmore
        | some body =>
          refine ⟨body, rfl, f'.drained.1, ?_⟩
          rw [drained_cons htake, List.append_assoc]
          rfl
  · rw [← herror]
    have hnil : f.drained.1 = [] := by simpa using hall
    cases htake : f.takePacket with
    | mk answer f' =>
      cases answer with
      | error e => exact iff_of_true ⟨e, rfl⟩ (by rw [drained_error htake]; simp)
      | ok packet =>
        cases packet with
        | none =>
          rw [drained_none htake]
          simp
        | some body =>
          rw [drained_cons htake] at hnil
          cases hnil
  · cases htake : f.takePacket with
    | mk answer f' =>
      rw [htake] at he
      obtain rfl : answer = .error e := he
      exact poisoned_run (poisoned_takePacket htake) later
  · obtain ⟨rest', hsplits'⟩ := splits_frames outputs hfits
    rw [← hfed] at hsplits'
    exact (hsplits.unique hsplits').1

end Framer

end WoshSftp
