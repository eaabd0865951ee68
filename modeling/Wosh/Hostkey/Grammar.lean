import Wosh.Hostkey.Sniff
import Wosh.Lib.BigEndian

set_option relaxedAutoImplicit false
set_option autoImplicit false

/-!
# What the sniffer accepts

The grammar of a server's stream up to its host key, stated with no sniffer in sight, and the sniffer
against it: how the stream is divided into chunks does not matter, and a key is found exactly where the
grammar has one.

## Main definitions

* `Hostkey.IsText`, `Hostkey.IsPacket`, `Hostkey.Offers` — a line, a packet, and a message with a host
  key.
* `Hostkey.Presents` — the grammar.
* `Hostkey.Sniffer.feeds`, `Hostkey.Sniffer.scan` — a stream in chunks, and at once.

## Main results

* `Hostkey.presents_iff` — the grammar is what the framing of the sniffer parses.
* `Hostkey.Sniffer.drive_more` — bytes that come later are parsed as if they had been there.
* `Hostkey.Sniffer.feed_exact` — the verdict on a stream, for every division of it into chunks.
-/

namespace Hostkey

open Tunnel (Bytes)
open BigEndian (bytes value counted)

variable {Key : Type} {parse : Bytes → Option Key}

/-! ## The grammar -/

/-- What ends a line. -/
def crlf : Bytes := [13, 10]

/-- `SSH-`. -/
def sshMark : Bytes := [83, 83, 72, 45]

/-- The text of a line of at most 255 bytes, its end included. -/
structure IsText (text : Bytes) : Prop where
  noLineFeed : 10 ∉ text
  short : text.length + 2 ≤ 255

/-- A payload as a cleartext packet, with this padding. -/
def framed (payload padding : Bytes) : Bytes :=
  bytes 4 (1 + payload.length + padding.length) ++
    UInt8.ofNat padding.length :: (payload ++ padding)

/-- The bytes are a well-formed packet with this payload. -/
def IsPacket (packet payload : Bytes) : Prop :=
  ∃ padding, packet = framed payload padding ∧ payload ≠ [] ∧ 4 ≤ padding.length ∧
    padding.length ≤ 255 ∧ 1 + payload.length + padding.length ≤ maxPacket

/-- The payload is a message that may carry a host key, and its leading string is one. -/
def Offers (parse : Bytes → Option Key) (payload : Bytes) (k : Key) : Prop :=
  ∃ msg blob rest, payload = msg :: (counted blob ++ rest) ∧ (msg = 30 ∨ msg = 31 ∨ msg = 33) ∧
    parse blob = some k

/-- A packet that the scan goes past: it is not NEWKEYS, and offers no key. -/
def Passes (parse : Bytes → Option Key) (packet : Bytes) : Prop :=
  ∃ payload, IsPacket packet payload ∧ payload.head? ≠ some msgNewkeys ∧
    ∀ k, ¬ Offers parse payload k

/-- The host key of the stream is `k`: lines up to and including the first that begins with `SSH-`,
packets that the scan goes past, and one that offers the key. -/
def Presents (parse : Bytes → Option Key) (k : Key) (stream : Bytes) : Prop :=
  ∃ (greeting : List Bytes) (ident : Bytes) (packets : List Bytes) (packet payload rest : Bytes),
    stream = (greeting.map (· ++ crlf)).flatten ++ (ident ++ crlf) ++ packets.flatten ++ packet ++
      rest ∧
    (∀ text ∈ greeting, IsText text ∧ ¬ sshMark <+: text) ∧ (IsText ident ∧ sshMark <+: ident) ∧
    (∀ p ∈ packets, Passes parse p) ∧ IsPacket packet payload ∧ Offers parse payload k

/-! ## The framing parses the grammar -/

section Framing

variable {line text packet payload rest : Bytes} {msg : UInt8} {k : Key} {done : Bool}

/-- A whole line. -/
theorem consumeIdent_line : consumeIdent line = .consumed line.length done ↔
    ∃ text, line = text ++ crlf ∧ IsText text ∧ (done = true ↔ sshMark <+: text) := by
  rw [consumeIdent_eq_consumed]
  constructor
  · rintro ⟨lf, hlen, hlt, hlf, hmin, hpos, hcr, hdone⟩
    have hsplit : line = line.take (lf - 1) ++ crlf := by
      apply List.ext_getElem?
      intro j
      rcases Nat.lt_trichotomy j (lf - 1) with hj | rfl | hj
      · rw [List.getElem?_append_left (by rw [List.length_take]; omega),
          List.getElem?_take_of_lt hj]
      · rw [List.getElem?_append_right (by rw [List.length_take]; omega), hcr, List.length_take,
          Nat.min_eq_left (by omega), Nat.sub_self]
        rfl
      · rw [List.getElem?_append_right (by rw [List.length_take]; omega), List.length_take,
          Nat.min_eq_left (by omega)]
        obtain rfl | hj' : j = lf ∨ lf + 1 ≤ j := by omega
        · have hone : j - (j - 1) = 1 := by omega
          rw [hlf, hone]
          rfl
        · rw [List.getElem?_eq_none (by omega), List.getElem?_eq_none]
          simp only [crlf, List.length_cons, List.length_nil]
          omega
    refine ⟨line.take (lf - 1), hsplit, ⟨fun hmem => ?_, ?_⟩, ?_⟩
    · obtain ⟨j, hj, hval⟩ := List.mem_take_iff_getElem.1 hmem
      refine hmin j (by omega) ?_
      rw [List.getElem?_eq_getElem (by omega), hval]
    · rw [List.length_take]
      omega
    · rw [hdone, List.isPrefixOf_iff_prefix]
      rfl
  · rintro ⟨text, rfl, htext, hdone⟩
    have hshort := htext.short
    have hlen : (text ++ crlf).length = text.length + 2 := by
      rw [List.length_append]
      rfl
    refine ⟨text.length + 1, by rw [hlen], by omega, ?_, fun j hj hmem => ?_, by omega, ?_, ?_⟩
    · rw [List.getElem?_append_right (by omega), Nat.add_sub_cancel_left]
      rfl
    · obtain hj' | rfl : j < text.length ∨ j = text.length := by omega
      · rw [List.getElem?_append_left hj'] at hmem
        exact htext.noLineFeed (List.mem_of_getElem? hmem)
      · rw [List.getElem?_append_right (Nat.le_refl _), Nat.sub_self] at hmem
        cases hmem
    · rw [Nat.add_sub_cancel, List.getElem?_append_right (Nat.le_refl _), Nat.sub_self]
      rfl
    · rw [Nat.add_sub_cancel, List.take_left, Bool.eq_iff_iff, List.isPrefixOf_iff_prefix]
      exact hdone

/-- A whole packet. -/
theorem nextPacket_whole :
    nextPacket packet = .packet packet.length payload ↔ IsPacket packet payload := by
  rw [nextPacket_eq_packet]
  constructor
  · rintro ⟨hlen, hpad, hlong, hmax, htotal, -, hpayload⟩
    have hfour : (packet.take 4).length = 4 := by
      rw [List.length_take]
      omega
    have hbytes : bytes 4 (value (packet.take 4)) = packet.take 4 := by
      have h := BigEndian.bytes_value (packet.take 4)
      rwa [hfour] at h
    have hvalue : value (packet.take 4) = beNat (packet.take 4) := rfl
    have hbyte : (packet.getD 4 0).toNat < 256 := UInt8.toNat_lt _
    set n := beNat (packet.take 4) with hn
    set p := (packet.getD 4 0).toNat with hp
    have hlength : payload.length = n - p - 1 := by
      rw [hpayload, List.length_take, List.length_drop]
      omega
    have hpadding : ((packet.drop 5).drop (n - p - 1)).length = p := by
      rw [List.length_drop, List.length_drop]
      omega
    refine ⟨(packet.drop 5).drop (n - p - 1), ?_, ?_, ?_, ?_, ?_⟩
    · have hsum : 1 + payload.length + p = n := by omega
      rw [framed, hpadding, hsum, hpayload, List.take_append_drop, ← hvalue, hbytes, hp,
        UInt8.ofNat_toNat, List.getD_eq_getElem _ _ (by omega), List.getElem_cons_drop,
        List.take_append_drop]
    · intro hnil
      rw [hnil] at hlength
      simp only [List.length_nil] at hlength
      omega
    · omega
    · omega
    · omega
  · rintro ⟨padding, rfl, hne, hpad, hpad', hmax⟩
    have hpos : 0 < payload.length := List.length_pos_iff.2 hne
    have htake : (framed payload padding).take 4 = bytes 4 (1 + payload.length + padding.length) :=
      List.take_left' (BigEndian.length_bytes _ _)
    have hdrop : (framed payload padding).drop 4 =
        UInt8.ofNat padding.length :: (payload ++ padding) :=
      List.drop_left' (BigEndian.length_bytes _ _)
    have hlen : (framed payload padding).length = 4 + (1 + payload.length + padding.length) := by
      rw [framed, List.length_append, BigEndian.length_bytes, List.length_cons, List.length_append]
      omega
    have hvalue : beNat ((framed payload padding).take 4) =
        1 + payload.length + padding.length := by
      rw [htake]
      apply BigEndian.value_bytes
      simp only [maxPacket] at hmax
      omega
    have hbyte : ((framed payload padding).getD 4 0).toNat = padding.length := by
      have hget : (framed payload padding)[4]? = ((framed payload padding).drop 4)[0]? := by
        rw [List.getElem?_drop]
      rw [List.getD_eq_getElem?_getD, hget, hdrop, List.getElem?_cons_zero, Option.getD_some,
        UInt8.toNat_ofNat']
      omega
    have hfive : (framed payload padding).drop 5 = payload ++ padding := by
      have h : (framed payload padding).drop 5 = ((framed payload padding).drop 4).drop 1 := by
        rw [List.drop_drop]
      rw [h, hdrop, List.drop_succ_cons, List.drop_zero]
    refine ⟨by omega, by omega, by omega, by omega, by omega, by omega, ?_⟩
    rw [hvalue, hbyte, hfive]
    have hcount : 1 + payload.length + padding.length - padding.length - 1 = payload.length := by
      omega
    rw [hcount, List.take_left]

/-- A packet is far shorter than a length can say. -/
theorem IsPacket.length_lt (h : IsPacket packet (msg :: rest)) : rest.length < 2 ^ 32 := by
  obtain ⟨padding, -, -, -, -, hmax⟩ := h
  simp only [List.length_cons, maxPacket] at hmax
  omega

/-- A message with a host key. -/
theorem hostKeyIn_eq_some (hrest : rest.length < 2 ^ 32) :
    hostKeyIn parse msg rest = some k ↔ Offers parse (msg :: rest) k := by
  unfold hostKeyIn
  dsimp only
  constructor
  · intro h
    split_ifs at h with hmsg hshort hover hend
    have hvalue : value (rest.take 4) = beNat (rest.take 4) := rfl
    obtain ⟨-, hsplit⟩ := BigEndian.eq_counted rest (by omega)
      (by rw [hvalue, List.length_drop]; omega)
    rw [hvalue] at hsplit
    exact ⟨msg, _, _, congrArg (msg :: ·) hsplit, hmsg, h⟩
  · rintro ⟨msg', blob, tail, heq, hmsg, hparse⟩
    obtain ⟨rfl, rfl⟩ := List.cons.inj heq
    have hlen : (counted blob ++ tail).length = 4 + blob.length + tail.length := by
      rw [List.length_append, BigEndian.length_counted]
    have hvalue : beNat ((counted blob ++ tail).take 4) = blob.length := by
      rw [BigEndian.take_counted]
      apply BigEndian.value_bytes
      omega
    rw [if_neg (not_not.2 hmsg), if_neg (by omega), hvalue, if_neg (by omega), if_neg (by omega),
      BigEndian.drop_counted, List.take_left]
    exact hparse

end Framing

/-! ## The grammar and the framing -/

section Parsed

variable {pre packet stream : Bytes} {k : Key}

/-- A packet that the scan goes past, as the framing sees it. -/
theorem passes_iff : Passes parse packet ↔ ∃ msg rest,
    nextPacket packet = .packet packet.length (msg :: rest) ∧ msg ≠ msgNewkeys ∧
      hostKeyIn parse msg rest = none := by
  constructor
  · rintro ⟨payload, hpacket, hmsg, hnone⟩
    cases payload with
    | nil =>
      obtain ⟨-, -, hne, -⟩ := hpacket
      exact absurd rfl hne
    | cons msg rest =>
      refine ⟨msg, rest, nextPacket_whole.2 hpacket, fun heq => hmsg (congrArg some heq), ?_⟩
      cases hkey : hostKeyIn parse msg rest with
      | none => rfl
      | some k => exact absurd ((hostKeyIn_eq_some hpacket.length_lt).1 hkey) (hnone k)
  · rintro ⟨msg, rest, hpacket, hmsg, hnone⟩
    have hwhole := nextPacket_whole.1 hpacket
    refine ⟨msg :: rest, hwhole, fun heq => hmsg (Option.some.inj heq), fun k hk => ?_⟩
    rw [(hostKeyIn_eq_some hwhole.length_lt).2 hk] at hnone
    cases hnone

/-- A packet that offers a key, as the framing sees it. -/
theorem carriesKey_iff :
    CarriesKey parse k packet ↔ ∃ payload, IsPacket packet payload ∧ Offers parse payload k := by
  constructor
  · rintro ⟨msg, rest, hpacket, hkey⟩
    have hwhole := nextPacket_whole.1 hpacket
    exact ⟨msg :: rest, hwhole, (hostKeyIn_eq_some hwhole.length_lt).1 hkey⟩
  · rintro ⟨payload, hpacket, hoffers⟩
    obtain ⟨msg, blob, tail, rfl, -⟩ := id hoffers
    exact ⟨msg, _, nextPacket_whole.2 hpacket, (hostKeyIn_eq_some hpacket.length_lt).2 hoffers⟩

/-- Before the `SSH-` line there are other lines. -/
theorem parsed_ident : Parsed parse .ident pre ↔
    ∃ greeting : List Bytes, pre = (greeting.map (· ++ crlf)).flatten ∧
      ∀ text ∈ greeting, IsText text ∧ ¬ sshMark <+: text := by
  constructor
  · intro h
    generalize hstate : State.ident = state at h
    induction h with
    | nil => exact ⟨[], rfl, by simp⟩
    | line hpre hline ih =>
      rename_i pre line done
      obtain ⟨greeting, rfl, hall⟩ := ih rfl
      obtain ⟨text, rfl, htext, hdone⟩ := consumeIdent_line.1 hline
      refine ⟨greeting ++ [text], by simp, fun t ht => ?_⟩
      rcases List.mem_append.1 ht with ht | ht
      · exact hall t ht
      · obtain rfl := List.mem_singleton.1 ht
        refine ⟨htext, fun hmark => ?_⟩
        rw [hdone.2 hmark] at hstate
        cases hstate
    | packet => cases hstate
  · rintro ⟨greeting, rfl, hall⟩
    induction greeting using List.reverseRecOn with
    | nil => exact .nil
    | append_singleton greeting text ih =>
      have hprev := ih fun t ht => hall t (List.mem_append_left _ ht)
      obtain ⟨htext, hmark⟩ := hall text (List.mem_append_right _ (List.mem_singleton_self _))
      have hgoesOn : consumeIdent (text ++ crlf) = .consumed (text ++ crlf).length false :=
        consumeIdent_line.2 ⟨text, rfl, htext, by simpa using hmark⟩
      have hline := Parsed.line hprev hgoesOn
      simpa using hline

/-- After it there are packets that the scan goes past. -/
theorem parsed_packets : Parsed parse .packets pre ↔
    ∃ (before ident : Bytes) (packets : List Bytes), Parsed parse .ident before ∧
      (IsText ident ∧ sshMark <+: ident) ∧ (∀ p ∈ packets, Passes parse p) ∧
      pre = before ++ (ident ++ crlf) ++ packets.flatten := by
  constructor
  · intro h
    generalize hstate : State.packets = state at h
    induction h with
    | nil => cases hstate
    | line hpre hline ih =>
      rename_i pre line done
      obtain ⟨text, rfl, htext, hdone⟩ := consumeIdent_line.1 hline
      cases done with
      | false => cases hstate
      | true => exact ⟨pre, text, [], hpre, ⟨htext, hdone.1 rfl⟩, by simp, by simp⟩
    | packet hpre hpacket hmsg hnone ih =>
      rename_i pre packet rest msg
      obtain ⟨before, ident, packets, hbefore, hident, hall, rfl⟩ := ih rfl
      refine ⟨before, ident, packets ++ [packet], hbefore, hident, fun p hp => ?_, by simp⟩
      rcases List.mem_append.1 hp with hp | hp
      · exact hall p hp
      · obtain rfl := List.mem_singleton.1 hp
        exact passes_iff.2 ⟨msg, rest, hpacket, hmsg, hnone⟩
  · rintro ⟨before, ident, packets, hbefore, hident, hall, rfl⟩
    induction packets using List.reverseRecOn with
    | nil =>
      have hends : consumeIdent (ident ++ crlf) = .consumed (ident ++ crlf).length true :=
        consumeIdent_line.2 ⟨ident, rfl, hident.1, by simpa using hident.2⟩
      have hline := Parsed.line hbefore hends
      simpa using hline
    | append_singleton packets packet ih =>
      have hprev := ih fun p hp => hall p (List.mem_append_left _ hp)
      obtain ⟨msg, rest, hpacket, hmsg, hnone⟩ :=
        passes_iff.1 (hall packet (List.mem_append_right _ (List.mem_singleton_self _)))
      have hline := Parsed.packet hprev hpacket hmsg hnone
      simpa using hline

/-- **The grammar is what the framing parses.** -/
theorem presents_iff : Presents parse k stream ↔
    ∃ pre packet rest, stream = pre ++ packet ++ rest ∧ Parsed parse .packets pre ∧
      CarriesKey parse k packet := by
  constructor
  · rintro ⟨greeting, ident, packets, packet, payload, rest, rfl, hgreeting, hident, hpackets,
      hpacket, hoffers⟩
    exact ⟨_, packet, rest, rfl, parsed_packets.2
      ⟨_, ident, packets, parsed_ident.2 ⟨greeting, rfl, hgreeting⟩, hident, hpackets, rfl⟩,
      carriesKey_iff.2 ⟨payload, hpacket, hoffers⟩⟩
  · rintro ⟨pre, packet, rest, rfl, hpre, hcarries⟩
    obtain ⟨before, ident, packets, hbefore, hident, hpackets, rfl⟩ := parsed_packets.1 hpre
    obtain ⟨greeting, rfl, hgreeting⟩ := parsed_ident.1 hbefore
    obtain ⟨payload, hpacket, hoffers⟩ := carriesKey_iff.1 hcarries
    exact ⟨greeting, ident, packets, packet, payload, rest, rfl, hgreeting, hident, hpackets,
      hpacket, hoffers⟩

/-- What follows a key packet does not matter. -/
theorem Presents.append (h : Presents parse k stream) (more : Bytes) :
    Presents parse k (stream ++ more) := by
  obtain ⟨pre, packet, rest, rfl, hpre, hcarries⟩ := presents_iff.1 h
  exact presents_iff.2 ⟨pre, packet, rest ++ more, List.append_assoc .., hpre, hcarries⟩

end Parsed

/-! ## More bytes -/

section More

variable {b : Bytes} {n : ℕ} {done : Bool} {payload : Bytes}

/-- What follows a whole line does not change it. -/
theorem consumeIdent_append (c : Bytes) (h : consumeIdent b = .consumed n done) :
    consumeIdent (b ++ c) = .consumed n done := by
  obtain ⟨lf, rfl, hlt, hval, hmin, hpos, hcr, hdone⟩ := consumeIdent_eq_consumed.1 h
  have hlen : lf < b.length := (List.getElem?_eq_some_iff.1 hval).1
  have hsame : ∀ j ≤ lf, (b ++ c)[j]? = b[j]? := fun j hj =>
    List.getElem?_append_left (Nat.lt_of_le_of_lt hj hlen)
  refine consumeIdent_eq_consumed.2 ⟨lf, rfl, hlt, ?_, fun j hj => ?_, hpos, ?_, ?_⟩
  · rw [hsame lf (Nat.le_refl _), hval]
  · rw [hsame j (Nat.le_of_lt hj)]
    exact hmin j hj
  · rw [hsame (lf - 1) (Nat.sub_le _ _), hcr]
  · rw [List.take_append_of_le_length (by omega), hdone]

/-- What follows does not make a line of what is none. -/
theorem consumeIdent_bad_append (c : Bytes) (h : consumeIdent b = .bad) :
    consumeIdent (b ++ c) = .bad := by
  unfold consumeIdent at h ⊢
  dsimp only at h ⊢
  cases hfind : (b.take (min b.length 255)).findIdx? (· = 10) with
  | none =>
    rw [hfind] at h
    have hlong : 255 ≤ b.length := by
      by_contra hshort
      rw [if_neg hshort] at h
      cases h
    have hlong' : 255 ≤ (b ++ c).length := by
      rw [List.length_append]
      omega
    rw [Nat.min_eq_right hlong] at hfind
    rw [Nat.min_eq_right hlong', List.take_append_of_le_length hlong, hfind]
    exact if_pos hlong'
  | some lf =>
    rw [hfind] at h
    obtain ⟨hlt, hval, hmin⟩ := findLineFeed_eq_some.1 hfind
    have hlen : lf < b.length := (List.getElem?_eq_some_iff.1 hval).1
    have hsame : ∀ j ≤ lf, (b ++ c)[j]? = b[j]? := fun j hj =>
      List.getElem?_append_left (Nat.lt_of_le_of_lt hj hlen)
    have hfind' : ((b ++ c).take (min (b ++ c).length 255)).findIdx? (· = 10) = some lf := by
      refine findLineFeed_eq_some.2 ⟨hlt, ?_, fun j hj => ?_⟩
      · rw [hsame lf (Nat.le_refl _), hval]
      · rw [hsame j (Nat.le_of_lt hj)]
        exact hmin j hj
    dsimp only at h
    split_ifs at h with hbad
    rw [hfind']
    dsimp only
    rw [hsame (lf - 1) (Nat.sub_le _ _), if_pos hbad]

/-- What follows a header does not change it. -/
theorem header_append (c : Bytes) (h : 5 ≤ b.length) :
    (b ++ c).take 4 = b.take 4 ∧ (b ++ c).getD 4 0 = b.getD 4 0 := by
  refine ⟨List.take_append_of_le_length (by omega), ?_⟩
  rw [List.getD_eq_getElem?_getD, List.getElem?_append_left (by omega),
    ← List.getD_eq_getElem?_getD]

/-- What follows a whole packet does not change it. -/
theorem nextPacket_append (c : Bytes) (h : nextPacket b = .packet n payload) :
    nextPacket (b ++ c) = .packet n payload := by
  obtain ⟨hlen, hpad, hlong, hmax, hn, htotal, hpayload⟩ := nextPacket_eq_packet.1 h
  obtain ⟨hfour, hbyte⟩ := header_append c hlen
  have hlen' : (b ++ c).length = b.length + c.length := List.length_append
  refine nextPacket_eq_packet.2 ?_
  rw [hfour, hbyte]
  refine ⟨by omega, hpad, hlong, hmax, hn, by omega, ?_⟩
  rw [List.drop_append_of_le_length hlen, List.take_append_of_le_length, hpayload]
  rw [List.length_drop]
  omega

/-- What follows does not mend a header. -/
theorem nextPacket_bad_append (c : Bytes) (h : nextPacket b = .bad) :
    nextPacket (b ++ c) = .bad := by
  unfold nextPacket at h ⊢
  dsimp only at h ⊢
  split_ifs at h with hshort hbad
  obtain ⟨hfour, hbyte⟩ := header_append c (Nat.le_of_not_lt hshort)
  have hlen' : (b ++ c).length = b.length + c.length := List.length_append
  rw [hfour, hbyte, if_neg (by omega), if_pos hbad]

end More

/-! ## A stream in chunks, and at once -/

namespace Sniffer

variable {s s' : Sniffer Key} {stream chunk : Bytes} {found : Bool} {k : Key}

/-- More in the buffer. -/
def more (s : Sniffer Key) (c : Bytes) : Sniffer Key := { s with buf := s.buf ++ c }

/-- Feed the chunks, and what each call answers. -/
def feeds (parse : Bytes → Option Key) : Sniffer Key → List Bytes → Sniffer Key × List (Option Key)
  | s, [] => (s, [])
  | s, c :: cs =>
    let r := s.feed parse c
    let t := feeds parse r.1 cs
    (t.1, r.2 :: t.2)

/-- The loop over a whole stream. -/
def scan (parse : Bytes → Option Key) (stream : Bytes) : Sniffer Key × Bool :=
  ({ buf := stream } : Sniffer Key).drive parse

variable (parse) in
/-- A turn with more in the buffer. It ends the same way if that was for good, and goes on from the
same place if it went on. -/
theorem turn_more (hs : s.state ≠ .done) (c : Bytes) :
    (s.turn parse = (s, some false)) ∨
    (∃ s' found, s.turn parse = (s', some found) ∧ s'.state = .done ∧
      (s.more c).turn parse = (s', some found)) ∨
    (∃ s', s.turn parse = (s', none) ∧ s'.state ≠ .done ∧ s'.buf.length < s.buf.length ∧
      (s.more c).turn parse = (s'.more c, none)) := by
  unfold turn more
  dsimp only
  cases hstate : s.state with
  | done => exact absurd hstate hs
  | ident =>
    dsimp only
    cases hident : consumeIdent s.buf with
    | need => exact .inl rfl
    | bad =>
      rw [consumeIdent_bad_append c hident]
      exact .inr (.inl ⟨_, _, rfl, rfl, rfl⟩)
    | consumed n done =>
      obtain ⟨hpos, hle, -⟩ := consumeIdent_take hident
      rw [consumeIdent_append c hident]
      have hlt : (s.buf.drop n).length < s.buf.length := by
        rw [List.length_drop]
        omega
      refine .inr (.inr ⟨_, rfl, ?_, ?_, ?_⟩)
      · cases done <;> exact State.noConfusion
      · cases done <;> exact hlt
      · dsimp only
        rw [List.drop_append_of_le_length hle]
        cases done <;> rfl
  | packets =>
    dsimp only
    cases hpacket : nextPacket s.buf with
    | need => exact .inl rfl
    | bad =>
      rw [nextPacket_bad_append c hpacket]
      exact .inr (.inl ⟨_, _, rfl, rfl, rfl⟩)
    | packet total payload =>
      obtain ⟨hpos, hle, -⟩ := nextPacket_take hpacket
      rw [nextPacket_append c hpacket]
      have hlt : (s.buf.drop total).length < s.buf.length := by
        rw [List.length_drop]
        omega
      cases payload with
      | nil => exact .inr (.inl ⟨_, _, rfl, rfl, rfl⟩)
      | cons msg rest =>
        dsimp only
        split_ifs with hmsg
        · exact .inr (.inl ⟨_, _, rfl, rfl, rfl⟩)
        · cases hkey : hostKeyIn parse msg rest with
          | some k => exact .inr (.inl ⟨_, _, rfl, rfl, rfl⟩)
          | none =>
            refine .inr (.inr ⟨_, rfl, State.noConfusion, hlt, ?_⟩)
            dsimp only
            rw [List.drop_append_of_le_length hle]

/-- How many turns are allowed is irrelevant once there is one for each byte and one more. -/
theorem driveUpTo_congr {m n : ℕ} (hm : s.buf.length < m) (hn : s.buf.length < n) :
    s.driveUpTo parse m = s.driveUpTo parse n := by
  induction m generalizing n s with
  | zero => omega
  | succ m ih =>
    obtain ⟨n, rfl⟩ : ∃ k, n = k + 1 := ⟨n - 1, by omega⟩
    rw [driveUpTo, driveUpTo]
    by_cases hs : s.state = .done
    · have hturn : s.turn parse = (s, some false) := by
        unfold turn
        rw [hs]
      rw [hturn]
    · obtain hturn | ⟨s', found, hturn, -, -⟩ | ⟨s', hturn, -, hlt, -⟩ :=
        turn_more parse hs []
      · rw [hturn]
      · rw [hturn]
      · rw [hturn]
        exact ih (by omega) (by omega)

/-- A turn that ends the loop. -/
theorem drive_ended (h : s.turn parse = (s', some found)) : s.drive parse = (s', found) := by
  rw [drive, driveUpTo, h]

/-- A turn that goes on. -/
theorem drive_goesOn (h : s.turn parse = (s', none)) (hlt : s'.buf.length < s.buf.length) :
    s.drive parse = s'.drive parse := by
  rw [drive, driveUpTo, h]
  exact driveUpTo_congr hlt (Nat.lt_succ_self _)

variable (parse) in
/-- **Bytes that come later are parsed as if they had been there.** A loop that ended for good ends
so with more bytes, and one that waits for more goes on with them from where it is.

**Proof sketch.** Induction on the length of the buffer, along the turns. -/
theorem drive_more (s : Sniffer Key) (hs : s.state ≠ .done) (c : Bytes) :
    ((s.drive parse).1.state = .done ∧ (s.more c).drive parse = s.drive parse) ∨
    ((s.drive parse).1.state ≠ .done ∧ (s.drive parse).2 = false ∧
      (s.more c).drive parse = ((s.drive parse).1.more c).drive parse) := by
  induction hlen : s.buf.length using Nat.strongRecOn generalizing s with
  | ind n ih =>
    obtain hturn | ⟨s', found, hturn, hdone, hmore⟩ | ⟨s', hturn, hs', hlt, hmore⟩ :=
      turn_more parse hs c
    · rw [drive_ended hturn]
      exact .inr ⟨hs, rfl, rfl⟩
    · rw [drive_ended hturn, drive_ended hmore]
      exact .inl ⟨hdone, rfl⟩
    · have hlt' : (s'.more c).buf.length < (s.more c).buf.length := by
        simp only [more, List.length_append]
        omega
      rw [drive_goesOn hturn hlt, drive_goesOn hmore hlt']
      exact ih s'.buf.length (by omega) s' hs' rfl

variable (parse) in
/-- A turn sets the key exactly if it ends the loop with one. -/
theorem turn_key (hkey : s.key = none) :
    (∃ s' k, s.turn parse = (s', some true) ∧ s'.key = some k ∧ s'.state = .done) ∨
    (∃ s', s.turn parse = (s', some false) ∧ s'.key = none) ∨
    (∃ s', s.turn parse = (s', none) ∧ s'.key = none) := by
  unfold turn
  cases s.state with
  | done => exact .inr (.inl ⟨_, rfl, hkey⟩)
  | ident =>
    dsimp only
    cases consumeIdent s.buf with
    | need => exact .inr (.inl ⟨_, rfl, hkey⟩)
    | bad => exact .inr (.inl ⟨_, rfl, hkey⟩)
    | consumed n done => exact .inr (.inr ⟨_, rfl, by cases done <;> exact hkey⟩)
  | packets =>
    dsimp only
    cases nextPacket s.buf with
    | need => exact .inr (.inl ⟨_, rfl, hkey⟩)
    | bad => exact .inr (.inl ⟨_, rfl, hkey⟩)
    | packet total payload =>
      cases payload with
      | nil => exact .inr (.inl ⟨_, rfl, hkey⟩)
      | cons msg rest =>
        dsimp only
        split_ifs with hmsg
        · exact .inr (.inl ⟨_, rfl, hkey⟩)
        · cases hostKeyIn parse msg rest with
          | some k => exact .inl ⟨_, k, rfl, rfl, rfl⟩
          | none => exact .inr (.inr ⟨_, rfl, hkey⟩)

variable (parse) in
/-- The loop answers whether it has set the key. -/
theorem driveUpTo_key (s : Sniffer Key) (n : ℕ) (hkey : s.key = none) :
    ((s.driveUpTo parse n).2 = true ∧
      (∃ k, (s.driveUpTo parse n).1.key = some k) ∧ (s.driveUpTo parse n).1.state = .done) ∨
    ((s.driveUpTo parse n).2 = false ∧ (s.driveUpTo parse n).1.key = none) := by
  induction n generalizing s with
  | zero => exact .inr ⟨rfl, hkey⟩
  | succ n ih =>
    rw [driveUpTo]
    obtain ⟨s', k, hturn, hsome, hdone⟩ | ⟨s', hturn, hnone⟩ | ⟨s', hturn, hnone⟩ :=
      turn_key parse hkey
    · rw [hturn]
      exact .inl ⟨rfl, ⟨k, hsome⟩, hdone⟩
    · rw [hturn]
      exact .inr ⟨rfl, hnone⟩
    · rw [hturn]
      exact ih s' hnone

/-- A turn does not look at how much was fed. -/
theorem turn_seen (s : Sniffer Key) (m : ℕ) : ({ s with seen := m } : Sniffer Key).turn parse =
    ({ (s.turn parse).1 with seen := m }, (s.turn parse).2) := by
  obtain ⟨state, buf, seen, key⟩ := s
  unfold turn
  cases state with
  | done => rfl
  | ident =>
    dsimp only
    cases consumeIdent buf with
    | need => rfl
    | bad => rfl
    | consumed n done => cases done <;> rfl
  | packets =>
    dsimp only
    cases nextPacket buf with
    | need => rfl
    | bad => rfl
    | packet total payload =>
      cases payload with
      | nil => rfl
      | cons msg rest =>
        dsimp only
        split_ifs
        · rfl
        · cases hostKeyIn parse msg rest <;> rfl

variable (parse) in
/-- Nor does the loop. -/
theorem driveUpTo_seen (s : Sniffer Key) (n m : ℕ) :
    ({ s with seen := m } : Sniffer Key).driveUpTo parse n =
      ({ (s.driveUpTo parse n).1 with seen := m }, (s.driveUpTo parse n).2) := by
  induction n generalizing s with
  | zero => rfl
  | succ n ih =>
    rw [driveUpTo, driveUpTo, turn_seen]
    cases h : s.turn parse with
    | mk s' found =>
      cases found with
      | some found => rfl
      | none => exact ih s'

/-- A scan that parses a beginning of the stream goes on behind it. -/
theorem scan_parsed {state : State} {pre : Bytes} (h : Parsed parse state pre) (b : Bytes) :
    scan parse (pre ++ b) = ({ state := state, buf := b } : Sniffer Key).drive parse := by
  induction h generalizing b with
  | nil => rfl
  | line hpre hline ih =>
    rename_i pre line done
    have hpos := (consumeIdent_take hline).1
    rw [List.append_assoc, ih]
    refine drive_goesOn ?_ ?_
    · simp only [turn, consumeIdent_append b hline, List.drop_left]
      cases done <;> rfl
    · simp only [List.length_append]
      omega
  | packet hpre hpacket hmsg hnone ih =>
    rename_i pre packet rest msg
    have hpos := (nextPacket_take hpacket).1
    rw [List.append_assoc, ih]
    refine drive_goesOn ?_ ?_
    · simp only [turn, nextPacket_append b hpacket, List.drop_left, if_neg hmsg, hnone]
    · simp only [List.length_append]
      omega

/-- **A scan finds the key that the stream presents.** -/
theorem scan_key : (scan parse stream).1.key = some k ↔ Presents parse k stream := by
  rw [presents_iff]
  constructor
  · intro hkey
    have hwithin := (follows_new parse).within State.noConfusion stream 0
    obtain ⟨hfound, -⟩ | ⟨-, -, k', hkey', pre, packet, rest, hstream, hpre, hcarries, -⟩ :=
      driveUpTo_cases hwithin (Nat.lt_succ_self _)
    · obtain ⟨hfound', -⟩ | ⟨-, hnone⟩ :=
        driveUpTo_key parse { buf := stream } (stream.length + 1) rfl
      · cases hfound.symm.trans hfound'
      · cases hnone.symm.trans hkey
    · obtain rfl : k' = k := Option.some.inj (hkey'.symm.trans hkey)
      exact ⟨pre, packet, rest, hstream, hpre, hcarries⟩
  · rintro ⟨pre, packet, rest, rfl, hpre, msg, payload, hpacket, hkey⟩
    have hmsg : msg ≠ msgNewkeys := by
      rintro rfl
      rw [hostKeyIn, if_pos (by decide)] at hkey
      cases hkey
    rw [List.append_assoc, scan_parsed hpre]
    have hturn : ({ state := .packets, buf := packet ++ rest } : Sniffer Key).turn parse =
        ({ state := .done, key := some k }, some true) := by
      simp only [turn, nextPacket_append rest hpacket, if_neg hmsg, hkey]
      rfl
    rw [drive_ended hturn]

variable (parse) in
/-- A scan that has ended for good has, whatever follows; one that has not goes on. -/
theorem scan_append (stream chunk : Bytes) :
    ((scan parse stream).1.state = .done ∧ scan parse (stream ++ chunk) = scan parse stream) ∨
    ((scan parse stream).1.state ≠ .done ∧ (scan parse stream).1.key = none ∧
      scan parse (stream ++ chunk) = ((scan parse stream).1.more chunk).drive parse) := by
  obtain ⟨hdone, hmore⟩ | ⟨hgoing, hfound, hmore⟩ :=
    drive_more parse { buf := stream } State.noConfusion chunk
  · exact .inl ⟨hdone, hmore⟩
  · refine .inr ⟨hgoing, ?_, hmore⟩
    obtain ⟨hfound', -⟩ | ⟨-, hnone⟩ :=
      driveUpTo_key parse { buf := stream } (stream.length + 1) rfl
    · cases hfound.symm.trans hfound'
    · exact hnone

/-- The sniffer has seen the stream, and stands where a scan of it does. -/
structure Stands (parse : Bytes → Option Key) (s : Sniffer Key) (stream : Bytes) : Prop where
  scanned : { s with seen := 0 } = (scan parse stream).1
  seen_le : s.seen ≤ stream.length

/-- **A chunk keeps the sniffer where a scan is.** It answers a key exactly if the chunk completes
what the stream presents. -/
theorem Stands.feed (h : Stands parse s stream) (chunk : Bytes)
    (hcap : (stream ++ chunk).length ≤ maxScan) :
    Stands parse (s.feed parse chunk).1 (stream ++ chunk) ∧
      ∀ k, (s.feed parse chunk).2 = some k ↔
        Presents parse k (stream ++ chunk) ∧ ∀ k', ¬ Presents parse k' stream := by
  obtain ⟨hscan, hseen⟩ := h
  have hstate : s.state = (scan parse stream).1.state := by rw [← hscan]
  rw [List.length_append] at hcap
  obtain ⟨hdone, happend⟩ | ⟨hgoing, hnone, happend⟩ := scan_append parse stream chunk
  · rw [Sniffer.feed, if_pos (hstate.trans hdone)]
    refine ⟨⟨by rw [happend]; exact hscan, ?_⟩, fun k => ?_⟩
    · rw [List.length_append]
      exact Nat.le_trans hseen (Nat.le_add_right _ _)
    · constructor
      · intro hk
        cases hk
      · rintro ⟨hpresents, hnot⟩
        rw [← scan_key, happend, scan_key] at hpresents
        exact absurd hpresents (hnot k)
  · -- the loop is that of the scan but for the count
    have hdrive : ({ s with seen := s.seen + chunk.length, buf := s.buf ++ chunk } :
        Sniffer Key).drive parse = ({ (scan parse (stream ++ chunk)).1 with
          seen := s.seen + chunk.length }, (scan parse (stream ++ chunk)).2) := by
      have hmore : (scan parse stream).1.more chunk = { s with seen := 0, buf := s.buf ++ chunk } := by
        rw [← hscan]
        rfl
      rw [happend, hmore]
      exact driveUpTo_seen parse { s with seen := 0, buf := s.buf ++ chunk } _ _
    have hzero : (scan parse (stream ++ chunk)).1.seen = 0 := by
      have h := driveUpTo_seen parse { buf := stream ++ chunk } ((stream ++ chunk).length + 1) 0
      exact congrArg (fun r => r.1.seen) h
    have hcap' : ¬ maxScan < s.seen + chunk.length := by omega
    rw [Sniffer.feed, if_neg (fun hs => hgoing (hstate.symm.trans hs)), hdrive]
    dsimp only
    rw [if_neg (fun hover => hcap' hover.2)]
    refine ⟨⟨?_, ?_⟩, fun k => ?_⟩
    · dsimp only
      rw [← hzero]
    · rw [List.length_append]
      exact Nat.add_le_add_right hseen _
    · have hnot : ∀ k', ¬ Presents parse k' stream := by
        intro k' hk'
        rw [← scan_key, hnone] at hk'
        cases hk'
      rw [← scan_key]
      obtain ⟨hfound, -⟩ | ⟨hfound, hkey⟩ := driveUpTo_key parse
        { buf := stream ++ chunk } ((stream ++ chunk).length + 1) rfl
      · rw [scan, drive, hfound, if_pos rfl]
        exact ⟨fun hk => ⟨hk, hnot⟩, fun hk => hk.1⟩
      · rw [scan, drive, hfound, if_neg Bool.false_ne_true, hkey]
        exact ⟨fun hk => ⟨hk, hnot⟩, fun hk => hk.1⟩

/-- All the chunks. -/
theorem Stands.feeds (h : Stands parse s stream) (chunks : List Bytes)
    (hcap : (stream ++ chunks.flatten).length ≤ maxScan) :
    Stands parse (s.feeds parse chunks).1 (stream ++ chunks.flatten) ∧
      ∀ i k, (s.feeds parse chunks).2[i]? = some (some k) ↔ i < chunks.length ∧
        Presents parse k (stream ++ (chunks.take (i + 1)).flatten) ∧
          ∀ k', ¬ Presents parse k' (stream ++ (chunks.take i).flatten) := by
  induction chunks generalizing s stream with
  | nil =>
    rw [List.flatten_nil, List.append_nil]
    exact ⟨h, fun i k => by simp [Sniffer.feeds]⟩
  | cons chunk chunks ih =>
    rw [List.flatten_cons, ← List.append_assoc] at hcap ⊢
    have hcap' : (stream ++ chunk).length ≤ maxScan := by
      rw [List.length_append] at hcap
      omega
    obtain ⟨hstands, hanswer⟩ := h.feed chunk hcap'
    obtain ⟨hlast, hanswers⟩ := ih hstands hcap
    refine ⟨hlast, fun i k => ?_⟩
    cases i with
    | zero => simpa [Sniffer.feeds] using hanswer k
    | succ i =>
      have hnext := hanswers i k
      simpa [Sniffer.feeds] using hnext

/-- **The verdict on a stream.** A stream that fits is judged the same in chunks as at once. One call
at most answers a key: the one that completes the packet of the key that the stream presents. -/
theorem feed_exact (parse : Bytes → Option Key) (chunks : List Bytes)
    (hcap : chunks.flatten.length ≤ maxScan) :
    let chunked := ({} : Sniffer Key).feeds parse chunks
    let whole := (({} : Sniffer Key).feed parse chunks.flatten).1
    chunked.1.key = whole.key ∧ chunked.1.finished = whole.finished ∧
      (∀ k, chunked.1.key = some k ↔ Presents parse k chunks.flatten) ∧
      (∀ i k, chunked.2[i]? = some (some k) ↔ i < chunks.length ∧
        Presents parse k (chunks.take (i + 1)).flatten ∧
          ∀ k', ¬ Presents parse k' (chunks.take i).flatten) ∧
      (∀ (i j : ℕ) (k k' : Key),
        chunked.2[i]? = some (some k) → chunked.2[j]? = some (some k') → i = j) := by
  have hnew : Stands parse ({} : Sniffer Key) [] := ⟨rfl, Nat.le_refl 0⟩
  obtain ⟨hchunked, hanswers⟩ := hnew.feeds chunks hcap
  obtain ⟨hwhole, -⟩ := hnew.feed chunks.flatten hcap
  have hsame := hchunked.scanned.trans hwhole.scanned.symm
  have hat : ∀ i k, (({} : Sniffer Key).feeds parse chunks).2[i]? = some (some k) ↔
      i < chunks.length ∧ Presents parse k (chunks.take (i + 1)).flatten ∧
        ∀ k', ¬ Presents parse k' (chunks.take i).flatten := hanswers
  obtain ⟨hstate, -, -, hkey⟩ := (Sniffer.mk.injEq ..).mp hsame
  refine ⟨hkey, ?_, fun k => ?_, hat, ?_⟩
  · simp only [finished, hstate]
  · have hscan := hchunked.scanned
    rw [List.nil_append] at hscan
    rw [← scan_key, ← hscan]
  · -- what a beginning of the stream presents, each longer one does
    have hmono : ∀ i j k, i ≤ j → Presents parse k (chunks.take i).flatten →
        Presents parse k (chunks.take j).flatten := by
      intro i j k hij hk
      obtain ⟨d, rfl⟩ := Nat.exists_eq_add_of_le hij
      rw [List.take_add, List.flatten_append]
      exact hk.append _
    intro i j k k' hi hj
    obtain ⟨-, hi, hi'⟩ := (hat i k).1 hi
    obtain ⟨-, hj, hj'⟩ := (hat j k').1 hj
    rcases Nat.lt_trichotomy i j with hlt | heq | hlt
    · exact absurd (hmono (i + 1) j k hlt hi) (hj' k)
    · exact heq
    · exact absurd (hmono (j + 1) i k' hlt hj) (hi' k')

/-- A greeting, an identification line and a packet with a host key, cut inside the first line and
inside the packet. -/
def cutHandshake : List Bytes :=
  [[104, 105, 13], [10, 83, 83, 72, 45, 49, 13, 10, 0, 0, 0],
    [11, 4, 31, 0, 0, 0, 1, 7, 0, 0, 0, 0]]

/-- The last chunk completes the packet, and only the call with it answers. -/
theorem feed_exact_cutHandshake :
    (({} : Sniffer Bytes).feeds some cutHandshake).2 = [none, none, some [7]] ∧
      Presents some [7] cutHandshake.flatten :=
  ⟨by decide +kernel,
    ((feed_exact some cutHandshake (by decide)).2.2.1 [7]).1 (by decide +kernel)⟩

end Sniffer

end Hostkey
