import Wosh.Connstring.Wire

set_option relaxedAutoImplicit false
set_option autoImplicit false

/-!
# The grammar of connection strings

The decoder of `connstring/src/lib.rs` accepts the base64url of the blobs of three versions, and
nothing else; the encoder writes one of them.

## Main definitions

* `Connstring.Blob` — the blobs that mean a connection string.

## Main results

* `Connstring.decode_eq_ok` — the decoder accepts exactly these.
* `Connstring.encode_eq` — the encoder writes one.
* `Connstring.decode_exact` — so what is encoded is decoded, and what is decoded can be encoded.
-/

namespace Connstring

open Tunnel (Bytes)

variable {t : Target}

/-! ## The grammar -/

/-- The bytes of a token, if there is one. -/
def tokenBytes : Option Token → Bytes
  | none => []
  | some token => token.val

/-- The blobs that mean a connection string. -/
inductive Blob (c : ConnString t) : Bytes → Prop
  /-- Version 1: the key, the flags, 16 bytes of token iff bit 0 is set, and the relay to the end. -/
  | v1 {flags : UInt8} (hflags : flags &&& flagHasToken ≠ 0 ↔ c.token.isSome)
      (hrelay : c.relayUrl.val ≠ "") :
      Blob c (version1 :: (c.pubkey.val ++
        flags :: (tokenBytes c.token ++ Text.utf8 c.relayUrl.val)))
  /-- Versions 2 and 3: the key, the relay spelled out, and an optional token. -/
  | url {v : UInt8} {variant length : Bytes} (hv : v = version ∨ v = version2)
      (hvariant : Leb128.Spells 32 0 variant)
      (hlength : Leb128.Spells t.bits (Text.utf8 c.relayUrl.val).length length)
      (hrelay : c.relayUrl.val ≠ "") :
      Blob c (v :: (c.pubkey.val ++
        (variant ++ (length ++ Text.utf8 c.relayUrl.val) ++ optionBytes c.token)))
  /-- Versions 2 and 3: the key, the index of the relay, and an optional token. -/
  | wellKnown {v : UInt8} {variant index : Bytes} {i : ℕ} (hv : v = version ∨ v = version2)
      (hvariant : Leb128.Spells 32 1 variant) (hindex : Leb128.Spells 32 i index)
      (hi : (wellKnownRelays t)[i]? = some c.relayUrl) :
      Blob c (v :: (c.pubkey.val ++ (variant ++ index ++ optionBytes c.token)))

/-! ## Trimming -/

/-- The text of a blob is not trimmed. -/
theorem trim_base64url (blob : Bytes) : trim (base64url blob) = base64url blob := by
  have hall : urlSafe.chars.all (fun c => !isWhitespace c) = true := by decide +kernel
  refine Text.trim_eq_self fun c hc => ?_
  have hchar := List.all_eq_true.1 hall c (Base64.mem_chars_of_mem_encode urlSafe hc)
  simpa using hchar

/-! ## Version 1 -/

/-- The token of version 1 is read off the bytes after the flags. -/
theorem tokenV1_eq_some {flags : UInt8} {input rest : Bytes} {token : Option Token} :
    tokenV1 flags input = some (token, rest) ↔
      (flags &&& flagHasToken ≠ 0 ↔ token.isSome) ∧ input = tokenBytes token ++ rest := by
  rw [tokenV1]
  split_ifs with hflag
  · rw [(Reader.reads_array tokenLen).map some]
    constructor
    · rintro ⟨_, ⟨k, rfl, rfl⟩, rfl⟩
      exact ⟨iff_of_true hflag rfl, rfl⟩
    · rintro ⟨hiff, rfl⟩
      obtain ⟨k, rfl⟩ := Option.isSome_iff_exists.1 (hiff.1 hflag)
      exact ⟨_, ⟨k, rfl, rfl⟩, rfl⟩
  · simp only [Option.some.injEq, Prod.mk.injEq]
    constructor
    · rintro ⟨rfl, rfl⟩
      exact ⟨iff_of_false hflag Bool.false_ne_true, rfl⟩
    · rintro ⟨hiff, rfl⟩
      cases token with
      | none => exact ⟨rfl, rfl⟩
      | some k => exact absurd (hiff.2 rfl) hflag

/-- The payloads of version 1. -/
theorem decodeV1_eq_ok {payload : Bytes} {c : ConnString t} :
    decodeV1 payload = .ok c ↔ c.relayUrl.val ≠ "" ∧ ∃ flags,
      (flags &&& flagHasToken ≠ 0 ↔ c.token.isSome) ∧
        payload = c.pubkey.val ++ flags :: (tokenBytes c.token ++ Text.utf8 c.relayUrl.val) := by
  constructor
  · intro h
    unfold decodeV1 at h
    split at h
    · cases h
    · cases h
    next pubkey flags rest hkey =>
      split at h
      · cases h
      next token rest' htoken =>
        split at h
        · cases h
        next relayUrl hrelay =>
          split_ifs at h with hempty
          obtain rfl := Except.ok.inj h
          obtain ⟨_, rfl, rfl⟩ := (Reader.reads_array pubkeyLen _ _ _).1 hkey
          obtain ⟨hflags, rfl⟩ := tokenV1_eq_some.1 htoken
          obtain rfl := Str.fromUtf8_eq_some.1 hrelay
          exact ⟨hempty, flags, hflags, rfl⟩
  · rintro ⟨hempty, flags, hflags, rfl⟩
    have hkey : Reader.array pubkeyLen (c.pubkey.val ++
        flags :: (tokenBytes c.token ++ Text.utf8 c.relayUrl.val)) =
          some (c.pubkey, flags :: (tokenBytes c.token ++ Text.utf8 c.relayUrl.val)) :=
      (Reader.reads_array pubkeyLen).append rfl _
    have htoken : tokenV1 flags (tokenBytes c.token ++ Text.utf8 c.relayUrl.val) =
        some (c.token, Text.utf8 c.relayUrl.val) := tokenV1_eq_some.2 ⟨hflags, rfl⟩
    have hrelay := Str.fromUtf8_eq_some (s := c.relayUrl).2 rfl
    rw [decodeV1, hkey]
    simp only
    rw [htoken]
    simp only
    rw [hrelay]
    simp only
    rw [if_neg hempty]

/-! ## Versions 2 and 3 -/

/-- The relay of an entry of the table is not empty. -/
theorem wellKnownRelays_ne {i : ℕ} {s : Str t} (h : (wellKnownRelays t)[i]? = some s) :
    s.val ≠ "" := by
  have hall : ∀ s ∈ wellKnownRelays t, s.val ≠ "" := by
    intro s hs
    simp only [wellKnownRelays, List.mem_cons, List.not_mem_nil, or_false] at hs
    rcases hs with rfl | rfl | rfl | rfl
    all_goals
      simp only
      decide
  exact hall s (List.mem_of_getElem? h)

/-- A relay that is given by an index means the entry of the table. -/
theorem RelayRepr.resolve_wellKnown {i : UInt32} {s : Str t} :
    (RelayRepr.wellKnown i).resolve = .ok s ↔ (wellKnownRelays t)[i.toNat]? = some s := by
  rw [RelayRepr.resolve]
  cases (wellKnownRelays t)[i.toNat]? with
  | none => simp
  | some s' => simp

/-- What means a connection string has a relay. -/
theorem Blob.relay_ne {c : ConnString t} {blob : Bytes} (h : Blob c blob) :
    c.relayUrl.val ≠ "" := by
  cases h with
  | v1 hflags hrelay => exact hrelay
  | url hv hvariant hlength hrelay => exact hrelay
  | wellKnown hv hvariant hindex hi => exact wellKnownRelays_ne hi

section Codec

variable [Crates t]

/-- The payloads of versions 2 and 3. -/
theorem decodeV2_eq_ok (hformat : Crates.PerFormat t) {payload : Bytes} {c : ConnString t} :
    decodeV2 payload = .ok c ↔ c.relayUrl.val ≠ "" ∧ ∃ relay : RelayRepr t,
      relay.resolve = .ok c.relayUrl ∧
        (⟨c.pubkey, relay, c.token⟩ : WireV2 t).Spelled payload := by
  constructor
  · intro h
    unfold decodeV2 at h
    split at h
    · cases h
    next wire rest htake =>
      split_ifs at h with hrest
      obtain rfl := not_not.1 hrest
      split at h
      · cases h
      next relayUrl hrelay =>
        split_ifs at h with hempty
        obtain rfl := Except.ok.inj h
        exact ⟨hempty, wire.relay, hrelay, hformat.takeFromBytes.whole.1 htake⟩
  · rintro ⟨hempty, relay, hrelay, hspelled⟩
    rw [decodeV2, hformat.takeFromBytes.whole.2 hspelled]
    simp only
    rw [if_neg (not_not.2 rfl), hrelay]
    simp only
    rw [if_neg hempty]

/-- **The decoder accepts exactly the blobs that mean a connection string.** -/
theorem decode_eq_ok (hformat : Crates.PerFormat t) {s : String} {c : ConnString t} :
    ConnString.decode s = .ok c ↔ ∃ blob, Blob c blob ∧ trim s = base64url blob := by
  constructor
  · intro h
    unfold ConnString.decode at h
    split at h
    · cases h
    · cases h
    next v payload hbytes =>
      refine ⟨v :: payload, ?_, (hformat.base64Decode _ _).1 hbytes⟩
      split_ifs at h with hnew hold
      · obtain ⟨hempty, relay, hrelay, spelling, hspelling, rfl⟩ := (decodeV2_eq_ok hformat).1 h
        cases hspelling with
        | url hvariant hlength =>
          obtain rfl := Except.ok.inj hrelay
          exact .url hnew hvariant hlength hempty
        | wellKnown hvariant hindex =>
          exact .wellKnown hnew hvariant hindex (RelayRepr.resolve_wellKnown.1 hrelay)
      · obtain ⟨hempty, flags, hflags, rfl⟩ := decodeV1_eq_ok.1 h
        subst hold
        exact .v1 hflags hempty
  · rintro ⟨blob, hblob, htrim⟩
    have hbytes := (hformat.base64Decode _ _).2 htrim
    unfold ConnString.decode
    rw [hbytes]
    cases hblob with
    | v1 hflags hempty =>
      simp only
      rw [if_neg (by decide), if_pos trivial]
      exact decodeV1_eq_ok.2 ⟨hempty, _, hflags, rfl⟩
    | url hv hvariant hlength hempty =>
      simp only
      rw [if_pos hv]
      exact (decodeV2_eq_ok hformat).2 ⟨hempty, _, rfl, _, .url hvariant hlength, rfl⟩
    | wellKnown hv hvariant hindex hi =>
      simp only
      rw [if_pos hv]
      have hword : (UInt32.ofNat _).toNat = _ := UInt32.toNat_ofNat_of_lt' hindex.2.2.1
      refine (decodeV2_eq_ok hformat).2 ⟨wellKnownRelays_ne hi, .wellKnown (UInt32.ofNat _), ?_, _,
        .wellKnown hvariant (hword.symm ▸ hindex), rfl⟩
      exact RelayRepr.resolve_wellKnown.2 (hword.symm ▸ hi)

/-- The encoder writes a blob that means its connection string. -/
theorem encode_eq (hformat : Crates.PerFormat t) {c : ConnString t} (hrelay : c.relayUrl.val ≠ "") :
    ∃ blob, Blob c blob ∧ c.encode = base64url blob := by
  unfold ConnString.encode
  rw [hformat.base64Encode]
  refine ⟨_, ?_, rfl⟩
  cases hidx : (wellKnownRelays t).idxOf? c.relayUrl with
  | none =>
    obtain ⟨_, hspelling, heq⟩ := hformat.toAllocvec ⟨c.pubkey, .url c.relayUrl, c.token⟩
    simp only
    rw [heq]
    cases hspelling with
    | url hvariant hlength => exact .url (.inl rfl) hvariant hlength hrelay
  | some i =>
    obtain ⟨hi, hentry, -⟩ := List.idxOf?_eq_some_iff.1 hidx
    have hlt : i < 2 ^ 32 := Nat.lt_trans hi (show 4 < 2 ^ 32 by decide)
    obtain ⟨_, hspelling, heq⟩ :=
      hformat.toAllocvec ⟨c.pubkey, .wellKnown (UInt32.ofNat i), c.token⟩
    simp only
    rw [heq]
    cases hspelling with
    | wellKnown hvariant hindex =>
      rw [UInt32.toNat_ofNat_of_lt' hlt] at hindex
      exact .wellKnown (.inl rfl) hvariant hindex (hentry ▸ List.getElem?_eq_getElem hi)

/-- What is encoded is decoded. -/
theorem decode_encode (hformat : Crates.PerFormat t) {c : ConnString t}
    (hrelay : c.relayUrl.val ≠ "") : ConnString.decode c.encode = .ok c := by
  obtain ⟨blob, hblob, heq⟩ := encode_eq hformat hrelay
  have htrim : trim c.encode = base64url blob := by rw [heq, trim_base64url]
  exact (decode_eq_ok hformat).2 ⟨blob, hblob, htrim⟩

/-- **The codec is exact.** Let the crates follow their formats. Then a connection string with a
relay is decoded as it was encoded; a text is decoded exactly if, trimmed, it is the base64url of a
blob of version 1, 2 or 3, to the fields of that blob; and what was decoded can be encoded again.

**Proof sketch.** The decoder accepts the blobs of the grammar (`decode_eq_ok`), of which the encoder
writes one (`encode_eq`), and each of them has a relay. -/
theorem decode_exact (hformat : Crates.PerFormat t) :
    (∀ c : ConnString t, c.relayUrl.val ≠ "" → ConnString.decode c.encode = .ok c) ∧
    (∀ (s : String) (c : ConnString t),
      ConnString.decode s = .ok c ↔ ∃ blob, Blob c blob ∧ trim s = base64url blob) ∧
    ∀ (s : String) (c : ConnString t),
      ConnString.decode s = .ok c → ConnString.decode c.encode = .ok c := by
  refine ⟨fun c hrelay => decode_encode hformat hrelay, fun s c => decode_eq_ok hformat,
    fun s c h => ?_⟩
  obtain ⟨blob, hblob, -⟩ := (decode_eq_ok hformat).1 h
  exact decode_encode hformat hblob.relay_ne

end Codec

/-- The key 00 01 .. 1f is one. -/
theorem length_range_pubkey : ((List.range 32).map UInt8.ofNat).length = pubkeyLen := by decide

/-- Sixteen bytes are a token. -/
theorem length_replicate_token : (List.replicate 16 (9 : UInt8)).length = tokenLen := by decide

/-- A relay of the table fits every target. -/
theorem length_euc1_relay (t : Target) :
    (Text.utf8 "https://euc1-1.relay.n0.iroh.link").length < 2 ^ t.bits :=
  t.fits_of_short (show (Text.utf8 "https://euc1-1.relay.n0.iroh.link").length < 2 ^ 32 by decide)

/-- The key 00 01 .. 1f, a relay of the table, and a token. -/
def sample (t : Target) : ConnString t where
  pubkey := ⟨(List.range 32).map UInt8.ofNat, length_range_pubkey⟩
  relayUrl := ⟨"https://euc1-1.relay.n0.iroh.link", length_euc1_relay t⟩
  token := some ⟨List.replicate 16 9, length_replicate_token⟩

theorem decode_exact_sample :
    @ConnString.decode .native (Crates.golden .native)
      (@ConnString.encode .native (Crates.golden .native) (sample .native)) =
        .ok (sample .native) :=
  (@decode_exact .native (Crates.golden .native) (Crates.golden_perFormat .native)).1
    (sample .native) (by decide)

end Connstring
