import Wosh.Connstring.Format

set_option relaxedAutoImplicit false
set_option autoImplicit false

/-!
# The formats of the crates

What `base64` and `postcard` document of the formats that a connection string is written in. A
`postcard` number is in groups of seven bits and need not be in its shortest spelling; an
enumeration begins with the number of its variant, a string with its length, and an option with a
byte 0 or 1; an array of a fixed size is its bytes.

## Main definitions

* `Connstring.base64url` — the text of a blob.
* `Connstring.RelayRepr.Spelled`, `Connstring.WireV2.Spelled` — the spellings of a wire shape.
* `Connstring.Crates.PerFormat` — the crates follow their formats.
* `Connstring.Crates.golden` — crates that are written from the formats.

## Main results

* `Connstring.Crates.golden_perFormat` — these follow them.
-/

namespace Connstring

open Tunnel (Bytes)

variable {t : Target}

/-! ## The formats -/

/-- The URL-safe alphabet. -/
def urlSafe : Base64.Alphabet where
  chars := "ABCDEFGHIJKLMNOPQRSTUVWXYZabcdefghijklmnopqrstuvwxyz0123456789-_".toList
  length_chars := by decide
  nodup := by decide +kernel

/-- The text of a blob: URL-safe base64 without padding. -/
def base64url (blob : Bytes) : String := Base64.encode urlSafe blob

/-- The spellings of a relay. -/
inductive RelayRepr.Spelled : RelayRepr t → Bytes → Prop
  /-- Variant 0: a length and as many bytes. -/
  | url {s : Str t} {variant length : Bytes} (hvariant : Leb128.Spells 32 0 variant)
      (hlength : Leb128.Spells t.bits (Text.utf8 s.val).length length) :
      Spelled (.url s) (variant ++ (length ++ Text.utf8 s.val))
  /-- Variant 1: an index. -/
  | wellKnown {i : UInt32} {variant index : Bytes} (hvariant : Leb128.Spells 32 1 variant)
      (hindex : Leb128.Spells 32 i.toNat index) : Spelled (.wellKnown i) (variant ++ index)

/-- The bytes of an optional token. -/
def optionBytes : Option Token → Bytes
  | none => [0]
  | some token => 1 :: token.val

/-- The spellings of a wire shape: its fields, in order. -/
def WireV2.Spelled (wire : WireV2 t) (bs : Bytes) : Prop :=
  ∃ relay, wire.relay.Spelled relay ∧ bs = wire.pubkey.val ++ (relay ++ optionBytes wire.token)

/-- The crates follow their formats. -/
structure Crates.PerFormat (t : Target) [Crates t] : Prop where
  base64Encode : ∀ bs, Crates.base64Encode t bs = base64url bs
  base64Decode : ∀ text bs, Crates.base64Decode t text = some bs ↔ text = base64url bs
  toAllocvec : ∀ wire : WireV2 t, wire.Spelled (Crates.toAllocvec wire)
  takeFromBytes : Reader.Reads (Crates.takeFromBytes : Bytes → Option (WireV2 t × Bytes))
    WireV2.Spelled

/-! ## Crates that are written from the formats -/

/-- A `usize`. -/
def Target.takeUsize : Target → Bytes → Option (ℕ × Bytes)
  | wasm32 => Leb128.take 4 4
  | native => Leb128.take 9 1

/-- A `u32`. -/
def takeU32 : Bytes → Option (ℕ × Bytes) := Leb128.take 4 4

/-- A `String`: its length and its bytes. -/
def takeString (t : Target) : Bytes → Option (Str t × Bytes) :=
  Reader.choose t.takeUsize fun n =>
    Reader.choose (Reader.array n) fun bs => Reader.give (Str.fromUtf8 t bs.val)

/-- A relay: the number of its variant, and what that holds. -/
def takeRelay (t : Target) : Bytes → Option (RelayRepr t × Bytes) :=
  Reader.choose takeU32 fun variant =>
    if variant = 0 then fun input => (takeString t input).map fun p => (.url p.1, p.2)
    else if variant = 1 then fun input =>
      (takeU32 input).map fun p => (.wellKnown (UInt32.ofNat p.1), p.2)
    else Reader.give none

/-- An optional token. -/
def takeToken : Bytes → Option (Option Token × Bytes) :=
  Reader.choose Reader.symbol fun b =>
    if b = 0 then Reader.give (some none)
    else if b = 1 then fun input => (Reader.array tokenLen input).map fun p => (some p.1, p.2)
    else Reader.give none

/-- The fields of a wire shape, in order. -/
def takeWire (t : Target) (input : Bytes) : Option (WireV2 t × Bytes) :=
  (Reader.seq (Reader.array pubkeyLen) (Reader.seq (takeRelay t) takeToken) input).map
    fun p => (⟨p.1.1, p.1.2.1, p.1.2.2⟩, p.2)

/-- The shortest spelling of a relay. -/
def RelayRepr.bytes : RelayRepr t → Bytes
  | url s =>
    Leb128.encode 0 ++ (Leb128.encode (Text.utf8 s.val).length ++ Text.utf8 s.val)
  | wellKnown i => Leb128.encode 1 ++ Leb128.encode i.toNat

/-- Crates that are written from the formats. -/
@[reducible] def Crates.golden (t : Target) : Crates t where
  base64Encode := base64url
  base64Decode := Base64.decode urlSafe true
  toAllocvec wire := wire.pubkey.val ++ (wire.relay.bytes ++ optionBytes wire.token)
  takeFromBytes := takeWire t

theorem Target.reads_takeUsize (t : Target) : Reader.Reads t.takeUsize (Leb128.Spells t.bits) := by
  cases t with
  | wasm32 => exact Leb128.take_reads (k := 4) (r := 4) (by decide) (by decide)
  | native => exact Leb128.take_reads (k := 9) (r := 1) (by decide) (by decide)

theorem reads_takeU32 : Reader.Reads takeU32 (Leb128.Spells 32) :=
  Leb128.take_reads (k := 4) (r := 4) (by decide) (by decide)

/-- A string is that of its bytes. -/
theorem Str.fromUtf8_eq_some {bs : Bytes} {s : Str t} :
    Str.fromUtf8 t bs = some s ↔ bs = Text.utf8 s.val := by
  rw [Str.fromUtf8, Option.bind_eq_some_iff]
  constructor
  · rintro ⟨s', hs', hs⟩
    split_ifs at hs with hfits
    obtain rfl := Option.some.inj hs
    exact (Text.ofUtf8?_eq_some.1 hs').symm
  · rintro rfl
    exact ⟨s.val, Text.ofUtf8?_eq_some.2 rfl, dif_pos s.fits⟩

theorem reads_takeString (t : Target) :
    Reader.Reads (takeString t) fun s bs =>
      ∃ length, Leb128.Spells t.bits (Text.utf8 s.val).length length ∧
        bs = length ++ Text.utf8 s.val := by
  refine (t.reads_takeUsize.choose fun n => (Reader.reads_array n).choose fun bs =>
    Reader.reads_give (Str.fromUtf8 t bs.val)).congr fun s bs => ?_
  constructor
  · rintro ⟨n, length, _, hlength, ⟨⟨bytes, hn⟩, _, _, rfl, ⟨hs, rfl⟩, rfl⟩, rfl⟩
    obtain rfl := Str.fromUtf8_eq_some.1 hs
    rw [List.append_nil]
    exact ⟨length, hn ▸ hlength, rfl⟩
  · rintro ⟨length, hlength, rfl⟩
    refine ⟨_, length, _, hlength, ⟨⟨Text.utf8 s.val, rfl⟩, _, [], rfl, ⟨?_, rfl⟩, rfl⟩, ?_⟩
    · exact Str.fromUtf8_eq_some.2 rfl
    · rw [List.append_nil]

theorem reads_takeRelay (t : Target) : Reader.Reads (takeRelay t) RelayRepr.Spelled := by
  have hvariant : ∀ n, Reader.Reads
      (if n = 0 then fun input => (takeString t input).map fun p => (RelayRepr.url p.1, p.2)
        else if n = 1 then fun input =>
          (takeU32 input).map fun p => (.wellKnown (UInt32.ofNat p.1), p.2)
        else Reader.give none)
      (fun relay bs =>
        (n = 0 ∧ ∃ s, RelayRepr.url s = relay ∧ ∃ length,
          Leb128.Spells t.bits (Text.utf8 s.val).length length ∧
            bs = length ++ Text.utf8 s.val) ∨
        (n = 1 ∧ ∃ i, RelayRepr.wellKnown (UInt32.ofNat i) = relay ∧ Leb128.Spells 32 i bs)) := by
    intro n
    split_ifs with hzero hone
    · exact ((reads_takeString t).map RelayRepr.url).congr fun relay bs => by simp [hzero]
    · refine (reads_takeU32.map fun i => RelayRepr.wellKnown (UInt32.ofNat i)).congr
        fun relay bs => by simp [hone]
    · exact (Reader.reads_give none).congr fun relay bs => by simp [hzero, hone]
  refine (reads_takeU32.choose hvariant).congr fun relay bs => ?_
  constructor
  · rintro ⟨n, variant, _, hn, ⟨rfl, s, rfl, length, hlength, rfl⟩ | ⟨rfl, i, rfl, hi⟩, rfl⟩
    · exact .url hn hlength
    · have hword : (UInt32.ofNat i).toNat = i := UInt32.toNat_ofNat_of_lt' hi.2.2.1
      exact .wellKnown hn (hword.symm ▸ hi)
  · rintro (⟨hn, hlength⟩ | ⟨hn, hi⟩)
    · exact ⟨0, _, _, hn, .inl ⟨rfl, _, rfl, _, hlength, rfl⟩, rfl⟩
    · refine ⟨1, _, _, hn, .inr ⟨rfl, _, ?_, hi⟩, rfl⟩
      rw [UInt32.ofNat_toNat]

theorem reads_takeToken : Reader.Reads takeToken fun token bs => bs = optionBytes token := by
  have htag : ∀ b : UInt8, Reader.Reads
      (if b = 0 then Reader.give (some none)
        else if b = 1 then fun input =>
          (Reader.array tokenLen input).map fun p => (some p.1, p.2)
        else Reader.give none)
      (fun (token : Option Token) bs =>
        (b = 0 ∧ none = token ∧ bs = []) ∨ (b = 1 ∧ ∃ k : Token, some k = token ∧ bs = k.val)) := by
    intro b
    split_ifs with hzero hone
    · exact (Reader.reads_give (some none)).congr fun token bs => by simp [hzero]
    · exact ((Reader.reads_array tokenLen).map some).congr fun token bs => by simp [hone]
    · exact (Reader.reads_give none).congr fun token bs => by simp [hzero, hone]
  refine (Reader.reads_symbol.choose htag).congr fun token bs => ?_
  constructor
  · rintro ⟨b, _, _, rfl, ⟨rfl, rfl, rfl⟩ | ⟨rfl, k, rfl, rfl⟩, rfl⟩
    · rfl
    · rfl
  · rintro rfl
    cases token with
    | none => exact ⟨0, _, _, rfl, .inl ⟨rfl, rfl, rfl⟩, rfl⟩
    | some k => exact ⟨1, _, _, rfl, .inr ⟨rfl, k, rfl, rfl⟩, rfl⟩

theorem reads_takeWire (t : Target) : Reader.Reads (takeWire t) WireV2.Spelled := by
  refine (((Reader.reads_array pubkeyLen).seq ((reads_takeRelay t).seq reads_takeToken)).map
    fun p => (⟨p.1, p.2.1, p.2.2⟩ : WireV2 t)).congr fun wire bs => ?_
  constructor
  · rintro ⟨⟨pubkey, relay, token⟩, rfl, _, _, rfl, ⟨spelling, _, hspelling, rfl, rfl⟩, rfl⟩
    exact ⟨spelling, hspelling, rfl⟩
  · rintro ⟨spelling, hspelling, rfl⟩
    exact ⟨⟨wire.pubkey, wire.relay, wire.token⟩, rfl, _, _, rfl, ⟨_, _, hspelling, rfl, rfl⟩, rfl⟩

/-- The shortest spelling of a relay is one. -/
theorem RelayRepr.spelled_bytes (relay : RelayRepr t) : relay.Spelled relay.bytes := by
  have hbits : 0 < t.bits := by cases t <;> decide
  cases relay with
  | url s =>
    exact .url (Leb128.spells_encode (by decide) (by decide)) (Leb128.spells_encode hbits s.fits)
  | wellKnown i =>
    exact .wellKnown (Leb128.spells_encode (by decide) (by decide))
      (Leb128.spells_encode (by decide) i.toNat_lt)

/-- **Crates that are written from the formats follow them.** -/
theorem Crates.golden_perFormat (t : Target) : @Crates.PerFormat t (Crates.golden t) := by
  refine @Crates.PerFormat.mk t (Crates.golden t) (fun bs => rfl) (fun text bs => ?_)
    (fun wire => ?_) (reads_takeWire t)
  · exact Base64.decode_strict urlSafe
  · exact ⟨wire.relay.bytes, wire.relay.spelled_bytes, rfl⟩

end Connstring
