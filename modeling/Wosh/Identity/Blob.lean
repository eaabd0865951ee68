import Mathlib
import Wosh.Tunnel.Replay

set_option relaxedAutoImplicit false
set_option autoImplicit false

/-!
# The blob of a key pair

The layout in which both ends keep the key pair of their iroh identity: `listener-core/src/identity.rs`
in a file, and `wosh-client/src/pairing.rs` in the store of its host.

## Main definitions

* `Identity.blob`, `Identity.split` — the layout.
* `Identity.Keys` — the cryptography of the host.
* `Identity.fromBlob` — the identity of a blob.

## Main results

* `Identity.split_eq_ok` — a blob is accepted exactly if it is the layout of a key pair.
* `Identity.Keys.Lawful.fromBlob` — a pair that was exported is imported again, to its identity.
-/

namespace Identity

open Tunnel (Bytes)

/-! ## The layout -/

def version : UInt8 := 1

/-- Length of a raw Ed25519 public key (`PUBKEY_LEN`). -/
def pubkeyLen : ℕ := 32

/-- The version, the raw public key, and the PKCS#8 of the private one. -/
def blob (pubRaw pkcs8 : Bytes) : Bytes := version :: (pubRaw ++ pkcs8)

/-- Why a blob is not taken. -/
inductive Reject
  | truncated
  | unsupported (v : UInt8)
  | signing (e : String)
  | verifying (e : String)
  | pair (e : String)
deriving DecidableEq

/-- The public key and the PKCS#8 of a blob. -/
def split (bytes : Bytes) : Except Reject (Bytes × Bytes) :=
  if bytes.length ≤ 1 + pubkeyLen then .error .truncated
  else
    match bytes with
    | [] => .error .truncated
    | v :: rest =>
      if v ≠ version then .error (.unsupported v) else .ok (rest.take pubkeyLen, rest.drop pubkeyLen)

/-- **A blob is accepted exactly if it is the layout of a key pair.** -/
theorem split_eq_ok {bytes pubRaw pkcs8 : Bytes} :
    split bytes = .ok (pubRaw, pkcs8) ↔
      pubRaw.length = pubkeyLen ∧ pkcs8 ≠ [] ∧ bytes = blob pubRaw pkcs8 := by
  constructor
  · intro h
    unfold split at h
    split_ifs at h with hlen
    split at h
    · cases h
    · rename_i v rest
      split_ifs at h with hv
      obtain ⟨rfl, rfl⟩ := Prod.mk.inj (Except.ok.inj h)
      rw [List.length_cons] at hlen
      refine ⟨List.length_take_of_le (by omega), fun hnil => ?_, ?_⟩
      · have hdrop := List.drop_eq_nil_iff.1 hnil
        omega
      · rw [blob, List.take_append_drop, not_not.1 hv]
  · rintro ⟨hpub, hpkcs8, rfl⟩
    have hpos := List.length_pos_iff.2 hpkcs8
    have hlen : ¬ (blob pubRaw pkcs8).length ≤ 1 + pubkeyLen := by
      rw [blob, List.length_cons, List.length_append]
      omega
    unfold split
    rw [if_neg hlen]
    simp only [blob]
    rw [if_neg (not_not.2 rfl), List.take_left' hpub, List.drop_left' hpub]

/-! ## Keys -/

/-- The handles of keys and identities, and what the host does with them. It may fail, with a message. -/
structure Keys where
  SigningKey : Type
  VerifyingKey : Type
  Ident : Type
  importPkcs8 : Bytes → Except String SigningKey
  importRaw : Bytes → Except String VerifyingKey
  exportPkcs8 : SigningKey → Except String Bytes
  exportRaw : VerifyingKey → Except String Bytes
  /-- `from_keys`, which probes the pair. -/
  fromKeys : SigningKey → VerifyingKey → Except String Ident
  /-- The handles are those of a pair that `generate_key` has made, extractable. -/
  Generated : SigningKey → VerifyingKey → Prop

/-- A pair that `generate_key` has made. -/
def Keys.Pair (K : Keys) : Type := { p : K.SigningKey × K.VerifyingKey // K.Generated p.1 p.2 }

/-- The identity of a blob. -/
def fromBlob (K : Keys) (bytes : Bytes) : Except Reject K.Ident := do
  let (pubRaw, pkcs8) ← split bytes
  let signing ← (K.importPkcs8 pkcs8).mapError .signing
  let verifying ← (K.importRaw pubRaw).mapError .verifying
  (K.fromKeys signing verifying).mapError .pair

/-- The handles of a generated pair that is exported and imported again are as good as its own. -/
def Keys.Lawful (K : Keys) : Prop :=
  ∀ (p : K.Pair) pkcs8 pubRaw, K.exportPkcs8 p.1.1 = .ok pkcs8 → K.exportRaw p.1.2 = .ok pubRaw →
    pkcs8 ≠ [] ∧ ∃ s v, K.importPkcs8 pkcs8 = .ok s ∧ K.importRaw pubRaw = .ok v ∧
      K.fromKeys s v = K.fromKeys p.1.1 p.1.2

/-- **A pair that was exported is imported again**, to the identity that it has. -/
theorem Keys.Lawful.fromBlob {K : Keys} (h : K.Lawful) (p : K.Pair) {pkcs8 pubRaw : Bytes}
    (hpkcs8 : K.exportPkcs8 p.1.1 = .ok pkcs8) (hpub : K.exportRaw p.1.2 = .ok pubRaw)
    (hlen : pubRaw.length = pubkeyLen) :
    Identity.fromBlob K (blob pubRaw pkcs8) = (K.fromKeys p.1.1 p.1.2).mapError .pair := by
  obtain ⟨hne, s, v, hs, hv, heq⟩ := h p pkcs8 pubRaw hpkcs8 hpub
  have hsplit : split (blob pubRaw pkcs8) = .ok (pubRaw, pkcs8) := split_eq_ok.2 ⟨hlen, hne, rfl⟩
  simp only [Identity.fromBlob, hsplit, hs, hv, heq, Except.mapError, bind, Except.bind]

/-- Keys whose material is a byte. -/
@[reducible] def sample : Keys where
  SigningKey := UInt8
  VerifyingKey := UInt8
  Ident := UInt8
  importPkcs8 bs := bs.head?.elim (.error "malformed key") .ok
  importRaw bs := bs.head?.elim (.error "malformed key") .ok
  exportPkcs8 k := .ok [k, k]
  exportRaw k := .ok (List.replicate 32 k)
  fromKeys s v := if s = v then .ok v else .error "mismatch"
  Generated s v := s = v

theorem lawful_sample : sample.Lawful := by
  rintro p pkcs8 pubRaw hpkcs8 hpub
  cases hpkcs8
  cases hpub
  exact ⟨nofun, _, _, rfl, rfl, rfl⟩

def samplePair (k : UInt8) : sample.Pair := ⟨(k, k), rfl⟩

end Identity
