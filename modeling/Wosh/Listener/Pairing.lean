import Wosh.Listener.Session

set_option relaxedAutoImplicit false
set_option autoImplicit false

/-!
# Pairing

How a device proves that it knows the pairing token, `connstring/src/lib.rs`, and how the listener
remembers the devices that did, the `pairing` module of `listener-core/src/lib.rs`.

## Main definitions

* `Listener.pairingProof`, `Listener.peerProof` — the proof and what it is recomputed from.
* `Listener.pairingFrame` — the frame that carries it on a v1 connection.
* `Listener.encodeHex`, `Listener.load` — endpoint ids as the store keeps them.

## Main results

* `Listener.pairingProof_inj` — the proofs of different contexts hash different bytes.
* `Listener.encodeHex_injective` — different endpoint ids are different lines of the store.
* `Listener.load_persist` — an id that was persisted is loaded as it is.

## Design

The HMAC is that of the `hmac` and `sha2` crates, which are not part of the repository: it is the
class `Hmac`.
-/

namespace Listener

open Tunnel

/-! ## Proofs -/

/-- HMAC-SHA256: the tag of a message under a key. -/
class Hmac where
  mac : Bytes → Bytes → Bytes

/-- HMAC with the key before the message and no hash, for runs on fixed inputs. -/
@[reducible] def Hmac.plain : Hmac := ⟨fun key message => key ++ message⟩

/-- Length of an endpoint id (`PUBKEY_LEN`). -/
def pubkeyLen : ℕ := 32

/-- Domain separation (`PROOF_DOMAIN`): `wosh pairing proof v1`. -/
def proofDomain : Bytes :=
  [119, 111, 115, 104, 32, 112, 97, 105, 114, 105, 110, 103, 32, 112, 114, 111, 111, 102, 32, 118,
    49]

/-- What a proof hashes. -/
def proofInput (listenerId clientId alpn : Bytes) : Bytes :=
  proofDomain ++ (listenerId ++ (clientId ++ (leBytes 4 alpn.length ++ alpn)))

/-- `pairing_proof`. -/
def pairingProof [Hmac] (token listenerId clientId alpn : Bytes) : Bytes :=
  Hmac.mac token (proofInput listenerId clientId alpn)

/-- `peer_proof`: the proof that the peer of a connection should have presented on it. -/
def peerProof [Hmac] (peer alpn token listenerId : Bytes) : Except String Bytes :=
  if peer.length = pubkeyLen then .ok (pairingProof token listenerId peer alpn)
  else .error "peer endpoint id is not 32 bytes"

/-- **The contexts of a proof are told apart**: identities are of fixed width and the ALPN comes
last, so no two contexts hash the same bytes. -/
theorem proofInput_inj {l l' c c' a a' : Bytes} (hl : l.length = pubkeyLen)
    (hl' : l'.length = pubkeyLen) (hc : c.length = pubkeyLen) (hc' : c'.length = pubkeyLen)
    (h : proofInput l c a = proofInput l' c' a') : l = l' ∧ c = c' ∧ a = a' := by
  unfold proofInput at h
  have hrest := List.append_cancel_left h
  obtain ⟨hlisten, hrest⟩ := List.append_inj hrest (hl.trans hl'.symm)
  obtain ⟨hclient, hrest⟩ := List.append_inj hrest (hc.trans hc'.symm)
  exact ⟨hlisten, hclient, (List.append_inj hrest (by simp)).2⟩

/-- If no two messages have one tag, a proof is good for one token, one listener, one client and
one ALPN. -/
theorem pairingProof_inj [Hmac]
    (hmac : ∀ k k' m m' : Bytes, Hmac.mac k m = Hmac.mac k' m' → k = k' ∧ m = m')
    {t t' l l' c c' a a' : Bytes} (hl : l.length = pubkeyLen) (hl' : l'.length = pubkeyLen)
    (hc : c.length = pubkeyLen) (hc' : c'.length = pubkeyLen)
    (h : pairingProof t l c a = pairingProof t' l' c' a') : t = t' ∧ l = l' ∧ c = c' ∧ a = a' := by
  obtain ⟨htoken, hinput⟩ := hmac _ _ _ _ h
  exact ⟨htoken, proofInput_inj hl hl' hc hc' hinput⟩

/-- `read_pairing_frame`, as a function of what was read: the token bytes and what was read past
them, once the frame is whole. -/
def pairingFrame : Bytes → Option (Bytes × Bytes)
  | [] => none
  | n :: rest =>
    if rest.length < n.toNat then none else some (rest.take n.toNat, rest.drop n.toNat)

/-! ## The paired-device store -/

/-- The characters of `hexByte`. -/
def hexChars (b : UInt8) : List Char :=
  List.replicate (2 - (Nat.toDigits 16 b.toNat).length) '0' ++ Nat.toDigits 16 b.toNat

/-- `encode_hex`. -/
def encodeHex (b : Bytes) : String := String.ofList (b.flatMap hexChars)

/-- Unicode white space. -/
def whiteSpace (c : Char) : Bool :=
  c.toNat ∈ [0x20, 0x85, 0xA0, 0x1680, 0x2028, 0x2029, 0x202F, 0x205F, 0x3000] ∨
    (0x9 ≤ c.toNat ∧ c.toNat ≤ 0xD) ∨ (0x2000 ≤ c.toNat ∧ c.toNat ≤ 0x200A)

/-- `str::trim`. -/
def trim (s : String) : String :=
  String.ofList (((s.toList.dropWhile whiteSpace).reverse.dropWhile whiteSpace).reverse)

/-- `pairing::load`: the lines of the store, trimmed; blank ones do not count. -/
def load (file : List String) : List String := (file.map trim).filter (· ≠ "")

/-- The two digits of a byte, as a number. -/
def ofHexChars : List Char → ℕ
  | [c, d] => 16 * (if c.toNat < 58 then c.toNat - 48 else c.toNat - 87) +
      (if d.toNat < 58 then d.toNat - 48 else d.toNat - 87)
  | _ => 0

/-- A byte has two digits. -/
theorem hexChars_eq (b : UInt8) :
    hexChars b = [(b.toNat / 16).digitChar, (b.toNat % 16).digitChar] := by
  unfold hexChars
  by_cases hb : b.toNat < 16
  · rw [Nat.toDigits_of_lt_base hb, Nat.div_eq_of_lt hb, Nat.mod_eq_of_lt hb]
    rfl
  · have hhigh : b.toNat / 16 < 16 := by
      have := b.toNat_lt
      omega
    rw [Nat.toDigits_of_base_le (by decide) (by omega), Nat.toDigits_of_lt_base hhigh]
    rfl

/-- A digit is no white space, and can be read back. -/
theorem digitChar_readable : ∀ n < 16, whiteSpace n.digitChar = false ∧
    (if n.digitChar.toNat < 58 then n.digitChar.toNat - 48 else n.digitChar.toNat - 87) = n := by
  decide

/-- The digits of every byte: two of them, no white space, and they can be read back. -/
theorem hexChars_digits (b : UInt8) :
    (hexChars b).length = 2 ∧ (∀ c ∈ hexChars b, whiteSpace c = false) ∧
      ofHexChars (hexChars b) = b.toNat := by
  have hhigh := digitChar_readable (b.toNat / 16) (by have := b.toNat_lt; omega)
  have hlow := digitChar_readable (b.toNat % 16) (by omega)
  rw [hexChars_eq]
  refine ⟨rfl, ?_, ?_⟩
  · simp [hhigh.1, hlow.1]
  · rw [ofHexChars, hhigh.2, hlow.2]
    exact Nat.div_add_mod _ _

/-- Different bytes have different digits. -/
theorem hexChars_injective : Function.Injective hexChars := by
  intro b c h
  have hb := (hexChars_digits b).2.2
  rw [h, (hexChars_digits c).2.2] at hb
  exact UInt8.toNat_inj.1 hb.symm

/-- **Different endpoint ids are different lines of the store.** -/
theorem encodeHex_injective : Function.Injective encodeHex := by
  intro b c h
  have hchars : b.flatMap hexChars = c.flatMap hexChars := by
    simpa [encodeHex] using congrArg String.toList h
  clear h
  induction b generalizing c with
  | nil =>
    cases c with
    | nil => rfl
    | cons y c =>
      have hlen := congrArg List.length hchars
      simp [(hexChars_digits y).1] at hlen
      omega
  | cons x b ih =>
    cases c with
    | nil =>
      have hlen := congrArg List.length hchars
      simp [(hexChars_digits x).1] at hlen
    | cons y c =>
      rw [List.flatMap_cons, List.flatMap_cons] at hchars
      obtain ⟨hxy, hrest⟩ :=
        List.append_inj hchars ((hexChars_digits x).1.trans (hexChars_digits y).1.symm)
      rw [hexChars_injective hxy, ih hrest]

/-- A line without white space is not trimmed. -/
theorem trim_encodeHex (b : Bytes) : trim (encodeHex b) = encodeHex b := by
  have hnone : ∀ c ∈ b.flatMap hexChars, whiteSpace c = false := by
    intro c hc
    obtain ⟨x, -, hx⟩ := List.mem_flatMap.1 hc
    exact (hexChars_digits x).2.1 c hx
  have hdrop : ∀ l : List Char, (∀ c ∈ l, whiteSpace c = false) → l.dropWhile whiteSpace = l := by
    intro l hl
    cases l with
    | nil => rfl
    | cons c l => rw [List.dropWhile_cons_of_neg (by simp [hl c])]
  rw [trim, encodeHex, String.toList_ofList, hdrop _ hnone,
    hdrop _ (fun c hc => hnone c (List.mem_reverse.1 hc)), List.reverse_reverse]

/-- **A device that was persisted is loaded as it is**, and nothing else is added. -/
theorem load_persist (file : List String) (peer : Bytes) (s : String)
    (h : s ∈ load (file ++ [encodeHex peer])) : s ∈ load file ∨ s = encodeHex peer := by
  rw [load, List.map_append, List.filter_append] at h
  rcases List.mem_append.1 h with hold | hnew
  · exact .inl hold
  · simp only [List.map_cons, List.map_nil, trim_encodeHex] at hnew
    exact .inr (List.mem_singleton.1 (List.mem_of_mem_filter hnew))

end Listener
