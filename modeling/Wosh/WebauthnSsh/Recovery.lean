import Wosh.WebauthnSsh.Assertion

set_option relaxedAutoImplicit false
set_option autoImplicit false

/-!
# Recovering the public key

`recover_public_key` of `webauthn-ssh/src/lib.rs`: the key that several assertions have in common. Each
signature verifies under a few keys, which are recovered from it; what remains is the intersection.

## Main definitions

* `WebauthnSsh.P256` — the arithmetic, and `WebauthnSsh.P256.Complete`, `WebauthnSsh.P256.Encodes`, what
  is relied on of it.
* `WebauthnSsh.recoverCandidates`, `WebauthnSsh.recoverPublicKey` — the recovery.
* `WebauthnSsh.VerifiesAll` — the key verifies all of the assertions.

## Main results

* `WebauthnSsh.mem_recoverCandidates` — the candidates of an assertion are the keys that verify it.
* `WebauthnSsh.recoverPublicKey_exact` — a key is recovered exactly if it is the only one that verifies
  all of the assertions, in whatever order they come and however often.

## Design

The crates `p256` and `sha2` are not part of the repository: they are the structure `P256`.
-/

namespace WebauthnSsh

open Tunnel (Bytes)
open Fallible (require)

/-! ## The arithmetic -/

/-- What is used of the crates. -/
structure P256 where
  /-- `VerifyingKey`. -/
  Key : Type
  /-- `Signature`, as two valid scalars. -/
  Scalars : Type
  /-- `Sha256::digest`. -/
  digest : Bytes → Bytes
  /-- `Signature::from_scalars`. -/
  fromScalars : Bytes → Bytes → Option Scalars
  /-- `VerifyingKey::recover_from_prehash`, for whether the x coordinate was reduced and whether the y
  coordinate is odd. -/
  recoverFromPrehash : Bytes → Scalars → Bool × Bool → Option Key
  /-- `verify_prehash`. -/
  verifyPrehash : Key → Bytes → Scalars → Bool
  /-- `to_encoded_point(false)`. -/
  encodedPoint : Key → Bytes

/-- The four recovery ids, in the order they are tried. -/
def recoveryIds : List (Bool × Bool) := [(false, false), (false, true), (true, false), (true, true)]

/-- Every key that verifies a signature is recovered with one of the ids. -/
def P256.Complete (C : P256) : Prop :=
  ∀ key prehash scalars, C.verifyPrehash key prehash scalars = true →
    ∃ id ∈ recoveryIds, C.recoverFromPrehash prehash scalars id = some key

/-- Different keys are encoded as different points. -/
def P256.Encodes (C : P256) : Prop := Function.Injective C.encodedPoint

/-! ## The recovery -/

section Recovery

variable (C : P256)

/-- The digest that a signature is made over (`webauthn_prehash`). -/
def webauthnPrehash (assertion : Assertion) : Bytes :=
  C.digest (assertion.authenticatorData ++ C.digest assertion.clientDataJson)

/-- Left-pad a scalar to the fixed width of the curve. -/
def pad32 (value : Bytes) : Option Bytes :=
  let value := match value with
    | 0 :: rest => rest
    | other => other
  if 32 < value.length then none else some (List.replicate (32 - value.length) 0 ++ value)

/-- The two scalars of the signature. -/
def scalarsOf (assertion : Assertion) : Except Failure C.Scalars := do
  let (r, s) ← ecdsaDerParts assertion.signature
  let r ← okOr (pad32 r) (.malformedSignature "r is wider than the curve")
  let s ← okOr (pad32 s) (.malformedSignature "s is wider than the curve")
  okOr (C.fromScalars r s) (.malformedSignature "r or s is not a valid scalar")

/-- Try one recovery id. The key is checked back against the signature. -/
def tryRecovery (prehash : Bytes) (scalars : C.Scalars) (found : List Bytes) (id : Bool × Bool) :
    List Bytes :=
  match C.recoverFromPrehash prehash scalars id with
  | none => found
  | some key =>
    if C.verifyPrehash key prehash scalars = false then found
    else if C.encodedPoint key ∈ found then found
    else found ++ [C.encodedPoint key]

/-- Every public key under which one assertion verifies (`recover_candidates`). -/
def recoverCandidates (assertion : Assertion) : Except Failure (List Bytes) := do
  let prehash := webauthnPrehash C assertion
  let scalars ← scalarsOf C assertion
  return recoveryIds.foldl (tryRecovery C prehash scalars) []

/-- The keys in common with those that came before. -/
def commonKeys : Option (List Bytes) → List Assertion → Except Failure (Option (List Bytes))
  | common, [] => .ok common
  | common, assertion :: assertions => do
    let candidates ← recoverCandidates C assertion
    let common := match common with
      | none => candidates
      | some prev => prev.filter (· ∈ candidates)
    commonKeys (some common) assertions

/-- The key, if there is one in common. -/
def onlyKey : List Bytes → Except Failure Bytes
  | [key] => .ok key
  | [] => fail .recoveryFoundNothing
  | keys => fail (.recoveryAmbiguous keys.length)

/-- Recover the credential's public key from assertions it produced, as an uncompressed point. -/
def recoverPublicKey (assertions : List Assertion) : Except Failure Bytes := do
  require (2 ≤ assertions.length) (.error (.recoveryNeedsTwo assertions.length))
  let common ← commonKeys C none assertions
  onlyKey (common.getD [])

/-! ## What is recovered -/

/-- The assertion has scalars, and the key verifies it. -/
def Verifies (key : C.Key) (assertion : Assertion) : Prop :=
  ∃ scalars, scalarsOf C assertion = .ok scalars ∧
    C.verifyPrehash key (webauthnPrehash C assertion) scalars = true

/-- The key verifies all of the assertions. -/
def VerifiesAll (key : C.Key) (assertions : List Assertion) : Prop :=
  ∀ assertion ∈ assertions, Verifies C key assertion

variable {C} {prehash : Bytes} {scalars : C.Scalars} {assertion : Assertion}
  {assertions : List Assertion}

/-- The keys that some ids lead to are added once each. -/
theorem foldl_tryRecovery (prehash : Bytes) (scalars : C.Scalars) (ids : List (Bool × Bool))
    {found : List Bytes} (hfound : found.Nodup) :
    (ids.foldl (tryRecovery C prehash scalars) found).Nodup ∧
      ∀ point, point ∈ ids.foldl (tryRecovery C prehash scalars) found ↔ point ∈ found ∨
        ∃ id ∈ ids, ∃ key, C.recoverFromPrehash prehash scalars id = some key ∧
          C.verifyPrehash key prehash scalars = true ∧ C.encodedPoint key = point := by
  induction ids generalizing found with
  | nil => exact ⟨hfound, fun point => by simp⟩
  | cons id ids ih =>
    -- what one id adds
    have hstep : (tryRecovery C prehash scalars found id).Nodup ∧
        ∀ point, point ∈ tryRecovery C prehash scalars found id ↔ point ∈ found ∨
          ∃ key, C.recoverFromPrehash prehash scalars id = some key ∧
            C.verifyPrehash key prehash scalars = true ∧ C.encodedPoint key = point := by
      unfold tryRecovery
      cases hkey : C.recoverFromPrehash prehash scalars id with
      | none => exact ⟨hfound, fun point => by simp⟩
      | some key =>
        dsimp only
        split_ifs with hverify hmem
        · exact ⟨hfound, fun point => by simp [hverify]⟩
        · refine ⟨hfound, fun point => ?_⟩
          constructor
          · exact .inl
          · rintro (hpoint | ⟨_, heq, -, rfl⟩)
            · exact hpoint
            · rw [← Option.some.inj heq]
              exact hmem
        · refine ⟨?_, fun point => ?_⟩
          · rw [List.nodup_append]
            refine ⟨hfound, List.nodup_singleton _, fun a ha b hb => ?_⟩
            rintro rfl
            rw [List.mem_singleton.1 hb] at ha
            exact hmem ha
          · rw [List.mem_append, List.mem_singleton]
            refine or_congr_right ⟨?_, ?_⟩
            · rintro rfl
              exact ⟨key, rfl, by simpa using hverify, rfl⟩
            · rintro ⟨_, heq, -, rfl⟩
              rw [← Option.some.inj heq]
    obtain ⟨hnodup, hmem⟩ := ih hstep.1
    refine ⟨hnodup, fun point => ?_⟩
    rw [List.foldl_cons, hmem, hstep.2, or_assoc]
    simp only [List.mem_cons, exists_eq_or_imp]

/-- **The candidates of an assertion** are the keys that verify it, once each. -/
theorem mem_recoverCandidates (hcomplete : C.Complete) (h : scalarsOf C assertion = .ok scalars) :
    ∃ candidates, recoverCandidates C assertion = .ok candidates ∧ candidates.Nodup ∧
      ∀ point, point ∈ candidates ↔ ∃ key, Verifies C key assertion ∧ C.encodedPoint key = point := by
  have hfold :=
    foldl_tryRecovery (webauthnPrehash C assertion) scalars recoveryIds List.nodup_nil
  refine ⟨_, by rw [recoverCandidates, h]; rfl, hfold.1, fun point => ?_⟩
  rw [hfold.2]
  constructor
  · rintro (hnil | ⟨id, -, key, -, hverify, hpoint⟩)
    · cases hnil
    · exact ⟨key, ⟨scalars, h, hverify⟩, hpoint⟩
  · rintro ⟨key, ⟨scalars', h', hverify⟩, hpoint⟩
    obtain rfl := Except.ok.inj (h.symm.trans h')
    obtain ⟨id, hid, hrecover⟩ := hcomplete key _ scalars hverify
    exact .inr ⟨id, hid, key, hrecover, hverify, hpoint⟩

/-- **The keys in common** are those that verify all of the assertions, once each.

**Proof sketch.** Induction on the assertions. The first one brings its candidates, each other one
leaves those that are candidates of it as well. -/
theorem commonKeys_some (hcomplete : C.Complete) (hencodes : C.Encodes) {prev : List Bytes}
    {S : C.Key → Prop} (hprev : prev.Nodup)
    (hmem : ∀ point, point ∈ prev ↔ ∃ key, S key ∧ C.encodedPoint key = point)
    (hparse : ∀ assertion ∈ assertions, ∃ scalars, scalarsOf C assertion = .ok scalars) :
    ∃ common, commonKeys C (some prev) assertions = .ok (some common) ∧ common.Nodup ∧
      ∀ point, point ∈ common ↔
        ∃ key, (S key ∧ VerifiesAll C key assertions) ∧ C.encodedPoint key = point := by
  induction assertions generalizing prev S with
  | nil =>
    refine ⟨prev, rfl, hprev, fun point => ?_⟩
    simpa [VerifiesAll] using hmem point
  | cons assertion assertions ih =>
    obtain ⟨scalars, hscalars⟩ := hparse assertion List.mem_cons_self
    obtain ⟨candidates, hrun, -, hcandidates⟩ := mem_recoverCandidates hcomplete hscalars
    have hboth : ∀ point, point ∈ prev.filter (· ∈ candidates) ↔
        ∃ key, (S key ∧ Verifies C key assertion) ∧ C.encodedPoint key = point := by
      intro point
      rw [List.mem_filter, decide_eq_true_eq, hmem, hcandidates]
      constructor
      · rintro ⟨⟨key, hkey, rfl⟩, key', hkey', heq⟩
        obtain rfl := hencodes heq
        exact ⟨key', ⟨hkey, hkey'⟩, rfl⟩
      · rintro ⟨key, ⟨hkey, hverifies⟩, rfl⟩
        exact ⟨⟨key, hkey, rfl⟩, key, hverifies, rfl⟩
    obtain ⟨common, hcommon, hnodup, hpoints⟩ :=
      ih (hprev.filter _) hboth fun a ha => hparse a (List.mem_cons_of_mem _ ha)
    refine ⟨common, ?_, hnodup, fun point => ?_⟩
    · rw [commonKeys, hrun]
      exact hcommon
    · rw [hpoints]
      simp only [VerifiesAll, List.forall_mem_cons, and_assoc]

/-- The keys in common, from the first assertion on. -/
theorem commonKeys_none (hcomplete : C.Complete) (hencodes : C.Encodes) (hne : assertions ≠ [])
    (hparse : ∀ assertion ∈ assertions, ∃ scalars, scalarsOf C assertion = .ok scalars) :
    ∃ common, commonKeys C none assertions = .ok (some common) ∧ common.Nodup ∧
      ∀ point, point ∈ common ↔ ∃ key, VerifiesAll C key assertions ∧ C.encodedPoint key = point := by
  cases assertions with
  | nil => exact absurd rfl hne
  | cons assertion assertions =>
    obtain ⟨scalars, hscalars⟩ := hparse assertion List.mem_cons_self
    obtain ⟨candidates, hrun, hnodup, hcandidates⟩ := mem_recoverCandidates hcomplete hscalars
    obtain ⟨common, hcommon, hnodup', hpoints⟩ := commonKeys_some hcomplete hencodes hnodup
      hcandidates fun a ha => hparse a (List.mem_cons_of_mem _ ha)
    refine ⟨common, ?_, hnodup', fun point => ?_⟩
    · rw [commonKeys, hrun]
      exact hcommon
    · rw [hpoints]
      simp only [VerifiesAll, List.forall_mem_cons]

/-- Either one key verifies all of the assertions, and it is recovered; or there is an error, and not
exactly one key does. -/
theorem recoverPublicKey_cases (hcomplete : C.Complete) (hencodes : C.Encodes)
    (htwo : 2 ≤ assertions.length)
    (hparse : ∀ assertion ∈ assertions, ∃ scalars, scalarsOf C assertion = .ok scalars) :
    (∃ key, recoverPublicKey C assertions = .ok (C.encodedPoint key) ∧
      VerifiesAll C key assertions ∧ ∀ key', VerifiesAll C key' assertions → key' = key) ∨
    (∃ e, recoverPublicKey C assertions = .error (.error e) ∧
      ¬ ∃ key, VerifiesAll C key assertions ∧ ∀ key', VerifiesAll C key' assertions → key' = key) := by
  obtain ⟨common, hrun, hnodup, hmem⟩ := commonKeys_none hcomplete hencodes
    (fun h => by rw [h] at htwo; cases htwo) hparse
  have hresult : recoverPublicKey C assertions = onlyKey common := by
    rw [recoverPublicKey, require, if_pos htwo, Fallible.ok_bind, hrun, Fallible.ok_bind,
      Option.getD_some]
  cases hcommon : common with
  | nil =>
    rw [hcommon] at hresult hmem
    refine .inr ⟨_, hresult, ?_⟩
    rintro ⟨key, hkey, -⟩
    cases (hmem _).2 ⟨key, hkey, rfl⟩
  | cons point points =>
    cases hpoints : points with
    | nil =>
      rw [hcommon, hpoints] at hresult hmem
      obtain ⟨key, hkey, rfl⟩ := (hmem point).1 (List.mem_singleton_self _)
      refine .inl ⟨key, hresult, hkey, fun key' hkey' => ?_⟩
      exact hencodes (List.mem_singleton.1 ((hmem _).2 ⟨key', hkey', rfl⟩))
    | cons point' points' =>
      rw [hcommon, hpoints] at hresult hmem hnodup
      refine .inr ⟨_, hresult, ?_⟩
      rintro ⟨key, -, hunique⟩
      obtain ⟨key₁, hkey₁, rfl⟩ := (hmem point).1 List.mem_cons_self
      obtain ⟨key₂, hkey₂, rfl⟩ := (hmem point').1 (List.mem_cons_of_mem _ List.mem_cons_self)
      rw [hunique key₁ hkey₁, hunique key₂ hkey₂, List.nodup_cons] at hnodup
      exact hnodup.1 List.mem_cons_self

theorem recoverPublicKey_eq_ok (hcomplete : C.Complete) (hencodes : C.Encodes)
    (htwo : 2 ≤ assertions.length)
    (hparse : ∀ assertion ∈ assertions, ∃ scalars, scalarsOf C assertion = .ok scalars)
    {point : Bytes} : recoverPublicKey C assertions = .ok point ↔
      ∃ key, VerifiesAll C key assertions ∧ (∀ key', VerifiesAll C key' assertions → key' = key) ∧
        point = C.encodedPoint key := by
  obtain ⟨key, hrun, hkey, hunique⟩ | ⟨e, hrun, hnot⟩ :=
    recoverPublicKey_cases hcomplete hencodes htwo hparse
  · rw [hrun, Except.ok.injEq]
    constructor
    · rintro rfl
      exact ⟨key, hkey, hunique, rfl⟩
    · rintro ⟨key', hkey', -, rfl⟩
      rw [hunique key' hkey']
  · rw [hrun]
    constructor
    · intro h
      cases h
    · rintro ⟨key, hkey, hunique, -⟩
      exact absurd ⟨key, hkey, hunique⟩ hnot

/-- **A key is recovered exactly if it is the only one** that verifies all of the assertions, and
otherwise there is an error. In whatever order the assertions come, and however often, the key that is
recovered is the same. -/
theorem recoverPublicKey_exact (C : P256) (hcomplete : C.Complete) (hencodes : C.Encodes)
    (assertions : List Assertion) (htwo : 2 ≤ assertions.length)
    (hparse : ∀ assertion ∈ assertions, ∃ scalars, scalarsOf C assertion = .ok scalars) :
    (∀ point, recoverPublicKey C assertions = .ok point ↔
      ∃ key, VerifiesAll C key assertions ∧ (∀ key', VerifiesAll C key' assertions → key' = key) ∧
        point = C.encodedPoint key) ∧
    ((¬ ∃! key, VerifiesAll C key assertions) →
      ∃ e, recoverPublicKey C assertions = .error (.error e)) ∧
    (∀ again : List Assertion, 2 ≤ again.length → (∀ a, a ∈ again ↔ a ∈ assertions) →
      ∀ point, recoverPublicKey C again = .ok point ↔
        recoverPublicKey C assertions = .ok point) := by
  refine ⟨fun point => recoverPublicKey_eq_ok hcomplete hencodes htwo hparse, fun hnot => ?_, ?_⟩
  · obtain ⟨key, -, hkey, hunique⟩ | ⟨e, he, -⟩ :=
      recoverPublicKey_cases hcomplete hencodes htwo hparse
    · exact absurd ⟨key, hkey, hunique⟩ hnot
    · exact ⟨e, he⟩
  · intro again htwo' hsame point
    have hall : ∀ key, VerifiesAll C key again ↔ VerifiesAll C key assertions := by
      intro key
      simp only [VerifiesAll, hsame]
    rw [recoverPublicKey_eq_ok hcomplete hencodes htwo' fun a ha => hparse a ((hsame a).1 ha),
      recoverPublicKey_eq_ok hcomplete hencodes htwo hparse]
    simp only [hall]

end Recovery

/-! ## Two ceremonies with one key -/

namespace Generator

/-- The digest of nothing. -/
def emptyDigest : Bytes :=
  BigEndian.bytes 32 0xe3b0c44298fc1c149afbf4c8996fb92427ae41e4649b934ca495991b7852b855

/-- The point of the private key 1. -/
def point : Bytes :=
  4 :: (BigEndian.bytes 32 0x6b17d1f2e12c4247f8bce6e563a440f277037d812deb33a0f4a13945d898c296 ++
    BigEndian.bytes 32 0x4fe342e2fe1a7f9b8ee7eb4a7c0f9e162bce33576b315ececbb6406837bf51f5)

/-- The other key that verifies the first signature. -/
def other₁ : Bytes :=
  4 :: (BigEndian.bytes 32 0x7a6e396ea9a3b1624513b5c19dbab93e58edfb72c43ce0f0e3b075d111d0dedc ++
    BigEndian.bytes 32 0xed36beea714ce3841dfd56756e17dc1d1c04a36d56a2e9e75b6af5545f13e3c0)

/-- The other key that verifies the second one. -/
def other₂ : Bytes :=
  4 :: (BigEndian.bytes 32 0x80d470d144a86bcbfd38595d3c18df0c6a9ea2a4033cc70ecca69ffbae11e523 ++
    BigEndian.bytes 32 0xebe0b19099dd3f38ebb592f1a3091636e5452608d2eaae5c5c5937b4d62a19bb)

/-- What the first ceremony signs, and its scalars. -/
def prehash₁ : Bytes :=
  BigEndian.bytes 32 0xe12bfaea7a08608ecb28622a8500fd7b18883d048351137825ca51a692b7403e

def scalars₁ : Bytes × Bytes :=
  (BigEndian.bytes 32 0x6b17d1f2e12c4247f8bce6e563a440f277037d812deb33a0f4a13945d898c296,
    BigEndian.bytes 32 0x4c43ccde5b34a2d5c3e5490fe8a53e6dd2a4bfd80a24a89426b1c0296eecdd83)

/-- What the second one signs, and its scalars. -/
def prehash₂ : Bytes :=
  BigEndian.bytes 32 0x4750e69abcadca780560d18ef9d9cca4b6e1f5c9f170e02e3667bccd82ba5c16

def scalars₂ : Bytes × Bytes :=
  (BigEndian.bytes 32 0x7cf27b188d034f7e8a52380304b51ac3c08969e277f21b35a60b48fc47669978,
    BigEndian.bytes 32 0x6221b0d9a4d88cfb47d984c8ff4773b43bb5afd634b17db1ee3982e4e5107ac7)

/-- The key that is recovered from the two signatures. -/
def recovered (prehash : Bytes) (scalars : Bytes × Bytes) (id : Bool × Bool) : Option Bytes :=
  if id = (false, false) then
    if prehash = prehash₁ ∧ scalars = scalars₁ then some other₁
    else if prehash = prehash₂ ∧ scalars = scalars₂ then some other₂
    else none
  else if id = (false, true) ∧ (prehash = prehash₁ ∧ scalars = scalars₁ ∨
      prehash = prehash₂ ∧ scalars = scalars₂) then some point
  else none

/-- The arithmetic of the two ceremonies, in a table. -/
@[reducible] def table : P256 where
  Key := Bytes
  Scalars := Bytes × Bytes
  digest := fun b =>
    if b = [] then emptyDigest
    else if b = 1 :: emptyDigest then prehash₁
    else if b = 2 :: emptyDigest then prehash₂
    else []
  fromScalars := fun r s => some (r, s)
  recoverFromPrehash := recovered
  verifyPrehash := fun key prehash scalars =>
    recoveryIds.any fun id => recovered prehash scalars id = some key
  encodedPoint := id

theorem complete_table : table.Complete := by
  intro key prehash scalars h
  obtain ⟨id, hid, hkey⟩ := List.any_eq_true.1 h
  exact ⟨id, hid, of_decide_eq_true hkey⟩

theorem encodes_table : table.Encodes := Function.injective_id

/-- The encoding of two scalars whose first bits are clear. -/
def signatureOf (scalars : Bytes × Bytes) : Bytes :=
  [48, 68, 2, 32] ++ scalars.1 ++ [2, 32] ++ scalars.2

def first : Assertion := ⟨[1], [], signatureOf scalars₁⟩

def second : Assertion := ⟨[2], [], signatureOf scalars₂⟩

end Generator

/-- The key of two ceremonies is recovered, and again if they come the other way around and one of them
twice. -/
theorem recoverPublicKey_exact_generator :
    recoverPublicKey Generator.table [Generator.first, Generator.second] = .ok Generator.point ∧
      recoverPublicKey Generator.table [Generator.second, Generator.first, Generator.second] =
        .ok Generator.point := by
  have hrun : recoverPublicKey Generator.table [Generator.first, Generator.second] =
      .ok Generator.point := by decide +kernel
  have hparse : ∀ assertion ∈ [Generator.first, Generator.second],
      ∃ scalars, scalarsOf Generator.table assertion = .ok scalars := by
    intro assertion hassertion
    rcases List.mem_pair.1 hassertion with rfl | rfl
    · exact ⟨Generator.scalars₁, by decide +kernel⟩
    · exact ⟨Generator.scalars₂, by decide +kernel⟩
  refine ⟨hrun, ((recoverPublicKey_exact Generator.table Generator.complete_table
    Generator.encodes_table [Generator.first, Generator.second] (by decide) hparse).2.2
      [Generator.second, Generator.first, Generator.second] (by decide) ?_ _).2 hrun⟩
  intro a
  simp only [List.mem_cons, List.not_mem_nil, or_false]
  constructor
  · rintro (h | h | h)
    · exact .inr h
    · exact .inl h
    · exact .inr h
  · rintro (h | h)
    · exact .inr (.inl h)
    · exact .inl h

end WebauthnSsh
