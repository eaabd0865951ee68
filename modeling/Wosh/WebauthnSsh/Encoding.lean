import Wosh.Lib.Fallible
import Wosh.Lib.Der
import Wosh.Tunnel.Replay

set_option relaxedAutoImplicit false
set_option autoImplicit false

/-!
# The encodings

The primitives of `webauthn-ssh/src/lib.rs`: strings with a length in front, and the parser of an
`ECDSA-Sig-Value ::= SEQUENCE { r INTEGER, s INTEGER }`.

## Main definitions

* `WebauthnSsh.Error`, `WebauthnSsh.Failure` — what can go wrong.
* `WebauthnSsh.putString`, `WebauthnSsh.takeString` — strings.
* `WebauthnSsh.derTake`, `WebauthnSsh.ecdsaDerParts` — elements, and the two integers of a signature.

## Main results

* `WebauthnSsh.takeString_eq_ok`, `WebauthnSsh.derTake_eq_ok` — what is taken off the front.
* `WebauthnSsh.ecdsaDerParts_exact` — the parser accepts canonical encodings of two positive integers,
  and nothing else, without a read out of bounds.

## Design

A slice that is out of bounds ends a function of the source with a panic. So that this can be said,
slices answer `Failure.panic` there.
-/

namespace WebauthnSsh

open Tunnel (Bytes)
open Fallible (require Errors)
open BigEndian (counted)

/-! ## Failures -/

/-- What can be wrong on the way from an assertion to a signature, or with a key line. -/
inductive Error
  | keyLength (expected got : ℕ)
  | pointNotUncompressed (first : UInt8)
  | authenticatorDataShort (got : ℕ)
  | attestedCredentialData
  | extensionFlagMismatch (flagSet : Bool) (bytes : ℕ)
  | noUserPresence
  | clientDataShape
  | clientDataNotUtf8
  | malformedSignature (why : String)
  | malformedLine (why : String)
  | recoveryNeedsTwo (got : ℕ)
  | recoveryFoundNothing
  | recoveryAmbiguous (candidates : ℕ)
deriving DecidableEq

/-- Why a function answers no value: with an error, or because a slice is out of bounds. -/
inductive Failure
  | error (e : Error)
  | panic
deriving DecidableEq

/-- A function that answers an error. -/
abbrev fail {α : Type} (e : Error) : Except Failure α := .error (.error e)

/-- A value that may be missing (`ok_or`). -/
def okOr {α : Type} (x : Option α) (e : Error) : Except Failure α :=
  match x with
  | some a => .ok a
  | none => fail e

theorem okOr_eq_ok {α : Type} {x : Option α} {e : Error} {a : α} :
    okOr x e = .ok a ↔ x = some a := by
  cases x with
  | none =>
    constructor
    · intro h
      cases h
    · intro h
      cases h
  | some b =>
    constructor
    · intro h
      rw [Except.ok.inj h]
    · intro h
      rw [Option.some.inj h]
      rfl

/-- The failure is an error that is answered. -/
def Failure.Answered (f : Failure) : Prop := ∃ e, f = .error e

theorem answered_error (e : Error) : (Failure.error e).Answered := ⟨e, rfl⟩

/-! ## Slices -/

/-- `b[i]`. -/
def index (b : Bytes) (i : ℕ) : Except Failure UInt8 :=
  match b[i]? with
  | some x => .ok x
  | none => .error .panic

/-- `&b[n..]`. -/
def sliceFrom (b : Bytes) (n : ℕ) : Except Failure Bytes :=
  if n ≤ b.length then .ok (b.drop n) else .error .panic

/-- `b.split_at(n)`. -/
def splitAt (b : Bytes) (n : ℕ) : Except Failure (Bytes × Bytes) :=
  if n ≤ b.length then .ok (b.take n, b.drop n) else .error .panic

variable {b c rest : Bytes} {n : ℕ}

theorem index_eq {x : UInt8} (h : b[n]? = some x) : index b n = .ok x := by
  rw [index, h]

theorem sliceFrom_eq (h : n ≤ b.length) : sliceFrom b n = .ok (b.drop n) := if_pos h

theorem splitAt_eq (h : n ≤ b.length) : splitAt b n = .ok (b.take n, b.drop n) := if_pos h

/-! ## Strings -/

/-- A string with its length in front (`put_string`, which appends it; `as u32`). -/
def putString (bytes : Bytes) : Bytes := BigEndian.bytes 4 bytes.length ++ bytes

/-- Read a length-prefixed string, and what follows it (`take_string`). -/
def takeString (input : Bytes) : Except Failure (Bytes × Bytes) := do
  require (4 ≤ input.length) (.error (.malformedLine "truncated length prefix"))
  let (lenBytes, rest) ← splitAt input 4
  let len := BigEndian.value lenBytes
  require (len ≤ rest.length)
    (.error (.malformedLine "string runs past the end of the blob"))
  splitAt rest len

/-- **What is taken** is a string that was put. -/
theorem takeString_eq_ok :
    takeString b = .ok (c, rest) ↔ c.length < 2 ^ 32 ∧ b = putString c ++ rest := by
  simp only [takeString, Fallible.require_bind_eq_ok]
  constructor
  · rintro ⟨hlen, h⟩
    rw [splitAt_eq hlen] at h
    obtain ⟨hfits, h⟩ := Fallible.require_bind_eq_ok.1 h
    rw [splitAt_eq hfits] at h
    obtain ⟨rfl, rfl⟩ := Prod.mk.inj (Except.ok.inj h)
    exact BigEndian.eq_counted b hlen hfits
  · rintro ⟨hshort, rfl⟩
    have hlen : (putString c ++ rest).length = 4 + c.length + rest.length := by
      rw [List.length_append]
      exact congrArg (· + rest.length) (BigEndian.length_counted c)
    have htake : (putString c ++ rest).take 4 = BigEndian.bytes 4 c.length :=
      BigEndian.take_counted c rest
    have hdrop : (putString c ++ rest).drop 4 = c ++ rest := BigEndian.drop_counted c rest
    have hvalue : BigEndian.value (BigEndian.bytes 4 c.length) = c.length :=
      BigEndian.value_bytes hshort
    refine ⟨by omega, ?_⟩
    rw [splitAt_eq (by omega), htake, hdrop]
    refine Fallible.require_bind_eq_ok.2 ?_
    dsimp only
    rw [hvalue, splitAt_eq (by simp), List.take_left, List.drop_left]
    exact ⟨by simp, rfl⟩

/-! ## Elements -/

/-- The length of an element, after its tag, and what follows it. -/
def derLength (afterTag : Bytes) : Except Failure (ℕ × Bytes) :=
  match afterTag with
  | [] => fail (.malformedSignature "truncated length")
  | first :: rest =>
    if first < 0x80 then .ok (first.toNat, rest)
    else if first = 0x81 then
      match rest with
      | [] => fail (.malformedSignature "truncated long-form length")
      | len :: rest =>
        if 0x80 ≤ len then .ok (len.toNat, rest)
        else fail (.malformedSignature "non-minimal length encoding")
    else fail (.malformedSignature "length is implausibly large")

/-- Take one element of the expected tag: its content, and what follows (`der_take`). -/
def derTake (input : Bytes) (tag : UInt8) (why : String) : Except Failure (Bytes × Bytes) := do
  require (input.head? = some tag) (.error (.malformedSignature why))
  let afterTag ← sliceFrom input 1
  let (len, content) ← derLength afterTag
  require (len ≤ content.length) (.error (.malformedSignature "element runs past the end"))
  splitAt content len

/-- Whether contents are those of a positive integer, which a message names (`check_der_integer`). -/
def checkDerInteger (value : Bytes) (which : String) : Except Failure Unit :=
  match value.head? with
  | none => fail (.malformedSignature (if which = "r" then "r is empty" else "s is empty"))
  | some first =>
    if first &&& 0x80 ≠ 0 then
      fail (.malformedSignature (if which = "r" then "r is negative" else "s is negative"))
    else if first = 0 ∧ ¬ (value[1]?.any fun b => b &&& 0x80 ≠ 0) then
      fail (.malformedSignature
        (if which = "r" then "r is zero, or has a non-canonical leading zero"
          else "s is zero, or has a non-canonical leading zero"))
    else .ok ()

/-- Split a signature into its two integer contents (`ecdsa_der_parts`). -/
def ecdsaDerParts (der : Bytes) : Except Failure (Bytes × Bytes) := do
  let (body, rest) ← derTake der 0x30 "expected a SEQUENCE"
  require (rest = []) (.error (.malformedSignature "trailing bytes after the SEQUENCE"))
  let (r, rest) ← derTake body 0x02 "expected an INTEGER for r"
  let (s, rest) ← derTake rest 0x02 "expected an INTEGER for s"
  require (rest = []) (.error (.malformedSignature "trailing bytes after s"))
  checkDerInteger r "r"
  checkDerInteger s "s"
  return (r, s)

/-- The length that is read is written in the fewest octets, and fits in one. -/
theorem derLength_eq_ok :
    derLength b = .ok (n, rest) ↔ n ≤ 255 ∧ b = Der.lengthOctets n ++ rest := by
  have hsmall : ∀ x : UInt8, x < 0x80 ↔ x.toNat < 128 := fun x => UInt8.lt_iff_toNat_lt
  constructor
  · intro h
    unfold derLength at h
    cases b with
    | nil => cases h
    | cons first b =>
      have hfirst : first.toNat < 256 := first.toNat_lt
      dsimp only at h
      split_ifs at h with hshort hlong
      · cases h
        refine ⟨by omega, ?_⟩
        rw [Der.lengthOctets_short ((hsmall first).1 hshort), UInt8.ofNat_toNat]
        rfl
      · cases b with
        | nil => cases h
        | cons len b =>
          have hlen : len.toNat < 256 := len.toNat_lt
          dsimp only at h
          split_ifs at h with hmin
          cases h
          refine ⟨by omega, ?_⟩
          rw [Der.lengthOctets_long (UInt8.le_iff_toNat_le.1 hmin) hlen, UInt8.ofNat_toNat, hlong]
          rfl
  · rintro ⟨hle, rfl⟩
    have hn : (UInt8.ofNat n).toNat = n := by
      rw [UInt8.toNat_ofNat']
      omega
    rcases Nat.lt_or_ge n 128 with hshort | hlong
    · have hlt : UInt8.ofNat n < 0x80 := (hsmall _).2 (by omega)
      rw [Der.lengthOctets_short hshort, List.singleton_append]
      unfold derLength
      dsimp only
      rw [if_pos hlt, hn]
    · have hge : 0x80 ≤ UInt8.ofNat n := UInt8.le_iff_toNat_le.2 (by rw [hn]; exact hlong)
      rw [Der.lengthOctets_long hlong (by omega), List.cons_append, List.singleton_append]
      unfold derLength
      dsimp only
      rw [if_neg (by decide), if_pos rfl, if_pos hge, hn]

/-- **What is taken** is a minimal element of the tag whose content is at most 255 bytes long. -/
theorem derTake_eq_ok {tag : UInt8} {why : String} : derTake b tag why = .ok (c, rest) ↔
    c.length ≤ 255 ∧ b = Der.element tag c ++ rest := by
  rw [derTake, Fallible.require_bind_eq_ok]
  constructor
  · rintro ⟨htag, h⟩
    obtain ⟨afterTag, rfl⟩ := List.head?_eq_some_iff.1 htag
    rw [sliceFrom_eq (by simp), Fallible.ok_bind] at h
    obtain ⟨⟨len, content⟩, hlength, h⟩ := Fallible.bind_eq_ok.1 h
    obtain ⟨hfits, h⟩ := Fallible.require_bind_eq_ok.1 h
    obtain ⟨hle, hcontent⟩ := derLength_eq_ok.1 hlength
    rw [splitAt_eq hfits] at h
    obtain ⟨rfl, rfl⟩ := Prod.mk.inj (Except.ok.inj h)
    rw [List.drop_succ_cons, List.drop_zero] at hcontent
    refine ⟨by rw [List.length_take]; omega, ?_⟩
    rw [hcontent, Der.element, List.length_take, Nat.min_eq_left hfits, List.cons_append,
      List.append_assoc, List.take_append_drop]
  · rintro ⟨hle, rfl⟩
    refine ⟨rfl, ?_⟩
    have hlength : derLength (Der.lengthOctets c.length ++ (c ++ rest)) =
        .ok (c.length, c ++ rest) := derLength_eq_ok.2 ⟨hle, rfl⟩
    rw [Der.element, List.cons_append, List.append_assoc, sliceFrom_eq (by simp), Fallible.ok_bind]
    refine Fallible.bind_eq_ok.2 ⟨_, hlength, ?_⟩
    refine Fallible.require_bind_eq_ok.2 ⟨by simp, ?_⟩
    rw [splitAt_eq (by simp), List.take_left, List.drop_left]

/-- Taking an element reads nothing out of bounds. -/
theorem errors_derTake (input : Bytes) (tag : UInt8) (why : String) :
    Errors Failure.Answered (derTake input tag why) := by
  refine Errors.require_bind (answered_error _) fun htag => ?_
  obtain ⟨afterTag, rfl⟩ := List.head?_eq_some_iff.1 htag
  rw [sliceFrom_eq (by simp), Fallible.ok_bind]
  refine Errors.bind ?_ fun p _ => ?_
  · unfold derLength
    split
    · exact Fallible.errors_error (answered_error _)
    · split_ifs
      · exact Fallible.errors_ok _
      · split
        · exact Fallible.errors_error (answered_error _)
        · split_ifs
          · exact Fallible.errors_ok _
          · exact Fallible.errors_error (answered_error _)
      · exact Fallible.errors_error (answered_error _)
  · refine Errors.require_bind (answered_error _) fun hfits => ?_
    rw [splitAt_eq hfits]
    exact Fallible.errors_ok _

/-- The bit that a mask singles out. -/
theorem highBit_iff (x : UInt8) : x &&& 0x80 ≠ 0 ↔ 0x80 ≤ x := by
  have hall : ∀ n < 256, UInt8.ofNat n &&& 0x80 ≠ 0 ↔ 0x80 ≤ UInt8.ofNat n := by decide +kernel
  have hx := hall x.toNat x.toNat_lt
  rwa [UInt8.ofNat_toNat] at hx

/-- **The contents that pass** are those of the positive integers. -/
theorem checkDerInteger_eq_ok {which : String} {u : Unit} :
    checkDerInteger c which = .ok u ↔ Der.IsPositive c := by
  unfold checkDerInteger
  cases c with
  | nil =>
    constructor
    · intro h
      cases h
    · rintro ⟨_, _, hnil, -⟩
      cases hnil
  | cons first c =>
    simp only [List.head?_cons, highBit_iff]
    constructor
    · intro h
      split_ifs at h with hneg hzero
      · refine ⟨first, c, rfl, UInt8.not_le.1 hneg, fun hfirst => ?_⟩
        cases c with
        | nil => exact absurd ⟨hfirst, by simp⟩ hzero
        | cons second c =>
          refine ⟨second, c, rfl, ?_⟩
          by_contra hset
          exact hzero ⟨hfirst, by simpa using hset⟩
    · rintro ⟨_, _, heq, hfirst, hzero⟩
      obtain ⟨rfl, rfl⟩ := List.cons.inj heq
      rw [if_neg (UInt8.not_le.2 hfirst), if_neg]
      rintro ⟨hfirst', hnone⟩
      obtain ⟨second, tail, rfl, hset⟩ := hzero hfirst'
      exact hnone (by simpa using hset)

theorem errors_checkDerInteger (value : Bytes) (which : String) :
    Errors Failure.Answered (checkDerInteger value which) := by
  unfold checkDerInteger
  split
  · exact Fallible.errors_error (answered_error _)
  · split
    · exact Fallible.errors_error (answered_error _)
    · split
      · exact Fallible.errors_error (answered_error _)
      · exact Fallible.errors_ok ()

/-! ## Signatures -/

/-- The two INTEGERs in a SEQUENCE, from their contents. -/
def sequenceOf (r s : Bytes) : Bytes := Der.element 0x02 r ++ Der.element 0x02 s

/-- The encoding of an `ECDSA-Sig-Value`. -/
def sigValue (r s : ℤ) : Bytes := Der.element 0x30 (sequenceOf (Der.integer r) (Der.integer s))

variable {der r s : Bytes}

/-- When the parser succeeds, in terms of contents. -/
theorem ecdsaDerParts_eq_ok : ecdsaDerParts der = .ok (r, s) ↔ Der.IsPositive r ∧
    Der.IsPositive s ∧ (sequenceOf r s).length ≤ 255 ∧ der = Der.element 0x30 (sequenceOf r s) := by
  have hlength : ∀ c : Bytes, c.length ≤ (Der.element 0x02 c).length := by
    intro c
    rw [Der.element, List.length_cons, List.length_append]
    omega
  unfold ecdsaDerParts
  constructor
  · intro h
    obtain ⟨⟨body, rest⟩, hbody, h⟩ := Fallible.bind_eq_ok.1 h
    obtain ⟨hrest, h⟩ := Fallible.require_bind_eq_ok.1 h
    obtain ⟨⟨r', rest'⟩, hr, h⟩ := Fallible.bind_eq_ok.1 h
    obtain ⟨⟨s', rest''⟩, hs, h⟩ := Fallible.bind_eq_ok.1 h
    obtain ⟨hrest'', h⟩ := Fallible.require_bind_eq_ok.1 h
    obtain ⟨_, hcheckr, h⟩ := Fallible.bind_eq_ok.1 h
    obtain ⟨_, hchecks, h⟩ := Fallible.bind_eq_ok.1 h
    obtain ⟨rfl, rfl⟩ := Prod.mk.inj (Fallible.pure_eq_ok.1 h)
    obtain ⟨hle, rfl⟩ := derTake_eq_ok.1 hbody
    obtain ⟨-, rfl⟩ := derTake_eq_ok.1 hr
    obtain ⟨-, hs⟩ := derTake_eq_ok.1 hs
    rw [hrest'', List.append_nil] at hs
    rw [hrest, List.append_nil, hs]
    rw [hs] at hle
    exact ⟨checkDerInteger_eq_ok.1 hcheckr, checkDerInteger_eq_ok.1 hchecks, hle, rfl⟩
  · rintro ⟨hr, hs, hle, rfl⟩
    have hler := hlength r
    have hles := hlength s
    have hsum : (sequenceOf r s).length = (Der.element 0x02 r).length + (Der.element 0x02 s).length :=
      List.length_append
    refine Fallible.bind_eq_ok.2 ⟨(sequenceOf r s, []), derTake_eq_ok.2 ⟨hle, by simp⟩, ?_⟩
    refine Fallible.require_bind_eq_ok.2 ⟨rfl, ?_⟩
    refine Fallible.bind_eq_ok.2
      ⟨(r, Der.element 0x02 s), derTake_eq_ok.2 ⟨by omega, rfl⟩, ?_⟩
    refine Fallible.bind_eq_ok.2 ⟨(s, []), derTake_eq_ok.2 ⟨by omega, by simp⟩, ?_⟩
    refine Fallible.require_bind_eq_ok.2 ⟨rfl, ?_⟩
    refine Fallible.bind_eq_ok.2 ⟨(), checkDerInteger_eq_ok.2 hr, ?_⟩
    exact Fallible.bind_eq_ok.2 ⟨(), checkDerInteger_eq_ok.2 hs, rfl⟩

/-- The parser reads nothing out of bounds. -/
theorem errors_ecdsaDerParts (der : Bytes) : Errors Failure.Answered (ecdsaDerParts der) := by
  refine (errors_derTake _ _ _).bind fun p _ => ?_
  refine Errors.require_bind (answered_error _) fun _ => ?_
  refine (errors_derTake _ _ _).bind fun p _ => ?_
  refine (errors_derTake _ _ _).bind fun p _ => ?_
  refine Errors.require_bind (answered_error _) fun _ => ?_
  refine (errors_checkDerInteger _ _).bind fun _ _ => ?_
  exact (errors_checkDerInteger _ _).bind fun _ _ => Fallible.errors_pure _

/-- **The parser accepts canonical encodings, and nothing else.** It finds the contents of two positive
integers exactly where it is given the encoding of the two, with contents of at most 255 bytes; what it
finds, encoded again, is what it was given; and everything else is answered with an error. -/
theorem ecdsaDerParts_exact (der : Bytes) :
    (∀ r s, ecdsaDerParts der = .ok (r, s) ↔ ∃ m n : ℤ, 0 < m ∧ 0 < n ∧ r = Der.integer m ∧
      s = Der.integer n ∧ r.length ≤ 255 ∧ s.length ≤ 255 ∧ (sequenceOf r s).length ≤ 255 ∧
      der = sigValue m n) ∧
    (∀ r s, ecdsaDerParts der = .ok (r, s) → Der.element 0x30 (sequenceOf r s) = der) ∧
    ((∀ r s, ecdsaDerParts der ≠ .ok (r, s)) → ∃ e, ecdsaDerParts der = .error (.error e)) := by
  refine ⟨fun r s => ?_, fun r s h => (ecdsaDerParts_eq_ok.1 h).2.2.2.symm, fun h => ?_⟩
  · rw [ecdsaDerParts_eq_ok, Der.isPositive_iff, Der.isPositive_iff]
    constructor
    · rintro ⟨⟨m, hm, rfl⟩, ⟨n, hn, rfl⟩, hle, rfl⟩
      have hsum : (sequenceOf (Der.integer m) (Der.integer n)).length =
          (Der.element 0x02 (Der.integer m)).length + (Der.element 0x02 (Der.integer n)).length :=
        List.length_append
      simp only [Der.element, List.length_cons, List.length_append] at hsum
      exact ⟨m, n, hm, hn, rfl, rfl, by omega, by omega, hle, rfl⟩
    · rintro ⟨m, n, hm, hn, rfl, rfl, -, -, hle, rfl⟩
      exact ⟨⟨m, hm, rfl⟩, ⟨n, hn, rfl⟩, hle, rfl⟩
  · obtain ⟨f, hf, e, rfl⟩ := (errors_ecdsaDerParts der).exists_error fun p => h p.1 p.2
    exact ⟨e, hf⟩

end WebauthnSsh
