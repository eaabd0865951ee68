import Wosh.Lib.Ecma
import Wosh.WebauthnSsh.Recovery

set_option relaxedAutoImplicit false
set_option autoImplicit false

/-!
# The page's parser of signatures

`derToRawEcdsaSignature` of `site/passkey-store.ts`, which reads an `ECDSA-Sig-Value` where the component
has `ecdsa_der_parts`, and answers its two integers in 32 octets each.

## Main definitions

* `Passkey.derToRawEcdsaSignature` — the parser.
* `Passkey.Reads`, `Passkey.Lenient` — what the page takes for two integers in a SEQUENCE.
* `Passkey.Canonical` — the one encoding of two positive integers below `2 ^ 256`.
* `Passkey.Agrees` — the two parsers do the same with some bytes.

## Main results

* `Passkey.derToRaw_eq_some` — what the page accepts, and what it answers.
* `Passkey.agrees_iff` — the parsers agree on what is canonical, and on what is not even lenient.

## Design

An offset is a Number of the language, where `none` is NaN, and may run past the end or before the
beginning; an octet that is not there is `undefined`, here `none`.
-/

namespace Passkey

open Ecma
open Tunnel (Bytes)
open BigEndian (value bytes)

/-! ## The parser -/

/-- `x + y`. -/
def plus (x y : Option ℤ) : Option ℤ :=
  match x, y with
  | some x, some y => some (x + y)
  | _, _ => none

/-- `der[off]`. -/
def octetAt (der : Bytes) (off : Option ℤ) : Option UInt8 :=
  match off with
  | some (.ofNat i) => der[i]?
  | _ => none

/-- What an octet is to an operator on 32-bit integers. -/
def operand (b : Option UInt8) : ℤ := ((b.map UInt8.toNat).getD 0 : ℕ)

/-- The loop over the octets of a length in the long form. -/
def longLength (der : Bytes) : ℕ → Option ℤ → ℤ → ℤ × Option ℤ
  | 0, off, len => (len, off)
  | n + 1, off, len =>
    longLength der n (plus off (some 1)) (bitOr (shiftLeft len 8) (operand (octetAt der off)))

/-- A length, and the offset after it. -/
def readLength (der : Bytes) (off : Option ℤ) : Option ℤ × Option ℤ :=
  let len := octetAt der off
  let off := plus off (some 1)
  if bitAnd (operand len) 0x80 ≠ 0 then
    let long := longLength der (bitAnd (operand len) 0x7f).toNat off 0
    (some long.1, long.2)
  else (len.map fun b => (b.toNat : ℤ), off)

/-- The index that an argument of `subarray` stands for. -/
def relativeIndex (der : Bytes) (x : Option ℤ) : ℕ :=
  match x with
  | none => 0
  | some i => if i < 0 then (der.length + i).toNat else min i.toNat der.length

/-- `der.subarray(start, stop)`. -/
def subarray (der : Bytes) (start stop : Option ℤ) : Bytes :=
  (der.drop (relativeIndex der start)).take (relativeIndex der stop - relativeIndex der start)

/-- The contents of an INTEGER, and the offset after it. -/
def readInt (der : Bytes) (off : Option ℤ) : Option (Bytes × Option ℤ) :=
  if octetAt der off ≠ some 0x02 then none
  else
    let len := readLength der (plus off (some 1))
    some (subarray der len.2 (plus len.2 len.1), plus len.2 len.1)

/-- Strip leading zeros, as long as there are too many octets. -/
def stripZeros : Bytes → Bytes
  | [] => []
  | b :: x => if 32 < (b :: x).length ∧ b = 0 then stripZeros x else b :: x

/-- Strip a leading sign octet, then left-pad. -/
def fit32 (b : Bytes) : Option Bytes :=
  let x := stripZeros b
  if 32 < x.length then none else some (List.replicate (32 - x.length) 0 ++ x)

/-- The signature as `r ‖ s`, where a throw is `none`. -/
def derToRawEcdsaSignature (der : Bytes) : Option Bytes :=
  if octetAt der (some 0) ≠ some 0x30 then none
  else
    let seqLen := readLength der (some 1)
    if plus seqLen.2 seqLen.1 ≠ some (der.length : ℤ) then none
    else do
      let r ← readInt der seqLen.2
      let s ← readInt der r.2
      if s.2 ≠ some (der.length : ℤ) then none
      else return (← fit32 r.1) ++ (← fit32 s.1)

/-! ## What it takes for an encoding -/

/-- Octets from an offset on, and zeros for those that are not there. -/
def octets (der : Bytes) (o n : ℕ) : Bytes := (List.range n).map fun i => der.getD (o + i) 0

/-- A length at an offset, and where the contents begin: one octet below 128, or how many octets
follow, however many, and the last 32 bits of these in two's complement. -/
inductive LengthAt (der : Bytes) (o : ℕ) : ℕ → ℤ → Prop
  | short (b : UInt8) : der[o]? = some b → b.toNat < 128 → LengthAt der o (o + 1) b.toNat
  | long (b : UInt8) : der[o]? = some b → 128 ≤ b.toNat →
    LengthAt der o (o + 1 + (b.toNat - 128))
      ((value (octets der (o + 1) (b.toNat - 128)) : ℤ).bmod (2 ^ 32))

/-- A SEQUENCE that ends where the bytes do, the contents of an INTEGER at its front, and of another
that begins where the length of the first one leads, and ends where the bytes do. -/
def Reads (der r s : Bytes) : Prop :=
  ∃ (body start next stop : ℕ) (len : ℤ),
    (der[0]? = some 0x30 ∧ LengthAt der 1 body (der.length - body)) ∧
    (der[body]? = some 0x02 ∧ LengthAt der (body + 1) start len ∧ (start : ℤ) + len = next) ∧
    (der[next]? = some 0x02 ∧ LengthAt der (next + 1) stop (der.length - stop)) ∧
    r = (der.drop start).take len.toNat ∧ s = der.drop stop

/-- The page finds two integers below `2 ^ 256`, which may be zero, and written in any number of
octets. -/
def Lenient (der : Bytes) : Prop := ∃ r s, Reads der r s ∧ value r < 2 ^ 256 ∧ value s < 2 ^ 256

/-- The encoding of two positive integers below `2 ^ 256`. -/
def Canonical (der : Bytes) : Prop :=
  ∃ m n : ℤ, (0 < m ∧ m < 2 ^ 256) ∧ (0 < n ∧ n < 2 ^ 256) ∧ der = WebauthnSsh.sigValue m n

variable {der r s raw : Bytes} {o : ℕ}

/-! ## Lengths -/

@[simp] theorem plus_some (x y : ℤ) : plus (some x) (some y) = some (x + y) := rfl

@[simp] theorem octetAt_some (der : Bytes) (o : ℕ) : octetAt der (some o) = der[o]? := rfl

/-- An octet that is not there counts as zero. -/
theorem operand_getElem? (der : Bytes) (o : ℕ) : operand der[o]? = (der.getD o 0).toNat := by
  rw [operand, List.getD_eq_getElem?_getD]
  cases der[o]? with
  | none => rfl
  | some b => rfl

theorem length_octets (der : Bytes) (o n : ℕ) : (octets der o n).length = n := by
  rw [octets, List.length_map, List.length_range]

theorem octets_succ (der : Bytes) (o n : ℕ) :
    octets der o (n + 1) = der.getD o 0 :: octets der (o + 1) n := by
  rw [octets, octets, List.range_succ_eq_map, List.map_cons, List.map_map, Nat.add_zero]
  refine congrArg _ (List.map_congr_left fun i _ => ?_)
  rw [Function.comp_apply, Nat.succ_eq_add_one, Nat.add_right_comm, Nat.add_assoc]

/-- **The loop keeps the last 32 bits.** -/
theorem longLength_eq (der : Bytes) (n : ℕ) (o : ℕ) (x : ℤ) :
    longLength der n (some o) (x.bmod (2 ^ 32)) =
      ((x * 256 ^ n + value (octets der o n)).bmod (2 ^ 32), some ((o + n : ℕ) : ℤ)) := by
  induction n generalizing o x with
  | zero =>
    rw [longLength, pow_zero, mul_one, Nat.add_zero]
    simp [octets]
  | succ n ih =>
    have hbyte : (der.getD o 0).toNat < 2 ^ 8 := (der.getD o 0).toNat_lt
    have hshift : bitOr (shiftLeft (x.bmod (2 ^ 32)) 8) (operand (octetAt der (some o))) =
        (x * 256 + (der.getD o 0).toNat).bmod (2 ^ 32) := by
      rw [octetAt_some, operand_getElem?, bitOr_shiftLeft _ hbyte, Int.add_bmod, Int.bmod_mul_bmod,
        ← Int.add_bmod]
      norm_num
    have hoff : plus (some (o : ℤ)) (some 1) = some ((o + 1 : ℕ) : ℤ) := rfl
    rw [longLength, hshift, hoff, ih, octets_succ, BigEndian.value_cons, length_octets,
      Nat.add_right_comm o 1 n, Nat.add_assoc]
    congr 2
    push_cast
    ring

/-- The bit that tells the two forms of a length apart, and the others. -/
theorem formBit (b : UInt8) : (bitAnd (operand (some b)) 0x80 ≠ 0 ↔ 128 ≤ b.toNat) ∧
    (128 ≤ b.toNat → (bitAnd (operand (some b)) 0x7f).toNat = b.toNat - 128) := by
  have hall : ∀ n < 256, bitAnd (n : ℕ) 0x80 ≠ 0 ↔ 128 ≤ n := by decide +kernel
  have hlow := bitAnd_mask b.toNat (k := 7) (by decide)
  have hlt := b.toNat_lt
  refine ⟨hall b.toNat hlt, fun hb => ?_⟩
  have hoperand : operand (some b) = b.toNat := rfl
  rw [hoperand, show (0x7f : ℤ) = 2 ^ 7 - 1 from rfl, hlow]
  omega

/-- **A length is read as such.** -/
theorem readLength_eq {c : ℕ} {len : ℤ} (h : LengthAt der o c len) :
    readLength der (some o) = (some len, some (c : ℤ)) := by
  cases h with
  | short b hb hlt =>
    have hform : ¬ bitAnd (operand (some b)) 0x80 ≠ 0 := by
      rw [(formBit b).1]
      omega
    rw [readLength, octetAt_some, hb]
    exact if_neg hform
  | long b hb hge =>
    have hlong := longLength_eq der (b.toNat - 128) (o + 1) 0
    rw [Int.zero_bmod, zero_mul, zero_add] at hlong
    have hoff : plus (some (o : ℤ)) (some 1) = some ((o + 1 : ℕ) : ℤ) := rfl
    rw [readLength, octetAt_some, hb, hoff]
    dsimp only
    rw [if_pos ((formBit b).1.2 hge), (formBit b).2 hge, hlong]

/-- Where an octet is, there is a length. -/
theorem exists_lengthAt (h : o < der.length) : ∃ c len, LengthAt der o c len := by
  have hb : der[o]? = some der[o] := List.getElem?_eq_getElem h
  rcases Nat.lt_or_ge der[o].toNat 128 with hlt | hge
  · exact ⟨_, _, .short _ hb hlt⟩
  · exact ⟨_, _, .long _ hb hge⟩

/-- Where none is, no number is read. -/
theorem readLength_none (h : der.length ≤ o) : (readLength der (some o)).1 = none := by
  rw [readLength, octetAt_some, List.getElem?_eq_none h]
  rfl

/-- **What is read is a length, or not a number.** -/
theorem readLength_eq_some {x y : ℤ} (h : readLength der (some o) = (some x, some y)) :
    ∃ c : ℕ, y = c ∧ LengthAt der o c x := by
  rcases Nat.lt_or_ge o der.length with hlt | hge
  · obtain ⟨c, len, hlen⟩ := exists_lengthAt hlt
    rw [readLength_eq hlen] at h
    obtain ⟨hx, hy⟩ := Prod.mk.inj h
    rw [← Option.some.inj hx, ← Option.some.inj hy]
    exact ⟨c, rfl, hlen⟩
  · have hnone := readLength_none hge
    rw [h] at hnone
    cases hnone

/-! ## The two integers -/

theorem value_stripZeros (b : Bytes) : value (stripZeros b) = value b := by
  induction b with
  | nil => rfl
  | cons x b ih =>
    rw [stripZeros]
    split_ifs with h
    · rw [ih, h.2, BigEndian.value_cons]
      simp
    · rfl

/-- What is left begins with a zero only if it is short enough. -/
theorem stripZeros_short (b : Bytes) : (stripZeros b).length ≤ 32 ∨
    ∃ x c, stripZeros b = x :: c ∧ x ≠ 0 ∧ 32 ≤ c.length := by
  induction b with
  | nil => exact .inl (by simp [stripZeros])
  | cons x b ih =>
    rw [stripZeros]
    split_ifs with h
    · exact ih
    · rw [List.length_cons]
      by_cases hlen : b.length < 32
      · exact .inl hlen
      · refine .inr ⟨x, b, rfl, fun hx => h ⟨?_, hx⟩, Nat.le_of_not_lt hlen⟩
        rw [List.length_cons]
        omega

/-- Octets with zeros in front of them. -/
theorem leftPad_eq {x : Bytes} (h : x.length ≤ 32) :
    List.replicate (32 - x.length) 0 ++ x = bytes 32 (value x) := by
  have hzeros : ∀ k, value (List.replicate k 0) = 0 := by
    intro k
    induction k with
    | zero => rfl
    | succ k ih => rw [List.replicate_succ, BigEndian.value_cons, ih]; simp
  have hlen : (List.replicate (32 - x.length) (0 : UInt8) ++ x).length = 32 := by
    rw [List.length_append, List.length_replicate]
    omega
  have hvalue : value (List.replicate (32 - x.length) 0 ++ x) = value x := by
    rw [BigEndian.value_append, hzeros, zero_mul, zero_add]
  have hbytes := BigEndian.bytes_value (List.replicate (32 - x.length) 0 ++ x)
  rw [hlen, hvalue] at hbytes
  exact hbytes.symm

/-- **What fits in 32 octets** is written in as many. -/
theorem fit32_eq_some {b x : Bytes} :
    fit32 b = some x ↔ value b < 2 ^ 256 ∧ x = bytes 32 (value b) := by
  have hvalue := value_stripZeros b
  rw [fit32]
  obtain hshort | ⟨y, c, heq, hy, hlong⟩ := stripZeros_short b
  · have hlt := BigEndian.value_lt (stripZeros b)
    have hpow : 256 ^ (stripZeros b).length ≤ 256 ^ 32 := Nat.pow_le_pow_right (by decide) hshort
    have h256 : (256 : ℕ) ^ 32 = 2 ^ 256 := by norm_num
    rw [if_neg (Nat.not_lt.2 hshort), leftPad_eq hshort, Option.some.injEq, hvalue]
    constructor
    · rintro rfl
      exact ⟨by omega, rfl⟩
    · rintro ⟨-, rfl⟩
      rfl
  · have hlength : 32 < (stripZeros b).length := by
      rw [heq, List.length_cons]
      omega
    have hpow : 256 ^ 32 ≤ 256 ^ c.length := Nat.pow_le_pow_right (by decide) hlong
    have h256 : (256 : ℕ) ^ 32 = 2 ^ 256 := by norm_num
    have hpos : 0 < y.toNat := by
      refine Nat.pos_of_ne_zero fun h => hy ?_
      exact UInt8.toNat_inj.1 h
    have hge : 1 * 256 ^ c.length ≤ y.toNat * 256 ^ c.length := Nat.mul_le_mul_right _ hpos
    rw [heq, BigEndian.value_cons] at hvalue
    rw [if_pos hlength]
    constructor
    · intro h
      cases h
    · rintro ⟨hlt, -⟩
      omega

/-- Contents as far as there are any. -/
theorem subarray_eq (der : Bytes) (o : ℕ) {len : ℤ} (h : 0 ≤ o + len) :
    subarray der (some o) (some (o + len)) = (der.drop o).take len.toNat := by
  have hstart : relativeIndex der (some o) = min o der.length := by
    rw [relativeIndex, if_neg (by omega), Int.toNat_natCast]
  have hstop : relativeIndex der (some (o + len)) = min (o + len).toNat der.length := by
    rw [relativeIndex, if_neg (by omega)]
  have hdrop : der.drop (min o der.length) = der.drop o := by
    rcases Nat.le_total o der.length with hle | hle
    · rw [Nat.min_eq_left hle]
    · rw [Nat.min_eq_right hle, List.drop_length, List.drop_eq_nil_of_le hle]
  rw [subarray, hstart, hstop, hdrop, List.take_eq_take_iff, List.length_drop]
  omega

theorem octetAt_eq_some {off : Option ℤ} {b : UInt8} :
    octetAt der off = some b ↔ ∃ o : ℕ, off = some (o : ℤ) ∧ der[o]? = some b := by
  constructor
  · intro h
    unfold octetAt at h
    split at h
    · exact ⟨_, rfl, h⟩
    · cases h
  · rintro ⟨o, rfl, h⟩
    exact h

theorem plus_eq_some {x y : Option ℤ} {z : ℤ} :
    plus x y = some z ↔ ∃ a b, x = some a ∧ y = some b ∧ a + b = z := by
  cases x with
  | none => simp [plus]
  | some a =>
    cases y with
    | none => simp [plus]
    | some b => simp [plus]

/-- **An INTEGER is read** where there is one; what follows it may be before it. -/
theorem readInt_eq_some {off : Option ℤ} {c : Bytes} {y : ℤ} (hy : 0 ≤ y) :
    readInt der off = some (c, some y) ↔ ∃ (o start : ℕ) (len : ℤ), off = some (o : ℤ) ∧
      der[o]? = some 0x02 ∧ LengthAt der (o + 1) start len ∧ start + len = y ∧
      c = (der.drop start).take len.toNat := by
  constructor
  · intro h
    rw [readInt] at h
    split_ifs at h with htag
    obtain ⟨o, rfl, ho⟩ := octetAt_eq_some.1 (not_not.1 htag)
    obtain ⟨hc, hnext⟩ := Prod.mk.inj (Option.some.inj h)
    obtain ⟨start, len, hstart, hlen, rfl⟩ := plus_eq_some.1 hnext
    have hread : readLength der (some ((o + 1 : ℕ) : ℤ)) = (some len, some start) :=
      Prod.ext hlen hstart
    obtain ⟨start, rfl, hat⟩ := readLength_eq_some hread
    refine ⟨o, start, len, rfl, ho, hat, rfl, ?_⟩
    rw [← hc, hstart, hlen, plus_some, subarray_eq der start hy]
  · rintro ⟨o, start, len, rfl, ho, hat, rfl, rfl⟩
    have htag : ¬ octetAt der (some (o : ℤ)) ≠ some 0x02 := not_not.2 ho
    have hoff : plus (some (o : ℤ)) (some 1) = some ((o + 1 : ℕ) : ℤ) := rfl
    rw [readInt, if_neg htag, hoff, readLength_eq hat]
    dsimp only
    rw [plus_some, subarray_eq der start hy]

/-- **What the page accepts**, and what it answers. -/
theorem derToRaw_eq_some : derToRawEcdsaSignature der = some raw ↔ ∃ r s, Reads der r s ∧
    (value r < 2 ^ 256 ∧ value s < 2 ^ 256) ∧ raw = bytes 32 (value r) ++ bytes 32 (value s) := by
  have hlength : (0 : ℤ) ≤ der.length := Int.natCast_nonneg _
  rw [derToRawEcdsaSignature]
  constructor
  · intro h
    split_ifs at h with htag
    dsimp only at h
    split_ifs at h with hend
    obtain ⟨body, len, hbody, hlen, hsum⟩ := plus_eq_some.1 (not_not.1 hend)
    obtain ⟨body, rfl, hat⟩ := readLength_eq_some (o := 1) (Prod.ext hlen hbody)
    obtain ⟨⟨r, next⟩, hr, h⟩ := Option.bind_eq_some_iff.1 h
    obtain ⟨⟨s, stop⟩, hs, h⟩ := Option.bind_eq_some_iff.1 h
    dsimp only at hs h
    split_ifs at h with hstop
    obtain ⟨x, hx, h⟩ := Option.bind_eq_some_iff.1 h
    obtain ⟨y, hy, h⟩ := Option.bind_eq_some_iff.1 h
    obtain ⟨hrlt, rfl⟩ := fit32_eq_some.1 hx
    obtain ⟨hslt, rfl⟩ := fit32_eq_some.1 hy
    rw [not_not.1 hstop] at hs
    obtain ⟨next, stop, len', rfl, hnext, hstop, hsum', rfl⟩ := (readInt_eq_some hlength).1 hs
    rw [hbody] at hr
    obtain ⟨body', start, len'', hbody', hinteger, hstart, hsum'', rfl⟩ :=
      (readInt_eq_some (Int.natCast_nonneg _)).1 hr
    obtain rfl : body' = body := Int.ofNat.inj (Option.some.inj hbody').symm
    refine ⟨_, _, ⟨body', start, next, stop, len'', ⟨not_not.1 htag, ?_⟩,
      ⟨hinteger, hstart, hsum''⟩, ⟨hnext, ?_⟩, rfl, ?_⟩, ⟨hrlt, hslt⟩, ?_⟩
    · rwa [← hsum, add_sub_cancel_left]
    · rwa [← hsum', add_sub_cancel_left]
    · refine List.take_of_length_le ?_
      rw [List.length_drop]
      omega
    · exact (Option.some.inj h).symm
  · rintro ⟨_, _, ⟨body, start, next, stop, len, ⟨htag, hat⟩, ⟨hinteger, hstart, hsum⟩,
      ⟨hnext, hstop⟩, rfl, rfl⟩, ⟨hrlt, hslt⟩, rfl⟩
    have hseq : readLength der (some 1) = _ := readLength_eq hat
    have hr : readInt der (some body) = some ((der.drop start).take len.toNat, some (next : ℤ)) :=
      (readInt_eq_some (Int.natCast_nonneg _)).2 ⟨_, _, _, rfl, hinteger, hstart, hsum, rfl⟩
    have hs : readInt der (some next) = some (der.drop stop, some (der.length : ℤ)) := by
      refine (readInt_eq_some hlength).2 ⟨_, _, _, rfl, hnext, hstop, by omega, ?_⟩
      refine (List.take_of_length_le ?_).symm
      rw [List.length_drop]
      omega
    have htag' : ¬ octetAt der (some 0) ≠ some 0x30 := not_not.2 htag
    rw [if_neg htag', hseq]
    dsimp only
    rw [plus_some, if_neg (by simp)]
    refine Option.bind_eq_some_iff.2 ⟨_, hr, Option.bind_eq_some_iff.2 ⟨_, hs, ?_⟩⟩
    dsimp only
    rw [if_neg (by simp)]
    refine Option.bind_eq_some_iff.2 ⟨_, fit32_eq_some.2 ⟨hrlt, rfl⟩, ?_⟩
    exact Option.bind_eq_some_iff.2 ⟨_, fit32_eq_some.2 ⟨hslt, rfl⟩, rfl⟩

/-! ## The component's parser -/

open WebauthnSsh (ecdsaDerParts ecdsaDerParts_eq_ok pad32 sequenceOf)

/-- The page's parser does with some bytes what the component's does: it answers a value exactly where
that one finds two integers of at most 32 octets, a sign octet aside, and then these, padded. -/
def Agrees (der : Bytes) : Prop :=
  ∀ raw, derToRawEcdsaSignature der = some raw ↔ ∃ r s x y, ecdsaDerParts der = .ok (r, s) ∧
    pad32 r = some x ∧ pad32 s = some y ∧ raw = x ++ y

/-- Contents of positive integers have their value. -/
theorem value_of_isPositive {c : Bytes} (h : Der.IsPositive c) : (value c : ℤ) = Der.signed c := by
  obtain ⟨first, rest, rfl, hfirst, -⟩ := h
  obtain ⟨-, hsigned⟩ | ⟨hneg, -⟩ := Der.signed_cons first rest
  · exact hsigned.symm
  · exact absurd hneg (UInt8.not_le.2 hfirst)

/-- Octets that do not begin with a zero fit if there are few enough. -/
theorem length_le_iff {x : UInt8} {c : Bytes} (hx : x ≠ 0) :
    (x :: c).length ≤ 32 ↔ value (x :: c) < 2 ^ 256 := by
  have h256 : (256 : ℕ) ^ 32 = 2 ^ 256 := by norm_num
  have hpos : 0 < x.toNat := Nat.pos_of_ne_zero fun h => hx (UInt8.toNat_inj.1 h)
  have hge : 1 * 256 ^ c.length ≤ x.toNat * 256 ^ c.length := Nat.mul_le_mul_right _ hpos
  have hvalue := BigEndian.value_cons x c
  constructor
  · intro hlen
    have hlt := BigEndian.value_lt (x :: c)
    have hpow : 256 ^ (x :: c).length ≤ 256 ^ 32 := Nat.pow_le_pow_right (by decide) hlen
    omega
  · intro hlt
    by_contra hlen
    have hpow : 256 ^ 32 ≤ 256 ^ c.length := by
      refine Nat.pow_le_pow_right (by decide) ?_
      rw [List.length_cons] at hlen
      omega
    omega

/-- The component strips the sign octet and pads; the outcome is the same. -/
theorem pad32_eq_some {c x : Bytes} (h : Der.IsPositive c) :
    pad32 c = some x ↔ value c < 2 ^ 256 ∧ x = bytes 32 (value c) := by
  -- without the sign octet: the same value, and no zero in front
  obtain ⟨y, c', hstrip, hy, hvalue⟩ : ∃ y c', pad32 c = (if 32 < (y :: c').length then none
      else some (List.replicate (32 - (y :: c').length) 0 ++ y :: c')) ∧ y ≠ 0 ∧
      value (y :: c') = value c := by
    obtain ⟨first, rest, rfl, -, hzero⟩ := h
    by_cases hfirst : first = 0
    · obtain ⟨second, tail, rfl, hset⟩ := hzero hfirst
      refine ⟨second, tail, by rw [hfirst]; rfl, ?_, by rw [hfirst, BigEndian.value_cons 0]; simp⟩
      rintro rfl
      exact absurd hset (by decide)
    · refine ⟨first, rest, ?_, hfirst, rfl⟩
      rw [pad32]
      exact fun _ heq => hfirst (List.cons.inj heq).1
  have hfits := length_le_iff (c := c') hy
  rw [hvalue] at hfits
  rw [hstrip, ← hfits, ← hvalue]
  split_ifs with hlong
  · constructor
    · intro h
      cases h
    · rintro ⟨hle, -⟩
      exact absurd hlong (Nat.not_lt.2 hle)
  · rw [leftPad_eq (Nat.le_of_not_lt hlong), Option.some.injEq]
    constructor
    · rintro rfl
      exact ⟨Nat.le_of_not_lt hlong, rfl⟩
    · rintro ⟨-, rfl⟩
      rfl

/-- An element is where the bytes from an offset on begin with one. -/
theorem element_at {tag : UInt8} {c rest : Bytes} (hle : c.length ≤ 255)
    (h : der.drop o = Der.element tag c ++ rest) : ∃ start ≤ der.length, der[o]? = some tag ∧
      LengthAt der (o + 1) start c.length ∧ der.drop start = c ++ rest := by
  have hget : ∀ k, der[o + k]? = (Der.element tag c ++ rest)[k]? := fun k => by
    rw [← h, List.getElem?_drop]
  have hdrop : ∀ k, der.drop (o + k) = (Der.element tag c ++ rest).drop k := fun k => by
    rw [← h, List.drop_drop]
  rcases Nat.lt_or_ge c.length 128 with hshort | hlong
  · have helement : Der.element tag c ++ rest = tag :: UInt8.ofNat c.length :: (c ++ rest) := by
      rw [Der.element, Der.lengthOctets_short hshort]
      simp
    rw [helement] at hget hdrop
    have hlen : (UInt8.ofNat c.length).toNat = c.length := by
      rw [UInt8.toNat_ofNat']
      omega
    refine ⟨o + 2, (List.getElem?_eq_some_iff.1 (hget 1)).1, hget 0, ?_, hdrop 2⟩
    have hat : LengthAt der (o + 1) _ _ := .short _ (hget 1) (by rw [hlen]; exact hshort)
    rwa [hlen] at hat
  · have helement : Der.element tag c ++ rest =
        tag :: 0x81 :: UInt8.ofNat c.length :: (c ++ rest) := by
      rw [Der.element, Der.lengthOctets_long hlong (by omega)]
      simp
    rw [helement] at hget hdrop
    have hlen : (UInt8.ofNat c.length).toNat = c.length := by
      rw [UInt8.toNat_ofNat']
      omega
    refine ⟨o + 3, (List.getElem?_eq_some_iff.1 (hget 2)).1, hget 0, ?_, hdrop 3⟩
    have hoctets : octets der (o + 1 + 1) 1 = [UInt8.ofNat c.length] := by
      have hthird := hget 2
      rw [octets_succ, List.getD_eq_getElem?_getD, hthird]
      rfl
    have hat : LengthAt der (o + 1) _ _ := .long _ (hget 1) (by decide)
    have hvalue : value [UInt8.ofNat c.length] = c.length := by
      rw [BigEndian.value_cons, hlen]
      simp
    have hone : (0x81 : UInt8).toNat - 128 = 1 := by decide
    rw [hone, hoctets, hvalue, Int.bmod_eq_of_le (by omega) (by omega)] at hat
    exact hat

/-- **What the component accepts, the page reads.** -/
theorem reads_of_ecdsaDerParts (h : ecdsaDerParts der = .ok (r, s)) : Reads der r s := by
  obtain ⟨-, -, hle, heq⟩ := ecdsaDerParts_eq_ok.1 h
  have hsum : (sequenceOf r s).length = (Der.element 0x02 r).length + (Der.element 0x02 s).length :=
    List.length_append
  have hlength : ∀ c : Bytes, c.length ≤ (Der.element 0x02 c).length := fun c => by
    rw [Der.element, List.length_cons, List.length_append]
    omega
  have hrle := hlength r
  have hsle := hlength s
  have hwhole : der.drop 0 = Der.element 0x30 (sequenceOf r s) ++ [] := by
    rw [List.drop_zero, List.append_nil, heq]
  obtain ⟨body, hbodyLe, hseq, hbody, hdrop⟩ := element_at hle hwhole
  rw [List.append_nil] at hdrop
  obtain ⟨start, -, hr, hstart, hdrop'⟩ := element_at (by omega) hdrop
  have hnext : der.drop (start + r.length) = Der.element 0x02 s ++ [] := by
    rw [← List.drop_drop, hdrop', List.drop_left, List.append_nil]
  obtain ⟨stop, hstopLe, hs, hstop, hdrop''⟩ := element_at (by omega) hnext
  rw [List.append_nil] at hdrop''
  have hbodyEnd := congrArg List.length hdrop
  have hstopEnd := congrArg List.length hdrop''
  rw [List.length_drop] at hbodyEnd hstopEnd
  have hbodyLen : ((sequenceOf r s).length : ℤ) = der.length - body := by omega
  have hstopLen : (s.length : ℤ) = der.length - stop := by omega
  rw [hbodyLen] at hbody
  rw [hstopLen] at hstop
  refine ⟨body, start, start + r.length, stop, r.length, ⟨hseq, hbody⟩, ⟨hr, hstart, by simp⟩,
    ⟨hs, hstop⟩, ?_, hdrop''.symm⟩
  rw [Int.toNat_natCast, hdrop', List.take_left]

/-- Contents of a positive integer that fits. -/
theorem integer_fits {v : ℤ} (hv : 0 < v) : Der.IsPositive (Der.integer v) ∧
    (value (Der.integer v) : ℤ) = v ∧ (v < 2 ^ 256 → (Der.integer v).length ≤ 33) := by
  have hpositive : Der.IsPositive (Der.integer v) := Der.isPositive_iff.2 ⟨v, hv, rfl⟩
  refine ⟨hpositive, ?_, fun hlt => ?_⟩
  · rw [value_of_isPositive hpositive, Der.signed_integer]
  · have hpow : (2 : ℤ) ^ 256 ≤ 2 ^ (8 * 32 + 7) := pow_le_pow_right₀ (by decide) (by decide)
    have hneg : -(2 : ℤ) ^ (8 * 32 + 7) ≤ 0 := neg_nonpos.2 (by positivity)
    rw [Der.length_integer]
    exact Der.width_le_iff.2 ⟨by omega, by omega⟩

/-- **What the component accepts, and pads,** are the canonical encodings. -/
theorem canonical_iff : Canonical der ↔ ∃ r s x y, ecdsaDerParts der = .ok (r, s) ∧
    pad32 r = some x ∧ pad32 s = some y := by
  have hcast : ((2 ^ 256 : ℕ) : ℤ) = 2 ^ 256 := by norm_num
  constructor
  · rintro ⟨m, n, ⟨hm, hm'⟩, ⟨hn, hn'⟩, rfl⟩
    obtain ⟨hr, hrvalue, hrlen⟩ := integer_fits hm
    obtain ⟨hs, hsvalue, hslen⟩ := integer_fits hn
    have hlength : ∀ c : Bytes, c.length ≤ 33 → (Der.element 0x02 c).length ≤ 35 := by
      intro c hc
      rw [Der.element, Der.lengthOctets_short (by omega)]
      simp
      omega
    have hle : (sequenceOf (Der.integer m) (Der.integer n)).length ≤ 255 := by
      have hler := hlength _ (hrlen hm')
      have hles := hlength _ (hslen hn')
      rw [sequenceOf, List.length_append]
      omega
    refine ⟨_, _, _, _, ecdsaDerParts_eq_ok.2 ⟨hr, hs, hle, rfl⟩,
      (pad32_eq_some hr).2 ⟨by omega, rfl⟩, (pad32_eq_some hs).2 ⟨by omega, rfl⟩⟩
  · rintro ⟨r, s, x, y, hparts, hx, hy⟩
    obtain ⟨hr, hs, -, rfl⟩ := ecdsaDerParts_eq_ok.1 hparts
    obtain ⟨hrlt, -⟩ := (pad32_eq_some hr).1 hx
    obtain ⟨hslt, -⟩ := (pad32_eq_some hs).1 hy
    obtain ⟨m, hm, rfl⟩ := Der.isPositive_iff.1 hr
    obtain ⟨n, hn, rfl⟩ := Der.isPositive_iff.1 hs
    have hrvalue := (integer_fits hm).2.1
    have hsvalue := (integer_fits hn).2.1
    exact ⟨m, n, ⟨hm, by omega⟩, ⟨hn, by omega⟩, rfl⟩

/-- Where the component accepts, the page answers what the claim says and nothing else. -/
theorem derToRaw_of_ecdsaDerParts {x y : Bytes} (h : ecdsaDerParts der = .ok (r, s))
    (hx : pad32 r = some x) (hy : pad32 s = some y) :
    derToRawEcdsaSignature der = some (x ++ y) := by
  obtain ⟨hr, hs, -, -⟩ := ecdsaDerParts_eq_ok.1 h
  obtain ⟨hrlt, rfl⟩ := (pad32_eq_some hr).1 hx
  obtain ⟨hslt, rfl⟩ := (pad32_eq_some hs).1 hy
  exact derToRaw_eq_some.2 ⟨r, s, reads_of_ecdsaDerParts h, ⟨hrlt, hslt⟩, rfl⟩

/-- **The two parsers agree** exactly on what is the canonical encoding of two positive integers below
`2 ^ 256`, and on what the page does not read at all. -/
theorem agrees_iff (der : Bytes) : Agrees der ↔ Canonical der ∨ ¬ Lenient der := by
  rw [canonical_iff]
  constructor
  · intro h
    by_cases hlenient : Lenient der
    · obtain ⟨r, s, hreads, hrlt, hslt⟩ := hlenient
      obtain ⟨r', s', x, y, hparts, hx, hy, -⟩ :=
        (h _).1 (derToRaw_eq_some.2 ⟨r, s, hreads, ⟨hrlt, hslt⟩, rfl⟩)
      exact .inl ⟨r', s', x, y, hparts, hx, hy⟩
    · exact .inr hlenient
  · rintro h raw
    constructor
    · intro hraw
      obtain ⟨r, s, x, y, hparts, hx, hy⟩ | hlenient := h
      · have hsame := derToRaw_of_ecdsaDerParts hparts hx hy
        rw [hraw] at hsame
        exact ⟨r, s, x, y, hparts, hx, hy, Option.some.inj hsame⟩
      · obtain ⟨r, s, hreads, hlt, -⟩ := derToRaw_eq_some.1 hraw
        exact absurd ⟨r, s, hreads, hlt⟩ hlenient
    · rintro ⟨r, s, x, y, hparts, hx, hy, rfl⟩
      exact derToRaw_of_ecdsaDerParts hparts hx hy

/-- A negative integer: the page answers 128 and 1, the component an error. -/
theorem not_agrees_negative : ¬ Agrees [0x30, 0x06, 0x02, 0x01, 0x80, 0x02, 0x01, 0x01] := by
  intro h
  have hpage : derToRawEcdsaSignature [0x30, 0x06, 0x02, 0x01, 0x80, 0x02, 0x01, 0x01] =
      some (List.replicate 31 0 ++ [0x80] ++ (List.replicate 31 0 ++ [0x01])) := by
    decide +kernel
  have hcomponent : ecdsaDerParts [0x30, 0x06, 0x02, 0x01, 0x80, 0x02, 0x01, 0x01] =
      .error (.error (.malformedSignature "r is negative")) := by
    rfl
  obtain ⟨r, s, x, y, hparts, -⟩ := (h _).1 hpage
  rw [hcomponent] at hparts
  cases hparts

end Passkey
