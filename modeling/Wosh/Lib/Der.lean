import Wosh.Lib.BigEndian

set_option relaxedAutoImplicit false
set_option autoImplicit false

/-!
# Distinguished encodings

An element is a tag, the number of its contents octets in the fewest octets, and its contents. The
contents of an integer are its two's complement in the fewest octets.

## Main definitions

* `Der.lengthOctets`, `Der.element` — a length, and an element.
* `Der.signed`, `Der.integer` — the integer of some octets, and the contents octets of an integer.

## Main results

* `Der.signed_integer`, `Der.integer_length_le`, `Der.eq_integer` — these contents are the shortest
  for their integer, and the only ones that short.
* `Der.isPositive_iff` — the contents of positive integers can be told by their first two octets.
-/

namespace Der

open BigEndian (value bytes value_lt value_inj length_bytes)

/-! ## Elements -/

/-- How many octets a length takes that does not fit in seven bits. -/
def lengthWidth (n : ℕ) : ℕ := (Nat.size n + 7) / 8

/-- A length: itself if it fits in seven bits, else how many octets follow, and these. -/
def lengthOctets (n : ℕ) : List UInt8 :=
  if n < 128 then [UInt8.ofNat n]
  else UInt8.ofNat (128 + lengthWidth n) :: bytes (lengthWidth n) n

/-- An element. -/
def element (tag : UInt8) (contents : List UInt8) : List UInt8 :=
  tag :: (lengthOctets contents.length ++ contents)

theorem lengthOctets_short {n : ℕ} (h : n < 128) : lengthOctets n = [UInt8.ofNat n] := if_pos h

/-- A length that takes eight bits. -/
theorem lengthOctets_long {n : ℕ} (h : 128 ≤ n) (h' : n < 256) :
    lengthOctets n = [0x81, UInt8.ofNat n] := by
  have hwidth : lengthWidth n = 1 := by
    have hle : Nat.size n ≤ 8 := Nat.size_le.2 h'
    have hlt : 7 < Nat.size n := Nat.lt_size.2 h
    rw [lengthWidth]
    omega
  rw [lengthOctets, if_neg (Nat.not_lt.2 h), hwidth, bytes, bytes, pow_zero, Nat.div_one]
  rfl

/-! ## Integers -/

/-- The integer whose two's complement the octets are. -/
def signed (c : List UInt8) : ℤ := Int.bmod (value c) (256 ^ c.length)

/-- How many octets the two's complement of an integer takes: one bit more than the magnitude. -/
def width (v : ℤ) : ℕ := Nat.size (if 0 ≤ v then v else -v - 1).toNat / 8 + 1

/-- The contents octets of an integer. -/
def integer (v : ℤ) : List UInt8 := bytes (width v) (v % 256 ^ width v).toNat

section Integer

variable {v : ℤ} {c c' : List UInt8} {w : ℕ}

@[simp] theorem length_integer (v : ℤ) : (integer v).length = width v := length_bytes _ _

theorem integer_ne_nil (v : ℤ) : integer v ≠ [] := by
  intro h
  have hlen := length_integer v
  rw [h, width] at hlen
  cases hlen

/-- Half of the range of so many octets. -/
theorem pow_half (w : ℕ) : (256 : ℕ) ^ (w + 1) = 2 * 2 ^ (8 * w + 7) := by
  have h : (256 : ℕ) = 2 ^ 8 := rfl
  rw [h, ← pow_mul, ← pow_succ']
  congr 1

/-- An integer takes so many octets exactly if it is in their range. -/
theorem width_le_iff : width v ≤ w + 1 ↔ -2 ^ (8 * w + 7) ≤ v ∧ v < 2 ^ (8 * w + 7) := by
  have hsize : width v ≤ w + 1 ↔
      Nat.size (if 0 ≤ v then v else -v - 1).toNat ≤ 8 * w + 7 := by
    rw [width]
    omega
  have hcast : ((2 ^ (8 * w + 7) : ℕ) : ℤ) = 2 ^ (8 * w + 7) := by norm_num
  rw [hsize, Nat.size_le, ← hcast]
  split_ifs with hv <;> omega

/-- The octets are in their range. -/
theorem signed_range (hc : c ≠ []) : width (signed c) ≤ c.length := by
  obtain ⟨w, hw⟩ : ∃ w, c.length = w + 1 := Nat.exists_eq_succ_of_ne_zero fun h =>
    hc (List.eq_nil_of_length_eq_zero h)
  have hhalf := pow_half w
  have hlower := Int.le_bmod (x := (value c : ℤ)) (m := 256 ^ (w + 1)) (by positivity)
  have hupper := Int.bmod_lt (x := (value c : ℤ)) (m := 256 ^ (w + 1)) (by positivity)
  have hcast : ((2 ^ (8 * w + 7) : ℕ) : ℤ) = 2 ^ (8 * w + 7) := by norm_num
  rw [hw, width_le_iff, signed, hw, ← hcast]
  omega

/-- **An integer is read back from its contents.** -/
theorem signed_integer (v : ℤ) : signed (integer v) = v := by
  obtain ⟨w, hw⟩ : ∃ w, width v = w + 1 := ⟨_, rfl⟩
  have hrange := width_le_iff.1 hw.le
  have hhalf := pow_half w
  have hcast : ((2 ^ (8 * w + 7) : ℕ) : ℤ) = 2 ^ (8 * w + 7) := by norm_num
  have hpos : (0 : ℤ) < 256 ^ (w + 1) := by positivity
  have hlt : (v % 256 ^ (w + 1)).toNat < 256 ^ (w + 1) := by
    have := Int.emod_lt_of_pos v hpos
    zify
    rw [Int.toNat_of_nonneg (Int.emod_nonneg v hpos.ne')]
    exact this
  rw [signed, length_integer, integer, hw, BigEndian.value_bytes hlt,
    Int.toNat_of_nonneg (Int.emod_nonneg v hpos.ne')]
  have hmod := Int.emod_bmod v (256 ^ (w + 1))
  push_cast at hmod
  rw [hmod]
  apply Int.bmod_eq_of_le <;> omega

/-- **No other contents are shorter.** -/
theorem integer_length_le (hc : c ≠ []) (h : signed c = v) : (integer v).length ≤ c.length := by
  rw [length_integer, ← h]
  exact signed_range hc

/-- Equally many octets of the same integer are the same. -/
theorem signed_inj (hlen : c.length = c'.length) (h : signed c = signed c') : c = c' := by
  refine value_inj hlen ?_
  have hmod := congrArg (· % ((256 ^ c'.length : ℕ) : ℤ)) h
  simp only [signed, hlen, Int.bmod_emod] at hmod
  have hlt := value_lt c
  have hlt' := value_lt c'
  rw [hlen] at hlt
  have hnat : value c % 256 ^ c'.length = value c' % 256 ^ c'.length := by exact_mod_cast hmod
  rwa [Nat.mod_eq_of_lt hlt, Nat.mod_eq_of_lt hlt'] at hnat

/-- **No others are as short.** -/
theorem eq_integer (h : signed c = v) (hlen : c.length = (integer v).length) : c = integer v :=
  signed_inj hlen (h.trans (signed_integer v).symm)

/-- The first bit is the sign. -/
theorem signed_cons (first : UInt8) (rest : List UInt8) :
    (first < 0x80 ∧ signed (first :: rest) = value (first :: rest)) ∨
      (0x80 ≤ first ∧ signed (first :: rest) < 0) := by
  have hlt := value_lt rest
  have hhalf := pow_half rest.length
  have hhalf' : (2 : ℕ) ^ (8 * rest.length + 7) = 128 * 256 ^ rest.length := by
    rw [pow_succ] at hhalf
    omega
  have hfirst : first < 0x80 ↔ first.toNat < 128 := UInt8.lt_iff_toNat_lt
  have hbyte : first.toNat < 256 := first.toNat_lt
  have hvalue := BigEndian.value_cons first rest
  rw [signed, List.length_cons, Int.bmod_def, Int.emod_eq_of_lt (by omega)
    (by have := value_lt (first :: rest); exact_mod_cast this)]
  by_cases hneg : first.toNat < 128
  · have hle : first.toNat * 256 ^ rest.length ≤ 127 * 256 ^ rest.length :=
      Nat.mul_le_mul_right _ (by omega)
    refine .inl ⟨hfirst.2 hneg, if_pos ?_⟩
    omega
  · have hle : 128 * 256 ^ rest.length ≤ first.toNat * 256 ^ rest.length :=
      Nat.mul_le_mul_right _ (by omega)
    have hwhole := value_lt (first :: rest)
    rw [List.length_cons] at hwhole
    refine .inr ⟨UInt8.not_lt.1 fun h => hneg (hfirst.1 h), ?_⟩
    rw [if_neg (by omega)]
    omega

/-- The octets begin with a zero bit, and only a bit that is set makes a first octet of zeros
necessary. -/
def IsPositive (c : List UInt8) : Prop :=
  ∃ first rest, c = first :: rest ∧ first < 0x80 ∧
    (first = 0 → ∃ second tail, rest = second :: tail ∧ 0x80 ≤ second)

/-- The number of such octets is beyond what the octets without the first hold. -/
theorem value_ge {first second : UInt8} {tail : List UInt8}
    (h : first = 0 → ∃ second' tail', second :: tail = second' :: tail' ∧ 0x80 ≤ second') :
    2 ^ (8 * tail.length + 7) ≤ value (first :: second :: tail) := by
  have hhalf := pow_half tail.length
  rw [BigEndian.value_cons, BigEndian.value_cons, List.length_cons]
  by_cases hfirst : first = 0
  · obtain ⟨_, _, heq, hset⟩ := h hfirst
    obtain ⟨rfl, rfl⟩ := List.cons.inj heq
    have hbit : 128 ≤ second.toNat := UInt8.le_iff_toNat_le.1 hset
    have hle : 128 * 256 ^ tail.length ≤ second.toNat * 256 ^ tail.length :=
      Nat.mul_le_mul_right _ hbit
    rw [pow_succ] at hhalf
    omega
  · have hone : 1 ≤ first.toNat := Nat.one_le_iff_ne_zero.2 fun h => hfirst (UInt8.toNat_inj.1 h)
    have hle : 1 * 256 ^ (tail.length + 1) ≤ first.toNat * 256 ^ (tail.length + 1) :=
      Nat.mul_le_mul_right _ hone
    omega

/-- **These are the contents of positive integers.**

**Proof sketch.** The first octet gives the sign. If it is zero and the next one begins with a zero
bit, then the octets without it stand for the same integer, and are shorter; if it is not zero, or
the next one begins with a bit that is set, then the number is beyond what fewer octets hold. -/
theorem isPositive_iff : IsPositive c ↔ ∃ v, 0 < v ∧ c = integer v := by
  constructor
  · rintro ⟨first, rest, rfl, hfirst, hzero⟩
    obtain ⟨-, hsigned⟩ | ⟨hneg, -⟩ := signed_cons first rest
    · refine ⟨signed (first :: rest), ?_, eq_integer rfl (Nat.le_antisymm ?_ ?_)⟩
      · rw [hsigned]
        cases rest with
        | nil =>
          have hne : first.toNat ≠ 0 := by
            intro h
            obtain ⟨_, _, hnil, -⟩ := hzero (UInt8.toNat_inj.1 h)
            cases hnil
          simp
          omega
        | cons second tail =>
          have hlow := value_ge hzero
          have hpos : 0 < 2 ^ (8 * tail.length + 7) := Nat.two_pow_pos _
          omega
      · rw [length_integer, List.length_cons]
        by_contra hlt
        cases rest with
        | nil => simp [width] at hlt
        | cons second tail =>
          rw [List.length_cons, Nat.not_le, Nat.lt_succ_iff, width_le_iff, hsigned] at hlt
          have hlow := value_ge hzero
          have hlow' : ((2 ^ (8 * tail.length + 7) : ℕ) : ℤ) ≤ value (first :: second :: tail) :=
            Int.ofNat_le.2 hlow
          push_cast at hlow'
          omega
      · exact integer_length_le (List.cons_ne_nil _ _) rfl
    · exact absurd hneg (UInt8.not_le.2 hfirst)
  · rintro ⟨v, hv, rfl⟩
    cases hc : integer v with
    | nil => exact absurd hc (integer_ne_nil v)
    | cons first rest =>
      have hvalue := signed_integer v
      rw [hc] at hvalue
      obtain ⟨hfirst, hsigned⟩ | ⟨-, hneg⟩ := signed_cons first rest
      · refine ⟨first, rest, rfl, hfirst, ?_⟩
        rintro rfl
        cases rest with
        | nil =>
          rw [hvalue] at hsigned
          simp at hsigned
          omega
        | cons second tail =>
          refine ⟨second, tail, rfl, ?_⟩
          obtain ⟨-, hshorter⟩ | ⟨hset, -⟩ := signed_cons second tail
          · -- the octets without the first stand for the same integer
            have hsame : signed (second :: tail) = v := by
              rw [hshorter, ← hvalue, hsigned, BigEndian.value_cons 0]
              simp
            have hle := integer_length_le (List.cons_ne_nil _ _) hsame
            rw [hc] at hle
            simp at hle
          · exact hset
      · omega

end Integer

end Der
