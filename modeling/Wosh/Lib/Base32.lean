import Wosh.Lib.BigEndian
import Wosh.Lib.Symbols

set_option relaxedAutoImplicit false
set_option autoImplicit false

/-!
# Base 32

Bytes are written in an alphabet of 32 characters: as a big-endian number, moved up so that its bits
fill whole digits. The bits that this adds are spare; a strict decoder rejects spare bits that are
not zero, and a number of digits of which the last holds spare bits only.

## Main definitions

* `Base32.Alphabet` — 32 distinct characters.
* `Base32.digits`, `Base32.ofDigits` — the digits of some bytes, and back.
* `Base32.encode`, `Base32.decode` — the same in an alphabet, without padding.

## Main results

* `Base32.ofDigits_eq_some` — the digits that are accepted are those of the answer.
* `Base32.decode_eq_some` — what is accepted is what is encoded, and nothing else.
-/

namespace Base32

variable {n w : ℕ} {ds : List ℕ} {bs : List UInt8}

/-- 32 distinct characters. -/
structure Alphabet where
  /-- The characters, in the order of their digits. -/
  chars : List Char
  /-- There is one for each digit. -/
  length_chars : chars.length = 32
  /-- No two are the same. -/
  nodup : chars.Nodup

/-- The character of a digit. -/
def Alphabet.char (A : Alphabet) (d : ℕ) : Char := A.chars.getD d 'A'

/-- The digit of a character. -/
def Alphabet.digit? (A : Alphabet) (c : Char) : Option ℕ := A.chars.idxOf? c

/-- The number of some digits, the most significant one first. -/
def number (ds : List ℕ) : ℕ := Nat.ofDigits 32 ds.reverse

/-- A number in `w` digits. -/
def inDigits (w n : ℕ) : List ℕ := (Nat.digitsAppend 32 w n).reverse

/-- How many digits so many bytes take. -/
def width (len : ℕ) : ℕ := (8 * len + 4) / 5

/-- The bits of so many digits that are not of a whole byte. -/
def spare (w : ℕ) : ℕ := 5 * w % 8

/-- The digits of some bytes. -/
def digits (bs : List UInt8) : List ℕ :=
  inDigits (width bs.length) (BigEndian.value bs * 2 ^ spare (width bs.length))

/-- The bytes of some digits. -/
def ofDigits (ds : List ℕ) : Option (List UInt8) :=
  if 5 ≤ spare ds.length ∨ number ds % 2 ^ spare ds.length ≠ 0 then none
  else some (BigEndian.bytes (5 * ds.length / 8) (number ds / 2 ^ spare ds.length))

/-- The bytes in an alphabet, without padding. -/
def encode (A : Alphabet) (bs : List UInt8) : String := String.ofList ((digits bs).map A.char)

/-- The bytes of a text without padding. -/
def decode (A : Alphabet) (text : String) : Option (List UInt8) :=
  (text.toList.mapM A.digit?).bind ofDigits

/-! ## Numbers -/

@[simp] theorem number_nil : number [] = 0 := rfl

@[simp] theorem number_concat (ds : List ℕ) (d : ℕ) : number (ds ++ [d]) = 32 * number ds + d := by
  rw [number, number, List.reverse_append, List.reverse_singleton, List.singleton_append,
    Nat.ofDigits_cons, Nat.add_comm]

theorem number_lt (hds : ∀ d ∈ ds, d < 32) : number ds < 32 ^ ds.length := by
  have h := Nat.ofDigits_lt_base_pow_length (b := 32) (l := ds.reverse) (by decide)
    (fun d hd => hds d (List.mem_reverse.1 hd))
  rwa [List.length_reverse] at h

/-- A number that fits is in as many digits. -/
theorem length_inDigits (hn : n < 32 ^ w) : (inDigits w n).length = w := by
  rw [inDigits, List.length_reverse, Nat.length_digitsAppend (by decide) w hn]

theorem lt_of_mem_inDigits {d : ℕ} (hd : d ∈ inDigits w n) : d < 32 :=
  Nat.lt_of_mem_digitsAppend (by decide) w d (List.mem_reverse.1 hd)

/-- A number that fits is read back. -/
theorem number_inDigits (hn : n < 32 ^ w) : number (inDigits w n) = n := by
  rw [number, inDigits, List.reverse_reverse]
  exact (Nat.setInvOn_digitsAppend_ofDigits (by decide) w).2 hn

/-- All digits are those of a number. -/
theorem inDigits_number (hds : ∀ d ∈ ds, d < 32) : inDigits ds.length (number ds) = ds := by
  have hmem : ds.reverse.length = ds.length ∧ ∀ d ∈ ds.reverse, d < 32 :=
    ⟨List.length_reverse, fun d hd => hds d (List.mem_reverse.1 hd)⟩
  have h := (Nat.setInvOn_digitsAppend_ofDigits (by decide) ds.length).1 hmem
  rw [inDigits, number, h, List.reverse_reverse]

/-! ## Digits -/

/-- The bits of some bytes and the spare ones fill their digits. -/
theorem five_mul_width (len : ℕ) :
    5 * width len = 8 * len + spare (width len) ∧ spare (width len) < 5 := by
  unfold spare width
  have hwhole : 5 * ((8 * len + 4) / 5) / 8 = len := by
    apply Nat.div_eq_of_lt_le <;> omega
  omega

/-- Digits without one too many are as many as their bytes take. -/
theorem width_eq (hspare : spare w < 5) : width (5 * w / 8) = w := by
  unfold spare at hspare
  unfold width
  omega

theorem pow_width (len : ℕ) : 32 ^ width len = 256 ^ len * 2 ^ spare (width len) := by
  calc 32 ^ width len = 2 ^ (5 * width len) := by rw [pow_mul]; rfl
    _ = 2 ^ (8 * len + spare (width len)) := by rw [(five_mul_width len).1]
    _ = 256 ^ len * 2 ^ spare (width len) := by rw [pow_add, pow_mul]; rfl

/-- The number of some bytes fits in their digits. -/
theorem moved_lt (bs : List UInt8) :
    BigEndian.value bs * 2 ^ spare (width bs.length) < 32 ^ width bs.length := by
  rw [pow_width]
  exact Nat.mul_lt_mul_of_pos_right (BigEndian.value_lt bs) (Nat.two_pow_pos _)

@[simp] theorem length_digits (bs : List UInt8) : (digits bs).length = width bs.length :=
  length_inDigits (moved_lt bs)

theorem number_digits (bs : List UInt8) :
    number (digits bs) = BigEndian.value bs * 2 ^ spare (width bs.length) :=
  number_inDigits (moved_lt bs)

theorem lt_of_mem_digits {d : ℕ} (hd : d ∈ digits bs) : d < 32 := lt_of_mem_inDigits hd

/-- The digits of some bytes are read back. -/
theorem ofDigits_digits (bs : List UInt8) : ofDigits (digits bs) = some bs := by
  obtain ⟨hwidth, hspare⟩ := five_mul_width bs.length
  have hlen : 5 * width bs.length / 8 = bs.length := by omega
  rw [ofDigits, length_digits, number_digits, hlen, Nat.mul_mod_left,
    Nat.mul_div_cancel _ (Nat.two_pow_pos _), BigEndian.bytes_value, if_neg]
  omega

/-- **The digits that are accepted** are those of the answer. -/
theorem ofDigits_eq_some (hds : ∀ d ∈ ds, d < 32) : ofDigits ds = some bs ↔ ds = digits bs := by
  constructor
  · intro h
    unfold ofDigits at h
    split_ifs at h with hreject
    push Not at hreject
    obtain ⟨hspare, hzero⟩ := hreject
    obtain rfl := Option.some.inj h
    have hwidth := width_eq hspare
    have hmoved : number ds / 2 ^ spare ds.length * 2 ^ spare ds.length = number ds :=
      Nat.div_mul_cancel (Nat.dvd_of_mod_eq_zero hzero)
    have hfits : number ds / 2 ^ spare ds.length < 256 ^ (5 * ds.length / 8) := by
      have hlt := number_lt hds
      rw [← hwidth, pow_width, hwidth] at hlt
      rw [Nat.div_lt_iff_lt_mul (Nat.two_pow_pos _)]
      exact hlt
    rw [digits, BigEndian.length_bytes, hwidth, BigEndian.value_bytes hfits, hmoved,
      inDigits_number hds]
  · rintro rfl
    exact ofDigits_digits bs

/-! ## Alphabets -/

section Alphabet

variable (A : Alphabet)

/-- The characters of an alphabet stand for digits. -/
theorem mapM_digit? {cs : List Char} :
    cs.mapM A.digit? = some ds ↔ (∀ d ∈ ds, d < 32) ∧ cs = ds.map A.char := by
  rw [← A.length_chars]
  exact Symbols.mapM_idxOf? A.nodup 'A'

/-- **What is accepted** is what is encoded, and nothing else. -/
theorem decode_eq_some {text : String} : decode A text = some bs ↔ text = encode A bs := by
  rw [decode, Option.bind_eq_some_iff]
  constructor
  · rintro ⟨ds, hds, hbs⟩
    obtain ⟨hlt, hchars⟩ := (mapM_digit? A).1 hds
    rw [encode, ← (ofDigits_eq_some hlt).1 hbs, ← hchars, String.ofList_toList]
  · rintro rfl
    refine ⟨digits bs, ?_, ofDigits_digits bs⟩
    rw [encode, String.toList_ofList, mapM_digit?]
    exact ⟨fun d hd => lt_of_mem_digits hd, rfl⟩

theorem encode_inj {bs' : List UInt8} (h : encode A bs = encode A bs') : bs = bs' := by
  have hdecode := (decode_eq_some A).2 h
  rw [(decode_eq_some A).2 rfl] at hdecode
  exact Option.some.inj hdecode

theorem Alphabet.char_mem {d : ℕ} (hd : d < 32) : A.char d ∈ A.chars := by
  have hlen : d < A.chars.length := by rwa [A.length_chars]
  rw [Alphabet.char, List.getD_eq_getElem _ _ hlen]
  exact List.getElem_mem hlen

/-- The characters of an encoding are of the alphabet. -/
theorem mem_chars_of_mem_encode {c : Char} (hc : c ∈ (encode A bs).toList) : c ∈ A.chars := by
  rw [encode, String.toList_ofList, List.mem_map] at hc
  obtain ⟨d, hd, rfl⟩ := hc
  exact A.char_mem (lt_of_mem_digits hd)

@[simp] theorem length_encode (bs : List UInt8) :
    (encode A bs).toList.length = width bs.length := by
  rw [encode, String.toList_ofList, List.length_map, length_digits]

end Alphabet

end Base32
