import Wosh.Lib.Symbols

set_option relaxedAutoImplicit false
set_option autoImplicit false

/-!
# Base 64

Bytes are written in an alphabet of 64 characters, three bytes in four of them; the last one or two
bytes take two or three characters, whose spare bits are zero. A strict decoder rejects spare bits
that are not zero, a forgiving one drops them.

## Main definitions

* `Base64.Alphabet` — 64 distinct characters.
* `Base64.digits`, `Base64.ofDigits` — the six-bit digits of some bytes, and back.
* `Base64.encode`, `Base64.decode` — the same in an alphabet, without padding.
* `Base64.encodePadded`, `Base64.decodePadded` — the same with padding to a multiple of four.

## Main results

* `Base64.decode_strict` — a strict decoder accepts what is encoded, and nothing else.
* `Base64.decode_encode` — any decoder accepts what is encoded.
* `Base64.map_encode` — translating the characters translates the alphabet.
* `Base64.decodePadded_eq_some` — a decoder that is strict about padding too accepts what is encoded
  with padding, and nothing else.
-/

namespace Base64

/-- 64 distinct characters. -/
structure Alphabet where
  /-- The characters, in the order of their digits. -/
  chars : List Char
  /-- There is one for each digit. -/
  length_chars : chars.length = 64
  /-- No two are the same. -/
  nodup : chars.Nodup

/-- The character of a digit. -/
def Alphabet.char (A : Alphabet) (d : ℕ) : Char := A.chars.getD d 'A'

/-- The digit of a character. -/
def Alphabet.digit? (A : Alphabet) (c : Char) : Option ℕ := A.chars.idxOf? c

/-- The digits of some bytes. -/
def digits : List UInt8 → List ℕ
  | [] => []
  | [a] => [a.toNat / 4, a.toNat % 4 * 16]
  | [a, b] => [a.toNat / 4, a.toNat % 4 * 16 + b.toNat / 16, b.toNat % 16 * 4]
  | a :: b :: c :: bs =>
    a.toNat / 4 :: (a.toNat % 4 * 16 + b.toNat / 16) :: (b.toNat % 16 * 4 + c.toNat / 64) ::
      c.toNat % 64 :: digits bs

/-- The bytes of some digits; `strict` rejects spare bits. -/
def ofDigits (strict : Bool) : List ℕ → Option (List UInt8)
  | [] => some []
  | [_] => none
  | [w, x] => if strict ∧ x % 16 ≠ 0 then none else some [UInt8.ofNat (w * 4 + x / 16)]
  | [w, x, y] =>
    if strict ∧ y % 4 ≠ 0 then none
    else some [UInt8.ofNat (w * 4 + x / 16), UInt8.ofNat (x % 16 * 16 + y / 4)]
  | w :: x :: y :: z :: ds =>
    (ofDigits strict ds).map fun bs =>
      UInt8.ofNat (w * 4 + x / 16) :: UInt8.ofNat (x % 16 * 16 + y / 4) ::
        UInt8.ofNat (y % 4 * 64 + z) :: bs

/-- The bytes in an alphabet, without padding. -/
def encode (A : Alphabet) (bs : List UInt8) : String := String.ofList ((digits bs).map A.char)

/-- The bytes of a text without padding. -/
def decode (A : Alphabet) (strict : Bool) (text : String) : Option (List UInt8) :=
  (text.toList.mapM A.digit?).bind (ofDigits strict)

/-! ## Digits -/

theorem lt_of_mem_digits {bs : List UInt8} {d : ℕ} (hd : d ∈ digits bs) : d < 64 := by
  induction bs using digits.induct with
  | case1 => simp [digits] at hd
  | case2 a =>
    have ha : a.toNat < 256 := a.toNat_lt
    simp only [digits, List.mem_cons, List.not_mem_nil, or_false] at hd
    omega
  | case3 a b =>
    have ha : a.toNat < 256 := a.toNat_lt
    have hb : b.toNat < 256 := b.toNat_lt
    simp only [digits, List.mem_cons, List.not_mem_nil, or_false] at hd
    omega
  | case4 a b c bs ih =>
    have ha : a.toNat < 256 := a.toNat_lt
    have hb : b.toNat < 256 := b.toNat_lt
    have hc : c.toNat < 256 := c.toNat_lt
    simp only [digits, List.mem_cons] at hd
    rcases hd with rfl | rfl | rfl | rfl | hd
    · omega
    · omega
    · omega
    · omega
    · exact ih hd

/-- Bytes have at least as many digits. -/
theorem length_le_digits (bs : List UInt8) : bs.length ≤ (digits bs).length := by
  induction bs using digits.induct with
  | case1 => exact Nat.le_refl 0
  | case2 a => exact Nat.le_succ 1
  | case3 a b => exact Nat.le_succ 2
  | case4 a b c bs ih =>
    simp only [digits, List.length_cons]
    omega

/-- The digits of some bytes are read back, strictly or not. -/
theorem ofDigits_digits (strict : Bool) (bs : List UInt8) :
    ofDigits strict (digits bs) = some bs := by
  induction bs using digits.induct with
  | case1 => rfl
  | case2 a =>
    have ha : a.toNat < 256 := a.toNat_lt
    have hspare : a.toNat % 4 * 16 % 16 = 0 := by omega
    have hbyte : a.toNat / 4 * 4 + a.toNat % 4 * 16 / 16 = a.toNat := by omega
    rw [digits, ofDigits, if_neg (fun h => h.2 hspare), hbyte, UInt8.ofNat_toNat]
  | case3 a b =>
    have ha : a.toNat < 256 := a.toNat_lt
    have hb : b.toNat < 256 := b.toNat_lt
    have hspare : b.toNat % 16 * 4 % 4 = 0 := by omega
    have hfirst : a.toNat / 4 * 4 + (a.toNat % 4 * 16 + b.toNat / 16) / 16 = a.toNat := by omega
    have hsecond :
        (a.toNat % 4 * 16 + b.toNat / 16) % 16 * 16 + b.toNat % 16 * 4 / 4 = b.toNat := by omega
    rw [digits, ofDigits, if_neg (fun h => h.2 hspare), hfirst, hsecond, UInt8.ofNat_toNat,
      UInt8.ofNat_toNat]
  | case4 a b c bs ih =>
    have ha : a.toNat < 256 := a.toNat_lt
    have hb : b.toNat < 256 := b.toNat_lt
    have hc : c.toNat < 256 := c.toNat_lt
    have hfirst : a.toNat / 4 * 4 + (a.toNat % 4 * 16 + b.toNat / 16) / 16 = a.toNat := by omega
    have hsecond :
        (a.toNat % 4 * 16 + b.toNat / 16) % 16 * 16 + (b.toNat % 16 * 4 + c.toNat / 64) / 4 =
          b.toNat := by omega
    have hthird : (b.toNat % 16 * 4 + c.toNat / 64) % 4 * 64 + c.toNat % 64 = c.toNat := by omega
    rw [digits, ofDigits, ih, Option.map_some, hfirst, hsecond, hthird, UInt8.ofNat_toNat,
      UInt8.ofNat_toNat, UInt8.ofNat_toNat]

/-- The number of a byte that is put together from digits. -/
theorem toNat_ofNat {n : ℕ} (hn : n < 256) : (UInt8.ofNat n).toNat = n := by
  rw [UInt8.toNat_ofNat']
  omega

/-- Digits that a strict decoder accepts are those of the bytes it answers. -/
theorem digits_of_ofDigits {ds : List ℕ} {bs : List UInt8} (hlt : ∀ d ∈ ds, d < 64)
    (h : ofDigits true ds = some bs) : digits bs = ds := by
  fun_induction ofDigits true ds generalizing bs with
  | case1 =>
    obtain rfl : [] = bs := by simpa using h
    rfl
  | case2 d => simp at h
  | case3 w x hspare => simp at h
  | case4 w x hspare =>
    have hw := hlt w (by simp)
    have hx := hlt x (by simp)
    have hzero : x % 16 = 0 := by simpa using hspare
    obtain rfl := Option.some.inj h
    rw [digits, toNat_ofNat (by omega)]
    congr 2 <;> omega
  | case5 w x y hspare => simp at h
  | case6 w x y hspare =>
    have hw := hlt w (by simp)
    have hx := hlt x (by simp)
    have hy := hlt y (by simp)
    have hzero : y % 4 = 0 := by simpa using hspare
    obtain rfl := Option.some.inj h
    rw [digits, toNat_ofNat (by omega), toNat_ofNat (by omega)]
    congr 3 <;> omega
  | case7 w x y z ds ih =>
    have hw := hlt w (by simp)
    have hx := hlt x (by simp)
    have hy := hlt y (by simp)
    have hz := hlt z (by simp)
    obtain ⟨tail, htail, rfl⟩ := Option.map_eq_some_iff.1 h
    have hrest := ih (fun d hd => hlt d (by simp [hd])) htail
    rw [digits, toNat_ofNat (by omega), toNat_ofNat (by omega), toNat_ofNat (by omega), hrest]
    congr 4 <;> omega

/-! ## Alphabets -/

section Alphabet

variable (A : Alphabet)

/-- The characters of an alphabet stand for digits. -/
theorem mapM_digit? {cs : List Char} {ds : List ℕ} :
    cs.mapM A.digit? = some ds ↔ (∀ d ∈ ds, d < 64) ∧ cs = ds.map A.char := by
  rw [← A.length_chars]
  exact Symbols.mapM_idxOf? A.nodup 'A'

/-- Any decoder reads the digits that are encoded. -/
theorem mapM_digit?_encode (bs : List UInt8) :
    (encode A bs).toList.mapM A.digit? = some (digits bs) := by
  rw [encode, String.toList_ofList, mapM_digit?]
  exact ⟨fun d hd => lt_of_mem_digits hd, rfl⟩

/-- **Any decoder accepts what is encoded.** -/
theorem decode_encode (strict : Bool) (bs : List UInt8) :
    decode A strict (encode A bs) = some bs := by
  rw [decode, mapM_digit?_encode, Option.bind_some, ofDigits_digits]

/-- **A strict decoder accepts what is encoded, and nothing else.** -/
theorem decode_strict {text : String} {bs : List UInt8} :
    decode A true text = some bs ↔ text = encode A bs := by
  constructor
  · intro h
    obtain ⟨ds, hds, hbs⟩ := Option.bind_eq_some_iff.1 h
    obtain ⟨hlt, hchars⟩ := (mapM_digit? A).1 hds
    rw [encode, digits_of_ofDigits hlt hbs, ← hchars, String.ofList_toList]
  · rintro rfl
    exact decode_encode A true bs

theorem encode_inj {bs bs' : List UInt8} (h : encode A bs = encode A bs') : bs = bs' := by
  have hdecode := decode_encode A true bs
  rw [h, decode_encode] at hdecode
  exact (Option.some.inj hdecode).symm

/-- An encoding is at least as long as the bytes. -/
theorem length_le_encode (bs : List UInt8) : bs.length ≤ (encode A bs).toList.length := by
  rw [encode, String.toList_ofList, List.length_map]
  exact length_le_digits bs

/-- The characters of an encoding are of the alphabet. -/
theorem mem_chars_of_mem_encode {bs : List UInt8} {c : Char} (hc : c ∈ (encode A bs).toList) :
    c ∈ A.chars := by
  rw [encode, String.toList_ofList, List.mem_map] at hc
  obtain ⟨d, hd, rfl⟩ := hc
  have hlen : d < A.chars.length := by
    rw [A.length_chars]
    exact lt_of_mem_digits hd
  rw [Alphabet.char, List.getD_eq_getElem _ _ hlen]
  exact List.getElem_mem hlen

/-- Translating the characters translates the alphabet. -/
theorem map_encode (B : Alphabet) {f : Char → Char} (hf : A.chars.map f = B.chars)
    (bs : List UInt8) : (encode A bs).toList.map f = (encode B bs).toList := by
  rw [encode, encode, String.toList_ofList, String.toList_ofList, List.map_map]
  refine List.map_congr_left fun d hd => ?_
  have hlen : d < A.chars.length := by
    rw [A.length_chars]
    exact lt_of_mem_digits hd
  have hlen' : d < (A.chars.map f).length := by rwa [List.length_map]
  rw [Function.comp_apply, Alphabet.char, Alphabet.char, List.getD_eq_getElem _ _ hlen, ← hf,
    List.getD_eq_getElem _ _ hlen', List.getElem_map]

/-! ## Padding -/

/-- Padding to a multiple of four characters. -/
def padding (n : ℕ) : List Char := List.replicate ((4 - n % 4) % 4) '='

/-- The bytes in an alphabet, padded. -/
def encodePadded (bs : List UInt8) : String :=
  String.ofList ((encode A bs).toList ++ padding (encode A bs).toList.length)

/-- The bytes of a text that is padded, strictly. -/
def decodePadded (text : String) : Option (List UInt8) :=
  let body := text.toList.rdropWhile (· = '=')
  if text.toList = body ++ padding body.length then decode A true (String.ofList body) else none

/-- **A strict decoder accepts what is encoded with padding, and nothing else.** -/
theorem decodePadded_eq_some (hpad : '=' ∉ A.chars) {text : String} {bs : List UInt8} :
    decodePadded A text = some bs ↔ text = encodePadded A bs := by
  unfold decodePadded
  dsimp only
  constructor
  · intro h
    split_ifs at h with hpadded
    have hbody := (decode_strict A).1 h
    rw [encodePadded, ← hbody, String.toList_ofList, ← hpadded, String.ofList_toList]
  · rintro rfl
    have hbody : (encodePadded A bs).toList.rdropWhile (· = '=') = (encode A bs).toList := by
      rw [encodePadded, String.toList_ofList, padding, List.rdropWhile, List.reverse_append,
        List.dropWhile_append_of_pos, List.dropWhile_eq_self_iff.2, List.reverse_reverse]
      · intro hpos hlast
        rw [decide_eq_true_eq] at hlast
        have hmem : (encode A bs).toList.reverse[0] ∈ (encode A bs).toList :=
          List.mem_reverse.1 (List.getElem_mem hpos)
        rw [hlast] at hmem
        exact hpad (mem_chars_of_mem_encode A hmem)
      · intro c hc
        rw [List.mem_reverse] at hc
        exact decide_eq_true (List.eq_of_mem_replicate hc)
    rw [hbody, if_pos (by rw [encodePadded, String.toList_ofList]), String.ofList_toList]
    exact decode_encode A true bs

end Alphabet

end Base64
