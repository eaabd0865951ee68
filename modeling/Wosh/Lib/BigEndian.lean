import Wosh.Lib.Reader

set_option relaxedAutoImplicit false
set_option autoImplicit false

/-!
# Big-endian numbers

A number is written in so many bytes, the most significant one first; what does not fit is lost. A
string with a length in front of it says in four bytes how long it is.

## Main definitions

* `BigEndian.value`, `BigEndian.bytes` — the number of some bytes, and the bytes of a number.
* `BigEndian.counted` — a string with its length in front.

## Main results

* `BigEndian.value_bytes`, `BigEndian.bytes_value` — what fits is read back, and all bytes are those
  of a number.
* `BigEndian.counted_unique` — where a string with its length in front ends is said by itself.
-/

namespace BigEndian

variable {n w : ℕ} {b : UInt8} {bs bs' : List UInt8}

/-- The number whose bytes are given. -/
def value (bs : List UInt8) : ℕ := bs.foldl (fun n b => 256 * n + b.toNat) 0

/-- A number in `w` bytes. -/
def bytes : ℕ → ℕ → List UInt8
  | 0, _ => []
  | w + 1, n => UInt8.ofNat (n / 256 ^ w) :: bytes w n

/-! ## Numbers -/

@[simp] theorem value_nil : value [] = 0 := rfl

/-- Bytes that follow move a number up. -/
theorem value_append (bs bs' : List UInt8) :
    value (bs ++ bs') = value bs * 256 ^ bs'.length + value bs' := by
  induction bs' using List.reverseRecOn with
  | nil => simp
  | append_singleton bs' b ih =>
    have hlast : ∀ cs : List UInt8, value (cs ++ [b]) = 256 * value cs + b.toNat := by
      intro cs
      simp only [value, List.foldl_append, List.foldl_cons, List.foldl_nil]
    rw [← List.append_assoc, hlast, hlast, ih, List.length_append, List.length_singleton, pow_succ]
    ring

@[simp] theorem value_cons (b : UInt8) (bs : List UInt8) :
    value (b :: bs) = b.toNat * 256 ^ bs.length + value bs := by
  have h := value_append [b] bs
  simpa [value] using h

/-- So many bytes are not enough for a greater number. -/
theorem value_lt (bs : List UInt8) : value bs < 256 ^ bs.length := by
  induction bs with
  | nil => simp
  | cons b bs ih =>
    have hb : b.toNat < 256 := b.toNat_lt
    have hle : b.toNat * 256 ^ bs.length ≤ 255 * 256 ^ bs.length :=
      Nat.mul_le_mul_right _ (by omega)
    rw [value_cons, List.length_cons, pow_succ]
    omega

@[simp] theorem length_bytes (w n : ℕ) : (bytes w n).length = w := by
  induction w with
  | zero => rfl
  | succ w ih => rw [bytes, List.length_cons, ih]

/-- **A number is read back**, up to what does not fit. -/
theorem value_bytes_mod (w n : ℕ) : value (bytes w n) = n % 256 ^ w := by
  induction w with
  | zero => simp [bytes, Nat.mod_one]
  | succ w ih =>
    have hbyte : (2 : ℕ) ^ 8 = 256 := rfl
    rw [bytes, value_cons, length_bytes, ih, UInt8.toNat_ofNat', hbyte, pow_succ, Nat.mod_mul,
      Nat.mul_comm, Nat.add_comm]

theorem value_bytes (h : n < 256 ^ w) : value (bytes w n) = n := by
  rw [value_bytes_mod, Nat.mod_eq_of_lt h]

/-- Equally many bytes of the same number are the same. -/
theorem value_inj (hlen : bs.length = bs'.length) (h : value bs = value bs') : bs = bs' := by
  induction bs generalizing bs' with
  | nil => exact (List.eq_nil_of_length_eq_zero hlen.symm).symm
  | cons b bs ih =>
    cases bs' with
    | nil => cases hlen
    | cons b' bs' =>
      have hlen' : bs.length = bs'.length := Nat.succ_injective hlen
      have hlt := value_lt bs
      have hlt' := value_lt bs'
      rw [value_cons, value_cons, hlen'] at h
      rw [hlen'] at hlt
      -- the first byte is the quotient, the others the remainder
      have hfirst : b.toNat = b'.toNat := by
        have hpos : 0 < 256 ^ bs'.length := Nat.pow_pos (by decide)
        have hdiv := congrArg (· / 256 ^ bs'.length) h
        simpa only [Nat.mul_comm _ (256 ^ bs'.length), Nat.mul_add_div hpos, Nat.div_eq_of_lt hlt,
          Nat.div_eq_of_lt hlt', Nat.add_zero] using hdiv
      rw [hfirst, Nat.add_right_inj] at h
      rw [UInt8.toNat_inj.1 hfirst, ih hlen' h]

/-- **All bytes are those of a number.** -/
theorem bytes_value (bs : List UInt8) : bytes bs.length (value bs) = bs :=
  value_inj (length_bytes _ _) (value_bytes (value_lt bs))

/-- The last byte is the least significant one. -/
theorem bytes_succ (w n : ℕ) : bytes (w + 1) n = bytes w (n / 256) ++ [UInt8.ofNat n] := by
  induction w generalizing n with
  | zero =>
    show [UInt8.ofNat (n / 256 ^ 0)] = [UInt8.ofNat n]
    rw [pow_zero, Nat.div_one]
  | succ w ih =>
    have hfirst : n / 256 / 256 ^ w = n / 256 ^ (w + 1) := by
      rw [Nat.div_div_eq_div_mul, pow_succ, Nat.mul_comm]
    rw [bytes, ih, bytes, hfirst, List.cons_append]

/-- A number that fits is written in one way. -/
theorem bytes_inj {m : ℕ} (hm : m < 256 ^ w) (hn : n < 256 ^ w) (h : bytes w m = bytes w n) :
    m = n := by
  have hvalue := congrArg value h
  rwa [value_bytes hm, value_bytes hn] at hvalue

/-! ## Strings with a length in front -/

/-- The length of a string in four bytes, and the string. -/
def counted (bs : List UInt8) : List UInt8 := bytes 4 bs.length ++ bs

@[simp] theorem length_counted (bs : List UInt8) : (counted bs).length = 4 + bs.length := by
  rw [counted, List.length_append, length_bytes]

/-- What a string with its length in front begins with, and what follows these four bytes. -/
theorem take_counted (bs rest : List UInt8) : (counted bs ++ rest).take 4 = bytes 4 bs.length := by
  rw [counted, List.append_assoc]
  exact List.take_left' (length_bytes 4 _)

theorem drop_counted (bs rest : List UInt8) : (counted bs ++ rest).drop 4 = bs ++ rest := by
  rw [counted, List.append_assoc]
  exact List.drop_left' (length_bytes 4 _)

/-- Bytes that begin with a length, and with so many more, begin with a string. -/
theorem eq_counted (bs : List UInt8) (hlen : 4 ≤ bs.length)
    (hfits : value (bs.take 4) ≤ (bs.drop 4).length) :
    ((bs.drop 4).take (value (bs.take 4))).length < 2 ^ 32 ∧
      bs = counted ((bs.drop 4).take (value (bs.take 4))) ++
        (bs.drop 4).drop (value (bs.take 4)) := by
  have hfour : (bs.take 4).length = 4 := by
    rw [List.length_take]
    omega
  have hlt := value_lt (bs.take 4)
  rw [hfour] at hlt
  have hlength : ((bs.drop 4).take (value (bs.take 4))).length = value (bs.take 4) := by
    rw [List.length_take, Nat.min_eq_left hfits]
  have hbytes : bytes 4 (value (bs.take 4)) = bs.take 4 := by
    have h := bytes_value (bs.take 4)
    rwa [hfour] at h
  refine ⟨by rw [hlength]; exact hlt, ?_⟩
  rw [counted, hlength, hbytes, List.append_assoc, List.take_append_drop, List.take_append_drop]

/-- **Where a string ends is said by itself.** -/
theorem counted_unique {rest rest' : List UInt8} (hbs : bs.length < 2 ^ 32)
    (hbs' : bs'.length < 2 ^ 32) (h : counted bs ++ rest = counted bs' ++ rest') :
    bs = bs' ∧ rest = rest' := by
  have hlen : bs.length = bs'.length := by
    have hfront := congrArg (List.take 4) h
    rw [take_counted, take_counted] at hfront
    exact bytes_inj (by simpa using hbs) (by simpa using hbs') hfront
  have hdrop := congrArg (List.drop 4) h
  rw [drop_counted, drop_counted] at hdrop
  exact List.append_inj hdrop hlen

end BigEndian
