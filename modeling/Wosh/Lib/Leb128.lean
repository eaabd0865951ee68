import Wosh.Lib.Reader

set_option relaxedAutoImplicit false
set_option autoImplicit false

/-!
# Numbers in groups of seven bits

A number is spelled in groups of seven bits, least significant first, a byte each; the top bit of a
byte says that more follow. Groups that add nothing may follow, so a number has several spellings;
the encoder writes the shortest. A reader for numbers of `w` bits takes no more bytes than these
need, and no bits beyond them.

## Main definitions

* `Leb128.Closed` — the last byte of a spelling, and no other, has its top bit clear.
* `Leb128.value` — the number that is spelled.
* `Leb128.Spells` — the spellings of a number that a reader for numbers of `w` bits accepts.
* `Leb128.encode` — the shortest spelling.
* `Leb128.take` — the reader for numbers of `7 * k + r` bits.

## Main results

* `Leb128.take_reads` — the reader accepts exactly those spellings.
* `Leb128.spells_encode` — the shortest spelling is one of them.
-/

namespace Leb128

/-- The last byte, and no other, has its top bit clear. -/
inductive Closed : List UInt8 → Prop
  | last {b : UInt8} (hb : b.toNat < 128) : Closed [b]
  | more {b : UInt8} {bs : List UInt8} (hb : 128 ≤ b.toNat) (hbs : Closed bs) : Closed (b :: bs)

/-- The number that is spelled, least significant group first. -/
def value : List UInt8 → ℕ
  | [] => 0
  | b :: bs => b.toNat % 128 + 128 * value bs

/-- The spellings of a number that a reader for numbers of `w` bits accepts. -/
def Spells (w n : ℕ) (bs : List UInt8) : Prop :=
  Closed bs ∧ value bs = n ∧ n < 2 ^ w ∧ bs.length ≤ (w + 6) / 7

/-- The shortest spelling. -/
def encode (n : ℕ) : List UInt8 :=
  if n < 128 then [UInt8.ofNat n] else UInt8.ofNat (n % 128 + 128) :: encode (n / 128)

/-- The reader for numbers of `7 * k + r` bits: at most `k + 1` bytes, of which the last has no more
than `r` bits. -/
def take : ℕ → ℕ → List UInt8 → Option (ℕ × List UInt8)
  | _, _, [] => none
  | 0, r, b :: rest => if b.toNat < 2 ^ r then some (b.toNat, rest) else none
  | k + 1, r, b :: rest =>
    if b.toNat < 128 then some (b.toNat, rest)
    else (take k r rest).map fun p => (b.toNat % 128 + 128 * p.1, p.2)

/-! ## Spellings -/

theorem Closed.length_pos {bs : List UInt8} (h : Closed bs) : 0 < bs.length := by
  cases h with
  | last hb => exact Nat.one_pos
  | more hb hbs => exact Nat.succ_pos _

/-- A spelling of one byte is the number itself. -/
theorem value_singleton {b : UInt8} (hb : b.toNat < 128) : value [b] = b.toNat := by
  rw [value, value, Nat.mod_eq_of_lt hb]
  rfl

/-- A number has at most seven bits for each byte. -/
theorem value_lt (bs : List UInt8) : value bs < 128 ^ bs.length := by
  induction bs with
  | nil => exact Nat.one_pos
  | cons b bs ih =>
    have hgroup : b.toNat % 128 < 128 := Nat.mod_lt _ (by decide)
    rw [value, List.length_cons, Nat.pow_succ]
    omega

/-- What follows a closed spelling is told apart from it. -/
theorem Closed.unique {bs bs' rest rest' : List UInt8} (h : Closed bs) (h' : Closed bs')
    (heq : bs ++ rest = bs' ++ rest') : bs = bs' ∧ rest = rest' := by
  induction h generalizing bs' with
  | last hb =>
    cases h' with
    | last hb' => simpa using heq
    | more hb' hbs' =>
      obtain ⟨rfl, -⟩ := List.cons.inj heq
      omega
  | more hb hbs ih =>
    cases h' with
    | last hb' =>
      obtain ⟨rfl, -⟩ := List.cons.inj heq
      omega
    | more hb' hbs' =>
      obtain ⟨rfl, htail⟩ := List.cons.inj heq
      obtain ⟨rfl, hrest⟩ := ih hbs' htail
      exact ⟨rfl, hrest⟩

/-! ## The shortest spelling -/

theorem closed_encode (n : ℕ) : Closed (encode n) := by
  induction n using Nat.strong_induction_on with
  | _ n ih =>
    rw [encode]
    split_ifs with hn
    · refine .last ?_
      rw [UInt8.toNat_ofNat']
      omega
    · refine .more ?_ (ih (n / 128) (by omega))
      rw [UInt8.toNat_ofNat']
      omega

@[simp] theorem value_encode (n : ℕ) : value (encode n) = n := by
  induction n using Nat.strong_induction_on with
  | _ n ih =>
    rw [encode]
    split_ifs with hn
    · rw [value_singleton (by rw [UInt8.toNat_ofNat']; omega), UInt8.toNat_ofNat']
      omega
    · rw [value, ih (n / 128) (by omega), UInt8.toNat_ofNat']
      omega

/-- A number of at most `7 * k` bits is spelled in `k` bytes. -/
theorem length_encode_le {k n : ℕ} (hk : 0 < k) (hn : n < 128 ^ k) : (encode n).length ≤ k := by
  induction k generalizing n with
  | zero => omega
  | succ k ih =>
    rw [encode]
    split_ifs with hsmall
    · exact Nat.succ_pos k
    · have hpos : 0 < k := by
        by_contra hzero
        obtain rfl : k = 0 := by omega
        omega
      have hdiv : n / 128 < 128 ^ k := by
        rw [Nat.div_lt_iff_lt_mul (by decide)]
        rwa [Nat.pow_succ] at hn
      exact Nat.succ_le_succ (ih hpos hdiv)

/-- **The shortest spelling is one that a reader accepts.** -/
theorem spells_encode {w n : ℕ} (hw : 0 < w) (hn : n < 2 ^ w) : Spells w n (encode n) := by
  refine ⟨closed_encode n, value_encode n, hn, length_encode_le (by omega) ?_⟩
  calc
    n < 2 ^ w := hn
    _ ≤ 2 ^ (7 * ((w + 6) / 7)) := Nat.pow_le_pow_right (by decide) (by omega)
    _ = 128 ^ ((w + 6) / 7) := by rw [Nat.pow_mul]

/-! ## Reading -/

/-- A group in front of a spelling: one bit for each of its own and seven more. -/
theorem spells_cons {w n : ℕ} {b : UInt8} {bs : List UInt8} (hw : 0 < w) :
    Spells (w + 7) n (b :: bs) ↔
      b.toNat < 128 ∧ n = b.toNat ∧ bs = [] ∨
        128 ≤ b.toNat ∧ ∃ m, Spells w m bs ∧ n = b.toNat % 128 + 128 * m := by
  have hpow : 2 ^ (w + 7) = 128 * 2 ^ w := by
    rw [Nat.pow_add, Nat.mul_comm]
  have hpos : 0 < 2 ^ w := Nat.two_pow_pos w
  constructor
  · rintro ⟨hclosed, hvalue, hlt, hlen⟩
    cases hclosed with
    | last hb =>
      rw [value_singleton hb] at hvalue
      exact .inl ⟨hb, hvalue.symm, rfl⟩
    | more hb hbs =>
      rw [value] at hvalue
      rw [List.length_cons] at hlen
      refine .inr ⟨hb, value bs, ⟨hbs, rfl, ?_, ?_⟩, hvalue.symm⟩ <;> omega
  · rintro (⟨hb, rfl, rfl⟩ | ⟨hb, m, ⟨hbs, rfl, hlt, hlen⟩, rfl⟩)
    · refine ⟨.last hb, value_singleton hb, ?_, ?_⟩
      · omega
      · rw [List.length_singleton]
        omega
    · have hgroup : b.toNat % 128 < 128 := Nat.mod_lt _ (by decide)
      refine ⟨.more hb hbs, rfl, ?_, ?_⟩
      · omega
      · rw [List.length_cons]
        omega

/-- The last group that a reader may take. -/
theorem spells_last {r n : ℕ} {b : UInt8} {bs : List UInt8} (hr : 0 < r) (hr' : r ≤ 7) :
    Spells r n (b :: bs) ↔ b.toNat < 2 ^ r ∧ n = b.toNat ∧ bs = [] := by
  have hpow : 2 ^ r ≤ 128 := Nat.pow_le_pow_right (by decide) hr'
  constructor
  · rintro ⟨hclosed, hvalue, hlt, hlen⟩
    cases hclosed with
    | last hb =>
      rw [value_singleton hb] at hvalue
      exact ⟨by omega, hvalue.symm, rfl⟩
    | more hb hbs =>
      have hpos := hbs.length_pos
      rw [List.length_cons] at hlen
      omega
  · rintro ⟨hb, rfl, rfl⟩
    have hsmall : b.toNat < 128 := by omega
    refine ⟨.last hsmall, value_singleton hsmall, hb, ?_⟩
    rw [List.length_singleton]
    omega

/-- The spelling of a number is read whatever follows it. -/
theorem take_append {k r n : ℕ} {bs : List UInt8} (hr : 0 < r) (hr' : r ≤ 7)
    (h : Spells (7 * k + r) n bs) (rest : List UInt8) : take k r (bs ++ rest) = some (n, rest) := by
  induction k generalizing n bs with
  | zero =>
    rw [Nat.mul_zero, Nat.zero_add] at h
    cases bs with
    | nil => exact absurd h.1.length_pos (Nat.lt_irrefl 0)
    | cons b bs =>
      obtain ⟨hb, rfl, rfl⟩ := (spells_last hr hr').1 h
      rw [List.singleton_append, take, if_pos hb]
  | succ k ih =>
    have hwidth : 7 * (k + 1) + r = 7 * k + r + 7 := by omega
    rw [hwidth] at h
    cases bs with
    | nil => exact absurd h.1.length_pos (Nat.lt_irrefl 0)
    | cons b bs =>
      rcases (spells_cons (by omega)).1 h with ⟨hb, rfl, rfl⟩ | ⟨hb, m, hm, rfl⟩
      · rw [List.singleton_append, take, if_pos hb]
      · rw [List.cons_append, take, if_neg (Nat.not_lt.2 hb), ih hm, Option.map_some]

/-- What is read is a spelling. -/
theorem spells_of_take {k r n : ℕ} {input rest : List UInt8} (hr : 0 < r) (hr' : r ≤ 7)
    (h : take k r input = some (n, rest)) :
    ∃ bs, Spells (7 * k + r) n bs ∧ input = bs ++ rest := by
  induction k generalizing n input with
  | zero =>
    cases input with
    | nil => simp [take] at h
    | cons b input =>
      rw [take] at h
      split_ifs at h with hb
      obtain ⟨rfl, rfl⟩ : b.toNat = n ∧ input = rest := by simpa using h
      refine ⟨[b], ?_, rfl⟩
      rw [Nat.mul_zero, Nat.zero_add]
      exact (spells_last hr hr').2 ⟨hb, rfl, rfl⟩
  | succ k ih =>
    have hwidth : 7 * (k + 1) + r = 7 * k + r + 7 := by omega
    rw [hwidth]
    cases input with
    | nil => simp [take] at h
    | cons b input =>
      rw [take] at h
      split_ifs at h with hb
      · obtain ⟨rfl, rfl⟩ : b.toNat = n ∧ input = rest := by simpa using h
        exact ⟨[b], (spells_cons (by omega)).2 (.inl ⟨hb, rfl, rfl⟩), rfl⟩
      · obtain ⟨⟨m, rest'⟩, htake, heq⟩ := Option.map_eq_some_iff.1 h
        obtain ⟨rfl, rfl⟩ := Prod.mk.inj heq
        obtain ⟨bs, hbs, rfl⟩ := ih htake
        exact ⟨b :: bs, (spells_cons (by omega)).2 (.inr ⟨Nat.not_lt.1 hb, m, hbs, rfl⟩), rfl⟩

/-- **The reader accepts exactly the spellings of numbers of its width.** -/
theorem take_reads {k r : ℕ} (hr : 0 < r) (hr' : r ≤ 7) :
    Reader.Reads (take k r) (Spells (7 * k + r)) := by
  intro input n rest
  constructor
  · exact spells_of_take hr hr'
  · rintro ⟨bs, hbs, rfl⟩
    exact take_append hr hr' hbs rest

end Leb128
