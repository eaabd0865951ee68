import Wosh.Lib.Ecma

set_option relaxedAutoImplicit false
set_option autoImplicit false

/-!
# Strings of code units

What a page's strings are to its language: any list of 16-bit code units, surrogates that do not pair up
included. The functions and classes of them that regular expressions and texts of commands are written
with.

## Main definitions

* `CodeUnits.ofAscii` — a literal.
* `CodeUnits.isSpace`, `CodeUnits.isWord`, `CodeUnits.isDigit`, `CodeUnits.isLine` — the classes.
* `CodeUnits.trim`, `CodeUnits.toLowerCase` — the functions.
* `CodeUnits.chars` — the characters that a string is sent as.

## Main results

* `CodeUnits.chars_append` — ASCII is sent as it is, whatever follows.
-/

/-- A string of the language. -/
abbrev CodeUnits := List UInt16

namespace CodeUnits

/-- A literal of ASCII characters. -/
def ofAscii (s : String) : CodeUnits := s.toList.map fun c => UInt16.ofNat c.toNat

/-! ## Classes -/

/-- `\s`, which `trim` removes. -/
def isSpace (u : UInt16) : Bool := Ecma.isSpace (Char.ofNat u.toNat)

/-- `\d`. -/
def isDigit (u : UInt16) : Bool := 48 ≤ u && u ≤ 57

/-- `[A-Za-z0-9]`. -/
def isAlphanumeric (u : UInt16) : Bool := isDigit u || (65 ≤ u && u ≤ 90) || (97 ≤ u && u ≤ 122)

/-- `\w`. -/
def isWord (u : UInt16) : Bool := isAlphanumeric u || u == 95

/-- What `.` does not match. -/
def isLine (u : UInt16) : Bool := u == 10 || u == 13 || u == 0x2028 || u == 0x2029

/-- One of some characters. -/
def oneOf (s : String) (u : UInt16) : Bool := (ofAscii s).contains u

/-! ## Functions -/

/-- `s.trim()`. -/
def trim (s : CodeUnits) : CodeUnits := (s.dropWhile isSpace).rdropWhile isSpace

/-- `s.trimStart()`. -/
def trimStart (s : CodeUnits) : CodeUnits := s.dropWhile isSpace

/-- The small letter of a letter of ASCII. -/
def lower (u : UInt16) : UInt16 := if 65 ≤ u ∧ u ≤ 90 then u + 32 else u

/-- `s.toLowerCase()` of a string of ASCII and white space. -/
def toLowerCase (s : CodeUnits) : CodeUnits := s.map lower

/-- The characters of a string when it is sent: a surrogate that does not pair up is replaced. -/
def chars : CodeUnits → List Char
  | [] => []
  | [u] => if 0xd800 ≤ u ∧ u < 0xe000 then ['\uFFFD'] else [Char.ofNat u.toNat]
  | u :: v :: s =>
    if 0xd800 ≤ u ∧ u < 0xdc00 ∧ 0xdc00 ≤ v ∧ v < 0xe000 then
      Char.ofNat (0x10000 + (u.toNat - 0xd800) * 0x400 + (v.toNat - 0xdc00)) :: chars s
    else if 0xd800 ≤ u ∧ u < 0xe000 then '\uFFFD' :: chars (v :: s)
    else Char.ofNat u.toNat :: chars (v :: s)

/-- What is not white space is not trimmed away. -/
theorem trim_ne_nil {s : CodeUnits} {u : UInt16} (hu : u ∈ s) (h : isSpace u = false) :
    trim s ≠ [] := by
  intro htrim
  have hspace : ∀ v ∈ s.dropWhile isSpace, isSpace v = true := List.rdropWhile_eq_nil_iff.1 htrim
  rw [← List.takeWhile_append_dropWhile (p := isSpace) (l := s)] at hu
  obtain hu | hu := List.mem_append.1 hu
  · exact Bool.false_ne_true (h.symm.trans (List.mem_takeWhile_imp hu))
  · exact Bool.false_ne_true (h.symm.trans (hspace u hu))

/-! ## ASCII -/

/-- A code unit of ASCII. -/
def isAscii (u : UInt16) : Bool := u < 128

theorem isAscii_of_isWord {u : UInt16} (h : isWord u = true) : isAscii u = true := by
  simp only [isWord, isAlphanumeric, isDigit, isAscii, Bool.or_eq_true, Bool.and_eq_true,
    decide_eq_true_eq, beq_iff_eq, UInt16.le_iff_toNat_le, UInt16.lt_iff_toNat_lt,
    ← UInt16.toNat_inj, UInt16.toNat_ofNat] at h ⊢
  omega

/-- What can be checked of each code unit of ASCII. -/
theorem forall_ascii (P : UInt16 → Bool)
    (h : (List.range 128).all (fun n => P (UInt16.ofNat n)) = true) {u : UInt16}
    (hu : isAscii u = true) : P u = true := by
  have hlt : u.toNat < 128 := UInt16.lt_iff_toNat_lt.1 (of_decide_eq_true hu)
  have hP := List.all_eq_true.1 h u.toNat (List.mem_range.2 hlt)
  rwa [UInt16.ofNat_toNat] at hP

theorem chars_cons {u : UInt16} (hu : isAscii u = true) (s : CodeUnits) :
    chars (u :: s) = Char.ofNat u.toNat :: chars s := by
  have hlt : u < 128 := of_decide_eq_true hu
  have hsurrogate : ¬0xd800 ≤ u := by
    rw [UInt16.le_iff_toNat_le]
    rw [UInt16.lt_iff_toNat_lt] at hlt
    exact Nat.not_le.2 (hlt.trans (by decide))
  cases s with
  | nil => simp [chars, hsurrogate]
  | cons v s => simp [chars, hsurrogate]

/-- **ASCII is sent as it is.** -/
theorem chars_append {s : CodeUnits} (hs : ∀ u ∈ s, isAscii u = true) (t : CodeUnits) :
    chars (s ++ t) = s.map (fun u => Char.ofNat u.toNat) ++ chars t := by
  induction s with
  | nil => rfl
  | cons u s ih =>
    rw [List.cons_append, chars_cons (hs u List.mem_cons_self),
      ih fun v hv => hs v (List.mem_cons_of_mem u hv), List.map_cons, List.cons_append]

theorem chars_eq_map {s : CodeUnits} (hs : ∀ u ∈ s, isAscii u = true) :
    chars s = s.map fun u => Char.ofNat u.toNat := by
  have h := chars_append hs []
  rwa [List.append_nil, chars, List.append_nil] at h

theorem chars_append_eq {s t : CodeUnits} (hs : ∀ u ∈ s, isAscii u = true) :
    chars (s ++ t) = chars s ++ chars t := by
  rw [chars_append hs, chars_eq_map hs]

/-- A character of ASCII is sent where its code unit is. -/
theorem mem_chars_iff {s : CodeUnits} (hs : ∀ u ∈ s, isAscii u = true) {v : UInt16}
    (hv : isAscii v = true) : Char.ofNat v.toNat ∈ chars s ↔ v ∈ s := by
  have htoNat {u : UInt16} (hu : isAscii u = true) : (Char.ofNat u.toNat).toNat = u.toNat :=
    beq_iff_eq.1 (forall_ascii (fun u => (Char.ofNat u.toNat).toNat == u.toNat) (by decide) hu)
  rw [chars_eq_map hs, List.mem_map]
  constructor
  · rintro ⟨u, hu, heq⟩
    have htoNat := (htoNat (hs u hu)).symm.trans ((congrArg Char.toNat heq).trans (htoNat hv))
    rwa [UInt16.toNat_inj.1 htoNat] at hu
  · exact fun h => ⟨v, h, rfl⟩

end CodeUnits
