import Wosh.Connstring.Format
import Wosh.Lib.Base32
import Wosh.Lib.Fallible

set_option relaxedAutoImplicit false
set_option autoImplicit false

/-!
# Pairing tokens as they are typed

The pairing token as a human passes it around, `connstring/src/lib.rs`: 26 characters of base 32,
and what a person makes of them.

## Main definitions

* `Connstring.tokenFold` — what a person typed, folded onto the alphabet.
* `Connstring.tokenEncode`, `Connstring.tokenDecode` — the token as it is printed, and back.
* `Connstring.Typed` — the ways to type a text.
* `Connstring.DataEncoding.PerFormat` — the crate follows its format.

## Main results

* `Connstring.typed_iff` — the ways to type a printed text are what folds onto it.
* `Connstring.token_unambiguous` — a typed token decodes to the token that was printed.

## Design

The `data_encoding` crate is not part of the repository: it is the class `DataEncoding`. Its
specification has nothing but symbols here, so an encoding is an alphabet, and that it is a valid
one is a field of it.
-/

namespace Connstring

open Tunnel (Bytes)

/-! ## The crate -/

/-- The `data_encoding` crate, as this one uses it. -/
class DataEncoding where
  /-- `Encoding::encode`. -/
  encode : Base32.Alphabet → Bytes → String
  /-- `Encoding::decode`, with the text of its error. -/
  decode : Base32.Alphabet → Bytes → Except String Bytes

/-- The crate follows its format: base 32 without padding, with a check of the spare bits. -/
structure DataEncoding.PerFormat [DataEncoding] : Prop where
  encode : ∀ A bs, DataEncoding.encode A bs = Base32.encode A bs
  decode : ∀ A text bs,
    DataEncoding.decode A (Text.utf8 text) = .ok bs ↔ Base32.decode A text = some bs

/-- A crate that is written from the format. -/
@[reducible] def DataEncoding.golden : DataEncoding where
  encode := Base32.encode
  decode A input :=
    match (Text.ofUtf8? input).bind (Base32.decode A) with
    | some bs => .ok bs
    | none => .error "invalid encoding"

theorem DataEncoding.golden_perFormat : @DataEncoding.PerFormat golden := by
  refine @DataEncoding.PerFormat.mk golden (fun A bs => rfl) fun A text bs => ?_
  have htext : Text.ofUtf8? (Text.utf8 text) = some text := Text.ofUtf8?_eq_some.2 rfl
  show (match (Text.ofUtf8? (Text.utf8 text)).bind (Base32.decode A) with
    | some bs => Except.ok bs
    | none => Except.error "invalid encoding") = Except.ok bs ↔ _
  rw [htext, Option.bind_some]
  cases Base32.decode A text <;> simp

/-! ## The codec -/

/-- RFC 4648 base 32 with `I` replaced by `9` (`TOKEN_SYMBOLS`). -/
def tokenSymbols : Base32.Alphabet where
  chars := "ABCDEFGH9JKLMNOPQRSTUVWXYZ234567".toList
  length_chars := by decide
  nodup := by decide +kernel

/-- The separators that a person adds while reading a token out. -/
def isSeparator (c : Char) : Bool := isWhitespace c || c = '-' || c = ':' || c = '_'

/-- Every shape that has only one possible meaning. -/
def resolve (c : Char) : Char :=
  if c = 'O' ∨ c = '0' then 'O'
  else if c = 'I' ∨ c = '1' ∨ c = 'L' then 'L'
  else if c = '8' then 'B'
  else c

/-- Fold what a person typed onto the alphabet. -/
def tokenFold (s : String) : String :=
  String.ofList (((s.toList.filter (!isSeparator ·)).map Char.toUpper).map resolve)

section Codec

variable [DataEncoding]

/-- The token as it is printed: 26 characters. -/
def tokenEncode (token : Token) : String := DataEncoding.encode tokenSymbols token.val

/-- The token of nothing but zeros. -/
def zeroToken : Token := ⟨List.replicate tokenLen 0, rfl⟩

/-- The inverse, forgiving of case, of separators and of every confusable shape. -/
def tokenDecode (s : String) : Except String Token := do
  let folded := tokenFold s
  let bytes ← (DataEncoding.decode tokenSymbols (Text.utf8 folded)).mapError fun e =>
    "not a pairing token: " ++ e
  if h : bytes.length = tokenLen then .ok ⟨bytes, h⟩
  else
    .error ("a pairing token is " ++ toString (Text.utf8 (tokenEncode zeroToken)).length ++
      " characters (" ++ toString tokenLen ++ " bytes); that decoded to " ++ toString bytes.length)

end Codec

/-! ## Typing -/

/-- The ways to write a symbol of a printed token. -/
inductive Written : Char → Char → Prop
  | same (c : Char) : Written c c
  | lower (c : Char) : Written c c.toLower
  | upper (c : Char) : Written c c.toUpper
  | round : Written 'O' '0'
  | tall {c : Char} (hc : c ∈ ['I', 'i', '1', 'l']) : Written 'L' c
  | fat : Written 'B' '8'

/-- The ways to type a text: its symbols, each written somehow, with separators anywhere. -/
inductive Typed : List Char → List Char → Prop
  | nil : Typed [] []
  | separator {text s : List Char} {c : Char} (hc : isSeparator c) (h : Typed text s) :
      Typed text (c :: s)
  | symbol {text s : List Char} {c c' : Char} (hc : Written c c') (h : Typed text s) :
      Typed (c :: text) (c' :: s)

/-- What a character that is not a separator is folded to. -/
def foldChar (c : Char) : Char := resolve c.toUpper

theorem toList_tokenFold (s : String) :
    (tokenFold s).toList = (s.toList.filter (!isSeparator ·)).map foldChar := by
  rw [tokenFold, String.toList_ofList, List.map_map]
  rfl

/-- What has a character as its upper case. -/
theorem eq_of_toUpper {c u : Char} (h : c.toUpper = u) : c = u ∨ c = u.toLower := by
  by_cases hlower : 97 ≤ c.toNat ∧ c.toNat ≤ 122
  · right
    obtain ⟨hleast, hgreatest⟩ := hlower
    have hc : c = Char.ofNat c.toNat := (Char.ofNat_toNat c).symm
    rw [← h]
    generalize c.toNat = n at hleast hgreatest hc
    subst hc
    interval_cases n <;> decide
  · left
    rw [← h, Char.toUpper, dif_neg]
    exact hlower

/-- A symbol is no separator in either case, and folds onto itself. -/
theorem symbol_folds {c : Char} (hc : c ∈ tokenSymbols.chars) :
    (isSeparator c = false ∧ foldChar c = c) ∧
      (isSeparator c.toLower = false ∧ foldChar c.toLower = c) ∧
      (isSeparator c.toUpper = false ∧ foldChar c.toUpper = c) := by
  have hall : tokenSymbols.chars.all fun c =>
      (isSeparator c = false ∧ foldChar c = c) ∧
        (isSeparator c.toLower = false ∧ foldChar c.toLower = c) ∧
        (isSeparator c.toUpper = false ∧ foldChar c.toUpper = c) := by decide +kernel
  exact of_decide_eq_true (List.all_eq_true.1 hall c hc)

/-- A way to write a symbol is no separator, and folds onto it. -/
theorem fold_of_written {c c' : Char} (hc : c ∈ tokenSymbols.chars) (h : Written c c') :
    isSeparator c' = false ∧ foldChar c' = c := by
  obtain ⟨hsame, hlower, hupper⟩ := symbol_folds hc
  cases h with
  | same => exact hsame
  | lower => exact hlower
  | upper => exact hupper
  | round => decide
  | tall hc' =>
    simp only [List.mem_cons, List.not_mem_nil, or_false] at hc'
    rcases hc' with rfl | rfl | rfl | rfl <;> decide
  | fat => decide

/-- What folds onto a character is a way to write it. -/
theorem written_fold (c : Char) : Written (foldChar c) c := by
  generalize hu : c.toUpper = u
  have hcase := eq_of_toUpper hu
  rw [foldChar, hu, resolve]
  split_ifs with hround htall hfat
  · rcases hround with rfl | rfl
    · rcases hcase with rfl | rfl
      · exact .same _
      · exact .lower _
    · rcases hcase with rfl | rfl
      · exact .round
      · exact .round
  · rcases htall with rfl | rfl | rfl
    · rcases hcase with rfl | rfl
      · exact .tall (by decide)
      · exact .tall (by decide)
    · rcases hcase with rfl | rfl
      · exact .tall (by decide)
      · exact .tall (by decide)
    · rcases hcase with rfl | rfl
      · exact .same _
      · exact .lower _
  · subst hfat
    rcases hcase with rfl | rfl
    · exact .fat
    · exact .fat
  · rcases hcase with rfl | rfl
    · exact .same _
    · exact .lower _

/-- **The ways to type a printed text** are what folds onto it. -/
theorem typed_iff {text s : List Char} (htext : ∀ c ∈ text, c ∈ tokenSymbols.chars) :
    Typed text s ↔ (s.filter (!isSeparator ·)).map foldChar = text := by
  constructor
  · intro h
    induction h with
    | nil => rfl
    | separator hc h ih =>
      rw [List.filter_cons_of_neg (by simpa using hc)]
      exact ih htext
    | symbol hc h ih =>
      obtain ⟨hsymbol, hrest⟩ := List.forall_mem_cons.1 htext
      obtain ⟨hplain, hfold⟩ := fold_of_written hsymbol hc
      rw [List.filter_cons_of_pos (by simpa using hplain), List.map_cons, hfold, ih hrest]
  · intro h
    induction s generalizing text with
    | nil =>
      obtain rfl : [] = text := h
      exact .nil
    | cons c s ih =>
      by_cases hc : isSeparator c
      · rw [List.filter_cons_of_neg (by simpa using hc)] at h
        exact .separator hc (ih htext h)
      · rw [List.filter_cons_of_pos (by simpa using hc), List.map_cons] at h
        subst h
        exact .symbol (written_fold c) (ih (List.forall_mem_cons.1 htext).2 rfl)

/-! ## Tokens -/

section Tokens

variable [DataEncoding]

/-- What is decoded is what folds onto the text of a token. -/
theorem tokenDecode_eq_ok (hcrate : DataEncoding.PerFormat) (s : String) (t : Token) :
    tokenDecode s = .ok t ↔ tokenFold s = Base32.encode tokenSymbols t.val := by
  rw [← Base32.decode_eq_some, ← hcrate.decode]
  rw [tokenDecode, Fallible.bind_eq_ok]
  constructor
  · rintro ⟨bytes, hbytes, h⟩
    rw [Fallible.mapError_eq_ok] at hbytes
    split_ifs at h with hlen
    obtain rfl := Except.ok.inj h
    exact hbytes
  · intro h
    refine ⟨t.val, Fallible.mapError_eq_ok.2 h, ?_⟩
    rw [dif_pos t.property]

/-- **A typed token decodes to the token that was printed**, to that alone, and only if it is a way to
type it. -/
theorem token_unambiguous (hcrate : DataEncoding.PerFormat) :
    (∀ s t, tokenDecode s = .ok t ↔ tokenFold s = tokenEncode t) ∧
      Function.Injective tokenEncode ∧
      (∀ s t, tokenDecode s = .ok t ↔ Typed (tokenEncode t).toList s.toList) := by
  have hencode : ∀ t : Token, tokenEncode t = Base32.encode tokenSymbols t.val :=
    fun t => hcrate.encode tokenSymbols t.val
  refine ⟨fun s t => ?_, fun t t' h => ?_, fun s t => ?_⟩
  · rw [tokenDecode_eq_ok hcrate, hencode]
  · rw [hencode, hencode] at h
    exact Subtype.ext (Base32.encode_inj tokenSymbols h)
  · rw [tokenDecode_eq_ok hcrate, hencode,
      typed_iff fun c hc => Base32.mem_chars_of_mem_encode tokenSymbols hc, ← toList_tokenFold]
    exact String.ext_iff

end Tokens

/-- A token with every confusable shape in its text. -/
def sampleToken : Token :=
  ⟨[0x5c, 0x2d, 0x0e, 0x88, 0x21, 0x00, 0x44, 0x99, 0x2a, 0xbc, 0xde, 0xf0, 0x13, 0x57, 0x9b, 0xdf],
    rfl⟩

theorem token_unambiguous_sampleToken :
    @tokenDecode .golden "iqwq5c 8BABC-jskv433y_8gv4334" = .ok sampleToken ∧
      Typed (@tokenEncode .golden sampleToken).toList "iqwq5c 8BABC-jskv433y_8gv4334".toList := by
  have h := @token_unambiguous .golden DataEncoding.golden_perFormat
  have hdecode := (h.1 "iqwq5c 8BABC-jskv433y_8gv4334" sampleToken).2 (by decide +kernel)
  exact ⟨hdecode, (h.2.2 _ _).1 hdecode⟩

end Connstring
