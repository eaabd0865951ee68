import Wosh.Connstring.Token
import Wosh.Lib.Ecma

set_option relaxedAutoImplicit false
set_option autoImplicit false

/-!
# The page's decoder of pairing tokens

`decodeToken` of `site/boot.mjs`, which mirrors the crate's `token_decode`: it folds what a person
typed, and shifts five bits a symbol into an accumulator of 32.

## Main definitions

* `Page.decodeToken` — the decoder.
* `Page.Mirrors` — the two decoders do the same with a text.
* `Page.plain`, `Page.Alike` — a text without the characters that only one of them takes for a part of
  a token, and the texts on which they agree.

## Main results

* `Page.run_eq` — the accumulator holds the digits that were read.
* `Page.decodeToken_eq_some` — what the page accepts.
* `Page.mirrors_iff` — the decoders agree except on a token that is typed with U+0085 as white space
  (and nothing else that only one of them knows), or with U+FEFF as white space or a letter outside
  of ASCII whose upper case is in it (and no U+0085).
-/

namespace Page

open Ecma Connstring
open Tunnel (Bytes)

/-! ## The decoder -/

/-- RFC 4648 base 32 with `I` replaced by `9` (`TOKEN_ALPHABET`). -/
def tokenAlphabet : List Char := "ABCDEFGH9JKLMNOPQRSTUVWXYZ234567".toList

/-- `/[\s:_-]/.test(c)`. -/
def isDropped (c : Char) : Bool := Ecma.isSpace c || c = ':' || c = '_' || c = '-'

/-- The shapes with one possible meaning, where the upper case of a character is one. -/
def resolveShape (c : List Char) : List Char :=
  if c = ['0'] then ['O'] else if c = ['1'] ∨ c = ['I'] then ['L'] else if c = ['8'] then ['B'] else c

/-- The text without separators, in upper case, and with every shape resolved. -/
def foldedToken (u : Casing) (raw : String) : List Char :=
  (((raw.toList.filter (!isDropped ·)).map u.toUpperCase).map resolveShape).flatten

/-- The variables of the loop. -/
structure Accumulator where
  /-- The bytes that are complete. -/
  out : List ℤ
  /-- The bits that were read, as far as 32 bits hold them. -/
  acc : ℤ
  /-- How many of them are of no complete byte. -/
  bits : ℕ
deriving DecidableEq

/-- One turn of the loop. -/
def Accumulator.turn (st : Accumulator) (c : Char) : Option Accumulator :=
  match tokenAlphabet.idxOf? c with
  | none => none
  | some v =>
    let acc := bitOr (shiftLeft st.acc 5) v
    let bits := st.bits + 5
    if 8 ≤ bits then
      some ⟨st.out ++ [bitAnd (shiftRight acc (bits - 8)) 0xff], acc, bits - 8⟩
    else some ⟨st.out, acc, bits⟩

/-- A pairing token as a person retypes it: its 16 bytes, or `null`. -/
def decodeToken (u : Casing) (raw : String) : Option (List ℤ) :=
  let folded := foldedToken u raw
  if utf16Length folded ≠ 26 then none
  else
    match folded.foldlM Accumulator.turn ⟨[], 0, 0⟩ with
    | none => none
    | some st =>
      if st.out.length ≠ 16 ∨ bitAnd st.acc (shiftLeft 1 st.bits - 1) ≠ 0 then none else some st.out

/-! ## The loop -/

/-- What the loop has after some digits. -/
def afterDigits (ds : List ℕ) : Accumulator where
  out := (BigEndian.bytes (5 * ds.length / 8)
    (Base32.number ds / 2 ^ Base32.spare ds.length)).map fun b => (b.toNat : ℤ)
  acc := (Base32.number ds : ℤ).bmod (2 ^ 32)
  bits := Base32.spare ds.length

/-- The low byte of what is shifted out. -/
theorem byte_eq (n : ℕ) {k : ℕ} (hk : k < 8) :
    bitAnd (shiftRight ((n : ℤ).bmod (2 ^ 32)) k) 0xff = ((n / 2 ^ k % 256 : ℕ) : ℤ) := by
  have hmask := bitAnd_mask (shiftRight ((n : ℤ).bmod (2 ^ 32)) k) (k := 8) (by decide)
  rw [show (0xff : ℤ) = 2 ^ 8 - 1 from rfl, hmask, shiftRight_eq, Int.bmod_bmod, Int.bmod_def]
  interval_cases k <;> norm_num <;> omega

/-- The spare bits after one more digit: a byte is complete, or they are five more. -/
theorem spare_succ (k : ℕ) :
    if 8 ≤ Base32.spare k + 5 then
      Base32.spare (k + 1) = Base32.spare k + 5 - 8 ∧ 5 * (k + 1) / 8 = 5 * k / 8 + 1
    else Base32.spare (k + 1) = Base32.spare k + 5 ∧ 5 * (k + 1) / 8 = 5 * k / 8 := by
  unfold Base32.spare
  split_ifs with hbyte
  · omega
  · omega

/-- One more digit moves the number up. -/
theorem acc_eq (n : ℕ) {d : ℕ} (hd : d < 32) :
    bitOr (shiftLeft ((n : ℤ).bmod (2 ^ 32)) 5) d = ((32 * n + d : ℕ) : ℤ).bmod (2 ^ 32) := by
  rw [bitOr_shiftLeft _ (k := 5) hd, Int.add_bmod, Int.bmod_mul_bmod, ← Int.add_bmod]
  congr 1
  push_cast
  ring

/-- One turn reads one digit. -/
theorem turn_eq (ds : List ℕ) (c : Char) :
    (afterDigits ds).turn c = (tokenSymbols.digit? c).map fun d => afterDigits (ds ++ [d]) := by
  have hdigit : tokenAlphabet.idxOf? c = tokenSymbols.digit? c := rfl
  rw [Accumulator.turn, hdigit]
  cases h : tokenSymbols.digit? c with
  | none => rfl
  | some d =>
    have hd : d < 32 := ((Symbols.idxOf?_eq_some tokenSymbols.nodup 'A').1 h).1
    have hacc := acc_eq (Base32.number ds) hd
    have hspare := spare_succ ds.length
    have hwhole : (32 * Base32.number ds + d) / 2 ^ (Base32.spare ds.length + 5) =
        Base32.number ds / 2 ^ Base32.spare ds.length := by
      rw [Nat.add_comm _ 5, pow_add, ← Nat.div_div_eq_div_mul]
      congr 1
      omega
    unfold afterDigits
    dsimp only [Option.map_some]
    rw [hacc, List.length_append, List.length_singleton, Base32.number_concat]
    split_ifs at hspare with hbyte
    · obtain ⟨hbits, hlen⟩ := hspare
      have hk : Base32.spare ds.length + 5 - 8 < 8 := by
        unfold Base32.spare
        omega
      have hhigh : (32 * Base32.number ds + d) / 2 ^ (Base32.spare ds.length + 5 - 8) / 256 =
          Base32.number ds / 2 ^ Base32.spare ds.length := by
        rw [← hwhole, Nat.div_div_eq_div_mul, show (256 : ℕ) = 2 ^ 8 from rfl, ← pow_add,
          Nat.sub_add_cancel hbyte]
      rw [if_pos hbyte, hbits, hlen, BigEndian.bytes_succ, hhigh, byte_eq _ hk, List.map_append,
        List.map_singleton, UInt8.toNat_ofNat']
    · obtain ⟨hbits, hlen⟩ := hspare
      rw [if_neg hbyte, hbits, hlen, hwhole]

/-- **The accumulator holds the digits that were read.** -/
theorem run_eq (cs : List Char) :
    cs.foldlM Accumulator.turn ⟨[], 0, 0⟩ = (cs.mapM tokenSymbols.digit?).map afterDigits := by
  induction cs using List.reverseRecOn with
  | nil => rfl
  | append_singleton cs c ih =>
    rw [List.foldlM_append, ih, List.mapM_append]
    cases cs.mapM tokenSymbols.digit? with
    | none => rfl
    | some ds =>
      show (afterDigits ds).turn c >>= pure = _
      rw [turn_eq]
      cases h : tokenSymbols.digit? c <;> simp [h]

/-! ## What the page accepts -/

/-- Bytes as the page has them. -/
def byteNumbers (bs : Bytes) : List ℤ := bs.map fun b => (b.toNat : ℤ)

theorem byteNumbers_inj {bs bs' : Bytes} (h : byteNumbers bs = byteNumbers bs') : bs = bs' := by
  refine List.map_injective_iff.2 (fun b b' hb => ?_) h
  exact UInt8.toNat_inj.1 (Int.ofNat.inj hb)

/-- A text of symbols has one code unit for each of them. -/
theorem utf16Length_symbols {cs : List Char} (hcs : ∀ c ∈ cs, c ∈ tokenSymbols.chars) :
    utf16Length cs = cs.length := by
  have hall : tokenSymbols.chars.all fun c => c.toNat < 2 ^ 16 := by decide +kernel
  induction cs with
  | nil => rfl
  | cons c cs ih =>
    obtain ⟨hc, hrest⟩ := List.forall_mem_cons.1 hcs
    have hunit : c.toNat < 2 ^ 16 := of_decide_eq_true (List.all_eq_true.1 hall c hc)
    have htail := ih hrest
    unfold utf16Length at htail ⊢
    rw [List.map_cons, List.sum_cons, if_pos hunit, htail, List.length_cons, Nat.add_comm]

/-- After 26 digits, the checks at the end are those of a strict decoder. -/
theorem accepted_eq {ds : List ℕ} (hlen : ds.length = 26) :
    (if (afterDigits ds).out.length ≠ 16 ∨
        bitAnd (afterDigits ds).acc (shiftLeft 1 (afterDigits ds).bits - 1) ≠ 0 then none
      else some (afterDigits ds).out) = (Base32.ofDigits ds).map byteNumbers := by
  have hspare : Base32.spare 26 = 2 := rfl
  have hmask : bitAnd (afterDigits ds).acc (shiftLeft 1 (afterDigits ds).bits - 1) =
      ((Base32.number ds % 2 ^ 2 : ℕ) : ℤ) := by
    have hbits : shiftLeft 1 2 - 1 = 2 ^ 2 - 1 := by decide
    unfold afterDigits
    rw [hlen, hspare, hbits, bitAnd_mask _ (by decide), Int.bmod_def]
    norm_num
    omega
  have hout : (afterDigits ds).out.length = 16 := by
    unfold afterDigits
    rw [hlen, List.length_map, BigEndian.length_bytes]
  rw [hmask, hout, Base32.ofDigits, hlen, hspare]
  by_cases hzero : Base32.number ds % 2 ^ 2 = 0
  · rw [hzero, if_neg (by decide), if_neg (by decide)]
    unfold afterDigits byteNumbers
    rw [hlen, hspare, Option.map_some]
  · rw [if_pos (.inr (by exact_mod_cast hzero)), if_pos (.inr hzero)]
    rfl

/-- The page decodes base 32 strictly, of 26 code units. -/
theorem decodeToken_eq (u : Casing) (raw : String) :
    decodeToken u raw =
      if utf16Length (foldedToken u raw) = 26 then
        (Base32.decode tokenSymbols (String.ofList (foldedToken u raw))).map byteNumbers
      else none := by
  unfold decodeToken
  dsimp only
  by_cases hlen : utf16Length (foldedToken u raw) = 26
  · rw [if_neg (not_not.2 hlen), if_pos hlen, run_eq, Base32.decode, String.toList_ofList]
    cases hds : (foldedToken u raw).mapM tokenSymbols.digit? with
    | none => rfl
    | some ds =>
      obtain ⟨hlt, hfolded⟩ := (Base32.mapM_digit? tokenSymbols).1 hds
      have hsymbols : ∀ c ∈ foldedToken u raw, c ∈ tokenSymbols.chars := by
        rw [hfolded]
        intro c hc
        obtain ⟨d, hd, rfl⟩ := List.mem_map.1 hc
        exact tokenSymbols.char_mem (hlt d hd)
      have hcount : ds.length = 26 := by
        rw [← hlen, utf16Length_symbols hsymbols, hfolded, List.length_map]
      exact accepted_eq hcount
  · rw [if_pos hlen, if_neg hlen]

/-- **What the page accepts** folds onto the text of a token. -/
theorem decodeToken_eq_some {u : Casing} {raw : String} {out : List ℤ} :
    decodeToken u raw = some out ↔
      ∃ t : Token, foldedToken u raw = (Base32.encode tokenSymbols t.val).toList ∧
        out = byteNumbers t.val := by
  have hunits : ∀ bs, utf16Length (Base32.encode tokenSymbols bs).toList = Base32.width bs.length :=
    fun bs => by
      rw [utf16Length_symbols fun c hc => Base32.mem_chars_of_mem_encode tokenSymbols hc,
        Base32.length_encode]
  rw [decodeToken_eq]
  constructor
  · intro h
    split_ifs at h with hlen
    obtain ⟨bs, hbs, rfl⟩ := Option.map_eq_some_iff.1 h
    have hfolded := congrArg String.toList ((Base32.decode_eq_some tokenSymbols).1 hbs)
    rw [String.toList_ofList] at hfolded
    have hlength : bs.length = tokenLen := by
      rw [hfolded, hunits, Base32.width] at hlen
      unfold tokenLen
      omega
    exact ⟨⟨bs, hlength⟩, hfolded, rfl⟩
  · rintro ⟨t, hfolded, rfl⟩
    have hlen : Base32.width t.val.length = 26 := by rw [t.property]; rfl
    rw [hfolded, hunits, if_pos hlen, String.ofList_toList,
      (Base32.decode_eq_some tokenSymbols).2 rfl, Option.map_some]

/-! ## Characters that only one of the decoders knows -/

/-- U+0085, white space to the crate alone. -/
def nextLine : Char := '\u0085'

/-- The characters outside of ASCII that only the page takes for a part of a token, and for which
part: U+FEFF is white space to it, and the upper case of the letters is in the alphabet. -/
def foreign : List (Char × List Char) :=
  [('\uFEFF', []), ('\u0131', ['I']), ('\u017F', ['S']), ('\u00DF', ['S', 'S']),
    ('\uFB00', ['F', 'F']), ('\uFB02', ['F', 'L']), ('\uFB04', ['F', 'F', 'L']),
    ('\uFB05', ['S', 'T']), ('\uFB06', ['S', 'T'])]

/-- What a character is taken for by the decoder that knows it. -/
def plainChars (c : Char) : List Char :=
  if c = nextLine then [] else (foreign.lookup c).getD [c]

/-- A text as the decoder that knows all of its characters takes it. -/
def plain (s : String) : String := String.ofList (s.toList.flatMap plainChars)

/-- What the crate makes of a character. -/
def crateFold (c : Char) : List Char := if isSeparator c then [] else [foldChar c]

/-- What the page makes of a character. -/
def pageFold (u : Casing) (c : Char) : List Char :=
  if isDropped c then [] else resolveShape (u.toUpperCase c)

theorem tokenFold_eq (s : String) : (tokenFold s).toList = s.toList.flatMap crateFold := by
  rw [toList_tokenFold]
  induction s.toList with
  | nil => rfl
  | cons c cs ih =>
    rw [List.flatMap_cons, ← ih, crateFold]
    by_cases hc : isSeparator c
    · rw [List.filter_cons_of_neg (by simpa using hc), if_pos hc, List.nil_append]
    · rw [List.filter_cons_of_pos (by simpa using hc), if_neg hc, List.map_cons,
        List.singleton_append]

theorem foldedToken_eq (u : Casing) (s : String) :
    foldedToken u s = s.toList.flatMap (pageFold u) := by
  rw [foldedToken]
  induction s.toList with
  | nil => rfl
  | cons c cs ih =>
    rw [List.flatMap_cons, ← ih, pageFold]
    by_cases hc : isDropped c
    · rw [List.filter_cons_of_neg (by simpa using hc), if_pos hc, List.nil_append]
    · rw [List.filter_cons_of_pos (by simpa using hc), if_neg hc, List.map_cons, List.map_cons,
        List.flatten_cons]

/-- A character that is no symbol. -/
def Unknown (c : Char) : Prop := c ∉ tokenSymbols.chars

/-- The symbols are in ASCII. -/
theorem unknown_of_le {c : Char} (hc : 128 ≤ c.toNat) : Unknown c := by
  have hall : tokenSymbols.chars.all fun c => c.toNat < 128 := by decide +kernel
  intro hmem
  have hlt : c.toNat < 128 := of_decide_eq_true (List.all_eq_true.1 hall c hmem)
  omega

/-- Two ways to fold that differ only where neither gives symbols lead to the same texts of
symbols. -/
theorem flatMap_eq_iff {f g : Char → List Char} {cs text : List Char}
    (htext : ∀ c ∈ text, c ∈ tokenSymbols.chars)
    (h : ∀ c ∈ cs, f c = g c ∨ (∃ x ∈ f c, Unknown x) ∧ ∃ x ∈ g c, Unknown x) :
    cs.flatMap f = text ↔ cs.flatMap g = text := by
  by_cases hunknown : ∃ c ∈ cs, (∃ x ∈ f c, Unknown x) ∧ ∃ x ∈ g c, Unknown x
  · obtain ⟨c, hc, ⟨x, hx, hxunknown⟩, y, hy, hyunknown⟩ := hunknown
    constructor
    · rintro rfl
      exact absurd (htext x (List.mem_flatMap.2 ⟨c, hc, hx⟩)) hxunknown
    · rintro rfl
      exact absurd (htext y (List.mem_flatMap.2 ⟨c, hc, hy⟩)) hyunknown
  · have hsame : cs.flatMap f = cs.flatMap g :=
      List.flatMap_congr fun c hc => (h c hc).resolve_right fun hboth => hunknown ⟨c, hc, hboth⟩
    rw [hsame]

/-- A text with a character that does not become symbols is no text of symbols. -/
theorem flatMap_ne {f : Char → List Char} {cs text : List Char}
    (htext : ∀ c ∈ text, c ∈ tokenSymbols.chars) {c x : Char} (hc : c ∈ cs) (hx : x ∈ f c)
    (hunknown : Unknown x) : cs.flatMap f ≠ text := by
  rintro rfl
  exact hunknown (htext x (List.mem_flatMap.2 ⟨c, hc, hx⟩))

/-- Shapes are resolved alike. -/
theorem resolveShape_singleton (c : Char) : resolveShape [c] = [resolve c] := by
  unfold resolveShape resolve
  simp only [List.cons.injEq, and_true]
  split_ifs <;> simp_all

/-- Outside of ASCII, nothing is a shape, and nothing has another case to the crate. -/
theorem foldChar_of_le {c : Char} (hc : 128 ≤ c.toNat) : foldChar c = c := by
  have hupper : c.toUpper = c := by
    rw [Char.toUpper, dif_neg]
    intro h
    have hle : c.toNat ≤ 122 := h.2
    omega
  have hne : ∀ x : Char, x.toNat < 128 → c ≠ x := by
    rintro x hx rfl
    omega
  rw [foldChar, hupper, resolve, if_neg, if_neg, if_neg]
  · exact hne '8' (by decide)
  · exact not_or.2 ⟨hne 'I' (by decide), not_or.2 ⟨hne '1' (by decide), hne 'L' (by decide)⟩⟩
  · exact not_or.2 ⟨hne 'O' (by decide), hne '0' (by decide)⟩

theorem resolveShape_of_le {cs : List Char} {x : Char} (hx : x ∈ cs) (hle : 128 ≤ x.toNat) :
    resolveShape cs = cs := by
  have hne : ∀ y : Char, y.toNat < 128 → cs ≠ [y] := by
    rintro y hy rfl
    obtain rfl := List.mem_singleton.1 hx
    omega
  rw [resolveShape, if_neg (hne '0' (by decide)), if_neg, if_neg (hne '8' (by decide))]
  exact not_or.2 ⟨hne '1' (by decide), hne 'I' (by decide)⟩

/-- The separators of the decoders are the same, up to U+0085 and U+FEFF. -/
theorem isDropped_eq {c : Char} (hnext : c ≠ nextLine) (hmark : c ≠ '\uFEFF') :
    isDropped c = isSeparator c := by
  have hnext' : c.toNat ≠ 0x85 := fun h => hnext (Char.toNat_inj.1 h)
  have hmark' : c.toNat ≠ 0xfeff := fun h => hmark (Char.toNat_inj.1 h)
  have hspace : Ecma.isSpace c = isWhitespace c := by
    simp only [Ecma.isSpace, isWhitespace, hnext', hmark', decide_false, Bool.or_false]
  unfold isDropped isSeparator
  rw [hspace, Bool.eq_iff_iff]
  simp only [Bool.or_eq_true, decide_eq_true_eq]
  tauto

/-- A character that both decoders know, or neither, stands for itself. -/
theorem plainChars_of_none {c : Char} (hnext : c ≠ nextLine) (hforeign : foreign.lookup c = none) :
    plainChars c = [c] := by
  rw [plainChars, if_neg hnext, hforeign]
  rfl

theorem plainChars_of_lt {c : Char} (hc : c.toNat < 128) : plainChars c = [c] := by
  have hne : ∀ x : Char, 128 ≤ x.toNat → c ≠ x := by
    rintro x hx rfl
    omega
  refine plainChars_of_none (hne nextLine (by decide)) (List.lookup_eq_none_iff.2 fun p hp => ?_)
  have hall : foreign.all fun p => 128 ≤ p.1.toNat := by decide
  exact bne_iff_ne.2 (hne p.1 (of_decide_eq_true (List.all_eq_true.1 hall p hp)))

/-- The page takes a letter with an upper case in ASCII for that, or for no part of a token. -/
theorem pageFold_special (u : Casing) {p : Char × List Char} (hp : p ∈ asciiUpperCase) :
    pageFold u p.1 = (plainChars p.1).flatMap crateFold ∨
      (∃ x ∈ pageFold u p.1, Unknown x) ∧ ∃ x ∈ (plainChars p.1).flatMap crateFold, Unknown x := by
  have hall : asciiUpperCase.all fun p =>
      (if isDropped p.1 then [] else resolveShape p.2) = (plainChars p.1).flatMap crateFold ∨
        'I' ∈ (if isDropped p.1 then [] else resolveShape p.2) ∧
          p.1 ∈ (plainChars p.1).flatMap crateFold ∧ 128 ≤ p.1.toNat := by decide +kernel
  have hcase := of_decide_eq_true (List.all_eq_true.1 hall p hp)
  rw [pageFold, u.special p hp]
  refine hcase.imp id fun h => ⟨⟨'I', h.1, ?_⟩, p.1, h.2.1, unknown_of_le h.2.2⟩
  unfold Unknown
  decide

/-- What the page makes of a character other than U+0085 is what the crate makes of the text that
the character stands for, or neither makes symbols of it. -/
theorem pageFold_eq (u : Casing) {c : Char} (hnext : c ≠ nextLine) :
    pageFold u c = (plainChars c).flatMap crateFold ∨
      (∃ x ∈ pageFold u c, Unknown x) ∧ ∃ x ∈ (plainChars c).flatMap crateFold, Unknown x := by
  by_cases hmark : c = '\uFEFF'
  · subst hmark
    exact .inl rfl
  · by_cases hascii : c.toNat < 128
    · left
      rw [plainChars_of_lt hascii, List.flatMap_singleton, pageFold, crateFold,
        isDropped_eq hnext hmark, u.ascii c hascii, resolveShape_singleton]
      rfl
    · have hle : 128 ≤ c.toNat := by omega
      by_cases hspecial : ∃ p ∈ asciiUpperCase, p.1 = c
      · obtain ⟨p, hp, rfl⟩ := hspecial
        exact pageFold_special u hp
      · push Not at hspecial
        have hplain : plainChars c = [c] := by
          refine plainChars_of_none hnext (List.lookup_eq_none_iff.2 fun p hp => bne_iff_ne.2 ?_)
          have hall : foreign.all fun p => p.1 = '\uFEFF' ∨ p ∈ asciiUpperCase := by decide
          rcases of_decide_eq_true (List.all_eq_true.1 hall p hp) with hp' | hp'
          · rw [hp']
            exact hmark
          · exact (hspecial p hp').symm
        rw [hplain, List.flatMap_singleton, pageFold, crateFold, isDropped_eq hnext hmark]
        split_ifs with hseparator
        · exact .inl rfl
        · obtain ⟨x, hx, hxle⟩ := u.other c hle hspecial
          rw [resolveShape_of_le hx hxle, foldChar_of_le hle]
          exact .inr ⟨⟨x, hx, unknown_of_le hxle⟩, c, List.mem_singleton_self c, unknown_of_le hle⟩

/-- To the page, U+0085 is no part of a token. -/
theorem pageFold_nextLine (u : Casing) : ∃ x ∈ pageFold u nextLine, Unknown x := by
  obtain ⟨x, hx, hle⟩ := u.other nextLine (by decide) (by decide)
  refine ⟨x, ?_, unknown_of_le hle⟩
  rw [pageFold, if_neg (by decide), resolveShape_of_le hx hle]
  exact hx

/-- To the crate, a character that only the page knows is no part of a token. -/
theorem crateFold_foreign {c : Char} (hc : (foreign.lookup c).isSome) :
    ∃ x ∈ crateFold c, Unknown x := by
  obtain ⟨cs, hcs⟩ := Option.isSome_iff_exists.1 hc
  obtain ⟨l, r, hlist, -⟩ := List.lookup_eq_some_iff.1 hcs
  have hmem : (c, cs) ∈ foreign := by
    rw [hlist]
    exact List.mem_append_right l (List.mem_cons_self ..)
  have hall : foreign.all fun p => 128 ≤ p.1.toNat ∧ isSeparator p.1 = false := by decide
  obtain ⟨hle, hseparator⟩ := of_decide_eq_true (List.all_eq_true.1 hall _ hmem)
  refine ⟨c, ?_, unknown_of_le hle⟩
  rw [crateFold, if_neg (by rw [hseparator]; decide), foldChar_of_le hle]
  exact List.mem_singleton_self c

/-- What the crate makes of a character that it knows, or that neither does. -/
theorem crateFold_eq {c : Char} (hc : foreign.lookup c = none) :
    crateFold c = (plainChars c).flatMap crateFold := by
  by_cases hnext : c = nextLine
  · subst hnext
    rfl
  · rw [plainChars_of_none hnext hc, List.flatMap_singleton]

/-! ## Foldings of a text -/

/-- The text of a token. -/
def tokenText (t : Token) : List Char := (Base32.encode tokenSymbols t.val).toList

theorem tokenText_symbols (t : Token) : ∀ c ∈ tokenText t, c ∈ tokenSymbols.chars :=
  fun _ hc => Base32.mem_chars_of_mem_encode tokenSymbols hc

section Foldings

variable {s : String} (u : Casing) (t : Token)

theorem tokenFold_plain (s : String) : (tokenFold (plain s)).toList =
    s.toList.flatMap fun c => (plainChars c).flatMap crateFold := by
  rw [tokenFold_eq, plain, String.toList_ofList, List.flatMap_assoc]

/-- Without U+0085, the page takes a text for what it stands for. -/
theorem page_knows (hnext : nextLine ∉ s.toList) :
    foldedToken u s = tokenText t ↔ (tokenFold (plain s)).toList = tokenText t := by
  rw [foldedToken_eq, tokenFold_plain]
  exact flatMap_eq_iff (tokenText_symbols t) fun c hc => pageFold_eq u fun h => hnext (h ▸ hc)

/-- With it, the page takes it for no token. -/
theorem page_rejects (hnext : nextLine ∈ s.toList) : foldedToken u s ≠ tokenText t := by
  obtain ⟨x, hx, hunknown⟩ := pageFold_nextLine u
  rw [foldedToken_eq]
  exact flatMap_ne (tokenText_symbols t) hnext hx hunknown

/-- Without a character that only the page knows, the crate takes a text for what it stands for. -/
theorem crate_knows (hforeign : ¬ ∃ c ∈ s.toList, (foreign.lookup c).isSome) :
    (tokenFold s).toList = tokenText t ↔ (tokenFold (plain s)).toList = tokenText t := by
  rw [tokenFold_eq, tokenFold_plain]
  refine flatMap_eq_iff (tokenText_symbols t) fun c hc => .inl (crateFold_eq ?_)
  exact Option.not_isSome_iff_eq_none.1 fun h => hforeign ⟨c, hc, h⟩

/-- With one, the crate takes it for no token. -/
theorem crate_rejects (hforeign : ∃ c ∈ s.toList, (foreign.lookup c).isSome) :
    (tokenFold s).toList ≠ tokenText t := by
  obtain ⟨c, hc, hlookup⟩ := hforeign
  obtain ⟨x, hx, hunknown⟩ := crateFold_foreign hlookup
  rw [tokenFold_eq]
  exact flatMap_ne (tokenText_symbols t) hc hx hunknown

end Foldings

/-! ## The two decoders -/

section Decoders

variable [DataEncoding]

/-- The two decoders do the same with a text. -/
def Mirrors (u : Casing) (s : String) : Prop :=
  (∀ t : Token, decodeToken u s = some (byteNumbers t.val) ↔ tokenDecode s = .ok t) ∧
    (decodeToken u s = none ↔ ∃ e, tokenDecode s = .error e)

/-- A text has U+0085 exactly if it has one of the characters that only the page knows; or what it
stands for is no way to type a token. -/
def Alike (s : String) : Prop :=
  (nextLine ∈ s.toList ↔ ∃ c ∈ s.toList, (foreign.lookup c).isSome) ∨
    ∀ t : Token, ¬ Typed (tokenEncode t).toList (plain s).toList

/-- The decoders do the same where both foldings lead to the same tokens. -/
theorem mirrors_iff_folds (hcrate : DataEncoding.PerFormat) (u : Casing) (s : String) :
    Mirrors u s ↔ ∀ t : Token, foldedToken u s = tokenText t ↔
      (tokenFold s).toList = tokenText t := by
  have hpage : ∀ t : Token, decodeToken u s = some (byteNumbers t.val) ↔
      foldedToken u s = tokenText t := by
    intro t
    rw [decodeToken_eq_some]
    constructor
    · rintro ⟨t', hfolded, hout⟩
      rwa [tokenText, byteNumbers_inj hout]
    · intro hfolded
      exact ⟨t, hfolded, rfl⟩
  have hdecode : ∀ t : Token, tokenDecode s = .ok t ↔
      (tokenFold s).toList = tokenText t := by
    intro t
    rw [tokenDecode_eq_ok hcrate, String.ext_iff, tokenText]
  constructor
  · intro h t
    rw [← hpage, ← hdecode]
    exact h.1 t
  · intro h
    have hsame : ∀ t : Token, decodeToken u s = some (byteNumbers t.val) ↔ tokenDecode s = .ok t :=
      fun t => ((hpage t).trans (h t)).trans (hdecode t).symm
    refine ⟨hsame, ?_⟩
    cases htoken : tokenDecode s with
    | error e =>
      refine ⟨fun _ => ⟨e, rfl⟩, fun _ => Option.eq_none_iff_forall_ne_some.2 fun out hout => ?_⟩
      obtain ⟨t, hfolded, -⟩ := decodeToken_eq_some.1 hout
      have hok := (hdecode t).2 ((h t).1 hfolded)
      rw [htoken] at hok
      cases hok
    | ok t =>
      rw [(hsame t).2 htoken]
      constructor
      · intro hnone
        cases hnone
      · rintro ⟨e, he⟩
        cases he

/-- **The decoders do the same exactly with the texts that are alike to them.** -/
theorem mirrors_iff (hcrate : DataEncoding.PerFormat) (u : Casing) (s : String) :
    Mirrors u s ↔ Alike s := by
  have htyped : ∀ t : Token, Typed (tokenEncode t).toList (plain s).toList ↔
      (tokenFold (plain s)).toList = tokenText t := by
    intro t
    have hencode : (tokenEncode t).toList = tokenText t :=
      congrArg String.toList (hcrate.encode tokenSymbols t.val)
    rw [hencode, typed_iff (tokenText_symbols t), ← toList_tokenFold]
  rw [mirrors_iff_folds hcrate, Alike]
  simp only [htyped]
  by_cases hnext : nextLine ∈ s.toList <;>
    by_cases hforeign : ∃ c ∈ s.toList, (foreign.lookup c).isSome
  · -- neither decoder knows the text
    refine ⟨fun _ => .inl (iff_of_true hnext hforeign), fun _ t => ?_⟩
    exact iff_of_false (page_rejects u t hnext) (crate_rejects t hforeign)
  · -- only the crate does
    rw [or_iff_right fun h => hforeign (h.1 hnext)]
    refine forall_congr' fun t => ?_
    rw [iff_false_left (page_rejects u t hnext), crate_knows t hforeign]
  · -- only the page does
    rw [or_iff_right fun h => hnext (h.2 hforeign)]
    refine forall_congr' fun t => ?_
    rw [iff_false_right (crate_rejects t hforeign), page_knows u t hnext]
  · refine ⟨fun _ => .inl (iff_of_false hnext hforeign), fun _ t => ?_⟩
    exact (page_knows u t hnext).trans (crate_knows t hforeign).symm

end Decoders

theorem mirrors_iff_asciiToken :
    @Mirrors .golden .golden "saaaa aaaaa-aaaaa:aaaaa_aaaa aa" := by
  have hall : ("saaaa aaaaa-aaaaa:aaaaa_aaaa aa".toList.all fun c => foreign.lookup c = none) := by
    decide
  refine (@mirrors_iff .golden DataEncoding.golden_perFormat .golden _).2
    (.inl (iff_of_false (by decide) ?_))
  rintro ⟨c, hc, hforeign⟩
  rw [of_decide_eq_true (List.all_eq_true.1 hall c hc)] at hforeign
  cases hforeign

/-- A token whose text begins with `S`. -/
def tokenOfS : Token := ⟨0x90 :: List.replicate 15 0, rfl⟩

/-- With its `S` typed as U+017F, of which that is the upper case, the page alone decodes it. -/
theorem not_mirrors_longS :
    (decodeToken .golden "\u017Faaaaaaaaaaaaaaaaaaaaaaaaa" = some (byteNumbers tokenOfS.val) ∧
      ∀ t, @tokenDecode .golden "\u017Faaaaaaaaaaaaaaaaaaaaaaaaa" ≠ .ok t) ∧
      ¬ @Mirrors .golden .golden "\u017Faaaaaaaaaaaaaaaaaaaaaaaaa" := by
  have hpage : decodeToken .golden "\u017Faaaaaaaaaaaaaaaaaaaaaaaaa" =
      some (byteNumbers tokenOfS.val) := by decide +kernel
  have hcrate : ∀ t, @tokenDecode .golden "\u017Faaaaaaaaaaaaaaaaaaaaaaaaa" ≠ .ok t := by
    intro t h
    rw [@tokenDecode_eq_ok .golden DataEncoding.golden_perFormat, String.ext_iff, tokenFold_eq] at h
    obtain ⟨x, hx, hunknown⟩ := crateFold_foreign (c := '\u017F') rfl
    exact flatMap_ne (tokenText_symbols t) (by decide) hx hunknown h
  exact ⟨⟨hpage, hcrate⟩, fun h => hcrate tokenOfS ((h.1 tokenOfS).1 hpage)⟩

end Page
