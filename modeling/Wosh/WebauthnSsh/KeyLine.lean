import Wosh.WebauthnSsh.Encoding
import Wosh.Lib.Ecma

set_option relaxedAutoImplicit false
set_option autoImplicit false

/-!
# Key lines

The public key blob of a passkey, and the `authorized_keys` line that carries it, of
`webauthn-ssh/src/lib.rs`.

## Main definitions

* `WebauthnSsh.skEcdsaKeyBlob` — the blob of a point and a relying party.
* `WebauthnSsh.authorizedKeysLine`, `WebauthnSsh.parsePasskeyLine` — the line, and the way back.
* `WebauthnSsh.Carries` — a line carries a blob.

## Main results

* `WebauthnSsh.parseKeyBlob_eq_ok` — the blobs that are read are those that are written.
* `WebauthnSsh.fields_line` — the fields of a line that was written.
* `WebauthnSsh.line_roundTrip` — a key goes through a line and back, and no line changes the key that it
  carries.
-/

namespace WebauthnSsh

open Tunnel (Bytes)
open Fallible (require)
open Text (utf8 ofUtf8?)

/-! ## The blob -/

/-- The key type of the line and of the blob (`SK_ECDSA_KEY_TYPE`). -/
def skEcdsaKeyType : String := "sk-ecdsa-sha2-nistp256@openssh.com"

/-- The curve name inside the blob (`NISTP256`). -/
def nistp256 : String := "nistp256"

/-- The length of an uncompressed point (`P256_POINT_LEN`). -/
def p256PointLen : ℕ := 65

/-- An uncompressed point, by its length and its first byte. -/
def checkPoint (point : Bytes) : Except Failure Unit := do
  require (point.length = p256PointLen) (.error (.keyLength p256PointLen point.length))
  let first ← index point 0
  require (first = 0x04) (.error (.pointNotUncompressed first))

/-- The public key blob for a passkey (`sk_ecdsa_key_blob`). -/
def skEcdsaKeyBlob (point : Bytes) (application : String) : Except Failure Bytes := do
  checkPoint point
  return putString (utf8 skEcdsaKeyType) ++ putString (utf8 nistp256) ++ putString point ++
    putString (utf8 application)

/-! ## The line -/

/-- The alphabet and the padding of `STANDARD`. -/
def standardEncode (blob : Bytes) : String := Base64.encodePadded Ecma.standard blob

/-- An `authorized_keys` line: the key type, the blob and a comment. -/
def authorizedKeysLine (keyType : String) (blob : Bytes) (comment : String) : String :=
  keyType ++ " " ++ standardEncode blob ++ " " ++ comment

/-- What `split_ascii_whitespace` splits at. -/
def isAsciiWhitespace (c : Char) : Bool :=
  c.toNat = 9 || c.toNat = 10 || c.toNat = 12 || c.toNat = 13 || c.toNat = 0x20

/-- The fields of a line (`split_ascii_whitespace`). -/
def fields (line : String) : List String :=
  ((line.toList.splitOnP isAsciiWhitespace).filter (· ≠ [])).map String.ofList

/-- The point and the relying party of a blob. -/
def parseKeyBlob (blob : Bytes) : Except Failure (Bytes × String) := do
  let (name, rest) ← takeString blob
  require (name = utf8 skEcdsaKeyType)
    (.error (.malformedLine "the blob's own type does not match the line's"))
  let (curve, rest) ← takeString rest
  require (curve = utf8 nistp256) (.error (.malformedLine "the key is not on nistp256"))
  let (point, rest) ← takeString rest
  checkPoint point
  let (application, rest) ← takeString rest
  require (rest = []) (.error (.malformedLine "trailing bytes after the key blob"))
  let application ←
    okOr (ofUtf8? application) (.malformedLine "the application field is not UTF-8")
  return (point, application)

/-- Read a passkey line back into its point and relying party (`parse_passkey_line`). -/
def parsePasskeyLine (line : String) : Except Failure (Bytes × String) := do
  let keyType ← okOr (fields line)[0]? (.malformedLine "the line is empty")
  require (keyType = skEcdsaKeyType)
    (.error (.malformedLine "not a sk-ecdsa-sha2-nistp256@openssh.com key"))
  let encoded ← okOr (fields line)[1]? (.malformedLine "the line has no key blob")
  let blob ← okOr (Base64.decodePadded Ecma.standard encoded)
    (.malformedLine "the key blob is not valid base64")
  parseKeyBlob blob

/-- The second field of the line is the blob. -/
def Carries (line : String) (blob : Bytes) : Prop := (fields line)[1]? = some (standardEncode blob)

/-! ## Blobs -/

section Blob

variable {point blob : Bytes} {application : String}

theorem checkPoint_eq_ok {u : Unit} :
    checkPoint point = .ok u ↔ point.length = p256PointLen ∧ point.head? = some 0x04 := by
  rw [checkPoint, Fallible.require_bind_eq_ok]
  refine and_congr_right fun hlen => ?_
  cases point with
  | nil => cases hlen
  | cons first point =>
    rw [index_eq (by rfl), Fallible.ok_bind, Fallible.require_eq_ok, List.head?_cons,
      Option.some.injEq]

/-- Which keys are written. -/
theorem skEcdsaKeyBlob_eq_ok : skEcdsaKeyBlob point application = .ok blob ↔
    (point.length = p256PointLen ∧ point.head? = some 0x04) ∧
      blob = putString (utf8 skEcdsaKeyType) ++ putString (utf8 nistp256) ++ putString point ++
        putString (utf8 application) := by
  rw [skEcdsaKeyBlob, Fallible.bind_eq_ok]
  constructor
  · rintro ⟨_, hpoint, hblob⟩
    exact ⟨checkPoint_eq_ok.1 hpoint, (Fallible.pure_eq_ok.1 hblob).symm⟩
  · rintro ⟨hpoint, rfl⟩
    exact ⟨(), checkPoint_eq_ok.2 hpoint, rfl⟩

/-- **The blobs that are read** are those that are written. -/
theorem parseKeyBlob_eq_ok : parseKeyBlob blob = .ok (point, application) ↔
    skEcdsaKeyBlob point application = .ok blob ∧ (utf8 application).length < 2 ^ 32 := by
  rw [skEcdsaKeyBlob_eq_ok]
  unfold parseKeyBlob
  constructor
  · intro h
    obtain ⟨⟨name, rest⟩, hname, h⟩ := Fallible.bind_eq_ok.1 h
    obtain ⟨hname', h⟩ := Fallible.require_bind_eq_ok.1 h
    obtain ⟨⟨curve, rest'⟩, hcurve, h⟩ := Fallible.bind_eq_ok.1 h
    obtain ⟨hcurve', h⟩ := Fallible.require_bind_eq_ok.1 h
    obtain ⟨⟨point', rest''⟩, hpoint, h⟩ := Fallible.bind_eq_ok.1 h
    obtain ⟨_, hcheck, h⟩ := Fallible.bind_eq_ok.1 h
    obtain ⟨⟨app, last⟩, happ, h⟩ := Fallible.bind_eq_ok.1 h
    obtain ⟨hlast, h⟩ := Fallible.require_bind_eq_ok.1 h
    obtain ⟨application', hutf8, h⟩ := Fallible.bind_eq_ok.1 h
    obtain ⟨rfl, rfl⟩ := Prod.mk.inj (Fallible.pure_eq_ok.1 h)
    obtain ⟨-, rfl⟩ := takeString_eq_ok.1 hname
    obtain ⟨-, rfl⟩ := takeString_eq_ok.1 hcurve
    obtain ⟨-, rfl⟩ := takeString_eq_ok.1 hpoint
    obtain ⟨hshort, rfl⟩ := takeString_eq_ok.1 happ
    obtain rfl := Text.ofUtf8?_eq_some.1 (okOr_eq_ok.1 hutf8)
    refine ⟨⟨checkPoint_eq_ok.1 hcheck, ?_⟩, hshort⟩
    rw [hname', hcurve', hlast]
    simp only [List.append_assoc, List.append_nil]
  · rintro ⟨⟨hpoint, rfl⟩, hshort⟩
    have hpointlen : point.length < 2 ^ 32 := by
      rw [hpoint.1]
      decide
    simp only [List.append_assoc]
    refine Fallible.bind_eq_ok.2 ⟨_, takeString_eq_ok.2 ⟨by decide, rfl⟩, ?_⟩
    refine Fallible.require_bind_eq_ok.2 ⟨rfl, ?_⟩
    refine Fallible.bind_eq_ok.2 ⟨_, takeString_eq_ok.2 ⟨by decide, rfl⟩, ?_⟩
    refine Fallible.require_bind_eq_ok.2 ⟨rfl, ?_⟩
    refine Fallible.bind_eq_ok.2 ⟨_, takeString_eq_ok.2 ⟨hpointlen, rfl⟩, ?_⟩
    refine Fallible.bind_eq_ok.2 ⟨(), checkPoint_eq_ok.2 hpoint, ?_⟩
    refine Fallible.bind_eq_ok.2
      ⟨(utf8 application, []), takeString_eq_ok.2 ⟨hshort, (List.append_nil _).symm⟩, ?_⟩
    refine Fallible.require_bind_eq_ok.2 ⟨rfl, ?_⟩
    exact Fallible.bind_eq_ok.2 ⟨application, okOr_eq_ok.2 (Text.ofUtf8?_eq_some.2 rfl), rfl⟩

end Blob

/-! ## Lines -/

section Line

variable {point blob : Bytes} {application line comment : String}

/-- The characters of an encoding are no white space, and some. -/
theorem standardEncode_chars {c : Char} (hc : c ∈ (standardEncode blob).toList) :
    isAsciiWhitespace c = false := by
  rw [standardEncode, Base64.encodePadded, String.toList_ofList, List.mem_append] at hc
  have hall : Ecma.standard.chars.all (fun c => !isAsciiWhitespace c) = true := by decide +kernel
  rcases hc with hc | hc
  · have h := List.all_eq_true.1 hall c (Base64.mem_chars_of_mem_encode _ hc)
    rwa [Bool.not_eq_true'] at h
  · rw [List.eq_of_mem_replicate hc]
    decide

/-- **The fields of a line** that was written: the key type and the blob come first. -/
theorem fields_line (hblob : blob ≠ []) (comment : String) :
    (fields (authorizedKeysLine skEcdsaKeyType blob comment))[0]? = some skEcdsaKeyType ∧
      Carries (authorizedKeysLine skEcdsaKeyType blob comment) blob := by
  have hkey : skEcdsaKeyType.toList.all (fun c => !isAsciiWhitespace c) = true := by decide +kernel
  have hkey' : ∀ c ∈ skEcdsaKeyType.toList, isAsciiWhitespace c = false := by
    intro c hc
    have h := List.all_eq_true.1 hkey c hc
    rwa [Bool.not_eq_true'] at h
  have hencoded : (standardEncode blob).toList ≠ [] := by
    intro hnil
    have hlen := Base64.length_le_encode Ecma.standard blob
    rw [standardEncode, Base64.encodePadded, String.toList_ofList, List.append_eq_nil_iff] at hnil
    rw [hnil.1] at hlen
    exact hblob (List.eq_nil_of_length_eq_zero (Nat.le_zero.1 hlen))
  have hsplit : fields (authorizedKeysLine skEcdsaKeyType blob comment) =
      skEcdsaKeyType :: standardEncode blob :: fields comment := by
    have hline : (authorizedKeysLine skEcdsaKeyType blob comment).toList =
        skEcdsaKeyType.toList ++ ' ' :: ((standardEncode blob).toList ++ ' ' :: comment.toList) := by
      have hspace : " ".toList = [' '] := by decide
      rw [authorizedKeysLine, String.toList_append, String.toList_append, String.toList_append,
        String.toList_append, hspace, List.append_assoc, List.append_assoc, List.append_assoc,
        List.singleton_append, List.singleton_append]
    rw [fields, hline, List.splitOnP_append_cons_of_forall_mem hkey' ' ' rfl,
      List.splitOnP_append_cons_of_forall_mem (fun c hc => standardEncode_chars hc) ' ' rfl,
      List.filter_cons_of_pos (by decide +kernel), List.filter_cons_of_pos (by simpa using hencoded),
      List.map_cons, List.map_cons, String.ofList_toList, String.ofList_toList, fields]
  rw [Carries, hsplit]
  exact ⟨rfl, rfl⟩

/-- **Which lines are read**: those of this key type that carry the blob of a key. -/
theorem parsePasskeyLine_eq_ok : parsePasskeyLine line = .ok (point, application) ↔
    (fields line)[0]? = some skEcdsaKeyType ∧
      ∃ blob, Carries line blob ∧ parseKeyBlob blob = .ok (point, application) := by
  have hpad : '=' ∉ Ecma.standard.chars := fun h => (Ecma.standard_chars h).2 rfl
  unfold parsePasskeyLine
  constructor
  · intro h
    obtain ⟨keyType, hkeyType, h⟩ := Fallible.bind_eq_ok.1 h
    obtain ⟨hsk, h⟩ := Fallible.require_bind_eq_ok.1 h
    obtain ⟨encoded, hencoded, h⟩ := Fallible.bind_eq_ok.1 h
    obtain ⟨blob, hblob, h⟩ := Fallible.bind_eq_ok.1 h
    have htext := (Base64.decodePadded_eq_some _ hpad).1 (okOr_eq_ok.1 hblob)
    rw [hsk] at hkeyType
    rw [htext] at hencoded
    exact ⟨okOr_eq_ok.1 hkeyType, blob, okOr_eq_ok.1 hencoded, h⟩
  · rintro ⟨hkeyType, blob, hcarries, h⟩
    refine Fallible.bind_eq_ok.2 ⟨_, okOr_eq_ok.2 hkeyType, ?_⟩
    refine Fallible.require_bind_eq_ok.2 ⟨rfl, ?_⟩
    refine Fallible.bind_eq_ok.2 ⟨_, okOr_eq_ok.2 hcarries, ?_⟩
    exact Fallible.bind_eq_ok.2
      ⟨blob, okOr_eq_ok.2 ((Base64.decodePadded_eq_some _ hpad).2 rfl), h⟩

/-- **A key goes through a line and back.** Every uncompressed point and application is read back from
the line that is written of it, with any comment; and a key that is read from a line is written as the
blob that the line carries. -/
theorem line_roundTrip :
    (∀ (point : Bytes) (application comment : String), point.length = 65 →
      point.head? = some 0x04 → (utf8 application).length < 2 ^ 32 →
      ∃ blob, skEcdsaKeyBlob point application = .ok blob ∧
        parsePasskeyLine (authorizedKeysLine skEcdsaKeyType blob comment) =
          .ok (point, application)) ∧
    (∀ (line : String) (point : Bytes) (application : String),
      parsePasskeyLine line = .ok (point, application) →
      ∃ blob, Carries line blob ∧ skEcdsaKeyBlob point application = .ok blob) := by
  constructor
  · intro point application comment hlen hfirst hshort
    have hblob : skEcdsaKeyBlob point application = .ok (putString (utf8 skEcdsaKeyType) ++
        putString (utf8 nistp256) ++ putString point ++ putString (utf8 application)) :=
      skEcdsaKeyBlob_eq_ok.2 ⟨⟨hlen, hfirst⟩, rfl⟩
    refine ⟨_, hblob, parsePasskeyLine_eq_ok.2 ?_⟩
    have hne : putString (utf8 skEcdsaKeyType) ++ putString (utf8 nistp256) ++ putString point ++
        putString (utf8 application) ≠ [] := by
      simp [putString, BigEndian.bytes]
    obtain ⟨hkeyType, hcarries⟩ := fields_line hne comment
    exact ⟨hkeyType, _, hcarries, parseKeyBlob_eq_ok.2 ⟨hblob, hshort⟩⟩
  · intro line point application h
    obtain ⟨-, blob, hcarries, hparse⟩ := parsePasskeyLine_eq_ok.1 h
    exact ⟨blob, hcarries, (parseKeyBlob_eq_ok.1 hparse).1⟩

end Line

end WebauthnSsh
