import Wosh.Connstring.Agreement
import Wosh.Page.Consent

set_option relaxedAutoImplicit false
set_option autoImplicit false

/-!
# What a host key is remembered for

An approved host key is kept under the endpoint id that the page reads off the front of the connection
string, while the session dials the endpoint that the crate decodes from it. They are the same endpoint,
so a host key that was approved for one is never taken for another.

## Main definitions

* `Page.connstringFrom`, `Page.endpointIdOf` — of `site/boot.mjs`.
* `Page.pinKey` — what `ui.confirmHostKey` looks an approved host key up with.

## Main results

* `Page.pinKey_decode` — the id is the key that the crate decodes, or none.
* `HostKeys.pin_of_endpoint` — a host key is known only where it was approved for the same endpoint.
-/

namespace Page

open Ecma Connstring
open Tunnel (Bytes)

/-! ## The connection string that the user gave -/

/-- The parts of the language that read URLs; `none` where they throw. -/
structure Urls where
  /-- `new URL(s).hash`. -/
  hash : String → Option String
  decodeURIComponent : String → Option String

/-- A text without a colon has no scheme, so it is no URL. -/
def Urls.NeedsColon (U : Urls) : Prop := ∀ s : String, ':' ∉ s.toList → U.hash s = none

/-- `frag.replace(/^#/, "")`. -/
def withoutHash (s : String) : String :=
  match s.toList with
  | '#' :: cs => String.ofList cs
  | _ => s

/-- The connection string out of a URL fragment. -/
def fragmentValue (U : Urls) (hash : String) : String :=
  let frag := withoutHash hash
  if frag = "" then ""
  else Text.trim isSpace ((U.decodeURIComponent frag).getD frag)

/-- What the user typed, as a connection string. -/
def connstringFrom (U : Urls) (raw : String) : String :=
  let s := Text.trim isSpace raw
  if s.toList.head? = some '#' then fragmentValue U s
  else
    match U.hash s with
    | none => s
    | some hash => if fragmentValue U hash = "" then s else fragmentValue U hash

/-- The id at the front of the bytes of a connection string. -/
def idOf (bin : Bytes) : Option String :=
  match bin with
  | [] => none
  | version :: rest =>
    if bin.length < 34 ∨ version < 1 ∨ 3 < version then none
    else some (String.ofList ((rest.take 32).flatMap hexByte))

/-- The endpoint id of a connection string; `none` is `null`. -/
def endpointIdOf (connstring : String) : Option String :=
  (atob (replace '_' '/' (replace '-' '+' (Text.trim isSpace connstring)))).bind idOf

/-- What an approved host key is looked up with. -/
def pinKey (U : Urls) (connstring : String) : Option String := endpointIdOf (connstringFrom U connstring)

/-! ## Characters that are passed over -/

variable {t : Target} {U : Urls}

/-- What was trimmed is not trimmed again. -/
theorem trim_trim (p : Char → Bool) (s : String) : Text.trim p (Text.trim p s) = Text.trim p s := by
  have hdrop : ((s.toList.dropWhile p).rdropWhile p).dropWhile p = (s.toList.dropWhile p).rdropWhile p := by
    -- what is left at the front was not trimmed off there before
    have hfront := List.dropWhile_eq_self_iff.1 (List.dropWhile_idempotent p s.toList)
    refine List.dropWhile_eq_self_iff.2 fun hpos => ?_
    have hpre := List.rdropWhile_prefix p (s.toList.dropWhile p)
    rw [hpre.getElem hpos]
    exact hfront (Nat.lt_of_lt_of_le hpos hpre.length_le)
  rw [Text.trim, Text.trim, String.toList_ofList, hdrop, List.rdropWhile_idempotent]

/-- Trimming leaves all characters that are not trimmed off. -/
theorem filter_trim {p q : Char → Bool} (h : ∀ c, q c = true → p c = false) (s : String) :
    (Text.trim p s).toList.filter q = s.toList.filter q := by
  have hdrop : ∀ cs : List Char, (cs.dropWhile p).filter q = cs.filter q := by
    intro cs
    induction cs with
    | nil => rfl
    | cons c cs ih =>
      rw [List.dropWhile_cons]
      split_ifs with hp
      · have hq : q c ≠ true := fun hq => by rw [h c hq] at hp; cases hp
        rw [ih, List.filter_cons_of_neg hq]
      · rfl
  rw [Text.trim, String.toList_ofList, List.rdropWhile, List.filter_reverse, hdrop, ← List.filter_reverse,
    List.reverse_reverse, hdrop]

theorem filter_unpadOnce {q : Char → Bool} (h : q '=' = false) (cs : List Char) :
    (unpadOnce cs).filter q = cs.filter q := by
  unfold unpadOnce
  split_ifs with hlast
  · obtain ⟨init, rfl⟩ := List.getLast?_eq_some_iff.1 hlast
    rw [List.dropLast_concat, List.filter_append, List.filter_cons_of_neg (Bool.eq_false_iff.1 h),
      List.filter_nil, List.append_nil]
  · rfl

/-- A character of the alphabet. -/
def inStandard (c : Char) : Bool := c ∈ standard.chars

/-- What is decoded are the characters of the alphabet. -/
theorem atob_eq_some {s : String} {bin : Bytes} (h : atob s = some bin) :
    Base64.decode standard false (String.ofList (s.toList.filter inStandard)) = some bin := by
  have hpad : inStandard '=' = false := by decide
  have hspace : ∀ c, inStandard c = true → (!isAsciiSpace c) = true := by
    intro c hc
    rw [(standard_chars (of_decide_eq_true hc)).1]
    rfl
  rw [atob] at h
  -- the characters that are decoded are the others without padding and white space
  generalize hcs : (if (s.toList.filter fun c => !isAsciiSpace c).length % 4 = 0 then
    unpadOnce (unpadOnce (s.toList.filter fun c => !isAsciiSpace c))
    else s.toList.filter fun c => !isAsciiSpace c) = cs at h
  have hfilter : cs.filter inStandard = s.toList.filter inStandard := by
    have hold : (s.toList.filter fun c => !isAsciiSpace c).filter inStandard =
        s.toList.filter inStandard := by
      rw [List.filter_filter]
      refine List.filter_congr fun c _ => ?_
      cases hc : inStandard c with
      | false => rfl
      | true => rw [hspace c hc]; rfl
    rw [← hcs]
    split_ifs
    · rw [filter_unpadOnce hpad, filter_unpadOnce hpad, hold]
    · exact hold
  have hall : cs.filter inStandard = cs := by
    obtain ⟨ds, hds, -⟩ := Option.bind_eq_some_iff.1 h
    rw [String.toList_ofList] at hds
    obtain ⟨hlt, hchars⟩ := (Base64.mapM_digit? standard).1 hds
    refine List.filter_eq_self.2 fun c hc => decide_eq_true ?_
    rw [hchars] at hc
    obtain ⟨d, hd, rfl⟩ := List.mem_map.1 hc
    have hlen : d < standard.chars.length := by
      rw [standard.length_chars]
      exact hlt d hd
    rw [Base64.Alphabet.char, List.getD_eq_getElem _ _ hlen]
    exact List.getElem_mem hlen
  rw [← hfilter, hall]
  exact h

/-! ## The id -/

/-- The id of a blob is its key. -/
theorem idOf_blob {c : ConnString t} {blob : Bytes} (h : Blob c blob) :
    idOf blob = some (lowerHex c.pubkey.val) := by
  have hkey : c.pubkey.val.length = 32 := c.pubkey.property
  have hid : ∀ (v : UInt8) (rest : Bytes), 0 < rest.length → v = version1 ∨ v = version2 ∨ v = version →
      idOf (v :: (c.pubkey.val ++ rest)) = some (lowerHex c.pubkey.val) := by
    intro v rest hpos hv
    have hlen : ¬ (v :: (c.pubkey.val ++ rest)).length < 34 := by
      simp only [List.length_cons, List.length_append, hkey]
      omega
    have hversion : ¬ (v < 1 ∨ 3 < v) := by
      rcases hv with rfl | rfl | rfl <;> decide
    rw [idOf, if_neg (by tauto), List.take_left' hkey, ofList_hexByte]
  cases h with
  | v1 => exact hid _ _ (Nat.succ_pos _) (.inl rfl)
  | url hv hvariant =>
    have hpos := hvariant.1.length_pos
    exact hid _ _ (by simp only [List.length_append]; omega) (.inr hv.symm)
  | wellKnown hv hvariant =>
    have hpos := hvariant.1.length_pos
    exact hid _ _ (by simp only [List.length_append]; omega) (.inr hv.symm)

/-- A character that the page decodes, after its two replacements. -/
def isRead (c : Char) : Bool :=
  inStandard (if (if c = '-' then '+' else c) = '_' then '/' else if c = '-' then '+' else c)

/-- No such character is white space, for the page or for the crate. -/
theorem isRead_not_space {c : Char} (h : isRead c = true) :
    isSpace c = false ∧ isWhitespace c = false := by
  have hall : ('-' :: '_' :: standard.chars).all (fun c => !isSpace c && !isWhitespace c) = true := by
    decide +kernel
  have hmem : c ∈ '-' :: '_' :: standard.chars := by
    unfold isRead at h
    split_ifs at h with hplus hslash hslash
    · exact hplus ▸ List.mem_cons_self
    · exact hplus ▸ List.mem_cons_self
    · exact List.mem_cons_of_mem _ (hslash ▸ List.mem_cons_self)
    · exact List.mem_cons_of_mem _ (List.mem_cons_of_mem _ (of_decide_eq_true h))
  have hchar := List.all_eq_true.1 hall c hmem
  rwa [Bool.and_eq_true, Bool.not_eq_true', Bool.not_eq_true'] at hchar

/-- **The bytes that the page decodes are those of the blob**, whatever is around them. -/
theorem atob_of_trim {s : String} {blob bin : Bytes} (htrim : Connstring.trim s = base64url blob)
    (h : atob (replace '_' '/' (replace '-' '+' (Text.trim isSpace s))) = some bin) : bin = blob := by
  have hread : (Text.trim isSpace s).toList.filter isRead = (base64url blob).toList.filter isRead := by
    rw [filter_trim (fun c hc => (isRead_not_space hc).1), ← htrim, Connstring.trim,
      filter_trim (fun c hc => (isRead_not_space hc).2)]
  have hfilter : ∀ text : String,
      (replace '_' '/' (replace '-' '+' text)).toList.filter inStandard = (text.toList.filter isRead).map
        fun c => if (if c = '-' then '+' else c) = '_' then '/' else if c = '-' then '+' else c := by
    intro text
    have htext := replace_replace '-' '+' '_' '/' text.toList
    rw [String.ofList_toList] at htext
    rw [htext, String.toList_ofList, List.filter_map]
    rfl
  have hbin := atob_eq_some h
  rw [hfilter, hread, ← hfilter] at hbin
  have hblob := atob_eq_some (atob_base64url blob)
  exact Option.some.inj (hbin.symm.trans hblob)

/-- A text that the crate decodes is taken as it stands, without the white space around it. -/
theorem connstringFrom_of_trim (hcolon : U.NeedsColon) {s : String} {blob : Bytes}
    (htrim : Connstring.trim s = base64url blob) : connstringFrom U s = Text.trim isSpace s := by
  -- neither is white space, nor a character of the alphabet
  have hmark : ∀ c : Char, c = ':' ∨ c = '#' → c ∉ (Text.trim isSpace s).toList := by
    intro c hc hmem
    have hnot : ∀ d : Char, decide (d = c) = true → isSpace d = false ∧ isWhitespace d = false := by
      intro d hd
      rw [of_decide_eq_true hd]
      rcases hc with rfl | rfl <;> decide
    have hfilter : (Text.trim isSpace s).toList.filter (fun d => decide (d = c)) =
        (base64url blob).toList.filter fun d => decide (d = c) := by
      rw [filter_trim fun d hd => (hnot d hd).1, ← htrim, Connstring.trim,
        filter_trim fun d hd => (hnot d hd).2]
    have hblob : c ∈ (base64url blob).toList := by
      have hin := (List.mem_filter (p := fun d => decide (d = c))).2 ⟨hmem, decide_eq_true rfl⟩
      rw [hfilter] at hin
      exact (List.mem_filter.1 hin).1
    have hurl := Base64.mem_chars_of_mem_encode urlSafe hblob
    rcases hc with rfl | rfl
    · exact absurd hurl (by decide)
    · exact absurd hurl (by decide)
  have hhash : (Text.trim isSpace s).toList.head? ≠ some '#' := fun hhead =>
    hmark '#' (.inr rfl) (List.mem_of_head? hhead)
  have hurl : U.hash (Text.trim isSpace s) = none := hcolon _ (hmark ':' (.inl rfl))
  simp only [connstringFrom, if_neg hhash, hurl]

/-- What is read of a text that the crate decodes. -/
theorem pinKey_of_trim (hcolon : U.NeedsColon) {c : ConnString t} {s : String} {blob : Bytes}
    (hblob : Blob c blob) (htrim : Connstring.trim s = base64url blob) :
    (pinKey U s = none ∨ pinKey U s = some (lowerHex c.pubkey.val)) ∧
      (AsciiAround s → pinKey U s = some (lowerHex c.pubkey.val)) := by
  rw [pinKey, connstringFrom_of_trim hcolon htrim, endpointIdOf, trim_trim]
  constructor
  · cases hbin : atob (replace '_' '/' (replace '-' '+' (Text.trim isSpace s))) with
    | none => exact .inl rfl
    | some bin =>
      right
      rw [Option.bind_some, atob_of_trim htrim hbin]
      exact idOf_blob hblob
  · intro haround
    rw [trim_of_asciiAround haround htrim, atob_base64url, Option.bind_some]
    exact idOf_blob hblob

/-- **The page keeps host keys under the endpoint that is dialed.** Of a text that the crate decodes, the
page reads no endpoint id, or the key that the crate decodes; and it reads it if there is only ASCII
white space around the text. So two such texts have one id exactly if they are of one endpoint. -/
theorem pinKey_decode [Crates t] (hformat : Crates.PerFormat t) (hcolon : U.NeedsColon)
    {s s' : String} {c c' : ConnString t} (hdecode : ConnString.decode s = .ok c)
    (hdecode' : ConnString.decode s' = .ok c') :
    (pinKey U s = none ∨ pinKey U s = some (lowerHex c.pubkey.val)) ∧
      (AsciiAround s → pinKey U s = some (lowerHex c.pubkey.val)) ∧
      ∀ id, pinKey U s = some id → pinKey U s' = some id → c.pubkey = c'.pubkey := by
  obtain ⟨blob, hblob, htrim⟩ := (decode_eq_ok hformat).1 hdecode
  obtain ⟨blob', hblob', htrim'⟩ := (decode_eq_ok hformat).1 hdecode'
  have hkey := pinKey_of_trim hcolon hblob htrim
  have hkey' := pinKey_of_trim hcolon hblob' htrim'
  refine ⟨hkey.1, hkey.2, fun id hid hid' => ?_⟩
  have heq : lowerHex c.pubkey.val = lowerHex c'.pubkey.val := by
    have h := hkey.1.resolve_left (by rw [hid]; nofun)
    have h' := hkey'.1.resolve_left (by rw [hid']; nofun)
    exact Option.some.inj ((h.symm.trans hid).trans (hid'.symm.trans h'))
  -- the id spells the bytes
  have hbytes := parseId_lowerHex c.pubkey
  rw [heq, parseId_lowerHex] at hbytes
  refine Subtype.ext ?_
  have hunits : ((numbers c'.pubkey.val).map toUint16).map UInt8.ofNat =
      ((numbers c.pubkey.val).map toUint16).map UInt8.ofNat := by rw [hbytes]
  rw [map_numbers, map_numbers] at hunits
  exact hunits.symm

/-! ### A connection string -/

namespace Sample

/-- A reader of URLs for texts that are none, or have their fragment at the end. -/
@[reducible] def urls : Urls where
  hash s := if ':' ∈ s.toList then some (String.ofList (s.toList.dropWhile (· ≠ '#'))) else none
  decodeURIComponent s := if '%' ∈ s.toList then none else some s

theorem urls_needsColon : urls.NeedsColon := fun _ h => if_neg h

/-- The text of a connection string. -/
def text : String := @ConnString.encode .native (Crates.golden .native) (sample .native)

/-- It is what it is trimmed to, so nothing is around it. -/
theorem asciiAround_text : AsciiAround text := by
  refine ⟨"", "", nofun, nofun, ?_⟩
  have htrim : Connstring.trim text = text := trim_base64url _
  rw [String.empty_append, String.append_empty, htrim]

theorem decode_text :
    @ConnString.decode .native (Crates.golden .native) text = .ok (sample .native) :=
  (@decode_exact .native (Crates.golden .native) (Crates.golden_perFormat .native)).1
    (sample .native) (by decide)

end Sample

end Page

/-! ## What is known -/

namespace HostKeys

open Connstring

variable {t : Target} {U : Page.Urls} {initial : Pins} {b : Browser} {n i : ℕ}

/-- **A host key is known only for the endpoint that it was approved for.** In every run of any number of
pages: where a connection is not asked about its host key, this was in the store to begin with, for the
endpoint that is dialed, or a user who was connecting to this very endpoint has approved it, to be
remembered.

**Proof sketch.** A match needs what was saved, and that an approval, on a sheet that was shown for a
connection of the same id; and two texts of one id are of one endpoint. -/
theorem pin_of_endpoint [Crates t] (hformat : Crates.PerFormat t) (hcolon : U.NeedsColon)
    {xs : List Happening} (hrun : Run.run (Browser.step (Page.pinKey U)) (.start initial) xs = some b)
    {e? : Option String} {fp fp' cs : String} {c : ConnString t}
    (hmatched : ⟨n, i, .matched e? fp⟩ ∈ b.log) (hreported : ⟨n, i, .reported cs fp'⟩ ∈ b.log)
    (hdecode : ConnString.decode cs = .ok c) :
    e? = some (Page.lowerHex c.pubkey.val) ∧ fp' = fp ∧
      (initial (Page.lowerHex c.pubkey.val) = some ⟨some fp⟩ ∨ ∃ m j cs',
        ⟨m, j, .reported cs' fp⟩ ∈ b.log ∧ ⟨m, j, .approved e? fp true⟩ ∈ b.log ∧
          ∀ c' : ConnString t, ConnString.decode cs' = .ok c' → c'.pubkey = c.pubkey) := by
  have hsound : Sound (Page.pinKey U) initial b :=
    Run.run_inv_of_step (fun _ _ _ h hstep => h.step hstep) (sound_start _ initial) hrun
  obtain ⟨pre, hpre, ⟨cs', e, hcs', rfl, hkey, hknown⟩, hfounded⟩ := hsound.founded.reason hmatched
  obtain ⟨rfl, rfl⟩ := reported_unique hsound.founded (hpre.subset hcs') hreported
  have hid := (Page.pinKey_decode hformat hcolon hdecode hdecode).1
  obtain rfl : e = Page.lowerHex c.pubkey.val := by
    rw [hkey] at hid
    exact Option.some.inj (hid.resolve_left nofun)
  refine ⟨rfl, rfl, hknown.imp_right ?_⟩
  rintro ⟨m, j, hsaved⟩
  obtain ⟨pre', hpre', happroved, hfounded'⟩ := hfounded.reason hsaved
  obtain ⟨pre₂, hpre₂, ⟨changed, hshown, -⟩, hfounded₂⟩ := hfounded'.reason happroved
  obtain ⟨pre₃, hpre₃, ⟨cs₂, hcs₂, hkey₂⟩, -⟩ := hfounded₂.reason hshown
  have hsub := (hpre₂.trans (hpre'.trans hpre)).subset
  refine ⟨m, j, cs₂, hsub (hpre₃.subset hcs₂), (hpre'.trans hpre).subset happroved, fun c' hc' => ?_⟩
  exact ((Page.pinKey_decode hformat hcolon hdecode hc').2.2 _ hkey hkey₂.symm).symm

/-- A page connects, up to where it has the fingerprint of the host key. -/
def connectingTo (cs : String) (n : ℕ) : List Happening :=
  [.load, .on n (.dial cs "user" .auto), .on n (.goOn 0 .opened),
    .on n (.goOn 0 (.status .hostKeyCheck)), .on n (.goOn 0 (.fingerprint (some "SHA256:one") true))]

/-- A store that knows the key of every endpoint. -/
def knowing : Pins := fun _ => some ⟨some "SHA256:one"⟩

/-- A page that connects finds the key known. -/
theorem run_connectingTo {key : String → Option String} {cs e : String} (h : key cs = some e) :
    ∃ b, Run.run (Browser.step key) (.start knowing) (connectingTo cs 0) = some b ∧
      ⟨0, 0, .matched (some e) "SHA256:one"⟩ ∈ b.log ∧ ⟨0, 0, .reported cs "SHA256:one"⟩ ∈ b.log := by
  simp [connectingTo, Run.run, Browser.step, Browser.start, Page.step, Page.goOn, Page.confirmHostKey, h,
    Page.setStage, Page.withdrawSheet, Page.settleSheet, entries, knowing]

open Page.Sample in
/-- The run to which `pin_of_endpoint` is applied. -/
theorem pin_of_endpoint_text :
    ∃ b e?, Run.run (Browser.step (Page.pinKey urls)) (.start knowing) (connectingTo text 0) = some b ∧
      ⟨0, 0, .matched e? "SHA256:one"⟩ ∈ b.log ∧ e? = some (Page.lowerHex (sample .native).pubkey.val) := by
  have hkey := (@Page.pinKey_decode .native urls (Crates.golden .native) (Crates.golden_perFormat .native)
    urls_needsColon _ _ _ _ decode_text decode_text).2.1 asciiAround_text
  obtain ⟨b, hb, hmatched, hreported⟩ := run_connectingTo hkey
  exact ⟨b, _, hb, hmatched, (@pin_of_endpoint .native urls knowing b 0 0 (Crates.golden .native)
    (Crates.golden_perFormat .native) urls_needsColon (connectingTo text 0) hb _ _ _ _ _ hmatched hreported
    decode_text).1⟩

end HostKeys
