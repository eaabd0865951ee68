import Wosh.Hostkey.Known

set_option relaxedAutoImplicit false
set_option autoImplicit false

/-!
# What known_hosts means

A revocation of the key stands above an entry that has it, which stands above entries with other keys.
`lookup` goes through the entries once and returns at the first that carries the key, so that an
unmarked entry hides a revocation behind it.

## Main definitions

* `Hostkey.Revokes`, `Hostkey.Vouches` — what entries say about a key.
* `Hostkey.reference` — what that amounts to.
* `Hostkey.plain` — keys known by their text.

## Main results

* `Hostkey.lookup_precedence_iff` — when the answer is the one that the entries mean, and when it does
  not depend on their order.
-/

namespace Hostkey

variable {Key : Type} [SshKey Key]

/-! ## What entries mean -/

/-- Some `@revoked` entry that covers the host carries the key. -/
def Revokes (es : List (Entry Key)) (lookupKey : String) (key : Key) : Prop :=
  ∃ e ∈ es, e.marker = some .revoked ∧ e.carries lookupKey key = true

/-- Some unmarked entry that covers the host carries the key. -/
def Vouches (es : List (Entry Key)) (lookupKey : String) (key : Key) : Prop :=
  ∃ e ∈ es, e.marker = none ∧ e.carries lookupKey key = true

instance (es : List (Entry Key)) (lookupKey : String) (key : Key) :
    Decidable (Revokes es lookupKey key) :=
  inferInstanceAs (Decidable (∃ e ∈ es, _ ∧ _))

instance (es : List (Entry Key)) (lookupKey : String) (key : Key) :
    Decidable (Vouches es lookupKey key) :=
  inferInstanceAs (Decidable (∃ e ∈ es, _ ∧ _))

/-- What the entries mean for a key. -/
def reference (es : List (Entry Key)) (lookupKey : String) (key : Key) : Lookup :=
  if Revokes es lookupKey key then .revoked
  else if Vouches es lookupKey key then .matched
  else if expected es lookupKey = [] then .unknown
  else .mismatch (expected es lookupKey)

section Meaning

variable {es es' : List (Entry Key)} {lookupKey : String} {key : Key}

theorem Revokes.perm (h : es.Perm es') : Revokes es lookupKey key ↔ Revokes es' lookupKey key := by
  simp only [Revokes, h.mem_iff]

theorem Vouches.perm (h : es.Perm es') : Vouches es lookupKey key ↔ Vouches es' lookupKey key := by
  simp only [Vouches, h.mem_iff]

theorem reference_eq_revoked : reference es lookupKey key = .revoked ↔ Revokes es lookupKey key := by
  unfold reference
  split_ifs with h <;> simp [h]

theorem reference_eq_matched :
    reference es lookupKey key = .matched ↔
      ¬ Revokes es lookupKey key ∧ Vouches es lookupKey key := by
  unfold reference
  split_ifs with hr hv <;> simp [*]

/-- Whether a key is revoked, and whether it is matched, does not depend on the order. -/
theorem reference_perm (h : es.Perm es') :
    (reference es lookupKey key = .revoked ↔ reference es' lookupKey key = .revoked) ∧
      (reference es lookupKey key = .matched ↔ reference es' lookupKey key = .matched) := by
  simp only [reference_eq_revoked, reference_eq_matched, Revokes.perm h, Vouches.perm h, and_self]

/-- An entry rules when it revokes the key or vouches for it. -/
theorem Entry.rules_iff {e : Entry Key} :
    e.rules lookupKey key = true ↔
      (e.marker = none ∨ e.marker = some .revoked) ∧ e.carries lookupKey key = true := by
  have hmarker : e.marker ≠ some .certAuthority ↔ e.marker = none ∨ e.marker = some .revoked := by
    cases e.marker with
    | none => simp
    | some m => cases m <;> simp
  rw [Entry.rules, decide_eq_true_eq, hmarker, and_comm]

end Meaning

/-! ## The loop -/

/-- What `lookup` says of the entries of a file. -/
def lookupOf (es : List (Entry Key)) (lookupKey : String) (key : Key) : Lookup :=
  lookupIn (SshKey.fingerprint key) lookupKey es [] false

/-- The first entry that says something about the key is an unmarked one. -/
def VouchedFirst (es : List (Entry Key)) (lookupKey : String) (key : Key) : Prop :=
  ∃ e, es.find? (fun e => e.rules lookupKey key) = some e ∧ e.marker = none

section Loop

variable {es es' : List (Entry Key)} {lookupKey : String} {key : Key} {e : Entry Key}

/-- What the first entry that rules says of the key. -/
theorem rules_of_find (h : es.find? (fun e => e.rules lookupKey key) = some e) :
    (e.marker = none ∨ e.marker = some .revoked) ∧ e.carries lookupKey key = true := by
  have hrules := List.find?_some h
  exact Entry.rules_iff.1 hrules

/-- An entry that comes first and rules decides. -/
theorem lookupOf_cons (h : e.rules lookupKey key = true) :
    lookupOf (e :: es) lookupKey key = if e.marker = none then .matched else .revoked :=
  lookupIn_of_ruling (by rw [List.find?_cons, h]) _ _

/-- The answer is what the entries mean, unless an unmarked entry hides a revocation. -/
theorem lookupOf_eq_reference_iff :
    lookupOf es lookupKey key = reference es lookupKey key ↔
      ¬ (Revokes es lookupKey key ∧ VouchedFirst es lookupKey key) := by
  cases hfind : es.find? (fun e => e.rules lookupKey key) with
  | none =>
    have hrules : ∀ e ∈ es, e.rules lookupKey key ≠ true := List.find?_eq_none.1 hfind
    have hrevokes : ¬ Revokes es lookupKey key := by
      rintro ⟨e, he, hmarker, hcarries⟩
      exact hrules e he (Entry.rules_iff.2 ⟨.inr hmarker, hcarries⟩)
    have hvouches : ¬ Vouches es lookupKey key := by
      rintro ⟨e, he, hmarker, hcarries⟩
      exact hrules e he (Entry.rules_iff.2 ⟨.inl hmarker, hcarries⟩)
    rw [lookupOf, lookupIn_of_none hfind, reference, if_neg hrevokes, if_neg hvouches]
    by_cases hexpected : expected es lookupKey = [] <;> simp [hexpected, hrevokes]
  | some e =>
    have hmem : e ∈ es := List.mem_of_find?_eq_some hfind
    obtain ⟨hmarker, hcarries⟩ := rules_of_find hfind
    rw [lookupOf, lookupIn_of_ruling hfind]
    rcases hmarker with hnone | hrevoked
    · have hvouches : Vouches es lookupKey key := ⟨e, hmem, hnone, hcarries⟩
      have hfirst : VouchedFirst es lookupKey key := ⟨e, hfind, hnone⟩
      rw [if_pos hnone, eq_comm, reference_eq_matched]
      simp [hvouches, hfirst]
    · have hrevokes : Revokes es lookupKey key := ⟨e, hmem, hrevoked, hcarries⟩
      have hfirst : ¬ VouchedFirst es lookupKey key := by
        rintro ⟨e', hfind', hnone⟩
        obtain rfl := Option.some.inj (hfind.symm.trans hfind')
        simp [hrevoked] at hnone
      rw [if_neg (by simp [hrevoked]), eq_comm, reference_eq_revoked]
      simp [hrevokes, hfirst]

/-- The unmarked entry that comes first vouches. -/
theorem VouchedFirst.vouches (h : VouchedFirst es lookupKey key) : Vouches es lookupKey key := by
  obtain ⟨e, hfind, hnone⟩ := h
  exact ⟨e, List.mem_of_find?_eq_some hfind, hnone, (rules_of_find hfind).2⟩

/-- The order counts for a key that is both vouched for and revoked, and for no other. -/
theorem lookupOf_perm_iff :
    (∀ es', es'.Perm es →
      (lookupOf es' lookupKey key = .revoked ↔ lookupOf es lookupKey key = .revoked) ∧
        (lookupOf es' lookupKey key = .matched ↔ lookupOf es lookupKey key = .matched)) ↔
      ¬ (Revokes es lookupKey key ∧ Vouches es lookupKey key) := by
  constructor
  · rintro h ⟨⟨r, hr, hrevoked, hrcarries⟩, v, hv, hnone, hvcarries⟩
    have hfront : ∀ e ∈ es, ∃ es', (e :: es').Perm es := by
      intro e he
      obtain ⟨s, t, rfl⟩ := List.append_of_mem he
      exact ⟨s ++ t, List.perm_middle.symm⟩
    obtain ⟨rs, hrs⟩ := hfront r hr
    obtain ⟨vs, hvs⟩ := hfront v hv
    have hrfirst : lookupOf (r :: rs) lookupKey key = .revoked := by
      rw [lookupOf_cons (Entry.rules_iff.2 ⟨.inr hrevoked, hrcarries⟩), if_neg (by simp [hrevoked])]
    have hvfirst : lookupOf (v :: vs) lookupKey key = .matched := by
      rw [lookupOf_cons (Entry.rules_iff.2 ⟨.inl hnone, hvcarries⟩), if_pos hnone]
    have hone := (h _ hrs).1.1 hrfirst
    have htwo := (h _ hvs).2.1 hvfirst
    rw [hone] at htwo
    cases htwo
  · intro h es' hperm
    have hexact : lookupOf es lookupKey key = reference es lookupKey key :=
      lookupOf_eq_reference_iff.2 fun hboth => h ⟨hboth.1, hboth.2.vouches⟩
    have hexact' : lookupOf es' lookupKey key = reference es' lookupKey key := by
      rw [lookupOf_eq_reference_iff]
      rintro ⟨hrevokes, hfirst⟩
      exact h ⟨(Revokes.perm hperm).1 hrevokes, (Vouches.perm hperm).1 hfirst.vouches⟩
    rw [hexact, hexact']
    exact reference_perm hperm

/-- The entries of authorities count for nothing. -/
theorem lookupIn_filter_authority (want : String) (known : List String) (hostSeen : Bool) :
    lookupIn want lookupKey (es.filter fun e => e.marker ≠ some .certAuthority) known hostSeen =
      lookupIn want lookupKey es known hostSeen := by
  induction es generalizing known hostSeen with
  | nil => rfl
  | cons e es ih =>
    by_cases hmarker : e.marker = some .certAuthority
    · rw [List.filter_cons_of_neg (by simp [hmarker]), ih, lookupIn.eq_def _ _ (e :: es)]
      simp [hmarker]
    · rw [List.filter_cons_of_pos (by simp [hmarker]), lookupIn, lookupIn]
      simp only [ih]

end Loop

/-- **The file is read for what it means**: a revocation of the key first, then an unmarked entry that
has it, then the keys of the others. It is so exactly when no unmarked entry for the key stands before
all that revoke it; the order of the lines makes no difference exactly when the file does not hold both
kinds; and the entries of authorities never make one.

**Proof sketch.** The loop returns at the first entry that rules, and otherwise has gathered what is
expected. A file that vouches for a key and revokes it can be put in two orders, with either first. -/
theorem lookup_precedence_iff (text lookupKey : String) (key : Key) :
    (lookup text lookupKey key = reference (SshKey.entries text) lookupKey key ↔
      ¬ (Revokes (SshKey.entries text) lookupKey key ∧
        VouchedFirst (SshKey.entries text) lookupKey key)) ∧
    ((∀ es, es.Perm (SshKey.entries text) →
      (lookupOf es lookupKey key = .revoked ↔ lookup text lookupKey key = .revoked) ∧
        (lookupOf es lookupKey key = .matched ↔ lookup text lookupKey key = .matched)) ↔
      ¬ (Revokes (SshKey.entries text) lookupKey key ∧
        Vouches (SshKey.entries text) lookupKey key)) ∧
    ∀ es, (es.filter fun e => e.marker ≠ some .certAuthority) =
        ((SshKey.entries text).filter fun e => e.marker ≠ some .certAuthority) →
      lookupOf es lookupKey key = lookup text lookupKey key := by
  refine ⟨lookupOf_eq_reference_iff, lookupOf_perm_iff, ?_⟩
  intro es h
  rw [lookupOf, lookup, ← lookupIn_filter_authority, h, lookupIn_filter_authority]

/-! ## A plain known_hosts -/

section Plain

/-- The pieces of a text between separators. -/
def pieces (sep : Char) (text : String) : List String :=
  (text.toList.splitOn sep).map String.ofList

/-- A line of known_hosts: its marker, the patterns, the type of the key, and the key. -/
def plainEntry (line : String) : Option (Entry String) :=
  match pieces ' ' line with
  | [hosts, _, key] => some ⟨none, .patterns (pieces ',' hosts), key⟩
  | ["@revoked", hosts, _, key] => some ⟨some .revoked, .patterns (pieces ',' hosts), key⟩
  | ["@cert-authority", hosts, _, key] =>
    some ⟨some .certAuthority, .patterns (pieces ',' hosts), key⟩
  | _ => none

/-- Keys known by their text, and known_hosts without hashed names. -/
@[reducible]
def plain : SshKey String where
  entries text := (pieces '\n' text).filterMap plainEntry
  fingerprint key := "SHA256:" ++ key
  hmacSha1 _ message := message

attribute [local instance] plain

/-- The sshd of the listener's own host. -/
def localSshd : SocketAddr := .v4 ⟨127, 0, 0, 1⟩ 22

/-- An entry for the local sshd. -/
def localEntry (marker : Option Marker) (key : String) : Entry String :=
  ⟨marker, .patterns ["127.0.0.1"], key⟩

/-- It covers the local sshd, and carries its key. -/
theorem localEntry_carries (marker : Option Marker) (key : String) :
    (localEntry marker key).carries (hostLookupKey localSshd) key = true := by
  have hkey : hostLookupKey localSshd = "127.0.0.1" := by decide
  have hself : patternsCover "127.0.0.1" ["127.0.0.1"] false = true := patternsCover_self (by decide)
  have hcovers : patternsMatch String (hostLookupKey localSshd) (.patterns ["127.0.0.1"]) = true := by
    rw [hkey]
    exact hself
  simp [Entry.carries, localEntry, hcovers]

/-- A file that has a key first and revokes it next is taken to vouch for it. -/
theorem not_alwaysMeant :
    ¬ ∀ text lookupKey key : String, '*' ∉ lookupKey.toList →
      lookup text lookupKey key = reference (SshKey.entries text) lookupKey key := by
  intro h
  have hentries : (SshKey.entries "127.0.0.1 ssh-ed25519 A\n@revoked 127.0.0.1 ssh-ed25519 A" :
      List (Entry String)) = [localEntry none "A", localEntry (some .revoked) "A"] := by decide
  have hmeant := h "127.0.0.1 ssh-ed25519 A\n@revoked 127.0.0.1 ssh-ed25519 A"
    (hostLookupKey localSshd) "A" (by decide)
  have hsays := lookupOf_eq_reference_iff.1 hmeant
  rw [hentries] at hsays
  apply hsays
  constructor
  · exact ⟨localEntry (some .revoked) "A", by simp, rfl, localEntry_carries _ _⟩
  · refine ⟨localEntry none "A", ?_, rfl⟩
    rw [List.find?_cons, Entry.rules, localEntry_carries]
    rfl

end Plain

end Hostkey
