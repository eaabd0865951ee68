import Wosh.Tunnel.Replay

set_option relaxedAutoImplicit false
set_option autoImplicit false

/-!
# The operator's known_hosts

How a target is spelled in a known_hosts file, which entries cover it, and what they say about a key,
`hostkey/src/known.rs`.

## Main definitions

* `Hostkey.SocketAddr`, `Hostkey.hostLookupKey` — a target, and how OpenSSH spells it.
* `Hostkey.globMatch`, `Hostkey.patternsMatch` — whether an entry covers a host.
* `Hostkey.lookup` — what the file says about a key.
* `Hostkey.ruling` — the entry that says it.

## Main results

* `Hostkey.lookupIn_of_ruling`, `Hostkey.lookupIn_of_none` — the first entry that covers the host and
  carries the key rules, unless it is that of an authority; without one, the answer names all the keys
  that the host is expected to have.

## Design

The `ssh-key` crate, which parses the lines of the file and computes fingerprints, and the HMAC of
the `hmac` and `sha1` crates are not part of the repository: they are the class `SshKey`.
-/

namespace Hostkey

open Tunnel (Bytes)

/-! ## Targets -/

/-- An IPv4 address. -/
structure Ipv4Addr where
  octets : UInt8 × UInt8 × UInt8 × UInt8
deriving DecidableEq

/-- An IPv6 address. -/
structure Ipv6Addr where
  segments : List UInt16
  length_eq : segments.length = 8
deriving DecidableEq

/-- `SocketAddr`. -/
inductive SocketAddr
  | v4 (ip : Ipv4Addr) (port : UInt16)
  | v6 (ip : Ipv6Addr) (port : UInt16) (scopeId : UInt32)
deriving DecidableEq

/-- `Ipv4Addr::to_string`. -/
def Ipv4Addr.text (ip : Ipv4Addr) : String :=
  let (a, b, c, d) := ip.octets
  toString a.toNat ++ "." ++ toString b.toNat ++ "." ++ toString c.toNat ++ "." ++ toString d.toNat

/-- The first of the longest runs of zeros: where it starts, and its length. The run that ends
before position `i` has length `current`. -/
def longestZeros : List UInt16 → ℕ → ℕ → ℕ × ℕ → ℕ × ℕ
  | [], _, _, longest => longest
  | s :: ss, i, current, longest =>
    if s = 0 then
      longestZeros ss (i + 1) (current + 1)
        (if longest.2 < current + 1 then (i - current, current + 1) else longest)
    else longestZeros ss (i + 1) 0 longest

/-- Segments in hexadecimal, between colons. -/
def segmentsText (ss : List UInt16) : String :=
  ":".intercalate (ss.map fun s => String.ofList (Nat.toDigits 16 s.toNat))

/-- `Ipv6Addr::to_string`. -/
def Ipv6Addr.text (ip : Ipv6Addr) : String :=
  match ip.segments with
  | [0, 0, 0, 0, 0, 0xffff, g, h] =>
    "::ffff:" ++ Ipv4Addr.text ⟨(g.toNat / 256).toUInt8, g.toUInt8, (h.toNat / 256).toUInt8, h.toUInt8⟩
  | ss =>
    let (start, len) := longestZeros ss 0 0 (0, 0)
    if 1 < len then segmentsText (ss.take start) ++ "::" ++ segmentsText (ss.drop (start + len))
    else segmentsText ss

/-- `SocketAddr::to_string`. -/
def SocketAddr.text : SocketAddr → String
  | .v4 ip port => ip.text ++ ":" ++ toString port.toNat
  | .v6 ip port scopeId =>
    "[" ++ ip.text ++ (if scopeId = 0 then "" else "%" ++ toString scopeId.toNat) ++ "]:" ++
      toString port.toNat

/-- `is_loopback`. -/
def isLoopback : SocketAddr → Bool
  | .v4 ip _ => ip.octets.1 = 127
  | .v6 ip _ _ => ip.segments = [0, 0, 0, 0, 0, 0, 0, 1]

/-- How OpenSSH spells a host in known_hosts: bare on port 22, `[host]:port` otherwise
(`host_lookup_key`). -/
def hostLookupKey (addr : SocketAddr) : String :=
  let (host, port) :=
    match addr with
    | .v4 ip port => (ip.text, port)
    | .v6 ip port _ => (ip.text, port)
  if port = 22 then host else "[" ++ host ++ "]:" ++ toString port.toNat

/-! ## Entries -/

/-- The host field of an entry. -/
inductive HostPatterns
  | patterns (list : List String)
  | hashedName (salt hash : Bytes)
deriving DecidableEq

/-- The marker of an entry. -/
inductive Marker
  | certAuthority
  | revoked
deriving DecidableEq

/-- An entry of known_hosts. -/
structure Entry (Key : Type) where
  marker : Option Marker
  hostPatterns : HostPatterns
  publicKey : Key
deriving DecidableEq

/-- The crates that known_hosts needs. -/
class SshKey (Key : Type) where
  /-- `KnownHosts::new(text).flatten()`: the entries of the lines that can be parsed, in order. -/
  entries : String → List (Entry Key)
  /-- `fingerprint`: `SHA256:...`. -/
  fingerprint : Key → String
  /-- HMAC-SHA1 of a key and a message. -/
  hmacSha1 : Bytes → Bytes → Bytes

/-! ## Matching -/

/-- The matching loop, from where it stands in the pattern and the value. What is remembered is where
to resume if the last `*` turns out to have eaten too little. -/
def globLoop (p v : List Char) (star : Option (List Char × List Char)) : Bool :=
  match v with
  | [] => p.all (· = '*')
  | c :: v =>
    match p, star with
    | q :: p, star =>
      if q = '?' ∨ q = c then globLoop p v star
      else if q = '*' then globLoop p (c :: v) (some (p, c :: v))
      else
        match star with
        | some (sp, _ :: sv) => globLoop sp sv (some (sp, sv))
        | _ => false
    | [], some (sp, _ :: sv) => globLoop sp sv (some (sp, sv))
    | [], _ => false
termination_by (star.elim (p.length + 1) fun s => max s.1.length p.length,
  star.elim 0 fun s => s.2.length, v.length)
decreasing_by
  all_goals simp only [Prod.lex_def, List.length_cons, Option.elim_some]
  · cases star with
    | none => simp only [Option.elim_none]; omega
    | some s => simp only [Option.elim_some]; grind
  · cases star with
    | none => simp only [Option.elim_none]; omega
    | some s => simp only [Option.elim_some]; omega
  · omega
  · omega

/-- OpenSSH host globbing, without regard to case (`glob_match`). -/
def globMatch (pattern value : String) : Bool :=
  globLoop (pattern.toList.map Char.toLower) (value.toList.map Char.toLower) none

/-- Equal characters match one for one. -/
theorem globLoop_self (l : List Char) : globLoop l l none = true := by
  induction l with
  | nil =>
    rw [globLoop]
    rfl
  | cons c l ih =>
    rw [globLoop, if_pos (.inr rfl)]
    · exact ih
    · simp

/-- A host matches its own name. -/
@[simp]
theorem globMatch_self (host : String) : globMatch host host = true :=
  globLoop_self _

/-- Does a list of patterns cover the host? A matching negation disqualifies the entry. -/
def patternsCover (lookupKey : String) : List String → Bool → Bool
  | [], positive => positive
  | pattern :: rest, positive =>
    match pattern.toList with
    | '!' :: neg =>
      if globMatch (String.ofList neg) lookupKey then false
      else patternsCover lookupKey rest positive
    | _ => patternsCover lookupKey rest (positive || globMatch pattern lookupKey)

/-- A host's own name covers it, unless it starts with a negation. -/
theorem patternsCover_self {host : String} (h : host.toList.head? ≠ some '!') :
    patternsCover host [host] false = true := by
  rw [patternsCover]
  split
  · rename_i heq
    simp [heq] at h
  · rw [patternsCover, globMatch_self, Bool.or_true]

section Lookup

variable {Key : Type} [SshKey Key]

/-- Does the host field of an entry cover the host (`patterns_match`)? -/
def patternsMatch (Key : Type) [SshKey Key] (lookupKey : String) : HostPatterns → Bool
  | .patterns list => patternsCover lookupKey list false
  | .hashedName salt hash => SshKey.hmacSha1 Key salt lookupKey.toUTF8.toList = hash

/-- What known_hosts says about a key. -/
inductive Lookup
  | matched
  | revoked
  | mismatch (known : List String)
  | unknown
deriving DecidableEq

/-- The loop of `lookup`, with the fingerprints of the keys known so far, and whether the host was
seen. -/
def lookupIn (want lookupKey : String) : List (Entry Key) → List String → Bool → Lookup
  | [], known, hostSeen => if hostSeen then .mismatch known else .unknown
  | e :: es, known, hostSeen =>
    if patternsMatch Key lookupKey e.hostPatterns = false then
      lookupIn want lookupKey es known hostSeen
    else
      match e.marker with
      | some .certAuthority => lookupIn want lookupKey es known hostSeen
      | some .revoked =>
        if SshKey.fingerprint e.publicKey = want then .revoked
        else lookupIn want lookupKey es known hostSeen
      | none =>
        let fp := SshKey.fingerprint e.publicKey
        if fp = want then .matched else lookupIn want lookupKey es (known ++ [fp]) true

/-- Compare a key against every entry that covers the host. -/
def lookup (text lookupKey : String) (presented : Key) : Lookup :=
  lookupIn (SshKey.fingerprint presented) lookupKey (SshKey.entries text : List (Entry Key)) [] false

/-! ## What rules -/

/-- The entry covers the host and carries the key. A key is known by its fingerprint. -/
def Entry.carries (e : Entry Key) (lookupKey : String) (key : Key) : Bool :=
  patternsMatch Key lookupKey e.hostPatterns ∧
    SshKey.fingerprint e.publicKey = SshKey.fingerprint key

/-- The entry says something about the key: it covers the host and carries the key, and not as that
of an authority. -/
def Entry.rules (e : Entry Key) (lookupKey : String) (key : Key) : Bool :=
  e.carries lookupKey key ∧ e.marker ≠ some .certAuthority

/-- The first entry that says something about the key. -/
def ruling (text lookupKey : String) (key : Key) : Option (Entry Key) :=
  (SshKey.entries text).find? fun e => e.rules lookupKey key

/-- An entry that says nothing about the key is passed over. -/
theorem lookupIn_cons {lookupKey : String} {key : Key} {e : Entry Key}
    (h : e.rules lookupKey key = false) (es : List (Entry Key)) (known : List String)
    (hostSeen : Bool) : ∃ known' hostSeen',
      lookupIn (SshKey.fingerprint key) lookupKey (e :: es) known hostSeen =
        lookupIn (SshKey.fingerprint key) lookupKey es known' hostSeen' := by
  rw [lookupIn]
  by_cases hcovers : patternsMatch Key lookupKey e.hostPatterns = false
  · rw [if_pos hcovers]
    exact ⟨known, hostSeen, rfl⟩
  · rw [if_neg hcovers]
    have hother : e.marker ≠ some .certAuthority →
        SshKey.fingerprint e.publicKey ≠ SshKey.fingerprint key := by
      intro hmarker hfp
      simp [Entry.rules, Entry.carries, eq_true_of_ne_false hcovers, hfp, hmarker] at h
    cases hmarker : e.marker with
    | none =>
      dsimp only
      rw [if_neg (hother (by simp [hmarker]))]
      exact ⟨_, _, rfl⟩
    | some m =>
      cases m with
      | certAuthority => exact ⟨known, hostSeen, rfl⟩
      | revoked =>
        dsimp only
        rw [if_neg (hother (by simp [hmarker]))]
        exact ⟨known, hostSeen, rfl⟩

/-- The first entry that says something about a key decides. -/
theorem lookupIn_of_ruling {lookupKey : String} {key : Key} {es : List (Entry Key)} {e : Entry Key}
    (h : es.find? (fun e => e.rules lookupKey key) = some e) (known : List String)
    (hostSeen : Bool) :
    lookupIn (SshKey.fingerprint key) lookupKey es known hostSeen =
      if e.marker = none then .matched else .revoked := by
  induction es generalizing known hostSeen with
  | nil => simp at h
  | cons e' es ih =>
    by_cases hrules : e'.rules lookupKey key = true
    · rw [List.find?_cons, hrules] at h
      obtain rfl := Option.some.inj h
      simp only [Entry.rules, Entry.carries, decide_eq_true_eq, Bool.decide_and,
        Bool.and_eq_true] at hrules
      obtain ⟨⟨hcovers, hfp⟩, hmarker⟩ := hrules
      rw [lookupIn, if_neg (by simp [hcovers])]
      cases hm : e'.marker with
      | none => simp [hfp]
      | some m =>
        cases m with
        | certAuthority => simp [hm] at hmarker
        | revoked => simp [hfp]
    · rw [List.find?_cons, eq_false_of_ne_true hrules] at h
      obtain ⟨known', hostSeen', hcons⟩ :=
        lookupIn_cons (eq_false_of_ne_true hrules) es known hostSeen
      rw [hcons]
      exact ih h _ _

theorem lookup_of_ruling {text lookupKey : String} {key : Key} {e : Entry Key}
    (h : ruling text lookupKey key = some e) :
    lookup text lookupKey key = if e.marker = none then .matched else .revoked :=
  lookupIn_of_ruling h _ _

/-- The entry covers the host. -/
def Entry.covers (e : Entry Key) (lookupKey : String) : Bool :=
  patternsMatch Key lookupKey e.hostPatterns

/-- The fingerprints of all unmarked entries that cover the host, in their order. -/
def expected (es : List (Entry Key)) (lookupKey : String) : List String :=
  (es.filter fun e => e.marker = none ∧ e.covers lookupKey).map fun e =>
    SshKey.fingerprint e.publicKey

/-- When no entry rules, the answer names all the keys that the host is expected to have. -/
theorem lookupIn_of_none {lookupKey : String} {key : Key} {es : List (Entry Key)}
    (h : es.find? (fun e => e.rules lookupKey key) = none) (known : List String)
    (hostSeen : Bool) :
    lookupIn (SshKey.fingerprint key) lookupKey es known hostSeen =
      if hostSeen = true ∨ expected es lookupKey ≠ [] then
        .mismatch (known ++ expected es lookupKey)
      else .unknown := by
  induction es generalizing known hostSeen with
  | nil => simp [lookupIn, expected]
  | cons e es ih =>
    have hrules : e.rules lookupKey key = false :=
      eq_false_of_ne_true (List.find?_eq_none.1 h e List.mem_cons_self)
    rw [List.find?_cons, hrules] at h
    have hskip : (e.marker = none ∧ e.covers lookupKey = true → False) →
        expected (e :: es) lookupKey = expected es lookupKey := by
      intro hnot
      simp only [expected]
      rw [List.filter_cons_of_neg (by simpa using hnot)]
    rw [lookupIn]
    by_cases hcovers : patternsMatch Key lookupKey e.hostPatterns = false
    · rw [if_pos hcovers, ih h, hskip]
      rintro ⟨-, hcov⟩
      simp [Entry.covers, hcovers] at hcov
    · rw [if_neg hcovers]
      have hcov : e.covers lookupKey = true := eq_true_of_ne_false hcovers
      have hother : e.marker ≠ some .certAuthority →
          SshKey.fingerprint e.publicKey ≠ SshKey.fingerprint key := by
        intro hmarker hfp
        simp [Entry.rules, Entry.carries, eq_true_of_ne_false hcovers, hfp, hmarker] at hrules
      cases hmarker : e.marker with
      | none =>
        -- Another key that the host is known to have.
        have hcons : expected (e :: es) lookupKey =
            SshKey.fingerprint e.publicKey :: expected es lookupKey := by
          simp only [expected]
          rw [List.filter_cons_of_pos (by simp [hmarker, hcov]), List.map_cons]
        dsimp only
        rw [if_neg (hother (by simp [hmarker])), ih h, hcons]
        simp
      | some m =>
        cases m with
        | certAuthority =>
          dsimp only
          rw [ih h, hskip (by simp [hmarker])]
        | revoked =>
          dsimp only
          rw [if_neg (hother (by simp [hmarker])), ih h, hskip (by simp [hmarker])]

/-- Without one, the key is neither matched nor revoked. -/
theorem lookup_of_none {text lookupKey : String} {key : Key} (h : ruling text lookupKey key = none) :
    lookup text lookupKey key ≠ .matched ∧ lookup text lookupKey key ≠ .revoked := by
  rw [lookup, lookupIn_of_none h]
  split_ifs <;> simp

end Lookup

end Hostkey
