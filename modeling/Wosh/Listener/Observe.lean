import Wosh.Hostkey.Policy
import Wosh.Hostkey.Precedence

set_option relaxedAutoImplicit false
set_option autoImplicit false

/-!
# The verdict on a host key, call after call

`observe` of `listener-core/src/tcp.rs`: the process remembers the key that it ruled on last, and the
refusal that the key earned. A key that is not the remembered one is judged by the change alone.

## Main definitions

* `Listener.observe` — the verdict on a key, and what the process remembers next.
* `Listener.observeAll` — the verdicts on a sequence of keys.
* `Listener.Revoked`, `Listener.Corroborated` — what known_hosts says about a key.
* `Listener.RevocationHeeded`, `Listener.NotSupplanted` — the conditions of the two results.

## Main results

* `Listener.revoked_refused_iff` — when the revoked keys of a sequence are refused.
* `Listener.corroborated_accepted_iff` — when the corroborated ones are not.

## Design

A process has one target, so the sequence is about one.
-/

namespace Listener

open Hostkey

variable {Key : Type} [SshKey Key]

/-- The operator's opt-out and known_hosts. -/
structure HostKeyConfig where
  allowHostKeyMismatch : Bool := false
  knownHosts : String := ""
deriving DecidableEq

/-- What the process remembers: the fingerprint it ruled on, and the refusal that it earned. -/
abbrev Seen := Option (String × Option String)

/-- A line for the operator. -/
inductive Output
  | stdout (line : String)
  | stderr (line : String)
deriving DecidableEq

/-- Where a verdict goes. -/
def say (d : Decision) : Output :=
  if d.message.startsWith "WARNING" then .stderr d.message else .stdout d.message

/-- The answer of a refusal. -/
def answerOf : Option String → Except String Unit
  | some e => .error e
  | none => .ok ()

/-- The process-wide host-key verdict: what is remembered next, what is said, and the answer. -/
def observe (config : HostKeyConfig) (target : SocketAddr) (key : Key) (seen : Seen) :
    Seen × Option Output × Except String Unit :=
  let fp := SshKey.fingerprint key
  match seen with
  | some (prev, refusal) =>
    if prev = fp then (seen, none, answerOf refusal)
    else
      let d := policyChanged prev fp target config.allowHostKeyMismatch
      if d.refuses then (seen, none, .error d.message)
      else (some (fp, none), some (say d), .ok ())
  | none =>
    let d := policy (lookup config.knownHosts (hostLookupKey target) key) fp target
      config.allowHostKeyMismatch
    let refusal := if d.refuses then some d.message else none
    (some (fp, refusal), if d.refuses then none else some (say d), answerOf refusal)

/-- The answers to a sequence of keys. -/
def observeAll (config : HostKeyConfig) (target : SocketAddr) :
    Seen → List Key → List (Except String Unit)
  | _, [] => []
  | seen, key :: keys =>
    let r := observe config target key seen
    r.2.2 :: observeAll config target r.1 keys

/-- What is remembered after a sequence of keys. -/
def seenAfter (config : HostKeyConfig) (target : SocketAddr) (keys : List Key) : Seen :=
  keys.foldl (fun seen key => (observe config target key seen).1) none

/-- Some `@revoked` entry that covers the target carries the key. -/
def Revoked (config : HostKeyConfig) (target : SocketAddr) (key : Key) : Prop :=
  ∃ e ∈ SshKey.entries config.knownHosts, e.marker = some .revoked ∧
    e.carries (hostLookupKey target) key = true

/-- An unmarked entry that covers the target carries the key, and no `@revoked` one does. -/
def Corroborated (config : HostKeyConfig) (target : SocketAddr) (key : Key) : Prop :=
  (∃ e ∈ SshKey.entries config.knownHosts, e.marker = none ∧
    e.carries (hostLookupKey target) key = true) ∧ ¬ Revoked config target key

/-- No unmarked entry that carries the key stands before the `@revoked` ones. -/
def RevokedFirst (config : HostKeyConfig) (target : SocketAddr) (key : Key) : Prop :=
  ∀ e, ruling config.knownHosts (hostLookupKey target) key = some e → e.marker ≠ none

/-- With the opt-out, no other key came before this one, and it is revoked first; without it, a
different key was the first, or this one is revoked first. -/
def RevocationHeeded (config : HostKeyConfig) (target : SocketAddr) (before : List Key) (key : Key) :
    Prop :=
  if config.allowHostKeyMismatch then
    (∀ k ∈ before, SshKey.fingerprint k = SshKey.fingerprint key) ∧ RevokedFirst config target key
  else
    (∃ k, before.head? = some k ∧ SshKey.fingerprint k ≠ SshKey.fingerprint key) ∨
      RevokedFirst config target key

/-- With the opt-out, or if this key was the first that was observed. -/
def NotSupplanted (config : HostKeyConfig) (before : List Key) (key : Key) : Prop :=
  config.allowHostKeyMismatch = true ∨
    ∀ k, before.head? = some k → SshKey.fingerprint k = SshKey.fingerprint key

/-! ## What is remembered -/

/-- The refusal that a key earns if it is the first. -/
def firstRefusal (config : HostKeyConfig) (target : SocketAddr) (key : Key) : Option String :=
  let d := policy (lookup config.knownHosts (hostLookupKey target) key) (SshKey.fingerprint key)
    target config.allowHostKeyMismatch
  if d.refuses then some d.message else none

section Sequence

variable {config : HostKeyConfig} {target : SocketAddr} {key : Key} {before keys : List Key} {i : ℕ}

/-- The answers are those to each key after the ones before it. -/
theorem observeAll_getElem? (h : keys[i]? = some key) :
    (observeAll config target none keys)[i]? =
      some (observe config target key (seenAfter config target (keys.take i))).2.2 := by
  have hall : ∀ (seen : Seen) (keys : List Key) (i : ℕ), keys[i]? = some key →
      (observeAll config target seen keys)[i]? = some (observe config target key
        ((keys.take i).foldl (fun seen key => (observe config target key seen).1) seen)).2.2 := by
    intro seen keys
    induction keys generalizing seen with
    | nil => simp
    | cons k ks ih =>
      intro i h
      cases i with
      | zero =>
        obtain rfl : k = key := by simpa using h
        rfl
      | succ i => exact ih _ i (by simpa using h)
  exact hall none keys i h

/-- The same key earns the same refusal. -/
theorem firstRefusal_congr {k : Key} (h : SshKey.fingerprint k = SshKey.fingerprint key) :
    firstRefusal config target k = firstRefusal config target key := by
  unfold firstRefusal lookup
  rw [h]

/-- Without the opt-out, the first key stays. -/
theorem seenAfter_strict (hallow : config.allowHostKeyMismatch = false) (key : Key)
    (keys : List Key) :
    seenAfter config target (key :: keys) =
      some (SshKey.fingerprint key, firstRefusal config target key) := by
  have hstay : ∀ k : Key,
      (observe config target k (some (SshKey.fingerprint key, firstRefusal config target key))).1 =
        some (SshKey.fingerprint key, firstRefusal config target key) := by
    intro k
    unfold observe
    dsimp only
    split_ifs with hsame hrefuses
    · rfl
    · rfl
    · rw [policyChanged_refuses, hallow] at hrefuses
      exact absurd rfl hrefuses
  show keys.foldl _ (observe config target key none).1 = _
  have hfirst : (observe config target key none).1 =
      some (SshKey.fingerprint key, firstRefusal config target key) := rfl
  rw [hfirst]
  induction keys with
  | nil => rfl
  | cons k ks ih =>
    rw [List.foldl_cons, hstay]
    exact ih

/-- With the opt-out, a different key takes the place of the one that is remembered. -/
theorem observe_changed (hallow : config.allowHostKeyMismatch = true) {prev : String}
    {refusal : Option String} (hne : prev ≠ SshKey.fingerprint key) :
    ((observe config target key (some (prev, refusal))).1 = some (SshKey.fingerprint key, none)) ∧
      (observe config target key (some (prev, refusal))).2.2 = .ok () := by
  unfold observe
  dsimp only
  rw [if_neg hne, policyChanged_refuses, hallow]
  exact ⟨rfl, rfl⟩

/-- The key that is remembered gets the answer that it earned. -/
theorem observe_same (refusal : Option String) :
    observe config target key (some (SshKey.fingerprint key, refusal)) =
      (some (SshKey.fingerprint key, refusal), none, answerOf refusal) := by
  unfold observe
  exact if_pos rfl

/-- With the opt-out, the last key stays, and its refusal if no other came before it. -/
theorem seenAfter_lenient (hallow : config.allowHostKeyMismatch = true) (keys : List Key) (key : Key) :
    ((∀ k ∈ keys, SshKey.fingerprint k = SshKey.fingerprint key) →
      seenAfter config target (keys ++ [key]) =
        some (SshKey.fingerprint key, firstRefusal config target key)) ∧
    ((∃ k ∈ keys, SshKey.fingerprint k ≠ SshKey.fingerprint key) →
      seenAfter config target (keys ++ [key]) = some (SshKey.fingerprint key, none)) := by
  induction keys using List.reverseRecOn generalizing key with
  | nil => exact ⟨fun _ => rfl, fun ⟨k, hk, _⟩ => absurd hk List.not_mem_nil⟩
  | append_singleton ks k ih =>
    have hstep : seenAfter config target (ks ++ [k] ++ [key]) =
        (observe config target key (seenAfter config target (ks ++ [k]))).1 := by
      rw [seenAfter, List.foldl_append]
      rfl
    rw [hstep]
    by_cases hk : SshKey.fingerprint k = SshKey.fingerprint key
    · refine ⟨fun hall => ?_, fun hsome => ?_⟩
      · rw [(ih k).1 fun k' hk' => (hall k' (List.mem_append_left _ hk')).trans hk.symm,
          firstRefusal_congr hk, hk, observe_same]
      · obtain ⟨k', hk', hne⟩ := hsome
        rcases List.mem_append.1 hk' with hmem | hmem
        · rw [(ih k).2 ⟨k', hmem, fun heq => hne (heq.trans hk)⟩, hk, observe_same]
        · obtain rfl := List.mem_singleton.1 hmem
          exact absurd hk hne
    · refine ⟨fun hall => absurd (hall k (List.mem_append_right _ (List.mem_singleton.2 rfl))) hk,
        fun _ => ?_⟩
      have hseen : ∃ refusal, seenAfter config target (ks ++ [k]) =
          some (SshKey.fingerprint k, refusal) := by
        by_cases hall : ∀ k' ∈ ks, SshKey.fingerprint k' = SshKey.fingerprint k
        · exact ⟨_, (ih k).1 hall⟩
        · push Not at hall
          exact ⟨_, (ih k).2 hall⟩
      obtain ⟨refusal, hseen⟩ := hseen
      rw [hseen]
      exact (observe_changed hallow hk).1

/-! ## What is answered -/

/-- A key is refused, after those before it. -/
def Refused (config : HostKeyConfig) (target : SocketAddr) (before : List Key) (key : Key) : Prop :=
  ∃ e, (observe config target key (seenAfter config target before)).2.2 = .error e

theorem answerOf_error (refusal : Option String) :
    (∃ e, answerOf refusal = .error e) ↔ refusal ≠ none := by
  cases refusal <;> simp [answerOf]

/-- Without the opt-out, a key is refused if it is not the first, or if the first is refused. -/
theorem refused_strict (hallow : config.allowHostKeyMismatch = false) :
    Refused config target before key ↔
      (∃ k, before.head? = some k ∧ SshKey.fingerprint k ≠ SshKey.fingerprint key) ∨
        firstRefusal config target key ≠ none := by
  unfold Refused
  cases before with
  | nil =>
    have hfirst : (observe config target key (seenAfter config target ([] : List Key))).2.2 =
        answerOf (firstRefusal config target key) := rfl
    rw [hfirst, answerOf_error]
    simp
  | cons k ks =>
    rw [seenAfter_strict hallow]
    by_cases hk : SshKey.fingerprint k = SshKey.fingerprint key
    · rw [hk, observe_same, answerOf_error, firstRefusal_congr hk]
      simp [hk]
    · refine iff_of_true ?_ (.inl ⟨k, rfl, hk⟩)
      unfold observe
      dsimp only
      rw [if_neg hk, if_pos (by rw [policyChanged_refuses, hallow]; rfl)]
      exact ⟨_, rfl⟩

/-- With it, a key is refused if no other came before it, and the first is refused. -/
theorem refused_lenient (hallow : config.allowHostKeyMismatch = true) :
    Refused config target before key ↔
      (∀ k ∈ before, SshKey.fingerprint k = SshKey.fingerprint key) ∧
        firstRefusal config target key ≠ none := by
  unfold Refused
  induction before using List.reverseRecOn with
  | nil =>
    have hfirst : (observe config target key (seenAfter config target ([] : List Key))).2.2 =
        answerOf (firstRefusal config target key) := rfl
    rw [hfirst, answerOf_error]
    simp
  | append_singleton ks k =>
    by_cases hk : SshKey.fingerprint k = SshKey.fingerprint key
    · by_cases hall : ∀ k' ∈ ks, SshKey.fingerprint k' = SshKey.fingerprint k
      · rw [(seenAfter_lenient hallow ks k).1 hall, hk, observe_same, answerOf_error,
          firstRefusal_congr hk]
        refine ⟨fun hrefused => ⟨fun k' hk' => ?_, hrefused⟩, And.right⟩
        rcases List.mem_append.1 hk' with hmem | hmem
        · exact (hall k' hmem).trans hk
        · obtain rfl := List.mem_singleton.1 hmem
          exact hk
      · push Not at hall
        rw [(seenAfter_lenient hallow ks k).2 hall, hk, observe_same, answerOf_error]
        obtain ⟨k', hk', hne⟩ := hall
        refine iff_of_false (by simp) fun hrefused => hne ?_
        exact (hrefused.1 k' (List.mem_append_left _ hk')).trans hk.symm
    · have hanswer : ∀ refusal, (observe config target key
          (some (SshKey.fingerprint k, refusal))).2.2 = .ok () := fun _ =>
        (observe_changed hallow hk).2
      refine iff_of_false ?_ fun hrefused =>
        hk (hrefused.1 k (List.mem_append_right _ (List.mem_singleton.2 rfl)))
      by_cases hall : ∀ k' ∈ ks, SshKey.fingerprint k' = SshKey.fingerprint k
      · rw [(seenAfter_lenient hallow ks k).1 hall, hanswer]
        simp
      · push Not at hall
        rw [(seenAfter_lenient hallow ks k).2 hall, hanswer]
        simp

/-- An entry that carries the key, and not as that of an authority, leaves it to some entry to rule. -/
theorem exists_ruling {e : Entry Key} (he : e ∈ SshKey.entries config.knownHosts)
    (hmarker : e.marker ≠ some .certAuthority)
    (hcarries : e.carries (hostLookupKey target) key = true) :
    ∃ e', ruling config.knownHosts (hostLookupKey target) key = some e' := by
  refine Option.ne_none_iff_exists'.1 fun hnone => ?_
  have hrules : e.rules (hostLookupKey target) key = true := by
    simp [Entry.rules, hcarries, hmarker]
  exact List.find?_eq_none.1 hnone e he hrules

/-- A key that is revoked first is refused first. -/
theorem firstRefusal_of_revoked (h : Revoked config target key) :
    firstRefusal config target key ≠ none ↔ RevokedFirst config target key := by
  obtain ⟨e, he, hmarker, hcarries⟩ := h
  obtain ⟨e', hruling⟩ := exists_ruling he (by simp [hmarker]) hcarries
  have hlookup := lookup_of_ruling hruling
  rw [RevokedFirst, hruling]
  by_cases hnone : e'.marker = none
  · rw [if_pos hnone] at hlookup
    refine iff_of_false (fun hrefused => hrefused ?_) fun hall => hall e' rfl hnone
    unfold firstRefusal
    rw [hlookup]
    rfl
  · rw [if_neg hnone] at hlookup
    refine iff_of_true ?_ fun e heq => Option.some.inj heq ▸ hnone
    unfold firstRefusal
    rw [hlookup]
    exact Option.some_ne_none _

/-- A corroborated key is not refused first. -/
theorem firstRefusal_of_corroborated (h : Corroborated config target key) :
    firstRefusal config target key = none := by
  obtain ⟨⟨e, he, hmarker, hcarries⟩, hnot⟩ := h
  obtain ⟨e', hruling⟩ := exists_ruling he (by simp [hmarker]) hcarries
  -- the entry that rules carries the key, and is neither an authority's nor a revocation
  have hunmarked : e'.marker = none := by
    have hrules := List.find?_some hruling
    simp only [Entry.rules, decide_eq_true_eq, Bool.decide_and, Bool.and_eq_true] at hrules
    cases hm : e'.marker with
    | none => rfl
    | some m =>
      cases m with
      | certAuthority => exact absurd hm hrules.2
      | revoked => exact absurd ⟨e', List.mem_of_find?_eq_some hruling, hm, hrules.1⟩ hnot
  have hlookup := lookup_of_ruling hruling
  rw [if_pos hunmarked] at hlookup
  unfold firstRefusal
  rw [hlookup]
  rfl

/-! ## Sequences -/

/-- A revoked key is refused exactly when its revocation is heeded. -/
theorem refused_of_revoked (h : Revoked config target key) :
    Refused config target before key ↔ RevocationHeeded config target before key := by
  unfold RevocationHeeded
  split_ifs with hallow
  · rw [refused_lenient hallow, firstRefusal_of_revoked h]
  · rw [refused_strict (eq_false_of_ne_true hallow), firstRefusal_of_revoked h]

/-- A corroborated key is accepted exactly when no other key has taken its place. -/
theorem not_refused_of_corroborated (h : Corroborated config target key) :
    ¬ Refused config target before key ↔ NotSupplanted config before key := by
  have hfirst := firstRefusal_of_corroborated h
  unfold NotSupplanted
  by_cases hallow : config.allowHostKeyMismatch = true
  · rw [refused_lenient hallow, hfirst]
    simp [hallow]
  · rw [refused_strict (eq_false_of_ne_true hallow), hfirst]
    simp [hallow]

/-- The answer is an error exactly when the key is refused. -/
theorem observeAll_error (h : keys[i]? = some key) :
    (∃ e, (observeAll config target none keys)[i]? = some (.error e)) ↔
      Refused config target (keys.take i) key := by
  rw [observeAll_getElem? h]
  simp [Refused]

/-- The answer is `Ok` exactly when it is not. -/
theorem observeAll_ok (h : keys[i]? = some key) :
    (observeAll config target none keys)[i]? = some (.ok ()) ↔
      ¬ Refused config target (keys.take i) key := by
  rw [observeAll_getElem? h, Refused]
  cases (observe config target key (seenAfter config target (keys.take i))).2.2 <;> simp

/-- Every revoked key of a sequence is refused exactly when each revocation is heeded: when the key is
not the one that an earlier, unmarked entry speaks for, and, with the opt-out, no other key came before
it. -/
theorem revoked_refused_iff (config : HostKeyConfig) (target : SocketAddr) (keys : List Key) :
    (∀ (i : ℕ) (key : Key), keys[i]? = some key → Revoked config target key →
      ∃ e, (observeAll config target none keys)[i]? = some (.error e)) ↔
    ∀ (i : ℕ) (key : Key), keys[i]? = some key → Revoked config target key →
      RevocationHeeded config target (keys.take i) key := by
  constructor
  · intro h i key hkey hrevoked
    exact (refused_of_revoked hrevoked).1 ((observeAll_error hkey).1 (h i key hkey hrevoked))
  · intro h i key hkey hrevoked
    exact (observeAll_error hkey).2 ((refused_of_revoked hrevoked).2 (h i key hkey hrevoked))

/-- Every corroborated key of a sequence is accepted exactly when none is supplanted: with the opt-out,
or if each has the fingerprint of the first key. -/
theorem corroborated_accepted_iff (config : HostKeyConfig) (target : SocketAddr) (keys : List Key) :
    (∀ (i : ℕ) (key : Key), keys[i]? = some key → Corroborated config target key →
      (observeAll config target none keys)[i]? = some (.ok ())) ↔
    ∀ (i : ℕ) (key : Key), keys[i]? = some key → Corroborated config target key →
      NotSupplanted config (keys.take i) key := by
  constructor
  · intro h i key hkey hcorr
    exact (not_refused_of_corroborated hcorr).1 ((observeAll_ok hkey).1 (h i key hkey hcorr))
  · intro h i key hkey hcorr
    exact (observeAll_ok hkey).2 ((not_refused_of_corroborated hcorr).2 (h i key hkey hcorr))

end Sequence

/-! ## With a plain known_hosts -/

section Plain

attribute [local instance] plain

/-- A known_hosts that has a key first, and revokes it next. -/
def revokedLater : HostKeyConfig where
  knownHosts := "127.0.0.1 ssh-ed25519 A\n@revoked 127.0.0.1 ssh-ed25519 A"

/-- A key that stands in the file before it is revoked is accepted. -/
theorem not_alwaysRefused :
    ¬ ∀ (i : ℕ) (key : String), ["A"][i]? = some key → Revoked revokedLater localSshd key →
      ∃ e, (observeAll revokedLater localSshd none ["A"])[i]? = some (.error e) := by
  intro h
  have hentries : SshKey.entries revokedLater.knownHosts =
      [localEntry none "A", localEntry (some .revoked) "A"] := by decide
  have hrevoked : Revoked revokedLater localSshd "A" :=
    ⟨localEntry (some .revoked) "A", by simp [hentries], rfl, localEntry_carries _ _⟩
  have hruling : ruling revokedLater.knownHosts (hostLookupKey localSshd) "A" =
      some (localEntry none "A") := by
    rw [ruling, hentries, List.find?_cons, Entry.rules, localEntry_carries]
    rfl
  have hrefused := (observeAll_error rfl).1 (h 0 "A" rfl hrevoked)
  rcases (refused_strict rfl).1 hrefused with ⟨k, hk, -⟩ | hfirst
  · cases hk
  · exact (firstRefusal_of_revoked hrevoked).1 hfirst _ hruling rfl

/-- A known_hosts that has a key. -/
def knownOnly : HostKeyConfig where
  knownHosts := "127.0.0.1 ssh-ed25519 A"

/-- A key that stands in the file is refused once another one came first. -/
theorem not_alwaysAccepted :
    ¬ ∀ (i : ℕ) (key : String), ["X", "A"][i]? = some key → Corroborated knownOnly localSshd key →
      (observeAll knownOnly localSshd none ["X", "A"])[i]? = some (.ok ()) := by
  intro h
  have hentries : SshKey.entries knownOnly.knownHosts = [localEntry none "A"] := by decide
  have hcorr : Corroborated knownOnly localSshd "A" := by
    refine ⟨⟨localEntry none "A", by simp [hentries], rfl, localEntry_carries _ _⟩, ?_⟩
    rintro ⟨e, he, hmarker, -⟩
    rw [hentries, List.mem_singleton] at he
    subst he
    cases hmarker
  have hrefused : Refused knownOnly localSshd ["X"] "A" :=
    (refused_strict rfl).2 (.inl ⟨"X", rfl, by decide⟩)
  exact (observeAll_ok rfl).1 (h 1 "A" rfl hcorr) hrefused

end Plain

end Listener
