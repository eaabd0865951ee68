import Wosh.Lib.Run
import Wosh.Lib.Slots
import Wosh.Tunnel.Frame

set_option relaxedAutoImplicit false
set_option autoImplicit false

/-!
# The identity of this browser

The key pair of `site/identity-store.ts`, which any number of pages load or mint, each with its own copy
in memory and all with one record in their database.

## Main definitions

* `SshIdentity.usable`, `SshIdentity.mint` — the pairs that are trusted, and those that are made.
* `SshIdentity.Origin` — the record, the transaction that may write it, and the pages.
* `SshIdentity.step` — the transition function.

## Main results

* `SshIdentity.one_identity` — a pair that is stored stays, and whatever page has not fallen back to a
  pair of its own has this one.
* `SshIdentity.answers_match` — what a page signs can be verified with the public key that it gives.

## Design

A transaction that may write is two steps, its read and its end, and no other one is read between them.
A page can be closed at any time, while its transaction comes to its end or is undone.
-/

namespace SshIdentity

open Slots
open Tunnel (Bytes)

/-! ## Keys -/

/-- A `CryptoKey`, whose material is known to the browser only. -/
structure CryptoKey where
  material : ℕ
  algorithm : String
  extractable : Bool
  usages : List String
deriving DecidableEq

structure CryptoKeyPair where
  privateKey : CryptoKey
  publicKey : CryptoKey
deriving DecidableEq

/-- An object of the store: what it has for the two keys, where these are keys. -/
structure Stored where
  privateKey : Option CryptoKey
  publicKey : Option CryptoKey
deriving DecidableEq

/-- A stored value is only trusted if it is exactly what `mint` makes. -/
def usable : Option Stored → Option CryptoKeyPair
  | some ⟨some k, some k'⟩ =>
    if k.algorithm = "Ed25519" ∧ k.extractable = false ∧ "sign" ∈ k.usages then some ⟨k, k'⟩ else none
  | _ => none

/-- The pair that is made of some material. -/
def mint (material : ℕ) : CryptoKeyPair :=
  ⟨⟨material, "Ed25519", false, ["sign"]⟩, ⟨material, "Ed25519", true, ["verify"]⟩⟩

/-- What is written for a pair. -/
def CryptoKeyPair.stored (p : CryptoKeyPair) : Stored := ⟨some p.privateKey, some p.publicKey⟩

/-- What is minted is trusted once it is stored. -/
theorem usable_mint (m : ℕ) : usable (some (mint m).stored) = some (mint m) := by
  simp [usable, mint, CryptoKeyPair.stored]

/-- The cryptography of the browser, which may reject with a message. -/
structure WebCrypto where
  /-- `exportKey("raw", …)`. -/
  exportKey : CryptoKey → Except String Bytes
  sign : CryptoKey → Bytes → Except String Bytes
  /-- Whether a signature is one of the data, for a public key. -/
  verify : Bytes → Bytes → Bytes → Bool

/-- The halves of a pair belong together. -/
def WebCrypto.Matches (W : WebCrypto) (p : CryptoKeyPair) : Prop :=
  ∀ key data sig, W.exportKey p.publicKey = .ok key → W.sign p.privateKey data = .ok sig →
    W.verify key data sig = true

/-! ## The state -/

/-- Where the load of a page stands, with what it awaits. -/
inductive Stage
  /-- `openDb`, and the record. -/
  | opening
  | reading
  /-- `mint`, for the store. -/
  | minting
  /-- The record again, in a transaction that may write it. -/
  | racing (candidate : CryptoKeyPair)
  /-- The end of this transaction; whether it writes. -/
  | committing (winner : CryptoKeyPair) (put : Bool)
  /-- `mint`, for this page only. -/
  | falling
  | resolved (pair : CryptoKeyPair) (durable : Bool)
  | rejected (e : String)
deriving DecidableEq

/-- What the component asks. -/
inductive Query
  | publicKey
  | sign (data : Bytes)
deriving DecidableEq

structure Call where
  query : Query
  answer : Option (Except String Bytes) := none

structure Page where
  /-- `pairPromise`. -/
  pairPromise : Option Stage := none
  calls : List Call := []
  closed : Bool := false

/-- The pages of one origin in one browser. -/
structure Origin where
  stored : Option Stored
  /-- The page that is in the middle of a transaction that may write. -/
  writer : Option ℕ := none
  pages : List Page := []

/-- An origin before any page is loaded. -/
def Origin.start (stored : Option Stored) : Origin := { stored := stored }

/-! ## Steps -/

/-- What a load goes on with. -/
inductive Event
  /-- The database is open, the record has been read, the transaction has come to its end. -/
  | done
  | minted (material : ℕ)
  | failed (e : String)
deriving DecidableEq

/-- What happens next. -/
inductive Action
  /-- A page is loaded. -/
  | load
  /-- A call of `publicKey` or `sign`. -/
  | ask (n : ℕ) (q : Query)
  | goOn (n : ℕ) (e : Event)
  /-- A call has what it awaits. -/
  | answer (n k : ℕ)
  /-- A page is closed; whether a transaction of it comes to its end. -/
  | close (n : ℕ) (commits : Bool)
  /-- The data of the site is cleared. -/
  | clear
deriving DecidableEq

/-- What a load does: where it stands then, what is stored, and who is in a transaction. -/
structure Turn where
  stage : Stage
  stored : Option Stored
  writer : Option ℕ

/-- `loadOrMint`, and `identityPair` where it throws. -/
def goOn (stored : Option Stored) (writer : Option ℕ) (n : ℕ) : Stage → Event → Option Turn
  | .opening, .done => some ⟨.reading, stored, writer⟩
  | .reading, .done =>
    match usable stored with
    | some existing => some ⟨.resolved existing true, stored, writer⟩
    | none => some ⟨.minting, stored, writer⟩
  | .minting, .minted m => some ⟨.racing (mint m), stored, writer⟩
  | .racing candidate, .done =>
    -- such transactions wait for each other
    if writer = none then
      match usable stored with
      | some race => some ⟨.committing race false, stored, some n⟩
      | none => some ⟨.committing candidate true, stored, some n⟩
    else none
  | .committing winner put, .done =>
    some ⟨.resolved winner true, if put then some winner.stored else stored, none⟩
  | .committing _ _, .failed _ => some ⟨.falling, stored, none⟩
  | .falling, .minted m => some ⟨.resolved (mint m) false, stored, writer⟩
  | .falling, .failed e => some ⟨.rejected e, stored, writer⟩
  | .resolved _ _, .failed _ | .rejected _, .failed _ => none
  | _, .failed _ => some ⟨.falling, stored, writer⟩
  | _, _ => none

/-- `publicKey` and `sign`, once the pair is there. -/
def respond (W : WebCrypto) : Query → Except String CryptoKeyPair → Except String Bytes
  | .publicKey, pair => (pair >>= fun p => W.exportKey p.publicKey).mapError
      fun e => "ssh identity public key: " ++ e
  | .sign data, pair => (pair >>= fun p => W.sign p.privateKey data).mapError
      fun e => "ssh identity sign: " ++ e

/-- What `pairPromise` has settled with. -/
def Stage.outcome : Stage → Option (Except String CryptoKeyPair)
  | resolved pair _ => some (.ok pair)
  | rejected e => some (.error e)
  | _ => none

/-- The page changes. -/
def Origin.put (o : Origin) (n : ℕ) (p : Page) : Origin := { o with pages := o.pages.set n p }

/-- What is stored after a page is closed. -/
def Origin.afterClose (o : Origin) (n : ℕ) (p : Page) (commits : Bool) : Option Stored :=
  match p.pairPromise with
  | some (.committing winner true) => if o.writer = some n ∧ commits then some winner.stored else o.stored
  | _ => o.stored

/-- One step of a page that is open. -/
def stepPage (W : WebCrypto) (o : Origin) (n : ℕ) (p : Page) : Action → Option Origin
  | .ask _ q =>
    some (o.put n { p with
      pairPromise := some (p.pairPromise.getD .opening)
      calls := p.calls ++ [⟨q, none⟩] })
  | .goOn _ e =>
    p.pairPromise.bind fun s => (goOn o.stored o.writer n s e).map fun t =>
      { stored := t.stored
        writer := t.writer
        pages := o.pages.set n { p with pairPromise := some t.stage } }
  | .answer _ k =>
    match p.calls[k]?, p.pairPromise.bind Stage.outcome with
    | some ⟨q, none⟩, some r => some (o.put n { p with calls := p.calls.set k ⟨q, some (respond W q r)⟩ })
    | _, _ => none
  | .close _ commits =>
    some { stored := o.afterClose n p commits
           writer := if o.writer = some n then none else o.writer
           pages := o.pages.set n { p with closed := true } }
  | .load | .clear => none

/-- One step. -/
def step (W : WebCrypto) (o : Origin) : Action → Option Origin
  | .load => some { o with pages := o.pages ++ [{}] }
  | .clear => some { o with stored := none }
  | a@(.ask n _) | a@(.goOn n _) | a@(.answer n _) | a@(.close n _) =>
    match o.pages[n]? with
    | none => none
    | some p => if p.closed then none else stepPage W o n p a

/-! ## What a step can do -/

variable {W : WebCrypto} {o o' : Origin} {n m : ℕ} {p q : Page}

/-- The cases of `step`. -/
inductive Moves (W : WebCrypto) (o : Origin) : Action → Origin → Prop
  | load : Moves W o .load { o with pages := o.pages ++ [{}] }
  | clear : Moves W o .clear { o with stored := none }
  | ask {n : ℕ} {p : Page} (hp : o.pages[n]? = some p) (hopen : p.closed = false) (q : Query) :
      Moves W o (.ask n q) (o.put n { p with
        pairPromise := some (p.pairPromise.getD .opening)
        calls := p.calls ++ [⟨q, none⟩] })
  | goOn {n : ℕ} {p : Page} {s : Stage} {e : Event} {t : Turn} (hp : o.pages[n]? = some p)
      (hopen : p.closed = false) (hs : p.pairPromise = some s)
      (ht : goOn o.stored o.writer n s e = some t) :
      Moves W o (.goOn n e) ⟨t.stored, t.writer, o.pages.set n { p with pairPromise := some t.stage }⟩
  | answer {n k : ℕ} {p : Page} {q : Query} {r : Except String CryptoKeyPair}
      (hp : o.pages[n]? = some p) (hopen : p.closed = false) (hcall : p.calls[k]? = some ⟨q, none⟩)
      (hr : p.pairPromise.bind Stage.outcome = some r) :
      Moves W o (.answer n k) (o.put n { p with calls := p.calls.set k ⟨q, some (respond W q r)⟩ })
  | close {n : ℕ} {p : Page} (hp : o.pages[n]? = some p) (hopen : p.closed = false) (commits : Bool) :
      Moves W o (.close n commits) ⟨o.afterClose n p commits,
        if o.writer = some n then none else o.writer, o.pages.set n { p with closed := true }⟩

/-- **The cases of `step`.** -/
theorem step_cases {a : Action} (h : step W o a = some o') : Moves W o a o' := by
  cases a with
  | load =>
    cases h
    exact .load
  | clear =>
    cases h
    exact .clear
  | ask n q =>
    simp only [step] at h
    split at h
    · cases h
    · rename_i p hp
      split_ifs at h with hclosed
      cases h
      exact .ask hp (Bool.eq_false_iff.2 hclosed) q
  | goOn n e =>
    simp only [step] at h
    split at h
    · cases h
    · rename_i p hp
      split_ifs at h with hclosed
      obtain ⟨s, hs, hmap⟩ := Option.bind_eq_some_iff.1 h
      obtain ⟨t, ht, rfl⟩ := Option.map_eq_some_iff.1 hmap
      exact .goOn hp (Bool.eq_false_iff.2 hclosed) hs ht
  | answer n k =>
    simp only [step] at h
    split at h
    · cases h
    · rename_i p hp
      split_ifs at h with hclosed
      simp only [stepPage] at h
      split at h
      · rename_i q r hcall hr
        cases h
        exact .answer hp (Bool.eq_false_iff.2 hclosed) hcall hr
      · cases h
  | close n commits =>
    simp only [step] at h
    split at h
    · cases h
    · rename_i p hp
      split_ifs at h with hclosed
      cases h
      exact .close hp (Bool.eq_false_iff.2 hclosed) commits

/-! ## One identity -/

/-- What is trusted is what is stored for it. -/
theorem stored_of_usable {v : Option Stored} {pair : CryptoKeyPair} (h : usable v = some pair) :
    v = some pair.stored := by
  unfold usable at h
  split at h
  · split_ifs at h
    obtain rfl := Option.some.inj h
    rfl
  · cases h

/-- What is known of a page, while nothing is cleared. -/
def PageSound (o : Origin) (n : ℕ) (p : Page) : Prop :=
  match p.pairPromise with
  | some (.racing candidate) => usable (some candidate.stored) = some candidate
  | some (.committing winner put) =>
    p.closed = false → o.writer = some n ∧
      if put then usable o.stored = none ∧ usable (some winner.stored) = some winner
      else usable o.stored = some winner
  | some (.resolved pair true) => usable o.stored = some pair
  | _ => True

/-- A change that a page does not see. -/
theorem PageSound.keep (h : PageSound o n p)
    (hstored : ∀ pair, usable o.stored = some pair → usable o'.stored = some pair)
    (hwriter : o.writer = some n → p.closed = false → o'.writer = some n ∧ o'.stored = o.stored) :
    PageSound o' n p := by
  unfold PageSound at h ⊢
  split at h
  · exact h
  · intro hopen
    obtain ⟨hw, hrest⟩ := h hopen
    obtain ⟨hw', heq⟩ := hwriter hw hopen
    rw [heq]
    exact ⟨hw', hrest⟩
  · exact hstored _ h
  · trivial

/-- The page is closed. -/
theorem PageSound.shut (h : PageSound o n p)
    (hstored : ∀ pair, usable o.stored = some pair → usable o'.stored = some pair) :
    PageSound o' n { p with closed := true } := by
  cases hs : p.pairPromise with
  | none => trivial
  | some s =>
    simp only [PageSound, hs] at h ⊢
    cases s with
    | racing candidate => exact h
    | committing winner put => nofun
    | resolved pair durable =>
      cases durable with
      | false => trivial
      | true => exact hstored pair h
    | _ => trivial

/-- The turn of a load: what it leaves of the record, and of the other pages' transactions. -/
structure TurnSound (o : Origin) (n : ℕ) (t : Turn) : Prop where
  kept : ∀ pair, usable o.stored = some pair → usable t.stored = some pair
  /-- No other page is in a transaction while this one changes anything of it. -/
  alone : (t.stored = o.stored ∧ t.writer = o.writer) ∨ o.writer = none ∨ o.writer = some n
  page : ∀ p : Page, p.closed = false →
    PageSound { o with stored := t.stored, writer := t.writer } n { p with pairPromise := some t.stage }

/-- **The turns of a load.** -/
theorem turnSound {s : Stage} {e : Event} {t : Turn} (hopen : p.closed = false)
    (hs : p.pairPromise = some s) (h : PageSound o n p) (ht : goOn o.stored o.writer n s e = some t) :
    TurnSound o n t := by
  rw [PageSound, hs] at h
  have hquiet : ∀ {s : Stage}, (∀ p : Page, p.closed = false →
      PageSound o n { p with pairPromise := some s }) → TurnSound o n ⟨s, o.stored, o.writer⟩ :=
    fun hpage => ⟨fun _ => id, .inl ⟨rfl, rfl⟩, hpage⟩
  cases s with
  | opening => cases e <;> cases ht <;> exact hquiet fun _ _ => trivial
  | reading =>
    cases e with
    | done =>
      simp only [goOn] at ht
      split at ht <;> cases ht
      · rename_i existing hexisting
        exact hquiet fun _ _ => hexisting
      · exact hquiet fun _ _ => trivial
    | minted => cases ht
    | failed =>
      cases ht
      exact hquiet fun _ _ => trivial
  | minting =>
    cases e <;> cases ht
    · exact hquiet fun _ _ => usable_mint _
    · exact hquiet fun _ _ => trivial
  | racing candidate =>
    cases e with
    | done =>
      simp only [goOn] at ht
      split_ifs at ht with hnone
      split at ht <;> cases ht
      · rename_i race hrace
        exact ⟨fun _ => id, .inr (.inl hnone), fun _ _ _ => ⟨rfl, hrace⟩⟩
      · rename_i hnot
        exact ⟨fun _ => id, .inr (.inl hnone), fun _ _ _ => ⟨rfl, hnot, h⟩⟩
    | minted => cases ht
    | failed =>
      cases ht
      exact hquiet fun _ _ => trivial
  | committing winner put =>
    obtain ⟨hwriter, hrest⟩ := h hopen
    cases e with
    | done =>
      cases ht
      cases put with
      | false => exact ⟨fun _ => id, .inr (.inr hwriter), fun _ _ => hrest⟩
      | true =>
        obtain ⟨hnone, hwinner⟩ := hrest
        refine ⟨fun pair hpair => ?_, .inr (.inr hwriter), fun _ _ => hwinner⟩
        rw [hnone] at hpair
        cases hpair
    | minted => cases ht
    | failed =>
      cases ht
      exact ⟨fun _ => id, .inr (.inr hwriter), fun _ _ => trivial⟩
  | falling => cases e <;> cases ht <;> exact hquiet fun _ _ => trivial
  | resolved pair durable => cases e <;> cases ht
  | rejected => cases e <;> cases ht

/-- What is known of all pages. -/
def AllSound (o : Origin) : Prop := ∀ (n : ℕ) p, o.pages[n]? = some p → PageSound o n p

/-- A page changes, and the others do not notice. -/
theorem AllSound.turn (h : AllSound o) (hpages : o'.pages = o.pages.set n q) (hpage : PageSound o' n q)
    (hkept : ∀ pair, usable o.stored = some pair → usable o'.stored = some pair)
    (hothers : ∀ m, m ≠ n → o.writer = some m → o'.writer = some m ∧ o'.stored = o.stored) :
    AllSound o' := by
  intro m r hr
  rw [hpages] at hr
  rcases getElem?_set_eq_some hr with ⟨rfl, rfl⟩ | ⟨hne, hr⟩
  · exact hpage
  · exact (h m r hr).keep hkept fun hwriter _ => hothers m hne hwriter

/-- What is left of the record once a page is closed. -/
theorem kept_afterClose (h : PageSound o n p) (hopen : p.closed = false) (commits : Bool) :
    ∀ pair, usable o.stored = some pair → usable (o.afterClose n p commits) = some pair := by
  intro pair hpair
  unfold Origin.afterClose
  split
  · rename_i winner hs
    rw [PageSound, hs] at h
    have hnone := (h hopen).2.1
    rw [hnone] at hpair
    cases hpair
  · exact hpair

/-- **What one step keeps**, while nothing is cleared. -/
theorem AllSound.moves (h : AllSound o) {a : Action} (ha : a ≠ .clear) (hmoves : Moves W o a o') :
    AllSound o' ∧ ∀ pair, usable o.stored = some pair → usable o'.stored = some pair := by
  cases hmoves with
  | load =>
    refine ⟨fun n p hp => ?_, fun _ => id⟩
    rcases getElem?_concat_eq_some.1 hp with hp | ⟨-, rfl⟩
    · exact (h n p hp).keep (fun _ => id) fun hwriter _ => ⟨hwriter, rfl⟩
    · trivial
  | clear => exact absurd rfl ha
  | @ask n p hp hopen q =>
    refine ⟨h.turn rfl ?_ (fun _ => id) fun m _ hwriter => ⟨hwriter, rfl⟩, fun _ => id⟩
    have hpage := h n p hp
    unfold PageSound at hpage ⊢
    cases hs : p.pairPromise with
    | none => trivial
    | some s =>
      rw [hs] at hpage
      exact hpage
  | @goOn n p s e t hp hopen hs ht =>
    have hturn := turnSound hopen hs (h n p hp) ht
    refine ⟨h.turn rfl ?_ hturn.kept fun m hne hwriter => ?_, hturn.kept⟩
    · exact hturn.page p hopen
    · rcases hturn.alone with ⟨hstored, hsame⟩ | hnone | hself
      · exact ⟨hsame.trans hwriter, hstored⟩
      · cases hnone.symm.trans hwriter
      · exact absurd (Option.some.inj (hwriter.symm.trans hself)) hne
  | @answer n k p q r hp hopen hcall hr =>
    exact ⟨h.turn rfl (h n p hp) (fun _ => id) fun m _ hwriter => ⟨hwriter, rfl⟩, fun _ => id⟩
  | @close n p hp hopen commits =>
    have hkept := kept_afterClose (h n p hp) hopen commits
    refine ⟨h.turn rfl ?_ hkept fun m hne hwriter => ?_, hkept⟩
    · exact (h n p hp).shut hkept
    · have hne' : o.writer ≠ some n := fun heq => hne (Option.some.inj (hwriter.symm.trans heq))
      refine ⟨(if_neg hne').trans hwriter, ?_⟩
      unfold Origin.afterClose
      split
      · exact if_neg fun hboth => hne' hboth.1
      · rfl

/-- **There is one identity.** While the data of the site is not cleared, whatever pages load, race for
the record, fail and are closed: a trusted pair that is stored stays, and every page that has not fallen
back to a pair of its own has the pair that is stored.

**Proof sketch.** A transaction that may write finds the record as it was when it began, so it writes
only where nothing trusted is stored. -/
theorem one_identity {stored : Option Stored} {xs ys : List Action}
    (hxs : Run.run (step W) (.start stored) xs = some o) (hys : Run.run (step W) o ys = some o')
    (hclear : Action.clear ∉ xs ++ ys) :
    (∀ pair, usable o.stored = some pair → usable o'.stored = some pair) ∧
      ∀ p ∈ o'.pages, ∀ pair, p.pairPromise = some (.resolved pair true) →
        usable o'.stored = some pair := by
  have hrun : ∀ {o₁ o₂ : Origin} {zs : List Action}, AllSound o₁ → .clear ∉ zs →
      Run.run (step W) o₁ zs = some o₂ →
        AllSound o₂ ∧ ∀ pair, usable o₁.stored = some pair → usable o₂.stored = some pair := by
    intro o₁ o₂ zs h hzs hrun
    refine Run.run_inv (P := fun o => AllSound o ∧
      ∀ pair, usable o₁.stored = some pair → usable o.stored = some pair)
      (C := fun _ a => a ≠ .clear) (fun o a o' hP ha hstep => ?_) ⟨h, fun _ => id⟩ ?_ hrun
    · obtain ⟨hsound, hkept⟩ := hP.1.moves ha (step_cases hstep)
      exact ⟨hsound, fun pair hpair => hkept pair (hP.2 pair hpair)⟩
    · exact Run.Along.of_forall (fun a ha _ (heq : a = Action.clear) => hzs (heq ▸ ha)) o₁
  have hstart : AllSound (.start stored) := fun _ _ hp => nomatch hp
  obtain ⟨hsound, -⟩ := hrun hstart (fun hmem => hclear (List.mem_append_left _ hmem)) hxs
  obtain ⟨hsound', hkept⟩ := hrun hsound (fun hmem => hclear (List.mem_append_right _ hmem)) hys
  refine ⟨hkept, fun p hp pair hpair => ?_⟩
  obtain ⟨n, hn⟩ := List.getElem?_of_mem hp
  have hpage := hsound' n p hn
  rw [PageSound, hpair] at hpage
  exact hpage

/-- Two pages find nothing stored, and each mints a pair: the first to write wins. -/
def races : List Action :=
  [.load, .load, .ask 0 .publicKey, .ask 1 .publicKey, .goOn 0 .done, .goOn 0 .done, .goOn 1 .done,
    .goOn 1 .done, .goOn 0 (.minted 7), .goOn 1 (.minted 8), .goOn 1 .done, .goOn 1 .done]

/-- The other one takes what it finds. -/
def loses : List Action := [.goOn 0 .done, .goOn 0 .done]

/-- The cryptography of the two pages. -/
def crypto : WebCrypto where
  exportKey k := .ok [UInt8.ofNat k.material]
  sign k data := .ok (UInt8.ofNat k.material :: data)
  verify key data sig := sig = key ++ data

/-- The runs to which `one_identity` is applied. -/
theorem one_identity_races :
    ∃ o o', Run.run (step crypto) (.start none) races = some o ∧ Run.run (step crypto) o loses = some o' ∧
      (∃ p ∈ o'.pages, p.pairPromise = some (.resolved (mint 8) true)) ∧
      (∀ pair, usable o.stored = some pair → usable o'.stored = some pair) ∧
      ∀ p ∈ o'.pages, ∀ pair, p.pairPromise = some (.resolved pair true) →
        usable o'.stored = some pair :=
  ⟨_, _, rfl, rfl, ⟨_, List.mem_cons_self, rfl⟩,
    @one_identity crypto _ _ none races loses rfl rfl (by decide)⟩

/-! ## Answers -/

/-- What is known of the halves of a pair. -/
structure Fit (W : WebCrypto) (pair : CryptoKeyPair) : Prop where
  trusted : usable (some pair.stored) = some pair
  halves : W.Matches pair

/-- The pair of a stage, if it has one. -/
def Stage.pair? : Stage → Option CryptoKeyPair
  | racing pair | committing pair _ | resolved pair _ => some pair
  | _ => none

/-- What is known of the calls of a page. -/
structure CallsSound (W : WebCrypto) (p : Page) : Prop where
  fit : ∀ s pair, p.pairPromise = some s → s.pair? = some pair → Fit W pair
  /-- Every answer is about what `pairPromise` has settled with. -/
  answered : ∀ c ∈ p.calls, ∀ a, c.answer = some a →
    ∃ r, p.pairPromise.bind Stage.outcome = some r ∧ a = respond W c.query r

/-- What is known of all pages. -/
structure Sound (W : WebCrypto) (o : Origin) : Prop where
  stored : ∀ pair, usable o.stored = some pair → W.Matches pair
  pages : ∀ p ∈ o.pages, CallsSound W p

/-- A page changes. -/
theorem Sound.put (h : Sound W o) (hpages : o'.pages = o.pages.set n q) (hq : CallsSound W q)
    (hstored : ∀ pair, usable o'.stored = some pair → W.Matches pair) : Sound W o' where
  stored := hstored
  pages := by
    intro r hr
    rw [hpages] at hr
    rcases List.mem_or_eq_of_mem_set hr with hr | rfl
    · exact h.pages r hr
    · exact hq

/-- A load goes on with pairs whose halves belong together, if it finds and mints such. -/
theorem fit_goOn {s : Stage} {e : Event} {t : Turn} (hmint : ∀ material, W.Matches (mint material))
    (hstored : ∀ pair, usable o.stored = some pair → W.Matches pair)
    (hs : ∀ pair, s.pair? = some pair → Fit W pair) (h : goOn o.stored o.writer n s e = some t) :
    (∀ pair, t.stage.pair? = some pair → Fit W pair) ∧
      ∀ pair, usable t.stored = some pair → W.Matches pair := by
  have hfound : ∀ {pair}, usable o.stored = some pair → Fit W pair := fun hpair =>
    ⟨stored_of_usable hpair ▸ hpair, hstored _ hpair⟩
  have hminted : ∀ material, Fit W (mint material) := fun m => ⟨usable_mint m, hmint m⟩
  have hsame : ∀ {pair pair' : CryptoKeyPair}, Fit W pair → some pair = some pair' → Fit W pair' :=
    fun hfit heq => Option.some.inj heq ▸ hfit
  cases s with
  | opening => cases e <;> cases h <;> exact ⟨nofun, hstored⟩
  | reading =>
    cases e with
    | done =>
      simp only [goOn] at h
      split at h <;> cases h
      · rename_i existing hexisting
        exact ⟨fun _ => hsame (hfound hexisting), hstored⟩
      · exact ⟨nofun, hstored⟩
    | minted => cases h
    | failed =>
      cases h
      exact ⟨nofun, hstored⟩
  | minting =>
    cases e <;> cases h
    · exact ⟨fun _ => hsame (hminted _), hstored⟩
    · exact ⟨nofun, hstored⟩
  | racing candidate =>
    cases e with
    | done =>
      simp only [goOn] at h
      split_ifs at h
      split at h <;> cases h
      · rename_i race hrace
        exact ⟨fun _ => hsame (hfound hrace), hstored⟩
      · exact ⟨fun _ => hsame (hs candidate rfl), hstored⟩
    | minted => cases h
    | failed =>
      cases h
      exact ⟨nofun, hstored⟩
  | committing winner put =>
    cases e with
    | done =>
      cases h
      refine ⟨fun _ => hsame (hs winner rfl), fun pair hpair => ?_⟩
      cases put with
      | false => exact hstored pair hpair
      | true =>
        obtain rfl := Option.some.inj ((hs winner rfl).trusted.symm.trans hpair)
        exact (hs winner rfl).halves
    | minted => cases h
    | failed =>
      cases h
      exact ⟨nofun, hstored⟩
  | falling =>
    cases e <;> cases h
    · exact ⟨fun _ => hsame (hminted _), hstored⟩
    · exact ⟨nofun, hstored⟩
  | resolved pair durable => cases e <;> cases h
  | rejected => cases e <;> cases h

/-- What a load has settled with is for good. -/
theorem outcome_eq_none {s : Stage} {e : Event} {t : Turn} (h : goOn o.stored o.writer n s e = some t) :
    s.outcome = none := by
  cases s with
  | resolved pair durable => cases e <;> cases h
  | rejected => cases e <;> cases h
  | _ => rfl

/-- **What one step keeps.** -/
theorem Sound.moves (h : Sound W o) (hmint : ∀ material, W.Matches (mint material)) {a : Action}
    (hmoves : Moves W o a o') : Sound W o' := by
  cases hmoves with
  | load =>
    refine ⟨h.stored, fun p hp => ?_⟩
    rcases List.mem_append.1 hp with hp | hp
    · exact h.pages p hp
    · rw [List.mem_singleton.1 hp]
      exact ⟨nofun, nofun⟩
  | clear => exact ⟨nofun, h.pages⟩
  | @ask n p hp hopen q =>
    have hpage := h.pages p (List.mem_of_getElem? hp)
    refine h.put rfl ⟨fun s pair hs hpair => ?_, fun c hc a ha => ?_⟩ h.stored
    · cases hpromise : p.pairPromise with
      | none =>
        rw [hpromise] at hs
        cases hs
        cases hpair
      | some s' =>
        rw [hpromise] at hs
        cases hs
        exact hpage.fit _ pair hpromise hpair
    · rcases List.mem_append.1 hc with hc | hc
      · obtain ⟨r, hr, rfl⟩ := hpage.answered c hc a ha
        refine ⟨r, ?_, rfl⟩
        cases hpromise : p.pairPromise with
        | none =>
          rw [hpromise] at hr
          cases hr
        | some s =>
          rw [hpromise] at hr
          exact hr
      · rw [List.mem_singleton.1 hc] at ha
        cases ha
  | @goOn n p s e t hp hopen hs ht =>
    have hpage := h.pages p (List.mem_of_getElem? hp)
    obtain ⟨hfit, hstored⟩ := fit_goOn hmint h.stored (fun pair => hpage.fit s pair hs) ht
    refine h.put rfl ⟨fun s' pair hs' hpair => ?_, fun c hc a ha => ?_⟩ hstored
    · cases hs'
      exact hfit pair hpair
    · obtain ⟨r, hr, -⟩ := hpage.answered c hc a ha
      rw [hs] at hr
      cases (outcome_eq_none ht).symm.trans hr
  | @answer n k p q r hp hopen hcall hr =>
    have hpage := h.pages p (List.mem_of_getElem? hp)
    refine h.put rfl ⟨hpage.fit, fun c hc a ha => ?_⟩ h.stored
    rcases List.mem_or_eq_of_mem_set hc with hc | rfl
    · exact hpage.answered c hc a ha
    · exact ⟨r, hr, (Option.some.inj ha).symm⟩
  | @close n p hp hopen commits =>
    have hpage := h.pages p (List.mem_of_getElem? hp)
    refine h.put rfl ⟨hpage.fit, hpage.answered⟩ fun pair hpair => ?_
    dsimp only [Origin.afterClose] at hpair
    split at hpair
    · rename_i winner hs
      have hfit := hpage.fit _ winner hs rfl
      split_ifs at hpair
      · obtain rfl := Option.some.inj (hfit.trusted.symm.trans hpair)
        exact hfit.halves
      · exact h.stored pair hpair
    · exact h.stored pair hpair

/-- **What a page signs is verified with the public key that it gives**, in every run, whatever becomes
of the record: with the stored pair, and with a pair of its own where the database has failed it.

**Proof sketch.** `pairPromise` settles once, and every answer is about what it has settled with. -/
theorem answers_match {stored : Option Stored} {xs : List Action}
    (hmint : ∀ material, W.Matches (mint material))
    (hstored : ∀ pair, usable stored = some pair → W.Matches pair)
    (hrun : Run.run (step W) (.start stored) xs = some o) (hp : p ∈ o.pages) {key data sig : Bytes}
    (hkey : (⟨.publicKey, some (.ok key)⟩ : Call) ∈ p.calls)
    (hsig : (⟨.sign data, some (.ok sig)⟩ : Call) ∈ p.calls) : W.verify key data sig = true := by
  have hsound : Sound W o :=
    Run.run_inv_of_step (fun _ _ _ h hstep => h.moves hmint (step_cases hstep))
      (⟨hstored, fun _ hp => absurd hp List.not_mem_nil⟩ : Sound W (.start stored)) hrun
  have hpage := hsound.pages p hp
  obtain ⟨r, hr, hexported⟩ := hpage.answered _ hkey _ rfl
  obtain ⟨r', hr', hsigned⟩ := hpage.answered _ hsig _ rfl
  cases hr.symm.trans hr'
  cases r with
  | error e => cases hexported
  | ok pair =>
    obtain ⟨s, hs, hout⟩ := Option.bind_eq_some_iff.1 hr
    have hfit : Fit W pair := by
      cases s with
      | resolved pair' durable =>
        obtain rfl : pair' = pair := Except.ok.inj (Option.some.inj hout)
        exact hpage.fit _ pair' hs rfl
      | _ => cases hout
    refine hfit.halves key data sig ?_ ?_
    · cases hok : W.exportKey pair.publicKey with
      | error e => simp [respond, hok, Except.mapError, bind, Except.bind] at hexported
      | ok k =>
        simp only [respond, hok, Except.mapError, bind, Except.bind, Except.ok.injEq] at hexported
        rw [hexported]
    · cases hok : W.sign pair.privateKey data with
      | error e => simp [respond, hok, Except.mapError, bind, Except.bind] at hsigned
      | ok k =>
        simp only [respond, hok, Except.mapError, bind, Except.bind, Except.ok.injEq] at hsigned
        rw [hsigned]

/-- A page whose transaction is undone mints a pair of its own, and answers with it. -/
def fallsBack : List Action :=
  [.load, .ask 0 .publicKey, .goOn 0 .done, .goOn 0 .done, .goOn 0 (.minted 7), .goOn 0 .done,
    .ask 0 (.sign [1, 2]), .goOn 0 (.failed "quota"), .goOn 0 (.minted 9), .answer 0 1, .answer 0 0]

/-- The run to which `answers_match` is applied. -/
theorem answers_match_fallsBack :
    ∃ o p, Run.run (step crypto) (.start none) fallsBack = some o ∧ p ∈ o.pages ∧
      (⟨.publicKey, some (.ok [9])⟩ : Call) ∈ p.calls ∧
      (⟨.sign [1, 2], some (.ok [9, 1, 2])⟩ : Call) ∈ p.calls ∧
      crypto.verify [9] [1, 2] [9, 1, 2] = true := by
  have hmint : ∀ material, crypto.Matches (mint material) := by
    intro material key data sig hkey hsig
    cases hkey
    cases hsig
    simp [crypto, mint]
  refine ⟨_, _, rfl, List.mem_singleton.2 rfl, List.mem_cons_self, ?_, ?_⟩
  · exact List.mem_cons_of_mem _ List.mem_cons_self
  · exact @answers_match crypto _ _ none fallsBack hmint nofun rfl (List.mem_singleton.2 rfl) _ _ _
      List.mem_cons_self (List.mem_cons_of_mem _ List.mem_cons_self)

end SshIdentity
