import Wosh.Lib.Run
import Wosh.Passkey.Signature

set_option relaxedAutoImplicit false
set_option autoImplicit false

/-!
# The passkey store

The calls of `site/passkey-store.ts` that read and write the passkey identity of this browser, made by
any number of pages that share its database, in any order.

## Main definitions

* `Passkey.StoredIdentity` — the record.
* `Passkey.Origin` — the database, what each page keeps in memory, and the calls in flight.
* `Passkey.step` — a call is made, goes on with what it awaited, or writes.
* `Passkey.Origin.Upheld` — no update is lost or undone.
* `Passkey.Current` — an assert writes where its record still stands.

## Main results

* `Passkey.upheld_iff` — a run upholds the updates exactly if no assert writes back a record that has
  been replaced, forgotten or taught something since it was loaded.

## Design

A transaction of IndexedDB is one step, at its commit. Where the database cannot be opened, a page reads
and writes a variable of its own, which is a second place where an identity can be stored.
-/

namespace Passkey

open Tunnel (Bytes)

/-! ## Records -/

/-- How a credential can be reached. -/
inductive Transport
  | internal | hybrid | usb | nfc | ble | smartCard
  | other (name : String)
deriving DecidableEq

structure PasskeyIdentity where
  publicKey : Bytes
  relyingParty : String
deriving DecidableEq

structure StoredIdentity where
  credentialId : Option Bytes
  publicKey : Bytes
  rpId : String
  transports : Option (List Transport) := none
deriving DecidableEq

namespace StoredIdentity

/-- What `identity` answers of a record. -/
def identity (rec : StoredIdentity) : PasskeyIdentity := ⟨rec.publicKey, rec.rpId⟩

/-- A record in the database is only trusted if it is well formed. -/
def usable (rec : StoredIdentity) : Bool := rec.publicKey.length = 65

/-- The transports, of which there may be none. -/
def hints (rec : StoredIdentity) : List Transport := rec.transports.getD []

end StoredIdentity

/-! ## The browser -/

/-- The cryptography of the browser, which may reject with a message. -/
structure WebCrypto where
  Key : Type
  /-- `importKey("raw", …)` of P-256. -/
  importKey : Bytes → Except String Key
  /-- `importKey("spki", …)`, and `exportKey("raw", …)` of the key. -/
  rawOfSpki : Bytes → Except String Bytes
  /-- SHA-256. -/
  digest : Bytes → Bytes
  /-- `verify` of ECDSA with SHA-256. -/
  verify : Key → Bytes → Bytes → Except String Bool

/-- What `credentials.create` answers. -/
structure Registration where
  rawId : Bytes
  /-- `getPublicKey()`, if it is there. -/
  spki : Option Bytes
  /-- `getTransports()`, if it is there. -/
  transports : Option (List Transport)

/-- What `credentials.get` answers. -/
structure Assertion where
  rawId : Bytes
  authenticatorData : Bytes
  clientDataJson : Bytes
  signature : Bytes
  /-- `authenticatorAttachment === "platform"`. -/
  platform : Bool
deriving DecidableEq

/-- How an access to the database turns out. -/
inductive Access
  | opened
  /-- `openDb` rejects. -/
  | unavailable
  /-- The transaction does. -/
  | failed (e : String)

/-! ## What the calls compute -/

section Calls

variable (W : WebCrypto)

/-- Verify an assertion's signature against a public key (`verifyAssertion`). -/
def verifyAssertion (publicKey authenticatorData clientDataJson derSignature : Bytes) :
    Except String Bool := do
  let key ← W.importKey publicKey
  let signedOver := authenticatorData ++ W.digest clientDataJson
  match derToRawEcdsaSignature derSignature with
  | none => return false
  | some raw => W.verify key raw signedOver

/-- The record of a registration (`enroll`). -/
def enrolled (hostname : String) (cred : Except String (Option Registration)) :
    Except String StoredIdentity := do
  let some cred ← cred | throw "no credential returned"
  let some spki := cred.spki
    | throw "authenticator did not return a public key (getPublicKey unsupported or credential not ES256)"
  let publicKey ← W.rawOfSpki spki
  return ⟨some cred.rawId, publicKey, hostname,
    if cred.transports.getD [] ≠ [] then cred.transports else none⟩

/-- The record of a candidate that an assertion confirms (`adopt`). -/
def adopted (candidate : PasskeyIdentity) (cred : Except String (Option Assertion)) :
    Except String StoredIdentity := do
  let some cred ← cred | throw "no assertion returned"
  if ← verifyAssertion W candidate.publicKey cred.authenticatorData cred.clientDataJson
      cred.signature then
    return ⟨some cred.rawId, candidate.publicKey, candidate.relyingParty,
      if cred.platform then some [.internal] else none⟩
  else
    throw "the passkey selected does not match the claimed public key -- a different passkey was picked"

/-- The record with what a ceremony taught, if it taught anything. -/
def learned (rec : StoredIdentity) (cred : Assertion) : Option StoredIdentity :=
  let learnsId := rec.credentialId = none
  let learnsTransports := rec.hints = [] ∧ cred.platform = true
  if learnsId ∨ learnsTransports then
    some { rec with
      credentialId := if learnsId then some cred.rawId else rec.credentialId
      transports := if learnsTransports then some [.internal] else rec.transports }
  else none

/-- What is learned of a record from an assertion with it (`assert`). -/
def asserted (rec : StoredIdentity) (cred : Except String (Option Assertion)) :
    Except String (Assertion × Option StoredIdentity) := do
  let some cred ← cred | throw "no assertion returned"
  if ← verifyAssertion W rec.publicKey cred.authenticatorData cred.clientDataJson cred.signature then
    return (cred, learned rec cred)
  else
    throw "the signed assertion does not match the stored passkey -- a different passkey was selected"

end Calls

/-! ## The state -/

/-- A write to the store. -/
inductive Update
  /-- `enroll`, `adopt` and `remember`. -/
  | replace (rec : StoredIdentity)
  /-- `forget`. -/
  | clear
  /-- `assert`: the record it loaded, and the one that it saves. -/
  | learn (loaded rec : StoredIdentity)

/-- What is stored after it. -/
def Update.result : Update → Option StoredIdentity
  | replace rec => some rec
  | clear => none
  | learn _ rec => some rec

/-- What a call answers. -/
inductive Answer
  | done
  | identity (id : Option PasskeyIdentity)
  | assertion (cred : Assertion)

/-- Where a call stands, with what it awaits. -/
inductive Stage
  /-- `identity` and `assert`: the record. -/
  | reading
  | loading
  /-- `enroll`: the registration. -/
  | creating
  /-- `adopt`: the confirming ceremony. -/
  | confirming (candidate : PasskeyIdentity)
  /-- `assert`: the gate, and the ceremony. -/
  | gated (rec : StoredIdentity)
  | signing (rec : StoredIdentity)
  /-- The write, on behalf of a call that then answers. -/
  | writing (what : String) (u : Update) (answer : Answer)
  | settled (result : Except String Answer)

/-- A call of a page. -/
structure Running where
  page : ℕ
  stage : Stage

/-- Where an identity can be stored. -/
inductive Place
  | database
  /-- `memRecord` of a page. -/
  | memory (page : ℕ)
deriving DecidableEq

/-- A write that has happened. -/
structure Commit where
  place : Place
  /-- What was stored. -/
  before : Option StoredIdentity
  update : Update

/-- The pages of one origin in one browser. -/
structure Origin where
  /-- `location.hostname`. -/
  hostname : String
  stored : Place → Option StoredIdentity
  calls : List Running := []
  /-- History: the writes, in order. -/
  commits : List Commit := []

/-- The pages as they are loaded, on a database. -/
def Origin.start (hostname : String) (database : Option StoredIdentity) : Origin where
  hostname := hostname
  stored
    | .database => database
    | .memory _ => none

/-! ## Steps -/

/-- A call of the page's component. -/
inductive Call
  | identity
  | enroll
  | adopt (candidate : PasskeyIdentity)
  | forget
  | assert
  | remember (identity : PasskeyIdentity) (credentialId : Bytes)

/-- What a call goes on with. -/
inductive Event
  /-- `loadRecord` has had its access. -/
  | load (a : Access)
  /-- `credentials.create` is over. -/
  | created (cred : Except String (Option Registration))
  /-- `maybeGate` is over. -/
  | passed (r : Except String Unit)
  /-- `credentials.get` is over. -/
  | signed (cred : Except String (Option Assertion))

/-- What happens next. -/
inductive Action
  | call (page : ℕ) (c : Call)
  | resume (i : ℕ) (e : Event)
  /-- `saveRecord` or `clearRecord` has had its access. -/
  | write (i : ℕ) (a : Access)

/-- Failures cross the boundary as texts. -/
def errArm (what : String) {α : Type} (r : Except String α) : Except String α :=
  r.mapError fun e => what ++ ": " ++ e

/-- Where a call begins. -/
def begin (hostname : String) : Call → Stage
  | .identity => .reading
  | .enroll => .creating
  | .adopt candidate =>
    if candidate.relyingParty ≠ hostname then
      .settled (errArm "passkey adopt" (.error ("passkey is scoped to \"" ++ candidate.relyingParty ++
        "\", not this site (\"" ++ hostname ++ "\")")))
    else .confirming candidate
  | .forget => .writing "passkey forget" .clear .done
  | .assert => .loading
  | .remember identity credentialId =>
    .writing "passkey remember"
      (.replace { credentialId, publicKey := identity.publicKey, rpId := identity.relyingParty }) .done

/-- The place that an access reaches. -/
def placeOf (page : ℕ) : Access → Except String Place
  | .opened => .ok .database
  | .unavailable => .ok (.memory page)
  | .failed e => .error e

/-- `loadRecord`. -/
def loadRecord (o : Origin) (page : ℕ) (a : Access) : Except String (Option StoredIdentity) := do
  match ← placeOf page a with
  | .database => return (o.stored .database).filter StoredIdentity.usable
  | .memory page => return o.stored (.memory page)

/-- A call that fails, or goes on with a value. -/
def proceed {α : Type} (what : String) (r : Except String α) (next : α → Stage) : Stage :=
  match errArm what r with
  | .ok a => next a
  | .error e => .settled (.error e)

/-- Where a call stands after what it awaited. -/
def resume (W : WebCrypto) (o : Origin) (page : ℕ) : Stage → Event → Option Stage
  | .reading, .load a =>
    some (proceed "passkey identity" (loadRecord o page a) fun rec =>
      .settled (.ok (.identity (rec.map StoredIdentity.identity))))
  | .loading, .load a =>
    some (proceed "passkey assert"
      (loadRecord o page a >>= fun rec => rec.elim (.error "no passkey enrolled") .ok) .gated)
  | .creating, .created cred =>
    some (proceed "passkey enroll" (enrolled W o.hostname cred) fun rec =>
      .writing "passkey enroll" (.replace rec) (.identity (some rec.identity)))
  | .confirming candidate, .signed cred =>
    some (proceed "passkey adopt" (adopted W candidate cred) fun rec =>
      .writing "passkey adopt" (.replace rec) .done)
  | .gated rec, .passed r => some (proceed "passkey assert" r fun _ => .signing rec)
  | .signing rec, .signed cred =>
    some (proceed "passkey assert" (asserted W rec cred) fun r =>
      match r.2 with
      | none => .settled (.ok (.assertion r.1))
      | some rec' => .writing "passkey assert" (.learn rec rec') (.assertion r.1))
  | _, _ => none

/-- A write reaches a place. -/
def Origin.commit (o : Origin) (p : Place) (u : Update) : Origin :=
  { o with
    stored := Function.update o.stored p u.result
    commits := o.commits ++ [⟨p, o.stored p, u⟩] }

/-- A call goes on. -/
def Origin.moveTo (o : Origin) (i page : ℕ) (s : Stage) : Origin :=
  { o with calls := o.calls.set i ⟨page, s⟩ }

/-- One step. -/
def step (W : WebCrypto) (o : Origin) : Action → Option Origin
  | .call page c => some { o with calls := o.calls ++ [⟨page, begin o.hostname c⟩] }
  | .resume i e =>
    match o.calls[i]? with
    | none => none
    | some c => (resume W o c.page c.stage e).map (o.moveTo i c.page)
  | .write i a =>
    match o.calls[i]? with
    | some ⟨page, .writing what u answer⟩ =>
      match placeOf page a with
      | .ok p => some ((o.commit p u).moveTo i page (.settled (.ok answer)))
      | .error e => some (o.moveTo i page (.settled (errArm what (.error e))))
    | _ => none

/-! ## What updates are to do -/

/-- A record has the credential id and the transports that another has. -/
def StoredIdentity.Keeps (rec cur : StoredIdentity) : Prop :=
  (∀ id, cur.credentialId = some id → rec.credentialId = some id) ∧ cur.hints ⊆ rec.hints

/-- The identity at a place, after one more write by `enroll`, `adopt`, `remember` or `forget`. -/
def afterCommit (p : Place) (id : Option PasskeyIdentity) (c : Commit) : Option PasskeyIdentity :=
  if c.place = p then
    match c.update with
    | .replace rec => some rec.identity
    | .clear => none
    | .learn _ _ => id
  else id

/-- What the last of these writes has left at a place. -/
def lastWritten (p : Place) (initial : Option PasskeyIdentity) (commits : List Commit) :
    Option PasskeyIdentity :=
  commits.foldl (afterCommit p) initial

/-- The identity that is stored. -/
def Origin.identityAt (o : Origin) (p : Place) : Option PasskeyIdentity :=
  (o.stored p).map StoredIdentity.identity

/-- The write of an assert adds to a record of the identity that it was run for. -/
def Commit.Adds (c : Commit) : Prop :=
  ∀ loaded rec, c.update = .learn loaded rec → ∃ cur, c.before = some cur ∧
    cur.identity = loaded.identity ∧ rec.identity = cur.identity ∧ rec.Keeps cur

/-- No update is lost or undone on the way from one state to another. -/
structure Origin.Upheld (o₀ o : Origin) : Prop where
  last : ∀ p, o.identityAt p = lastWritten p (o₀.identityAt p) o.commits
  adds : ∀ c ∈ o.commits, c.Adds

/-- An assert that writes finds, where it writes, a record of the identity that it loaded, which has no
credential id and no transport but those that it has loaded or learned itself. -/
def Current (o : Origin) (a : Action) : Prop :=
  ∀ i access page what loaded rec answer p, a = .write i access →
    o.calls[i]? = some ⟨page, .writing what (.learn loaded rec) answer⟩ →
      placeOf page access = .ok p →
        ∃ cur, o.stored p = some cur ∧ cur.identity = loaded.identity ∧ rec.Keeps cur

/-- A call has settled. -/
def Stage.isSettled : Stage → Bool
  | settled _ => true
  | _ => false

/-- No update is lost or undone once all calls have settled, whatever the order of steps. -/
def UpdatesKept : Prop :=
  ∀ (W : WebCrypto) (hostname : String) (database : Option StoredIdentity) (as : List Action)
    (o : Origin), Run.run (step W) (.start hostname database) as = some o →
      (o.calls.all fun c => c.stage.isSettled) = true →
        (Origin.start hostname database).Upheld o

/-! ## What a step does -/

variable {W : WebCrypto} {o o' o₀ : Origin} {a : Action}

/-- **The steps**: a call is made, a call goes on, a write is committed, or it fails. -/
theorem step_cases (h : step W o a = some o') :
    (∃ page c, a = .call page c ∧
      o' = { o with calls := o.calls ++ [⟨page, begin o.hostname c⟩] }) ∨
    (∃ i e c s, a = .resume i e ∧ o.calls[i]? = some c ∧ resume W o c.page c.stage e = some s ∧
      o' = o.moveTo i c.page s) ∨
    (∃ i access page what u answer p, a = .write i access ∧
      o.calls[i]? = some ⟨page, .writing what u answer⟩ ∧ placeOf page access = .ok p ∧
      o' = (o.commit p u).moveTo i page (.settled (.ok answer))) ∨
    (∃ i access page result, a = .write i access ∧ o' = o.moveTo i page (.settled result)) := by
  cases a with
  | call page c => exact .inl ⟨page, c, rfl, (Option.some.inj h).symm⟩
  | resume i e =>
    rw [step] at h
    cases hc : o.calls[i]? with
    | none =>
      rw [hc] at h
      cases h
    | some c =>
      rw [hc] at h
      obtain ⟨s, hs, rfl⟩ := Option.map_eq_some_iff.1 h
      exact .inr (.inl ⟨i, e, c, s, rfl, hc, hs, rfl⟩)
  | write i access =>
    rw [step] at h
    split at h
    next page what u answer hc =>
      cases hp : placeOf page access with
      | ok p =>
        rw [hp] at h
        exact .inr (.inr (.inl ⟨i, access, page, what, u, answer, p, rfl, hc, hp,
          (Option.some.inj h).symm⟩))
      | error e =>
        rw [hp] at h
        exact .inr (.inr (.inr ⟨i, access, page, _, rfl, (Option.some.inj h).symm⟩))
    next => cases h

/-- What is learned of a record is of the same identity. -/
theorem identity_of_learned {rec rec' : StoredIdentity} {cred : Assertion}
    (h : learned rec cred = some rec') : rec'.identity = rec.identity := by
  rw [learned] at h
  split_ifs at h
  all_goals
    obtain rfl := Option.some.inj h
    rfl

/-- A stage in which what an assert has learned is written is of one identity. -/
def Stage.Sound (s : Stage) : Prop :=
  ∀ what loaded rec answer, s = .writing what (.learn loaded rec) answer →
    rec.identity = loaded.identity

theorem sound_settled (r : Except String Answer) : (Stage.settled r).Sound := by
  rintro _ _ _ _ ⟨⟩

/-- All other writes are. -/
theorem sound_writing {what : String} {u : Update} {answer : Answer}
    (h : ∀ loaded rec, u ≠ .learn loaded rec) : (Stage.writing what u answer).Sound := by
  intro what' loaded rec answer' hs
  exact absurd (Stage.writing.inj hs).2.1 (h loaded rec)

theorem sound_proceed {α : Type} {what : String} {r : Except String α} {next : α → Stage}
    (h : ∀ a, r = .ok a → (next a).Sound) : (proceed what r next).Sound := by
  rw [proceed]
  cases r with
  | error e => exact sound_settled _
  | ok a => exact h a rfl

theorem sound_begin (hostname : String) (c : Call) : (begin hostname c).Sound := by
  cases c with
  | adopt candidate =>
    rw [begin]
    split_ifs
    · exact sound_settled _
    · rintro _ _ _ _ ⟨⟩
  | forget => exact sound_writing (by rintro _ _ ⟨⟩)
  | remember identity credentialId => exact sound_writing (by rintro _ _ ⟨⟩)
  | _ => rintro _ _ _ _ ⟨⟩

/-- What is learned from an assertion. -/
theorem asserted_eq_ok {rec rec' : StoredIdentity} {cred : Except String (Option Assertion)}
    {answer : Assertion} (h : asserted W rec cred = .ok (answer, some rec')) :
    learned rec answer = some rec' := by
  rw [asserted] at h
  obtain ⟨cred, -, h⟩ := Fallible.bind_eq_ok.1 h
  cases cred with
  | none => cases h
  | some cred =>
    obtain ⟨verified, -, h⟩ := Fallible.bind_eq_ok.1 h
    split_ifs at h
    obtain ⟨rfl, hlearned⟩ := Prod.mk.inj (Fallible.pure_eq_ok.1 h)
    exact hlearned

/-- Only an assert learns. -/
theorem sound_resume {page : ℕ} {s s' : Stage} {e : Event} (h : resume W o page s e = some s') :
    s'.Sound := by
  unfold resume at h
  split at h
  case h_6 rec cred =>
    obtain rfl := Option.some.inj h
    refine sound_proceed fun r hr => ?_
    obtain ⟨answer, rec'⟩ := r
    cases rec' with
    | none => exact sound_settled _
    | some rec' =>
      rintro what loaded rec'' answer' hs
      obtain ⟨-, hu, -⟩ := Stage.writing.inj hs
      obtain ⟨rfl, rfl⟩ := Update.learn.inj hu
      exact identity_of_learned (asserted_eq_ok hr)
  case h_7 => cases h
  all_goals
    obtain rfl := Option.some.inj h
    refine sound_proceed fun r _ => ?_
    first
      | exact sound_writing (by rintro _ _ ⟨⟩)
      | rintro _ _ _ _ ⟨⟩

/-! ## The invariant -/

/-- What is in flight is sound, and so far the updates are upheld. -/
structure Holds (o₀ o : Origin) : Prop where
  sound : ∀ c ∈ o.calls, c.stage.Sound
  upheld : o₀.Upheld o

theorem Origin.stored_commit (o : Origin) (p : Place) (u : Update) :
    (o.commit p u).stored = Function.update o.stored p u.result := rfl

/-- **A write leaves at its place the identity that it is to leave there**, if what is learned is learned
of the identity that is there. -/
theorem identityAt_commit {p : Place} {u : Update}
    (hlearn : ∀ loaded rec, u = .learn loaded rec → o.identityAt p = some rec.identity) (q : Place) :
    (o.commit p u).identityAt q = afterCommit q (o.identityAt q) ⟨p, o.stored p, u⟩ := by
  by_cases hq : p = q
  · subst hq
    rw [Origin.identityAt, Origin.stored_commit, Function.update_self, afterCommit, if_pos rfl]
    cases u with
    | replace rec => rfl
    | clear => rfl
    | learn loaded rec => exact (hlearn loaded rec rfl).symm
  · rw [Origin.identityAt, Origin.stored_commit, Function.update_of_ne (Ne.symm hq), afterCommit,
      if_neg hq]
    rfl

/-- A call goes on, and stays sound. -/
theorem sound_moveTo {i page : ℕ} {s : Stage} (h : ∀ c ∈ o.calls, c.stage.Sound) (hs : s.Sound) :
    ∀ c ∈ (o.moveTo i page s).calls, c.stage.Sound := by
  intro c hc
  rcases List.mem_or_eq_of_mem_set hc with hc | rfl
  · exact h c hc
  · exact hs

/-- **What one step keeps.** -/
theorem Holds.step (h : Holds o₀ o) (hcurrent : Current o a) (hstep : Passkey.step W o a = some o') :
    Holds o₀ o' := by
  obtain ⟨page, c, rfl, rfl⟩ | ⟨i, e, c, s, rfl, hc, hs, rfl⟩ |
    ⟨i, access, page, what, u, answer, p, rfl, hc, hp, rfl⟩ | ⟨i, access, page, result, rfl, rfl⟩ :=
      step_cases hstep
  · refine ⟨fun c' hc' => ?_, h.upheld.last, h.upheld.adds⟩
    rcases List.mem_append.1 hc' with hc' | hc'
    · exact h.sound c' hc'
    · rw [List.mem_singleton.1 hc']
      exact sound_begin _ _
  · exact ⟨sound_moveTo h.sound (sound_resume hs), h.upheld.last, h.upheld.adds⟩
  · have hsound := h.sound _ (List.mem_of_getElem? hc)
    refine ⟨sound_moveTo h.sound (sound_settled _), fun q => ?_, fun c' hc' => ?_⟩
    · have hcommit := identityAt_commit (o := o) (p := p) (u := u) (fun loaded rec hu => ?_) q
      · rw [h.upheld.last q] at hcommit
        refine hcommit.trans ?_
        exact (List.foldl_concat ..).symm
      · subst hu
        obtain ⟨cur, hcur, hidentity, -⟩ := hcurrent i access page what loaded rec answer p rfl hc hp
        rw [Origin.identityAt, hcur, hsound what loaded rec answer rfl, ← hidentity]
        rfl
    · rcases List.mem_append.1 hc' with hc' | hc'
      · exact h.upheld.adds c' hc'
      · rw [List.mem_singleton.1 hc']
        rintro loaded rec rfl
        obtain ⟨cur, hcur, hidentity, hkeeps⟩ :=
          hcurrent i access page what loaded rec answer p rfl hc hp
        exact ⟨cur, hcur, hidentity, (hsound what loaded rec answer rfl).trans hidentity.symm, hkeeps⟩
  · exact ⟨sound_moveTo h.sound (sound_settled _), h.upheld.last, h.upheld.adds⟩

/-- The history only grows. -/
theorem commits_step (hstep : Passkey.step W o a = some o') : o.commits <+: o'.commits := by
  obtain ⟨page, c, rfl, rfl⟩ | ⟨i, e, c, s, rfl, hc, hs, rfl⟩ |
    ⟨i, access, page, what, u, answer, p, rfl, hc, hp, rfl⟩ | ⟨i, access, page, result, rfl, rfl⟩ :=
      step_cases hstep
  · exact List.prefix_rfl
  · exact List.prefix_rfl
  · exact List.prefix_append _ _
  · exact List.prefix_rfl

theorem commits_run {as : List Action} (h : Run.run (Passkey.step W) o as = some o') :
    o.commits <+: o'.commits :=
  Run.run_mono (R := fun s t : Origin => s.commits <+: t.commits) (fun _ => List.prefix_rfl)
    (fun _ _ _ hst htu => hst.trans htu) (fun _ _ _ hs => commits_step hs) h

/-- A write that is on record as an addition was made where the record still stood. -/
theorem current_of_adds (hstep : Passkey.step W o a = some o') (h : ∀ c ∈ o'.commits, c.Adds) :
    Current o a := by
  rintro i access page what loaded rec answer p rfl hc hp
  have hnext : o' = (o.commit p (.learn loaded rec)).moveTo i page (.settled (.ok answer)) := by
    simp only [Passkey.step, hc, hp, Option.some.injEq] at hstep
    exact hstep.symm
  have hmem : (⟨p, o.stored p, .learn loaded rec⟩ : Commit) ∈ o'.commits := by
    rw [hnext]
    exact List.mem_append_right _ (List.mem_singleton_self _)
  obtain ⟨cur, hcur, hidentity, -, hkeeps⟩ := h _ hmem loaded rec rfl
  exact ⟨cur, hcur, hidentity, hkeeps⟩

/-- **No update is lost or undone** in a run exactly if each assert that writes finds, where it writes, a
record of the identity that it loaded, with no credential id and no transport that it does not have.

**Proof sketch.** Along such a run each write leaves the identity that it is to leave. In any other run,
the write of an assert is no addition, and stays on record. -/
theorem upheld_iff (W : WebCrypto) (hostname : String) (database : Option StoredIdentity)
    {as : List Action} {o : Origin}
    (h : Run.run (step W) (.start hostname database) as = some o) :
    (Origin.start hostname database).Upheld o ↔
      Run.Along (step W) Current (.start hostname database) as := by
  constructor
  · intro hupheld
    have hadds : ∀ bs u, bs <+: as → Run.run (step W) (.start hostname database) bs = some u →
        ∀ c ∈ u.commits, c.Adds := by
      rintro bs u ⟨cs, rfl⟩ hu c hc
      obtain ⟨u', hu', hrest⟩ := Run.exists_run_take h
      obtain rfl : u = u' := Option.some.inj (hu.symm.trans hu')
      exact hupheld.adds c ((commits_run hrest).subset hc)
    have hnext : ∀ (u : Origin) (b : Action) (u' : Origin), True → step W u b = some u' →
        (∀ c ∈ u'.commits, c.Adds) → Current u b := fun _ _ _ _ hu => current_of_adds hu
    exact Run.Along.of_reached (fun _ _ _ _ _ => trivial) hnext trivial h hadds
  · intro halong
    have hstart : Holds (.start hostname database) (.start hostname database) :=
      ⟨fun _ hc => absurd hc List.not_mem_nil, fun _ => rfl, fun _ hc => absurd hc List.not_mem_nil⟩
    exact (Run.run_inv (fun _ _ _ hP hC hs => hP.step hC hs) hstart halong h).upheld

/-! ## Two runs -/

namespace Sample

open WebauthnSsh (Generator.table Generator.point Generator.first)

/-- The arithmetic of a ceremony with the private key 1. -/
@[reducible] def crypto : WebCrypto where
  Key := Bytes
  importKey point := if point.length = 65 then .ok point else .error "Invalid key length"
  rawOfSpki _ := .error "Invalid keyData"
  digest := Generator.table.digest
  verify point raw signedOver := .ok
    (Generator.table.verifyPrehash point (Generator.table.digest signedOver) (raw.take 32, raw.drop 32))

/-- What the ceremony answers. -/
def cred : Assertion where
  rawId := [7]
  authenticatorData := Generator.first.authenticatorData
  clientDataJson := Generator.first.clientDataJson
  signature := Generator.first.signature
  platform := true

/-- The identity, and what is remembered of it. -/
def passkey : PasskeyIdentity := ⟨Generator.point, "wosh.example"⟩

def remembered : StoredIdentity := ⟨some [7], Generator.point, "wosh.example", none⟩

/-- What the ceremony teaches. -/
def taught : StoredIdentity := { remembered with transports := some [.internal] }

/-- A page remembers a passkey, and another asks it for a signature. -/
def quiet : List Action :=
  [.call 0 (.remember passkey [7]), .write 0 .opened, .call 1 .assert, .resume 1 (.load .opened),
    .resume 1 (.passed (.ok ())), .resume 1 (.signed (.ok (some cred))), .write 1 .opened]

/-- The same, but the first page forgets the passkey while the second one awaits the ceremony. -/
def revived : List Action :=
  [.call 0 (.remember passkey [7]), .write 0 .opened, .call 1 .assert, .resume 1 (.load .opened),
    .resume 1 (.passed (.ok ())), .call 0 .forget, .write 2 .opened,
    .resume 1 (.signed (.ok (some cred))), .write 1 .opened]

end Sample

open Sample

/-- While nobody else writes, no assert finds its record replaced, and what it learned is stored. -/
theorem upheld_iff_quiet : (∃ o, Run.run (step crypto) (.start "wosh.example" none) quiet = some o ∧
      o.stored .database = some taught) ∧
    Run.Along (step crypto) Current (.start "wosh.example" none) quiet := by
  obtain ⟨o, ho⟩ : ∃ o, Run.run (step crypto) (.start "wosh.example" none) quiet = some o :=
    Option.isSome_iff_exists.1 (by rfl)
  have hstored : (Run.run (step crypto) (.start "wosh.example" none) quiet).map
      (fun o => o.stored .database) = some (some taught) := by rfl
  have hmemory : ∀ page, (Run.run (step crypto) (.start "wosh.example" none) quiet).map
      (fun o => o.stored (.memory page)) = some none := fun page => by rfl
  have hcommits : (Run.run (step crypto) (.start "wosh.example" none) quiet).map
      (fun o => o.commits) = some [⟨.database, none, .replace remembered⟩,
        ⟨.database, some remembered, .learn remembered taught⟩] := by rfl
  rw [ho] at hstored hcommits
  have hdatabase : o.stored .database = some taught := Option.some.inj hstored
  have hlog : o.commits = [⟨.database, none, .replace remembered⟩,
      ⟨.database, some remembered, .learn remembered taught⟩] := Option.some.inj hcommits
  refine ⟨⟨o, ho, hdatabase⟩, (upheld_iff crypto "wosh.example" none ho).1 ⟨fun p => ?_, ?_⟩⟩
  · rw [hlog]
    cases p with
    | database =>
      rw [Origin.identityAt, hdatabase]
      rfl
    | memory page =>
      have hpage := hmemory page
      rw [ho] at hpage
      have hnone : o.stored (.memory page) = none := Option.some.inj hpage
      rw [Origin.identityAt, hnone]
      rfl
  · rw [hlog]
    intro c hc
    rcases List.mem_pair.1 hc with rfl | rfl
    · nofun
    · intro loaded rec hu
      obtain ⟨rfl, rfl⟩ := Update.learn.inj hu
      exact ⟨remembered, rfl, rfl, rfl, fun id hid => hid, List.nil_subset _⟩

/-- A passkey that was forgotten during a ceremony is back after it. -/
theorem not_updatesKept : ¬ UpdatesKept := by
  intro h
  obtain ⟨o, ho⟩ : ∃ o, Run.run (step crypto) (.start "wosh.example" none) revived = some o :=
    Option.isSome_iff_exists.1 (by rfl)
  have hsettled : (Run.run (step crypto) (.start "wosh.example" none) revived).map
      (fun o => o.calls.all fun c => c.stage.isSettled) = some true := by rfl
  have hstored : (Run.run (step crypto) (.start "wosh.example" none) revived).map
      (fun o => o.identityAt .database) = some (some passkey) := by rfl
  have hwritten : (Run.run (step crypto) (.start "wosh.example" none) revived).map
      (fun o => lastWritten .database none o.commits) = some none := by rfl
  rw [ho] at hsettled hstored hwritten
  have hpasskey : o.identityAt .database = some passkey := Option.some.inj hstored
  have hnone : lastWritten .database none o.commits = none := Option.some.inj hwritten
  have hlast := (h crypto "wosh.example" none revived o ho (Option.some.inj hsettled)).last .database
  rw [hpasskey] at hlast
  cases hlast.trans hnone

end Passkey
