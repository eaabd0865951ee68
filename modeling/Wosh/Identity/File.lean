import Wosh.Identity.Blob
import Wosh.Lib.Fallible
import Wosh.Lib.Run

set_option relaxedAutoImplicit false
set_option autoImplicit false

/-!
# The identity file of the listener

`load_or_create` of `listener-core/src/identity.rs`, in listeners that are started one after the other
on one directory, any of which may crash at any point.

## Main definitions

* `Identity.File.Host` — the files of the directory, and the listener that is being started.
* `Identity.File.step` — the transition function.
* `Identity.File.Persistent` — the identity that a directory is to keep.

## Main results

* `Identity.File.stable` — the file is never torn and never replaced, and every listener that comes up
  has the identity that it keeps.

## Design

A crash stops the listener between two operations on the files, one of which is to write some of the
bytes; what has been written stays. Only one listener at a time is in `load_or_create`.
-/

namespace Identity.File

open Tunnel (Bytes)

variable (K : Keys)

/-! ## Messages -/

def identityPath : String := "wosh-data/identity"

def tmpPath : String := identityPath ++ ".tmp"

/-- What is said where the directory is not there. -/
def hint : String :=
  " (run via a matching wosh-listener host, which mounts the identity dir -- or pass --ephemeral-identity)"

/-- What `load` says of a blob. -/
def loadError : Reject → String
  | .truncated => identityPath ++ ": truncated identity file"
  | .unsupported v => identityPath ++ ": unsupported identity file version " ++ toString v.toNat
  | .signing e => identityPath ++ ": importing signing key: " ++ e
  | .verifying e => identityPath ++ ": importing public key: " ++ e
  | .pair e => identityPath ++ ": key pair rejected: " ++ e

/-- The identity of the bytes of the file. -/
def load (bytes : Bytes) : Except String K.Ident := (fromBlob K bytes).mapError loadError

/-- What is written of a pair. -/
def exported (p : K.Pair) : Except String Bytes := do
  let pkcs8 ← (K.exportPkcs8 p.1.1).mapError fun e => "exporting signing key: " ++ e
  let pubRaw ← (K.exportRaw p.1.2).mapError fun e => "exporting public key: " ++ e
  Fallible.require (pubRaw.length = pubkeyLen)
    ("public key is " ++ toString pubRaw.length ++ " bytes, expected " ++ toString pubkeyLen)
  return blob pubRaw pkcs8

/-- The identity of a pair that was generated. -/
def generated (p : K.Pair) : Except String K.Ident :=
  (K.fromKeys p.1.1 p.1.2).mapError fun e => "identity from generated keys: " ++ e

/-! ## The state -/

/-- Where a listener stands in `load_or_create`, with what it does next. -/
inductive Stage
  /-- `identity_generate`, without any file. -/
  | ephemeral
  | reading
  | importing (bytes : Bytes)
  | generating
  | exporting (p : K.Pair)
  /-- `fs::write` opens the file, and writes to it. -/
  | opening (p : K.Pair) (buf : Bytes)
  | writing (p : K.Pair) (buf : Bytes)
  | moving (p : K.Pair) (buf : Bytes)
  /-- `from_keys`, of the pair that is on disk now. -/
  | probing (p : K.Pair)

/-- What is said where a stage fails. -/
def Stage.message {K : Keys} (e : String) : Stage K → String
  | ephemeral => "identity: " ++ e
  | reading => "reading " ++ identityPath ++ ": " ++ e ++ hint
  | importing _ => loadError (.signing e)
  | generating => "generating identity: " ++ e
  | exporting _ => "exporting signing key: " ++ e
  | opening _ _ | writing _ _ => "writing " ++ tmpPath ++ ": " ++ e ++ hint
  | moving _ _ => "renaming " ++ tmpPath ++ " into place: " ++ e
  | probing _ => "identity from generated keys: " ++ e

/-- How a start has turned out. -/
structure Start where
  ephemeral : Bool
  result : Except String K.Ident

structure Host where
  /-- The file at `IDENTITY_PATH`, and the one that is renamed to it. -/
  identity : Option Bytes
  tmp : Option Bytes
  starting : Option (Stage K) := none
  /-- History: how the starts have turned out, in order. -/
  starts : List (Start K) := []

/-- A directory before any listener is started on it. -/
def Host.fresh (identity tmp : Option Bytes) : Host K := { identity, tmp }

/-! ## Steps -/

/-- What a start goes on with. -/
inductive Event
  | done
  | identity (id : K.Ident)
  | pair (p : K.Pair)
  /-- Some bytes have been written. -/
  | wrote (n : ℕ)
  | failed (e : String)

inductive Action
  | start (ephemeral : Bool)
  | goOn (e : Event K)
  | crash

variable {K}

namespace Host

variable (h : Host K)

def moveTo (s : Stage K) : Host K := { h with starting := some s }

/-- `load_or_create` returns. -/
def finish (ephemeral : Bool) (r : Except String K.Ident) : Host K :=
  { h with starting := none, starts := h.starts ++ [⟨ephemeral, r⟩] }

/-- A start goes on. -/
def goOn (s : Stage K) : Event K → Option (Host K)
  | .identity id => if s matches .ephemeral then some (h.finish true (.ok id)) else none
  | .pair p => if s matches .generating then some (h.moveTo (.exporting p)) else none
  | .wrote n =>
    match s, h.tmp with
    | .writing p buf, some written =>
      some { h with
        tmp := some (written ++ (buf.drop written.length).take n)
        starting := some (.writing p buf) }
    | _, _ => none
  | .failed e => some (h.finish (s matches .ephemeral) (.error (s.message e)))
  | .done =>
    match s with
    | .reading =>
      match h.identity with
      | some bytes => some (h.moveTo (.importing bytes))
      | none => some (h.moveTo .generating)
    | .importing bytes => some (h.finish false (load K bytes))
    | .exporting p =>
      match exported K p with
      | .ok buf => some (h.moveTo (.opening p buf))
      | .error e => some (h.finish false (.error e))
    | .opening p buf => some { h with tmp := some [], starting := some (.writing p buf) }
    | .writing p buf => if h.tmp = some buf then some (h.moveTo (.moving p buf)) else none
    | .moving p _ => some { h with identity := h.tmp, tmp := none, starting := some (.probing p) }
    | .probing p => some (h.finish false (generated K p))
    | .ephemeral | .generating => none

end Host

/-- One step. -/
def step (h : Host K) : Action K → Option (Host K)
  | .start ephemeral =>
    match h.starting with
    | none => some (h.moveTo (if ephemeral then .ephemeral else .reading))
    | some _ => none
  | .goOn e => h.starting.bind fun s => h.goOn s e
  | .crash => some { h with starting := none }

/-! ## The file -/

/-- What is written of a pair is loaded as its identity. -/
theorem load_of_exported (hK : K.Lawful) {p : K.Pair} {bytes : Bytes} (h : exported K p = .ok bytes)
    {id : K.Ident} (hid : generated K p = .ok id) : load K bytes = .ok id := by
  obtain ⟨pkcs8, hpkcs8, h⟩ := Fallible.bind_eq_ok.1 h
  obtain ⟨pubRaw, hpub, h⟩ := Fallible.bind_eq_ok.1 h
  obtain ⟨hlen, h⟩ := Fallible.require_bind_eq_ok.1 h
  rw [← Fallible.pure_eq_ok.1 h, load, Fallible.mapError_eq_ok,
    hK.fromBlob p (Fallible.mapError_eq_ok.1 hpkcs8) (Fallible.mapError_eq_ok.1 hpub) hlen,
    Fallible.mapError_eq_ok]
  exact Fallible.mapError_eq_ok.1 hid

/-- What is written of a pair is the whole layout of it. -/
theorem split_of_exported (hK : K.Lawful) {p : K.Pair} {bytes : Bytes} (h : exported K p = .ok bytes) :
    ∃ pubRaw pkcs8, split bytes = .ok (pubRaw, pkcs8) := by
  obtain ⟨pkcs8, hpkcs8, h⟩ := Fallible.bind_eq_ok.1 h
  obtain ⟨pubRaw, hpub, h⟩ := Fallible.bind_eq_ok.1 h
  obtain ⟨hlen, h⟩ := Fallible.require_bind_eq_ok.1 h
  have hne := (hK p pkcs8 pubRaw (Fallible.mapError_eq_ok.1 hpkcs8) (Fallible.mapError_eq_ok.1 hpub)).1
  exact ⟨pubRaw, pkcs8, split_eq_ok.2 ⟨hlen, hne, (Fallible.pure_eq_ok.1 h).symm⟩⟩

/-- What is known where a start stands. -/
def StageSound (h : Host K) : Prop :=
  match h.starting with
  | none | some .ephemeral | some .reading => True
  | some (.importing bytes) => h.identity = some bytes
  | some .generating | some (.exporting _) => h.identity = none
  | some (.opening p buf) | some (.writing p buf) => h.identity = none ∧ exported K p = .ok buf
  | some (.moving p buf) => h.identity = none ∧ exported K p = .ok buf ∧ h.tmp = some buf
  | some (.probing p) => ∃ buf, h.identity = some buf ∧ exported K p = .ok buf

/-- The file is what it was, or the blob of a pair. -/
def Whole (initial : Option Bytes) (h : Host K) : Prop :=
  h.identity = initial ∨ initial = none ∧ ∃ p buf, h.identity = some buf ∧ exported K p = .ok buf

/-- Every listener that has come up has the identity of the file. -/
def Agree (h : Host K) : Prop :=
  ∀ x ∈ h.starts, x.ephemeral = false → ∀ id, x.result = .ok id →
    ∃ bytes, h.identity = some bytes ∧ load K bytes = .ok id

/-- The invariant. -/
structure Sound (initial : Option Bytes) (h : Host K) : Prop where
  stage : StageSound h
  whole : Whole initial h
  agree : Agree h

variable {initial : Option Bytes} {h h' : Host K} {s : Stage K}

/-- What is kept from one state to another: what is known, and the file, once it is there. -/
structure Keeps (initial : Option Bytes) (h h' : Host K) : Prop where
  sound : Sound initial h'
  file : ∀ bytes, h.identity = some bytes → h'.identity = some bytes

/-- A start goes on to something else. -/
theorem Sound.moveTo (hsound : Sound initial h) (hs : StageSound (h.moveTo s)) :
    Keeps initial h (h.moveTo s) := ⟨⟨hs, hsound.whole, hsound.agree⟩, fun _ => id⟩

/-- A start is over. -/
theorem Sound.finish (hsound : Sound initial h) {ephemeral : Bool} {r : Except String K.Ident}
    (hr : ephemeral = false → ∀ id, r = .ok id →
      ∃ bytes, h.identity = some bytes ∧ load K bytes = .ok id) :
    Keeps initial h (h.finish ephemeral r) := by
  refine ⟨⟨trivial, hsound.whole, fun x hx hpersistent id hid => ?_⟩, fun _ => id⟩
  rcases List.mem_append.1 hx with hx | hx
  · exact hsound.agree x hx hpersistent id hid
  · rw [List.mem_singleton.1 hx] at hpersistent hid
    exact hr hpersistent id hid

/-- Only the file that is to be renamed is written. -/
theorem Sound.write (hsound : Sound initial h) {tmp : Option Bytes}
    (hs : StageSound { h with tmp := tmp, starting := some s }) :
    Keeps initial h { h with tmp := tmp, starting := some s } :=
  ⟨⟨hs, hsound.whole, hsound.agree⟩, fun _ => id⟩

/-- **What one operation of a start keeps.** -/
theorem Sound.goOn (hK : K.Lawful) (hsound : Sound initial h) {e : Event K}
    (hs : h.starting = some s) (hgo : h.goOn s e = some h') : Keeps initial h h' := by
  have hstage := hsound.stage
  rw [StageSound, hs] at hstage
  cases e with
  | identity id =>
    simp only [Host.goOn] at hgo
    split_ifs at hgo
    cases hgo
    exact hsound.finish nofun
  | pair p =>
    simp only [Host.goOn] at hgo
    split_ifs at hgo with hmatch
    cases hgo
    cases s <;> cases hmatch
    exact hsound.moveTo hstage
  | wrote n =>
    simp only [Host.goOn] at hgo
    split at hgo <;> cases hgo
    exact hsound.write hstage
  | failed e =>
    cases hgo
    exact hsound.finish nofun
  | done =>
    cases s with
    | ephemeral => cases hgo
    | generating => cases hgo
    | reading =>
      simp only [Host.goOn] at hgo
      split at hgo <;> cases hgo
      · rename_i bytes hbytes
        exact hsound.moveTo hbytes
      · rename_i hnone
        exact hsound.moveTo hnone
    | importing bytes =>
      cases hgo
      exact hsound.finish fun _ id hid => ⟨bytes, hstage, hid⟩
    | exporting p =>
      simp only [Host.goOn] at hgo
      split at hgo <;> cases hgo
      · rename_i buf hbuf
        exact hsound.moveTo ⟨hstage, hbuf⟩
      · exact hsound.finish nofun
    | opening p buf =>
      cases hgo
      exact hsound.write hstage
    | writing p buf =>
      simp only [Host.goOn] at hgo
      split_ifs at hgo with htmp
      cases hgo
      exact hsound.moveTo ⟨hstage.1, hstage.2, htmp⟩
    | moving p buf =>
      -- nothing was at the path, and what is put there is all that was to be written
      cases hgo
      obtain ⟨hnone, hbuf, htmp⟩ := hstage
      have hinitial : initial = none := by
        rcases hsound.whole with heq | ⟨hinitial, -⟩
        · exact heq.symm.trans hnone
        · exact hinitial
      have hempty : ∀ {bytes}, h.identity ≠ some bytes := fun hbytes => nomatch hnone.symm.trans hbytes
      refine ⟨⟨⟨buf, htmp, hbuf⟩, .inr ⟨hinitial, p, buf, htmp, hbuf⟩, fun x hx hpersistent id hid => ?_⟩,
        fun _ hbytes => absurd hbytes hempty⟩
      obtain ⟨bytes, hbytes, -⟩ := hsound.agree x hx hpersistent id hid
      exact absurd hbytes hempty
    | probing p =>
      cases hgo
      obtain ⟨buf, hidentity, hbuf⟩ := hstage
      exact hsound.finish fun _ id hid => ⟨buf, hidentity, load_of_exported hK hbuf hid⟩

/-- **What one step keeps.** -/
theorem Sound.step (hK : K.Lawful) (hsound : Sound initial h) {a : Action K}
    (hstep : File.step h a = some h') : Keeps initial h h' := by
  cases a with
  | start ephemeral =>
    simp only [File.step] at hstep
    split at hstep <;> cases hstep
    refine hsound.moveTo ?_
    cases ephemeral <;> trivial
  | goOn e =>
    obtain ⟨s, hs, hgo⟩ := Option.bind_eq_some_iff.1 hstep
    exact hsound.goOn hK hs hgo
  | crash =>
    cases hstep
    exact ⟨⟨trivial, hsound.whole, hsound.agree⟩, fun _ => id⟩

theorem sound_fresh (initial tmp : Option Bytes) : Sound initial (Host.fresh K initial tmp) where
  stage := trivial
  whole := .inl rfl
  agree _ hx := absurd hx List.not_mem_nil

/-- **The identity is stable.** However many listeners are started on a directory one after the other,
and wherever they crash: the file is the one that was there, or it is the whole blob of a pair that one
of them has generated; once it is there it stays as it is; and every listener that comes up without
`--ephemeral-identity` has the identity that is loaded from it.

**Proof sketch.** The file comes into being by the renaming of one that is complete, where there was
none; and what is written of a pair is loaded as its identity. -/
theorem stable (hK : K.Lawful) {tmp : Option Bytes} {xs ys : List (Action K)} {h₁ h₂ : Host K}
    (hxs : Run.run File.step (Host.fresh K initial tmp) xs = some h₁)
    (hys : Run.run File.step h₁ ys = some h₂) :
    (h₂.identity = initial ∨ initial = none ∧ ∃ p bytes pubRaw pkcs8, h₂.identity = some bytes ∧
        exported K p = .ok bytes ∧ split bytes = .ok (pubRaw, pkcs8)) ∧
      (∀ bytes, h₁.identity = some bytes → h₂.identity = some bytes) ∧
      ∀ x ∈ h₂.starts, x.ephemeral = false → ∀ id, x.result = .ok id →
        ∃ bytes, h₂.identity = some bytes ∧ load K bytes = .ok id := by
  have hkeeps : ∀ {h₁ h₂ : Host K} {zs : List (Action K)}, Sound initial h₁ →
      Run.run File.step h₁ zs = some h₂ → Keeps initial h₁ h₂ := by
    intro h₁ h₂ zs hsound hrun
    refine Run.run_inv_of_step (P := Keeps initial h₁) (fun h a h' hP hstep => ?_)
      ⟨hsound, fun _ => id⟩ hrun
    have hnext := hP.sound.step hK hstep
    exact ⟨hnext.sound, fun bytes hbytes => hnext.file bytes (hP.file bytes hbytes)⟩
  have hlater := hkeeps (hkeeps (sound_fresh initial tmp) hxs).sound hys
  refine ⟨hlater.sound.whole.imp_right ?_, hlater.file, hlater.sound.agree⟩
  rintro ⟨hinitial, p, bytes, hbytes, hexported⟩
  obtain ⟨pubRaw, pkcs8, hsplit⟩ := split_of_exported hK hexported
  exact ⟨hinitial, p, bytes, pubRaw, pkcs8, hbytes, hexported, hsplit⟩

/-! ## A crash -/

/-- A listener is started for the first time, up to where it has written some of the bytes. -/
def writes (k : UInt8) (n : ℕ) : List (Action sample) :=
  [.start false, .goOn .done, .goOn (.pair (samplePair k)), .goOn .done, .goOn .done, .goOn (.wrote n)]

/-- It crashes there; the next one gets further, and crashes after it has renamed the file. -/
def crashes : List (Action sample) :=
  writes 7 20 ++ [.crash] ++ writes 8 35 ++ [.goOn .done, .goOn .done, .crash]

/-- The third one comes up. -/
def comesUp : List (Action sample) := [.start false, .goOn .done, .goOn .done]

/-- The runs to which `stable` is applied. -/
theorem stable_crashes :
    ∃ h₁ h₂ : Host sample, Run.run File.step (Host.fresh sample none none) crashes = some h₁ ∧
      Run.run File.step h₁ comesUp = some h₂ ∧ h₂.starts = [⟨false, .ok 8⟩] ∧
      ∃ bytes, h₂.identity = some bytes ∧ load sample bytes = .ok 8 :=
  ⟨_, _, rfl, rfl, rfl, (@stable sample none lawful_sample none crashes comesUp _ _ rfl rfl).2.2 _
    (List.mem_singleton.2 rfl) rfl 8 rfl⟩

end Identity.File
