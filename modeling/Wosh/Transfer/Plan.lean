import Wosh.Tunnel.Replay

set_option relaxedAutoImplicit false
set_option autoImplicit false

/-!
# The decisions of a transfer

The sans-I/O part of `wosh-client/src/transfer.rs`, and the loop that both directions share: where
an upload or a download resumes, how much may be in flight, when a loop may stop, and what follows
an attempt that was interrupted.

## Main definitions

* `Transfer.planUpload`, `Transfer.resumeAfterVerify`, `Transfer.planDownload`,
  `Transfer.checkIdentity` — the resume decisions.
* `Transfer.Budget`, `Transfer.Futility`, `Transfer.quiesceStep` — permits, patience, and the end of
  a loop.
* `Transfer.Session`, `Transfer.sessionHealth` — what a transfer sees of its session.
* `Transfer.Shared`, `Transfer.supervise` — the outer loop.
-/

namespace Transfer

open Tunnel (Bytes)

/-! ## Sizing constants -/

/-- The ceiling on unacknowledged in-flight transfer data of a session (`REPLAY_BUDGET_BYTES`). -/
def replayBudgetBytes : ℕ := 512 * 1024

/-- `DEFAULT_PAYLOAD`. -/
def defaultPayload : ℕ := 32000

/-- `MAX_PAYLOAD`. -/
def maxPayload : ℕ := 128 * 1024

/-- How much of the tail both ends re-read to agree on an upload resume point
(`TAIL_VERIFY_BYTES`). -/
def tailVerifyBytes : ℕ := 64 * 1024

/-- Flush the sink at least this often during a download (`FLUSH_EVERY_BYTES`). -/
def flushEveryBytes : ℕ := 4 * 1024 * 1024

/-- How many consecutive futile re-anchors end a transfer (`MAX_FUTILE_REANCHORS`). -/
def maxFutileReanchors : ℕ := 5

/-! ## Resume decisions -/

/-- What an upload should do once the remote path has been STATed. -/
inductive UploadPlan
  | fresh
  | verify (remoteLen tail : ℕ)
  | refuse (e : String)
deriving DecidableEq

/-- Decide an upload's opening move (`plan_upload`). -/
def planUpload (remote : Option ℕ) (localSize : ℕ) (overwrite : Bool) : UploadPlan :=
  if overwrite then .fresh
  else
    match remote with
    | none => .fresh
    | some r =>
      if r = 0 then .fresh
      else if localSize < r then
        .refuse ("the remote file is longer than the source (" ++ toString r ++
          " bytes against " ++ toString localSize ++
          "): refusing to guess -- retry with overwrite to replace it")
      else .verify r (min r tailVerifyBytes)

/-- Where an upload starts once the two tails have been compared. -/
inductive UploadStart
  | complete
  | append (offset : ℕ)
deriving DecidableEq

/-- Turn a tail comparison into a resume point (`resume_after_verify`). -/
def resumeAfterVerify (remoteLen localSize : ℕ) (tailsEqual : Bool) : Except String UploadStart :=
  if tailsEqual = false then
    .error ("the remote file's last bytes do not match the source at offset " ++
      toString remoteLen ++ ": it is a different file, or a previous upload tore -- retry with " ++
      "overwrite to replace it")
  else if remoteLen = localSize then .ok .complete
  else .ok (.append remoteLen)

/-- An upload that is complete has as long a remote file, and the tails agree. -/
theorem resumeAfterVerify_complete {remoteLen localSize : ℕ} {tailsEqual : Bool}
    (h : resumeAfterVerify remoteLen localSize tailsEqual = .ok .complete) :
    tailsEqual = true ∧ remoteLen = localSize := by
  unfold resumeAfterVerify at h
  split_ifs at h with hequal hlen <;> cases h
  exact ⟨by simpa using hequal, hlen⟩

/-- One that goes on, goes on at the end of the remote file. -/
theorem resumeAfterVerify_append {remoteLen localSize offset : ℕ} {tailsEqual : Bool}
    (h : resumeAfterVerify remoteLen localSize tailsEqual = .ok (.append offset)) :
    tailsEqual = true ∧ offset = remoteLen := by
  unfold resumeAfterVerify at h
  split_ifs at h with hequal hlen <;> cases h
  exact ⟨by simpa using hequal, rfl⟩

/-- The remote file's identity as captured at a download's first start. -/
structure RemoteId where
  size : ℕ
  mtime : Option ℕ
deriving DecidableEq

/-- Compare the remote's identity now against the one captured first (`check_identity`). -/
def checkIdentity (first now : RemoteId) : Except String Unit :=
  if first.size ≠ now.size then
    .error ("the remote file changed while the transfer was interrupted (it was " ++
      toString first.size ++ " bytes, it is now " ++ toString now.size ++
      "): refusing to splice two different files -- start the download again")
  else
    match first.mtime, now.mtime with
    | some a, some b =>
      if a ≠ b then
        .error ("the remote file was modified while the transfer was interrupted: refusing to " ++
          "splice two different files -- start the download again")
      else .ok ()
    | some _, none =>
      .error ("the remote file no longer reports a modification time, so the bytes already " ++
        "downloaded cannot be shown to belong to it -- start the download again")
    | none, _ => .ok ()

/-- What a download should do once the sink's anchor and the remote's size are both known. -/
inductive DownloadPlan
  | complete
  | start (offset : ℕ)
deriving DecidableEq

/-- Decide a download's opening move (`plan_download`). -/
def planDownload (committed remoteLen : ℕ) (overwrite : Bool) : Except String DownloadPlan :=
  if overwrite then
    if 0 < committed then
      .error ("overwrite needs an empty destination, but it already holds " ++
        toString committed ++ " bytes: this component's sink is append-only (see transfer-io) " ++
        "and cannot truncate it -- hand over a fresh destination")
    else .ok (.start 0)
  else if remoteLen < committed then
    .error ("the destination already holds more bytes than the remote file has (" ++
      toString committed ++ " against " ++ toString remoteLen ++
      "): it is not a prefix of this file -- start the download again into a fresh destination")
  else if committed = remoteLen then .ok .complete
  else .ok (.start committed)

/-- A download that starts, starts where its sink is committed. -/
theorem planDownload_start {committed remoteLen offset : ℕ} {overwrite : Bool}
    (h : planDownload committed remoteLen overwrite = .ok (.start offset)) :
    offset = committed := by
  unfold planDownload at h
  split_ifs at h <;> cases h
  · omega
  · rfl

/-- One that is complete is committed in full. -/
theorem planDownload_complete {committed remoteLen : ℕ} {overwrite : Bool}
    (h : planDownload committed remoteLen overwrite = .ok .complete) : committed = remoteLen := by
  unfold planDownload at h
  split_ifs at h <;> cases h
  assumption

/-- Payload size for one READ or WRITE (`payload_size`). -/
def payloadSize (advertised : Option ℕ) : ℕ :=
  match advertised with
  | some n => if 0 < n then min n maxPayload else defaultPayload
  | none => defaultPayload

/-- `payload_size` does not exceed `MAX_PAYLOAD`. -/
theorem payloadSize_le (advertised : Option ℕ) : payloadSize advertised ≤ maxPayload := by
  unfold payloadSize
  split
  · split_ifs
    · exact Nat.min_le_right _ _
    · decide
  · decide

/-! ## Permits and patience -/

/-- The session-wide pool of in-flight permits. -/
structure Budget where
  limit : ℕ := replayBudgetBytes
  outstanding : ℕ := 0
deriving DecidableEq

/-- May `n` more bytes go in flight anywhere on this session? -/
def Budget.admits (b : Budget) (n : ℕ) : Bool :=
  b.outstanding = 0 ∨ b.outstanding + n ≤ b.limit

/-- The consecutive-futility counter. -/
structure Futility where
  limit : ℕ := maxFutileReanchors
  strikes : ℕ := 0
  /-- The `done` count as of the last time progress was observed. -/
  mark : ℕ := 0
deriving DecidableEq

/-- Charge one re-anchor and say whether the transfer should give up. -/
def Futility.charge (f : Futility) (sessionWasReady : Bool) (done : ℕ) : Futility × Bool :=
  if f.mark < done then ({ f with mark := done, strikes := 0 }, false)
  else if sessionWasReady = false then (f, false)
  else ({ f with strikes := f.strikes + 1 }, f.limit ≤ f.strikes + 1)

/-- Why the engine stopped issuing new work. -/
inductive Stop
  | cancelled
  | dropped
deriving DecidableEq

/-- `stop_message`. -/
def stopMessage : Stop → String
  | .cancelled => "cancelled"
  | .dropped => "the transfer handle was dropped"

/-- Whether a transfer loop may stop at this round boundary, and with what verdict
(`quiesce_step`). -/
def quiesceStep (stop : Option Stop) (inflightEmpty allIssued : Bool) :
    Option (Except String Unit) :=
  if inflightEmpty = false then none
  else if allIssued then some (.ok ())
  else stop.map fun s => .error (stopMessage s)

/-- A loop that ends well has nothing in flight and nothing left to issue. -/
theorem quiesceStep_ok {stop : Option Stop} {inflightEmpty allIssued : Bool}
    (h : quiesceStep stop inflightEmpty allIssued = some (.ok ())) :
    inflightEmpty = true ∧ allIssued = true := by
  unfold quiesceStep at h
  split_ifs at h with hempty hissued
  · exact ⟨by simpa using hempty, hissued⟩
  · cases stop <;> cases h

/-! ## The session and the SFTP connection -/

/-- The status of the SSH core. -/
inductive CoreStatus
  | connecting
  | ready
  | closed (reason : String)
deriving DecidableEq

/-- What a transfer sees of its session. -/
structure Session where
  detached : Bool := false
  status : CoreStatus := .ready
  linkDown : Bool := false
  resuming : Bool := false
  stalled : Bool := false
deriving DecidableEq

/-- The session's one SFTP connection. -/
structure Sftp where
  /-- The server's limits, if it advertised any. -/
  readLen : Option ℕ := none
  writeLen : Option ℕ := none
  dead : Option String := none
deriving DecidableEq

/-- A STATUS that is not an error. -/
inductive StatusOutcome
  | ok
  | eof
deriving DecidableEq

/-- The response to a READ or a WRITE. -/
inductive Response
  | data (d : Bytes)
  | status (r : Except String StatusOutcome)
  /-- A response of another kind, with its description. -/
  | other (what : String)
deriving DecidableEq

/-- Where one outstanding request's answer will land. -/
inductive Slot
  | pending
  | ready (r : Response)
  | failed (e : String)
deriving DecidableEq

/-- An answer of the server to a READ. -/
inductive Reply
  /-- This many of the bytes that were asked for. -/
  | bytes (n : ℕ)
  | status (r : Except String StatusOutcome)
  | other (what : String)
deriving DecidableEq

/-- The description of a response (`describe`). -/
def describe : Response → String
  | .data _ => "data"
  | .status _ => "a status"
  | .other what => what

/-- Why an engine round cannot continue. -/
inductive Halt
  | fatal (e : String)
  | reanchor (e : String)
deriving DecidableEq

/-- What one attempt at a transfer concluded. -/
inductive Attempt
  | done
  | failed (e : String)
  | retry (e : String)
deriving DecidableEq

/-- `From<Halt>`. -/
def Halt.into : Halt → Attempt
  | .fatal e => .failed e
  | .reanchor e => .retry e

theorem Halt.into_ne_done (halt : Halt) : halt.into ≠ .done := by
  cases halt <;> simp [Halt.into]

/-- Turn a STATUS response into a plain result; the end of a file is not an error
(`expect_status`). -/
def expectStatus (what : String) : Response → Except Halt StatusOutcome
  | .status (.ok outcome) => .ok outcome
  | .status (.error e) => .error (.fatal (what ++ ": " ++ e))
  | resp =>
    .error (.fatal (what ++ ": the server answered with " ++ describe resp ++
      " instead of a status"))

/-- What surrounds a transfer: the session, its SFTP connection, and the permits that the other
transfers hold. -/
structure Env where
  session : Session := {}
  sftp : Option Sftp := some {}
  others : ℕ := 0
deriving DecidableEq

/-- The session's health, as of right now (`session_health`). -/
def sessionHealth (env : Env) : Except Halt Unit :=
  if env.session.detached then .error (.fatal "the session was detached")
  else
    match env.session.status with
    | .closed reason => .error (.fatal ("the session closed: " ++ reason))
    | _ =>
      if env.session.linkDown then
        .error (.fatal "the connection was lost and could not be resumed")
      else if env.session.resuming then .error (.reanchor "the transport is reconnecting")
      else
        match env.sftp.bind Sftp.dead with
        | some reason => .error (.reanchor reason)
        | none => .ok ()

/-- Queue a request; fails only when the connection is already dead (`submit`). -/
def submit (env : Env) : Except Halt Unit :=
  match env.sftp with
  | none => .error (.reanchor "the sftp channel is not open")
  | some s =>
    match s.dead with
    | some reason => .error (.reanchor reason)
    | none => .ok ()

/-- `Permits::try_charge`, for a transfer that holds `held` permits. -/
def tryCharge (env : Env) (held n : ℕ) : Option ℕ :=
  if { outstanding := env.others + held : Budget }.admits n then some (held + n) else none

/-- The pool grants what fits. One chunk fits into the whole of it. -/
theorem tryCharge_fits {env : Env} {held held' want : ℕ}
    (h : tryCharge env held want = some held') (hwant : want ≤ maxPayload) :
    held' = held + want ∧ env.others + held' ≤ replayBudgetBytes := by
  have hmax : maxPayload ≤ replayBudgetBytes := by decide
  unfold tryCharge at h
  split_ifs at h with hadmits
  cases h
  refine ⟨rfl, ?_⟩
  have hroom : env.others + held = 0 ∨ env.others + held + want ≤ replayBudgetBytes := by
    simpa [Budget.admits] using hadmits
  omega

/-! ## The outer loop -/

/-- What the engine task and the resource facade share. -/
structure Shared where
  done : ℕ := 0
  total : Option ℕ := none
  outcome : Option (Except String Unit) := none
  cancelled : Bool := false
  dropped : Bool := false
deriving DecidableEq

/-- The terminal outcome, recorded once (`finish`). -/
def Shared.finish (sh : Shared) (outcome : Except String Unit) : Shared :=
  if sh.outcome = none then { sh with outcome := some outcome } else sh

/-- `stop_requested`. -/
def Shared.stopRequested (sh : Shared) : Option Stop :=
  if sh.cancelled then some .cancelled
  else if sh.dropped then some .dropped
  else none

/-- Where `supervise` stands between two attempts. -/
inductive Supervisor
  /-- In `await_session_ready`, with the reason of the interruption. -/
  | awaiting (reason : String)
  /-- Pausing before the next attempt. -/
  | pausing
  | finished
deriving DecidableEq

/-- One look of `await_session_ready` at the session: gone for good, or whether it is ready. -/
def sessionVerdict (s : Session) : Except String Bool :=
  if s.detached then .error "the session was detached"
  else
    match s.status with
    | .closed reason => .error ("the session closed: " ++ reason)
    | status =>
      if s.linkDown then .error "the connection was lost and could not be resumed"
      else if s.resuming ∨ s.stalled then .ok false
      else .ok (status = .ready)

/-- A turn of `await_session_ready`, and what `supervise` does once it returns. -/
def awaitSession (session : Session) (sh : Shared) (futility : Futility) (reason : String)
    (waited : Bool) : Supervisor × Shared × Futility :=
  match sessionVerdict session with
  | .error why => (.finished, sh.finish (.error why), futility)
  | .ok true =>
    let r := futility.charge (!waited) sh.done
    if r.2 then
      (.finished, sh.finish (.error (reason ++ " -- and " ++ toString maxFutileReanchors ++
        " further attempts on a                          live session moved nothing, so this " ++
        "is not going to settle")), r.1)
    else (.pausing, sh, r.1)
  | .ok false =>
    match sh.stopRequested with
    | some stop => (.finished, sh.finish (.error (stopMessage stop)), futility)
    | none => (.awaiting reason, sh, futility)

/-- What `supervise` does when an attempt returns. -/
def supervise (session : Session) (sh : Shared) (futility : Futility) :
    Attempt → Supervisor × Shared × Futility
  | .done => (.finished, sh.finish (.ok ()), futility)
  | .failed e => (.finished, sh.finish (.error e), futility)
  | .retry reason =>
    match sh.stopRequested with
    | some stop => (.finished, sh.finish (.error (stopMessage stop)), futility)
    | none => awaitSession session sh futility reason false

/-- What a turn of `await_session_ready` comes to: the transfer is over, and has failed, or nothing
of what it shares has changed. -/
theorem awaitSession_cases (session : Session) (sh : Shared) (futility : Futility) (reason : String)
    (waited : Bool) :
    (∃ e, (awaitSession session sh futility reason waited).1 = .finished ∧
      (awaitSession session sh futility reason waited).2.1 = sh.finish (.error e)) ∨
    ((awaitSession session sh futility reason waited).1 ≠ .finished ∧
      (awaitSession session sh futility reason waited).2.1 = sh) := by
  unfold awaitSession
  split
  · exact .inl ⟨_, rfl, rfl⟩
  · dsimp only
    split_ifs
    · exact .inl ⟨_, rfl, rfl⟩
    · exact .inr ⟨by simp, rfl⟩
  · split
    · exact .inl ⟨_, rfl, rfl⟩
    · exact .inr ⟨by simp, rfl⟩

/-- What the return of an attempt comes to: only one that is done is a success. -/
theorem supervise_cases (session : Session) (sh : Shared) (futility : Futility) (a : Attempt) :
    (∃ outcome, (supervise session sh futility a).1 = .finished ∧
      (supervise session sh futility a).2.1 = sh.finish outcome ∧
      (outcome = .ok () → a = .done)) ∨
    ((supervise session sh futility a).1 ≠ .finished ∧
      (supervise session sh futility a).2.1 = sh) := by
  cases a with
  | done => exact .inl ⟨.ok (), rfl, rfl, fun _ => rfl⟩
  | failed e => exact .inl ⟨.error e, rfl, rfl, by simp⟩
  | retry reason =>
    simp only [supervise]
    split
    · exact .inl ⟨_, rfl, rfl, by simp⟩
    · obtain ⟨e, hover, hsh⟩ | ⟨hon, hsh⟩ :=
        awaitSession_cases session sh futility reason false
      · exact .inl ⟨.error e, hover, hsh, by simp⟩
      · exact .inr ⟨hon, hsh⟩

end Transfer
