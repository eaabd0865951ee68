import Wosh.Lib.Run
import Wosh.Tunnel.Replay

set_option relaxedAutoImplicit false
set_option autoImplicit false

/-!
# The sans-I/O SSH engine

`Engine` of `ssh-core/core/session.go`, with the signer of `signer.go` and the conn of
`shuttle.go`: `golang.org/x/crypto/ssh` wrapped as a machine that is fed bytes. The blocking ssh
stack runs on goroutines that park on an in-memory conn and on channels; every entry point
returns promptly.

## Main definitions

* `SshCore.Engine` — the state behind the engine's mutex, its gates, and where each goroutine is
  parked.
* `SshCore.Action` — an entry point called by the embedder, or one uninterrupted piece of a
  goroutine. What the ssh stack decides (which key the server presents, which method it steers
  to, how the shell ends) is in the action.
* `SshCore.Engine.step` — the transition function.

## Design

A goroutine is a program counter: it stands at the point where it is parked or where it gives up
the mutex, and its next action is what it does from there to the next such point. An export
that gives the goroutines scheduler rounds before it is done (`WireBroken`, `Close`) is split at
these rounds; `Engine.ending` is the rest of it, and no other export begins before it ran.

The ssh stack itself is not part of the repository. It is the environment: it may call the
callbacks of the engine with any arguments, one host key callback at a time and one auth
callback at a time.

`invocations` and `answers` record what the callbacks returned to the ssh stack. Nothing reads
them.
-/

namespace SshCore

open Tunnel

/-! ## Records -/

/-- The readable session states; they map onto the `status` variant of the interface. -/
inductive State
  | connecting
  | hostKeyCheck
  | authenticating
  | signing
  | authPrompts
  | ready
  | closed
deriving DecidableEq, Repr

/-- One prompt: its text, and whether the answer is echoed. -/
structure Prompt where
  text : String
  echo : Bool
deriving DecidableEq, Repr

/-- One batch of prompts. -/
structure PromptBatch where
  instruction : String
  prompts : List Prompt
deriving DecidableEq, Repr

/-- A key offered for publickey authentication: algorithm name and key blob. -/
structure PublicKey where
  algorithm : String
  blob : Bytes
deriving DecidableEq, Repr

/-- A finished signature. -/
structure Signature where
  format : String
  blob : Bytes
  trailer : Bytes
deriving DecidableEq, Repr

/-- The bytes to sign, and the key they are to be signed for. -/
structure SignRequest where
  key : PublicKey
  data : Bytes
deriving DecidableEq, Repr

/-- The outcome of a finished probe. -/
structure ProbeResult where
  exitStatus : Option Int
  output : Bytes
deriving DecidableEq, Repr

/-- Which method a credential is for; `unset` is the zero value. -/
inductive Kind
  | unset
  | password
  | publickey
  | keyboardInteractive
  | auto
deriving DecidableEq, Repr

/-- What the embedder supplied via an `Authenticate*` call. Each key stands for the parked
external signer that wraps it. -/
structure Credential where
  kind : Kind := .unset
  password : String := ""
  keys : List PublicKey := []
deriving DecidableEq, Repr

/-- Whether the credential lets a method proceed: the one the embedder chose, or any under
`auto`. -/
def Credential.offers (c : Credential) (method : Kind) : Bool :=
  c.kind = method || c.kind = .auto

/-! ## Go channels -/

/-- A buffered Go channel. -/
structure Chan (α : Type) where
  /-- Values sent and not yet received. -/
  buf : List α := []
  /-- Set by `close`. -/
  closed : Bool := false
deriving DecidableEq, Repr

variable {α : Type}

/-- `ch <- v`, where the buffer has room. -/
def Chan.send (c : Chan α) (v : α) : Chan α := { c with buf := c.buf ++ [v] }

/-- `close(ch)`. -/
def Chan.close (c : Chan α) : Chan α := { c with closed := true }

/-- `v, ok := <-ch`: parks on an open channel with nothing in it; a closed one that is drained
gives `ok = false`, here `none`. -/
def Chan.recv (c : Chan α) : Option (Option α × Chan α) :=
  match c.buf with
  | v :: vs => some (some v, { c with buf := vs })
  | [] => if c.closed then some (none, c) else none

/-! ## The conn the ssh stack blocks on -/

/-- `shuttleConn`: bytes fed and not yet read, bytes written and not yet drained. -/
structure Shuttle where
  inbox : Bytes := []
  outbox : Bytes := []
  closed : Bool := false
  err : Option String := none
deriving DecidableEq, Repr

namespace Shuttle

/-- Hand fed bytes to the reader; a broken or closed conn discards them. -/
def push (c : Shuttle) (data : Bytes) : Shuttle :=
  if c.closed = false ∧ c.err = none then { c with inbox := c.inbox ++ data } else c

/-- `Read` of `n` bytes: buffered ones first, then the failure, then the end. `none` parks. -/
def read (c : Shuttle) (n : ℕ) : Option (Except String Bytes × Shuttle) :=
  if c.inbox ≠ [] then some (.ok (c.inbox.take n), { c with inbox := c.inbox.drop n })
  else
    match c.err with
    | some e => some (.error e, c)
    | none => if c.closed then some (.error "EOF", c) else none

/-- `Write`. -/
def write (c : Shuttle) (b : Bytes) : Shuttle :=
  if c.closed = true ∨ c.err ≠ none then c else { c with outbox := c.outbox ++ b }

/-- Take everything written so far. -/
def drainOutbox (c : Shuttle) : Bytes × Shuttle := (c.outbox, { c with outbox := [] })

/-- Make every later read fail; what was fed and not read is discarded. -/
def breakWire (c : Shuttle) (reason : String) : Shuttle :=
  if c.err = none then { c with err := some (reason ++ ": unexpected EOF"), inbox := [] } else c

/-- `Close`. -/
def close (c : Shuttle) : Shuttle := { c with closed := true }

end Shuttle

/-! ## Goroutines -/

/-- Where the goroutine that runs the session's life stands. -/
inductive RunPc
  /-- In `ssh.NewClientConn`. -/
  | handshaking
  /-- Opening the session channel, the pty and the shell. -/
  | opening
  /-- The pipe is published; input typed before is about to be flushed. -/
  | flushing
  /-- About to publish `ready`. -/
  | readying
  /-- In `sess.Wait`. -/
  | waiting
  /-- About to close with this message. -/
  | closing (msg : String)
  | done
deriving DecidableEq, Repr

/-- Where a host key callback stands. `before` is the state published when it was called. -/
inductive HostKeyPc
  /-- No key exchange is asking. -/
  | idle
  /-- Parked on the decision channel. -/
  | parked (fingerprint : String) (before : State)
  /-- The verdict was received. -/
  | judged (fingerprint : String) (before : State) (accepted : Bool)
deriving DecidableEq, Repr

/-- The auth method the server steered to, with the batch it came with. -/
inductive AuthMethod
  | password
  | publickey
  | keyboardInteractive (instruction : String) (questions : List String) (echos : List Bool)
deriving DecidableEq, Repr

/-- Where the auth goroutine stands. -/
inductive AuthPc
  /-- In the ssh stack. -/
  | idle
  /-- Parked until a credential is supplied. -/
  | waitCreds (method : AuthMethod)
  /-- Parked on the answers to a batch; `single` when it is auto mode's password. -/
  | prompts (single : Bool)
  /-- Parked on a signature. -/
  | sign
deriving DecidableEq, Repr

/-- A completed call of the host key callback. -/
structure Invocation where
  /-- Fingerprint of the key it was called with. -/
  fingerprint : String
  /-- The published state when it was called. -/
  before : State
  /-- The published state when it returned. -/
  after : State
  /-- What it returned: an error text, or `none` for `nil`. -/
  err : Option String
deriving DecidableEq, Repr

/-- What an auth callback returned to the ssh stack. -/
inductive Answer
  | password (p : String)
  | signers (keys : List PublicKey)
  | answers (as : List String)
  | signature (sig : Signature)
  | declined (err : String)
deriving DecidableEq, Repr

/-- How `sess.Wait` ended: cleanly, with the program's exit status, or without one. -/
inductive WaitResult
  | clean
  | exitError (code : Int)
  | other
deriving DecidableEq, Repr

/-! ## The engine -/

/-- The whole session. -/
structure Engine where
  conn : Shuttle := {}
  state : State := .connecting
  closeMsg : String := ""
  hostFP : String := ""
  /-- Set by `WireBroken`; wins over derived close messages. -/
  wireReason : String := ""
  exitCode : Option Int := none
  exited : Bool := false
  user : String := ""
  /-- `s.client` is set. -/
  client : Bool := false
  /-- What was written to the shell's stdin, once the pipe exists. -/
  stdinPipe : Option Bytes := none
  hostKeyDecision : Chan Bool := {}
  decisionOnce : Bool := false
  /-- Latched by `ConfirmHostKey true` itself. -/
  confirmed : Bool := false
  keysOffered : Bool := false
  creds : Credential := {}
  /-- `credsReady` is closed; `credsOnce` has run. -/
  credsReady : Bool := false
  batch : Option PromptBatch := none
  promptAnswers : Chan (List String) := {}
  promptsClosed : Bool := false
  sigRequest : Option SignRequest := none
  sigReply : Chan (Except String Signature) := {}
  sigClosed : Bool := false
  /-- Pty output awaiting the embedder. -/
  out : Bytes := []
  /-- Input typed before the shell's stdin existed. -/
  pendingIn : Bytes := []
  probeInFlight : Bool := false
  probeResult : Option ProbeResult := none
  /-- The live bulk channels. -/
  channels : List ℕ := []
  cols : ℕ := 0
  rows : ℕ := 0
  /-- The command to run in place of the default shell; empty for a shell. -/
  command : String := ""
  /-- The goroutine of `run`. -/
  runPc : RunPc := .handshaking
  /-- The host key callback in progress. -/
  hostKey : HostKeyPc := .idle
  /-- The auth callback in progress. -/
  auth : AuthPc := .idle
  /-- The message with which the export in progress closes the engine after its rounds. -/
  ending : Option String := none
  /-- Completed calls of the host key callback, oldest first. -/
  invocations : List Invocation := []
  /-- What the auth callbacks returned, oldest first. -/
  answers : List Answer := []

namespace Engine

/-- `New`. -/
def new (user : String) (cols rows : ℕ) (command : String) : Engine :=
  { user, cols, rows, command }

/-- `setState`: the closed state is terminal. -/
def setState (s : Engine) (st : State) : Engine :=
  if s.state = .closed then s else { s with state := st }

/-- `closeWith`: a recorded wire failure wins over the given message, and every bulk channel
learns that the session is gone. -/
def closeWith (s : Engine) (msg : String) : Engine :=
  if s.state = .closed then s
  else
    { s with
      state := .closed
      closeMsg := if s.wireReason ≠ "" then s.wireReason else msg
      channels := [] }

/-! ### The host key gate -/

/-- What the callback returns when the gate does not let the key pass. -/
def hostKeyRejected : String := "host key rejected by the user"

/-- `hostKeyCallback` up to the receive on the decision channel. -/
def hostKeyCallback (s : Engine) (fingerprint : String) : Engine :=
  { s with
    hostFP := fingerprint
    state := if s.state ≠ .closed then .hostKeyCheck else s.state
    hostKey := .parked fingerprint s.state }

/-- The receive: a closed, drained channel is a rejection. -/
def hostKeyVerdict (s : Engine) (fingerprint : String) (before : State) : Option Engine :=
  s.hostKeyDecision.recv.map fun p =>
    { s with
      hostKeyDecision := p.2
      hostKey := .judged fingerprint before (p.1.getD false) }

/-- The rest of the callback. -/
def hostKeyReturn (s : Engine) (fingerprint : String) (before : State) (accepted : Bool) :
    Engine :=
  let s := if accepted then s.setState .authenticating else s
  { s with
    hostKey := .idle
    invocations := s.invocations ++
      [⟨fingerprint, before, s.state, if accepted then none else some hostKeyRejected⟩] }

/-- `ConfirmHostKey`: the first verdict wins. -/
def confirmHostKey (s : Engine) (accept : Bool) : Engine :=
  if s.decisionOnce then s
  else
    { s with
      decisionOnce := true
      confirmed := s.confirmed || accept
      hostKeyDecision := (s.hostKeyDecision.send accept).close }

/-! ### Credentials -/

/-- The exact message before the host key gate resolves. -/
def hostKeyNotConfirmed : String :=
  "the host key fingerprint has not been confirmed yet -- " ++
    "credentials are never sent to an unapproved server"

/-- `supplyCreds`: latch a credential and release the parked callbacks. -/
def supplyCreds (s : Engine) (c : Credential) : Engine × Option String :=
  if s.confirmed = false then (s, some hostKeyNotConfirmed)
  else ({ s with creds := c, credsReady := true }, none)

/-- `offerSigners`: every key is validated before anything is latched. -/
def offerSigners (keys : List PublicKey) : Except String (List PublicKey) :=
  (keys.zipIdx.findSome? fun (k, i) =>
      if k.algorithm = "" then
        some ("public key " ++ toString i ++ " has an empty algorithm name")
      else if k.blob = [] then
        some ("public key " ++ toString i ++ " (" ++ k.algorithm ++ ") has an empty key blob")
      else none).elim (.ok keys) .error

/-- `AuthenticatePassword`. -/
def authenticatePassword (s : Engine) (password : String) : Engine × Option String :=
  s.supplyCreds { kind := .password, password }

/-- `AuthenticatePublickey`. -/
def authenticatePublickey (s : Engine) (keys : List PublicKey) : Engine × Option String :=
  match offerSigners keys with
  | .error e => (s, some e)
  | .ok [] => (s, some "no public key was offered: publickey auth needs at least one key")
  | .ok ks => s.supplyCreds { kind := .publickey, keys := ks }

/-- `AuthenticateInteractive`. -/
def authenticateInteractive (s : Engine) : Engine × Option String :=
  s.supplyCreds { kind := .keyboardInteractive }

/-- `AuthenticateAuto`. -/
def authenticateAuto (s : Engine) (keys : List PublicKey) : Engine × Option String :=
  match offerSigners keys with
  | .error e => (s, some e)
  | .ok ks => s.supplyCreds { kind := .auto, keys := ks }

/-- `declined`: why the engine will not answer the method the server steered to. -/
def declined (s : Engine) (c : Credential) (method : String) : String :=
  if s.keysOffered then
    "the server did not accept the offered key (" ++
      ", ".intercalate (c.keys.map PublicKey.algorithm) ++ "), then asked for " ++ method ++
      ", which this session did not offer"
  else if c.keys ≠ [] then
    "the server did not offer publickey authentication, and asked for " ++ method ++
      ", which this session did not offer"
  else "the server asked for " ++ method ++ ", which this session did not offer"

/-- An auth callback returns. -/
def answer (s : Engine) (a : Answer) : Engine :=
  { s with auth := .idle, answers := s.answers ++ [a] }

/-- `surfacePrompts` up to the receive. -/
def surfacePrompts (s : Engine) (single : Bool) (batch : PromptBatch) : Engine :=
  if s.state = .closed ∨ s.promptsClosed = true then s.answer (.declined "session closed")
  else { s with batch := some batch, state := .authPrompts, auth := .prompts single }

/-- An auth callback that was parked on the credential goes on. One released by a teardown
finds the zero credential, which offers nothing. -/
def resumeCreds (s : Engine) (method : AuthMethod) : Engine :=
  let c := s.creds
  match method with
  | .password =>
    if c.offers .password = false then s.answer (.declined (s.declined c "a password"))
    else if c.kind = .password then s.answer (.password c.password)
    else s.surfacePrompts true ⟨"", [⟨"password for " ++ s.user ++ ": ", false⟩]⟩
  | .publickey =>
    if c.offers .publickey = false then s.answer (.declined "publickey auth not selected")
    else if c.keys = [] then s.answer (.declined "no public key was offered")
    else { s with keysOffered := true }.answer (.signers c.keys)
  | .keyboardInteractive instruction questions echos =>
    if c.offers .keyboardInteractive = false then
      s.answer (.declined (s.declined c "keyboard-interactive answers"))
    else if questions = [] then s.answer (.answers [])
    else
      s.surfacePrompts false
        ⟨instruction, questions.zipIdx.map fun (q, i) => ⟨q, echos.getD i false⟩⟩

/-- The receive in `surfacePrompts`, and the return of the callback that called it. -/
def resumePrompts (s : Engine) (single : Bool) : Option Engine :=
  s.promptAnswers.recv.map fun p =>
    let s := { s with promptAnswers := p.2 }
    match p.1 with
    | none => s.answer (.declined "session dropped while prompts were pending")
    | some as => s.answer (if single then .password (as.headD "") else .answers as)

/-- `AnswerPrompts`. -/
def answerPrompts (s : Engine) (as : List String) : Engine × Option String :=
  if s.promptsClosed then (s, some "session closed")
  else
    match s.batch with
    | none => (s, some "no prompt batch is pending")
    | some batch =>
      if as.length ≠ batch.prompts.length then
        (s, some ("answer count mismatch: " ++ toString as.length ++ " answers for " ++
          toString batch.prompts.length ++ " prompts"))
      else
        ({ s with
            batch := none
            state := if s.state = .authPrompts then .authenticating else s.state
            promptAnswers := s.promptAnswers.send as }, none)

/-! ### Signatures -/

/-- `externalSigner.Sign` up to the receive. -/
def sign (s : Engine) (key : PublicKey) (data : Bytes) : Engine :=
  if s.sigClosed then s.answer (.declined "signing abandoned")
  else
    { s with
      sigRequest := some ⟨key, data⟩
      state := if s.state ≠ .closed then .signing else s.state
      auth := .sign }

/-- The receive in `Sign`, and its return. -/
def resumeSign (s : Engine) : Option Engine :=
  s.sigReply.recv.map fun p =>
    let s := { s with sigReply := p.2 }
    match p.1 with
    | none => s.answer (.declined "signing abandoned")
    | some (.error e) => s.answer (.declined e)
    | some (.ok sig) => s.answer (.signature sig)

/-- The name of the one algorithm whose lengths are checked. -/
def keyAlgoED25519 : String := "ssh-ed25519"

/-- What `ProvideSignature` objects to in an answer to a request. -/
def signatureError (req : SignRequest) (sig : Signature) : Option String :=
  if sig.format ≠ req.key.algorithm then
    some ("signature format \"" ++ sig.format ++ "\" does not match the pending key's algorithm \"" ++
      req.key.algorithm ++ "\"")
  else if sig.blob = [] then some "the signature blob is empty"
  else if sig.format = keyAlgoED25519 ∧ sig.blob.length ≠ 64 then
    some ("signature is " ++ toString sig.blob.length ++ " bytes, expected 64")
  else if sig.format = keyAlgoED25519 ∧ sig.trailer ≠ [] then
    some (keyAlgoED25519 ++ " signatures carry no trailing fields, got " ++
      toString sig.trailer.length ++ " bytes")
  else none

/-- The pending request is answered. -/
def replySignature (s : Engine) (reply : Except String Signature) : Engine :=
  { s with
    sigRequest := none
    state := if s.state = .signing then .authenticating else s.state
    sigReply := s.sigReply.send reply }

/-- `ProvideSignature`: every objection leaves the request pending. -/
def provideSignature (s : Engine) (sig : Signature) : Engine × Option String :=
  match s.sigClosed, s.sigRequest with
  | false, some req =>
    match signatureError req sig with
    | some e => (s, some e)
    | none => (s.replySignature (.ok sig), none)
  | _, _ => (s, some "no signature is pending")

/-- `FailSignature`. -/
def failSignature (s : Engine) (reason : String) : Engine :=
  match s.sigClosed, s.sigRequest with
  | false, some _ => s.replySignature (.error ("signature refused: " ++ reason))
  | _, _ => s

/-! ### Teardown -/

/-- Fail the host key gate, unless a verdict was given. -/
def failDecision (s : Engine) : Engine :=
  if s.decisionOnce then s
  else { s with decisionOnce := true, hostKeyDecision := s.hostKeyDecision.close }

/-- Fail the prompt surface, once. -/
def failPrompts (s : Engine) : Engine :=
  if s.promptsClosed then s
  else { s with promptsClosed := true, batch := none, promptAnswers := s.promptAnswers.close }

/-- Fail the signature surface, once. -/
def failSign (s : Engine) : Engine :=
  if s.sigClosed then s
  else { s with sigClosed := true, sigRequest := none, sigReply := s.sigReply.close }

/-- `failGates`: every park-and-poll surface is released exactly once. -/
def failGates (s : Engine) : Engine :=
  { s.failDecision with credsReady := true }.failPrompts.failSign

/-- `WireBroken` up to its scheduler rounds. -/
def wireBroken (s : Engine) (reason : String) : Engine :=
  { { s with
      wireReason := if s.wireReason = "" then reason else s.wireReason
      conn := s.conn.breakWire reason }.failGates with
    ending := some reason }

/-- `Close` up to its scheduler rounds. -/
def close (s : Engine) : Engine :=
  { s.failGates with conn := s.conn.close, ending := some "session closed" }

/-! ### The terminal and probe planes -/

/-- `WriteInput`. -/
def writeInput (s : Engine) (data : Bytes) : Engine :=
  match s.stdinPipe with
  | some written => { s with stdinPipe := some (written ++ data) }
  | none => { s with pendingIn := s.pendingIn ++ data }

/-- `ProbeStart`. -/
def probeStart (s : Engine) : Engine × Option String :=
  if s.state ≠ .ready then (s, some "probe-start: session is not ready")
  else if s.probeInFlight then (s, some "probe-start: a probe is already in flight")
  else ({ s with probeInFlight := true, probeResult := none }, none)

/-- `ProbePoll`. -/
def probePoll (s : Engine) : Engine × Option ProbeResult :=
  match s.probeResult with
  | none => (s, none)
  | some r => ({ s with probeResult := none, probeInFlight := false }, some r)

/-- `openChannel`, for either kind of channel. -/
def openChannel (s : Engine) (kind : String) (c : ℕ) : Engine × Option String :=
  if s.state ≠ .ready then (s, some (kind ++ ": session is not ready"))
  else if s.client = false then (s, some (kind ++ ": no ssh connection"))
  else ({ s with channels := s.channels ++ [c] }, none)

/-- `run` after `sess.Wait`: what is known about the exit. -/
def recordExit (s : Engine) (w : WaitResult) : Engine :=
  { s with
    exited := true
    exitCode :=
      match w with
      | .clean => some 0
      | .exitError code => some code
      | .other => s.exitCode
    runPc := .closing "shell exited" }

end Engine

/-! ## Steps -/

/-- What happens next. The first group are the exports the embedder calls; exports that only
read the state are functions of it and no actions. -/
inductive Action
  | feed (data : Bytes)
  | drain
  | pump
  | wireBroken (reason : String)
  | confirmHostKey (accept : Bool)
  | authenticatePassword (password : String)
  | authenticatePublickey (keys : List PublicKey)
  | authenticateInteractive
  | authenticateAuto (keys : List PublicKey)
  | answerPrompts (as : List String)
  | provideSignature (sig : Signature)
  | failSignature (reason : String)
  | writeInput (data : Bytes)
  | drainOutput
  | resize (cols rows : ℕ)
  | probeStart
  | probePoll
  | openChannel (kind : String) (c : ℕ)
  | close
  /-- The export in progress resumes after its scheduler rounds. -/
  | endCall
  /-- A key exchange presents a key with this fingerprint. -/
  | hostKeyCallback (fingerprint : String)
  /-- The parked callback receives from the decision channel. -/
  | hostKeyVerdict
  /-- The callback returns. -/
  | hostKeyReturn
  /-- The server steers to a method. -/
  | authCallback (method : AuthMethod)
  /-- The server accepts a key and the stack wants a signature over these bytes. -/
  | sign (key : PublicKey) (data : Bytes)
  /-- The parked auth callback goes on. -/
  | authResume
  /-- The stack reads from the conn, or writes to it. -/
  | connRead (n : ℕ)
  | connWrite (b : Bytes)
  /-- `ssh.NewClientConn` returns. -/
  | handshakeFailed (err : String)
  | handshakeDone
  /-- Opening the session channel, the pipe, the pty or the shell fails with this message. -/
  | openFailed (msg : String)
  /-- The shell or the command is started and its stdin published. -/
  | shellStarted
  /-- Input typed before is flushed. -/
  | flushInput
  /-- `ready` is published. -/
  | becomeReady
  /-- The program writes to the pty. -/
  | output (b : Bytes)
  /-- `sess.Wait` returns. -/
  | shellExited (w : WaitResult)
  /-- `run` reaches its last `closeWith`. -/
  | runClose
  /-- A probe's goroutine stores its result. -/
  | probeDone (r : ProbeResult)
  /-- A bulk channel reached its terminal state. -/
  | forgetChannel (c : ℕ)
deriving DecidableEq

namespace Engine

/-- An export the embedder calls; it begins only when no other one is in progress. -/
def call (s : Engine) : Action → Option Engine
  | .feed data => some { s with conn := s.conn.push data }
  | .drain => some { s with conn := s.conn.drainOutbox.2 }
  | .pump => some s
  | .wireBroken reason => some (s.wireBroken reason)
  | .confirmHostKey accept => some (s.confirmHostKey accept)
  | .authenticatePassword p => some (s.authenticatePassword p).1
  | .authenticatePublickey keys => some (s.authenticatePublickey keys).1
  | .authenticateInteractive => some s.authenticateInteractive.1
  | .authenticateAuto keys => some (s.authenticateAuto keys).1
  | .answerPrompts as => some (s.answerPrompts as).1
  | .provideSignature sig => some (s.provideSignature sig).1
  | .failSignature reason => some (s.failSignature reason)
  | .writeInput data => some (s.writeInput data)
  | .drainOutput => some { s with out := [] }
  | .resize cols rows => some { s with cols := cols, rows := rows }
  | .probeStart => some s.probeStart.1
  | .probePoll => some s.probePoll.1
  | .openChannel kind c => some (s.openChannel kind c).1
  | .close => some s.close
  | _ => none

/-- What the ssh stack's goroutines do. -/
def background (s : Engine) : Action → Option Engine
  | .endCall => s.ending.map fun msg => { s.closeWith msg with ending := none }
  | .hostKeyCallback fingerprint =>
    if s.hostKey = .idle then some (s.hostKeyCallback fingerprint) else none
  | .hostKeyVerdict =>
    match s.hostKey with
    | .parked fingerprint before => s.hostKeyVerdict fingerprint before
    | _ => none
  | .hostKeyReturn =>
    match s.hostKey with
    | .judged fingerprint before accepted => some (s.hostKeyReturn fingerprint before accepted)
    | _ => none
  | .authCallback method =>
    if s.auth = .idle then some { s with auth := .waitCreds method } else none
  | .sign key data => if s.auth = .idle then some (s.sign key data) else none
  | .authResume =>
    match s.auth with
    | .idle => none
    | .waitCreds method => if s.credsReady then some (s.resumeCreds method) else none
    | .prompts single => s.resumePrompts single
    | .sign => s.resumeSign
  | .connRead n => (s.conn.read n).map fun p => { s with conn := p.2 }
  | .connWrite b => some { s with conn := s.conn.write b }
  | .handshakeFailed err =>
    if s.runPc = .handshaking then some { s.closeWith ("ssh: " ++ err) with runPc := .done }
    else none
  | .handshakeDone =>
    if s.runPc = .handshaking then some { s with client := true, runPc := .opening } else none
  | .openFailed msg =>
    if s.runPc = .opening then some { s.closeWith msg with runPc := .done } else none
  | .shellStarted =>
    if s.runPc = .opening then some { s with stdinPipe := some [], runPc := .flushing } else none
  | .flushInput =>
    if s.runPc = .flushing then
      some { s with
        stdinPipe := s.stdinPipe.map (· ++ s.pendingIn)
        pendingIn := []
        runPc := .readying }
    else none
  | .becomeReady =>
    if s.runPc = .readying then some { s.setState .ready with runPc := .waiting } else none
  | .output b => some { s with out := s.out ++ b }
  | .shellExited w => if s.runPc = .waiting then some (s.recordExit w) else none
  | .runClose =>
    match s.runPc with
    | .closing msg => some { s.closeWith msg with runPc := .done }
    | _ => none
  | .probeDone r =>
    if s.probeInFlight = true ∧ s.probeResult = none then some { s with probeResult := some r }
    else none
  | .forgetChannel c => some { s with channels := s.channels.erase c }
  | _ => none

/-- One step of the engine. -/
def step (s : Engine) (a : Action) : Option Engine :=
  match (if s.ending = none then s.call a else none) with
  | some s' => some s'
  | none => s.background a

/-! ### Callbacks that were parked -/

variable {s s' : Engine} {a : Action}

/-- The host key callback receives a verdict, or finds that there will be none. -/
theorem hostKeyVerdict_cases (h : s.background .hostKeyVerdict = some s') :
    ∃ decision pc, s' = { s with hostKeyDecision := decision, hostKey := pc } := by
  simp only [background] at h
  split at h
  · obtain ⟨p, -, rfl⟩ := Option.map_eq_some_iff.1 h
    exact ⟨_, _, rfl⟩
  · cases h

/-- An auth callback goes on with the credential, or returns from its prompts or from `Sign`. -/
theorem authResume_cases (h : s.background .authResume = some s') :
    (∃ m, s' = s.resumeCreds m) ∨
    (∃ answers r, s' = ({ s with promptAnswers := answers } : Engine).answer r) ∨
    (∃ reply r, s' = ({ s with sigReply := reply } : Engine).answer r) := by
  simp only [background] at h
  split at h
  · cases h
  · rename_i method _
    simp only [Option.ite_none_right_eq_some, Option.some.injEq] at h
    exact .inl ⟨method, h.2.symm⟩
  · obtain ⟨p, -, rfl⟩ := Option.map_eq_some_iff.1 h
    dsimp only
    split <;> exact .inr (.inl ⟨_, _, rfl⟩)
  · obtain ⟨p, -, rfl⟩ := Option.map_eq_some_iff.1 h
    dsimp only
    split <;> exact .inr (.inr ⟨_, _, rfl⟩)

/-! ### The closed state is terminal -/

theorem state_closeWith (s : Engine) (msg : String) : (s.closeWith msg).state = .closed := by
  unfold closeWith
  split_ifs with h <;> first | exact h | rfl

theorem state_failGates (s : Engine) : s.failGates.state = s.state := by
  unfold failGates failSign failPrompts failDecision
  split_ifs <;> rfl

theorem closed_resumeCreds (h : s.state = .closed) (m : AuthMethod) :
    (s.resumeCreds m).state = .closed := by
  cases m <;> simp only [resumeCreds, surfacePrompts, answer, h, true_or, if_true] <;>
    split_ifs <;> rfl

/-- An export leaves a closed engine closed. -/
theorem closed_of_call (hcall : s.call a = some s') (h : s.state = .closed) :
    s'.state = .closed := by
  cases a <;> simp only [call, Option.some.injEq, reduceCtorEq] at hcall <;> subst hcall
  case wireBroken reason => exact (state_failGates _).trans h
  case close => exact (state_failGates s).trans h
  case confirmHostKey accept =>
    unfold confirmHostKey
    split_ifs <;> exact h
  case authenticatePassword p =>
    unfold authenticatePassword supplyCreds
    split_ifs <;> exact h
  case authenticatePublickey keys =>
    unfold authenticatePublickey supplyCreds
    split <;> (try split_ifs) <;> exact h
  case authenticateInteractive =>
    unfold authenticateInteractive supplyCreds
    split_ifs <;> exact h
  case authenticateAuto keys =>
    unfold authenticateAuto supplyCreds
    split <;> (try split_ifs) <;> exact h
  case answerPrompts as =>
    simp only [answerPrompts, h, reduceCtorEq, if_false]
    by_cases hc : s.promptsClosed = true
    · rw [if_pos hc]
      exact h
    · rw [if_neg hc]
      split
      · exact h
      · split_ifs <;> first | exact h | rfl
  case provideSignature sig =>
    unfold provideSignature replySignature
    split
    · split <;> simp [h]
    · exact h
  case failSignature reason =>
    unfold failSignature replySignature
    split <;> simp [h]
  case writeInput data =>
    unfold writeInput
    split <;> exact h
  case probeStart => simp [probeStart, h]
  case probePoll =>
    unfold probePoll
    split <;> exact h
  case openChannel kind c => simp [openChannel, h]
  all_goals exact h

/-- What the goroutines do leaves a closed engine closed. -/
theorem closed_of_background (hback : s.background a = some s') (h : s.state = .closed) :
    s'.state = .closed := by
  cases a <;> simp only [background, reduceCtorEq, Option.map_eq_some_iff,
    Option.ite_none_right_eq_some, Option.some.injEq] at hback
  case endCall =>
    obtain ⟨msg, -, rfl⟩ := hback
    exact state_closeWith s msg
  case hostKeyCallback fingerprint =>
    obtain ⟨-, rfl⟩ := hback
    simp [hostKeyCallback, h]
  case hostKeyVerdict =>
    obtain ⟨_, _, rfl⟩ := hostKeyVerdict_cases hback
    exact h
  case hostKeyReturn =>
    split at hback <;> cases hback
    unfold hostKeyReturn setState
    simp only [h, if_true, ite_self]
  case authCallback method =>
    obtain ⟨-, rfl⟩ := hback
    exact h
  case sign key data =>
    obtain ⟨-, rfl⟩ := hback
    by_cases hc : s.sigClosed = true <;> simp [sign, answer, hc, h]
  case authResume =>
    obtain ⟨method, rfl⟩ | ⟨_, _, rfl⟩ | ⟨_, _, rfl⟩ := authResume_cases hback
    · exact closed_resumeCreds h method
    · exact h
    · exact h
  case connRead n =>
    obtain ⟨p, -, rfl⟩ := hback
    exact h
  case handshakeFailed err =>
    obtain ⟨-, rfl⟩ := hback
    exact state_closeWith s _
  case openFailed msg =>
    obtain ⟨-, rfl⟩ := hback
    exact state_closeWith s _
  case becomeReady =>
    obtain ⟨-, rfl⟩ := hback
    simp [setState, h]
  case shellExited w =>
    obtain ⟨-, rfl⟩ := hback
    exact h
  case runClose =>
    split at hback <;> cases hback
    exact state_closeWith s _
  case connWrite b =>
    subst hback
    exact h
  case output b =>
    subst hback
    exact h
  case forgetChannel c =>
    subst hback
    exact h
  all_goals
    obtain ⟨-, rfl⟩ := hback
    exact h

theorem ending_resumeCreds (s : Engine) (m : AuthMethod) :
    (s.resumeCreds m).ending = s.ending := by
  cases m <;> simp only [resumeCreds, surfacePrompts, answer] <;> split_ifs <;> rfl

/-- An export that closes the engine after its rounds still will, or its end has come. -/
theorem ending_of_background (hback : s.background a = some s') :
    s'.ending = s.ending ∨ s'.state = .closed := by
  cases a <;> simp only [background, reduceCtorEq, Option.map_eq_some_iff,
    Option.ite_none_right_eq_some, Option.some.injEq] at hback
  case endCall =>
    obtain ⟨msg, -, rfl⟩ := hback
    exact .inr (state_closeWith s msg)
  case hostKeyVerdict =>
    obtain ⟨_, _, rfl⟩ := hostKeyVerdict_cases hback
    exact .inl rfl
  case hostKeyReturn =>
    split at hback <;> cases hback
    unfold hostKeyReturn setState
    left
    split_ifs <;> rfl
  case sign key data =>
    obtain ⟨-, rfl⟩ := hback
    by_cases hc : s.sigClosed = true <;> simp [sign, answer, hc]
  case authResume =>
    obtain ⟨method, rfl⟩ | ⟨_, _, rfl⟩ | ⟨_, _, rfl⟩ := authResume_cases hback
    · exact .inl (ending_resumeCreds s method)
    · exact .inl rfl
    · exact .inl rfl
  case connRead n =>
    obtain ⟨p, -, rfl⟩ := hback
    exact .inl rfl
  case handshakeFailed err =>
    obtain ⟨-, rfl⟩ := hback
    exact .inr (state_closeWith s _)
  case openFailed msg =>
    obtain ⟨-, rfl⟩ := hback
    exact .inr (state_closeWith s _)
  case becomeReady =>
    obtain ⟨-, rfl⟩ := hback
    unfold setState
    split_ifs <;> exact .inl rfl
  case runClose =>
    split at hback <;> cases hback
    exact .inr (state_closeWith s _)
  case connWrite b =>
    subst hback
    exact .inl rfl
  case output b =>
    subst hback
    exact .inl rfl
  case forgetChannel c =>
    subst hback
    exact .inl rfl
  all_goals
    obtain ⟨-, rfl⟩ := hback
    exact .inl rfl

end Engine

end SshCore
