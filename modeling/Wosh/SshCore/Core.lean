import Wosh.Lib.Threads
import Wosh.SshCore.Channel
import Wosh.SshCore.Frame

set_option relaxedAutoImplicit false
set_option autoImplicit false

/-!
# The entry points, section by section

The exports of `ssh-core`, as the sections that each of them goes through: what it does under a mutex,
on a Go channel, or on the ssh stack. In `SshCore.Engine` an export is one action, and so is
`closeWith`; here any number of calls interleave with each other and with the goroutines.

## Main definitions

* `SshCore.Section` — a section of an entry point, or of a `closeWith`.
* `SshCore.Core` — the engine, every bulk channel that it ever made, and the window of the shell.
* `SshCore.Core.exec` — what a section does, and what is left to do.
* `SshCore.Export`, `SshCore.Export.sections` — the entry points.
* `SshCore.System.step` — the transition function of the calls and the goroutines.

## Design

Sections that send on a Go channel with a buffer of one park where it is full and panic where it is
closed. Writing to the shell's stdin parks where the window of the far end is used up; other writes and
window adjustments change the window in any way.

Thread 0 is the goroutine of `run`. It only calls `closeWith`; the rest of `run` is among the
actions of the engine, and so are the other goroutines of the ssh stack.
-/

namespace SshCore

open Tunnel Run Threads

/-- A section. -/
inductive Section
  /-- An export that only reads. -/
  | read
  /-- An export of the engine that is one section. -/
  | engine (a : Action)
  /-- The sections of `WireBroken`, `failGates` and `Close`. -/
  | recordWire (reason : String)
  | breakWire (reason : String)
  | failDecision
  | failCreds
  | failPrompts
  | failSign
  | closeConn
  /-- `closeWith`; then `closeAllChannels`; then the return. -/
  | closeWith (msg : String)
  | closeAll (reason : String)
  | closed
  /-- `WriteInput` reads the pipe, writes to it, or appends to `pendingIn`. -/
  | look (data : Bytes)
  | put (rest : Bytes)
  | buffer (data : Bytes)
  /-- `openChannel`. -/
  | openChannel (kind : ChannelKind) (arg : String)
  /-- A section of a bulk channel. -/
  | chan (i : ℕ) (a : ChannelAction)
  /-- `forgetChannel`. -/
  | forget (i : ℕ)
deriving DecidableEq

/-- What the calls and the goroutines share. -/
structure Core where
  eng : Engine
  /-- Every bulk channel that was ever made. -/
  chans : List Channel := []
  /-- What the window of the far end leaves for the shell's stdin. -/
  window : ℕ := 0
  /-- Writes to the shell's stdin fail. -/
  stdinClosed : Bool := false
  /-- The `closeWith` that closed the engine has returned. Nothing reads it. -/
  closeReturned : Bool := false

/-! ## Sections of the engine -/

/-- A send on a Go channel with a buffer of one. -/
def Chan.attemptSend {α β : Type} (c : Chan α) (s : β) : Outcome β :=
  if c.closed then .panics else if c.buf = [] then .done s else .parks

/-- A close of a Go channel. -/
def Chan.attemptClose {α β : Type} (c : Chan α) (s : β) : Outcome β :=
  if c.closed then .panics else .done s

namespace Engine

/-- An export that is one section. -/
def attempt (s : Engine) : Action → Outcome Engine
  | .confirmHostKey accept =>
    if s.decisionOnce then .done s
    else s.hostKeyDecision.attemptSend (s.confirmHostKey accept)
  | .answerPrompts as =>
    if (s.answerPrompts as).2 = none then s.promptAnswers.attemptSend (s.answerPrompts as).1
    else .done (s.answerPrompts as).1
  | .provideSignature sig =>
    if (s.provideSignature sig).2 = none then s.sigReply.attemptSend (s.provideSignature sig).1
    else .done (s.provideSignature sig).1
  | .failSignature reason =>
    if s.sigClosed = true ∨ s.sigRequest = none then .done s
    else s.sigReply.attemptSend (s.failSignature reason)
  | a => .done (if a.isWide then s else (s.call a).getD s)

/-- `WireBroken` records its reason, unless there is one. -/
def recordWire (s : Engine) (reason : String) : Engine :=
  if s.wireReason = "" then { s with wireReason := reason } else s

/-- `closeWith` under the mutex, where the engine is not yet closed. -/
def goClosed (s : Engine) (msg : String) : Engine :=
  { s with state := .closed, closeMsg := if s.wireReason ≠ "" then s.wireReason else msg }

end Engine

namespace Core

/-! ## What a section does -/

/-- What a channel's section leaves to do: the signals that it owes, and `forgetChannel` if it closed
the channel. -/
def owed (i : ℕ) (c c' : Channel) : List Section :=
  List.replicate (c'.readSignals - c.readSignals) (.chan i .signalRead) ++
    List.replicate (c'.writeSignals - c.writeSignals) (.chan i .signalWrite) ++
    if c.state ≠ .channelClosed ∧ c'.state = .channelClosed then [.forget i] else []

/-- A section of a bulk channel. A signal that was given leaves nothing to do. -/
def execChan (s : Core) (i : ℕ) (a : ChannelAction) : Core × List Section :=
  match s.chans[i]? with
  | none => (s, [])
  | some c =>
    match c.step a with
    | none => (s, [])
    | some c' => ({ s with chans := s.chans.set i c' }, owed i c c')

/-- `openChannel` of either entry point. -/
def openChannel (s : Core) (kind : ChannelKind) (arg : String) : Core × Option String :=
  let r := s.eng.openChannel kind.text s.chans.length
  if r.2 = none then ({ s with eng := r.1, chans := s.chans ++ [.new kind arg] }, none) else (s, r.2)

/-- What a section does, and what it leaves to do. -/
def exec (s : Core) : Section → Outcome (Core × List Section)
  | .read => .done (s, [])
  | .engine a => (s.eng.attempt a).map fun e => ({ s with eng := e }, [])
  | .recordWire reason => .done ({ s with eng := s.eng.recordWire reason }, [])
  | .breakWire reason =>
    .done ({ s with eng := { s.eng with conn := s.eng.conn.breakWire reason } }, [])
  | .failDecision =>
    if s.eng.decisionOnce then .done (s, [])
    else s.eng.hostKeyDecision.attemptClose ({ s with eng := s.eng.failDecision }, [])
  | .failCreds => .done ({ s with eng := { s.eng with credsReady := true } }, [])
  | .failPrompts =>
    if s.eng.promptsClosed then .done (s, [])
    else s.eng.promptAnswers.attemptClose ({ s with eng := s.eng.failPrompts }, [])
  | .failSign =>
    if s.eng.sigClosed then .done (s, [])
    else s.eng.sigReply.attemptClose ({ s with eng := s.eng.failSign }, [])
  | .closeConn => .done ({ s with eng := { s.eng with conn := s.eng.conn.close } }, [])
  | .closeWith msg =>
    if s.eng.state = .closed then .done (s, [])
    else
      .done ({ s with eng := s.eng.goClosed msg },
        [.closeAll ("session closed: " ++ (s.eng.goClosed msg).closeMsg), .closed])
  | .closeAll reason =>
    .done ({ s with eng := { s.eng with channels := [] } },
      s.eng.channels.map fun i => .chan i (.markClosed reason))
  | .closed => .done ({ s with closeReturned := true }, [])
  | .look data =>
    .done (s, [if s.eng.stdinPipe = none then .buffer data else .put data])
  | .put rest =>
    if rest = [] ∨ s.stdinClosed = true then .done (s, [])
    else if s.window = 0 then .parks
    else
      .done ({ s with
        eng := { s.eng with stdinPipe := s.eng.stdinPipe.map (· ++ rest.take s.window) }
        window := s.window - (rest.take s.window).length }, [.put (rest.drop s.window)])
  | .buffer data =>
    .done ({ s with eng := { s.eng with pendingIn := s.eng.pendingIn ++ data } }, [])
  | .openChannel kind arg => .done ((s.openChannel kind arg).1, [])
  | .chan i a => .done (s.execChan i a)
  | .forget i =>
    .done ({ s with eng := { s.eng with channels := s.eng.channels.erase i } }, [])

end Core

/-! ## Entry points -/

/-- The entry points of the engine and of its bulk channels. -/
inductive Export
  | feed (data : Bytes)
  | drain
  | pump
  | wireBroken (reason : String)
  | status
  | hostKeySha256
  | confirmHostKey (accept : Bool)
  | authenticatePassword (password : String)
  | authenticatePublickey (keys : List PublicKey)
  | authenticateInteractive
  | authenticateAuto (keys : List PublicKey)
  | pendingSignature
  | provideSignature (sig : Signature)
  | failSignature (reason : String)
  | pendingPrompts
  | answerPrompts (as : List String)
  | writeInput (data : Bytes)
  | drainOutput
  | resize (cols rows : ℕ)
  | exited
  | exitStatus
  | probeStart
  | probePoll
  | openSubsystem (name : String)
  | openExecChannel (command : String)
  | close
  | channelWrite (i : ℕ) (data : Bytes)
  | channelDrain (i : ℕ) (max : UInt32)
  | channelState (i : ℕ)
  | channelFinish (i : ℕ)
  | channelClose (i : ℕ)
deriving DecidableEq

/-- The sections of `failGates`. -/
def failGatesSections : List Section := [.failDecision, .failCreds, .failPrompts, .failSign]

/-- The sections of an entry point, in order. -/
def Export.sections : Export → List Section
  | .feed data => [.engine (.feed data)]
  | .drain => [.engine .drain]
  | .pump => [.engine .pump]
  | .wireBroken reason =>
    [.recordWire reason, .breakWire reason] ++ failGatesSections ++ [.closeWith reason]
  | .confirmHostKey accept => [.engine (.confirmHostKey accept)]
  | .authenticatePassword password => [.engine (.authenticatePassword password)]
  | .authenticatePublickey keys => [.engine (.authenticatePublickey keys)]
  | .authenticateInteractive => [.engine .authenticateInteractive]
  | .authenticateAuto keys => [.engine (.authenticateAuto keys)]
  | .provideSignature sig => [.engine (.provideSignature sig)]
  | .failSignature reason => [.engine (.failSignature reason)]
  | .answerPrompts as => [.engine (.answerPrompts as)]
  | .writeInput data => [.look data]
  | .drainOutput => [.engine .drainOutput]
  | .resize cols rows => [.engine (.resize cols rows)]
  | .probeStart => [.engine .probeStart]
  | .probePoll => [.engine .probePoll]
  | .openSubsystem name => [.openChannel .subsystem name]
  | .openExecChannel command => [.openChannel .exec command]
  | .close => failGatesSections ++ [.closeConn, .closeWith "session closed"]
  | .channelWrite i data => [.chan i (.write data)]
  | .channelDrain i max => [.chan i (.drain max)]
  | .channelFinish i => [.chan i .finish]
  | .channelClose i => [.chan i .close]
  | .status | .hostKeySha256 | .pendingSignature | .pendingPrompts | .exited | .exitStatus
  | .channelState _ => [.read]

/-! ## Steps -/

/-- What the calls share, and where they stand. -/
abbrev System := Pool Core Section

/-- What happens next. -/
inductive SystemAction
  /-- Thread `i` calls an entry point. -/
  | call (i : ℕ) (e : Export)
  /-- Thread `i` goes through its next section. -/
  | advance (i : ℕ)
  /-- What the ssh stack's goroutines do. -/
  | engine (a : Action)
  /-- `run` closes the engine: the handshake failed, or the session did not open, or the shell is
  gone. -/
  | handshakeFailed (err : String)
  | openFailed (msg : String)
  | runClose
  /-- What the goroutines of channel `i` do. -/
  | chan (i : ℕ) (a : ChannelAction)
  /-- A goroutine that closed channel `i` forgets it. -/
  | forget (i : ℕ)
  /-- The window of the shell changes, or its stdin is closed. -/
  | window (n : ℕ)
  | closeStdin
deriving DecidableEq

/-- The actions of the engine that are something else here. -/
def Action.isCoreSplit : Action → Bool
  | .endCall | .handshakeFailed _ | .openFailed _ | .runClose | .forgetChannel _ => true
  | _ => false

/-- The actions of a channel that belong to a call. -/
def ChannelAction.isCall : ChannelAction → Bool
  | .write _ | .drain _ | .finish | .close | .markClosed _ => true
  | _ => false

namespace System

/-- `run` goes on to close the engine. -/
def runCloses (p : System) (pc : RunPc → Bool) (msg : RunPc → String) : Option System :=
  if pc p.shared.eng.runPc = true ∧ p.threads 0 = [] then
    some {
      shared := { p.shared with eng := { p.shared.eng with runPc := .done } }
      threads := Function.update p.threads 0 [.closeWith (msg p.shared.eng.runPc)] }
  else none

/-- One step. -/
def step (p : System) : SystemAction → Option System
  | .call i e =>
    if i = 0 ∨ p.threads i ≠ [] then none
    else some { p with threads := Function.update p.threads i e.sections }
  | .advance i => advance Core.exec p i
  | .engine a =>
    if a.isCoreSplit then none
    else (p.shared.eng.background a).map fun e => { p with shared := { p.shared with eng := e } }
  | .handshakeFailed err => p.runCloses (· = .handshaking) fun _ => "ssh: " ++ err
  | .openFailed msg => p.runCloses (· = .opening) fun _ => msg
  | .runClose =>
    p.runCloses (fun pc => pc matches .closing _) fun pc =>
      match pc with
      | .closing msg => msg
      | _ => ""
  | .chan i a =>
    if a.isCall then none
    else
      p.shared.chans[i]?.bind fun c => (c.step a).map fun c' =>
        { p with shared := { p.shared with chans := p.shared.chans.set i c' } }
  | .forget i =>
    p.shared.chans[i]?.bind fun c =>
      if c.state = .channelClosed then
        some { p with shared := { p.shared with
          eng := { p.shared.eng with channels := p.shared.eng.channels.erase i } } }
      else none
  | .window n => some { p with shared := { p.shared with window := n } }
  | .closeStdin => some { p with shared := { p.shared with stdinClosed := true } }

/-- A new session. -/
def start (user : String) (cols rows : ℕ) (command : String) : System where
  shared := { eng := .new user cols rows command }
  threads _ := []

end System

/-! ## What a section does to the frame -/

variable {α β : Type}

@[simp]
theorem Chan.attemptSend_eq_done {c : Chan α} {s t : β} :
    c.attemptSend s = .done t ↔ c.closed = false ∧ c.buf = [] ∧ s = t := by
  unfold attemptSend
  split_ifs with hclosed hbuf <;> simp_all

@[simp]
theorem Chan.attemptClose_eq_done {c : Chan α} {s t : β} :
    c.attemptClose s = .done t ↔ c.closed = false ∧ s = t := by
  unfold attemptClose
  split_ifs with hclosed <;> simp_all

/-- A section that is an export keeps the frame of the engine. -/
theorem Engine.frame_attempt {s s' : Engine} {a : Action} (h : s.attempt a = .done s') :
    Frame s s' := by
  have hcall : ∀ b : Action, Frame s (if b.isWide then s else (s.call b).getD s) := by
    intro b
    split_ifs with hwide
    · exact .refl s
    · cases hb : s.call b with
      | none => exact .refl s
      | some t => exact frame_of_call hb (eq_false_of_ne_true hwide)
  unfold attempt at h
  split at h
  · split_ifs at h with honce
    · cases h
      exact .refl s
    · obtain ⟨-, -, rfl⟩ := Chan.attemptSend_eq_done.1 h
      exact frame_of_call (show s.call (.confirmHostKey _) = _ from rfl) rfl
  · split_ifs at h with hok
    · obtain ⟨-, -, rfl⟩ := Chan.attemptSend_eq_done.1 h
      exact frame_answerPrompts s _
    · cases h
      exact frame_answerPrompts s _
  · split_ifs at h with hok
    · obtain ⟨-, -, rfl⟩ := Chan.attemptSend_eq_done.1 h
      exact frame_provideSignature s _
    · cases h
      exact frame_provideSignature s _
  · split_ifs at h with hok
    · cases h
      exact .refl s
    · obtain ⟨-, -, rfl⟩ := Chan.attemptSend_eq_done.1 h
      exact frame_failSignature s _
  · cases h
    exact hcall _

end SshCore
