import Wosh.SshCore.Engine

set_option relaxedAutoImplicit false
set_option autoImplicit false

/-!
# What most actions of the engine leave alone

The gates of authentication and the terminal and probe planes touch neither what is typed, nor the
goroutine of `run`, nor the registry of the bulk channels, nor the reason to close; and only a teardown
closes the engine.

## Main definitions

* `SshCore.Engine.Frame` — the frame of these actions.

## Main results

* `SshCore.Engine.frame_of_call`, `SshCore.Engine.frame_of_background` — the actions that keep it.
-/

namespace SshCore

/-- The exports that do more than their own plane: `WriteInput`, the teardowns, and opening a
channel. -/
def Action.isWide : Action → Bool
  | .writeInput _ | .wireBroken _ | .close | .openChannel _ _ => true
  | _ => false

/-- The actions of the goroutines that are those of `run`, or a teardown. -/
def Action.isRun : Action → Bool
  | .endCall | .handshakeFailed _ | .handshakeDone | .openFailed _ | .shellStarted | .flushInput
  | .becomeReady | .shellExited _ | .runClose | .forgetChannel _ => true
  | _ => false

namespace Engine

variable {s s' : Engine} {a : Action}

/-- What is typed, `run`, the registry, and the reason to close stay; so does an engine that is
closed, or is not. -/
structure Frame (s s' : Engine) : Prop where
  stdinPipe : s'.stdinPipe = s.stdinPipe
  pendingIn : s'.pendingIn = s.pendingIn
  runPc : s'.runPc = s.runPc
  closeMsg : s'.closeMsg = s.closeMsg
  wireReason : s'.wireReason = s.wireReason
  channels : s'.channels = s.channels
  client : s'.client = s.client
  closed : s'.state = .closed ↔ s.state = .closed

theorem Frame.refl (s : Engine) : Frame s s :=
  ⟨rfl, rfl, rfl, rfl, rfl, rfl, rfl, Iff.rfl⟩

theorem frame_failDecision (s : Engine) : Frame s s.failDecision := by
  unfold failDecision
  split_ifs <;> exact ⟨rfl, rfl, rfl, rfl, rfl, rfl, rfl, Iff.rfl⟩

theorem frame_failPrompts (s : Engine) : Frame s s.failPrompts := by
  unfold failPrompts
  split_ifs <;> exact ⟨rfl, rfl, rfl, rfl, rfl, rfl, rfl, Iff.rfl⟩

theorem frame_failSign (s : Engine) : Frame s s.failSign := by
  unfold failSign
  split_ifs <;> exact ⟨rfl, rfl, rfl, rfl, rfl, rfl, rfl, Iff.rfl⟩

theorem frame_supplyCreds (s : Engine) (c : Credential) : Frame s (s.supplyCreds c).1 := by
  unfold supplyCreds
  split_ifs <;> exact ⟨rfl, rfl, rfl, rfl, rfl, rfl, rfl, Iff.rfl⟩

theorem frame_surfacePrompts (s : Engine) (single : Bool) (batch : PromptBatch) :
    Frame s (s.surfacePrompts single batch) := by
  unfold surfacePrompts answer
  split_ifs with h
  · exact ⟨rfl, rfl, rfl, rfl, rfl, rfl, rfl, Iff.rfl⟩
  · push Not at h
    exact ⟨rfl, rfl, rfl, rfl, rfl, rfl, rfl, by simp [h.1]⟩

theorem frame_resumeCreds (s : Engine) (m : AuthMethod) : Frame s (s.resumeCreds m) := by
  cases m <;> simp only [resumeCreds] <;> split_ifs <;>
    first
    | exact frame_surfacePrompts s _ _
    | exact ⟨rfl, rfl, rfl, rfl, rfl, rfl, rfl, Iff.rfl⟩

theorem frame_replySignature (s : Engine) (reply : Except String Signature) :
    Frame s (s.replySignature reply) := by
  refine ⟨rfl, rfl, rfl, rfl, rfl, rfl, rfl, ?_⟩
  unfold replySignature
  dsimp only
  split_ifs with h <;> simp [h]

theorem frame_answerPrompts (s : Engine) (as : List String) : Frame s (s.answerPrompts as).1 := by
  unfold answerPrompts
  split
  · exact .refl s
  · split
    · exact .refl s
    · split_ifs with hlen hstate
      · exact .refl s
      · exact ⟨rfl, rfl, rfl, rfl, rfl, rfl, rfl, by simp [hstate]⟩
      · exact ⟨rfl, rfl, rfl, rfl, rfl, rfl, rfl, Iff.rfl⟩

theorem frame_provideSignature (s : Engine) (sig : Signature) :
    Frame s (s.provideSignature sig).1 := by
  unfold provideSignature
  split
  · split
    · exact .refl s
    · exact frame_replySignature s _
  · exact .refl s

theorem frame_failSignature (s : Engine) (reason : String) : Frame s (s.failSignature reason) := by
  unfold failSignature
  split
  · exact frame_replySignature s _
  · exact .refl s

/-- An export keeps the frame, unless it is wide. -/
theorem frame_of_call (hcall : s.call a = some s') (ha : a.isWide = false) : Frame s s' := by
  cases a <;> simp only [call, Option.some.injEq, reduceCtorEq] at hcall <;> subst hcall
  case wireBroken reason => cases ha
  case close => cases ha
  case writeInput data => cases ha
  case openChannel kind c => cases ha
  case confirmHostKey accept =>
    unfold confirmHostKey
    split_ifs <;> exact ⟨rfl, rfl, rfl, rfl, rfl, rfl, rfl, Iff.rfl⟩
  case authenticatePassword p => exact frame_supplyCreds s _
  case authenticatePublickey keys =>
    unfold authenticatePublickey
    split
    · exact .refl s
    · exact .refl s
    · exact frame_supplyCreds s _
  case authenticateInteractive => exact frame_supplyCreds s _
  case authenticateAuto keys =>
    unfold authenticateAuto
    split
    · exact .refl s
    · exact frame_supplyCreds s _
  case answerPrompts as => exact frame_answerPrompts s as
  case provideSignature sig => exact frame_provideSignature s sig
  case failSignature reason => exact frame_failSignature s reason
  case probeStart =>
    unfold probeStart
    split_ifs <;> exact ⟨rfl, rfl, rfl, rfl, rfl, rfl, rfl, Iff.rfl⟩
  case probePoll =>
    unfold probePoll
    split <;> exact ⟨rfl, rfl, rfl, rfl, rfl, rfl, rfl, Iff.rfl⟩
  all_goals exact ⟨rfl, rfl, rfl, rfl, rfl, rfl, rfl, Iff.rfl⟩

/-- So does a goroutine, unless it is that of `run`. -/
theorem frame_of_background (hback : s.background a = some s') (ha : a.isRun = false) :
    Frame s s' := by
  cases a <;> simp only [background, reduceCtorEq, Option.map_eq_some_iff,
    Option.ite_none_right_eq_some, Option.some.injEq] at hback
  case hostKeyCallback fingerprint =>
    obtain ⟨-, rfl⟩ := hback
    refine ⟨rfl, rfl, rfl, rfl, rfl, rfl, rfl, ?_⟩
    unfold hostKeyCallback
    dsimp only
    split_ifs with h <;> simp_all
  case hostKeyVerdict =>
    obtain ⟨_, _, rfl⟩ := hostKeyVerdict_cases hback
    exact ⟨rfl, rfl, rfl, rfl, rfl, rfl, rfl, Iff.rfl⟩
  case hostKeyReturn =>
    split at hback <;> cases hback
    unfold hostKeyReturn setState
    split_ifs with haccepted hclosed
    · exact ⟨rfl, rfl, rfl, rfl, rfl, rfl, rfl, Iff.rfl⟩
    · exact ⟨rfl, rfl, rfl, rfl, rfl, rfl, rfl, by simp [hclosed]⟩
    · exact ⟨rfl, rfl, rfl, rfl, rfl, rfl, rfl, Iff.rfl⟩
  case authCallback method =>
    obtain ⟨-, rfl⟩ := hback
    exact ⟨rfl, rfl, rfl, rfl, rfl, rfl, rfl, Iff.rfl⟩
  case sign key data =>
    obtain ⟨-, rfl⟩ := hback
    unfold sign answer
    split_ifs with hsig hstate
    · exact ⟨rfl, rfl, rfl, rfl, rfl, rfl, rfl, Iff.rfl⟩
    · exact ⟨rfl, rfl, rfl, rfl, rfl, rfl, rfl, by simp [hstate]⟩
    · exact ⟨rfl, rfl, rfl, rfl, rfl, rfl, rfl, Iff.rfl⟩
  case authResume =>
    obtain ⟨method, rfl⟩ | ⟨_, _, rfl⟩ | ⟨_, _, rfl⟩ := authResume_cases hback
    · exact frame_resumeCreds s method
    · exact ⟨rfl, rfl, rfl, rfl, rfl, rfl, rfl, Iff.rfl⟩
    · exact ⟨rfl, rfl, rfl, rfl, rfl, rfl, rfl, Iff.rfl⟩
  case connRead n =>
    obtain ⟨p, -, rfl⟩ := hback
    exact ⟨rfl, rfl, rfl, rfl, rfl, rfl, rfl, Iff.rfl⟩
  case connWrite b =>
    subst hback
    exact ⟨rfl, rfl, rfl, rfl, rfl, rfl, rfl, Iff.rfl⟩
  case output b =>
    subst hback
    exact ⟨rfl, rfl, rfl, rfl, rfl, rfl, rfl, Iff.rfl⟩
  case probeDone r =>
    obtain ⟨-, rfl⟩ := hback
    exact ⟨rfl, rfl, rfl, rfl, rfl, rfl, rfl, Iff.rfl⟩
  all_goals cases ha

end Engine

end SshCore
