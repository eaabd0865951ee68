import Wosh.SshCore.Engine

set_option relaxedAutoImplicit false
set_option autoImplicit false

/-!
# The pty output of the engine

Only the program writes to the buffer of pty output, at its end, and only `DrainOutput` takes from it.

## Main definitions

* `SshCore.Action.written` — what an action writes to the pty.

## Main results

* `SshCore.Engine.out_of_step` — what becomes of the buffer in a step.
-/

namespace SshCore

open Tunnel

/-- What an action writes to the pty. -/
def Action.written : Action → Bytes
  | .output b => b
  | _ => []

namespace Engine

variable {s s' : Engine} {a : Action}

theorem out_failGates (s : Engine) : s.failGates.out = s.out := by
  unfold failGates failSign failPrompts failDecision
  split_ifs <;> rfl

theorem out_closeWith (s : Engine) (msg : String) : (s.closeWith msg).out = s.out := by
  unfold closeWith
  split_ifs <;> rfl

theorem out_supplyCreds (s : Engine) (c : Credential) : (s.supplyCreds c).1.out = s.out := by
  unfold supplyCreds
  split_ifs <;> rfl

theorem out_resumeCreds (s : Engine) (m : AuthMethod) : (s.resumeCreds m).out = s.out := by
  cases m <;> simp only [resumeCreds, surfacePrompts, answer] <;> split_ifs <;> rfl

/-- No export but `DrainOutput` touches the buffer. -/
theorem out_of_call (h : s.call a = some s') (ha : a ≠ .drainOutput) : s'.out = s.out := by
  cases a <;> simp only [call, Option.some.injEq, reduceCtorEq] at h <;> subst h
  case drainOutput => exact absurd rfl ha
  case wireBroken reason => exact out_failGates _
  case close => exact out_failGates s
  case confirmHostKey accept =>
    unfold confirmHostKey
    split_ifs <;> rfl
  case authenticatePassword p => exact out_supplyCreds s _
  case authenticatePublickey keys =>
    unfold authenticatePublickey
    split
    · rfl
    · rfl
    · exact out_supplyCreds s _
  case authenticateInteractive => exact out_supplyCreds s _
  case authenticateAuto keys =>
    unfold authenticateAuto
    split
    · rfl
    · exact out_supplyCreds s _
  case answerPrompts as =>
    unfold answerPrompts
    split
    · rfl
    · split
      · rfl
      · split_ifs <;> rfl
  case provideSignature sig =>
    unfold provideSignature
    split
    · split <;> rfl
    · rfl
  case failSignature reason =>
    unfold failSignature
    split <;> rfl
  case writeInput data =>
    unfold writeInput
    split <;> rfl
  case probeStart =>
    unfold probeStart
    split_ifs <;> rfl
  case probePoll =>
    unfold probePoll
    split <;> rfl
  case openChannel kind c =>
    unfold openChannel
    split_ifs <;> rfl
  all_goals rfl

/-- Of the goroutines, only the one that copies the program's output does. -/
theorem out_of_background (h : s.background a = some s') : s'.out = s.out ++ a.written := by
  cases a <;> simp only [background, reduceCtorEq, Option.map_eq_some_iff,
    Option.ite_none_right_eq_some, Option.some.injEq] at h <;>
    simp only [Action.written, List.append_nil]
  case endCall =>
    obtain ⟨msg, -, rfl⟩ := h
    exact out_closeWith s msg
  case hostKeyVerdict =>
    obtain ⟨_, _, rfl⟩ := hostKeyVerdict_cases h
    rfl
  case hostKeyReturn =>
    split at h <;> cases h
    unfold hostKeyReturn setState
    split_ifs <;> rfl
  case sign key data =>
    obtain ⟨-, rfl⟩ := h
    unfold sign answer
    split_ifs <;> rfl
  case authResume =>
    obtain ⟨method, rfl⟩ | ⟨_, _, rfl⟩ | ⟨_, _, rfl⟩ := authResume_cases h
    · exact out_resumeCreds s method
    · rfl
    · rfl
  case connRead n =>
    obtain ⟨p, -, rfl⟩ := h
    rfl
  case handshakeFailed err =>
    obtain ⟨-, rfl⟩ := h
    exact out_closeWith s _
  case openFailed msg =>
    obtain ⟨-, rfl⟩ := h
    exact out_closeWith s _
  case becomeReady =>
    obtain ⟨-, rfl⟩ := h
    unfold setState
    split_ifs <;> rfl
  case runClose =>
    split at h <;> cases h
    exact out_closeWith s _
  case connWrite b => rw [← h]
  case output b => rw [← h]
  case forgetChannel c => rw [← h]
  all_goals
    obtain ⟨-, rfl⟩ := h
    rfl

/-- **What becomes of the buffer in a step** other than `DrainOutput`. -/
theorem out_of_step (h : s.step a = some s') (ha : a ≠ .drainOutput) :
    s'.out = s.out ++ a.written := by
  unfold step at h
  split at h
  · rename_i e hcall
    cases h
    split_ifs at hcall
    have hwritten : a.written = [] := by
      cases a <;> first | rfl | cases hcall
    rw [hwritten, List.append_nil]
    exact out_of_call hcall ha
  · exact out_of_background h

end Engine

end SshCore
