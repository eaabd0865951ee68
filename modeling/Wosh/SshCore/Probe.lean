import Wosh.SshCore.Engine

set_option relaxedAutoImplicit false
set_option autoImplicit false

/-!
# The probe plane of the engine

`ProbeStart` and `ProbePoll` of `ssh-core/core/session.go`: at most one probe is in flight, from its start
until its result is polled. Nothing else that the engine does touches the probe, and nothing makes an
engine ready again that is not ready any more.

## Main definitions

* `SshCore.Engine.Apart` — what everything but the probe plane leaves alone.
* `SshCore.Engine.Published` — a probe was started only after `run` had published `ready`.

## Main results

* `SshCore.Engine.apart_of_call`, `SshCore.Engine.apart_of_background` — the actions that keep the frame.
* `SshCore.Engine.probeStart_refused_iff` — when a probe is said to be in flight already.
* `SshCore.Engine.step_apart` — a step of anything else, as far as the probe plane can tell.
-/

namespace SshCore

/-- The actions of the probe plane. -/
def Action.isProbe : Action → Bool
  | .probeStart | .probePoll | .probeDone _ => true
  | _ => false

/-- `run` has published `ready`, or never will. -/
def RunPc.isLate : RunPc → Bool
  | .waiting | .closing _ | .done => true
  | _ => false

namespace Engine

variable {s s' : Engine} {a : Action}

/-! ## What leaves the probe alone -/

/-- The probe stays as it is; an engine that is ready was so before, and `run` does not go back. -/
structure Apart (s s' : Engine) : Prop where
  inFlight : s'.probeInFlight = s.probeInFlight
  result : s'.probeResult = s.probeResult
  ready : s'.state = .ready → s.state = .ready
  late : s.runPc.isLate = true → s'.runPc.isLate = true

theorem Apart.refl (s : Engine) : Apart s s := ⟨rfl, rfl, id, id⟩

theorem Apart.trans {s'' : Engine} (h : Apart s s') (h' : Apart s' s'') : Apart s s'' :=
  ⟨h'.inFlight.trans h.inFlight, h'.result.trans h.result, h.ready ∘ h'.ready, h'.late ∘ h.late⟩

theorem apart_failDecision (s : Engine) : Apart s s.failDecision := by
  unfold failDecision
  split_ifs <;> exact ⟨rfl, rfl, id, id⟩

theorem apart_failPrompts (s : Engine) : Apart s s.failPrompts := by
  unfold failPrompts
  split_ifs <;> exact ⟨rfl, rfl, id, id⟩

theorem apart_failSign (s : Engine) : Apart s s.failSign := by
  unfold failSign
  split_ifs <;> exact ⟨rfl, rfl, id, id⟩

theorem apart_failGates (s : Engine) : Apart s s.failGates := by
  have hcreds : Apart s.failDecision { s.failDecision with credsReady := true } := ⟨rfl, rfl, id, id⟩
  exact (((apart_failDecision s).trans hcreds).trans (apart_failPrompts _)).trans (apart_failSign _)

theorem apart_closeWith (s : Engine) (msg : String) : Apart s (s.closeWith msg) := by
  unfold closeWith
  by_cases h : s.state = .closed
  · rw [if_pos h]
    exact .refl s
  · rw [if_neg h]
    exact ⟨rfl, rfl, by simp, id⟩

theorem apart_supplyCreds (s : Engine) (c : Credential) : Apart s (s.supplyCreds c).1 := by
  unfold supplyCreds
  split_ifs <;> exact ⟨rfl, rfl, id, id⟩

theorem apart_surfacePrompts (s : Engine) (single : Bool) (batch : PromptBatch) :
    Apart s (s.surfacePrompts single batch) := by
  unfold surfacePrompts answer
  split_ifs
  · exact ⟨rfl, rfl, id, id⟩
  · exact ⟨rfl, rfl, by simp, id⟩

theorem apart_resumeCreds (s : Engine) (m : AuthMethod) : Apart s (s.resumeCreds m) := by
  cases m <;> simp only [resumeCreds] <;> split_ifs <;>
    first
    | exact apart_surfacePrompts s _ _
    | exact ⟨rfl, rfl, id, id⟩

theorem apart_replySignature (s : Engine) (reply : Except String Signature) :
    Apart s (s.replySignature reply) := by
  refine ⟨rfl, rfl, ?_, id⟩
  unfold replySignature
  dsimp only
  split_ifs <;> simp

theorem apart_answerPrompts (s : Engine) (as : List String) : Apart s (s.answerPrompts as).1 := by
  unfold answerPrompts
  split
  · exact .refl s
  · split
    · exact .refl s
    · split_ifs
      · exact .refl s
      · exact ⟨rfl, rfl, by simp, id⟩
      · exact ⟨rfl, rfl, id, id⟩

theorem apart_provideSignature (s : Engine) (sig : Signature) :
    Apart s (s.provideSignature sig).1 := by
  unfold provideSignature
  split
  · split
    · exact .refl s
    · exact apart_replySignature s _
  · exact .refl s

theorem apart_failSignature (s : Engine) (reason : String) : Apart s (s.failSignature reason) := by
  unfold failSignature
  split
  · exact apart_replySignature s _
  · exact .refl s

/-- An export leaves the probe alone, unless it is one of the probe plane. -/
theorem apart_of_call (hcall : s.call a = some s') (ha : a.isProbe = false) : Apart s s' := by
  cases a <;> simp only [call, Option.some.injEq, reduceCtorEq] at hcall <;> subst hcall
  case probeStart => cases ha
  case probePoll => cases ha
  case wireBroken reason =>
    have hgates := apart_failGates { s with
      wireReason := if s.wireReason = "" then reason else s.wireReason
      conn := s.conn.breakWire reason }
    exact ⟨hgates.inFlight, hgates.result, hgates.ready, hgates.late⟩
  case close => exact (apart_failGates s).trans ⟨rfl, rfl, id, id⟩
  case confirmHostKey accept =>
    unfold confirmHostKey
    split_ifs <;> exact ⟨rfl, rfl, id, id⟩
  case authenticatePassword p => exact apart_supplyCreds s _
  case authenticatePublickey keys =>
    unfold authenticatePublickey
    split
    · exact .refl s
    · exact .refl s
    · exact apart_supplyCreds s _
  case authenticateInteractive => exact apart_supplyCreds s _
  case authenticateAuto keys =>
    unfold authenticateAuto
    split
    · exact .refl s
    · exact apart_supplyCreds s _
  case answerPrompts as => exact apart_answerPrompts s as
  case provideSignature sig => exact apart_provideSignature s sig
  case failSignature reason => exact apart_failSignature s reason
  case writeInput data =>
    unfold writeInput
    split <;> exact ⟨rfl, rfl, id, id⟩
  case openChannel kind c =>
    unfold openChannel
    split_ifs <;> exact ⟨rfl, rfl, id, id⟩
  all_goals exact ⟨rfl, rfl, id, id⟩

/-- So does a goroutine, unless it is a probe's or that of `run` where it publishes `ready`. -/
theorem apart_of_background (hback : s.background a = some s') (ha : a.isProbe = false)
    (hready : a ≠ .becomeReady) : Apart s s' := by
  cases a <;> simp only [background, reduceCtorEq, Option.map_eq_some_iff,
    Option.ite_none_right_eq_some, Option.some.injEq] at hback
  case becomeReady => exact absurd rfl hready
  case probeDone r => cases ha
  case endCall =>
    obtain ⟨msg, -, rfl⟩ := hback
    exact (apart_closeWith s msg).trans ⟨rfl, rfl, id, id⟩
  case hostKeyCallback fingerprint =>
    obtain ⟨-, rfl⟩ := hback
    refine ⟨rfl, rfl, ?_, id⟩
    unfold hostKeyCallback
    dsimp only
    split_ifs <;> simp
  case hostKeyVerdict =>
    obtain ⟨_, _, rfl⟩ := hostKeyVerdict_cases hback
    exact ⟨rfl, rfl, id, id⟩
  case hostKeyReturn =>
    split at hback <;> cases hback
    unfold hostKeyReturn setState
    split_ifs
    · exact ⟨rfl, rfl, id, id⟩
    · exact ⟨rfl, rfl, by simp, id⟩
    · exact ⟨rfl, rfl, id, id⟩
  case authCallback method =>
    obtain ⟨-, rfl⟩ := hback
    exact ⟨rfl, rfl, id, id⟩
  case sign key data =>
    obtain ⟨-, rfl⟩ := hback
    unfold sign answer
    split_ifs
    · exact ⟨rfl, rfl, id, id⟩
    · exact ⟨rfl, rfl, by simp, id⟩
    · exact ⟨rfl, rfl, id, id⟩
  case authResume =>
    obtain ⟨method, rfl⟩ | ⟨_, _, rfl⟩ | ⟨_, _, rfl⟩ := authResume_cases hback
    · exact apart_resumeCreds s method
    · exact ⟨rfl, rfl, id, id⟩
    · exact ⟨rfl, rfl, id, id⟩
  case connRead n =>
    obtain ⟨p, -, rfl⟩ := hback
    exact ⟨rfl, rfl, id, id⟩
  case connWrite b =>
    subst hback
    exact ⟨rfl, rfl, id, id⟩
  case handshakeFailed err =>
    obtain ⟨-, rfl⟩ := hback
    exact (apart_closeWith s _).trans ⟨rfl, rfl, id, fun _ => rfl⟩
  case handshakeDone =>
    obtain ⟨hpc, rfl⟩ := hback
    exact ⟨rfl, rfl, id, by simp [hpc, RunPc.isLate]⟩
  case openFailed msg =>
    obtain ⟨-, rfl⟩ := hback
    exact (apart_closeWith s msg).trans ⟨rfl, rfl, id, fun _ => rfl⟩
  case shellStarted =>
    obtain ⟨hpc, rfl⟩ := hback
    exact ⟨rfl, rfl, id, by simp [hpc, RunPc.isLate]⟩
  case flushInput =>
    obtain ⟨hpc, rfl⟩ := hback
    exact ⟨rfl, rfl, id, by simp [hpc, RunPc.isLate]⟩
  case output b =>
    subst hback
    exact ⟨rfl, rfl, id, id⟩
  case shellExited w =>
    obtain ⟨-, rfl⟩ := hback
    exact ⟨rfl, rfl, id, fun _ => rfl⟩
  case runClose =>
    split at hback <;> cases hback
    exact (apart_closeWith s _).trans ⟨rfl, rfl, id, fun _ => rfl⟩
  case forgetChannel c =>
    subst hback
    exact ⟨rfl, rfl, id, id⟩

/-! ## Starting and polling -/

/-- What `ProbeStart` says where a probe has not been polled yet. -/
def alreadyInFlight : String := "probe-start: a probe is already in flight"

/-- **A probe is said to be in flight already where one is, and the engine is ready.** -/
theorem probeStart_refused_iff :
    s.probeStart.2 = some alreadyInFlight ↔ s.state = .ready ∧ s.probeInFlight = true := by
  unfold probeStart
  split_ifs with hstate hflight
  · have hne : "probe-start: session is not ready" ≠ alreadyInFlight := by decide
    simp [hstate, hne]
  · push Not at hstate
    simp [hstate, hflight, alreadyInFlight]
  · simp [hflight]

/-- A probe that is refused changes nothing. -/
theorem probeStart_of_some {e : String} (h : s.probeStart.2 = some e) : s.probeStart.1 = s := by
  unfold probeStart at h ⊢
  split_ifs at h ⊢ <;> rfl

/-- A probe that is started is in flight, and none was before. -/
theorem probeStart_of_none (h : s.probeStart.2 = none) : s.state = .ready ∧ s.probeInFlight = false ∧
    s.probeStart.1 = { s with probeInFlight := true, probeResult := none } := by
  unfold probeStart at h ⊢
  split_ifs at h ⊢ with hstate hflight
  exact ⟨not_not.1 hstate, by simpa using hflight, rfl⟩

/-- A poll that has nothing to hand over changes nothing. -/
theorem probePoll_of_none (h : s.probePoll.2 = none) :
    s.probeResult = none ∧ s.probePoll.1 = s := by
  unfold probePoll at h ⊢
  split at h
  case h_1 hresult => exact ⟨hresult, rfl⟩
  case h_2 => cases h

/-- A result is handed over, and nothing is in flight any more. -/
theorem probePoll_of_some {r : ProbeResult} (h : s.probePoll.2 = some r) :
    s.probeResult = some r ∧
      s.probePoll.1 = { s with probeResult := none, probeInFlight := false } := by
  unfold probePoll at h ⊢
  split at h
  case h_1 => cases h
  case h_2 hresult =>
    cases h
    exact ⟨hresult, rfl⟩

/-- A probe is in flight only once `run` has published `ready`. -/
def Published (s : Engine) : Prop :=
  s.state = .ready ∨ s.probeInFlight = true → s.runPc.isLate = true

theorem published_new (user : String) (cols rows : ℕ) (command : String) :
    (new user cols rows command).Published := by
  rintro (h | h) <;> cases h

theorem Apart.published (h : Apart s s') (hs : s.Published) : s'.Published := by
  rintro (hready | hflight)
  · exact h.late (hs (.inl (h.ready hready)))
  · exact h.late (hs (.inr (h.inFlight ▸ hflight)))

/-- **What a step of anything else does, as far as the probe plane can tell.** -/
theorem step_apart (hs : s.Published) (ha : a.isProbe = false) (hstep : s.step a = some s') :
    s'.Published ∧ s'.probeInFlight = s.probeInFlight ∧ s'.probeResult = s.probeResult ∧
      (s.probeInFlight = true → s'.state = .ready → s.state = .ready) := by
  have hapart : Apart s s' → s'.Published ∧ s'.probeInFlight = s.probeInFlight ∧
      s'.probeResult = s.probeResult ∧
        (s.probeInFlight = true → s'.state = .ready → s.state = .ready) :=
    fun h => ⟨h.published hs, h.inFlight, h.result, fun _ => h.ready⟩
  unfold step at hstep
  split at hstep
  case h_1 s'' hcall =>
    cases hstep
    split_ifs at hcall
    exact hapart (apart_of_call hcall ha)
  case h_2 =>
    by_cases hready : a = .becomeReady
    · subst hready
      simp only [background, Option.ite_none_right_eq_some, Option.some.injEq] at hstep
      obtain ⟨hpc, rfl⟩ := hstep
      -- `run` stands before the publication, so that no probe is in flight.
      have hearly : ¬ (s.state = .ready ∨ s.probeInFlight = true) := by
        intro h
        have hlate := hs h
        rw [hpc] at hlate
        cases hlate
      have hsame : (s.setState .ready).probeInFlight = s.probeInFlight ∧
          (s.setState .ready).probeResult = s.probeResult := by
        unfold setState
        split_ifs <;> exact ⟨rfl, rfl⟩
      exact ⟨fun _ => rfl, hsame.1, hsame.2, fun hflight => absurd (.inr hflight) hearly⟩
    · exact hapart (apart_of_background hstep ha hready)

end Engine

end SshCore
