import Wosh.Lib.Gate
import Wosh.SshCore.Core

set_option relaxedAutoImplicit false
set_option autoImplicit false

/-!
# The gates of the signer and of the prompts

`externalSigner.Sign` and `surfacePrompts` of `ssh-core/core` publish what they want and park; the
embedder polls for it and answers, and `failGates` releases whoever is left. Each is a `Gate.Slot`, and
every section of a call and every piece of a goroutine does to it what may be done to one.

## Main definitions

* `SshCore.Engine.signSlot`, `SshCore.Engine.promptSlot` — the two slots of an engine.
* `SshCore.System.signEvents`, `SshCore.System.promptEvents` — what a step does at them.
* `SshCore.GatesHold` — what the embedder and the ssh stack rely on.

## Main results

* `SshCore.gates_deliver` — it holds of every run.
-/

namespace SshCore

open Run Threads

/-- What happens at the gate of the signer, and at that of the prompts. -/
abbrev SignEvent := Gate.Event SignRequest (Except String Signature)
abbrev PromptEvent := Gate.Event PromptBatch (List String)

/-- The auth goroutine is parked on the answers to a batch. -/
def AuthPc.isPrompts : AuthPc → Bool
  | .prompts _ => true
  | _ => false

/-- The exports that answer at a gate. -/
def Action.isGate : Action → Bool
  | .confirmHostKey _ | .answerPrompts _ | .provideSignature _ | .failSignature _ => true
  | _ => false

/-- The reply fits the request: a refusal does, and a signature that is not objected to. -/
def SignRequest.Fits (req : SignRequest) : Except String Signature → Prop
  | .ok sig => Engine.signatureError req sig = none
  | .error _ => True

/-- One answer for each prompt. -/
def PromptBatch.Fits (batch : PromptBatch) (as : List String) : Prop :=
  as.length = batch.prompts.length

/-- What a receive finds. -/
theorem Chan.recv_eq_some {α : Type} {c : Chan α} {p : Option α × Chan α}
    (h : c.recv = some p) :
    (∃ v vs, c.buf = v :: vs ∧ p = (some v, { c with buf := vs })) ∨
      (c.buf = [] ∧ c.closed = true ∧ p = (none, c)) := by
  unfold Chan.recv at h
  split at h
  · rename_i v vs hbuf
    exact .inl ⟨v, vs, hbuf, (Option.some.inj h).symm⟩
  · rename_i hbuf
    split_ifs at h with hclosed
    exact .inr ⟨hbuf, hclosed, (Option.some.inj h).symm⟩

namespace Engine

/-- The slot of `Sign`. -/
def signSlot (s : Engine) : Gate.Slot SignRequest (Except String Signature) where
  request := s.sigRequest
  replies := s.sigReply.buf
  ended := s.sigReply.closed
  closed := s.sigClosed
  parked := s.auth = .sign

/-- The slot of `surfacePrompts`. -/
def promptSlot (s : Engine) : Gate.Slot PromptBatch (List String) where
  request := s.batch
  replies := s.promptAnswers.buf
  ended := s.promptAnswers.closed
  closed := s.promptsClosed
  parked := s.auth.isPrompts

/-! ## Events -/

/-- The batch that a released auth callback surfaces, if it surfaces one. -/
def surfaces (s : Engine) : AuthMethod → Option (Bool × PromptBatch)
  | .password =>
    if s.creds.offers .password = false ∨ s.creds.kind = .password then none
    else some (true, ⟨"", [⟨"password for " ++ s.user ++ ": ", false⟩]⟩)
  | .publickey => none
  | .keyboardInteractive instruction questions echos =>
    if s.creds.offers .keyboardInteractive = false ∨ questions = [] then none
    else some (false, ⟨instruction, questions.zipIdx.map fun (q, i) => ⟨q, echos.getD i false⟩⟩)

/-- What a section does at the gate of the signer. -/
def signEventsOf (s : Engine) : Section → List SignEvent
  | .engine (.provideSignature sig) =>
    if (s.provideSignature sig).2 = none then [.answered (.ok sig)] else []
  | .engine (.failSignature reason) =>
    if s.sigClosed = true ∨ s.sigRequest = none then []
    else [.answered (.error ("signature refused: " ++ reason))]
  | .failSign => if s.sigClosed then [] else [.failed]
  | _ => []

/-- What a goroutine does there. -/
def signEventsIn (s : Engine) : Action → List SignEvent
  | .sign key data => [if s.sigClosed then .declined else .asked ⟨key, data⟩]
  | .authResume =>
    if s.auth = .sign then (s.sigReply.recv.map fun p => Gate.Event.returned p.1).toList else []
  | _ => []

/-- What a section does at the gate of the prompts. -/
def promptEventsOf (s : Engine) : Section → List PromptEvent
  | .engine (.answerPrompts as) => if (s.answerPrompts as).2 = none then [.answered as] else []
  | .failPrompts => if s.promptsClosed then [] else [.failed]
  | _ => []

/-- What a goroutine does there. -/
def promptEventsIn (s : Engine) : Action → List PromptEvent
  | .authResume =>
    match s.auth with
    | .waitCreds method =>
      ((s.surfaces method).map fun p =>
        if s.state = .closed ∨ s.promptsClosed = true then Gate.Event.declined
        else .asked p.2).toList
    | .prompts _ => (s.promptAnswers.recv.map fun p => Gate.Event.returned p.1).toList
    | _ => []
  | _ => []

/-! ## Steps at the gates -/

/-- The step has these events at the gates, and leaves a verdict channel without a verdict alone. -/
structure Gated (s : Engine) (signs : List SignEvent) (prompts : List PromptEvent) (s' : Engine) :
    Prop where
  sign : Trace (Gate.Slot.Step SignRequest.Fits) s.signSlot signs s'.signSlot
  prompt : Trace (Gate.Slot.Step PromptBatch.Fits) s.promptSlot prompts s'.promptSlot
  decision : (s.decisionOnce = false → s.hostKeyDecision = {}) →
    s'.decisionOnce = false → s'.hostKeyDecision = {}

/-- The slots are those of gates, and the verdict channel waits for a verdict. -/
structure Slotted (s : Engine) : Prop where
  sign : ∃ g : Gate.Spec SignRequest (Except String Signature), g.slot = s.signSlot
  prompt : ∃ g : Gate.Spec PromptBatch (List String), g.slot = s.promptSlot
  decision : s.decisionOnce = false → s.hostKeyDecision = {}

/-- A step at the gates keeps that. -/
theorem Slotted.gated {s s' : Engine} {signs : List SignEvent} {prompts : List PromptEvent}
    (h : Slotted s) (hgated : Gated s signs prompts s') : Slotted s' := by
  obtain ⟨⟨g, hg⟩, ⟨g', hg'⟩, hdecision⟩ := h
  obtain ⟨hsign, hprompt, hfresh⟩ := hgated
  rw [← hg] at hsign
  rw [← hg'] at hprompt
  obtain ⟨f, -, hf⟩ := hsign.refine Gate.Spec.slot fun _ _ _ => Gate.Spec.step_of_slot
  obtain ⟨f', -, hf'⟩ := hprompt.refine Gate.Spec.slot fun _ _ _ => Gate.Spec.step_of_slot
  exact ⟨⟨f, hf⟩, ⟨f', hf'⟩, hfresh hdecision⟩

/-- What the gates consist of. -/
def gates (s : Engine) :=
  (s.signSlot, s.promptSlot, s.decisionOnce, s.hostKeyDecision)

variable {s s' : Engine} {a : Action}

/-- What leaves the gates alone has no events. -/
theorem Gated.of_gates (h : s'.gates = s.gates) : Gated s [] [] s' := by
  simp only [gates, Prod.mk.injEq] at h
  obtain ⟨hsign, hprompt, honce, hdecision⟩ := h
  refine ⟨?_, ?_, fun hfresh h => ?_⟩
  · rw [hsign]
    exact .nil
  · rw [hprompt]
    exact .nil
  · rw [honce] at h
    rw [hdecision]
    exact hfresh h

theorem gates_supplyCreds (s : Engine) (c : Credential) : (s.supplyCreds c).1.gates = s.gates := by
  unfold supplyCreds
  split_ifs <;> rfl

/-- An answer that is accepted. -/
theorem gated_replySignature {req : SignRequest} {reply : Except String Signature}
    (hclosed : s.sigClosed = false) (hreq : s.sigRequest = some req) (hfits : req.Fits reply) :
    Gated s [.answered reply] [] (s.replySignature reply) where
  sign := .one (.answer req reply hclosed hreq hfits)
  prompt := .nil
  decision hfresh := hfresh

/-- What `ProvideSignature` accepts. -/
theorem provideSignature_eq_none {sig : Signature} (h : (s.provideSignature sig).2 = none) :
    s.sigClosed = false ∧ ∃ req, s.sigRequest = some req ∧ signatureError req sig = none ∧
      (s.provideSignature sig).1 = s.replySignature (.ok sig) := by
  unfold provideSignature at h ⊢
  split at h
  · rename_i req hclosed hreq
    split at h
    · cases h
    · rename_i herr
      exact ⟨hclosed, req, hreq, herr, by simp only⟩
  · cases h

/-- What it objects to changes nothing. -/
theorem provideSignature_eq_self {sig : Signature} (h : (s.provideSignature sig).2 ≠ none) :
    (s.provideSignature sig).1 = s := by
  unfold provideSignature at h ⊢
  split
  · split
    · rfl
    · simp_all
  · rfl

/-- What `AnswerPrompts` accepts. -/
theorem answerPrompts_eq_none {as : List String} (h : (s.answerPrompts as).2 = none) :
    s.promptsClosed = false ∧ ∃ batch, s.batch = some batch ∧ batch.Fits as ∧
      (s.answerPrompts as).1 = { s with
        batch := none
        state := if s.state = .authPrompts then .authenticating else s.state
        promptAnswers := s.promptAnswers.send as } := by
  unfold answerPrompts at h ⊢
  by_cases hclosed : s.promptsClosed = true
  · rw [if_pos hclosed] at h
    cases h
  · rw [if_neg hclosed] at h ⊢
    cases hbatch : s.batch with
    | none =>
      rw [hbatch] at h
      cases h
    | some batch =>
      rw [hbatch] at h
      by_cases hlen : as.length = batch.prompts.length
      · exact ⟨eq_false_of_ne_true hclosed, batch, rfl, hlen, by simp [hlen]⟩
      · simp [hlen] at h

/-- What it objects to changes nothing. -/
theorem answerPrompts_eq_self {as : List String} (h : (s.answerPrompts as).2 ≠ none) :
    (s.answerPrompts as).1 = s := by
  unfold answerPrompts at h ⊢
  by_cases hclosed : s.promptsClosed = true
  · rw [if_pos hclosed]
  · rw [if_neg hclosed] at h ⊢
    cases hbatch : s.batch with
    | none => rfl
    | some batch =>
      rw [hbatch] at h
      by_cases hlen : as.length = batch.prompts.length
      · simp [hlen] at h
      · simp [hlen]

/-- What `FailSignature` answers. -/
theorem failSignature_eq (reason : String) (h : ¬ (s.sigClosed = true ∨ s.sigRequest = none)) :
    s.sigClosed = false ∧ ∃ req, s.sigRequest = some req ∧
      s.failSignature reason = s.replySignature (.error ("signature refused: " ++ reason)) := by
  push Not at h
  obtain ⟨hclosed, hreq⟩ := h
  obtain ⟨req, hreq⟩ := Option.ne_none_iff_exists'.1 hreq
  have hclosed := eq_false_of_ne_true hclosed
  exact ⟨hclosed, req, hreq, by simp only [failSignature, hclosed, hreq]⟩

/-- An export of another plane leaves the gates alone. -/
theorem gates_of_call (hcall : s.call a = some s') (ha : a.isWide = false) (hgate : a.isGate = false) :
    s'.gates = s.gates := by
  cases a <;> simp only [call, Option.some.injEq, reduceCtorEq] at hcall <;> subst hcall
  case authenticatePassword p => exact gates_supplyCreds s _
  case authenticatePublickey keys =>
    unfold authenticatePublickey
    split
    · rfl
    · rfl
    · exact gates_supplyCreds s _
  case authenticateInteractive => exact gates_supplyCreds s _
  case authenticateAuto keys =>
    unfold authenticateAuto
    split
    · rfl
    · exact gates_supplyCreds s _
  case probeStart =>
    unfold probeStart
    split_ifs <;> rfl
  case probePoll =>
    unfold probePoll
    split <;> rfl
  case feed data => rfl
  case drain => rfl
  case pump => rfl
  case drainOutput => rfl
  case resize cols rows => rfl
  case wireBroken reason => cases ha
  case close => cases ha
  case writeInput data => cases ha
  case openChannel kind c => cases ha
  all_goals cases hgate

/-- A section that is an export. -/
theorem gated_attempt (h : s.attempt a = .done s') :
    Gated s (s.signEventsOf (.engine a)) (s.promptEventsOf (.engine a)) s' := by
  have hother : ∀ b : Action, b.isGate = false →
      Gated s [] [] (if b.isWide then s else (s.call b).getD s) := by
    intro b hb
    split_ifs with hwide
    · exact .of_gates rfl
    · cases hcall : s.call b with
      | none => exact .of_gates rfl
      | some t => exact .of_gates (gates_of_call hcall (eq_false_of_ne_true hwide) hb)
  unfold attempt at h
  split at h
  case h_1 accept =>
    show Gated s [] [] s'
    split_ifs at h with honce
    · cases h
      exact .of_gates rfl
    · obtain ⟨-, -, rfl⟩ := Chan.attemptSend_eq_done.1 h
      unfold confirmHostKey
      rw [if_neg honce]
      exact ⟨.nil, .nil, fun _ hfresh => by cases hfresh⟩
  case h_2 as =>
    simp only [signEventsOf, promptEventsOf]
    split_ifs at h with hok
    · obtain ⟨-, -, rfl⟩ := Chan.attemptSend_eq_done.1 h
      obtain ⟨hclosed, batch, hbatch, hfits, heq⟩ := answerPrompts_eq_none hok
      rw [if_pos hok, heq]
      exact ⟨.nil, .one (.answer batch as hclosed hbatch hfits), fun hfresh => hfresh⟩
    · cases h
      rw [if_neg hok, answerPrompts_eq_self hok]
      exact .of_gates rfl
  case h_3 sig =>
    simp only [signEventsOf, promptEventsOf]
    split_ifs at h with hok
    · obtain ⟨-, -, rfl⟩ := Chan.attemptSend_eq_done.1 h
      obtain ⟨hclosed, req, hreq, herr, heq⟩ := provideSignature_eq_none hok
      rw [if_pos hok, heq]
      exact gated_replySignature hclosed hreq herr
    · cases h
      rw [if_neg hok, provideSignature_eq_self hok]
      exact .of_gates rfl
  case h_4 reason =>
    simp only [signEventsOf, promptEventsOf]
    split_ifs at h with hnone
    · cases h
      rw [if_pos hnone]
      exact .of_gates rfl
    · obtain ⟨-, -, rfl⟩ := Chan.attemptSend_eq_done.1 h
      obtain ⟨hclosed, req, hreq, heq⟩ := failSignature_eq reason hnone
      rw [if_neg hnone, heq]
      exact gated_replySignature hclosed hreq trivial
  case h_5 b hconfirm hanswer hprovide hfail =>
    cases h
    have hgate : a.isGate = false := by
      cases a <;> first | rfl | skip
      case confirmHostKey accept => exact absurd rfl (hconfirm accept)
      case answerPrompts as => exact absurd rfl (hanswer as)
      case provideSignature sig => exact absurd rfl (hprovide sig)
      case failSignature reason => exact absurd rfl (hfail reason)
    have hevents : s.signEventsOf (.engine a) = [] ∧ s.promptEventsOf (.engine a) = [] := by
      cases a <;> first | exact ⟨rfl, rfl⟩ | cases hgate
    rw [hevents.1, hevents.2]
    exact hother a hgate

/-- An auth callback that surfaces a batch. -/
theorem resumeCreds_of_surfaces {method : AuthMethod} {single : Bool} {batch : PromptBatch}
    (h : s.surfaces method = some (single, batch)) :
    s.resumeCreds method = s.surfacePrompts single batch := by
  cases method <;> simp only [surfaces, Option.ite_none_left_eq_some, Option.some.injEq,
    Prod.mk.injEq, not_or, reduceCtorEq] at h
  case password =>
    obtain ⟨⟨hoffers, hkind⟩, rfl, rfl⟩ := h
    simp only [resumeCreds]
    rw [if_neg hoffers, if_neg hkind]
  case keyboardInteractive instruction questions echos =>
    obtain ⟨⟨hoffers, hquestions⟩, rfl, rfl⟩ := h
    simp only [resumeCreds]
    rw [if_neg hoffers, if_neg hquestions]

/-- One that surfaces none returns, and touches no gate. -/
theorem gates_resumeCreds {method : AuthMethod} (hauth : s.auth = .waitCreds method)
    (h : s.surfaces method = none) : (s.resumeCreds method).gates = s.gates := by
  have hanswer : ∀ t : Engine, t.gates = s.gates → t.auth = s.auth →
      ∀ a, (t.answer a).gates = s.gates := by
    intro t ht htauth a
    rw [← ht]
    simp [gates, signSlot, promptSlot, answer, htauth, hauth, AuthPc.isPrompts]
  cases method <;> simp only [surfaces, ite_eq_left_iff, reduceCtorEq, imp_false, not_not] at h <;>
    simp only [resumeCreds]
  case password =>
    rcases h with h | h
    · rw [if_pos h]
      exact hanswer s rfl rfl _
    · rw [if_pos h]
      split_ifs <;> exact hanswer s rfl rfl _
  case publickey =>
    split_ifs
    · exact hanswer s rfl rfl _
    · exact hanswer s rfl rfl _
    · exact hanswer { s with keysOffered := true } rfl rfl _
  case keyboardInteractive instruction questions echos =>
    rcases h with h | h
    · rw [if_pos h]
      exact hanswer s rfl rfl _
    · rw [if_pos h]
      split_ifs <;> exact hanswer s rfl rfl _

/-- A callback that was parked on the credential goes on. -/
theorem gated_resumeCreds {method : AuthMethod} (hauth : s.auth = .waitCreds method) :
    Gated s [] (((s.surfaces method).map fun p =>
      if s.state = .closed ∨ s.promptsClosed = true then Gate.Event.declined
      else .asked p.2).toList) (s.resumeCreds method) := by
  cases hsurfaces : s.surfaces method with
  | none => exact .of_gates (gates_resumeCreds hauth hsurfaces)
  | some p =>
    obtain ⟨single, batch⟩ := p
    rw [resumeCreds_of_surfaces hsurfaces]
    show Gated s [] [if s.state = .closed ∨ s.promptsClosed = true then .declined
      else .asked batch] (s.surfacePrompts single batch)
    have hparked : s.promptSlot.parked = false := by simp [promptSlot, hauth, AuthPc.isPrompts]
    unfold surfacePrompts
    split_ifs with hclosed
    · have hsame : (s.answer (.declined "session closed")).gates = s.gates := by
        simp [gates, signSlot, promptSlot, answer, hauth, AuthPc.isPrompts]
      simp only [gates, Prod.mk.injEq] at hsame
      refine ⟨?_, .one ?_, fun hfresh => hfresh⟩
      · rw [hsame.1]
        exact .nil
      · rw [hsame.2.1]
        exact .decline hparked
    · push Not at hclosed
      refine ⟨?_, .one (.ask batch hparked (eq_false_of_ne_true hclosed.2)), fun hfresh => hfresh⟩
      have hsame : signSlot { s with
          batch := some batch
          state := .authPrompts
          auth := .prompts single } = s.signSlot := by simp [signSlot, hauth]
      rw [hsame]
      exact .nil

/-- `Sign` returns. -/
theorem gated_resumeSign (hauth : s.auth = .sign) (h : s.resumeSign = some s') :
    Gated s ((s.sigReply.recv.map fun p => Gate.Event.returned p.1).toList) [] s' := by
  unfold resumeSign at h
  obtain ⟨⟨o, c⟩, hp, hs'⟩ := Option.map_eq_some_iff.1 h
  have hview : s'.signSlot = { s.signSlot with
      replies := c.buf, ended := c.closed, parked := false } ∧
      s'.promptSlot = s.promptSlot ∧ s'.decisionOnce = s.decisionOnce ∧
      s'.hostKeyDecision = s.hostKeyDecision := by
    rcases o with _ | _ | _ <;> subst hs' <;>
      simp [signSlot, promptSlot, answer, hauth, AuthPc.isPrompts]
  obtain ⟨hsign, hprompt, honce, hdecision⟩ := hview
  have hparked : s.signSlot.parked = true := by simp [signSlot, hauth]
  refine ⟨?_, ?_, ?_⟩
  · rw [hsign, hp]
    rcases Chan.recv_eq_some hp with ⟨v, vs, hbuf, heq⟩ | ⟨hbuf, hclosed, heq⟩
    · cases heq
      exact .one (.receive v vs hparked hbuf)
    · cases heq
      exact .one (.abandon hparked hbuf hclosed)
  · rw [hprompt]
    exact .nil
  · rw [honce, hdecision]
    exact fun hfresh => hfresh

/-- `surfacePrompts` returns. -/
theorem gated_resumePrompts {single : Bool} (hauth : s.auth = .prompts single)
    (h : s.resumePrompts single = some s') :
    Gated s [] ((s.promptAnswers.recv.map fun p => Gate.Event.returned p.1).toList) s' := by
  unfold resumePrompts at h
  obtain ⟨⟨o, c⟩, hp, hs'⟩ := Option.map_eq_some_iff.1 h
  have hview : s'.promptSlot = { s.promptSlot with
      replies := c.buf, ended := c.closed, parked := false } ∧
      s'.signSlot = s.signSlot ∧ s'.decisionOnce = s.decisionOnce ∧
      s'.hostKeyDecision = s.hostKeyDecision := by
    rcases o with _ | _ <;> subst hs' <;>
      simp [signSlot, promptSlot, answer, hauth, AuthPc.isPrompts]
  obtain ⟨hprompt, hsign, honce, hdecision⟩ := hview
  have hparked : s.promptSlot.parked = true := by simp [promptSlot, hauth, AuthPc.isPrompts]
  refine ⟨?_, ?_, ?_⟩
  · rw [hsign]
    exact .nil
  · rw [hprompt, hp]
    rcases Chan.recv_eq_some hp with ⟨v, vs, hbuf, heq⟩ | ⟨hbuf, hclosed, heq⟩
    · cases heq
      exact .one (.receive v vs hparked hbuf)
    · cases heq
      exact .one (.abandon hparked hbuf hclosed)
  · rw [honce, hdecision]
    exact fun hfresh => hfresh

/-- What a goroutine does. -/
theorem gated_background (h : s.background a = some s') :
    Gated s (s.signEventsIn a) (s.promptEventsIn a) s' := by
  cases a <;> simp only [background, reduceCtorEq, Option.map_eq_some_iff,
    Option.ite_none_right_eq_some, Option.some.injEq] at h
  case endCall =>
    obtain ⟨msg, -, rfl⟩ := h
    apply Gated.of_gates
    unfold closeWith
    split_ifs <;> rfl
  case hostKeyVerdict =>
    split at h
    · unfold hostKeyVerdict at h
      obtain ⟨p, hp, rfl⟩ := Option.map_eq_some_iff.1 h
      refine ⟨.nil, .nil, fun hfresh honce => ?_⟩
      rw [hfresh honce] at hp
      cases hp
    · cases h
  case hostKeyReturn =>
    split at h <;> cases h
    apply Gated.of_gates
    unfold hostKeyReturn setState
    split_ifs <;> rfl
  case authCallback method =>
    obtain ⟨hidle, rfl⟩ := h
    apply Gated.of_gates
    simp [gates, signSlot, promptSlot, hidle, AuthPc.isPrompts]
  case sign key data =>
    obtain ⟨hidle, rfl⟩ := h
    have hparked : s.signSlot.parked = false := by simp [signSlot, hidle]
    simp only [signEventsIn]
    unfold sign
    by_cases hclosed : s.sigClosed = true
    · rw [if_pos hclosed, if_pos hclosed]
      have hsame : (s.answer (.declined "signing abandoned")).gates = s.gates := by
        simp [gates, signSlot, promptSlot, answer, hidle, AuthPc.isPrompts]
      simp only [gates, Prod.mk.injEq] at hsame
      refine ⟨?_, ?_, fun hfresh => hfresh⟩
      · rw [hsame.1]
        exact .one (.decline hparked)
      · rw [hsame.2.1]
        exact .nil
    · rw [if_neg hclosed, if_neg hclosed]
      refine ⟨.one (.ask ⟨key, data⟩ hparked (eq_false_of_ne_true hclosed)), ?_,
        fun hfresh => hfresh⟩
      have hsame : promptSlot { s with
          sigRequest := some ⟨key, data⟩
          state := if s.state ≠ .closed then .signing else s.state
          auth := .sign } = s.promptSlot := by simp [promptSlot, hidle, AuthPc.isPrompts]
      rw [hsame]
      exact .nil
  case authResume =>
    simp only [signEventsIn, promptEventsIn]
    cases hauth : s.auth with
    | idle => simp [hauth] at h
    | waitCreds method =>
      simp only [hauth, Option.ite_none_right_eq_some, Option.some.injEq] at h
      obtain ⟨-, rfl⟩ := h
      simpa using gated_resumeCreds hauth
    | prompts single =>
      rw [hauth] at h
      simpa using gated_resumePrompts hauth h
    | sign =>
      rw [hauth] at h
      simpa using gated_resumeSign hauth h
  case connRead n =>
    obtain ⟨p, -, rfl⟩ := h
    exact .of_gates rfl
  case handshakeFailed err =>
    obtain ⟨-, rfl⟩ := h
    apply Gated.of_gates
    unfold closeWith
    split_ifs <;> rfl
  case openFailed msg =>
    obtain ⟨-, rfl⟩ := h
    apply Gated.of_gates
    unfold closeWith
    split_ifs <;> rfl
  case becomeReady =>
    obtain ⟨-, rfl⟩ := h
    apply Gated.of_gates
    unfold setState
    split_ifs <;> rfl
  case runClose =>
    split at h <;> cases h
    apply Gated.of_gates
    unfold closeWith
    split_ifs <;> rfl
  case connWrite b =>
    subst h
    exact .of_gates rfl
  case output b =>
    subst h
    exact .of_gates rfl
  case forgetChannel c =>
    subst h
    exact .of_gates rfl
  all_goals
    obtain ⟨-, rfl⟩ := h
    exact .of_gates rfl

end Engine

/-- A send on a channel that is open and empty is done. -/
theorem Chan.attemptSend_of_room {α β : Type} {c : Chan α} (hbuf : c.buf = [])
    (hclosed : c.closed = false) (s : β) : c.attemptSend s = .done s :=
  Chan.attemptSend_eq_done.2 ⟨hclosed, hbuf, rfl⟩

/-- So an export that is one section is always done. -/
theorem Engine.attempt_done {s : Engine} (h : s.Slotted) (a : Action) : ∃ s', s.attempt a = .done s' := by
  obtain ⟨⟨g, hg⟩, ⟨g', hg'⟩, hdecision⟩ := h
  have hsign : ∀ req, s.sigRequest = some req → s.sigReply.buf = [] ∧ s.sigReply.closed = false := by
    intro req hreq
    have hroom : g.slot.replies = [] ∧ g.slot.ended = false :=
      Gate.Spec.room (r := req) (by rw [hg]; exact hreq)
    rwa [hg] at hroom
  have hprompt : ∀ b, s.batch = some b → s.promptAnswers.buf = [] ∧ s.promptAnswers.closed = false := by
    intro b hb
    have hroom : g'.slot.replies = [] ∧ g'.slot.ended = false :=
      Gate.Spec.room (r := b) (by rw [hg']; exact hb)
    rwa [hg'] at hroom
  unfold attempt
  split
  · split_ifs with honce
    · exact ⟨_, rfl⟩
    · have hfresh := hdecision (eq_false_of_ne_true honce)
      exact ⟨_, Chan.attemptSend_of_room (by rw [hfresh]) (by rw [hfresh]) _⟩
  · split_ifs with hok
    · obtain ⟨-, b, hb, -⟩ := answerPrompts_eq_none hok
      exact ⟨_, Chan.attemptSend_of_room (hprompt b hb).1 (hprompt b hb).2 _⟩
    · exact ⟨_, rfl⟩
  · split_ifs with hok
    · obtain ⟨-, req, hreq, -⟩ := provideSignature_eq_none hok
      exact ⟨_, Chan.attemptSend_of_room (hsign req hreq).1 (hsign req hreq).2 _⟩
    · exact ⟨_, rfl⟩
  · split_ifs with hnone
    · exact ⟨_, rfl⟩
    · obtain ⟨-, req, hreq, -⟩ := failSignature_eq "" hnone
      exact ⟨_, Chan.attemptSend_of_room (hsign req hreq).1 (hsign req hreq).2 _⟩
  · exact ⟨_, rfl⟩

/-! ## Steps of the calls and the goroutines -/

variable {s s' : Core} {p p' : System}

theorem Core.eng_execChan (s : Core) (i : ℕ) (a : ChannelAction) : (s.execChan i a).1.eng = s.eng := by
  unfold execChan
  split
  · rfl
  · split <;> rfl

/-- A section. -/
theorem Core.gated_exec {x : Section} {ys : List Section} (h : s.exec x = .done (s', ys)) :
    s.eng.Gated (s.eng.signEventsOf x) (s.eng.promptEventsOf x) s'.eng := by
  cases x <;> simp only [exec, Outcome.map_eq_done, Outcome.done.injEq, Prod.mk.injEq] at h
  case engine a =>
    obtain ⟨e, he, rfl, rfl⟩ := h
    exact Engine.gated_attempt he
  case failDecision =>
    show s.eng.Gated [] [] s'.eng
    split_ifs at h with honce
    · cases h
      exact .of_gates rfl
    · obtain ⟨-, hdone⟩ := Chan.attemptClose_eq_done.1 h
      cases hdone
      unfold Engine.failDecision
      rw [if_neg honce]
      exact ⟨.nil, .nil, fun _ hfresh => by cases hfresh⟩
  case failPrompts =>
    simp only [Engine.signEventsOf, Engine.promptEventsOf]
    split_ifs at h with hclosed
    · cases h
      rw [if_pos hclosed]
      exact .of_gates rfl
    · obtain ⟨-, hdone⟩ := Chan.attemptClose_eq_done.1 h
      cases hdone
      unfold Engine.failPrompts
      rw [if_neg hclosed, if_neg hclosed]
      exact ⟨.nil, .one (.fail (eq_false_of_ne_true hclosed)), fun hfresh => hfresh⟩
  case failSign =>
    simp only [Engine.signEventsOf, Engine.promptEventsOf]
    split_ifs at h with hclosed
    · cases h
      rw [if_pos hclosed]
      exact .of_gates rfl
    · obtain ⟨-, hdone⟩ := Chan.attemptClose_eq_done.1 h
      cases hdone
      unfold Engine.failSign
      rw [if_neg hclosed, if_neg hclosed]
      exact ⟨.one (.fail (eq_false_of_ne_true hclosed)), .nil, fun hfresh => hfresh⟩
  case recordWire reason =>
    obtain ⟨rfl, rfl⟩ := h
    apply Engine.Gated.of_gates
    unfold Engine.recordWire
    split_ifs <;> rfl
  case closeWith msg =>
    split_ifs at h <;> cases h <;> exact .of_gates rfl
  case put rest =>
    split_ifs at h <;> cases h <;> exact .of_gates rfl
  case openChannel kind arg =>
    obtain ⟨rfl, rfl⟩ := h
    apply Engine.Gated.of_gates
    unfold openChannel Engine.openChannel
    split_ifs <;> rfl
  case chan i a =>
    apply Engine.Gated.of_gates
    have heng := eng_execChan s i a
    rw [h] at heng
    rw [heng]
  all_goals
    obtain ⟨rfl, rfl⟩ := h
    exact .of_gates rfl

/-- The section writes to the shell's stdin. -/
def Section.isPut : Section → Bool
  | .put _ => true
  | _ => false

/-- Only a write to the shell's stdin waits for anything; nothing is sent on a closed channel. -/
theorem Core.exec_done (h : s.eng.Slotted) {x : Section} (hx : x.isPut = false) :
    ∃ r, s.exec x = .done r := by
  cases x <;> simp only [exec]
  case engine a =>
    obtain ⟨e, he⟩ := Engine.attempt_done h a
    rw [he]
    exact ⟨_, rfl⟩
  case failDecision =>
    split_ifs with honce
    · exact ⟨_, rfl⟩
    · refine ⟨_, Chan.attemptClose_eq_done.2 ⟨?_, rfl⟩⟩
      rw [h.decision (eq_false_of_ne_true honce)]
  case failPrompts =>
    split_ifs with hclosed
    · exact ⟨_, rfl⟩
    · obtain ⟨g, hg⟩ := h.prompt
      have hended : g.slot.ended = g.slot.closed := rfl
      rw [hg] at hended
      exact ⟨_, Chan.attemptClose_eq_done.2 ⟨hended.trans (eq_false_of_ne_true hclosed), rfl⟩⟩
  case failSign =>
    split_ifs with hclosed
    · exact ⟨_, rfl⟩
    · obtain ⟨g, hg⟩ := h.sign
      have hended : g.slot.ended = g.slot.closed := rfl
      rw [hg] at hended
      exact ⟨_, Chan.attemptClose_eq_done.2 ⟨hended.trans (eq_false_of_ne_true hclosed), rfl⟩⟩
  case closeWith msg => split_ifs <;> exact ⟨_, rfl⟩
  case put rest => cases hx
  all_goals exact ⟨_, rfl⟩

namespace System

/-- What a step does at the gate of the signer. -/
def signEvents (p : System) : SystemAction → List SignEvent
  | .advance i => ((p.threads i).head?.map p.shared.eng.signEventsOf).getD []
  | .engine a => p.shared.eng.signEventsIn a
  | _ => []

/-- What it does at the gate of the prompts. -/
def promptEvents (p : System) : SystemAction → List PromptEvent
  | .advance i => ((p.threads i).head?.map p.shared.eng.promptEventsOf).getD []
  | .engine a => p.shared.eng.promptEventsIn a
  | _ => []

/-- The goroutine of `run` goes on to close the engine. -/
theorem gates_runCloses {pc : RunPc → Bool} {msg : RunPc → String}
    (h : p.runCloses pc msg = some p') : p'.shared.eng.gates = p.shared.eng.gates := by
  unfold runCloses at h
  split_ifs at h
  cases h
  rfl

/-- One step. -/
theorem gated_step {a : SystemAction} (h : p.step a = some p') :
    p.shared.eng.Gated (p.signEvents a) (p.promptEvents a) p'.shared.eng := by
  cases a
  case call i e =>
    simp only [step] at h
    split_ifs at h
    cases h
    exact .of_gates rfl
  case advance i =>
    obtain ⟨x, xs, s, ys, hthread, hexec, rfl⟩ := advance_eq_some.1 h
    simp only [signEvents, promptEvents, hthread, List.head?_cons, Option.map_some, Option.getD_some]
    exact Core.gated_exec hexec
  case engine a =>
    simp only [step, Option.ite_none_left_eq_some, Option.map_eq_some_iff] at h
    obtain ⟨-, e, he, rfl⟩ := h
    exact Engine.gated_background he
  case handshakeFailed err =>
    simp only [step] at h
    exact .of_gates (gates_runCloses h)
  case openFailed msg =>
    simp only [step] at h
    exact .of_gates (gates_runCloses h)
  case runClose =>
    simp only [step] at h
    exact .of_gates (gates_runCloses h)
  case chan i a =>
    simp only [step, Option.ite_none_left_eq_some, Option.bind_eq_some_iff, Option.map_eq_some_iff] at h
    obtain ⟨-, c, -, c', -, rfl⟩ := h
    exact .of_gates rfl
  case forget i =>
    simp only [step, Option.bind_eq_some_iff, Option.ite_none_right_eq_some, Option.some.injEq] at h
    obtain ⟨c, -, -, rfl⟩ := h
    exact .of_gates rfl
  case window n =>
    cases h
    exact .of_gates rfl
  case closeStdin =>
    cases h
    exact .of_gates rfl

end System

/-! ## Runs -/

/-- What `Sign` returns to the ssh stack. -/
def signAnswer : Option (Except String Signature) → Answer
  | none => .declined "signing abandoned"
  | some (.error err) => .declined err
  | some (.ok sig) => .signature sig

/-- What an auth callback returns that surfaced prompts; `single` in place of a password. -/
def promptAnswer (single : Bool) : Option (List String) → Answer
  | none => .declined "session dropped while prompts were pending"
  | some as => if single then .password (as.headD "") else .answers as

/-- What the embedder and the ssh stack rely on, where these are the events so far. -/
structure GatesHold (p : System) (signs : List SignEvent) (prompts : List PromptEvent) : Prop where
  /-- Nothing is sent on a closed channel, and no send waits. -/
  sends : ∀ x : Section, x.isPut = false → ∃ r, p.shared.exec x = .done r
  /-- Each answer is delivered to its own request. -/
  signDelivers : Gate.Delivers SignRequest.Fits signs
  promptDelivers : Gate.Delivers PromptBatch.Fits prompts
  /-- What is pending was asked last. -/
  pendingSignature : ∀ req, p.shared.eng.sigRequest = some req →
    ∃ before, signs = before ++ [.asked req]
  pendingPrompts : ∀ batch, p.shared.eng.batch = some batch →
    ∃ before, prompts = before ++ [.asked batch]
  /-- An answer that is objected to changes nothing. -/
  provideSignature : ∀ sig, (p.shared.eng.provideSignature sig).2 ≠ none →
    p.shared.exec (.engine (.provideSignature sig)) = .done (p.shared, [])
  answerPrompts : ∀ as, (p.shared.eng.answerPrompts as).2 ≠ none →
    p.shared.exec (.engine (.answerPrompts as)) = .done (p.shared, [])
  /-- `failGates` fails both gates. -/
  failSign : ∀ r, p.shared.exec .failSign = .done r → r.1.eng.sigClosed = true
  failPrompts : ∀ r, p.shared.exec .failPrompts = .done r → r.1.eng.promptsClosed = true
  signFailed : p.shared.eng.sigClosed = true ↔ .failed ∈ signs
  promptsFailed : p.shared.eng.promptsClosed = true ↔ .failed ∈ prompts
  /-- A call that is turned away, or returns, gives this to the ssh stack. -/
  signReturns : ∀ a p', p.step a = some p' → ∀ e ∈ p.signEvents a,
    (e = .declined →
      p'.shared.eng.answers = p.shared.eng.answers ++ [.declined "signing abandoned"]) ∧
    ∀ o, e = .returned o → p'.shared.eng.answers = p.shared.eng.answers ++ [signAnswer o]
  promptReturns : ∀ a p', p.step a = some p' → ∀ e ∈ p.promptEvents a,
    (e = .declined →
      p'.shared.eng.answers = p.shared.eng.answers ++ [.declined "session closed"]) ∧
    ∀ o, e = .returned o → ∃ single, p.shared.eng.auth = .prompts single ∧
      p'.shared.eng.answers = p.shared.eng.answers ++ [promptAnswer single o]
  /-- A call that is parked on a gate that failed can return. -/
  signReleased : p.shared.eng.sigClosed = true → p.shared.eng.auth = .sign →
    ∃ p', p.step (.engine .authResume) = some p'
  promptsReleased : ∀ single, p.shared.eng.promptsClosed = true →
    p.shared.eng.auth = .prompts single → ∃ p', p.step (.engine .authResume) = some p'

namespace Engine

variable {s s' : Engine} {a : Action}

/-- What `Sign` gives the ssh stack. -/
theorem answers_of_signEvents (h : s.background a = some s') {e : SignEvent}
    (he : e ∈ s.signEventsIn a) :
    (e = .declined → s'.answers = s.answers ++ [.declined "signing abandoned"]) ∧
      ∀ o, e = .returned o → s'.answers = s.answers ++ [signAnswer o] := by
  cases a <;> simp only [signEventsIn, List.not_mem_nil] at he
  case sign key data =>
    obtain rfl := List.mem_singleton.1 he
    simp only [background, Option.ite_none_right_eq_some, Option.some.injEq] at h
    obtain ⟨-, rfl⟩ := h
    unfold sign
    by_cases hclosed : s.sigClosed = true
    · rw [if_pos hclosed, if_pos hclosed]
      refine ⟨fun _ => rfl, fun o ho => ?_⟩
      cases ho
    · rw [if_neg hclosed]
      refine ⟨fun h => ?_, fun o ho => ?_⟩
      · cases h
      · cases ho
  case authResume =>
    split_ifs at he with hauth
    · obtain ⟨⟨o, c⟩, hrecv, rfl⟩ := Option.map_eq_some_iff.1 (Option.mem_toList.1 he)
      simp only [background, hauth] at h
      unfold resumeSign at h
      rw [hrecv] at h
      refine ⟨fun h => ?_, fun o' ho' => ?_⟩
      · cases h
      · cases ho'
        rcases o with _ | _ | _ <;> cases h <;> rfl
    · cases he

/-- What `surfacePrompts` gives it. -/
theorem answers_of_promptEvents (h : s.background a = some s') {e : PromptEvent}
    (he : e ∈ s.promptEventsIn a) :
    (e = .declined → s'.answers = s.answers ++ [.declined "session closed"]) ∧
      ∀ o, e = .returned o → ∃ single, s.auth = .prompts single ∧
        s'.answers = s.answers ++ [promptAnswer single o] := by
  cases a <;> simp only [promptEventsIn, List.not_mem_nil] at he
  split at he
  · rename_i method hauth
    simp only [background, hauth, Option.ite_none_right_eq_some, Option.some.injEq] at h
    obtain ⟨-, rfl⟩ := h
    obtain ⟨⟨single, batch⟩, hsurfaces, rfl⟩ := Option.map_eq_some_iff.1 (Option.mem_toList.1 he)
    rw [resumeCreds_of_surfaces hsurfaces]
    unfold surfacePrompts
    split_ifs with hclosed
    · refine ⟨fun _ => rfl, fun o ho => ?_⟩
      cases ho
    · refine ⟨fun h => ?_, fun o ho => ?_⟩
      · cases h
      · cases ho
  · rename_i single hauth
    obtain ⟨⟨o, c⟩, hrecv, rfl⟩ := Option.map_eq_some_iff.1 (Option.mem_toList.1 he)
    simp only [background, hauth] at h
    unfold resumePrompts at h
    rw [hrecv] at h
    refine ⟨fun h => ?_, fun o' ho' => ⟨single, hauth, ?_⟩⟩
    · cases h
    · cases ho'
      rcases o with _ | _ <;> cases h <;> rfl
  · cases he

/-- No caller returns in a section of an entry point, or is turned away there. -/
theorem mem_signEventsOf {x : Section} {e : SignEvent} (he : e ∈ s.signEventsOf x) :
    e ≠ .declined ∧ ∀ o, e ≠ .returned o := by
  unfold signEventsOf at he
  split at he <;> try split_ifs at he
  all_goals simp only [List.mem_singleton, List.not_mem_nil] at he
  all_goals
    subst he
    simp

/-- The same of the prompts. -/
theorem mem_promptEventsOf {x : Section} {e : PromptEvent} (he : e ∈ s.promptEventsOf x) :
    e ≠ .declined ∧ ∀ o, e ≠ .returned o := by
  unfold promptEventsOf at he
  split at he <;> try split_ifs at he
  all_goals simp only [List.mem_singleton, List.not_mem_nil] at he
  all_goals
    subst he
    simp

/-- A gate that failed lets the caller that is parked on it go. -/
theorem recv_of_ended {α : Type} {c : Chan α} (h : c.closed = true) : ∃ p, c.recv = some p := by
  unfold Chan.recv
  split
  · exact ⟨_, rfl⟩
  · rw [if_pos h]
    exact ⟨_, rfl⟩

end Engine

variable {user command : String} {cols rows : ℕ} {as : List SystemAction}

/-- The events of the two gates are those of slots. -/
theorem System.trace_events (h : run System.step (.start user cols rows command) as = some p) :
    Trace (Gate.Slot.Step SignRequest.Fits) {}
        (log System.step System.signEvents (.start user cols rows command) as)
        p.shared.eng.signSlot ∧
      Trace (Gate.Slot.Step PromptBatch.Fits) {}
        (log System.step System.promptEvents (.start user cols rows command) as)
        p.shared.eng.promptSlot :=
  ⟨trace_log (fun p : System => p.shared.eng.signSlot) (fun _ _ _ hs => (gated_step hs).sign) h,
    trace_log (fun p : System => p.shared.eng.promptSlot) (fun _ _ _ hs => (gated_step hs).prompt) h⟩

/-- The slots of a session are those of gates. -/
theorem System.slotted_run (h : run System.step (.start user cols rows command) as = some p) :
    p.shared.eng.Slotted :=
  run_inv_of_step (P := fun p : System => p.shared.eng.Slotted)
    (fun _ _ _ hs ha => hs.gated (gated_step ha)) ⟨⟨{}, rfl⟩, ⟨{}, rfl⟩, fun _ => rfl⟩ h

/-- Whatever the order of the calls and of what the goroutines do, the gates hold. -/
theorem gates_deliver (h : run System.step (.start user cols rows command) as = some p) :
    GatesHold p (log System.step System.signEvents (.start user cols rows command) as)
      (log System.step System.promptEvents (.start user cols rows command) as) := by
  obtain ⟨hsigns, hprompts⟩ := System.trace_events h
  obtain ⟨hsignDelivers, g, hg, hgtells⟩ := Gate.delivers hsigns
  obtain ⟨hpromptDelivers, g', hg', hgtells'⟩ := Gate.delivers hprompts
  have hslotted := System.slotted_run h
  have hclosed : p.shared.eng.sigClosed = g.failed := congrArg Gate.Slot.closed hg.symm
  have hclosed' : p.shared.eng.promptsClosed = g'.failed := congrArg Gate.Slot.closed hg'.symm
  have hended : p.shared.eng.sigReply.closed = g.failed := congrArg Gate.Slot.ended hg.symm
  have hended' : p.shared.eng.promptAnswers.closed = g'.failed := congrArg Gate.Slot.ended hg'.symm
  refine {
    sends := fun x hx => Core.exec_done hslotted hx
    signDelivers := hsignDelivers
    promptDelivers := hpromptDelivers
    pendingSignature := fun req hreq => hgtells.request (hg ▸ hreq)
    pendingPrompts := fun batch hbatch => hgtells'.request (hg' ▸ hbatch)
    provideSignature := fun sig hsig => ?provideSignature
    answerPrompts := fun as has => ?answerPrompts
    failSign := fun r hr => ?failSign
    failPrompts := fun r hr => ?failPrompts
    signFailed := by rw [hclosed]; exact hgtells.failed
    promptsFailed := by rw [hclosed']; exact hgtells'.failed
    signReturns := fun a p' hstep e he => ?signReturns
    promptReturns := fun a p' hstep e he => ?promptReturns
    signReleased := fun hfailed hauth => ?signReleased
    promptsReleased := fun single hfailed hauth => ?promptsReleased }
  case provideSignature =>
    simp only [Core.exec, Engine.attempt]
    rw [if_neg hsig, Engine.provideSignature_eq_self hsig]
    rfl
  case answerPrompts =>
    simp only [Core.exec, Engine.attempt]
    rw [if_neg has, Engine.answerPrompts_eq_self has]
    rfl
  case failSign =>
    simp only [Core.exec] at hr
    split_ifs at hr with hfailed
    · cases hr
      exact hfailed
    · obtain ⟨-, rfl⟩ := Chan.attemptClose_eq_done.1 hr
      simp [Engine.failSign, hfailed]
  case failPrompts =>
    simp only [Core.exec] at hr
    split_ifs at hr with hfailed
    · cases hr
      exact hfailed
    · obtain ⟨-, rfl⟩ := Chan.attemptClose_eq_done.1 hr
      simp [Engine.failPrompts, hfailed]
  case signReturns =>
    cases a <;> simp only [System.signEvents, List.not_mem_nil] at he
    case advance i =>
      obtain ⟨x, xs, s, ys, hthread, -, -⟩ := advance_eq_some.1 hstep
      rw [hthread] at he
      obtain ⟨hdeclined, hreturned⟩ := Engine.mem_signEventsOf he
      exact ⟨fun heq => absurd heq hdeclined, fun o heq => absurd heq (hreturned o)⟩
    case engine a =>
      simp only [System.step, Option.ite_none_left_eq_some, Option.map_eq_some_iff] at hstep
      obtain ⟨-, e, he', rfl⟩ := hstep
      exact Engine.answers_of_signEvents he' he
  case promptReturns =>
    cases a <;> simp only [System.promptEvents, List.not_mem_nil] at he
    case advance i =>
      obtain ⟨x, xs, s, ys, hthread, -, -⟩ := advance_eq_some.1 hstep
      rw [hthread] at he
      obtain ⟨hdeclined, hreturned⟩ := Engine.mem_promptEventsOf he
      exact ⟨fun heq => absurd heq hdeclined, fun o heq => absurd heq (hreturned o)⟩
    case engine a =>
      simp only [System.step, Option.ite_none_left_eq_some, Option.map_eq_some_iff] at hstep
      obtain ⟨-, e, he', rfl⟩ := hstep
      exact Engine.answers_of_promptEvents he' he
  case signReleased =>
    obtain ⟨r, hr⟩ := Engine.recv_of_ended (hended.trans (hclosed.symm.trans hfailed))
    simp only [System.step, Engine.background, hauth, Engine.resumeSign, hr]
    exact ⟨_, rfl⟩
  case promptsReleased =>
    obtain ⟨r, hr⟩ := Engine.recv_of_ended (hended'.trans (hclosed'.symm.trans hfailed))
    simp only [System.step, Engine.background, hauth, Engine.resumePrompts, hr]
    exact ⟨_, rfl⟩

/-- A signature is given; the session is closed before `Sign` returns, and after that the ssh stack
asks for another one. -/
def signedThenClosed : List SystemAction :=
  [.engine (.sign ⟨"ssh-rsa", [1]⟩ [2]), .call 1 (.provideSignature ⟨"ssh-rsa", [3], []⟩), .advance 1,
    .call 2 .close, .advance 2, .advance 2, .advance 2, .advance 2, .engine .authResume,
    .engine (.sign ⟨"ssh-rsa", [1]⟩ [4])]

/-- `Sign` returns the signature that was given, and then an error. -/
theorem gates_deliver_signed :
    ∃ p, run System.step (.start "u" 80 24 "") signedThenClosed = some p ∧
      log System.step System.signEvents (.start "u" 80 24 "") signedThenClosed =
        [.asked ⟨⟨"ssh-rsa", [1]⟩, [2]⟩, .answered (.ok ⟨"ssh-rsa", [3], []⟩), .failed,
          .returned (some (.ok ⟨"ssh-rsa", [3], []⟩)), .declined] ∧
      GatesHold p (log System.step System.signEvents (.start "u" 80 24 "") signedThenClosed)
        (log System.step System.promptEvents (.start "u" 80 24 "") signedThenClosed) :=
  ⟨_, rfl, rfl, gates_deliver rfl⟩

end SshCore
