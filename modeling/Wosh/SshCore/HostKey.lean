import Wosh.SshCore.Engine

set_option relaxedAutoImplicit false
set_option autoImplicit false

/-!
# The host key gate over a whole connection

The ssh stack calls the host key callback once in every key exchange: in the first one, and
again whenever either side rekeys. The decision channel the callback parks on is given one value
and closed.

## Main definitions

* `SshCore.Gate` — the part of the engine the gate consists of, and `SshCore.Gate.Moves`, what
  a step of the engine can do to it.
* `SshCore.Gate.Sound` — the invariant: one verdict is worth one acceptance.
* `SshCore.Survives` — what a later call of the callback should do, once a key was accepted.

## Main results

* `SshCore.step_moves` — every step of the engine moves the gate as `Gate.Moves` says.
* `SshCore.sound_of_run` — the gate is sound in every state reached.
* `SshCore.confirmed_of_accepted` — a key is accepted only after `ConfirmHostKey true`.
* `SshCore.survives_rekey_iff` — after an acceptance, the gate behaves as it should exactly as
  long as no later key exchange presents the accepted key.
-/

namespace SshCore

/-! ## The gate -/

/-- The part of the engine the host key gate consists of. -/
structure Gate where
  decision : Chan Bool
  once : Bool
  confirmed : Bool
  hostKey : HostKeyPc
  invocations : List Invocation

/-- The gate of an engine. -/
def Engine.gate (s : Engine) : Gate :=
  ⟨s.hostKeyDecision, s.decisionOnce, s.confirmed, s.hostKey, s.invocations⟩

/-- How an action resolves the gate, if nothing has resolved it: with the embedder's verdict, or
with the failure of every gate. -/
def Action.ruling : Action → Option Bool
  | .confirmHostKey accept => some accept
  | .close => some false
  | .wireBroken _ => some false
  | _ => none

/-- What one step of the engine can do to the gate. -/
inductive Gate.Moves (g : Gate) (a : Action) : Gate → Prop
  /-- The step does not concern it, or it was resolved before. -/
  | stay (ha : a.ruling = none ∨ g.once = true) : g.Moves a g
  /-- The embedder rules on the fingerprint. -/
  | confirm (accept : Bool) (h : g.once = false) (ha : a.ruling = some accept) :
      g.Moves a { g with
        decision := (g.decision.send accept).close
        once := true
        confirmed := g.confirmed || accept }
  /-- The gate is failed before anyone ruled. -/
  | fail (h : g.once = false) (ha : a.ruling = some false) :
      g.Moves a { g with decision := g.decision.close, once := true }
  /-- A key exchange asks. -/
  | ask (fp : String) (st : State) (h : g.hostKey = .idle) (ha : a.ruling = none) :
      g.Moves a { g with hostKey := .parked fp st }
  /-- The callback receives its verdict. -/
  | judge (fp : String) (st : State) (v : Option Bool) (ch : Chan Bool)
      (h : g.hostKey = .parked fp st) (hrecv : g.decision.recv = some (v, ch))
      (ha : a.ruling = none) :
      g.Moves a { g with decision := ch, hostKey := .judged fp st (v.getD false) }
  /-- The callback returns. -/
  | reply (fp : String) (st after : State) (accepted : Bool)
      (h : g.hostKey = .judged fp st accepted) (ha : a.ruling = none) :
      g.Moves a { g with
        hostKey := .idle
        invocations := g.invocations ++
          [⟨fp, st, after, if accepted then none else some Engine.hostKeyRejected⟩] }

/-! ### Operations that leave the gate alone -/

@[simp] theorem gate_setState (s : Engine) (st : State) : (s.setState st).gate = s.gate := by
  unfold Engine.setState
  split_ifs <;> rfl

@[simp] theorem gate_closeWith (s : Engine) (msg : String) : (s.closeWith msg).gate = s.gate := by
  unfold Engine.closeWith
  split_ifs <;> rfl

@[simp] theorem gate_supplyCreds (s : Engine) (c : Credential) :
    (s.supplyCreds c).1.gate = s.gate := by
  unfold Engine.supplyCreds
  split_ifs <;> rfl

@[simp] theorem gate_answer (s : Engine) (a : Answer) : (s.answer a).gate = s.gate := rfl

@[simp] theorem gate_surfacePrompts (s : Engine) (single : Bool) (b : PromptBatch) :
    (s.surfacePrompts single b).gate = s.gate := by
  unfold Engine.surfacePrompts
  split_ifs <;> rfl

theorem gate_resumeCreds (s : Engine) (m : AuthMethod) : (s.resumeCreds m).gate = s.gate := by
  unfold Engine.resumeCreds
  cases m <;> simp only <;> split_ifs <;> first | rfl | exact gate_surfacePrompts s _ _

theorem gate_sign (s : Engine) (key : PublicKey) (data : Tunnel.Bytes) :
    (s.sign key data).gate = s.gate := by
  unfold Engine.sign
  split_ifs <;> rfl

@[simp] theorem gate_failPrompts (s : Engine) : s.failPrompts.gate = s.gate := by
  unfold Engine.failPrompts
  split_ifs <;> rfl

@[simp] theorem gate_failSign (s : Engine) : s.failSign.gate = s.gate := by
  unfold Engine.failSign
  split_ifs <;> rfl

/-- Failing every gate fails this one, unless it was resolved. -/
theorem moves_failGates (s : Engine) {a : Action} (ha : a.ruling = some false) :
    s.gate.Moves a s.failGates.gate := by
  rw [Engine.failGates, gate_failSign, gate_failPrompts]
  unfold Engine.failDecision
  split_ifs with h
  · exact .stay (.inr h)
  · exact .fail (by simpa [Engine.gate] using h) ha

/-- A verdict resolves the gate, unless it was resolved. -/
theorem moves_confirmHostKey (s : Engine) (accept : Bool) :
    s.gate.Moves (.confirmHostKey accept) (s.confirmHostKey accept).gate := by
  unfold Engine.confirmHostKey
  split_ifs with h
  · exact .stay (.inr h)
  · exact .confirm accept (by simpa [Engine.gate] using h) rfl

/-! ### Steps -/

/-- What an export does to the gate. -/
theorem call_moves {s s' : Engine} {a : Action} (h : s.call a = some s') :
    s.gate.Moves a s'.gate := by
  have stay : ∀ {t : Engine}, a.ruling = none → t.gate = s.gate → s.gate.Moves a t.gate :=
    fun ha ht => ht ▸ .stay (.inl ha)
  cases a <;> simp only [Engine.call, Option.some.injEq, reduceCtorEq] at h <;> subst h
  case wireBroken reason =>
    have hfail := moves_failGates (a := .wireBroken reason) { s with
      wireReason := if s.wireReason = "" then reason else s.wireReason
      conn := s.conn.breakWire reason } rfl
    exact hfail
  case close => exact moves_failGates s rfl
  case confirmHostKey accept => exact moves_confirmHostKey s accept
  case authenticatePassword p => exact stay rfl (gate_supplyCreds _ _)
  case authenticatePublickey keys =>
    refine stay rfl ?_
    unfold Engine.authenticatePublickey
    split <;> first | rfl | exact gate_supplyCreds _ _
  case authenticateInteractive => exact stay rfl (gate_supplyCreds _ _)
  case authenticateAuto keys =>
    refine stay rfl ?_
    unfold Engine.authenticateAuto
    split <;> first | rfl | exact gate_supplyCreds _ _
  case answerPrompts as =>
    refine stay rfl ?_
    unfold Engine.answerPrompts
    repeat' split
    all_goals rfl
  case provideSignature sig =>
    refine stay rfl ?_
    unfold Engine.provideSignature
    repeat' split
    all_goals rfl
  case failSignature reason =>
    refine stay rfl ?_
    unfold Engine.failSignature
    split <;> rfl
  case writeInput data =>
    refine stay rfl ?_
    unfold Engine.writeInput
    split <;> rfl
  case probeStart =>
    refine stay rfl ?_
    unfold Engine.probeStart
    split_ifs <;> rfl
  case probePoll =>
    refine stay rfl ?_
    unfold Engine.probePoll
    split <;> rfl
  case openChannel kind c =>
    refine stay rfl ?_
    unfold Engine.openChannel
    split_ifs <;> rfl
  all_goals exact .stay (.inl rfl)

/-- What a goroutine does to the gate. -/
theorem background_moves {s s' : Engine} {a : Action} (h : s.background a = some s') :
    s.gate.Moves a s'.gate := by
  have stay : ∀ {t : Engine}, a.ruling = none → t.gate = s.gate → s.gate.Moves a t.gate :=
    fun ha ht => ht ▸ .stay (.inl ha)
  cases a <;> simp only [Engine.background, reduceCtorEq] at h
  case endCall =>
    obtain ⟨msg, -, rfl⟩ := Option.map_eq_some_iff.1 h
    exact stay rfl (gate_closeWith s msg)
  case hostKeyCallback fp =>
    split_ifs at h with hidle
    cases h
    exact .ask fp s.state hidle rfl
  case hostKeyVerdict =>
    split at h
    · rename_i fp st hparked
      obtain ⟨p, hrecv, rfl⟩ := Option.map_eq_some_iff.1 h
      exact .judge fp st p.1 p.2 hparked hrecv rfl
    · cases h
  case hostKeyReturn =>
    split at h
    · rename_i fp st accepted hjudged
      cases h
      have hreply := Gate.Moves.reply (g := s.gate) (a := .hostKeyReturn) fp st
        (if accepted then s.setState .authenticating else s).state accepted hjudged rfl
      cases accepted with
      | true =>
        have hset := gate_setState s .authenticating
        simp only [Engine.gate, Gate.mk.injEq] at hset
        simpa [Engine.gate, Engine.hostKeyReturn, hset] using hreply
      | false => simpa [Engine.gate, Engine.hostKeyReturn] using hreply
    · cases h
  case authResume =>
    obtain ⟨method, rfl⟩ | ⟨_, _, rfl⟩ | ⟨_, _, rfl⟩ := Engine.authResume_cases h
    · exact stay rfl (gate_resumeCreds s method)
    · exact stay rfl rfl
    · exact stay rfl rfl
  case sign key data =>
    split_ifs at h
    cases h
    exact stay rfl (gate_sign s key data)
  case connRead n =>
    obtain ⟨p, -, rfl⟩ := Option.map_eq_some_iff.1 h
    exact .stay (.inl rfl)
  case handshakeFailed err =>
    split_ifs at h
    cases h
    exact stay rfl (gate_closeWith s _)
  case openFailed msg =>
    split_ifs at h
    cases h
    exact stay rfl (gate_closeWith s _)
  case becomeReady =>
    split_ifs at h
    cases h
    exact stay rfl (gate_setState s _)
  case runClose =>
    split at h
    · cases h
      exact stay rfl (gate_closeWith s _)
    · cases h
  case connWrite b => cases h; exact .stay (.inl rfl)
  case output b => cases h; exact .stay (.inl rfl)
  case forgetChannel c => cases h; exact .stay (.inl rfl)
  all_goals
    split_ifs at h
    cases h
    exact .stay (.inl rfl)

/-- **Every step of the engine moves the gate as `Gate.Moves` says.** -/
theorem step_moves {s s' : Engine} {a : Action} (h : s.step a = some s') :
    s.gate.Moves a s'.gate := by
  unfold Engine.step at h
  split at h
  · rename_i t hcall
    cases h
    split_ifs at hcall
    exact call_moves hcall
  · exact background_moves h

/-! ## One verdict, one acceptance -/

/-- Whether a call accepted the key it was given. -/
def Invocation.accepting (i : Invocation) : Bool := i.err = none

/-- Whether the callback in progress has been told to accept. -/
def HostKeyPc.accepting : HostKeyPc → Bool
  | .judged _ _ true => true
  | _ => false

/-- The acceptances given out and still to come: those waiting in the channel, the one a
callback is about to return, and those returned. -/
def Gate.tokens (g : Gate) : ℕ :=
  g.decision.buf.count true + g.hostKey.accepting.toNat + g.invocations.countP Invocation.accepting

/-- There is at most one acceptance, and it comes from the embedder's verdict. -/
def Gate.Sound (g : Gate) : Prop :=
  g.tokens ≤ g.confirmed.toNat ∧ (g.confirmed = true → g.once = true)

/-- A step keeps the gate sound.

**Proof sketch.** A verdict is given only once, so it is the first token. Receiving moves the
token from the channel to the callback, and returning from there to the record of calls. -/
theorem Gate.Moves.sound {g g' : Gate} {a : Action} (h : g.Moves a g') (hs : g.Sound) : g'.Sound := by
  obtain ⟨htokens, honce⟩ := hs
  cases h with
  | stay ha => exact ⟨htokens, honce⟩
  | confirm accept h ha =>
    have hno : g.confirmed = false := by
      by_contra hc
      simp [h] at honce
      simp [honce] at hc
    have hnew : [accept].count true = accept.toNat := by cases accept <;> rfl
    refine ⟨?_, fun _ => rfl⟩
    simp only [Gate.tokens, Chan.send, Chan.close, List.count_append, hnew, hno, Bool.false_or,
      Bool.toNat_false] at htokens ⊢
    omega
  | fail h ha => exact ⟨htokens, fun hc => rfl⟩
  | ask fp st h ha =>
    refine ⟨?_, honce⟩
    simpa [Gate.tokens, h, HostKeyPc.accepting] using htokens
  | judge fp st v ch h hrecv ha =>
    refine ⟨Nat.le_trans ?_ htokens, honce⟩
    simp only [Gate.tokens, h, HostKeyPc.accepting]
    unfold Chan.recv at hrecv
    split at hrecv
    · rename_i b bs hbuf
      simp only [Option.some.injEq, Prod.mk.injEq] at hrecv
      obtain ⟨rfl, rfl⟩ := hrecv
      cases b <;> simp [hbuf]
    · rename_i hbuf
      split_ifs at hrecv
      simp only [Option.some.injEq, Prod.mk.injEq] at hrecv
      obtain ⟨rfl, rfl⟩ := hrecv
      simp
  | reply fp st after accepted h ha =>
    refine ⟨Nat.le_trans ?_ htokens, honce⟩
    cases accepted <;> simp [Gate.tokens, h, HostKeyPc.accepting, Invocation.accepting]
    omega

/-- The gate is sound in every state reached. -/
theorem sound_of_run {user command : String} {cols rows : ℕ} {as : List Action} {s : Engine}
    (h : Run.run Engine.step (Engine.new user cols rows command) as = some s) : s.gate.Sound :=
  Run.run_inv_of_step (P := fun s => s.gate.Sound)
    (fun _ _ _ hs hstep => (step_moves hstep).sound hs)
    ⟨Nat.le_refl _, fun hc => by cases hc⟩ h

/-- **A key is accepted only after `ConfirmHostKey true`.** -/
theorem confirmed_of_accepted {user command : String} {cols rows : ℕ} {as : List Action}
    {s : Engine} (h : Run.run Engine.step (Engine.new user cols rows command) as = some s)
    {i : Invocation} (hi : i ∈ s.invocations) (hacc : i.err = none) : s.confirmed = true := by
  have hpos : 0 < s.invocations.countP Invocation.accepting :=
    List.countP_pos_iff.2 ⟨i, hi, by simp [Invocation.accepting, hacc]⟩
  have htokens := (sound_of_run h).1
  by_contra hc
  simp only [Gate.tokens, Engine.gate, Bool.not_eq_true] at htokens hc
  rw [hc, Bool.toNat_false] at htokens
  omega

/-- The record of calls only grows. -/
theorem invocations_prefix {as : List Action} {s t : Engine}
    (h : Run.run Engine.step s as = some t) : s.invocations <+: t.invocations := by
  refine Run.run_mono (R := fun s t : Engine => s.invocations <+: t.invocations)
    (fun _ => List.prefix_refl _) (fun _ _ _ h h' => h.trans h') (fun s a s' hstep => ?_) h
  have hgrow : ∀ {g g' : Gate}, g.Moves a g' → g.invocations <+: g'.invocations := by
    intro g g' hm
    cases hm <;> first | exact List.prefix_refl _ | exact List.prefix_append _ _
  exact hgrow (step_moves hstep)

/-! ## Rekeying -/

/-- What a later call of the callback should do once the key with fingerprint `F` was accepted:
let the same key pass and leave the published state alone, and refuse any other. -/
def Survives (F : String) (i : Invocation) : Prop :=
  if i.fingerprint = F then i.err = none ∧ i.after = i.before else i.err ≠ none

/-- **Rekeying and the gate.** After a key with fingerprint `F` was accepted, and whatever the
embedder and the ssh stack do from then on, every later call of the host key callback does what
it should exactly if none of them is with a key of fingerprint `F`.

**Proof sketch.** The acceptance used up the only token, so every later call returns an error:
right for another key, wrong for the accepted one. -/
theorem survives_rekey_iff {user command : String} {cols rows : ℕ} {before later : List Action}
    {s t : Engine} {F : String}
    (hs : Run.run Engine.step (Engine.new user cols rows command) before = some s)
    (hF : ∃ i ∈ s.invocations, i.fingerprint = F ∧ i.err = none)
    (ht : Run.run Engine.step s later = some t) :
    (∀ i ∈ t.invocations.drop s.invocations.length, Survives F i) ↔
      ∀ i ∈ t.invocations.drop s.invocations.length, i.fingerprint ≠ F := by
  have hrefused : ∀ i ∈ t.invocations.drop s.invocations.length, i.err ≠ none := by
    intro i hi hnone
    obtain ⟨j, hj, -, hjacc⟩ := hF
    have hall : Run.run Engine.step (Engine.new user cols rows command) (before ++ later) = some t :=
      (Run.run_append_of_eq_some hs later).trans ht
    obtain ⟨ls, hls⟩ := invocations_prefix ht
    have htokens := (sound_of_run hall).1
    have hone := Bool.toNat_le t.confirmed
    have hold : 0 < s.invocations.countP Invocation.accepting :=
      List.countP_pos_iff.2 ⟨j, hj, by simp [Invocation.accepting, hjacc]⟩
    rw [← hls, List.drop_left] at hi
    have hnew : 0 < ls.countP Invocation.accepting :=
      List.countP_pos_iff.2 ⟨i, hi, by simp [Invocation.accepting, hnone]⟩
    simp only [Gate.tokens, Engine.gate, ← hls, List.countP_append] at htokens
    omega
  constructor
  · intro h i hi hfp
    have hsurvives := h i hi
    rw [Survives, if_pos hfp] at hsurvives
    exact hrefused i hi hsurvives.1
  · intro h i hi
    rw [Survives, if_neg (h i hi)]
    exact hrefused i hi

/-- The gate as a whole connection should find it: after `ConfirmHostKey true` let the key with
fingerprint `F` pass, every later call of the callback, with no `Close` and no `WireBroken`,
lets that key pass unnoticed and refuses every other. -/
def GateSurvives : Prop :=
  ∀ (user command : String) (cols rows : ℕ) (before later : List Action) (s t : Engine)
    (F : String),
    Run.run Engine.step (Engine.new user cols rows command) before = some s →
    s.confirmed = true → (∃ i ∈ s.invocations, i.fingerprint = F ∧ i.err = none) →
    (∀ a ∈ later, a ≠ .close ∧ ∀ reason, a ≠ .wireBroken reason) →
    Run.run Engine.step s later = some t →
    ∀ i ∈ t.invocations.drop s.invocations.length, Survives F i

/-- A session that became ready and rekeys with the host key it was accepted with: the callback
asks again, finds the decision channel closed, and refuses. -/
theorem not_gateSurvives : ¬ GateSurvives := by
  intro h
  have hi := h "user" "" 80 24
    [.hostKeyCallback "SHA256:F", .confirmHostKey true, .hostKeyVerdict, .hostKeyReturn,
      .handshakeDone, .shellStarted, .flushInput, .becomeReady]
    [.hostKeyCallback "SHA256:F", .hostKeyVerdict, .hostKeyReturn]
    _ _ "SHA256:F" rfl rfl ⟨_, List.mem_singleton.2 rfl, rfl, rfl⟩ (by simp) rfl
    ⟨"SHA256:F", .ready, .hostKeyCheck, some Engine.hostKeyRejected⟩ (List.mem_singleton.2 rfl)
  rw [Survives, if_pos rfl] at hi
  exact absurd hi.1 (by decide)

/-- The equivalence on the connection of `not_gateSurvives`: the later call is with the accepted
key. -/
theorem survives_rekey_iff_ready :
    ∃ s t : Engine, s.state = .ready ∧ t.state = .hostKeyCheck ∧
      ((∀ i ∈ t.invocations.drop s.invocations.length, Survives "SHA256:F" i) ↔
        ∀ i ∈ t.invocations.drop s.invocations.length, i.fingerprint ≠ "SHA256:F") :=
  ⟨_, _, rfl, rfl, @survives_rekey_iff "user" "" 80 24
    [.hostKeyCallback "SHA256:F", .confirmHostKey true, .hostKeyVerdict, .hostKeyReturn,
      .handshakeDone, .shellStarted, .flushInput, .becomeReady]
    [.hostKeyCallback "SHA256:F", .hostKeyVerdict, .hostKeyReturn]
    _ _ "SHA256:F" rfl ⟨_, List.mem_singleton.2 rfl, rfl, rfl⟩ rfl⟩

end SshCore
