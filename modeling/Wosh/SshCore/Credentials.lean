import Wosh.SshCore.HostKey

set_option relaxedAutoImplicit false
set_option autoImplicit false

/-!
# The credential gate

The auth callbacks park until the embedder supplies a credential, and every call that supplies one
is refused until the embedder has accepted the host key. The channel the callbacks park on is also
closed when the session is torn down; what they find then is the zero credential, which offers
nothing.

## Main definitions

* `SshCore.ruled`, `SshCore.firstVerdict` — how a run resolves the host key gate, and the first
  verdict the embedder gives in it.
* `SshCore.Answer.material` — an auth callback returned credential material.
* `SshCore.Ledger` — the part of the engine that credentials go through, and `SshCore.Ledger.Moves`,
  what a step can do to it.
* `SshCore.Gated` — the invariant.

## Main results

* `SshCore.ruled_of_run` — a host key is confirmed exactly if an acceptance was what resolved the
  gate.
* `SshCore.credential_gate` — no credential leaves the engine before that, and a call that offers
  one too early, or an invalid one, changes nothing.
-/

namespace SshCore

/-! ## The verdict -/

/-- How a run resolves the host key gate. -/
def ruled (as : List Action) : Option Bool := as.findSome? Action.ruling

/-- What the embedder rules, if the action is a verdict. -/
def Action.verdict : Action → Option Bool
  | .confirmHostKey accept => some accept
  | _ => none

/-- The first verdict the embedder gives in a run. -/
def firstVerdict (as : List Action) : Option Bool := as.findSome? Action.verdict

/-- An acceptance that resolves the gate is the first verdict. -/
theorem firstVerdict_of_ruled {as : List Action} (h : ruled as = some true) :
    firstVerdict as = some true := by
  induction as with
  | nil => cases h
  | cons a as ih =>
    unfold ruled at h
    unfold firstVerdict
    rw [List.findSome?_cons] at h ⊢
    cases a
    case confirmHostKey accept => exact h
    case close => cases h
    case wireBroken reason => cases h
    all_goals exact ih h

/-- What a step does to the latches of the gate. -/
theorem Gate.Moves.latches {g g' : Gate} {a : Action} (h : g.Moves a g') :
    g'.once = (g.once || a.ruling.isSome) ∧
      g'.confirmed = (g.confirmed || (!g.once && a.ruling = some true)) := by
  cases h with
  | stay ha => rcases ha with ha | ha <;> simp [ha]
  | confirm accept h ha => cases accept <;> simp [h, ha]
  | fail h ha => simp [h, ha]
  | ask fp st h ha => simp [ha]
  | judge fp st v ch h hrecv ha => simp [ha]
  | reply fp st after accepted h ha => simp [ha]

/-- The latches after a run. -/
theorem latches_run {s t : Engine} {as : List Action} (h : Run.run Engine.step s as = some t) :
    t.decisionOnce = (s.decisionOnce || (ruled as).isSome) ∧
      t.confirmed = (s.confirmed || (!s.decisionOnce && ruled as = some true)) := by
  induction as generalizing s with
  | nil =>
    obtain rfl : s = t := by simpa using h
    simp [ruled]
  | cons a as ih =>
    obtain ⟨u, hu, h'⟩ := Run.run_cons_eq_some.1 h
    obtain ⟨honce, hconfirmed⟩ := (step_moves hu).latches
    obtain ⟨honce', hconfirmed'⟩ := ih h'
    simp only [Engine.gate] at honce hconfirmed
    rw [honce', hconfirmed', honce, hconfirmed]
    unfold ruled
    rw [List.findSome?_cons]
    -- whichever resolves it first, this action or a later one
    cases hr : a.ruling with
    | none => simp
    | some accept => cases s.decisionOnce <;> simp

/-- **A host key is confirmed exactly if an acceptance resolved the gate.** -/
theorem ruled_of_run {user command : String} {cols rows : ℕ} {as : List Action} {s : Engine}
    (h : Run.run Engine.step (Engine.new user cols rows command) as = some s) :
    s.confirmed = true ↔ ruled as = some true := by
  rw [(latches_run h).2]
  simp [Engine.new]

/-! ## The ledger -/

/-- Credential material: a password, signers, or answers to a batch of prompts. -/
def Answer.material : Answer → Bool
  | .password _ => true
  | .signers _ => true
  | .answers _ => true
  | _ => false

/-- The part of the engine that credentials go through. -/
structure Ledger where
  creds : Credential
  auth : AuthPc
  answers : List Answer

/-- The ledger of an engine. -/
def Engine.ledger (s : Engine) : Ledger := ⟨s.creds, s.auth, s.answers⟩

/-- What one step of the engine can do to the ledger, when the host key is `confirmed` or not. -/
inductive Ledger.Moves (l : Ledger) (confirmed : Bool) : Ledger → Prop
  /-- The step does not concern it. -/
  | stay : l.Moves confirmed l
  /-- The embedder supplies a credential. -/
  | supply (c : Credential) (h : confirmed = true) : l.Moves confirmed { l with creds := c }
  /-- An auth callback parks; on a batch of prompts only if the credential offers its method. -/
  | park (pc : AuthPc) (h : ∀ single, pc = .prompts single → l.creds.kind ≠ .unset) :
      l.Moves confirmed { l with auth := pc }
  /-- An auth callback returns. -/
  | reply (a : Answer)
      (h : a.material = true → l.creds.kind ≠ .unset ∨ ∃ single, l.auth = .prompts single) :
      l.Moves confirmed { l with auth := .idle, answers := l.answers ++ [a] }

/-! ### Operations that leave the ledger alone -/

@[simp] theorem ledger_setState (s : Engine) (st : State) : (s.setState st).ledger = s.ledger := by
  unfold Engine.setState
  split_ifs <;> rfl

@[simp] theorem ledger_closeWith (s : Engine) (msg : String) :
    (s.closeWith msg).ledger = s.ledger := by
  unfold Engine.closeWith
  split_ifs <;> rfl

@[simp] theorem ledger_failGates (s : Engine) : s.failGates.ledger = s.ledger := by
  unfold Engine.failGates Engine.failSign Engine.failPrompts Engine.failDecision
  split_ifs <;> rfl

/-! ### Operations that move it -/

/-- The zero credential offers no method. -/
theorem kind_of_offers {c : Credential} {method : Kind} (h : c.offers method = true)
    (hm : method ≠ .unset) : c.kind ≠ .unset := by
  intro hc
  simp only [Credential.offers, hc, Bool.or_eq_true, decide_eq_true_eq, reduceCtorEq, or_false] at h
  exact hm h.symm

theorem moves_supplyCreds (s : Engine) (c : Credential) :
    s.ledger.Moves s.confirmed (s.supplyCreds c).1.ledger := by
  unfold Engine.supplyCreds
  split_ifs with h
  · exact .stay
  · exact .supply c (by simpa using h)

theorem moves_surfacePrompts (s : Engine) (single : Bool) (batch : PromptBatch)
    (h : s.creds.kind ≠ .unset) :
    s.ledger.Moves s.confirmed (s.surfacePrompts single batch).ledger := by
  unfold Engine.surfacePrompts
  split_ifs
  · exact .reply _ nofun
  · exact .park _ fun _ _ => h

/-- An auth callback goes on with the credential it finds. -/
theorem moves_resumeCreds (s : Engine) (m : AuthMethod) :
    s.ledger.Moves s.confirmed (s.resumeCreds m).ledger := by
  cases m with
  | password =>
    simp only [Engine.resumeCreds]
    split_ifs with hoffers
    · exact .reply _ fun h => by cases h
    · exact .reply _ fun _ => .inl (kind_of_offers (eq_true_of_ne_false hoffers) (by simp))
    · exact moves_surfacePrompts s true _ (kind_of_offers (eq_true_of_ne_false hoffers) (by simp))
  | publickey =>
    simp only [Engine.resumeCreds]
    split_ifs with hoffers
    · exact .reply _ fun h => by cases h
    · exact .reply _ fun h => by cases h
    · exact .reply _ fun _ => .inl (kind_of_offers (eq_true_of_ne_false hoffers) (by simp))
  | keyboardInteractive instruction questions echos =>
    simp only [Engine.resumeCreds]
    split_ifs with hoffers
    · exact .reply _ fun h => by cases h
    · exact .reply _ fun _ => .inl (kind_of_offers (eq_true_of_ne_false hoffers) (by simp))
    · exact moves_surfacePrompts s false _ (kind_of_offers (eq_true_of_ne_false hoffers) (by simp))

/-- Answers come only to a callback parked on prompts. -/
theorem moves_resumePrompts {s s' : Engine} {single : Bool} (hauth : s.auth = .prompts single)
    (h : s.resumePrompts single = some s') : s.ledger.Moves s.confirmed s'.ledger := by
  obtain ⟨p, -, rfl⟩ := Option.map_eq_some_iff.1 h
  dsimp only
  split
  · exact .reply _ nofun
  · exact .reply _ fun _ => .inr ⟨single, hauth⟩

theorem moves_resumeSign {s s' : Engine} (h : s.resumeSign = some s') :
    s.ledger.Moves s.confirmed s'.ledger := by
  obtain ⟨p, -, rfl⟩ := Option.map_eq_some_iff.1 h
  dsimp only
  split <;> exact .reply _ nofun

/-! ### Steps -/

/-- What an export does to the ledger. -/
theorem call_ledger {s s' : Engine} {a : Action} (h : s.call a = some s') :
    s.ledger.Moves s.confirmed s'.ledger := by
  have stay : ∀ {t : Engine}, t.ledger = s.ledger → s.ledger.Moves s.confirmed t.ledger :=
    fun ht => ht ▸ .stay
  cases a <;> simp only [Engine.call, Option.some.injEq, reduceCtorEq] at h <;> subst h
  case wireBroken reason => exact stay (ledger_failGates _)
  case close => exact stay (ledger_failGates s)
  case confirmHostKey accept =>
    refine stay ?_
    unfold Engine.confirmHostKey
    split_ifs <;> rfl
  case authenticatePassword p => exact moves_supplyCreds s _
  case authenticatePublickey keys =>
    unfold Engine.authenticatePublickey
    split
    · exact .stay
    · exact .stay
    · exact moves_supplyCreds s _
  case authenticateInteractive => exact moves_supplyCreds s _
  case authenticateAuto keys =>
    unfold Engine.authenticateAuto
    split
    · exact .stay
    · exact moves_supplyCreds s _
  case answerPrompts as =>
    refine stay ?_
    unfold Engine.answerPrompts
    repeat' split
    all_goals rfl
  case provideSignature sig =>
    refine stay ?_
    unfold Engine.provideSignature
    repeat' split
    all_goals rfl
  case failSignature reason =>
    refine stay ?_
    unfold Engine.failSignature
    split <;> rfl
  case writeInput data =>
    refine stay ?_
    unfold Engine.writeInput
    split <;> rfl
  case probeStart =>
    refine stay ?_
    unfold Engine.probeStart
    split_ifs <;> rfl
  case probePoll =>
    refine stay ?_
    unfold Engine.probePoll
    split <;> rfl
  case openChannel kind c =>
    refine stay ?_
    unfold Engine.openChannel
    split_ifs <;> rfl
  all_goals exact .stay

/-- What a goroutine does to the ledger. -/
theorem background_ledger {s s' : Engine} {a : Action} (h : s.background a = some s') :
    s.ledger.Moves s.confirmed s'.ledger := by
  have stay : ∀ {t : Engine}, t.ledger = s.ledger → s.ledger.Moves s.confirmed t.ledger :=
    fun ht => ht ▸ .stay
  cases a <;> simp only [Engine.background, reduceCtorEq] at h
  case endCall =>
    obtain ⟨msg, -, rfl⟩ := Option.map_eq_some_iff.1 h
    exact stay (ledger_closeWith s msg)
  case hostKeyVerdict =>
    obtain ⟨_, _, rfl⟩ := Engine.hostKeyVerdict_cases h
    exact .stay
  case hostKeyReturn =>
    split at h
    · cases h
      refine stay ?_
      unfold Engine.hostKeyReturn Engine.setState
      split_ifs <;> rfl
    · cases h
  case authCallback method =>
    split_ifs at h
    cases h
    exact .park (.waitCreds method) (by simp)
  case authResume =>
    split at h
    · cases h
    · split_ifs at h
      cases h
      exact moves_resumeCreds s _
    · rename_i single hauth
      exact moves_resumePrompts hauth h
    · exact moves_resumeSign h
  case sign key data =>
    split_ifs at h
    cases h
    unfold Engine.sign
    by_cases hclosed : s.sigClosed = true
    · rw [if_pos hclosed]
      exact .reply _ fun h => by cases h
    · rw [if_neg hclosed]
      exact .park .sign (by simp)
  case connRead n =>
    obtain ⟨p, -, rfl⟩ := Option.map_eq_some_iff.1 h
    exact .stay
  case handshakeFailed err =>
    split_ifs at h
    cases h
    exact stay (ledger_closeWith s _)
  case openFailed msg =>
    split_ifs at h
    cases h
    exact stay (ledger_closeWith s _)
  case becomeReady =>
    split_ifs at h
    cases h
    exact stay (ledger_setState s _)
  case runClose =>
    split at h
    · cases h
      exact stay (ledger_closeWith s _)
    · cases h
  case connWrite b => cases h; exact .stay
  case output b => cases h; exact .stay
  case forgetChannel c => cases h; exact .stay
  all_goals
    split_ifs at h
    cases h
    exact .stay

/-- Every step of the engine moves the ledger as `Ledger.Moves` says. -/
theorem step_ledger {s s' : Engine} {a : Action} (h : s.step a = some s') :
    s.ledger.Moves s.confirmed s'.ledger := by
  unfold Engine.step at h
  split at h
  · rename_i t hcall
    cases h
    split_ifs at hcall
    exact call_ledger hcall
  · exact background_ledger h

/-! ## The invariant -/

/-- Whatever holds or returned credential material does so under a confirmed host key. -/
structure Gated (s : Engine) : Prop where
  creds : s.creds.kind ≠ .unset → s.confirmed = true
  prompts : ∀ single, s.auth = .prompts single → s.confirmed = true
  answers : ∀ a ∈ s.answers, a.material = true → s.confirmed = true

/-- A step keeps the gate. -/
theorem Gated.step {s s' : Engine} {a : Action} (h : Gated s) (hstep : s.step a = some s') :
    Gated s' := by
  have hconfirmed : s.confirmed = true → s'.confirmed = true := by
    intro hc
    have hlatch := (step_moves hstep).latches.2
    simp only [Engine.gate, hc, Bool.true_or] at hlatch
    exact hlatch
  have hmoves := step_ledger hstep
  generalize hl' : s'.ledger = l' at hmoves
  have hgated : (l'.creds.kind ≠ .unset → s.confirmed = true) ∧
      (∀ single, l'.auth = .prompts single → s.confirmed = true) ∧
      ∀ a ∈ l'.answers, a.material = true → s.confirmed = true := by
    cases hmoves with
    | stay => exact ⟨h.creds, h.prompts, h.answers⟩
    | supply c hc => exact ⟨fun _ => hc, fun _ _ => hc, fun _ _ _ => hc⟩
    | park pc hpc => exact ⟨h.creds, fun single hs => h.creds (hpc single hs), h.answers⟩
    | reply b hb =>
      refine ⟨h.creds, (by simp), fun a ha hmat => ?_⟩
      rcases List.mem_append.1 ha with ha | ha
      · exact h.answers a ha hmat
      · obtain rfl := List.mem_singleton.1 ha
        rcases hb hmat with hc | ⟨single, hauth⟩
        · exact h.creds hc
        · exact h.prompts single hauth
  rw [← hl'] at hgated
  obtain ⟨hcreds, hprompts, hanswers⟩ := hgated
  exact ⟨fun hc => hconfirmed (hcreds hc), fun single hs => hconfirmed (hprompts single hs),
    fun a ha hmat => hconfirmed (hanswers a ha hmat)⟩

/-- The gate holds in every state reached. -/
theorem gated_of_run {user command : String} {cols rows : ℕ} {as : List Action} {s : Engine}
    (h : Run.run Engine.step (Engine.new user cols rows command) as = some s) : Gated s :=
  Run.run_inv_of_step (fun _ _ _ hs hstep => hs.step hstep)
    ⟨fun hc => absurd rfl hc, fun _ hs => (by cases hs), fun _ ha => (by cases ha)⟩ h

/-! ## Offers -/

/-- A key that can be offered. -/
def PublicKey.valid (k : PublicKey) : Bool := k.algorithm ≠ "" && k.blob ≠ []

/-- An offer of valid keys is taken as it is. -/
theorem offerSigners_of_valid {keys : List PublicKey} (h : keys.all PublicKey.valid = true) :
    Engine.offerSigners keys = .ok keys := by
  unfold Engine.offerSigners
  generalize hfind : List.findSome? _ keys.zipIdx = o
  have hnone : o = none := by
    rw [← hfind, List.findSome?_eq_none_iff]
    rintro ⟨k, i⟩ hk
    have hmem : k ∈ keys := List.fst_mem_of_mem_zipIdx hk
    have hvalid := List.all_eq_true.1 h k hmem
    simp only [PublicKey.valid, Bool.and_eq_true, decide_eq_true_eq] at hvalid
    simp [hvalid.1, hvalid.2]
  rw [hnone]
  rfl

/-- An offer with an invalid key is rejected. -/
theorem offerSigners_of_invalid {keys : List PublicKey} (h : keys.all PublicKey.valid = false) :
    ∃ e, Engine.offerSigners keys = .error e := by
  unfold Engine.offerSigners
  obtain ⟨k, hk, hinvalid⟩ : ∃ k ∈ keys, k.valid = false := by simpa using h
  obtain ⟨i, hi, hget⟩ := List.mem_iff_getElem.1 hk
  generalize hfind : List.findSome? _ keys.zipIdx = o
  cases o with
  | some e => exact ⟨e, rfl⟩
  | none =>
    rw [List.findSome?_eq_none_iff] at hfind
    have hmem : (k, i) ∈ keys.zipIdx := List.mk_mem_zipIdx_iff_getElem?.2 (by
      rw [List.getElem?_eq_getElem hi, hget])
    have hno := hfind (k, i) hmem
    dsimp only at hno
    split_ifs at hno with halg hblob
    simp [PublicKey.valid, halg, hblob] at hinvalid

namespace Engine

/-- The calls that supply a credential. -/
def authenticate (s : Engine) : Action → Option (Engine × Option String)
  | .authenticatePassword password => some (s.authenticatePassword password)
  | .authenticatePublickey keys => some (s.authenticatePublickey keys)
  | .authenticateInteractive => some s.authenticateInteractive
  | .authenticateAuto keys => some (s.authenticateAuto keys)
  | _ => none

end Engine

/-- The credential that a call supplies. -/
def Action.credential : Action → Credential
  | .authenticatePassword password => { kind := .password, password }
  | .authenticatePublickey keys => { kind := .publickey, keys }
  | .authenticateInteractive => { kind := .keyboardInteractive }
  | .authenticateAuto keys => { kind := .auto, keys }
  | _ => {}

/-- Every key on offer is valid, and an offer of keys alone is not empty. -/
def Action.validOffer : Action → Bool
  | .authenticatePublickey keys => keys ≠ [] && keys.all PublicKey.valid
  | .authenticateAuto keys => keys.all PublicKey.valid
  | _ => true

/-- A valid offer reaches `supplyCreds`, and any other one is rejected before. -/
theorem authenticate_cases {s : Engine} {a : Action} {r : Engine × Option String}
    (h : s.authenticate a = some r) :
    (a.validOffer = true ∧ r = s.supplyCreds a.credential) ∨
      (a.validOffer = false ∧ r.1 = s ∧ r.2 ≠ none) := by
  cases a <;> simp only [Engine.authenticate, Option.some.injEq, reduceCtorEq] at h <;> subst h
  case authenticatePassword password => exact .inl ⟨rfl, rfl⟩
  case authenticateInteractive => exact .inl ⟨rfl, rfl⟩
  case authenticatePublickey keys =>
    unfold Engine.authenticatePublickey
    cases hvalid : keys.all PublicKey.valid with
    | true =>
      rw [offerSigners_of_valid hvalid]
      cases keys with
      | nil => exact .inr ⟨rfl, rfl, nofun⟩
      | cons k ks => exact .inl ⟨by simp [Action.validOffer, hvalid], rfl⟩
    | false =>
      obtain ⟨e, he⟩ := offerSigners_of_invalid hvalid
      rw [he]
      exact .inr ⟨by simp [Action.validOffer, hvalid], rfl, nofun⟩
  case authenticateAuto keys =>
    unfold Engine.authenticateAuto
    cases hvalid : keys.all PublicKey.valid with
    | true =>
      rw [offerSigners_of_valid hvalid]
      exact .inl ⟨hvalid, rfl⟩
    | false =>
      obtain ⟨e, he⟩ := offerSigners_of_invalid hvalid
      rw [he]
      exact .inr ⟨hvalid, rfl, nofun⟩

/-! ## Runs -/

/-- **The credential gate.** In every state a session reaches, whatever its embedder and the ssh
stack do: an auth callback has returned credential material only if an acceptance resolved the host
key gate, which then was the embedder's first verdict; a call that offers a credential before that,
or an invalid one, returns an error and leaves the engine exactly as it was; and any other one is
taken.

**Proof sketch.** `Gated` holds in every state, and a host key is confirmed exactly if an acceptance
resolved the gate (`ruled_of_run`). -/
theorem credential_gate {user command : String} {cols rows : ℕ} {as : List Action} {s : Engine}
    (h : Run.run Engine.step (Engine.new user cols rows command) as = some s) :
    (∀ a ∈ s.answers, a.material = true → ruled as = some true) ∧
    (ruled as = some true → firstVerdict as = some true) ∧
    ∀ (c : Action) (r : Engine × Option String), s.authenticate c = some r →
      (ruled as ≠ some true ∨ c.validOffer = false → r.2 ≠ none ∧ r.1 = s) ∧
      (ruled as = some true → c.validOffer = true →
        r.2 = none ∧ r.1 = { s with creds := c.credential, credsReady := true }) := by
  have hruled := ruled_of_run h
  refine ⟨fun a ha hmat => hruled.1 ((gated_of_run h).answers a ha hmat), firstVerdict_of_ruled,
    fun c r hr => ?_⟩
  rcases authenticate_cases hr with ⟨hvalid, rfl⟩ | ⟨hinvalid, hsame, herr⟩
  · constructor
    · rintro (hverdict | hinvalid)
      · have hno : s.confirmed = false := Bool.eq_false_iff.2 fun hc => hverdict (hruled.1 hc)
        rw [Engine.supplyCreds, if_pos hno]
        exact ⟨nofun, rfl⟩
      · rw [hvalid] at hinvalid
        cases hinvalid
    · intro hacc _
      rw [Engine.supplyCreds, if_neg (by simp [hruled.2 hacc])]
      exact ⟨rfl, rfl⟩
  · refine ⟨fun _ => ⟨herr, hsame⟩, fun _ hvalid => ?_⟩
    rw [hvalid] at hinvalid
    cases hinvalid

/-- A password is offered too early, and once more after the host key was accepted; then the server
asks for it. -/
def offersTwice : List Action :=
  [.authenticatePassword "pw", .hostKeyCallback "SHA256:F", .confirmHostKey true,
    .authenticatePassword "pw", .hostKeyVerdict, .hostKeyReturn, .authCallback .password,
    .authResume]

/-- The run to which `credential_gate` is applied. -/
theorem credential_gate_password :
    ∃ s : Engine, Run.run Engine.step (Engine.new "user" 80 24 "") offersTwice = some s ∧
      s.answers = [.password "pw"] ∧ ruled offersTwice = some true :=
  ⟨_, rfl, rfl, (@credential_gate "user" "" 80 24 offersTwice _ rfl).1 (.password "pw")
    (List.mem_singleton.2 rfl) rfl⟩

end SshCore
