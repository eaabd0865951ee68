import Wosh.Lib.Run
import Wosh.Transfer.Plan

set_option relaxedAutoImplicit false
set_option autoImplicit false

/-!
# Opening the SFTP connection

`ensure_open`, `open_channel` and `await_version` of `wosh-client/src/transfer.rs`: the first operation
that finds no SFTP connection opens one, candidate after candidate, and installs each before its
handshake. Any number of other operations ask for the connection all the while.

## Main definitions

* `Transfer.Conn` — a connection, as it is installed.
* `Transfer.Opening`, `Transfer.Opening.step` — the state that the operations share, and where each
  stands.
* `Transfer.Opening.Opens` — what an operation relies on when `ensure_open` returns.
* `Transfer.Opening.Calm` — nobody looks at a connection whose handshake is not over.

## Main results

* `Transfer.ensures_negotiated` — along calm steps, it can.
* `Transfer.not_alwaysNegotiated` — an operation that is given a connection before its VERSION.

## Design

A task runs without interruption from one await to the next, so each action of a task is what it does
between two awaits. What the rounds of any task bring in (VERSION, the death of the channel) may come at
any time, and so may a change of the session.

`versioned` records that VERSION has arrived on a connection; `opener` takes `versionSeen`, but nothing
reads `versioned`. `early` records that a request was submitted on a connection without it.
-/

namespace Transfer

open Run

/-- The exec candidates (`SFTP_SERVER_CANDIDATES`). -/
def sftpServerCandidates : List String :=
  ["/usr/lib/openssh/sftp-server", "/usr/libexec/sftp-server", "/usr/lib/ssh/sftp-server"]

/-- The subsystem, then each exec candidate; whether it is one. -/
def openAttempts : List (String × Bool) :=
  ("sftp", false) :: sftpServerCandidates.map fun name => (name, true)

/-- A connection, as it is installed. -/
structure Conn extends Sftp where
  /-- How many were installed before. -/
  gen : ℕ
  /-- VERSION has arrived and was not taken; whether it advertises limits. -/
  versionSeen : Option Bool := none
  versioned : Bool := false
deriving DecidableEq

/-- The opener has taken VERSION. -/
def Conn.taken (c : Conn) : Conn := { c with versionSeen := none }

/-- The lengths that the server advertises, if the request for them was answered. -/
def Conn.limited (limits : Option (ℕ × ℕ)) (c : Conn) : Conn :=
  { c with
    readLen := (limits.map Prod.fst).or c.readLen
    writeLen := (limits.map Prod.snd).or c.writeLen }

/-- Where an operation stands. -/
inductive Caller
  | idle
  /-- In `ensure_open`, about to look at the shared state. -/
  | ensuring
  /-- In `await_version`, with the attempts left and the refusals so far. -/
  | awaiting (gen : ℕ) (name : String) (rest : List (String × Bool)) (refusals : List String)
  /-- In `fetch_limits`. -/
  | limiting (gen : ℕ)
  /-- `ensure_open` returned `Ok`, for this connection. -/
  | using (gen : ℕ)
  /-- It returned this error. -/
  | refused (err : String)
deriving DecidableEq

/-- The operation is in `open_channel`. -/
def Caller.isOpening : Caller → Bool
  | .awaiting .. | .limiting _ => true
  | _ => false

/-- What the operations share, and where each stands. -/
structure Opening where
  sftp : Option Conn := none
  /-- `sftp_opening`. -/
  opening : Bool := false
  session : Session := {}
  tasks : ℕ → Caller := fun _ => .idle
  /-- How many connections were installed. -/
  made : ℕ := 0
  /-- A request was submitted on a connection before its VERSION. Nothing reads it. -/
  early : Bool := false

/-- What happens next. Where a channel is opened, the answer of the core is in the action. -/
inductive OpeningAction
  /-- Operation `i` begins. -/
  | start (i : ℕ)
  /-- It looks at the shared state. -/
  | test (i : ℕ) (err : Option String)
  /-- It looks for VERSION. -/
  | poll (i : ℕ) (err : Option String)
  /-- `fetch_limits` is done, with the lengths of READ and WRITE or without. -/
  | limited (i : ℕ) (limits : Option (ℕ × ℕ))
  /-- It queues a request. -/
  | submit (i : ℕ)
  | finish (i : ℕ)
  /-- VERSION arrives. -/
  | version (limits : Bool)
  | die (reason : String)
  | session (s : Session)
deriving DecidableEq

namespace Opening

/-- Operation `i` goes on from here. -/
def goto (p : Opening) (i : ℕ) (c : Caller) : Opening :=
  { p with tasks := Function.update p.tasks i c }

/-- `open_channel` returns. -/
def opened (p : Opening) (i : ℕ) (c : Caller) : Opening := { p.goto i c with opening := false }

/-- The next attempt of `open_channel`: a connection is installed, with INIT queued. -/
def openNext (p : Opening) (i : ℕ) (refusals : List String) (err : Option String) :
    List (String × Bool) → Opening
  | [] =>
    p.opened i (.refused ("no sftp server on the target -- the `sftp` subsystem and every known " ++
      "sftp-server path were refused (" ++ "; ".intercalate refusals ++ ")"))
  | (name, _) :: rest =>
    match err with
    | some e => p.opened i (.refused ("open an sftp channel: " ++ e))
    | none =>
      { p.goto i (.awaiting p.made name rest refusals) with
        sftp := some { gen := p.made }
        made := p.made + 1 }

/-- A dead connection is discarded by whoever looks. -/
def discard (p : Opening) : Opening :=
  match p.sftp with
  | some c => if c.dead = none then p else { p with sftp := none }
  | none => p

/-- A turn of `ensure_open`. -/
def ensureOpen (p : Opening) (i : ℕ) (err : Option String) : Opening :=
  let p := p.discard
  match p.sftp with
  | some c => p.goto i (.using c.gen)
  | none => if p.opening then p else { p with opening := true }.openNext i [] err openAttempts

/-- How `await_version` ends, if it does: whether VERSION advertises limits, or what was refused. -/
def awaitVersion (p : Opening) : Option (Except String Bool) :=
  match p.sftp with
  | none => some (.error "the sftp channel vanished")
  | some c =>
    match c.dead with
    | some reason => some (.error reason)
    | none =>
      match c.versionSeen with
      | some limits => some (.ok limits)
      | none =>
        if p.session.detached ∨ p.session.linkDown then some (.error "the session ended")
        else
          match p.session.status with
          | .closed reason => some (.error ("the session closed: " ++ reason))
          | _ => none

/-- A request is queued, or it is refused. -/
def submit (p : Opening) : Opening × Bool :=
  match p.sftp with
  | some c =>
    match Transfer.submit { sftp := some c.toSftp } with
    | .ok () => ({ p with early := p.early || !c.versioned }, true)
    | .error _ => (p, false)
  | none => (p, false)

/-- The opener takes VERSION, and asks for the limits if there are any. -/
def negotiated (p : Opening) (i gen : ℕ) (limits : Bool) : Opening :=
  let p := { p with sftp := p.sftp.map Conn.taken }
  if limits = true ∧ p.submit.2 = true then p.submit.1.goto i (.limiting gen)
  else p.opened i (.using gen)

/-- A turn of `await_version`, and what `open_channel` does with its end. -/
def poll (p : Opening) (i gen : ℕ) (name : String) (rest : List (String × Bool))
    (refusals : List String) (err : Option String) : Opening :=
  match p.awaitVersion with
  | none => p
  | some (.ok limits) => p.negotiated i gen limits
  | some (.error reason) =>
    { p with sftp := none }.openNext i (refusals ++ [name ++ ": " ++ reason]) err rest

/-- One step. -/
def step (p : Opening) : OpeningAction → Option Opening
  | .start i => if p.tasks i = .idle then some (p.goto i .ensuring) else none
  | .test i err => if p.tasks i = .ensuring then some (p.ensureOpen i err) else none
  | .poll i err =>
    match p.tasks i with
    | .awaiting gen name rest refusals => some (p.poll i gen name rest refusals err)
    | _ => none
  | .limited i limits =>
    match p.tasks i with
    | .limiting gen =>
      some ({ p with sftp := p.sftp.map (Conn.limited limits) }.opened i (.using gen))
    | _ => none
  | .submit i =>
    match p.tasks i with
    | .using _ => some p.submit.1
    | _ => none
  | .finish i =>
    match p.tasks i with
    | .using _ | .refused _ => some (p.goto i .idle)
    | _ => none
  | .version limits =>
    p.sftp.map fun c =>
      { p with sftp := some { c with versionSeen := some limits, versioned := true } }
  | .die reason =>
    p.sftp.map fun c => { p with sftp := some { c with dead := c.dead.or (some reason) } }
  | .session s => some { p with session := s }

/-! ### Spec lemmas -/

variable {p p' : Opening} {i j gen : ℕ}

@[simp]
theorem goto_tasks_self (p : Opening) (i : ℕ) (c : Caller) : (p.goto i c).tasks i = c :=
  Function.update_self _ _ _

theorem goto_tasks_of_ne {c : Caller} (h : j ≠ i) : (p.goto i c).tasks j = p.tasks j :=
  Function.update_of_ne h _ _

/-- What the next attempt of `open_channel` comes to. -/
inductive Attempted (p : Opening) (i : ℕ) : Opening → Prop
  | refused (err : String) : Attempted p i (p.opened i (.refused err))
  | installed (name : String) (rest : List (String × Bool)) (refusals : List String) :
    Attempted p i { p.goto i (.awaiting p.made name rest refusals) with
      sftp := some { gen := p.made }
      made := p.made + 1 }

theorem attempted_openNext (p : Opening) (i : ℕ) (refusals : List String) (err : Option String)
    (attempts : List (String × Bool)) : p.Attempted i (p.openNext i refusals err attempts) := by
  cases attempts with
  | nil => exact .refused _
  | cons a rest =>
    cases err with
    | some e => exact .refused _
    | none => exact .installed a.1 rest refusals

/-- What a turn of `ensure_open` comes to. -/
inductive Tested (p : Opening) (i : ℕ) : Opening → Prop
  | ok (c : Conn) (hc : p.sftp = some c) (hdead : c.dead = none) : Tested p i (p.goto i (.using c.gen))
  | waits (hnone : ∀ c, p.sftp = some c → c.dead ≠ none) (hopening : p.opening = true) :
    Tested p i { p with sftp := none }
  | opens (p' : Opening) (hnone : ∀ c, p.sftp = some c → c.dead ≠ none) (hopening : p.opening = false)
    (h : Attempted { p with sftp := none, opening := true } i p') : Tested p i p'

theorem tested_ensureOpen (p : Opening) (i : ℕ) (err : Option String) :
    p.Tested i (p.ensureOpen i err) := by
  by_cases hlive : ∃ c, p.sftp = some c ∧ c.dead = none
  · obtain ⟨c, hc, hdead⟩ := hlive
    have hsame : p.discard = p := by simp [discard, hc, hdead]
    unfold ensureOpen
    rw [hsame]
    simp only [hc]
    exact .ok c hc hdead
  · have hnone : ∀ c, p.sftp = some c → c.dead ≠ none := fun c hc hdead => hlive ⟨c, hc, hdead⟩
    have hdiscard : p.discard = { p with sftp := none } := by
      obtain ⟨_ | c, opening, session, tasks, made, early⟩ := p
      · rfl
      · exact if_neg (hnone c rfl)
    unfold ensureOpen
    rw [hdiscard]
    dsimp only
    split_ifs with hopening
    · exact .waits hnone hopening
    · exact .opens _ hnone (eq_false_of_ne_true hopening) (attempted_openNext _ _ _ _ _)

/-- What a turn of `await_version` comes to. -/
inductive Polled (p : Opening) (i gen : ℕ) : Opening → Prop
  | waits : Polled p i gen p
  | ok (c : Conn) (limits : Bool) (hc : p.sftp = some c) (hdead : c.dead = none)
    (hseen : c.versionSeen = some limits) : Polled p i gen (p.negotiated i gen limits)
  | refused (p' : Opening) (h : Attempted { p with sftp := none } i p') : Polled p i gen p'

/-- `await_version` ends well on a connection that has seen VERSION and is not dead. -/
theorem awaitVersion_eq_ok {limits : Bool} :
    p.awaitVersion = some (.ok limits) ↔
      ∃ c, p.sftp = some c ∧ c.dead = none ∧ c.versionSeen = some limits := by
  unfold awaitVersion
  constructor
  · intro h
    split at h
    · cases h
    · rename_i c hc
      split at h
      · cases h
      · rename_i hdead
        split at h
        · rename_i seen hseen
          cases h
          exact ⟨c, hc, hdead, hseen⟩
        · split_ifs at h
          · cases h
          · split at h <;> cases h
  · rintro ⟨c, hc, hdead, hseen⟩
    simp only [hc, hdead, hseen]

/-- What `open_channel` does with VERSION, and with a refusal. -/
theorem poll_of_ok {limits : Bool} {name : String} {rest : List (String × Bool)}
    {refusals : List String} {err : Option String} (h : p.awaitVersion = some (.ok limits)) :
    p.poll i gen name rest refusals err = p.negotiated i gen limits := by
  unfold poll
  rw [h]

theorem poll_of_error {reason name : String} {rest : List (String × Bool)} {refusals : List String}
    {err : Option String} (h : p.awaitVersion = some (.error reason)) :
    p.poll i gen name rest refusals err =
      { p with sftp := none }.openNext i (refusals ++ [name ++ ": " ++ reason]) err rest := by
  unfold poll
  rw [h]

theorem polled_poll (p : Opening) (i gen : ℕ) (name : String) (rest : List (String × Bool))
    (refusals : List String) (err : Option String) :
    p.Polled i gen (p.poll i gen name rest refusals err) := by
  unfold poll
  split
  · exact .waits
  · rename_i limits h
    obtain ⟨c, hc, hdead, hseen⟩ := awaitVersion_eq_ok.1 h
    exact .ok c limits hc hdead hseen
  · exact .refused _ (attempted_openNext _ _ _ _ _)

/-- The opener of a negotiated connection goes on to the limits, or returns. -/
theorem negotiated_cases (i gen : ℕ) {c : Conn} (hc : p.sftp = some c) (hdead : c.dead = none)
    (hversioned : c.versioned = true) (limits : Bool) :
    p.negotiated i gen limits =
        { p with sftp := some c.taken }.goto i (.limiting gen) ∨
      p.negotiated i gen limits =
        { p with sftp := some c.taken }.opened i (.using gen) := by
  cases limits with
  | false => right; simp [negotiated, hc]
  | true => left; simp [negotiated, hc, submit, Transfer.submit, Conn.taken, hdead, hversioned]

/-! ### Calm steps -/

/-- Nobody looks at a connection that still waits for VERSION, or goes on with the `Ok` for an earlier
one while it does; and no channel dies while its opener waits for the limits. -/
def Calm (p : Opening) : OpeningAction → Prop
  | .test _ _ => ∀ c, p.sftp = some c → c.dead = none → c.versioned = true
  | .submit i => ∀ gen c, p.tasks i = .using gen → p.sftp = some c → c.dead = none →
    c.gen = gen ∨ c.versioned = true
  | .die _ => ∀ i gen, p.tasks i ≠ .limiting gen
  | _ => True

/-- What an operation relies on, in a step. -/
structure Opens (p : Opening) (a : OpeningAction) (p' : Opening) : Prop where
  /-- Where `ensure_open` returns `Ok`, the connection has received VERSION and is not dead. -/
  ok : ∀ i gen, p'.tasks i = .using gen → (∀ g, p.tasks i ≠ .using g) →
    ∃ c, p'.sftp = some c ∧ c.gen = gen ∧ c.versioned = true ∧ c.dead = none
  /-- One `open_channel` runs at a time. -/
  single : ∀ i j, (p'.tasks i).isOpening = true → (p'.tasks j).isOpening = true → i = j
  /-- No request was submitted before VERSION. -/
  handshake : p'.early = false
  /-- Who looks while another opens waits for what it comes to; -/
  waits : ∀ i err, a = .test i err → p.opening = true →
    p'.tasks i = .ensuring ∨ ∃ gen, p'.tasks i = .using gen
  /-- and is given the connection that is there. -/
  joins : ∀ i err c, a = .test i err → p.sftp = some c → c.dead = none → p'.tasks i = .using c.gen
  /-- The opener goes on with the candidate that answers, -/
  answers : ∀ i err gen name rest refusals c, a = .poll i err →
    p.tasks i = .awaiting gen name rest refusals → p.sftp = some c → c.dead = none →
    c.versionSeen ≠ none → p'.tasks i = .using gen ∨ p'.tasks i = .limiting gen
  /-- and from one that is refused to the next. -/
  climbs : ∀ i gen name next rest refusals c reason, a = .poll i none →
    p.tasks i = .awaiting gen name (next :: rest) refusals → p.sftp = some c →
    c.dead = some reason →
    p'.tasks i = .awaiting p.made next.1 rest (refusals ++ [name ++ ": " ++ reason])

/-- Nobody but operation `i` is in `open_channel`. -/
def OnlyOpener (p : Opening) (i : ℕ) : Prop := ∀ j, j ≠ i → (p.tasks j).isOpening = false

/-- Who opens, and how far the handshake is. -/
inductive Phase (p : Opening) : Prop
  | settled (hopening : p.opening = false) (hnone : ∀ i, (p.tasks i).isOpening = false)
    (hversioned : ∀ c, p.sftp = some c → c.versioned = true)
  | awaiting (i gen : ℕ) (name : String) (rest : List (String × Bool)) (refusals : List String)
    (hopening : p.opening = true) (hself : p.tasks i = .awaiting gen name rest refusals)
    (honly : p.OnlyOpener i)
    (hconn : ∀ c, p.sftp = some c → c.gen = gen ∧ (c.versionSeen ≠ none → c.versioned = true))
  | limiting (i gen : ℕ) (hopening : p.opening = true) (hself : p.tasks i = .limiting gen)
    (honly : p.OnlyOpener i)
    (hconn : ∃ c, p.sftp = some c ∧ c.gen = gen ∧ c.dead = none ∧ c.versioned = true)

/-- What calm steps keep. -/
structure Sound (p : Opening) : Prop where
  phase : p.Phase
  /-- Who was given the connection that is installed was given it after VERSION. -/
  given : ∀ i gen, p.tasks i = .using gen → gen < p.made ∧
    ∀ c, p.sftp = some c → c.gen = gen → c.versioned = true
  fresh : ∀ c, p.sftp = some c → c.gen < p.made
  early : p.early = false

theorem Phase.single (h : p.Phase) (hi : (p.tasks i).isOpening = true)
    (hj : (p.tasks j).isOpening = true) : i = j := by
  have honly : ∀ k, p.OnlyOpener k → i = j := by
    intro k honly
    have hik : i = k := by
      by_contra hne
      rw [honly i hne] at hi
      cases hi
    have hjk : j = k := by
      by_contra hne
      rw [honly j hne] at hj
      cases hj
    exact hik.trans hjk.symm
  cases h with
  | settled hopening hnone hversioned =>
    rw [hnone i] at hi
    cases hi
  | awaiting k gen name rest refusals hopening hself h hconn => exact honly k h
  | limiting k gen hopening hself h hconn => exact honly k h

/-- An operation that does not open goes elsewhere, where it does not open either. -/
theorem Phase.goto (h : p.Phase) {c : Caller} (hi : (p.tasks i).isOpening = false)
    (hc : c.isOpening = false) : (p.goto i c).Phase := by
  have hother : ∀ {k d}, p.tasks k = d → d.isOpening = true → k ≠ i := by
    rintro k d hk hd rfl
    rw [hk, hd] at hi
    cases hi
  have honly : ∀ {k}, p.OnlyOpener k → (p.goto i c).OnlyOpener k := by
    intro k honly j hj
    by_cases hji : j = i
    · subst hji
      rwa [goto_tasks_self]
    · rw [goto_tasks_of_ne hji]
      exact honly j hj
  cases h with
  | settled hopening hnone hversioned =>
    refine .settled hopening (fun j => ?_) hversioned
    by_cases hji : j = i
    · subst hji
      rwa [goto_tasks_self]
    · rw [goto_tasks_of_ne hji]
      exact hnone j
  | awaiting k gen name rest refusals hopening hself h hconn =>
    exact .awaiting k gen name rest refusals hopening
      ((goto_tasks_of_ne (hother hself rfl)).trans hself) (honly h) hconn
  | limiting k gen hopening hself h hconn =>
    exact .limiting k gen hopening ((goto_tasks_of_ne (hother hself rfl)).trans hself) (honly h) hconn

/-- `open_channel` returns, with the connection that it negotiated or without one. -/
theorem Phase.opened (honly : p.OnlyOpener i) {c : Caller} (hc : c.isOpening = false)
    (hversioned : ∀ d, p.sftp = some d → d.versioned = true) : (p.opened i c).Phase := by
  refine .settled rfl (fun j => ?_) hversioned
  show ((p.goto i c).tasks j).isOpening = false
  by_cases hji : j = i
  · subst hji
    rwa [goto_tasks_self]
  · rw [goto_tasks_of_ne hji]
    exact honly j hji

/-- The next attempt of `open_channel`, once the one before it was discarded. -/
theorem Phase.attempted (h : p.Attempted i p') (hopening : p.opening = true) (honly : p.OnlyOpener i)
    (hsftp : p.sftp = none) : p'.Phase := by
  cases h with
  | refused err =>
    refine .opened honly rfl fun d hd => ?_
    rw [hsftp] at hd
    cases hd
  | installed name rest refusals =>
    refine .awaiting i p.made name rest refusals hopening (goto_tasks_self _ _ _) (fun j hj => ?_)
      fun c hc => ?_
    · show ((p.goto i _).tasks j).isOpening = false
      rw [goto_tasks_of_ne hj]
      exact honly j hj
    · cases hc
      exact ⟨rfl, fun h => absurd rfl h⟩

/-- What holds of every connection that was given away holds after another one is. -/
theorem using_goto {P : ℕ → Prop} (h : ∀ j g, p.tasks j = .using g → P g) {c : Caller}
    (hc : ∀ g, c = .using g → P g) : ∀ j g, (p.goto i c).tasks j = .using g → P g := by
  intro j g hj
  by_cases hji : j = i
  · subst hji
    rw [goto_tasks_self] at hj
    exact hc g hj
  · rw [goto_tasks_of_ne hji] at hj
    exact h j g hj

/-- Who is given a connection by going elsewhere. -/
theorem using_of_goto {c : Caller} (hj : (p.goto i c).tasks j = .using gen)
    (hnot : ∀ g, p.tasks j ≠ .using g) : j = i ∧ c = .using gen := by
  by_cases hji : j = i
  · subst hji
    rw [goto_tasks_self] at hj
    exact ⟨rfl, hj⟩
  · rw [goto_tasks_of_ne hji] at hj
    exact absurd hj (hnot gen)

/-- An attempt gives nobody a connection. -/
theorem Attempted.not_using (h : p.Attempted i p') (hnot : ∀ g, p.tasks j ≠ .using g) (g : ℕ) :
    p'.tasks j ≠ .using g := by
  intro hj
  cases h with
  | refused err => cases (using_of_goto (p := p) hj hnot).2
  | installed name rest refusals => cases (using_of_goto (p := p) hj hnot).2

theorem tasks_submit (p : Opening) (i : ℕ) : p.submit.1.tasks i = p.tasks i := by
  unfold submit
  split
  · split <;> rfl
  · rfl

/-- An operation that does not open goes elsewhere, and is given nothing. -/
theorem Sound.goto (h : p.Sound) {c : Caller} (hi : (p.tasks i).isOpening = false)
    (hc : c.isOpening = false) (hnot : ∀ g, c ≠ .using g) : (p.goto i c).Sound := by
  refine ⟨h.phase.goto hi hc, ?_, h.fresh, h.early⟩
  exact using_goto (P := fun g => g < p.made ∧ ∀ c, p.sftp = some c → c.gen = g →
    c.versioned = true) h.given fun g hg => absurd hg (hnot g)

/-- The next attempt of `open_channel`. -/
theorem Sound.attempted (h : p.Attempted i p') (hopening : p.opening = true)
    (honly : p.OnlyOpener i) (hsftp : p.sftp = none)
    (hgiven : ∀ j g, p.tasks j = .using g → g < p.made) (hearly : p.early = false) : p'.Sound := by
  refine ⟨.attempted h hopening honly hsftp, ?_, ?_, ?_⟩
  · cases h with
    | refused err =>
      refine using_goto (P := fun g => g < p.made ∧ ∀ c, p.sftp = some c → c.gen = g →
        c.versioned = true) (fun j g hj => ⟨hgiven j g hj, fun c hc => ?_⟩) fun g hg => ?_
      · rw [hsftp] at hc
        cases hc
      · cases hg
    | installed name rest refusals =>
      -- the connection is newer than every one that was given away
      refine using_goto (P := fun g => g < p.made + 1 ∧ ∀ c : Conn,
        some { gen := p.made } = some c → c.gen = g → c.versioned = true) (fun j g hj => ?_) fun g hg => ?_
      · have hlt := hgiven j g hj
        refine ⟨Nat.lt_succ_of_lt hlt, fun c hc hgen => ?_⟩
        cases hc
        exact absurd hgen hlt.ne'
      · cases hg
  · cases h with
    | refused err =>
      intro c hc
      have hc' : p.sftp = some c := hc
      rw [hsftp] at hc'
      cases hc'
    | installed name rest refusals =>
      intro c hc
      cases hc
      exact Nat.lt_succ_self _
  · cases h <;> exact hearly

/-- A turn of `ensure_open`. -/
theorem Sound.test (h : p.Sound) (hi : p.tasks i = .ensuring)
    (hcalm : ∀ c, p.sftp = some c → c.dead = none → c.versioned = true) (ht : p.Tested i p') :
    p'.Sound := by
  have hnot : (p.tasks i).isOpening = false := by rw [hi]; rfl
  cases ht with
  | ok c hc hdead =>
    refine ⟨h.phase.goto hnot rfl, ?_, h.fresh, h.early⟩
    refine using_goto (P := fun g => g < p.made ∧ ∀ c, p.sftp = some c → c.gen = g →
      c.versioned = true) h.given fun g hg => ?_
    cases hg
    refine ⟨h.fresh c hc, fun d hd _ => ?_⟩
    obtain rfl : c = d := Option.some.inj (hc.symm.trans hd)
    exact hcalm c hc hdead
  | waits hnone hopening =>
    have hvoid : ∀ {P : Conn → Prop} (c : Conn), none = some c → P c := by
      intro P c hc
      cases hc
    refine ⟨?_, fun j g hj => ⟨(h.given j g hj).1, hvoid⟩, hvoid, h.early⟩
    cases h.phase with
    | settled hclosed =>
      rw [hopening] at hclosed
      cases hclosed
    | awaiting k gen name rest refusals hopening hself honly hconn =>
      exact .awaiting k gen name rest refusals hopening hself honly hvoid
    | limiting k gen hopening hself honly hconn =>
      obtain ⟨c, hc, -, hdead, -⟩ := hconn
      exact absurd hdead (hnone c hc)
  | opens p' hnone hopening hattempt =>
    refine .attempted hattempt rfl (fun j _ => ?_) rfl (fun j g hj => (h.given j g hj).1) h.early
    cases h.phase with
    | settled _ hall => exact hall j
    | awaiting k gen name rest refusals hopening' =>
      rw [hopening] at hopening'
      cases hopening'
    | limiting k gen hopening' =>
      rw [hopening] at hopening'
      cases hopening'

/-- The opener is the one that awaits VERSION. -/
theorem Sound.of_awaiting (h : p.Sound) {name : String} {rest : List (String × Bool)}
    {refusals : List String} (hi : p.tasks i = .awaiting gen name rest refusals) :
    p.opening = true ∧ p.OnlyOpener i ∧
      ∀ c, p.sftp = some c → c.gen = gen ∧ (c.versionSeen ≠ none → c.versioned = true) := by
  have hopens : (p.tasks i).isOpening = true := by rw [hi]; rfl
  cases h.phase with
  | settled hopening hnone =>
    rw [hnone i] at hopens
    cases hopens
  | awaiting k gen' name' rest' refusals' hopening hself honly hconn =>
    obtain rfl : i = k := h.phase.single hopens (by rw [hself]; rfl)
    rw [hself] at hi
    cases hi
    exact ⟨hopening, honly, hconn⟩
  | limiting k gen' hopening hself honly hconn =>
    obtain rfl : i = k := h.phase.single hopens (by rw [hself]; rfl)
    rw [hself] at hi
    cases hi

/-- The opener is the one that waits for the limits, and its connection is negotiated. -/
theorem Sound.of_limiting (h : p.Sound) (hi : p.tasks i = .limiting gen) :
    p.OnlyOpener i ∧ ∃ c, p.sftp = some c ∧ c.gen = gen ∧ c.dead = none ∧ c.versioned = true := by
  have hopens : (p.tasks i).isOpening = true := by rw [hi]; rfl
  cases h.phase with
  | settled hopening hnone =>
    rw [hnone i] at hopens
    cases hopens
  | awaiting k gen' name' rest' refusals' hopening hself honly hconn =>
    obtain rfl : i = k := h.phase.single hopens (by rw [hself]; rfl)
    rw [hself] at hi
    cases hi
  | limiting k gen' hopening hself honly hconn =>
    obtain rfl : i = k := h.phase.single hopens (by rw [hself]; rfl)
    rw [hself] at hi
    cases hi
    exact ⟨honly, hconn⟩

/-- `open_channel` returns with the connection that is installed. -/
theorem Sound.opened (h : p.Sound) (honly : p.OnlyOpener i) {c : Conn} (hc : p.sftp = some c)
    (hgen : c.gen = gen) (hversioned : c.versioned = true) : (p.opened i (.using gen)).Sound := by
  have hall : ∀ d, p.sftp = some d → d.versioned = true := by
    intro d hd
    obtain rfl : c = d := Option.some.inj (hc.symm.trans hd)
    exact hversioned
  refine ⟨.opened honly rfl hall, ?_, h.fresh, h.early⟩
  refine using_goto (P := fun g => g < p.made ∧ ∀ c, p.sftp = some c → c.gen = g →
    c.versioned = true) h.given fun g hg => ?_
  cases hg
  exact ⟨hgen ▸ h.fresh c hc, fun d hd _ => hall d hd⟩

/-- It waits for the limits first. -/
theorem Sound.limits (h : p.Sound) (honly : p.OnlyOpener i) (hopening : p.opening = true) {c : Conn}
    (hc : p.sftp = some c) (hgen : c.gen = gen) (hdead : c.dead = none)
    (hversioned : c.versioned = true) : (p.goto i (.limiting gen)).Sound := by
  refine ⟨.limiting i gen hopening (goto_tasks_self _ _ _) (fun j hj => ?_)
    ⟨c, hc, hgen, hdead, hversioned⟩, ?_, h.fresh, h.early⟩
  · rw [goto_tasks_of_ne hj]
    exact honly j hj
  · refine using_goto (P := fun g => g < p.made ∧ ∀ c, p.sftp = some c → c.gen = g →
      c.versioned = true) h.given fun g hg => ?_
    cases hg

/-- Another record of the same connection in its place. -/
theorem Sound.congr (h : p.Sound) {c d : Conn} (hc : p.sftp = some c) (hgen : d.gen = c.gen)
    (hdead : d.dead = c.dead) (hseen : d.versionSeen ≠ none → c.versionSeen ≠ none)
    (hversioned : d.versioned = c.versioned) : Sound { p with sftp := some d } := by
  refine ⟨?_, fun j g hj => ⟨(h.given j g hj).1, fun e he hg => ?_⟩, fun e he => ?_, h.early⟩
  · cases h.phase with
    | settled hopening hnone hall =>
      refine .settled hopening hnone fun e he => ?_
      cases he
      rw [hversioned]
      exact hall c hc
    | awaiting k gen name rest refusals hopening hself honly hconn =>
      refine .awaiting k gen name rest refusals hopening hself honly fun e he => ?_
      cases he
      rw [hgen, hversioned]
      exact ⟨(hconn c hc).1, fun hd => (hconn c hc).2 (hseen hd)⟩
    | limiting k gen hopening hself honly hconn =>
      obtain ⟨e, he, hegen, hedead, heversioned⟩ := hconn
      obtain rfl : c = e := Option.some.inj (hc.symm.trans he)
      exact .limiting k gen hopening hself honly
        ⟨d, rfl, hgen.trans hegen, hdead.trans hedead, hversioned.trans heversioned⟩
  · cases he
    rw [hversioned]
    exact (h.given j g hj).2 c hc (hgen.symm.trans hg)
  · cases he
    rw [hgen]
    exact h.fresh c hc

/-- A request on a negotiated connection. -/
theorem submit_of_versioned (h : ∀ c, p.sftp = some c → c.dead = none → c.versioned = true) :
    p.submit.1 = p := by
  unfold submit
  split
  · rename_i c hc
    split
    · rename_i hok
      have hdead : c.dead = none := by
        unfold Transfer.submit at hok
        dsimp only at hok
        split at hok
        · cases hok
        · assumption
      simp [h c hc hdead]
    · rfl
  · rfl

/-- A calm step. -/
theorem Sound.step {a : OpeningAction} (h : p.Sound) (hcalm : p.Calm a) (hstep : p.step a = some p') :
    p'.Sound := by
  cases a <;> simp only [Opening.step, Option.ite_none_right_eq_some, Option.some.injEq,
    Option.map_eq_some_iff] at hstep
  case start i =>
    obtain ⟨hi, rfl⟩ := hstep
    exact h.goto (by rw [hi]; rfl) rfl (by simp)
  case test i err =>
    obtain ⟨hi, rfl⟩ := hstep
    exact h.test hi hcalm (tested_ensureOpen p i err)
  case poll i err =>
    split at hstep <;> cases hstep
    rename_i gen name rest refusals hi
    obtain ⟨hopening, honly, hconn⟩ := h.of_awaiting hi
    have hpolled := polled_poll p i gen name rest refusals err
    generalize p.poll i gen name rest refusals err = q at hpolled
    cases hpolled with
    | waits => exact h
    | ok c limits hc hdead hseen =>
      obtain ⟨hgen, hversioned⟩ := hconn c hc
      have hversioned := hversioned (by simp [hseen])
      have htaken : Sound { p with sftp := some c.taken } :=
        h.congr hc rfl rfl (fun hne => absurd rfl hne) rfl
      rcases negotiated_cases i gen hc hdead hversioned limits with heq | heq
      · rw [heq]
        exact htaken.limits honly hopening rfl hgen hdead hversioned
      · rw [heq]
        exact htaken.opened honly rfl hgen hversioned
    | refused q hattempt =>
      exact .attempted hattempt hopening honly rfl (fun j g hj => (h.given j g hj).1) h.early
  case limited i limits =>
    split at hstep <;> cases hstep
    rename_i gen hi
    obtain ⟨honly, c, hc, hgen, hdead, hversioned⟩ := h.of_limiting hi
    rw [hc]
    exact Sound.opened (h.congr hc rfl rfl (fun hseen => hseen) rfl) honly rfl hgen hversioned
  case submit i =>
    split at hstep <;> cases hstep
    rename_i gen hi
    rw [submit_of_versioned]
    · exact h
    · intro c hc hdead
      rcases hcalm gen c hi hc hdead with hgen | hversioned
      · exact (h.given i gen hi).2 c hc hgen
      · exact hversioned
  case finish i =>
    split at hstep <;> cases hstep
    · rename_i hi
      exact h.goto (by rw [hi]; rfl) rfl (by simp)
    · rename_i hi
      exact h.goto (by rw [hi]; rfl) rfl (by simp)
  case version limits =>
    obtain ⟨c, hc, rfl⟩ := hstep
    refine ⟨?_, fun j g hj => ⟨(h.given j g hj).1, fun d hd _ => ?_⟩, fun d hd => ?_, h.early⟩
    · cases h.phase with
      | settled hopening hnone hall =>
        refine .settled hopening hnone fun d hd => ?_
        cases hd
        rfl
      | awaiting k gen name rest refusals hopening hself honly hconn =>
        refine .awaiting k gen name rest refusals hopening hself honly fun d hd => ?_
        cases hd
        exact ⟨(hconn c hc).1, fun _ => rfl⟩
      | limiting k gen hopening hself honly hconn =>
        obtain ⟨d, hd, hgen, hdead, -⟩ := hconn
        obtain rfl : c = d := Option.some.inj (hc.symm.trans hd)
        exact .limiting k gen hopening hself honly ⟨_, rfl, hgen, hdead, rfl⟩
    · cases hd
      rfl
    · cases hd
      exact h.fresh c hc
  case die reason =>
    obtain ⟨c, hc, rfl⟩ := hstep
    refine ⟨?_, fun j g hj => ⟨(h.given j g hj).1, fun d hd hg => ?_⟩, fun d hd => ?_, h.early⟩
    · cases h.phase with
      | settled hopening hnone hall =>
        refine .settled hopening hnone fun d hd => ?_
        cases hd
        exact hall c hc
      | awaiting k gen name rest refusals hopening hself honly hconn =>
        refine .awaiting k gen name rest refusals hopening hself honly fun d hd => ?_
        cases hd
        exact hconn c hc
      | limiting k gen hopening hself => exact absurd hself (hcalm k gen)
    · cases hd
      exact (h.given j g hj).2 c hc hg
    · cases hd
      exact h.fresh c hc
  case session s =>
    subst hstep
    refine ⟨?_, h.given, h.fresh, h.early⟩
    cases h.phase with
    | settled hopening hnone hall => exact .settled hopening hnone hall
    | awaiting k gen name rest refusals hopening hself honly hconn =>
      exact .awaiting k gen name rest refusals hopening hself honly hconn
    | limiting k gen hopening hself honly hconn => exact .limiting k gen hopening hself honly hconn

/-- What an operation relies on. -/
theorem Sound.opens {a : OpeningAction} (h : p.Sound) (hcalm : p.Calm a)
    (hstep : p.step a = some p') : Opens p a p' := by
  have h' := h.step hcalm hstep
  refine {
    ok := fun i gen hi hnot => ?ok
    single := fun i j => h'.phase.single
    handshake := h'.early
    waits := fun i err ha hopening => ?waits
    joins := fun i err c ha hc hdead => ?joins
    answers := fun i err gen name rest refusals c ha hi hc hdead hseen => ?answers
    climbs := fun i gen name next rest refusals c reason ha hi hc hdead => ?climbs }
  case ok =>
    cases a <;> simp only [Opening.step, Option.ite_none_right_eq_some, Option.some.injEq,
      Option.map_eq_some_iff] at hstep
    case start k =>
      obtain ⟨-, rfl⟩ := hstep
      cases (using_of_goto hi hnot).2
    case test k err =>
      obtain ⟨-, rfl⟩ := hstep
      have ht := tested_ensureOpen p k err
      generalize p.ensureOpen k err = q at ht hi h'
      cases ht with
      | ok c hc hdead =>
        cases (using_of_goto hi hnot).2
        exact ⟨c, hc, rfl, hcalm c hc hdead, hdead⟩
      | waits _ _ => exact absurd hi (hnot gen)
      | opens q _ _ hattempt => exact absurd hi (hattempt.not_using hnot gen)
    case poll k err =>
      split at hstep <;> cases hstep
      rename_i gen' name rest refusals hk
      have hpolled := polled_poll p k gen' name rest refusals err
      generalize p.poll k gen' name rest refusals err = q at hpolled hi h'
      cases hpolled with
      | waits => exact absurd hi (hnot gen)
      | ok c limits hc hdead hseen =>
        obtain ⟨-, -, hconn⟩ := h.of_awaiting hk
        obtain ⟨hgen, hversioned⟩ := hconn c hc
        have hversioned := hversioned (by simp [hseen])
        rcases negotiated_cases k gen' hc hdead hversioned limits with heq | heq
        · rw [heq] at hi
          cases (using_of_goto hi hnot).2
        · rw [heq] at hi ⊢
          cases (using_of_goto hi hnot).2
          exact ⟨c.taken, rfl, hgen, hversioned, hdead⟩
      | refused q hattempt => exact absurd hi (hattempt.not_using hnot gen)
    case limited k limits =>
      split at hstep <;> cases hstep
      rename_i gen' hk
      obtain ⟨-, c, hc, hgen, hdead, hversioned⟩ := h.of_limiting hk
      cases (using_of_goto hi hnot).2
      exact ⟨c.limited limits, congrArg (Option.map (Conn.limited limits)) hc, hgen, hversioned, hdead⟩
    case submit k =>
      split at hstep <;> cases hstep
      exact absurd ((tasks_submit p i).symm.trans hi) (hnot gen)
    case finish k =>
      split at hstep <;> cases hstep
      · cases (using_of_goto hi hnot).2
      · cases (using_of_goto hi hnot).2
    case version limits =>
      obtain ⟨c, -, rfl⟩ := hstep
      exact absurd hi (hnot gen)
    case die reason =>
      obtain ⟨c, -, rfl⟩ := hstep
      exact absurd hi (hnot gen)
    case session s =>
      subst hstep
      exact absurd hi (hnot gen)
  case waits =>
    subst ha
    simp only [Opening.step, Option.ite_none_right_eq_some, Option.some.injEq] at hstep
    obtain ⟨hi, rfl⟩ := hstep
    have ht := tested_ensureOpen p i err
    generalize p.ensureOpen i err = q at ht
    cases ht with
    | ok c hc hdead => exact .inr ⟨c.gen, goto_tasks_self _ _ _⟩
    | waits hnone _ => exact .inl hi
    | opens q hnone hclosed =>
      rw [hopening] at hclosed
      cases hclosed
  case joins =>
    subst ha
    simp only [Opening.step, Option.ite_none_right_eq_some, Option.some.injEq] at hstep
    obtain ⟨-, rfl⟩ := hstep
    have ht := tested_ensureOpen p i err
    generalize p.ensureOpen i err = q at ht
    cases ht with
    | ok d hd _ =>
      obtain rfl : c = d := Option.some.inj (hc.symm.trans hd)
      exact goto_tasks_self _ _ _
    | waits hnone _ => exact absurd hdead (hnone c hc)
    | opens q hnone _ _ => exact absurd hdead (hnone c hc)
  case answers =>
    subst ha
    simp only [Opening.step, hi, Option.some.injEq] at hstep
    obtain ⟨limits, hlimits⟩ := Option.ne_none_iff_exists'.1 hseen
    have hverdict := awaitVersion_eq_ok.2 ⟨c, hc, hdead, hlimits⟩
    have hversioned := ((h.of_awaiting hi).2.2 c hc).2 hseen
    rw [poll_of_ok hverdict] at hstep
    subst hstep
    rcases negotiated_cases i gen hc hdead hversioned limits with heq | heq
    · rw [heq]
      exact .inr (goto_tasks_self _ _ _)
    · rw [heq]
      exact .inl (goto_tasks_self _ _ _)
  case climbs =>
    subst ha
    simp only [Opening.step, hi, Option.some.injEq] at hstep
    have hverdict : p.awaitVersion = some (.error reason) := by
      unfold awaitVersion
      rw [hc]
      simp only [hdead]
    rw [poll_of_error hverdict] at hstep
    subst hstep
    exact goto_tasks_self _ _ _

end Opening

end Transfer
