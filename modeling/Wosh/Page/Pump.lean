import Wosh.Lib.Run
import Wosh.SshCore.Output

set_option relaxedAutoImplicit false
set_option autoImplicit false

/-!
# The page's output pump

The loop in `connect` of `site/app.mjs` that drains the pty output of a session, paints it, and asks
whether the shell has exited; with `paint`, `flush` and `sessionEnded`, and with `drain_output`, `exited`
and `exit_status` of `wosh-client/src/lib.rs`.

## Main definitions

* `Page.Pump` — one session: the core, the session around it, the pump and what it has painted.
* `Page.PumpAction`, `Page.Pump.step` — what happens next, and the transition function.
* `Page.sinceDrain` — what has happened since the core was last drained.
* `Page.Pump.LosesNothing` — no output is lost when the pump ends its session.

## Main results

* `Page.Pump.holds_run` — what was produced is what was painted, what the pump has in hand, and what the
  core still holds.
* `Page.Pump.painted_iff` — when the pump ends its session, everything was painted exactly if the core
  has produced nothing since it was last drained.

## Design

An awaited call of the component is three steps: the pump is suspended with the call made, the component
executes it, and the pump goes on with the answer. Anything else may happen in between. The core moves
by itself and by exports that the component's tasks and the page's other calls make; only the pump calls
`drain-output`.
-/

namespace Page

open Tunnel (Bytes)

/-! ## The state -/

/-- Where the pump stands. -/
inductive PumpPc
  /-- `connect` polls the status. -/
  | connecting
  /-- It draws the opening rule. -/
  | opening
  /-- At the top of the loop. -/
  | top
  /-- Awaiting `drainOutput`, which is still to be executed, or has answered. -/
  | draining
  | drained (out : Bytes)
  /-- Awaiting `exited`. -/
  | asking
  | asked (exited : Bool)
  /-- Awaiting `exitStatus`. -/
  | checking
  | checked (code : Option ℤ)
  /-- Awaiting `linkState`. -/
  | polling
  | sleeping
  | returned
deriving DecidableEq

/-- What the pump has been given and has not painted yet. -/
def PumpPc.inHand : PumpPc → Bytes
  | drained out => out
  | _ => []

/-- A session and the pump that drains it. -/
structure Pump where
  /-- The session's SSH core. -/
  engine : SshCore.Engine
  linkDown : Bool := false
  /-- `currentSession` is this one. -/
  current : Bool := true
  pc : PumpPc := .connecting
  linkPollTick : ℕ := 0
  /-- What was painted and not yet written to the terminal. -/
  chunks : List Bytes := []
  /-- What was written to the terminal. -/
  terminal : Bytes := []
  /-- History: what the program has written to its pty. -/
  produced : Bytes := []
  /-- History: what `paint` was called with. -/
  painted : Bytes := []

namespace Pump

/-- A session as `connect` is given it. -/
def connect (user : String) (cols rows : ℕ) (command : String) : Pump :=
  { engine := .new user cols rows command }

/-! ## The component -/

/-- `drain_output`: what the core has buffered since the last call. -/
def drainOutput (p : Pump) : Bytes × Pump :=
  (p.engine.out, { p with engine := { p.engine with out := [] } })

/-- `exited`: the shell exited, or the session is closed, or its link is down. -/
def exited (p : Pump) : Bool := (p.engine.exited || p.engine.state = .closed) || p.linkDown

/-- `exit_status`. -/
def exitStatus (p : Pump) : Option ℤ := p.engine.exitCode

/-! ## The page -/

/-- `flush`: the terminal gets what was painted. -/
def flush (p : Pump) : Pump :=
  { p with chunks := [], terminal := p.terminal ++ p.chunks.flatten }

/-- `paint`. -/
def paint (p : Pump) (out : Bytes) : Pump :=
  if out = [] then p else { p with chunks := p.chunks ++ [out], painted := p.painted ++ out }

/-- `sessionEnded`, once for a session and only while it is the current one. -/
def sessionEnded (p : Pump) : Pump :=
  if p.current = false then p else { p with current := false }.flush

end Pump

/-! ## Steps -/

/-- What happens next. -/
inductive PumpAction
  /-- A goroutine of the core goes on, or the component calls another export of it. -/
  | core (a : SshCore.Action)
  /-- The component declares the link down. -/
  | linkLost
  /-- Another session becomes the current one, or none. -/
  | supersede
  /-- A keystroke or a resize fails. -/
  | inputFailed
  /-- What was painted is flushed. -/
  | flush
  /-- The status is `ready`; then the pump begins. -/
  | sawReady
  | start
  /-- The pump turns: it calls `drainOutput`, or has been superseded. -/
  | turn
  /-- The component executes `drainOutput`; the pump paints the answer, and calls `exited`. -/
  | drain
  | paint
  /-- The component executes `exited`; the pump calls `exitStatus`, or goes on. -/
  | ask
  | decide
  /-- The component executes `exitStatus`; the pump ends the session. -/
  | check
  | conclude
  /-- `linkState` returns, or fails. -/
  | polled
  /-- The sleep is over. -/
  | wake
  /-- A call that the pump awaits fails. -/
  | fail
deriving DecidableEq

/-- What an action writes to the pty. -/
def PumpAction.written : PumpAction → Bytes
  | core a => a.written
  | _ => []

namespace Pump

/-- One step. -/
def step (p : Pump) : PumpAction → Option Pump
  | .core a =>
    if a = .drainOutput then none
    else (p.engine.step a).map fun e => { p with engine := e, produced := p.produced ++ a.written }
  | .linkLost => some { p with linkDown := true }
  | .supersede => some { p with current := false }
  | .inputFailed => some p.sessionEnded
  | .flush => some p.flush
  | .sawReady =>
    if p.pc = .connecting ∧ p.engine.state = .ready then some { p with pc := .opening } else none
  | .start => if p.pc = .opening then some { p with pc := .top } else none
  | .turn =>
    if p.pc = .top then some { p with pc := if p.current then .draining else .returned } else none
  | .drain =>
    if p.pc = .draining then some { p.drainOutput.2 with pc := .drained p.drainOutput.1 } else none
  | .paint =>
    match p.pc with
    | .drained out => some { p.paint out with pc := .asking }
    | _ => none
  | .ask => if p.pc = .asking then some { p with pc := .asked p.exited } else none
  | .decide =>
    match p.pc with
    | .asked true => some { p with pc := .checking }
    | .asked false =>
      some { p with
        linkPollTick := p.linkPollTick + 1
        pc := if (p.linkPollTick + 1) % 32 = 0 then .polling else .sleeping }
    | _ => none
  | .check => if p.pc = .checking then some { p with pc := .checked p.exitStatus } else none
  | .conclude =>
    match p.pc with
    | .checked _ => some { p.sessionEnded with pc := .returned }
    | _ => none
  | .polled => if p.pc = .polling then some { p with pc := .sleeping } else none
  | .wake => if p.pc = .sleeping then some { p with pc := .top } else none
  | .fail =>
    if p.pc = .draining ∨ p.pc = .asking ∨ p.pc = .checking then
      some { p.sessionEnded with pc := .returned }
    else none

end Pump

/-- What has happened since the core was last drained. -/
def sinceDrain (as : List PumpAction) : List PumpAction := as.rtakeWhile (· ≠ .drain)

theorem sinceDrain_concat {a : PumpAction} (as : List PumpAction) (ha : a ≠ .drain) :
    sinceDrain (as ++ [a]) = sinceDrain as ++ [a] :=
  List.rtakeWhile_concat_pos _ _ _ (decide_eq_true ha)

theorem sinceDrain_drain (as : List PumpAction) : sinceDrain (as ++ [.drain]) = [] :=
  List.rtakeWhile_concat_neg _ _ _ (by simp)

namespace Pump

/-- No output is lost when the pump ends a session that is the current one. -/
def LosesNothing : Prop :=
  ∀ (user : String) (cols rows : ℕ) (command : String) (as : List PumpAction) (p p' : Pump),
    Run.run step (connect user cols rows command) as = some p → p.current = true →
      p.step .conclude = some p' → p'.painted = p'.produced

/-! ## What the pump keeps -/

/-- After these actions: nothing that was produced is missing or in another order, the core holds what
it produced since it was last drained, and the terminal is given all that was painted. -/
structure Holds (as : List PumpAction) (p : Pump) : Prop where
  ledger : p.produced = p.painted ++ (p.pc.inHand ++ p.engine.out)
  late : p.engine.out = (sinceDrain as).flatMap PumpAction.written
  shown : p.painted = p.terminal ++ p.chunks.flatten

variable {p p' : Pump} {a : PumpAction} {as : List PumpAction}

/-- A step that is not a drain, writes nothing, and keeps what is in hand keeps the invariant. -/
theorem Holds.quiet (h : p.Holds as) (hdrain : a ≠ .drain) (hwritten : a.written = [])
    (hout : p'.engine.out = p.engine.out) (hproduced : p'.produced = p.produced)
    (hpainted : p'.painted = p.painted) (hinHand : p'.pc.inHand = p.pc.inHand)
    (hshown : p'.terminal ++ p'.chunks.flatten = p.terminal ++ p.chunks.flatten) :
    p'.Holds (as ++ [a]) where
  ledger := by rw [hproduced, hpainted, hinHand, hout, h.ledger]
  late := by
    rw [hout, h.late, sinceDrain_concat as hdrain, List.flatMap_append, List.flatMap_singleton,
      hwritten, List.append_nil]
  shown := by rw [hpainted, hshown, h.shown]

/-- What was written and what is left to write. -/
theorem shown_flush (p : Pump) :
    p.flush.terminal ++ p.flush.chunks.flatten = p.terminal ++ p.chunks.flatten := by
  simp [flush]

theorem shown_sessionEnded (p : Pump) : p.sessionEnded.terminal ++ p.sessionEnded.chunks.flatten =
    p.terminal ++ p.chunks.flatten := by
  unfold sessionEnded
  split_ifs
  · rfl
  · exact shown_flush _

/-- The end of a session leaves the core and the ledger alone. -/
theorem sessionEnded_keeps (p : Pump) : p.sessionEnded.engine = p.engine ∧
    p.sessionEnded.produced = p.produced ∧ p.sessionEnded.painted = p.painted ∧
    p.sessionEnded.pc = p.pc := by
  unfold sessionEnded
  split_ifs
  · exact ⟨rfl, rfl, rfl, rfl⟩
  · exact ⟨rfl, rfl, rfl, rfl⟩

/-- The pump ends the session while it has nothing in hand. -/
theorem Holds.ended (h : p.Holds as) (hdrain : a ≠ .drain) (hwritten : a.written = [])
    (hinHand : p.pc.inHand = []) : Pump.Holds (as ++ [a]) { p.sessionEnded with pc := .returned } := by
  obtain ⟨hengine, hproduced, hpainted, -⟩ := p.sessionEnded_keeps
  exact h.quiet hdrain hwritten (congrArg _ hengine) hproduced hpainted hinHand.symm
    p.shown_sessionEnded

/-- **What one step keeps.** -/
theorem Holds.step (h : p.Holds as) (hstep : p.step a = some p') : p'.Holds (as ++ [a]) := by
  cases a <;> simp only [Pump.step, Option.some.injEq, Option.ite_none_right_eq_some,
    Option.ite_none_left_eq_some, Option.map_eq_some_iff] at hstep
  case core b =>
    obtain ⟨hb, e, he, rfl⟩ := hstep
    have hout := SshCore.Engine.out_of_step he hb
    refine ⟨?_, ?_, h.shown⟩
    · show p.produced ++ b.written = p.painted ++ (p.pc.inHand ++ e.out)
      rw [hout, h.ledger]
      simp only [List.append_assoc]
    · show e.out = _
      rw [hout, h.late, sinceDrain_concat (a := .core b) as nofun, List.flatMap_append,
        List.flatMap_singleton]
      rfl
  case linkLost =>
    subst hstep
    exact h.quiet nofun rfl rfl rfl rfl rfl rfl
  case supersede =>
    subst hstep
    exact h.quiet nofun rfl rfl rfl rfl rfl rfl
  case inputFailed =>
    subst hstep
    obtain ⟨hengine, hproduced, hpainted, hpc⟩ := p.sessionEnded_keeps
    exact h.quiet nofun rfl (congrArg _ hengine) hproduced hpainted (congrArg _ hpc)
      p.shown_sessionEnded
  case flush =>
    subst hstep
    exact h.quiet nofun rfl rfl rfl rfl rfl p.shown_flush
  case sawReady =>
    obtain ⟨⟨hpc, -⟩, rfl⟩ := hstep
    exact h.quiet nofun rfl rfl rfl rfl (by rw [hpc]; rfl) rfl
  case start =>
    obtain ⟨hpc, rfl⟩ := hstep
    exact h.quiet nofun rfl rfl rfl rfl (by rw [hpc]; rfl) rfl
  case turn =>
    obtain ⟨hpc, rfl⟩ := hstep
    refine h.quiet nofun rfl rfl rfl rfl ?_ rfl
    rw [hpc]
    split_ifs <;> rfl
  case drain =>
    -- what the core held is now in hand, and it has produced nothing since
    obtain ⟨hpc, rfl⟩ := hstep
    refine ⟨?_, ?_, h.shown⟩
    · have hledger := h.ledger
      rw [hpc] at hledger
      simpa [drainOutput, PumpPc.inHand] using hledger
    · rw [sinceDrain_drain]
      rfl
  case paint =>
    split at hstep
    · rename_i out hpc
      obtain rfl := Option.some.inj hstep
      have hledger := h.ledger
      rw [hpc] at hledger
      have hpaint : (p.paint out).engine = p.engine ∧ (p.paint out).produced = p.produced ∧
          (p.paint out).painted = p.painted ++ out ∧
          (p.paint out).terminal ++ (p.paint out).chunks.flatten =
            p.terminal ++ p.chunks.flatten ++ out := by
        unfold paint
        split_ifs with hempty
        · subst hempty
          simp
        · simp
      obtain ⟨hengine, hproduced, hpainted, hshown⟩ := hpaint
      refine ⟨?_, ?_, ?_⟩
      · show (p.paint out).produced = (p.paint out).painted ++ ([] ++ (p.paint out).engine.out)
        rw [hproduced, hpainted, hengine, hledger, List.nil_append, List.append_assoc]
        rfl
      · show (p.paint out).engine.out = _
        rw [hengine, h.late, sinceDrain_concat (a := .paint) as nofun, List.flatMap_append,
          List.flatMap_singleton]
        exact (List.append_nil _).symm
      · show (p.paint out).painted = (p.paint out).terminal ++ (p.paint out).chunks.flatten
        rw [hpainted, hshown, h.shown]
    · cases hstep
  case ask =>
    obtain ⟨hpc, rfl⟩ := hstep
    exact h.quiet nofun rfl rfl rfl rfl (by rw [hpc]; rfl) rfl
  case decide =>
    split at hstep
    · rename_i hpc
      obtain rfl := Option.some.inj hstep
      exact h.quiet nofun rfl rfl rfl rfl (by rw [hpc]; rfl) rfl
    · rename_i hpc
      obtain rfl := Option.some.inj hstep
      refine h.quiet nofun rfl rfl rfl rfl ?_ rfl
      rw [hpc]
      dsimp only
      split_ifs <;> rfl
    · cases hstep
  case check =>
    obtain ⟨hpc, rfl⟩ := hstep
    exact h.quiet nofun rfl rfl rfl rfl (by rw [hpc]; rfl) rfl
  case conclude =>
    split at hstep
    · rename_i hpc
      obtain rfl := Option.some.inj hstep
      exact h.ended nofun rfl (by rw [hpc]; rfl)
    · cases hstep
  case polled =>
    obtain ⟨hpc, rfl⟩ := hstep
    exact h.quiet nofun rfl rfl rfl rfl (by rw [hpc]; rfl) rfl
  case wake =>
    obtain ⟨hpc, rfl⟩ := hstep
    exact h.quiet nofun rfl rfl rfl rfl (by rw [hpc]; rfl) rfl
  case fail =>
    obtain ⟨hpc, rfl⟩ := hstep
    refine h.ended nofun rfl ?_
    rcases hpc with hpc | hpc | hpc <;> rw [hpc] <;> rfl

/-- **What every run keeps.** -/
theorem holds_run {user : String} {cols rows : ℕ} {command : String}
    (h : Run.run step (connect user cols rows command) as = some p) : p.Holds as := by
  induction as using List.reverseRecOn generalizing p with
  | nil =>
    obtain rfl := Option.some.inj h
    exact ⟨rfl, rfl, rfl⟩
  | append_singleton as a ih =>
    rw [Run.run_append, Option.bind_eq_some_iff] at h
    obtain ⟨q, hq, hstep⟩ := h
    obtain ⟨p', hp', hnil⟩ := Run.run_cons_eq_some.1 hstep
    obtain rfl := Option.some.inj hnil
    exact (ih hq).step hp'

/-- Only output is written. -/
theorem written_eq_nil {xs : List PumpAction} :
    xs.flatMap PumpAction.written = [] ↔ ∀ b, .core (.output b) ∈ xs → b = [] := by
  rw [List.flatMap_eq_nil_iff]
  constructor
  · intro h b hb
    exact h _ hb
  · intro h x hx
    cases x with
    | core a =>
      cases a with
      | output b => exact h b hx
      | _ => rfl
    | _ => rfl

/-- **When the pump ends its session**, what was painted is what the core has produced, in order and
once, except for what it still holds; and that is nothing exactly if the core has produced nothing since
it was last drained. All that was painted is then on the terminal, if the session is the current one. -/
theorem painted_iff {user : String} {cols rows : ℕ} {command : String}
    (h : Run.run step (connect user cols rows command) as = some p)
    (hend : p.step .conclude = some p') :
    p'.produced = p'.painted ++ p'.engine.out ∧
      (p'.painted = p'.produced ↔ ∀ b, .core (.output b) ∈ sinceDrain as → b = []) ∧
      (p.current = true → p'.terminal = p'.painted) := by
  have hholds := holds_run h
  have hend' := hholds.step hend
  simp only [Pump.step] at hend
  split at hend
  · obtain rfl := Option.some.inj hend
    obtain ⟨hengine, -⟩ := p.sessionEnded_keeps
    have hledger : p.sessionEnded.produced = p.sessionEnded.painted ++ p.engine.out := by
      rw [← hengine]
      exact hend'.ledger
    refine ⟨hend'.ledger, ?_, fun hcurrent => ?_⟩
    · show p.sessionEnded.painted = p.sessionEnded.produced ↔ _
      rw [hledger, List.self_eq_append_right, hholds.late, written_eq_nil]
    · have hshown := hend'.shown
      simpa [sessionEnded, hcurrent, flush] using hshown.symm
  · cases hend

/-- A session is connected, and its pump begins. -/
def beginning : List PumpAction :=
  [.core (.hostKeyCallback "SHA256:host"), .core (.confirmHostKey true), .core .hostKeyVerdict,
    .core .hostKeyReturn, .core (.authenticatePassword "secret"), .core (.authCallback .password),
    .core .authResume, .core .handshakeDone, .core .shellStarted, .core .flushInput,
    .core .becomeReady, .sawReady, .start]

/-- The program says something before the core is drained, and exits after that. -/
def inTime : List PumpAction :=
  beginning ++ [.core (.output [0x62, 0x79, 0x65]), .turn, .drain, .paint,
    .core (.shellExited .clean), .ask, .decide, .check]

theorem painted_iff_inTime : ∃ p p', Run.run step (connect "user" 80 24 "") inTime = some p ∧
    p.step .conclude = some p' ∧ p'.painted = p'.produced := by
  have hrun : ((Run.run step (connect "user" 80 24 "") inTime).bind fun p =>
      p.step .conclude).isSome := by rfl
  obtain ⟨p', hp'⟩ := Option.isSome_iff_exists.1 hrun
  obtain ⟨p, hp, hend⟩ := Option.bind_eq_some_iff.1 hp'
  refine ⟨p, p', hp, hend, (painted_iff hp hend).2.1.2 fun b hb => ?_⟩
  have hsince : sinceDrain inTime =
      [.paint, .core (.shellExited .clean), .ask, .decide, .check] := by decide
  rw [hsince] at hb
  simp at hb

/-- It says something and exits, in one read of the connection, after the core was drained. -/
def lastWords : List PumpAction :=
  beginning ++ [.turn, .drain, .paint, .core (.output [0x62, 0x79, 0x65]),
    .core (.shellExited .clean), .ask, .decide, .check]

/-- **The last words of a program can be lost.** -/
theorem not_losesNothing : ¬ LosesNothing := by
  intro h
  have hrun : ((Run.run step (connect "user" 80 24 "") lastWords).bind fun p =>
      (p.step .conclude).map fun p' => (p.current, p'.painted, p'.produced)) =
        some (true, [], [0x62, 0x79, 0x65]) := by rfl
  obtain ⟨p, hp, hend⟩ := Option.bind_eq_some_iff.1 hrun
  obtain ⟨p', hp', heq⟩ := Option.map_eq_some_iff.1 hend
  simp only [Prod.mk.injEq] at heq
  obtain ⟨hcurrent, hpainted, hproduced⟩ := heq
  have hsame := h "user" 80 24 "" lastWords p p' hp hcurrent hp'
  rw [hpainted, hproduced] at hsame
  cases hsame

end Pump

end Page
