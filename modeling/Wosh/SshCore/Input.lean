import Wosh.SshCore.Frame

set_option relaxedAutoImplicit false
set_option autoImplicit false

/-!
# Typed input on its way to the shell

`WriteInput` of `ssh-core/core/session.go` takes three steps, and so does the goroutine of `run`
once the shell is started: it publishes the pipe, drains what was typed before, and writes it. In
`SshCore.Engine` each is one action; here they interleave.

## Main definitions

* `SshCore.Typing` — the engine, with where a `WriteInput` and the flush stand.
* `SshCore.Typing.step` — the transition function.
* `SshCore.Typing.Orderly` — the condition: what was typed before the pipe was published reaches it
  before anything else does.

## Main results

* `SshCore.typed_in_order` — under it, the shell reads what was typed.
* `SshCore.Typing.run_writeInput`, `SshCore.Typing.run_flushInput` — without interleaving, the steps
  make up the actions of the engine.

## Design

A write hands its bytes over in pieces, as far as the window of the far end allows. Two writes in
progress take turns.
-/

namespace SshCore

open Tunnel Run

/-- Where a `WriteInput` stands. -/
inductive InputPc
  | idle
  /-- About to read the pipe. -/
  | looking (data : Bytes)
  /-- In `pipe.Write`, with these bytes left. -/
  | writing (rest : Bytes)
  /-- About to append to `pendingIn`. -/
  | buffering (data : Bytes)
deriving DecidableEq, Repr

/-- The bytes that a `WriteInput` still has in its hands. -/
@[simp]
def InputPc.rest : InputPc → Bytes
  | .idle => []
  | .looking data => data
  | .writing rest => rest
  | .buffering data => data

/-- Where the flush of `run` stands. -/
inductive FlushPc
  /-- `pendingIn` is not yet drained. -/
  | draining
  /-- In `stdin.Write`, with these bytes left. -/
  | writing (rest : Bytes)
deriving DecidableEq, Repr

/-- The engine, a `WriteInput`, and the flush. -/
structure Typing where
  eng : Engine
  call : InputPc := .idle
  flush : FlushPc := .draining
  /-- The arguments of the calls so far, in order. Nothing reads it. -/
  typed : Bytes := []

/-- What happens next. -/
inductive TypingAction
  /-- Anything but the two actions that are split here. -/
  | engine (a : Action)
  /-- `WriteInput` is called, and clones its argument. -/
  | writeInput (data : Bytes)
  /-- It reads the pipe. -/
  | look
  /-- It appends to `pendingIn`, and returns. -/
  | buffer
  /-- Its write hands over the next bytes. -/
  | put (n : ℕ)
  /-- Its write is done, and it returns. -/
  | finish
  /-- `run` drains `pendingIn`. -/
  | drain
  /-- The flush hands over the next bytes. -/
  | flush (n : ℕ)
  /-- The flush is done. -/
  | flushed
deriving DecidableEq

/-- The actions of the engine that are split here. -/
def Action.isSplit : Action → Bool
  | .writeInput _ => true
  | .flushInput => true
  | _ => false

namespace Typing

/-- Bytes reach the shell. -/
def give (t : Typing) (written : Bytes) : Typing :=
  { t with eng := { t.eng with stdinPipe := some written } }

/-- One step. -/
def step (t : Typing) : TypingAction → Option Typing
  | .engine a => if a.isSplit then none else (t.eng.step a).map fun e => { t with eng := e }
  | .writeInput data =>
    if t.call = .idle then some { t with call := .looking data, typed := t.typed ++ data } else none
  | .look =>
    match t.call with
    | .looking data =>
      some { t with call := if t.eng.stdinPipe = none then .buffering data else .writing data }
    | _ => none
  | .buffer =>
    match t.call with
    | .buffering data =>
      some { t with eng := { t.eng with pendingIn := t.eng.pendingIn ++ data }, call := .idle }
    | _ => none
  | .put n =>
    match t.call, t.eng.stdinPipe with
    | .writing rest, some written =>
      some { t.give (written ++ rest.take n) with call := .writing (rest.drop n) }
    | _, _ => none
  | .finish => if t.call = .writing [] then some { t with call := .idle } else none
  | .drain =>
    if t.eng.runPc = .flushing ∧ t.flush = .draining then
      some { t with eng := { t.eng with pendingIn := [] }, flush := .writing t.eng.pendingIn }
    else none
  | .flush n =>
    match t.flush, t.eng.stdinPipe with
    | .writing rest, some written =>
      some { t.give (written ++ rest.take n) with flush := .writing (rest.drop n) }
    | _, _ => none
  | .flushed =>
    if t.eng.runPc = .flushing ∧ t.flush = .writing [] then
      some { t with eng := { t.eng with runPc := .readying } }
    else none

/-- A new session. -/
def start (user : String) (cols rows : ℕ) (command : String) : Typing where
  eng := .new user cols rows command

/-- What was typed before the pipe was published, and has not reached the shell. -/
def waiting (t : Typing) : Bytes :=
  match t.flush with
  | .draining => t.eng.pendingIn
  | .writing rest => rest

/-- `run` has published `ready`. -/
def Readied (t : Typing) : Prop :=
  t.eng.stdinPipe ≠ none ∧ t.eng.runPc ≠ .flushing ∧ t.eng.runPc ≠ .readying
deriving Decidable

/-- What was typed before the pipe was published comes first: nothing is put into `pendingIn` after
it was drained, and nothing is written directly while something waits. -/
def Orderly (t : Typing) : TypingAction → Prop
  | .buffer => t.flush = .draining ∨ t.call.rest = []
  | .put n => t.waiting = [] ∨ t.call.rest.take n = []
  | _ => True

instance (t : Typing) (a : TypingAction) : Decidable (t.Orderly a) := by
  cases a <;> unfold Orderly <;> infer_instance

end Typing

/-- The arguments of the calls of `WriteInput`, in order. -/
def typedBy (as : List TypingAction) : Bytes :=
  as.flatMap fun
    | .writeInput data => data
    | _ => []

/-! ## What the engine does to the input plane -/

namespace Engine

variable {s s' : Engine} {a : Action}

/-- The input plane is as before, and the goroutine of `run` neither starts nor ends a flush. -/
structure SameInput (s s' : Engine) : Prop where
  stdinPipe : s'.stdinPipe = s.stdinPipe
  pendingIn : s'.pendingIn = s.pendingIn
  flushing : s'.runPc = .flushing ↔ s.runPc = .flushing
  opened : s.runPc ≠ .handshaking → s.runPc ≠ .opening →
    s'.runPc ≠ .handshaking ∧ s'.runPc ≠ .opening

/-- What does not touch the goroutine of `run` leaves the input plane as it is. -/
theorem SameInput.of_eq (hpipe : s'.stdinPipe = s.stdinPipe) (hpending : s'.pendingIn = s.pendingIn)
    (hrun : s'.runPc = s.runPc) : SameInput s s' :=
  ⟨hpipe, hpending, by rw [hrun], fun h h' => by rw [hrun]; exact ⟨h, h'⟩⟩

theorem Frame.sameInput (h : Frame s s') : SameInput s s' :=
  .of_eq h.stdinPipe h.pendingIn h.runPc

theorem sameInput_closeWith (s : Engine) (msg : String) : SameInput s (s.closeWith msg) := by
  unfold closeWith
  split_ifs <;> exact .of_eq rfl rfl rfl

theorem sameInput_failGates (s : Engine) : SameInput s s.failGates := by
  unfold failGates failSign failPrompts failDecision
  split_ifs <;> exact .of_eq rfl rfl rfl

/-- An export other than `WriteInput` leaves the input plane as it is. -/
theorem sameInput_of_call (hcall : s.call a = some s') (ha : a.isSplit = false) :
    SameInput s s' := by
  by_cases hwide : a.isWide = false
  · exact (frame_of_call hcall hwide).sameInput
  · cases a <;> simp only [Action.isWide, not_true_eq_false] at hwide <;>
      simp only [call, Option.some.injEq] at hcall <;> subst hcall
    case writeInput data => cases ha
    case wireBroken reason =>
      have hgates := sameInput_failGates { s with
        wireReason := if s.wireReason = "" then reason else s.wireReason
        conn := s.conn.breakWire reason }
      exact ⟨hgates.stdinPipe, hgates.pendingIn, hgates.flushing, hgates.opened⟩
    case close =>
      have hgates := sameInput_failGates s
      exact ⟨hgates.stdinPipe, hgates.pendingIn, hgates.flushing, hgates.opened⟩
    case openChannel kind c =>
      unfold openChannel
      split_ifs <;> exact .of_eq rfl rfl rfl

/-- So do the goroutines, but for the flush and the start of the shell. -/
theorem sameInput_of_background (hback : s.background a = some s') (ha : a.isSplit = false)
    (hstart : a ≠ .shellStarted) : SameInput s s' := by
  by_cases hrun : a.isRun = false
  · exact (frame_of_background hback hrun).sameInput
  · cases a <;> simp only [Action.isRun, not_true_eq_false] at hrun <;>
      simp only [background, Option.map_eq_some_iff, Option.ite_none_right_eq_some,
        Option.some.injEq] at hback
    case shellStarted => exact absurd rfl hstart
    case flushInput => cases ha
    case endCall =>
      obtain ⟨msg, -, rfl⟩ := hback
      have hclose := sameInput_closeWith s msg
      exact ⟨hclose.stdinPipe, hclose.pendingIn, hclose.flushing, hclose.opened⟩
    case handshakeFailed err =>
      obtain ⟨hpc, rfl⟩ := hback
      have hclose := sameInput_closeWith s ("ssh: " ++ err)
      exact ⟨hclose.stdinPipe, hclose.pendingIn, by simp [hpc], by simp⟩
    case openFailed msg =>
      obtain ⟨hpc, rfl⟩ := hback
      have hclose := sameInput_closeWith s msg
      exact ⟨hclose.stdinPipe, hclose.pendingIn, by simp [hpc], by simp⟩
    case becomeReady =>
      obtain ⟨hpc, rfl⟩ := hback
      unfold setState
      split_ifs <;> exact ⟨rfl, rfl, by simp [hpc], by simp⟩
    case handshakeDone =>
      obtain ⟨hpc, rfl⟩ := hback
      exact ⟨rfl, rfl, by simp [hpc], by simp [hpc]⟩
    case shellExited w =>
      obtain ⟨hpc, rfl⟩ := hback
      exact ⟨rfl, rfl, by simp [recordExit, hpc], by simp [recordExit]⟩
    case runClose =>
      split at hback <;> cases hback
      rename_i msg hpc
      have hclose := sameInput_closeWith s msg
      exact ⟨hclose.stdinPipe, hclose.pendingIn, by simp [hpc], by simp⟩
    case forgetChannel c =>
      subst hback
      exact .of_eq rfl rfl rfl

/-- The shell is started once, and then the flush is due; anything else leaves the input plane as it
is. -/
theorem input_of_step (hstep : s.step a = some s') (ha : a.isSplit = false) :
    SameInput s s' ∨ (s.runPc = .opening ∧
      s' = { s with stdinPipe := some [], runPc := .flushing }) := by
  unfold step at hstep
  split at hstep
  · rename_i s'' hcall
    cases hstep
    split at hcall
    · exact .inl (sameInput_of_call hcall ha)
    · cases hcall
  · by_cases hstart : a = .shellStarted
    · subst hstart
      simp only [background, Option.ite_none_right_eq_some, Option.some.injEq] at hstep
      exact .inr ⟨hstep.1, hstep.2.symm⟩
    · exact .inl (sameInput_of_background hstep ha hstart)

end Engine

/-! ## Nothing is lost, and nothing overtakes -/

namespace Typing

variable {t t' : Typing} {a : TypingAction} {as : List TypingAction}

/-- What reached the shell, what waits, and what the call in progress holds make up what was typed,
in this order. -/
structure Kept (t : Typing) : Prop where
  typed : t.eng.stdinPipe.getD [] ++ t.waiting ++ t.call.rest = t.typed
  drained : ∀ rest, t.flush = .writing rest → t.eng.pendingIn = []
  early : t.eng.runPc = .handshaking ∨ t.eng.runPc = .opening → t.eng.stdinPipe = none
  late : t.eng.stdinPipe ≠ none → t.eng.runPc ≠ .flushing → t.flush = .writing []

theorem kept_start (user : String) (cols rows : ℕ) (command : String) :
    (start user cols rows command).Kept where
  typed := rfl
  drained _ h := by cases h
  early _ := rfl
  late h := absurd rfl h

/-- The engine keeps it. -/
theorem Kept.engine {e : Engine} {b : Action} (h : t.Kept) (hb : b.isSplit = false)
    (hstep : t.eng.step b = some e) : Kept { t with eng := e } := by
  rcases Engine.input_of_step hstep hb with hsame | ⟨hpc, rfl⟩
  · have hwaiting : waiting { t with eng := e } = t.waiting := by
      unfold waiting
      rw [hsame.pendingIn]
    refine ⟨?_, fun rest hflush => hsame.pendingIn.trans (h.drained rest hflush), fun hpc => ?_,
      fun hpipe hpc => ?_⟩
    · rw [hwaiting, hsame.stdinPipe]
      exact h.typed
    · refine hsame.stdinPipe.trans (h.early ?_)
      by_contra hnot
      push Not at hnot
      have := hsame.opened hnot.1 hnot.2
      tauto
    · exact h.late (by rwa [hsame.stdinPipe] at hpipe) fun hf => hpc (hsame.flushing.2 hf)
  · refine ⟨?_, h.drained, fun hpc' => ?_, fun _ hpc' => absurd rfl hpc'⟩
    · have htyped := h.typed
      rw [h.early (.inr hpc)] at htyped
      exact htyped
    · rcases hpc' with hpc' | hpc' <;> cases hpc'

/-- Every step that meets the condition keeps it. -/
theorem kept_step (h : t.Kept) (hC : t.Orderly a) (hstep : t.step a = some t') : t'.Kept := by
  cases a with
  | engine b =>
    simp only [step, Option.ite_none_left_eq_some, Option.map_eq_some_iff] at hstep
    obtain ⟨hb, e, he, rfl⟩ := hstep
    exact h.engine (eq_false_of_ne_true hb) he
  | writeInput data =>
    simp only [step, Option.ite_none_right_eq_some, Option.some.injEq] at hstep
    obtain ⟨hcall, rfl⟩ := hstep
    have htyped := h.typed
    rw [hcall, InputPc.rest, List.append_nil] at htyped
    exact ⟨congrArg (· ++ data) htyped, h.drained, h.early, h.late⟩
  | look =>
    simp only [step] at hstep
    split at hstep <;> cases hstep
    rename_i data hcall
    have htyped := h.typed
    rw [hcall] at htyped
    refine ⟨?_, h.drained, h.early, h.late⟩
    dsimp only
    split_ifs <;> exact htyped
  | buffer =>
    simp only [step] at hstep
    split at hstep <;> cases hstep
    rename_i data hcall
    have htyped := h.typed
    have hdrain : t.flush = .draining ∨ data = [] := by simpa [Orderly, hcall] using hC
    rw [hcall, InputPc.rest] at htyped
    refine ⟨?_, fun rest hflush => ?_, h.early, h.late⟩
    · rw [← htyped]
      rcases hdrain with hdrain | rfl
      · simp [waiting, hdrain]
      · simp [waiting]
    · rcases hdrain with hdrain | rfl
      · exact absurd (hdrain.symm.trans hflush) (by simp)
      · simpa using h.drained rest hflush
  | put n =>
    simp only [step] at hstep
    split at hstep <;> cases hstep
    rename_i rest written hcall hpipe
    have htyped := h.typed
    have hfirst : t.waiting = [] ∨ rest.take n = [] := by simpa [Orderly, hcall] using hC
    rw [hcall, hpipe] at htyped
    refine ⟨?_, h.drained, fun hpc => absurd (h.early hpc) (by simp [hpipe]),
      fun _ hpc => h.late (by simp [hpipe]) hpc⟩
    refine Eq.trans ?_ htyped
    show written ++ rest.take n ++ t.waiting ++ rest.drop n = written ++ t.waiting ++ rest
    rcases hfirst with hfirst | hfirst
    · rw [hfirst, List.append_nil, List.append_nil, List.append_assoc, List.take_append_drop]
    · have hrest : rest.drop n = rest := by
        conv_rhs => rw [← List.take_append_drop n rest, hfirst]
        rfl
      rw [hfirst, hrest, List.append_nil]
  | finish =>
    simp only [step, Option.ite_none_right_eq_some, Option.some.injEq] at hstep
    obtain ⟨hcall, rfl⟩ := hstep
    have htyped := h.typed
    rw [hcall] at htyped
    exact ⟨htyped, h.drained, h.early, h.late⟩
  | drain =>
    simp only [step, Option.ite_none_right_eq_some, Option.some.injEq] at hstep
    obtain ⟨⟨hpc, hflush⟩, rfl⟩ := hstep
    have htyped := h.typed
    have hwaiting : t.waiting = t.eng.pendingIn := by
      unfold waiting
      rw [hflush]
    rw [hwaiting] at htyped
    exact ⟨htyped, fun _ _ => rfl, h.early, fun _ hpc' => absurd hpc hpc'⟩
  | flush n =>
    simp only [step] at hstep
    split at hstep <;> cases hstep
    rename_i rest written hflush hpipe
    have htyped := h.typed
    have hwaiting : t.waiting = rest := by
      unfold waiting
      rw [hflush]
    rw [hwaiting, hpipe] at htyped
    refine ⟨?_, fun _ _ => h.drained rest hflush,
      fun hpc => absurd (h.early hpc) (by simp [hpipe]), fun _ hpc => ?_⟩
    · refine Eq.trans ?_ htyped
      show written ++ rest.take n ++ rest.drop n ++ t.call.rest = written ++ rest ++ t.call.rest
      rw [List.append_assoc written, List.take_append_drop]
    · have hrest := h.late (by simp [hpipe]) hpc
      rw [hflush, FlushPc.writing.injEq] at hrest
      rw [hrest, List.drop_nil]
  | flushed =>
    simp only [step, Option.ite_none_right_eq_some, Option.some.injEq] at hstep
    obtain ⟨⟨hpc, hflush⟩, rfl⟩ := hstep
    refine ⟨h.typed, h.drained, fun hpc' => ?_, fun _ _ => hflush⟩
    rcases hpc' with hpc' | hpc' <;> cases hpc'

/-- A call adds its argument to what was typed, and nothing else does. -/
theorem typed_step (hstep : t.step a = some t') : t'.typed = t.typed ++ typedBy [a] := by
  cases a with
  | engine b =>
    simp only [step, Option.ite_none_left_eq_some, Option.map_eq_some_iff] at hstep
    obtain ⟨-, e, -, rfl⟩ := hstep
    exact (List.append_nil _).symm
  | writeInput data =>
    simp only [step, Option.ite_none_right_eq_some, Option.some.injEq] at hstep
    obtain ⟨-, rfl⟩ := hstep
    exact congrArg (t.typed ++ ·) (List.append_nil data).symm
  | look | buffer | put n | flush n =>
    simp only [step] at hstep
    split at hstep <;> cases hstep
    exact (List.append_nil _).symm
  | finish | drain | flushed =>
    simp only [step, Option.ite_none_right_eq_some, Option.some.injEq] at hstep
    obtain ⟨-, rfl⟩ := hstep
    exact (List.append_nil _).symm

/-- What was typed is what the calls were given. -/
theorem typed_run (h : run step t as = some t') : t'.typed = t.typed ++ typedBy as := by
  induction as generalizing t with
  | nil =>
    obtain rfl : t = t' := by simpa using h
    exact (List.append_nil _).symm
  | cons a as ih =>
    obtain ⟨u, hu, hrun⟩ := run_cons_eq_some.1 h
    have hcons : typedBy ([a] ++ as) = typedBy [a] ++ typedBy as := List.flatMap_append
    rw [List.singleton_append] at hcons
    rw [ih hrun, typed_step hu, hcons, List.append_assoc]

/-! ## The steps make up the actions of the engine -/

/-- A `WriteInput` that nothing interrupts does what the engine's action does. -/
theorem run_writeInput (h : t.call = .idle) (data : Bytes) :
    ∃ as, run step t as = some { t with
      eng := t.eng.writeInput data, typed := t.typed ++ data } := by
  obtain ⟨eng, call, flush, typed⟩ := t
  obtain rfl : call = .idle := h
  cases hpipe : eng.stdinPipe with
  | none =>
    refine ⟨[.writeInput data, .look, .buffer], ?_⟩
    simp [run, step, hpipe, Engine.writeInput]
  | some written =>
    refine ⟨[.writeInput data, .look, .put data.length, .finish], ?_⟩
    simp [run, step, hpipe, give, Engine.writeInput]

/-- A flush that nothing interrupts does what the engine's action does. -/
theorem run_flushInput {e : Engine} (h : t.flush = .draining)
    (hstep : t.eng.background .flushInput = some e) (hpipe : t.eng.stdinPipe ≠ none) :
    ∃ as, run step t as = some { t with eng := e, flush := .writing [] } := by
  obtain ⟨eng, call, flush, typed⟩ := t
  obtain rfl : flush = .draining := h
  obtain ⟨written, hpipe⟩ := Option.ne_none_iff_exists'.1 hpipe
  simp only [Engine.background, Option.ite_none_right_eq_some, Option.some.injEq] at hstep
  obtain ⟨hpc, rfl⟩ := hstep
  refine ⟨[.drain, .flush eng.pendingIn.length, .flushed], ?_⟩
  simp only at hpipe hpc
  simp [run, step, hpipe, hpc, give]

end Typing

/-- In every run in which what was typed before the pipe was published reaches it before anything else
does, the shell reads a prefix of what was typed; and once the session is ready and no call is in
progress, it has read all of it, and nothing is left behind. -/
theorem typed_in_order (user : String) (cols rows : ℕ) (command : String) (as : List TypingAction)
    {t : Typing} (h : run Typing.step (.start user cols rows command) as = some t)
    (hC : Along Typing.step Typing.Orderly (.start user cols rows command) as) :
    (∀ written, t.eng.stdinPipe = some written → written <+: typedBy as) ∧
      (t.Readied → t.call = .idle →
        t.eng.stdinPipe = some (typedBy as) ∧ t.eng.pendingIn = []) := by
  have hkept : t.Kept := run_inv (C := Typing.Orderly) (fun _ _ _ => Typing.kept_step)
    (Typing.kept_start user cols rows command) hC h
  have htyped : t.typed = typedBy as := Typing.typed_run h
  refine ⟨fun written hpipe => ?_, fun hready hcall => ?_⟩
  · rw [← htyped, ← hkept.typed, hpipe, List.append_assoc]
    exact List.prefix_append _ _
  · obtain ⟨written, hpipe⟩ := Option.ne_none_iff_exists'.1 hready.1
    have hflush := hkept.late hready.1 hready.2.1
    refine ⟨?_, hkept.drained [] hflush⟩
    rw [← htyped, ← hkept.typed, hpipe, hcall, Typing.waiting, hflush]
    simp

/-- A run in which one byte is typed before the shell is started, and one after. -/
def typedEarly : List TypingAction :=
  [.writeInput [108], .look, .buffer, .engine .handshakeDone, .engine .shellStarted, .drain, .flush 1,
    .flushed, .engine .becomeReady, .writeInput [115], .look, .put 1, .finish]

theorem typed_in_order_early : ∃ t, run Typing.step (.start "user" 80 24 "") typedEarly = some t ∧
    t.eng.stdinPipe = some [108, 115] := by
  refine ⟨_, rfl, ?_⟩
  exact ((typed_in_order "user" 80 24 "" typedEarly rfl (by decide)).2 (by decide) rfl).1

/-- A run in which the second byte is typed when the pipe is published, and the first one is not yet
flushed. -/
def overtaken : List TypingAction :=
  [.writeInput [108], .look, .buffer, .engine .handshakeDone, .engine .shellStarted,
    .writeInput [115], .look, .put 1, .finish, .drain, .flush 1, .flushed, .engine .becomeReady]

/-- The second byte overtakes the first. -/
theorem not_typed_in_order :
    ¬ ∀ as t, run Typing.step (.start "user" 80 24 "") as = some t → t.Readied → t.call = .idle →
      t.eng.stdinPipe = some (typedBy as) ∧ t.eng.pendingIn = [] := by
  intro h
  obtain ⟨hpipe, -⟩ := h overtaken _ rfl (by decide) rfl
  have hwrong : some [115, 108] = some (typedBy overtaken) := hpipe
  revert hwrong
  decide

end SshCore
