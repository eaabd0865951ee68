import Wosh.Lib.Run
import Wosh.SshCore.Probe

set_option relaxedAutoImplicit false
set_option autoImplicit false

/-!
# Probes

`Session::probe` of `wosh-client/src/lib.rs`: a command is started on the probe plane of the core, and
its result is polled for until it is there, the session is closed, the link is down or a deadline has
passed. What is in flight is for the core to say, and only a poll ends that; a call that gives up does
not poll again.

## Main definitions

* `Probes.Plane`, `Probes.Plane.step` — the core, the calls of `probe`, and the commands that they started.
* `Probes.Plane.Unwedged` — the next call is not refused for a command that is done, and what a call
  returns is the result of its own command.
* `Probes.Plane.Attended` — a command is done while the call that started it still polls.

## Main results

* `Probes.probe_unwedged_iff` — the plane is not wedged exactly as long as every command is attended.
* `Probes.Plane.Sound.own` — what a call returns is the result of its own command, whatever happens.
* `Probes.Plane.abandoned_refused` — after a command that was not, every call is refused.
* `Probes.not_alwaysUnwedged` — a command that takes longer than the deadline.

## Design

A command is known by the call that started it: the command of call `k` is that of `Plane.calls[k]`. The
goroutine of a command is one action, where it stores its result; that the channel could not be opened is
a result without a status. A tick of a call is from its waking up to its next sleep; what its `pump` lets
the goroutines do are actions before it. `recorded` is the history of what was stored, and nothing reads
it.
-/

namespace Probes

open Run
open SshCore (Engine ProbeResult)

/-- How long a call waits. -/
def probeDeadlineMs : ℕ := 15000

/-- A call of `probe`. -/
structure Call where
  deadline : ℕ
  /-- What it returned. -/
  outcome : Option (Except String ProbeResult) := none
deriving DecidableEq

/-- A session, as far as `probe` goes. -/
structure Plane where
  core : Engine
  linkDown : Bool := false
  calls : List Call := []
  /-- The goroutines of `ProbeStart` that have not stored their result, by the calls that started them. -/
  running : List ℕ := []
  /-- History: what was stored. -/
  recorded : List (ℕ × ProbeResult) := []

/-- What happens next. -/
inductive ProbeAction
  /-- The core does something else. -/
  | core (a : SshCore.Action)
  | link (down : Bool)
  /-- `probe` is called. -/
  | probe (now : ℕ)
  /-- A call wakes up. -/
  | tick (k now : ℕ)
  /-- A goroutine stores its result. -/
  | done (k : ℕ) (r : ProbeResult)
deriving DecidableEq

namespace Plane

/-- A call returns. -/
def finish (s : Plane) (k : ℕ) (r : Except String ProbeResult) : Plane :=
  { s with calls := s.calls.modify k fun c => { c with outcome := some r } }

/-- `probe` up to its first sleep. -/
def probe (s : Plane) (now : ℕ) : Plane :=
  match s.core.probeStart.2 with
  | some e => { s with calls := s.calls ++ [{ deadline := now, outcome := some (.error e) }] }
  | none =>
    { s with
      core := s.core.probeStart.1
      calls := s.calls ++ [{ deadline := now + probeDeadlineMs }]
      running := s.running ++ [s.calls.length] }

/-- A turn of the loop of `probe`. -/
def tick (s : Plane) (k : ℕ) (c : Call) (now : ℕ) : Plane :=
  let t := { s with core := s.core.probePoll.1 }
  match s.core.probePoll.2 with
  | some r => t.finish k (.ok r)
  | none =>
    if t.core.state = .closed then
      t.finish k (.error ("session closed while probe was in flight: " ++ t.core.closeMsg))
    else if t.linkDown then t.finish k (.error "connection lost while probe was in flight")
    else if c.deadline ≤ now then
      t.finish k (.error "probe timed out (still in flight on the target)")
    else t

/-- A goroutine stores its result. -/
def store (s : Plane) (k : ℕ) (r : ProbeResult) : Plane :=
  { s with
    core := { s.core with probeResult := some r }
    running := s.running.erase k
    recorded := s.recorded ++ [(k, r)] }

/-- One step; an export of the core is called when no other one is in progress. -/
def step (s : Plane) : ProbeAction → Option Plane
  | .core a =>
    if a.isProbe then none else (s.core.step a).map fun (e : Engine) => { s with core := e }
  | .link down => some { s with linkDown := down }
  | .probe now => if s.core.ending = none then some (s.probe now) else none
  | .tick k now =>
    match s.calls[k]? with
    | some c => if c.outcome = none ∧ s.core.ending = none then some (s.tick k c now) else none
    | none => none
  | .done k r => if k ∈ s.running then some (s.store k r) else none

/-- A session begins with a core that was just made. -/
def start (user : String) (cols rows : ℕ) (command : String) : Plane where
  core := .new user cols rows command

/-- A call still polls. -/
def Waits (s : Plane) (k : ℕ) : Prop := ∃ c, s.calls[k]? = some c ∧ c.outcome = none

/-- When no call polls and no command runs, the next call is not refused for one that is in flight; and
what a call returned is what its own command had for a result. -/
structure Unwedged (s : Plane) : Prop where
  next : (∀ k, ¬ s.Waits k) → s.running = [] → s.core.probeStart.2 ≠ some Engine.alreadyInFlight
  own : ∀ k c r, s.calls[k]? = some c → c.outcome = some (.ok r) → (k, r) ∈ s.recorded

/-- A command that is done while the core is ready is one that its call still polls for. -/
def Attended (s : Plane) : ProbeAction → Prop
  | .done k _ => k ∈ s.running → s.core.state = .ready → s.Waits k
  | _ => True

/-! ## What is in flight -/

/-- Whose probe is in flight: either its command runs, or its result is there. Only its call polls. -/
structure Owner (s : Plane) (k : ℕ) : Prop where
  inFlight : s.core.probeInFlight = true
  stage : (s.running = [k] ∧ s.core.probeResult = none) ∨
    (s.running = [] ∧ ∃ r, s.core.probeResult = some r ∧ (k, r) ∈ s.recorded)
  only : ∀ j, s.Waits j → j = k

/-- Nothing is in flight. -/
structure Idle (s : Plane) : Prop where
  inFlight : s.core.probeInFlight = false
  result : s.core.probeResult = none
  running : s.running = []
  none_waits : ∀ j, ¬ s.Waits j

/-- What holds whatever the commands do: at most one probe is in flight, and what a call returned is
its own. -/
structure Sound (s : Plane) : Prop where
  published : s.core.Published
  plane : s.Idle ∨ ∃ k, s.Owner k
  own : ∀ k c r, s.calls[k]? = some c → c.outcome = some (.ok r) → (k, r) ∈ s.recorded

/-- A probe whose command is done is polled for, as long as the core is ready. -/
def Polled (s : Plane) : Prop :=
  s.core.probeInFlight = true → s.running = [] → s.core.state = .ready → ∃ k, s.Waits k

variable {s s' : Plane} {k j : ℕ} {a : ProbeAction}

theorem sound_start (user : String) (cols rows : ℕ) (command : String) :
    (start user cols rows command).Sound := by
  refine ⟨Engine.published_new user cols rows command, .inl ⟨rfl, rfl, rfl, ?_⟩, ?_⟩
  · rintro j ⟨c, hc, -⟩
    cases hc
  · intro k c r hc
    cases hc

/-- A plane on which nothing is in flight has no owner. -/
theorem Sound.idle (h : s.Sound) (hflight : s.core.probeInFlight = false) : s.Idle := by
  rcases h.plane with hidle | ⟨k, howner⟩
  · exact hidle
  · exact absurd howner.inFlight (by simp [hflight])

/-- A call that polls is the owner. -/
theorem Sound.owner (h : s.Sound) (hk : s.Waits k) : s.Owner k := by
  rcases h.plane with hidle | ⟨j, howner⟩
  · exact absurd hk (hidle.none_waits k)
  · obtain rfl : k = j := howner.only k hk
    exact howner

/-- So is one whose command runs. -/
theorem Sound.owner_of_running (h : s.Sound) (hk : k ∈ s.running) : s.Owner k ∧ s.running = [k] := by
  rcases h.plane with hidle | ⟨j, howner⟩
  · rw [hidle.running] at hk
    cases hk
  · rcases howner.stage with ⟨hrunning, -⟩ | ⟨hrunning, -⟩
    · rw [hrunning] at hk
      obtain rfl : k = j := List.mem_singleton.1 hk
      exact ⟨howner, hrunning⟩
    · rw [hrunning] at hk
      cases hk

/-! ### Calls -/

/-- A call that is made polls if it was not refused. -/
theorem waits_append {c : Call} (hcalls : s'.calls = s.calls ++ [c])
    (h : s'.Waits j) : s.Waits j ∨ (j = s.calls.length ∧ c.outcome = none) := by
  obtain ⟨c', hc', hout⟩ := h
  rw [hcalls, List.getElem?_append] at hc'
  split_ifs at hc' with hlt
  · exact .inl ⟨c', hc', hout⟩
  · have hj := (List.getElem?_eq_some_iff.1 hc').1
    rw [List.length_singleton] at hj
    obtain rfl := List.mem_singleton.1 (List.mem_of_getElem? hc')
    exact .inr ⟨by omega, hout⟩

/-- What a call returned is on record, and a new call has not returned a result. -/
theorem own_append {c : Call} (hcalls : s'.calls = s.calls ++ [c]) (hc : ∀ r, c.outcome ≠ some (.ok r))
    (hrecorded : s'.recorded = s.recorded)
    (h : ∀ k c r, s.calls[k]? = some c → c.outcome = some (.ok r) → (k, r) ∈ s.recorded) (k : ℕ)
    (c' : Call) (r : ProbeResult) (hc' : s'.calls[k]? = some c') (hout : c'.outcome = some (.ok r)) :
    (k, r) ∈ s'.recorded := by
  rw [hrecorded]
  rw [hcalls, List.getElem?_append] at hc'
  split_ifs at hc' with hlt
  · exact h k c' r hc' hout
  · obtain rfl := List.mem_singleton.1 (List.mem_of_getElem? hc')
    exact absurd hout (hc r)

/-- A call that returned does not poll any more. -/
theorem waits_finish {r : Except String ProbeResult} (h : (s.finish k r).Waits j) :
    s.Waits j ∧ j ≠ k := by
  obtain ⟨c, hc, hout⟩ := h
  rw [finish, List.getElem?_modify] at hc
  obtain ⟨c', hc', rfl⟩ := Option.map_eq_some_iff.1 hc
  split_ifs at hout with hkj
  exact ⟨⟨c', hc', hout⟩, fun h => hkj h.symm⟩

/-- What a call returns is on record. -/
theorem own_finish {r : Except String ProbeResult} (hr : ∀ v, r = .ok v → (k, v) ∈ s.recorded)
    (h : ∀ k c v, s.calls[k]? = some c → c.outcome = some (.ok v) → (k, v) ∈ s.recorded) (i : ℕ)
    (c : Call) (v : ProbeResult) (hc : (s.finish k r).calls[i]? = some c)
    (hout : c.outcome = some (.ok v)) : (i, v) ∈ s.recorded := by
  rw [finish, List.getElem?_modify] at hc
  obtain ⟨c', hc', rfl⟩ := Option.map_eq_some_iff.1 hc
  split_ifs at hout with hki
  · subst hki
    exact hr v (Option.some_inj.1 hout)
  · exact h i c' v hc' hout

/-! ### Steps -/

/-- The core does something else. -/
theorem core_sound (h : s.Sound) {b : SshCore.Action} {e : Engine} (hb : b.isProbe = false)
    (hstep : s.core.step b = some e) : Sound { s with core := e } := by
  obtain ⟨hpublished, hflight, hresult, -⟩ := Engine.step_apart h.published hb hstep
  refine ⟨hpublished, ?_, h.own⟩
  rcases h.plane with hidle | ⟨k, howner⟩
  · exact .inl ⟨hflight.trans hidle.inFlight, hresult.trans hidle.result, hidle.running,
      hidle.none_waits⟩
  · refine .inr ⟨k, hflight.trans howner.inFlight, ?_, howner.only⟩
    simp only [hresult]
    exact howner.stage

theorem probe_sound (h : s.Sound) (now : ℕ) : (s.probe now).Sound := by
  unfold probe
  split
  case h_1 e he =>
    refine ⟨h.published, ?_, own_append rfl (by simp) rfl h.own⟩
    rcases h.plane with hidle | ⟨k, howner⟩
    · refine .inl ⟨hidle.inFlight, hidle.result, hidle.running, ?_⟩
      intro j hj
      rcases waits_append rfl hj with hold | ⟨-, hnew⟩
      · exact hidle.none_waits j hold
      · cases hnew
    · refine .inr ⟨k, howner.inFlight, howner.stage, ?_⟩
      intro j hj
      rcases waits_append rfl hj with hold | ⟨-, hnew⟩
      · exact howner.only j hold
      · cases hnew
  case h_2 hnone =>
    obtain ⟨hready, hflight, hcore⟩ := Engine.probeStart_of_none hnone
    have hidle := h.idle hflight
    refine ⟨?_, .inr ⟨s.calls.length, ?_, .inl ⟨?_, ?_⟩, ?_⟩, own_append rfl (by simp) rfl h.own⟩
    · rw [hcore]
      exact fun _ => h.published (.inl hready)
    · rw [hcore]
    · simp only [hidle.running, List.nil_append]
    · rw [hcore]
    · intro j hj
      rcases waits_append rfl hj with hold | ⟨rfl, -⟩
      · exact absurd hold (hidle.none_waits j)
      · rfl

/-- A call that gives up, or goes on, leaves in flight what is. -/
theorem Owner.finish (h : s.Owner k) (r : Except String ProbeResult) : (s.finish k r).Owner k :=
  ⟨h.inFlight, h.stage, fun j hj => h.only j (waits_finish hj).1⟩

/-- What a turn comes to: a result is handed over; or there is none, and the call gives up or goes on. -/
theorem tick_cases (s : Plane) (k : ℕ) (c : Call) (now : ℕ) :
    (∃ r, s.core.probeResult = some r ∧ s.tick k c now =
      { s with core := { s.core with probeResult := none, probeInFlight := false } }.finish k (.ok r)) ∨
    (s.core.probeResult = none ∧
      (s.tick k c now = s ∨ ∃ e, s.tick k c now = s.finish k (.error e))) := by
  cases hpoll : s.core.probePoll.2 with
  | some r =>
    obtain ⟨hresult, hcore⟩ := Engine.probePoll_of_some hpoll
    exact .inl ⟨r, hresult, by simp only [tick, hpoll, hcore]⟩
  | none =>
    obtain ⟨hresult, hcore⟩ := Engine.probePoll_of_none hpoll
    refine .inr ⟨hresult, ?_⟩
    simp only [tick, hpoll, hcore]
    split_ifs
    · exact .inr ⟨_, rfl⟩
    · exact .inr ⟨_, rfl⟩
    · exact .inr ⟨_, rfl⟩
    · exact .inl rfl

theorem tick_sound (h : s.Sound) {c : Call} (hc : s.calls[k]? = some c) (hout : c.outcome = none)
    (now : ℕ) : (s.tick k c now).Sound := by
  have howner := h.owner ⟨c, hc, hout⟩
  rcases tick_cases s k c now with ⟨r, hresult, heq⟩ | ⟨-, heq | ⟨e, heq⟩⟩ <;> rw [heq]
  · obtain ⟨hrunning, hrecorded⟩ : s.running = [] ∧ (k, r) ∈ s.recorded := by
      rcases howner.stage with ⟨-, hnone⟩ | ⟨hrunning, r', hr', hrecorded⟩
      · rw [hresult] at hnone
        cases hnone
      · obtain rfl := Option.some_inj.1 (hresult.symm.trans hr')
        exact ⟨hrunning, hrecorded⟩
    refine ⟨?_, .inl ⟨rfl, rfl, hrunning, ?_⟩, own_finish ?_ h.own⟩
    · rintro (hready | hflight)
      · exact h.published (.inl hready)
      · cases hflight
    · intro j hj
      obtain ⟨hwaits, hne⟩ := waits_finish hj
      exact hne (howner.only j hwaits)
    · intro v hv
      cases hv
      exact hrecorded
  · exact h
  · exact ⟨h.published, .inr ⟨k, howner.finish _⟩, own_finish (by simp) h.own⟩

theorem store_sound (h : s.Sound) (hk : k ∈ s.running) (r : ProbeResult) : (s.store k r).Sound := by
  obtain ⟨howner, hrunning⟩ := h.owner_of_running hk
  refine ⟨h.published, .inr ⟨k, howner.inFlight, .inr ⟨?_, r, rfl, ?_⟩, howner.only⟩, ?_⟩
  · simp only [store, hrunning, List.erase_cons_head]
  · exact List.mem_append_right _ List.mem_cons_self
  · intro i c v hc hout
    exact List.mem_append_left _ (h.own i c v hc hout)

/-- **Every step keeps this.** -/
theorem step_sound (h : s.Sound) (hstep : s.step a = some s') : s'.Sound := by
  cases a <;> simp only [step] at hstep
  case core b =>
    split_ifs at hstep with hb
    obtain ⟨e, he, rfl⟩ := Option.map_eq_some_iff.1 hstep
    exact core_sound h (by simpa using hb) he
  case link down =>
    cases hstep
    exact ⟨h.published, h.plane.imp (fun hi => ⟨hi.inFlight, hi.result, hi.running, hi.none_waits⟩)
      fun ⟨k, ho⟩ => ⟨k, ho.inFlight, ho.stage, ho.only⟩, h.own⟩
  case probe now =>
    split_ifs at hstep
    cases hstep
    exact probe_sound h now
  case tick k now =>
    split at hstep
    case h_1 c hc =>
      split_ifs at hstep with hwaits
      cases hstep
      exact tick_sound h hc hwaits.1 now
    case h_2 => cases hstep
  case done k r =>
    split_ifs at hstep with hk
    cases hstep
    exact store_sound h hk r

/-! ### Commands that are attended -/

/-- Who polls still does, where no call returned. -/
theorem Polled.congr (h : s.Polled) (hflight : s'.core.probeInFlight = s.core.probeInFlight)
    (hrunning : s'.running = s.running)
    (hready : s.core.probeInFlight = true → s'.core.state = .ready → s.core.state = .ready)
    (hwaits : ∀ k, s.Waits k → s'.Waits k) : s'.Polled := by
  intro hflight' hrunning' hready'
  rw [hflight] at hflight'
  rw [hrunning] at hrunning'
  obtain ⟨k, hk⟩ := h hflight' hrunning' (hready hflight' hready')
  exact ⟨k, hwaits k hk⟩

theorem probe_polled (h : s.Polled) (now : ℕ) : (s.probe now).Polled := by
  unfold probe
  split
  case h_1 e he =>
    refine h.congr rfl rfl (fun _ => id) ?_
    rintro k ⟨c, hc, hout⟩
    exact ⟨c, (List.getElem?_append_left (List.getElem?_eq_some_iff.1 hc).1).trans hc, hout⟩
  case h_2 =>
    intro _ hrunning
    simp at hrunning

theorem tick_polled (h : s.Sound) {c : Call} (hc : s.calls[k]? = some c) (hout : c.outcome = none)
    (now : ℕ) : (s.tick k c now).Polled := by
  have howner := h.owner ⟨c, hc, hout⟩
  rcases tick_cases s k c now with ⟨r, -, heq⟩ | ⟨hresult, heq⟩
  · rw [heq]
    intro hflight
    cases hflight
  · -- There is no result yet, so that the command still runs.
    have hrunning : s.running ≠ [] := by
      rcases howner.stage with ⟨hrunning, -⟩ | ⟨-, r, hr, -⟩
      · rw [hrunning]
        exact List.cons_ne_nil _ _
      · rw [hresult] at hr
        cases hr
    rcases heq with heq | ⟨e, heq⟩ <;> rw [heq] <;> exact fun _ hempty => absurd hempty hrunning

/-- A step at which a command that is done is attended keeps this. -/
theorem step_polled (h : s.Sound) (hpolled : s.Polled) (hC : s.Attended a)
    (hstep : s.step a = some s') : s'.Polled := by
  cases a <;> simp only [step] at hstep
  case core b =>
    split_ifs at hstep with hb
    obtain ⟨e, he, rfl⟩ := Option.map_eq_some_iff.1 hstep
    obtain ⟨-, hflight, -, hready⟩ := Engine.step_apart h.published (by simpa using hb) he
    exact hpolled.congr hflight rfl hready fun _ => id
  case link down =>
    cases hstep
    exact hpolled.congr rfl rfl (fun _ => id) fun _ => id
  case probe now =>
    split_ifs at hstep
    cases hstep
    exact probe_polled hpolled now
  case tick k now =>
    split at hstep
    case h_1 c hc =>
      split_ifs at hstep with hwaits
      cases hstep
      exact tick_polled h hc hwaits.1 now
    case h_2 => cases hstep
  case done k r =>
    split_ifs at hstep with hk
    cases hstep
    intro _ _ hready
    exact ⟨k, hC hk hready⟩

/-- A probe that is polled for does not stand in the way of a call once no other one polls. -/
theorem Sound.unwedged (h : s.Sound) (hpolled : s.Polled) : s.Unwedged where
  next := by
    intro hwaits hrunning hrefused
    obtain ⟨hready, hflight⟩ := Engine.probeStart_refused_iff.1 hrefused
    obtain ⟨k, hk⟩ := hpolled hflight hrunning hready
    exact hwaits k hk
  own := h.own

/-- A command that is done when its call has given up leaves a plane on which the next is refused. -/
theorem store_wedges (h : s.Sound) (hk : k ∈ s.running) (hready : s.core.state = .ready)
    (hwaits : ¬ s.Waits k) (r : ProbeResult) : ¬ (s.store k r).Unwedged := by
  intro hunwedged
  obtain ⟨howner, hrunning⟩ := h.owner_of_running hk
  refine hunwedged.next ?_ ?_ ?_
  · intro j hj
    obtain rfl := howner.only j hj
    exact hwaits hj
  · simp only [store, hrunning, List.erase_cons_head]
  · exact Engine.probeStart_refused_iff.2 ⟨hready, howner.inFlight⟩

theorem wedged_of_not_attended (h : s.Sound) (hC : ¬ s.Attended a) :
    ∃ s', s.step a = some s' ∧ ¬ s'.Unwedged := by
  cases a <;> simp only [Attended, not_true] at hC
  case done k r =>
    push Not at hC
    obtain ⟨hk, hready, hwaits⟩ := hC
    exact ⟨s.store k r, by simp only [step, if_pos hk], store_wedges h hk hready hwaits r⟩

/-! ## A plane that is wedged -/

/-- A result is there that no call will poll for. -/
structure Wedged (s : Plane) : Prop where
  inFlight : s.core.probeInFlight = true
  running : s.running = []
  none_waits : ∀ k, ¬ s.Waits k

theorem Wedged.refused (h : s.Wedged) : s.core.probeStart.2 ≠ none := by
  intro hnone
  have hflight := (Engine.probeStart_of_none hnone).2.1
  rw [h.inFlight] at hflight
  cases hflight

/-- Nothing gets a plane out of this. -/
theorem step_wedged (hs : s.Sound) (h : s.Wedged) (hstep : s.step a = some s') : s'.Wedged := by
  cases a <;> simp only [step] at hstep
  case core b =>
    split_ifs at hstep with hb
    obtain ⟨e, he, rfl⟩ := Option.map_eq_some_iff.1 hstep
    obtain ⟨-, hflight, -⟩ := Engine.step_apart hs.published (by simpa using hb) he
    exact ⟨hflight.trans h.inFlight, h.running, h.none_waits⟩
  case link down =>
    cases hstep
    exact ⟨h.inFlight, h.running, h.none_waits⟩
  case probe now =>
    split_ifs at hstep
    cases hstep
    unfold probe
    split
    case h_1 e he =>
      refine ⟨h.inFlight, h.running, ?_⟩
      intro k hk
      rcases waits_append rfl hk with hold | ⟨-, hnew⟩
      · exact h.none_waits k hold
      · cases hnew
    case h_2 hnone => exact absurd hnone h.refused
  case tick k now =>
    split at hstep
    case h_1 c hc =>
      split_ifs at hstep with hwaits
      exact absurd ⟨c, hc, hwaits.1⟩ (h.none_waits k)
    case h_2 => cases hstep
  case done k r =>
    rw [h.running] at hstep
    simp at hstep

/-- **After a command that was done when its call had given up, every call is refused.** -/
theorem abandoned_refused (hs : s.Sound) (h : s.Wedged) {as : List ProbeAction}
    (hrun : run step s as = some s') : s'.core.probeStart.2 ≠ none := by
  have hinv : s'.Sound ∧ s'.Wedged := by
    apply run_inv_of_step (P := fun t => t.Sound ∧ t.Wedged) _ ⟨hs, h⟩ hrun
    rintro t b t' ⟨hsound, hwedged⟩ hstep
    exact ⟨step_sound hsound hstep, step_wedged hsound hwedged hstep⟩
  exact hinv.2.refused

end Plane

/-! ## Main results -/

/-- **The probe plane is unwedged throughout a run exactly when every command that is done is one that
its call still polls for.** -/
theorem probe_unwedged_iff (user : String) (cols rows : ℕ) (command : String) (as : List ProbeAction) :
    Along Plane.step Plane.Attended (Plane.start user cols rows command) as ↔
      ∀ bs s, bs <+: as → run Plane.step (Plane.start user cols rows command) bs = some s →
        s.Unwedged := by
  apply along_iff_reached (P := fun s => s.Sound ∧ s.Polled)
  · rintro s ⟨hsound, hpolled⟩
    exact hsound.unwedged hpolled
  · rintro s a s' ⟨hsound, hpolled⟩ hC hstep
    exact ⟨Plane.step_sound hsound hstep, Plane.step_polled hsound hpolled hC hstep⟩
  · rintro s a ⟨hsound, -⟩ hC
    exact Plane.wedged_of_not_attended hsound hC
  · exact ⟨Plane.sound_start user cols rows command, fun hflight => by cases hflight⟩

/-- A session becomes ready, a command is started that takes longer than its call waits, and another
call is made after it is done. -/
def slowCommand : List ProbeAction :=
  [.core (.hostKeyCallback "SHA256:x"), .core (.confirmHostKey true), .core .hostKeyVerdict,
    .core .hostKeyReturn, .core .handshakeDone, .core .shellStarted, .core .flushInput,
    .core .becomeReady, .probe 0, .tick 0 15000, .done 0 ⟨some 0, []⟩, .probe 20000]

/-- The other call is refused. -/
theorem not_alwaysUnwedged : ¬ ∀ (user : String) (cols rows : ℕ) (command : String)
    (as : List ProbeAction) (s : Plane),
    run Plane.step (Plane.start user cols rows command) as = some s → s.Unwedged := by
  intro h
  have hrun : (run Plane.step (Plane.start "u" 80 24 "") slowCommand).map
      (fun s => (s.running, s.core.probeStart.2, s.calls)) =
        some ([], some Engine.alreadyInFlight,
          [⟨15000, some (.error "probe timed out (still in flight on the target)")⟩,
            ⟨20000, some (.error Engine.alreadyInFlight)⟩]) := by decide +kernel
  obtain ⟨s, hs, hview⟩ := Option.map_eq_some_iff.1 hrun
  obtain ⟨hrunning, hrefused, hcalls⟩ := Prod.ext_iff.1 hview |>.imp id Prod.ext_iff.1
  refine (h _ _ _ _ _ s hs).next ?_ hrunning hrefused
  rintro k ⟨c, hc, hout⟩
  rw [show s.calls = _ from hcalls] at hc
  have hmem := List.mem_of_getElem? hc
  simp only [List.mem_cons, List.not_mem_nil, or_false] at hmem
  rcases hmem with rfl | rfl <;> cases hout

end Probes
