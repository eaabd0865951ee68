import Wosh.Lib.Run
import Wosh.Client.State

set_option relaxedAutoImplicit false
set_option autoImplicit false

/-!
# The resume budget

One `resume_loop` of `wosh-client/src/lib.rs` as far as its budget goes: every reading of the
clock, every outcome of an attempt, and what the budget is charged.

`attempt_started` is read at the top of the loop and not again after the backoff sleep, so what
the next pass charges for an attempt runs from its start to the end of the sleep that followed it.

## Main definitions

* `Client.Trying` — a resume loop with the backoffs it asked for and the attempts it made.
* `Client.Trying.trying` — the time spent trying, as it is meant to be charged.
* `Client.TryAction.Charges` — a budget check finds exactly that.
* `Client.TryAction.Unslept` — no measured part of a sleep comes between an attempt that was not
  suspended and the check that charges it.

## Main results

* `Client.Trying.charges_iff` — when every budget check of a loop is right; the loop ends.
-/

namespace Client

/-- The reason to give up for lack of budget. -/
def windowReason : String :=
  "connection lost and could not be resumed within " ++ toString (resumeWindowMs / 1000) ++ "s"

/-- The decision at the top of the loop, from what the session shows there. -/
def topNext (abandoned suspended overflowed : Bool) (spent : ℕ) : World.LoopNext :=
  if abandoned then .leave
  else if suspended then .standDown
  else if resumeWindowMs < spent then .die windowReason
  else if overflowed then
    .die "resume impossible: unacknowledged data exceeded the replay buffer"
  else .dial

/-- It is the decision of a session's resume loops. -/
theorem World.loopNext_eq (w : World) (g spent : ℕ) :
    w.loopNext g spent = topNext (w.abandoned g) w.suspended w.replay.overflowed spent := rfl

/-- How a handshake ends; `covered` says whether the replay buffer covers the peer's count. -/
inductive Shake
  | failed
  | resumed (covered : Bool)
  | fresh
  | refused
deriving DecidableEq, Repr

/-- What happens to a resume loop. Times are readings of the clock; `abandoned`, `suspended` and
`overflowed` are what the session shows when the loop looks. -/
inductive TryAction
  /-- The top of the loop: one reading for the charge and one for the attempt that begins. -/
  | top (charge begin : ℕ) (abandoned suspended overflowed : Bool)
  /-- `connect` returns. -/
  | dialed (now : ℕ) (ok abandoned : Bool)
  /-- `rebind_endpoint` returns. -/
  | rebound (now : ℕ)
  /-- `open_bi` returns. -/
  | opened (now : ℕ) (ok abandoned : Bool)
  /-- `handshake` returns. -/
  | shook (now : ℕ) (outcome : Shake) (abandoned : Bool)
  /-- `sleep_ms` returns. -/
  | slept (now : ℕ)
deriving DecidableEq, Repr

/-- A resume loop over time. In `loop.pc`, `.helloing` is the whole handshake. -/
structure Trying where
  /-- The latest reading of the clock. -/
  clock : ℕ
  /-- The variables of the loop. -/
  loop : Loop
  /-- *History*: the backoffs requested so far. -/
  asked : List ℕ := []
  /-- *History*: when the finished attempts began and ended. -/
  attempts : List (ℕ × ℕ) := []
  /-- *History*: when the attempt underway began. -/
  began : ℕ := 0
deriving DecidableEq

namespace Trying

/-- A resume loop begins: `attempt_started` is the first reading. -/
def start (generation now : ℕ) : Trying :=
  { clock := now
    loop := { generation := generation, attemptStarted := now, pc := .top } }

variable (t : Trying)

/-- The clock is read, and the loop goes on to `pc`. -/
def goto (now : ℕ) (pc : LoopPc) : Trying :=
  { t with clock := now, loop := { t.loop with pc := pc } }

/-- The top of the loop: the attempt that ended is charged. -/
def checkBudget (charge begin : ℕ) (pc : LoopPc) : Trying :=
  { t with
    clock := begin
    began := begin
    loop :=
      { t.loop with spent := t.loop.charged charge, attemptStarted := begin, pc := pc } }

/-- An attempt failed: the sleep charges what it asks for. -/
def backoffSleep (now : ℕ) : Trying :=
  { t with
    clock := now
    loop :=
      { t.loop with
        spent := t.loop.spent + t.loop.backoff
        pc := .sleeping (now + t.loop.backoff) }
    asked := t.asked ++ [t.loop.backoff]
    attempts := t.attempts ++ [(t.began, now)] }

/-- The sleep is over. -/
def wakeUp (now : ℕ) : Trying :=
  { t with
    clock := now
    loop := { t.loop with backoff := min (t.loop.backoff * 2) resumeBackoffCapMs, pc := .top } }

/-- One step of a resume loop, at a reading of the clock that is not before the last one. -/
def step (t : Trying) : TryAction → Option Trying
  | .top charge begin abandoned suspended overflowed =>
    if t.loop.pc = .top ∧ t.clock ≤ charge ∧ charge ≤ begin then
      match topNext abandoned suspended overflowed (t.loop.charged charge) with
      | .dial => some (t.checkBudget charge begin .dialing)
      | .leave => some (t.checkBudget charge begin .done)
      | .standDown => some (t.checkBudget charge begin .done)
      | .die _ => some (t.checkBudget charge begin .done)
    else none
  | .dialed now ok abandoned =>
    if t.loop.pc = .dialing ∧ t.clock ≤ now then
      if abandoned then some (t.goto now .done)
      else if ok then some (t.goto now (.opening 0))
      else some (t.goto now .rebinding)
    else none
  | .rebound now =>
    if t.loop.pc = .rebinding ∧ t.clock ≤ now then some (t.backoffSleep now) else none
  | .opened now ok abandoned =>
    if t.loop.pc = .opening 0 ∧ t.clock ≤ now then
      if ok = false then some (t.backoffSleep now)
      else if abandoned then some (t.goto now .done)
      else some (t.goto now (.helloing 0))
    else none
  | .shook now outcome abandoned =>
    if t.loop.pc = .helloing 0 ∧ t.clock ≤ now then
      if abandoned then some (t.goto now .done)
      else if outcome = .failed then some (t.backoffSleep now)
      else some (t.goto now .done)
    else none
  | .slept now =>
    match t.loop.pc with
    | .sleeping _ => if t.clock ≤ now then some (t.wakeUp now) else none
    | _ => none

/-- What an attempt is charged: how long it took, but at most the cap. -/
def cost (attempt : ℕ × ℕ) : ℕ := min resumeAttemptCapMs (attempt.2 - attempt.1)

/-- The time spent trying: the backoffs requested and the costs of the finished attempts. -/
def trying : ℕ := t.asked.sum + (t.attempts.map cost).sum

end Trying

/-- A budget check finds the time spent trying, and gives up exactly when it exceeds the window. A
loop that leaves or stands down at its top does not come to the check. -/
def TryAction.Charges (t : Trying) : TryAction → Prop
  | .top charge _ abandoned suspended overflowed =>
    abandoned = false → suspended = false →
      t.loop.charged charge = t.trying ∧
      (topNext abandoned suspended overflowed (t.loop.charged charge) = .die windowReason ↔
        resumeWindowMs < t.trying)
  | _ => True

/-- No time has passed on the clock since the last attempt ended, or that attempt took the cap or
longer; before the first attempt, none since the loop began. -/
def Trying.Unslept (t : Trying) (charge : ℕ) : Prop :=
  (t.attempts = [] → charge = t.loop.attemptStarted) ∧
  ∀ attempt ∈ t.attempts.getLast?, charge = attempt.2 ∨ resumeAttemptCapMs ≤ attempt.2 - attempt.1

instance (t : Trying) (charge : ℕ) : Decidable (t.Unslept charge) :=
  inferInstanceAs (Decidable (_ ∧ _))

/-- That is so where a budget check is reached. -/
def TryAction.Unslept (t : Trying) : TryAction → Prop
  | .top charge _ abandoned suspended _ =>
    abandoned = false → suspended = false → t.Unslept charge
  | _ => True

/-- When the sleep is due to end. -/
def LoopPc.due : LoopPc → Option ℕ
  | .sleeping due => some due
  | _ => none

instance (t : Trying) : (a : TryAction) → Decidable (a.Unslept t)
  | .top .. => inferInstanceAs (Decidable (_ → _ → _))
  | .dialed .. => inferInstanceAs (Decidable True)
  | .rebound _ => inferInstanceAs (Decidable True)
  | .opened .. => inferInstanceAs (Decidable True)
  | .shook .. => inferInstanceAs (Decidable True)
  | .slept _ => inferInstanceAs (Decidable True)

namespace Trying

variable {t t' : Trying}

/-! ## What is still to be charged -/

/-- No attempt is underway: the last one is charged at the next check. -/
def Waiting (t : Trying) : Prop := t.loop.pc = .top ∨ t.loop.pc.due.isSome

/-- An attempt is underway. -/
def Underway (t : Trying) : Prop := ¬ t.Waiting ∧ t.loop.pc ≠ .done

instance (t : Trying) : Decidable t.Waiting := inferInstanceAs (Decidable (_ ∨ _))

/-- The cost of the last attempt. -/
def lastCost (t : Trying) : ℕ := (t.attempts.getLast?.map cost).getD 0

/-- What holds of a loop whose checks were right so far. -/
structure Sound (t : Trying) : Prop where
  /-- While an attempt is underway, everything is charged. -/
  underway : t.Underway → t.loop.spent = t.trying
  /-- Otherwise the last attempt is still to be charged. -/
  waiting : t.Waiting → t.loop.spent + t.lastCost = t.trying
  /-- The attempt began at the reading at the top of the loop. -/
  began_eq : t.Underway → t.loop.attemptStarted = t.began
  /-- So did the last one. -/
  last : t.Waiting → ∀ began ended, t.attempts.getLast? = some (began, ended) →
    t.loop.attemptStarted = began ∧ began ≤ ended ∧ ended ≤ t.clock
  /-- Attempts begin in the past. -/
  started_le : t.loop.attemptStarted ≤ t.clock

/-- A loop that begins. -/
theorem sound_start (generation now : ℕ) : (start generation now).Sound where
  underway h := absurd (.inl rfl) h.1
  waiting _ := rfl
  began_eq h := absurd (.inl rfl) h.1
  last _ _ _ h := by cases h
  started_le := Nat.le_refl _

/-- Where the loop is neither at its top nor asleep, nor done, an attempt is underway. -/
theorem underway_of_pc (pc : LoopPc) (h : t.loop.pc = pc)
    (hpc : ¬ (pc = .top ∨ pc.due.isSome = true) ∧ pc ≠ .done) : t.Underway := by
  subst h
  exact hpc

/-- A loop that is done is not waiting. -/
theorem not_waiting_of_done (h : t.loop.pc = .done) : ¬ t.Waiting := by
  unfold Waiting
  rw [h]
  decide

/-- Nothing is said of a loop that is done. -/
theorem sound_done (h : t.loop.pc = .done) (hle : t.loop.attemptStarted ≤ t.clock) :
    t.Sound where
  underway hu := absurd h hu.2
  waiting hw := absurd hw (not_waiting_of_done h)
  began_eq hu := absurd h hu.2
  last hw := absurd hw (not_waiting_of_done h)
  started_le := hle

/-- The attempt goes on. -/
theorem Sound.goto (hs : t.Sound) {now : ℕ} {pc : LoopPc} (hnow : t.clock ≤ now)
    (hu : t.Underway) (hu' : (t.goto now pc).Underway) : (t.goto now pc).Sound where
  underway _ := hs.underway hu
  waiting hw := absurd hw hu'.1
  began_eq _ := hs.began_eq hu
  last hw := absurd hw hu'.1
  started_le := hs.started_le.trans hnow

/-- The attempt fails: it is still to be charged, and the backoff is charged. -/
theorem Sound.backoffSleep (hs : t.Sound) {now : ℕ} (hnow : t.clock ≤ now) (hu : t.Underway) :
    (t.backoffSleep now).Sound where
  underway h := absurd (.inr rfl) h.1
  waiting _ := by
    have hunder := hs.underway hu
    unfold trying at hunder ⊢
    show t.loop.spent + t.loop.backoff +
      (((t.attempts ++ [(t.began, now)]).getLast?.map cost).getD 0) =
      (t.asked ++ [t.loop.backoff]).sum + ((t.attempts ++ [(t.began, now)]).map cost).sum
    simp only [List.getLast?_append, List.getLast?_singleton, Option.some_or, Option.map_some,
      Option.getD_some, List.sum_append, List.map_append, List.map_singleton, List.sum_singleton]
    omega
  began_eq h := absurd (.inr rfl) h.1
  last _ began ended h := by
    have hlast : (t.attempts ++ [(t.began, now)]).getLast? = some (began, ended) := h
    rw [List.getLast?_append, List.getLast?_singleton, Option.some_or] at hlast
    cases hlast
    have hbegan := hs.began_eq hu
    have hle := hs.started_le
    exact ⟨hbegan, by omega, Nat.le_refl _⟩
  started_le := hs.started_le.trans hnow

/-- The sleep is over. -/
theorem Sound.wakeUp (hs : t.Sound) {now : ℕ} (hnow : t.clock ≤ now) (hw : t.Waiting) :
    (t.wakeUp now).Sound where
  underway h := absurd (.inl rfl) h.1
  waiting _ := hs.waiting hw
  began_eq h := absurd (.inl rfl) h.1
  last _ began ended h := by
    obtain ⟨hstart, hle, hclock⟩ := hs.last hw began ended h
    exact ⟨hstart, hle, hclock.trans hnow⟩
  started_le := hs.started_le.trans hnow

/-- The loop dials, having charged what it should. -/
theorem sound_dialing {charge begin : ℕ} (hcharge : t.loop.charged charge = t.trying) :
    (t.checkBudget charge begin .dialing).Sound where
  underway _ := hcharge
  waiting hw := absurd hw (underway_of_pc .dialing rfl (by decide)).1
  began_eq _ := rfl
  last hw := absurd hw (underway_of_pc .dialing rfl (by decide)).1
  started_le := Nat.le_refl _

/-- **One check.** At its top, a loop charges what it should exactly when no measured part of a
sleep is charged with the attempt. -/
theorem Sound.charged_eq_iff (hs : t.Sound) (hpc : t.loop.pc = .top) {charge : ℕ}
    (hcharge : t.clock ≤ charge) :
    t.loop.charged charge = t.trying ↔ t.Unslept charge := by
  have hw : t.Waiting := .inl hpc
  have hsum := hs.waiting hw
  have hstarted := hs.started_le
  have hcap : 0 < resumeAttemptCapMs := by norm_num [resumeAttemptCapMs]
  unfold Loop.charged
  cases hlast : t.attempts.getLast? with
  | none =>
    have hcost : t.lastCost = 0 := by
      unfold lastCost
      rw [hlast]
      rfl
    have hnil : t.attempts = [] := List.getLast?_eq_none_iff.1 hlast
    have heq : t.Unslept charge ↔ charge = t.loop.attemptStarted := by
      unfold Unslept
      simp [hnil]
    rw [heq]
    omega
  | some a =>
    obtain ⟨began, ended⟩ := a
    obtain ⟨hstart, hle, hclock⟩ := hs.last hw began ended hlast
    have hcost : t.lastCost = min resumeAttemptCapMs (ended - began) := by
      unfold lastCost
      rw [hlast]
      rfl
    have hnil : t.attempts ≠ [] := fun h => by simp [h] at hlast
    have heq : t.Unslept charge ↔ charge = ended ∨ resumeAttemptCapMs ≤ ended - began := by
      unfold Unslept
      simp [hnil, hlast]
    rw [heq]
    omega

/-- What the top of the loop decides: it dials exactly when it neither leaves nor stands down and
the budget and the replay buffer allow it. -/
theorem topNext_eq_dial {abandoned suspended overflowed : Bool} {spent : ℕ}
    (h : topNext abandoned suspended overflowed spent = .dial) :
    abandoned = false ∧ suspended = false ∧ spent ≤ resumeWindowMs := by
  unfold topNext at h
  split_ifs at h with hleave hstand hspent hover
  exact ⟨by simpa using hleave, by simpa using hstand, Nat.le_of_not_lt hspent⟩

/-- Where the check is reached, the loop gives up for lack of budget exactly when more than the
window is spent. -/
theorem topNext_eq_window_iff {overflowed : Bool} {spent : ℕ} :
    topNext false false overflowed spent = .die windowReason ↔ resumeWindowMs < spent := by
  unfold topNext
  rw [if_neg Bool.false_ne_true, if_neg Bool.false_ne_true]
  by_cases hspent : resumeWindowMs < spent
  · rw [if_pos hspent]
    exact iff_of_true rfl hspent
  · rw [if_neg hspent]
    refine iff_of_false (fun h => ?_) hspent
    split_ifs at h
    exact absurd (World.LoopNext.die.inj h) (by decide)

/-- A loop stays sound over a step whose check, if it is one, is right.

**Proof sketch.** One case for each action, and in it one for each way the loop goes on. -/
theorem Sound.step (hs : t.Sound) {a : TryAction} (hc : a.Charges t)
    (hstep : t.step a = some t') : t'.Sound := by
  cases a with
  | top charge begin abandoned suspended overflowed =>
    simp only [Trying.step] at hstep
    split_ifs at hstep with hguard
    obtain ⟨hpc, hclock, hbegin⟩ := hguard
    cases hnext : topNext abandoned suspended overflowed (t.loop.charged charge) with
    | dial =>
      rw [hnext] at hstep
      obtain rfl := Option.some_inj.1 hstep
      obtain ⟨hleave, hstand, -⟩ := topNext_eq_dial hnext
      exact sound_dialing (hc hleave hstand).1
    | leave =>
      rw [hnext] at hstep
      obtain rfl := Option.some_inj.1 hstep
      exact sound_done rfl (Nat.le_refl _)
    | standDown =>
      rw [hnext] at hstep
      obtain rfl := Option.some_inj.1 hstep
      exact sound_done rfl (Nat.le_refl _)
    | die reason =>
      rw [hnext] at hstep
      obtain rfl := Option.some_inj.1 hstep
      exact sound_done rfl (Nat.le_refl _)
  | dialed now ok abandoned =>
    simp only [Trying.step] at hstep
    split_ifs at hstep with hguard hleave hok
    · obtain rfl := Option.some_inj.1 hstep
      exact sound_done rfl (hs.started_le.trans hguard.2)
    · obtain rfl := Option.some_inj.1 hstep
      have hu : t.Underway := underway_of_pc _ hguard.1 (by decide)
      exact hs.goto hguard.2 hu (underway_of_pc (.opening 0) rfl (by decide))
    · obtain rfl := Option.some_inj.1 hstep
      have hu : t.Underway := underway_of_pc _ hguard.1 (by decide)
      exact hs.goto hguard.2 hu (underway_of_pc .rebinding rfl (by decide))
  | rebound now =>
    simp only [Trying.step] at hstep
    split_ifs at hstep with hguard
    obtain rfl := Option.some_inj.1 hstep
    exact hs.backoffSleep hguard.2 (underway_of_pc _ hguard.1 (by decide))
  | opened now ok abandoned =>
    simp only [Trying.step] at hstep
    split_ifs at hstep with hguard hok hleave
    · obtain rfl := Option.some_inj.1 hstep
      exact hs.backoffSleep hguard.2 (underway_of_pc _ hguard.1 (by decide))
    · obtain rfl := Option.some_inj.1 hstep
      exact sound_done rfl (hs.started_le.trans hguard.2)
    · obtain rfl := Option.some_inj.1 hstep
      have hu : t.Underway := underway_of_pc _ hguard.1 (by decide)
      exact hs.goto hguard.2 hu (underway_of_pc (.helloing 0) rfl (by decide))
  | shook now outcome abandoned =>
    simp only [Trying.step] at hstep
    split_ifs at hstep with hguard hleave hfailed
    · obtain rfl := Option.some_inj.1 hstep
      exact sound_done rfl (hs.started_le.trans hguard.2)
    · obtain rfl := Option.some_inj.1 hstep
      exact hs.backoffSleep hguard.2 (underway_of_pc _ hguard.1 (by decide))
    · obtain rfl := Option.some_inj.1 hstep
      exact sound_done rfl (hs.started_le.trans hguard.2)
  | slept now =>
    simp only [Trying.step] at hstep
    split at hstep
    · next due hpc =>
      split_ifs at hstep with hnow
      obtain rfl := Option.some_inj.1 hstep
      exact hs.wakeUp hnow (.inr (by rw [hpc]; rfl))
    · cases hstep

/-! ## The loop ends -/

/-- The budget bounds the attempts. -/
structure Bounded (t : Trying) : Prop where
  /-- Backoffs only grow. -/
  backoff_ge : resumeBackoffStartMs ≤ t.loop.backoff
  /-- Every finished attempt was followed by a backoff. -/
  attempts_le_spent : resumeBackoffStartMs * t.attempts.length ≤ t.loop.spent
  /-- An attempt is only begun within the window. -/
  spent_le : t.Underway → t.loop.spent ≤ resumeWindowMs
  /-- So there are only so many. -/
  attempts_le : t.attempts.length ≤ resumeWindowMs / resumeBackoffStartMs + 1

/-- A loop that begins. -/
theorem bounded_start (generation now : ℕ) : (start generation now).Bounded where
  backoff_ge := Nat.le_refl _
  attempts_le_spent := Nat.le_refl _
  spent_le _ := Nat.zero_le _
  attempts_le := Nat.zero_le _

/-- The attempt goes on, or the loop ends. -/
theorem Bounded.goto (hb : t.Bounded) (hu : t.Underway) (now : ℕ) (pc : LoopPc) :
    (t.goto now pc).Bounded where
  backoff_ge := hb.backoff_ge
  attempts_le_spent := hb.attempts_le_spent
  spent_le _ := hb.spent_le hu
  attempts_le := hb.attempts_le

/-- The attempt fails. -/
theorem Bounded.backoffSleep (hb : t.Bounded) (hu : t.Underway) (now : ℕ) :
    (t.backoffSleep now).Bounded := by
  have hge := hb.backoff_ge
  have hspent := hb.attempts_le_spent
  have hle := hb.spent_le hu
  have hlength : (t.backoffSleep now).attempts.length = t.attempts.length + 1 :=
    List.length_append
  refine ⟨hge, ?_, fun h => absurd (.inr rfl) h.1, ?_⟩
  · rw [hlength, Nat.mul_succ]
    exact Nat.add_le_add hspent hge
  · rw [hlength]
    unfold resumeBackoffStartMs resumeWindowMs at *
    omega

/-- The sleep is over. -/
theorem Bounded.wakeUp (hb : t.Bounded) (now : ℕ) : (t.wakeUp now).Bounded where
  backoff_ge := by
    have hge := hb.backoff_ge
    show resumeBackoffStartMs ≤ min (t.loop.backoff * 2) resumeBackoffCapMs
    unfold resumeBackoffStartMs resumeBackoffCapMs at *
    omega
  attempts_le_spent := hb.attempts_le_spent
  spent_le h := absurd (.inl rfl) h.1
  attempts_le := hb.attempts_le

/-- The top of the loop. -/
theorem Bounded.checkBudget (hb : t.Bounded) {charge begin : ℕ} {pc : LoopPc}
    (hpc : pc = .done ∨ t.loop.charged charge ≤ resumeWindowMs) :
    (t.checkBudget charge begin pc).Bounded where
  backoff_ge := hb.backoff_ge
  attempts_le_spent := hb.attempts_le_spent.trans (Nat.le_add_right _ _)
  spent_le hu := hpc.resolve_left hu.2
  attempts_le := hb.attempts_le

/-- Every step keeps to the bound. -/
theorem Bounded.step (hb : t.Bounded) {a : TryAction} (hstep : t.step a = some t') :
    t'.Bounded := by
  cases a with
  | top charge begin abandoned suspended overflowed =>
    simp only [Trying.step] at hstep
    split_ifs at hstep with hguard
    cases hnext : topNext abandoned suspended overflowed (t.loop.charged charge) with
    | dial =>
      rw [hnext] at hstep
      obtain rfl := Option.some_inj.1 hstep
      exact hb.checkBudget (.inr (topNext_eq_dial hnext).2.2)
    | leave =>
      rw [hnext] at hstep
      obtain rfl := Option.some_inj.1 hstep
      exact hb.checkBudget (.inl rfl)
    | standDown =>
      rw [hnext] at hstep
      obtain rfl := Option.some_inj.1 hstep
      exact hb.checkBudget (.inl rfl)
    | die reason =>
      rw [hnext] at hstep
      obtain rfl := Option.some_inj.1 hstep
      exact hb.checkBudget (.inl rfl)
  | dialed now ok abandoned =>
    simp only [Trying.step] at hstep
    split_ifs at hstep with hguard hleave hok
    all_goals
      obtain rfl := Option.some_inj.1 hstep
      exact hb.goto (underway_of_pc _ hguard.1 (by decide)) _ _
  | rebound now =>
    simp only [Trying.step] at hstep
    split_ifs at hstep with hguard
    obtain rfl := Option.some_inj.1 hstep
    exact hb.backoffSleep (underway_of_pc _ hguard.1 (by decide)) _
  | opened now ok abandoned =>
    simp only [Trying.step] at hstep
    split_ifs at hstep with hguard hok hleave
    · obtain rfl := Option.some_inj.1 hstep
      exact hb.backoffSleep (underway_of_pc _ hguard.1 (by decide)) _
    all_goals
      obtain rfl := Option.some_inj.1 hstep
      exact hb.goto (underway_of_pc _ hguard.1 (by decide)) _ _
  | shook now outcome abandoned =>
    simp only [Trying.step] at hstep
    split_ifs at hstep with hguard hleave hfailed
    · obtain rfl := Option.some_inj.1 hstep
      exact hb.goto (underway_of_pc _ hguard.1 (by decide)) _ _
    · obtain rfl := Option.some_inj.1 hstep
      exact hb.backoffSleep (underway_of_pc _ hguard.1 (by decide)) _
    · obtain rfl := Option.some_inj.1 hstep
      exact hb.goto (underway_of_pc _ hguard.1 (by decide)) _ _
  | slept now =>
    simp only [Trying.step] at hstep
    split at hstep
    · split_ifs at hstep with hnow
      obtain rfl := Option.some_inj.1 hstep
      exact hb.wakeUp now
    · cases hstep

/-- A loop makes at most 1201 attempts. -/
theorem attempts_le (generation now : ℕ) {acts : List TryAction}
    (hrun : Run.run step (start generation now) acts = some t) :
    t.attempts.length ≤ resumeWindowMs / resumeBackoffStartMs + 1 :=
  (Run.run_inv_of_step (P := Bounded) (fun _ _ _ hb hstep => hb.step hstep)
    (bounded_start generation now) hrun).attempts_le

/-! ## Whole loops -/

/-- The next check is right exactly when no measured part of a sleep is charged by it. -/
theorem Sound.charges_iff_unslept (hs : t.Sound) {a : TryAction} (ha : (t.step a).isSome) :
    a.Charges t ↔ a.Unslept t := by
  cases a with
  | top charge begin abandoned suspended overflowed =>
    simp only [Trying.step] at ha
    split_ifs at ha with hguard
    have hcheck := hs.charged_eq_iff hguard.1 hguard.2.1
    constructor
    · intro hc hleave hstand
      exact hcheck.1 (hc hleave hstand).1
    · rintro hc rfl rfl
      have hcharge := hcheck.2 (hc rfl rfl)
      exact ⟨hcharge, by rw [hcharge]; exact topNext_eq_window_iff⟩
    · cases ha
  | dialed now ok abandoned => exact Iff.rfl
  | rebound now => exact Iff.rfl
  | opened now ok abandoned => exact Iff.rfl
  | shook now outcome abandoned => exact Iff.rfl
  | slept now => exact Iff.rfl

/-- **The resume budget.** In every resume loop, whatever its attempts come to and whatever the
clock shows: every budget check finds exactly the time spent trying, gives up exactly when that
exceeds the window, and the loop makes only so many attempts, if and only if no measured part of
a sleep comes between an attempt of less than the cap and the check that charges it, and none
between the loop's first two readings of the clock.

**Proof sketch.** As long as every check was right, what is charged too much at the next one is
the difference of two minima, which is zero exactly under the condition. -/
theorem charges_iff (generation now : ℕ) {acts : List TryAction}
    (hrun : Run.run step (start generation now) acts = some t) :
    (Run.Along step (fun t a => a.Charges t) (start generation now) acts ∧
      t.attempts.length ≤ resumeWindowMs / resumeBackoffStartMs + 1) ↔
    Run.Along step (fun t a => a.Unslept t) (start generation now) acts := by
  have hsome : ∀ {t t' : Trying} {a : TryAction}, t.step a = some t' → (t.step a).isSome := by
    intro t t' a h
    rw [h]
    rfl
  constructor
  · rintro ⟨hc, -⟩
    exact Run.Along.of_inv_run (P := Sound) (fun _ _ _ hs hc hstep => hs.step hc hstep)
      (fun _ _ _ hs hc hstep => (hs.charges_iff_unslept (hsome hstep)).1 hc)
      (sound_start generation now) hc hrun
  · intro hu
    refine ⟨?_, attempts_le generation now hrun⟩
    exact Run.Along.of_inv_run (P := Sound)
      (fun _ _ _ hs hu hstep => hs.step ((hs.charges_iff_unslept (hsome hstep)).2 hu) hstep)
      (fun _ _ _ hs hu hstep => (hs.charges_iff_unslept (hsome hstep)).2 hu)
      (sound_start generation now) hu hrun

/-- A dial that hangs for longer than the cap, and one that is answered by a refusal. -/
def hungDial : List TryAction :=
  [.top 0 0 false false false, .dialed 30000 false false, .rebound 30000, .slept 30500,
    .top 30500 30501 false false false, .dialed 30600 true false, .opened 30700 true false,
    .shook 30800 .refused false]

/-- In that loop, every check is right. -/
theorem charges_iff_hung :
    Run.Along step (fun t a => a.Charges t) (start 1 0) hungDial :=
  ((charges_iff (t := ((Run.run step (start 1 0) hungDial).getD (start 1 0))) 1 0 rfl).2
    (by decide)).1

/-- A dial that fails after 100 ms. -/
def refusedDial : List TryAction :=
  [.top 0 0 false false false, .dialed 100 false false, .rebound 100, .slept 600,
    .top 600 600 false false false]

/-- The attempt of 100 ms is charged with the 500 ms of the sleep after it. -/
theorem not_charges : ¬ Run.Along step (fun t a => a.Charges t) (start 1 0) refusedDial := by
  intro hc
  have hlast := (((((hc.2 _ rfl).2 _ rfl).2 _ rfl).2 _ rfl).1 rfl rfl).1
  exact absurd hlast (by decide)

end Trying

end Client
