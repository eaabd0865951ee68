import Wosh.Transfer.Download
import Wosh.Transfer.Upload

set_option relaxedAutoImplicit false
set_option autoImplicit false

/-!
# The patience of a transfer

`supervise`, `await_session_ready` and `Futility` of `wosh-client/src/transfer.rs`, over attempts that
may return anything at any time, while the session goes and comes back: how many attempts in a row
that no outage touched moved nothing, and how many are charged.

## Main definitions

* `Transfer.Watch`, `Transfer.Watch.step` — a transfer as its supervisor sees it, and the session.
* `Transfer.Watch.Fair` — the strikes are the attempts that moved nothing and that no outage touched.
* `Transfer.Watch.Unspoiled` — no attempt that an outage touched returns, with nothing moved, to a
  session that is ready again.
* `Transfer.Upload.Seen`, `Transfer.Download.Seen` — what the supervisor sees of a transfer.

## Main results

* `Transfer.supervisor_fair_iff` — a supervisor is fair in every state exactly along unspoiled steps.
* `Transfer.Upload.run_watched`, `Transfer.Download.run_watched` — every run of an upload or of a
  download is one that the supervisor watches.
* `Transfer.not_alwaysFair` — a download halted by an outage that is over before its sink is flushed.

## Design

An attempt is an environment here: it moves the count it shares, and returns. `touched`, `best`, `clean`
and `gaveUp` record what happened; nothing reads them but the statements.
-/

namespace Transfer

open Tunnel (Bytes)
open Run

/-- The session is up, as `await_session_ready` looks for it. -/
def Session.isReady (s : Session) : Bool :=
  match sessionVerdict s with
  | .ok ready => ready
  | .error _ => false

/-- A transfer as its supervisor sees it. -/
structure Watch where
  session : Session := {}
  shared : Shared := {}
  futility : Futility := {}
  /-- Where the supervisor stands between two attempts; none while one runs. -/
  pause : Option Supervisor := none
  /-- The session was not ready at some time since the attempt began. -/
  touched : Bool := false
  /-- The largest count that a retry has shown. -/
  best : ℕ := 0
  /-- The retries since then that moved nothing, of attempts that no outage touched. -/
  clean : ℕ := 0
  /-- A retry on a session that is ready has ended the transfer. -/
  gaveUp : Bool := false
deriving DecidableEq

/-- What happens next. -/
inductive WatchAction
  | session (s : Session)
  /-- The attempt that runs shares its progress. -/
  | moved (done : ℕ) (total : Option ℕ)
  | cancel
  | drop
  /-- The attempt that runs returns. -/
  | returned (a : Attempt)
  /-- A pause is over. -/
  | rested
  /-- Another transfer begins, once this one is over. -/
  | again
deriving DecidableEq

/-- What the session becomes. -/
def WatchAction.session? : WatchAction → Option Session
  | .session s => some s
  | _ => none

namespace Watch

/-- A transfer begins. -/
def start (session : Session) (shared : Shared) : Watch where
  session := session
  shared := shared
  futility := { mark := shared.done }
  touched := !session.isReady
  best := shared.done

/-- An attempt is retried on a session that is ready: the record of the attempts goes on. -/
def retried (w : Watch) : Watch :=
  if w.best < w.shared.done then { w with best := w.shared.done, clean := 0 }
  else if w.touched then w
  else { w with clean := w.clean + 1 }

/-- The attempt is to be retried, and nobody has asked to stop. -/
def retries (w : Watch) : Attempt → Bool
  | .retry _ => w.shared.stopRequested = none
  | _ => false

/-- What the supervisor comes to. -/
def settle (w : Watch) (r : Supervisor × Shared × Futility) : Watch :=
  { w with shared := r.2.1, futility := r.2.2, pause := some r.1 }

/-- What it comes to over a retry on a session that is ready. -/
def charged (w : Watch) (r : Supervisor × Shared × Futility) : Watch :=
  { w.retried.settle r with gaveUp := r.1 = .finished }

/-- One step. -/
def step (w : Watch) : WatchAction → Option Watch
  | .session s => some { w with session := s, touched := w.touched || !s.isReady }
  | .moved done total =>
    if w.pause ≠ none then none
    else some { w with shared := { w.shared with done := done, total := total } }
  | .cancel => some { w with shared := { w.shared with cancelled := true } }
  | .drop => some { w with shared := { w.shared with dropped := true } }
  | .returned a =>
    if w.pause ≠ none then none
    else
      let r := supervise w.session w.shared w.futility a
      some (if w.retries a = true ∧ w.session.isReady = true then w.charged r else w.settle r)
  | .rested =>
    match w.pause with
    | some .pausing => some { w with pause := none, touched := !w.session.isReady }
    | some (.awaiting reason) =>
      let r := awaitSession w.session w.shared w.futility reason true
      some (if w.session.isReady = true then w.charged r else w.settle r)
    | _ => none
  | .again => if w.pause = some .finished then some (start w.session {}) else none

/-- The strikes are the retries that moved nothing, since one last did, of attempts that no outage
touched; and the transfer is given up only after so many of them. -/
structure Fair (w : Watch) : Prop where
  mark : w.futility.mark = w.best
  strikes : w.futility.strikes = w.clean
  givenUp : w.gaveUp = true → maxFutileReanchors ≤ w.clean

/-- No attempt that an outage touched is retried, with nothing moved, on a session that is ready
again by the time it returns. -/
def Unspoiled (w : Watch) : WatchAction → Prop
  | .returned a => w.pause = none → w.retries a = true → w.session.isReady = true →
    w.touched = true → w.futility.mark < w.shared.done
  | _ => True

instance (w : Watch) : (a : WatchAction) → Decidable (w.Unspoiled a)
  | .returned a => inferInstanceAs (Decidable (w.pause = none → w.retries a = true →
    w.session.isReady = true → w.touched = true → w.futility.mark < w.shared.done))
  | .session _ | .moved _ _ | .cancel | .drop | .rested | .again =>
    inferInstanceAs (Decidable True)

end Watch

/-! ## What a charge does -/

/-- Progress forgives everything. -/
theorem Futility.charge_of_lt {f : Futility} {done : ℕ} (h : f.mark < done) (ready : Bool) :
    f.charge ready done = ({ f with mark := done, strikes := 0 }, false) := by
  unfold Futility.charge
  rw [if_pos h]

/-- Without progress, an interruption that the session was busy with is not charged. -/
theorem Futility.charge_of_not_ready {f : Futility} {done : ℕ} (h : done ≤ f.mark) :
    f.charge false done = (f, false) := by
  unfold Futility.charge
  rw [if_neg (by omega), if_pos rfl]

/-- Any other one is a strike, and the last that there is ends the transfer. -/
theorem Futility.charge_of_ready {f : Futility} {done : ℕ} (h : done ≤ f.mark) :
    f.charge true done =
      ({ f with strikes := f.strikes + 1 }, decide (f.limit ≤ f.strikes + 1)) := by
  unfold Futility.charge
  rw [if_neg (by omega), if_neg (by simp)]

/-- A transfer is given up at the limit. -/
theorem Futility.limit_le_of_charge {f : Futility} {ready : Bool} {done : ℕ}
    (h : (f.charge ready done).2 = true) :
    (f.charge ready done).1.limit ≤ (f.charge ready done).1.strikes := by
  unfold Futility.charge at h ⊢
  split_ifs at h ⊢
  simpa using h

/-- A look at the session charges the retry if it finds the session ready, and leaves the counter
otherwise. -/
theorem awaitSession_futility (session : Session) (sh : Shared) (f : Futility) (reason : String)
    (waited : Bool) :
    (awaitSession session sh f reason waited).2.2 =
      if session.isReady then (f.charge (!waited) sh.done).1 else f := by
  unfold awaitSession Session.isReady
  cases sessionVerdict session with
  | error why => rfl
  | ok ready =>
    cases ready with
    | true =>
      dsimp only
      rw [if_pos rfl]
      split_ifs <;> rfl
    | false =>
      dsimp only
      cases sh.stopRequested <;> rfl

/-- A look that finds the session ready ends the transfer only at the limit. -/
theorem awaitSession_gaveUp {session : Session} {sh : Shared} {f : Futility} {reason : String}
    {waited : Bool} (hready : session.isReady = true)
    (h : (awaitSession session sh f reason waited).1 = .finished) :
    (f.charge (!waited) sh.done).1.limit ≤ (f.charge (!waited) sh.done).1.strikes := by
  unfold awaitSession at h
  unfold Session.isReady at hready
  cases hverdict : sessionVerdict session with
  | error why => simp [hverdict] at hready
  | ok ready =>
    simp only [hverdict] at h hready
    subst hready
    dsimp only at h
    split_ifs at h with hcharge
    exact Futility.limit_le_of_charge hcharge

/-- A look that leaves the supervisor waiting found the session not ready. -/
theorem awaitSession_awaiting {session : Session} {sh : Shared} {f : Futility} {reason reason' : String}
    {waited : Bool} (h : (awaitSession session sh f reason waited).1 = .awaiting reason') :
    session.isReady = false := by
  unfold awaitSession at h
  unfold Session.isReady
  cases hverdict : sessionVerdict session with
  | error why => rfl
  | ok ready =>
    cases ready with
    | true =>
      rw [hverdict] at h
      dsimp only at h
      split_ifs at h
    | false => rfl

/-- Only a retry that nobody stops comes to a look at the session. -/
theorem supervise_futility (w : Watch) (a : Attempt) :
    (supervise w.session w.shared w.futility a).2.2 =
      if w.retries a = true ∧ w.session.isReady = true then
        (w.futility.charge true w.shared.done).1
      else w.futility := by
  cases a with
  | done => rfl
  | failed e => rfl
  | retry reason =>
    simp only [supervise, Watch.retries]
    split
    · rename_i stop hstop
      simp [hstop]
    · rename_i hstop
      rw [awaitSession_futility]
      simp [hstop]

/-- A retry on a session that is ready ends the transfer only at the limit. -/
theorem supervise_gaveUp {w : Watch} {a : Attempt} (ha : w.retries a = true)
    (hready : w.session.isReady = true)
    (h : (supervise w.session w.shared w.futility a).1 = .finished) :
    (w.futility.charge true w.shared.done).1.limit ≤
      (w.futility.charge true w.shared.done).1.strikes := by
  cases a with
  | done => cases ha
  | failed e => cases ha
  | retry reason =>
    simp only [Watch.retries, decide_eq_true_eq] at ha
    simp only [supervise, ha] at h
    exact awaitSession_gaveUp hready h

/-- An attempt after which the supervisor waits found the session not ready. -/
theorem supervise_awaiting {w : Watch} {a : Attempt} {reason : String}
    (h : (supervise w.session w.shared w.futility a).1 = .awaiting reason) :
    w.session.isReady = false := by
  cases a with
  | done => cases h
  | failed e => cases h
  | retry reason' =>
    simp only [supervise] at h
    split at h
    · cases h
    · exact awaitSession_awaiting h

/-! ## The invariant -/

namespace Watch

/-- A fair supervisor, whose record is kept. -/
structure Sound (w : Watch) : Prop extends Fair w where
  limit : w.futility.limit = maxFutileReanchors
  seen : w.session.isReady = false → w.touched = true
  waiting : ∀ reason, w.pause = some (.awaiting reason) → w.touched = true

variable {w w' : Watch}

@[simp] theorem touched_retried (w : Watch) : w.retried.touched = w.touched := by
  unfold retried
  split_ifs <;> rfl

@[simp] theorem session_retried (w : Watch) : w.retried.session = w.session := by
  unfold retried
  split_ifs <;> rfl

/-- What agrees with the record of a retry, is charged for it. -/
theorem Sound.charged (h : w.Sound) {b : Bool} {r : Supervisor × Shared × Futility}
    (hr : r.2.2 = (w.futility.charge b w.shared.done).1)
    (hready : b = true → w.touched = true → w.futility.mark < w.shared.done)
    (hnot : b = false → w.touched = true)
    (hgiven : r.1 = .finished → (w.futility.charge b w.shared.done).1.limit ≤
      (w.futility.charge b w.shared.done).1.strikes)
    (hwaits : ∀ reason, r.1 = .awaiting reason → w.touched = true) :
    (w.charged r).Sound := by
  have hagree : r.2.2.limit = maxFutileReanchors ∧ r.2.2.mark = w.retried.best ∧
      r.2.2.strikes = w.retried.clean := by
    by_cases hmoved : w.futility.mark < w.shared.done
    · have hbest : w.best < w.shared.done := by
        rw [← h.mark]
        exact hmoved
      rw [hr, Futility.charge_of_lt hmoved]
      simp [retried, hbest, h.limit]
    · have hbest : ¬ w.best < w.shared.done := by
        rw [← h.mark]
        exact hmoved
      cases b with
      | true =>
        have htouched : w.touched = false := by
          by_contra hspoiled
          exact hmoved (hready rfl (eq_true_of_ne_false hspoiled))
        rw [hr, Futility.charge_of_ready (by omega)]
        simp [retried, hbest, htouched, h.limit, h.mark, h.strikes]
      | false =>
        rw [hr, Futility.charge_of_not_ready (by omega)]
        simp [retried, hbest, hnot rfl, h.limit, h.mark, h.strikes]
  obtain ⟨hlimit, hmark, hstrikes⟩ := hagree
  refine ⟨⟨hmark, hstrikes, ?_⟩, hlimit, ?_, ?_⟩
  · intro hgaveUp
    have hle := hgiven (by simpa [Watch.charged] using hgaveUp)
    rw [← hr, hlimit, hstrikes] at hle
    exact hle
  · intro hdown
    exact (touched_retried w).trans (h.seen (by simpa [Watch.charged, settle] using hdown))
  · intro reason hreason
    exact (touched_retried w).trans (hwaits reason (by simpa [Watch.charged, settle] using hreason))

/-- What leaves the counter, leaves the record. -/
theorem Sound.settle (h : w.Sound) {r : Supervisor × Shared × Futility}
    (hr : r.2.2 = w.futility) (hwaits : ∀ reason, r.1 = .awaiting reason → w.touched = true) :
    (w.settle r).Sound where
  mark := (congrArg Futility.mark hr).trans h.mark
  strikes := (congrArg Futility.strikes hr).trans h.strikes
  givenUp := h.givenUp
  limit := (congrArg Futility.limit hr).trans h.limit
  seen := h.seen
  waiting := by
    intro reason hreason
    exact hwaits reason (by simpa [Watch.settle] using hreason)

/-- A supervisor that begins is sound. -/
theorem sound_start (session : Session) (shared : Shared) : (start session shared).Sound where
  mark := rfl
  strikes := rfl
  givenUp := by simp [start]
  limit := rfl
  seen := by simp [start]
  waiting := by simp [start]

/-- The return of an attempt, unless it is spoiled, keeps the supervisor sound. -/
theorem Sound.returned (h : w.Sound) {a : Attempt} (hpause : w.pause = none)
    (ha : w.Unspoiled (.returned a)) (hstep : w.step (.returned a) = some w') : w'.Sound := by
  simp only [step, hpause, ne_eq, not_true_eq_false, if_false, Option.some.injEq] at hstep
  subst hstep
  have hfutility := supervise_futility w a
  have hwaits : ∀ reason, (supervise w.session w.shared w.futility a).1 = .awaiting reason →
      w.touched = true := fun reason hreason => h.seen (supervise_awaiting hreason)
  split_ifs at hfutility ⊢ with hretried
  · refine h.charged (b := true) hfutility (fun _ htouched => ?_) (by simp)
      (supervise_gaveUp hretried.1 hretried.2) hwaits
    exact ha hpause hretried.1 hretried.2 htouched
  · exact h.settle hfutility hwaits

/-- Every step that is not spoiled keeps the supervisor sound. -/
theorem Sound.step (h : w.Sound) {a : WatchAction} (ha : w.Unspoiled a)
    (hstep : w.step a = some w') : w'.Sound := by
  cases a with
  | session s =>
    cases hstep
    exact ⟨⟨h.mark, h.strikes, h.givenUp⟩, h.limit, by simp +contextual,
      fun reason hreason => by simp [h.waiting reason hreason]⟩
  | moved done total =>
    simp only [Watch.step] at hstep
    split_ifs at hstep
    cases hstep
    exact ⟨⟨h.mark, h.strikes, h.givenUp⟩, h.limit, h.seen, h.waiting⟩
  | cancel | drop =>
    cases hstep
    exact ⟨⟨h.mark, h.strikes, h.givenUp⟩, h.limit, h.seen, h.waiting⟩
  | returned a =>
    by_cases hpause : w.pause = none
    · exact h.returned hpause ha hstep
    · simp [Watch.step, hpause] at hstep
  | rested =>
    simp only [Watch.step] at hstep
    split at hstep
    · cases hstep
      exact ⟨⟨h.mark, h.strikes, h.givenUp⟩, h.limit, by simp, by simp⟩
    · rename_i reason hpause
      cases hstep
      have htouched := h.waiting reason hpause
      have hfutility := awaitSession_futility w.session w.shared w.futility reason true
      split_ifs at hfutility ⊢ with hready
      · exact h.charged (b := false) hfutility (by simp) (fun _ => htouched)
          (awaitSession_gaveUp hready) fun _ _ => htouched
      · exact h.settle hfutility fun _ _ => htouched
    · cases hstep
  | again =>
    simp only [Watch.step] at hstep
    split_ifs at hstep
    cases hstep
    exact sound_start w.session {}

/-- A spoiled attempt is charged. -/
theorem Sound.not_fair (h : w.Sound) {a : WatchAction} (ha : ¬ w.Unspoiled a) :
    ∃ w', w.step a = some w' ∧ ¬ w'.Fair := by
  cases a with
  | returned a =>
    simp only [Unspoiled, not_forall, Nat.not_lt] at ha
    obtain ⟨hpause, hretries, hready, htouched, hdone⟩ := ha
    refine ⟨_, by simp only [Watch.step, hpause, ne_eq, not_true_eq_false, if_false]; rfl, ?_⟩
    intro hfair
    have hfutility := supervise_futility w a
    rw [if_pos ⟨hretries, hready⟩, Futility.charge_of_ready hdone] at hfutility
    have hstrikes := hfair.strikes
    rw [if_pos ⟨hretries, hready⟩] at hstrikes
    have hclean : w.retried.clean = w.clean := by
      have hbest : ¬ w.best < w.shared.done := by
        rw [← h.mark]
        omega
      simp [retried, hbest, htouched]
    simp only [Watch.charged, Watch.settle, hfutility, hclean, h.strikes] at hstrikes
    omega
  | session s | moved done total | cancel | drop | rested | again => exact absurd trivial ha

end Watch

/-- **An outage is charged to nobody** exactly as long as no attempt that it touched returns, with
nothing moved, to a session that is ready again. As long as none does, the strikes are the attempts
that were retried and moved nothing since one last did, while the session was ready from their
beginning to the charge, and no transfer is given up before there were `MAX_FUTILE_REANCHORS` of
them.

**Proof sketch.** The record agrees with the counter. A look that has to wait is not charged, and
what waits was touched; the first look after an attempt finds the session ready or adds nothing. So
the two part only where the first look finds the session ready after an outage, and then they do. -/
theorem supervisor_fair_iff (session : Session) (shared : Shared) (as : List WatchAction) :
    Along Watch.step Watch.Unspoiled (.start session shared) as ↔
      ∀ bs w, bs <+: as → run Watch.step (.start session shared) bs = some w → w.Fair :=
  along_iff_reached (fun _ h => h.toFair) (fun _ _ _ h ha hstep => h.step ha hstep)
    (fun _ _ h ha => h.not_fair ha) (Watch.sound_start session shared) as

/-! ## Uploads and downloads are watched -/

/-- What a supervisor sees of its transfer. -/
structure Sight where
  session : Session
  shared : Shared
  futility : Futility
  pause : Option Supervisor
deriving DecidableEq

namespace Sight

/-- The attempt shares its progress. -/
def move (o : Sight) (done : ℕ) (total : Option ℕ) : Sight :=
  { o with shared := { o.shared with done := done, total := total } }

/-- The attempt returns. -/
def returns (o : Sight) (a : Attempt) : Sight :=
  let r := supervise o.session o.shared o.futility a
  { o with shared := r.2.1, futility := r.2.2, pause := some r.1 }

/-- The supervisor has waited for the session. -/
def awaits (o : Sight) (reason : String) : Sight :=
  let r := awaitSession o.session o.shared o.futility reason true
  { o with shared := r.2.1, futility := r.2.2, pause := some r.1 }

/-- What a turn of an attempt comes to: it goes on, or it returns. -/
inductive Turn (o : Sight) : Sight → Prop
  | moves (done : ℕ) (total : Option ℕ) : Turn o (o.move done total)
  | returns (done : ℕ) (total : Option ℕ) (a : Attempt) : Turn o ((o.move done total).returns a)

/-- The attempt goes on. -/
theorem Turn.stays (o : Sight) : Turn o o := .moves o.shared.done o.shared.total

/-- The last count that is shared stands. -/
theorem Turn.of_move {o o' : Sight} {done : ℕ} {total : Option ℕ} (h : Turn (o.move done total) o') :
    Turn o o' := by
  cases h with
  | moves done total => exact .moves done total
  | returns done total a => exact .returns done total a

/-- The attempt returns, and shares nothing new. -/
theorem Turn.ends (o : Sight) (a : Attempt) : Turn o (o.returns a) :=
  .returns o.shared.done o.shared.total a

end Sight

namespace Watch

variable {w : Watch} {o : Sight}

/-- What is seen of a watched transfer. -/
def sight (w : Watch) : Sight := ⟨w.session, w.shared, w.futility, w.pause⟩

/-- The supervisor can come to see this, while the session becomes these, one after the other. -/
def Sees (w : Watch) (ss : List Session) (o : Sight) : Prop :=
  ∃ bs w', run step w bs = some w' ∧ w'.sight = o ∧ bs.filterMap WatchAction.session? = ss

theorem sees_self (w : Watch) : w.Sees [] w.sight := ⟨[], w, rfl, rfl, rfl⟩

/-- One action shows it. -/
theorem sees_of_step {b : WatchAction} {w' : Watch} (hstep : w.step b = some w')
    (hsight : w'.sight = o) : w.Sees b.session?.toList o := by
  refine ⟨[b], w', run_cons_eq_some.2 ⟨w', hstep, rfl⟩, hsight, ?_⟩
  cases hb : b.session? <;> simp [hb]

/-- It shows after an action. -/
theorem sees_after {b : WatchAction} {w' : Watch} {ss : List Session} (hstep : w.step b = some w')
    (hb : b.session? = none) (h : w'.Sees ss o) : w.Sees ss o := by
  obtain ⟨bs, w'', hrun, hsight, hss⟩ := h
  refine ⟨b :: bs, w'', run_cons_eq_some.2 ⟨w', hstep, hrun⟩, hsight, ?_⟩
  rw [List.filterMap_cons_none hb, hss]

@[simp]
theorem sight_charged (w : Watch) (r : Supervisor × Shared × Futility) :
    (w.charged r).sight = (w.settle r).sight := by
  simp [sight, charged, settle]

/-- The turn of an attempt is watched. -/
theorem sees_turn (hpause : w.pause = none) (h : Sight.Turn w.sight o) : w.Sees [] o := by
  have hmoves : ∀ done total, w.step (.moved done total) =
      some { w with shared := { w.shared with done := done, total := total } } := by
    intro done total
    simp [step, hpause]
  cases h with
  | moves done total => exact sees_of_step (hmoves done total) rfl
  | returns done total a =>
    refine sees_after (hmoves done total) rfl (sees_of_step (b := .returned a)
      (by simp only [step, hpause, ne_eq, not_true_eq_false, if_false]; rfl) ?_)
    split_ifs
    · rw [sight_charged]
      rfl
    · rfl

/-- So is one that begins after a pause. -/
theorem sees_begins {o' : Sight} (h : w.sight = o) (hpause : o.pause = some .pausing)
    (hturn : Sight.Turn { o with pause := none } o') : w.Sees [] o' := by
  subst h
  have hpausing : w.pause = some .pausing := hpause
  have hbegins : w.step .rested = some { w with pause := none, touched := !w.session.isReady } := by
    simp [step, hpausing]
  exact sees_after hbegins rfl (sees_turn rfl hturn)

/-- So is a wait for the session. -/
theorem sees_awaits {reason : String} (h : w.sight = o) (hpause : o.pause = some (.awaiting reason)) :
    w.Sees [] (o.awaits reason) := by
  subst h
  have hwaiting : w.pause = some (.awaiting reason) := hpause
  refine sees_of_step (b := .rested) (by simp only [step, hwaiting]; rfl) ?_
  split_ifs
  · rw [sight_charged]
    rfl
  · rfl

theorem sees_session (h : w.sight = o) (s : Session) : w.Sees [s] { o with session := s } := by
  subst h
  exact sees_of_step (b := .session s) rfl rfl

theorem sees_cancel (h : w.sight = o) :
    w.Sees [] { o with shared := { o.shared with cancelled := true } } := by
  subst h
  exact sees_of_step (b := .cancel) rfl rfl

theorem sees_drop (h : w.sight = o) :
    w.Sees [] { o with shared := { o.shared with dropped := true } } := by
  subst h
  exact sees_of_step (b := .drop) rfl rfl

end Watch

/-- What the session becomes. -/
def UploadAction.session? : UploadAction → Option Session
  | .session s => some s
  | _ => none

/-- What the session becomes. -/
def DownloadAction.session? : DownloadAction → Option Session
  | .session s => some s
  | _ => none

namespace Upload

variable {source : Bytes} {u u' : Upload}

/-- Where the supervisor of an upload stands. -/
def pause (u : Upload) : Option Supervisor :=
  match u.pc with
  | .between s => some s
  | _ => none

/-- What its supervisor sees of an upload. -/
def sight (u : Upload) : Sight := ⟨u.env.session, u.shared, u.futility, u.pause⟩

/-- What it sees of one whose attempt runs. -/
def running (u : Upload) : Sight := ⟨u.env.session, u.shared, u.futility, none⟩

theorem sight_of_pause (h : u.pause = none) : u.sight = u.running := by
  rw [sight, h]
  rfl

theorem turn_returns (u : Upload) (a : Attempt) : Sight.Turn u.running (u.returns a).sight :=
  .ends _ a

theorem turn_plan (u : Upload) (size : Option ℕ) :
    Sight.Turn u.running (u.plan source size).sight := by
  unfold plan
  split
  · exact turn_returns u _
  · exact .stays _
  · exact .stays _

theorem turn_issueNext {o : Sight} (h : u.running = o) :
    Sight.Turn o (u.issueNext source).sight := by
  subst h
  unfold issueNext
  split_ifs
  · dsimp only
    split
    · exact .stays _
    · exact .stays _
  · exact .stays _

theorem turn_lap {o : Sight} (h : u.running = o) : Sight.Turn o (u.lap source).sight := by
  subst h
  unfold lap
  dsimp only
  split
  · exact .moves _ u.shared.total
  · split
    · exact .moves _ u.shared.total
    · exact .moves _ u.shared.total
    · exact .of_move (turn_issueNext (o := u.running.move _ u.shared.total) rfl)

theorem turn_startLoop {o : Sight} (h : u.running = o) (next : ℕ) :
    Sight.Turn o (u.startLoop source next).sight := by
  subst h
  unfold startLoop
  exact .of_move (turn_lap (o := u.running.move next u.shared.total) rfl)

theorem turn_readTail {o : Sight} (h : u.running = o) (remoteLen tail : ℕ) (got : Bytes) :
    Sight.Turn o (u.readTail remoteLen tail got).sight := by
  subst h
  unfold readTail
  split_ifs
  · exact .stays _
  · exact .stays _

theorem turn_opened (u : Upload) (verify : Option (ℕ × ℕ)) (err : Option Halt) (applied : Bool) :
    Sight.Turn u.running (u.opened source verify err applied).sight := by
  unfold opened
  dsimp only
  split
  · exact .ends _ _
  · refine turn_startLoop ?_ 0
    rfl
  · refine turn_readTail ?_ _ _ []
    rfl

theorem turn_tailRead (u : Upload) (remoteLen tail : ℕ) (got : Bytes) (r : Except Halt Reply) :
    Sight.Turn u.running (u.tailRead remoteLen tail got r).sight := by
  unfold tailRead
  split
  · exact .stays _
  · dsimp only
    split_ifs
    · exact .stays _
    · exact turn_readTail rfl _ _ _
  · exact .stays _
  · exact .stays _
  · exact .stays _

theorem turn_compared (u : Upload) (remoteLen tail : ℕ) (got : Bytes) (r : Except String ℕ) :
    Sight.Turn u.running (u.compared source remoteLen tail got r).sight := by
  unfold compared
  split
  · exact .stays _
  · dsimp only
    split
    · exact .stays _
    · exact turn_startLoop rfl _
    · exact .stays _

theorem turn_sourced (u : Upload) (want : ℕ) (r : Except String ℕ) :
    Sight.Turn u.running (u.sourced source want r).sight := by
  unfold sourced
  split
  · exact .stays _
  · dsimp only
    split_ifs
    · exact .stays _
    · split
      · exact .stays _
      · exact turn_issueNext rfl

/-- A step of an upload is watched. -/
theorem step_watched {a : UploadAction} {w : Watch} (h : w.sight = u.sight)
    (hstep : u.step source a = some u') : w.Sees a.session?.toList u'.sight := by
  have hturns : u.pause = none → Sight.Turn u.running u'.sight → w.Sees [] u'.sight := by
    intro hnone hturn
    rw [← sight_of_pause hnone, ← h] at hturn
    have hpause : w.pause = none := (congrArg Sight.pause h).trans hnone
    exact Watch.sees_turn hpause hturn
  cases a with
  | ensured err =>
    simp only [step] at hstep
    split at hstep
    · cases hstep
    · rename_i hpc
      have hnone : u.pause = none := by simp [pause, not_not.1 hpc]
      refine hturns hnone ?_
      split at hstep
      · cases hstep
        exact turn_returns u _
      · split_ifs at hstep <;> cases hstep
        · exact turn_plan u none
        · exact .stays _
  | statted err sized =>
    simp only [step] at hstep
    split at hstep
    · cases hstep
    · rename_i hpc
      have hnone : u.pause = none := by simp [pause, not_not.1 hpc]
      refine hturns hnone ?_
      split at hstep <;> cases hstep
      · exact turn_returns u _
      · exact turn_plan u _
  | opened err applied =>
    simp only [step] at hstep
    split at hstep <;> cases hstep
    rename_i verify hpc
    exact hturns (by simp [pause, hpc]) (turn_opened u verify err applied)
  | tailRead r =>
    simp only [step] at hstep
    split at hstep <;> cases hstep
    rename_i remoteLen tail got hpc
    exact hturns (by simp [pause, hpc]) (turn_tailRead u remoteLen tail got r)
  | sourced r =>
    simp only [step] at hstep
    split at hstep <;> cases hstep
    · rename_i remoteLen tail got hpc
      exact hturns (by simp [pause, hpc]) (turn_compared u remoteLen tail got r)
    · rename_i want hpc
      exact hturns (by simp [pause, hpc]) (turn_sourced u want r)
  | closed =>
    simp only [step] at hstep
    split at hstep <;> cases hstep
    rename_i a done hpc
    exact hturns (by simp [pause, hpc]) (.returns (done.getD u.shared.done) u.shared.total a)
  | round =>
    simp only [step] at hstep
    split at hstep
    · cases hstep
    · rename_i hpc
      cases hstep
      refine hturns (by simp [pause, not_not.1 hpc]) ?_
      unfold round
      split
      · exact .stays _
      · exact turn_returns u _
  | rested =>
    simp only [step] at hstep
    split at hstep <;> cases hstep
    · rename_i hpc
      exact hturns (by simp [pause, hpc]) (turn_lap rfl)
    · rename_i hpc
      refine Watch.sees_begins h (by simp [sight, pause, hpc]) ?_
      unfold begin
      split
      · exact turn_returns u _
      · exact .stays _
    · rename_i reason hpc
      have hawaits : u.pause = some (.awaiting reason) := by simp [pause, hpc]
      exact Watch.sees_awaits h hawaits
  | apply i =>
    simp only [step] at hstep
    split at hstep
    · split_ifs at hstep
      cases hstep
      exact h ▸ w.sees_self
    · cases hstep
  | answer i resp =>
    simp only [step] at hstep
    split at hstep
    · split_ifs at hstep <;> cases hstep
      · exact h ▸ w.sees_self
      · exact h ▸ w.sees_self
    · cases hstep
  | applyLate i =>
    simp only [step] at hstep
    split at hstep <;> cases hstep
    exact h ▸ w.sees_self
  | die reason | channel s | others n =>
    cases hstep
    exact h ▸ w.sees_self
  | session s =>
    cases hstep
    exact Watch.sees_session h s
  | cancel =>
    cases hstep
    exact Watch.sees_cancel h
  | drop =>
    cases hstep
    exact Watch.sees_drop h
  | again overwrite =>
    simp only [step] at hstep
    split_ifs at hstep with hpc
    cases hstep
    have hover : w.pause = some .finished := (congrArg Sight.pause h).trans (by simp [sight, pause, hpc])
    have hsession : w.session = u.env.session := congrArg Sight.session h
    have hagain : w.step .again = some (.start w.session {}) := by simp [Watch.step, hover]
    refine Watch.sees_after hagain rfl
      (Watch.sees_of_step (b := .moved 0 (some source.length)) rfl ?_)
    simp [Watch.sight, Watch.start, sight, pause, hsession]

end Upload

namespace Download

variable {file : Bytes} {overwrite : Bool} {d d' : Download}

/-- Where the supervisor of a download stands. -/
def pause (d : Download) : Option Supervisor :=
  match d.pc with
  | .between s => some s
  | _ => none

/-- What its supervisor sees of a download. -/
def sight (d : Download) : Sight := ⟨d.env.session, d.shared, d.futility, d.pause⟩

/-- What it sees of one whose attempt runs. -/
def running (d : Download) : Sight := ⟨d.env.session, d.shared, d.futility, none⟩

theorem sight_of_pause (h : d.pause = none) : d.sight = d.running := by
  rw [sight, h]
  rfl

theorem turn_returns {o : Sight} (h : d.running = o) (a : Attempt) :
    Sight.Turn o (d.returns a).sight := by
  subst h
  exact .ends _ a

theorem turn_endLap {o : Sight} (h : d.running = o) : Sight.Turn o d.endLap.sight := by
  subst h
  unfold endLap
  dsimp only
  split
  · exact .stays _
  · split
    · exact .ends _ _
    · exact .stays _

theorem turn_writeNext {o : Sight} (h : d.running = o) : Sight.Turn o d.writeNext.sight := by
  subst h
  unfold writeNext
  split
  · exact .stays _
  · split_ifs
    · exact .stays _
    · exact turn_endLap rfl

theorem turn_lap {o : Sight} (h : d.running = o) : Sight.Turn o d.lap.sight := by
  subst h
  unfold lap
  dsimp only
  split
  · exact .stays _
  · refine turn_writeNext ?_
    rfl

theorem turn_statted (d : Download) (r : Except Halt FileAttrs) :
    Sight.Turn d.running (d.statted file r).sight := by
  unfold statted
  split
  · exact .stays _
  · split_ifs
    · exact .stays _
    · dsimp only
      split
      · exact .stays _
      · exact .moves d.shared.done (some file.length)

theorem turn_anchor (d : Download) (remoteLen : ℕ) :
    Sight.Turn d.running (d.anchor overwrite remoteLen).sight := by
  unfold anchor
  dsimp only
  split
  · exact .stays _
  · exact .stays _
  · exact .of_move (turn_lap (o := d.running.move d.sink.flushed d.shared.total) rfl)

theorem turn_flushed (d : Download) (f : Flush) (err : Option String) :
    Sight.Turn d.running (d.flushed f err).sight := by
  unfold flushed
  dsimp only
  split
  · refine turn_returns ?_ _
    rfl
  · exact turn_returns rfl _
  · exact .stays _

theorem turn_checkpointed (d : Download) (err : Option String) :
    Sight.Turn d.running (d.checkpointed err).sight := by
  unfold checkpointed
  split
  · exact .stays _
  · exact turn_flushed d _ _

theorem turn_wrote (d : Download) (data : Bytes) (err : Option String) :
    Sight.Turn d.running (d.wrote data err).sight := by
  unfold wrote
  split
  · exact .stays _
  · exact .stays _

theorem turn_conclude {o : Sight} (h : d.running = o) (verdict : Except String Unit) :
    Sight.Turn o (d.conclude verdict).sight := by
  unfold conclude
  split
  · exact turn_returns h _
  · split_ifs
    · exact turn_returns h _
    · exact turn_returns h _

theorem turn_noted (d : Download) (n : Note) : Sight.Turn d.running (d.noted n).sight := by
  have hmoved : Download.running { d with shared := { d.shared with done := d.sink.flushed } } =
      d.running.move d.sink.flushed d.shared.total := rfl
  unfold noted
  dsimp only
  split
  · exact .of_move (turn_writeNext hmoved)
  · exact .of_move (turn_endLap hmoved)
  · exact .of_move (turn_returns hmoved _)
  · exact .of_move (turn_conclude hmoved _)
  · exact .of_move (turn_returns hmoved _)

/-- A step of a download is watched. -/
theorem step_watched {a : DownloadAction} {w : Watch} (h : w.sight = d.sight)
    (hstep : d.step file overwrite a = some d') : w.Sees a.session?.toList d'.sight := by
  have hturns : d.pause = none → Sight.Turn d.running d'.sight → w.Sees [] d'.sight := by
    intro hnone hturn
    rw [← sight_of_pause hnone, ← h] at hturn
    have hpause : w.pause = none := (congrArg Sight.pause h).trans hnone
    exact Watch.sees_turn hpause hturn
  cases a with
  | ensured err =>
    simp only [step] at hstep
    split at hstep
    · cases hstep
    · rename_i hpc
      refine hturns (by simp [pause, not_not.1 hpc]) ?_
      split at hstep <;> cases hstep
      · exact turn_returns rfl _
      · exact .stays _
  | opened err =>
    simp only [step] at hstep
    split at hstep
    · cases hstep
    · rename_i hpc
      refine hturns (by simp [pause, not_not.1 hpc]) ?_
      split at hstep <;> cases hstep
      · exact turn_returns rfl _
      · exact .stays _
  | statted r =>
    simp only [step] at hstep
    split at hstep <;> cases hstep
    rename_i hpc
    exact hturns (by simp [pause, not_not.1 hpc]) (turn_statted d r)
  | closed =>
    simp only [step] at hstep
    split at hstep <;> cases hstep
    · rename_i a hpc
      exact hturns (by simp [pause, hpc]) (turn_returns rfl a)
    · rename_i f hpc
      exact hturns (by simp [pause, hpc]) (.stays _)
  | committed =>
    simp only [step] at hstep
    split at hstep <;> cases hstep
    · rename_i remoteLen hpc
      exact hturns (by simp [pause, hpc]) (turn_anchor d remoteLen)
    · rename_i n hpc
      exact hturns (by simp [pause, hpc]) (turn_noted d n)
  | flushed err =>
    simp only [step] at hstep
    split at hstep <;> cases hstep
    · rename_i hpc
      exact hturns (by simp [pause, hpc]) (turn_checkpointed d err)
    · rename_i f _ hpc
      exact hturns (by simp [pause, hpc]) (turn_flushed d f err)
  | wrote err =>
    simp only [step] at hstep
    split at hstep <;> cases hstep
    rename_i data hpc
    exact hturns (by simp [pause, hpc]) (turn_wrote d data err)
  | round =>
    simp only [step] at hstep
    split at hstep
    · cases hstep
    · rename_i hpc
      cases hstep
      refine hturns (by simp [pause, not_not.1 hpc]) ?_
      unfold round
      split
      · exact .stays _
      · exact .stays _
  | rested =>
    simp only [step] at hstep
    split at hstep <;> cases hstep
    · rename_i hpc
      exact hturns (by simp [pause, hpc]) (turn_lap rfl)
    · rename_i hpc
      refine Watch.sees_begins h (by simp [sight, pause, hpc]) ?_
      unfold begin
      split
      · exact turn_returns rfl _
      · exact .stays _
    · rename_i reason hpc
      have hawaits : d.pause = some (.awaiting reason) := by simp [pause, hpc]
      exact Watch.sees_awaits h hawaits
  | answer i reply =>
    simp only [step] at hstep
    split at hstep
    · split_ifs at hstep
      cases hstep
      exact h ▸ w.sees_self
    · cases hstep
  | die reason | channel s | others n =>
    cases hstep
    exact h ▸ w.sees_self
  | session s =>
    cases hstep
    exact Watch.sees_session h s
  | cancel =>
    cases hstep
    exact Watch.sees_cancel h
  | drop =>
    cases hstep
    exact Watch.sees_drop h

end Download

section Followed

variable {σ α : Type} (step : σ → α → Option σ) (sight : σ → Sight) (session? : α → Option Session)

/-- A step of a transfer, and what its supervisor sees of it meanwhile: the session becomes for the
one what it becomes for the other. -/
def followed (p : σ × Watch) (x : α × List WatchAction) : Option (σ × Watch) :=
  match step p.1 x.1, run Watch.step p.2 x.2 with
  | some s, some w =>
    if w.sight = sight s ∧ x.2.filterMap WatchAction.session? = (session? x.1).toList then
      some (s, w)
    else none
  | _, _ => none

variable {step sight session?}

/-- Where every step is watched, every run is followed. -/
theorem run_followed
    (hstep : ∀ s a s' (w : Watch), w.sight = sight s → step s a = some s' →
      w.Sees (session? a).toList (sight s'))
    {s s' : σ} {as : List α} {w : Watch} (h : w.sight = sight s) (hrun : run step s as = some s') :
    ∃ xs w', xs.map Prod.fst = as ∧ run (followed step sight session?) (s, w) xs = some (s', w') ∧
      w'.sight = sight s' := by
  induction as generalizing s w with
  | nil =>
    obtain rfl : s = s' := by simpa using hrun
    exact ⟨[], w, rfl, rfl, h⟩
  | cons a as ih =>
    obtain ⟨u, hu, hrest⟩ := run_cons_eq_some.1 hrun
    obtain ⟨bs, v, hbs, hsight, hsessions⟩ := hstep _ _ _ _ h hu
    obtain ⟨xs, w', hxs, hfollowed, hlast⟩ := ih hsight hrest
    refine ⟨(a, bs) :: xs, w', congrArg (a :: ·) hxs, ?_, hlast⟩
    refine run_cons_eq_some.2 ⟨(u, v), ?_, hfollowed⟩
    simp [followed, hu, hbs, hsight, hsessions]

end Followed

/-- Every run of an upload is followed by its supervisor. -/
theorem Upload.run_watched {source : Bytes} {overwrite : Bool} {as : List UploadAction} {u : Upload}
    (h : run (Upload.step source) (.start source overwrite) as = some u) :
    ∃ xs w, xs.map Prod.fst = as ∧
      run (followed (Upload.step source) Upload.sight UploadAction.session?)
        (.start source overwrite, .start {} { total := some source.length }) xs = some (u, w) ∧
      w.sight = u.sight :=
  run_followed (fun _ _ _ _ hsight hstep => Upload.step_watched hsight hstep) rfl h

/-- Every run of a download is. -/
theorem Download.run_watched {file staged : Bytes} {overwrite : Bool} {as : List DownloadAction}
    {d : Download} (h : run (Download.step file overwrite) (.start staged) as = some d) :
    ∃ xs w, xs.map Prod.fst = as ∧
      run (followed (Download.step file overwrite) Download.sight DownloadAction.session?)
        (.start staged, .start {} {}) xs = some (d, w) ∧
      w.sight = d.sight :=
  run_followed (fun _ _ _ _ hsight hstep => Download.step_watched hsight hstep) rfl h

/-- No outage is charged to a download. -/
def AlwaysFair : Prop :=
  ∀ (file staged : Bytes) (overwrite : Bool) (xs : List (DownloadAction × List WatchAction))
    (d : Download) (w : Watch),
    run (followed (Download.step file overwrite) Download.sight DownloadAction.session?)
      (.start staged, .start {} {}) xs = some (d, w) → w.Fair

/-- The transport goes while a download reads. A round halts the attempt, and the transport is back
before the flush of the sink returns. -/
def flushedTooLate : List (DownloadAction × List WatchAction) :=
  [(.ensured none, []), (.opened none, []), (.statted (.ok ⟨true, none⟩), [.moved 0 (some 2)]),
    (.committed, []), (.session { resuming := true }, [.session { resuming := true }]),
    (.round, []), (.session {}, [.session {}]),
    (.flushed none, [.returned (.retry "the transport is reconnecting")])]

theorem not_alwaysFair : ¬ AlwaysFair := by
  intro h
  obtain ⟨d, w, hrun, hstrikes, hclean⟩ : ∃ d w,
      run (followed (Download.step [1, 2] false) Download.sight DownloadAction.session?)
        (.start [], .start {} {}) flushedTooLate = some (d, w) ∧
      w.futility.strikes = 1 ∧ w.clean = 0 :=
    ⟨_, _, rfl, by decide, by decide⟩
  have hfair := (h _ _ _ _ _ _ hrun).strikes
  omega

end Transfer
