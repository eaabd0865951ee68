import Wosh.Lib.Run
import Wosh.Listener.Cases

set_option relaxedAutoImplicit false
set_option autoImplicit false

/-!
# Whether a dead session is attached again

`resume_session` asks whether the session is dead, awaits the write of its reply, and attaches
without asking again; so does `start_session`. A session that ends in between is attached when the
reply is out.

## Main definitions

* `Listener.attaching` — a step that executes `attach`.
* `Listener.settled` — a step that does not end the session while a reply is being written.

## Main results

* `Listener.dead_not_attached` — along settled steps no dead session is attached; a step that is
  not settled leaves a dead session that the success of a write attaches.
* `Listener.not_neverRevived` — a run in which sshd hangs up while a resume is being answered.
-/

namespace Listener

open Tunnel Slots

/-! ## Definitions -/

/-- The task is awaiting the write of its reply. -/
def Task.replies (t : Task) : Bool :=
  match t.pc with
  | .replying _ _ => true
  | _ => false

/-- The step executes `attach`. -/
def attaching (w : World) : Action → Bool
  | .replied k none => (w.tasks[k]?.map Task.replies).getD false
  | _ => false

/-- The step does not end the session while a reply is being written. -/
def settled [Postcard] (w : World) (a : Action) : Bool :=
  match w.step a with
  | some w' => w.st.dead || !w'.st.dead || !w'.tasks.any Task.replies
  | none => true

namespace World

/-- The invariant: no reply of a dead session is being written. -/
def Settled (w : World) : Prop := w.st.dead = true → ∀ t ∈ w.tasks, t.replies = false

variable {w u w' : World} {a : Action}

/-! ## Steps -/

theorem park_tasks (w : World) : w.park.tasks = w.tasks := by
  unfold park
  split_ifs <;> rfl

/-- A task whose reply is being written after a step of a dead session was writing it before. -/
theorem replies_moves (hdead : w.st.dead = true) (hu : w.Moves a u) {t' : Task}
    (ht' : t' ∈ u.tasks) (hreplies : t'.replies = true) : ∃ t ∈ w.tasks, t.replies = true := by
  have hsame : ∀ {v : World}, v.tasks = w.tasks → t' ∈ v.tasks → ∃ t ∈ w.tasks, t.replies = true :=
    fun htasks hmem => ⟨t', htasks ▸ hmem, hreplies⟩
  cases hu with
  | still ha hu =>
    obtain ⟨k, hk⟩ := List.getElem?_of_mem ht'
    obtain ⟨t, ht, hmoved⟩ := hu.task k t' hk
    refine ⟨t, List.mem_of_getElem? ht, ?_⟩
    rcases hmoved.pc with hpc | ⟨out, hdone⟩
    · simpa [Task.replies, hpc] using hreplies
    · simp [Task.replies, hdone] at hreplies
  | takes hB hatt hsend hq =>
    obtain ⟨k, hk⟩ := List.getElem?_of_mem ht'
    obtain ⟨t, ht, rfl⟩ := getElem?_modify_eq_some.1 hk
    exact ⟨t, List.mem_of_getElem? ht, by split_ifs at hreplies <;> exact hreplies⟩
  | finishes hB hatt hsend hq hdead => exact hsame rfl ht'
  | exits hB hatt hdead => exact hsame rfl ht'
  | abandons hB hover => exact hsame rfl ht'
  | putsBack hB hatt => exact hsame rfl ht'
  | fails hB hatt =>
    rw [park_tasks] at ht'
    exact hsame rfl ht'
  | resumes peer received pings dec =>
    rcases List.mem_append.1 ht' with hmem | hmem
    · exact ⟨t', hmem, hreplies⟩
    · obtain rfl := List.mem_singleton.1 hmem
      unfold Task.replies at hreplies
      split at hreplies
      · rename_i hpc
        cases hdead.symm.trans (resumePc_admitted hpc).2.2
      · cases hreplies
  | attaches ht hpc hu =>
    obtain ⟨j, hj⟩ := List.getElem?_of_mem ht'
    rcases hu.task j t' hj with ⟨-, hold⟩ | ⟨-, -, hnot⟩
    · exact ⟨t', List.mem_of_getElem? hold, hreplies⟩
    · unfold Task.replies at hreplies
      split at hreplies
      · rename_i hpc'
        exact absurd hpc' (hnot _ _)
      · cases hreplies
  | lapses ht hdue hclaimed => exact hsame rfl ht'
  | expires ht hdue halive hatt hepoch => exact hsame rfl ht'
  | elapses d => exact hsame rfl ht'

section Steps

variable [Postcard]

theorem replies_step (hdead : w.st.dead = true) (hstep : w.step a = some w') {t' : Task}
    (ht' : t' ∈ w'.tasks) (hreplies : t'.replies = true) : ∃ t ∈ w.tasks, t.replies = true := by
  obtain ⟨u, hu, hafter⟩ := step_cases hstep
  have htasks : w'.tasks = u.tasks := by
    cases hafter with
    | stays => rfl
    | ends ha reason => rfl
    | parks hreporter => exact park_tasks u
  exact replies_moves hdead hu (htasks ▸ ht') hreplies

/-- A settled step leaves no reply of a dead session being written. -/
theorem Settled.step (h : w.Settled) (hsettled : settled w a = true) (hstep : w.step a = some w') :
    w'.Settled := by
  intro hdead' t' ht'
  by_contra hreplies
  rw [Bool.not_eq_false] at hreplies
  by_cases hdead : w.st.dead = true
  · obtain ⟨t, ht, htrue⟩ := replies_step hdead hstep ht' hreplies
    cases (h hdead t ht).symm.trans htrue
  · have hnone : ∀ t ∈ w'.tasks, t.replies = false := by
      simpa [settled, hstep, hdead, hdead'] using hsettled
    cases (hnone t' ht').symm.trans hreplies

/-- A dead session whose replies are all written is not attached. -/
theorem Settled.detached_step (h : w.Settled) (hdead : w.st.dead = true)
    (hatt : w.st.attached = false) (hstep : w.step a = some w') : w'.st.attached = false := by
  obtain ⟨u, hu, hafter⟩ := step_cases hstep
  have hu' : u.st.attached = false := by
    cases hu with
    | still ha hu =>
      rw [hu.only]
      exact hatt
    | takes hB hatt' hsend hq => exact hatt
    | finishes hB hatt' hsend hq hdead => rfl
    | exits hB hatt' hdead => exact hatt
    | abandons hB hover => exact hatt
    | putsBack hB hatt' => exact hatt
    | fails hB hatt' => cases hatt.symm.trans hatt'
    | resumes peer received pings dec => exact hatt
    | attaches ht hpc hu =>
      have hnot := h hdead _ (List.mem_of_getElem? ht)
      simp [Task.replies, hpc] at hnot
    | lapses ht hdue hclaimed => exact hatt
    | expires ht hdue halive hatt' hepoch => exact hatt
    | elapses d => exact hatt
  cases hafter with
  | stays => exact hu'
  | ends ha reason => exact hu'
  | parks hreporter =>
    unfold park
    split_ifs
    · exact hu'
    · exact hu'
    · rfl

/-- A step that is not settled ends the session while the reply of a task is being written; if the
write succeeds, the task attaches. -/
theorem attaching_of_not_settled (hsettled : settled w a = false) (hstep : w.step a = some w') :
    w'.st.dead = true ∧
      ∃ k v, attaching w' (.replied k none) = true ∧ w'.step (.replied k none) = some v := by
  simp only [settled, hstep, Bool.or_eq_false_iff, Bool.not_eq_false'] at hsettled
  obtain ⟨⟨-, hdead⟩, hany⟩ := hsettled
  obtain ⟨t, ht, hreplies⟩ := List.any_eq_true.1 hany
  obtain ⟨k, hk⟩ := List.getElem?_of_mem ht
  refine ⟨hdead, k, ?_⟩
  have hpc : ∃ fresh tail, t.pc = .replying fresh tail := by
    unfold Task.replies at hreplies
    split at hreplies
    · exact ⟨_, _, ‹_›⟩
    · cases hreplies
  obtain ⟨fresh, tail, hpc⟩ := hpc
  refine ⟨w'.attachTask k t fresh tail, ?_, ?_⟩
  · simp [attaching, hk, hreplies]
  · simp [World.step, hk, hpc]

end Steps

end World

/-! ## Runs -/

section Runs

variable [Postcard]

/-- **A dead session is never attached again**, as long as it does not end while the reply of a
start or a resume is being written: along a run of settled steps, no step of a dead session
executes `attach` and none attaches it. A step that is not settled leaves a dead session that
executes `attach` if the write succeeds.

**Proof sketch.** A session that is dead refuses resumes, so the replies that are being written
when it is dead were being written when it ended. -/
theorem dead_not_attached {id : SessionId} {creator : String} {grace : ℕ} {reg : Registry}
    {pings : Bool} {dec : Bytes} {as : List Action} {w : World}
    (hrun : Run.run World.step (World.start id creator grace reg pings dec) as = some w) :
    (Run.Along World.step (fun w a => settled w a = true)
        (World.start id creator grace reg pings dec) as →
      ∀ a w', w.st.dead = true → w.step a = some w' →
        attaching w a = false ∧ (w.st.attached = false → w'.st.attached = false)) ∧
    (∀ a w', w.step a = some w' → settled w a = false →
      w'.st.dead = true ∧
        ∃ k v, attaching w' (.replied k none) = true ∧ w'.step (.replied k none) = some v) := by
  refine ⟨fun hsettled a w' hdead hstep => ?_, fun a w' hstep hnot =>
    World.attaching_of_not_settled hnot hstep⟩
  have h : w.Settled :=
    Run.run_inv (P := World.Settled) (fun _ _ _ h hC hs => h.step hC hs)
      (fun hdead => by cases hdead) hsettled hrun
  refine ⟨?_, fun hatt => h.detached_step hdead hatt hstep⟩
  by_contra hattaching
  rw [Bool.not_eq_false] at hattaching
  unfold attaching at hattaching
  split at hattaching
  · rename_i k
    cases ht : w.tasks[k]? with
    | none => simp [ht] at hattaching
    | some t =>
      rw [ht, Option.map_some, Option.getD_some] at hattaching
      cases (h hdead t (List.mem_of_getElem? ht)).symm.trans hattaching
  · cases hattaching

/-- No dead session is attached, as it should be. -/
def NeverRevived : Prop :=
  ∀ (id : SessionId) (creator : String) (grace : ℕ) (reg : Registry) (pings : Bool) (dec : Bytes)
    (as : List Action) (a : Action) (w w' : World),
    Run.run World.step (World.start id creator grace reg pings dec) as = some w →
    w.st.dead = true → w.step a = some w' →
    attaching w a = false ∧ (w.st.attached = false → w'.st.attached = false)

end Runs

/-- A client resumes, sshd hangs up before the reply is out, and pump B ends the stream of the old
attachment for good. -/
def hangUpWhileReplying : List Action :=
  [.replied 0 none, .pollA, .resume "client" 0 true [], .readA [] .dropped false, .pollB]

/-- The reply is out: the dead session is attached. -/
theorem not_neverRevived : ¬ @NeverRevived Postcard.golden := by
  intro h
  have hrun : ∃ w w', @Run.run _ _ (@World.step Postcard.golden)
      (World.start sampleId "client" 60 {} true []) hangUpWhileReplying = some w ∧
      @World.step Postcard.golden w (.replied 1 none) = some w' ∧
      w.st.dead = true ∧ attaching w (.replied 1 none) = true := ⟨_, _, rfl, rfl, by decide⟩
  obtain ⟨w, w', hw, hstep, hdead, hattaching⟩ := hrun
  have hnot := (h sampleId "client" 60 {} true [] hangUpWhileReplying _ w w' hw hdead hstep).1
  cases hnot.symm.trans hattaching

/-- A client resumes, and sshd hangs up after the reply is out. -/
def hangUpAfterReply : List Action :=
  [.replied 0 none, .pollA, .resume "client" 0 true [], .replied 1 none, .readA [] .dropped false,
    .pollB]

/-- Along it the session stays detached: the writer has ended its stream, and its client goes. -/
theorem dead_not_attached_hangUp :
    ∃ w w', @Run.run _ _ (@World.step Postcard.golden)
        (World.start sampleId "client" 60 {} true []) hangUpAfterReply = some w ∧
      @World.step Postcard.golden w (.read 1 .eof) = some w' ∧ w.st.dead = true ∧
      w'.st.attached = false := by
  refine ⟨_, _, rfl, rfl, by decide, ?_⟩
  have h := @dead_not_attached Postcard.golden sampleId "client" 60 {} true [] hangUpAfterReply _ rfl
  exact (h.1 (by decide) (.read 1 .eof) _ (by decide) rfl).2 (by decide)

end Listener
