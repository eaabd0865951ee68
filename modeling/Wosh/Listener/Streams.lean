import Wosh.Listener.ToSshd
import Wosh.Listener.Revival
import Wosh.Listener.Traffic

set_option relaxedAutoImplicit false
set_option autoImplicit false

/-!
# What a step does to the streams of a listener

A client sees of a session what its task's stream carries: the reply, which is fixed when the task is
made, and the frames of pump B after it. The task takes what it reads in the order in which it
arrives.

## Main definitions

* `Listener.Task.reply` — the reply that a new task is about to write.
* `Listener.Task.Went` — what a step makes of a task.

## Main results

* `Listener.World.went_step` — every task after a step is new, or was one of the old.
* `Listener.World.sshd_step` — what was read from sshd stays read.
* `Listener.ToSshd.refuse` — a resume that is refused leaves the stream to sshd alone.
-/

namespace Listener

open Tunnel Slots

/-- The reply that a task is about to write: of a new session, of a resume, or of a refusal. -/
def Task.reply (id : SessionId) (t : Task) : HelloReply :=
  match t.pc with
  | .replying false _ => .resumed (UInt64.ofNat t.received)
  | .refusing reason _ _ => .refused reason
  | _ => .new id

/-- What a step makes of task `k`: it may have been written to, and may have read. -/
structure Task.Went (a : Action) (k : ℕ) (t t' : Task) : Prop where
  resumeFrom : t'.resumeFrom = t.resumeFrom
  received : t'.received = t.received
  wire : t.wire <+: t'.wire
  arrived : t'.arrived = t.arrived ∨ ∃ b, a = .read k (.chunk b) ∧ t'.arrived = t.arrived ++ b

theorem Task.Went.refl (a : Action) (k : ℕ) (t : Task) : t.Went a k t :=
  ⟨rfl, rfl, List.prefix_refl _, .inl rfl⟩

namespace World

/-- Every task of the second world is one of the first. -/
def Wents (w : World) (a : Action) (w' : World) : Prop :=
  w'.tasks.length = w.tasks.length ∧ ∀ (k : ℕ) (t' : Task), w'.tasks[k]? = some t' →
    ∃ t, w.tasks[k]? = some t ∧ t.Went a k t'

variable {w u w' : World} {a : Action} {k : ℕ} {t t' : Task}

theorem wents_of_eq (h : w'.tasks = w.tasks) : w.Wents a w' :=
  ⟨by rw [h], fun _ _ ht => ⟨_, h ▸ ht, .refl _ _ _⟩⟩

/-- A task moves on. -/
theorem wents_set (ht : w.tasks[k]? = some t) (h : w'.tasks = w.tasks.set k t')
    (hwent : t.Went a k t') : w.Wents a w' := by
  refine ⟨by rw [h, List.length_set], fun j v hv => ?_⟩
  rw [h] at hv
  rcases getElem?_set_eq_some hv with ⟨rfl, rfl⟩ | ⟨-, hj⟩
  · exact ⟨t, ht, hwent⟩
  · exact ⟨_, hj, .refl _ _ _⟩

/-- And its session is parked. -/
theorem Wents.park (h : w.Wents a u) : w.Wents a u.park := by
  unfold Wents
  rw [park_tasks]
  exact h

/-- A task returns. -/
theorem wents_done (ht : w.tasks[k]? = some t) (out : Except String String)
    (h : w'.tasks = w.tasks.set k { t with pc := .done out }) : w.Wents a w' :=
  wents_set ht h ⟨rfl, rfl, List.prefix_refl _, .inl rfl⟩

variable [Postcard]

/-- Pump D applies what its decoder holds. -/
theorem wents_drainReader {v : World} {g : ℕ} (ht : w.tasks[k]? = some t)
    (hset : ∀ u : Task, v.tasks.set k u = w.tasks.set k u) (hfrom : t'.resumeFrom = t.resumeFrom)
    (hreceived : t'.received = t.received) (hwire : t'.wire = t.wire)
    (harrived : t'.arrived = t.arrived ∨
      ∃ b, a = .read k (.chunk b) ∧ t'.arrived = t.arrived ++ b) :
    w.Wents a (v.drainReader k t' g) := by
  have hwent : ∀ u : Task, u.resumeFrom = t'.resumeFrom → u.received = t'.received →
      u.wire = t'.wire → u.arrived = t'.arrived → t.Went a k u := fun u hf hr hw ha =>
    ⟨hf.trans hfrom, hr.trans hreceived, by rw [hw, hwire], by rw [ha]; exact harrived⟩
  unfold drainReader
  dsimp only
  split
  · exact Wents.park (wents_set ht (hset _) (hwent _ rfl rfl rfl rfl))
  · exact Wents.park (wents_set ht (hset _) (hwent _ rfl rfl rfl rfl))
  · exact wents_set ht (hset _) (hwent _ rfl rfl rfl rfl)

/-- A read of pump D returns. -/
theorem wents_readClient {g : ℕ} (ht : w.tasks[k]? = some t) (r : ReadResult) :
    w.Wents (.read k r) (w.readClient k t g r) := by
  unfold readClient
  dsimp only
  by_cases hgen : w.st.generation ≠ g
  · rw [if_pos hgen]
    exact wents_done ht _ rfl
  · rw [if_neg hgen]
    cases r with
    | chunk b => exact wents_drainReader ht (fun _ => rfl) rfl rfl rfl (.inr ⟨b, rfl, rfl⟩)
    | eof | failed =>
      dsimp only
      split_ifs
      · exact wents_done ht _ rfl
      · exact (wents_done ht _ rfl).park

/-- Every task after a step that is no resume was there before. -/
theorem went_step (ha : ∀ peer received pings dec, a ≠ .resume peer received pings dec)
    (hstep : w.step a = some w') : w.Wents a w' := by
  cases a with
  | pollA =>
    simp only [step] at hstep
    split_ifs at hstep <;> cases hstep <;> exact wents_of_eq rfl
  | readA buf result refused =>
    simp only [step, Option.ite_none_right_eq_some] at hstep
    obtain ⟨-, heq⟩ := hstep
    cases heq
    refine wents_of_eq ?_
    unfold readSshd
    dsimp only
    split_ifs
    · rfl
    · cases result <;> rfl
    · cases result <;> rfl
  | pollB =>
    simp only [step, Option.ite_none_right_eq_some] at hstep
    have hjob := takeJob_cases hstep.1 hstep.2
    cases hjob with
    | still ha hs => exact absurd ha (by simp [Action.passive])
    | takes hB hatt hsend hq =>
      rename_i b q k
      refine ⟨List.length_modify _ _ _, fun j v hv => ?_⟩
      obtain ⟨t, ht, rfl⟩ := getElem?_modify_eq_some.1 hv
      refine ⟨t, ht, ?_⟩
      split_ifs
      · exact ⟨rfl, rfl, List.prefix_append _ _, .inl rfl⟩
      · exact .refl _ _ _
    | finishes hB hatt hsend hq hdead => exact wents_of_eq rfl
    | exits hB hatt hdead => exact wents_of_eq rfl
  | wroteB ok =>
    simp only [step] at hstep
    split at hstep
    · cases hstep
      unfold wroteClient
      dsimp only
      split_ifs
      · exact wents_of_eq rfl
      · exact wents_of_eq rfl
      · exact (wents_of_eq rfl : w.Wents _ { w with pumpB := .polling }).park
    · cases hstep
  | pollC =>
    simp only [step, Option.ite_none_right_eq_some] at hstep
    obtain ⟨q, pc, rfl⟩ := takeInbound_cases hstep.2
    exact wents_of_eq rfl
  | wroteC n =>
    simp only [step] at hstep
    split at hstep
    · cases hstep
      unfold wroteSshd
      dsimp only
      split_ifs <;> exact wents_of_eq rfl
    · cases hstep
  | resume peer received pings dec => exact absurd rfl (ha peer received pings dec)
  | replied k err =>
    simp only [step] at hstep
    split at hstep
    · cases hstep
    · rename_i t ht
      split at hstep
      · cases hstep
        exact wents_done ht _ rfl
      · rename_i fresh tail hpc
        cases hstep
        refine wents_drainReader ht (fun v => ?_) rfl rfl rfl (.inl rfl)
        cases fresh <;> exact List.set_set _
      · cases hstep
  | refused k =>
    simp only [step] at hstep
    split at hstep
    · cases hstep
    · rename_i t ht
      split at hstep
      · cases hstep
        split_ifs <;> exact wents_done ht _ rfl
      · cases hstep
  | read k r =>
    simp only [step] at hstep
    split at hstep
    · cases hstep
    · rename_i t ht
      split at hstep
      · cases hstep
        exact wents_readClient ht r
      · cases hstep
  | fire i =>
    simp only [step] at hstep
    split at hstep
    · cases hstep
    · split_ifs at hstep
      cases hstep
      unfold expire
      split_ifs <;> exact wents_of_eq rfl
  | elapse d =>
    cases hstep
    exact wents_of_eq rfl
  | otherEnded id reason =>
    simp only [step] at hstep
    split_ifs at hstep
    cases hstep
    exact wents_of_eq rfl

/-- **What was read from sshd stays read.** -/
theorem sshd_step (hstep : w.step a = some w') : w.sshd <+: w'.sshd := by
  cases traffic_cases hstep with
  | quiet hq => rw [hq.sshd]
  | polls hA hp => exact List.prefix_refl _
  | reads hA =>
    rename_i buf result refused
    unfold readSshd
    dsimp only
    split_ifs
    · exact List.prefix_append _ _
    · cases result <;> exact List.prefix_refl _
    · cases result <;> exact List.prefix_append _ _
  | writes hsend hq => exact List.prefix_refl _
  | resumes peer received pings dec => exact List.prefix_refl _
  | attaches ht hpc hq =>
    rename_i k t fresh tail
    rw [hq.sshd]
    cases fresh <;> exact List.prefix_refl _

end World

/-- A resume that is refused leaves the stream to sshd alone. -/
theorem ToSshd.refuse [Postcard] {o : Bytes} {w : World} (h : ToSshd o none w) {t : Task}
    {reason : String} {gap : Bool} {err : String} (hpc : t.pc = .refusing reason gap err) :
    ToSshd o none { w with tasks := w.tasks ++ [t] } where
  pushed_isPrefix := h.pushed_isPrefix
  received_eq := h.received_eq
  queued := h.queued
  written := h.written
  fresh k u tail hu hup := by
    rcases getElem?_concat_eq_some.1 hu with hu | ⟨-, rfl⟩
    · exact h.fresh k u tail hu hup
    · cases hpc.symm.trans hup
  replying u hu fresh tail hup := by
    rcases List.mem_append.1 hu with hu | hu
    · exact h.replying u hu fresh tail hup
    · obtain rfl := List.mem_singleton.1 hu
      cases hpc.symm.trans hup
  reading_le k u g hu hup := by
    rcases getElem?_concat_eq_some.1 hu with hu | ⟨-, rfl⟩
    · exact h.reading_le k u g hu hup
    · cases hpc.symm.trans hup
  reading k u g hskip hu hup hg := by
    rcases getElem?_concat_eq_some.1 hu with hu | ⟨-, rfl⟩
    · obtain ⟨hlast, hjoined, hrest⟩ := h.reading k u g hskip hu hup hg
      exact ⟨hlast, hjoined, hrest⟩
    · cases hpc.symm.trans hup

end Listener
