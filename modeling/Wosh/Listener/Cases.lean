import Wosh.Lib.Slots
import Wosh.Listener.Session

set_option relaxedAutoImplicit false
set_option autoImplicit false

/-!
# What a step of a session can do to its attachment

A session is attached, parked or over, and that is decided by a few fields of the shared state,
by pump B, by the grace timers and by the tasks whose replies are being written. A step of the
session leaves these alone, or moves them in one of a few ways, and may end or park the session
after that. Each invariant of the attachment is derived from these cases.

## Main definitions

* `Listener.World.Still` — nothing of the attachment moved.
* `Listener.World.Attaches` — a task's streams became the session's.
* `Listener.World.Moves`, `Listener.World.After` — the cases of a step, and of what follows it.

## Main results

* `Listener.World.step_cases` — every step is one of them.
* `Listener.World.registered_step` — a session that ends is no longer registered.
-/

namespace Listener

open Tunnel Slots

/-- Session bytes and acknowledgements moved, and nothing else. -/
def SessionState.Carries (st st' : SessionState) : Prop :=
  st' = { st with
    replay := st'.replay
    received := st'.received
    ackedOut := st'.ackedOut
    outq := st'.outq
    inq := st'.inq
    pushed := st'.pushed }

/-- Where a task may be after a step of action `a` that attaches no task: where it was, or
returned. It leaves the write of its reply with an error. -/
structure Task.Moved (a : Action) (k : ℕ) (t t' : Task) : Prop where
  peer : t'.peer = t.peer
  pc : t'.pc = t.pc ∨ ∃ out, t'.pc = .done out
  replying : ∀ fresh tail, t.pc = .replying fresh tail →
    t'.pc = t.pc ∨ ∃ e, a = .replied k (some e)

/-- The actions that by themselves move nothing of the attachment: those of pumps A, C and D, and
of a task that does not attach. -/
def Action.passive : Action → Bool
  | .pollA | .readA _ _ _ | .pollC | .wroteC _ | .replied _ (some _) | .refused _ | .read _ _
  | .otherEnded _ _ => true
  | _ => false

namespace World

/-- Nothing of the attachment moved in a step of action `a`. -/
structure Still (a : Action) (w w' : World) : Prop where
  /-- What may have changed. -/
  only : w' = { w with
    st := { w.st with
      replay := w'.st.replay
      received := w'.st.received
      ackedOut := w'.st.ackedOut
      outq := w'.st.outq
      inq := w'.st.inq
      pushed := w'.st.pushed }
    reg := w'.reg
    pumpA := w'.pumpA
    pumpC := w'.pumpC
    tasks := w'.tasks
    sshd := w'.sshd
    recorded := w'.recorded
    toSshd := w'.toSshd }
  live : w'.reg.live ⊆ w.reg.live
  tasks_length : w'.tasks.length = w.tasks.length
  task : ∀ (k : ℕ) (t' : Task), w'.tasks[k]? = some t' → ∃ t, w.tasks[k]? = some t ∧ t.Moved a k t'

/-- Task `k`, which is `t`, attached: its streams are the session's, of a new generation. -/
structure Attaches (k : ℕ) (t : Task) (fresh : Bool) (w w' : World) : Prop where
  /-- What may have changed. -/
  only : w' = { w with
    st := { w.st with
      replay := w'.st.replay
      received := w'.st.received
      ackedOut := w'.st.ackedOut
      outq := w'.st.outq
      inq := w'.st.inq
      pushed := w'.st.pushed
      send := some k
      conn := some k
      attached := true
      generation := w.st.generation + 1
      last := some k }
    pumpA := w'.pumpA
    pumpB := if fresh then .polling else w.pumpB
    pumpC := w'.pumpC
    tasks := w'.tasks }
  tasks_length : w'.tasks.length = w.tasks.length
  task : ∀ (j : ℕ) (t' : Task), w'.tasks[j]? = some t' →
    (j ≠ k ∧ w.tasks[j]? = some t') ∨
      (j = k ∧ t'.peer = t.peer ∧ ∀ fresh tail, t'.pc ≠ .replying fresh tail)

/-- The generation of the attachment whose loss a step may report: the one pump B wrote to, the
one a reader belongs to, or the one a task is about to make. -/
def reporter (w : World) : Action → Option ℕ
  | .wroteB _ =>
    match w.pumpB with
    | .writing _ g _ => some g
    | _ => none
  | .replied _ none => some (w.st.generation + 1)
  | .read k _ =>
    match w.tasks[k]? with
    | some t =>
      match t.pc with
      | .reading g => some g
      | _ => none
    | none => none
  | _ => none

/-- What a step can do to the attachment. -/
inductive Moves (w : World) : Action → World → Prop
  | still {a : Action} {u : World} (ha : a.passive = true) (h : w.Still a u) : Moves w a u
  /-- Pump B takes the stream and a frame. -/
  | takes {b : Bytes} {q : List Bytes} {k : ℕ} (hB : w.pumpB = .polling)
      (hatt : w.st.attached = true) (hsend : w.st.send = some k) (hq : w.st.outq = b :: q) :
      Moves w .pollB { w with
        st := { w.st with send := none, outq := q }
        pumpB := .writing b w.st.generation k
        tasks := w.tasks.modify k fun t => { t with wire := t.wire ++ [b] } }
  /-- It ends the stream of a session that is over. -/
  | finishes {k : ℕ} (hB : w.pumpB = .polling) (hatt : w.st.attached = true)
      (hsend : w.st.send = some k) (hq : w.st.outq = []) (hdead : w.st.dead = true) :
      Moves w .pollB { w with
        st := { w.st with send := none, attached := false, conn := none }
        pumpB := .done }
  | exits (hB : w.pumpB = .polling) (hatt : w.st.attached = false) (hdead : w.st.dead = true) :
      Moves w .pollB { w with pumpB := .done }
  /-- Its write was superseded. -/
  | abandons {b : Bytes} {g k : ℕ} {ok : Bool} (hB : w.pumpB = .writing b g k)
      (hover : w.st.generation ≠ g ∨ w.st.attached = false) :
      Moves w (.wroteB ok) { w with pumpB := .polling }
  | putsBack {b : Bytes} {k : ℕ} (hB : w.pumpB = .writing b w.st.generation k)
      (hatt : w.st.attached = true) :
      Moves w (.wroteB true) { w with st := { w.st with send := some k }, pumpB := .polling }
  | fails {b : Bytes} {k : ℕ} (hB : w.pumpB = .writing b w.st.generation k)
      (hatt : w.st.attached = true) : Moves w (.wroteB false) { w with pumpB := .polling }.park
  | resumes (peer : String) (received : ℕ) (pings : Bool) (dec : Bytes) :
      Moves w (.resume peer received pings dec)
        { w with tasks := w.tasks ++ [w.resumeSession peer received pings dec] }
  | attaches {k : ℕ} {t : Task} {fresh : Bool} {tail : Bytes} {u : World}
      (ht : w.tasks[k]? = some t) (hpc : t.pc = .replying fresh tail)
      (h : w.Attaches k t fresh u) : Moves w (.replied k none) u
  /-- A grace timer finds the session claimed, parked anew or over. -/
  | lapses {i : ℕ} {timer : Timer} (ht : w.timers[i]? = some timer) (hdue : timer.due ≤ w.now)
      (hclaimed : ¬ (w.st.dead = false ∧ w.st.attached = false ∧ w.st.parkEpoch = timer.epoch)) :
      Moves w (.fire i) { w with timers := w.timers.eraseIdx i }
  | expires {i : ℕ} {timer : Timer} (ht : w.timers[i]? = some timer) (hdue : timer.due ≤ w.now)
      (halive : w.st.dead = false) (hatt : w.st.attached = false)
      (hepoch : w.st.parkEpoch = timer.epoch) :
      Moves w (.fire i) ({ w with timers := w.timers.eraseIdx i }.endSession "session ended")
  | elapses (d : ℕ) : Moves w (.elapse d) { w with now := w.now + d }

/-- What may follow within the same step: the session ends, or the task that made the step parks
it, on behalf of the attachment that is the current one. -/
inductive After (w : World) (a : Action) (u : World) : World → Prop
  | stays : After w a u u
  | ends (ha : a.passive = true) (reason : String) : After w a u (u.endSession reason)
  | parks (hreporter : w.reporter a = some u.st.generation) : After w a u u.park

end World

/-! ## The pieces -/

namespace SessionState

variable {st st' st'' : SessionState}

theorem Carries.refl (st : SessionState) : st.Carries st := rfl

theorem Carries.trans (h : st.Carries st') (h' : st'.Carries st'') : st.Carries st'' := by
  unfold Carries at *
  rw [h'] at *
  rw [h]

/-- A change of the traffic only, of each part to what it became. -/
theorem Carries.of_eq {replay : Replay} {received ackedOut : ℕ} {outq inq : List Bytes}
    {pushed : Bytes} (h : st' = { st with
      replay := replay, received := received, ackedOut := ackedOut, outq := outq, inq := inq
      pushed := pushed }) : st.Carries st' := by
  subst h
  rfl

end SessionState

/-- A frame only moves session bytes and acknowledgements. -/
theorem applyFrame_carries (pings : Bool) (st : SessionState) (f : Frame) :
    st.Carries (applyFrame pings st f).1 := by
  cases f <;> unfold applyFrame
  case data payload =>
    simp only
    split_ifs <;> exact .of_eq rfl
  case ack n => exact .of_eq rfl
  case ping p => split_ifs <;> exact .of_eq rfl
  case pong p => split_ifs <;> exact .of_eq rfl
  all_goals exact .of_eq rfl

/-- So do any number of them. -/
theorem applyFrames_carries (pings : Bool) (fs : List Frame) (st : SessionState) :
    st.Carries (applyFrames pings st fs).1 := by
  induction fs generalizing st with
  | nil => exact .refl st
  | cons f fs ih =>
    have hf := applyFrame_carries pings st f
    unfold applyFrames
    split
    · rename_i st' n e heq
      rw [heq] at hf
      exact hf
    · rename_i st' n heq
      rw [heq] at hf
      exact hf.trans (ih st')

theorem Task.Moved.refl (a : Action) (k : ℕ) (t : Task) : t.Moved a k t :=
  ⟨rfl, .inl rfl, fun _ _ _ => .inl rfl⟩

namespace World

variable {w u w' : World} {a : Action} {k : ℕ} {t : Task}

/-- A change that the attachment has no part in, with the tasks left alone. -/
theorem Still.of_eq {st : SessionState} {reg : Registry} {pumpA : PumpA} {pumpC : PumpC}
    {sshd recorded toSshd : Bytes} (h : w' = { w with
      st := st, reg := reg, pumpA := pumpA, pumpC := pumpC, sshd := sshd, recorded := recorded
      toSshd := toSshd }) (hst : w.st.Carries st) (hlive : reg.live ⊆ w.reg.live) :
    w.Still a w' := by
  subst h
  refine ⟨?_, hlive, rfl, fun _ _ h => ⟨_, h, .refl _ _ _⟩⟩
  dsimp only
  rw [← hst]

/-- A task moves on, with what it moved of the session's bytes. -/
theorem Still.setTask {st : SessionState} {t' : Task} (hst : w.st.Carries st)
    (ht : w.tasks[k]? = some t) (hmoved : t.Moved a k t') :
    w.Still a ({ w with st := st }.setTask k t') where
  only := by
    dsimp only [World.setTask]
    rw [← hst]
  live := fun _ h => h
  tasks_length := List.length_set
  task _ _ h := by
    rcases getElem?_set_eq_some h with ⟨rfl, rfl⟩ | ⟨-, hj⟩
    · exact ⟨t, ht, hmoved⟩
    · exact ⟨_, hj, .refl _ _ _⟩

/-- A read of pump A returns. -/
theorem readSshd_cases (w : World) (buf : Bytes) (result : StreamResult) (refused : Bool)
    {a : Action} (ha : a.passive = true) :
    ∃ u, w.Still a u ∧ w.After a u (w.readSshd buf result refused) := by
  unfold readSshd
  by_cases hrefused : buf ≠ [] ∧ refused = true
  · rw [if_pos hrefused]
    exact ⟨{ w with pumpA := .done, sshd := w.sshd ++ buf },
      .of_eq rfl (.refl _) fun _ h => h, .ends ha _⟩
  · rw [if_neg hrefused]
    dsimp only
    have hrec : ∀ p : PumpA, w.Still a { if buf = [] then w else w.record buf with pumpA := p } := by
      intro p
      split_ifs
      · exact .of_eq rfl (.refl _) fun _ h => h
      · exact .of_eq rfl (.of_eq rfl) fun _ h => h
    cases result with
    | complete => exact ⟨_, hrec .waiting, .stays⟩
    | dropped => exact ⟨_, hrec .done, .ends ha _⟩
    | cancelled => exact ⟨_, hrec .done, .ends ha _⟩

/-- Pump B takes a job. -/
theorem takeJob_cases (hB : w.pumpB = .polling) (h : w.takeJob = some w') :
    w.Moves .pollB w' := by
  unfold takeJob at h
  obtain ⟨⟨job, st⟩, hnext, rfl⟩ := Option.map_eq_some_iff.1 h
  obtain ⟨b, q, k, hatt, hsend, hq, rfl, rfl⟩ | ⟨k, hatt, hsend, hq, hdead, rfl, rfl⟩ |
    ⟨hatt, hdead, rfl, rfl⟩ := nextWriteJob_cases hnext
  · exact .takes hB hatt hsend hq
  · exact .finishes hB hatt hsend hq hdead
  · exact .exits hB hatt hdead

/-- Pump B's write returns. -/
theorem wroteClient_cases {b : Bytes} {g : ℕ} (hB : w.pumpB = .writing b g k) (ok : Bool) :
    w.Moves (.wroteB ok) (w.wroteClient g k ok) := by
  unfold wroteClient
  dsimp only
  by_cases hover : w.st.generation ≠ g ∨ w.st.attached = false
  · rw [if_pos hover]
    exact .abandons hB hover
  · rw [if_neg hover]
    simp only [not_or, not_not, Bool.not_eq_false] at hover
    obtain ⟨rfl, hatt⟩ := hover
    cases ok with
    | true => exact .putsBack hB hatt
    | false => exact .fails hB hatt

/-- A resume that is not refused is one of a live session that is not over, by its creator. -/
theorem resumePc_admitted {peer : String} {received : ℕ} {fresh : Bool} {tail : Bytes}
    (h : w.resumePc peer received = .replying fresh tail) :
    w.id ∈ w.reg.live ∧ w.creator = peer ∧ w.st.dead = false := by
  unfold resumePc at h
  dsimp only at h
  split_ifs at h with hlive hpeer hdead
  exact ⟨hlive, not_not.1 hpeer, by simpa using hdead⟩

section Steps

variable [Postcard]

/-- Pump D applies what its decoder holds: it goes on reading, or returns and parks the session. -/
theorem drainReader_cases (w : World) (k : ℕ) (t : Task) (g : ℕ) :
    ∃ st t', w.st.Carries st ∧ t'.peer = t.peer ∧
      ((t'.pc = .reading g ∧ w.drainReader k t g = { w with st := st }.setTask k t') ∨
        ∃ out, t'.pc = .done out ∧
          w.drainReader k t g = ({ w with st := st }.setTask k t').park) := by
  have hst := applyFrames_carries t.pings (frames t.dec).1 w.st
  unfold drainReader
  dsimp only
  split
  · exact ⟨_, _, hst, by rfl, .inr ⟨_, rfl, rfl⟩⟩
  · exact ⟨_, _, hst, by rfl, .inr ⟨_, rfl, rfl⟩⟩
  · exact ⟨_, _, hst, by rfl, .inl ⟨rfl, rfl⟩⟩

/-- A read of pump D returns. -/
theorem readClient_cases {g : ℕ} (ht : w.tasks[k]? = some t) (hpc : t.pc = .reading g)
    (r : ReadResult) :
    ∃ u, w.Still (.read k r) u ∧ w.After (.read k r) u (w.readClient k t g r) := by
  have hnot : ∀ fresh tail, t.pc ≠ .replying fresh tail := by simp [hpc]
  have hretire : ∀ out, w.Still (.read k r) (w.setTask k { t with pc := .done out }) := fun out =>
    .setTask (.refl _) ht ⟨rfl, .inr ⟨out, rfl⟩, fun f s h => absurd h (hnot f s)⟩
  unfold readClient
  dsimp only
  by_cases hg : w.st.generation ≠ g
  · rw [if_pos hg]
    exact ⟨_, hretire _, .stays⟩
  rw [if_neg hg]
  rw [not_not] at hg
  have hreporter : w.reporter (.read k r) = some w.st.generation := by
    simp only [reporter, ht, hpc, hg]
  cases r with
  | chunk b =>
    dsimp only
    obtain ⟨st, t', hst, hpeer, ⟨hreading, heq⟩ | ⟨out, hdone, heq⟩⟩ :=
      w.drainReader_cases k { t with dec := t.dec ++ b, arrived := t.arrived ++ b } g
    · rw [heq]
      exact ⟨_, .setTask hst ht ⟨hpeer, .inl (hreading.trans hpc.symm),
        fun f s h => absurd h (hnot f s)⟩, .stays⟩
    · rw [heq]
      have hstill : w.Still (.read k (.chunk b)) ({ w with st := st }.setTask k t') :=
        .setTask hst ht ⟨hpeer, .inr ⟨out, hdone⟩, fun f s h => absurd h (hnot f s)⟩
      refine ⟨_, hstill, .parks ?_⟩
      rw [hstill.only]
      exact hreporter
  | eof =>
    dsimp only
    split_ifs
    · exact ⟨_, hretire _, .stays⟩
    · exact ⟨_, hretire _, .parks hreporter⟩
  | failed =>
    dsimp only
    split_ifs
    · exact ⟨_, hretire _, .stays⟩
    · exact ⟨_, hretire _, .parks hreporter⟩

/-- A task whose reply is written attaches, and may park the session at once. -/
theorem attachTask_cases (ht : w.tasks[k]? = some t) (fresh : Bool) (tail : Bytes) :
    ∃ u, w.Attaches k t fresh u ∧ w.After (.replied k none) u (w.attachTask k t fresh tail) := by
  set v : World := if fresh then (w.attach k t tail).spawnSessionTasks else w.attach k t tail
    with hv
  obtain ⟨st, t', hst, hpeer, hcases⟩ :=
    v.drainReader_cases k { t with pc := .reading (w.st.generation + 1) } (w.st.generation + 1)
  have hreply : ∀ fresh tail, t'.pc ≠ .replying fresh tail := by
    rcases hcases with ⟨hpc, -⟩ | ⟨out, hpc, -⟩ <;> simp [hpc]
  have hvst : v.st = (w.attach k t tail).st := by
    cases fresh <;> rfl
  have hattaches : w.Attaches k t fresh ({ v with st := st }.setTask k t') := {
    only := by
      rw [SessionState.Carries, hvst] at hst
      cases fresh <;>
        simp only [hv, setTask, attach, spawnSessionTasks, Bool.false_eq_true, if_true, if_false]
          at hst ⊢ <;>
        rw [← hst]
    tasks_length := by
      cases fresh <;> simp [hv, setTask, attach, spawnSessionTasks]
    task := fun j u hu => by
      have htasks : v.tasks = (w.attach k t tail).tasks := by cases fresh <;> rfl
      simp only [setTask, htasks, attach] at hu
      rcases getElem?_set_eq_some hu with ⟨rfl, rfl⟩ | ⟨hne, hj⟩
      · exact .inr ⟨rfl, hpeer, hreply⟩
      · exact .inl ⟨hne, (getElem?_set_eq_some hj).elim (fun h => absurd h.1 hne) And.right⟩ }
  have hattach : w.attachTask k t fresh tail =
      v.drainReader k { t with pc := .reading (w.st.generation + 1) } (w.st.generation + 1) := rfl
  rw [hattach]
  rcases hcases with ⟨-, heq⟩ | ⟨out, -, heq⟩
  · rw [heq]
    exact ⟨_, hattaches, .stays⟩
  · rw [heq]
    refine ⟨_, hattaches, .parks ?_⟩
    rw [hattaches.only]
    rfl

/-- **The cases of a step.** -/
theorem step_cases (h : w.step a = some w') : ∃ u, w.Moves a u ∧ w.After a u w' := by
  cases a with
  | pollA =>
    simp only [step] at h
    split_ifs at h <;> cases h <;>
      exact ⟨_, .still rfl (.of_eq rfl (.refl _) fun _ h => h), .stays⟩
  | readA buf result refused =>
    simp only [step, Option.ite_none_right_eq_some, Option.some.injEq] at h
    obtain ⟨-, rfl⟩ := h
    obtain ⟨u, hu, hafter⟩ := w.readSshd_cases buf result refused (a := .readA buf result refused) rfl
    exact ⟨u, .still rfl hu, hafter⟩
  | pollB =>
    simp only [step, Option.ite_none_right_eq_some] at h
    exact ⟨_, takeJob_cases h.1 h.2, .stays⟩
  | wroteB ok =>
    simp only [step] at h
    split at h <;> cases h
    rename_i hB
    exact ⟨_, wroteClient_cases hB ok, .stays⟩
  | pollC =>
    simp only [step, Option.ite_none_right_eq_some] at h
    obtain ⟨_, _, rfl⟩ := takeInbound_cases h.2
    exact ⟨_, .still rfl (.of_eq rfl (.of_eq rfl) fun _ h => h), .stays⟩
  | wroteC n =>
    simp only [step] at h
    split at h <;> cases h
    rename_i c _
    unfold wroteSshd
    dsimp only
    split_ifs
    · exact ⟨{ w with toSshd := w.toSshd ++ c.take n, pumpC := .done },
        .still rfl (.of_eq rfl (.refl _) fun _ h => h), .ends rfl _⟩
    · exact ⟨_, .still rfl (.of_eq rfl (.refl _) fun _ h => h), .stays⟩
  | resume peer received pings dec =>
    cases h
    exact ⟨_, .resumes peer received pings dec, .stays⟩
  | replied k err =>
    simp only [step] at h
    split at h
    · cases h
    · rename_i t ht
      split at h
      · rename_i e hpc
        cases h
        have hstill : w.Still (.replied k (some e))
            (w.setTask k { t with pc := .done (.error ("hello reply: " ++ e)) }) :=
          .setTask (.refl _) ht ⟨rfl, .inr ⟨_, rfl⟩, fun _ _ _ => .inr ⟨e, rfl⟩⟩
        exact ⟨_, .still rfl hstill, .stays⟩
      · rename_i fresh tail hpc
        cases h
        obtain ⟨u, hu, hafter⟩ := attachTask_cases ht fresh tail
        exact ⟨u, .attaches ht hpc hu, hafter⟩
      · cases h
  | refused k =>
    simp only [step] at h
    split at h
    · cases h
    · rename_i t ht
      split at h
      · rename_i reason gap err hpc
        cases h
        have hstill : w.Still (.refused k) (w.setTask k { t with pc := .done (.error err) }) :=
          .setTask (.refl _) ht ⟨rfl, .inr ⟨_, rfl⟩, fun f s h => by cases hpc.symm.trans h⟩
        split_ifs
        · exact ⟨_, .still rfl hstill, .ends rfl reason⟩
        · exact ⟨_, .still rfl hstill, .stays⟩
      · cases h
  | read k r =>
    simp only [step] at h
    split at h
    · cases h
    · rename_i t ht
      split at h
      · rename_i g hpc
        cases h
        obtain ⟨u, hu, hafter⟩ := readClient_cases ht hpc r
        exact ⟨u, .still rfl hu, hafter⟩
      · cases h
  | fire i =>
    simp only [step] at h
    split at h
    · cases h
    · rename_i timer ht
      split_ifs at h with hdue
      cases h
      unfold expire
      dsimp only
      split_ifs with hexpired
      · obtain ⟨halive, hatt, hepoch⟩ := hexpired
        exact ⟨_, .expires ht hdue halive hatt hepoch, .stays⟩
      · exact ⟨_, .lapses ht hdue hexpired, .stays⟩
  | elapse d =>
    cases h
    exact ⟨_, .elapses d, .stays⟩
  | otherEnded id reason =>
    simp only [step] at h
    split_ifs at h
    cases h
    exact ⟨_, .still rfl (.of_eq rfl (.refl _) (List.filter_subset_self _)), .stays⟩

end Steps

/-! ## What a step leaves of a session's identity -/

/-- The session is the same, the registry has lost entries at most, and if the session is over now
its own is among them. -/
structure Registered (w w' : World) : Prop where
  id : w'.id = w.id
  creator : w'.creator = w.creator
  live : w'.reg.live ⊆ w.reg.live
  ended : w'.st.dead = true → w.st.dead = true ∨ w.id ∉ w'.reg.live

theorem Registered.trans {w'' : World} (h : w.Registered w') (h' : w'.Registered w'') :
    w.Registered w'' where
  id := h'.id.trans h.id
  creator := h'.creator.trans h.creator
  live := List.Subset.trans h'.live h.live
  ended hdead := by
    rcases h'.ended hdead with hdead' | hnot
    · exact (h.ended hdead').imp_right fun hnot hmem => hnot (h'.live hmem)
    · exact .inr (h.id ▸ hnot)

/-- A step that leaves the registry alone does not end the session. -/
theorem Registered.of_eq (hid : w'.id = w.id) (hcreator : w'.creator = w.creator)
    (hreg : w'.reg = w.reg) (hdead : w'.st.dead = w.st.dead) : w.Registered w' :=
  ⟨hid, hcreator, hreg ▸ List.Subset.refl _, fun h => .inl (hdead ▸ h)⟩

theorem registered_endSession (w : World) (reason : String) :
    w.Registered (w.endSession reason) where
  id := rfl
  creator := rfl
  live := List.filter_subset_self _
  ended _ := .inr (by simp [endSession, Registry.bury])

theorem registered_park (w : World) : w.Registered w.park := by
  unfold park
  split_ifs
  · exact .of_eq rfl rfl rfl rfl
  · exact registered_endSession w _
  · exact .of_eq rfl rfl rfl rfl

theorem registered_moves (hu : w.Moves a u) : w.Registered u := by
  cases hu with
  | still ha hu =>
    have hlive := hu.live
    rw [hu.only] at hlive ⊢
    exact ⟨rfl, rfl, hlive, .inl⟩
  | fails hB hatt =>
    have hpolling : w.Registered { w with pumpB := .polling } := .of_eq rfl rfl rfl rfl
    exact hpolling.trans (registered_park _)
  | attaches ht hpc hu =>
    rw [hu.only]
    exact .of_eq rfl rfl rfl rfl
  | expires ht hdue halive hatt hepoch =>
    rename_i i _
    have herase : w.Registered { w with timers := w.timers.eraseIdx i } := .of_eq rfl rfl rfl rfl
    exact herase.trans (registered_endSession _ _)
  | takes | finishes | exits | abandons | putsBack | resumes | lapses | elapses =>
    exact .of_eq rfl rfl rfl rfl

theorem registered_step [Postcard] (h : w.step a = some w') : w.Registered w' := by
  obtain ⟨u, hu, hafter⟩ := step_cases h
  refine (registered_moves hu).trans ?_
  cases hafter with
  | stays => exact .of_eq rfl rfl rfl rfl
  | ends ha reason => exact registered_endSession u reason
  | parks hreporter => exact registered_park u

end World

end Listener
