import Wosh.Listener.Control

set_option relaxedAutoImplicit false
set_option autoImplicit false

/-!
# What the listener applies in a step

At most one task applies frames in a step. The acknowledgements that the step queues are due to
these frames, and if one of them is a violation the task is over.

## Main definitions

* `Listener.World.applying` — the task that applies frames in a step, and these.
* `Listener.Acked` — where the acknowledgements in the queue come from.
* `Listener.World.Returned` — a task is over.

## Main results

* `Listener.acks_step` — an acknowledgement carries the count of the moment it is queued.
* `Listener.wire_step` — what is written on a stream comes off the queue.
* `Listener.violation_step` — a ping or a pong on `wosh/2` ends the task that finds it.
* `Listener.World.Returned.not_applying` — such a task applies nothing any more.
-/

namespace Listener

open Tunnel Slots

variable [Postcard]

/-! ## Acknowledgements -/

/-- The task that applies frames in this step, and the frames that its decoder holds. -/
def World.applying (w : World) : Action → Option (ℕ × Task × List Frame)
  | .read k (.chunk b) =>
    match w.tasks[k]? with
    | some t => if t.pc = .reading w.st.generation then some (k, t, (frames (t.dec ++ b)).1) else none
    | none => none
  | .replied k none =>
    match w.tasks[k]? with
    | some t =>
      match t.pc with
      | .replying _ _ => some (k, t, (frames t.dec).1)
      | _ => none
    | none => none
  | _ => none

/-- Where the acknowledgements in the queue come from: they were queued already, or the frames that
a task applies, being counted, made them due. -/
def Acked (w : World) (a : Action) (w' : World) : Prop :=
  ∀ n ∈ acksOf (heard w'.st.outq), n ∈ acksOf (heard w.st.outq) ∨
    ∃ k t before f after, w.applying a = some (k, t, before ++ f :: after) ∧
      n = UInt64.ofNat (w.st.received + ((before ++ [f]).flatMap Frame.payload).length)

section Acked

variable {w w' : World} {a : Action}

theorem acked_of_subset (h : heard w'.st.outq ⊆ heard w.st.outq) : Acked w a w' := fun _ hn =>
  .inl (mem_acksOf.2 (h (mem_acksOf.1 hn)))

theorem acked_of_outq (h : w'.st.outq = w.st.outq) : Acked w a w' :=
  acked_of_subset (by rw [h]; exact List.Subset.refl _)

/-- DATA frames of sshd acknowledge nothing. -/
theorem acked_of_pieces {q : List Bytes} (hq : Pieces q)
    (h : ∀ f ∈ heard w'.st.outq, f ∈ heard w.st.outq ∨ f ∈ heard q) : Acked w a w' := by
  intro n hn
  rcases h _ (mem_acksOf.1 hn) with hold | hnew
  · exact .inl (mem_acksOf.2 hold)
  · obtain ⟨ps, hps⟩ := hq.heard
    rw [hps] at hnew
    obtain ⟨p, -, hp⟩ := List.mem_map.1 hnew
    cases hp

omit [Postcard] in
theorem outq_park (w : World) : w.park.st.outq = w.st.outq := by
  unfold World.park
  split_ifs <;> rfl

/-- Pump D applies what its decoder holds. -/
theorem acked_drainReader {v : World} {k : ℕ} {t t' : Task} {g : ℕ}
    (ha : w.applying a = some (k, t, (frames t'.dec).1)) (hreceived : v.st.received = w.st.received)
    (hold : ∀ n ∈ acksOf (heard v.st.outq), n ∈ acksOf (heard w.st.outq)) :
    Acked w a (v.drainReader k t' g) := by
  obtain ⟨q, hans⟩ := applyFrames_answers t'.pings (frames t'.dec).1 v.st
  have houtq : (v.drainReader k t' g).st.outq = v.st.outq ++ q := by
    unfold World.drainReader
    dsimp only
    split
    · rw [outq_park]
      exact hans.outq
    · rw [outq_park]
      exact hans.outq
    · exact hans.outq
  intro n hn
  rw [houtq, heard_append, mem_acksOf, List.mem_append] at hn
  rcases hn with hn | hn
  · exact .inl (hold n (mem_acksOf.2 hn))
  · obtain ⟨before, f, after, hsplit, hval⟩ := hans.acks n (mem_acksOf.2 hn)
    exact .inr ⟨k, t, before, f, after, by rw [ha, hsplit], by rw [hval, hreceived]⟩

/-- **An acknowledgement carries the count of the moment it is queued.** -/
theorem acks_step (hstep : w.step a = some w') : Acked w a w' := by
  cases a with
  | pollA =>
    simp only [World.step] at hstep
    split_ifs at hstep <;> cases hstep <;> exact acked_of_outq rfl
  | readA buf result refused =>
    simp only [World.step, Option.ite_none_right_eq_some, Option.some.injEq] at hstep
    obtain ⟨-, rfl⟩ := hstep
    have hpieces : Pieces ((Incremental.chunks chunk buf).map encodeData) :=
      pieces_chunks (by decide) buf
    unfold World.readSshd
    dsimp only
    split_ifs
    · exact acked_of_outq rfl
    · cases result <;> exact acked_of_outq rfl
    · have hmem : ∀ f ∈ heard (w.record buf).st.outq, f ∈ heard w.st.outq ∨
          f ∈ heard ((Incremental.chunks chunk buf).map encodeData) := by
        intro f hf
        rw [World.record, heard_append] at hf
        exact List.mem_append.1 hf
      cases result <;> exact acked_of_pieces hpieces hmem
  | pollB =>
    simp only [World.step, Option.ite_none_right_eq_some] at hstep
    obtain ⟨-, hjob⟩ := hstep
    unfold World.takeJob at hjob
    obtain ⟨⟨job, st⟩, hnext, rfl⟩ := Option.map_eq_some_iff.1 hjob
    obtain ⟨b, q, k, -, -, hq, rfl, rfl⟩ | ⟨k, -, -, -, -, rfl, rfl⟩ | ⟨-, -, rfl, rfl⟩ :=
      nextWriteJob_cases hnext
    · refine acked_of_subset ?_
      rw [hq, heard_cons]
      exact List.subset_append_right _ _
    · exact acked_of_outq rfl
    · exact acked_of_outq rfl
  | wroteB ok =>
    simp only [World.step] at hstep
    split at hstep <;> cases hstep
    unfold World.wroteClient
    dsimp only
    split_ifs
    · exact acked_of_outq rfl
    · exact acked_of_outq rfl
    · exact acked_of_outq (outq_park _)
  | pollC =>
    simp only [World.step, Option.ite_none_right_eq_some] at hstep
    obtain ⟨_, _, rfl⟩ := World.takeInbound_cases hstep.2
    exact acked_of_outq rfl
  | wroteC n =>
    simp only [World.step] at hstep
    split at hstep <;> cases hstep
    unfold World.wroteSshd
    dsimp only
    split_ifs <;> exact acked_of_outq rfl
  | resume peer received pings dec =>
    cases hstep
    exact acked_of_outq rfl
  | replied k err =>
    simp only [World.step] at hstep
    split at hstep
    · cases hstep
    · rename_i t ht
      split at hstep
      · cases hstep
        exact acked_of_outq rfl
      · rename_i fresh tail hpc
        cases hstep
        have hpieces : Pieces ((Incremental.chunks chunk tail).map encodeData) :=
          pieces_chunks (by decide) tail
        obtain ⟨ps, hps⟩ := hpieces.heard
        -- the queue was cleared, and holds the tail
        have hnone : acksOf (heard ((Incremental.chunks chunk tail).map encodeData)) = [] := by
          rw [hps, acksOf, List.filterMap_map]
          exact List.filterMap_eq_nil_iff.2 fun _ _ => rfl
        refine acked_drainReader (t := t) ?_ ?_ ?_
        · simp [World.applying, ht, hpc]
        · cases fresh <;> rfl
        · intro n hn
          have hn' : n ∈ acksOf (heard ((Incremental.chunks chunk tail).map encodeData)) := by
            cases fresh <;> exact hn
          rw [hnone] at hn'
          cases hn'
      · cases hstep
  | refused k =>
    simp only [World.step] at hstep
    split at hstep
    · cases hstep
    · split at hstep
      · rename_i reason gap err hpc
        cases hstep
        cases gap <;> exact acked_of_outq rfl
      · cases hstep
  | read k r =>
    simp only [World.step] at hstep
    split at hstep
    · cases hstep
    · rename_i t ht
      split at hstep
      · rename_i g hpc
        cases hstep
        unfold World.readClient
        dsimp only
        by_cases hg : w.st.generation ≠ g
        · rw [if_pos hg]
          exact acked_of_outq rfl
        · rw [if_neg hg]
          split
          · refine acked_drainReader (t := t) ?_ rfl fun _ hn => hn
            simp [World.applying, ht, hpc, not_not.1 hg]
          · split_ifs
            · exact acked_of_outq rfl
            · exact acked_of_outq (outq_park _)
      · cases hstep
  | fire i =>
    simp only [World.step] at hstep
    split at hstep
    · cases hstep
    · split_ifs at hstep
      cases hstep
      unfold World.expire
      split_ifs <;> exact acked_of_outq rfl
  | elapse d =>
    cases hstep
    exact acked_of_outq rfl
  | otherEnded id reason =>
    simp only [World.step] at hstep
    split_ifs at hstep
    cases hstep
    exact acked_of_outq rfl

/-- What is written on a stream in a step was at the front of the queue, and writing it neither counts
nor records session bytes. -/
theorem wire_step {k : ℕ} {t t' : Task} (hstep : w.step a = some w') (ht : w.tasks[k]? = some t)
    (ht' : w'.tasks[k]? = some t') : ∃ fs, t'.wire = t.wire ++ fs ∧ fs <+: w.st.outq ∧
      (fs ≠ [] → w'.st.received = w.st.received ∧ w'.st.replay = w.st.replay) := by
  have hkept : ∀ {u : Task}, w.tasks[k]? = some u → t'.wire = u.wire →
      ∃ fs, t'.wire = t.wire ++ fs ∧ fs <+: w.st.outq ∧
        (fs ≠ [] → w'.st.received = w.st.received ∧ w'.st.replay = w.st.replay) := by
    intro u hu hwire
    cases ht.symm.trans hu
    exact ⟨[], by rw [hwire, List.append_nil], List.nil_prefix, fun hne => absurd rfl hne⟩
  cases World.traffic_cases hstep with
  | quiet hq =>
    obtain ⟨u, hu, hkeeps⟩ := hq.tasks.slot ht'
    exact hkept hu hkeeps.wire
  | polls hA hp => exact hkept ht' rfl
  | reads hA =>
    refine hkept (u := t') ?_ rfl
    unfold World.readSshd at ht'
    dsimp only at ht'
    split_ifs at ht'
    · exact ht'
    · rename_i result _ _ _
      cases result <;> exact ht'
    · rename_i result _ _ _
      cases result <;> exact ht'
  | writes hsend hq =>
    obtain ⟨u, hu, rfl⟩ := getElem?_modify_eq_some.1 ht'
    cases ht.symm.trans hu
    rename_i b q j
    by_cases hjk : j = k
    · rw [if_pos hjk, hq]
      exact ⟨[b], rfl, ⟨q, rfl⟩, fun _ => ⟨rfl, rfl⟩⟩
    · exact hkept ht (by rw [if_neg hjk])
  | resumes peer received pings dec =>
    rcases getElem?_concat_eq_some.1 ht' with hj | ⟨rfl, rfl⟩
    · exact hkept hj rfl
    · exact absurd (List.getElem?_eq_some_iff.1 ht).1 (Nat.lt_irrefl _)
  | attaches ht₁ hpc hq =>
    obtain ⟨u, hu, hkeeps⟩ := hq.tasks.slot ht'
    rename_i j t₁ fresh tail
    have hset : (w.attach j t₁ tail).tasks[k]? = some u := by
      split_ifs at hu <;> exact hu
    rcases getElem?_set_eq_some hset with ⟨rfl, rfl⟩ | ⟨-, hj⟩
    · exact hkept ht₁ hkeeps.wire
    · exact hkept hj hkeeps.wire

end Acked

/-! ## Violations -/

/-- Task `k` has returned. -/
def World.Returned (w : World) (k : ℕ) : Prop :=
  ∃ t out, w.tasks[k]? = some t ∧ t.pc = .done out

section Violations

variable {w w' : World} {a : Action} {k : ℕ}

omit [Postcard] in
theorem World.returned_park (h : w.Returned k) : w.park.Returned k := by
  unfold World.park
  split_ifs <;> exact h

/-- A task that has returned stays so. -/
theorem World.Returned.step (h : w.Returned k) (hstep : w.step a = some w') : w'.Returned k := by
  obtain ⟨t, out, ht, hout⟩ := h
  -- where every task stays where it is or returns, so does this one
  have hkept : ∀ {u : World}, u.tasks.length = w.tasks.length →
      (∀ t', u.tasks[k]? = some t' → t'.pc = t.pc ∨ ∃ out, t'.pc = .done out) → u.Returned k := by
    intro u hlength htask
    have hk : k < u.tasks.length := hlength ▸ (List.getElem?_eq_some_iff.1 ht).1
    have ht' : u.tasks[k]? = some u.tasks[k] := List.getElem?_eq_getElem hk
    rcases htask _ ht' with hpc | ⟨out', hpc⟩
    · exact ⟨_, out, ht', hpc.trans hout⟩
    · exact ⟨_, out', ht', hpc⟩
  obtain ⟨u, hu, hafter⟩ := World.step_cases hstep
  have hreturned : u.Returned k := by
    cases hu with
    | still ha hstill =>
      refine hkept hstill.tasks_length fun t' ht' => ?_
      obtain ⟨t₀, ht₀, hmoved⟩ := hstill.task k t' ht'
      cases ht.symm.trans ht₀
      exact hmoved.pc
    | takes hB hatt hsend hq =>
      refine hkept (by simp) fun t' ht' => ?_
      obtain ⟨t₀, ht₀, rfl⟩ := getElem?_modify_eq_some.1 ht'
      cases ht.symm.trans ht₀
      exact .inl (by split_ifs <;> rfl)
    | fails hB hatt => exact World.returned_park ⟨t, out, ht, hout⟩
    | resumes peer received pings dec =>
      exact ⟨t, out, by
        rw [List.getElem?_append_left (List.getElem?_eq_some_iff.1 ht).1]
        exact ht, hout⟩
    | attaches ht₁ hpc hatt =>
      refine hkept hatt.tasks_length fun t' ht' => ?_
      rcases hatt.task k t' ht' with ⟨-, hj⟩ | ⟨rfl, -, -⟩
      · cases ht.symm.trans hj
        exact .inl rfl
      · cases ht.symm.trans ht₁
        cases hout.symm.trans hpc
    | finishes | exits | abandons | putsBack | lapses | expires | elapses =>
      exact ⟨t, out, ht, hout⟩
  cases hafter with
  | stays => exact hreturned
  | ends ha reason => exact hreturned
  | parks hreporter => exact World.returned_park hreturned

/-- It applies nothing any more. -/
theorem World.Returned.not_applying (h : w.Returned k) (a : Action) (t : Task) (fs : List Frame) :
    w.applying a ≠ some (k, t, fs) := by
  obtain ⟨t₀, out, ht₀, hout⟩ := h
  intro happly
  unfold World.applying at happly
  split at happly
  · split at happly
    · rename_i t₁ ht₁
      split_ifs at happly with hpc
      cases happly
      cases ht₀.symm.trans ht₁
      cases hout.symm.trans hpc
    · cases happly
  · split at happly
    · rename_i t₁ ht₁
      split at happly
      · rename_i fresh tail hpc
        cases happly
        cases ht₀.symm.trans ht₁
        cases hout.symm.trans hpc
      · cases happly
    · cases happly
  · cases happly

/-- Frames among which there is a violation: the reader returns, and what it pushed came before. -/
theorem drainReader_violation {v : World} {t : Task} {g : ℕ} (hk : k < v.tasks.length)
    (hpings : t.pings = false) {before after : List Frame} {f : Frame}
    (hframes : (frames t.dec).1 = before ++ f :: after) (hf : f.liveness = true) :
    (v.drainReader k t g).Returned k ∧
      (v.drainReader k t g).st.pushed <+: v.st.pushed ++ before.flatMap Frame.payload := by
  have hpushed : ∀ u : World, u.park.st.pushed = u.st.pushed := by
    intro u
    unfold World.park
    split_ifs <;> rfl
  have hreturned : ∀ (u : World) (t' : Task) (out : Except String String), u.tasks = v.tasks →
      t'.pc = .done out → (u.setTask k t').park.Returned k := by
    intro u t' out htasks hpc
    refine World.returned_park ⟨t', out, ?_, hpc⟩
    show (u.tasks.set k t')[k]? = some t'
    rw [htasks, List.getElem?_set_self hk]
  obtain ⟨happly, hobject⟩ := applyFrames_violation v.st before hf after
  obtain ⟨b, hb, hprefix, -⟩ := applyFrames_pushes false (before ++ [f]) v.st
  have hnone : f.payload = [] := by
    cases f with
    | data => cases hf
    | ack | hello | reply | ping | pong => rfl
  have hbefore : v.st.pushed ++ b <+: v.st.pushed ++ before.flatMap Frame.payload := by
    rw [List.flatMap_append, List.flatMap_singleton, hnone, List.append_nil] at hprefix
    exact (List.prefix_append_right_inj _).2 hprefix
  unfold World.drainReader
  dsimp only
  rw [hframes, hpings, happly]
  split
  · refine ⟨hreturned _ _ _ rfl rfl, ?_⟩
    rw [hpushed]
    show (applyFrames false v.st (before ++ [f])).1.pushed <+: _
    rw [hb.pushed]
    exact hbefore
  · rename_i hnone' _
    exact absurd hnone' hobject
  · rename_i hnone' _
    exact absurd hnone' hobject

/-- **A ping or a pong on `wosh/2` is a violation**: the task that finds it returns, having pushed
nothing of what follows. -/
theorem violation_step {t : Task} {before after : List Frame} {f : Frame}
    (hstep : w.step a = some w') (happly : w.applying a = some (k, t, before ++ f :: after))
    (hpings : t.pings = false) (hf : f.liveness = true) :
    w'.Returned k ∧ w'.st.pushed <+: w.st.pushed ++ before.flatMap Frame.payload := by
  unfold World.applying at happly
  split at happly
  · rename_i j b
    split at happly
    · rename_i t₁ ht
      split_ifs at happly with hpc
      simp only [Option.some.injEq, Prod.mk.injEq] at happly
      obtain ⟨rfl, rfl, hframes⟩ := happly
      simp only [World.step, ht, hpc, Option.some.injEq] at hstep
      subst hstep
      unfold World.readClient
      dsimp only
      rw [if_neg (not_not.2 rfl)]
      exact drainReader_violation
        (t := { t₁ with dec := t₁.dec ++ b, arrived := t₁.arrived ++ b })
        (List.getElem?_eq_some_iff.1 ht).1 hpings hframes hf
    · cases happly
  · rename_i j
    split at happly
    · rename_i t₁ ht
      split at happly
      · rename_i fresh tail hpc
        simp only [Option.some.injEq, Prod.mk.injEq] at happly
        obtain ⟨rfl, rfl, hframes⟩ := happly
        simp only [World.step, ht, hpc, Option.some.injEq] at hstep
        subst hstep
        have hk := (List.getElem?_eq_some_iff.1 ht).1
        cases fresh with
        | false =>
          exact drainReader_violation (v := w.attach j t₁ tail)
            (by simpa [World.attach, World.setTask] using hk) hpings hframes hf
        | true =>
          exact drainReader_violation (v := (w.attach j t₁ tail).spawnSessionTasks)
            (by simpa [World.attach, World.setTask, World.spawnSessionTasks] using hk) hpings hframes
            hf
      · cases happly
    · cases happly
  · cases happly

end Violations

end Listener
