import Wosh.Listener.Cases
import Wosh.Listener.ToClient

set_option relaxedAutoImplicit false
set_option autoImplicit false

/-!
# The traffic of a session

Bytes of sshd reach an attachment through the queue, or through the tail that a resume takes from
the replay buffer. A step leaves all of this alone, or moves it in one of a few ways. Whatever the
interleaving, an attachment is given bytes that were recorded, each at most once and in the order
in which they were recorded. Nothing else is: it may be given less than was recorded.

## Main definitions

* `Listener.World.Quiet` — no bytes of sshd moved.
* `Listener.World.Traffic` — the cases of a step.
* `Listener.World.Latest` — the stream belongs to the attachment made last.
* `Listener.World.Delivers` — the invariant.

## Main results

* `Listener.World.traffic_cases` — every step is one of the cases.
* `Listener.World.Delivers.step` — what the attachments are given is part of what was recorded.
-/

namespace Listener

open Tunnel Slots

/-- The task was given nothing, and its reply is not being written if it was not before. -/
structure Task.Keeps (t t' : Task) : Prop where
  wire : t'.wire = t.wire
  replying : ∀ fresh tail, t'.pc = .replying fresh tail → t.pc = .replying fresh tail

namespace World

variable [Postcard]

/-- No bytes of sshd moved. -/
structure Quiet (w w' : World) : Prop where
  tracks : ∀ s, w.st.replay.Tracks s → w'.st.replay.Tracks s
  dataOf_outq : dataOf w'.st.outq = dataOf w.st.outq
  last : w'.st.last = w.st.last
  pumpA : w'.pumpA = w.pumpA
  sshd : w'.sshd = w.sshd
  recorded : w'.recorded = w.recorded
  tasks : Related Task.Keeps w.tasks w'.tasks

/-- What a step can do with bytes of sshd. -/
inductive Traffic (w : World) : Action → World → Prop
  | quiet {a : Action} {w' : World} (h : w.Quiet w') : Traffic w a w'
  /-- Pump A begins to read, or is over. -/
  | polls {p : PumpA} (hA : w.pumpA = .waiting) (hp : p ≠ .unborn) :
      Traffic w .pollA { w with pumpA := p }
  /-- Its read returns. -/
  | reads {buf : Bytes} {result : StreamResult} {refused : Bool} (hA : w.pumpA = .reading) :
      Traffic w (.readA buf result refused) (w.readSshd buf result refused)
  /-- Pump B takes a frame off the queue. -/
  | writes {b : Bytes} {q : List Bytes} {k : ℕ} (hsend : w.st.send = some k)
      (hq : w.st.outq = b :: q) : Traffic w .pollB { w with
        st := { w.st with send := none, outq := q }
        pumpB := .writing b w.st.generation k
        tasks := w.tasks.modify k fun t => { t with wire := t.wire ++ [b] } }
  | resumes (peer : String) (received : ℕ) (pings : Bool) (dec : Bytes) :
      Traffic w (.resume peer received pings dec)
        { w with tasks := w.tasks ++ [w.resumeSession peer received pings dec] }
  /-- A task attaches, and its tail is queued. -/
  | attaches {k : ℕ} {t : Task} {fresh : Bool} {tail : Bytes} {w' : World}
      (ht : w.tasks[k]? = some t) (hpc : t.pc = .replying fresh tail)
      (h : (if fresh then (w.attach k t tail).spawnSessionTasks else w.attach k t tail).Quiet w') :
      Traffic w (.replied k none) w'

/-- The stream is that of the attachment made last, and so is one that pump B has borrowed and may
put back; and the task that attached last is not writing its reply. -/
structure Latest (w : World) : Prop where
  send : ∀ k, w.st.send = some k → w.st.last = some k
  writing : ∀ b g k, w.pumpB = .writing b g k →
    g ≤ w.st.generation ∧ (g = w.st.generation → w.st.last = some k)
  lt : ∀ k, w.st.last = some k → k < w.tasks.length
  attached : ∀ (k : ℕ) (t : Task), w.st.last = some k → w.tasks[k]? = some t →
    ∀ fresh tail, t.pc ≠ .replying fresh tail

/-- What the attachments are given is part of what was recorded, in its order. -/
structure Delivers (w : World) : Prop where
  tracks : w.st.replay.Tracks w.recorded
  /-- A tail that is to be queued was recorded, and nothing was written yet on its stream. -/
  pending : ∀ t ∈ w.tasks, ∀ fresh tail, t.pc = .replying fresh tail →
    t.wire = [] ∧ tail <:+: w.recorded
  sent : ∀ (k : ℕ) (t : Task), w.tasks[k]? = some t →
    (dataOf (t.wire ++ queuedFor w k)).Sublist w.recorded

end World

/-! ## Quiet operations -/

theorem Task.Keeps.refl (t : Task) : t.Keeps t := ⟨rfl, fun _ _ h => h⟩

theorem Task.Keeps.trans {t t' t'' : Task} (h : t.Keeps t') (h' : t'.Keeps t'') : t.Keeps t'' :=
  ⟨h'.wire.trans h.wire, fun f s hpc => h.replying f s (h'.replying f s hpc)⟩

namespace World

variable [Postcard] {w w' w'' : World} {a : Action} {k : ℕ} {t t' : Task}

namespace Quiet

/-- A quiet change of the shared state, with whatever plays no part in the traffic. -/
theorem of_eq (hst : w.st.Quiet w'.st) (htasks : w'.tasks = w.tasks) (hA : w'.pumpA = w.pumpA)
    (hsshd : w'.sshd = w.sshd) (hrec : w'.recorded = w.recorded) : w.Quiet w' where
  tracks := hst.tracks
  dataOf_outq := hst.dataOf_outq
  last := hst.last
  pumpA := hA
  sshd := hsshd
  recorded := hrec
  tasks := htasks ▸ .refl Task.Keeps.refl _

theorem refl (w : World) : w.Quiet w := .of_eq (.refl _) rfl rfl rfl rfl

theorem trans (h : w.Quiet w') (h' : w'.Quiet w'') : w.Quiet w'' where
  tracks s hs := h'.tracks s (h.tracks s hs)
  dataOf_outq := h'.dataOf_outq.trans h.dataOf_outq
  last := h'.last.trans h.last
  pumpA := h'.pumpA.trans h.pumpA
  sshd := h'.sshd.trans h.sshd
  recorded := h'.recorded.trans h.recorded
  tasks := h.tasks.trans Task.Keeps.trans h'.tasks

theorem endSession (w : World) (reason : String) : w.Quiet (w.endSession reason) where
  tracks _ hs := hs
  dataOf_outq := rfl
  last := rfl
  pumpA := rfl
  sshd := rfl
  recorded := rfl
  tasks := .refl Task.Keeps.refl _

theorem park (w : World) : w.Quiet w.park := by
  unfold World.park
  split_ifs
  · exact refl w
  · exact endSession w _
  · exact ⟨fun _ hs => hs, rfl, rfl, rfl, rfl, rfl, .refl Task.Keeps.refl _⟩

/-- A task moves on. -/
theorem setTask (ht : w.tasks[k]? = some t) (hkeeps : t.Keeps t') : w.Quiet (w.setTask k t') where
  tracks _ hs := hs
  dataOf_outq := rfl
  last := rfl
  pumpA := rfl
  sshd := rfl
  recorded := rfl
  tasks := ⟨List.length_set, fun {j u} hu => by
    rcases getElem?_set_eq_some hu with ⟨rfl, rfl⟩ | ⟨-, hj⟩
    · exact ⟨t, ht, hkeeps⟩
    · exact ⟨u, hj, .refl u⟩⟩

/-- It moves on to where no reply is being written. -/
theorem setPc (ht : w.tasks[k]? = some t) (hwire : t'.wire = t.wire)
    (hpc : ∀ fresh tail, t'.pc ≠ .replying fresh tail) : w.Quiet (w.setTask k t') :=
  .setTask ht ⟨hwire, fun f s h => absurd h (hpc f s)⟩

/-- Pump D applies what its decoder holds. -/
theorem drainReader (g : ℕ) {u : Task} (ht : w.tasks[k]? = some u) (hwire : t.wire = u.wire) :
    w.Quiet (w.drainReader k t g) := by
  have hst : w.Quiet { w with st := (applyFrames t.pings w.st (frames t.dec).1).1 } :=
    .of_eq (applyFrames_quiet _ _ _) rfl rfl rfl rfl
  unfold World.drainReader
  dsimp only
  split
  · refine Quiet.trans ?_ (.park _)
    exact hst.trans (.setPc ht hwire (by simp))
  · refine Quiet.trans ?_ (.park _)
    exact hst.trans (.setPc ht hwire (by simp))
  · exact hst.trans (.setPc ht hwire (by simp))

/-- A read of pump D returns. -/
theorem readClient (ht : w.tasks[k]? = some t) (g : ℕ) (r : ReadResult) :
    w.Quiet (w.readClient k t g r) := by
  unfold World.readClient
  dsimp only
  by_cases hg : w.st.generation ≠ g
  · rw [if_pos hg]
    exact .setPc ht rfl (by simp)
  · rw [if_neg hg]
    split
    · exact .drainReader g ht rfl
    · split_ifs
      · exact .setPc ht rfl (by simp)
      · refine Quiet.trans ?_ (.park _)
        exact .setPc ht rfl (by simp)

/-- Pump B's write returns. -/
theorem wroteClient (w : World) (g k : ℕ) (ok : Bool) : w.Quiet (w.wroteClient g k ok) := by
  have hB : w.Quiet { w with pumpB := .polling } := .of_eq (.refl _) rfl rfl rfl rfl
  unfold World.wroteClient
  dsimp only
  split_ifs
  · exact hB
  · exact ⟨fun _ hs => hs, rfl, rfl, rfl, rfl, rfl, .refl Task.Keeps.refl _⟩
  · exact hB.trans (.park _)

end Quiet

/-! ## The cases of a step -/

/-- **The cases of a step.** -/
theorem traffic_cases (h : w.step a = some w') : w.Traffic a w' := by
  -- a change that leaves the traffic, the tasks and pump A alone
  have hquiet : ∀ {u : World}, u.st.replay = w.st.replay → u.st.outq = w.st.outq →
      u.st.last = w.st.last → u.tasks = w.tasks → u.pumpA = w.pumpA → u.sshd = w.sshd →
      u.recorded = w.recorded → w.Traffic a u := by
    intro u hreplay houtq hlast htasks hA hsshd hrec
    exact .quiet ⟨fun s hs => hreplay ▸ hs, by rw [houtq], hlast, hA, hsshd, hrec,
      htasks ▸ .refl Task.Keeps.refl _⟩
  cases a with
  | pollA =>
    simp only [step] at h
    split_ifs at h with hA <;> cases h <;> exact .polls (not_not.1 hA) (by simp)
  | readA buf result refused =>
    simp only [step, Option.ite_none_right_eq_some, Option.some.injEq] at h
    obtain ⟨hA, rfl⟩ := h
    exact .reads hA
  | pollB =>
    simp only [step, Option.ite_none_right_eq_some] at h
    obtain ⟨-, h⟩ := h
    unfold takeJob at h
    obtain ⟨⟨job, st⟩, hnext, rfl⟩ := Option.map_eq_some_iff.1 h
    obtain ⟨b, q, k, -, hsend, hq, rfl, rfl⟩ | ⟨k, -, -, -, -, rfl, rfl⟩ | ⟨-, -, rfl, rfl⟩ :=
      nextWriteJob_cases hnext
    · exact .writes hsend hq
    · exact hquiet rfl rfl rfl rfl rfl rfl rfl
    · exact hquiet rfl rfl rfl rfl rfl rfl rfl
  | wroteB ok =>
    simp only [step] at h
    split at h <;> cases h
    exact .quiet (.wroteClient _ _ _ _)
  | pollC =>
    simp only [step, Option.ite_none_right_eq_some] at h
    obtain ⟨_, _, rfl⟩ := takeInbound_cases h.2
    exact hquiet rfl rfl rfl rfl rfl rfl rfl
  | wroteC n =>
    simp only [step] at h
    split at h <;> cases h
    unfold wroteSshd
    dsimp only
    split_ifs <;> exact hquiet rfl rfl rfl rfl rfl rfl rfl
  | resume peer received pings dec =>
    cases h
    exact .resumes peer received pings dec
  | replied k err =>
    simp only [step] at h
    split at h
    · cases h
    · rename_i t ht
      split at h
      · cases h
        exact .quiet (.setPc ht rfl (by simp))
      · rename_i fresh tail hpc
        cases h
        refine .attaches ht hpc (.drainReader (u := { t with pc := .reading (w.st.generation + 1) })
          _ ?_ rfl)
        have hk : k < w.tasks.length := (List.getElem?_eq_some_iff.1 ht).1
        cases fresh <;> simp [attach, setTask, spawnSessionTasks, hk]
      · cases h
  | refused k =>
    simp only [step] at h
    split at h
    · cases h
    · rename_i t ht
      split at h
      · cases h
        split_ifs
        · exact .quiet ((Quiet.endSession w _).trans (.setPc ht rfl (by simp)))
        · exact .quiet (.setPc ht rfl (by simp))
      · cases h
  | read k r =>
    simp only [step] at h
    split at h
    · cases h
    · rename_i t ht
      split at h
      · cases h
        exact .quiet (.readClient ht _ r)
      · cases h
  | fire i =>
    simp only [step] at h
    split at h
    · cases h
    · split_ifs at h
      cases h
      unfold expire
      split_ifs <;> exact hquiet rfl rfl rfl rfl rfl rfl rfl
  | elapse d =>
    cases h
    exact hquiet rfl rfl rfl rfl rfl rfl rfl
  | otherEnded id reason =>
    simp only [step] at h
    split_ifs at h
    cases h
    exact hquiet rfl rfl rfl rfl rfl rfl rfl

/-! ## The attachment made last -/

namespace Latest

omit [Postcard]

variable {u : World}

theorem endSession (h : w.Latest) (reason : String) : (w.endSession reason).Latest :=
  ⟨h.send, h.writing, h.lt, h.attached⟩

/-- Pump B is not in a write. -/
theorem setPumpB (h : w.Latest) {p : PumpB} (hp : ∀ b g k, p ≠ .writing b g k) :
    { w with pumpB := p }.Latest :=
  { h with writing := fun b g k hb => absurd hb (hp b g k) }

/-- Parking takes the stream away, and makes a write in progress a superseded one. -/
theorem park (h : w.Latest) : w.park.Latest := by
  unfold World.park
  split_ifs
  · exact h
  · exact h.endSession _
  · exact { h with
      send := fun k hk => by cases hk
      writing := fun b g k hb => by
        have hle := (h.writing b g k hb).1
        exact ⟨Nat.le_succ_of_le hle,
          fun heq => absurd heq (Nat.ne_of_lt (Nat.lt_succ_of_le hle))⟩ }

/-- Nothing of the attachment moved. -/
theorem still (h : w.Latest) (hu : w.Still a u) : u.Latest := by
  have htask := hu.task
  have hlength := hu.tasks_length
  rw [hu.only] at htask hlength ⊢
  refine ⟨h.send, h.writing, fun k hl => ?_, fun k t' hl ht' fresh tail hpc => ?_⟩
  · rw [hlength]
    exact h.lt k hl
  · obtain ⟨t, ht, hmoved⟩ := htask _ _ ht'
    rcases hmoved.pc with hsame | ⟨out, hdone⟩
    · exact h.attached k t hl ht fresh tail (hsame ▸ hpc)
    · cases hdone.symm.trans hpc

/-- A task attached. -/
theorem attaches {fresh : Bool} (h : w.Latest) (ht : w.tasks[k]? = some t)
    (hu : w.Attaches k t fresh u) : u.Latest := by
  have htask := hu.task
  have hlength := hu.tasks_length
  rw [hu.only] at htask hlength ⊢
  refine ⟨fun j hj => hj, fun b g j hb => ?_, fun j hl => ?_, fun j t' hl ht' fresh tail hpc => ?_⟩
  · cases fresh with
    | true => cases hb
    | false =>
      have hle := (h.writing b g j hb).1
      exact ⟨Nat.le_succ_of_le hle, fun heq => absurd heq (Nat.ne_of_lt (Nat.lt_succ_of_le hle))⟩
  · cases hl
    rw [hlength]
    exact (List.getElem?_eq_some_iff.1 ht).1
  · cases hl
    rcases htask _ _ ht' with ⟨hne, -⟩ | ⟨-, -, hnot⟩
    · exact hne rfl
    · exact hnot fresh tail hpc

theorem moves (h : w.Latest) (hu : w.Moves a u) : u.Latest := by
  cases hu with
  | still _ hu => exact h.still hu
  | takes hB hatt hsend hq =>
    have hlast := h.send _ hsend
    refine ⟨fun k hk => (by cases hk), fun b g k hb => ?_, fun k hl => ?_,
      fun k t' hl ht' fresh tail hpc => ?_⟩
    · cases hb
      exact ⟨Nat.le_refl _, fun _ => hlast⟩
    · rw [List.length_modify]
      exact h.lt k hl
    · obtain ⟨t, ht, rfl⟩ := getElem?_modify_eq_some.1 ht'
      exact h.attached k t hl ht fresh tail (by split_ifs at hpc <;> exact hpc)
  | finishes hB hatt hsend hq hdead =>
    have hdone := h.setPumpB (p := .done) (by simp)
    exact { hdone with send := fun k hk => by cases hk }
  | exits hB hatt hdead => exact h.setPumpB (by simp)
  | abandons hB hover => exact h.setPumpB (by simp)
  | putsBack hB hatt =>
    have hpolling := h.setPumpB (p := .polling) (by simp)
    have hlast := (h.writing _ _ _ hB).2 rfl
    exact { hpolling with send := fun k hk => by cases hk; exact hlast }
  | fails hB hatt => exact (h.setPumpB (by simp)).park
  | resumes peer received pings dec =>
    refine { h with
      lt := fun k hl => ?_
      attached := fun k t hl ht => ?_ }
    · rw [List.length_append]
      exact Nat.lt_add_right _ (h.lt k hl)
    · rcases getElem?_concat_eq_some.1 ht with ht | ⟨rfl, -⟩
      · exact h.attached k t hl ht
      · exact absurd (h.lt _ hl) (Nat.lt_irrefl _)
  | attaches ht hpc hu => exact h.attaches ht hu
  | lapses ht hdue hclaimed => exact ⟨h.send, h.writing, h.lt, h.attached⟩
  | expires ht hdue halive hatt hepoch => exact ⟨h.send, h.writing, h.lt, h.attached⟩
  | elapses d => exact ⟨h.send, h.writing, h.lt, h.attached⟩

/-- Every step keeps the stream with the attachment made last. -/
theorem step [Postcard] (h : w.Latest) (hstep : w.step a = some w') : w'.Latest := by
  obtain ⟨u, hu, hafter⟩ := step_cases hstep
  have hlatest := h.moves hu
  cases hafter with
  | stays => exact hlatest
  | ends ha reason => exact hlatest.endSession reason
  | parks hreporter => exact hlatest.park

end Latest

/-! ## What the attachments are given -/

namespace Delivers

/-- A tail that a resume takes is part of what was recorded. -/
theorem tail_infix {usize : ℕ → ℕ} {received : ℕ} {tail : Bytes} (h : w.Delivers)
    (ht : w.st.replay.tailFrom usize received = some tail) : tail <:+: w.recorded := by
  have hbuf : tail <:+ w.st.replay.buf := by
    unfold Replay.tailFrom at ht
    dsimp only at ht
    split_ifs at ht
    rw [← Option.some.inj ht]
    exact List.drop_suffix _ _
  exact (hbuf.trans h.tracks.buf_suffix).isInfix

/-- What was written on a stream is part of what was recorded. -/
theorem wire_sublist (h : w.Delivers) (ht : w.tasks[k]? = some t) :
    (dataOf t.wire).Sublist w.recorded := by
  refine .trans ?_ (h.sent k t ht)
  rw [dataOf_append]
  exact List.sublist_append_left _ _

theorem quiet (h : w.Delivers) (hq : w.Quiet w') : w'.Delivers where
  tracks := hq.recorded ▸ hq.tracks _ h.tracks
  pending t' ht' fresh tail hpc := by
    obtain ⟨k, hk⟩ := List.getElem?_of_mem ht'
    obtain ⟨t, ht, hkeeps⟩ := hq.tasks.slot hk
    rw [hkeeps.wire, hq.recorded]
    exact h.pending t (List.mem_of_getElem? ht) fresh tail (hkeeps.replying fresh tail hpc)
  sent k t' ht' := by
    obtain ⟨t, ht, hkeeps⟩ := hq.tasks.slot ht'
    have hsent := h.sent k t ht
    rw [queuedFor] at hsent ⊢
    rw [hkeeps.wire, hq.last, hq.recorded]
    split_ifs at hsent ⊢
    · rw [dataOf_append] at hsent ⊢
      rwa [hq.dataOf_outq]
    · exact hsent

/-- Pump A records and queues the same bytes. -/
theorem record (h : w.Delivers) (buf : Bytes) : (w.record buf).Delivers where
  tracks := h.tracks.sent buf
  pending t ht fresh tail hpc := by
    obtain ⟨hwire, htail⟩ := h.pending t ht fresh tail hpc
    exact ⟨hwire, htail.trans (List.prefix_append _ _).isInfix⟩
  sent k t ht := by
    have hsent := h.sent k t ht
    have hdata : dataOf ((Incremental.chunks chunk buf).map encodeData) = buf :=
      dataOf_map_encodeData (by decide) (by decide) buf
    by_cases hl : w.st.last = some k
    · rw [queuedFor, if_pos hl] at hsent
      rw [queuedFor, if_pos (show (w.record buf).st.last = some k from hl)]
      simp only [World.record]
      rw [← List.append_assoc, dataOf_append, hdata]
      exact hsent.append_right buf
    · rw [queuedFor, if_neg hl] at hsent
      rw [queuedFor, if_neg (show (w.record buf).st.last ≠ some k from hl)]
      exact hsent.trans (List.sublist_append_left _ _)

/-- What happens to pump A or to the bytes it refused makes no difference. -/
theorem setPumpA (h : w.Delivers) (p : PumpA) (sshd : Bytes) :
    { w with pumpA := p, sshd := sshd }.Delivers :=
  ⟨h.tracks, h.pending, h.sent⟩

/-- A read of pump A returns. -/
theorem readSshd (h : w.Delivers) (buf : Bytes) (result : StreamResult) (refused : Bool) :
    (w.readSshd buf result refused).Delivers := by
  unfold World.readSshd
  by_cases hrefused : buf ≠ [] ∧ refused = true
  · rw [if_pos hrefused]
    exact (h.quiet (.endSession w _)).setPumpA _ _
  · rw [if_neg hrefused]
    dsimp only
    have hrec : (if buf = [] then w else w.record buf).Delivers := by
      split_ifs
      · exact h
      · exact h.record buf
    split
    · exact hrec.setPumpA _ _
    · exact (hrec.quiet (.endSession _ _)).setPumpA _ _
    · exact (hrec.quiet (.endSession _ _)).setPumpA _ _

/-- Pump B takes a frame off the queue: the stream it is written to is the one it was queued for. -/
theorem writes (h : w.Delivers) (hlatest : w.Latest) {b : Bytes} {q : List Bytes}
    (hsend : w.st.send = some k) (hq : w.st.outq = b :: q) :
    { w with
      st := { w.st with send := none, outq := q }
      pumpB := .writing b w.st.generation k
      tasks := w.tasks.modify k fun t => { t with wire := t.wire ++ [b] } }.Delivers where
  tracks := h.tracks
  pending t' ht' fresh tail hpc := by
    obtain ⟨j, hj⟩ := List.getElem?_of_mem ht'
    obtain ⟨t, ht, rfl⟩ := getElem?_modify_eq_some.1 hj
    split_ifs at hpc ⊢ with hkj
    · subst hkj
      exact absurd hpc (hlatest.attached k t (hlatest.send k hsend) ht fresh tail)
    · exact h.pending t (List.mem_of_getElem? ht) fresh tail hpc
  sent j t' ht' := by
    obtain ⟨t, ht, rfl⟩ := getElem?_modify_eq_some.1 ht'
    have hlast := hlatest.send k hsend
    have hsent := h.sent j t ht
    simp only [queuedFor, hlast, Option.some.injEq] at hsent ⊢
    split_ifs at hsent ⊢
    · rwa [hq, List.append_cons] at hsent
    · exact hsent

/-- A connection resumes. -/
theorem resumes (h : w.Delivers) (hlatest : w.Latest) (peer : String) (received : ℕ) (pings : Bool)
    (dec : Bytes) :
    { w with tasks := w.tasks ++ [w.resumeSession peer received pings dec] }.Delivers where
  tracks := h.tracks
  pending t ht fresh tail hpc := by
    rcases List.mem_append.1 ht with hmem | hmem
    · exact h.pending t hmem fresh tail hpc
    · obtain rfl := List.mem_singleton.1 hmem
      exact ⟨rfl, h.tail_infix (resumePc_replying hpc).2⟩
  sent k t ht := by
    rcases getElem?_concat_eq_some.1 ht with ht | ⟨rfl, rfl⟩
    · exact h.sent k t ht
    · have hne : w.st.last ≠ some w.tasks.length := fun hl =>
        absurd (hlatest.lt _ hl) (Nat.lt_irrefl _)
      rw [queuedFor, if_neg hne]
      exact List.nil_sublist _

/-- A task attaches: it is given its tail, and the attachment before it nothing more. -/
theorem attach (h : w.Delivers) {fresh : Bool} {tail : Bytes}
    (ht : w.tasks[k]? = some t) (hpc : t.pc = .replying fresh tail) :
    (w.attach k t tail).Delivers where
  tracks := h.tracks
  pending t' ht' fresh' tail' hpc' := by
    rcases List.mem_or_eq_of_mem_set ht' with hmem | rfl
    · exact h.pending t' hmem fresh' tail' hpc'
    · cases hpc'
  sent j t' ht' := by
    rcases getElem?_set_eq_some ht' with ⟨rfl, rfl⟩ | ⟨hne, hj⟩
    · obtain ⟨hwire, htail⟩ := h.pending t (List.mem_of_getElem? ht) fresh tail hpc
      have hdata : dataOf ((Incremental.chunks chunk tail).map encodeData) = tail :=
        dataOf_map_encodeData (by decide) (by decide) tail
      simp only [queuedFor, World.attach, if_true, hwire, List.nil_append, hdata]
      exact htail.sublist
    · simp only [queuedFor, World.attach, Option.some.injEq, Ne.symm hne, if_false,
        List.append_nil]
      exact h.wire_sublist hj

/-- **What the attachments are given was recorded.** Every step keeps it so. -/
theorem step (h : w.Delivers) (hlatest : w.Latest) (hstep : w.step a = some w') :
    w'.Delivers := by
  cases traffic_cases hstep with
  | quiet hq => exact h.quiet hq
  | polls hA hp => exact h.setPumpA _ _
  | reads hA => exact h.readSshd _ _ _
  | writes hsend hq => exact h.writes hlatest hsend hq
  | resumes peer received pings dec => exact h.resumes hlatest peer received pings dec
  | attaches ht hpc hq =>
    refine quiet ?_ hq
    have hattach := h.attach ht hpc
    split_ifs
    · exact ⟨hattach.tracks, hattach.pending, hattach.sent⟩
    · exact hattach

end Delivers

section Start

variable (id : SessionId) (creator : String) (grace : ℕ) (reg : Registry) (pings : Bool)
  (dec : Bytes)

omit [Postcard] in
theorem latest_start : (World.start id creator grace reg pings dec).Latest where
  send k hk := by cases hk
  writing b g k hb := by cases hb
  lt k hl := by cases hl
  attached k t hl := by cases hl

end Start

end World

end Listener
