import Wosh.Lib.Resume
import Wosh.Listener.Session

set_option relaxedAutoImplicit false
set_option autoImplicit false

/-!
# Listener to client: what an attachment is sent

Each attachment is meant to carry the bytes read from sshd, from the count its client resumed
from on. The tail of a resume is taken from the replay buffer before the reply is written, and
queued when the attachment begins; pump A may have recorded more in between.

## Main definitions

* `Listener.queuedFor` — the frames queued for a task's attachment.
* `Listener.undisturbed` — a step at which nothing was recorded between a tail and its attach,
  and at which the cast in `tail_from` is exact.
* `Listener.ToClient` — the invariant.

## Main results

* `Listener.ToClient.step` — an undisturbed step keeps the invariant.
* `Listener.sent_prefix` — along an undisturbed run, what is written on and queued for every
  attachment is an initial part of the sshd stream from its client's count on.
* `Listener.not_clientStreamIntact` — a run in which a byte read while the reply was being written
  is skipped.
-/

namespace Listener

open Tunnel Resume

/-! ## Definitions -/

/-- The frames queued for the attachment of a task: the queue belongs to the attachment that was
made last. -/
def queuedFor (w : World) (k : ℕ) : List Bytes := if w.st.last = some k then w.st.outq else []

/-- When a reply was written, nothing has been recorded since its tail was taken; and when a
tail is taken, the difference of the counters survives the cast or the buffer is too short for
what the cast leaves of it. -/
def undisturbed (w : World) : Action → Bool
  | .replied k none =>
    match w.tasks[k]? with
    | some t =>
      match t.pc with
      | .replying _ _ => w.st.replay.sentTotal = t.mark
      | _ => true
    | none => true
  | .resume _ received _ _ =>
    w.st.replay.sentTotal - received < 2 ^ 32 ∨
      w.st.replay.buf.length < wasm32 (w.st.replay.sentTotal - received)
  | _ => true

variable [Postcard]

/-- A task whose reply is being written: its tail is what had been recorded when it was taken,
from its client's count on, and nothing was written on its stream yet. -/
structure Pending (recorded : Bytes) (t : Task) (tail : Bytes) : Prop where
  /-- The count lies in what had been recorded then. -/
  resumeFrom_le : t.resumeFrom ≤ t.mark
  /-- What had been recorded then is still part of it. -/
  mark_le : t.mark ≤ recorded.length
  /-- The tail goes from the count up to the mark. -/
  tail_eq : tail = (recorded.take t.mark).drop t.resumeFrom
  /-- Pump B does not write on the stream of a task that has not attached. -/
  wire_eq : t.wire = []

/-- The invariant: the replay buffer tracks what was recorded, the stream and the queue belong to
the attachment made last, that attachment was given everything recorded since its client's
count, and every other one an initial part of it. -/
structure ToClient (w : World) : Prop where
  tracks : w.st.replay.Tracks w.recorded
  recorded_sshd : w.recorded <+: w.sshd
  /-- Pump A records what it reads, as long as it runs. -/
  recorded_eq : w.pumpA ≠ .done → w.recorded = w.sshd
  /-- The pumps are spawned once, by the first task. -/
  fresh : ∀ k t tail, w.tasks[k]? = some t → t.pc = .replying true tail →
    k = 0 ∧ w.pumpA = .unborn
  send_last : ∀ k, w.st.send = some k → w.st.last = some k
  /-- A write in progress is to the attachment made last, or its generation is over. -/
  writing_last : ∀ b g k, w.pumpB = .writing b g k →
    g ≤ w.st.generation ∧ (g = w.st.generation → w.st.last = some k)
  pending : ∀ t ∈ w.tasks, ∀ fresh tail, t.pc = .replying fresh tail →
    Pending w.recorded t tail
  last_lt : ∀ k, w.st.last = some k → k < w.tasks.length
  last_attached : ∀ k t, w.st.last = some k → w.tasks[k]? = some t →
    ∀ fresh tail, t.pc ≠ .replying fresh tail
  full : ∀ k t, w.st.last = some k → w.tasks[k]? = some t →
    Full t.resumeFrom (dataOf (t.wire ++ w.st.outq)) w.recorded
  fed : ∀ t ∈ w.tasks, Fed t.resumeFrom (dataOf t.wire) w.recorded

/-! ## Frames of the client -/

/-- A change of the shared state that adds no session bytes to the queue and leaves the rest of
what the attachments are sent alone. -/
structure SessionState.Quiet (st st' : SessionState) : Prop where
  tracks : ∀ s, st.replay.Tracks s → st'.replay.Tracks s
  dataOf_outq : dataOf st'.outq = dataOf st.outq
  send : st'.send = st.send
  generation : st'.generation = st.generation
  last : st'.last = st.last

theorem SessionState.Quiet.refl (st : SessionState) : st.Quiet st :=
  ⟨fun _ h => h, rfl, rfl, rfl, rfl⟩

theorem SessionState.Quiet.trans {st st' st'' : SessionState} (h : st.Quiet st')
    (h' : st'.Quiet st'') : st.Quiet st'' where
  tracks s hs := h'.tracks s (h.tracks s hs)
  dataOf_outq := h'.dataOf_outq.trans h.dataOf_outq
  send := h'.send.trans h.send
  generation := h'.generation.trans h.generation
  last := h'.last.trans h.last

/-- Applying a frame queues at most an ACK or a PONG, and at most trims the replay buffer. -/
theorem applyFrame_quiet (pings : Bool) (st : SessionState) (f : Frame) :
    st.Quiet (applyFrame pings st f).1 := by
  cases f with
  | data payload =>
    unfold applyFrame
    simp only
    split_ifs
    · exact ⟨fun _ h => h, by simp [streamData_encodeAck], rfl, rfl, rfl⟩
    · exact ⟨fun _ h => h, rfl, rfl, rfl, rfl⟩
  | ack n => exact ⟨fun _ h => h.ack _ _, rfl, rfl, rfl, rfl⟩
  | hello h => exact .refl st
  | reply r => exact .refl st
  | ping p =>
    unfold applyFrame
    split_ifs
    · exact ⟨fun _ h => h, by simp [streamData_encodePong], rfl, rfl, rfl⟩
    · exact .refl st
  | pong p =>
    unfold applyFrame
    split_ifs <;> exact .refl st

/-- So does applying any number of them. -/
theorem applyFrames_quiet (pings : Bool) (fs : List Frame) (st : SessionState) :
    st.Quiet (applyFrames pings st fs).1 := by
  induction fs generalizing st with
  | nil => exact .refl st
  | cons f fs ih =>
    have hf := applyFrame_quiet pings st f
    unfold applyFrames
    split
    · rename_i st' n e heq
      rw [heq] at hf
      exact hf
    · rename_i st' n heq
      rw [heq] at hf
      exact hf.trans (ih st')

/-! ## What each operation does to the invariant -/

namespace ToClient

variable {w : World}

/-- A quiet change of the shared state. -/
theorem quiet (h : ToClient w) {st : SessionState} (hq : w.st.Quiet st) :
    ToClient { w with st := st } where
  tracks := hq.tracks _ h.tracks
  recorded_sshd := h.recorded_sshd
  recorded_eq := h.recorded_eq
  fresh := h.fresh
  send_last k hk := by
    rw [hq.last]
    exact h.send_last k (by rw [← hq.send]; exact hk)
  writing_last b g k hb := by
    simp only [hq.generation, hq.last]
    exact h.writing_last b g k hb
  pending := h.pending
  last_lt k hl := h.last_lt k (by rw [← hq.last]; exact hl)
  last_attached k t hl ht := h.last_attached k t (by rw [← hq.last]; exact hl) ht
  full k t hl ht := by
    have hfull := h.full k t (by rw [← hq.last]; exact hl) ht
    rw [dataOf_append] at hfull ⊢
    rw [hq.dataOf_outq]
    exact hfull
  fed := h.fed

/-- A task whose stream carries the same moves on. -/
theorem setTask (h : ToClient w) {k : ℕ} {t t' : Task} (ht : w.tasks[k]? = some t)
    (hfrom : t'.resumeFrom = t.resumeFrom) (hwire : t'.wire = t.wire)
    (hpc : ∀ fresh tail, t'.pc ≠ .replying fresh tail) : ToClient (w.setTask k t') where
  tracks := h.tracks
  recorded_sshd := h.recorded_sshd
  recorded_eq := h.recorded_eq
  fresh j u tail hu hu' := by
    simp only [World.setTask, List.getElem?_set] at hu
    split_ifs at hu with hkj
    · cases hu
      exact absurd hu' (hpc true tail)
    · exact h.fresh j u tail hu hu'
  send_last := h.send_last
  writing_last := h.writing_last
  pending u hu fresh tail hu' := by
    rcases List.mem_or_eq_of_mem_set hu with hmem | rfl
    · exact h.pending u hmem fresh tail hu'
    · exact absurd hu' (hpc fresh tail)
  last_lt j hl := by
    simp only [World.setTask, List.length_set]
    exact h.last_lt j hl
  last_attached j u hl hu := by
    simp only [World.setTask, List.getElem?_set] at hu
    split_ifs at hu with hkj
    · cases hu
      exact hpc
    · exact h.last_attached j u hl hu
  full j u hl hu := by
    simp only [World.setTask, List.getElem?_set] at hu
    split_ifs at hu with hkj
    · cases hu
      subst hkj
      rw [hfrom, hwire]
      exact h.full k t hl ht
    · exact h.full j u hl hu
  fed u hu := by
    rcases List.mem_or_eq_of_mem_set hu with hmem | rfl
    · exact h.fed u hmem
    · rw [hfrom, hwire]
      exact h.fed t (List.mem_of_getElem? ht)

/-- The registry, the timers, the clock, pump C and what it wrote play no part in it, and
neither does the flag that ends the session. -/
theorem congr (h : ToClient w) {w' : World} (ha : w'.pumpA = w.pumpA)
    (hb : w'.pumpB = w.pumpB) (htasks : w'.tasks = w.tasks) (hsshd : w'.sshd = w.sshd)
    (hrec : w'.recorded = w.recorded) (hst : w.st.Quiet w'.st) : ToClient w' := by
  have hq := h.quiet hst
  obtain ⟨id, creator, grace, st, reg, pumpA, pumpB, pumpC, tasks, timers, now, sshd, recorded,
    toSshd⟩ := w'
  simp only at ha hb htasks hsshd hrec hq
  subst ha hb htasks hsshd hrec
  exact ⟨hq.tracks, hq.recorded_sshd, hq.recorded_eq, hq.fresh, hq.send_last, hq.writing_last,
    hq.pending, hq.last_lt, hq.last_attached, hq.full, hq.fed⟩

theorem endSession (h : ToClient w) (reason : String) : ToClient (w.endSession reason) :=
  h.congr rfl rfl rfl rfl rfl ⟨fun _ hs => hs, rfl, rfl, rfl, rfl⟩

/-- Pump A moves on. -/
theorem setPumpA (h : ToClient w) {p : PumpA} (hborn : w.pumpA ≠ .unborn)
    (hp : p ≠ .done → w.pumpA ≠ .done) : ToClient { w with pumpA := p } :=
  { h with
    recorded_eq := fun hne => h.recorded_eq (hp hne)
    fresh := fun k t tail ht hpc => absurd (h.fresh k t tail ht hpc).2 hborn }

/-- Pump B is not in a write. -/
theorem setPumpB (h : ToClient w) {p : PumpB} (hp : ∀ b g k, p ≠ .writing b g k) :
    ToClient { w with pumpB := p } :=
  { h with writing_last := fun b g k hb => absurd hb (hp b g k) }

/-- Parking takes the stream away, and makes every write in progress a superseded one. -/
theorem park (h : ToClient w) : ToClient w.park := by
  unfold World.park
  split_ifs
  · exact h
  · exact h.endSession _
  · exact { h with
      send_last := fun k hk => by simp at hk
      writing_last := fun b g k hb => by
        have hle := (h.writing_last b g k hb).1
        exact ⟨Nat.le_succ_of_le hle,
          fun heq => absurd heq (Nat.ne_of_lt (Nat.lt_succ_of_le hle))⟩ }

/-- Pump D applies what its decoder holds. -/
theorem drainReader (h : ToClient w) {k : ℕ} {t t₀ : Task} (g : ℕ) (ht : w.tasks[k]? = some t₀)
    (hfrom : t.resumeFrom = t₀.resumeFrom) (hwire : t.wire = t₀.wire) :
    ToClient (w.drainReader k t g) := by
  have hq := h.quiet (applyFrames_quiet t.pings (frames t.dec).1 w.st)
  unfold World.drainReader
  simp only
  split
  · apply ToClient.park
    exact hq.setTask ht hfrom hwire (by simp)
  · apply ToClient.park
    exact hq.setTask ht hfrom hwire (by simp)
  · exact hq.setTask ht hfrom hwire (by simp)

/-- A read of pump D returns. -/
theorem readClient (h : ToClient w) {k : ℕ} {t : Task} (g : ℕ) (r : ReadResult)
    (ht : w.tasks[k]? = some t) : ToClient (w.readClient k t g r) := by
  unfold World.readClient
  simp only
  by_cases hg : w.st.generation ≠ g
  · rw [if_pos hg]
    exact h.setTask ht rfl rfl (by simp)
  · rw [if_neg hg]
    split
    · exact h.drainReader g ht rfl rfl
    · split_ifs
      · exact h.setTask ht rfl rfl (by simp)
      · apply ToClient.park
        exact h.setTask ht rfl rfl (by simp)

/-- Pump A records and queues the same bytes. -/
theorem record (h : ToClient w) (ha : w.pumpA ≠ .done) (buf : Bytes) :
    ToClient (w.record buf) where
  tracks := h.tracks.sent buf
  recorded_sshd := by
    simp only [World.record, h.recorded_eq ha]
    exact List.prefix_refl _
  recorded_eq _ := by simp only [World.record, h.recorded_eq ha]
  fresh := h.fresh
  send_last := h.send_last
  writing_last := h.writing_last
  pending t ht fresh tail hpc := by
    obtain ⟨hle, hmark, htail, hwire⟩ := h.pending t ht fresh tail hpc
    refine ⟨hle, ?_, ?_, hwire⟩
    · simp only [World.record, List.length_append]
      omega
    · simp only [World.record]
      rw [List.take_append_of_le_length hmark]
      exact htail
  last_lt := h.last_lt
  last_attached := h.last_attached
  full k t hl ht := by
    have hfull := (h.full k t hl ht).push buf
    simp only [World.record]
    rw [← List.append_assoc, dataOf_append,
      dataOf_map_encodeData (by decide) (by decide)]
    exact hfull
  fed t ht := (h.fed t ht).grow buf

/-- A read of pump A returns. -/
theorem readSshd (h : ToClient w) (ha : w.pumpA = .reading) (buf : Bytes)
    (result : StreamResult) (refused : Bool) : ToClient (w.readSshd buf result refused) := by
  have hdone : w.pumpA ≠ .done := by simp [ha]
  have hborn : w.pumpA ≠ .unborn := by simp [ha]
  unfold World.readSshd
  by_cases hrefused : buf ≠ [] ∧ refused = true
  · rw [if_pos hrefused]
    have hend := h.endSession "host key refused"
    exact { hend with
      recorded_sshd := h.recorded_sshd.trans (List.prefix_append _ _)
      recorded_eq := fun hne => absurd rfl hne
      fresh := fun k t tail ht hpc => absurd (h.fresh k t tail ht hpc).2 hborn }
  · rw [if_neg hrefused]
    simp only
    have hrec : ToClient (if buf = [] then w else w.record buf) := by
      split_ifs
      · exact h
      · exact h.record hdone buf
    have ha' : (if buf = [] then w else w.record buf).pumpA = .reading := by
      split_ifs <;> exact ha
    split
    · exact hrec.setPumpA (by simp [ha']) (by simp [ha'])
    · exact (hrec.endSession _).setPumpA (by simp [World.endSession, ha']) (by simp)
    · exact (hrec.endSession _).setPumpA (by simp [World.endSession, ha']) (by simp)

/-- Pump B starts to write a frame: it leaves the queue and enters the stream.

**Proof sketch.** The stream it is written to is the one of the attachment made last, so what is
written on that stream and queued for it stays the same. -/
theorem startWrite (h : ToClient w) {b : Bytes} {q : List Bytes} {k : ℕ}
    (hsend : w.st.send = some k) (hq : w.st.outq = b :: q) :
    ToClient { w with
      st := { w.st with send := none, outq := q }
      pumpB := .writing b w.st.generation k
      tasks := w.tasks.modify k fun t => { t with wire := t.wire ++ [b] } } := by
  have hlast := h.send_last k hsend
  -- a task after the write is one before it, with the frame on its stream if it is task `k`
  have hget : ∀ {j u},
      (w.tasks.modify k fun t => { t with wire := t.wire ++ [b] })[j]? = some u →
      ∃ t, w.tasks[j]? = some t ∧
        u = if k = j then { t with wire := t.wire ++ [b] } else t := by
    intro j u hu
    rw [List.getElem?_modify] at hu
    obtain ⟨t, ht, rfl⟩ := Option.map_eq_some_iff.1 hu
    exact ⟨t, ht, by split_ifs <;> rfl⟩
  have hfull : ∀ {t}, w.tasks[k]? = some t →
      Full t.resumeFrom (dataOf ((t.wire ++ [b]) ++ q)) w.recorded := by
    intro t ht
    have := h.full k t hlast ht
    rwa [hq, List.append_cons] at this
  exact {
    tracks := h.tracks
    recorded_sshd := h.recorded_sshd
    recorded_eq := h.recorded_eq
    fresh := fun j u tail hu hpc => by
      obtain ⟨t, ht, rfl⟩ := hget hu
      exact h.fresh j t tail ht (by split_ifs at hpc <;> exact hpc)
    send_last := fun j hj => by simp at hj
    writing_last := fun b' g j hb => by
      cases hb
      exact ⟨Nat.le_refl _, fun _ => hlast⟩
    pending := fun u hu fresh tail hpc => by
      obtain ⟨j, hj⟩ := List.getElem?_of_mem hu
      obtain ⟨t, ht, rfl⟩ := hget hj
      by_cases hkj : k = j
      · subst hkj
        rw [if_pos rfl] at hpc
        exact absurd hpc (h.last_attached k t hlast ht fresh tail)
      · rw [if_neg hkj] at hpc ⊢
        exact h.pending t (List.mem_of_getElem? ht) fresh tail hpc
    last_lt := fun j hl => by
      rw [List.length_modify]
      exact h.last_lt j hl
    last_attached := fun j u hl hu fresh tail hpc => by
      obtain ⟨t, ht, rfl⟩ := hget hu
      exact h.last_attached j t hl ht fresh tail (by split_ifs at hpc <;> exact hpc)
    full := fun j u hl hu => by
      obtain rfl : k = j := Option.some_inj.1 (hlast.symm.trans hl)
      obtain ⟨t, ht, rfl⟩ := hget hu
      rw [if_pos rfl]
      exact hfull ht
    fed := fun u hu => by
      obtain ⟨j, hj⟩ := List.getElem?_of_mem hu
      obtain ⟨t, ht, rfl⟩ := hget hj
      by_cases hkj : k = j
      · subst hkj
        rw [if_pos rfl]
        refine (hfull ht).fed.shrink ?_
        rw [dataOf_append (t.wire ++ [b]) q]
        exact List.prefix_append _ _
      · rw [if_neg hkj]
        exact h.fed t (List.mem_of_getElem? ht) }

/-- Pump B takes a job. -/
theorem takeJob (h : ToClient w) {w' : World} (hjob : w.takeJob = some w') : ToClient w' := by
  unfold World.takeJob at hjob
  obtain ⟨⟨job, st⟩, hnext, rfl⟩ := Option.map_eq_some_iff.1 hjob
  obtain ⟨b, q, k, -, hsend, hq, rfl, rfl⟩ | ⟨k, -, hsend, hq, -, rfl, rfl⟩ | ⟨-, -, rfl, rfl⟩ :=
    nextWriteJob_cases hnext
  · exact h.startWrite hsend hq
  · have hB := h.setPumpB (p := .done) (by simp)
    exact { hB with send_last := fun j hj => by simp at hj }
  · exact h.setPumpB (by simp)

/-- Pump B's write returns: the stream it puts back is that of the attachment made last. -/
theorem wroteClient (h : ToClient w) {b : Bytes} {g k : ℕ} (hb : w.pumpB = .writing b g k)
    (ok : Bool) : ToClient (w.wroteClient g k ok) := by
  have hB := h.setPumpB (p := .polling) (by simp)
  unfold World.wroteClient
  simp only
  by_cases hsuper : w.st.generation ≠ g ∨ w.st.attached = false
  · rw [if_pos hsuper]
    exact hB
  · rw [if_neg hsuper]
    split_ifs
    · simp only [not_or, not_not] at hsuper
      have hlast := (h.writing_last b g k hb).2 hsuper.1.symm
      exact { hB with send_last := fun j hj => by cases hj; exact hlast }
    · exact hB.park

/-- A connection resumes: its tail, if it gets one, is what was recorded from its count on. -/
theorem resume (h : ToClient w) {peer : String} {received : ℕ} {pings : Bool} {dec : Bytes}
    (hu : undisturbed w (.resume peer received pings dec) = true) :
    ToClient { w with tasks := w.tasks ++ [w.resumeSession peer received pings dec] } := by
  have hpending : ∀ fresh tail, w.resumePc peer received = .replying fresh tail →
      Pending w.recorded (w.resumeSession peer received pings dec) tail := by
    intro fresh tail hpc
    obtain ⟨-, htail⟩ := World.resumePc_replying hpc
    have hexact := Replay.wasm32_exact htail (by simpa [undisturbed] using hu)
    obtain ⟨hle, rfl⟩ := h.tracks.tailFrom hexact htail
    have htotal := h.tracks.sentTotal_eq
    refine ⟨?_, ?_, ?_, rfl⟩
    · simpa [World.resumeSession, htotal] using hle
    · exact Nat.le_of_eq htotal
    · rw [World.resumeSession, htotal, List.take_length]
  have hget : ∀ {j : ℕ} {u : Task},
      (w.tasks ++ [w.resumeSession peer received pings dec])[j]? = some u →
      w.tasks[j]? = some u ∨
        (j = w.tasks.length ∧ u = w.resumeSession peer received pings dec) := by
    intro j u hj
    rcases Nat.lt_trichotomy j w.tasks.length with hlt | heq | hgt
    · rw [List.getElem?_append_left hlt] at hj
      exact .inl hj
    · subst heq
      simp at hj
      exact .inr ⟨rfl, hj.symm⟩
    · rw [List.getElem?_eq_none (by simp; omega)] at hj
      cases hj
  exact { h with
    fresh := fun j u tail hj hpc => by
      rcases hget hj with hj | ⟨-, rfl⟩
      · exact h.fresh j u tail hj hpc
      · exact absurd (World.resumePc_replying hpc).1 (by simp)
    pending := fun u hu fresh tail hpc => by
      rcases List.mem_append.1 hu with hmem | hmem
      · exact h.pending u hmem fresh tail hpc
      · obtain rfl := List.mem_singleton.1 hmem
        exact hpending fresh tail hpc
    last_lt := fun j hl => by
      rw [List.length_append]
      exact Nat.lt_add_right _ (h.last_lt j hl)
    last_attached := fun j u hl hj fresh tail hpc => by
      rcases hget hj with hj | ⟨rfl, rfl⟩
      · exact h.last_attached j u hl hj fresh tail hpc
      · exact absurd (h.last_lt _ hl) (Nat.lt_irrefl _)
    full := fun j u hl hj => by
      rcases hget hj with hj | ⟨rfl, rfl⟩
      · exact h.full j u hl hj
      · exact absurd (h.last_lt _ hl) (Nat.lt_irrefl _)
    fed := fun u hu => by
      rcases List.mem_append.1 hu with hmem | hmem
      · exact h.fed u hmem
      · obtain rfl := List.mem_singleton.1 hmem
        exact List.nil_prefix }

/-- A task attaches: since nothing was recorded after its tail was taken, its stream is given
everything recorded from its client's count on. -/
theorem attach (h : ToClient w) {k : ℕ} {t : Task} {fresh : Bool} {tail : Bytes}
    (ht : w.tasks[k]? = some t) (hpc : t.pc = .replying fresh tail)
    (hmark : w.st.replay.sentTotal = t.mark) : ToClient (w.attach k t tail) := by
  obtain ⟨hle, -, htail, hwire⟩ := h.pending t (List.mem_of_getElem? ht) fresh tail hpc
  have hall : Full t.resumeFrom tail w.recorded := by
    rw [← hmark, h.tracks.sentTotal_eq] at htail hle
    rw [List.take_length] at htail
    rw [htail]
    exact full_drop hle
  set t' : Task := { t with pc := .reading (w.st.generation + 1) } with ht'
  have hset : ToClient (w.setTask k t') := h.setTask ht rfl rfl (by simp [ht'])
  have hk : k < w.tasks.length := (List.getElem?_eq_some_iff.1 ht).1
  have hget : (w.setTask k t').tasks[k]? = some t' := by
    simp [World.setTask, hk]
  exact { hset with
    send_last := fun j hj => hj
    writing_last := fun b g j hb => by
      have hg := (h.writing_last b g j hb).1
      exact ⟨Nat.le_succ_of_le hg, fun heq => absurd heq (Nat.ne_of_lt (Nat.lt_succ_of_le hg))⟩
    last_lt := fun j hj => by
      cases hj
      simpa [World.attach, World.setTask] using hk
    last_attached := fun j u hj hu fresh' tail' hpc' => by
      cases hj
      cases hget.symm.trans hu
      cases hpc'
    full := fun j u hj hu => by
      cases hj
      cases hget.symm.trans hu
      have hcut : dataOf ((Incremental.chunks chunk tail).map encodeData) = tail :=
        dataOf_map_encodeData (by decide) (by decide) tail
      simp only [ht', hwire, List.nil_append, World.attach, hcut]
      exact hall }

/-- The first task spawns the pumps, once it is attached. -/
theorem spawn (h : ToClient w) (hborn : w.pumpA = .unborn)
    (hnone : ∀ t tail, w.tasks[0]? = some t → t.pc ≠ .replying true tail) :
    ToClient w.spawnSessionTasks :=
  { h with
    recorded_eq := fun _ => h.recorded_eq (by simp [hborn])
    fresh := fun k t tail ht hpc => by
      obtain ⟨rfl, -⟩ := h.fresh k t tail ht hpc
      exact absurd hpc (hnone t tail ht)
    writing_last := fun b g k hb => by cases hb }

/-- A task attaches and begins to read. -/
theorem attachTask (h : ToClient w) {k : ℕ} {t : Task} {fresh : Bool} {tail : Bytes}
    (ht : w.tasks[k]? = some t) (hpc : t.pc = .replying fresh tail)
    (hmark : w.st.replay.sentTotal = t.mark) : ToClient (w.attachTask k t fresh tail) := by
  have hattach := h.attach ht hpc hmark
  have hk : k < w.tasks.length := (List.getElem?_eq_some_iff.1 ht).1
  have hget : (w.attach k t tail).tasks[k]? =
      some { t with pc := .reading (w.st.generation + 1) } := by
    simp [World.attach, World.setTask, hk]
  unfold World.attachTask
  cases fresh with
  | false => exact hattach.drainReader _ hget rfl rfl
  | true =>
    obtain ⟨rfl, hborn⟩ := h.fresh k t tail ht hpc
    have hspawn : ToClient (w.attach 0 t tail).spawnSessionTasks :=
      hattach.spawn hborn fun u tail' hu hpc' => by
        cases hget.symm.trans hu
        cases hpc'
    exact hspawn.drainReader _ hget rfl rfl

/-! ## Runs -/

/-- **An undisturbed step keeps the invariant.** -/
theorem step (h : ToClient w) {a : Action} {w' : World} (hu : undisturbed w a = true)
    (hstep : w.step a = some w') : ToClient w' := by
  have quiet : ∀ {v : World}, v.pumpA = w.pumpA → v.pumpB = w.pumpB → v.tasks = w.tasks →
      v.sshd = w.sshd → v.recorded = w.recorded → v.st.replay = w.st.replay →
      v.st.outq = w.st.outq → v.st.send = w.st.send → v.st.generation = w.st.generation →
      v.st.last = w.st.last → ToClient v := fun ha hb ht hs hr hrep hq hsend hg hl =>
    h.congr ha hb ht hs hr ⟨fun _ h => by rw [hrep]; exact h, by rw [hq], hsend, hg, hl⟩
  cases a with
  | pollA =>
    simp only [World.step] at hstep
    split_ifs at hstep with hA hdead hatt <;> cases hstep
    · exact h.setPumpA (by simpa using fun hc => hA (by simp [hc])) (by simp)
    · exact h.setPumpA (by simpa using fun hc => hA (by simp [hc]))
        (fun _ hc => hA (by simp [hc]))
  | readA buf result refused =>
    simp only [World.step, Option.ite_none_right_eq_some, Option.some.injEq] at hstep
    obtain ⟨hA, rfl⟩ := hstep
    exact h.readSshd hA buf result refused
  | pollB =>
    simp only [World.step, Option.ite_none_right_eq_some] at hstep
    exact h.takeJob hstep.2
  | wroteB ok =>
    simp only [World.step] at hstep
    split at hstep <;> cases hstep
    rename_i hb
    exact h.wroteClient hb ok
  | pollC =>
    simp only [World.step, Option.ite_none_right_eq_some] at hstep
    obtain ⟨_, _, rfl⟩ := World.takeInbound_cases hstep.2
    exact quiet rfl rfl rfl rfl rfl rfl rfl rfl rfl rfl
  | wroteC n =>
    simp only [World.step] at hstep
    split at hstep <;> cases hstep
    unfold World.wroteSshd
    simp only
    split_ifs <;> exact quiet rfl rfl rfl rfl rfl rfl rfl rfl rfl rfl
  | resume peer received pings dec =>
    cases hstep
    exact h.resume hu
  | replied k err =>
    simp only [World.step] at hstep
    split at hstep
    · cases hstep
    · rename_i t ht
      split at hstep
      · cases hstep
        exact h.setTask ht rfl rfl (by simp)
      · rename_i fresh tail hpc
        cases hstep
        exact h.attachTask ht hpc (by simpa [undisturbed, ht, hpc] using hu)
      · cases hstep
  | refused k =>
    simp only [World.step] at hstep
    split at hstep
    · cases hstep
    · rename_i t ht
      split at hstep
      · rename_i reason gap err hpc
        cases hstep
        split_ifs
        · exact (h.endSession reason).setTask ht rfl rfl (by simp)
        · exact h.setTask ht rfl rfl (by simp)
      · cases hstep
  | read k r =>
    simp only [World.step] at hstep
    split at hstep
    · cases hstep
    · rename_i t ht
      split at hstep
      · cases hstep
        exact h.readClient _ r ht
      · cases hstep
  | fire i =>
    simp only [World.step] at hstep
    split at hstep
    · cases hstep
    · split_ifs at hstep
      cases hstep
      unfold World.expire
      split_ifs <;> exact quiet rfl rfl rfl rfl rfl rfl rfl rfl rfl rfl
  | elapse d =>
    cases hstep
    exact quiet rfl rfl rfl rfl rfl rfl rfl rfl rfl rfl
  | otherEnded id reason =>
    simp only [World.step] at hstep
    split_ifs at hstep
    cases hstep
    exact quiet rfl rfl rfl rfl rfl rfl rfl rfl rfl rfl

end ToClient

/-- The invariant holds when `start_session` registers the session. -/
theorem toClient_start (id : SessionId) (creator : String) (grace : ℕ) (reg : Registry)
    (pings : Bool) (dec : Bytes) : ToClient (World.start id creator grace reg pings dec) where
  tracks := Replay.tracks_new
  recorded_sshd := List.prefix_refl _
  recorded_eq _ := rfl
  fresh k t tail ht _ := by
    obtain ⟨hk, -⟩ := List.getElem?_eq_some_iff.1 ht
    exact ⟨Nat.lt_one_iff.1 hk, rfl⟩
  send_last k hk := by cases hk
  writing_last b g k hb := by cases hb
  pending t ht fresh tail hpc := by
    obtain rfl := List.mem_singleton.1 ht
    cases hpc
    exact ⟨Nat.le_refl _, Nat.le_refl _, rfl, rfl⟩
  last_lt k hl := by cases hl
  last_attached k t hl := by cases hl
  full k t hl := by cases hl
  fed t ht := by
    obtain rfl := List.mem_singleton.1 ht
    exact List.nil_prefix

/-- **Listener to client integrity.** In every state reached by a run whose steps are all
undisturbed, what was written on and is queued for the attachment of every connection task is an
initial part of the bytes read from sshd, from the count its client resumed from on.

**Proof sketch.** The invariant `ToClient` holds initially and is kept by every undisturbed step.
It says so of the attachment made last with its queue, and of every other one without. -/
theorem sent_prefix {id : SessionId} {creator : String} {grace : ℕ} {reg : Registry}
    {pings : Bool} {dec : Bytes} {as : List Action} {w : World}
    (hrun : Run.run World.step (World.start id creator grace reg pings dec) as = some w)
    (hundisturbed : Run.Along World.step (fun w a => undisturbed w a = true)
      (World.start id creator grace reg pings dec) as)
    {k : ℕ} {t : Task} (ht : w.tasks[k]? = some t) :
    Fed t.resumeFrom (dataOf (t.wire ++ queuedFor w k)) w.sshd := by
  have h : ToClient w :=
    Run.run_inv (fun _ _ _ h hu hstep => h.step hu hstep) (toClient_start ..) hundisturbed hrun
  rw [queuedFor]
  split_ifs with hlast
  · exact (h.full k t hlast ht).fed.grow_of_isPrefix h.recorded_sshd
  · rw [List.append_nil]
    exact (h.fed t (List.mem_of_getElem? ht)).grow_of_isPrefix h.recorded_sshd

/-- Listener to client integrity as it should be, along every run. -/
def ClientStreamIntact : Prop :=
  ∀ (id : SessionId) (creator : String) (grace : ℕ) (reg : Registry) (pings : Bool) (dec : Bytes)
    (as : List Action) (w : World) (k : ℕ) (t : Task),
    Run.run World.step (World.start id creator grace reg pings dec) as = some w →
    w.tasks[k]? = some t → Fed t.resumeFrom (dataOf (t.wire ++ queuedFor w k)) w.sshd

/-- A session that has sent a byte, and whose client reconnects and asks for the stream from the
start; sshd writes another byte while the reply is on its way. -/
def resumeWhileReading : List Action :=
  [.replied 0 none, .pollA, .readA [1] .complete false, .pollA,
    .resume "client" 0 true [], .readA [2] .complete false, .replied 1 none, .pollA,
    .readA [3] .complete false]

omit [Postcard] in
/-- The byte read while the reply was being written is skipped: the second attachment is sent
the first and the third. -/
theorem not_clientStreamIntact : ¬ @ClientStreamIntact Postcard.golden := by
  intro h
  have hrun : ∃ w, @Run.run _ _ (@World.step Postcard.golden)
      (World.start sampleId "client" 60 {} true []) resumeWhileReading = some w ∧
      w.sshd = [1, 2, 3] ∧ ∃ t, w.tasks[1]? = some t ∧ t.resumeFrom = 0 ∧
        @dataOf Postcard.golden (t.wire ++ queuedFor w 1) = [1, 3] := by
    refine ⟨_, rfl, rfl, _, rfl, rfl, ?_⟩
    decide
  obtain ⟨w, hw, hsshd, t, ht, hfrom, hdata⟩ := hrun
  have hfed := h sampleId "client" 60 {} true [] resumeWhileReading w 1 t hw ht
  rw [hsshd, hfrom, hdata] at hfed
  exact absurd hfed (by rw [Fed]; decide)

/-- A resume during which sshd stays silent: the run to which `sent_prefix` is applied. -/
def quietResume : List Action :=
  [.replied 0 none, .pollA, .readA [1] .complete false, .pollB, .wroteB true,
    .resume "client" 0 true [], .replied 1 none, .pollA, .readA [2] .complete false]

omit [Postcard] in
/-- Along it, the second attachment is sent an initial part of what sshd wrote. -/
theorem sent_prefix_quietResume :
    ∃ w t, @Run.run _ _ (@World.step Postcard.golden)
        (World.start sampleId "client" 60 {} true []) quietResume = some w ∧
      w.tasks[1]? = some t ∧ w.sshd = [1, 2] ∧
      Fed t.resumeFrom (@dataOf Postcard.golden (t.wire ++ queuedFor w 1)) w.sshd :=
  ⟨_, _, rfl, rfl, rfl, @ sent_prefix Postcard.golden sampleId "client" 60 {} true [] quietResume _
    rfl (by decide) 1 _ rfl⟩

end Listener
