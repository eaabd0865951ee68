import Wosh.Lib.Resume
import Wosh.Listener.Session

set_option relaxedAutoImplicit false
set_option autoImplicit false

/-!
# Client to sshd: what the listener hands on

A client that resumes is told how many bytes the listener has received, and goes on sending from
there. The count is taken before the reply is written, and until the new attachment is made the
old one's reader goes on counting.

## Main definitions

* `Listener.faithful` — a step at which the client of every attachment sends the outbound stream
  from the count its reply carried.
* `Listener.unmoved` — a step at which the count in a reply is still the count when its
  attachment begins.
* `Listener.ToSshd` — the invariant.

## Main results

* `Listener.ToSshd.step` — a faithful and unmoved step keeps the invariant.
* `Listener.pushed_prefix` — along such a run, what is handed on to sshd is an initial part of the
  clients' outbound stream, and the receive counter is its length.
* `Listener.not_sshdStreamIntact` — a run in which two attachments deliver the same byte.
-/

namespace Listener

open Tunnel Resume

variable [Postcard]

/-! ## Definitions -/

/-- The clients keep to the handshake: what the client of an attachment has sent is an initial
part of the outbound stream `o` from the count its reply carries on. -/
def faithful (o : Bytes) (w : World) : Action → Bool
  | .resume _ _ _ dec => (streamData dec).isPrefixOf (o.drop w.st.received)
  | .read k (.chunk b) =>
    match w.tasks[k]? with
    | some t => (streamData (t.arrived ++ b)).isPrefixOf (o.drop t.received)
    | none => true
  | _ => true

omit [Postcard] in
/-- When a reply was written, the receive counter is what the reply says. -/
def unmoved (w : World) : Action → Bool
  | .replied k none =>
    match w.tasks[k]? with
    | some t =>
      match t.pc with
      | .replying _ _ => w.st.received = t.received
      | _ => true
    | none => true
  | _ => true

/-- What pump C has taken from the queue and not written yet. -/
def PumpC.inFlight : PumpC → Bytes
  | .writing c => c
  | _ => []

/-- A reader that is current: it belongs to the attachment made last, the listener's stream was
put together up to what it delivered, and its decoder holds what is left of that. -/
structure Current (o : Bytes) (st : SessionState) (k : ℕ) (t : Task) : Prop where
  last : st.last = some k
  joined : Joined t.received (streamData t.arrived) st.pushed o
  rest : (frames t.arrived).2 = .ok t.dec

/-- The invariant. One task can be left out of it while it is about to apply frames. -/
structure ToSshd (o : Bytes) (skip : Option ℕ) (w : World) : Prop where
  pushed_isPrefix : w.st.pushed <+: o
  received_eq : w.st.received = w.st.pushed.length
  /-- What pump C writes and what is queued for it follow each other in what was pushed. -/
  queued : w.pumpC ≠ .done →
    w.toSshd ++ w.pumpC.inFlight ++ w.st.inq.flatten = w.st.pushed
  written : w.toSshd <+: w.st.pushed
  /-- The pumps are spawned once, by the first task. -/
  fresh : ∀ (k : ℕ) (t : Task) (tail : Bytes), w.tasks[k]? = some t → t.pc = .replying true tail →
    k = 0 ∧ w.pumpC = .unborn
  replying : ∀ t ∈ w.tasks, ∀ fresh tail, t.pc = .replying fresh tail →
    t.arrived = t.dec ∧ streamData t.dec <+: o.drop t.received
  reading_le : ∀ (k : ℕ) (t : Task) (g : ℕ), w.tasks[k]? = some t → t.pc = .reading g → g ≤ w.st.generation
  reading : ∀ (k : ℕ) (t : Task) (g : ℕ), skip ≠ some k → w.tasks[k]? = some t → t.pc = .reading g →
    g = w.st.generation → Current o w.st k t

/-! ## Frames of the client -/

omit [Postcard] in
/-- A change of the shared state that pushes the bytes `b`. -/
structure SessionState.Pushes (st : SessionState) (b : Bytes) (st' : SessionState) : Prop where
  received : st'.received = st.received + b.length
  pushed : st'.pushed = st.pushed ++ b
  inq : st'.inq.flatten = st.inq.flatten ++ b
  generation : st'.generation = st.generation
  last : st'.last = st.last

omit [Postcard] in
/-- A frame pushes its session bytes. -/
theorem applyFrame_pushes (pings : Bool) (st : SessionState) (f : Frame) :
    st.Pushes f.payload (applyFrame pings st f).1 := by
  cases f with
  | data payload =>
    unfold applyFrame
    simp only
    split_ifs <;> exact ⟨rfl, rfl, by simp [Frame.payload], rfl, rfl⟩
  | ack n => exact ⟨rfl, by simp [applyFrame, Frame.payload], by simp [applyFrame, Frame.payload],
      rfl, rfl⟩
  | hello h => exact ⟨rfl, by simp [applyFrame, Frame.payload],
      by simp [applyFrame, Frame.payload], rfl, rfl⟩
  | reply r => exact ⟨rfl, by simp [applyFrame, Frame.payload],
      by simp [applyFrame, Frame.payload], rfl, rfl⟩
  | ping p =>
    unfold applyFrame
    split_ifs <;> exact ⟨rfl, by simp [Frame.payload], by simp [Frame.payload], rfl, rfl⟩
  | pong p =>
    unfold applyFrame
    split_ifs <;> exact ⟨rfl, by simp [Frame.payload], by simp [Frame.payload], rfl, rfl⟩

omit [Postcard] in
/-- Frames push an initial part of their session bytes, and all of them unless one is a
violation. -/
theorem applyFrames_pushes (pings : Bool) (fs : List Frame) (st : SessionState) :
    ∃ b, st.Pushes b (applyFrames pings st fs).1 ∧ b <+: fs.flatMap Frame.payload ∧
      ((applyFrames pings st fs).2.2 = none → b = fs.flatMap Frame.payload) := by
  induction fs generalizing st with
  | nil => exact ⟨[], ⟨rfl, by simp [applyFrames], by simp [applyFrames], rfl, rfl⟩,
      List.nil_prefix, fun _ => rfl⟩
  | cons f fs ih =>
    have hf := applyFrame_pushes pings st f
    rw [List.flatMap_cons]
    unfold applyFrames
    split
    · rename_i st' n e heq
      rw [heq] at hf
      exact ⟨f.payload, hf, List.prefix_append _ _, fun h => by cases h⟩
    · rename_i st' n heq
      rw [heq] at hf
      obtain ⟨b, hb, hprefix, hall⟩ := ih st'
      refine ⟨f.payload ++ b, ?_, List.prefix_append_right_inj _ |>.2 hprefix,
        fun h => by rw [hall h]⟩
      exact {
        received := by rw [hb.received, hf.received, List.length_append, Nat.add_assoc]
        pushed := by rw [hb.pushed, hf.pushed, List.append_assoc]
        inq := by rw [hb.inq, hf.inq, List.append_assoc]
        generation := hb.generation.trans hf.generation
        last := hb.last.trans hf.last }

/-! ## What each operation does to the invariant -/

namespace ToSshd

variable {o : Bytes} {w : World} {skip : Option ℕ}

/-- A task moves on, to a reader that is superseded or current, or to neither. -/
theorem setTask (h : ToSshd o skip w) {k : ℕ} {t : Task} (hskip : skip = none ∨ skip = some k)
    (hreply : ∀ fresh tail, t.pc ≠ .replying fresh tail)
    (hread : ∀ g, t.pc = .reading g →
      g ≤ w.st.generation ∧ (g = w.st.generation → Current o w.st k t)) :
    ToSshd o none (w.setTask k t) where
  pushed_isPrefix := h.pushed_isPrefix
  received_eq := h.received_eq
  queued := h.queued
  written := h.written
  fresh j u tail hu hpc := by
    simp only [World.setTask, List.getElem?_set] at hu
    split_ifs at hu with hkj
    · cases hu
      exact absurd hpc (hreply true tail)
    · exact h.fresh j u tail hu hpc
  replying u hu fresh tail hpc := by
    rcases List.mem_or_eq_of_mem_set hu with hmem | rfl
    · exact h.replying u hmem fresh tail hpc
    · exact absurd hpc (hreply fresh tail)
  reading_le j u g hu hpc := by
    simp only [World.setTask, List.getElem?_set] at hu
    split_ifs at hu with hkj
    · cases hu
      exact (hread g hpc).1
    · exact h.reading_le j u g hu hpc
  reading j u g _ hu hpc hg := by
    simp only [World.setTask, List.getElem?_set] at hu
    split_ifs at hu with hkj
    · cases hu
      subst hkj
      obtain ⟨hlast, hjoined, hrest⟩ := (hread g hpc).2 hg
      exact ⟨hlast, hjoined, hrest⟩
    · have hne : skip ≠ some j := by
        rcases hskip with rfl | rfl
        · simp
        · simpa using hkj
      obtain ⟨hlast, hjoined, hrest⟩ := h.reading j u g hne hu hpc hg
      exact ⟨hlast, hjoined, hrest⟩

/-- What the invariant does not speak of may change, and the generation may move on. -/
theorem congr (h : ToSshd o skip w) {w' : World} (hc : w'.pumpC = w.pumpC)
    (hsshd : w'.toSshd = w.toSshd) (htasks : w'.tasks = w.tasks)
    (hpushed : w'.st.pushed = w.st.pushed) (hrec : w'.st.received = w.st.received)
    (hinq : w'.st.inq = w.st.inq) (hlast : w'.st.last = w.st.last)
    (hgen : w.st.generation ≤ w'.st.generation) : ToSshd o skip w' where
  pushed_isPrefix := by rw [hpushed]; exact h.pushed_isPrefix
  received_eq := by rw [hrec, hpushed]; exact h.received_eq
  queued := by rw [hc, hsshd, hinq, hpushed]; exact h.queued
  written := by rw [hsshd, hpushed]; exact h.written
  fresh := by rw [htasks, hc]; exact h.fresh
  replying := by rw [htasks]; exact h.replying
  reading_le k t g ht hpc := Nat.le_trans (h.reading_le k t g (htasks ▸ ht) hpc) hgen
  reading k t g hne ht hpc hg := by
    rw [htasks] at ht
    have hle := h.reading_le k t g ht hpc
    obtain ⟨hl, hj, hr⟩ := h.reading k t g hne ht hpc (by omega)
    exact ⟨hlast.trans hl, by rw [hpushed]; exact hj, hr⟩

theorem endSession (h : ToSshd o skip w) (reason : String) :
    ToSshd o skip (w.endSession reason) :=
  h.congr rfl rfl rfl rfl rfl rfl rfl (Nat.le_refl _)

theorem park (h : ToSshd o skip w) : ToSshd o skip w.park := by
  unfold World.park
  split_ifs
  · exact h
  · exact h.endSession _
  · exact h.congr rfl rfl rfl rfl rfl rfl rfl (Nat.le_succ _)

/-- Pump D pushes bytes that follow what its client sent before: the stream put together stays
an initial part of the outbound one. Every other reader is superseded. -/
theorem push (h : ToSshd o skip w) {k : ℕ} {b : Bytes} {st : SessionState}
    (hskip : skip = none ∨ skip = some k) (hb : w.st.Pushes b st)
    (hlast : w.st.last = some k) (hpre : w.st.pushed ++ b <+: o) :
    ToSshd o (some k) { w with st := st } where
  pushed_isPrefix := by rw [hb.pushed]; exact hpre
  received_eq := by rw [hb.received, hb.pushed, h.received_eq, List.length_append]
  queued hne := by
    rw [hb.inq, hb.pushed, ← h.queued hne, List.append_assoc, List.append_assoc,
      List.append_assoc]
  written := by
    rw [hb.pushed]
    exact h.written.trans (List.prefix_append _ _)
  fresh := h.fresh
  replying := h.replying
  reading_le j t g ht hpc := by
    rw [hb.generation]
    exact h.reading_le j t g ht hpc
  reading j t g hne ht hpc hg := by
    rw [hb.generation] at hg
    have hnotk : j ≠ k := fun heq => hne (by rw [heq])
    have hne' : skip ≠ some j := by
      rcases hskip with rfl | rfl
      · simp
      · exact hne
    have hj := (h.reading j t g hne' ht hpc hg).last
    rw [hlast] at hj
    exact absurd (Option.some_inj.1 hj).symm hnotk

/-- **Pump D applies what its decoder holds.** `d` is what the attachment has delivered to the
state already; the frames in the decoder continue it. -/
theorem drainReader (h : ToSshd o skip w) {k : ℕ} {t : Task} {g : ℕ} {d : Bytes}
    (hskip : skip = none ∨ skip = some k)
    (hlast : w.st.last = some k) (hg : g = w.st.generation)
    (hjoined : Joined t.received d w.st.pushed o)
    (hsent : d ++ streamData t.dec <+: o.drop t.received)
    (hrest : ∀ rest, (frames t.dec).2 = .ok rest →
      (frames t.arrived).2 = .ok rest ∧ streamData t.arrived = d ++ streamData t.dec) :
    ToSshd o none (w.drainReader k t g) := by
  obtain ⟨b, hb, hprefix, hall⟩ := applyFrames_pushes t.pings (frames t.dec).1 w.st
  have hstep : Joined t.received (d ++ b) (w.st.pushed ++ b) o :=
    hjoined.push ((List.prefix_append_right_inj d |>.2 hprefix).trans hsent)
  have hpush := h.push hskip hb hlast hstep.prefix_of
  unfold World.drainReader
  simp only
  split
  · apply ToSshd.park
    exact hpush.setTask (.inr rfl) (by simp) (by simp)
  · apply ToSshd.park
    exact hpush.setTask (.inr rfl) (by simp) (by simp)
  · rename_i rest hnone hok
    obtain ⟨harrived, hdata⟩ := hrest rest hok
    refine hpush.setTask (.inr rfl) (by simp) fun g' hg' => ?_
    cases hg'
    refine ⟨Nat.le_of_eq (hg.trans hb.generation.symm), fun _ => ?_⟩
    refine ⟨hb.last.trans hlast, ?_, harrived⟩
    rw [hdata, hb.pushed]
    rw [hall hnone] at hstep ⊢
    exact hstep

/-- A read of pump D returns. Only the current one applies what it read. -/
theorem readClient (h : ToSshd o none w) {k : ℕ} {t : Task} {g : ℕ} (r : ReadResult)
    (ht : w.tasks[k]? = some t) (hpc : t.pc = .reading g)
    (hclient : faithful o w (.read k r) = true) : ToSshd o none (w.readClient k t g r) := by
  unfold World.readClient
  simp only
  by_cases hg : w.st.generation ≠ g
  · rw [if_pos hg]
    exact h.setTask (.inl rfl) (by simp) (by simp)
  · rw [if_neg hg]
    split
    · rename_i b
      obtain ⟨hlast, hjoined, hrest⟩ := h.reading k t g (by simp) ht hpc (by omega)
      have hsplit := streamData_append_rest hrest b
      have hsent : streamData (t.arrived ++ b) <+: o.drop t.received := by
        simpa [faithful, ht] using hclient
      rw [hsplit] at hsent
      refine h.drainReader (.inl rfl) hlast (by omega) hjoined hsent fun rest hok => ?_
      exact ⟨(frames_rest hrest b).trans hok, hsplit⟩
    · split_ifs
      · exact h.setTask (.inl rfl) (by simp) (by simp)
      · apply ToSshd.park
        exact h.setTask (.inl rfl) (by simp) (by simp)

/-- A task attaches and begins to read: since the counter has not moved since its reply was made,
its client continues the stream where the listener has put it together. -/
theorem attachTask (h : ToSshd o none w) {k : ℕ} {t : Task} {fresh : Bool} {tail : Bytes}
    (ht : w.tasks[k]? = some t) (hpc : t.pc = .replying fresh tail)
    (hunmoved : w.st.received = t.received) : ToSshd o none (w.attachTask k t fresh tail) := by
  obtain ⟨harrived, hsent⟩ := h.replying t (List.mem_of_getElem? ht) fresh tail hpc
  have hk : k < w.tasks.length := (List.getElem?_eq_some_iff.1 ht).1
  set t' : Task := { t with pc := .reading (w.st.generation + 1) } with ht'
  have hget : (w.attach k t tail).tasks[k]? = some t' := by
    simp [World.attach, World.setTask, hk, ht']
  -- the attachment, before its first frames: every other reader is superseded
  have hattach : ToSshd o (some k) (w.attach k t tail) := {
    pushed_isPrefix := h.pushed_isPrefix
    received_eq := h.received_eq
    queued := h.queued
    written := h.written
    fresh := fun j u tail' hu hpc' => by
      simp only [World.attach, World.setTask, List.getElem?_set] at hu
      split_ifs at hu with hkj
      · cases hu
        cases hpc'
      · exact h.fresh j u tail' hu hpc'
    replying := fun u hu fresh' tail' hpc' => by
      rcases List.mem_or_eq_of_mem_set hu with hmem | rfl
      · exact h.replying u hmem fresh' tail' hpc'
      · cases hpc'
    reading_le := fun j u g hu hpc' => by
      simp only [World.attach, World.setTask, List.getElem?_set] at hu
      split_ifs at hu with hkj
      · cases hu
        cases hpc'
        exact Nat.le_refl _
      · exact Nat.le_succ_of_le (h.reading_le j u g hu hpc')
    reading := fun j u g hne hu hpc' hg => by
      simp only [World.attach, World.setTask, List.getElem?_set] at hu
      split_ifs at hu with hkj
      · exact absurd (by rw [hkj]) hne
      · have hle := h.reading_le j u g hu hpc'
        simp only [World.attach] at hg
        omega }
  have hjoined : Joined t.received [] w.st.pushed o :=
    Joined.restart h.pushed_isPrefix (h.received_eq.symm.trans hunmoved)
  have hrest : ∀ rest, (frames t.dec).2 = .ok rest →
      (frames t.arrived).2 = .ok rest ∧ streamData t.arrived = [] ++ streamData t.dec :=
    fun rest hok => by rw [harrived]; exact ⟨hok, rfl⟩
  unfold World.attachTask
  cases fresh with
  | false =>
    exact hattach.drainReader (.inr rfl) rfl rfl hjoined hsent hrest
  | true =>
    obtain ⟨rfl, hborn⟩ := h.fresh k t tail ht hpc
    have hspawn : ToSshd o (some 0) (w.attach 0 t tail).spawnSessionTasks :=
      { hattach with
        queued := fun _ => by
          have hq := h.queued (by simp [hborn])
          rw [hborn] at hq
          exact hq
        fresh := fun j u tail' hu hpc' => by
          obtain ⟨rfl, -⟩ := hattach.fresh j u tail' hu hpc'
          cases hget.symm.trans hu
          cases hpc' }
    exact hspawn.drainReader (.inr rfl) rfl rfl hjoined hsent hrest

/-- Pump C takes a chunk, or retires. -/
theorem takeInbound (h : ToSshd o none w) (hC : w.pumpC = .polling) {w' : World}
    (htake : w.takeInbound = some w') : ToSshd o none w' := by
  have hborn : ∀ (k : ℕ) (t : Task) (tail : Bytes), w.tasks[k]? = some t → t.pc ≠ .replying true tail :=
    fun k t tail ht hpc => by simpa [hC] using (h.fresh k t tail ht hpc).2
  unfold World.takeInbound at htake
  split at htake
  · rename_i c q hq
    cases htake
    exact { h with
      queued := fun _ => by
        have hqueued := h.queued (by simp [hC])
        simpa [hC, hq, PumpC.inFlight] using hqueued
      fresh := fun k t tail ht hpc => absurd hpc (hborn k t tail ht)
      reading := fun k t g hne ht hpc hg => by
        obtain ⟨hl, hj, hr⟩ := h.reading k t g hne ht hpc hg
        exact ⟨hl, hj, hr⟩ }
  · split_ifs at htake
    cases htake
    exact { h with
      queued := fun hne => absurd rfl hne
      fresh := fun k t tail ht hpc => absurd hpc (hborn k t tail ht) }

/-- Pump C's write returns. -/
theorem wroteSshd (h : ToSshd o none w) {c : Bytes} (hC : w.pumpC = .writing c) (n : ℕ) :
    ToSshd o none (w.wroteSshd c n) := by
  have hborn : ∀ (k : ℕ) (t : Task) (tail : Bytes), w.tasks[k]? = some t → t.pc ≠ .replying true tail :=
    fun k t tail ht hpc => by simpa [hC] using (h.fresh k t tail ht hpc).2
  have hqueued : w.toSshd ++ c ++ w.st.inq.flatten = w.st.pushed := by
    have hq := h.queued (by simp [hC])
    rwa [hC] at hq
  have hwritten : w.toSshd ++ c.take n <+: w.st.pushed := by
    rw [← hqueued, List.append_assoc]
    exact List.prefix_append_right_inj _ |>.2
      ((List.take_prefix n c).trans (List.prefix_append _ _))
  unfold World.wroteSshd
  simp only
  split_ifs with hn
  · have hend := h.endSession "session ended"
    exact { hend with
      queued := fun hne => absurd rfl hne
      written := hwritten
      fresh := fun k t tail ht hpc => absurd hpc (hborn k t tail ht) }
  · exact { h with
      queued := fun _ => by
        rw [List.take_of_length_le (Nat.not_lt.1 hn)]
        simpa [PumpC.inFlight] using hqueued
      written := hwritten
      fresh := fun k t tail ht hpc => absurd hpc (hborn k t tail ht) }

/-- Pump B takes a job: no task's reading side is touched. -/
theorem takeJob (h : ToSshd o none w) {w' : World} (hjob : w.takeJob = some w') :
    ToSshd o none w' := by
  unfold World.takeJob at hjob
  obtain ⟨⟨job, st⟩, hnext, rfl⟩ := Option.map_eq_some_iff.1 hjob
  obtain ⟨b, q, k, -, -, -, rfl, rfl⟩ | ⟨k, -, -, -, -, rfl, rfl⟩ | ⟨-, -, rfl, rfl⟩ :=
    nextWriteJob_cases hnext
  · have hget : ∀ {j : ℕ} {u : Task},
        (w.tasks.modify k fun t => { t with wire := t.wire ++ [b] })[j]? = some u →
        ∃ t, w.tasks[j]? = some t ∧ u.pc = t.pc ∧ u.received = t.received ∧ u.dec = t.dec ∧
          u.arrived = t.arrived := by
      intro j u hu
      rw [List.getElem?_modify] at hu
      obtain ⟨t, ht, rfl⟩ := Option.map_eq_some_iff.1 hu
      refine ⟨t, ht, ?_⟩
      split_ifs <;> exact ⟨rfl, rfl, rfl, rfl⟩
    exact { h with
      fresh := fun j u tail hu hpc => by
        obtain ⟨t, ht, htpc, -⟩ := hget hu
        exact h.fresh j t tail ht (htpc ▸ hpc)
      replying := fun u hu fresh tail hpc => by
        obtain ⟨j, hj⟩ := List.getElem?_of_mem hu
        obtain ⟨t, ht, htpc, hrec, hdec, harr⟩ := hget hj
        rw [harr, hdec, hrec]
        exact h.replying t (List.mem_of_getElem? ht) fresh tail (htpc ▸ hpc)
      reading_le := fun j u g hu hpc => by
        obtain ⟨t, ht, htpc, -⟩ := hget hu
        exact h.reading_le j t g ht (htpc ▸ hpc)
      reading := fun j u g hne hu hpc hg => by
        obtain ⟨t, ht, htpc, hrec, hdec, harr⟩ := hget hu
        obtain ⟨hl, hj, hr⟩ := h.reading j t g hne ht (htpc ▸ hpc) hg
        exact ⟨hl, by rw [hrec, harr]; exact hj, by rw [harr, hdec]; exact hr⟩ }
  · exact h.congr rfl rfl rfl rfl rfl rfl rfl (Nat.le_refl _)
  · exact h.congr rfl rfl rfl rfl rfl rfl rfl (Nat.le_refl _)

/-- A connection resumes: the count in its reply is the current one. -/
theorem resume (h : ToSshd o none w) {peer : String} {received : ℕ} {pings : Bool} {dec : Bytes}
    (hclient : faithful o w (.resume peer received pings dec) = true) :
    ToSshd o none { w with tasks := w.tasks ++ [w.resumeSession peer received pings dec] } := by
  have hget : ∀ {j : ℕ} {u : Task},
      (w.tasks ++ [w.resumeSession peer received pings dec])[j]? = some u →
      w.tasks[j]? = some u ∨ u = w.resumeSession peer received pings dec := by
    intro j u hj
    rw [List.getElem?_append] at hj
    split_ifs at hj
    · exact .inl hj
    · exact .inr (List.mem_singleton.1 (List.mem_of_getElem? hj))
  exact { h with
    fresh := fun j u tail hj hpc => by
      rcases hget hj with hj | rfl
      · exact h.fresh j u tail hj hpc
      · exact absurd (World.resumePc_replying hpc).1 (by simp)
    replying := fun u hu fresh tail hpc => by
      rcases List.mem_append.1 hu with hmem | hmem
      · exact h.replying u hmem fresh tail hpc
      · obtain rfl := List.mem_singleton.1 hmem
        exact ⟨rfl, by simpa [faithful, World.resumeSession] using hclient⟩
    reading_le := fun j u g hj hpc => by
      rcases hget hj with hj | rfl
      · exact h.reading_le j u g hj hpc
      · exact absurd hpc (World.resumePc_ne_reading g)
    reading := fun j u g hne hj hpc hg => by
      rcases hget hj with hj | rfl
      · exact h.reading j u g hne hj hpc hg
      · exact absurd hpc (World.resumePc_ne_reading g) }

/-! ## Runs -/

/-- **A faithful and unmoved step keeps the invariant.** -/
theorem step (h : ToSshd o none w) {a : Action} {w' : World} (hclient : faithful o w a = true)
    (hunmoved : unmoved w a = true) (hstep : w.step a = some w') : ToSshd o none w' := by
  have other : ∀ {v : World}, v.pumpC = w.pumpC → v.toSshd = w.toSshd → v.tasks = w.tasks →
      v.st.pushed = w.st.pushed → v.st.received = w.st.received → v.st.inq = w.st.inq →
      v.st.last = w.st.last → v.st.generation = w.st.generation → ToSshd o none v :=
    fun hc hs ht hp hr hi hl hg => h.congr hc hs ht hp hr hi hl (Nat.le_of_eq hg.symm)
  cases a with
  | pollA =>
    simp only [World.step] at hstep
    split_ifs at hstep <;> cases hstep <;> exact other rfl rfl rfl rfl rfl rfl rfl rfl
  | readA buf result refused =>
    simp only [World.step, Option.ite_none_right_eq_some, Option.some.injEq] at hstep
    obtain ⟨-, rfl⟩ := hstep
    unfold World.readSshd
    simp only
    split_ifs
    · exact other rfl rfl rfl rfl rfl rfl rfl rfl
    · cases result <;> exact other rfl rfl rfl rfl rfl rfl rfl rfl
    · cases result <;> exact other rfl rfl rfl rfl rfl rfl rfl rfl
  | pollB =>
    simp only [World.step, Option.ite_none_right_eq_some] at hstep
    exact h.takeJob hstep.2
  | wroteB ok =>
    simp only [World.step] at hstep
    split at hstep <;> cases hstep
    rename_i b g k hb
    have hB : ToSshd o none { w with pumpB := .polling } := other rfl rfl rfl rfl rfl rfl rfl rfl
    unfold World.wroteClient
    simp only
    by_cases hsuper : w.st.generation ≠ g ∨ w.st.attached = false
    · rw [if_pos hsuper]
      exact hB
    · rw [if_neg hsuper]
      split_ifs
      · exact other rfl rfl rfl rfl rfl rfl rfl rfl
      · exact hB.park
  | pollC =>
    simp only [World.step, Option.ite_none_right_eq_some] at hstep
    exact h.takeInbound hstep.1 hstep.2
  | wroteC n =>
    simp only [World.step] at hstep
    split at hstep <;> cases hstep
    rename_i c hC
    exact h.wroteSshd hC n
  | resume peer received pings dec =>
    cases hstep
    exact h.resume hclient
  | replied k err =>
    simp only [World.step] at hstep
    split at hstep
    · cases hstep
    · rename_i t ht
      split at hstep
      · cases hstep
        exact h.setTask (.inl rfl) (by simp) (by simp)
      · rename_i fresh tail hpc
        cases hstep
        exact h.attachTask ht hpc (by simpa [unmoved, ht, hpc] using hunmoved)
      · cases hstep
  | refused k =>
    simp only [World.step] at hstep
    split at hstep
    · cases hstep
    · rename_i t ht
      split at hstep
      · rename_i reason gap err hpc
        cases hstep
        split_ifs
        · exact (h.endSession reason).setTask (.inl rfl) (by simp) (by simp)
        · exact h.setTask (.inl rfl) (by simp) (by simp)
      · cases hstep
  | read k r =>
    simp only [World.step] at hstep
    split at hstep
    · cases hstep
    · rename_i t ht
      split at hstep
      · rename_i g hpc
        cases hstep
        exact h.readClient r ht hpc hclient
      · cases hstep
  | fire i =>
    simp only [World.step] at hstep
    split at hstep
    · cases hstep
    · split_ifs at hstep
      cases hstep
      unfold World.expire
      split_ifs <;> exact other rfl rfl rfl rfl rfl rfl rfl rfl
  | elapse d =>
    cases hstep
    exact other rfl rfl rfl rfl rfl rfl rfl rfl
  | otherEnded id reason =>
    simp only [World.step] at hstep
    split_ifs at hstep
    cases hstep
    exact other rfl rfl rfl rfl rfl rfl rfl rfl

end ToSshd

/-- The invariant holds when `start_session` registers the session. -/
theorem toSshd_start {o : Bytes} (id : SessionId) (creator : String) (grace : ℕ) (reg : Registry)
    (pings : Bool) {dec : Bytes} (hdec : streamData dec <+: o) :
    ToSshd o none (World.start id creator grace reg pings dec) where
  pushed_isPrefix := List.nil_prefix
  received_eq := rfl
  queued _ := rfl
  written := List.prefix_refl _
  fresh k t tail ht _ := by
    obtain ⟨hk, -⟩ := List.getElem?_eq_some_iff.1 ht
    exact ⟨Nat.lt_one_iff.1 hk, rfl⟩
  replying t ht fresh tail hpc := by
    obtain rfl := List.mem_singleton.1 ht
    exact ⟨rfl, hdec⟩
  reading_le k t g ht hpc := by
    obtain rfl := List.mem_singleton.1 (List.mem_of_getElem? ht)
    cases hpc
  reading k t g _ ht hpc := by
    obtain rfl := List.mem_singleton.1 (List.mem_of_getElem? ht)
    cases hpc

/-- **Client to sshd integrity.** Let every attachment's client send the outbound stream `o` from
the count its reply carried, and let the receive counter of no session move between a reply and
its attachment. Then in every state reached what was ever pushed for sshd is an initial part of
`o`, sshd was written an initial part of that, and the receive counter is its length.

**Proof sketch.** The invariant `ToSshd` holds initially and is kept by every such step: the one
current reader continues the stream where the listener has put it together. -/
theorem pushed_prefix {o : Bytes} {id : SessionId} {creator : String} {grace : ℕ}
    {reg : Registry} {pings : Bool} {dec : Bytes} {as : List Action} {w : World}
    (hdec : streamData dec <+: o)
    (hrun : Run.run World.step (World.start id creator grace reg pings dec) as = some w)
    (hclients : Run.Along World.step (fun w a => faithful o w a = true)
      (World.start id creator grace reg pings dec) as)
    (hunmoved : Run.Along World.step (fun w a => unmoved w a = true)
      (World.start id creator grace reg pings dec) as) :
    w.st.pushed <+: o ∧ w.toSshd <+: w.st.pushed ∧ w.st.received = w.st.pushed.length := by
  have h : ToSshd o none w :=
    Run.run_inv (fun _ _ _ h hC hstep => h.step hC.1 hC.2 hstep)
      (toSshd_start id creator grace reg pings hdec) (hclients.and hunmoved) hrun
  exact ⟨h.pushed_isPrefix, h.written, h.received_eq⟩

/-- Client to sshd integrity as it should be, along every run whose clients are faithful. -/
def SshdStreamIntact : Prop :=
  ∀ (o : Bytes) (id : SessionId) (creator : String) (grace : ℕ) (reg : Registry) (pings : Bool)
    (dec : Bytes) (as : List Action) (w : World),
    streamData dec <+: o →
    Run.run World.step (World.start id creator grace reg pings dec) as = some w →
    Run.Along World.step (fun w a => faithful o w a = true)
      (World.start id creator grace reg pings dec) as →
    w.st.pushed <+: o ∧ w.st.received = w.st.pushed.length

/-- A client resumes and is told to go on from the start; before the reply is out, its old
attachment delivers the first byte after all. -/
def resumeWhileReceiving : List Action :=
  [.replied 0 none, .resume "client" 0 true [], .read 0 (.chunk (encodeData [1])),
    .replied 1 none, .read 1 (.chunk (encodeData [1]))]

omit [Postcard] in
/-- The byte that both attachments deliver reaches sshd twice. -/
theorem not_sshdStreamIntact : ¬ @SshdStreamIntact Postcard.golden := by
  intro h
  have hrun : ∃ w, @Run.run _ _ (@World.step Postcard.golden)
      (World.start sampleId "client" 60 {} true []) resumeWhileReceiving =
        some w ∧ w.st.pushed = [1, 1] := ⟨_, rfl, by decide⟩
  obtain ⟨w, hw, hpushed⟩ := hrun
  have hprefix := (h [1] sampleId "client" 60 {} true [] resumeWhileReceiving w (by decide) hw
    (by decide)).1
  rw [hpushed] at hprefix
  exact absurd hprefix (by decide)

/-- A client that resumes after its old attachment delivered everything. -/
def quietReconnect : List Action :=
  [.replied 0 none, .read 0 (.chunk (encodeData [1])), .resume "client" 0 true [],
    .replied 1 none, .read 1 (.chunk (encodeData [2])), .pollC, .wroteC 1]

omit [Postcard] in
/-- Along it, what is pushed and written is an initial part of the client's stream. -/
theorem pushed_prefix_quietReconnect :
    ∃ w, @Run.run _ _ (@World.step Postcard.golden)
        (World.start sampleId "client" 60 {} true []) quietReconnect = some w ∧
      w.st.pushed <+: [1, 2] ∧ w.toSshd <+: w.st.pushed ∧
      w.st.received = w.st.pushed.length :=
  ⟨_, rfl, @ pushed_prefix Postcard.golden [1, 2] sampleId "client" 60 {} true [] quietReconnect _
    (by decide) rfl (by decide) (by decide)⟩

end Listener
