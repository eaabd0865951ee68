import Wosh.Listener.ToSshd
import Wosh.Listener.Traffic
import Wosh.Tunnel.Wire

set_option relaxedAutoImplicit false
set_option autoImplicit false

/-!
# Control frames at the listener

Pump D answers every ping in the queue that pump B writes, next to acknowledgements and the frames of
sshd. The queue is cleared when an attachment is made, so that what is owed to one client is never
said to another.

## Main definitions

* `Listener.Answers` — what applying frames queues.
* `Listener.Echoes` — the invariant.

## Main results

* `Listener.applyFrame_control` — what a control frame changes.
* `Listener.applyFrames_violation` — nothing is applied after a ping or pong on `wosh/2`.
* `Listener.Echoes.step`, `Listener.echoes_run` — every step keeps the invariant, and so does every run.
-/

namespace Listener

open Tunnel Slots

/-! ## Applying frames -/

/-- **What a control frame changes**: it is not counted and hands nothing on, and only an
acknowledgement touches the replay buffer. -/
theorem applyFrame_control (pings : Bool) (st : SessionState) {f : Frame} (hf : f.control = true) :
    (applyFrame pings st f).1.received = st.received ∧
      (applyFrame pings st f).1.pushed = st.pushed ∧ (applyFrame pings st f).1.inq = st.inq ∧
      (applyFrame pings st f).1.replay =
        f.ack?.elim st.replay fun n => st.replay.ack wasm32 n.toNat := by
  cases f with
  | ack n => exact ⟨rfl, rfl, rfl, rfl⟩
  | ping p =>
    unfold applyFrame
    split_ifs <;> exact ⟨rfl, rfl, rfl, rfl⟩
  | pong p =>
    unfold applyFrame
    split_ifs <;> exact ⟨rfl, rfl, rfl, rfl⟩
  | data | hello | reply => cases hf

/-- **Nothing is applied after a violation**: on `wosh/2`, what follows a ping or a pong is as if it
had not been there. -/
theorem applyFrames_violation (st : SessionState) (fs : List Frame) {f : Frame}
    (hf : f.liveness = true) (rest : List Frame) :
    applyFrames false st (fs ++ f :: rest) = applyFrames false st (fs ++ [f]) ∧
      (applyFrames false st (fs ++ [f])).2.2 ≠ none := by
  induction fs generalizing st with
  | nil =>
    cases f with
    | ping p => simp [applyFrames, applyFrame]
    | pong p => simp [applyFrames, applyFrame]
    | data | ack | hello | reply => cases hf
  | cons g fs ih =>
    rw [List.cons_append, List.cons_append, applyFrames, applyFrames]
    split
    · exact ⟨rfl, by simp⟩
    · rename_i st' n heq
      have hst := ih st'
      exact ⟨by rw [hst.1], hst.2⟩

section Answers

variable [Postcard]

/-- What applying the frames `fs` to `st` queues, when it leaves `st'` and the objection `e`: frames
that the client accepts, among them the echoes of the pings. -/
structure Answers (pings : Bool) (fs : List Frame) (st st' : SessionState) (e : Option String)
    (q : List Bytes) : Prop where
  outq : st'.outq = st.outq ++ q
  spells : Spells q
  received : st'.received = st.received + (st'.pushed.length - st.pushed.length)
  pushed : st.pushed <+: st'.pushed
  generation : st'.generation = st.generation
  last : st'.last = st.last
  send : st'.send = st.send
  echoes : pongsOf (heard q) <+: pingsOf fs
  whole : e = none → pongsOf (heard q) = pingsOf fs ∧
    (pings = false → ∀ f ∈ fs, f.liveness = false)
  /-- An acknowledgement carries the count once the frame that made it due was counted. -/
  acks : ∀ n ∈ acksOf (heard q), ∃ before f after, fs = before ++ f :: after ∧
    n = UInt64.ofNat (st.received + ((before ++ [f]).flatMap Frame.payload).length)

/-- What one frame queues. -/
theorem applyFrame_answers (pings : Bool) (st : SessionState) (f : Frame) :
    ∃ q, Answers pings [f] st (applyFrame pings st f).1 (applyFrame pings st f).2.2 q := by
  have hnil : ∀ (st' : SessionState) (e : Option String), st'.outq = st.outq →
      st'.received = st.received → st'.pushed = st.pushed → st'.generation = st.generation →
      st'.last = st.last → st'.send = st.send →
      (e = none → pingsOf [f] = [] ∧ (pings = false → f.liveness = false)) →
      Answers pings [f] st st' e [] := by
    intro st' e houtq hreceived hpushed hgen hlast hsend he
    refine ⟨by rw [houtq, List.append_nil], spells_nil, by rw [hreceived, hpushed]; omega,
      hpushed ▸ List.prefix_refl _, hgen, hlast, hsend, List.nil_prefix, fun hnone => ?_,
      by simp [acksOf]⟩
    obtain ⟨hping, hlive⟩ := he hnone
    refine ⟨by rw [hping]; rfl, fun hp g hg => ?_⟩
    rw [List.mem_singleton.1 hg]
    exact hlive hp
  cases f with
  | data payload =>
    unfold applyFrame
    dsimp only
    have hpushed : st.received + payload.length =
        st.received + ((st.pushed ++ payload).length - st.pushed.length) := by simp
    split_ifs
    · have hplain : (Frame.ack (UInt64.ofNat (st.received + payload.length))).Plain := trivial
      have hheard := heard_singleton hplain
      refine ⟨[encodeAck (UInt64.ofNat (st.received + payload.length))], rfl,
        spells_singleton hplain, hpushed, List.prefix_append _ _, rfl, rfl, rfl, ?_, fun _ => ?_,
        fun n hn => ?_⟩
      · rw [encode] at hheard
        rw [hheard]
        exact List.nil_prefix
      · rw [encode] at hheard
        rw [hheard]
        exact ⟨rfl, by simp [Frame.liveness]⟩
      · rw [encode] at hheard
        rw [hheard, mem_acksOf, List.mem_singleton, Frame.ack.injEq] at hn
        exact ⟨[], .data payload, [], rfl, by simpa [Frame.payload] using hn⟩
    · refine ⟨[], (List.append_nil _).symm, spells_nil, hpushed, List.prefix_append _ _, rfl, rfl, rfl,
        List.nil_prefix, fun _ => ⟨rfl, by simp [Frame.liveness]⟩, by simp [acksOf]⟩
  | ack n => exact ⟨[], hnil _ _ rfl rfl rfl rfl rfl rfl fun _ => ⟨rfl, fun _ => rfl⟩⟩
  | hello h => exact ⟨[], hnil _ _ rfl rfl rfl rfl rfl rfl fun he => by cases he⟩
  | reply r => exact ⟨[], hnil _ _ rfl rfl rfl rfl rfl rfl fun he => by cases he⟩
  | ping p =>
    unfold applyFrame
    split_ifs with hpings
    · have hplain : (Frame.pong p).Plain := trivial
      have hheard := heard_singleton hplain
      rw [encode] at hheard
      refine ⟨[encodePong p], rfl, spells_singleton hplain, by simp, List.prefix_refl _, rfl, rfl, rfl,
        ?_, fun _ => ?_, fun n hn => ?_⟩
      · rw [hheard]
        exact List.prefix_refl _
      · rw [hheard]
        exact ⟨rfl, fun hfalse => by simp [hpings] at hfalse⟩
      · rw [hheard, mem_acksOf] at hn
        simp at hn
    · exact ⟨[], hnil _ _ rfl rfl rfl rfl rfl rfl fun he => by cases he⟩
  | pong p =>
    unfold applyFrame
    split_ifs with hpings
    · exact ⟨[], hnil _ _ rfl rfl rfl rfl rfl rfl fun _ =>
        ⟨rfl, fun hfalse => by simp [hpings] at hfalse⟩⟩
    · exact ⟨[], hnil _ _ rfl rfl rfl rfl rfl rfl fun he => by cases he⟩

/-- What one more frame in front adds. -/
theorem Answers.cons {pings : Bool} {f : Frame} {fs : List Frame} {st st₁ st' : SessionState}
    {e : Option String} {q q' : List Bytes} (h : Answers pings [f] st st₁ none q)
    (h' : Answers pings fs st₁ st' e q')
    (hpay : st₁.received = st.received + f.payload.length) :
    Answers pings (f :: fs) st st' e (q ++ q') where
  outq := by rw [h'.outq, h.outq, List.append_assoc]
  spells := h.spells.append h'.spells
  received := by
    have hlen := h.pushed.length_le
    have hlen' := h'.pushed.length_le
    rw [h'.received, h.received]
    omega
  pushed := h.pushed.trans h'.pushed
  generation := h'.generation.trans h.generation
  last := h'.last.trans h.last
  send := h'.send.trans h.send
  echoes := by
    have hf := (h.whole rfl).1
    rw [heard_append, pongsOf_append, hf]
    show _ <+: pingsOf ([f] ++ fs)
    rw [pingsOf_append]
    exact (List.prefix_append_right_inj _).2 h'.echoes
  whole he := by
    obtain ⟨hf, hlive⟩ := h.whole rfl
    obtain ⟨hfs, hlive'⟩ := h'.whole he
    refine ⟨?_, fun hp g hg => ?_⟩
    · rw [heard_append, pongsOf_append, hf, hfs]
      show _ = pingsOf ([f] ++ fs)
      rw [pingsOf_append]
    · rcases List.mem_cons.1 hg with rfl | hg
      · exact hlive hp g List.mem_cons_self
      · exact hlive' hp g hg
  acks n hn := by
    rw [heard_append, mem_acksOf, List.mem_append] at hn
    rcases hn with hn | hn
    · obtain ⟨before, g, after, heq, hval⟩ := h.acks n (mem_acksOf.2 hn)
      cases before with
      | nil =>
        cases heq
        exact ⟨[], f, fs, rfl, hval⟩
      | cons g' before => cases before <;> cases heq
    · obtain ⟨before, g, after, rfl, hval⟩ := h'.acks n (mem_acksOf.2 hn)
      refine ⟨f :: before, g, after, rfl, ?_⟩
      rw [hval, hpay]
      congr 1
      simp only [List.cons_append, List.flatMap_cons, List.length_append]
      omega

/-- What any number of frames queue. -/
theorem applyFrames_answers (pings : Bool) (fs : List Frame) (st : SessionState) :
    ∃ q, Answers pings fs st (applyFrames pings st fs).1 (applyFrames pings st fs).2.2 q := by
  induction fs generalizing st with
  | nil =>
    refine ⟨[], (List.append_nil _).symm, spells_nil, by simp [applyFrames], List.prefix_refl _, rfl,
      rfl, rfl, List.nil_prefix, fun _ => ⟨rfl, by simp⟩, by simp [acksOf]⟩
  | cons f fs ih =>
    obtain ⟨q, hq⟩ := applyFrame_answers pings st f
    unfold applyFrames
    split
    · rename_i st' n e heq
      rw [heq] at hq
      refine ⟨q, hq.outq, hq.spells, hq.received, hq.pushed, hq.generation, hq.last, hq.send, ?_,
        fun he => (by cases he), fun n hn => ?_⟩
      · exact hq.echoes.trans ( pingsOf_prefix (show [f] <+: f :: fs from ⟨fs, rfl⟩))
      · obtain ⟨before, g, after, hsplit, hval⟩ := hq.acks n hn
        exact ⟨before, g, after ++ fs, by
          rw [← List.cons_append, ← List.append_assoc, ← hsplit]; rfl, hval⟩
    · rename_i st' n heq
      have hpay := applyFrame_pushes pings st f
      rw [heq] at hq hpay
      obtain ⟨q', hq'⟩ := ih st'
      exact ⟨q ++ q', hq.cons hq' hpay.received⟩

end Answers

/-! ## The invariant -/

section Invariant

variable [Postcard]

/-- Task `k`, which is `t`, is the current reader: the pings it has applied are those whose echoes
were written or are queued, and on `wosh/2` there were none. -/
structure Owes (w : World) (k : ℕ) (t : Task) (fs : List Frame) : Prop where
  last : w.st.last = some k
  decoded : Decoded t.arrived fs t.dec
  echoes : pongsOf (heard (t.wire ++ w.st.outq)) = pingsOf fs
  quiet : t.pings = false → ∀ f ∈ fs, f.liveness = false

/-- The invariant of the control frames. -/
structure Echoes (w : World) : Prop where
  queue : Spells w.st.outq
  wires : ∀ (k : ℕ) (t : Task), w.tasks[k]? = some t → Spells t.wire
  counted : w.st.received = w.st.pushed.length
  replying : ∀ (k : ℕ) (t : Task) (fresh : Bool) (tail : Bytes), w.tasks[k]? = some t →
    t.pc = .replying fresh tail → t.wire = [] ∧ t.dec = t.arrived
  reading_le : ∀ (k : ℕ) (t : Task) (g : ℕ), w.tasks[k]? = some t → t.pc = .reading g →
    g ≤ w.st.generation
  reading : ∀ (k : ℕ) (t : Task), w.tasks[k]? = some t → t.pc = .reading w.st.generation →
    ∃ fs, Owes w k t fs
  /-- The echoes on a stream and in its queue are those of the first of the pings that arrived. -/
  owed : ∀ (k : ℕ) (t : Task), w.tasks[k]? = some t →
    pongsOf (heard (t.wire ++ queuedFor w k)) <+: pingsOf (frames t.arrived).1

namespace Echoes

variable {w w' : World} {a : Action} {k : ℕ} {t t' : Task}

/-- What the invariant does not speak of may change, and the generation may move on. -/
theorem congr (h : Echoes w) (htasks : w'.tasks = w.tasks) (houtq : w'.st.outq = w.st.outq)
    (hlast : w'.st.last = w.st.last) (hreceived : w'.st.received = w.st.received)
    (hpushed : w'.st.pushed = w.st.pushed) (hgen : w.st.generation ≤ w'.st.generation) :
    Echoes w' where
  queue := houtq ▸ h.queue
  wires := htasks ▸ h.wires
  counted := by rw [hreceived, hpushed, h.counted]
  replying := htasks ▸ h.replying
  reading_le j u g hu hpc := Nat.le_trans (h.reading_le j u g (htasks ▸ hu) hpc) hgen
  reading j u hu hpc := by
    rw [htasks] at hu
    have hle := h.reading_le j u _ hu hpc
    have heq : w'.st.generation = w.st.generation := by omega
    rw [heq] at hpc
    obtain ⟨fs, howes⟩ := h.reading j u hu hpc
    exact ⟨fs, hlast.trans howes.last, howes.decoded, by rw [houtq]; exact howes.echoes, howes.quiet⟩
  owed j u hu := by
    rw [htasks] at hu
    have howed := h.owed j u hu
    rw [queuedFor] at howed ⊢
    rwa [hlast, houtq]

theorem endSession (h : Echoes w) (reason : String) : Echoes (w.endSession reason) :=
  h.congr rfl rfl rfl rfl rfl (Nat.le_refl _)

theorem park (h : Echoes w) : Echoes w.park := by
  unfold World.park
  split_ifs
  · exact h
  · exact h.endSession _
  · exact h.congr rfl rfl rfl rfl rfl (Nat.le_succ _)

/-- A task moves on, having applied nothing, to where it neither reads nor writes its reply. -/
theorem setTask (h : Echoes w) (ht : w.tasks[k]? = some t) (hwire : t'.wire = t.wire)
    (harrived : t'.arrived = t.arrived) {out : Except String String} (hpc : t'.pc = .done out) :
    Echoes (w.setTask k t') where
  queue := h.queue
  wires j u hu := by
    rcases getElem?_set_eq_some hu with ⟨rfl, rfl⟩ | ⟨-, hj⟩
    · rw [hwire]
      exact h.wires _ _ ht
    · exact h.wires j u hj
  counted := h.counted
  replying j u fresh tail hu hpc' := by
    rcases getElem?_set_eq_some hu with ⟨rfl, rfl⟩ | ⟨-, hj⟩
    · cases hpc.symm.trans hpc'
    · exact h.replying j u fresh tail hj hpc'
  reading_le j u g hu hpc' := by
    rcases getElem?_set_eq_some hu with ⟨rfl, rfl⟩ | ⟨-, hj⟩
    · cases hpc.symm.trans hpc'
    · exact h.reading_le j u g hj hpc'
  reading j u hu hpc' := by
    rcases getElem?_set_eq_some hu with ⟨rfl, rfl⟩ | ⟨-, hj⟩
    · cases hpc.symm.trans hpc'
    · obtain ⟨fs, howes⟩ := h.reading j u hj hpc'
      exact ⟨fs, howes.last, howes.decoded, howes.echoes, howes.quiet⟩
  owed j u hu := by
    rcases getElem?_set_eq_some hu with ⟨rfl, rfl⟩ | ⟨-, hj⟩
    · rw [hwire, harrived]
      exact h.owed _ _ ht
    · exact h.owed j u hj

/-- The current reader applied frames: what they made it queue follows what was queued. -/
theorem apply (h : Echoes w) (t' : Task) (ht : w.tasks[k]? = some t) (hwire : t'.wire = t.wire)
    {fs fs' : List Frame} {st : SessionState} {e : Option String} {q : List Bytes}
    (hlast : w.st.last = some k) (hechoes : pongsOf (heard (t.wire ++ w.st.outq)) = pingsOf fs)
    (hans : Answers t'.pings fs' w.st st e q)
    (hpings : pingsOf (fs ++ fs') <+: pingsOf (frames t'.arrived).1)
    (hreply : ∀ fresh tail, t'.pc ≠ .replying fresh tail)
    (hread : ∀ g, t'.pc = .reading g → g = w.st.generation ∧ e = none ∧
      Decoded t'.arrived (fs ++ fs') t'.dec ∧ (t'.pings = false → ∀ f ∈ fs, f.liveness = false)) :
    Echoes ({ w with st := st }.setTask k t') where
  queue := by
    show Spells st.outq
    rw [hans.outq]
    exact h.queue.append hans.spells
  wires j u hu := by
    rcases getElem?_set_eq_some hu with ⟨rfl, rfl⟩ | ⟨-, hj⟩
    · rw [hwire]
      exact h.wires _ _ ht
    · exact h.wires j u hj
  counted := by
    show st.received = st.pushed.length
    have hlen := hans.pushed.length_le
    rw [hans.received, h.counted]
    omega
  replying j u fresh tail hu hpc := by
    rcases getElem?_set_eq_some hu with ⟨rfl, rfl⟩ | ⟨-, hj⟩
    · exact absurd hpc (hreply fresh tail)
    · exact h.replying j u fresh tail hj hpc
  reading_le j u g hu hpc := by
    show g ≤ st.generation
    rw [hans.generation]
    rcases getElem?_set_eq_some hu with ⟨rfl, rfl⟩ | ⟨-, hj⟩
    · exact Nat.le_of_eq (hread g hpc).1
    · exact h.reading_le j u g hj hpc
  reading j u hu hpc := by
    have hgen : u.pc = .reading w.st.generation := by
      rw [hpc]
      exact congrArg TaskPc.reading hans.generation
    rcases getElem?_set_eq_some hu with ⟨rfl, rfl⟩ | ⟨hne, hj⟩
    · obtain ⟨-, he, hdec, hquiet⟩ := hread _ hgen
      obtain ⟨hq, hlive⟩ := hans.whole he
      refine ⟨fs ++ fs', hans.last.trans hlast, hdec, ?_, fun hp f hf => ?_⟩
      · show pongsOf (heard (u.wire ++ st.outq)) = _
        rw [hwire, hans.outq, ← List.append_assoc, heard_append, pongsOf_append, hechoes, hq,
          pingsOf_append]
      · exact (List.mem_append.1 hf).elim (hquiet hp f) (hlive hp f)
    · -- no other reader is current
      obtain ⟨fs₀, howes⟩ := h.reading j u hj hgen
      exact absurd (Option.some.inj (howes.last.symm.trans hlast)) hne
  owed j u hu := by
    have hlast' : st.last = some k := hans.last.trans hlast
    show pongsOf (heard (u.wire ++ if st.last = some j then st.outq else [])) <+: _
    rcases getElem?_set_eq_some hu with ⟨rfl, rfl⟩ | ⟨hne, hj⟩
    · rw [if_pos hlast', hwire, hans.outq, ← List.append_assoc, heard_append, pongsOf_append, hechoes]
      refine .trans ?_ hpings
      rw [pingsOf_append]
      exact (List.prefix_append_right_inj _).2 hans.echoes
    · have howed := h.owed j u hj
      have hnot : ¬ w.st.last = some j := fun heq => hne (Option.some.inj (heq.symm.trans hlast))
      rw [queuedFor, if_neg hnot] at howed
      rwa [if_neg (by rwa [hlast', ← hlast])]

/-- **Pump D applies what its decoder holds.** -/
theorem drainReader (h : Echoes w) (t' : Task) (ht : w.tasks[k]? = some t) (hwire : t'.wire = t.wire)
    {fs : List Frame} (hlast : w.st.last = some k)
    (hechoes : pongsOf (heard (t.wire ++ w.st.outq)) = pingsOf fs)
    (hdec : Decoded t'.arrived fs t'.dec)
    (hquiet : t'.pings = false → ∀ f ∈ fs, f.liveness = false) :
    Echoes (w.drainReader k t' w.st.generation) := by
  obtain ⟨q, hans⟩ := applyFrames_answers t'.pings (frames t'.dec).1 w.st
  have hpings : pingsOf (fs ++ (frames t'.dec).1) <+: pingsOf (frames t'.arrived).1 := by
    have hitems : (frames t'.arrived).1 = fs ++ (frames t'.dec).1 := hdec.items
    exact hitems ▸ List.prefix_refl _
  -- a reader that stops applied what came before it stopped
  have hdone : ∀ (n : ℕ) (out : Except String String),
      Echoes ({ w with st := (applyFrames t'.pings w.st (frames t'.dec).1).1 }.setTask k
        { t' with toSshd := n, pc := .done out }) := fun n out =>
    h.apply { t' with toSshd := n, pc := .done out } ht hwire hlast hechoes hans hpings
      (by simp) (by simp)
  unfold World.drainReader
  dsimp only
  split
  · exact (hdone _ _).park
  · exact (hdone _ _).park
  · rename_i rest hnone hok
    refine h.apply { t' with
      toSshd := t'.toSshd + (applyFrames t'.pings w.st (frames t'.dec).1).2.1
      dec := rest, pc := .reading w.st.generation } ht hwire hlast hechoes hans hpings (by simp) ?_
    intro g hg
    cases hg
    exact ⟨rfl, hnone, hdec.drain nextFrame_framing hok, hquiet⟩

/-- A read of pump D returns. -/
theorem readClient (h : Echoes w) {g : ℕ} (ht : w.tasks[k]? = some t) (hpc : t.pc = .reading g)
    (r : ReadResult) : Echoes (w.readClient k t g r) := by
  unfold World.readClient
  dsimp only
  by_cases hg : w.st.generation ≠ g
  · rw [if_pos hg]
    exact h.setTask ht rfl rfl rfl
  rw [if_neg hg]
  rw [not_not] at hg
  subst hg
  split
  · rename_i b
    obtain ⟨fs, howes⟩ := h.reading k t ht hpc
    refine h.drainReader _ ht ?_ howes.last howes.echoes (howes.decoded.append b) howes.quiet
    rfl
  · split_ifs
    · exact h.setTask ht rfl rfl rfl
    · exact Echoes.park (h.setTask ht rfl rfl rfl)

/-- Pump A records and queues bytes of sshd: no control frame is among them. -/
theorem record (h : Echoes w) (buf : Bytes) : Echoes (w.record buf) := by
  have hpieces : Pieces ((Incremental.chunks chunk buf).map encodeData) := pieces_chunks (by decide) buf
  have hpongs : pongsOf (heard ((Incremental.chunks chunk buf).map encodeData)) = [] := by
    obtain ⟨ps, hps⟩ := hpieces.heard
    rw [hps, pongsOf_map_data]
  refine ⟨h.queue.append hpieces.spells, h.wires, h.counted, h.replying, h.reading_le,
    fun j u hu hpc => ?_, fun j u hu => ?_⟩
  · obtain ⟨fs, howes⟩ := h.reading j u hu hpc
    refine ⟨fs, howes.last, howes.decoded, ?_, howes.quiet⟩
    show pongsOf (heard (u.wire ++ (w.st.outq ++ _))) = _
    rw [← List.append_assoc, heard_append, pongsOf_append, hpongs, List.append_nil, howes.echoes]
  · have howed := h.owed j u hu
    rw [queuedFor] at howed
    show pongsOf (heard (u.wire ++ if w.st.last = some j then w.st.outq ++ _ else [])) <+: _
    split_ifs at howed ⊢
    · rwa [← List.append_assoc, heard_append, pongsOf_append, hpongs, List.append_nil]
    · exact howed

theorem readSshd (h : Echoes w) (buf : Bytes) (result : StreamResult) (refused : Bool) :
    Echoes (w.readSshd buf result refused) := by
  have hset : ∀ {u : World} (p : PumpA), Echoes u → Echoes { u with pumpA := p } :=
    fun _ hu => hu.congr rfl rfl rfl rfl rfl (Nat.le_refl _)
  unfold World.readSshd
  by_cases hrefused : buf ≠ [] ∧ refused = true
  · rw [if_pos hrefused]
    exact (h.endSession "host key refused").congr rfl rfl rfl rfl rfl (Nat.le_refl _)
  · rw [if_neg hrefused]
    dsimp only
    have hrec : Echoes (if buf = [] then w else w.record buf) := by
      split_ifs
      · exact h
      · exact h.record buf
    cases result with
    | complete => exact hset .waiting hrec
    | dropped => exact hset .done (hrec.endSession _)
    | cancelled => exact hset .done (hrec.endSession _)

/-- Pump B writes a frame of the queue. -/
theorem takes (h : Echoes w) (hl : w.Latest) {b : Bytes} {q : List Bytes}
    (hlast : w.st.last = some k) (hq : w.st.outq = b :: q) :
    Echoes { w with
      st := { w.st with send := none, outq := q }
      pumpB := .writing b w.st.generation k
      tasks := w.tasks.modify k fun t => { t with wire := t.wire ++ [b] } } := by
  obtain ⟨hb, hspells⟩ := spells_cons.1 (hq ▸ h.queue)
  -- what leaves the queue is on the wire
  have hmoved : ∀ wire : List Bytes, wire ++ [b] ++ q = wire ++ w.st.outq := by
    intro wire
    rw [hq, List.append_assoc, List.singleton_append]
  have hback : ∀ {j : ℕ} {u : Task}, (w.tasks.modify k fun t =>
      { t with wire := t.wire ++ [b] })[j]? = some u → ∃ t, w.tasks[j]? = some t ∧
        u = { t with wire := if k = j then t.wire ++ [b] else t.wire } := by
    intro j u hu
    obtain ⟨t, ht, rfl⟩ := getElem?_modify_eq_some.1 hu
    exact ⟨t, ht, by split_ifs <;> rfl⟩
  refine ⟨hspells, fun j u hu => ?_, h.counted, fun j u fresh tail hu hpc => ?_,
    fun j u g hu hpc => ?_, fun j u hu hpc => ?_, fun j u hu => ?_⟩
  · obtain ⟨t, ht, rfl⟩ := hback hu
    dsimp only
    split_ifs
    · exact (h.wires j t ht).append hb
    · exact h.wires j t ht
  · obtain ⟨t, ht, rfl⟩ := hback hu
    have hkj : k ≠ j := fun heq => hl.attached j t (heq ▸ hlast) ht fresh tail hpc
    dsimp only
    rw [if_neg hkj]
    exact h.replying j t fresh tail ht hpc
  · obtain ⟨t, ht, rfl⟩ := hback hu
    exact h.reading_le j t g ht hpc
  · obtain ⟨t, ht, rfl⟩ := hback hu
    obtain ⟨fs, howes⟩ := h.reading j t ht hpc
    have hkj : k = j := Option.some.inj (hlast.symm.trans howes.last)
    refine ⟨fs, howes.last, howes.decoded, ?_, howes.quiet⟩
    dsimp only
    rw [if_pos hkj, hmoved]
    exact howes.echoes
  · obtain ⟨t, ht, rfl⟩ := hback hu
    have howed := h.owed j t ht
    rw [queuedFor] at howed
    show pongsOf (heard ((if k = j then t.wire ++ [b] else t.wire) ++
      if w.st.last = some j then q else [])) <+: _
    by_cases hkj : k = j
    · subst hkj
      rw [if_pos hlast] at howed ⊢
      rwa [if_pos rfl, hmoved]
    · have hnot : ¬ w.st.last = some j := fun heq => hkj (Option.some.inj (hlast.symm.trans heq))
      rw [if_neg hnot] at howed ⊢
      rwa [if_neg hkj]

/-- Pump B's write returns. -/
theorem wroteClient (h : Echoes w) (g k : ℕ) (ok : Bool) : Echoes (w.wroteClient g k ok) := by
  unfold World.wroteClient
  dsimp only
  split_ifs
  · exact h.congr rfl rfl rfl rfl rfl (Nat.le_refl _)
  · exact h.congr rfl rfl rfl rfl rfl (Nat.le_refl _)
  · have hpolling : Echoes { w with pumpB := .polling } :=
      h.congr rfl rfl rfl rfl rfl (Nat.le_refl _)
    exact hpolling.park

/-- Pump B takes a job. -/
theorem takeJob (h : Echoes w) (hl : w.Latest) (hjob : w.takeJob = some w') : Echoes w' := by
  unfold World.takeJob at hjob
  obtain ⟨⟨job, st⟩, hnext, rfl⟩ := Option.map_eq_some_iff.1 hjob
  obtain ⟨b, q, k, -, hsend, hq, rfl, rfl⟩ | ⟨k, -, -, -, -, rfl, rfl⟩ | ⟨-, -, rfl, rfl⟩ :=
    nextWriteJob_cases hnext
  · exact h.takes hl (hl.send k hsend) hq
  · exact h.congr rfl rfl rfl rfl rfl (Nat.le_refl _)
  · exact h.congr rfl rfl rfl rfl rfl (Nat.le_refl _)

/-- A connection resumes. -/
theorem resumes (h : Echoes w) (hl : w.Latest) (peer : String) (received : ℕ) (pings : Bool)
    (dec : Bytes) :
    Echoes { w with tasks := w.tasks ++ [w.resumeSession peer received pings dec] } where
  queue := h.queue
  wires j u hu := by
    rcases getElem?_concat_eq_some.1 hu with hj | ⟨rfl, rfl⟩
    · exact h.wires j u hj
    · exact spells_nil
  counted := h.counted
  replying j u fresh tail hu hpc := by
    rcases getElem?_concat_eq_some.1 hu with hj | ⟨rfl, rfl⟩
    · exact h.replying j u fresh tail hj hpc
    · exact ⟨rfl, rfl⟩
  reading_le j u g hu hpc := by
    rcases getElem?_concat_eq_some.1 hu with hj | ⟨rfl, rfl⟩
    · exact h.reading_le j u g hj hpc
    · exact absurd hpc (World.resumePc_ne_reading g)
  reading j u hu hpc := by
    rcases getElem?_concat_eq_some.1 hu with hj | ⟨rfl, rfl⟩
    · obtain ⟨fs, howes⟩ := h.reading j u hj hpc
      exact ⟨fs, howes.last, howes.decoded, howes.echoes, howes.quiet⟩
    · exact absurd hpc (World.resumePc_ne_reading _)
  owed j u hu := by
    rcases getElem?_concat_eq_some.1 hu with hj | ⟨rfl, rfl⟩
    · exact h.owed j u hj
    · have hne : ¬ w.st.last = some w.tasks.length := fun hlast => absurd (hl.lt _ hlast) (by omega)
      rw [queuedFor, if_neg hne]
      exact List.nil_prefix

/-- A task attaches: nothing is owed to it yet, and the one before it is owed nothing more. -/
theorem attach (h : Echoes w) (ht : w.tasks[k]? = some t) {fresh : Bool} {tail : Bytes}
    (hpc : t.pc = .replying fresh tail) :
    Echoes (w.attach k t tail) ∧
      Owes (w.attach k t tail) k { t with pc := .reading (w.st.generation + 1) } [] := by
  obtain ⟨hwire, hdec⟩ := h.replying k t fresh tail ht hpc
  have hpieces : Pieces ((Incremental.chunks chunk tail).map encodeData) :=
    pieces_chunks (by decide) tail
  have hpongs : pongsOf (heard ((Incremental.chunks chunk tail).map encodeData)) = [] := by
    obtain ⟨ps, hps⟩ := hpieces.heard
    rw [hps, pongsOf_map_data]
  have howes : Owes (w.attach k t tail) k { t with pc := .reading (w.st.generation + 1) } [] := by
    refine ⟨rfl, ?_, ?_, by simp⟩
    · show Decoded t.arrived [] t.dec
      rw [hdec]
      exact Incremental.left_refl _
    · show pongsOf (heard (t.wire ++ (Incremental.chunks chunk tail).map encodeData)) = _
      rw [hwire, List.nil_append, hpongs, pingsOf_nil]
  refine ⟨⟨hpieces.spells, fun j u hu => ?_, h.counted, fun j u fresh' tail' hu hpc' => ?_,
    fun j u g hu hpc' => ?_, fun j u hu hpc' => ?_, fun j u hu => ?_⟩, howes⟩
  · rcases getElem?_set_eq_some hu with ⟨rfl, rfl⟩ | ⟨-, hj⟩
    · exact h.wires _ t ht
    · exact h.wires j u hj
  · rcases getElem?_set_eq_some hu with ⟨rfl, rfl⟩ | ⟨-, hj⟩
    · cases hpc'
    · exact h.replying j u fresh' tail' hj hpc'
  · show g ≤ w.st.generation + 1
    rcases getElem?_set_eq_some hu with ⟨rfl, rfl⟩ | ⟨-, hj⟩
    · cases hpc'
      exact Nat.le_refl _
    · exact Nat.le_succ_of_le (h.reading_le j u g hj hpc')
  · rcases getElem?_set_eq_some hu with ⟨rfl, rfl⟩ | ⟨-, hj⟩
    · exact ⟨[], howes⟩
    · exact absurd (h.reading_le j u _ hj hpc') (Nat.not_succ_le_self _)
  · show pongsOf (heard (u.wire ++ if some k = some j then _ else [])) <+: _
    rcases getElem?_set_eq_some hu with ⟨rfl, rfl⟩ | ⟨hne, hj⟩
    · rw [if_pos rfl, howes.echoes]
      exact List.nil_prefix
    · have howed := h.owed j u hj
      rw [heard_append, pongsOf_append] at howed
      rw [if_neg (fun heq => hne (Option.some.inj heq).symm), List.append_nil]
      exact (List.prefix_append _ _).trans howed

/-- The reply is written. -/
theorem attachTask (h : Echoes w) (ht : w.tasks[k]? = some t) {fresh : Bool} {tail : Bytes}
    (hpc : t.pc = .replying fresh tail) : Echoes (w.attachTask k t fresh tail) := by
  obtain ⟨hatt, howes⟩ := h.attach ht hpc
  have hget : (w.attach k t tail).tasks[k]? =
      some { t with pc := .reading (w.st.generation + 1) } := by
    have hk := (List.getElem?_eq_some_iff.1 ht).1
    simp [World.attach, World.setTask, hk]
  unfold World.attachTask
  cases fresh with
  | false =>
    exact hatt.drainReader { t with pc := .reading (w.st.generation + 1) } hget rfl howes.last
      howes.echoes howes.decoded howes.quiet
  | true =>
    have hspawn : Echoes (w.attach k t tail).spawnSessionTasks :=
      hatt.congr rfl rfl rfl rfl rfl (Nat.le_refl _)
    exact hspawn.drainReader { t with pc := .reading (w.st.generation + 1) } hget rfl
      howes.last howes.echoes howes.decoded howes.quiet

/-- **The queue says what is owed to the client it is written to.** Every step keeps it so. -/
theorem step (h : Echoes w) (hl : w.Latest) (hstep : w.step a = some w') : Echoes w' := by
  -- the rest of the state has no part in it
  have other : ∀ {v : World}, v.tasks = w.tasks → v.st.outq = w.st.outq → v.st.last = w.st.last →
      v.st.received = w.st.received → v.st.pushed = w.st.pushed →
      v.st.generation = w.st.generation → Echoes v :=
    fun ht ho hla hr hp hg => h.congr ht ho hla hr hp (Nat.le_of_eq hg.symm)
  cases a with
  | pollA =>
    simp only [World.step] at hstep
    split_ifs at hstep <;> cases hstep <;> exact other rfl rfl rfl rfl rfl rfl
  | readA buf result refused =>
    simp only [World.step, Option.ite_none_right_eq_some, Option.some.injEq] at hstep
    obtain ⟨-, rfl⟩ := hstep
    exact h.readSshd buf result refused
  | pollB =>
    simp only [World.step, Option.ite_none_right_eq_some] at hstep
    exact h.takeJob hl hstep.2
  | wroteB ok =>
    simp only [World.step] at hstep
    split at hstep <;> cases hstep
    exact h.wroteClient _ _ ok
  | pollC =>
    simp only [World.step, Option.ite_none_right_eq_some] at hstep
    obtain ⟨_, _, rfl⟩ := World.takeInbound_cases hstep.2
    exact other rfl rfl rfl rfl rfl rfl
  | wroteC n =>
    simp only [World.step] at hstep
    split at hstep <;> cases hstep
    unfold World.wroteSshd
    dsimp only
    split_ifs <;> exact other rfl rfl rfl rfl rfl rfl
  | resume peer received pings dec =>
    cases hstep
    exact h.resumes hl peer received pings dec
  | replied k err =>
    simp only [World.step] at hstep
    split at hstep
    · cases hstep
    · rename_i t ht
      split at hstep
      · cases hstep
        exact h.setTask ht rfl rfl rfl
      · rename_i fresh tail hpc
        cases hstep
        exact h.attachTask ht hpc
      · cases hstep
  | refused k =>
    simp only [World.step] at hstep
    split at hstep
    · cases hstep
    · rename_i t ht
      split at hstep
      · rename_i reason gap err hpc
        cases hstep
        cases gap with
        | true => exact (h.endSession reason).setTask ht rfl rfl rfl
        | false => exact h.setTask ht rfl rfl rfl
      · cases hstep
  | read k r =>
    simp only [World.step] at hstep
    split at hstep
    · cases hstep
    · rename_i t ht
      split at hstep
      · rename_i g hpc
        cases hstep
        exact h.readClient ht hpc r
      · cases hstep
  | fire i =>
    simp only [World.step] at hstep
    split at hstep
    · cases hstep
    · split_ifs at hstep
      cases hstep
      unfold World.expire
      split_ifs <;> exact other rfl rfl rfl rfl rfl rfl
  | elapse d =>
    cases hstep
    exact other rfl rfl rfl rfl rfl rfl
  | otherEnded id reason =>
    simp only [World.step] at hstep
    split_ifs at hstep
    cases hstep
    exact other rfl rfl rfl rfl rfl rfl

end Echoes

/-- The invariant holds when `start_session` registers the session. -/
theorem echoes_start (id : SessionId) (creator : String) (grace : ℕ) (reg : Registry) (pings : Bool)
    (dec : Bytes) : Echoes (World.start id creator grace reg pings dec) where
  queue := spells_nil
  wires k t ht := by
    obtain rfl := List.mem_singleton.1 (List.mem_of_getElem? ht)
    exact spells_nil
  counted := rfl
  replying k t fresh tail ht hpc := by
    obtain rfl := List.mem_singleton.1 (List.mem_of_getElem? ht)
    exact ⟨rfl, rfl⟩
  reading_le k t g ht hpc := by
    obtain rfl := List.mem_singleton.1 (List.mem_of_getElem? ht)
    cases hpc
  reading k t ht hpc := by
    obtain rfl := List.mem_singleton.1 (List.mem_of_getElem? ht)
    cases hpc
  owed k t ht := by
    obtain rfl := List.mem_singleton.1 (List.mem_of_getElem? ht)
    exact List.nil_prefix

/-- It holds in every run. -/
theorem echoes_run {id : SessionId} {creator : String} {grace : ℕ} {reg : Registry} {pings : Bool}
    {dec : Bytes} {as : List Action} {w : World}
    (hrun : Run.run World.step (World.start id creator grace reg pings dec) as = some w) :
    w.Latest ∧ Echoes w :=
  Run.run_inv_of_step (P := fun w => w.Latest ∧ Echoes w)
    (fun _ _ _ h hstep => ⟨h.1.step hstep, h.2.step h.1 hstep⟩)
    ⟨World.latest_start .., echoes_start ..⟩ hrun

end Invariant

end Listener
