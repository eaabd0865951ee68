import Wosh.Client.Decoding
import Wosh.Client.Wire

set_option relaxedAutoImplicit false
set_option autoImplicit false

/-!
# What a step does to a connection

A peer sees of a session what its connections carry. Bytes arrive on a connection and are read off
it; its hello is written when it is opened; and it is installed with the count of the first reply
that is read from it.

## Main definitions

* `Client.Label.arriving` — the bytes that arrive on a connection in a step.
* `Client.World.greeting` — the hello of a resume.
* `Client.World.Moved` — what a step makes of a connection.
* `Client.Told` — a connection was told to go on from some count.

## Main results

* `Client.World.moved_step` — every connection after a step is new, or was moved.
* `Client.World.Unanswered.step` — a handshake that goes on has found no reply.
* `Client.World.AllTold.step` — an installed connection was told its count.
* `Client.World.queued_step` — what was queued stays queued.
-/

namespace Client

open Tunnel

/-- The bytes that arrive on a connection in a step. -/
def Label.arriving (l : Label) (c : ℕ) : Bytes :=
  match l.act with
  | .arrive c' b => if c' = c then b else []
  | _ => []

/-- A reply. -/
def isReply : Frame → Bool
  | .reply _ => true
  | _ => false

/-- The first reply on a connection told its client how much was received. -/
def Told [Postcard] (conn : Conn) : Prop :=
  ∃ (fs : List Frame) (p : UInt64),
    fs ++ [.reply (.resumed p)] <+: (frames (conn.taken ++ conn.inbox)).1 ∧
      (∀ f ∈ fs, isReply f = false) ∧ conn.peerReceived = p.toNat

namespace World

/-- The hello of a resume: it carries a snapshot of the receive counter. -/
def greeting [Postcard] (w : World) : Bytes :=
  encodeHello ⟨w.pairing, some ⟨w.sessionId, UInt64.ofNat w.received⟩⟩

/-- What a step makes of connection `c`. -/
structure Moved [Postcard] (w : World) (l : Label) (c : ℕ) (conn conn' : Conn) : Prop where
  /-- What arrived follows what had arrived. -/
  stream : conn'.taken ++ conn'.inbox = conn.taken ++ conn.inbox ++ l.arriving c
  /-- The hello is written when the connection opens. -/
  hello : (conn'.hello = conn.hello ∧ conn'.resumeFrom = conn.resumeFrom) ∨
    ((∃ (i : ℕ) (loop : Loop), w.loops[i]? = some loop ∧ loop.pc = .opening c) ∧
      conn'.hello = some w.greeting ∧ conn'.resumeFrom = w.received)
  /-- A connection is installed with the count of the reply that a handshake reads. -/
  reply : (conn'.installed = conn.installed ∧
      (conn.installed ≠ none → conn'.peerReceived = conn.peerReceived)) ∨
    ∃ (i k : ℕ) (loop : Loop) (dec dec' : Bytes) (deferred deferred' : List Bytes) (p : UInt64),
      w.loops[i]? = some loop ∧ loop.pc = .replying c dec deferred ∧
      handshakeFrames (dec ++ w.waiting c k) deferred = .reply (.resumed p) deferred' dec' ∧
      conn'.peerReceived = p.toNat

variable [Postcard] {w w' v : World} {l : Label} {n : Next}

/-! ## What moves a connection -/

section Moved

variable {c : ℕ} {conn conn' conn'' : Conn}

/-- A connection that is read from, closed or written on, and is not told anything. -/
theorem Moved.of_read (hact : l.arriving c = [])
    (hstream : conn'.taken ++ conn'.inbox = conn.taken ++ conn.inbox)
    (hhello : conn'.hello = conn.hello) (hfrom : conn'.resumeFrom = conn.resumeFrom)
    (hinst : conn'.installed = conn.installed)
    (hpeer : conn.installed ≠ none → conn'.peerReceived = conn.peerReceived) :
    w.Moved l c conn conn' :=
  ⟨by rw [hstream, hact, List.append_nil], .inl ⟨hhello, hfrom⟩, .inl ⟨hinst, hpeer⟩⟩

/-- Closing is not moving. -/
theorem Moved.same (h : w.Moved l c conn conn') (hs : conn'.Same conn'') :
    w.Moved l c conn conn'' := by
  rw [Conn.Same] at hs
  rw [hs]
  exact ⟨h.stream, h.hello, h.reply⟩

theorem moved_of_same (hact : l.arriving c = []) (hs : conn.Same conn') :
    w.Moved l c conn conn' :=
  (Moved.of_read hact rfl rfl rfl rfl fun _ => rfl).same hs

/-- What is read off a connection stays on it. -/
theorem moved_take (hact : l.arriving c = []) (k : ℕ) : w.Moved l c conn
    { conn with inbox := conn.inbox.drop k, taken := conn.taken ++ conn.inbox.take k } :=
  .of_read hact (by simp) rfl rfl rfl fun _ => rfl

end Moved

/-- Every connection of the second world is one of the first that was moved, or is new and closed at
most. -/
def AllMoved (w : World) (l : Label) (w' : World) : Prop :=
  w.conns.length ≤ w'.conns.length ∧ ∀ (c : ℕ) (conn' : Conn), w'.conns[c]? = some conn' →
    (w.conns.length ≤ c ∧ Conn.Same {} conn') ∨
      ∃ conn, w.conns[c]? = some conn ∧ w.Moved l c conn conn'

namespace AllMoved

/-- Connections that are at most closed. -/
theorem of_same (hact : ∀ c, l.arriving c = [])
    (h : Slots.Related Conn.Same w.conns w'.conns) : w.AllMoved l w' :=
  ⟨Nat.le_of_eq h.length_eq.symm, fun c _ hc =>
    let ⟨conn, hconn, hs⟩ := h.slot hc
    .inr ⟨conn, hconn, moved_of_same (hact c) hs⟩⟩

/-- Closing some of them afterwards. -/
theorem same (h : w.AllMoved l v) (hs : Slots.Related Conn.Same v.conns w'.conns) :
    w.AllMoved l w' := by
  refine ⟨by rw [hs.length_eq]; exact h.1, fun c _ hc => ?_⟩
  obtain ⟨conn, hconn, hsame⟩ := hs.slot hc
  rcases h.2 c conn hconn with ⟨hle, hnew⟩ | ⟨old, hold, hmoved⟩
  · exact .inl ⟨hle, hnew.trans hsame⟩
  · exact .inr ⟨old, hold, hmoved.same hsame⟩

/-- One of them is changed. -/
theorem modify {c : ℕ} {f : Conn → Conn} (hact : ∀ c, l.arriving c = [])
    (hconns : w'.conns = w.conns.modify c f)
    (hf : ∀ conn, w.conns[c]? = some conn → w.Moved l c conn (f conn)) : w.AllMoved l w' := by
  refine ⟨by rw [hconns, List.length_modify], fun j conn' hj => .inr ?_⟩
  rw [hconns] at hj
  obtain ⟨conn, hconn, rfl⟩ := Slots.getElem?_modify_eq_some.1 hj
  refine ⟨conn, hconn, ?_⟩
  split_ifs with hcj
  · subst hcj
    exact hf conn hconn
  · exact moved_of_same (hact j) (.refl conn)

end AllMoved

/-! ## Steps -/

omit [Postcard] in
/-- Nothing arrives in a step that is no arrival. -/
theorem arriving_eq_nil (hact : ∀ c b, l.act ≠ .arrive c b) (c : ℕ) : l.arriving c = [] := by
  unfold Label.arriving
  split
  · exact absurd ‹_› (hact _ _)
  · rfl

/-- Bytes arrive. -/
theorem moved_arrive {c : ℕ} {b : Bytes} (hact : l.act = .arrive c b)
    (harr : w.arrive c b = some w') : w.AllMoved l w' := by
  obtain ⟨conn, -, hw, -⟩ := arrive_cases harr
  refine ⟨by rw [hw]; simp, fun j conn' hj => .inr ?_⟩
  rw [hw] at hj
  obtain ⟨a, ha, rfl⟩ := Slots.getElem?_modify_eq_some.1 hj
  refine ⟨a, ha, ?_⟩
  have harriving : l.arriving j = if c = j then b else [] := by
    unfold Label.arriving
    rw [hact]
  split_ifs with hcj
  · rw [if_pos hcj] at harriving
    exact ⟨by rw [harriving, List.append_assoc], .inl ⟨rfl, rfl⟩,
      .inl ⟨rfl, fun _ => rfl⟩⟩
  · rw [if_neg hcj] at harriving
    exact moved_of_same harriving (.refl a)

/-- A quiet step in which nothing arrives. -/
theorem moved_hear (hact : ∀ c b, l.act ≠ .arrive c b) (hh : w.HearStep l w') :
    w.AllMoved l w' := by
  have hnil := arriving_eq_nil hact
  cases hh with
  | still hact hs => exact .of_same hnil hs.conns
  | arrived c b hact' harr => exact absurd hact' (hact c b)
  | vain g k r hr hstale => exact .modify hnil rfl fun conn _ => moved_take (hnil _) k
  | seeded g r hact hr hpc hd => exact .of_same hnil hd.conns
  | read g k r hr hpc hcur hd =>
    have htook : w.AllMoved l
        ((w.takeInbox r.conn k).decode g (r.dec ++ w.waiting r.conn k) .reading) :=
      .modify hnil rfl fun conn _ => moved_take (hnil _) k
    exact htook.same hd.conns

/-- A writer's step. -/
theorem moved_writer {g : ℕ} {t : Writer} (hact : ∀ c, l.arriving c = [])
    (h : WriterStep w l.act g t w' n) : w.AllMoved l w' := by
  have hwire : ∀ (fs : List Bytes) (conn : Conn),
      w.Moved l t.conn conn { conn with wire := conn.wire ++ fs } := fun fs conn =>
    .of_read (hact _) rfl rfl rfl rfl fun _ => rfl
  cases h with
  | parked => exact .of_same hact (.refl Conn.Same.refl _)
  | done n hn => exact .of_same hact (.refl Conn.Same.refl _)
  | pieces fs => exact .modify hact rfl fun conn _ => hwire fs conn
  | round hcur hlive hpend hb =>
    obtain ⟨fs, pc, -, hcs, -⟩ := hb.wire
    exact .modify hact hcs fun conn _ => hwire fs conn

/-- A resume's step, when no hello is written. -/
theorem moved_loop (ht : w.Tasks) {i : ℕ} {loop : Loop} (hact : ∀ c, l.arriving c = [])
    (hloop : w.loops[i]? = some loop) (hopening : ∀ c, loop.pc ≠ .opening c)
    (h : LoopStep w l.act i loop w' n) : w.AllMoved l w' := by
  cases h with
  | letGo c f n hw hc hf hread hgap hconns hpc hn hgen hover =>
    have hmoved : w.AllMoved l (w.modifyConn c f) := by
      refine .modify hact rfl fun conn hconn => ?_
      have hkept := hf conn
      refine .of_read (hact c) (hread conn) (by rw [hkept]) (by rw [hkept]) (by rw [hkept])
        fun hinst => ?_
      rcases hc with hheld | rfl
      · obtain ⟨a, ha, hnone⟩ := ht.held hloop hheld
        cases hconn.symm.trans ha
        exact absurd hnone hinst
      · rfl
    rw [hw]
    exact hmoved.same hconns
  | dialed conn hw hconn hpc hgen hover =>
    rw [hw]
    refine ⟨by simp [setLoop], fun c conn' hc => ?_⟩
    rcases Slots.getElem?_concat_eq_some.1 hc with hc | ⟨rfl, rfl⟩
    · exact .inr ⟨conn', hc, moved_of_same (hact c) (.refl conn')⟩
    · exact .inl ⟨Nat.le_refl _, hconn⟩
  | opened c hw hc hpc hgen => exact absurd hc (hopening c)
  | helloed c hw hc hpc hgen =>
    rw [hw]
    exact .of_same hact (.refl Conn.Same.refl _)
  | more c k hw hc hshake hpc hgen =>
    rw [hw]
    exact .modify hact rfl fun conn _ => moved_take (hact _) k
  | installed c k p hc hshake htail hlive' hact' hinst =>
    obtain ⟨v, -, hv, -, -, hdrove⟩ := install_cases hinst
    have htold : w.AllMoved l v := by
      have hconns : v.conns = w.conns.modify c fun conn => { conn with
          inbox := conn.inbox.drop k
          taken := conn.taken ++ conn.inbox.take k
          peerReceived := p.toNat
          installed := some (w.generation + 1) } := by
        rw [hv]
        show ((w.conns.modify c _).modify c _).modify c _ = _
        rw [List.modify_modify_eq, List.modify_modify_eq]
        rfl
      refine .modify hact hconns fun conn _ => ⟨?_, .inl ⟨rfl, rfl⟩, .inr ?_⟩
      · simp [hact c]
      · exact ⟨i, k, loop, _, _, _, _, p, hloop, hc, hshake, rfl⟩
    exact htold.same hdrove.conns

/-- A hello is written, or not. -/
theorem moved_opened {i : ℕ} {ok : Bool} (hact : ∀ c, l.arriving c = [])
    (h : w.opened i ok = some (w', n)) : w.AllMoved l w' := by
  unfold opened at h
  split at h
  · rename_i loop hloop
    split at h
    · rename_i c hpc
      split_ifs at h with hok habandoned
      · cases h
        exact .of_same hact (same_closeConn w.conns c)
      · cases h
        exact .of_same hact (same_closeConn w.conns c)
      · cases h
        refine .modify hact rfl fun conn _ => ⟨?_, .inr ⟨⟨i, loop, hloop, hpc⟩, rfl, rfl⟩,
          .inl ⟨rfl, fun _ => rfl⟩⟩
        simp [hact c]
    · cases h
  · cases h

/-- **What a step does to the connections**, up to where it is settled. -/
theorem moved_piece (ht : w.Tasks) (hpiece : w.piece l = some (w', n)) : w.AllMoved l w' := by
  by_cases harr : ∃ c b, l.act = .arrive c b
  · obtain ⟨c, b, hact⟩ := harr
    obtain ⟨act, moves, dying⟩ := l
    obtain rfl : act = .arrive c b := hact
    obtain ⟨v, hv, heq⟩ := Option.map_eq_some_iff.1 hpiece
    cases heq
    exact moved_arrive rfl hv
  have hnone : ∀ c b, l.act ≠ .arrive c b := fun c b hact => harr ⟨c, b, hact⟩
  have hnil := arriving_eq_nil hnone
  by_cases hq : l.act.quiet = true
  · exact moved_hear hnone (hear_cases ht.framed hq hpiece)
  obtain ⟨act, moves, dying⟩ := l
  cases act <;> simp only [Action.quiet, not_true_eq_false] at hq <;> simp only [piece] at hpiece
  case pollWriter g =>
    obtain ⟨t, -, hw⟩ := writerStep_pollWriter hpiece
    exact moved_writer hnil hw
  case wrote g ok =>
    obtain ⟨t, -, hw⟩ := writerStep_wrote hpiece
    exact moved_writer hnil hw
  case opened i ok => exact moved_opened hnil hpiece
  case wake =>
    cases hpiece
    have hsame : w.wake.conns = w.conns := by
      unfold wake
      dsimp only
      split_ifs <;> rfl
    refine .of_same hnil ?_
    rw [hsame]
    exact .refl Conn.Same.refl _
  -- a resume that awaits `open_bi` has no other step
  case pollLoop i =>
    obtain ⟨loop, hloop, -, hl⟩ := loopStep_pollLoop hpiece
    exact moved_loop ht hnil hloop (fun c hpc => by simp [pollLoop, hloop, hpc] at hpiece) hl
  case dialed i ok =>
    obtain ⟨loop, hloop, -, hl⟩ := loopStep_dialed hpiece
    exact moved_loop ht hnil hloop (fun c hpc => by simp [dialed, hloop, hpc] at hpiece) hl
  case rebound i =>
    obtain ⟨loop, hloop, -, hl⟩ := loopStep_rebound hpiece
    exact moved_loop ht hnil hloop (fun c hpc => by simp [rebound, hloop, hpc] at hpiece) hl
  case slept i =>
    obtain ⟨loop, hloop, -, hl⟩ := loopStep_slept hpiece
    exact moved_loop ht hnil hloop (fun c hpc => by simp [slept, hloop, hpc] at hpiece) hl
  case helloed i ok =>
    obtain ⟨loop, hloop, -, hl⟩ := loopStep_helloed hpiece
    exact moved_loop ht hnil hloop (fun c hpc => by simp [helloed, hloop, hpc] at hpiece) hl
  case loopRead i k =>
    obtain ⟨loop, hloop, -, hl⟩ := loopStep_loopRead hpiece
    exact moved_loop ht hnil hloop (fun c hpc => by simp [loopRead, hloop, hpc] at hpiece) hl
  case loopReadEnd i =>
    obtain ⟨loop, hloop, -, hl⟩ := loopStep_loopReadEnd hpiece
    exact moved_loop ht hnil hloop (fun c hpc => by simp [loopReadEnd, hloop, hpc] at hpiece) hl

omit [Postcard] in
/-- What follows a piece closes a connection at most. -/
theorem same_settle (w : World) (n : Next) :
    Slots.Related Conn.Same w.conns (w.settle n).1.conns := by
  refine settle_rule (P := fun v => Slots.Related Conn.Same w.conns v.conns)
    (.refl Conn.Same.refl _) n (.refl Conn.Same.refl _) (fun g => same_closeConn w.conns w.conn)
    fun hv ht => ?_
  cases ht <;> exact hv

/-- **What a step does to the connections.** -/
theorem moved_step (ht : w.Tasks) (hstep : w.step l = some w') : w.AllMoved l w' := by
  obtain ⟨v, n, hpiece, hsettle⟩ := step_cases hstep
  have hmoved := (moved_piece ht hpiece).same (v.same_settle n)
  rcases hsettle with ⟨-, rfl⟩ | ⟨reason, -, hdie⟩
  · exact hmoved
  · rcases still_declareDead hdie with heq | ⟨-, hstill⟩
    · rwa [heq]
    · exact hmoved.same hstill.conns

/-! ## What a handshake finds -/

/-- From `dec` to `dec'`, some frames that are no replies are taken off a decoder, and then `last`. -/
def Passes (dec : Bytes) (last : List Frame) (dec' : Bytes) : Prop :=
  ∃ fs, (∀ stream fs₀, Decoded stream fs₀ dec → Decoded stream (fs₀ ++ fs ++ last) dec') ∧
    ∀ f ∈ fs, isReply f = false

theorem passes_nil (dec : Bytes) : Passes dec [] dec :=
  ⟨[], fun stream fs₀ h => by rwa [List.append_nil, List.append_nil], by simp⟩

/-- One that is no reply, and more. -/
theorem Passes.cons {dec rest dec' : Bytes} {last : List Frame} {f : Frame}
    (h : Passes rest last dec') (hnext : nextFrame dec = .ok (some (f, rest)))
    (hf : isReply f = false) : Passes dec last dec' := by
  obtain ⟨fs, hleft, hfs⟩ := h
  refine ⟨f :: fs, fun stream fs₀ hdec => ?_, fun g hg => ?_⟩
  · have hitem := hleft stream _ (hdec.item nextFrame_framing hnext)
    rwa [List.append_assoc fs₀] at hitem
  · exact (List.mem_cons.1 hg).elim (fun heq => heq ▸ hf) (hfs g)

/-- A handshake takes frames off its decoder up to the first reply. -/
theorem passes_handshakeUpTo (m : ℕ) (dec : Bytes) (deferred : List Bytes) :
    (∀ dec' deferred', handshakeUpTo m dec deferred = .more dec' deferred' → Passes dec [] dec') ∧
    ∀ r dec' deferred', handshakeUpTo m dec deferred = .reply r deferred' dec' →
      Passes dec [.reply r] dec' := by
  induction m generalizing dec deferred with
  | zero =>
    refine ⟨fun dec' deferred' h => ?_, fun r dec' deferred' h => by cases h⟩
    cases h
    exact passes_nil dec
  | succ m ih =>
    unfold handshakeUpTo
    cases hnext : nextFrame dec with
    | error e => exact ⟨fun _ _ h => (by cases h), fun _ _ _ h => (by cases h)⟩
    | ok o =>
      cases o with
      | none =>
        refine ⟨fun dec' deferred' h => ?_, fun _ _ _ h => (by cases h)⟩
        cases h
        exact passes_nil dec
      | some q =>
        obtain ⟨f, rest⟩ := q
        cases f with
        | reply r =>
          refine ⟨fun _ _ h => (by cases h), fun r' dec' deferred' h => ?_⟩
          cases h
          refine ⟨[], fun stream fs₀ hdec => ?_, by simp⟩
          rw [List.append_nil]
          exact hdec.item nextFrame_framing hnext
        | data payload =>
          exact ⟨fun dec' deferred' h => ((ih rest _).1 dec' deferred' h).cons hnext rfl,
            fun r dec' deferred' h => ((ih rest _).2 r dec' deferred' h).cons hnext rfl⟩
        | ack count =>
          exact ⟨fun dec' deferred' h => ((ih rest _).1 dec' deferred' h).cons hnext rfl,
            fun r dec' deferred' h => ((ih rest _).2 r dec' deferred' h).cons hnext rfl⟩
        | hello _ => exact ⟨fun _ _ h => (by cases h), fun _ _ _ h => (by cases h)⟩
        | ping _ => exact ⟨fun _ _ h => (by cases h), fun _ _ _ h => (by cases h)⟩
        | pong _ => exact ⟨fun _ _ h => (by cases h), fun _ _ _ h => (by cases h)⟩

/-- A handshake that goes on has found no reply. -/
structure Unanswered (w : World) : Prop where
  replying : ∀ {i c : ℕ} {loop : Loop} {dec : Bytes} {deferred : List Bytes} {conn : Conn},
    w.loops[i]? = some loop → loop.pc = .replying c dec deferred → w.conns[c]? = some conn →
    ∃ fs, Decoded conn.taken fs dec ∧ ∀ f ∈ fs, isReply f = false

namespace Unanswered

/-- The resumes that hold a connection are where they were, and nothing was read from it. -/
theorem keep (h : w.Unanswered)
    (hloops : ∀ (i : ℕ) (loop : Loop), w'.loops[i]? = some loop → loop.pc.conn = none ∨
      w.loops[i]? = some loop)
    (hconns : ∀ (i c : ℕ) (loop : Loop) (conn' : Conn), w.loops[i]? = some loop →
      loop.pc.conn = some c → w'.conns[c]? = some conn' →
      ∃ conn, w.conns[c]? = some conn ∧ conn'.taken = conn.taken) : w'.Unanswered where
  replying {i c loop dec deferred conn'} hl hpc hc := by
    have hheld : loop.pc.conn = some c := by rw [hpc]; rfl
    rcases hloops i loop hl with hnone | hl
    · cases hheld.symm.trans hnone
    · obtain ⟨conn, hconn, htaken⟩ := hconns i c loop conn' hl hheld hc
      rw [htaken]
      exact h.replying hl hpc hconn

omit [Postcard] in
/-- Connections that are closed at most, or written on. -/
theorem unread_of_related {i c : ℕ} {loop : Loop} {conn' : Conn}
    (hconns : Slots.Related Conn.Unread w.conns w'.conns) (_ : w.loops[i]? = some loop)
    (_ : loop.pc.conn = some c) (hc : w'.conns[c]? = some conn') :
    ∃ conn, w.conns[c]? = some conn ∧ conn'.taken = conn.taken :=
  hconns.slot hc

omit [Postcard] in
/-- A reader reads from a connection that no resume holds. -/
theorem unread_take (ht : w.Tasks) {g i c k : ℕ} {r : Reader} {loop : Loop} {conn' : Conn}
    (hr : w.readers[g]? = some r) (hl : w.loops[i]? = some loop) (hheld : loop.pc.conn = some c)
    (hc : (w.takeInbox r.conn k).conns[c]? = some conn') :
    ∃ conn, w.conns[c]? = some conn ∧ conn'.taken = conn.taken := by
  obtain ⟨a, ha, rfl⟩ := Slots.getElem?_modify_eq_some.1 hc
  rw [if_neg (Decoding.ne_held ht hr hl hheld)]
  exact ⟨a, ha, rfl⟩

theorem hear (h : w.Unanswered) (ht : w.Tasks) (hq : w.Quiet w') (hh : w.HearStep l w') :
    w'.Unanswered := by
  have hloops : ∀ (i : ℕ) (loop : Loop), w'.loops[i]? = some loop → loop.pc.conn = none ∨
      w.loops[i]? = some loop := fun i loop hl => .inr (by rwa [hq.only] at hl)
  refine h.keep hloops fun i c loop conn' hl hheld hc => ?_
  cases hh with
  | still hact hs => exact unread_of_related (Conn.related_unread hs.conns) hl hheld hc
  | arrived c' b hact harr =>
    obtain ⟨conn, -, hw, -⟩ := arrive_cases harr
    rw [hw] at hc
    obtain ⟨a, ha, rfl⟩ := Slots.getElem?_modify_eq_some.1 hc
    exact ⟨a, ha, by split_ifs <;> rfl⟩
  | vain g k r hr hstale => exact unread_take ht hr hl hheld hc
  | seeded g r hact hr hpc hd => exact unread_of_related (Conn.related_unread hd.conns) hl hheld hc
  | read g k r hr hpc hcur hd =>
    obtain ⟨a, ha, hs⟩ := hd.conns.slot hc
    obtain ⟨conn, hconn, htaken⟩ := unread_take ht hr hl hheld ha
    exact ⟨conn, hconn, Eq.trans hs.unread htaken⟩

theorem writerStep (h : w.Unanswered) {a : Action} {g : ℕ} {t : Writer}
    (hw : WriterStep w a g t w' n) : w'.Unanswered := by
  have hwrote : ∀ {v : World} (fs : List Bytes), v.loops = w.loops →
      v.conns = w.conns.modify t.conn (fun conn => { conn with wire := conn.wire ++ fs }) →
      v.Unanswered := by
    intro v fs hloops hconns
    refine h.keep (fun i loop hl => .inr (hloops ▸ hl)) fun i c loop conn' _ _ hc => ?_
    rw [hconns] at hc
    obtain ⟨a, ha, rfl⟩ := Slots.getElem?_modify_eq_some.1 hc
    exact ⟨a, ha, by split_ifs <;> rfl⟩
  cases hw with
  | parked => exact { h with }
  | done n hn => exact { h with }
  | pieces fs => exact hwrote fs rfl rfl
  | round hcur hlive hpend hb =>
    obtain ⟨fs, pc, -, hcs, -⟩ := hb.wire
    exact hwrote fs (by rw [hb.only]) hcs

/-- The one live resume moved on. -/
theorem setLoop (ht : w.Tasks) {i : ℕ} {loop loop' : Loop}
    (hloop : w.loops[i]? = some loop) (hlive : loop.pc ≠ .done)
    (hloops : w'.loops = w.loops.set i loop')
    (hreplying : ∀ (c : ℕ) (dec : Bytes) (deferred : List Bytes) (conn : Conn),
      loop'.pc = .replying c dec deferred → w'.conns[c]? = some conn →
      ∃ fs, Decoded conn.taken fs dec ∧ ∀ f ∈ fs, isReply f = false) : w'.Unanswered where
  replying {j c l dec deferred conn} hl hpc hc := by
    rw [hloops] at hl
    rcases Slots.getElem?_set_eq_some hl with ⟨-, rfl⟩ | ⟨hji, hl⟩
    · exact hreplying _ _ _ _ hpc hc
    · exact absurd (ht.alone hl (by rw [hpc]; exact nofun) hloop hlive) hji

theorem loopStep (h : w.Unanswered) (hdec : w.Decoding) (ht : w.Tasks) {a : Action} {i : ℕ}
    {loop : Loop} (hloop : w.loops[i]? = some loop) (hlive : loop.pc ≠ .done)
    (hl : LoopStep w a i loop w' n) : w'.Unanswered := by
  cases hl with
  | letGo c f n hw hc hf hread hgap hconns hpc hn hgen hover =>
    refine setLoop ht hloop hlive (by rw [hw]; rfl) fun c dec deferred conn hpc' _ => ?_
    rw [hpc'] at hpc
    cases hpc
  | dialed conn hw hconn hpc hgen hover =>
    refine setLoop ht hloop hlive (by rw [hw]; rfl) fun c dec deferred conn hpc' _ => ?_
    rcases hpc with hpc | hpc <;> rw [hpc'] at hpc <;> cases hpc
  | opened c hw hc hpc hgen =>
    refine setLoop ht hloop hlive (by rw [hw]; rfl) fun c dec deferred conn hpc' _ => ?_
    rw [hpc'] at hpc
    cases hpc
  | helloed c hw hc hpc hgen =>
    refine setLoop ht hloop hlive (by rw [hw]; rfl) fun c' dec deferred conn hpc' hconn => ?_
    rw [hpc'] at hpc
    cases hpc
    rw [hw] at hconn
    rw [hdec.unread hloop (.inr hc) hconn]
    exact ⟨[], Incremental.left_refl [], by simp⟩
  | more c k hw hc hshake hpc hgen =>
    refine setLoop ht hloop hlive (by rw [hw]; rfl) fun c' dec deferred conn hpc' hconn => ?_
    rw [hpc'] at hpc
    cases hpc
    rw [hw] at hconn
    obtain ⟨b, hb, rfl⟩ := Slots.getElem?_modify_eq_some.1 hconn
    obtain ⟨fs₀, hfs₀, hnone⟩ := h.replying hloop hc hb
    obtain ⟨fs, hleft, hnone'⟩ := (passes_handshakeUpTo _ _ _).1 _ _ hshake
    rw [waiting_eq hb] at hleft
    rw [if_pos rfl]
    refine ⟨fs₀ ++ fs, ?_, fun f hf => (List.mem_append.1 hf).elim (hnone f) (hnone' f)⟩
    have happ := hleft _ _ (hfs₀.append (b.inbox.take k))
    rwa [List.append_nil] at happ
  | installed c k p hc hshake htail hlive' hact hinst =>
    obtain ⟨hover, hno⟩ := ht.resumed hloop hlive c k p.toNat
    obtain ⟨v, -, hv, -, -, hdrove⟩ := install_cases hinst
    have hloops : w'.loops = ((w.takeInbox c k).resumed i loop c p.toNat).loops := by
      rw [hdrove.quiet.only]
      show v.loops = _
      rw [hv]
      rfl
    refine ⟨fun hl hpc _ => ?_⟩
    have hdone := hno _ _ (hloops ▸ hl)
    rw [hpc] at hdone
    cases hdone

theorem piece (h : w.Unanswered) (hdec : w.Decoding) (ht : w.Tasks)
    (hpiece : w.piece l = some (w', n)) : w'.Unanswered := by
  rcases piece_cases hpiece with ⟨hact, hq, -⟩ | ⟨g, t, hg, hw⟩ | ⟨i, loop, hloop, hlive, hl⟩ |
    ⟨-, rfl, -⟩
  · exact h.hear ht hq (hear_cases ht.framed hact hpiece)
  · exact h.writerStep hw
  · exact h.loopStep hdec ht hloop hlive hl
  · have hsame : w.wake.conns = w.conns := by
      unfold wake
      dsimp only
      split_ifs <;> rfl
    refine h.keep (fun i loop hl => ?_) fun i c loop conn' _ _ hc => ⟨conn', hsame ▸ hc, rfl⟩
    rcases w.wake_cases with hq | ⟨-, -, -, -, heq⟩
    · exact .inr (by rwa [hq.only] at hl)
    · rw [heq] at hl
      rcases Slots.getElem?_concat_eq_some.1 hl with hl | ⟨-, rfl⟩
      · exact .inr hl
      · exact .inl rfl

theorem settle (h : w.Unanswered) (n : Next) : (w.settle n).1.Unanswered := by
  refine settle_rule (P := World.Unanswered) h n { h with } (fun g => ?_) fun {v u i r} hv htop => ?_
  · have hclose : Slots.Related Conn.Unread w.conns (w.startLoop g).conns :=
      Conn.related_unread (same_closeConn w.conns w.conn)
    refine h.keep (fun j loop hl => ?_) fun i c loop conn' hl hheld hc =>
      unread_of_related hclose hl hheld hc
    rcases Slots.getElem?_concat_eq_some.1 hl with hl | ⟨-, rfl⟩
    · exact .inr hl
    · exact .inl rfl
  · -- at its top a resume holds no connection
    have hset : ∀ {u : World} {loop : Loop}, loop.pc.conn = none → u.conns = v.conns →
        u.loops = v.loops.set i loop → u.Unanswered := by
      intro u loop hpc hconns hloops
      refine hv.keep (fun j l hl => ?_) fun j c l conn' _ _ hc => ⟨conn', hconns ▸ hc, rfl⟩
      rw [hloops] at hl
      rcases Slots.getElem?_set_eq_some hl with ⟨-, rfl⟩ | ⟨-, hl⟩
      · exact .inl hpc
      · exact .inr hl
    cases htop with
    | gone hgone => exact hv
    | ended r hpc hold hgen hover => exact hset (by rw [hpc]; rfl) rfl rfl
    | standDown hpc hold hgen hgoing haway => exact hset (by rw [hpc]; rfl) rfl rfl
    | dial hpc hold hgen hgoing => exact hset (by rw [hpc]; rfl) rfl rfl

/-- **A step keeps it.** -/
theorem step (h : w.Unanswered) (hdec : w.Decoding) (ht : w.Tasks) (hstep : w.step l = some w') :
    w'.Unanswered := by
  obtain ⟨v, n, hpiece, hsettle⟩ := step_cases hstep
  have hs := (h.piece hdec ht hpiece).settle n
  rcases hsettle with ⟨-, rfl⟩ | ⟨reason, -, hdie⟩
  · exact hs
  · rcases still_declareDead hdie with heq | ⟨hq, hstill⟩
    · rwa [heq]
    · have hmark : (v.settle n).1.markDead.Unanswered := { hs with }
      exact hmark.keep (fun i loop hl => .inr (by rwa [hq.only] at hl))
        fun i c loop conn' hl hheld hc =>
          unread_of_related (Conn.related_unread hstill.conns) hl hheld hc

end Unanswered

/-- What a handshake reads of a reply is on the connection. -/
theorem Unanswered.told (h : w.Unanswered) {i c k : ℕ} {loop : Loop} {dec dec' : Bytes}
    {deferred deferred' : List Bytes} {p : UInt64} {conn conn' : Conn}
    (hloop : w.loops[i]? = some loop) (hpc : loop.pc = .replying c dec deferred)
    (hc : w.conns[c]? = some conn)
    (hshake : handshakeFrames (dec ++ w.waiting c k) deferred = .reply (.resumed p) deferred' dec')
    (hstream : conn.taken ++ conn.inbox <+: conn'.taken ++ conn'.inbox)
    (hpeer : conn'.peerReceived = p.toNat) : Told conn' := by
  obtain ⟨fs₀, hfs₀, hnone⟩ := h.replying hloop hpc hc
  obtain ⟨fs, hleft, hnone'⟩ := (passes_handshakeUpTo _ _ _).2 _ _ _ hshake
  rw [waiting_eq hc] at hleft
  have hread : conn.taken ++ conn.inbox.take k <+: conn'.taken ++ conn'.inbox :=
    ((List.prefix_append_right_inj _).2 (List.take_prefix k conn.inbox)).trans hstream
  refine ⟨fs₀ ++ fs, p, ?_, fun f hf => (List.mem_append.1 hf).elim (hnone f) (hnone' f), hpeer⟩
  have hdec := hleft _ _ (hfs₀.append (conn.inbox.take k))
  have hitems : (frames (conn.taken ++ conn.inbox.take k)).1 =
      fs₀ ++ fs ++ [.reply (.resumed p)] ++ (frames dec').1 := hdec.items
  refine .trans ?_ ( frames_prefix hread)
  rw [hitems]
  exact List.prefix_append _ _

/-- Every connection that a resume installed was told to go on. -/
def AllTold (w : World) : Prop :=
  ∀ (c g : ℕ) (conn : Conn), w.conns[c]? = some conn → conn.installed = some (g + 1) → Told conn

/-- **A step keeps that.** -/
theorem AllTold.step (h : w.AllTold) (hun : w.Unanswered) (ht : w.Tasks)
    (hstep : w.step l = some w') : w'.AllTold := by
  intro c g conn' hc hinst
  rcases (moved_step ht hstep).2 c conn' hc with ⟨-, hnew⟩ | ⟨conn, hconn, hmoved⟩
  · rw [Conn.Same] at hnew
    rw [hnew] at hinst
    cases hinst
  · have hstream : conn.taken ++ conn.inbox <+: conn'.taken ++ conn'.inbox := by
      rw [hmoved.stream]
      exact List.prefix_append _ _
    rcases hmoved.reply with ⟨hsame, hpeer⟩ | ⟨i, k, loop, dec, dec', deferred, deferred', p, hloop,
      hpc, hshake, hp⟩
    · have hinst' : conn.installed = some (g + 1) := hsame ▸ hinst
      obtain ⟨fs, p, hfs, hnone, hp⟩ := h c g conn hconn hinst'
      exact ⟨fs, p, hfs.trans ( frames_prefix hstream), hnone, by rw [hpeer (by simp [hinst']), hp]⟩
    · exact hun.told hloop hpc hconn hshake hstream hp

/-- **What was queued stays queued.** -/
theorem queued_step (hstep : w.step l = some w') : w.queued <+: w'.queued := by
  obtain ⟨v, n, hpiece, hsettle⟩ := step_cases hstep
  have hquiet : ∀ {u u' : World}, u.Quiet u' → u.queued <+: u'.queued := fun hq =>
    let ⟨_, _, hqueued⟩ := hq.queued
    hqueued ▸ List.prefix_append _ _
  have hpieced : w.queued <+: v.queued := by
    rcases piece_cases hpiece with ⟨-, hq, -⟩ | ⟨g, t, -, hw⟩ | ⟨i, loop, -, -, hl⟩ | ⟨-, rfl, -⟩
    · exact hquiet hq
    · cases hw with
      | parked => exact List.prefix_refl _
      | done n hn => exact List.prefix_refl _
      | pieces fs => exact List.prefix_refl _
      | round hcur hlive hpend hb =>
        rw [hb.only]
    · cases hl with
      | installed c k p hc hshake htail hlive' hact hinst =>
        rename_i dec dec' tail deferred deferred' moves
        obtain ⟨u, hq, -, -, -, hdrove⟩ := install_cases hinst
        have hadopt : (((w.takeInbox c k).resumed i loop c p.toNat).adopt c).queued <+: u.queued :=
          hquiet hq
        have hspawn : (u.spawnTasks c dec' tail).queued <+: v.queued := hquiet hdrove.quiet
        exact hadopt.trans hspawn
      | letGo c f n hw => exact hw ▸ List.prefix_refl _
      | dialed conn hw => exact hw ▸ List.prefix_refl _
      | opened c hw => exact hw ▸ List.prefix_refl _
      | helloed c hw => exact hw ▸ List.prefix_refl _
      | more c k hw => exact hw ▸ List.prefix_refl _
    · rcases w.wake_cases with hq | ⟨-, -, -, -, heq⟩
      · exact hquiet hq
      · rw [heq]
  have hsettled : v.queued <+: (v.settle n).1.queued := by
    refine settle_rule (P := fun u => v.queued <+: u.queued) (List.prefix_refl _) n
      (List.prefix_refl _) (fun _ => List.prefix_refl _) fun hu ht => ?_
    cases ht <;> exact hu
  rcases hsettle with ⟨-, rfl⟩ | ⟨reason, -, hdie⟩
  · exact hpieced.trans hsettled
  · refine (hpieced.trans hsettled).trans ?_
    rcases declareDead_cases hdie with ⟨-, rfl⟩ | ⟨-, hq, -⟩
    · exact List.prefix_refl _
    · have hmark : (v.settle n).1.markDead.queued <+: w'.queued := hquiet hq
      exact hmark

/-! ## Connections -/

/-- A connection that was installed stays so. -/
theorem Moved.installed {c g : ℕ} {conn conn' : Conn} (hm : w.Moved l c conn conn') (ht : w.Tasks)
    (hc : w.conns[c]? = some conn) (hinst : conn.installed = some g) :
    conn'.installed = some g := by
  rcases hm.reply with ⟨hsame, -⟩ | ⟨i, k, loop, dec, dec', deferred, deferred', p, hloop, hpc, -⟩
  · rw [hsame, hinst]
  · obtain ⟨held, hheld, hnone⟩ := ht.held hloop (c := c) (by rw [hpc]; rfl)
    cases hc.symm.trans hheld
    rw [hinst] at hnone
    cases hnone

/-- Every connection stays one. -/
theorem exists_step (ht : w.Tasks) (hstep : w.step l = some w') {c : ℕ} {conn : Conn}
    (hc : w.conns[c]? = some conn) : ∃ conn', w'.conns[c]? = some conn' ∧ w.Moved l c conn conn' := by
  have hlt : c < w.conns.length := (List.getElem?_eq_some_iff.1 hc).1
  obtain ⟨hle, hall⟩ := moved_step ht hstep
  have hc' := List.getElem?_eq_getElem (Nat.lt_of_lt_of_le hlt hle)
  rcases hall c _ hc' with ⟨hnew, -⟩ | ⟨old, hold, hm⟩
  · omega
  · cases hc.symm.trans hold
    exact ⟨_, hc', hm⟩

/-- The hello of every connection but the first asks to resume from where the session was, which had
received at most `n` bytes. -/
def Greets (n : ℕ) (w : World) : Prop :=
  ∀ (c : ℕ) (conn : Conn) (hello : Bytes), w.conns[c]? = some conn → c ≠ 0 →
    conn.hello = some hello → conn.resumeFrom ≤ n ∧ ∃ (pairing : Bytes) (sid : SessionId),
      hello = encodeHello ⟨pairing, some ⟨sid, UInt64.ofNat conn.resumeFrom⟩⟩

theorem Greets.step {m : ℕ} (h : w.Greets m) (ht : w.Tasks) (hreceived : w.received ≤ m)
    (hstep : w.step l = some w') : w'.Greets m := by
  intro c conn' hello hc hne hhello
  rcases (moved_step ht hstep).2 c conn' hc with ⟨-, hnew⟩ | ⟨conn, hconn, hm⟩
  · rw [Conn.Same] at hnew
    rw [hnew] at hhello
    cases hhello
  · rcases hm.hello with ⟨hsame, hfrom⟩ | ⟨-, hgreeting, hfrom⟩
    · rw [hfrom]
      exact h c conn hello hconn hne (hsame ▸ hhello)
    · cases hgreeting.symm.trans hhello
      rw [hfrom]
      exact ⟨hreceived, _, _, rfl⟩

/-! ## Beginning -/

/-- A session begins with one connection. -/
theorem conns_connect {d : Dial} (hframed : d.proto.framed = true) {moves : List SshCore.Action}
    (h : World.connect d moves = some w) : w.loops = [] ∧ ∃ conn, w.conns = [conn] ∧
      conn.installed = some 0 ∧ conn.taken ++ conn.inbox = d.arrived ∧ conn.hello.isSome = true ∧
      conn.resumeFrom = 0 ∧ conn.gap = false := by
  obtain ⟨v, fs, dec, hbegun, hdrove⟩ := begun_connect hframed h
  obtain ⟨hello, hconns⟩ := hbegun.conns
  have hlen := hdrove.conns.length_eq
  rw [hconns, List.length_singleton] at hlen
  obtain ⟨conn, hw⟩ := List.length_eq_one_iff.1 hlen
  have hc : w.conns[0]? = some conn := by rw [hw]; rfl
  obtain ⟨a, ha, hsame⟩ := hdrove.conns.slot hc
  rw [hconns] at ha
  cases ha
  rw [Conn.Same] at hsame
  refine ⟨by rw [hdrove.only]; exact hbegun.loops, conn, hw, ?_⟩
  rw [hsame]
  exact ⟨rfl, List.append_nil _, rfl, rfl, rfl⟩

/-- Nothing of a reply is left to be read. -/
theorem streams_connect {d : Dial} (hframed : d.proto.framed = true) {moves : List SshCore.Action}
    (h : World.connect d moves = some w) (m : ℕ) : w.Unanswered ∧ w.AllTold ∧ w.Greets m := by
  obtain ⟨hloops, conn, hconns, hinst, -⟩ := conns_connect hframed h
  refine ⟨⟨fun {i c loop dec deferred conn} hl _ _ => ?_⟩, fun c g conn' hc hg => ?_,
    fun c conn' hello hc hne _ => ?_⟩
  · rw [hloops] at hl
    cases hl
  · rw [hconns] at hc
    obtain ⟨-, rfl⟩ := Slots.getElem?_singleton_eq_some hc
    cases hinst.symm.trans hg
  · rw [hconns] at hc
    exact absurd (Slots.getElem?_singleton_eq_some hc).1 hne

end World

end Client
