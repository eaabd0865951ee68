import Wosh.Client.Quiet

set_option relaxedAutoImplicit false
set_option autoImplicit false

/-!
# What a step of a session can be

Every step is a quiet one, one of a writer, one of a resume, or a wake; what follows it without an
await starts a resume, goes on with one, or declares the session dead. Each invariant of the
session is derived from these cases.

## Main definitions

* `Client.World.WriterStep`, `Client.World.LoopStep` — the steps of a writer and of a resume.

## Main results

* `Client.World.piece_cases` — the cases of a step, up to where it is settled.
* `Client.World.settle_cases` — the cases of what follows.
* `Client.World.settle_rule` — what is kept by each of these cases holds after it.
-/

namespace Client

open Tunnel

namespace World

variable {w w' : World}

/-! ## Writers -/

/-- A step of writer `g`, which is `t`: it parks, retires, writes the next of the pieces it has
taken, or goes round its inner loop; `a` is what happens. -/
inductive WriterStep [Postcard] (w : World) (a : Action) (g : ℕ) (t : Writer) :
    World → Next → Prop
  | parked {signal : Signal} (hpc : t.pc.listening = true) (hdirty : w.writerSignal.dirty = false) :
      WriterStep w a g t ({ w with writerSignal := signal }.setWriter g .parked) .stop
  | done {signal : Signal} (n : Next) (hn : n = .stop ∨ ∃ reason, n = .lost g reason)
      (hsignal : signal = w.writerSignal ∨
        (a = .pollWriter g ∧ t.pc.listening = true ∧ w.writerSignal.dirty = true ∧
          w.stale g = true)) :
      WriterStep w a g t ({ w with writerSignal := signal }.setWriter g .done) n
  | pieces (fs : List Bytes) {pc : WriterPc} (hlive : t.pc ≠ .done)
      (hidle : pc.idle = true → t.pc.idle = true)
      (h : w.proto.framed = true → dataOf fs ++ pc.pending = t.pc.pending)
      (hcut : w.proto.framed = true → t.pc.Cut → Pieces fs ∧ pc.Cut) :
      WriterStep w a g t
        { w with
          writers := w.writers.modify g fun t => { t with pc := pc }
          conns := w.conns.modify t.conn fun conn => { conn with wire := conn.wire ++ fs } } .stop
  | round {w' : World} {signal : Signal} {pingDue : Bool} {b : Bytes} (hcur : w.stale g = false)
      (hlive : t.pc ≠ .done) (hpend : t.pc.pending = [])
      (h : { w with writerSignal := signal, pingDue := pingDue }.Wrote w' g t b) :
      WriterStep w a g t w' .stop

section Writers

variable [Postcard] {a : Action} {g : ℕ} {t : Writer} {n : Next}

/-- A writer that listens holds nothing. -/
theorem pending_of_listening {pc : WriterPc} (h : pc.listening = true) :
    pc ≠ .done ∧ pc.pending = [] := by
  cases pc <;> simp [WriterPc.listening, WriterPc.pending] at h ⊢

/-- A writer moves on without writing. -/
theorem writerStep_setWriter {pc : WriterPc} (hlive : t.pc ≠ .done)
    (hidle : pc.idle = true → t.pc.idle = true)
    (h : w.proto.framed = true → pc.pending = t.pc.pending) (hcut : pc.Cut) :
    WriterStep w a g t (w.setWriter g pc) .stop := by
  have heq : w.setWriter g pc = { w with
      writers := w.writers.modify g fun t => { t with pc := pc }
      conns := w.conns.modify t.conn fun conn => { conn with wire := conn.wire ++ [] } } := by
    rw [modify_wire_nil]
    rfl
  rw [heq]
  exact .pieces [] hlive hidle h fun _ _ => ⟨pieces_nil, hcut⟩

/-- The next of several pieces is written. -/
theorem writerStep_pieces (ht : w.writers[g]? = some t) (hlive : t.pc ≠ .done)
    {pc : List Bytes → WriterPc} (hidle : ∀ rest, (pc rest).idle = true → t.pc.idle = true)
    (hpc : ∀ rest, (pc rest).pending = dataOf rest) {ps : List Bytes}
    (h : w.proto.framed = true → dataOf ps = t.pc.pending)
    (hrest : ∀ rest, Pieces rest → (pc rest).Cut)
    (hcut : w.proto.framed = true → t.pc.Cut → Pieces ps) :
    WriterStep w a g t (w.writePieces g pc ps) .stop := by
  cases ps with
  | nil =>
    exact writerStep_setWriter hlive (hidle _) (fun hframed => by rw [hpc]; exact h hframed)
      (hrest [] pieces_nil)
  | cons p rest =>
    rw [writePieces_cons ht]
    apply WriterStep.pieces [p] hlive (hidle _)
    · intro hframed
      rw [hpc, ← h hframed]
      simp
    · intro hframed hold
      obtain ⟨hp, hps⟩ := pieces_cons.1 (hcut hframed hold)
      exact ⟨hp, hrest rest hps⟩

/-- A poll of the signal. -/
theorem writerStep_takeSignal (ht : w.writers[g]? = some t) (hpc : t.pc.listening = true) :
    WriterStep w (.pollWriter g) g t (w.takeSignal g) .stop := by
  unfold takeSignal
  dsimp only
  split_ifs with hdirty hstale
  · exact .done .stop (.inl rfl) (.inr ⟨rfl, hpc, hdirty, hstale⟩)
  · obtain ⟨hlive, hpend⟩ := pending_of_listening hpc
    obtain ⟨b, hb⟩ := wrote_writerAck (w := { w with
      writerSignal := { w.writerSignal with dirty := false } }) (g := g) (t := t) ht
    exact .round (by simpa [stale] using hstale) hlive hpend hb
  · exact .parked hpc (by simpa using hdirty)

theorem writerStep_pollWriter (h : w.pollWriter g = some (w', n)) :
    ∃ t, w.writers[g]? = some t ∧ WriterStep w (.pollWriter g) g t w' n := by
  unfold pollWriter at h
  split at h
  · cases h
  · rename_i t ht
    refine ⟨t, ht, ?_⟩
    split at h
    · rename_i tail hpc
      split_ifs at h with htail
      · cases h
        exact writerStep_setWriter (by simp [hpc]) (fun _ => by rw [hpc]; rfl)
          (fun _ => by simp [hpc, htail, WriterPc.pending]) trivial
      · cases h
        exact writerStep_pieces ht (by simp [hpc]) (fun _ _ => by rw [hpc]; rfl) (fun _ => rfl)
          (fun hframed => by rw [w.dataOf_wireChunks hframed, hpc, WriterPc.pending])
          (fun _ hrest => hrest) fun hframed _ => w.pieces_wireChunks hframed tail
    · rename_i hpc
      cases h
      exact writerStep_takeSignal ht (by rw [hpc]; rfl)
    · rename_i hpc
      cases h
      exact writerStep_takeSignal ht (by rw [hpc]; rfl)
    · cases h

theorem writerStep_wrote {ok : Bool} (h : w.wrote g ok = some (w', n)) :
    ∃ t, w.writers[g]? = some t ∧ WriterStep w a g t w' n := by
  unfold wrote at h
  split at h
  · cases h
  · rename_i t ht
    refine ⟨t, ht, ?_⟩
    have hafter : ∀ {reason : String} {v : World},
        (if ok = false then some (w.setWriter g .done, .lost g reason) else some (v, .stop)) =
          some (w', n) → WriterStep w a g t v .stop → WriterStep w a g t w' n := by
      intro reason v heq hv
      split_ifs at heq <;> cases heq
      · exact .done _ (.inr ⟨reason, rfl⟩) (.inl rfl)
      · exact hv
    have hround : ∀ (pingDue : Bool) (v : World), t.pc ≠ .done → t.pc.pending = [] →
        (∃ b, { w with pingDue := pingDue }.Wrote v g t b) →
        WriterStep w a g t (if w.stale g then w.setWriter g .done else v) .stop := by
      rintro pingDue v hlive hpend ⟨b, hb⟩
      split_ifs with hstale
      · exact .done .stop (.inl rfl) (.inl rfl)
      · exact .round (by simpa using hstale) hlive hpend hb
    dsimp only at h
    split at h
    · rename_i hpc
      exact hafter h (writerStep_pieces ht (by simp [hpc]) (fun _ _ => by rw [hpc]; rfl)
        (fun _ => rfl) (fun _ => by rw [hpc]; rfl) (fun _ hrest => hrest) fun _ hcut => by rwa [hpc] at hcut)
    · rename_i hpc
      exact hafter h (writerStep_setWriter (by simp [hpc]) (fun _ => by rw [hpc]; rfl)
        (fun _ => by rw [hpc]; rfl) trivial)
    · rename_i hpc
      exact hafter h (hround w.pingDue _ (by simp [hpc]) (by rw [hpc]; rfl) (wrote_writerPong ht))
    · rename_i hpc
      exact hafter h (hround w.pingDue _ (by simp [hpc]) (by rw [hpc]; rfl) (wrote_writerPong ht))
    · rename_i hpc
      exact hafter h (hround w.pingDue _ (by simp [hpc]) (by rw [hpc]; rfl) (wrote_writerData ht))
    · rename_i hpc
      exact hafter h (writerStep_pieces ht (by simp [hpc]) (fun _ hidle => by cases hidle) (fun _ => rfl)
        (fun _ => by rw [hpc]; rfl) (fun _ hrest => hrest) fun _ hcut => by rwa [hpc] at hcut)
    · rename_i hpc
      refine hafter h ?_
      unfold interactiveProbe
      by_cases hprobe : w.proto = .v3 ∧ w.pingOutstanding = none ∧ w.pingDue = false ∧
          interactiveProbeMs ≤ w.now - w.lastInboundMs
      · rw [if_pos hprobe]
        exact hround true _ (by simp [hpc]) (by rw [hpc]; rfl) (wrote_writerAck ht)
      · rw [if_neg hprobe]
        exact hround w.pingDue _ (by simp [hpc]) (by rw [hpc]; rfl) (wrote_writerAck ht)
    · cases h

end Writers

/-! ## Resumes -/

/-- A step of resume `i`, which stands at `loop`; `a` is what happens. -/
inductive LoopStep [Postcard] (w : World) (a : Action) (i : ℕ) (loop : Loop) :
    World → Next → Prop
  /-- It lets go of the connection `c` it holds, if it holds one: it goes on without one, or it is
  over, or the session is. -/
  | letGo {w' : World} {loop' : Loop} {conns : List Conn} (c : ℕ) (f : Conn → Conn) (n : Next)
      (hw : w' = { w with conns := conns }.setLoop i loop')
      (hc : loop.pc.conn = some c ∨ f = id)
      (hf : ∀ conn, f conn = { conn with
        inbox := (f conn).inbox, taken := (f conn).taken, peerReceived := (f conn).peerReceived
        gap := (f conn).gap })
      (hread : ∀ conn, (f conn).taken ++ (f conn).inbox = conn.taken ++ conn.inbox)
      (hgap : (∀ conn, (f conn).gap = conn.gap) ∨ ∃ reason, n = .die reason)
      (hconns : Slots.Related Conn.Same (w.conns.modify c f) conns) (hpc : loop'.pc.conn = none)
      (hn : n = .stop ∨ (n = .top i ∧ loop'.pc = .top) ∨
        ((∃ reason, n = .die reason) ∧ loop'.pc = .done))
      (hgen : loop'.generation = loop.generation)
      (hover : loop'.pc = .done → (n = .stop ↔ w.abandoned loop.generation = true)) :
      LoopStep w a i loop w' n
  /-- The dial gave a connection. -/
  | dialed {w' : World} {loop' : Loop} (conn : Conn)
      (hw : w' = { w with conns := w.conns ++ [conn] }.setLoop i loop')
      (hconn : Conn.Same {} conn)
      (hpc : loop'.pc.conn = none ∨ loop'.pc = .opening w.conns.length)
      (hgen : loop'.generation = loop.generation)
      (hover : loop'.pc = .done → w.abandoned loop.generation = true) :
      LoopStep w a i loop w' .stop
  /-- The hello is written, with a snapshot of the receive counter. -/
  | opened {w' : World} {loop' : Loop} {hello : Bytes} (c : ℕ)
      (hw : w' = { w with
        conns := w.conns.modify c fun conn =>
          { conn with hello := some hello, resumeFrom := w.received }
        hellos := w.hellos + 1 }.setLoop i loop')
      (hc : loop.pc = .opening c) (hpc : loop'.pc = .helloing c)
      (hgen : loop'.generation = loop.generation) : LoopStep w a i loop w' .stop
  | helloed {w' : World} {loop' : Loop} (c : ℕ) (hw : w' = w.setLoop i loop')
      (hc : loop.pc = .helloing c) (hpc : loop'.pc = .replying c [] [])
      (hgen : loop'.generation = loop.generation) : LoopStep w a i loop w' .stop
  /-- A read of the handshake, and no reply yet. -/
  | more {w' : World} {loop' : Loop} {dec dec' : Bytes} {deferred deferred' : List Bytes}
      (c k : ℕ) (hw : w' = (w.takeInbox c k).setLoop i loop')
      (hc : loop.pc = .replying c dec deferred)
      (hshake : handshakeFrames (dec ++ w.waiting c k) deferred = .more dec' deferred')
      (hpc : loop'.pc = .replying c dec' deferred')
      (hgen : loop'.generation = loop.generation) : LoopStep w a i loop w' .stop
  /-- The reply: the connection is installed, with what the peer has not received as its tail. -/
  | installed {w' : World} {dec dec' tail : Bytes} {deferred deferred' : List Bytes}
      {moves : List SshCore.Action} (c k : ℕ) (p : UInt64) (hc : loop.pc = .replying c dec deferred)
      (hshake : handshakeFrames (dec ++ w.waiting c k) deferred =
        .reply (.resumed p) deferred' dec')
      (htail : w.replay.tailFrom w.usize p.toNat = some tail)
      (hlive : w.abandoned loop.generation = false) (hact : a = .loopRead i k)
      (h : ((w.takeInbox c k).resumed i loop c p.toNat).install c dec' deferred' tail moves =
        some w') : LoopStep w a i loop w' .stop

section Loops

variable [Postcard] {a : Action} {i : ℕ} {loop : Loop} {n : Next}

/-- It goes on, or is over, with the connections as they were but for one that may be closed. -/
theorem loopStep_idle {v : World} {loop' : Loop} {conns : List Conn}
    (hw : v = { w with conns := conns }.setLoop i loop')
    (hconns : Slots.Related Conn.Same w.conns conns) (hpc : loop'.pc.conn = none)
    (hn : n = .stop ∨ (n = .top i ∧ loop'.pc = .top)) (hgen : loop'.generation = loop.generation)
    (hover : loop'.pc = .done → w.abandoned loop.generation = true) : LoopStep w a i loop v n := by
  refine .letGo 0 id n hw (.inr rfl) (fun _ => rfl) (fun _ => rfl) (.inl fun _ => rfl) ?_ hpc ?_ hgen
    fun hdone => ?_
  · rw [List.modify_id]
    exact hconns
  · exact hn.elim .inl fun htop => .inr (.inl htop)
  · rcases hn with rfl | ⟨-, htop⟩
    · exact iff_of_true rfl (hover hdone)
    · rw [htop] at hdone
      cases hdone

omit [Postcard] in
/-- The connections after one was closed. -/
theorem same_closeConn (conns : List Conn) (c : ℕ) :
    Slots.Related Conn.Same conns (conns.modify c fun conn => { conn with closed := true }) :=
  Slots.related_modify Conn.Same.refl fun _ _ => rfl

theorem loopStep_leave (c : ℕ) (habandoned : w.abandoned loop.generation = true) :
    LoopStep w a i loop (w.leave i loop c) .stop :=
  loopStep_idle rfl (same_closeConn w.conns c) rfl (.inl rfl) rfl fun _ => habandoned

/-- An attempt failed, and the resume sleeps. -/
theorem loopStep_backoff (c : ℕ) :
    LoopStep w a i loop ((w.closeConn c).backoffSleep i loop) .stop :=
  loopStep_idle rfl (same_closeConn w.conns c) rfl (.inl rfl) rfl nofun

theorem loopStep_retry (c : ℕ) : LoopStep w a i loop (w.retry i loop c) .stop := by
  unfold retry
  split_ifs with habandoned
  · exact loopStep_leave c habandoned
  · exact loopStep_backoff c

/-- The pieces of a resume before it reads a reply. -/
theorem loopStep_pollLoop (h : w.pollLoop i = some (w', n)) :
    ∃ loop, w.loops[i]? = some loop ∧ loop.pc ≠ .done ∧ LoopStep w a i loop w' n := by
  unfold pollLoop at h
  split at h
  · rename_i loop hloop
    split_ifs at h with hpc
    cases h
    exact ⟨loop, hloop, by simp [hpc],
      loopStep_idle rfl (same_closeConn w.conns w.conn) rfl (.inr ⟨rfl, rfl⟩) rfl nofun⟩
  · cases h

theorem loopStep_dialed {ok : Bool} (h : w.dialed i ok = some (w', n)) :
    ∃ loop, w.loops[i]? = some loop ∧ loop.pc ≠ .done ∧ LoopStep w a i loop w' n := by
  unfold dialed at h
  split at h
  · rename_i loop hloop
    by_cases hpc : loop.pc ≠ .dialing
    · rw [if_pos hpc] at h
      cases h
    · rw [if_neg hpc] at h
      rw [not_not] at hpc
      refine ⟨loop, hloop, by simp [hpc], ?_⟩
      dsimp only at h
      split_ifs at h with hok habandoned habandoned <;> cases h
      · have hclose : (w.conns ++ [({} : Conn)]).modify w.conns.length
            (fun conn => { conn with closed := true }) = w.conns ++ [{ closed := true }] := by
          simp [List.modify_eq_set_getElem?]
        have hleave : World.leave { w with conns := w.conns ++ [({} : Conn)] } i loop
            w.conns.length = ({ w with conns := w.conns ++ [{ closed := true }] } : World).setLoop i
              { loop with pc := .done } := by
          rw [← hclose]
          rfl
        refine .dialed { closed := true } hleave rfl ?_ rfl fun _ => habandoned
        exact .inl rfl
      · refine .dialed {} rfl rfl ?_ rfl nofun
        exact .inr rfl
      · exact loopStep_idle rfl (.refl Conn.Same.refl _) rfl (.inl rfl) rfl fun _ => habandoned
      · exact loopStep_idle rfl (.refl Conn.Same.refl _) rfl (.inl rfl) rfl nofun
  · cases h

theorem loopStep_rebound (h : w.rebound i = some (w', n)) :
    ∃ loop, w.loops[i]? = some loop ∧ loop.pc ≠ .done ∧ LoopStep w a i loop w' n := by
  unfold rebound at h
  split at h
  · rename_i loop hloop
    split_ifs at h with hpc
    cases h
    exact ⟨loop, hloop, by simp [hpc],
      loopStep_idle rfl (.refl Conn.Same.refl _) rfl (.inl rfl) rfl nofun⟩
  · cases h

theorem loopStep_slept (h : w.slept i = some (w', n)) :
    ∃ loop, w.loops[i]? = some loop ∧ loop.pc ≠ .done ∧ LoopStep w a i loop w' n := by
  unfold slept at h
  split at h
  · rename_i loop hloop
    split at h
    · rename_i due hpc
      split_ifs at h
      cases h
      exact ⟨loop, hloop, by simp [hpc],
        loopStep_idle rfl (.refl Conn.Same.refl _) rfl (.inr ⟨rfl, rfl⟩) rfl nofun⟩
    · cases h
  · cases h

theorem loopStep_opened {ok : Bool} (h : w.opened i ok = some (w', n)) :
    ∃ loop, w.loops[i]? = some loop ∧ loop.pc ≠ .done ∧ LoopStep w a i loop w' n := by
  unfold opened at h
  split at h
  · rename_i loop hloop
    split at h
    · rename_i c hpc
      refine ⟨loop, hloop, by simp [hpc], ?_⟩
      split_ifs at h with hok habandoned
      · cases h
        exact loopStep_backoff c
      · cases h
        exact loopStep_leave c habandoned
      · cases h
        exact .opened c rfl hpc rfl rfl
    · cases h
  · cases h

theorem loopStep_helloed {ok : Bool} (h : w.helloed i ok = some (w', n)) :
    ∃ loop, w.loops[i]? = some loop ∧ loop.pc ≠ .done ∧ LoopStep w a i loop w' n := by
  unfold helloed at h
  split at h
  · rename_i loop hloop
    split at h
    · rename_i c hpc
      refine ⟨loop, hloop, by simp [hpc], ?_⟩
      split_ifs at h
      · cases h
        exact .helloed c rfl hpc rfl rfl
      · cases h
        exact loopStep_retry c
    · cases h
  · cases h

theorem loopStep_loopReadEnd (h : w.loopReadEnd i = some (w', n)) :
    ∃ loop, w.loops[i]? = some loop ∧ loop.pc ≠ .done ∧ LoopStep w a i loop w' n := by
  unfold loopReadEnd at h
  split at h
  · rename_i loop hloop
    split at h
    · rename_i c dec deferred hpc
      cases h
      exact ⟨loop, hloop, by simp [hpc], loopStep_retry c⟩
    · cases h
  · cases h

theorem loopStep_loopRead {k : ℕ} {moves : List SshCore.Action}
    (h : w.loopRead i k moves = some (w', n)) :
    ∃ loop, w.loops[i]? = some loop ∧ loop.pc ≠ .done ∧
      LoopStep w (.loopRead i k) i loop w' n := by
  unfold loopRead at h
  split at h
  · cases h
  · rename_i loop hloop
    split at h
    · rename_i c dec deferred hpc
      have hheld : loop.pc.conn = some c := by rw [hpc]; rfl
      refine ⟨loop, hloop, by simp [hpc], ?_⟩
      -- what the connection is after a read, when the resume lets go of it
      set f : Conn → Conn := fun conn =>
        { conn with inbox := conn.inbox.drop k, taken := conn.taken ++ conn.inbox.take k } with hf
      have hread : ∀ conn, (f conn).taken ++ (f conn).inbox = conn.taken ++ conn.inbox := by
        intro conn
        rw [hf]
        simp
      have hover : w.abandoned loop.generation = false → ∀ reason,
          LoopStep w (.loopRead i k) i loop ((w.takeInbox c k).leave i loop c) (.die reason) := by
        intro hlive reason
        refine .letGo c f _ rfl (.inl hheld) (fun _ => rfl) hread (.inl fun _ => rfl)
          (same_closeConn _ c) rfl (.inr (.inr ⟨⟨reason, rfl⟩, rfl⟩)) rfl fun _ => ?_
        exact iff_of_false nofun (by simp [hlive])
      have hleave : w.abandoned loop.generation = true →
          LoopStep w (.loopRead i k) i loop ((w.takeInbox c k).leave i loop c) .stop :=
        fun habandoned => .letGo c f _ rfl (.inl hheld) (fun _ => rfl) hread (.inl fun _ => rfl)
          (same_closeConn _ c) rfl (.inl rfl) rfl fun _ => iff_of_true rfl habandoned
      have hretry : LoopStep w (.loopRead i k) i loop
          ((w.takeInbox c k).retry i loop c) .stop := by
        unfold retry
        split_ifs with habandoned
        · exact hleave habandoned
        · exact .letGo c f _ rfl (.inl hheld) (fun _ => rfl) hread (.inl fun _ => rfl)
            (same_closeConn _ c) rfl (.inl rfl) rfl nofun
      dsimp only at h
      split at h
      · rename_i dec' deferred' hshake
        cases h
        exact .more c k rfl hpc hshake rfl rfl
      · cases h
        exact hretry
      · rename_i r deferred' dec' hshake
        split_ifs at h with habandoned
        · cases h
          exact hleave habandoned
        · have hlive : w.abandoned loop.generation = false := Bool.eq_false_iff.2 habandoned
          split at h
          · rename_i p
            split at h
            · cases h
              refine .letGo c (fun conn => { f conn with peerReceived := p.toNat, gap := true }) _ rfl
                (.inl hheld) (fun _ => rfl) hread (.inr ⟨_, rfl⟩) ?_ rfl
                (.inr (.inr ⟨⟨_, rfl⟩, rfl⟩)) rfl fun _ => iff_of_false nofun (by simp [hlive])
              have htwice : (w.conns.modify c f).modify c (fun conn =>
                  { conn with peerReceived := p.toNat, gap := true }) =
                  w.conns.modify c fun conn => { f conn with peerReceived := p.toNat, gap := true } :=
                List.modify_modify_eq _ _ _ _
              rw [← htwice]
              exact same_closeConn _ c
            · rename_i tail htail
              obtain ⟨v, hv, heq⟩ := Option.map_eq_some_iff.1 h
              cases heq
              exact .installed c k p hpc hshake htail hlive rfl hv
          · cases h
            exact hover hlive _
          · cases h
            exact hover hlive _
    · cases h

/-- The reply to a resume that goes on installs the connection it holds. -/
theorem installs_eq {l : Label} {k c : ℕ} {dec dec' tail : Bytes} {deferred deferred' : List Bytes}
    {p : UInt64} (hact : l.act = .loopRead i k) (hloop : w.loops[i]? = some loop)
    (hpc : loop.pc = .replying c dec deferred)
    (hshake : handshakeFrames (dec ++ w.waiting c k) deferred =
      .reply (.resumed p) deferred' dec')
    (htail : w.replay.tailFrom w.usize p.toNat = some tail)
    (hlive : w.abandoned loop.generation = false) : w.installs l = some c := by
  have hreplied : w.replied l = some (c, p.toNat) := by
    simp only [replied, hact, hloop, hpc, hshake, hlive, Bool.false_eq_true, if_false]
  simp only [installs, hreplied, htail, Option.isSome_some, if_true]

end Loops

/-! ## All steps -/

/-- A wake of a stalled session starts a resume; any other one changes flags. -/
theorem wake_cases (w : World) :
    w.Quiet w.wake ∨
    (w.detached = false ∧ w.linkDown = false ∧ w.stalled = true ∧ w.resuming = false ∧
      w.wake = { w with
        suspended := false
        stalled := false
        resuming := true
        loops := w.loops ++ [{ generation := w.generation, pc := .spawned }] }) := by
  unfold wake
  dsimp only
  split_ifs with hidle hprobe
  · have hback : w.Quiet { w with suspended := false } :=
      w.quiet_suspended fun _ hstalled => by simp [hprobe.2.2.1] at hstalled
    have hprobe : World.Quiet { w with suspended := false } { w with
        suspended := false
        pingOutstanding := none
        lastInboundMs := w.now - pingAfterIdleMs
        pingDue := true } := .of_flags rfl
    exact .inl ((hback.trans hprobe).trans (drove_notify _).quiet)
  · refine .inl (w.quiet_suspended fun _ hstalled hresuming hdown hdet => ?_)
    simp [hstalled, hresuming, hdown, hdet] at hidle
  · simp only [not_or, Bool.not_eq_true, Bool.not_eq_false] at hidle
    obtain ⟨hdet, hdown, hstall, hres⟩ := hidle
    exact .inr ⟨hdet, hdown, hstall, hres, rfl⟩

/-- **The cases of a step**, up to where it is settled. -/
theorem piece_cases [Postcard] {l : Label} {n : Next} (h : w.piece l = some (w', n)) :
    (l.act.quiet = true ∧ w.Quiet w' ∧ (n = .stop ∨ ∃ g reason, n = .lost g reason)) ∨
    (∃ g t, w.writers[g]? = some t ∧ WriterStep w l.act g t w' n) ∨
    (∃ i loop, w.loops[i]? = some loop ∧ loop.pc ≠ .done ∧ LoopStep w l.act i loop w' n) ∨
    (l.act = .wake ∧ w' = w.wake ∧ n = .stop) := by
  by_cases hq : l.act.quiet = true
  · exact .inl ⟨hq, quiet_piece hq h, next_of_quiet hq h⟩
  right
  obtain ⟨act, moves, dying⟩ := l
  cases act <;> simp only [Action.quiet, not_true_eq_false] at hq <;> simp only [piece] at h
  case pollWriter g => exact .inl ⟨g, writerStep_pollWriter h⟩
  case wrote g ok => exact .inl ⟨g, writerStep_wrote h⟩
  case pollLoop i => exact .inr (.inl ⟨i, loopStep_pollLoop h⟩)
  case dialed i ok => exact .inr (.inl ⟨i, loopStep_dialed h⟩)
  case rebound i => exact .inr (.inl ⟨i, loopStep_rebound h⟩)
  case slept i => exact .inr (.inl ⟨i, loopStep_slept h⟩)
  case opened i ok => exact .inr (.inl ⟨i, loopStep_opened h⟩)
  case helloed i ok => exact .inr (.inl ⟨i, loopStep_helloed h⟩)
  case loopRead i k => exact .inr (.inl ⟨i, loopStep_loopRead h⟩)
  case loopReadEnd i => exact .inr (.inl ⟨i, loopStep_loopReadEnd h⟩)
  case wake =>
    cases h
    exact .inr (.inr ⟨rfl, rfl, rfl⟩)

/-! ## Settling -/

/-- The top of resume `i`, if there is one: it is over, it stands down, or it dials. -/
inductive TopStep (w : World) (i : ℕ) : World → Option String → Prop
  | gone (hgone : w.loops[i]? = none) : TopStep w i w none
  | ended {old loop : Loop} (r : Option String) (hpc : loop.pc = .done)
      (hold : w.loops[i]? = some old) (hgen : loop.generation = old.generation)
      (hover : r = none ↔ w.abandoned old.generation = true) : TopStep w i (w.setLoop i loop) r
  | standDown {old loop : Loop} (hpc : loop.pc = .done) (hold : w.loops[i]? = some old)
      (hgen : loop.generation = old.generation) (hlive : w.abandoned old.generation = false)
      (haway : w.suspended = true) :
      TopStep w i ({ w with resuming := false, stalled := true }.setLoop i loop) none
  | dial {old loop : Loop} (hpc : loop.pc = .dialing) (hold : w.loops[i]? = some old)
      (hgen : loop.generation = old.generation) (hlive : w.abandoned old.generation = false) :
      TopStep w i ({ w with dials := w.dials + 1 }.setLoop i loop) none

theorem topStep (w : World) (i : ℕ) : TopStep w i (w.settleTop i).1 (w.settleTop i).2 := by
  unfold settleTop
  split
  · rename_i hgone
    exact .gone hgone
  · rename_i old hold
    have hnext : ∀ (g spent : ℕ), (w.loopNext g spent = .leave ↔ w.abandoned g = true) ∧
        (w.loopNext g spent = .standDown → w.suspended = true) := by
      intro g spent
      unfold loopNext
      split_ifs with habandoned haway <;> simp [*]
    dsimp only
    split
    · rename_i heq
      refine .ended none rfl hold rfl (iff_of_true rfl ((hnext _ _).1.1 heq))
    · rename_i heq
      refine .standDown rfl hold rfl (Bool.eq_false_iff.2 fun habandoned => ?_) ((hnext _ _).2 heq)
      cases heq.symm.trans ((hnext _ _).1.2 habandoned)
    · rename_i heq
      refine .ended _ rfl hold rfl (iff_of_false nofun fun habandoned => ?_)
      cases heq.symm.trans ((hnext _ _).1.2 habandoned)
    · rename_i heq
      refine .dial rfl hold rfl (Bool.eq_false_iff.2 fun habandoned => ?_)
      cases heq.symm.trans ((hnext _ _).1.2 habandoned)

/-- A resume starts only when none is in flight. -/
theorem resuming_of_linkNext {g : ℕ} (h : w.linkNext g = .resume) : w.resuming = false := by
  unfold linkNext at h
  split_ifs at h with _ _ hres
  simpa using hres

/-- **The cases of what follows a piece**: nothing or a death; the transport is remembered to be
gone; a resume goes on; or one starts. -/
theorem settle_cases (w : World) (n : Next) :
    ((w.settle n).1 = w ∧
      ((w.settle n).2 = none ∨ (∃ reason, n = .die reason) ∨ w.proto = .v1)) ∨
    ((w.settle n).1 = { w with stalled := true } ∧ w.resuming = false ∧ (w.settle n).2 = none) ∨
    (∃ i, n = .top i ∧ TopStep w i (w.settle n).1 (w.settle n).2) ∨
    (∃ g reason, n = .lost g reason ∧ w.linkNext g = .resume ∧
      TopStep (w.startLoop g) w.loops.length (w.settle n).1 (w.settle n).2) := by
  cases n with
  | stop => exact .inl ⟨rfl, .inl rfl⟩
  | die reason => exact .inl ⟨rfl, .inr (.inl ⟨reason, rfl⟩)⟩
  | top i => exact .inr (.inr (.inl ⟨i, rfl, w.topStep i⟩))
  | lost g reason =>
    simp only [settle]
    split
    · exact .inl ⟨rfl, .inl rfl⟩
    · rename_i hstall
      refine .inr (.inl ⟨rfl, ?_, rfl⟩)
      unfold linkNext at hstall
      split_ifs at hstall with _ _ hres
      simpa using hres
    · rename_i hdie
      refine .inl ⟨rfl, .inr (.inr ?_)⟩
      unfold linkNext at hdie
      split_ifs at hdie with _ hproto
      exact hproto
    · rename_i hresume
      refine .inr (.inr (.inr ⟨g, reason, rfl, hresume, ?_⟩))
      exact topStep (w.startLoop g) _

/-- **The rule for what follows a piece**: what holds before it, after a stall and where a resume begins,
and is kept at the top of a resume loop, holds after it. -/
theorem settle_rule {P : World → Prop} (h : P w) (n : Next) (hstall : P { w with stalled := true })
    (hstart : ∀ g, P (w.startLoop g))
    (htop : ∀ {v u : World} {i : ℕ} {r : Option String}, P v → v.TopStep i u r → P u) :
    P (w.settle n).1 := by
  rcases w.settle_cases n with ⟨heq, -⟩ | ⟨heq, -, -⟩ | ⟨i, -, ht⟩ | ⟨g, reason, -, -, ht⟩
  · rwa [heq]
  · rwa [heq]
  · exact htop h ht
  · exact htop (hstart g) ht

/-- What follows a piece does not touch the core. -/
theorem core_settle (w : World) (n : Next) : (w.settle n).1.core = w.core := by
  refine settle_rule (P := fun v => v.core = w.core) rfl n rfl (fun _ => rfl) fun hv ht => ?_
  cases ht <;> exact hv

/-- **The cases of a death**: it was declared before, or it is recorded and the core is closed. -/
theorem declareDead_cases {reason : String} {moves : List SshCore.Action}
    (h : w.declareDead reason moves = some w') :
    (w.linkDown = true ∧ w' = w) ∨
    (w.linkDown = false ∧ w.markDead.Quiet w' ∧ w'.core.engine.state = .closed) := by
  unfold declareDead at h
  by_cases hdown : w.linkDown = true
  · rw [if_pos hdown] at h
    cases h
    exact .inl ⟨hdown, rfl⟩
  · rw [if_neg hdown] at h
    obtain ⟨v, hv, rfl⟩ := Option.map_eq_some_iff.1 h
    refine .inr ⟨by simpa using hdown, (quiet_coreCall hv).trans (drove_driveTurn v .other).quiet, ?_⟩
    obtain ⟨c, hc, rfl⟩ := Option.map_eq_some_iff.1 hv
    exact (drove_driveTurn _ .other).state.trans (Core.closed_of_call_wireBroken hc)

/-- **The cases of a step**: a piece that is settled, with or without a death. -/
theorem step_cases [Postcard] {l : Label} (h : w.step l = some w') :
    ∃ v n, w.piece l = some (v, n) ∧
      (((v.settle n).2 = none ∧ w' = (v.settle n).1) ∨
        ∃ reason, (v.settle n).2 = some reason ∧
          (v.settle n).1.declareDead reason l.dying = some w') := by
  obtain ⟨⟨v, n⟩, hpiece, h⟩ := Option.bind_eq_some_iff.1 h
  refine ⟨v, n, hpiece, ?_⟩
  dsimp only at h
  split at h
  · rename_i u heq
    cases h
    exact .inl ⟨by rw [heq], by rw [heq]⟩
  · rename_i u reason heq
    exact .inr ⟨reason, by rw [heq], by rw [heq]; exact h⟩

/-! ## The beginning -/

/-- `connect` ends with a quiet change of the session as its handshake left it. -/
theorem quiet_begin {deferred : List Bytes} {moves : List SshCore.Action}
    (h : w.begin deferred moves = some w') : w.Quiet w' := by
  obtain ⟨v, hv, rfl⟩ := Option.map_eq_some_iff.1 h
  exact (deferred_cases hv).1.trans (drove_driveTurn v .other).quiet

/-- **The cases of `connect`**: with frames, its handshake got a new session; without, there is none. -/
theorem connect_cases [Postcard] {d : Dial} {moves : List SshCore.Action}
    (h : connect d moves = some w) : ∃ id dec hello pc deferred,
      (fresh d id dec hello pc).begin deferred moves = some w ∧
      (d.proto.framed = true →
        handshakeFrames d.arrived [] = .reply (.new id) deferred dec ∧ pc = .seeded) := by
  unfold connect at h
  split_ifs at h with hframed
  · split at h
    · rename_i id deferred dec hshake
      exact ⟨id, dec, _, _, deferred, h, fun _ => ⟨hshake, rfl⟩⟩
    · cases h
  · exact ⟨_, [], _, _, [], h, fun hf => absurd hf hframed⟩

end World

end Client
