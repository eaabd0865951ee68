import Wosh.Client.Effects

set_option relaxedAutoImplicit false
set_option autoImplicit false

/-!
# Quiet steps

Most steps of a session neither write on a connection nor belong to a resume: bytes arrive and are
consumed, the core is called and driven, a prober ticks, the page goes away. What they have in
common is stated once.

## Main definitions

* `Client.World.Quiet` — what such a step changes.
* `Client.Action.quiet` — the steps of neither a writer nor a resume.

## Main results

* `Client.World.quiet_piece` — these steps are quiet.
-/

namespace Client

open Tunnel

/-! ## Quiet changes -/

/-- A connection on which at most something arrived, or was read, or which was closed. -/
def Conn.Heard (conn conn' : Conn) : Prop :=
  conn' = { conn with inbox := conn'.inbox, closed := conn'.closed, taken := conn'.taken }

theorem Conn.Heard.refl (conn : Conn) : conn.Heard conn := rfl

theorem Conn.Heard.trans {conn conn' conn'' : Conn} (h : conn.Heard conn')
    (h' : conn'.Heard conn'') : conn.Heard conn'' := by
  rw [Conn.Heard] at *
  rw [h', h]

theorem Conn.Same.heard {conn conn' : Conn} (h : conn.Same conn') : conn.Heard conn' := by
  rw [Conn.Same] at h
  rw [Conn.Heard, h]

/-- A reader that is still on its connection. -/
def Reader.Stays (r r' : Reader) : Prop := r'.conn = r.conn

theorem Reader.Stays.refl (r : Reader) : r.Stays r := rfl

namespace World

variable {w w' : World}

/-- What a step changes that is neither one of a writer nor one of a resume: the core moves and its
output is queued, frames are consumed, and connections are read or closed. -/
structure Quiet (w w' : World) : Prop where
  only : w' = { w with
    now := w'.now
    core := w'.core
    outbox := w'.outbox
    signing := w'.signing
    detached := w'.detached
    replay := w'.replay
    received := w'.received
    ackDue := w'.ackDue
    suspended := w'.suspended
    lastInboundMs := w'.lastInboundMs
    pingOutstanding := w'.pingOutstanding
    pingDue := w'.pingDue
    pongDue := w'.pongDue
    wasReady := w'.wasReady
    writerSignal := w'.writerSignal
    conns := w'.conns
    readers := w'.readers
    keepers := w'.keepers
    parked := w'.parked
    fed := w'.fed
    queued := w'.queued
    answeredAt := w'.answeredAt }
  core : w.core.Onward w'.core
  latch : w.wasReady = true → w'.wasReady = true
  /-- The latch is set only while the core is open, and only once it has been ready. -/
  latched : w'.wasReady = true →
    w.wasReady = true ∨ (w.core.engine.state ≠ .closed ∧ w'.core.everReady = true)
  queued : ∃ bs, w'.outbox = w.outbox ++ bs ∧ w'.queued = w.queued ++ bs.flatten
  replay : ∀ s, w.replay.Tracks s → w'.replay.Tracks s
  readers : Slots.Related Reader.Stays w.readers w'.readers
  conns : Slots.Related Conn.Heard w.conns w'.conns
  rings : w.Rings w'
  /-- A session that the page left is not joined again. -/
  detached : w.detached = true → w'.detached = true
  /-- The page is back only when nothing is stalled, or the session is over. -/
  away : w.stalled = true → w.resuming = false → w.linkDown = false → w'.detached = false →
    w.suspended = true → w'.suspended = true

theorem Quiet.trans {w'' : World} (h : w.Quiet w') (h' : w'.Quiet w'') : w.Quiet w'' where
  only := h'.only.trans (by rw [h.only])
  core := h.core.trans h'.core
  latch hr := h'.latch (h.latch hr)
  latched hr := by
    rcases h'.latched hr with hr' | ⟨hopen, hever⟩
    · rcases h.latched hr' with hr | ⟨hopen, hever⟩
      · exact .inl hr
      · exact .inr ⟨hopen, h'.core.everReady hever⟩
    · exact .inr ⟨fun hc => hopen (h.core.closed hc).1, hever⟩
  queued := by
    obtain ⟨bs, ho, hq⟩ := h.queued
    obtain ⟨bs', ho', hq'⟩ := h'.queued
    exact ⟨bs ++ bs', by rw [ho', ho, List.append_assoc],
      by rw [hq', hq, List.flatten_append, List.append_assoc]⟩
  replay s hs := h'.replay s (h.replay s hs)
  readers := h.readers.trans (fun hab hbc => Eq.trans hbc hab) h'.readers
  conns := h.conns.trans Conn.Heard.trans h'.conns
  rings := h.rings.trans h'.rings
  detached hd := h'.detached (h.detached hd)
  away hstalled hresuming hdown hdet haway := by
    have hdet' : w'.detached = false := Bool.eq_false_iff.2 fun hd => by
      rw [h'.detached hd] at hdet
      cases hdet
    refine h'.away ?_ ?_ ?_ hdet (h.away hstalled hresuming hdown hdet' haway)
    · rwa [h.only]
    · rwa [h.only]
    · rwa [h.only]

/-- A change of nothing but the clock, the flags, the probers, what waits on the connections and
where the readers stand. -/
theorem Quiet.of_tasks (hw : w' = { w with
      now := w'.now
      signing := w'.signing
      ackDue := w'.ackDue
      lastInboundMs := w'.lastInboundMs
      pingOutstanding := w'.pingOutstanding
      pingDue := w'.pingDue
      pongDue := w'.pongDue
      conns := w'.conns
      readers := w'.readers
      keepers := w'.keepers
      parked := w'.parked
      answeredAt := w'.answeredAt })
    (hr : Slots.Related Reader.Stays w.readers w'.readers)
    (hc : Slots.Related Conn.Heard w.conns w'.conns) : w.Quiet w' where
  only := by rw [hw]
  core := by
    rw [hw]
    exact .refl _
  latch h := by rwa [hw]
  latched h := .inl (by rwa [hw] at h)
  queued := ⟨[], by rw [hw]; simp⟩
  replay s hs := by rwa [hw]
  readers := hr
  conns := hc
  rings := .inl (by rw [hw]; exact ⟨rfl, rfl⟩)
  detached hd := by rwa [hw]
  away _ _ _ _ haway := by rwa [hw]

/-- Of nothing but the clock, the flags and the probers. -/
theorem Quiet.of_flags (hw : w' = { w with
      now := w'.now
      ackDue := w'.ackDue
      lastInboundMs := w'.lastInboundMs
      pingOutstanding := w'.pingOutstanding
      pingDue := w'.pingDue
      keepers := w'.keepers }) : w.Quiet w' := by
  have hr : w'.readers = w.readers := by rw [hw]
  have hc : w'.conns = w.conns := by rw [hw]
  exact .of_tasks (by rw [hw]) (hr ▸ .refl Reader.Stays.refl _) (hc ▸ .refl Conn.Heard.refl _)

theorem Quiet.refl (w : World) : w.Quiet w := .of_flags rfl

/-- The page leaves. -/
theorem quiet_leave (w : World) : w.Quiet { w with detached := true } where
  only := rfl
  core := .refl _
  latch hr := hr
  latched := .inl
  queued := ⟨[], by simp⟩
  replay _ hs := hs
  readers := .refl Reader.Stays.refl _
  conns := .refl Conn.Heard.refl _
  rings := .refl w
  detached _ := rfl
  away _ _ _ hdet := by cases hdet

/-- The page goes away, or is back and finds nothing stalled. -/
theorem quiet_suspended (w : World) {away : Bool}
    (h : w.suspended = true → w.stalled = true → w.resuming = false → w.linkDown = false →
      w.detached = false → away = true) : w.Quiet { w with suspended := away } where
  only := rfl
  core := .refl _
  latch hr := hr
  latched := .inl
  queued := ⟨[], by simp⟩
  replay _ hs := hs
  readers := .refl Reader.Stays.refl _
  conns := .refl Conn.Heard.refl _
  rings := .refl w
  detached hd := hd
  away hstalled hresuming hdown hdet haway := h haway hstalled hresuming hdown hdet

theorem Drove.quiet (h : w.Drove w') : w.Quiet w' where
  only := by rw [h.only]
  core := .of_eq h.state h.everReady
  latch hr := by
    rcases h.wasReady with heq | ⟨-, hr'⟩
    · rw [heq, hr]
    · exact hr'
  latched hr := by
    rcases h.wasReady with heq | ⟨hs, -⟩
    · exact .inl (heq ▸ hr)
    · refine .inr ⟨by simp [hs], ?_⟩
      rw [h.everReady]
      exact w.core.everReady_of_ready hs
  queued := h.queued
  replay s hs := by rwa [h.only]
  readers := ⟨h.readers.length_eq, fun hr =>
    let ⟨r, hr, hkept⟩ := h.readers.slot hr
    ⟨r, hr, hkept.conn⟩⟩
  conns := ⟨h.conns.length_eq, fun hc =>
    let ⟨c, hc, hsame⟩ := h.conns.slot hc
    ⟨c, hc, hsame.heard⟩⟩
  rings := h.rings
  detached hd := by rwa [h.only]
  away _ _ _ _ haway := by rwa [h.only]

/-- The core moves. -/
theorem quiet_core {c : Core} (h : w.core.Onward c) : w.Quiet { w with core := c } where
  only := rfl
  core := h
  latch hr := hr
  latched := .inl
  queued := ⟨[], by simp⟩
  replay _ hs := hs
  readers := .refl Reader.Stays.refl _
  conns := .refl Conn.Heard.refl _
  rings := .inl ⟨rfl, rfl⟩
  detached hd := hd
  away _ _ _ _ haway := haway

theorem quiet_coreRounds {moves : List SshCore.Action} (h : w.coreRounds moves = some w') :
    w.Quiet w' := by
  obtain ⟨c, hc, rfl⟩ := Option.map_eq_some_iff.1 h
  exact quiet_core (Core.onward_rounds hc)

theorem quiet_coreCall {entry : SshCore.Action} {moves : List SshCore.Action}
    (h : w.coreCall entry moves = some w') : w.Quiet w' := by
  obtain ⟨c, hc, rfl⟩ := Option.map_eq_some_iff.1 h
  exact quiet_core (Core.onward_call hc)

theorem Consumed.quiet {p : Bytes} (h : w.Consumed w' p) : w.Quiet w' where
  only := by rw [h.only]
  core := .of_eq h.state h.everReady
  latch hr := by rwa [h.only]
  latched hr := .inl (by rwa [h.only] at hr)
  queued := ⟨[], by rw [h.only]; simp⟩
  replay := h.replay
  readers := by
    rw [h.only]
    exact .refl Reader.Stays.refl _
  conns := by
    rw [h.only]
    exact .refl Conn.Heard.refl _
  rings := h.rings
  detached hd := by rwa [h.only]
  away _ _ _ _ haway := by rwa [h.only]

theorem FedOnly.quiet {p : Bytes} (h : w.FedOnly w' p) : w.Quiet w' where
  only := by rw [h.only]
  core := .of_eq h.state h.everReady
  latch hr := by rwa [h.only]
  latched hr := .inl (by rwa [h.only] at hr)
  queued := ⟨[], by rw [h.only]; simp⟩
  replay s hs := by rwa [h.only]
  readers := by
    rw [h.only]
    exact .refl Reader.Stays.refl _
  conns := by
    rw [h.only]
    exact .refl Conn.Heard.refl _
  rings := .inl (by rw [h.only]; exact ⟨rfl, rfl⟩)
  detached hd := by rwa [h.only]
  away _ _ _ _ haway := by rwa [h.only]

theorem quiet_modifyConn {c : ℕ} {f : Conn → Conn} (hf : ∀ conn : Conn, conn.Heard (f conn)) :
    w.Quiet (w.modifyConn c f) :=
  .of_tasks rfl (.refl Reader.Stays.refl _) (Slots.related_modify Conn.Heard.refl fun a _ => hf a)

theorem quiet_takeInbox (w : World) (c n : ℕ) : w.Quiet (w.takeInbox c n) :=
  quiet_modifyConn fun _ => rfl

theorem quiet_decode (w : World) (g : ℕ) (dec : Bytes) (pc : ReaderPc) :
    w.Quiet (w.decode g dec pc) :=
  .of_tasks rfl (Slots.related_modify Reader.Stays.refl fun _ _ => rfl) (.refl Conn.Heard.refl _)

theorem quiet_setReader (w : World) (g : ℕ) (pc : ReaderPc) : w.Quiet (w.setReader g pc) :=
  .of_tasks rfl (Slots.related_modify Reader.Stays.refl fun _ _ => rfl) (.refl Conn.Heard.refl _)

/-- What came ahead of a reply is fed. -/
theorem deferred_cases {v : World} {deferred : List Bytes} {moves : List SshCore.Action}
    (h : (deferred.foldl feedCounted w).coreRounds moves = some v) :
    w.Quiet v ∧ v = { w with core := v.core, received := v.received, fed := v.fed } ∧
      v.fed = w.fed ++ deferred.flatten ∧ v.received = w.received + deferred.flatten.length := by
  have hfed := fedOnly_foldl deferred w
  have hq := hfed.quiet.trans (quiet_coreRounds h)
  obtain ⟨core, -, rfl⟩ := Option.map_eq_some_iff.1 h
  exact ⟨hq, by rw [hfed.only], hfed.fed, hfed.received⟩

/-- **What installing a connection does**: it is adopted, what came ahead of the reply is fed, its
tasks are spawned, and the core is driven. -/
theorem install_cases {c : ℕ} {dec tail : Bytes} {deferred : List Bytes}
    {moves : List SshCore.Action} (h : w.install c dec deferred tail moves = some w') :
    ∃ v, (w.adopt c).Quiet v ∧
      v = { w.adopt c with core := v.core, received := v.received, fed := v.fed } ∧
      v.fed = w.fed ++ deferred.flatten ∧ v.received = w.received + deferred.flatten.length ∧
      (v.spawnTasks c dec tail).Drove w' := by
  obtain ⟨v, hv, rfl⟩ := Option.map_eq_some_iff.1 h
  obtain ⟨hq, hw, hfed, hreceived⟩ := deferred_cases hv
  exact ⟨v, hq, hw, hfed, hreceived, drove_driveTurn _ .other⟩

/-! ## The steps that are quiet -/

section QuietPieces

variable [Postcard] {n : Next} {moves : List SshCore.Action}

theorem quiet_readerConsume {g : ℕ} {seeded : Bool} {dec : Bytes}
    (h : w.readerConsume g seeded dec moves = some (w', n)) : w.Quiet w' := by
  obtain ⟨p, -, -, hcons, -⟩ := w.consumed_consume dec
  unfold readerConsume at h
  split at h
  · obtain ⟨v, hv, heq⟩ := Option.map_eq_some_iff.1 h
    cases heq
    exact (hcons.quiet.trans (quiet_coreRounds hv)).trans (v.quiet_setReader g .done)
  · rename_i fed rest hok
    obtain ⟨v, hv, heq⟩ := Option.map_eq_some_iff.1 h
    cases heq
    refine (hcons.quiet.trans (quiet_coreRounds hv)).trans ?_
    cases fed with
    | true =>
      rw [if_pos rfl]
      exact (v.quiet_decode _ _ _).trans (drove_driveTurn _ _).quiet
    | false =>
      rw [if_neg Bool.false_ne_true]
      exact (v.quiet_decode _ _ _).trans (drove_finishDrive _ _).quiet

theorem quiet_pollReader {g : ℕ} (h : w.pollReader g moves = some (w', n)) : w.Quiet w' := by
  unfold pollReader at h
  split at h
  · cases h
  · split_ifs at h
    exact quiet_readerConsume h

theorem quiet_read {g k : ℕ} (h : w.read g k moves = some (w', n)) : w.Quiet w' := by
  unfold read at h
  split at h
  · cases h
  · rename_i r hr
    have htake := w.quiet_takeInbox r.conn k
    dsimp only at h
    split_ifs at h
    · cases h
      exact htake.trans (quiet_setReader _ _ _)
    · cases h
      exact htake
    · obtain ⟨v, hv, heq⟩ := Option.map_eq_some_iff.1 h
      cases heq
      have hraw : ∀ v : World, v.Quiet (v.feedRaw (w.waiting r.conn k)) := fun v =>
        ⟨rfl, .of_eq rfl rfl, fun h => h, .inl, ⟨[], by simp [feedRaw]⟩, fun _ hs => hs,
          .refl Reader.Stays.refl _, .refl Conn.Heard.refl _, .inl ⟨rfl, rfl⟩, fun hd => hd,
          fun _ _ _ _ haway => haway⟩
      exact (htake.trans ((hraw _).trans (quiet_coreRounds hv))).trans
        ((v.quiet_setReader _ _).trans (drove_driveTurn _ _).quiet)
    · exact htake.trans ((quiet_decode _ _ _ _).trans (quiet_readerConsume h))

omit [Postcard] in
theorem quiet_readEnd {g : ℕ} {err : Option String} (h : w.readEnd g err = some (w', n)) :
    w.Quiet w' := by
  unfold readEnd at h
  split at h
  · cases h
  · split_ifs at h <;> cases h <;> exact quiet_setReader _ _ _

omit [Postcard] in
theorem quiet_signed {result : Except String SshCore.Signature}
    (h : w.signed result moves = some (w', n)) : w.Quiet w' := by
  unfold signed at h
  split at h
  · cases h
  · obtain ⟨v, hv, heq⟩ := Option.map_eq_some_iff.1 h
    cases heq
    have hclear : w.Quiet { w with signing := false, parked := none } :=
      .of_tasks rfl (.refl Reader.Stays.refl _) (.refl Conn.Heard.refl _)
    exact (hclear.trans (quiet_coreCall hv)).trans (drove_driveTurn _ _).quiet

omit [Postcard] in
theorem quiet_tick {g : ℕ} (h : w.tick g = some (w', n)) : w.Quiet w' := by
  unfold tick at h
  split at h
  · dsimp only at h
    split_ifs at h
    split at h <;> cases h
    · exact .of_flags rfl
    · exact .of_flags rfl
    · have hdue : w.Quiet { w with pingDue := true } := .of_flags rfl
      exact (hdue.trans (drove_notify _).quiet).trans (.of_flags rfl)
    · exact .of_flags rfl
  · cases h

theorem quiet_arrive {c : ℕ} {b : Bytes} (h : w.arrive c b = some w') : w.Quiet w' := by
  unfold arrive at h
  split at h
  · cases h
  · split_ifs at h
    cases h
    exact .of_tasks rfl (.refl Reader.Stays.refl _)
      (Slots.related_modify Conn.Heard.refl fun _ _ => rfl)

omit [Postcard] in
theorem quiet_suspend (w : World) : w.Quiet w.suspend := by
  unfold suspend
  split_ifs
  · exact .refl w
  · exact w.quiet_suspended fun _ _ _ _ _ => rfl

omit [Postcard] in
/-- An export that drives the core has called it. -/
theorem driveCall_cases {entry : SshCore.Action} (h : w.driveCall entry moves = some (w', n)) :
    ∃ v turn, w.coreCall entry moves = some v ∧ w' = v.driveTurn turn ∧ n = .stop := by
  unfold driveCall at h
  by_cases hd : driven entry = true
  · rw [if_pos hd] at h
    obtain ⟨v, hv, heq⟩ := Option.map_eq_some_iff.1 h
    cases heq
    exact ⟨v, _, hv, rfl, rfl⟩
  · rw [if_neg hd] at h
    cases h

omit [Postcard] in
theorem quiet_driveCall {entry : SshCore.Action} (h : w.driveCall entry moves = some (w', n)) :
    w.Quiet w' := by
  obtain ⟨v, turn, hv, rfl, -⟩ := driveCall_cases h
  exact (quiet_coreCall hv).trans (drove_driveTurn v turn).quiet

omit [Postcard] in
theorem quiet_tickCore {entry : SshCore.Action} (h : w.tickCore entry moves = some (w', n)) :
    w.Quiet w' := by
  unfold tickCore at h
  split_ifs at h
  obtain ⟨v, hv, heq⟩ := Option.map_eq_some_iff.1 h
  cases heq
  exact (quiet_coreCall hv).trans v.drove_queue.quiet

omit [Postcard] in
theorem quiet_detach (h : w.detach moves = some (w', n)) : w.Quiet w' := by
  obtain ⟨v, hv, heq⟩ := Option.map_eq_some_iff.1 h
  cases heq
  exact (w.quiet_leave.trans (quiet_coreCall hv)).trans (drove_driveTurn _ _).quiet

end QuietPieces

end World

/-- The steps of neither a writer nor a resume. -/
def Action.quiet : Action → Bool
  | .pollWriter _ => false
  | .wrote _ _ => false
  | .pollLoop _ => false
  | .dialed _ _ => false
  | .rebound _ => false
  | .slept _ => false
  | .opened _ _ => false
  | .helloed _ _ => false
  | .loopRead _ _ => false
  | .loopReadEnd _ => false
  | .wake => false
  | _ => true

namespace World

variable {w w' : World}

/-- **A quiet step is quiet.** -/
theorem quiet_piece [Postcard] {l : Label} {n : Next} (hq : l.act.quiet = true)
    (h : w.piece l = some (w', n)) : w.Quiet w' := by
  obtain ⟨act, moves, dying⟩ := l
  cases act <;> simp only [Action.quiet, Bool.false_eq_true] at hq <;> simp only [piece] at h
  case arrive c b =>
    obtain ⟨v, hv, heq⟩ := Option.map_eq_some_iff.1 h
    cases heq
    exact quiet_arrive hv
  case elapse d =>
    cases h
    exact .of_flags rfl
  case pollReader g => exact quiet_pollReader h
  case read g k => exact quiet_read h
  case readEnd g err => exact quiet_readEnd h
  case signed result => exact quiet_signed h
  case pollKeeper g =>
    unfold pollKeeper at h
    split_ifs at h
    cases h
    exact .of_flags rfl
  case tick g => exact quiet_tick h
  case drive entry => exact quiet_driveCall h
  case tickCore entry => exact quiet_tickCore h
  case drainOutput =>
    obtain ⟨v, hv, heq⟩ := Option.map_eq_some_iff.1 h
    cases heq
    exact quiet_coreCall hv
  case suspend =>
    cases h
    exact w.quiet_suspend
  case detach => exact quiet_detach h

/-- Such a step ends there, or in `link_lost`. -/
theorem next_of_quiet [Postcard] {l : Label} {n : Next} (hq : l.act.quiet = true)
    (h : w.piece l = some (w', n)) : n = .stop ∨ ∃ g reason, n = .lost g reason := by
  have hmap : ∀ {α : Type} {o : Option α} {f : α → World} {n₀ : Next},
      (n₀ = .stop ∨ ∃ g reason, n₀ = .lost g reason) →
      o.map (fun a => (f a, n₀)) = some (w', n) → n = .stop ∨ ∃ g reason, n = .lost g reason := by
    intro α o f n₀ hn₀ heq
    obtain ⟨a, -, heq⟩ := Option.map_eq_some_iff.1 heq
    cases heq
    exact hn₀
  have hconsume : ∀ {v : World} {g : ℕ} {seeded : Bool} {dec : Bytes} {moves : List SshCore.Action},
      v.readerConsume g seeded dec moves = some (w', n) →
      n = .stop ∨ ∃ g reason, n = .lost g reason := by
    intro v g seeded dec moves heq
    unfold readerConsume at heq
    split at heq
    · exact hmap (.inr ⟨_, _, rfl⟩) heq
    · exact hmap (.inl rfl) heq
  obtain ⟨act, moves, dying⟩ := l
  cases act <;> simp only [Action.quiet, Bool.false_eq_true] at hq <;> simp only [piece] at h
  case arrive c b => exact hmap (.inl rfl) h
  case elapse d => cases h; exact .inl rfl
  case pollReader g =>
    unfold pollReader at h
    split at h
    · cases h
    · split_ifs at h
      exact hconsume h
  case read g k =>
    unfold read at h
    split at h
    · cases h
    · dsimp only at h
      split_ifs at h
      · cases h; exact .inl rfl
      · cases h; exact .inl rfl
      · exact hmap (.inl rfl) h
      · exact hconsume h
  case readEnd g err =>
    unfold readEnd at h
    split at h
    · cases h
    · split_ifs at h <;> cases h
      · exact .inl rfl
      · exact .inr ⟨_, _, rfl⟩
  case signed result =>
    unfold signed at h
    split at h
    · cases h
    · exact hmap (.inl rfl) h
  case pollKeeper g =>
    unfold pollKeeper at h
    split_ifs at h
    cases h
    exact .inl rfl
  case tick g =>
    unfold tick at h
    split at h
    · dsimp only at h
      split_ifs at h
      split at h <;> cases h
      · exact .inl rfl
      · exact .inl rfl
      · exact .inl rfl
      · exact .inr ⟨_, _, rfl⟩
    · cases h
  case drive entry =>
    obtain ⟨-, -, -, -, rfl⟩ := driveCall_cases h
    exact .inl rfl
  case tickCore entry =>
    unfold tickCore at h
    split_ifs at h
    exact hmap (.inl rfl) h
  case drainOutput => exact hmap (.inl rfl) h
  case suspend => cases h; exact .inl rfl
  case detach => exact hmap (.inl rfl) h

end World

end Client
