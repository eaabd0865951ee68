import Wosh.Client.Hearing

set_option relaxedAutoImplicit false
set_option autoImplicit false

/-!
# The resume machine

Five flags say where a session stands between a transport and the next one, and six functions in
different tasks set and clear them. While the page has not detached and no death was declared, they
agree with the tasks: a resume is in flight exactly while one loop is alive, and a reader that has
retired left a resume or a stall behind.

## Main definitions

* `Client.World.SingleFlight` — what the flags say about the tasks.
* `Client.World.Flight` — the invariant, in the middle of a step too.

## Main results

* `Client.single_flight` — it holds in every state of every session with frames, and a step changes
  the generation only when it installs a connection.
-/

namespace Client

open Tunnel

namespace World

/-- What the flags of a resume say about the tasks. -/
structure SingleFlight (w : World) : Prop where
  /-- A resume is in flight exactly while a loop has not installed a connection, stood down or given
  up. -/
  resuming_iff : w.resuming = true ↔ ∃ (i : ℕ) (loop : Loop), w.loops[i]? = some loop ∧
    loop.pc ≠ .done
  alone : ∀ {i j : ℕ} {loop loop' : Loop}, w.loops[i]? = some loop → loop.pc ≠ .done →
    w.loops[j]? = some loop' → loop'.pc ≠ .done → i = j
  apart : ¬(w.resuming = true ∧ w.stalled = true)
  away : w.stalled = true → w.suspended = true
  /-- No death of a transport is lost. -/
  retired : ∀ {r : Reader}, w.readers[w.generation]? = some r → r.pc = .done →
    w.resuming = true ∨ w.stalled = true

variable {w w' : World}

/-! ## The current reader -/

/-- The generation is the same, and its reader is over only if it was. -/
structure Runs (w w' : World) : Prop where
  generation : w'.generation = w.generation
  reader : ∀ {r' : Reader}, w'.readers[w.generation]? = some r' → r'.pc = .done →
    ∃ r, w.readers[w.generation]? = some r ∧ r.pc = .done

theorem Runs.of_eq (hgen : w'.generation = w.generation) (hreaders : w'.readers = w.readers) :
    w.Runs w' := ⟨hgen, fun hr hpc => ⟨_, hreaders ▸ hr, hpc⟩⟩

theorem Runs.trans {w'' : World} (h : w.Runs w') (h' : w'.Runs w'') : w.Runs w'' where
  generation := h'.generation.trans h.generation
  reader hr hpc := by
    rw [← h.generation] at hr
    obtain ⟨r', hr', hpc'⟩ := h'.reader hr hpc
    rw [h.generation] at hr'
    exact h.reader hr' hpc'

/-- A reader moves on, and is not over; or it is one that was superseded. -/
theorem runs_modify {g : ℕ} {f : Reader → Reader} (hgen : w'.generation = w.generation)
    (hreaders : w'.readers = w.readers.modify g f)
    (h : w.generation = g → ∀ r, (f r).pc = .done → r.pc = .done) : w.Runs w' := by
  refine ⟨hgen, fun hr' hpc => ?_⟩
  rw [hreaders] at hr'
  obtain ⟨r, hr, rfl⟩ := Slots.getElem?_modify_eq_some.1 hr'
  refine ⟨r, hr, ?_⟩
  by_cases hg : g = w.generation
  · rw [if_pos hg] at hpc
    exact h hg.symm r hpc
  · rwa [if_neg hg] at hpc

/-- A turn of `drive` ends no current reader. -/
theorem runs_driveTurn (w : World) (o : Owner) : w.Runs (w.driveTurn o) := by
  -- the one who awaits it goes on in a session with the same tasks
  have hfinish : ∀ v : World, v.generation = w.generation → v.readers = w.readers →
      w.Runs (v.finishDrive o) := by
    intro v hgen hreaders
    cases o with
    | reader g =>
      refine runs_modify (g := g) (f := Reader.drove (v.stale g)) hgen ?_ fun hg r hpc => ?_
      · rw [← hreaders]
        rfl
      · have hstale : v.stale g = false := by simp [stale, hgen, hg]
        rw [hstale, Reader.drove] at hpc
        split at hpc
        · simp at hpc
        · exact hpc
    | detach c => exact .of_eq hgen hreaders
    | reject => exact .of_eq hgen hreaders
    | other => exact .of_eq hgen hreaders
  have hqueue : ∀ v : World, v.takeCoreOutput.1.generation = v.generation ∧
      v.takeCoreOutput.1.readers = v.readers := by
    intro v
    unfold takeCoreOutput
    dsimp only
    split_ifs
    · exact ⟨rfl, rfl⟩
    · exact ⟨rfl, rfl⟩
  obtain ⟨hgen, hreaders⟩ := hqueue w
  unfold driveTurn
  dsimp only
  split_ifs <;> first | exact .of_eq hgen hreaders | exact hfinish _ hgen hreaders

section Pieces

variable [Postcard] {n : Next} {moves : List SshCore.Action}

omit [Postcard] in
theorem runs_coreRounds (h : w.coreRounds moves = some w') : w.Runs w' := by
  obtain ⟨c, -, rfl⟩ := Option.map_eq_some_iff.1 h
  exact .of_eq rfl rfl

omit [Postcard] in
theorem runs_coreCall {entry : SshCore.Action} (h : w.coreCall entry moves = some w') :
    w.Runs w' := by
  obtain ⟨c, -, rfl⟩ := Option.map_eq_some_iff.1 h
  exact .of_eq rfl rfl

omit [Postcard] in
/-- A reader comes to its end: a superseded one, or the current one in `link_lost`. -/
theorem runs_done {g : ℕ} (hn : w.stale g = true ∨ ∃ reason, n = .lost g reason) :
    w.Runs (w.setReader g .done) ∨ ∃ reason, n = .lost w.generation reason := by
  by_cases hg : w.generation = g
  · rcases hn with hstale | hn
    · simp [stale, hg] at hstale
    · exact .inr (hg ▸ hn)
  · exact .inl (runs_modify rfl rfl fun heq => absurd heq hg)

theorem runs_readerConsume {g : ℕ} {seeded : Bool} {dec : Bytes}
    (h : w.readerConsume g seeded dec moves = some (w', n)) :
    w.Runs w' ∨ ∃ reason, n = .lost w.generation reason := by
  obtain ⟨p, -, -, hcons, -⟩ := w.consumed_consume dec
  have hrest : w.Runs (w.consume dec).1 := .of_eq (by rw [hcons.only]) (by rw [hcons.only])
  unfold readerConsume at h
  split at h
  · obtain ⟨v, hv, heq⟩ := Option.map_eq_some_iff.1 h
    cases heq
    have hv' := hrest.trans (runs_coreRounds hv)
    rcases runs_done (w := v) (g := g) (n := .lost g _) (.inr ⟨_, rfl⟩) with hd | ⟨reason, hn⟩
    · exact .inl (hv'.trans hd)
    · exact .inr ⟨reason, by rw [hn, hv'.generation]⟩
  · rename_i fed rest hok
    obtain ⟨v, hv, heq⟩ := Option.map_eq_some_iff.1 h
    cases heq
    have hdecode : ∀ dec : Bytes, v.Runs (v.decode g dec (.driving seeded)) := fun _ =>
      runs_modify rfl rfl fun _ _ => nofun
    have hv' := (hrest.trans (runs_coreRounds hv)).trans
      (hdecode (if seeded then [] else rest))
    refine .inl (hv'.trans ?_)
    cases fed with
    | true =>
      rw [if_pos rfl]
      exact runs_driveTurn _ _
    | false =>
      rw [if_neg Bool.false_ne_true]
      refine runs_modify rfl rfl fun hg r hpc => ?_
      have hstale : ∀ u : World, u.generation = g → u.stale g = false := by
        intro u hu
        simp [stale, hu]
      rw [hstale _ hg, Reader.drove] at hpc
      split at hpc
      · simp at hpc
      · exact hpc

/-- **A current reader retires only in `link_lost`.** -/
theorem runs_piece {l : Label} (hq : l.act.quiet = true) (h : w.piece l = some (w', n)) :
    w.Runs w' ∨ ∃ reason, n = .lost w.generation reason := by
  obtain ⟨act, moves, dying⟩ := l
  cases act <;> simp only [Action.quiet, Bool.false_eq_true] at hq <;> simp only [piece] at h
  case arrive c b =>
    obtain ⟨v, hv, heq⟩ := Option.map_eq_some_iff.1 h
    cases heq
    obtain ⟨conn, -, hw, -⟩ := arrive_cases hv
    exact .inl (.of_eq (by rw [hw]) (by rw [hw]))
  case elapse d =>
    cases h
    exact .inl (.of_eq rfl rfl)
  case pollReader g =>
    unfold pollReader at h
    split at h
    · cases h
    · split_ifs at h
      exact runs_readerConsume h
  case read g k =>
    unfold read at h
    split at h
    · cases h
    · rename_i r hr
      have htake : w.Runs (w.takeInbox r.conn k) := .of_eq rfl rfl
      dsimp only at h
      split_ifs at h with hpc hstale
      · cases h
        rcases runs_done (w := w.takeInbox r.conn k) (n := .stop) (.inl hstale) with hd | ⟨_, hn⟩
        · exact .inl (htake.trans hd)
        · cases hn
      · cases h
        exact .inl htake
      · obtain ⟨v, hv, heq⟩ := Option.map_eq_some_iff.1 h
        cases heq
        have hfeed : w.Runs ((w.takeInbox r.conn k).feedRaw (w.waiting r.conn k)) := .of_eq rfl rfl
        have hmove : v.Runs (v.setReader g (.driving false)) := runs_modify rfl rfl fun _ _ => (by simp)
        exact .inl (((hfeed.trans (runs_coreRounds hv)).trans hmove).trans (runs_driveTurn _ _))
      · have hdecode : (w.takeInbox r.conn k).Runs
            ((w.takeInbox r.conn k).decode g (r.dec ++ w.waiting r.conn k) .reading) :=
          runs_modify rfl rfl fun _ _ => (by simp)
        have hpre := htake.trans hdecode
        rcases runs_readerConsume h with hrun | ⟨reason, hn⟩
        · exact .inl (hpre.trans hrun)
        · exact .inr ⟨reason, hn⟩
  case readEnd g err =>
    unfold readEnd at h
    split at h
    · cases h
    · split_ifs at h with hpc hstale <;> cases h
      · exact runs_done (.inl hstale)
      · exact runs_done (.inr ⟨_, rfl⟩)
  case signed result =>
    unfold signed at h
    split at h
    · cases h
    · obtain ⟨v, hv, heq⟩ := Option.map_eq_some_iff.1 h
      cases heq
      have hclear : w.Runs { w with signing := false, parked := none } := .of_eq rfl rfl
      exact .inl ((hclear.trans (runs_coreCall hv)).trans (runs_driveTurn _ _))
  case pollKeeper g =>
    unfold pollKeeper at h
    split_ifs at h
    cases h
    exact .inl (.of_eq rfl rfl)
  case tick g =>
    unfold tick at h
    split at h
    · dsimp only at h
      split_ifs at h
      split at h <;> cases h <;> exact .inl (.of_eq rfl rfl)
    · cases h
  case drive entry =>
    obtain ⟨v, turn, hv, rfl, -⟩ := driveCall_cases h
    exact .inl ((runs_coreCall hv).trans (runs_driveTurn v turn))
  case tickCore entry =>
    unfold tickCore at h
    split_ifs at h
    obtain ⟨v, hv, heq⟩ := Option.map_eq_some_iff.1 h
    cases heq
    refine .inl ((runs_coreCall hv).trans ?_)
    unfold takeCoreOutput
    dsimp only
    split_ifs <;> exact .of_eq rfl rfl
  case drainOutput =>
    obtain ⟨v, hv, heq⟩ := Option.map_eq_some_iff.1 h
    cases heq
    exact .inl (runs_coreCall hv)
  case suspend =>
    cases h
    unfold suspend
    split_ifs <;> exact .inl (.of_eq rfl rfl)
  case detach =>
    obtain ⟨v, hv, heq⟩ := Option.map_eq_some_iff.1 h
    cases heq
    have hflag : w.Runs { w with detached := true } := .of_eq rfl rfl
    exact .inl ((hflag.trans (runs_coreCall hv)).trans (runs_driveTurn _ _))

end Pieces

/-! ## The invariant -/

/-- The invariant of the flags, when a step goes on with `n`: a reader may have retired on the way
to `link_lost`, and a loop on the way to a death. -/
structure Flight (w : World) (n : Next) : Prop where
  generation : ∀ {i : ℕ} {loop : Loop}, w.loops[i]? = some loop → loop.pc ≠ .done →
    loop.generation = w.generation
  live : w.detached = false → w.linkDown = false → w.resuming = true →
    (∃ (i : ℕ) (loop : Loop), w.loops[i]? = some loop ∧ loop.pc ≠ .done) ∨ ∃ reason, n = .die reason
  stalled : w.detached = false → w.linkDown = false → w.stalled = true →
    w.resuming = false ∧ w.suspended = true
  retired : w.detached = false → w.linkDown = false → ∀ {r : Reader},
    w.readers[w.generation]? = some r → r.pc = .done →
    (w.resuming = true ∨ w.stalled = true) ∨ ∃ reason, n = .lost w.generation reason
  /-- A death is declared only when nothing is stalled. -/
  dying : ∀ reason, n = .die reason → w.stalled = false

/-- The decision of `link_lost`, with frames. -/
theorem linkNext_cases (hframed : w.proto.framed = true) (g : ℕ) :
    (w.linkNext g = .retire ∧ (w.stale g = true ∨ w.detached = true ∨ w.resuming = true)) ∨
    (w.linkNext g = .stall ∧ w.stale g = false ∧ w.detached = false ∧ w.resuming = false ∧
      w.suspended = true) ∨
    (w.linkNext g = .resume ∧ w.stale g = false ∧ w.detached = false ∧ w.resuming = false ∧
      w.suspended = false) := by
  unfold linkNext
  split_ifs with hover hproto hres haway
  · exact .inl ⟨rfl, hover.imp_right .inl⟩
  · simp [hproto, Proto.framed] at hframed
  · exact .inl ⟨rfl, .inr (.inr hres)⟩
  all_goals
    simp only [not_or, Bool.not_eq_true] at hover hres
    obtain ⟨hstale, hdet⟩ := hover
  · exact .inr (.inl ⟨rfl, hstale, hdet, hres, haway⟩)
  · exact .inr (.inr ⟨rfl, hstale, hdet, hres, by simpa using haway⟩)

/-- A session goes on. -/
theorem abandoned_eq_false {g : ℕ} : w.abandoned g = false ↔
    w.detached = false ∧ w.linkDown = false ∧ w.stale g = false := by
  simp [abandoned, and_assoc]

namespace Flight

variable {n : Next}

/-- The flags and the loops are left alone, and a current reader retires only in `link_lost`. -/
theorem keep (h : w.Flight .stop) (hloops : w'.loops = w.loops)
    (hresuming : w'.resuming = w.resuming) (hstalled : w'.stalled = w.stalled)
    (hdown : w'.linkDown = w.linkDown) (hdet : w.detached = true → w'.detached = true)
    (haway : w'.detached = false → w.linkDown = false → w.stalled = true → w.resuming = false →
      w.suspended = true → w'.suspended = true)
    (hgen : w'.generation = w.generation)
    (hrun : w.Runs w' ∨ ∃ reason, n = .lost w.generation reason)
    (hn : ∀ reason, n ≠ .die reason) : w'.Flight n := by
  have hdet' : w'.detached = false → w.detached = false := by
    intro hd
    by_contra hleft
    rw [hdet (by simpa using hleft)] at hd
    cases hd
  refine ⟨fun hl hpc => ?_, fun hd hdn hres => ?_, fun hd hdn hs => ?_, fun hd hdn {r} hr hpc => ?_,
    fun reason heq => absurd heq (hn reason)⟩
  · rw [hloops] at hl
    rw [hgen]
    exact h.generation hl hpc
  · rw [hresuming] at hres
    rw [hdown] at hdn
    rw [hloops]
    rcases h.live (hdet' hd) hdn hres with hlive | ⟨_, hdie⟩
    · exact .inl hlive
    · cases hdie
  · rw [hstalled] at hs
    rw [hdown] at hdn
    rw [hresuming]
    obtain ⟨hres, hsus⟩ := h.stalled (hdet' hd) hdn hs
    exact ⟨hres, haway hd hdn hs hres hsus⟩
  · rw [hdown] at hdn
    rw [hgen] at hr ⊢
    rcases hrun with hrun | hlost
    · obtain ⟨r, hr, hpc⟩ := hrun.reader hr hpc
      rcases h.retired (hdet' hd) hdn hr hpc with hor | ⟨_, hlost⟩
      · exact .inl (by rwa [hresuming, hstalled])
      · cases hlost
    · exact .inr hlost

theorem quiet (h : w.Flight .stop) (hq : w.Quiet w')
    (hrun : w.Runs w' ∨ ∃ reason, n = .lost w.generation reason)
    (hn : ∀ reason, n ≠ .die reason) : w'.Flight n := by
  refine h.keep ?_ ?_ ?_ ?_ hq.detached (fun hd hdn hs hres => hq.away hs hres hdn hd) ?_ hrun hn
  all_goals rw [hq.only]

/-- The live resume moves on. -/
theorem setLoop (h : w.Flight .stop) (ht : w.Tasks) {i : ℕ} {loop loop' : Loop}
    (hloop : w.loops[i]? = some loop) (hlive : loop.pc ≠ .done) (hw : w' = { w with
      conns := w'.conns, replay := w'.replay, hellos := w'.hellos, dials := w'.dials
      loops := w.loops.set i loop' })
    (hgen : loop'.generation = loop.generation)
    (hover : loop'.pc = .done → w.abandoned loop.generation = true ∨ ∃ reason, n = .die reason)
    (hdie : ∀ reason, n = .die reason → w.abandoned loop.generation = false) : w'.Flight n := by
  have hi : i < w.loops.length := (List.getElem?_eq_some_iff.1 hloop).1
  have hcur := h.generation hloop hlive
  have hres := ht.live hloop hlive
  rw [hw]
  refine ⟨fun hl hpc => ?_, fun hd hdn _ => ?_, h.stalled, fun hd hdn {r} hr hpc => ?_,
    fun reason heq => ?_⟩
  · rcases Slots.getElem?_set_eq_some hl with ⟨-, rfl⟩ | ⟨-, hl⟩
    · exact hgen.trans hcur
    · exact h.generation hl hpc
  · by_cases hdone : loop'.pc = .done
    · rcases hover hdone with habandoned | hn
      · simp [abandoned, stale, hcur] at habandoned
        rcases habandoned with hleft | hdead
        · cases hd.symm.trans hleft
        · cases hdn.symm.trans hdead
      · exact .inr hn
    · exact .inl ⟨i, loop', List.getElem?_set_self hi, hdone⟩
  · exact .inl (.inl hres)
  · obtain ⟨hd, hdn, -⟩ := abandoned_eq_false.1 (hdie reason heq)
    by_contra hs
    obtain ⟨hidle, -⟩ := h.stalled hd hdn (by simpa using hs)
    rw [hres] at hidle
    cases hidle

/-- A resume starts. -/
theorem addLoop {loop : Loop} (hno : w.NoLoop) (hpc : loop.pc ≠ .done)
    (hgen : loop.generation = w.generation)
    (hstalled : w'.detached = false → w'.linkDown = false → w'.stalled = false)
    (hw : w' = { w with
      conns := w'.conns, resuming := true, stalled := w'.stalled, suspended := w'.suspended
      loops := w.loops ++ [loop] }) : w'.Flight .stop := by
  refine ⟨fun hl hpc' => ?_, fun _ _ _ => .inl ⟨w.loops.length, loop, ?_, hpc⟩,
    fun hd hdn hs => ?_, fun _ _ _ _ _ => .inl (.inl ?_), nofun⟩
  · rw [hw] at hl ⊢
    rcases Slots.getElem?_concat_eq_some.1 hl with hl | ⟨-, rfl⟩
    · exact absurd (hno _ _ hl) hpc'
    · exact hgen
  · rw [hw]
    exact List.getElem?_concat_length
  · cases (hstalled hd hdn).symm.trans hs
  · rw [hw]

/-! ### Steps -/

section Steps

variable [Postcard]

theorem writerStep (h : w.Flight .stop) {a : Action} {g : ℕ} {t : Writer}
    (hw : WriterStep w a g t w' n) : w'.Flight n ∧ w'.generation = w.generation := by
  cases hw with
  | parked =>
    exact ⟨h.keep rfl rfl rfl rfl (fun hd => hd) (fun _ _ _ _ hs => hs) rfl (.inl (.of_eq rfl rfl))
      nofun, rfl⟩
  | done n hn =>
    refine ⟨h.keep rfl rfl rfl rfl (fun hd => hd) (fun _ _ _ _ hs => hs) rfl (.inl (.of_eq rfl rfl))
      fun reason heq => ?_, rfl⟩
    rcases hn with hn | ⟨_, hn⟩ <;> cases hn.symm.trans heq
  | pieces fs =>
    exact ⟨h.keep rfl rfl rfl rfl (fun hd => hd) (fun _ _ _ _ hs => hs) rfl (.inl (.of_eq rfl rfl))
      nofun, rfl⟩
  | round hcur hlive hpend hb =>
    have hgen : w'.generation = w.generation := by rw [hb.only]
    have hrun : w.Runs w' := .of_eq hgen (by rw [hb.only])
    refine ⟨h.keep ?_ ?_ ?_ ?_ (fun hd => ?_) (fun _ _ _ _ hs => ?_) hgen (.inl hrun) nofun, hgen⟩
    all_goals rw [hb.only]
    · exact hd
    · exact hs

omit [Postcard] in
/-- A connection is installed: the resume is over, and the tasks of the new generation run. -/
theorem installed (h : w.Flight .stop) (ht : w.Tasks) {i c k p : ℕ} {loop : Loop}
    {dec tail : Bytes} {deferred : List Bytes} {moves : List SshCore.Action}
    (hloop : w.loops[i]? = some loop) (hlive : loop.pc ≠ .done)
    (hgoing : w.abandoned loop.generation = false)
    (hinst : ((w.takeInbox c k).resumed i loop c p).install c dec deferred tail moves = some w') :
    w'.Flight .stop ∧ w'.generation = w.generation + 1 ∧ w'.conn = c := by
  obtain ⟨-, hno⟩ := ht.resumed hloop hlive c k p
  obtain ⟨v, hv, rfl⟩ := Option.map_eq_some_iff.1 hinst
  obtain ⟨hq, hveq, -, -⟩ := deferred_cases hv
  have hdrove := drove_driveTurn (v.spawnTasks c dec tail) .other
  have hgen : v.generation = w.generation + 1 := by rw [hveq]; rfl
  have hreaders : v.readers = w.readers := by rw [hveq]; rfl
  have hloops : ((v.spawnTasks c dec tail).driveTurn .other).loops =
      ((w.takeInbox c k).resumed i loop c p).loops := by
    rw [hdrove.only]
    show v.loops = _
    rw [hveq]
    rfl
  have hgen' : ((v.spawnTasks c dec tail).driveTurn .other).generation = w.generation + 1 := by
    rw [hdrove.only]
    exact hgen
  have hresuming : ((v.spawnTasks c dec tail).driveTurn .other).resuming = false := by
    rw [hdrove.only]
    show v.resuming = false
    rw [hveq]
    rfl
  have hflags : ((v.spawnTasks c dec tail).driveTurn .other).stalled = w.stalled := by
    rw [hdrove.only]
    show v.stalled = w.stalled
    rw [hveq]
    rfl
  -- nothing was stalled, because the resume was in flight
  have hstalled : w.stalled = false := by
    obtain ⟨hd, hdn, -⟩ := abandoned_eq_false.1 hgoing
    by_contra hs
    obtain ⟨hidle, -⟩ := h.stalled hd hdn (by simpa using hs)
    rw [ht.live hloop hlive] at hidle
    cases hidle
  refine ⟨⟨fun hl hpc => ?_, fun _ _ hres => ?_, fun _ _ hs => ?_, fun _ _ {r} hr hpc => ?_, nofun⟩,
    hgen', ?_⟩
  · rw [hloops] at hl
    exact absurd (hno _ _ hl) hpc
  · cases hresuming.symm.trans hres
  · rw [hflags, hstalled] at hs
    cases hs
  · -- the new reader was just spawned
    exfalso
    rw [hgen', ← hgen] at hr
    obtain ⟨r₀, hr₀, hpc₀⟩ := (runs_driveTurn (v.spawnTasks c dec tail) .other).reader hr hpc
    have hlen : v.readers.length = v.generation := by
      rw [hreaders, hgen]
      exact ht.readers_length
    rcases Slots.getElem?_concat_eq_some.1 hr₀ with hr₀ | ⟨-, rfl⟩
    · have hlt : v.generation < v.readers.length := (List.getElem?_eq_some_iff.1 hr₀).1
      omega
    · cases hpc₀
  · rw [hdrove.only]
    show v.conn = c
    rw [hveq]
    rfl

theorem loopStep (h : w.Flight .stop) (ht : w.Tasks) {l : Label} {i : ℕ} {loop : Loop}
    (hloop : w.loops[i]? = some loop) (hlive : loop.pc ≠ .done)
    (hl : LoopStep w l.act i loop w' n) :
    w'.Flight n ∧ (w'.generation = w.generation ∨
      (n = .stop ∧ w'.generation = w.generation + 1 ∧ w.installs l = some w'.conn)) := by
  cases hl with
  | letGo c f n hw hc hf hread hgap hconns hpc hn hgen hover =>
    refine ⟨h.setLoop ht hloop hlive (by rw [hw]; rfl) hgen (fun hdone => ?_) fun reason heq => ?_,
      .inl (by rw [hw]; rfl)⟩
    · rcases hn with hn | ⟨-, htop⟩ | ⟨hdie, -⟩
      · exact .inl ((hover hdone).1 hn)
      · cases hdone.symm.trans htop
      · exact .inr hdie
    · rcases hn with hn | ⟨hn, -⟩ | ⟨-, hdone⟩
      · cases heq.symm.trans hn
      · cases heq.symm.trans hn
      · rw [← Bool.not_eq_true, ← hover hdone, heq]
        exact nofun
  | dialed conn hw hconn hpc hgen hover =>
    exact ⟨h.setLoop ht hloop hlive (by rw [hw]; rfl) hgen (fun hdone => .inl (hover hdone)) nofun,
      .inl (by rw [hw]; rfl)⟩
  | opened c hw hc hpc hgen =>
    exact ⟨h.setLoop ht hloop hlive (by rw [hw]; rfl) hgen (fun hdone => by simp [hpc] at hdone) nofun,
      .inl (by rw [hw]; rfl)⟩
  | helloed c hw hc hpc hgen =>
    exact ⟨h.setLoop ht hloop hlive (by rw [hw]; rfl) hgen (fun hdone => by simp [hpc] at hdone) nofun,
      .inl (by rw [hw]; rfl)⟩
  | more c k hw hc hshake hpc hgen =>
    exact ⟨h.setLoop ht hloop hlive (by rw [hw]; rfl) hgen (fun hdone => by simp [hpc] at hdone) nofun,
      .inl (by rw [hw]; rfl)⟩
  | installed c k p hc hshake htail hgoing hact hinst =>
    obtain ⟨hflight, hgen, hconn⟩ := h.installed ht hloop hlive hgoing hinst
    exact ⟨hflight, .inr ⟨rfl, hgen, hconn ▸ installs_eq hact hloop hc hshake htail hgoing⟩⟩

theorem piece (h : w.Flight .stop) (ht : w.Tasks) {l : Label}
    (hpiece : w.piece l = some (w', n)) :
    w'.Flight n ∧ (w'.generation = w.generation ∨
      (n = .stop ∧ w'.generation = w.generation + 1 ∧ w.installs l = some w'.conn)) := by
  rcases piece_cases hpiece with ⟨hact, hq, hn⟩ | ⟨g, t, hg, hw⟩ | ⟨i, loop, hloop, hlive, hl⟩ |
    ⟨-, rfl, rfl⟩
  · refine ⟨h.quiet hq (runs_piece hact hpiece) fun reason heq => ?_, .inl (by rw [hq.only])⟩
    rcases hn with hn | ⟨_, _, hn⟩ <;> cases hn.symm.trans heq
  · exact (h.writerStep hw).imp_right .inl
  · exact h.loopStep ht hloop hlive hl
  · rcases w.wake_cases with hq | ⟨-, -, -, hres, heq⟩
    · refine ⟨h.quiet hq (.inl (.of_eq (by rw [hq.only]) ?_)) nofun, .inl (by rw [hq.only])⟩
      unfold wake
      dsimp only
      split_ifs <;> rfl
    · rw [heq]
      exact ⟨addLoop (ht.noLoop hres) (by simp) rfl (fun _ _ => rfl) rfl, .inl rfl⟩

omit [Postcard] in
/-- A step that goes on with the top of a loop has neither lost a transport nor ended a loop. -/
theorem of_top {i : ℕ} (h : w.Flight (.top i)) : w.Flight .stop where
  generation := h.generation
  live hd hdn hres := (h.live hd hdn hres).imp_right fun ⟨_, hn⟩ => by cases hn
  stalled := h.stalled
  retired hd hdn _ hr hpc := (h.retired hd hdn hr hpc).imp_right fun ⟨_, hn⟩ => by cases hn
  dying := nofun

omit [Postcard] in
/-- The top of a live resume; it may end in a death. -/
theorem topStep (h : w.Flight .stop) (ht : w.Tasks) {i : ℕ} {loop : Loop}
    (hloop : w.loops[i]? = some loop) (hlive : loop.pc ≠ .done) {r : Option String}
    (htop : w.TopStep i w' r) : w'.Flight (r.elim .stop .die) ∧ w'.generation = w.generation := by
  cases htop with
  | gone hgone => cases hgone.symm.trans hloop
  | ended r hpc hold hgen hover =>
    cases hold.symm.trans hloop
    refine ⟨h.setLoop ht hloop hlive rfl hgen (fun _ => ?_) fun reason heq => ?_, rfl⟩
    · cases r with
      | none => exact .inl (hover.1 rfl)
      | some reason => exact .inr ⟨reason, rfl⟩
    · cases r with
      | none => cases heq
      | some reason => exact Bool.eq_false_iff.2 fun habandoned => by cases hover.2 habandoned
  | standDown hpc hold hgen hgoing haway =>
    refine ⟨⟨fun hl hpc' => ?_, fun _ _ hres => ?_, fun _ _ _ => ⟨rfl, haway⟩,
      fun _ _ _ _ _ => .inl (.inr rfl), nofun⟩, rfl⟩
    · rcases Slots.getElem?_set_eq_some hl with ⟨-, rfl⟩ | ⟨-, hl⟩
      · exact absurd hpc hpc'
      · exact h.generation hl hpc'
    · cases hres
  | dial hpc hold hgen hgoing =>
    cases hold.symm.trans hloop
    exact ⟨h.setLoop ht hloop hlive rfl hgen (fun hdone => by simp [hpc] at hdone) nofun, rfl⟩

omit [Postcard] in
/-- What follows a piece. -/
theorem settle (h : w.Flight n) (ht : w.Tasks) (hfits : n.Fits w) :
    (w.settle n).1.Flight ((w.settle n).2.elim .stop .die) ∧
      (w.settle n).1.generation = w.generation := by
  cases n with
  | stop => exact ⟨h, rfl⟩
  | die reason => exact ⟨h, rfl⟩
  | top i =>
    obtain ⟨loop, hloop, hlive⟩ := hfits
    exact h.of_top.topStep ht hloop hlive (w.topStep i)
  | lost g reason =>
    have hlive : w.detached = false → w.linkDown = false → w.resuming = true →
        ∃ (i : ℕ) (loop : Loop), w.loops[i]? = some loop ∧ loop.pc ≠ .done :=
      fun hd hdn hr => (h.live hd hdn hr).resolve_right fun ⟨_, hn⟩ => by cases hn
    rcases linkNext_cases ht.framed g with ⟨hnext, hover⟩ | ⟨hnext, -, -, hidle, haway⟩ |
      ⟨hnext, hcur, -, hidle, hback⟩
    · -- it was superseded, or the page detached, or a resume is in flight
      simp only [World.settle, hnext]
      refine ⟨⟨h.generation, fun hd hdn hr => .inl (hlive hd hdn hr), h.stalled,
        fun hd hdn r hr hpc => ?_, (by simp)⟩, trivial⟩
      rcases h.retired hd hdn hr hpc with hor | ⟨_, hn⟩
      · exact .inl hor
      · cases hn
        rcases hover with hstale | hleft | hres
        · simp [stale] at hstale
        · cases hd.symm.trans hleft
        · exact .inl (.inl hres)
    · simp only [World.settle, hnext]
      refine ⟨⟨h.generation, fun _ _ hr => ?_, fun _ _ _ => ⟨hidle, haway⟩,
        fun _ _ _ _ _ => .inl (.inr rfl), (by simp)⟩, trivial⟩
      cases hidle.symm.trans hr
    · simp only [World.settle, hnext]
      have hno : w.NoLoop := ht.noLoop hidle
      have hstart : (w.startLoop g).Flight .stop := by
        refine addLoop hno (by simp) (stale_eq_false.1 hcur) (fun hd hdn => ?_) rfl
        by_contra hs
        have hs' : w.stalled = true := by simpa [startLoop, closeConn, modifyConn] using hs
        cases hback.symm.trans (h.stalled hd hdn hs').2
      have hstart' : (w.startLoop g).Tasks :=
        ht.addLoop hno rfl rfl (Slots.related_modify Conn.Kin.refl fun _ _ => rfl)
      exact hstart.topStep hstart' List.getElem?_concat_length (by simp) (World.topStep _ _)

/-- **A step keeps it**, and changes the generation only when it installs a connection. -/
theorem step (h : w.Flight .stop) (ht : w.Tasks) {l : Label} (hstep : w.step l = some w') :
    w'.Flight .stop ∧ (w'.generation = w.generation ∨
      (w'.generation = w.generation + 1 ∧ w.installs l = some w'.conn)) := by
  obtain ⟨v, n, hpiece, hsettle⟩ := step_cases hstep
  obtain ⟨hv, hgen⟩ := h.piece ht hpiece
  obtain ⟨hvt, hfits⟩ := ht.piece hpiece
  obtain ⟨hs, hgen'⟩ := hv.settle hvt hfits
  have hchange : (v.settle n).1.generation = w.generation ∨
      ((v.settle n).1.generation = w.generation + 1 ∧
        w.installs l = some (v.settle n).1.conn) := by
    rw [hgen']
    rcases hgen with hsame | ⟨rfl, hnext, hinst⟩
    · exact .inl hsame
    · exact .inr ⟨hnext, hinst⟩
  rcases hsettle with ⟨hnone, rfl⟩ | ⟨reason, hreason, hdie⟩
  · rw [hnone] at hs
    exact ⟨hs, hchange⟩
  · rcases declareDead_cases hdie with ⟨hdown, rfl⟩ | ⟨-, hq, -⟩
    · refine ⟨⟨hs.generation, fun _ hdn => ?_, fun _ hdn => ?_, fun _ hdn => ?_, nofun⟩, hchange⟩
      all_goals cases hdown.symm.trans hdn
    · have hdown : w'.linkDown = true := by
        rw [hq.only]
        rfl
      refine ⟨⟨fun hl hpc => ?_, fun _ hdn => ?_, fun _ hdn => ?_, fun _ hdn => ?_, nofun⟩, ?_⟩
      · have hloops : w'.loops = (v.settle n).1.loops := by rw [hq.only]; rfl
        have hsame : w'.generation = (v.settle n).1.generation := by rw [hq.only]; rfl
        rw [hloops] at hl
        exact (hs.generation hl hpc).trans hsame.symm
      · cases hdown.symm.trans hdn
      · cases hdown.symm.trans hdn
      · cases hdown.symm.trans hdn
      · rw [hq.only]
        exact hchange

end Steps

/-- Between two steps, this is what the flags say. -/
theorem singleFlight (h : w.Flight .stop) (ht : w.Tasks) (hd : w.detached = false)
    (hdn : w.linkDown = false) : w.SingleFlight where
  resuming_iff := by
    refine ⟨fun hres => ?_, fun ⟨i, loop, hloop, hlive⟩ => ht.live hloop hlive⟩
    exact (h.live hd hdn hres).resolve_right fun ⟨_, hn⟩ => by cases hn
  alone := ht.alone
  apart := fun ⟨hres, hs⟩ => by cases hres.symm.trans (h.stalled hd hdn hs).1
  away hs := (h.stalled hd hdn hs).2
  retired hr hpc := (h.retired hd hdn hr hpc).resolve_right fun ⟨_, hn⟩ => by cases hn

end Flight

/-- A session begins without a resume, with a reader that was just spawned. -/
theorem flight_connect [Postcard] {d : Dial} (hframed : d.proto.framed = true)
    {moves : List SshCore.Action} (h : connect d moves = some w) : w.Flight .stop := by
  obtain ⟨id, dec, hello, pc, deferred, hbegin, hpc⟩ := connect_cases h
  obtain ⟨-, rfl⟩ := hpc hframed
  have hfresh : (World.fresh d id dec hello .seeded).Flight .stop := by
    refine ⟨nofun, nofun, nofun, fun _ _ _ hr hpc => ?_, nofun⟩
    obtain ⟨-, rfl⟩ := Slots.getElem?_singleton_eq_some hr
    cases hpc
  obtain ⟨v, hv, rfl⟩ := Option.map_eq_some_iff.1 hbegin
  obtain ⟨hq, hveq, -, -⟩ := deferred_cases hv
  have hrun : (World.fresh d id dec hello .seeded).Runs v :=
    .of_eq (by rw [hveq]) (by rw [hveq])
  exact hfresh.quiet (hq.trans (drove_driveTurn v .other).quiet)
    (.inl (hrun.trans (runs_driveTurn v .other))) nofun

end World

/-! ## Runs -/

/-- **The resume machine is single-flight and loses no death of a transport.** In every state of a
session with frames, unless the page detached or a death was declared, the flags say what the tasks
do; and every step from there keeps the generation, or installs the connection of the next one.

**Proof sketch.** The invariant `World.Flight` holds initially. Each piece of a step keeps it up to
the reader that goes on to `link_lost` and the loop that goes on to `declare_dead`, and what follows
makes up for these. -/
theorem single_flight [Postcard] {d : Dial} (hframed : d.proto.framed = true)
    {moves : List SshCore.Action} {w₀ w : World} (hconn : World.connect d moves = some w₀)
    {ls : List Label} (hrun : Run.run World.step w₀ ls = some w) :
    (w.detached = false → w.linkDown = false → w.SingleFlight) ∧
    ∀ (l : Label) (w' : World), w.step l = some w' → w'.generation = w.generation ∨
      (w'.generation = w.generation + 1 ∧ w.installs l = some w'.conn) := by
  obtain ⟨ht, hf⟩ : w.Tasks ∧ w.Flight .stop :=
    Run.run_inv_of_step (P := fun w => w.Tasks ∧ w.Flight .stop)
      (fun _ _ _ h hstep => ⟨h.1.step hstep, (h.2.step h.1 hstep).1⟩)
      ⟨World.tasks_connect hframed hconn, World.flight_connect hframed hconn⟩ hrun
  exact ⟨hf.singleFlight ht, fun l w' hstep => (hf.step ht hstep).2⟩

/-- The transport ends while the page is away; the page is back, and goes away again before the
resume is polled. -/
def returnsTwice : List Label :=
  [⟨.suspend, [], []⟩] ++ [⟨.pollReader 0, [], []⟩] ++ transportEnds ++
    [⟨.wake, [], []⟩, ⟨.suspend, [], []⟩, ⟨.pollLoop 0, [], []⟩]

/-- A resume that stands down leaves the session stalled: the run to which `single_flight` is
applied. -/
theorem single_flight_stands_down :
    ∃ w₀ w, @World.connect Postcard.golden sampleDial [] = some w₀ ∧
      @Run.run _ _ (@World.step Postcard.golden) w₀ returnsTwice = some w ∧
      w.SingleFlight ∧ w.stalled = true ∧ w.loops.length = 1 :=
  ⟨_, _, rfl, rfl, (@single_flight Postcard.golden sampleDial rfl [] _ _ rfl returnsTwice rfl).1
    rfl rfl, rfl, rfl⟩

end Client
