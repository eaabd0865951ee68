import Wosh.Client.Cases

set_option relaxedAutoImplicit false
set_option autoImplicit false

/-!
# Wakeups of the writers

Every writer of a session waits on the same signal. `Signal` keeps a notification in one sticky flag
until a wait takes it, and does not ask who waits: after a resume, a writer that was superseded
while it waited is still there, takes the flag as the new one would, and retires.

## Main definitions

* `Client.World.Awake` — what is queued for a session in order does not wait for a writer that
  nothing will wake.
* `Client.sparesNotice` — no superseded writer takes the flag from the current one.
* `Client.World.Noticed` — the invariant.

## Main results

* `Client.writer_awake` — along the condition, the session is awake in every state.
* `Client.not_alwaysAwake` — after a resume in which the superseded writer is polled first, it is not.
-/

namespace Client

open Tunnel

namespace World

/-- The session is in order, and what is queued does not wait for a writer that nothing will wake:
when the current writer is suspended in its wait, the signal is dirty, or its waker was woken since
it registered. -/
def Awake (w : World) : Prop :=
  w.outbox ≠ [] → w.resuming = false → w.stalled = false → w.detached = false →
    w.linkDown = false → ∀ t : Writer, w.writers[w.generation]? = some t → t.pc = .parked →
      w.writerSignal.dirty = true ∨ w.generation ∈ w.writerSignal.woken

/-- Something is queued, and the current writer comes to its wait without looking at it. -/
def owes (w : World) : Bool :=
  decide (w.outbox ≠ []) && (w.writers[w.generation]?).any fun t => t.pc.idle

/-- The current writer finds the signal dirty when something is queued for it. -/
def Noticed (w : World) : Prop := w.owes = true → w.writerSignal.dirty = true

end World

/-- The step does not make a superseded writer take the flag that the current one needs. -/
def sparesNotice (w : World) (l : Label) : Bool :=
  match l.act with
  | .pollWriter g =>
    !(w.stale g && (w.writers[g]?).any (fun t => t.pc.listening) && w.writerSignal.dirty && w.owes)
  | _ => true

namespace World

variable {w w' : World}

theorem owes_iff : w.owes = true ↔
    w.outbox ≠ [] ∧ ∃ t, w.writers[w.generation]? = some t ∧ t.pc.idle = true := by
  simp [owes, Option.any_eq_true]

namespace Noticed

/-- The writers, the outbox and the signal are left alone. -/
theorem keep (h : w.Noticed) (hw : w' = { w with
      conns := w'.conns, replay := w'.replay, loops := w'.loops, hellos := w'.hellos
      dials := w'.dials, resuming := w'.resuming, stalled := w'.stalled
      suspended := w'.suspended, linkDown := w'.linkDown, closeKind := w'.closeKind
      closedByWire := w'.closedByWire }) : w'.Noticed := by
  rw [hw]
  exact h

theorem of_dirty (h : w.writerSignal.dirty = true) : w.Noticed := fun _ => h

/-- Whatever rings, with the writers where they are. -/
theorem rings (h : w.Noticed) (hwriters : w'.writers = w.writers)
    (hgen : w'.generation = w.generation) (hr : w.Rings w') : w'.Noticed := by
  rcases hr with ⟨hs, ho⟩ | hdirty
  · intro howes
    rw [owes, ho, hwriters, hgen] at howes
    rw [hs]
    exact h howes
  · exact of_dirty hdirty

theorem quiet (h : w.Noticed) (hq : w.Quiet w') : w'.Noticed :=
  h.rings (by rw [hq.only]) (by rw [hq.only]) hq.rings

theorem drove (h : w.Noticed) (hd : w.Drove w') : w'.Noticed := h.quiet hd.quiet

section Steps

variable [Postcard]

omit [Postcard] in
/-- One writer moves; the current one, if it is another, is where it was. -/
theorem current_modify {g : ℕ} {pc : WriterPc} {t' : Writer}
    (ht' : (w.writers.modify g fun t => { t with pc := pc })[w.generation]? = some t') :
    (w.generation = g ∧ t'.pc = pc) ∨ (w.generation ≠ g ∧ w.writers[w.generation]? = some t') := by
  obtain ⟨t, ht, rfl⟩ := Slots.getElem?_modify_eq_some.1 ht'
  by_cases hg : g = w.generation
  · exact .inl ⟨hg.symm, by rw [if_pos hg]⟩
  · exact .inr ⟨fun heq => hg heq.symm, by rw [if_neg hg]; exact ht⟩

theorem writerStep (h : w.Noticed) {l : Label} {g : ℕ} {t : Writer} {n : Next}
    (hspare : sparesNotice w l = true) (hg : w.writers[g]? = some t)
    (hw : WriterStep w l.act g t w' n) : w'.Noticed := by
  intro howes
  obtain ⟨hout, t', ht', hidle⟩ := owes_iff.1 howes
  cases hw with
  | parked hpc hdirty =>
    -- it had to be woken before it parked
    exfalso
    have howed : w.owes = true := by
      refine owes_iff.2 ⟨hout, ?_⟩
      rcases current_modify ht' with ⟨hcur, -⟩ | ⟨-, ht'⟩
      · refine ⟨t, hcur ▸ hg, ?_⟩
        cases hpc' : t.pc <;> simp [hpc', WriterPc.listening] at hpc <;> rfl
      · exact ⟨t', ht', hidle⟩
    rw [h howed] at hdirty
    cases hdirty
  | done n hn hsignal =>
    rcases current_modify ht' with ⟨-, hpc⟩ | ⟨-, ht'⟩
    · rw [hpc] at hidle
      cases hidle
    · have howed : w.owes = true := owes_iff.2 ⟨hout, t', ht', hidle⟩
      rcases hsignal with rfl | ⟨hact, hpc, hdirty, hstale⟩
      · exact h howed
      · -- a superseded writer takes the flag
        obtain ⟨act, moves, dying⟩ := l
        obtain rfl : act = .pollWriter g := hact
        simp [sparesNotice, hstale, hg, hpc, hdirty, howed] at hspare
  | pieces fs hlive hidle' hdata =>
    refine h (owes_iff.2 ⟨hout, ?_⟩)
    rcases current_modify ht' with ⟨hcur, hpc⟩ | ⟨-, ht'⟩
    · exact ⟨t, hcur ▸ hg, hidle' (hpc ▸ hidle)⟩
    · exact ⟨t', ht', hidle⟩
  | round hcur hlive hpend hb =>
    obtain ⟨fs, pc, hws, -, -, hempty, -⟩ := hb.wire
    have hgen : w'.generation = w.generation := by rw [hb.only]
    rw [hws, hgen] at ht'
    rcases current_modify ht' with ⟨-, hpc⟩ | ⟨hne, -⟩
    · exact absurd (hempty (hpc ▸ hidle)) hout
    · exact absurd (by simpa [stale] using hcur) hne

theorem loopStep (h : w.Noticed) {a : Action} {i : ℕ} {loop : Loop} {n : Next}
    (hl : LoopStep w a i loop w' n) : w'.Noticed := by
  cases hl with
  | letGo c f n hw hc hf hread hgap hconns hpc hn hgen hover => exact h.keep (by rw [hw]; rfl)
  | dialed conn hw hconn hpc hgen hover => exact h.keep (by rw [hw]; rfl)
  | opened c hw hc hpc hgen => exact h.keep (by rw [hw]; rfl)
  | helloed c hw hc hpc hgen => exact h.keep (by rw [hw]; rfl)
  | more c k hw hc hshake hpc hgen => exact h.keep (by rw [hw]; rfl)
  | installed c k p hc hshake htail hlive hact hinst =>
    obtain ⟨v, -, -, -, -, hdrove⟩ := install_cases hinst
    refine drove ?_ hdrove
    exact of_dirty rfl

theorem piece (h : w.Noticed) {l : Label} {n : Next} (hspare : sparesNotice w l = true)
    (hpiece : w.piece l = some (w', n)) : w'.Noticed := by
  rcases piece_cases hpiece with ⟨-, hq, -⟩ | ⟨g, t, hg, hw⟩ | ⟨i, loop, hloop, hlive, hl⟩ |
    ⟨-, rfl, -⟩
  · exact h.quiet hq
  · exact h.writerStep hspare hg hw
  · exact h.loopStep hl
  · rcases w.wake_cases with hq | ⟨-, -, -, -, heq⟩
    · exact h.quiet hq
    · rw [heq]
      exact h

omit [Postcard] in
theorem settle (h : w.Noticed) (n : Next) : (w.settle n).1.Noticed := by
  refine settle_rule (P := World.Noticed) h n h (fun _ => h) fun hv ht => ?_
  cases ht <;> exact hv

theorem step (h : w.Noticed) {l : Label} (hspare : sparesNotice w l = true)
    (hstep : w.step l = some w') : w'.Noticed := by
  obtain ⟨v, n, hpiece, hsettle⟩ := step_cases hstep
  have hs := (h.piece hspare hpiece).settle n
  rcases hsettle with ⟨-, rfl⟩ | ⟨reason, -, hdie⟩
  · exact hs
  · rcases declareDead_cases hdie with ⟨-, rfl⟩ | ⟨-, hq, -⟩
    · exact hs
    · have hmark : (v.settle n).1.markDead.Noticed := hs
      exact hmark.quiet hq

end Steps

/-- A session that is noticed is awake. -/
theorem awake (h : w.Noticed) : w.Awake := by
  intro hout _ _ _ _ t ht hpc
  exact .inl (h (owes_iff.2 ⟨hout, t, ht, by rw [hpc]; rfl⟩))

end Noticed

/-- A session begins with nothing queued but what its `drive` announces. -/
theorem noticed_connect [Postcard] {d : Dial} {moves : List SshCore.Action}
    (h : connect d moves = some w) : w.Noticed := by
  obtain ⟨id, dec, hello, pc, deferred, hbegin, -⟩ := connect_cases h
  have hfresh : (fresh d id dec hello pc).Noticed := nofun
  exact hfresh.quiet (quiet_begin hbegin)

end World

/-! ## Runs -/

/-- **No notification is lost** as long as no superseded writer takes the flag from the current
one: in every state of every run, queued output waits only for a writer that is about to be polled
or finds the signal dirty.

**Proof sketch.** The invariant `World.Noticed` holds in every state: what queues output makes the
signal dirty, the writer that takes the flag empties the outbox before it waits again, and a resume
leaves the signal dirty behind it. -/
theorem writer_awake [Postcard] {d : Dial} {moves : List SshCore.Action} {w₀ w : World}
    (hconn : World.connect d moves = some w₀) {ls : List Label}
    (hspare : Run.Along World.step (fun w l => sparesNotice w l = true) w₀ ls)
    (hrun : Run.run World.step w₀ ls = some w) : w.Awake :=
  (Run.run_inv (fun _ _ _ h hC hstep => h.step hC hstep) (World.noticed_connect hconn) hspare
    hrun).awake

/-- A session is awake in every state of every run, as it should be. -/
def AlwaysAwake [Postcard] : Prop :=
  ∀ (d : Dial) (moves : List SshCore.Action) (w₀ w : World) (ls : List Label),
    World.connect d moves = some w₀ → Run.run World.step w₀ ls = some w → w.Awake

/-- The first writer waits, and the transport ends. -/
def waitsThenLost : List Label :=
  [⟨.pollReader 0, [], []⟩, ⟨.pollWriter 0, [], []⟩, ⟨.pollWriter 0, [], []⟩,
    ⟨.readEnd 0 none, [], []⟩]

/-- The session is resumed; the core takes these steps while its new connection is installed. -/
def installs (moves : List SshCore.Action) : List Label :=
  [⟨.dialed 0 true, [], []⟩, ⟨.opened 0 true, [], []⟩, ⟨.helloed 0 true, [], []⟩,
    ⟨.arrive 1 (@encodeReply Postcard.golden (.resumed 0)), [], []⟩, ⟨.loopRead 0 64, moves, []⟩]

/-- The writers are polled, the superseded one first. -/
def pollsWriters : List Label :=
  [⟨.pollWriter 0, [], []⟩, ⟨.pollWriter 1, [], []⟩, ⟨.pollWriter 1, [], []⟩]

/-- The superseded writer takes the flag, and what the core produced waits for the new one. -/
theorem not_alwaysAwake : ¬ @AlwaysAwake Postcard.golden := by
  intro h
  have hrun : ∃ w₀ w, @World.connect Postcard.golden sampleDial [] = some w₀ ∧
      @Run.run _ _ (@World.step Postcard.golden) w₀
        (waitsThenLost ++ installs [.connWrite [9]] ++ pollsWriters) = some w ∧
      (w.outbox ≠ [] ∧ w.resuming = false ∧ w.stalled = false ∧ w.detached = false ∧
        w.linkDown = false) ∧
      w.writers[w.generation]? = some ⟨1, .parked⟩ ∧ w.writerSignal.dirty = false ∧
      w.generation ∉ w.writerSignal.woken :=
    ⟨_, _, rfl, rfl, by decide, rfl, rfl, by decide⟩
  obtain ⟨w₀, w, h₀, hw, ⟨hout, hres, hstall, hdet, hdown⟩, ht, hdirty, hwoken⟩ := hrun
  rcases h _ _ w₀ w _ h₀ hw hout hres hstall hdet hdown _ ht rfl with hd | hw
  · rw [hdirty] at hd
    cases hd
  · exact hwoken hw

/-- A superseded writer takes the flag when nothing is queued, and the new one is woken for what the
core produces after that: the run to which `writer_awake` is applied. -/
theorem writer_awake_later :
    ∃ w₀ w, @World.connect Postcard.golden sampleDial [] = some w₀ ∧
      @Run.run _ _ (@World.step Postcard.golden) w₀
        (waitsThenLost ++ installs [] ++ pollsWriters ++
          [⟨.tickCore .pump, [.connWrite [9]], []⟩]) = some w ∧
      w.Awake ∧ w.outbox = [[9]] ∧ w.writers[w.generation]? = some ⟨1, .parked⟩ :=
  ⟨_, _, rfl, rfl, @writer_awake Postcard.golden sampleDial [] _ _ rfl
    (waitsThenLost ++ installs [] ++ pollsWriters ++ [⟨.tickCore .pump, [.connWrite [9]], []⟩])
    (by decide) rfl, rfl, rfl⟩

end Client
