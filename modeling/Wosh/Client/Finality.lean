import Wosh.Client.CloseKind
import Wosh.Client.Flight

set_option relaxedAutoImplicit false
set_option autoImplicit false

/-!
# Whether a declared death is final

`declare_dead` does not bump the generation, and `link_lost` does not ask whether a death was
declared: a task of the dead generation that reports its own failure later finds no resume in
flight, and starts one, or stalls the session.

## Main definitions

* `Client.leavesDead` — no such report reaches a dead session.
* `Client.World.Final` — the invariant.

## Main results

* `Client.death_final` — along the condition, a dead session neither resumes nor stalls again; a
  step that breaks the condition makes it report one of both.
* `Client.not_alwaysFinal` — a write that fails after the death makes the session reconnect.
-/

namespace Client

open Tunnel

/-- The step does not report the loss of the transport to a session that was declared dead, unless
the task that reports it was superseded or the page has detached. -/
def leavesDead [Postcard] (w : World) (l : Label) : Bool :=
  match w.piece l with
  | some (v, .lost g _) => !v.linkDown || v.stale g || v.detached
  | _ => true

namespace World

/-- The invariant: a dead session neither resumes nor is stalled. -/
def Final (w : World) : Prop := w.linkDown = true → w.resuming = false ∧ w.stalled = false

/-- Nothing of the resume machine moved since. -/
structure Rests (w w' : World) : Prop where
  linkDown : w'.linkDown = w.linkDown
  resuming : w'.resuming = w.resuming
  stalled : w'.stalled = w.stalled
  loops : w'.loops.length = w.loops.length

variable {w w' : World}

theorem Quiet.rests (h : w.Quiet w') : w.Rests w' :=
  ⟨by rw [h.only], by rw [h.only], by rw [h.only], by rw [h.only]⟩

section Steps

variable [Postcard] {l : Label} {n : Next}

/-- The piece of a step of a dead session. -/
theorem rests_piece (ht : w.Tasks) (hdown : w.linkDown = true) (hresuming : w.resuming = false)
    (hpiece : w.piece l = some (w', n)) :
    w.Rests w' ∧ (n = .stop ∨ ∃ g reason, n = .lost g reason) := by
  rcases piece_cases hpiece with ⟨-, hq, hn⟩ | ⟨g, t, -, hw⟩ | ⟨i, loop, hloop, hlive, -⟩ |
    ⟨-, rfl, rfl⟩
  · exact ⟨hq.rests, hn⟩
  · cases hw with
    | parked => exact ⟨⟨rfl, rfl, rfl, rfl⟩, .inl rfl⟩
    | done n hn => exact ⟨⟨rfl, rfl, rfl, rfl⟩, hn.imp_right fun ⟨r, hr⟩ => ⟨g, r, hr⟩⟩
    | pieces fs => exact ⟨⟨rfl, rfl, rfl, rfl⟩, .inl rfl⟩
    | round hcur hlive hpend hb =>
      exact ⟨⟨by rw [hb.only], by rw [hb.only], by rw [hb.only], by rw [hb.only]⟩, .inl rfl⟩
  · cases hresuming.symm.trans (ht.live hloop hlive)
  · rcases w.wake_cases with hq | ⟨-, hopen, -⟩
    · exact ⟨hq.rests, .inl rfl⟩
    · cases hdown.symm.trans hopen

/-- A step of a dead session along the condition. -/
theorem rests_step (ht : w.Tasks) (hdown : w.linkDown = true) (hresuming : w.resuming = false)
    (hleaves : leavesDead w l = true) (hstep : w.step l = some w') : w.Rests w' := by
  obtain ⟨v, n, hpiece, hsettle⟩ := step_cases hstep
  obtain ⟨hrests, hn⟩ := rests_piece ht hdown hresuming hpiece
  have hsettled : v.settle n = (v, none) := by
    rcases hn with rfl | ⟨g, reason, rfl⟩
    · rfl
    · have hdown' := hrests.linkDown.trans hdown
      have hnext : v.linkNext g = .retire := by
        simp only [leavesDead, hpiece, hdown', Bool.not_true, Bool.false_or, Bool.or_eq_true]
          at hleaves
        rw [linkNext, if_pos hleaves]
      simp only [settle, hnext]
  rw [hsettled] at hsettle
  rcases hsettle with ⟨-, rfl⟩ | ⟨_, hreason, -⟩
  · exact hrests
  · cases hreason

/-- A step keeps the invariant along the condition: a death is declared when nothing is stalled. -/
theorem Final.step (h : w.Final) (hf : w.Flight .stop) (ht : w.Tasks)
    (hleaves : leavesDead w l = true) (hstep : w.step l = some w') : w'.Final := by
  intro hdown'
  by_cases hdown : w.linkDown = true
  · obtain ⟨hresuming, hstalled⟩ := h hdown
    have hrests := rests_step ht hdown hresuming hleaves hstep
    exact ⟨hrests.resuming.trans hresuming, hrests.stalled.trans hstalled⟩
  obtain ⟨v, n, hpiece, hsettle⟩ := step_cases hstep
  have halive : (v.settle n).1.linkDown = w.linkDown :=
    (advanced_settle v n).linkDown.trans (advanced_piece hpiece).linkDown
  rcases hsettle with ⟨-, rfl⟩ | ⟨reason, hreason, hdie⟩
  · exact absurd (halive ▸ hdown') hdown
  · obtain ⟨hvt, hfits⟩ := ht.piece hpiece
    obtain ⟨hs, -⟩ := (hf.piece ht hpiece).1.settle hvt hfits
    rw [hreason] at hs
    rcases declareDead_cases hdie with ⟨hdown'', -⟩ | ⟨-, hq, -⟩
    · exact absurd (halive ▸ hdown'') hdown
    · refine ⟨hq.rests.resuming.trans rfl, hq.rests.stalled.trans ?_⟩
      exact hs.dying reason rfl

/-- A step that breaks the condition makes a dead session resume or stall. -/
theorem undone_of_not_leavesDead (ht : w.Tasks) (hdown : w.linkDown = true)
    (hresuming : w.resuming = false) (hleaves : leavesDead w l = false)
    (hstep : w.step l = some w') : w'.linkState ≠ .attached := by
  obtain ⟨v, n, hpiece, hsettle⟩ := step_cases hstep
  obtain ⟨hrests, hn⟩ := rests_piece ht hdown hresuming hpiece
  rcases hn with rfl | ⟨g, reason, rfl⟩
  · simp [leavesDead, hpiece] at hleaves
  have hdown' : v.linkDown = true := hrests.linkDown.trans hdown
  have hresuming' : v.resuming = false := hrests.resuming.trans hresuming
  simp only [leavesDead, hpiece, hdown', Bool.not_true, Bool.false_or, Bool.or_eq_false_iff]
    at hleaves
  rcases linkNext_cases (ht.piece hpiece).1.framed g with ⟨-, hover⟩ | ⟨hnext, -⟩ | ⟨hnext, -⟩
  · simp [hleaves.1, hleaves.2, hresuming'] at hover
  · have hsettled : v.settle (.lost g reason) = ({ v with stalled := true }, none) := by
      simp only [settle, hnext]
    rw [hsettled] at hsettle
    rcases hsettle with ⟨-, rfl⟩ | ⟨_, hreason, -⟩
    · simp [linkState, hresuming']
    · cases hreason
  · -- the loop finds the session dead at its top, and leaves the flag behind
    have hsettled : v.settle (.lost g reason) = (v.startLoop g).settleTop v.loops.length := by
      simp only [settle, hnext]
    rw [hsettled] at hsettle
    have hgone : ∀ g', (v.startLoop g).abandoned g' = true := by
      intro g'
      simp [abandoned, startLoop, closeConn, modifyConn, hdown']
    have htop := topStep (v.startLoop g) v.loops.length
    generalize (v.startLoop g).settleTop v.loops.length = u at hsettle htop
    obtain ⟨u, r⟩ := u
    cases htop with
    | gone hnone =>
      rcases hsettle with ⟨-, rfl⟩ | ⟨_, hreason, -⟩
      · simp [linkState]
      · cases hreason
    | ended r hpc hold hgen hover =>
      rcases hsettle with ⟨-, rfl⟩ | ⟨_, hreason, -⟩
      · simp [linkState, startLoop]
      · rw [hover.2 (hgone _)] at hreason
        cases hreason
    | standDown hpc hold hgen hgoing haway => cases hgoing.symm.trans (hgone _)
    | dial hpc hold hgen hgoing => cases hgoing.symm.trans (hgone _)

end Steps

end World

/-! ## Runs -/

/-- What the claim of finality says of a state `w'` that a session reaches from `w`. -/
def World.StaysDead (w w' : World) : Prop :=
  w'.linkDown = true ∧ w'.resuming = false ∧ w'.stalled = false ∧ w'.linkState = .attached ∧
    w'.loops.length = w.loops.length

/-- **A declared death is final** as long as no task of the dead generation reports a loss: the
session neither resumes nor stalls, and no further loop is entered. A step that breaks the condition
makes the session report that it reconnects or is stalled.

**Proof sketch.** `World.Final` holds initially and along the condition. A dead session has no live
loop, so that its steps leave the resume machine alone until `link_lost` does more than retire. -/
theorem death_final [Postcard] {d : Dial} (hframed : d.proto.framed = true)
    {moves : List SshCore.Action} {w₀ w w' : World} {ls ls' : List Label}
    (hconn : World.connect d moves = some w₀) (hrun : Run.run World.step w₀ ls = some w)
    (hrun' : Run.run World.step w ls' = some w')
    (hleaves : Run.Along World.step (fun w l => leavesDead w l = true) w₀ ls)
    (hleaves' : Run.Along World.step (fun w l => leavesDead w l = true) w ls')
    (hdown : w.linkDown = true) :
    w.StaysDead w' ∧
    ∀ (l : Label) (u : World), leavesDead w' l = false → w'.step l = some u →
      u.linkState ≠ .attached := by
  have hstart : w₀.Tasks ∧ w₀.Flight .stop ∧ w₀.Final := by
    refine ⟨World.tasks_connect hframed hconn, World.flight_connect hframed hconn, fun _ => ?_⟩
    obtain ⟨id, dec, hello, pc, deferred, hbegin, -⟩ := World.connect_cases hconn
    rw [(World.quiet_begin hbegin).only]
    exact ⟨rfl, rfl⟩
  obtain ⟨ht, -, hfinal⟩ : w.Tasks ∧ w.Flight .stop ∧ w.Final :=
    Run.run_inv (P := fun v => v.Tasks ∧ v.Flight .stop ∧ v.Final)
      (fun _ _ _ h hl hs => ⟨h.1.step hs, (h.2.1.step h.1 hs).1, h.2.2.step h.2.1 h.1 hl hs⟩)
      hstart hleaves hrun
  obtain ⟨hresuming, hstalled⟩ := hfinal hdown
  have hkept : w'.Tasks ∧ w.Rests w' := by
    refine Run.run_inv (P := fun v => v.Tasks ∧ w.Rests v) ?_ ⟨ht, rfl, rfl, rfl, rfl⟩ hleaves' hrun'
    rintro u l v ⟨hu, hwu⟩ hl hstep
    have huv := World.rests_step hu (hwu.linkDown.trans hdown) (hwu.resuming.trans hresuming) hl hstep
    exact ⟨hu.step hstep, huv.linkDown.trans hwu.linkDown, huv.resuming.trans hwu.resuming,
      huv.stalled.trans hwu.stalled, huv.loops.trans hwu.loops⟩
  obtain ⟨ht', hrests⟩ := hkept
  have hdown' := hrests.linkDown.trans hdown
  have hresuming' := hrests.resuming.trans hresuming
  have hstalled' := hrests.stalled.trans hstalled
  refine ⟨⟨hdown', hresuming', hstalled', ?_, hrests.loops⟩, fun l u hl hstep =>
    World.undone_of_not_leavesDead ht' hdown' hresuming' hl hstep⟩
  simp [World.linkState, hresuming', hstalled']

/-- A declared death is final, as it should be along every run. -/
def AlwaysFinal [Postcard] : Prop :=
  ∀ (d : Dial) (moves : List SshCore.Action) (w₀ w w' : World) (ls ls' : List Label),
    d.proto.framed = true → World.connect d moves = some w₀ →
    Run.run World.step w₀ ls = some w → Run.run World.step w ls' = some w' →
    w.linkDown = true → w.StaysDead w'

/-- The first writer writes, and the transport ends before its write returns. -/
def endsWhileWriting : List Label :=
  [⟨.pollReader 0, [], []⟩, ⟨.pollWriter 0, [], []⟩, ⟨.tickCore .pump, [.connWrite [9]], []⟩,
    ⟨.pollWriter 0, [], []⟩] ++ transportEnds

/-- The listener answers the resume with another session. -/
def refuses : List Label :=
  [⟨.dialed 0 true, [], []⟩, ⟨.opened 0 true, [], []⟩, ⟨.helloed 0 true, [], []⟩,
    ⟨.arrive 1 (@encodeReply Postcard.golden (.new ⟨List.replicate 16 8, rfl⟩)), [], []⟩,
    ⟨.loopRead 0 64, [], []⟩]

/-- The write fails. -/
def failsWrite : List Label := [⟨.wrote 0 false, [], []⟩]

/-- A write that fails after the death makes the session report that it reconnects. -/
theorem not_alwaysFinal : ¬ @AlwaysFinal Postcard.golden := by
  intro h
  have hrun : ∃ w₀ w w', @World.connect Postcard.golden sampleDial [] = some w₀ ∧
      @Run.run _ _ (@World.step Postcard.golden) w₀ (endsWhileWriting ++ refuses) = some w ∧
      @Run.run _ _ (@World.step Postcard.golden) w failsWrite = some w' ∧
      w.linkDown = true ∧ w'.linkState = .reconnecting :=
    ⟨_, _, _, rfl, rfl, rfl, rfl, rfl⟩
  obtain ⟨w₀, w, w', h₀, hw, hw', hdown, hlink⟩ := hrun
  have hattached := (h _ _ w₀ w w' _ _ rfl h₀ hw hw' hdown).2.2.2.1
  cases hlink.symm.trans hattached

/-- A session whose write fails before the death: the run to which `death_final` is applied. -/
theorem death_final_refused :
    ∃ w₀ w w', @World.connect Postcard.golden sampleDial [] = some w₀ ∧
      @Run.run _ _ (@World.step Postcard.golden) w₀
        (endsWhileWriting ++ failsWrite ++ refuses) = some w ∧
      @Run.run _ _ (@World.step Postcard.golden) w
        [⟨.suspend, [], []⟩, ⟨.wake, [], []⟩] = some w' ∧
      w.StaysDead w' :=
  ⟨_, _, _, rfl, rfl, rfl, (@death_final Postcard.golden sampleDial rfl [] _ _ _
    (endsWhileWriting ++ failsWrite ++ refuses) [⟨.suspend, [], []⟩, ⟨.wake, [], []⟩] rfl rfl rfl
    (by decide) (by decide) rfl).1⟩

end Client
