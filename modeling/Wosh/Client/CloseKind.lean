import Wosh.Client.Cases

set_option relaxedAutoImplicit false
set_option autoImplicit false

/-!
# Why a session ended

`close_kind` is put together from a latch that `drive` sets when it polls the core at `ready`, a
field that a death writes, and the core's status. It is meant to be final, and to tell a session
that failed, one that ended and one that was lost.

## Main definitions

* `Client.World.kind` — what `close_kind` is meant to answer, in terms of the core's history.
* `Client.latched`, `Client.diesOpen` — the two conditions on a step.
* `Client.World.Classified` — the invariant.

## Main results

* `Client.closeKindOf_run` — along steps that meet both conditions, `close_kind` answers as it is
  meant to, and never changes its answer.
* `Client.not_closeKindFinal` — a run in which the end of the transport after a shell's exit turns
  `ended` into `lost`.
-/

namespace Client

open Tunnel

/-! ## Definitions -/

namespace World

/-- What `close_kind` is meant to answer: the session failed if the core was never ready, it was lost
if the core was closed by a death, and it ended if the core was closed otherwise. -/
def kind (w : World) : Option CloseKind :=
  if w.core.closed = false then none
  else if w.core.everReady = false then some .failed
  else if w.closedByWire then some .lost
  else some .ended

/-- A closed core that has been ready was latched as ready. -/
def latchedBy (w w' : World) : Bool := !w'.core.closed || !w'.core.everReady || w.wasReady

end World

section Conditions

variable [Postcard]

/-- If the step closes a core that has been ready, `ready` was latched before the step. -/
def latched (w : World) (l : Label) : Bool :=
  w.core.closed || (w.step l).elim true w.latchedBy

/-- If the step declares the session dead, the core was still open, or has never been ready. -/
def diesOpen (w : World) (l : Label) : Bool :=
  match w.piece l with
  | none => true
  | some (v, n) =>
    match v.settle n with
    | (_, none) => true
    | (v, some _) => v.linkDown || !v.core.closed || !v.core.everReady

end Conditions

namespace World

variable {w w' w'' : World}

/-- The invariant: an open session has no kind, and a closed one was either declared dead or latched
what its core has been. -/
structure Classified (w : World) : Prop where
  sound : w.wasReady = true → w.core.everReady = true
  /-- A session that was not declared dead. -/
  alive : w.linkDown = false → w.closeKind = none ∧ w.closedByWire = false ∧
    (w.core.closed = true → w.wasReady = w.core.everReady)
  /-- One that was. -/
  dead : w.linkDown = true → w.core.closed = true ∧ w.closeKind = w.kind

/-! ## How the classification moves -/

/-- A change at which no death is declared: the core moves on, and the latch is set at most while it
is open and once it has been ready. -/
structure Advanced (w w' : World) : Prop where
  core : w.core.Onward w'.core
  closeKind : w'.closeKind = w.closeKind
  linkDown : w'.linkDown = w.linkDown
  closedByWire : w'.closedByWire = w.closedByWire
  latch : w.wasReady = true → w'.wasReady = true
  latched : w'.wasReady = true →
    w.wasReady = true ∨ (w.core.engine.state ≠ .closed ∧ w'.core.everReady = true)

/-- A change that leaves the core and the latch alone. -/
theorem Advanced.of_eq (hcore : w'.core = w.core) (hkind : w'.closeKind = w.closeKind)
    (hdown : w'.linkDown = w.linkDown) (hwire : w'.closedByWire = w.closedByWire)
    (hready : w'.wasReady = w.wasReady) : w.Advanced w' where
  core := by
    rw [hcore]
    exact .refl _
  closeKind := hkind
  linkDown := hdown
  closedByWire := hwire
  latch h := hready.trans h
  latched h := .inl (hready.symm.trans h)

theorem Advanced.trans (h : w.Advanced w') (h' : w'.Advanced w'') : w.Advanced w'' where
  core := h.core.trans h'.core
  closeKind := h'.closeKind.trans h.closeKind
  linkDown := h'.linkDown.trans h.linkDown
  closedByWire := h'.closedByWire.trans h.closedByWire
  latch hr := h'.latch (h.latch hr)
  latched hr := by
    rcases h'.latched hr with hr' | ⟨hopen, hever⟩
    · rcases h.latched hr' with hr | ⟨hopen, hever⟩
      · exact .inl hr
      · exact .inr ⟨hopen, h'.core.everReady hever⟩
    · exact .inr ⟨fun hc => hopen (h.core.closed hc).1, hever⟩

theorem Quiet.advanced (h : w.Quiet w') : w.Advanced w' where
  core := h.core
  closeKind := by rw [h.only]
  linkDown := by rw [h.only]
  closedByWire := by rw [h.only]
  latch := h.latch
  latched := h.latched

theorem advanced_install {c : ℕ} {dec tail : Bytes} {deferred : List Bytes}
    {moves : List SshCore.Action} (h : w.install c dec deferred tail moves = some w') :
    w.Advanced w' := by
  obtain ⟨v, hq, -, -, -, hdrove⟩ := install_cases h
  have hadopt : w.Advanced (w.adopt c) := .of_eq rfl rfl rfl rfl rfl
  have hspawn : v.Advanced (v.spawnTasks c dec tail) := .of_eq rfl rfl rfl rfl rfl
  exact (hadopt.trans hq.advanced).trans (hspawn.trans hdrove.quiet.advanced)

/-- Every piece of a step advances. -/
theorem advanced_piece [Postcard] {l : Label} {n : Next} (h : w.piece l = some (w', n)) : w.Advanced w' := by
  rcases piece_cases h with ⟨-, hq, -⟩ | ⟨g, t, -, hw⟩ | ⟨i, loop, -, -, hl⟩ | ⟨-, rfl, -⟩
  · exact hq.advanced
  · cases hw with
    | parked => exact .of_eq rfl rfl rfl rfl rfl
    | done => exact .of_eq rfl rfl rfl rfl rfl
    | pieces => exact .of_eq rfl rfl rfl rfl rfl
    | round hcur hlive hpend hb =>
      exact .of_eq (by rw [hb.only]) (by rw [hb.only]) (by rw [hb.only]) (by rw [hb.only])
        (by rw [hb.only])
  · cases hl with
    | letGo c f n hw => subst hw; exact .of_eq rfl rfl rfl rfl rfl
    | dialed conn hw => subst hw; exact .of_eq rfl rfl rfl rfl rfl
    | opened c hw => subst hw; exact .of_eq rfl rfl rfl rfl rfl
    | helloed c hw => subst hw; exact .of_eq rfl rfl rfl rfl rfl
    | more c k hw => subst hw; exact .of_eq rfl rfl rfl rfl rfl
    | installed c k p hc hshake htail hlive hact hinst =>
      have hresumed : w.Advanced ((w.takeInbox c k).resumed i loop c p.toNat) :=
        .of_eq rfl rfl rfl rfl rfl
      exact hresumed.trans (advanced_install hinst)
  · rcases w.wake_cases with hq | ⟨-, -, -, -, heq⟩
    · exact hq.advanced
    · rw [heq]
      exact .of_eq rfl rfl rfl rfl rfl

theorem advanced_settle (w : World) (n : Next) : w.Advanced (w.settle n).1 := by
  have hsame : w.Advanced w := .of_eq rfl rfl rfl rfl rfl
  refine settle_rule (P := w.Advanced) hsame n (.of_eq rfl rfl rfl rfl rfl)
    (fun _ => .of_eq rfl rfl rfl rfl rfl) fun hv ht => hv.trans ?_
  cases ht <;> exact .of_eq rfl rfl rfl rfl rfl

/-- The second condition, at a step that declares the session dead. -/
theorem diesOpen_iff [Postcard] {v : World} {n : Next} {l : Label} {reason : String}
    (hpiece : w.piece l = some (v, n)) (hreason : (v.settle n).2 = some reason)
    (hdown : (v.settle n).1.linkDown = false) :
    diesOpen w l = true ↔
      ((v.settle n).1.core.closed = false ∨ (v.settle n).1.core.everReady = false) := by
  have heq : v.settle n = ((v.settle n).1, some reason) := by rw [← hreason]
  unfold diesOpen
  rw [hpiece]
  dsimp only
  rw [heq]
  simp [hdown]

/-! ## The invariant -/

namespace Classified

/-- A closed session keeps what it is. -/
theorem kind_advance (hc : w.core.closed = true) (ha : w.Advanced w') : w'.kind = w.kind := by
  obtain ⟨hc', hever⟩ := ha.core.closed (Core.closed_iff.1 hc)
  simp only [kind, hc, Core.closed_iff.2 hc', hever, ha.closedByWire]

/-- A step without a death. -/
theorem advance (h : w.Classified) (ha : w.Advanced w')
    (hlatch : w.core.closed = true ∨ w.latchedBy w' = true) : w'.Classified where
  sound hr := by
    rcases ha.latched hr with hr' | ⟨-, hever⟩
    · exact ha.core.everReady (h.sound hr')
    · exact hever
  alive hdown := by
    obtain ⟨hkind, hwire, hready⟩ := h.alive (ha.linkDown.symm.trans hdown)
    refine ⟨ha.closeKind.trans hkind, ha.closedByWire.trans hwire, fun hc' => ?_⟩
    by_cases hc : w.core.closed = true
    · -- closed before: neither the latch nor the history changes any more
      obtain ⟨-, hever⟩ := ha.core.closed (Core.closed_iff.1 hc)
      rw [hever, ← hready hc]
      cases hr' : w'.wasReady with
      | true =>
        rcases ha.latched hr' with hr | ⟨hopen, -⟩
        · exact hr.symm
        · exact absurd (Core.closed_iff.1 hc) hopen
      | false =>
        cases hr : w.wasReady with
        | true => exact absurd (ha.latch hr) (by simp [hr'])
        | false => rfl
    · cases hever : w'.core.everReady with
      | true =>
        have hby := hlatch.resolve_left hc
        simp only [latchedBy, hc', hever, Bool.not_true, Bool.false_or] at hby
        exact ha.latch hby
      | false =>
        cases hr' : w'.wasReady with
        | true =>
          rcases ha.latched hr' with hr | ⟨-, hever'⟩
          · exact absurd (ha.core.everReady (h.sound hr)) (by simp [hever])
          · exact absurd hever' (by simp [hever])
        | false => rfl
  dead hdown := by
    obtain ⟨hc, hkind⟩ := h.dead (ha.linkDown.symm.trans hdown)
    exact ⟨Core.closed_iff.2 (ha.core.closed (Core.closed_iff.1 hc)).1,
      by rw [ha.closeKind, hkind, kind_advance hc ha]⟩

/-- A death is declared while the core is open, or has never been ready; `w` is the session before
the step, and `v` when the death is declared. -/
theorem die {v : World} (h : w.Classified) (ha : w.Advanced v) (hq : v.markDead.Quiet w')
    (hclosed : w'.core.engine.state = .closed)
    (hlatch : w.core.closed = true ∨ w.latchedBy w' = true)
    (hopen : v.core.closed = false ∨ v.core.everReady = false) : w'.Classified := by
  have hsound : v.wasReady = true → v.core.everReady = true := fun hr => by
    rcases ha.latched hr with hr' | ⟨-, hever⟩
    · exact ha.core.everReady (h.sound hr')
    · exact hever
  have hdown : w'.linkDown = true := by rw [hq.only]; rfl
  have hkind : w'.closeKind = some (if v.wasReady then .lost else .failed) := by rw [hq.only]; rfl
  have hwire : w'.closedByWire = !v.core.closed := by rw [hq.only]; rfl
  have hc' : w'.core.closed = true := Core.closed_iff.2 hclosed
  have hnotReady : v.core.everReady = false → v.wasReady = false := fun hever => by
    cases hr : v.wasReady with
    | true => exact absurd (hsound hr) (by simp [hever])
    | false => rfl
  refine ⟨fun hr => ?_, fun hup => by simp [hdown] at hup, fun _ => ⟨hc', ?_⟩⟩
  · rcases hq.latched hr with hr' | ⟨-, hever⟩
    · exact hq.core.everReady (hsound hr')
    · exact hever
  cases hvc : v.core.closed with
  | true =>
    -- it was closed already, and has never been ready
    have hvever := hopen.resolve_left (by simp [hvc])
    have hever : w'.core.everReady = false :=
      (hq.core.closed (Core.closed_iff.1 hvc)).2.trans hvever
    simp [hkind, kind, hc', hever, hnotReady hvever]
  | false =>
    have hwc : w.core.closed ≠ true := fun hc =>
      absurd (Core.closed_iff.2 (ha.core.closed (Core.closed_iff.1 hc)).1) (by simp [hvc])
    cases hever : w'.core.everReady with
    | true =>
      have hby := hlatch.resolve_left hwc
      simp only [latchedBy, hc', hever, Bool.not_true, Bool.false_or] at hby
      simp [hkind, kind, hc', hever, hwire, hvc, ha.latch hby]
    | false =>
      have hvever : v.core.everReady = false := by
        cases hv : v.core.everReady with
        | true => exact absurd (hq.core.everReady hv) (by simp [hever])
        | false => rfl
      simp [hkind, kind, hc', hever, hnotReady hvever]

/-- **A step that meets both conditions keeps the classification.** -/
theorem step [Postcard] (h : w.Classified) {l : Label} (hlatch : latched w l = true)
    (hopen : diesOpen w l = true) (hstep : w.step l = some w') : w'.Classified := by
  have hlatch' : w.core.closed = true ∨ w.latchedBy w' = true := by
    simpa [Client.latched, hstep] using hlatch
  obtain ⟨v, n, hpiece, hsettle⟩ := step_cases hstep
  have ha : w.Advanced (v.settle n).1 := (advanced_piece hpiece).trans (v.advanced_settle n)
  rcases hsettle with ⟨-, rfl⟩ | ⟨reason, hreason, hdie⟩
  · exact h.advance ha hlatch'
  · rcases declareDead_cases hdie with ⟨-, rfl⟩ | ⟨hdown, hq, hclosed⟩
    · exact h.advance ha hlatch'
    · exact h.die ha hq hclosed hlatch' ((diesOpen_iff hpiece hreason hdown).1 hopen)

end Classified

/-- A classified session answers as it is meant to. -/
theorem Classified.closeKindOf_eq (h : w.Classified) : w.closeKindOf = w.kind := by
  cases hdown : w.linkDown with
  | true =>
    obtain ⟨hc, hkind⟩ := h.dead hdown
    have hsome : ∃ k, w.kind = some k := by
      simp only [kind, hc, Bool.true_eq_false, if_false]
      split_ifs <;> exact ⟨_, rfl⟩
    obtain ⟨k, hk⟩ := hsome
    simp [closeKindOf, hkind, hk]
  | false =>
    obtain ⟨hnone, hwire, hready⟩ := h.alive hdown
    cases hc : w.core.closed with
    | true =>
      rw [closeKindOf, hnone]
      simp only [hc, if_true, kind, Bool.true_eq_false, if_false, hwire, hready hc,
        Bool.false_eq_true]
      cases w.core.everReady <;> rfl
    | false => simp [closeKindOf, hnone, hdown, kind, hc]

/-- Once the core is closed, a step that meets the second condition does not change the kind. -/
theorem kind_step [Postcard] (hc : w.core.closed = true) {l : Label}
    (hopen : diesOpen w l = true) (hstep : w.step l = some w') :
    w'.core.closed = true ∧ w'.kind = w.kind := by
  obtain ⟨v, n, hpiece, hsettle⟩ := step_cases hstep
  have ha : w.Advanced (v.settle n).1 := (advanced_piece hpiece).trans (v.advanced_settle n)
  obtain ⟨hvc, hvever⟩ := ha.core.closed (Core.closed_iff.1 hc)
  rcases hsettle with ⟨-, rfl⟩ | ⟨reason, hreason, hdie⟩
  · exact ⟨Core.closed_iff.2 hvc, Classified.kind_advance hc ha⟩
  · rcases declareDead_cases hdie with ⟨-, rfl⟩ | ⟨hdown, hq, hclosed⟩
    · exact ⟨Core.closed_iff.2 hvc, Classified.kind_advance hc ha⟩
    · have hnever : (v.settle n).1.core.everReady = false :=
        ((diesOpen_iff hpiece hreason hdown).1 hopen).resolve_left
          (by simp [Core.closed_iff.2 hvc])
      have hc' : w'.core.closed = true := Core.closed_iff.2 hclosed
      have hever' : w'.core.everReady = false := (hq.core.closed hvc).2.trans hnever
      exact ⟨hc', by simp [kind, hc', hever', hc, hvever.symm.trans hnever]⟩

end World

/-! ## Runs -/

/-- A session is classified when it is connected, unless its core was closed since it was ready. -/
theorem classified_connect [Postcard] {d : Dial} {moves : List SshCore.Action} {w : World}
    (h : World.connect d moves = some w)
    (hlatch : w.core.closed = true → w.core.everReady = true → w.wasReady = true) :
    w.Classified := by
  obtain ⟨id, dec, hello, pc, deferred, hbegin, -⟩ := World.connect_cases h
  have hq := World.quiet_begin hbegin
  have hsound : w.wasReady = true → w.core.everReady = true := fun hr =>
    (hq.latched hr).elim (fun hfalse => by cases hfalse) And.right
  have hdown : w.linkDown = false := by rw [hq.only]; rfl
  refine ⟨hsound, fun _ => ⟨by rw [hq.only]; rfl, by rw [hq.only]; rfl, fun hc => ?_⟩,
    fun hdown' => by simp [hdown] at hdown'⟩
  cases hever : w.core.everReady with
  | true => exact hlatch hc hever
  | false =>
    cases hr : w.wasReady with
    | true => exact absurd (hsound hr) (by simp [hever])
    | false => rfl

/-- **The kind of a closed session.** Along steps that meet both conditions, `close_kind` answers that
the session failed if its core was never ready, that it was lost if a death closed the core, and
that it ended if the core was closed otherwise; and the answer is final.

**Proof sketch.** The invariant `World.Classified` holds initially and is kept by every step that
meets both conditions. Once the core is closed, nothing that the kind depends on changes. -/
theorem closeKindOf_run [Postcard] {d : Dial} {moves : List SshCore.Action} {w₀ w w' : World}
    {ls ls' : List Label} (hconn : World.connect d moves = some w₀)
    (hlatch₀ : w₀.core.closed = true → w₀.core.everReady = true → w₀.wasReady = true)
    (hrun : Run.run World.step w₀ ls = some w) (hrun' : Run.run World.step w ls' = some w')
    (hmeet : Run.Along World.step (fun w l => latched w l = true ∧ diesOpen w l = true) w₀ ls)
    (hmeet' : Run.Along World.step (fun w l => latched w l = true ∧ diesOpen w l = true) w ls') :
    w.closeKindOf = w.kind ∧ ∀ k, w.closeKindOf = some k → w'.closeKindOf = some k := by
  have hw : w.Classified :=
    Run.run_inv (fun _ _ _ h hc hstep => h.step hc.1 hc.2 hstep) (classified_connect hconn hlatch₀)
      hmeet hrun
  refine ⟨hw.closeKindOf_eq, fun k hk => ?_⟩
  have hc : w.core.closed = true := by
    rw [hw.closeKindOf_eq, World.kind] at hk
    split_ifs at hk with hopen <;> simpa using hopen
  have hkept : w'.Classified ∧ w'.core.closed = true ∧ w'.kind = w.kind := by
    refine Run.run_inv (P := fun v => v.Classified ∧ v.core.closed = true ∧ v.kind = w.kind)
      ?_ ⟨hw, hc, rfl⟩ hmeet' hrun'
    rintro u l v ⟨hu, huc, hkind⟩ ⟨hlatch, hopen⟩ hstep
    obtain ⟨hvc, hv⟩ := World.kind_step huc hopen hstep
    exact ⟨hu.step hlatch hopen hstep, hvc, hv.trans hkind⟩
  rw [hkept.1.closeKindOf_eq, hkept.2.2, ← hw.closeKindOf_eq, hk]

/-- The kind of a closed session as it should be, along every run. -/
def CloseKindFinal [Postcard] : Prop :=
  ∀ (d : Dial) (moves : List SshCore.Action) (w₀ w w' : World) (ls ls' : List Label),
    World.connect d moves = some w₀ → Run.run World.step w₀ ls = some w →
    Run.run World.step w ls' = some w' →
    w.closeKindOf = w.kind ∧ ∀ k, w.closeKindOf = some k → w'.closeKindOf = some k

/-- A listener that ends the stream after the shell's exit turns `ended` into `lost`. -/
theorem not_closeKindFinal : ¬ @CloseKindFinal Postcard.golden := by
  intro h
  have hrun : ∃ w₀ w w', @World.connect Postcard.golden { proto := .v1, usize := wasm32 } [] = some w₀ ∧
      @Run.run _ _ (@World.step Postcard.golden) w₀ (becomesReady id ++ shellExits id) = some w ∧
      @Run.run _ _ (@World.step Postcard.golden) w transportEnds = some w' ∧
      w.closeKindOf = some .ended ∧ w'.closeKindOf = some .lost :=
    ⟨_, _, _, rfl, rfl, rfl, rfl, rfl⟩
  obtain ⟨w₀, w, w', h₀, hw, hw', hended, hlost⟩ := hrun
  have hkept := (h _ _ w₀ w w' _ _ h₀ hw hw').2 .ended hended
  rw [hlost] at hkept
  cases hkept

/-- A session that is lost: the run to which `closeKindOf_run` is applied. -/
theorem closeKindOf_run_lost :
    ∃ w₀ w, @World.connect Postcard.golden { proto := .v1, usize := wasm32 } [] = some w₀ ∧
      @Run.run _ _ (@World.step Postcard.golden) w₀ (becomesReady id ++ transportEnds) = some w ∧
      w.closeKindOf = w.kind ∧ w.closeKindOf = some .lost :=
  ⟨_, _, rfl, rfl, (@closeKindOf_run Postcard.golden { proto := .v1, usize := wasm32 } [] _ _ _
    (becomesReady id ++ transportEnds) [] rfl (by decide) rfl rfl (by decide) trivial).1, rfl⟩

end Client
