import Wosh.Lib.Gate

set_option relaxedAutoImplicit false
set_option autoImplicit false

/-!
# A broker at a gate

The answers of a gate come from elsewhere. A broker takes away the request that is pending, one at a
time, and brings back what was made of it; the gate may fail meanwhile. `Broker.Spec` says what a broker
is for, and `Broker.Slot` is how one is built: the slot of a gate, and a flag.

## Main definitions

* `Broker.Event` — what happens at the gate, and with the broker.
* `Broker.Spec`, `Broker.Spec.Step` — the broker as the callers of the gate see it.
* `Broker.Slot`, `Broker.Slot.Step` — the broker as it is built.
* `Broker.Delivers` — each caller is given what was made of its own request.

## Main results

* `Broker.delivers` — the events of any run of a broker do that.
-/

namespace Broker

open Run

variable {Req Res Rep : Type*}

/-- What happens. -/
inductive Event (Req Res Rep : Type*)
  /-- What happens at the gate, but that a request is answered. -/
  | gate (e : Gate.Event Req Rep)
  /-- The request is taken away. -/
  | taken (r : Req)
  /-- What was made of it is brought back. -/
  | brought (x : Res)
deriving DecidableEq

/-- What may happen at a gate that has failed. -/
def Event.Late : Event Req Res Rep → Prop
  | gate .failed | gate .declined | gate (.returned none) => True
  | _ => False

/-! ## What a broker is for -/

/-- A gate, and the request that its broker is away with. -/
@[ext]
structure Spec (Req Rep : Type*) where
  gate : Gate.Spec Req Rep := {}
  away : Option Req := none
  /-- The broker is away with what is pending, unless the gate has failed. -/
  held : ∀ r, away = some r → gate.phase = .pending r ∨ gate.failed = true ∧ gate.phase = .idle := by simp

variable (verdict : Req → Res → Rep)

/-- One event. A request is answered with what its verdict is on what is brought for it. -/
inductive Spec.Step (s : Spec Req Rep) : Event Req Res Rep → Spec Req Rep → Prop
  | gate {s' : Spec Req Rep} (e : Gate.Event Req Rep)
      (h : Gate.Spec.Step (fun _ _ => False) s.gate e s'.gate) (haway : s'.away = s.away) :
      Step s (.gate e) s'
  | taken {s' : Spec Req Rep} (r : Req) (hpending : s.gate = ⟨.pending r, false⟩) (hhere : s.away = none)
      (hgate : s'.gate = s.gate) (haway : s'.away = some r) : Step s (.taken r) s'
  | brought {s' : Spec Req Rep} (r : Req) (x : Res) (hpending : s.gate = ⟨.pending r, false⟩)
      (haway : s.away = some r) (hgate : s'.gate = ⟨.replied r (verdict r x), false⟩)
      (hback : s'.away = none) : Step s (.brought x) s'
  /-- The gate has failed meanwhile. -/
  | late {s' : Spec Req Rep} (r : Req) (x : Res) (hfailed : s.gate.failed = true)
      (haway : s.away = some r) (hgate : s'.gate = s.gate) (hback : s'.away = none) :
      Step s (.brought x) s'

/-- A request is taken away right after it was asked; what is brought back is for what was taken away
last; and a caller that is given an answer is given the verdict on what was brought for its own request,
which nothing came between. -/
structure Delivers (log : List (Event Req Res Rep)) : Prop where
  taken : ∀ before after r, log = before ++ .taken r :: after →
    ∃ before', before = before' ++ [.gate (.asked r)]
  brought : ∀ before after x, log = before ++ .brought x :: after →
    ∃ before' r between, before = before' ++ .gate (.asked r) :: .taken r :: between ∧
      ∀ e ∈ between, e.Late
  returned : ∀ before after a, log = before ++ .gate (.returned (some a)) :: after →
    ∃ before' r x between,
      before = before' ++ .gate (.asked r) :: .taken r :: .brought x :: between ∧ a = verdict r x ∧
        (between = [] ∨ between = [.gate .failed])
  abandoned : ∀ before after, log = before ++ .gate (.returned none) :: after → .gate .failed ∈ before

/-- What the log says of where the broker stands. -/
structure Spec.Tells (s : Spec Req Rep) (log : List (Event Req Res Rep)) : Prop where
  failed : s.gate.failed = true ↔ .gate .failed ∈ log
  /-- A request that the broker has yet to take was asked last. -/
  pending : ∀ r, s.gate = ⟨.pending r, false⟩ → s.away = none →
    ∃ before, log = before ++ [.gate (.asked r)]
  away : ∀ r, s.away = some r →
    ∃ before between, log = before ++ .gate (.asked r) :: .taken r :: between ∧
      (∀ e ∈ between, e.Late) ∧ (s.gate.failed = false → between = [])
  replied : ∀ r a, s.gate.phase = .replied r a → ∃ before x between,
    log = before ++ .gate (.asked r) :: .taken r :: .brought x :: between ∧ a = verdict r x ∧
      (between = [] ∨ between = [.gate .failed]) ∧ (s.gate.failed = false → between = [])

variable {verdict}

theorem Event.late_failed : (.gate .failed : Event Req Res Rep).Late := trivial

/-- Where nobody is parked, and the broker is not away, the log tells whether the gate failed. -/
theorem Spec.tells_of_idle {s : Spec Req Rep} {log : List (Event Req Res Rep)}
    (hfailed : s.gate.failed = true ↔ .gate .failed ∈ log) (hidle : s.gate.phase = .idle)
    (hhere : s.away = none) : s.Tells verdict log where
  failed := hfailed
  pending r hr := by simp [hr] at hidle
  away r hr := by simp [hhere] at hr
  replied r a hr := by simp [hidle] at hr

/-- An event of the gate. -/
theorem Spec.Tells.gate {s s' : Spec Req Rep} {log : List (Event Req Res Rep)} {e : Gate.Event Req Rep}
    (h : s.Tells verdict log) (hgate : Gate.Spec.Step (fun _ _ => False) s.gate e s'.gate)
    (haway : s'.away = s.away) : s'.Tells verdict (log ++ [.gate e]) := by
  have hfailed := h.failed
  have hbefore := h.away
  have hreplied := h.replied
  have hheld := s.held
  generalize hg : s.gate = g, hg' : s'.gate = g' at hgate hfailed hbefore hreplied hheld
  cases hgate with
  | asked r =>
    refine ⟨by simpa [hg'] using hfailed, fun r' hr' _ => ⟨log, ?_⟩, fun r' hr' => ?_, fun r' a ha => ?_⟩
    · rw [hg'] at hr'
      cases hr'
      rfl
    · rw [haway] at hr'
      rcases hheld r' hr' with hphase | ⟨hfailed', -⟩
      · cases hphase
      · cases hfailed'
    · rw [hg'] at ha
      cases ha
  | declined f =>
    refine ⟨by simpa [hg'] using hfailed, fun r' hr' => ?_, fun r' hr' => ?_, fun r' a ha => ?_⟩
    · rw [hg'] at hr'
      cases hr'
    · rw [haway] at hr'
      obtain ⟨before, between, rfl, hlate, -⟩ := hbefore r' hr'
      refine ⟨before, between ++ [.gate .declined], by simp, fun e he => ?_, fun hf => ?_⟩
      · rcases List.mem_append.1 he with he | he
        · exact hlate e he
        · rw [List.mem_singleton.1 he]
          trivial
      · rcases hheld r' hr' with hphase | ⟨hfailed', -⟩
        · cases hphase
        · rw [hg'] at hf
          exact absurd (hfailed'.symm.trans hf) nofun
    · rw [hg'] at ha
      cases ha
  | answered r a hok => exact hok.elim
  | failed p =>
    refine ⟨by simp [hg'], fun r' hr' => ?_, fun r' hr' => ?_, fun r' a ha => ?_⟩
    · rw [hg'] at hr'
      cases hr'
    · rw [haway] at hr'
      obtain ⟨before, between, rfl, -, hnone⟩ := hbefore r' hr'
      refine ⟨before, [.gate .failed], by simp [hnone rfl], fun e he => ?_, fun hf => ?_⟩
      · rw [List.mem_singleton.1 he]
        trivial
      · rw [hg'] at hf
        cases hf
    · rw [hg'] at ha
      obtain ⟨before, x, between, rfl, hverdict, -, hnone⟩ := hreplied r' a ha
      refine ⟨before, x, [.gate .failed], by simp [hnone rfl], hverdict, .inr rfl, fun hf => ?_⟩
      rw [hg'] at hf
      cases hf
  | returned r a f =>
    refine tells_of_idle (by simpa [hg'] using hfailed) (by rw [hg']) ?_
    rw [haway]
    cases hr : s.away with
    | none => rfl
    | some r' =>
      rcases hheld r' hr with hphase | ⟨-, hphase⟩ <;> cases hphase
  | abandoned r =>
    refine ⟨by simpa [hg'] using hfailed, fun r' hr' => ?_, fun r' hr' => ?_, fun r' a ha => ?_⟩
    · rw [hg'] at hr'
      cases hr'
    · rw [haway] at hr'
      obtain ⟨before, between, rfl, hlate, -⟩ := hbefore r' hr'
      refine ⟨before, between ++ [.gate (.returned none)], by simp, fun e he => ?_, fun hf => ?_⟩
      · rcases List.mem_append.1 he with he | he
        · exact hlate e he
        · rw [List.mem_singleton.1 he]
          trivial
      · rw [hg'] at hf
        cases hf
    · rw [hg'] at ha
      cases ha

/-- One event more. -/
theorem Spec.Tells.step {s s' : Spec Req Rep} {log : List (Event Req Res Rep)} {e : Event Req Res Rep}
    (h : s.Tells verdict log) (he : s.Step verdict e s') : s'.Tells verdict (log ++ [e]) := by
  cases he with
  | gate e hgate haway => exact h.gate hgate haway
  | taken r hpending hhere hgate haway =>
    obtain ⟨before, rfl⟩ := h.pending r hpending hhere
    have hfailed := h.failed
    refine ⟨by simpa [hgate] using hfailed, fun r' hr' hnone => ?_, fun r' hr' => ?_, fun r' a ha => ?_⟩
    · rw [haway] at hnone
      cases hnone
    · cases haway.symm.trans hr'
      exact ⟨before, [], by simp, nofun, fun _ => rfl⟩
    · rw [hgate, hpending] at ha
      cases ha
  | brought r x hpending haway hgate hback =>
    have hfailed := h.failed
    rw [hpending] at hfailed
    obtain ⟨before, between, rfl, -, hnone⟩ := h.away r haway
    obtain rfl := hnone (by rw [hpending])
    refine ⟨by simpa [hgate] using hfailed, fun r' hr' => ?_, fun r' hr' => ?_, fun r' a ha => ?_⟩
    · rw [hgate] at hr'
      cases hr'
    · rw [hback] at hr'
      cases hr'
    · rw [hgate] at ha
      cases ha
      exact ⟨before, x, [], by simp, rfl, .inl rfl, fun _ => rfl⟩
  | late r x hfailed haway hgate hback =>
    refine ⟨by simpa [hgate] using h.failed, fun r' hr' => ?_, fun r' hr' => ?_, fun r' a ha => ?_⟩
    · rw [hgate] at hr'
      rw [hr'] at hfailed
      cases hfailed
    · rw [hback] at hr'
      cases hr'
    · rw [hgate] at ha
      rcases s.held r haway with hphase | ⟨-, hphase⟩ <;> cases ha.symm.trans hphase

/-- The log of a broker delivers, and tells where the broker stands.

**Proof sketch.** Induction on the log. The last event is judged by where the broker stood, which the log
before it tells; every other one was judged before. -/
theorem Spec.delivers {s : Spec Req Rep} {log : List (Event Req Res Rep)}
    (h : Trace (Step verdict) {} log s) : Delivers verdict log ∧ s.Tells verdict log := by
  induction h with
  | nil =>
    refine ⟨⟨?_, ?_, ?_, ?_⟩, tells_of_idle (by simp) rfl rfl⟩ <;> simp
  | snoc htrace he ih =>
    rename_i s s' log e
    obtain ⟨hlog, htells⟩ := ih
    refine ⟨⟨fun before after r heq => ?_, fun before after x heq => ?_, fun before after a heq => ?_,
      fun before after heq => ?_⟩, htells.step he⟩
    · rcases Gate.snoc_eq_append_cons heq with ⟨rfl, rfl, rfl⟩ | ⟨after', rfl, heq'⟩
      · cases he with
        | taken r hpending hhere hgate haway => exact htells.pending r hpending hhere
      · exact hlog.taken before after' r heq'
    · rcases Gate.snoc_eq_append_cons heq with ⟨rfl, rfl, rfl⟩ | ⟨after', rfl, heq'⟩
      · cases he with
        | brought r x hpending haway =>
          obtain ⟨before', between, hbefore, hlate, -⟩ := htells.away r haway
          exact ⟨before', r, between, hbefore, hlate⟩
        | late r x hfailed haway =>
          obtain ⟨before', between, hbefore, hlate, -⟩ := htells.away r haway
          exact ⟨before', r, between, hbefore, hlate⟩
      · exact hlog.brought before after' x heq'
    · rcases Gate.snoc_eq_append_cons heq with ⟨rfl, rfl, rfl⟩ | ⟨after', rfl, heq'⟩
      · cases he with
        | gate e hgate haway =>
          have hreplied := htells.replied
          generalize s.gate = g, s'.gate = g' at hgate hreplied
          cases hgate with
          | returned r a f =>
            obtain ⟨before', x, between, hbefore, hverdict, hbetween, -⟩ := hreplied r a rfl
            exact ⟨before', r, x, between, hbefore, hverdict, hbetween⟩
      · exact hlog.returned before after' a heq'
    · rcases Gate.snoc_eq_append_cons heq with ⟨rfl, rfl, rfl⟩ | ⟨after', rfl, heq'⟩
      · cases he with
        | gate e hgate haway =>
          have hfailed := htells.failed
          generalize s.gate = g, s'.gate = g' at hgate hfailed
          cases hgate with
          | abandoned r => exact hfailed.1 rfl
      · exact hlog.abandoned before after' heq'

/-! ## How it is built -/

/-- The slot of a gate, and a flag that the broker is away. -/
@[ext]
structure Slot (Req Rep : Type*) where
  gate : Gate.Slot Req Rep := {}
  busy : Bool := false

variable (verdict) in
/-- What is done to it. -/
inductive Slot.Step (s : Slot Req Rep) : Event Req Res Rep → Slot Req Rep → Prop
  | gate {g : Gate.Slot Req Rep} (e : Gate.Event Req Rep)
      (h : Gate.Slot.Step (fun _ _ => False) s.gate e g) : Step s (.gate e) { s with gate := g }
  | take (r : Req) (hbusy : s.busy = false) (hrequest : s.gate.request = some r) :
      Step s (.taken r) { s with busy := true }
  | bring (r : Req) (x : Res) (hbusy : s.busy = true) (hrequest : s.gate.request = some r) :
      Step s (.brought x)
        ⟨{ s.gate with request := none, replies := s.gate.replies ++ [verdict r x] }, false⟩
  | late (x : Res) (hbusy : s.busy = true) (hclosed : s.gate.closed = true) :
      Step s (.brought x) { s with busy := false }

/-- The slot of a broker. -/
def Spec.slot (s : Spec Req Rep) : Slot Req Rep := ⟨s.gate.slot, s.away.isSome⟩

/-- A broker that is away is away with what is pending, or the gate has failed. -/
theorem Spec.request_of_busy {s : Spec Req Rep} (h : s.slot.busy = true) :
    s.slot.gate.closed = true ∨ ∃ r, s.slot.gate.request = some r ∧ s.away = some r := by
  obtain ⟨r, hr⟩ := Option.isSome_iff_exists.1 h
  have hheld := s.held r hr
  obtain ⟨⟨phase, failed⟩, away, held⟩ := s
  cases failed with
  | true => exact .inl rfl
  | false =>
    rcases hheld with hphase | ⟨hfailed, -⟩
    · obtain rfl : phase = .pending r := hphase
      exact .inr ⟨r, rfl, hr⟩
    · cases hfailed

/-- The phase of a gate whose slot has a request. -/
theorem pending_of_request {g : Gate.Spec Req Rep} {r : Req} (h : g.slot.request = some r) :
    g = ⟨.pending r, false⟩ := by
  obtain ⟨_ | r' | ⟨r', a⟩, _ | _⟩ := g
  case pending.false =>
    cases h
    rfl
  all_goals cases h

/-- A gate with this slot, after what is done to it. -/
theorem held_step {g g' : Gate.Spec Req Rep} {e : Gate.Event Req Rep} {r : Req}
    (hheld : g.phase = .pending r ∨ g.failed = true ∧ g.phase = .idle)
    (h : Gate.Spec.Step (fun _ _ => False) g e g') :
    g'.phase = .pending r ∨ g'.failed = true ∧ g'.phase = .idle := by
  cases h with
  | asked r' =>
    rcases hheld with hphase | ⟨hfailed, -⟩
    · cases hphase
    · cases hfailed
  | declined f => exact hheld
  | answered r' a hok => exact hok.elim
  | failed p =>
    rcases hheld with hphase | ⟨hfailed, -⟩
    · exact .inl hphase
    · cases hfailed
  | returned r' a f => rcases hheld with hphase | ⟨-, hphase⟩ <;> cases hphase
  | abandoned r' => exact .inr ⟨rfl, rfl⟩

/-- What is done to the slot of a broker happens to the broker. -/
theorem Spec.step_of_slot {s : Spec Req Rep} {e : Event Req Res Rep} {t : Slot Req Rep}
    (h : s.slot.Step verdict e t) : ∃ s', Step verdict s e s' ∧ s'.slot = t := by
  cases h with
  | gate e h =>
    obtain ⟨g, hg, rfl⟩ := Gate.Spec.step_of_slot h
    exact ⟨⟨g, s.away, fun r hr => held_step (s.held r hr) hg⟩, .gate e hg rfl, rfl⟩
  | take r hbusy hrequest =>
    have hpending := pending_of_request hrequest
    have hhere : s.away = none := Option.not_isSome_iff_eq_none.1 (Bool.eq_false_iff.1 hbusy)
    refine ⟨⟨s.gate, some r, fun r' hr' => .inl ?_⟩, .taken r hpending hhere rfl rfl, rfl⟩
    cases hr'
    rw [hpending]
  | bring r x hbusy hrequest =>
    have hpending := pending_of_request hrequest
    rcases s.request_of_busy hbusy with hclosed | ⟨r', hr', haway⟩
    · have hfailed : s.gate.failed = true := hclosed
      rw [hpending] at hfailed
      cases hfailed
    · cases hrequest.symm.trans hr'
      refine ⟨⟨⟨.replied r (verdict r x), false⟩, none, nofun⟩,
        .brought r x hpending haway rfl rfl, ?_⟩
      have hslot : s.slot.gate = (⟨.pending r, false⟩ : Gate.Spec Req Rep).slot := by rw [slot, hpending]
      rw [hslot]
      rfl
  | late x hbusy hclosed =>
    obtain ⟨r, hr⟩ := Option.isSome_iff_exists.1 hbusy
    exact ⟨⟨s.gate, none, nofun⟩, .late r x hclosed hr rfl rfl, rfl⟩

/-- The events of a broker deliver; where they lead is the slot of one, and they tell which. -/
theorem delivers {log : List (Event Req Res Rep)} {t : Slot Req Rep}
    (h : Trace (Slot.Step verdict) {} log t) :
    Delivers verdict log ∧ ∃ s : Spec Req Rep, s.slot = t ∧ s.Tells verdict log := by
  obtain ⟨s, hs, rfl⟩ := Trace.refine (S := Spec.Step verdict) (g := {}) Spec.slot
    (fun _ _ _ => Spec.step_of_slot) h
  exact ⟨(Spec.delivers hs).1, s, rfl, (Spec.delivers hs).2⟩

end Broker
