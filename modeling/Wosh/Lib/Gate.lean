import Wosh.Lib.Run

set_option relaxedAutoImplicit false
set_option autoImplicit false

/-!
# A gate where a caller parks for its answer

One caller at a time asks, and parks. Others answer what it asked, or fail the gate for good, at any
time. `Gate.Spec` says what a gate is for; `Gate.Slot` is how one is built: a slot for the request, a
channel with a buffer of one for the answer, and a flag.

## Main definitions

* `Gate.Event` — what happens at a gate.
* `Gate.Spec`, `Gate.Spec.Step` — the gate as its caller sees it.
* `Gate.Slot`, `Gate.Slot.Step` — the gate as it is built.
* `Gate.Delivers` — each answer is delivered to the request that it was given for.

## Main results

* `Gate.delivers` — the events of any run of a slot do that.
* `Gate.Spec.room` — an answer to a request that is pending finds room, and the channel open.
-/

namespace Gate

open Run

variable {Req Rep : Type*}

/-- What happens at a gate. -/
inductive Event (Req Rep : Type*)
  /-- A caller asks, and parks. -/
  | asked (r : Req)
  /-- A caller is turned away. -/
  | declined
  /-- The request is answered. -/
  | answered (a : Rep)
  /-- The gate fails. -/
  | failed
  /-- The caller that was parked returns, with its answer or without one. -/
  | returned (o : Option Rep)
deriving DecidableEq

/-! ## What a gate is for -/

/-- Where the caller stands. -/
inductive Phase (Req Rep : Type*)
  | idle
  | pending (r : Req)
  | replied (r : Req) (a : Rep)

/-- A gate as its caller sees it. -/
structure Spec (Req Rep : Type*) where
  phase : Phase Req Rep := .idle
  failed : Bool := false

variable (ok : Req → Rep → Prop)

/-- One event. Only what fits a request answers it. -/
inductive Spec.Step : Spec Req Rep → Event Req Rep → Spec Req Rep → Prop
  | asked (r : Req) : Step ⟨.idle, false⟩ (.asked r) ⟨.pending r, false⟩
  | declined (f : Bool) : Step ⟨.idle, f⟩ .declined ⟨.idle, f⟩
  | answered (r : Req) (a : Rep) (h : ok r a) :
    Step ⟨.pending r, false⟩ (.answered a) ⟨.replied r a, false⟩
  | failed (p : Phase Req Rep) : Step ⟨p, false⟩ .failed ⟨p, true⟩
  | returned (r : Req) (a : Rep) (f : Bool) :
    Step ⟨.replied r a, f⟩ (.returned (some a)) ⟨.idle, f⟩
  | abandoned (r : Req) : Step ⟨.pending r, true⟩ (.returned none) ⟨.idle, true⟩

/-- Each answer is delivered to the request that it was given for; a caller that returns without one
was parked on a gate that failed; and a gate that failed takes neither requests nor answers. -/
structure Delivers (log : List (Event Req Rep)) : Prop where
  answered : ∀ before after a, log = before ++ .answered a :: after →
    ∃ before' r, before = before' ++ [.asked r] ∧ ok r a
  returned : ∀ before after a, log = before ++ .returned (some a) :: after →
    ∃ before' r between, before = before' ++ .asked r :: .answered a :: between ∧ ok r a ∧
      (between = [] ∨ between = [.failed])
  abandoned : ∀ before after, log = before ++ .returned none :: after →
    ∃ before' r, before = before' ++ [.asked r, .failed]
  failed : ∀ before after, log = before ++ .failed :: after →
    ∀ e ∈ after, e = .declined ∨ ∃ o, e = .returned o

variable {ok}

/-- The failure that may follow a request, or an answer. -/
def Spec.fate (g : Spec Req Rep) : List (Event Req Rep) := if g.failed then [.failed] else []

/-- What the log says of the gate that it leads to. -/
structure Spec.Tells (ok : Req → Rep → Prop) (g : Spec Req Rep) (log : List (Event Req Rep)) :
    Prop where
  failed : g.failed = true ↔ .failed ∈ log
  pending : ∀ r, g.phase = .pending r → ∃ before, log = before ++ .asked r :: g.fate
  replied : ∀ r a, g.phase = .replied r a →
    (∃ before, log = before ++ .asked r :: .answered a :: g.fate) ∧ ok r a

/-- What ends a log is its last event, or lies before it. -/
theorem snoc_eq_append_cons {α : Type*} {l before after : List α} {e x : α}
    (h : l ++ [e] = before ++ x :: after) :
    (after = [] ∧ before = l ∧ x = e) ∨ ∃ after', after = after' ++ [e] ∧ l = before ++ x :: after' := by
  rcases List.eq_nil_or_concat after with rfl | ⟨after', y, rfl⟩
  · obtain ⟨rfl, hx⟩ := List.append_inj' h rfl
    exact .inl ⟨rfl, rfl, (List.cons.inj hx).1.symm⟩
  · rw [List.concat_eq_append, ← List.cons_append, ← List.append_assoc] at h
    obtain ⟨hl, hy⟩ := List.append_inj' h rfl
    exact .inr ⟨after', by rw [List.concat_eq_append, (List.cons.inj hy).1], hl⟩

/-- Where no caller is parked, the log tells no more than whether the gate failed. -/
theorem Spec.tells_idle {f : Bool} {log : List (Event Req Rep)} (h : f = true ↔ .failed ∈ log) :
    Tells ok ⟨.idle, f⟩ log := by
  refine ⟨h, fun r hr => ?_, fun r a ha => ?_⟩
  · cases hr
  · cases ha

/-- One event more. -/
theorem Spec.Tells.step {g g' : Spec Req Rep} {log : List (Event Req Rep)} {e : Event Req Rep}
    (h : g.Tells ok log) (he : Step ok g e g') : g'.Tells ok (log ++ [e]) := by
  obtain ⟨hfailed, hpending, hreplied⟩ := h
  cases he with
  | asked r =>
    refine ⟨by simpa using hfailed, fun r' hr' => ?_, fun r' a ha => ?_⟩
    · cases hr'
      exact ⟨log, rfl⟩
    · cases ha
  | declined f => exact tells_idle (by simpa using hfailed)
  | answered r a hok =>
    refine ⟨by simpa using hfailed, fun r' hr' => ?_, fun r' a' ha' => ?_⟩
    · cases hr'
    · cases ha'
      obtain ⟨before, rfl⟩ := hpending r rfl
      exact ⟨⟨before, by simp [fate]⟩, hok⟩
  | failed p =>
    refine ⟨by simp, fun r hr => ?_, fun r a ha => ?_⟩
    · obtain ⟨before, rfl⟩ := hpending r hr
      exact ⟨before, by simp [fate]⟩
    · obtain ⟨⟨before, rfl⟩, hok⟩ := hreplied r a ha
      exact ⟨⟨before, by simp [fate]⟩, hok⟩
  | returned r a f => exact tells_idle (by simpa using hfailed)
  | abandoned r => exact tells_idle (by simpa using hfailed)

/-- The log of a gate delivers, and tells where the gate stands.

**Proof sketch.** Induction on the log. The last event is judged by the phase, which the log before it
tells; every other one was judged before. -/
theorem Spec.delivers {g : Spec Req Rep} {log : List (Event Req Rep)}
    (h : Trace (Step ok) {} log g) : Delivers ok log ∧ g.Tells ok log := by
  induction h with
  | nil =>
    refine ⟨⟨?_, ?_, ?_, ?_⟩, tells_idle (by simp)⟩ <;> simp
  | snoc htrace he ih =>
    rename_i g g' log e
    obtain ⟨hlog, htells⟩ := ih
    refine ⟨⟨fun before after a heq => ?_, fun before after a heq => ?_, fun before after heq => ?_,
      fun before after heq => ?_⟩, htells.step he⟩
    · rcases snoc_eq_append_cons heq with ⟨rfl, rfl, rfl⟩ | ⟨after', rfl, heq'⟩
      · cases he with
        | answered r a hok =>
          obtain ⟨before', hbefore⟩ := htells.pending r rfl
          exact ⟨before', r, hbefore, hok⟩
      · exact hlog.answered before after' a heq'
    · rcases snoc_eq_append_cons heq with ⟨rfl, rfl, rfl⟩ | ⟨after', rfl, heq'⟩
      · cases he with
        | returned r a f =>
          obtain ⟨⟨before', hbefore⟩, hok⟩ := htells.replied r a rfl
          refine ⟨before', r, _, hbefore, hok, ?_⟩
          cases f
          · exact .inl rfl
          · exact .inr rfl
      · exact hlog.returned before after' a heq'
    · rcases snoc_eq_append_cons heq with ⟨rfl, rfl, rfl⟩ | ⟨after', rfl, heq'⟩
      · cases he with
        | abandoned r =>
          obtain ⟨before', hbefore⟩ := htells.pending r rfl
          exact ⟨before', r, hbefore⟩
      · exact hlog.abandoned before after' heq'
    · rcases snoc_eq_append_cons heq with ⟨rfl, rfl, rfl⟩ | ⟨after', rfl, heq'⟩
      · exact fun e he => absurd he List.not_mem_nil
      · intro x hx
        rcases List.mem_append.1 hx with hx | hx
        · exact hlog.failed before after' heq' x hx
        · obtain rfl := List.mem_singleton.1 hx
          have hfailed : g.failed = true := by
            rw [htells.failed, heq']
            exact List.mem_append_right _ List.mem_cons_self
          cases he with
          | asked r => cases hfailed
          | answered r a hok => cases hfailed
          | failed p => cases hfailed
          | declined f => exact .inl rfl
          | returned r a f => exact .inr ⟨_, rfl⟩
          | abandoned r => exact .inr ⟨_, rfl⟩

/-! ## How it is built -/

/-- A slot for the request, a channel for the answer, and a flag. -/
@[ext]
structure Slot (Req Rep : Type*) where
  request : Option Req := none
  /-- The channel. -/
  replies : List Rep := []
  ended : Bool := false
  /-- The flag. -/
  closed : Bool := false
  /-- A caller is parked. -/
  parked : Bool := false

variable (ok) in
/-- What is done to a slot. -/
inductive Slot.Step (s : Slot Req Rep) : Event Req Rep → Slot Req Rep → Prop
  | ask (r : Req) (hparked : s.parked = false) (hclosed : s.closed = false) :
    Step s (.asked r) { s with request := some r, parked := true }
  | decline (hparked : s.parked = false) : Step s .declined s
  | answer (r : Req) (a : Rep) (hclosed : s.closed = false) (hrequest : s.request = some r)
    (h : ok r a) : Step s (.answered a) { s with request := none, replies := s.replies ++ [a] }
  | fail (hclosed : s.closed = false) :
    Step s .failed { s with request := none, ended := true, closed := true }
  | receive (a : Rep) (rest : List Rep) (hparked : s.parked = true) (h : s.replies = a :: rest) :
    Step s (.returned (some a)) { s with replies := rest, parked := false }
  | abandon (hparked : s.parked = true) (h : s.replies = []) (hended : s.ended = true) :
    Step s (.returned none) { s with parked := false }

/-- The slot of a gate. -/
def Spec.slot (g : Spec Req Rep) : Slot Req Rep where
  request :=
    match g.phase with
    | .pending r => if g.failed then none else some r
    | _ => none
  replies :=
    match g.phase with
    | .replied _ a => [a]
    | _ => []
  ended := g.failed
  closed := g.failed
  parked :=
    match g.phase with
    | .idle => false
    | _ => true

/-- An answer to a request that is pending finds room, and the channel open. -/
theorem Spec.room {g : Spec Req Rep} {r : Req} (h : g.slot.request = some r) :
    g.slot.replies = [] ∧ g.slot.ended = false := by
  obtain ⟨_ | r | ⟨r, a⟩, _ | _⟩ := g
  case pending.false => exact ⟨rfl, rfl⟩
  all_goals cases h

/-- A request that is pending was asked last. -/
theorem Spec.Tells.request {g : Spec Req Rep} {log : List (Event Req Rep)} (h : g.Tells ok log)
    {r : Req} (hr : g.slot.request = some r) : ∃ before, log = before ++ [.asked r] := by
  obtain ⟨_ | r' | ⟨r', a⟩, _ | _⟩ := g
  case pending.false =>
    obtain rfl : r' = r := Option.some.inj hr
    exact h.pending r' rfl
  all_goals cases hr

/-- What is done to the slot of a gate happens at the gate. -/
theorem Spec.step_of_slot {g : Spec Req Rep} {e : Event Req Rep} {s : Slot Req Rep}
    (h : g.slot.Step ok e s) : ∃ g', Step ok g e g' ∧ g'.slot = s := by
  obtain ⟨phase, failed⟩ := g
  cases h with
  | ask r hparked hclosed =>
    obtain rfl : failed = false := hclosed
    cases phase with
    | idle => exact ⟨_, .asked r, rfl⟩
    | pending r' => cases hparked
    | replied r' a => cases hparked
  | decline hparked =>
    cases phase with
    | idle => exact ⟨_, .declined failed, rfl⟩
    | pending r' => cases hparked
    | replied r' a => cases hparked
  | answer r a hclosed hrequest hok =>
    obtain rfl : failed = false := hclosed
    cases phase with
    | idle => cases hrequest
    | pending r' =>
      obtain rfl : r' = r := Option.some.inj hrequest
      exact ⟨_, .answered r' a hok, rfl⟩
    | replied r' a' => cases hrequest
  | fail hclosed =>
    obtain rfl : failed = false := hclosed
    refine ⟨_, .failed phase, ?_⟩
    cases phase <;> rfl
  | receive a rest hparked hreplies =>
    cases phase with
    | idle => cases hparked
    | pending r => cases hreplies
    | replied r a' =>
      obtain ⟨rfl, rfl⟩ := List.cons.inj hreplies
      exact ⟨_, .returned r a' failed, rfl⟩
  | abandon hparked hreplies hended =>
    obtain rfl : failed = true := hended
    cases phase with
    | idle => cases hparked
    | pending r => exact ⟨_, .abandoned r, rfl⟩
    | replied r a => cases hreplies

/-- The events of a slot deliver; where they lead is the slot of a gate, and they tell which. -/
theorem delivers {log : List (Event Req Rep)} {s : Slot Req Rep}
    (h : Trace (Slot.Step ok) {} log s) :
    Delivers ok log ∧ ∃ g : Spec Req Rep, g.slot = s ∧ g.Tells ok log := by
  obtain ⟨g, hg, rfl⟩ := Trace.refine (S := Spec.Step ok) (g := {}) Spec.slot
    (fun _ _ _ => Spec.step_of_slot) h
  exact ⟨(Spec.delivers hg).1, g, rfl, (Spec.delivers hg).2⟩

end Gate
