import Wosh.Lib.Run
import Wosh.Listener.Session

set_option relaxedAutoImplicit false
set_option autoImplicit false

/-!
# Tombstones

The registry of a listener over any sequence of sessions opened and ended. Every task of a
session may report its end: pump A when sshd hangs up or its host key is refused, pump C when a
write to sshd fails, `park` without a grace period, the grace timer, a resume across a gap. Each
report is an `end_session`, and each `end_session` buries the session once more, at the cost of
the oldest tombstone.

## Main definitions

* `Listener.Ledger` — the registry and the sessions' states, with the first reason of every end.
* `Listener.Ledger.Recalls` — the most recent ends are remembered with their first reasons.
* `Listener.LedgerAction.Remembers` — a step leaves that so, and a repeated end changes nothing.

## Main results

* `Listener.Ledger.remembers_iff` — that is so along a run exactly when no session is ended that
  is dead already.
-/

namespace Listener

open Tunnel

/-- What happens to the registry. -/
inductive LedgerAction
  /-- `start_session` registers a new session, under an id that `getrandom` has not given yet. -/
  | opened (id : SessionId)
  /-- A task of the session calls `end_session`. -/
  | ended (id : SessionId) (reason : String)
deriving DecidableEq

/-- The registry and the states of its sessions. -/
structure Ledger where
  reg : Registry := {}
  /-- The state of each session; a task that ends one holds it, registered or not. -/
  st : SessionId → SessionState := fun _ => {}
  /-- *History*: the ids of all sessions. -/
  ids : List SessionId := []
  /-- *History*: the sessions that have ended, in the order of their first ends, with the
  reasons of these. -/
  ends : List (SessionId × String) := []

namespace Ledger

variable (l : Ledger)

/-- A session is registered. -/
def openSession (id : SessionId) : Ledger :=
  { l with reg := { l.reg with live := l.reg.live ++ [id] }, ids := l.ids ++ [id] }

/-- `end_session`, as `World.endSession` has it for the session of a world. -/
def endSession (id : SessionId) (reason : String) : Ledger :=
  { l with
    reg := l.reg.bury id reason
    st := Function.update l.st id { l.st id with dead := true }
    ends := if id ∈ l.ends.map Prod.fst then l.ends else l.ends ++ [(id, reason)] }

/-- One step. -/
def step (l : Ledger) : LedgerAction → Option Ledger
  | .opened id => if id ∈ l.ids then none else some (l.openSession id)
  | .ended id reason => if id ∈ l.ids then some (l.endSession id reason) else none

/-- The last ends, as many as there is room for. -/
def recent : List (SessionId × String) := l.ends.drop (l.ends.length - tombstones)

/-- Each of the most recently ended sessions is remembered with the reason of its first end. -/
def Recalls : Prop := ∀ p ∈ l.recent, l.reg.epitaph p.1 = p.2

end Ledger

/-- The step leaves the last ends remembered, and if it ends a session that has ended already, it
changes neither the registry nor the session's state. -/
def LedgerAction.Remembers (l : Ledger) : LedgerAction → Prop
  | .opened id => (l.openSession id).Recalls
  | .ended id reason =>
    (l.endSession id reason).Recalls ∧
    (id ∈ l.ends.map Prod.fst →
      (l.endSession id reason).reg = l.reg ∧ (l.endSession id reason).st = l.st)

/-- No session is ended that is dead already. -/
def LedgerAction.First (l : Ledger) : LedgerAction → Prop
  | .opened _ => True
  | .ended id _ => (l.st id).dead = false

instance (l : Ledger) : (a : LedgerAction) → Decidable (a.First l)
  | .opened _ => inferInstanceAs (Decidable True)
  | .ended _ _ => inferInstanceAs (Decidable (_ = _))

namespace Ledger

variable {l l' : Ledger} {id : SessionId} {reason : String}

/-- What holds as long as every session was ended once. -/
structure Sound (l : Ledger) : Prop where
  /-- The tombstones are the last ends. -/
  gone_eq : l.reg.gone = l.recent
  /-- A session has one first end. -/
  nodup : (l.ends.map Prod.fst).Nodup
  /-- The dead sessions are those that have ended. -/
  dead_iff : ∀ id, (l.st id).dead = true ↔ id ∈ l.ends.map Prod.fst

/-- A new registry. -/
theorem sound_new : Sound {} where
  gone_eq := rfl
  nodup := List.nodup_nil
  dead_iff _ := by simp

/-- The tombstones are those of distinct sessions. -/
theorem Sound.nodup_recent (hs : l.Sound) : (l.recent.map Prod.fst).Nodup := by
  unfold recent
  rw [List.map_drop]
  exact hs.nodup.sublist (List.drop_sublist _ _)

/-- What is found in a list under a key that occurs once. -/
theorem find?_eq_some_of_nodup {ps : List (SessionId × String)}
    (hnodup : (ps.map Prod.fst).Nodup) {p : SessionId × String} (hp : p ∈ ps) :
    ps.find? (fun q => q.1 = p.1) = some p := by
  induction ps with
  | nil => cases hp
  | cons q ps ih =>
    rw [List.map_cons, List.nodup_cons] at hnodup
    by_cases hq : q.1 = p.1
    · rw [List.find?_cons_of_pos (by simpa using hq)]
      rcases List.mem_cons.1 hp with rfl | hp
      · rfl
      · exact absurd (hq ▸ List.mem_map_of_mem hp) hnodup.1
    · rw [List.find?_cons_of_neg (by simpa using hq)]
      refine ih hnodup.2 ((List.mem_cons.1 hp).resolve_left ?_)
      rintro rfl
      exact hq rfl

/-- The tombstones give the reasons of the last ends. -/
theorem Sound.recalls (hs : l.Sound) : l.Recalls := by
  intro p hp
  unfold Registry.epitaph
  rw [hs.gone_eq, find?_eq_some_of_nodup hs.nodup_recent hp]
  rfl

/-- A session is registered. -/
theorem Sound.openSession (hs : l.Sound) (id : SessionId) : (l.openSession id).Sound where
  gone_eq := hs.gone_eq
  nodup := hs.nodup
  dead_iff := hs.dead_iff

/-- The last ends after one more. -/
theorem recent_append (ends : List (SessionId × String)) (p : SessionId × String) :
    (ends ++ [p]).drop ((ends ++ [p]).length - tombstones) =
      (ends.drop (ends.length - tombstones) ++ [p]).drop
        ((ends.drop (ends.length - tombstones) ++ [p]).length - tombstones) := by
  rw [← List.drop_append_of_le_length (Nat.sub_le _ _), List.drop_drop]
  refine congrArg (fun n => (ends ++ [p]).drop n) ?_
  rw [List.length_drop, List.length_append, List.length_singleton]
  unfold tombstones
  omega

/-- A session ends for the first time. -/
theorem Sound.endSession (hs : l.Sound) (hfirst : (l.st id).dead = false) :
    (l.endSession id reason).Sound := by
  have hnew : id ∉ l.ends.map Prod.fst := by
    rw [← hs.dead_iff id, hfirst]
    exact Bool.false_ne_true
  have hends : (l.endSession id reason).ends = l.ends ++ [(id, reason)] := if_neg hnew
  refine ⟨?_, ?_, fun id' => ?_⟩
  · unfold recent
    rw [hends, recent_append]
    show (l.reg.gone ++ [(id, reason)]).drop ((l.reg.gone ++ [(id, reason)]).length - _) = _
    rw [hs.gone_eq]
    rfl
  · rw [hends, List.map_append]
    exact List.nodup_append.2 ⟨hs.nodup, List.nodup_singleton _, by
      intro a ha b hb
      obtain rfl := List.mem_singleton.1 hb
      rintro rfl
      exact hnew ha⟩
  · rw [hends]
    show (Function.update l.st id _ id').dead = true ↔ _
    by_cases hid : id' = id
    · subst hid
      rw [Function.update_self]
      simp
    · rw [Function.update_of_ne hid, hs.dead_iff id']
      simp [hid]

/-- **A repeated end is noticed.** It buries the session once more, and so changes the
tombstones: there is one more, or the oldest of distinct ones is lost. -/
theorem Sound.gone_ne (hs : l.Sound) (id : SessionId) (reason : String) :
    (l.reg.bury id reason).gone ≠ l.reg.gone := by
  have hnodup := hs.nodup_recent
  rw [← hs.gone_eq] at hnodup
  have hle : l.reg.gone.length ≤ tombstones := by
    rw [hs.gone_eq]
    unfold recent
    rw [List.length_drop]
    omega
  intro heq
  have heq' : (l.reg.gone ++ [(id, reason)]).drop
    ((l.reg.gone ++ [(id, reason)]).length - tombstones) = l.reg.gone := heq
  have hlength := congrArg List.length heq'
  rw [List.length_drop, List.length_append, List.length_singleton] at hlength
  rw [List.length_append, List.length_singleton] at heq'
  have hfull : l.reg.gone.length + 1 - tombstones = 1 := by omega
  rw [hfull] at heq'
  -- with the oldest gone, the second oldest stands in its place
  cases hgone : l.reg.gone with
  | nil =>
    rw [hgone] at hfull
    cases hfull
  | cons p ps =>
    cases ps with
    | nil =>
      rw [hgone] at hfull
      cases hfull
    | cons q qs =>
      rw [hgone] at heq' hnodup
      have hpq : q = p := (List.cons.inj heq').1
      rw [List.map_cons, List.map_cons, hpq] at hnodup
      exact (List.nodup_cons.1 hnodup).1 List.mem_cons_self

/-- A step leaves the last ends remembered, and a repeated end changes nothing, exactly when it is
no repeated end. -/
theorem Sound.remembers_iff_first (hs : l.Sound) (a : LedgerAction) :
    a.Remembers l ↔ a.First l := by
  cases a with
  | opened id => exact iff_of_true (hs.openSession id).recalls trivial
  | ended id reason =>
    constructor
    · intro hr
      by_contra hdead
      have hdead' : (l.st id).dead = true := by simpa [LedgerAction.First] using hdead
      have hreg := (hr.2 ((hs.dead_iff id).1 hdead')).1
      exact hs.gone_ne id reason (congrArg Registry.gone hreg)
    · intro hfirst
      have hdead : (l.st id).dead = false := hfirst
      refine ⟨(hs.endSession hdead).recalls, fun hended => ?_⟩
      rw [(hs.dead_iff id).2 hended] at hdead
      cases hdead

/-- A step that is no repeated end. -/
theorem Sound.step (hs : l.Sound) {a : LedgerAction} (hf : a.First l)
    (hstep : l.step a = some l') : l'.Sound := by
  cases a with
  | opened id =>
    simp only [Ledger.step] at hstep
    split_ifs at hstep
    obtain rfl := Option.some_inj.1 hstep
    exact hs.openSession id
  | ended id reason =>
    simp only [Ledger.step] at hstep
    split_ifs at hstep
    obtain rfl := Option.some_inj.1 hstep
    exact hs.endSession hf

/-- **What the registry remembers.** Along every sequence of sessions opened and ended, the
reasons of the most recent first ends are remembered and a repeated end changes nothing, if and
only if no session is ended that is dead already.

**Proof sketch.** As long as that is so, the tombstones are the last first ends, and so of
distinct sessions. The first repeated end then changes them. -/
theorem remembers_iff (acts : List LedgerAction) :
    Run.Along step (fun l a => a.Remembers l) {} acts ↔
      Run.Along step (fun l a => a.First l) {} acts := by
  constructor
  · intro hr
    exact Run.Along.of_inv (P := Sound)
      (fun _ a _ hs hr hstep => hs.step ((hs.remembers_iff_first a).1 hr) hstep)
      (fun _ a hs hr => (hs.remembers_iff_first a).1 hr) sound_new hr
  · intro hf
    exact Run.Along.of_inv (P := Sound) (fun _ _ _ hs hf hstep => hs.step hf hstep)
      (fun _ a hs hf => (hs.remembers_iff_first a).2 hf) sound_new hf

/-- The `n`-th session id. -/
def idOf (n : ℕ) : SessionId := ⟨List.replicate 15 0 ++ [UInt8.ofNat n], rfl⟩

/-- Session `n` is opened, its host key is refused, and a second task reports its end. -/
def reportedTwice (n : ℕ) : List LedgerAction :=
  [.opened (idOf n), .ended (idOf n) "host key refused", .ended (idOf n) "session ended"]

/-- Thirty-three sessions end, each reported by two tasks: the first one's reason is forgotten,
although only thirty-two other sessions have ended since. -/
theorem not_remembers :
    ((Run.run step {} ((List.range 33).flatMap reportedTwice)).map
      fun l => l.reg.epitaph (idOf 0)) = some "unknown session" ∧
    ¬ Run.Along step (fun l a => a.Remembers l) {} ((List.range 33).flatMap reportedTwice) := by
  refine ⟨by decide +kernel, fun hr => ?_⟩
  -- the third action is the first repeated end
  have hrepeat := (((hr.2 _ rfl).2 _ rfl).1.2 (by decide)).1
  exact absurd (congrArg Registry.gone hrepeat) (by decide)

end Ledger

end Listener
