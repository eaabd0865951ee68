import Wosh.Listener.Host
import Wosh.Listener.Writer

set_option relaxedAutoImplicit false
set_option autoImplicit false

/-!
# Whether the registry holds on to sessions that nobody ends

`start_session` registers a session before it writes its reply. If that write fails it returns, and
leaves the session registered: never attached, without its pumps, and without a grace timer that
could end it.

## Main definitions

* `Listener.Host.NoOrphan` — every live session is attached, parked with its timer, or starting.
* `Listener.unorphaning` — a step that is not the failure of such a write.

## Main results

* `Listener.no_orphan` — a run reaches only states without orphans if and only if its steps are all
  unorphaning.
* `Listener.not_neverOrphaned` — a connection that is lost while its reply is written.
-/

namespace Listener

open Tunnel Slots

/-! ## Sessions -/

namespace World

/-- The session is attached, or parked and waiting for the timer of its last park. -/
def Kept (w : World) : Prop :=
  w.st.attached = true ∨
    (w.st.attached = false ∧ ∃ timer ∈ w.timers, timer.epoch = w.st.parkEpoch)

/-- The session is inside the `start_session` that created it. -/
def Starting (w : World) : Prop :=
  ∃ (k : ℕ) (t : Task) (tail : Bytes), w.tasks[k]? = some t ∧ t.pc = .replying true tail

/-- A session that was never attached is not attached, and has no timers. -/
def Unused (w : World) : Prop := w.st.generation = 0 → w.st.attached = false ∧ w.timers = []

/-- A session that is not over is kept once it was attached, and starting before. -/
def Placed (w : World) : Prop :=
  w.st.dead = false → (0 < w.st.generation ∧ w.Kept) ∨ (w.st.generation = 0 ∧ w.Starting)

end World

/-- The write of the reply to a new session fails before anything attached it. -/
def startFails (w : World) : Action → Bool
  | .replied k (some _) =>
    match w.tasks[k]? with
    | some t =>
      match t.pc with
      | .replying true _ => w.st.generation = 0
      | _ => false
    | none => false
  | _ => false

namespace World

variable {w u w' : World} {a : Action}

/-! ### Before the first attachment -/

theorem Unused.park (h : w.Unused) : w.park.Unused := by
  unfold World.park
  split_ifs
  · exact h
  · exact h
  · exact fun hgen => by cases hgen

theorem Unused.moves (h : w.Unused) (hu : w.Moves a u) : u.Unused := by
  cases hu with
  | still ha hu =>
    rw [hu.only]
    exact h
  | finishes hB hatt hsend hq hdead => exact fun hgen => ⟨rfl, (h hgen).2⟩
  | fails hB hatt =>
    have hpolling : Unused { w with pumpB := .polling } := h
    exact hpolling.park
  | attaches ht hpc hu =>
    rw [hu.only]
    exact fun hgen => by cases hgen
  | lapses ht hdue hclaimed => exact fun hgen => ⟨(h hgen).1, by simp [(h hgen).2]⟩
  | expires ht hdue halive hatt hepoch =>
    exact fun hgen => ⟨(h hgen).1, by simp [endSession, (h hgen).2]⟩
  | takes | exits | abandons | putsBack | resumes | elapses => exact h

theorem Unused.step [Postcard] (h : w.Unused) (hstep : w.step a = some w') : w'.Unused := by
  obtain ⟨u, hu, hafter⟩ := step_cases hstep
  have hunused := h.moves hu
  cases hafter with
  | stays => exact hunused
  | ends ha reason => exact hunused
  | parks hreporter => exact hunused.park

/-! ### Where a session is -/

theorem Placed.endSession (w : World) (reason : String) : (w.endSession reason).Placed :=
  fun hdead => by cases hdead

/-- Parking starts the timer that keeps the session. -/
theorem Placed.park (h : w.Placed) : w.park.Placed := by
  unfold World.park
  split_ifs
  · exact h
  · exact .endSession w _
  · refine fun _ => .inl ⟨Nat.succ_pos _, .inr ⟨rfl, ?_⟩⟩
    exact ⟨_, List.mem_append_right _ List.mem_cons_self, rfl⟩

/-- A task that was starting the session goes on, unless its reply fails. -/
theorem Starting.still (h : w.Starting) (hgen : w.st.generation = 0)
    (hfails : startFails w a = false) (hu : w.Still a u) : u.Starting := by
  obtain ⟨k, t, tail, ht, hpc⟩ := h
  have hk : k < u.tasks.length := by
    rw [hu.tasks_length]
    exact (List.getElem?_eq_some_iff.1 ht).1
  obtain ⟨t₀, ht₀, hmoved⟩ := hu.task k u.tasks[k] (List.getElem?_eq_getElem hk)
  cases ht.symm.trans ht₀
  refine ⟨k, u.tasks[k], tail, List.getElem?_eq_getElem hk, ?_⟩
  rcases hmoved.replying true tail hpc with hsame | ⟨e, rfl⟩
  · exact hsame.trans hpc
  · simp [startFails, ht, hpc, hgen] at hfails

/-- A session that is kept, or starting, and is touched in neither respect. -/
theorem Placed.same (h : w.Placed) (hatt : u.st.attached = w.st.attached)
    (htimers : u.timers = w.timers) (hepoch : u.st.parkEpoch = w.st.parkEpoch)
    (hgen : u.st.generation = w.st.generation) (hdead : u.st.dead = w.st.dead)
    (hstarting : w.Starting → u.Starting) : u.Placed := by
  intro halive
  rw [hdead] at halive
  rw [hgen]
  refine (h halive).imp (fun hkept => ⟨hkept.1, ?_⟩) fun hstart => ⟨hstart.1, hstarting hstart.2⟩
  rw [Kept, hatt, htimers, hepoch]
  exact hkept.2

theorem Placed.moves (h : w.Placed) (hunused : w.Unused) (hfails : startFails w a = false)
    (hu : w.Moves a u) : u.Placed := by
  have same : ∀ {v : World}, v.st.attached = w.st.attached → v.timers = w.timers →
      v.st.parkEpoch = w.st.parkEpoch → v.st.generation = w.st.generation →
      v.st.dead = w.st.dead → v.tasks = w.tasks → v.Placed :=
    fun hatt htimers hepoch hgen hdead htasks => h.same hatt htimers hepoch hgen hdead
      fun ⟨k, t, tail, ht, hpc⟩ => ⟨k, t, tail, htasks ▸ ht, hpc⟩
  cases hu with
  | still ha hu =>
    have hstill := hu
    rw [hu.only] at hstill ⊢
    intro halive
    refine (h halive).imp (fun hkept => hkept) fun hstart => ⟨hstart.1, ?_⟩
    exact hstart.2.still hstart.1 hfails hstill
  | takes hB hatt hsend hq =>
    refine h.same rfl rfl rfl rfl rfl fun ⟨k, t, tail, ht, hpc⟩ => ?_
    refine ⟨k, _, tail, getElem?_modify_eq_some.2 ⟨t, ht, rfl⟩, ?_⟩
    split_ifs <;> exact hpc
  | finishes hB hatt hsend hq hdead => exact fun halive => by cases hdead.symm.trans halive
  | exits hB hatt hdead => exact fun halive => by cases hdead.symm.trans halive
  | abandons hB hover => exact same rfl rfl rfl rfl rfl rfl
  | putsBack hB hatt => exact same rfl rfl rfl rfl rfl rfl
  | fails hB hatt =>
    have hpolling : Placed { w with pumpB := .polling } := same rfl rfl rfl rfl rfl rfl
    exact hpolling.park
  | resumes peer received pings dec =>
    refine h.same rfl rfl rfl rfl rfl fun ⟨k, t, tail, ht, hpc⟩ => ?_
    exact ⟨k, t, tail, getElem?_concat_eq_some.2 (.inl ht), hpc⟩
  | attaches ht hpc hu =>
    rw [hu.only]
    exact fun _ => .inl ⟨Nat.succ_pos _, .inl rfl⟩
  | lapses ht hdue hclaimed =>
    intro halive
    rcases h halive with ⟨hgen, hatt | ⟨hatt, timer, htimer, hepoch⟩⟩ | ⟨hgen, -⟩
    · exact .inl ⟨hgen, .inl hatt⟩
    · -- the timer that lapses is not that of the last park
      refine .inl ⟨hgen, .inr ⟨hatt, timer, ?_, hepoch⟩⟩
      obtain ⟨j, hj⟩ := List.getElem?_of_mem htimer
      refine List.mem_eraseIdx_iff_getElem?.2 ⟨j, ?_, hj⟩
      rintro rfl
      cases ht.symm.trans hj
      exact hclaimed ⟨halive, hatt, hepoch.symm⟩
    · rw [(hunused hgen).2] at ht
      cases ht
  | expires ht hdue halive hatt hepoch => exact .endSession _ _
  | elapses d => exact same rfl rfl rfl rfl rfl rfl

/-- A step keeps the session in its place, unless the reply of its start fails. -/
theorem Placed.step [Postcard] (h : w.Placed) (hunused : w.Unused)
    (hfails : startFails w a = false) (hstep : w.step a = some w') : w'.Placed := by
  obtain ⟨u, hu, hafter⟩ := step_cases hstep
  have hplaced := h.moves hunused hfails hu
  cases hafter with
  | stays => exact hplaced
  | ends ha reason => exact .endSession u reason
  | parks hreporter => exact hplaced.park

/-- The reply of a start fails: the session is neither kept nor starting. -/
theorem orphan_of_startFails [Postcard] (hstreams : w.Streams) (hunused : w.Unused)
    (hfails : startFails w a = true) (hstep : w.step a = some w') :
    w'.id = w.id ∧ w'.reg = w.reg ∧ ¬ w'.Kept ∧ ¬ w'.Starting := by
  unfold startFails at hfails
  split at hfails
  · rename_i k e
    split at hfails
    · rename_i t ht
      split at hfails
      · rename_i tail hpc
        simp only [decide_eq_true_eq] at hfails
        obtain ⟨hatt, htimers⟩ := hunused hfails
        have heq : w' = w.setTask k { t with pc := .done (.error ("hello reply: " ++ e)) } := by
          simpa [World.step, ht, hpc] using hstep.symm
        subst heq
        refine ⟨rfl, rfl, ?_, ?_⟩
        · rintro (hatt' | ⟨-, timer, htimer, -⟩)
          · cases hatt.symm.trans hatt'
          · rw [setTask, htimers] at htimer
            cases htimer
        · rintro ⟨j, t', tail', ht', hpc'⟩
          rcases getElem?_set_eq_some ht' with ⟨-, rfl⟩ | ⟨hne, hj⟩
          · cases hpc'
          · have hk := (hstreams.fresh k t tail ht hpc).1
            have hj' := (hstreams.fresh j t' tail' hj hpc').1
            exact hne (hj'.trans hk.symm)
      · cases hfails
    · cases hfails
  · cases hfails

end World

/-! ## The listener -/

/-- The step is not the failure of the reply to a live session that nothing has attached. -/
def unorphaning (h : Host) : HostAction → Bool
  | .session i a =>
    match h.sessions[i]? with
    | some w => !(h.isLive i && startFails w a)
    | none => true
  | _ => true

namespace Host

/-- **No orphan**: a live session is attached, parked with the timer of its last park, or inside the
`start_session` that created it; and so, when one of its tasks has returned, it is attached or
parked, unless that task was not the one that is still starting it. -/
def NoOrphan (h : Host) : Prop :=
  ∀ (i : ℕ) (w : World), h.sessions[i]? = some w → h.isLive i = true →
    (w.Kept ∨ w.Starting) ∧
      ∀ (k : ℕ) (t : Task) (out : Except String String), w.tasks[k]? = some t → t.pc = .done out →
        w.Kept ∨ (k ≠ 0 ∧ w.Starting)

variable {h h' : Host} {i : ℕ} {w : World}

/-- A session is live if its id is, and no later session has the same. -/
theorem isLive_iff :
    h.isLive i = true ↔ ∃ w, h.sessions[i]? = some w ∧ w.id ∈ h.reg.live ∧
      ∀ (j : ℕ) (v : World), i < j → h.sessions[j]? = some v → v.id ≠ w.id := by
  unfold isLive
  split
  · rename_i w hw
    simp only [Bool.and_eq_true, List.contains_iff_mem, List.all_eq_true, decide_eq_true_eq]
    refine ⟨fun hlive => ⟨w, hw, hlive.1, fun j v hj hv => ?_⟩, ?_⟩
    · refine hlive.2 v (List.mem_iff_getElem?.2 ⟨j - (i + 1), ?_⟩)
      rw [List.getElem?_drop, Nat.add_sub_cancel' hj]
      exact hv
    · rintro ⟨w', hw', hlive, hlater⟩
      cases hw.symm.trans hw'
      refine ⟨hlive, fun v hv => ?_⟩
      obtain ⟨j, hj⟩ := List.mem_iff_getElem?.1 hv
      rw [List.getElem?_drop] at hj
      exact hlater _ v (by omega) hj
  · rename_i hnone
    simp [hnone]

/-- The sessions of a listener are where their streams, timers and counters say; the live ones are
not over. -/
structure Sound (h : Host) : Prop where
  streams : ∀ (i : ℕ) (w : World), h.sessions[i]? = some w → w.Streams ∧ w.Unused
  alive : ∀ (i : ℕ) (w : World), h.sessions[i]? = some w → h.isLive i = true → w.st.dead = false

/-- The invariant: the live sessions are in their places. -/
def AllPlaced (h : Host) : Prop :=
  ∀ (i : ℕ) (w : World), h.sessions[i]? = some w → h.isLive i = true → w.Placed

/-- What a step of the listener does to its sessions. -/
theorem step_sessions [Hmac] [Postcard] {a : HostAction} (hstep : h.step a = some h') :
    (h'.sessions = h.sessions ∧ h'.reg = h.reg) ∨
    (∃ i b w w', h.sessions[i]? = some w ∧ { w with reg := h.reg }.step b = some w' ∧
      h'.sessions = h.sessions.set i w' ∧ h'.reg = w'.reg ∧ (a = .session i b ∨ b.own = false)) ∨
    (∃ id creator grace pings dec, h'.sessions =
        h.sessions ++ [World.start id creator grace h.reg pings dec] ∧
      h'.reg = (World.start id creator grace h.reg pings dec).reg) ∨
    (∃ d, h'.sessions = h.sessions.map (fun w => { w with now := w.now + d }) ∧ h'.reg = h.reg) ∨
    h'.sessions = [] := by
  cases step_cases hstep with
  | accepts | turns => exact .inl ⟨rfl, rfl⟩
  | forwards hconn hpc hpresents hverdict =>
    exact .inl ⟨hverdict.same.2.1, hverdict.same.2.2⟩
  | starts hconn hpc hpresents hverdict => exact .inl ⟨hverdict.same.2.1, hverdict.same.2.2⟩
  | misses hconn hpc hpresents hverdict => exact .inl ⟨hverdict.same.2.1, hverdict.same.2.2⟩
  | resumes hconn hpc hpresents hverdict hw hw' =>
    exact .inr (.inl ⟨_, _, _, _, hw, hw', rfl, rfl, .inr rfl⟩)
  | connects id hconn hpc => exact .inr (.inr (.inl ⟨_, _, _, _, _, rfl, rfl⟩))
  | session hown hw hw' => exact .inr (.inl ⟨_, _, _, _, hw, hw', rfl, rfl, .inl rfl⟩)
  | elapses d => exact .inr (.inr (.inr (.inl ⟨d, rfl, rfl⟩)))
  | restarts => exact .inr (.inr (.inr (.inr rfl)))

/-- A session that is live after one of the sessions made a step was live before. -/
theorem isLive_of_set {j : ℕ} {w w' : World} (hw : h.sessions[i]? = some w)
    (hregistered : World.Registered { w with reg := h.reg } w')
    (hsessions : h'.sessions = h.sessions.set i w') (hreg : h'.reg = w'.reg)
    (hlive : h'.isLive j = true) : h.isLive j = true := by
  obtain ⟨v, hv, hmem, hlater⟩ := isLive_iff.1 hlive
  rw [hsessions] at hv hlater
  rw [hreg] at hmem
  have hid : ∃ v₀, h.sessions[j]? = some v₀ ∧ v₀.id = v.id := by
    rcases getElem?_set_eq_some hv with ⟨rfl, rfl⟩ | ⟨-, hj⟩
    · exact ⟨w, hw, hregistered.id.symm⟩
    · exact ⟨v, hj, rfl⟩
  obtain ⟨v₀, hv₀, hid⟩ := hid
  refine isLive_iff.2 ⟨v₀, hv₀, hid ▸ hregistered.live hmem, fun l x hl hx => ?_⟩
  rw [hid]
  by_cases hil : l = i
  · subst hil
    cases hw.symm.trans hx
    have hlen := (List.getElem?_eq_some_iff.1 hw).1
    exact hregistered.id ▸ hlater l w' hl (by simp [hlen])
  · exact hlater l x hl (by rw [List.getElem?_set_ne (Ne.symm hil)]; exact hx)

/-- A session that is live after another one was registered was live before. -/
theorem isLive_of_concat {j : ℕ} {v w : World} (hv : h.sessions[j]? = some v)
    (hsessions : h'.sessions = h.sessions ++ [w])
    (hreg : h'.reg = { h.reg with live := h.reg.live ++ [w.id] })
    (hlive : h'.isLive j = true) : h.isLive j = true := by
  obtain ⟨v', hv', hmem, hlater⟩ := isLive_iff.1 hlive
  rw [hsessions] at hv' hlater
  rw [hreg] at hmem
  have hj := (List.getElem?_eq_some_iff.1 hv).1
  rw [List.getElem?_append_left hj] at hv'
  cases hv.symm.trans hv'
  have hne : w.id ≠ v.id := hlater h.sessions.length w hj (by simp)
  refine isLive_iff.2 ⟨v, hv, ?_, fun l x hl hx => ?_⟩
  · rcases List.mem_append.1 hmem with hold | hnew
    · exact hold
    · exact absurd (List.mem_singleton.1 hnew).symm hne
  · have hlt := (List.getElem?_eq_some_iff.1 hx).1
    exact hlater l x hl (by rw [List.getElem?_append_left hlt]; exact hx)

/-- Time passes for the sessions, which makes none of them live. -/
theorem isLive_of_map {j d : ℕ} (hsessions : h'.sessions =
      h.sessions.map fun w => { w with now := w.now + d }) (hreg : h'.reg = h.reg)
    (hlive : h'.isLive j = true) : h.isLive j = true := by
  obtain ⟨v, hv, hmem, hlater⟩ := isLive_iff.1 hlive
  rw [hsessions, List.getElem?_map] at hv
  obtain ⟨w, hw, rfl⟩ := Option.map_eq_some_iff.1 hv
  refine isLive_iff.2 ⟨w, hw, hreg ▸ hmem, fun l x hl hx => ?_⟩
  exact hlater l { x with now := x.now + d } hl (by rw [hsessions, List.getElem?_map, hx]; rfl)

/-- What holds of the sessions and the registry is not changed by what happens to connections. -/
theorem isLive_congr {j : ℕ} (hsessions : h'.sessions = h.sessions) (hreg : h'.reg = h.reg) :
    h'.isLive j = h.isLive j := by
  simp only [isLive, hsessions, hreg]

section Steps

variable [Hmac] [Postcard] {a : HostAction}

/-- **Every step keeps the listener sound.** -/
theorem Sound.step (hs : h.Sound) (hstep : h.step a = some h') : h'.Sound := by
  rcases step_sessions hstep with ⟨hsessions, hreg⟩ |
    ⟨i, b, w, w', hw, hw', hsessions, hreg, -⟩ |
    ⟨id, creator, grace, pings, dec, hsessions, hreg⟩ | ⟨d, hsessions, hreg⟩ | hsessions
  · refine ⟨fun j v hv => hs.streams j v (hsessions ▸ hv), fun j v hv hlive => ?_⟩
    exact hs.alive j v (hsessions ▸ hv) (by rw [← isLive_congr hsessions hreg]; exact hlive)
  · obtain ⟨hstreams, hunused⟩ := hs.streams i w hw
    have hstreams' : World.Streams { w with reg := h.reg } :=
      ⟨hstreams.detached, hstreams.writing, hstreams.fresh⟩
    have hunused' : World.Unused { w with reg := h.reg } := hunused
    have hregistered := World.registered_step hw'
    refine ⟨fun j v hv => ?_, fun j v hv hlive => ?_⟩
    · rw [hsessions] at hv
      rcases getElem?_set_eq_some hv with ⟨rfl, rfl⟩ | ⟨-, hj⟩
      · exact ⟨hstreams'.step hw', hunused'.step hw'⟩
      · exact hs.streams j v hj
    · have hlive₀ := isLive_of_set hw hregistered hsessions hreg hlive
      rw [hsessions] at hv
      rcases getElem?_set_eq_some hv with ⟨rfl, rfl⟩ | ⟨-, hj⟩
      · -- a session that ended in this step is no longer registered
        by_contra hdead
        rw [Bool.not_eq_false] at hdead
        rcases hregistered.ended hdead with hold | hnot
        · cases (hs.alive _ w hw hlive₀).symm.trans hold
        · obtain ⟨v', hv', hmem, -⟩ := isLive_iff.1 hlive
          rw [hsessions] at hv'
          cases hv.symm.trans hv'
          rw [hreg, hregistered.id] at hmem
          exact hnot hmem
      · exact hs.alive j v hj hlive₀
  · refine ⟨fun j v hv => ?_, fun j v hv hlive => ?_⟩
    · rw [hsessions] at hv
      rcases getElem?_concat_eq_some.1 hv with hj | ⟨-, rfl⟩
      · exact hs.streams j v hj
      · exact ⟨streams_start id creator grace h.reg pings dec, fun _ => ⟨rfl, rfl⟩⟩
    · rw [hsessions] at hv
      rcases getElem?_concat_eq_some.1 hv with hj | ⟨-, rfl⟩
      · exact hs.alive j v hj (isLive_of_concat hj hsessions hreg hlive)
      · rfl
  · refine ⟨fun j v hv => ?_, fun j v hv hlive => ?_⟩
    · rw [hsessions, List.getElem?_map] at hv
      obtain ⟨w, hw, rfl⟩ := Option.map_eq_some_iff.1 hv
      obtain ⟨hstreams, hunused⟩ := hs.streams j w hw
      exact ⟨⟨hstreams.detached, hstreams.writing, hstreams.fresh⟩, hunused⟩
    · have hlive₀ := isLive_of_map hsessions hreg hlive
      rw [hsessions, List.getElem?_map] at hv
      obtain ⟨w, hw, rfl⟩ := Option.map_eq_some_iff.1 hv
      exact hs.alive j w hw hlive₀
  · refine ⟨fun j v hv => ?_, fun j v hv _ => ?_⟩ <;> simp [hsessions] at hv

/-- A step that is unorphaning keeps the live sessions in their places. -/
theorem AllPlaced.step (hp : h.AllPlaced) (hs : h.Sound) (hunorphaning : unorphaning h a = true)
    (hstep : h.step a = some h') : h'.AllPlaced := by
  intro j v hv hlive
  rcases step_sessions hstep with ⟨hsessions, hreg⟩ |
    ⟨i, b, w, w', hw, hw', hsessions, hreg, hb⟩ |
    ⟨id, creator, grace, pings, dec, hsessions, hreg⟩ | ⟨d, hsessions, hreg⟩ | hsessions
  · exact hp j v (hsessions ▸ hv) (by rw [← isLive_congr hsessions hreg]; exact hlive)
  · have hlive₀ := isLive_of_set hw (World.registered_step hw') hsessions hreg hlive
    rw [hsessions] at hv
    rcases getElem?_set_eq_some hv with ⟨rfl, rfl⟩ | ⟨-, hj⟩
    · have hfails : startFails { w with reg := h.reg } b = false := by
        rcases hb with rfl | hown
        · have hfails : startFails w b = false := by
            simpa [unorphaning, hw, hlive₀] using hunorphaning
          exact hfails
        · cases b <;> first | rfl | cases hown
      have hplaced : World.Placed { w with reg := h.reg } := hp _ w hw hlive₀
      exact hplaced.step (hs.streams _ w hw).2 hfails hw'
    · exact hp j v hj hlive₀
  · rw [hsessions] at hv
    rcases getElem?_concat_eq_some.1 hv with hj | ⟨-, rfl⟩
    · exact hp j v hj (isLive_of_concat hj hsessions hreg hlive)
    · exact fun _ => .inr ⟨rfl, 0, _, [], rfl, rfl⟩
  · have hlive₀ := isLive_of_map hsessions hreg hlive
    rw [hsessions, List.getElem?_map] at hv
    obtain ⟨w, hw, rfl⟩ := Option.map_eq_some_iff.1 hv
    exact hp j w hw hlive₀
  · simp [hsessions] at hv

end Steps

/-- Sessions in their places are no orphans. -/
theorem AllPlaced.noOrphan (hp : h.AllPlaced) (hs : h.Sound) : h.NoOrphan := by
  intro i w hw hlive
  have hplace := hp i w hw hlive (hs.alive i w hw hlive)
  refine ⟨hplace.imp And.right And.right, fun k t out ht hdone => ?_⟩
  rcases hplace with ⟨-, hkept⟩ | ⟨-, hstarting⟩
  · exact .inl hkept
  · refine .inr ⟨?_, hstarting⟩
    rintro rfl
    obtain ⟨j, t', tail, ht', hpc⟩ := hstarting
    obtain ⟨rfl, -⟩ := (hs.streams i w hw).1.fresh j t' tail ht' hpc
    cases ht.symm.trans ht'
    cases hdone.symm.trans hpc

/-- A step that is not unorphaning leaves an orphan. -/
theorem unorphaning_of_noOrphan [Hmac] [Postcard] {a : HostAction} (hs : h.Sound)
    (hstep : h.step a = some h') (hnone : h'.NoOrphan) : unorphaning h a = true := by
  by_contra hfail
  unfold unorphaning at hfail
  split at hfail
  · rename_i i b
    split at hfail
    · rename_i w hw
      simp only [Bool.not_eq_true', Bool.not_eq_false, Bool.and_eq_true] at hfail
      obtain ⟨hlive, hfails⟩ := hfail
      have hact : h.act i b = some h' := by
        simp only [step] at hstep
        split_ifs at hstep
        exact hstep
      obtain ⟨w₀, w', hw₀, hw', rfl⟩ := act_eq_some hact
      cases hw.symm.trans hw₀
      obtain ⟨hstreams, hunused⟩ := hs.streams i w hw
      have hstreams' : World.Streams { w with reg := h.reg } :=
        ⟨hstreams.detached, hstreams.writing, hstreams.fresh⟩
      obtain ⟨hid, hreg, hkept, hstarting⟩ :=
        World.orphan_of_startFails hstreams' hunused hfails hw'
      -- the session is live still, and it is the orphan
      have hlen := (List.getElem?_eq_some_iff.1 hw).1
      have hget : (h.sessions.set i w')[i]? = some w' := by simp [hlen]
      obtain ⟨v, hv, hmem, hlater⟩ := isLive_iff.1 hlive
      cases hw.symm.trans hv
      have hlive' : isLive { h with sessions := h.sessions.set i w', reg := w'.reg } i = true := by
        refine isLive_iff.2 ⟨w', hget, ?_, fun j x hj hx => ?_⟩
        · rw [hid, hreg]
          exact hmem
        · rw [hid]
          exact hlater j x hj (by rw [← hx, List.getElem?_set_ne (Nat.ne_of_lt hj)])
      exact (hnone i w' hget hlive').1.elim hkept hstarting
    · exact hfail rfl
  · exact hfail rfl

theorem sound_boot (token : Option Bytes) (listenerId : Bytes) (grace : ℕ) (file : List String)
    (readable : Bool) : (boot token listenerId grace file readable).Sound :=
  ⟨fun _ _ h => by simp [boot] at h, fun _ _ h => by simp [boot] at h⟩

end Host

/-! ## Runs -/

section Runs

variable [Hmac] [Postcard]

/-- **No orphaned session in the registry**, as long as the reply to a live session that nothing has
attached yet is not lost: a run of the listener reaches only states in which every live session is
attached, parked with the timer of its last park, or inside the `start_session` that created it, if
and only if its steps are unorphaning.

**Proof sketch.** A session is starting until its first attachment, kept from then on until it
ends, and unregistered when it ends. The reply of its start is what leads from the first to the
second. -/
theorem no_orphan {token : Option Bytes} {listenerId : Bytes} {grace : ℕ} {file : List String}
    {readable : Bool} {as : List HostAction} {h : Host}
    (hrun : Run.run Host.step (Host.boot token listenerId grace file readable) as = some h) :
    Run.Along Host.step (fun h a => unorphaning h a = true)
        (Host.boot token listenerId grace file readable) as ↔
      ∀ bs u, bs <+: as →
        Run.run Host.step (Host.boot token listenerId grace file readable) bs = some u →
        u.NoOrphan := by
  have hboot := Host.sound_boot token listenerId grace file readable
  refine ⟨fun halong bs u hbs hu => ?_, fun hnone => ?_⟩
  · have hinv := Run.run_inv (P := fun h => h.Sound ∧ h.AllPlaced)
      (fun _ _ _ h hC hs => ⟨h.1.step hs, h.2.step h.1 hC hs⟩)
      ⟨hboot, fun _ _ h => by simp [Host.boot] at h⟩ (halong.initial hbs) hu
    exact hinv.2.noOrphan hinv.1
  · exact Run.Along.of_reached (P := Host.Sound) (fun _ _ _ h hs => h.step hs)
      (fun _ _ _ h hs hnone => Host.unorphaning_of_noOrphan h hs hnone) hboot hrun hnone

/-- There are no orphans, as it should be. -/
def NeverOrphaned : Prop :=
  ∀ (token : Option Bytes) (listenerId : Bytes) (grace : ℕ) (file : List String) (readable : Bool)
    (as : List HostAction) (h : Host),
    Run.run Host.step (Host.boot token listenerId grace file readable) as = some h → h.NoOrphan

end Runs

/-- A client of an open listener opens a session, and its connection is lost while the reply is
written. -/
def lostWhileStarting : List HostAction :=
  [.accept [1] alpnV3, .opened 0 true,
    .heard 0 (.chunk (@encodeHello Postcard.golden ⟨[], none⟩)) false, .connected 0 sampleId,
    .session 0 (.replied 0 (some "lost"))]

/-- The session is live, unattached, without a timer, and its task has returned. -/
theorem not_neverOrphaned : ¬ @NeverOrphaned Hmac.plain Postcard.golden := by
  intro h
  have hrun : ∃ u w, @Run.run _ _ (@Host.step Hmac.plain Postcard.golden)
      (Host.boot none [] 600 [] true) lostWhileStarting = some u ∧ u.sessions[0]? = some w ∧
      u.isLive 0 = true ∧ w.st.attached = false ∧ w.timers = [] ∧
      ∃ t, w.tasks = [t] ∧ ∃ out, t.pc = .done out :=
    ⟨_, _, rfl, rfl, by decide, rfl, rfl, _, rfl, _, rfl⟩
  obtain ⟨u, w, hu, hw, hlive, hatt, htimers, t, htasks, out, hdone⟩ := hrun
  rcases (h none [] 600 [] true lostWhileStarting u hu 0 w hw hlive).1 with hkept | hstarting
  · rcases hkept with hatt' | ⟨-, timer, htimer, -⟩
    · cases hatt.symm.trans hatt'
    · rw [htimers] at htimer
      cases htimer
  · obtain ⟨k, t', tail, ht', hpc⟩ := hstarting
    rw [htasks] at ht'
    obtain ⟨-, rfl⟩ := getElem?_singleton_eq_some ht'
    cases hdone.symm.trans hpc

/-- A client opens a session, and its connection is lost after the reply. -/
def lostAfterStarting : List HostAction :=
  [.accept [1] alpnV3, .opened 0 true,
    .heard 0 (.chunk (@encodeHello Postcard.golden ⟨[], none⟩)) false, .connected 0 sampleId,
    .session 0 (.replied 0 none), .session 0 (.read 0 .failed)]

/-- Along it there are no orphans. -/
theorem no_orphan_lostAfterStarting :
    ∃ u, @Run.run _ _ (@Host.step Hmac.plain Postcard.golden)
        (Host.boot none [] 600 [] true) lostAfterStarting = some u ∧ u.isLive 0 = true ∧
      u.NoOrphan :=
  ⟨_, rfl, by decide, (@no_orphan Hmac.plain Postcard.golden none [] 600 [] true lostAfterStarting
    _ rfl).1 (by decide) lostAfterStarting _ (List.prefix_refl _) rfl⟩

end Listener
