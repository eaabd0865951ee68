import Wosh.SshCore.Core

set_option relaxedAutoImplicit false
set_option autoImplicit false

/-!
# Closing the engine

`closeWith` of `ssh-core/core/session.go` closes the engine under its mutex, and then every bulk channel
without it: a snapshot of the registry is taken, and the channels of the snapshot are closed one after
the other. Channels are opened, and close, all the while.

## Main definitions

* `SshCore.System.Torn` — how far a teardown has come.

## Main results

* `SshCore.closed_terminal` — a closed engine stays closed, with its reason; once the `closeWith` that
  closed it has returned, so is every channel that was ever opened.
-/

namespace SshCore

open Run Threads

/-- The sections of the one `closeWith` that closes the engine. -/
def Section.isTeardown : Section → Bool
  | .closeAll _ | .closed => true
  | _ => false

/-- The section that drops a channel from the registry. -/
def Section.isForget : Section → Bool
  | .forget _ => true
  | _ => false

/-- The sections that touch neither the state of the engine nor a channel. -/
def Section.isPlain : Section → Bool
  | .closeWith _ | .closeAll _ | .closed | .openChannel _ _ | .chan _ _ | .forget _ => false
  | _ => true

/-- They are in no teardown, and forget no channel. -/
theorem Section.not_of_isPlain {x : Section} (h : x.isPlain = true) :
    x.isTeardown = false ∧ ∀ k, x ≠ .forget k := by
  cases x <;> simp_all [Section.isPlain, Section.isTeardown]

namespace Core

variable {s s' : Core} {k : ℕ}

/-- Channel `k` was made, and is not closed. -/
def Open (s : Core) (k : ℕ) : Prop := ∃ c, s.chans[k]? = some c ∧ c.state ≠ .channelClosed

/-- Channel `k` was made, and is closed. -/
def Shut (s : Core) (k : ℕ) : Prop := ∃ c, s.chans[k]? = some c ∧ c.state = .channelClosed

/-- A channel that is shut is not open. -/
theorem Shut.not_open (h : s.Shut k) : ¬ s.Open k := by
  rintro ⟨d, hd, hopen⟩
  obtain ⟨c, hc, hclosed⟩ := h
  obtain rfl : c = d := Option.some.inj (hc.symm.trans hd)
  exact hopen hclosed

/-- What every section but those of a teardown, and every step of a goroutine, does to the registry:
no channel is reopened, open channels stay registered, and an empty registry stays empty. -/
structure Tends (s s' : Core) : Prop where
  closed : s'.eng.state = .closed ↔ s.eng.state = .closed
  returned : s'.closeReturned = s.closeReturned
  opens : ∀ k, s'.Open k → s.Open k
  shut : ∀ k, s.Shut k → s'.Shut k
  kept : ∀ k, s'.Open k → k ∈ s.eng.channels → k ∈ s'.eng.channels
  emptied : s.eng.channels = [] → s'.eng.channels = []

theorem Tends.of_eng {e : Engine} (hclosed : e.state = .closed ↔ s.eng.state = .closed)
    (hchannels : e.channels = s.eng.channels) : Tends s { s with eng := e } :=
  ⟨hclosed, rfl, fun _ h => h, fun _ h => h, fun _ _ h => by rw [hchannels]; exact h,
    fun h => hchannels.trans h⟩

theorem Tends.of_frame {e : Engine} (h : Engine.Frame s.eng e) : Tends s { s with eng := e } :=
  .of_eng h.closed h.channels

theorem Tends.refl (s : Core) : Tends s s := .of_eng Iff.rfl rfl

/-- The state of a channel that took a step is the one that it reached. -/
theorem getElem?_set_chan {i : ℕ} {c : Channel} (hi : s.chans[i]? = some c) (c' : Channel) :
    (s.chans.set i c')[i]? = some c' := by
  rw [List.getElem?_set_self (List.getElem?_eq_some_iff.1 hi).1]

/-- A channel's step reopens nothing. -/
theorem Tends.set {i : ℕ} {c c' : Channel} {a : ChannelAction} (hi : s.chans[i]? = some c)
    (hstep : c.step a = some c') : Tends s { s with chans := s.chans.set i c' } := by
  have hself := getElem?_set_chan hi c'
  refine ⟨Iff.rfl, rfl, ?_, ?_, fun _ _ h => h, fun h => h⟩
  · rintro k ⟨d, hd, hopen⟩
    by_cases hik : i = k
    · subst hik
      obtain rfl : c' = d := Option.some.inj (hself.symm.trans hd)
      exact ⟨c, hi, fun hclosed => hopen (Channel.closed_step hclosed hstep).1⟩
    · refine ⟨d, ?_, hopen⟩
      rwa [List.getElem?_set_ne hik] at hd
  · rintro k ⟨d, hd, hclosed⟩
    by_cases hik : i = k
    · subst hik
      obtain rfl : c = d := Option.some.inj (hi.symm.trans hd)
      exact ⟨c', hself, (Channel.closed_step hclosed hstep).1⟩
    · refine ⟨d, ?_, hclosed⟩
      rwa [List.getElem?_set_ne hik]

/-- Forgetting a channel that is closed keeps the open ones. -/
theorem Tends.forget (h : s.Shut k) :
    Tends s { s with eng := { s.eng with channels := s.eng.channels.erase k } } := by
  refine ⟨Iff.rfl, rfl, fun _ h => h, fun _ h => h, fun j hj hmem => ?_, fun hempty => ?_⟩
  · have hne : j ≠ k := fun heq => h.not_open (heq ▸ hj)
    exact (List.mem_erase_of_ne hne).2 hmem
  · show s.eng.channels.erase k = []
    rw [hempty]
    rfl

/-- What a channel's section does. -/
theorem tends_execChan (s : Core) (i : ℕ) (a : ChannelAction) : Tends s (s.execChan i a).1 := by
  unfold execChan
  split
  · exact .refl s
  · rename_i c hi
    split
    · exact .refl s
    · rename_i c' hstep
      exact .set hi hstep

/-- A channel's section leaves signals to give, and a closed channel to forget. -/
theorem mem_execChan {i : ℕ} {a : ChannelAction} {x : Section} (hx : x ∈ (s.execChan i a).2) :
    x.isTeardown = false ∧ ∀ k, x = .forget k → (s.execChan i a).1.Shut k := by
  unfold execChan at hx ⊢
  split at hx
  · cases hx
  · rename_i c hi
    split at hx
    · cases hx
    · rename_i c' hstep
      rcases List.mem_append.1 hx with hx | hx
      · rcases List.mem_append.1 hx with hx | hx
        · obtain rfl := List.eq_of_mem_replicate hx
          exact ⟨rfl, fun k hk => by cases hk⟩
        · obtain rfl := List.eq_of_mem_replicate hx
          exact ⟨rfl, fun k hk => by cases hk⟩
      · split_ifs at hx with hcloses
        · obtain rfl := List.mem_singleton.1 hx
          refine ⟨rfl, fun k hk => ?_⟩
          cases hk
          exact ⟨c', getElem?_set_chan hi c', hcloses.2⟩
        · cases hx

/-- A channel that is marked is closed. -/
theorem closed_execChan (s : Core) (i : ℕ) (reason : String) :
    ¬ (s.execChan i (.markClosed reason)).1.Open i := by
  unfold execChan
  split
  · rename_i hi
    rintro ⟨d, hd, -⟩
    rw [hi] at hd
    cases hd
  · rename_i c hi
    have hshut : Shut { s with chans := s.chans.set i (c.markClosed reason) } i :=
      ⟨_, getElem?_set_chan hi _, Channel.state_markClosed c reason⟩
    exact hshut.not_open

/-- A plain section keeps the registry, and leaves plain sections. -/
theorem exec_plain {x : Section} {ys : List Section} (hx : x.isPlain = true)
    (h : s.exec x = .done (s', ys)) : Tends s s' ∧ ∀ y ∈ ys, y.isPlain = true := by
  have hnil : ∀ y ∈ ([] : List Section), y.isPlain = true := fun _ hy => absurd hy List.not_mem_nil
  cases x <;> simp only [exec, Outcome.map_eq_done, Outcome.done.injEq, Prod.mk.injEq] at h
  case read =>
    obtain ⟨rfl, rfl⟩ := h
    exact ⟨.refl s, hnil⟩
  case engine a =>
    obtain ⟨e, he, rfl, rfl⟩ := h
    exact ⟨.of_frame (Engine.frame_attempt he), hnil⟩
  case recordWire reason =>
    obtain ⟨rfl, rfl⟩ := h
    refine ⟨.of_eng ?_ ?_, hnil⟩ <;> unfold Engine.recordWire <;> split_ifs <;> rfl
  case failDecision =>
    split_ifs at h
    · cases h
      exact ⟨.refl s, hnil⟩
    · obtain ⟨-, hdone⟩ := Chan.attemptClose_eq_done.1 h
      cases hdone
      exact ⟨.of_frame (Engine.frame_failDecision s.eng), hnil⟩
  case failPrompts =>
    split_ifs at h
    · cases h
      exact ⟨.refl s, hnil⟩
    · obtain ⟨-, hdone⟩ := Chan.attemptClose_eq_done.1 h
      cases hdone
      exact ⟨.of_frame (Engine.frame_failPrompts s.eng), hnil⟩
  case failSign =>
    split_ifs at h
    · cases h
      exact ⟨.refl s, hnil⟩
    · obtain ⟨-, hdone⟩ := Chan.attemptClose_eq_done.1 h
      cases hdone
      exact ⟨.of_frame (Engine.frame_failSign s.eng), hnil⟩
  case look data =>
    obtain ⟨rfl, rfl⟩ := h
    refine ⟨.refl s, fun y hy => ?_⟩
    obtain rfl := List.mem_singleton.1 hy
    split_ifs <;> rfl
  case put rest =>
    split_ifs at h
    · cases h
      exact ⟨.refl s, hnil⟩
    · cases h
      refine ⟨⟨Iff.rfl, rfl, fun _ h => h, fun _ h => h, fun _ _ h => h, fun h => h⟩, fun y hy => ?_⟩
      obtain rfl := List.mem_singleton.1 hy
      rfl
  case breakWire reason =>
    obtain ⟨rfl, rfl⟩ := h
    exact ⟨.of_eng Iff.rfl rfl, hnil⟩
  case failCreds =>
    obtain ⟨rfl, rfl⟩ := h
    exact ⟨.of_eng Iff.rfl rfl, hnil⟩
  case closeConn =>
    obtain ⟨rfl, rfl⟩ := h
    exact ⟨.of_eng Iff.rfl rfl, hnil⟩
  case buffer data =>
    obtain ⟨rfl, rfl⟩ := h
    exact ⟨.of_eng Iff.rfl rfl, hnil⟩
  all_goals cases hx

end Core

namespace System

variable {p p' : System} {i : ℕ} {x : Section} {xs ys : List Section} {s' : Core}

/-- No thread but this one is in a teardown. -/
def OnlyThread (p : System) (i : ℕ) : Prop :=
  ∀ j, j ≠ i → ∀ x ∈ p.threads j, x.isTeardown = false

/-- How far a teardown has come. -/
inductive Torn (p : System) : Prop
  /-- The engine is not closed, and every open channel is registered. -/
  | live (hstate : p.shared.eng.state ≠ .closed) (hreturned : p.shared.closeReturned = false)
    (hthreads : ∀ i, ∀ x ∈ p.threads i, x.isTeardown = false)
    (hregistered : ∀ k, p.shared.Open k → k ∈ p.shared.eng.channels)
  /-- The thread that closed the engine is about to take the snapshot. -/
  | snapshot (i : ℕ) (reason : String) (rest : List Section)
    (hstate : p.shared.eng.state = .closed) (hreturned : p.shared.closeReturned = false)
    (hthread : p.threads i = .closeAll reason :: .closed :: rest)
    (hrest : ∀ x ∈ rest, x.isTeardown = false) (honly : p.OnlyThread i)
    (hregistered : ∀ k, p.shared.Open k → k ∈ p.shared.eng.channels)
  /-- It marks the channels of the snapshot. -/
  | marking (i : ℕ) (marks rest : List Section)
    (hstate : p.shared.eng.state = .closed) (hreturned : p.shared.closeReturned = false)
    (hthread : p.threads i = marks ++ .closed :: rest)
    (hmarks : ∀ x ∈ marks, x.isTeardown = false) (hrest : ∀ x ∈ rest, x.isTeardown = false)
    (honly : p.OnlyThread i) (hempty : p.shared.eng.channels = [])
    (hopen : ∀ k, p.shared.Open k → ∃ reason, .chan k (.markClosed reason) ∈ marks)
  /-- It has returned. -/
  | returned (hstate : p.shared.eng.state = .closed) (hreturned : p.shared.closeReturned = true)
    (hthreads : ∀ i, ∀ x ∈ p.threads i, x.isTeardown = false)
    (hempty : p.shared.eng.channels = []) (hopen : ∀ k, ¬ p.shared.Open k)

/-- A channel that is about to be forgotten is closed. -/
def Forgets (p : System) : Prop := ∀ i k, .forget k ∈ p.threads i → p.shared.Shut k

/-- What a goroutine does keeps the phase. -/
theorem Torn.share (h : p.Torn) (ht : Core.Tends p.shared s') : Torn { p with shared := s' } := by
  cases h with
  | live hstate hreturned hthreads hregistered =>
    exact .live (fun hclosed => hstate (ht.closed.1 hclosed)) (ht.returned.trans hreturned) hthreads
      fun k hk => ht.kept k hk (hregistered k (ht.opens k hk))
  | snapshot i reason rest hstate hreturned hthread hrest honly hregistered =>
    exact .snapshot i reason rest (ht.closed.2 hstate) (ht.returned.trans hreturned) hthread hrest honly
      fun k hk => ht.kept k hk (hregistered k (ht.opens k hk))
  | marking i marks rest hstate hreturned hthread hmarks hrest honly hempty hopen =>
    exact .marking i marks rest (ht.closed.2 hstate) (ht.returned.trans hreturned) hthread hmarks
      hrest honly (ht.emptied hempty) fun k hk => hopen k (ht.opens k hk)
  | returned hstate hreturned hthreads hempty hopen =>
    exact .returned (ht.closed.2 hstate) (ht.returned.trans hreturned) hthreads (ht.emptied hempty)
      fun k hk => hopen k (ht.opens k hk)

/-- A list of sections without a teardown in place of the first section of a thread. -/
theorem noTeardown_update {f : ℕ → List Section} (hf : ∀ j, ∀ z ∈ f j, z.isTeardown = false)
    (hxs : ∀ z ∈ xs, z.isTeardown = false) (j : ℕ) :
    ∀ z ∈ Function.update f i xs j, z.isTeardown = false := by
  by_cases hj : j = i
  · subst hj
    rwa [Function.update_self]
  · rw [Function.update_of_ne hj]
    exact hf j

/-- A thread that goes through a section which is not of a teardown keeps the phase. -/
theorem Torn.advance (h : p.Torn) (hthread : p.threads i = x :: xs) (hx : x.isTeardown = false)
    (hys : ∀ y ∈ ys, y.isTeardown = false) (ht : Core.Tends p.shared s')
    (hmark : ∀ k reason, x = .chan k (.markClosed reason) → ¬ s'.Open k) :
    Torn ⟨s', Function.update p.threads i (ys ++ xs)⟩ := by
  have hmem : ∀ z ∈ xs, z ∈ p.threads i := fun z hz => hthread ▸ List.mem_cons_of_mem x hz
  have happend : (∀ z ∈ xs, z.isTeardown = false) → ∀ z ∈ ys ++ xs, z.isTeardown = false :=
    fun hxs z hz => (List.mem_append.1 hz).elim (hys z) (hxs z)
  have honly' : ∀ {j}, p.OnlyThread j → i ≠ j →
      OnlyThread ⟨s', Function.update p.threads i (ys ++ xs)⟩ j := by
    intro j honly hij l hl
    by_cases hli : l = i
    · subst hli
      show ∀ z ∈ Function.update p.threads l (ys ++ xs) l, _
      rw [Function.update_self]
      exact happend fun z hz => honly l hl z (hmem z hz)
    · show ∀ z ∈ Function.update p.threads i (ys ++ xs) l, _
      rw [Function.update_of_ne hli]
      exact honly l hl
  cases h with
  | live hstate hreturned hthreads hregistered =>
    exact .live (fun hclosed => hstate (ht.closed.1 hclosed)) (ht.returned.trans hreturned)
      (noTeardown_update hthreads (happend fun z hz => hthreads i z (hmem z hz)))
      fun k hk => ht.kept k hk (hregistered k (ht.opens k hk))
  | snapshot j reason rest hstate hreturned hthread' hrest honly hregistered =>
    have hij : i ≠ j := by
      rintro rfl
      rw [hthread, List.cons.injEq] at hthread'
      obtain ⟨rfl, -⟩ := hthread'
      cases hx
    exact .snapshot j reason rest (ht.closed.2 hstate) (ht.returned.trans hreturned)
      ((Function.update_of_ne hij.symm _ _).trans hthread') hrest (honly' honly hij)
      fun k hk => ht.kept k hk (hregistered k (ht.opens k hk))
  | marking j marks rest hstate hreturned hthread' hmarks hrest honly hempty hopen =>
    by_cases hij : i = j
    · subst hij
      cases marks with
      | nil =>
        rw [hthread, List.nil_append, List.cons.injEq] at hthread'
        obtain ⟨rfl, -⟩ := hthread'
        cases hx
      | cons z marks =>
        rw [hthread, List.cons_append, List.cons.injEq] at hthread'
        obtain ⟨rfl, rfl⟩ := hthread'
        refine .marking i (ys ++ marks) rest (ht.closed.2 hstate) (ht.returned.trans hreturned)
          ?_ ?_ hrest ?_ (ht.emptied hempty) fun k hk => ?_
        · exact (Function.update_self _ _ _).trans (List.append_assoc _ _ _).symm
        · intro z hz
          exact (List.mem_append.1 hz).elim (hys z) fun hz => hmarks z (List.mem_cons_of_mem _ hz)
        · intro l hl
          show ∀ z ∈ Function.update p.threads i _ l, _
          rw [Function.update_of_ne hl]
          exact honly l hl
        · -- the channel that this section marks is closed now
          obtain ⟨reason, hmem'⟩ := hopen k (ht.opens k hk)
          rcases List.mem_cons.1 hmem' with heq | hmem'
          · exact absurd hk (hmark k reason heq.symm)
          · exact ⟨reason, List.mem_append_right _ hmem'⟩
    · exact .marking j marks rest (ht.closed.2 hstate) (ht.returned.trans hreturned)
        ((Function.update_of_ne (Ne.symm hij) _ _).trans hthread') hmarks hrest (honly' honly hij)
        (ht.emptied hempty) fun k hk => hopen k (ht.opens k hk)
  | returned hstate hreturned hthreads hempty hopen =>
    exact .returned (ht.closed.2 hstate) (ht.returned.trans hreturned)
      (noTeardown_update hthreads (happend fun z hz => hthreads i z (hmem z hz))) (ht.emptied hempty)
      fun k hk => hopen k (ht.opens k hk)

/-- A call that begins keeps the phase. -/
theorem Torn.call (h : p.Torn) (hthread : p.threads i = [])
    (hxs : ∀ z ∈ xs, z.isTeardown = false) :
    Torn { p with threads := Function.update p.threads i xs } := by
  have honly' : ∀ {j}, p.OnlyThread j →
      OnlyThread { p with threads := Function.update p.threads i xs } j := by
    intro j honly l hl
    show ∀ z ∈ Function.update p.threads i xs l, _
    by_cases hli : l = i
    · subst hli
      rwa [Function.update_self]
    · rw [Function.update_of_ne hli]
      exact honly l hl
  have hne : ∀ {j : ℕ} {z : Section}, z ∈ p.threads j → j ≠ i := by
    rintro j z hz rfl
    rw [hthread] at hz
    cases hz
  cases h with
  | live hstate hreturned hthreads hregistered =>
    exact .live hstate hreturned (noTeardown_update hthreads hxs) hregistered
  | snapshot j reason rest hstate hreturned hthread' hrest honly hregistered =>
    have hji : j ≠ i := hne (hthread' ▸ List.mem_cons_self)
    exact .snapshot j reason rest hstate hreturned ((Function.update_of_ne hji _ _).trans hthread')
      hrest (honly' honly) hregistered
  | marking j marks rest hstate hreturned hthread' hmarks hrest honly hempty hopen =>
    have hji : j ≠ i := hne (hthread' ▸ List.mem_append_right _ List.mem_cons_self)
    exact .marking j marks rest hstate hreturned ((Function.update_of_ne hji _ _).trans hthread')
      hmarks hrest (honly' honly) hempty hopen
  | returned hstate hreturned hthreads hempty hopen =>
    exact .returned hstate hreturned (noTeardown_update hthreads hxs) hempty hopen

/-- An entry point is in no teardown, and forgets no channel. -/
theorem mem_sections {e : Export} (hx : x ∈ e.sections) :
    x.isTeardown = false ∧ ∀ k, x ≠ .forget k := by
  have hall : e.sections.all (fun x => !x.isTeardown && !x.isForget) = true := by
    cases e <;> rfl
  have hboth := List.all_eq_true.1 hall x hx
  simp only [Bool.and_eq_true, Bool.not_eq_true'] at hboth
  refine ⟨hboth.1, ?_⟩
  rintro k rfl
  cases hboth.2

/-- Where a thread goes on, every channel that is about to be forgotten is still shut, if those that
the section leaves are. -/
theorem Forgets.advance (h : p.Forgets) (hthread : p.threads i = x :: xs)
    (hshut : ∀ k, p.shared.Shut k → s'.Shut k) (hys : ∀ k, .forget k ∈ ys → s'.Shut k) :
    Forgets ⟨s', Function.update p.threads i (ys ++ xs)⟩ := by
  intro j k hk
  have hk' : Section.forget k ∈ Function.update p.threads i (ys ++ xs) j := hk
  by_cases hj : j = i
  · subst hj
    rw [Function.update_self] at hk'
    rcases List.mem_append.1 hk' with hk' | hk'
    · exact hys k hk'
    · exact hshut k (h j k (hthread ▸ List.mem_cons_of_mem x hk'))
  · rw [Function.update_of_ne hj] at hk'
    exact hshut k (h j k hk')

/-- Opening a channel registers it. -/
theorem Torn.openChannel (h : p.Torn) (kind : ChannelKind) (arg : String) :
    Torn { p with shared := (p.shared.openChannel kind arg).1 } ∧
      ∀ k, p.shared.Shut k → (p.shared.openChannel kind arg).1.Shut k := by
  unfold Core.openChannel
  dsimp only
  split_ifs with hok
  · have hready : p.shared.eng.state = .ready ∧ p.shared.eng.client = true := by
      unfold Engine.openChannel at hok
      split_ifs at hok with hstate hclient
      simp_all
    have heng : (p.shared.eng.openChannel kind.text p.shared.chans.length).1 =
        { p.shared.eng with channels := p.shared.eng.channels ++ [p.shared.chans.length] } := by
      unfold Engine.openChannel
      rw [if_neg (by simp [hready.1]), if_neg (by simp [hready.2])]
    rw [heng]
    refine ⟨?_, ?_⟩
    · cases h with
      | live hstate hreturned hthreads hregistered =>
        refine .live hstate hreturned hthreads ?_
        rintro k ⟨c, hc, hopen⟩
        have hc' : (p.shared.chans ++ [Channel.new kind arg])[k]? = some c := hc
        show k ∈ p.shared.eng.channels ++ [p.shared.chans.length]
        by_cases hk : k < p.shared.chans.length
        · rw [List.getElem?_append_left hk] at hc'
          exact List.mem_append_left _ (hregistered k ⟨c, hc', hopen⟩)
        · have hlt := (List.getElem?_eq_some_iff.1 hc').1
          rw [List.length_append, List.length_singleton] at hlt
          refine List.mem_append_right _ (List.mem_singleton.2 ?_)
          omega
      | snapshot i reason rest hstate => exact absurd (hstate.symm.trans hready.1) (by simp)
      | marking i marks rest hstate => exact absurd (hstate.symm.trans hready.1) (by simp)
      | returned hstate => exact absurd (hstate.symm.trans hready.1) (by simp)
    · rintro k ⟨c, hc, hclosed⟩
      refine ⟨c, ?_, hclosed⟩
      have hlt := (List.getElem?_eq_some_iff.1 hc).1
      exact (List.getElem?_append_left hlt).trans hc
  · exact ⟨h, fun _ hk => hk⟩

/-- A section keeps the phase, or moves to the next one. -/
theorem torn_advance (h : p.Torn) (hforgets : p.Forgets) (hthread : p.threads i = x :: xs)
    (hexec : p.shared.exec x = .done (s', ys)) :
    Torn ⟨s', Function.update p.threads i (ys ++ xs)⟩ ∧
      Forgets ⟨s', Function.update p.threads i (ys ++ xs)⟩ := by
  have hnil : ∀ y ∈ ([] : List Section), y.isTeardown = false := fun _ hy => absurd hy List.not_mem_nil
  have hnone : ∀ k, Section.forget k ∈ ([] : List Section) → s'.Shut k :=
    fun _ hk => absurd hk List.not_mem_nil
  by_cases hplain : x.isPlain = true
  · obtain ⟨ht, hys⟩ := Core.exec_plain hplain hexec
    refine ⟨h.advance hthread (Section.not_of_isPlain hplain).1
      (fun y hy => (Section.not_of_isPlain (hys y hy)).1) ht ?_,
      hforgets.advance hthread ht.shut fun k hk => absurd rfl ((Section.not_of_isPlain (hys _ hk)).2 k)⟩
    rintro k reason rfl
    cases hplain
  · cases x <;> simp only [Core.exec, Outcome.done.injEq, Prod.mk.injEq, Section.isPlain,
      not_true_eq_false] at hexec hplain
    case closeWith msg =>
      split_ifs at hexec with hclosed
      · cases hexec
        refine ⟨h.advance hthread rfl hnil (.refl _) fun _ _ hx => ?_,
          hforgets.advance hthread (fun _ hk => hk) hnone⟩
        cases hx
      · cases hexec
        refine ⟨?_, hforgets.advance hthread (fun _ hk => hk) fun k hk => by simp at hk⟩
        cases h with
        | live hstate hreturned hthreads hregistered =>
          refine .snapshot i _ xs rfl hreturned (Function.update_self _ _ _) ?_ ?_ hregistered
          · exact fun z hz => hthreads i z (hthread ▸ List.mem_cons_of_mem _ hz)
          · intro j hj
            show ∀ z ∈ Function.update p.threads i _ j, _
            rw [Function.update_of_ne hj]
            exact hthreads j
        | snapshot j reason rest hstate => exact absurd hstate hclosed
        | marking j marks rest hstate => exact absurd hstate hclosed
        | returned hstate => exact absurd hstate hclosed
    case closeAll reason =>
      obtain ⟨rfl, rfl⟩ := hexec
      refine ⟨?_, hforgets.advance hthread (fun _ hk => hk) fun k hk => by simp at hk⟩
      have hmem : Section.closeAll reason ∈ p.threads i := hthread ▸ List.mem_cons_self
      cases h with
      | live hstate hreturned hthreads hregistered => cases hthreads i _ hmem
      | returned hstate hreturned hthreads hempty hopen => cases hthreads i _ hmem
      | marking j marks rest hstate hreturned hthread' hmarks hrest honly hempty hopen =>
        by_cases hij : i = j
        · subst hij
          cases marks with
          | nil =>
            rw [hthread, List.nil_append, List.cons.injEq] at hthread'
            cases hthread'.1
          | cons z marks =>
            rw [hthread, List.cons_append, List.cons.injEq] at hthread'
            obtain ⟨rfl, -⟩ := hthread'
            cases hmarks _ List.mem_cons_self
        · cases honly i hij _ hmem
      | snapshot j reason' rest hstate hreturned hthread' hrest honly hregistered =>
        by_cases hij : i = j
        · subst hij
          rw [hthread, List.cons.injEq] at hthread'
          obtain ⟨-, rfl⟩ := hthread'
          refine .marking i _ rest hstate hreturned (Function.update_self _ _ _) ?_ hrest ?_ rfl ?_
          · intro z hz
            obtain ⟨k, -, rfl⟩ := List.mem_map.1 hz
            rfl
          · intro l hl
            show ∀ z ∈ Function.update p.threads i _ l, _
            rw [Function.update_of_ne hl]
            exact honly l hl
          · exact fun k hk => ⟨reason, List.mem_map.2 ⟨k, hregistered k hk, rfl⟩⟩
        · cases honly i hij _ hmem
    case closed =>
      obtain ⟨rfl, rfl⟩ := hexec
      refine ⟨?_, hforgets.advance hthread (fun _ hk => hk) hnone⟩
      have hmem : Section.closed ∈ p.threads i := hthread ▸ List.mem_cons_self
      cases h with
      | live hstate hreturned hthreads hregistered => cases hthreads i _ hmem
      | returned hstate hreturned hthreads hempty hopen => cases hthreads i _ hmem
      | snapshot j reason' rest hstate hreturned hthread' hrest honly hregistered =>
        by_cases hij : i = j
        · subst hij
          rw [hthread, List.cons.injEq] at hthread'
          cases hthread'.1
        · cases honly i hij _ hmem
      | marking j marks rest hstate hreturned hthread' hmarks hrest honly hempty hopen =>
        by_cases hij : i = j
        · subst hij
          cases marks with
          | nil =>
            rw [hthread, List.nil_append, List.cons.injEq] at hthread'
            obtain ⟨-, rfl⟩ := hthread'
            refine .returned hstate rfl (fun l => ?_) hempty fun k hk => ?_
            · show ∀ z ∈ Function.update p.threads i _ l, _
              by_cases hl : l = i
              · subst hl
                rw [Function.update_self]
                exact hrest
              · rw [Function.update_of_ne hl]
                exact honly l hl
            · obtain ⟨reason, hreason⟩ := hopen k hk
              cases hreason
          | cons z marks =>
            rw [hthread, List.cons_append, List.cons.injEq] at hthread'
            obtain ⟨rfl, -⟩ := hthread'
            cases hmarks _ List.mem_cons_self
        · cases honly i hij _ hmem
    case openChannel kind arg =>
      obtain ⟨rfl, rfl⟩ := hexec
      obtain ⟨htorn, hshut⟩ := h.openChannel kind arg
      refine ⟨htorn.advance hthread rfl hnil (.refl _) fun _ _ hx => ?_,
        hforgets.advance hthread hshut hnone⟩
      cases hx
    case chan k a =>
      obtain ⟨rfl, rfl⟩ : (p.shared.execChan k a).1 = s' ∧ (p.shared.execChan k a).2 = ys := by
        rw [hexec]
        exact ⟨rfl, rfl⟩
      have ht := Core.tends_execChan p.shared k a
      refine ⟨h.advance hthread rfl (fun y hy => (Core.mem_execChan hy).1) ht ?_,
        hforgets.advance hthread ht.shut fun j hj => (Core.mem_execChan hj).2 j rfl⟩
      rintro j reason hx
      cases hx
      exact Core.closed_execChan p.shared k reason
    case forget k =>
      obtain ⟨rfl, rfl⟩ := hexec
      have ht := Core.Tends.forget (hforgets i k (hthread ▸ List.mem_cons_self))
      refine ⟨h.advance hthread rfl hnil ht fun _ _ hx => ?_,
        hforgets.advance hthread ht.shut fun j hj => absurd hj List.not_mem_nil⟩
      cases hx

end System

/-! ## The reason to close -/

namespace Engine

variable {s s' : Engine} {a : Action}

/-- A closed engine stays closed with its reason, a wire reason stays, and an engine that is closed with
a wire reason is closed with this one. -/
structure Latches (s s' : Engine) : Prop where
  wire : s.wireReason ≠ "" → s'.wireReason = s.wireReason
  closed : s.state = .closed → s'.state = .closed ∧ s'.closeMsg = s.closeMsg
  closes : s.state ≠ .closed → s'.state = .closed → s.wireReason ≠ "" → s'.closeMsg = s.wireReason

theorem Latches.refl (s : Engine) : Latches s s :=
  ⟨fun _ => rfl, fun h => ⟨h, rfl⟩, fun h h' => absurd h' h⟩

theorem Latches.trans {s t u : Engine} (h : Latches s t) (h' : Latches t u) : Latches s u := by
  refine ⟨fun hwire => ?_, fun hclosed => ?_, fun hopen hclosed hwire => ?_⟩
  · have ht := h.wire hwire
    exact (h'.wire (ht ▸ hwire)).trans ht
  · obtain ⟨ht, hmsg⟩ := h.closed hclosed
    exact ⟨(h'.closed ht).1, (h'.closed ht).2.trans hmsg⟩
  · by_cases ht : t.state = .closed
    · exact (h'.closed ht).2.trans (h.closes hopen ht hwire)
    · have hreason := h.wire hwire
      exact (h'.closes ht hclosed (hreason ▸ hwire)).trans hreason

theorem Frame.latches (h : Frame s s') : Latches s s' :=
  ⟨fun _ => h.wireReason, fun hclosed => ⟨h.closed.2 hclosed, h.closeMsg⟩,
    fun hopen hclosed => absurd (h.closed.1 hclosed) hopen⟩

/-- What touches neither the state nor the reasons. -/
theorem Latches.of_eq (hstate : s'.state = s.state) (hmsg : s'.closeMsg = s.closeMsg)
    (hwire : s'.wireReason = s.wireReason) : Latches s s' :=
  ⟨fun _ => hwire, fun hclosed => ⟨hstate.trans hclosed, hmsg⟩,
    fun hopen hclosed => absurd (hstate.symm.trans hclosed) hopen⟩

/-- The actions of `run` that close nothing keep the state, the reasons and the registry. -/
theorem background_keeps (hback : s.background a = some s') (ha : a.isCoreSplit = false) :
    (s'.state = .closed ↔ s.state = .closed) ∧ s'.channels = s.channels ∧ Latches s s' := by
  by_cases hrun : a.isRun = false
  · have hframe := frame_of_background hback hrun
    exact ⟨hframe.closed, hframe.channels, hframe.latches⟩
  · cases a <;> simp only [Action.isRun, not_true_eq_false] at hrun <;>
      simp only [background, Option.ite_none_right_eq_some, Option.some.injEq] at hback
    case becomeReady =>
      obtain ⟨-, rfl⟩ := hback
      unfold setState
      split_ifs with hclosed
      · exact ⟨Iff.rfl, rfl, .of_eq rfl rfl rfl⟩
      · refine ⟨by simp [hclosed], rfl, fun _ => rfl, fun h => absurd h hclosed, fun _ h => ?_⟩
        cases h
    case handshakeDone | shellStarted | flushInput | shellExited =>
      obtain ⟨-, rfl⟩ := hback
      exact ⟨Iff.rfl, rfl, .of_eq rfl rfl rfl⟩
    all_goals cases ha

end Engine

namespace Core

variable {s s' : Core} {x : Section} {ys : List Section}

/-- Every section keeps the reasons. -/
theorem latches_exec (h : s.exec x = .done (s', ys)) : Engine.Latches s.eng s'.eng := by
  cases x <;> simp only [exec, Outcome.map_eq_done, Outcome.done.injEq, Prod.mk.injEq] at h
  case engine a =>
    obtain ⟨e, he, rfl, -⟩ := h
    exact (Engine.frame_attempt he).latches
  case recordWire reason =>
    obtain ⟨rfl, -⟩ := h
    unfold Engine.recordWire
    dsimp only
    split_ifs with hwire
    · exact ⟨fun hne => absurd hwire hne, fun hclosed => ⟨hclosed, rfl⟩,
        fun hopen hclosed => absurd hclosed hopen⟩
    · exact .refl _
  case failDecision =>
    split_ifs at h
    · cases h
      exact .refl _
    · obtain ⟨-, hdone⟩ := Chan.attemptClose_eq_done.1 h
      cases hdone
      exact (Engine.frame_failDecision s.eng).latches
  case failPrompts =>
    split_ifs at h
    · cases h
      exact .refl _
    · obtain ⟨-, hdone⟩ := Chan.attemptClose_eq_done.1 h
      cases hdone
      exact (Engine.frame_failPrompts s.eng).latches
  case failSign =>
    split_ifs at h
    · cases h
      exact .refl _
    · obtain ⟨-, hdone⟩ := Chan.attemptClose_eq_done.1 h
      cases hdone
      exact (Engine.frame_failSign s.eng).latches
  case closeWith msg =>
    split_ifs at h with hclosed
    · cases h
      exact .refl _
    · cases h
      exact ⟨fun _ => rfl, fun hc => absurd hc hclosed, fun _ _ hwire => if_pos hwire⟩
  case put rest =>
    split_ifs at h
    · cases h
      exact .refl _
    · cases h
      exact .of_eq rfl rfl rfl
  case openChannel kind arg =>
    obtain ⟨rfl, -⟩ := h
    unfold openChannel Engine.openChannel
    dsimp only
    split_ifs <;> exact .of_eq rfl rfl rfl
  case chan i a =>
    obtain rfl : (s.execChan i a).1 = s' := by rw [h]
    unfold execChan
    split
    · exact .refl _
    · split <;> exact .refl _
  all_goals
    obtain ⟨rfl, -⟩ := h
    exact .of_eq rfl rfl rfl

end Core

namespace System

variable {p p' : System} {a : SystemAction} {i : ℕ}

/-- `run` goes on to close the engine. -/
theorem runCloses_eq_some {pc : RunPc → Bool} {msg : RunPc → String}
    (h : p.runCloses pc msg = some p') : ∃ msg, p.threads 0 = [] ∧
      p' = {
        shared := { p.shared with eng := { p.shared.eng with runPc := .done } }
        threads := Function.update p.threads 0 [.closeWith msg] } := by
  unfold runCloses at h
  obtain ⟨⟨-, hthread⟩, hp⟩ := Option.ite_none_right_eq_some.1 h
  exact ⟨_, hthread, (Option.some.inj hp).symm⟩

/-- Every step keeps the reasons. -/
theorem latches_step (hstep : p.step a = some p') : Engine.Latches p.shared.eng p'.shared.eng := by
  cases a <;> simp only [step, Option.ite_none_left_eq_some, Option.map_eq_some_iff,
    Option.bind_eq_some_iff, Option.ite_none_right_eq_some, Option.some.injEq] at hstep
  case call i e =>
    obtain ⟨-, rfl⟩ := hstep
    exact .refl _
  case advance i =>
    obtain ⟨x, xs, s, ys, -, hexec, rfl⟩ := advance_eq_some.1 hstep
    exact Core.latches_exec hexec
  case engine a =>
    obtain ⟨ha, e, he, rfl⟩ := hstep
    exact (Engine.background_keeps he (eq_false_of_ne_true ha)).2.2
  case handshakeFailed err =>
    obtain ⟨_, -, rfl⟩ := runCloses_eq_some hstep
    exact .of_eq rfl rfl rfl
  case openFailed msg =>
    obtain ⟨_, -, rfl⟩ := runCloses_eq_some hstep
    exact .of_eq rfl rfl rfl
  case runClose =>
    obtain ⟨_, -, rfl⟩ := runCloses_eq_some hstep
    exact .of_eq rfl rfl rfl
  case chan i a =>
    obtain ⟨-, c, -, c', -, rfl⟩ := hstep
    exact .refl _
  case forget i =>
    obtain ⟨c, -, -, rfl⟩ := hstep
    exact .of_eq rfl rfl rfl
  case window n =>
    subst hstep
    exact .refl _
  case closeStdin =>
    subst hstep
    exact .refl _

/-- `run` that goes on to close the engine keeps the phase. -/
theorem torn_runCloses {pc : RunPc → Bool} {msg : RunPc → String} (h : p.Torn)
    (hforgets : p.Forgets) (hstep : p.runCloses pc msg = some p') : p'.Torn ∧ p'.Forgets := by
  obtain ⟨msg, hthread, rfl⟩ := runCloses_eq_some hstep
  have ht : Core.Tends p.shared { p.shared with eng := { p.shared.eng with runPc := .done } } :=
    .of_eng Iff.rfl rfl
  refine ⟨(h.share ht).call hthread fun z hz => ?_, fun j k hk => ?_⟩
  · obtain rfl := List.mem_singleton.1 hz
    rfl
  · have hk' : Section.forget k ∈ Function.update p.threads 0 [.closeWith msg] j := hk
    by_cases hj : j = 0
    · subst hj
      rw [Function.update_self] at hk'
      cases List.mem_singleton.1 hk'
    · rw [Function.update_of_ne hj] at hk'
      exact hforgets j k hk'

/-- Every step keeps the phase, or moves to the next one. -/
theorem torn_step (h : p.Torn ∧ p.Forgets) (hstep : p.step a = some p') : p'.Torn ∧ p'.Forgets := by
  obtain ⟨htorn, hforgets⟩ := h
  cases a <;> simp only [step, Option.ite_none_left_eq_some, Option.map_eq_some_iff,
    Option.bind_eq_some_iff, Option.ite_none_right_eq_some, Option.some.injEq] at hstep
  case call i e =>
    obtain ⟨hidle, rfl⟩ := hstep
    push Not at hidle
    refine ⟨htorn.call hidle.2 fun z hz => (mem_sections hz).1, fun j k hk => ?_⟩
    have hk' : Section.forget k ∈ Function.update p.threads i e.sections j := hk
    by_cases hj : j = i
    · subst hj
      rw [Function.update_self] at hk'
      exact absurd rfl ((mem_sections hk').2 k)
    · rw [Function.update_of_ne hj] at hk'
      exact hforgets j k hk'
  case advance i =>
    obtain ⟨x, xs, s, ys, hthread, hexec, rfl⟩ := advance_eq_some.1 hstep
    exact torn_advance htorn hforgets hthread hexec
  case engine a =>
    obtain ⟨ha, e, he, rfl⟩ := hstep
    obtain ⟨hclosed, hchannels, -⟩ := Engine.background_keeps he (eq_false_of_ne_true ha)
    have ht : Core.Tends p.shared { p.shared with eng := e } := .of_eng hclosed hchannels
    exact ⟨htorn.share ht, fun j k hk => ht.shut k (hforgets j k hk)⟩
  case handshakeFailed err => exact torn_runCloses htorn hforgets hstep
  case openFailed msg => exact torn_runCloses htorn hforgets hstep
  case runClose => exact torn_runCloses htorn hforgets hstep
  case chan i a =>
    obtain ⟨-, c, hi, c', hc, rfl⟩ := hstep
    have ht := Core.Tends.set hi hc
    exact ⟨htorn.share ht, fun j k hk => ht.shut k (hforgets j k hk)⟩
  case forget i =>
    obtain ⟨c, hi, hclosed, rfl⟩ := hstep
    have ht := Core.Tends.forget ⟨c, hi, hclosed⟩
    exact ⟨htorn.share ht, fun j k hk => ht.shut k (hforgets j k hk)⟩
  case window n =>
    subst hstep
    exact ⟨htorn.share ⟨Iff.rfl, rfl, fun _ h => h, fun _ h => h, fun _ _ h => h, fun h => h⟩, hforgets⟩
  case closeStdin =>
    subst hstep
    exact ⟨htorn.share ⟨Iff.rfl, rfl, fun _ h => h, fun _ h => h, fun _ _ h => h, fun h => h⟩, hforgets⟩

/-- The teardown that has returned stays so. -/
theorem returned_exec {s s' : Core} {x : Section} {ys : List Section}
    (h : s.exec x = .done (s', ys)) (hreturned : s.closeReturned = true) :
    s'.closeReturned = true := by
  by_cases hplain : x.isPlain = true
  · exact (Core.exec_plain hplain h).1.returned.trans hreturned
  · cases x <;> simp only [Core.exec, Outcome.done.injEq, Prod.mk.injEq, Section.isPlain,
      not_true_eq_false] at h hplain
    case closeWith msg =>
      split_ifs at h <;> cases h <;> exact hreturned
    case closed =>
      obtain ⟨rfl, -⟩ := h
      rfl
    case openChannel kind arg =>
      obtain ⟨rfl, -⟩ := h
      unfold Core.openChannel
      dsimp only
      split_ifs <;> exact hreturned
    case chan i a =>
      obtain rfl : (s.execChan i a).1 = s' := by rw [h]
      exact (Core.tends_execChan s i a).returned.trans hreturned
    all_goals
      obtain ⟨rfl, -⟩ := h
      exact hreturned

theorem returned_step (hreturned : p.shared.closeReturned = true) (hstep : p.step a = some p') :
    p'.shared.closeReturned = true := by
  cases a <;> simp only [step, Option.ite_none_left_eq_some, Option.map_eq_some_iff,
    Option.bind_eq_some_iff, Option.ite_none_right_eq_some, Option.some.injEq] at hstep
  case call i e =>
    obtain ⟨-, rfl⟩ := hstep
    exact hreturned
  case advance i =>
    obtain ⟨x, xs, s, ys, -, hexec, rfl⟩ := advance_eq_some.1 hstep
    exact returned_exec hexec hreturned
  case engine a =>
    obtain ⟨-, e, -, rfl⟩ := hstep
    exact hreturned
  case handshakeFailed err =>
    obtain ⟨_, -, rfl⟩ := runCloses_eq_some hstep
    exact hreturned
  case openFailed msg =>
    obtain ⟨_, -, rfl⟩ := runCloses_eq_some hstep
    exact hreturned
  case runClose =>
    obtain ⟨_, -, rfl⟩ := runCloses_eq_some hstep
    exact hreturned
  case chan i a =>
    obtain ⟨-, c, -, c', -, rfl⟩ := hstep
    exact hreturned
  case forget i =>
    obtain ⟨c, -, -, rfl⟩ := hstep
    exact hreturned
  case window n =>
    subst hstep
    exact hreturned
  case closeStdin =>
    subst hstep
    exact hreturned

/-- A new session is in no teardown. -/
theorem torn_start (user : String) (cols rows : ℕ) (command : String) :
    (start user cols rows command).Torn ∧ (start user cols rows command).Forgets := by
  refine ⟨.live (by simp [start, Engine.new]) rfl (fun _ _ hx => absurd hx List.not_mem_nil) ?_,
    fun _ _ hk => absurd hk List.not_mem_nil⟩
  rintro k ⟨c, hc, -⟩
  cases hc

end System

/-- In every run, a closed engine stays closed with its reason, which is the reason that `WireBroken`
recorded before the engine was closed, if it did; and once the `closeWith` that closed the engine has
returned, every bulk channel that was ever opened is closed, the registry is empty, and opening a
channel fails. -/
theorem closed_terminal (user : String) (cols rows : ℕ) (command : String)
    (as bs : List SystemAction) {p q : System}
    (hp : run System.step (.start user cols rows command) as = some p)
    (hq : run System.step p bs = some q) :
    (p.shared.eng.state = .closed →
      q.shared.eng.state = .closed ∧ q.shared.eng.closeMsg = p.shared.eng.closeMsg) ∧
    (p.shared.eng.state ≠ .closed → p.shared.eng.wireReason ≠ "" → q.shared.eng.state = .closed →
      q.shared.eng.closeMsg = p.shared.eng.wireReason) ∧
    (p.shared.closeReturned = true →
      (∀ c ∈ q.shared.chans, c.state = .channelClosed) ∧ q.shared.eng.channels = [] ∧
        ∀ kind arg, (q.shared.openChannel kind arg).2 ≠ none) := by
  have hlatches : Engine.Latches p.shared.eng q.shared.eng :=
    run_mono (R := fun p q : System => Engine.Latches p.shared.eng q.shared.eng)
      (fun p => .refl p.shared.eng) (fun _ _ _ => .trans) (fun _ _ _ => System.latches_step) hq
  refine ⟨hlatches.closed, fun hopen hwire hclosed => hlatches.closes hopen hclosed hwire,
    fun hreturned => ?_⟩
  have hrun : run System.step (.start user cols rows command) (as ++ bs) = some q :=
    (run_append_of_eq_some hp bs).trans hq
  have htorn := (run_inv_of_step (P := fun p : System => p.Torn ∧ p.Forgets)
    (fun _ _ _ => System.torn_step) (System.torn_start user cols rows command) hrun).1
  have hreturned' : q.shared.closeReturned = true :=
    run_inv_of_step (P := fun p : System => p.shared.closeReturned = true)
      (fun _ _ _ => System.returned_step) hreturned hq
  cases htorn with
  | live hstate hflag => exact absurd (hreturned'.symm.trans hflag) (by simp)
  | snapshot i reason rest hstate hflag => exact absurd (hreturned'.symm.trans hflag) (by simp)
  | marking i marks rest hstate hflag => exact absurd (hreturned'.symm.trans hflag) (by simp)
  | returned hstate hflag hthreads hempty hopen =>
    refine ⟨fun c hc => ?_, hempty, fun kind arg => ?_⟩
    · obtain ⟨k, hk⟩ := List.getElem?_of_mem hc
      by_contra hne
      exact hopen k ⟨c, hk, hne⟩
    · have hfail : (q.shared.eng.openChannel kind.text q.shared.chans.length).2 ≠ none := by
        unfold Engine.openChannel
        rw [if_pos (show q.shared.eng.state ≠ .ready by rw [hstate]; simp)]
        exact Option.some_ne_none _
      unfold Core.openChannel
      dsimp only
      rw [if_neg hfail]
      exact hfail

/-- A channel is opened, the wire breaks, and the session is closed with it. -/
def brokenRun : List SystemAction :=
  [.engine .handshakeDone, .engine .shellStarted, .engine .flushInput, .engine .becomeReady,
    .call 1 (.openSubsystem "sftp"), .advance 1, .call 1 (.wireBroken "the wire is gone"),
    .advance 1, .advance 1, .advance 1, .advance 1, .advance 1, .advance 1, .advance 1, .advance 1,
    .advance 1, .advance 1, .advance 1, .advance 1, .advance 1]

theorem closed_terminal_broken :
    ∃ p, run System.step (.start "user" 80 24 "") brokenRun = some p ∧ p.shared.chans ≠ [] ∧
      ∀ c ∈ p.shared.chans, c.state = .channelClosed := by
  refine ⟨_, rfl, by decide, ?_⟩
  exact ((closed_terminal "user" 80 24 "" brokenRun [] rfl rfl).2.2 rfl).1

end SshCore
