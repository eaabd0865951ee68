import Wosh.Lib.Run
import Wosh.Lib.Slots
import Wosh.Page.HostKeys

set_option relaxedAutoImplicit false
set_option autoImplicit false

/-!
# Superseded sessions and questions

One connection is dialed at a time, the session it opens replaces the one before, and a question
replaces the one on the screen. Neither leaves anything behind: a session that is not the current one
has been detached, declined or has ended, and a connection never waits for a question that is gone.

## Main definitions

* `HostKeys.Left` — a session need not be detached any more.
* `HostKeys.Owned`, `HostKeys.Asking` — the invariants.

## Main results

* `HostKeys.leaves_no_session` — every session that was opened is the current one, or left.
* `HostKeys.answerable` — what a connection waits for is on the screen, or answered.
-/

namespace HostKeys

open Slots

variable {key : String → Option String} {initial pins : Pins} {log log' : List Entry} {n i : ℕ}
  {p p' : Page} {c : Connection} {t : Turn} {deeds : List (ℕ × Deed)} {b b' : Browser}

/-! ## Sessions -/

/-- A session was detached, its host key was rejected, or it has ended. -/
def Left (log : List Entry) (n i : ℕ) : Prop :=
  ⟨n, i, .call .detach⟩ ∈ log ∨ ⟨n, i, .call (.confirmHostKey false)⟩ ∈ log ∨ ⟨n, i, .ended⟩ ∈ log

theorem Left.append (h : Left log n i) : Left (log ++ log') n i :=
  h.imp (List.mem_append_left _) (Or.imp (List.mem_append_left _) (List.mem_append_left _))

/-- What happened on a page. -/
theorem mem_log {d : Deed} (hd : (i, d) ∈ deeds) : (⟨n, i, d⟩ : Entry) ∈ log ++ entries n deeds :=
  List.mem_append_right _ (mem_entries.2 ⟨rfl, hd⟩)

/-- The sessions of a page. -/
structure Owned (log : List Entry) (n : ℕ) (p : Page) : Prop where
  /-- Only the last connection can be in flight. -/
  flight : ∀ (i : ℕ) c, p.connections[i]? = some c → c.stage.inFlight = true →
    p.dialing = true ∧ i + 1 = p.connections.length
  /-- Meanwhile no other session is the current one. -/
  current : ∀ (i : ℕ) c, p.connections[i]? = some c → c.stage.inFlight = true → c.stage ≠ .dialing →
    ∀ j, p.currentSession = some j → j = i
  /-- The user has declined. -/
  declined : ∀ (i : ℕ) c, p.connections[i]? = some c →
    c.stage = .deciding false ∨ c.stage = .cancelling → Left log n i
  opened : ∀ i, ⟨n, i, .opened⟩ ∈ log → p.currentSession = some i ∨ Left log n i

/-- A connection moves on. -/
theorem Owned.move (h : Owned log n p) (hc : p.connections[i]? = some c)
    (hin : c.stage.inFlight = true) (hdialed : c.stage ≠ .dialing) {s : Stage}
    (hconns : p'.connections = (p.setStage i s).connections) (hdialing : p'.dialing = p.dialing)
    (hcurrent : p'.currentSession = p.currentSession) (hopened : ∀ j, (j, Deed.opened) ∉ deeds)
    (hleft : s = .deciding false ∨ s = .cancelling → Left (log ++ entries n deeds) n i) :
    Owned (log ++ entries n deeds) n p' := by
  have hlen : p'.connections.length = p.connections.length := by
    rw [hconns]
    exact List.length_modify ..
  refine ⟨fun j d hd hd' => ?_, fun j d hd hd' hne k hk => ?_, fun j d hd hs => ?_, fun j hj => ?_⟩
  · rw [hconns] at hd
    obtain ⟨d, hold, rfl⟩ := getElem?_modify_eq_some.1 hd
    rw [hdialing, hlen]
    split_ifs at hd' with hij
    · subst hij
      exact h.flight i c hc hin
    · exact h.flight j d hold hd'
  · rw [hconns] at hd
    obtain ⟨d, hold, rfl⟩ := getElem?_modify_eq_some.1 hd
    rw [hcurrent] at hk
    split_ifs at hd' hne with hij
    · subst hij
      exact h.current i c hc hin hdialed k hk
    · exact h.current j d hold hd' hne k hk
  · rw [hconns] at hd
    obtain ⟨d, hold, rfl⟩ := getElem?_modify_eq_some.1 hd
    split_ifs at hs with hij
    · subst hij
      exact hleft hs
    · exact (h.declined j d hold hs).append
  · rw [hcurrent]
    rcases List.mem_append.1 hj with hold | hnew
    · exact (h.opened j hold).imp_right Left.append
    · exact absurd (mem_entries.1 hnew).2 (hopened j)

/-- A connection is through. -/
theorem Owned.finish (h : Owned log n p) (hc : p.connections[i]? = some c)
    (hin : c.stage.inFlight = true) {s : Stage} (hs : s = .connected ∨ s = .abandoned)
    (hconns : p'.connections = (p.setStage i s).connections)
    (hcurrent : ∀ j, p.currentSession = some j → p'.currentSession = some j ∨ Left log n j) :
    Owned (log ++ entries n []) n p' := by
  have hlog : log ++ entries n [] = log := List.append_nil log
  have hlast := (h.flight i c hc hin).2
  rw [hlog]
  -- no other connection is in flight
  have hnone : ∀ (j : ℕ) d, p'.connections[j]? = some d → d.stage.inFlight = false := by
    intro j d hd
    rw [hconns] at hd
    obtain ⟨d, hold, rfl⟩ := getElem?_modify_eq_some.1 hd
    split_ifs with hij
    · rcases hs with rfl | rfl <;> rfl
    · refine Bool.eq_false_iff.2 fun hd' => hij ?_
      have hlast' := (h.flight j d hold hd').2
      omega
  refine ⟨fun j d hd hd' => ?_, fun j d hd hd' => ?_, fun j d hd hs' => ?_, fun j hj => ?_⟩
  · exact absurd hd' (Bool.eq_false_iff.1 (hnone j d hd))
  · exact absurd hd' (Bool.eq_false_iff.1 (hnone j d hd))
  · have hstage := hnone j d hd
    rcases hs' with hs' | hs' <;> rw [hs'] at hstage <;> cases hstage
  · rcases h.opened j hj with hcur | hleft
    · exact hcurrent j hcur
    · exact .inr hleft

/-- Nothing happens to the connections. -/
theorem Owned.keep (h : Owned log n p) (hconns : p'.connections = p.connections)
    (hdialing : p'.dialing = p.dialing)
    (hcurrent : ∀ j, p.currentSession = some j →
      p'.currentSession = some j ∨ Left (log ++ entries n deeds) n j)
    (hsub : ∀ j, p'.currentSession = some j → p.currentSession = some j)
    (hopened : ∀ j, (j, Deed.opened) ∉ deeds) : Owned (log ++ entries n deeds) n p' := by
  refine ⟨fun j d hd hd' => ?_, fun j d hd hd' hne k hk => ?_, fun j d hd hs => ?_, fun j hj => ?_⟩
  · rw [hconns] at hd ⊢
    rw [hdialing]
    exact h.flight j d hd hd'
  · rw [hconns] at hd
    exact h.current j d hd hd' hne k (hsub k hk)
  · rw [hconns] at hd
    exact (h.declined j d hd hs).append
  · rcases List.mem_append.1 hj with hold | hnew
    · rcases h.opened j hold with hcur | hleft
      · exact hcurrent j hcur
      · exact .inr hleft.append
    · exact absurd (mem_entries.1 hnew).2 (hopened j)

/-- The session of a connection replaces the current one. -/
theorem Owned.opens (h : Owned log n p) (hc : p.connections[i]? = some c) (hs : c.stage = .dialing) :
    Owned (log ++ entries n ((i, .opened) :: p.currentSession.toList.map fun j => (j, .call .detach))) n
      { p.setStage i .settling with currentSession := some i } := by
  have hin : c.stage.inFlight = true := by
    rw [hs]
    rfl
  obtain ⟨hdialing, hlast⟩ := h.flight i c hc hin
  refine ⟨fun j d hd hd' => ?_, fun j d hd hd' _ k hk => ?_, fun j d hd hs' => ?_, fun j hj => ?_⟩
  · obtain ⟨d, hold, rfl⟩ := getElem?_modify_eq_some.1 hd
    refine ⟨hdialing, ?_⟩
    rw [Page.connections_setStage, List.length_modify]
    split_ifs at hd' with hij
    · rw [← hij]
      exact hlast
    · exact (h.flight j d hold hd').2
  · obtain ⟨d, hold, rfl⟩ := getElem?_modify_eq_some.1 hd
    obtain rfl : i = k := Option.some.inj hk
    split_ifs at hd' with hij
    · exact hij
    · have hlast' := (h.flight j d hold hd').2
      omega
  · obtain ⟨d, hold, rfl⟩ := getElem?_modify_eq_some.1 hd
    split_ifs at hs' with hij
    · rcases hs' with hs' | hs' <;> cases hs'
    · exact (h.declined j d hold hs').append
  · by_cases hij : j = i
    · exact .inl (congrArg some hij.symm)
    · right
      rcases List.mem_append.1 hj with hold | hnew
      · rcases h.opened j hold with hcur | hleft
        · exact .inl (mem_log (by simp [hcur]))
        · exact hleft.append
      · have hmem := (mem_entries.1 hnew).2
        simp [hij] at hmem

/-- What a connection does. -/
theorem Owned.goes (h : Owned log n p) (hc : p.connections[i]? = some c)
    (hin : c.stage.inFlight = true) (hgoes : p.Goes key pins i c t) :
    Owned (log ++ entries n t.deeds) n t.page := by
  have hnotDialing : ∀ {s : Stage}, c.stage = s → s ≠ .dialing → c.stage ≠ .dialing :=
    fun hs hne heq => hne (hs.symm.trans heq)
  have htold : c.stage.told = true → c.stage ≠ .dialing := by
    intro ht heq
    rw [heq] at ht
    cases ht
  cases hgoes with
  | stays => exact h.keep rfl rfl (fun _ => .inl) (fun _ => id) nofun
  | opens hs => exact h.opens hc hs
  | settles hs => exact h.move hc hin (hnotDialing hs nofun) rfl rfl rfl nofun nofun
  | @reports fp pinned hs hpinned =>
    unfold Page.confirmHostKey
    split_ifs
    · exact h.move (s := .confirming fp none) hc hin (hnotDialing hs nofun) rfl rfl rfl (by simp)
        fun heq => heq.elim nofun nofun
    · refine h.move (s := .confirming fp (some p.asks.length)) hc hin (hnotDialing hs nofun) ?_ ?_ ?_
        (by simp) fun heq => heq.elim nofun nofun
      · simp [Page.connections_setStage]
      · exact p.dialing_showSheet (.hostkey i fp (key c.connstring) pinned)
      · exact p.currentSession_showSheet (.hostkey i fp (key c.connstring) pinned)
  | knows hs =>
    refine h.move hc hin (hnotDialing hs nofun) rfl rfl rfl (by simp [Page.tell]) ?_
    exact fun heq => heq.elim nofun nofun
  | @tells fp k v hs hv storage =>
    have hdeeds : (i, .call (.confirmHostKey v.ok)) ∈
          (p.tell pins i fp (key c.connstring) v storage).deeds ∧
        (∀ j, (j, Deed.opened) ∉ (p.tell pins i fp (key c.connstring) v storage).deeds) ∧
        (p.tell pins i fp (key c.connstring) v storage).page = p.setStage i (.deciding v.ok) := by
      unfold Page.tell
      split
      · split_ifs <;> simp
      · simp
    obtain ⟨hmem, hopened, hpage⟩ := hdeeds
    rw [hpage]
    refine h.move hc hin (hnotDialing hs nofun) rfl rfl rfl hopened fun heq => ?_
    rcases heq with heq | heq
    · have hok : v.ok = false := Stage.deciding.inj heq
      rw [hok] at hmem
      exact .inr (.inl (mem_log hmem))
    · cases heq
  | moves ht hs hin' hask hcancels =>
    refine h.move hc hin (htold ht) rfl rfl rfl nofun fun heq => ?_
    rcases heq with rfl | heq
    · cases hs
    · exact absurd heq hcancels
  | calls ht hs hin' hask hcl hcancels =>
    refine h.move hc hin (htold ht) rfl rfl rfl (by simp) fun heq => ?_
    rcases heq with rfl | rfl
    · cases hs
    · exact .inl (mem_log (by simp [hcancels rfl]))
  | @asks batch s ht hs hin' hask =>
    refine h.move (s := s) hc hin (htold ht) (by simp [Page.connections_setStage])
      (p.dialing_showSheet (.prompts batch)) (p.currentSession_showSheet (.prompts batch)) nofun
      fun heq => ?_
    rcases heq with rfl | rfl
    · cases hs
    · cases hask
  | finishes hs =>
    exact h.finish hc hin (hs.symm.imp_left And.left) rfl fun _ => .inl
  | closes hs =>
    refine h.finish (s := .abandoned) hc hin (.inr rfl) rfl fun j hj => .inr ?_
    have hne : c.stage ≠ .dialing := by
      rcases hs with hs | hs <;> exact hnotDialing hs nofun
    obtain rfl := h.current i c hc hin hne j hj
    exact h.declined j c hc hs

/-- What a page does. -/
theorem Owned.step (h : Owned log n p) {a : Action} (hstep : p.step key pins a = some t) :
    Owned (log ++ entries n t.deeds) n t.page := by
  cases a with
  | dial connstring user method =>
    simp only [Page.step] at hstep
    split_ifs at hstep with hdialing
    · cases hstep
      exact h.keep rfl rfl (fun _ => .inl) (fun _ => id) nofun
    · cases hstep
      have hlog : log ++ entries n [] = log := List.append_nil log
      -- nothing was in flight
      have hnone : ∀ (j : ℕ) d, p.connections[j]? = some d → d.stage.inFlight ≠ true :=
        fun j d hd hd' => hdialing (h.flight j d hd hd').1
      have hcur : p.withdrawSheet.currentSession = p.currentSession :=
        p.currentSession_settleSheet .null
      rw [hlog]
      refine ⟨fun j d hd hd' => ?_, fun j d hd hd' hne => ?_, fun j d hd hs => ?_, fun j hj => ?_⟩
      · rcases getElem?_concat_eq_some.1 hd with hd | ⟨rfl, rfl⟩
        · exact absurd hd' (hnone j d hd)
        · exact ⟨rfl, by simp⟩
      · rcases getElem?_concat_eq_some.1 hd with hd | ⟨rfl, rfl⟩
        · exact absurd hd' (hnone j d hd)
        · exact absurd rfl hne
      · rcases getElem?_concat_eq_some.1 hd with hd | ⟨rfl, rfl⟩
        · exact h.declined j d hd hs
        · rcases hs with hs | hs <;> cases hs
      · exact (h.opened j hj).imp_left fun hj => hcur.trans hj
  | goOn i e =>
    simp only [Page.step] at hstep
    split at hstep
    · cases hstep
    · rename_i c hc
      exact h.goes hc (Page.inFlight_of_goOn hstep) (Page.goOn_cases hstep)
  | ask a =>
    have hshow : t.page = p.showSheet a ∧ t.deeds = [] := by
      cases a <;> cases hstep <;> exact ⟨rfl, rfl⟩
    obtain ⟨hpage, hdeeds⟩ := hshow
    rw [hpage, hdeeds]
    exact h.keep (p.connections_showSheet a) (p.dialing_showSheet a)
      (fun j hj => .inl ((p.currentSession_showSheet a).trans hj))
      (fun j hj => (p.currentSession_showSheet a).symm.trans hj) nofun
  | tap v =>
    simp only [Page.step] at hstep
    split at hstep
    · cases hstep
    · split_ifs at hstep
      cases hstep
      refine h.keep (p.connections_settleSheet v) (p.dialing_settleSheet v)
        (fun j hj => .inl ((p.currentSession_settleSheet v).trans hj))
        (fun j hj => (p.currentSession_settleSheet v).symm.trans hj) fun j hmem => ?_
      unfold Page.approval at hmem
      split at hmem
      · split_ifs at hmem <;> simp at hmem
      · cases hmem
  | dismiss =>
    cases hstep
    exact h.keep (p.connections_settleSheet .null) (p.dialing_settleSheet .null)
      (fun j hj => .inl ((p.currentSession_settleSheet .null).trans hj))
      (fun j hj => (p.currentSession_settleSheet .null).symm.trans hj) nofun
  | scanned text =>
    simp only [Page.step] at hstep
    split_ifs at hstep
    cases hstep
    exact h.keep (p.connections_settleSheet _) (p.dialing_settleSheet _)
      (fun j hj => .inl ((p.currentSession_settleSheet _).trans hj))
      (fun j hj => (p.currentSession_settleSheet _).symm.trans hj) nofun
  | removePin e storage =>
    cases hstep
    exact h.keep rfl rfl (fun _ => .inl) (fun _ => id) nofun
  | ended =>
    simp only [Page.step] at hstep
    split at hstep
    · cases hstep
    · rename_i j hcur
      split_ifs at hstep
      cases hstep
      refine h.keep rfl rfl (fun k hk => .inr ?_) nofun (by simp)
      cases hcur.symm.trans hk
      exact .inr (.inr (mem_log (by simp)))
  | detach =>
    simp only [Page.step] at hstep
    split at hstep <;> cases hstep
    · exact h.keep rfl rfl (fun _ => .inl) (fun _ => id) nofun
    · rename_i j hcur
      refine h.keep rfl rfl (fun k hk => .inr ?_) nofun (by simp)
      cases hcur.symm.trans hk
      exact .inl (mem_log (by simp))

theorem Owned.other {m : ℕ} (h : Owned log m p) (hne : m ≠ n) : Owned (log ++ entries n deeds) m p where
  flight := h.flight
  current := h.current
  declined i c hc hs := (h.declined i c hc hs).append
  opened i hi := by
    rcases List.mem_append.1 hi with hold | hnew
    · exact (h.opened i hold).imp_right Left.append
    · exact absurd (mem_entries.1 hnew).1 hne

/-- The sessions of all pages. -/
structure AllOwned (b : Browser) : Prop where
  pages : ∀ (n : ℕ) p, b.pages[n]? = some p → Owned b.log n p
  loaded : ∀ x ∈ b.log, x.page < b.pages.length

theorem AllOwned.step (h : AllOwned b) {x : Happening} (hstep : b.step key x = some b') :
    AllOwned b' := by
  cases x with
  | load =>
    cases hstep
    refine ⟨fun n p hp => ?_, fun x hx => ?_⟩
    · rcases getElem?_concat_eq_some.1 hp with hp | ⟨rfl, rfl⟩
      · exact h.pages n p hp
      · refine ⟨fun _ _ hc => (nomatch hc), fun _ _ hc => (nomatch hc), fun _ _ hc => (nomatch hc), ?_⟩
        exact fun i hi => absurd (h.loaded _ hi) (Nat.lt_irrefl _)
    · have hlt := h.loaded x hx
      simp only [List.length_append, List.length_singleton]
      omega
  | on n a =>
    simp only [Browser.step] at hstep
    split at hstep
    · cases hstep
    · rename_i p hp
      obtain ⟨t, ht, rfl⟩ := Option.map_eq_some_iff.1 hstep
      have hlt : n < b.pages.length := (List.getElem?_eq_some_iff.1 hp).1
      refine ⟨fun m q hq => ?_, fun x hx => ?_⟩
      · rcases getElem?_set_eq_some hq with ⟨rfl, rfl⟩ | ⟨hne, hq⟩
        · exact (h.pages m p hp).step ht
        · exact (h.pages m q hq).other hne
      · rw [List.length_set]
        rcases List.mem_append.1 hx with hold | hnew
        · exact h.loaded x hold
        · rw [(mem_entries.1 hnew).1]
          exact hlt

/-- **No session is left behind.** In every run of any number of pages, a session that was opened is the
current one of its page, or it was detached, its host key was rejected, or it has ended.

**Proof sketch.** One connection is in flight at a time, so whatever takes the place of the current
session, or clears it, is about that session. -/
theorem leaves_no_session {xs : List Happening}
    (hrun : Run.run (Browser.step key) (.start initial) xs = some b) (hp : b.pages[n]? = some p)
    (hi : ⟨n, i, .opened⟩ ∈ b.log) : p.currentSession = some i ∨ Left b.log n i := by
  have hstart : AllOwned (.start initial) := ⟨fun _ _ hp => (nomatch hp), nofun⟩
  have hall : AllOwned b := Run.run_inv_of_step (fun _ _ _ h hstep => h.step hstep) hstart hrun
  exact (hall.pages n p hp).opened i hi

/-- A connection is opened, and then another one in its place. -/
def reconnects : List Happening :=
  [.load, .on 0 (.dial "machine" "user" .auto), .on 0 (.goOn 0 .opened),
    .on 0 (.goOn 0 (.status .closed)), .on 0 (.dial "machine" "user" .auto), .on 0 (.goOn 1 .opened)]

/-- The run to which `leaves_no_session` is applied. -/
theorem leaves_no_session_reconnects :
    ∃ b p, Run.run (Browser.step fun _ => none) (.start fun _ => none) reconnects = some b ∧
      b.pages[0]? = some p ∧ (p.currentSession = some 0 ∨ Left b.log 0 0) ∧ p.currentSession = some 1 :=
  ⟨_, _, rfl, rfl,
    @leaves_no_session (fun _ => none) (fun _ => none) 0 0 _ _ reconnects rfl rfl (by decide), rfl⟩

/-! ## Questions -/

/-- The questions of a page. -/
structure Asking (p : Page) : Prop where
  /-- One that has no answer is on the screen. -/
  shown : ∀ (k : ℕ) a, p.asks[k]? = some a → a.value = none → p.sheet = some k
  awaited : ∀ (i : ℕ) c, p.connections[i]? = some c → ∀ k, c.stage.ask? = some k → k < p.asks.length

/-- Once the sheet is settled, no question is left. -/
theorem Asking.settled (h : Asking p) (v : Value) {k : ℕ} {a : Asked}
    (ha : (p.settleSheet v).asks[k]? = some a) : a.value ≠ none := by
  unfold Page.settleSheet at ha
  split at ha
  · rename_i hsheet
    intro hnone
    have hshown := h.shown k a ha hnone
    rw [hsheet] at hshown
    cases hshown
  · rename_i j hsheet
    obtain ⟨b, hb, rfl⟩ := getElem?_modify_eq_some.1 ha
    split_ifs with hjk
    · exact nofun
    · intro hnone
      have hshown := h.shown k b hb hnone
      rw [hsheet] at hshown
      exact hjk (Option.some.inj hshown)

theorem Asking.settle (h : Asking p) (v : Value) : Asking (p.settleSheet v) where
  shown k a ha hnone := absurd hnone (h.settled v ha)
  awaited i c hc k hk := by
    rw [Page.connections_settleSheet] at hc
    rw [Page.length_asks_settleSheet]
    exact h.awaited i c hc k hk

theorem Asking.show (h : Asking p) (a : Ask) : Asking (p.showSheet a) where
  shown k b hb hnone := by
    rcases getElem?_concat_eq_some.1 hb with hold | ⟨rfl, rfl⟩
    · exact absurd hnone (h.settled .null hold)
    · exact congrArg some (p.length_asks_settleSheet .null).symm
  awaited i c hc k hk := by
    rw [Page.connections_showSheet] at hc
    have hlt := h.awaited i c hc k hk
    have hlen := p.length_asks_settleSheet .null
    simp only [Page.showSheet, Page.withdrawSheet, List.length_append, List.length_singleton]
    omega

/-- A connection moves on, maybe to wait for a question. -/
theorem Asking.stage (h : Asking p) {s : Stage} (hs : ∀ k, s.ask? = some k → k < p.asks.length)
    (hasks : p'.asks = p.asks) (hsheet : p'.sheet = p.sheet)
    (hconns : p'.connections = (p.setStage i s).connections) : Asking p' where
  shown k a ha hnone := by
    rw [hasks] at ha
    rw [hsheet]
    exact h.shown k a ha hnone
  awaited j d hd k hk := by
    rw [hconns] at hd
    rw [hasks]
    obtain ⟨d, hold, rfl⟩ := getElem?_modify_eq_some.1 hd
    split_ifs at hk
    · exact hs k hk
    · exact h.awaited j d hold k hk

/-- It waits for the one that is asked now. -/
theorem Asking.asks (h : Asking p) (a : Ask) {s : Stage} (hs : s.ask? = some p.asks.length) :
    Asking ((p.showSheet a).setStage i s) := by
  refine (h.show a).stage (i := i) (s := s) (fun k hk => ?_) rfl rfl rfl
  obtain rfl : p.asks.length = k := Option.some.inj (hs.symm.trans hk)
  have hlen := p.length_asks_settleSheet .null
  simp only [Page.showSheet, Page.withdrawSheet, List.length_append, List.length_singleton]
  omega

theorem Asking.goes (h : Asking p) (hgoes : p.Goes key pins i c t) : Asking t.page := by
  have hmove : ∀ {s : Stage}, s.ask? = none → Asking (p.setStage i s) := fun hs =>
    h.stage (fun k hk => absurd (hs.symm.trans hk) nofun) rfl rfl rfl
  have htell : ∀ fp e? v storage, (p.tell pins i fp e? v storage).page = p.setStage i (.deciding v.ok) := by
    intro fp e? v storage
    unfold Page.tell
    split
    · split_ifs <;> rfl
    · rfl
  cases hgoes with
  | stays => exact h
  | opens => exact h.stage (s := .settling) nofun rfl rfl rfl
  | settles => exact hmove rfl
  | reports hs =>
    unfold Page.confirmHostKey
    split_ifs
    · exact hmove rfl
    · exact h.asks _ rfl
  | knows hs =>
    rw [htell]
    exact hmove rfl
  | tells hs hv =>
    rw [htell]
    exact hmove rfl
  | moves _ _ _ hask => exact hmove hask
  | calls _ _ _ hask => exact hmove hask
  | asks _ _ _ hask => exact h.asks _ hask
  | finishes hs =>
    refine h.stage (fun k hk => ?_) rfl rfl rfl
    rcases hs with rfl | ⟨rfl, -⟩ <;> cases hk
  | closes => exact h.stage (s := .abandoned) nofun rfl rfl rfl

theorem Asking.step (h : Asking p) {a : Action} (hstep : p.step key pins a = some t) :
    Asking t.page := by
  cases a with
  | dial connstring user method =>
    simp only [Page.step] at hstep
    split_ifs at hstep <;> cases hstep
    · exact h
    · have hsettled := h.settle .null
      refine ⟨hsettled.shown, fun i c hc k hk => ?_⟩
      rcases getElem?_concat_eq_some.1 hc with hc | ⟨rfl, rfl⟩
      · exact hsettled.awaited i c ((p.connections_settleSheet .null) ▸ hc) k hk
      · cases hk
  | goOn i e =>
    simp only [Page.step] at hstep
    split at hstep
    · cases hstep
    · exact h.goes (Page.goOn_cases hstep)
  | ask a =>
    have hpage : t.page = p.showSheet a := by
      cases a <;> cases hstep <;> rfl
    rw [hpage]
    exact h.show a
  | tap v =>
    simp only [Page.step] at hstep
    split at hstep
    · cases hstep
    · split_ifs at hstep
      cases hstep
      exact h.settle v
  | dismiss =>
    cases hstep
    exact h.settle .null
  | scanned text =>
    simp only [Page.step] at hstep
    split_ifs at hstep
    cases hstep
    exact h.settle _
  | removePin e storage =>
    cases hstep
    exact h
  | ended =>
    simp only [Page.step] at hstep
    split at hstep
    · cases hstep
    · split_ifs at hstep
      cases hstep
      exact ⟨h.shown, h.awaited⟩
  | detach =>
    simp only [Page.step] at hstep
    split at hstep <;> cases hstep
    · exact h
    · exact ⟨h.shown, h.awaited⟩

/-- The questions of all pages. -/
theorem asking_step (h : ∀ p ∈ b.pages, Asking p) {x : Happening} (hstep : b.step key x = some b') :
    ∀ p ∈ b'.pages, Asking p := by
  cases x with
  | load =>
    cases hstep
    intro p hp
    rcases List.mem_append.1 hp with hp | hp
    · exact h p hp
    · rw [List.mem_singleton.1 hp]
      exact ⟨fun _ _ ha => (nomatch ha), fun _ _ hc => (nomatch hc)⟩
  | on n a =>
    simp only [Browser.step] at hstep
    split at hstep
    · cases hstep
    · rename_i p hp
      obtain ⟨t, ht, rfl⟩ := Option.map_eq_some_iff.1 hstep
      intro q hq
      rcases List.mem_or_eq_of_mem_set hq with hq | rfl
      · exact h q hq
      · exact (h p (List.mem_of_getElem? hp)).step ht

/-- **What a connection waits for can be answered.** In every run of any number of pages, a connection
that waits for the user waits for the question that is on the screen, or can go on with its answer.

**Proof sketch.** Whatever takes the place of a question answers it with `null`. -/
theorem answerable {xs : List Happening}
    (hrun : Run.run (Browser.step key) (.start initial) xs = some b) (hp : p ∈ b.pages)
    (hc : p.connections[i]? = some c) {k : ℕ} (hk : c.stage.ask? = some k) :
    p.sheet = some k ∨ ∃ t, p.step key b.pins (.goOn i (.answered true)) = some t := by
  have hall : ∀ p ∈ b.pages, Asking p :=
    Run.run_inv_of_step (P := fun b => ∀ p ∈ b.pages, Asking p) (fun _ _ _ h hstep => asking_step h hstep)
      (fun _ hp => absurd hp List.not_mem_nil) hrun
  have hlt := (hall p hp).awaited i c hc k hk
  obtain ⟨a, ha⟩ : ∃ a, p.asks[k]? = some a := ⟨_, List.getElem?_eq_getElem hlt⟩
  cases hvalue : a.value with
  | none => exact .inl ((hall p hp).shown k a ha hvalue)
  | some v =>
    right
    have hv : p.valueOf k = some v := Option.bind_eq_some_iff.2 ⟨a, ha, hvalue⟩
    simp only [Page.step, hc]
    cases hs : c.stage <;> rw [hs] at hk <;> cases hk <;> simp [Page.goOn, hv]

/-- A connection asks about its host key, and then about something else: the run to which `answerable`
is applied. -/
theorem answerable_superseded :
    ∃ b p c, Run.run (Browser.step fun _ => none) (.start fun _ => none)
        ((connecting 0) ++ [.on 0 (.ask .scan)]) = some b ∧ p ∈ b.pages ∧
      p.connections[0]? = some c ∧ c.stage.ask? = some 0 ∧ p.sheet = some 1 ∧
      (p.sheet = some 0 ∨ ∃ t, p.step (fun _ => none) b.pins (.goOn 0 (.answered true)) = some t) :=
  ⟨_, _, _, rfl, List.mem_singleton.2 rfl, rfl, rfl, rfl,
    @answerable (fun _ => none) (fun _ => none) 0 _ _ _ ((connecting 0) ++ [.on 0 (.ask .scan)]) rfl
      (List.mem_singleton.2 rfl) rfl 0 rfl⟩

end HostKeys
