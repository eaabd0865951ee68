import Wosh.Lib.Chronicle
import Wosh.Lib.Run
import Wosh.Lib.Slots
import Wosh.Page.HostKeys

set_option relaxedAutoImplicit false
set_option autoImplicit false

/-!
# No credential without consent

Whatever is asked, superseded and answered on any number of pages, a session uses a credential only
after the user has approved the very fingerprint that it reported: for this connection, or before, to be
remembered for the same endpoint.

## Main definitions

* `HostKeys.Justified` — what must have happened before an entry of the log.
* `HostKeys.Consented` — the user has approved the host key that a session reported.
* `HostKeys.Sound` — the invariant.

## Main results

* `HostKeys.Sound.step` — every entry of the log is justified.
* `HostKeys.credential_consented` — no credential is used without consent.
-/

namespace HostKeys

open Chronicle Slots

/-! ## Reasons -/

section Reasons

variable (key : String → Option String) (initial : Pins)

/-- The session has not reported a fingerprint. -/
def Unreported (log : List Entry) (n i : ℕ) : Prop :=
  ∀ cs fp, (⟨n, i, .reported cs fp⟩ : Entry) ∉ log

/-- The fingerprint was in the store to begin with, or some page has saved it. -/
def Known (log : List Entry) (e fp : String) : Prop :=
  initial e = some ⟨some fp⟩ ∨ ∃ m j, (⟨m, j, .saved e fp⟩ : Entry) ∈ log

/-- What must have happened before an entry. -/
def Justified (pre : List Entry) (x : Entry) : Prop :=
  let Has := fun d => (⟨x.page, x.connection, d⟩ : Entry) ∈ pre
  match x.deed with
  | .reported _ _ => Unreported pre x.page x.connection
  | .shown e? fp _ => ∃ cs, Has (.reported cs fp) ∧ e? = key cs
  | .approved e? fp remember => ∃ changed, Has (.shown e? fp changed) ∧ (changed = true → remember = false)
  | .saved e fp => Has (.approved (some e) fp true)
  | .matched e? fp => ∃ cs e, Has (.reported cs fp) ∧ e? = some e ∧ key cs = some e ∧ Known initial pre e fp
  | .call (.confirmHostKey true) =>
    (∃ e? fp remember, Has (.approved e? fp remember)) ∨ ∃ e? fp, Has (.matched e? fp)
  | .call c => c.isCredential = true → Has (.call (.confirmHostKey true))
  | .opened | .ended => True

/-- The user has approved the fingerprint that a session reported, for its connection, or to be
remembered for its endpoint, in place of no other. -/
def Consented (pre : List Entry) (n i : ℕ) : Prop :=
  ∃ cs fp, ⟨n, i, .reported cs fp⟩ ∈ pre ∧
    (∀ cs' fp', ⟨n, i, .reported cs' fp'⟩ ∈ pre → cs' = cs ∧ fp' = fp) ∧
    ((∃ remember, ⟨n, i, .approved (key cs) fp remember⟩ ∈ pre) ∨
      ∃ e, key cs = some e ∧ (initial e = some ⟨some fp⟩ ∨
        ∃ m j, ⟨m, j, .shown (some e) fp false⟩ ∈ pre ∧ ⟨m, j, .approved (some e) fp true⟩ ∈ pre))

end Reasons

/-! ## What is known of a page -/

variable {key : String → Option String} {initial : Pins} {log log' : List Entry} {n i : ℕ}
  {p : Page} {deeds : List (ℕ × Deed)}

theorem Unreported.append {m : ℕ} (h : Unreported log m i)
    (hdeeds : m = n → ∀ cs fp, (i, Deed.reported cs fp) ∉ deeds) :
    Unreported (log ++ entries n deeds) m i := by
  intro cs fp hmem
  rcases List.mem_append.1 hmem with hold | hnew
  · exact h cs fp hold
  · obtain ⟨hpage, hd⟩ := mem_entries.1 hnew
    exact hdeeds hpage cs fp hd

/-- What is known of a question about a host key. -/
def AskSound (log : List Entry) (n : ℕ) (a : Asked) : Prop :=
  ∀ i fp e? pinned, a.ask = .hostkey i fp e? pinned →
    ⟨n, i, .shown e? fp pinned.isSome⟩ ∈ log ∧
      ∀ v, a.value = some v → v.ok = true → ⟨n, i, .approved e? fp v.remember⟩ ∈ log

/-- What is known of a connection, from where it stands. -/
def StageSound (key : String → Option String) (log : List Entry) (n : ℕ) (asks : List Asked) (i : ℕ)
    (c : Connection) : Prop :=
  match c.stage with
  | .dialing | .settling | .reading => Unreported log n i
  | .confirming fp none => ∃ e?, ⟨n, i, .matched e? fp⟩ ∈ log
  | .confirming fp (some k) =>
    ∃ a pinned, asks[k]? = some a ∧ a.ask = .hostkey i fp (key c.connstring) pinned
  | .abandoned => True
  | s => s.told = true → ⟨n, i, .call (.confirmHostKey true)⟩ ∈ log

/-- What is known of a page. -/
structure PageSound (key : String → Option String) (log : List Entry) (n : ℕ) (p : Page) : Prop where
  asks : ∀ (k : ℕ) a, p.asks[k]? = some a → AskSound log n a
  stages : ∀ (i : ℕ) c, p.connections[i]? = some c → StageSound key log n p.asks i c
  fresh : ∀ i, p.connections.length ≤ i → Unreported log n i

/-- The questions that were asked are the same, whatever they were answered with. -/
def AsksKept (asks asks' : List Asked) : Prop :=
  ∀ (k : ℕ) (a : Asked), asks[k]? = some a → ∃ v, asks'[k]? = some { a with value := v }

theorem asksKept_refl (asks : List Asked) : AsksKept asks asks := fun _ a h => ⟨a.value, h⟩

theorem AsksKept.trans {asks asks' asks'' : List Asked} (h : AsksKept asks asks')
    (h' : AsksKept asks' asks'') : AsksKept asks asks'' := by
  intro k a ha
  obtain ⟨v, hv⟩ := h k a ha
  obtain ⟨v', hv'⟩ := h' k _ hv
  exact ⟨v', hv'⟩

theorem asksKept_settle (p : Page) (v : Value) : AsksKept p.asks (p.settleSheet v).asks := by
  unfold Page.settleSheet
  split
  · exact asksKept_refl _
  · rename_i j _
    intro k a ha
    refine ⟨if j = k then some v else a.value, getElem?_modify_eq_some.2 ⟨a, ha, ?_⟩⟩
    split_ifs <;> rfl

theorem asksKept_show (p : Page) (a : Ask) : AsksKept p.asks (p.showSheet a).asks := by
  intro k b hb
  obtain ⟨v, hv⟩ := asksKept_settle p .null k b hb
  exact ⟨v, getElem?_concat_eq_some.2 (.inl hv)⟩

theorem AskSound.mono {a : Asked} (h : AskSound log n a) (hlog : log ⊆ log') : AskSound log' n a := by
  intro i fp e? pinned ha
  obtain ⟨hshown, happroved⟩ := h i fp e? pinned ha
  exact ⟨hlog hshown, fun v hv hok => hlog (happroved v hv hok)⟩

/-- A question is settled: with an approval only if that is in the log. -/
theorem asks_settle {v : Value} (h : ∀ (k : ℕ) a, p.asks[k]? = some a → AskSound log n a)
    (hv : v.ok = true → ∀ (k : ℕ) a, p.sheet = some k → p.asks[k]? = some a →
      ∀ i fp e? pinned, a.ask = .hostkey i fp e? pinned →
        ⟨n, i, .approved e? fp v.remember⟩ ∈ log) :
    ∀ (k : ℕ) a, (p.settleSheet v).asks[k]? = some a → AskSound log n a := by
  unfold Page.settleSheet
  split
  · exact h
  · rename_i j hsheet
    intro k a ha
    obtain ⟨b, hb, rfl⟩ := getElem?_modify_eq_some.1 ha
    split_ifs with hjk
    · subst hjk
      intro i fp e? pinned hask
      refine ⟨(h j b hb i fp e? pinned hask).1, fun v' hv' hok => ?_⟩
      obtain rfl : v = v' := Option.some.inj hv'
      exact hv hok j b hsheet hb i fp e? pinned hask
    · exact h k b hb

theorem asks_withdraw (h : ∀ (k : ℕ) a, p.asks[k]? = some a → AskSound log n a) :
    ∀ (k : ℕ) a, p.withdrawSheet.asks[k]? = some a → AskSound log n a :=
  asks_settle h nofun

theorem asks_show {a : Ask} (h : ∀ (k : ℕ) a, p.asks[k]? = some a → AskSound log n a)
    (ha : ∀ i fp e? pinned, a = .hostkey i fp e? pinned → ⟨n, i, .shown e? fp pinned.isSome⟩ ∈ log) :
    ∀ (k : ℕ) b, (p.showSheet a).asks[k]? = some b → AskSound log n b := by
  intro k b hb
  rcases getElem?_concat_eq_some.1 hb with hold | ⟨-, rfl⟩
  · exact asks_withdraw h k b hold
  · intro i fp e? pinned hask
    exact ⟨ha i fp e? pinned hask, nofun⟩

theorem StageSound.mono {asks asks' : List Asked} {c : Connection}
    (h : StageSound key log n asks i c) (hlog : log ⊆ log')
    (hfresh : Unreported log n i → Unreported log' n i) (hasks : AsksKept asks asks') :
    StageSound key log' n asks' i c := by
  unfold StageSound at h ⊢
  split at h
  · exact hfresh h
  · exact hfresh h
  · exact hfresh h
  · exact h.imp fun _ hm => hlog hm
  · obtain ⟨a, pinned, ha, hask⟩ := h
    obtain ⟨v, hv⟩ := hasks _ a ha
    exact ⟨_, pinned, hv, hask⟩
  · trivial
  · exact fun ht => hlog (h ht)

/-- The stages past the gate. -/
theorem stageSound_of_told {asks : List Asked} {c : Connection} (ht : c.stage.told = true)
    (h : ⟨n, i, .call (.confirmHostKey true)⟩ ∈ log) : StageSound key log n asks i c := by
  unfold StageSound
  cases hs : c.stage <;> rw [hs] at ht <;> first
    | exact fun _ => h
    | cases ht

theorem StageSound.told {asks : List Asked} {c : Connection} (h : StageSound key log n asks i c)
    (ht : c.stage.told = true) : ⟨n, i, .call (.confirmHostKey true)⟩ ∈ log := by
  unfold StageSound at h
  cases hs : c.stage <;> rw [hs] at h ht <;> first
    | exact h ht
    | cases ht

/-- A connection moves on a page whose questions are kept. -/
theorem PageSound.move (h : PageSound key log n p) {p' : Page} {s : Stage}
    (hasks : ∀ (k : ℕ) a, p'.asks[k]? = some a → AskSound (log ++ entries n deeds) n a)
    (hkept : AsksKept p.asks p'.asks)
    (hconns : p'.connections = (p.setStage i s).connections)
    (hstage : ∀ c, p.connections[i]? = some c →
      StageSound key (log ++ entries n deeds) n p'.asks i { c with stage := s })
    (hdeeds : ∀ j cs fp, (j, Deed.reported cs fp) ∈ deeds → j = i ∧ i < p.connections.length) :
    PageSound key (log ++ entries n deeds) n p' where
  asks := hasks
  stages j c hc := by
    rw [hconns] at hc
    obtain ⟨c, hold, rfl⟩ := getElem?_modify_eq_some.1 hc
    split_ifs with hij
    · subst hij
      exact hstage c hold
    · refine (h.stages j c hold).mono (List.subset_append_left _ _) (fun hun => ?_) hkept
      exact hun.append fun _ cs fp hmem => hij (hdeeds j cs fp hmem).1.symm
  fresh j hj := by
    rw [hconns, Page.setStage, List.length_modify] at hj
    refine (h.fresh j hj).append fun _ cs fp hmem => ?_
    obtain ⟨rfl, hlt⟩ := hdeeds j cs fp hmem
    omega

/-- No connection moves. -/
theorem PageSound.keep (h : PageSound key log n p) {p' : Page}
    (hasks : ∀ (k : ℕ) a, p'.asks[k]? = some a → AskSound (log ++ entries n deeds) n a)
    (hkept : AsksKept p.asks p'.asks) (hconns : p'.connections = p.connections)
    (hdeeds : ∀ j cs fp, (j, Deed.reported cs fp) ∉ deeds) :
    PageSound key (log ++ entries n deeds) n p' where
  asks := hasks
  stages j c hc := by
    rw [hconns] at hc
    exact (h.stages j c hc).mono (List.subset_append_left _ _)
      (fun hun => hun.append fun _ => hdeeds j) hkept
  fresh j hj := by
    rw [hconns] at hj
    exact (h.fresh j hj).append fun _ => hdeeds j

/-! ## Steps -/

/-- The store holds what it held to begin with, and what was saved since. -/
def PinsSound (initial : Pins) (log : List Entry) (pins : Pins) : Prop :=
  ∀ e pin, pins e = some pin →
    initial e = some pin ∨ ∃ fp, pin = ⟨some fp⟩ ∧ ∃ m j, (⟨m, j, .saved e fp⟩ : Entry) ∈ log

theorem PinsSound.known {pins : Pins} (h : PinsSound initial log pins) {e fp : String}
    (hpin : pins e = some ⟨some fp⟩) : Known initial log e fp := by
  rcases h e _ hpin with hinit | ⟨fp', heq, m, j, hsaved⟩
  · exact .inl hinit
  · cases heq
    exact .inr ⟨m, j, hsaved⟩

theorem PinsSound.mono {pins : Pins} (h : PinsSound initial log pins) (hlog : log ⊆ log') :
    PinsSound initial log' pins := by
  intro e pin hpin
  rcases h e pin hpin with hinit | ⟨fp, heq, m, j, hsaved⟩
  · exact .inl hinit
  · exact .inr ⟨fp, heq, m, j, hlog hsaved⟩

theorem PinsSound.savePin {pins : Pins} (h : PinsSound initial log pins) {e fp : String} {m j : ℕ}
    (hsaved : ⟨m, j, .saved e fp⟩ ∈ log) (storage : Bool) :
    PinsSound initial log (Page.savePin pins storage e fp) := by
  unfold Page.savePin
  split_ifs
  · intro e' pin hpin
    by_cases heq : e' = e
    · subst heq
      rw [Function.update_self] at hpin
      exact .inr ⟨fp, (Option.some.inj hpin).symm, m, j, hsaved⟩
    · rw [Function.update_of_ne heq] at hpin
      exact h e' pin hpin
  · exact h

theorem PinsSound.removePin {pins : Pins} (h : PinsSound initial log pins) (e : String) :
    PinsSound initial log (Function.update pins e none) := by
  intro e' pin hpin
  by_cases heq : e' = e
  · subst heq
    rw [Function.update_self] at hpin
    cases hpin
  · rw [Function.update_of_ne heq] at hpin
    exact h e' pin hpin

/-- What a page has done is justified, and its state is known. -/
structure TurnSound (key : String → Option String) (initial : Pins) (log : List Entry) (n : ℕ)
    (t : Turn) : Prop where
  page : PageSound key (log ++ entries n t.deeds) n t.page
  deeds : Follows (Justified key initial) log (entries n t.deeds)
  pins : PinsSound initial (log ++ entries n t.deeds) t.pins

section Turns

variable {pins : Pins} {c : Connection} {t : Turn} (h : PageSound key log n p)
  (hpins : PinsSound initial log pins)

include h hpins

/-- Nothing but the stage of a connection changes. -/
theorem turnSound_stage {p' : Page} {s : Stage} (hasks : p'.asks = p.asks)
    (hconns : p'.connections = (p.setStage i s).connections)
    (hdeeds : Follows (Justified key initial) log (entries n deeds))
    (hreports : ∀ j cs fp, (j, Deed.reported cs fp) ∉ deeds)
    (hstage : ∀ c, p.connections[i]? = some c →
      StageSound key (log ++ entries n deeds) n p.asks i { c with stage := s }) :
    TurnSound key initial log n ⟨p', pins, deeds⟩ where
  page := by
    refine h.move ?_ ?_ hconns ?_ fun j cs fp hmem => absurd hmem (hreports j cs fp)
    · rw [hasks]
      exact fun k a ha => (h.asks k a ha).mono (List.subset_append_left _ _)
    · rw [hasks]
      exact asksKept_refl _
    · rw [hasks]
      exact hstage
  deeds := hdeeds
  pins := hpins.mono (List.subset_append_left _ _)

theorem turnSound_opens (hc : p.connections[i]? = some c) (hs : c.stage = .dialing) :
    TurnSound key initial log n ⟨{ p.setStage i .settling with currentSession := some i }, pins,
      (i, .opened) :: p.currentSession.toList.map fun j => (j, .call .detach)⟩ := by
  have hreports : ∀ j cs fp, (j, Deed.reported cs fp) ∉
      (i, .opened) :: p.currentSession.toList.map fun j => (j, .call .detach) := by
    simp
  refine turnSound_stage (s := .settling) h hpins rfl rfl ?_ hreports fun c' hc' => ?_
  · refine follows_of_forall fun x hx pre => ?_
    obtain ⟨d, hd, rfl⟩ := List.mem_map.1 hx
    rcases List.mem_cons.1 hd with rfl | hd
    · trivial
    · obtain ⟨j, -, rfl⟩ := List.mem_map.1 hd
      exact nofun
  · cases hc.symm.trans hc'
    have hun := h.stages i c hc
    rw [StageSound, hs] at hun
    exact hun.append fun _ => hreports i

theorem turnSound_reports (hc : p.connections[i]? = some c) (hs : c.stage = .reading) {fp : String}
    {pinned : Option Pin} (hpinned : pinned = none ∨ pinned = (key c.connstring).bind pins) :
    TurnSound key initial log n { p.confirmHostKey pins i fp (key c.connstring) pinned with
      deeds := (i, .reported c.connstring fp) ::
        (p.confirmHostKey pins i fp (key c.connstring) pinned).deeds } := by
  have hun := h.stages i c hc
  rw [StageSound, hs] at hun
  have hlt : i < p.connections.length := (List.getElem?_eq_some_iff.1 hc).1
  unfold Page.confirmHostKey
  split_ifs with hpin
  · -- the fingerprint is the one that is saved for the endpoint
    obtain ⟨e, he, hknown⟩ : ∃ e, key c.connstring = some e ∧ pins e = some ⟨some fp⟩ := by
      rcases hpinned with rfl | rfl
      · cases hpin
      · exact Option.bind_eq_some_iff.1 hpin
    refine ⟨h.move (s := .confirming fp none) (fun k a ha => (h.asks k a ha).mono
      (List.subset_append_left _ _)) (asksKept_refl _) rfl (fun c' hc' => ?_) ?_, ⟨hun, ?_, trivial⟩,
      hpins.mono (List.subset_append_left _ _)⟩
    · exact ⟨key c.connstring, by simp [entries]⟩
    · intro j cs fp' hmem
      simp only [List.mem_cons, Prod.mk.injEq, reduceCtorEq, and_false, List.not_mem_nil, or_false]
        at hmem
      exact ⟨hmem.1, hlt⟩
    · refine ⟨c.connstring, e, by simp, he, he, ?_⟩
      rcases hpins.known hknown with hinit | ⟨m, j, hsaved⟩
      · exact .inl hinit
      · exact .inr ⟨m, j, List.mem_append_left _ hsaved⟩
  · have hlen : p.withdrawSheet.asks.length = p.asks.length := p.length_asks_settleSheet .null
    refine ⟨h.move (i := i) (s := .confirming fp (some p.asks.length)) (asks_show (fun k a ha =>
      (h.asks k a ha).mono (List.subset_append_left _ _)) ?_) (asksKept_show _ _)
      (by simp [Page.connections_setStage]) (fun c' hc' => ?_) ?_, ⟨hun, ?_, trivial⟩,
      hpins.mono (List.subset_append_left _ _)⟩
    · rintro _ _ _ _ ⟨⟩
      simp [entries]
    · cases hc.symm.trans hc'
      refine ⟨⟨.hostkey i fp (key c.connstring) pinned, none⟩, pinned, ?_, rfl⟩
      exact getElem?_concat_eq_some.2 (.inr ⟨hlen.symm, rfl⟩)
    · intro j cs fp' hmem
      simp only [List.mem_cons, Prod.mk.injEq, reduceCtorEq, and_false, List.not_mem_nil, or_false]
        at hmem
      exact ⟨hmem.1, hlt⟩
    · exact ⟨c.connstring, by simp, rfl⟩

/-- The session is told what the user says of its host key. -/
theorem turnSound_tell {fp : String} {e? : Option String} {v : Value} (storage : Bool)
    (hv : v.ok = true → (∃ e? fp remember, ⟨n, i, .approved e? fp remember⟩ ∈ log) ∨
      ∃ e? fp, ⟨n, i, .matched e? fp⟩ ∈ log)
    (hkeep : ∀ e, e? = some e → v.ok = true → v.remember = true →
      ⟨n, i, .approved (some e) fp true⟩ ∈ log) :
    TurnSound key initial log n (p.tell pins i fp e? v storage) := by
  -- the call is justified after whatever is saved
  have hcall : ∀ pre, log ⊆ pre → Justified key initial pre ⟨n, i, .call (.confirmHostKey v.ok)⟩ := by
    intro pre hpre
    cases hok : v.ok with
    | false => exact nofun
    | true =>
      rcases hv hok with ⟨e?, fp, remember, hmem⟩ | ⟨e?, fp, hmem⟩
      · exact .inl ⟨e?, fp, remember, hpre hmem⟩
      · exact .inr ⟨e?, fp, hpre hmem⟩
  have hstage : ∀ {deeds : List (ℕ × Deed)}, (i, .call (.confirmHostKey v.ok)) ∈ deeds → ∀ c : Connection,
      StageSound key (log ++ entries n deeds) n p.asks i { c with stage := .deciding v.ok } := by
    intro deeds hmem c hok
    have hok' : v.ok = true := hok
    rw [hok'] at hmem
    exact List.mem_append_right _ (mem_entries.2 ⟨rfl, hmem⟩)
  have hplain : TurnSound key initial log n
      ⟨p.setStage i (.deciding v.ok), pins, [(i, .call (.confirmHostKey v.ok))]⟩ :=
    turnSound_stage h hpins rfl rfl ⟨hcall log (List.Subset.refl _), trivial⟩ (by simp)
      fun c _ => hstage List.mem_cons_self c
  unfold Page.tell
  dsimp only
  split
  · rename_i e
    split_ifs with hsave
    · obtain ⟨hok, hremember⟩ := Bool.and_eq_true_iff.1 hsave
      have hsaved := hkeep e rfl hok hremember
      have hturn : TurnSound key initial log n ⟨p.setStage i (.deciding v.ok), pins,
          [(i, .saved e fp), (i, .call (.confirmHostKey v.ok))]⟩ :=
        turnSound_stage h hpins rfl rfl ⟨hsaved, hcall _ (List.subset_append_left _ _), trivial⟩
          (by simp) fun c _ => hstage (by simp) c
      exact ⟨hturn.page, hturn.deeds, hturn.pins.savePin (m := n) (j := i) (by simp [entries]) storage⟩
    · exact hplain
  · exact hplain

/-- A session that was told yes goes on. -/
theorem turnSound_told (hc : p.connections[i]? = some c) (ht : c.stage.told = true) {p' : Page}
    {s : Stage} (hasks : ∀ (k : ℕ) a, p'.asks[k]? = some a → AskSound (log ++ entries n deeds) n a)
    (hkept : AsksKept p.asks p'.asks) (hconns : p'.connections = (p.setStage i s).connections)
    (hs : s.told = true) (hdeeds : ∀ d ∈ deeds, ∃ cl, d = (i, .call cl) ∧ ∀ ok, cl ≠ .confirmHostKey ok) :
    TurnSound key initial log n ⟨p', pins, deeds⟩ := by
  have htold := (h.stages i c hc).told ht
  have hcalls : ∀ (pre : List Entry), log ⊆ pre → Follows (Justified key initial) pre (entries n deeds) := by
    clear hasks
    induction deeds with
    | nil => exact fun _ _ => trivial
    | cons d ds ih =>
      intro pre hpre
      refine ⟨?_, ih (fun d hd => hdeeds d (List.mem_cons_of_mem _ hd)) _
        (List.Subset.trans hpre (List.subset_append_left _ _))⟩
      obtain ⟨cl, rfl, hne⟩ := hdeeds d List.mem_cons_self
      cases cl with
      | confirmHostKey ok => exact absurd rfl (hne ok)
      | _ => exact fun _ => hpre htold
  refine ⟨h.move hasks hkept hconns (fun c' _ => ?_) ?_, hcalls log (List.Subset.refl _),
    hpins.mono (List.subset_append_left _ _)⟩
  · exact stageSound_of_told hs (List.mem_append_left _ htold)
  · intro j cs fp hmem
    obtain ⟨cl, heq, -⟩ := hdeeds _ hmem
    cases heq

/-- **What a connection does is justified.** -/
theorem turnSound_goes (hc : p.connections[i]? = some c) (hgoes : p.Goes key pins i c t) :
    TurnSound key initial log n t := by
  have hold : ∀ (ds : List (ℕ × Deed)) (k : ℕ) a, p.asks[k]? = some a →
      AskSound (log ++ entries n ds) n a :=
    fun ds k a ha => (h.asks k a ha).mono (List.subset_append_left _ _)
  cases hgoes with
  | stays =>
    exact ⟨h.keep (hold []) (asksKept_refl _) rfl nofun, trivial,
      hpins.mono (List.subset_append_left _ _)⟩
  | opens hs => exact turnSound_opens h hpins hc hs
  | settles hs =>
    refine turnSound_stage (s := .reading) h hpins rfl rfl trivial nofun fun c' hc' => ?_
    cases hc.symm.trans hc'
    have hun := h.stages i c hc
    rw [StageSound, hs] at hun
    exact hun.append nofun
  | reports hs hpinned => exact turnSound_reports h hpins hc hs hpinned
  | knows hs storage =>
    have hmatched := h.stages i c hc
    rw [StageSound, hs] at hmatched
    obtain ⟨e?, hmem⟩ := hmatched
    exact turnSound_tell h hpins storage (fun _ => .inr ⟨e?, _, hmem⟩) nofun
  | tells hs hv storage =>
    have hstage := h.stages i c hc
    rw [StageSound, hs] at hstage
    obtain ⟨a, pinned, ha, hask⟩ := hstage
    obtain ⟨a', ha', hvalue⟩ := Option.bind_eq_some_iff.1 hv
    cases ha.symm.trans ha'
    have happroved := (h.asks _ a ha _ _ _ _ hask).2 _ hvalue
    refine turnSound_tell h hpins storage (fun hok => .inl ⟨_, _, _, happroved hok⟩) ?_
    intro e he hok hremember
    have hmem := happroved hok
    rwa [he, hremember] at hmem
  | moves ht hs => exact turnSound_told h hpins hc ht (hold []) (asksKept_refl _) rfl hs nofun
  | calls ht hs _ _ hcl =>
    refine turnSound_told h hpins hc ht (hold _) (asksKept_refl _) rfl hs fun d hd => ?_
    exact ⟨_, List.mem_singleton.1 hd, hcl⟩
  | asks ht hs =>
    exact turnSound_told h hpins hc ht (asks_show (hold []) nofun) (asksKept_show _ _)
      (by simp [Page.connections_setStage]) hs nofun
  | finishes hs =>
    rcases hs with rfl | ⟨rfl, ht⟩
    · exact turnSound_stage (s := .abandoned) h hpins rfl rfl trivial nofun fun _ _ => trivial
    · exact turnSound_told (s := .connected) h hpins hc ht (hold []) (asksKept_refl _) rfl rfl nofun
  | closes hs =>
    exact turnSound_stage (s := .abandoned) h hpins rfl rfl trivial nofun fun _ _ => trivial

/-- **What a page does is justified.** -/
theorem turnSound_step {a : Action} (hstep : p.step key pins a = some t) :
    TurnSound key initial log n t := by
  have hold : ∀ (ds : List (ℕ × Deed)) (k : ℕ) a, p.asks[k]? = some a →
      AskSound (log ++ entries n ds) n a :=
    fun ds k a ha => (h.asks k a ha).mono (List.subset_append_left _ _)
  have hkeep : ∀ {p' : Page} {ds : List (ℕ × Deed)},
      (∀ (k : ℕ) a, p'.asks[k]? = some a → AskSound (log ++ entries n ds) n a) →
      AsksKept p.asks p'.asks → p'.connections = p.connections →
      (∀ j cs fp, (j, Deed.reported cs fp) ∉ ds) →
      Follows (Justified key initial) log (entries n ds) → TurnSound key initial log n ⟨p', pins, ds⟩ :=
    fun hasks hkept hconns hds hfollows => ⟨h.keep hasks hkept hconns hds, hfollows,
      hpins.mono (List.subset_append_left _ _)⟩
  cases a with
  | dial connstring user method =>
    simp only [Page.step] at hstep
    split_ifs at hstep with hdialing
    · cases hstep
      exact hkeep (hold []) (asksKept_refl _) rfl nofun trivial
    · cases hstep
      refine ⟨⟨asks_withdraw (hold []), fun i c hc => ?_, fun i hi => ?_⟩, trivial,
        hpins.mono (List.subset_append_left _ _)⟩
      · rcases getElem?_concat_eq_some.1 hc with hc | ⟨rfl, rfl⟩
        · exact (h.stages i c hc).mono (List.subset_append_left _ _) (fun hun => hun.append nofun)
            (asksKept_settle p .null)
        · exact (h.fresh _ (Nat.le_refl _)).append nofun
      · simp only [List.length_append, List.length_singleton] at hi
        exact (h.fresh i (by omega)).append nofun
  | goOn i e =>
    simp only [Page.step] at hstep
    split at hstep
    · cases hstep
    · rename_i c hc
      exact turnSound_goes h hpins hc (Page.goOn_cases hstep)
  | ask a =>
    have hshow : (∀ i fp e? pinned, a ≠ .hostkey i fp e? pinned) → p.step key pins (.ask a) = some t →
        t = ⟨p.showSheet a, pins, []⟩ := by
      intro hne hstep
      cases a with
      | hostkey i fp e? pinned => exact absurd rfl (hne i fp e? pinned)
      | prompts b => cases hstep
      | _ => exact (Option.some.inj hstep).symm
    have hne : ∀ i fp e? pinned, a ≠ .hostkey i fp e? pinned := by
      rintro i fp e? pinned rfl
      cases hstep
    rw [hshow hne hstep]
    refine hkeep (asks_show (hold []) fun i fp e? pinned ha => absurd ha (hne i fp e? pinned))
      (asksKept_show _ _) (by simp) nofun trivial
  | tap v =>
    simp only [Page.step] at hstep
    split at hstep
    · cases hstep
    · rename_i a ha
      obtain ⟨k, hk, hka⟩ := Option.bind_eq_some_iff.1 ha
      split_ifs at hstep with hoffers
      cases hstep
      refine hkeep (asks_settle (hold _) ?_) (asksKept_settle p v) (by simp) ?_ ?_
      · intro hok k' a' hk' ha' i fp e? pinned hask
        cases hk.symm.trans hk'
        cases hka.symm.trans ha'
        refine List.mem_append_right _ (mem_entries.2 ⟨rfl, ?_⟩)
        rw [hask, Page.approval, if_pos hok]
        exact List.mem_singleton.2 rfl
      · intro j cs fp hmem
        unfold Page.approval at hmem
        split at hmem
        · split_ifs at hmem <;> simp at hmem
        · cases hmem
      · cases hask : a.ask with
        | hostkey i fp e? pinned =>
          simp only [Page.approval]
          split_ifs with hok
          · refine ⟨⟨pinned.isSome, (h.asks k a hka i fp e? pinned hask).1, fun hchanged => ?_⟩, trivial⟩
            -- in place of another key it is never remembered
            obtain ⟨pin, rfl⟩ := Option.isSome_iff_exists.1 hchanged
            rw [hask] at hoffers
            cases v with
            | verdict ok remember => simpa [Ask.offers, Value.remember] using hoffers
            | _ => cases hok
          · trivial
        | _ => trivial
  | dismiss =>
    cases hstep
    exact hkeep (asks_withdraw (hold [])) (asksKept_settle p .null)
      (Page.connections_settleSheet p .null) nofun trivial
  | scanned text =>
    simp only [Page.step] at hstep
    split_ifs at hstep
    cases hstep
    refine hkeep (asks_settle (hold []) fun hok => ?_) (asksKept_settle p _) (by simp) nofun trivial
    cases text <;> cases hok
  | removePin e storage =>
    cases hstep
    refine ⟨h.keep (hold []) (asksKept_refl _) rfl nofun, trivial, ?_⟩
    dsimp only
    split_ifs
    · exact (hpins.mono (List.subset_append_left _ _)).removePin e
    · exact hpins.mono (List.subset_append_left _ _)
  | ended =>
    simp only [Page.step] at hstep
    split at hstep
    · cases hstep
    · split_ifs at hstep
      cases hstep
      exact hkeep (hold _) (asksKept_refl _) rfl (by simp) ⟨trivial, trivial⟩
  | detach =>
    simp only [Page.step] at hstep
    split at hstep <;> cases hstep
    · exact hkeep (hold []) (asksKept_refl _) rfl nofun trivial
    · exact hkeep (hold _) (asksKept_refl _) rfl (by simp) ⟨nofun, trivial⟩

end Turns

/-! ## Runs -/

/-- What one page does is no concern of another. -/
theorem PageSound.other {m : ℕ} (h : PageSound key log m p) (hne : m ≠ n) :
    PageSound key (log ++ entries n deeds) m p where
  asks k a ha := (h.asks k a ha).mono (List.subset_append_left _ _)
  stages i c hc := (h.stages i c hc).mono (List.subset_append_left _ _)
    (fun hun => hun.append fun heq => absurd heq hne) (asksKept_refl _)
  fresh i hi := (h.fresh i hi).append fun heq => absurd heq hne

/-- The invariant. -/
structure Sound (key : String → Option String) (initial : Pins) (b : Browser) : Prop where
  founded : Founded (Justified key initial) b.log
  pins : PinsSound initial b.log b.pins
  pages : ∀ (n : ℕ) p, b.pages[n]? = some p → PageSound key b.log n p
  unloaded : ∀ n, b.pages.length ≤ n → ∀ i, Unreported b.log n i

theorem sound_start (key : String → Option String) (initial : Pins) :
    Sound key initial (.start initial) where
  founded := founded_nil
  pins _ _ hpin := .inl hpin
  pages _ _ hp := nomatch hp
  unloaded _ _ _ _ _ := nofun

variable {b b' : Browser}

/-- **Every entry of the log is justified.** -/
theorem Sound.step (h : Sound key initial b) {x : Happening} (hstep : b.step key x = some b') :
    Sound key initial b' := by
  cases x with
  | load =>
    cases hstep
    refine ⟨h.founded, h.pins, fun n p hp => ?_, fun n hn => ?_⟩
    · rcases getElem?_concat_eq_some.1 hp with hp | ⟨rfl, rfl⟩
      · exact h.pages n p hp
      · exact ⟨fun _ _ ha => (nomatch ha), fun _ _ hc => (nomatch hc),
          fun i _ => h.unloaded _ (Nat.le_refl _) i⟩
    · simp only [List.length_append, List.length_singleton] at hn
      exact h.unloaded n (by omega)
  | on n a =>
    simp only [Browser.step] at hstep
    split at hstep
    · cases hstep
    · rename_i p hp
      obtain ⟨t, ht, rfl⟩ := Option.map_eq_some_iff.1 hstep
      have hturn := turnSound_step (h.pages n p hp) h.pins ht
      refine ⟨h.founded.append hturn.deeds, hturn.pins, fun m q hq => ?_, fun m hm i => ?_⟩
      · rcases getElem?_set_eq_some hq with ⟨rfl, rfl⟩ | ⟨hne, hq⟩
        · exact hturn.page
        · exact (h.pages m q hq).other hne
      · rw [List.length_set] at hm
        have hlt : n < b.pages.length := (List.getElem?_eq_some_iff.1 hp).1
        exact (h.unloaded m hm i).append fun heq => by omega

/-- A session reports one fingerprint. -/
theorem reported_unique (h : Founded (Justified key initial) log) {cs cs' fp fp' : String}
    (hmem : ⟨n, i, .reported cs fp⟩ ∈ log) (hmem' : ⟨n, i, .reported cs' fp'⟩ ∈ log) :
    cs' = cs ∧ fp' = fp := by
  obtain ⟨pre, post, rfl⟩ := List.append_of_mem hmem
  rcases List.mem_append.1 hmem' with hpre | hrest
  · exact absurd hpre (h.justified cs' fp')
  · rcases List.mem_cons.1 hrest with heq | hpost
    · cases heq
      exact ⟨rfl, rfl⟩
    · obtain ⟨mid, post', rfl⟩ := List.append_of_mem hpost
      rw [← List.cons_append, ← List.append_assoc] at h
      exact absurd (by simp) (h.justified cs fp)

/-- A fingerprint that is known was in the store to begin with, or the user has approved it to be
remembered. -/
theorem Known.consented (h : Founded (Justified key initial) log) {e fp : String}
    (hknown : Known initial log e fp) : initial e = some ⟨some fp⟩ ∨
      ∃ m j, ⟨m, j, .shown (some e) fp false⟩ ∈ log ∧ ⟨m, j, .approved (some e) fp true⟩ ∈ log := by
  rcases hknown with hinit | ⟨m, j, hsaved⟩
  · exact .inl hinit
  · obtain ⟨pre, hpre, happroved, hfounded⟩ := h.reason hsaved
    obtain ⟨pre', hpre', ⟨changed, hshown, hchanged⟩, -⟩ := hfounded.reason happroved
    obtain rfl : changed = false := by
      cases changed with
      | false => rfl
      | true => cases hchanged rfl
    exact .inr ⟨m, j, (hpre'.trans hpre).subset hshown, hpre.subset happroved⟩

/-- **No credential is used without consent.** In every run of any number of pages, a session uses a
credential only after the user has approved the one fingerprint that it reported: for this connection,
or for the same endpoint to be remembered, on a page that did not show it in place of another.

**Proof sketch.** Each entry of the log is justified by those before it; the call of a credential needs
that the session was told yes, which needs an approval or a match, and a match needs what was saved. -/
theorem credential_consented {xs : List Happening}
    (hrun : Run.run (Browser.step key) (.start initial) xs = some b) {pre post : List Entry} {c : Call}
    (hc : c.isCredential = true) (hlog : b.log = pre ++ ⟨n, i, .call c⟩ :: post) :
    Consented key initial pre n i := by
  have hsound : Sound key initial b :=
    Run.run_inv_of_step (fun _ _ _ h hstep => h.step hstep) (sound_start key initial) hrun
  have hfounded := hsound.founded
  rw [hlog] at hfounded
  have htold : ⟨n, i, .call (.confirmHostKey true)⟩ ∈ pre := by
    have hcall := hfounded.justified
    cases c with
    | confirmHostKey ok => cases hc
    | detach => cases hc
    | _ => exact hcall rfl
  have hpre := hfounded.before
  obtain ⟨pre', hsub, hreason, hfounded'⟩ := hpre.reason htold
  rcases hreason with ⟨e?, fp, remember, happroved⟩ | ⟨e?, fp, hmatched⟩
  · obtain ⟨pre₂, hsub₂, ⟨changed, hshown, -⟩, hfounded₂⟩ := hfounded'.reason happroved
    obtain ⟨pre₃, hsub₃, ⟨cs, hreported, rfl⟩, -⟩ := hfounded₂.reason hshown
    have hmem := ((hsub₃.trans hsub₂).trans hsub).subset hreported
    exact ⟨cs, fp, hmem, fun cs' fp' hmem' => reported_unique hpre hmem hmem',
      .inl ⟨remember, hsub.subset happroved⟩⟩
  · obtain ⟨pre₂, hsub₂, ⟨cs, e, hreported, -, he, hknown⟩, hfounded₂⟩ := hfounded'.reason hmatched
    have hmem := (hsub₂.trans hsub).subset hreported
    refine ⟨cs, fp, hmem, fun cs' fp' hmem' => reported_unique hpre hmem hmem', .inr ⟨e, he, ?_⟩⟩
    rcases hknown.consented hfounded₂ with hinit | ⟨m, j, hshown, happroved⟩
    · exact .inl hinit
    · have hall := (hsub₂.trans hsub).subset
      exact .inr ⟨m, j, hall hshown, hall happroved⟩

/-- The session is told, and then how to authenticate. -/
def authenticates (n : ℕ) : List Happening :=
  [.on n (.goOn 0 (.answered true)), .on n (.goOn 0 .returned)]

/-- The key is approved on one page, to be remembered, and a second one does not ask. -/
def remembers : List Happening :=
  connecting 0 ++ [.on 0 (.tap (.verdict true true))] ++ authenticates 0 ++ connecting 1 ++ authenticates 1

/-- The run to which `credential_consented` is applied. -/
theorem credential_consented_remembered :
    ∃ b, Run.run (Browser.step fun _ => some "endpoint") (.start fun _ => none) remembers = some b ∧
      b.log = b.log.take 11 ++ [⟨1, 0, .call (.authenticate .auto)⟩] ∧
      Consented (fun _ => some "endpoint") (fun _ => none) (b.log.take 11) 1 0 :=
  ⟨_, rfl, rfl, @credential_consented (fun _ => some "endpoint") (fun _ => none) 1 0 _ remembers rfl
    _ [] (.authenticate .auto) rfl rfl⟩

end HostKeys
