import Wosh.Client.Decoding

set_option relaxedAutoImplicit false
set_option autoImplicit false

/-!
# The liveness verdict

The prober declares a peer silent when its ping is old and unanswered. What counts as an answer is
recorded when the reader decodes a frame, not when the frame arrives, and the reader awaits every
signature that the core asks for.

## Main definitions

* `Client.timely` — the peer answers every ping in time.
* `Client.keepsUp` — the reader has decoded what arrived when a verdict is due.
* `Client.World.Unheard` — the invariant: what answers the ping is still to be decoded.

## Main results

* `Client.not_silent` — a peer that answers in time is not declared silent by a prober whose reader
  keeps up and loses nothing when it begins.
* `Client.not_neverFalselySilent` — a run in which it is.
-/

namespace Client

open Tunnel

/-! ## Definitions -/

/-- The verdict on an outstanding ping is due. -/
def World.overdue (w : World) : Bool :=
  w.pingOutstanding.any fun sent => pingVerdictMs ≤ w.now - sent

/-- When the verdict on a ping is due, some frame became readable on the current connection in less
than the time of the verdict after the ping was stamped. -/
def timely (w : World) (l : Label) : Bool :=
  match l.act with
  | .tick _ =>
    !w.overdue || w.pingOutstanding.any fun sent =>
      w.answeredAt.any fun t => t < sent + pingVerdictMs
  | _ => true

/-- The current reader has frames to decode, in its decoder and in what waits on its connection. -/
def World.lagging [Postcard] (w : World) : Bool :=
  (w.readers[w.generation]?).any fun r =>
    (w.conns[r.conn]?).any fun conn => (frames (r.dec ++ conn.inbox)).1 ≠ []

/-- When the verdict on a ping is due, the current reader has no frame to decode. -/
def keepsUp [Postcard] (w : World) (l : Label) : Bool :=
  match l.act with
  | .tick _ => !w.overdue || !w.lagging
  | _ => true

/-- The prober takes its dead branch in this step. -/
def declaresSilent (w : World) (l : Label) : Bool :=
  match l.act with
  | .tick g => (w.keepers[g]?).any fun pc =>
    match pc with
    | .sleeping due => due ≤ w.now && w.keeperTick g = .dead
    | _ => false
  | _ => false

namespace World

/-- The invariant: while a ping is outstanding that was answered, what answers it is still to be
decoded. -/
def Unheard [Postcard] (w : World) : Prop :=
  ∀ (r : Reader) (conn : Conn), w.readers[w.generation]? = some r →
    w.conns[r.conn]? = some conn → w.pingOutstanding ≠ none → w.answeredAt ≠ none →
    (frames (r.dec ++ conn.inbox)).1 ≠ []

variable [Postcard] {w w' : World}

namespace Unheard

/-! ## What keeps the invariant -/

/-- What the current reader has to decode is as it was, and no other ping is outstanding or
answered. -/
theorem keep (h : w.Unheard)
    (hping : w'.pingOutstanding ≠ none → w'.answeredAt ≠ none →
      w.pingOutstanding ≠ none ∧ w.answeredAt ≠ none)
    (hreader : ∀ (r' : Reader) (conn' : Conn), w'.readers[w'.generation]? = some r' →
      w'.conns[r'.conn]? = some conn' → ∃ r conn, w.readers[w.generation]? = some r ∧
        w.conns[r.conn]? = some conn ∧ r'.dec ++ conn'.inbox = r.dec ++ conn.inbox) :
    w'.Unheard := by
  intro r' conn' hr' hc' hout hans
  obtain ⟨hout', hans'⟩ := hping hout hans
  obtain ⟨r, conn, hr, hc, heq⟩ := hreader r' conn' hr' hc'
  rw [heq]
  exact h r conn hr hc hout' hans'

/-- No ping is outstanding. -/
theorem of_none (h : w.pingOutstanding = none) : w.Unheard :=
  fun _ _ _ _ hout => absurd h hout

/-- Nothing moves between the connections and the decoders. -/
theorem same (h : w.Unheard) (hgen : w'.generation = w.generation)
    (hping : w'.pingOutstanding ≠ none → w'.answeredAt ≠ none →
      w.pingOutstanding ≠ none ∧ w.answeredAt ≠ none)
    (hreaders : Slots.Related Reader.Kept w.readers w'.readers)
    (hconns : Slots.Related (fun a b : Conn => b.inbox = a.inbox) w.conns w'.conns) :
    w'.Unheard := by
  refine h.keep hping fun r' conn' hr' hc' => ?_
  rw [hgen] at hr'
  obtain ⟨r, hr, hkept⟩ := hreaders.slot hr'
  obtain ⟨a, ha, hinbox⟩ := hconns.slot hc'
  rw [hkept.conn] at ha
  exact ⟨r, a, hr, ha, by rw [hkept.dec, hinbox]⟩

omit [Postcard] in
/-- Connections that were closed have the same waiting on them. -/
theorem inbox_of_same {l l' : List Conn} (h : Slots.Related Conn.Same l l') :
    Slots.Related (fun a b : Conn => b.inbox = a.inbox) l l' :=
  ⟨h.length_eq, fun hc =>
    let ⟨a, ha, hsame⟩ := h.slot hc
    ⟨a, ha, by rw [Conn.Same] at hsame; rw [hsame]⟩⟩

theorem still (h : w.Unheard) (hq : w.Quiet w') (hs : w.Still w') : w'.Unheard :=
  h.same (by rw [hq.only]) (fun hout hans => ⟨hs.pingOutstanding ▸ hout, hs.answeredAt ▸ hans⟩)
    hs.readers (inbox_of_same hs.conns)

/-- A reader consumed its decoder: if there was a frame in it, the ping is taken back. -/
theorem digested (h : w.Unheard) {g : ℕ} {r : Reader} {seeded : Bool} {dec p : Bytes}
    (hr : w.readers[g]? = some r) (hdec : r.dec = dec) (hd : w.Digested w' g seeded dec p)
    (hwhole : seeded = true → w.stale g = false → whole dec = true) : w'.Unheard := by
  have hgen : w'.generation = w.generation := by rw [hd.quiet.only]
  by_cases hnil : (frames dec).1 = []
  · refine h.keep (fun hout hans => ⟨?_, hd.answeredAt ▸ hans⟩) fun r' conn' hr' hc' => ?_
    · rcases hd.pingOutstanding with heq | hnone
      · exact heq ▸ hout
      · exact absurd hnone hout
    · rw [hgen] at hr'
      obtain ⟨a, ha, hsame⟩ := hd.conns.slot hc'
      rw [Conn.Same] at hsame
      have hinbox : conn'.inbox = a.inbox := by rw [hsame]
      by_cases hg : w.generation = g
      · subst hg
        obtain ⟨r₀, hr₀, hstays⟩ := hd.quiet.readers.slot hr'
        cases hr₀.symm.trans hr
        rw [hstays] at ha
        refine ⟨r, a, hr, ha, ?_⟩
        rw [hinbox]
        have hcur : w.stale w.generation = false := stale_eq_false.2 rfl
        rcases hd.rest (fun hs => hwhole hs hcur) hr' with ⟨heq, -⟩ | ⟨hok, -, -⟩
        · rw [heq, hdec]
        · rw [Incremental.drain_eq_of_nil hnil hok, hdec]
      · obtain ⟨r₀, hr₀, hkept⟩ := hd.other _ r' hg hr'
        rw [hkept.conn] at ha
        exact ⟨r₀, a, hr₀, ha, by rw [hkept.dec, hinbox]⟩
  · exact of_none (hd.heard hnil)

/-- Bytes arrive: if with them a frame became readable, it is still to be decoded. -/
theorem arrived (h : w.Unheard) (hdec : w.Decoding) (ht : w.Tasks) {c : ℕ} {b : Bytes}
    (harr : w.arrive c b = some w') : w'.Unheard := by
  obtain ⟨conn, hc, hw, hanswered⟩ := arrive_cases harr
  intro r a' hr ha' hout hans
  have hreaders : w'.readers[w'.generation]? = w.readers[w.generation]? := by rw [hw]
  have hconns : w'.conns = w.conns.modify c fun conn => { conn with inbox := conn.inbox ++ b } := by
    rw [hw]
  rw [hreaders] at hr
  rw [hconns] at ha'
  obtain ⟨a, ha, rfl⟩ := Slots.getElem?_modify_eq_some.1 ha'
  by_cases hfresh : c = w.conn ∧ w.answeredAt = none ∧ w.readable c < w'.readable c
  · obtain ⟨rfl, -, hmore⟩ := hfresh
    -- the current reader is on the current connection
    have hown : r.conn = w.conn := by
      obtain ⟨x, hx, hinst⟩ := ht.reader hr
      obtain ⟨y, hy, hinst'⟩ := ht.current
      exact ht.installed hx hy hinst hinst'
    rw [hown] at ha
    cases hc.symm.trans ha
    obtain ⟨fs, hfs⟩ := hdec.reader hr (by rw [hown]; exact hc)
    rw [if_pos hown.symm]
    have hbefore : w.readable w.conn = fs.length + (frames (r.dec ++ conn.inbox)).1.length := by
      have hitems := (Incremental.Left.append hfs conn.inbox).items
      rw [readable, hc]
      show (frames (conn.taken ++ conn.inbox)).1.length = _
      rw [frames, hitems, List.length_append]
      rfl
    have hafter : w'.readable w.conn =
        fs.length + (frames (r.dec ++ (conn.inbox ++ b))).1.length := by
      have hitems := (Incremental.Left.append hfs (conn.inbox ++ b)).items
      have hc' : w'.conns[w.conn]? = some { conn with inbox := conn.inbox ++ b } := by
        rw [hconns]
        exact Slots.getElem?_modify_eq_some.2 ⟨conn, hc, (if_pos rfl).symm⟩
      rw [readable, hc']
      show (frames (conn.taken ++ (conn.inbox ++ b))).1.length = _
      rw [frames, hitems, List.length_append]
      rfl
    intro hnil
    rw [hnil] at hafter
    simp only [List.length_nil] at hafter
    omega
  · rw [if_neg hfresh] at hanswered
    have hold := h r a hr ha (by rw [hw] at hout; exact hout) (hanswered ▸ hans)
    split_ifs
    · -- what was there is still there
      intro hnil
      have hprefix := Incremental.drain_fst_prefix nextFrame_framing (r.dec ++ a.inbox) b
      rw [List.append_assoc] at hprefix
      exact hold (List.prefix_nil.1 (hnil ▸ hprefix))
    · exact hold

/-- A superseded reader read in vain, on a connection that is not the current one. -/
theorem vain (h : w.Unheard) (ht : w.Tasks) {g k : ℕ} {r : Reader} (hr : w.readers[g]? = some r)
    (hstale : w.stale g = true) : ((w.takeInbox r.conn k).setReader g .done).Unheard := by
  refine h.keep (fun hout hans => ⟨hout, hans⟩) fun r' conn' hr' hc => ?_
  obtain ⟨hr₀, hc₀⟩ := vain_current ht hr hstale hr' hc
  exact ⟨r', conn', hr₀, hc₀, rfl⟩

/-- The current reader took bytes into its decoder. -/
theorem taken (h : w.Unheard) {g k : ℕ} {r : Reader} (hr : w.readers[g]? = some r)
    (hcur : w.stale g = false) :
    ((w.takeInbox r.conn k).decode g (r.dec ++ w.waiting r.conn k) .reading).Unheard := by
  obtain rfl := stale_eq_false.1 hcur
  refine h.keep (fun hout hans => ⟨hout, hans⟩) fun r' conn' hr' hc => ?_
  obtain ⟨a, ha, rfl, rfl⟩ := taken_current hr hr' hc
  refine ⟨r, a, hr, ha, ?_⟩
  simp

theorem hear (h : w.Unheard) (hdec : w.Decoding) (ht : w.Tasks) {l : Label} (hq : w.Quiet w')
    (hwhole : startsWhole w l = true) (hh : HearStep w l w') : w'.Unheard := by
  cases hh with
  | still hact hs => exact h.still hq hs
  | arrived c b hact harr => exact h.arrived hdec ht harr
  | vain g k r hr hstale => exact h.vain ht hr hstale
  | seeded g r hact hr hpc hd =>
    exact h.digested hr rfl hd fun _ => Decoding.whole_of_startsWhole hwhole hact hr hpc
  | read g k r hr hpc hcur hd =>
    exact (h.taken hr hcur).digested (Slots.getElem?_modify_eq_some.2 ⟨r, hr, rfl⟩)
      (by rw [if_pos rfl]) hd nofun

/-! ## Steps -/

theorem writerStep (h : w.Unheard) {a : Action} {g : ℕ} {t : Writer} {n : Next}
    (hw : WriterStep w a g t w' n) : w'.Unheard := by
  have hinbox : ∀ fs : List Bytes, Slots.Related (fun a b : Conn => b.inbox = a.inbox) w.conns
      (w.conns.modify t.conn fun conn => { conn with wire := conn.wire ++ fs }) := by
    intro fs
    refine Slots.related_modify ?_ ?_
    · exact fun _ => rfl
    · exact fun _ _ => rfl
  cases hw with
  | parked => exact h
  | done n hn => exact h
  | pieces fs =>
    exact h.same rfl (fun hout hans => ⟨hout, hans⟩) (.refl Reader.Kept.refl _) (hinbox fs)
  | round hcur hlive hpend hb =>
    obtain ⟨fs, pc, -, hcs, -⟩ := hb.wire
    refine h.same (by rw [hb.only]) (fun hout hans => ?_) ?_ (by rw [hcs]; exact hinbox fs)
    · rcases hb.ping with ⟨hp, ha⟩ | hnone
      · exact ⟨hp ▸ hout, ha ▸ hans⟩
      · exact absurd hnone hans
    · rw [hb.only]
      exact .refl Reader.Kept.refl _

/-- A resume moved on; only the connection it holds has changed. -/
theorem setLoop (h : w.Unheard) (ht : w.Tasks) {i : ℕ} {loop loop' : Loop}
    (hloop : w.loops[i]? = some loop) (hw : w' = { w with
      conns := w'.conns, hellos := w'.hellos, loops := w.loops.set i loop' })
    (hconns : ∀ (c : ℕ) (conn conn' : Conn), w.conns[c]? = some conn → w'.conns[c]? = some conn' →
      loop.pc.conn ≠ some c → conn'.inbox = conn.inbox) : w'.Unheard := by
  refine h.keep (fun hout hans => ?_) fun r' conn' hr' hc => ?_
  · rw [hw] at hout hans
    exact ⟨hout, hans⟩
  · have hreaders : w'.readers[w'.generation]? = w.readers[w.generation]? := by rw [hw]
    rw [hreaders] at hr'
    obtain ⟨a, ha, -⟩ := ht.reader hr'
    refine ⟨r', a, hr', ha, ?_⟩
    rw [hconns _ _ _ ha hc fun hheld => Decoding.ne_held ht hr' hloop hheld rfl]

theorem loopStep (h : w.Unheard) (ht : w.Tasks) {a : Action} {i : ℕ} {loop : Loop} {n : Next}
    (hloop : w.loops[i]? = some loop) (hl : LoopStep w a i loop w' n) : w'.Unheard := by
  -- changes of the one connection it holds
  have hmodify : ∀ {c : ℕ} {f : Conn → Conn}, loop.pc.conn = some c →
      ∀ (c' : ℕ) (conn conn' : Conn), w.conns[c']? = some conn →
      (w.conns.modify c f)[c']? = some conn' → loop.pc.conn ≠ some c' →
      conn'.inbox = conn.inbox := by
    intro c f hheld c' conn conn' hc hc' hne
    obtain ⟨a, ha, rfl⟩ := Slots.getElem?_modify_eq_some.1 hc'
    cases hc.symm.trans ha
    rw [if_neg (by rintro rfl; exact hne hheld)]
  cases hl with
  | letGo c f n hw hc hf hread hgap hconns hpc hn hgen hover =>
    refine h.setLoop ht hloop (by rw [hw]; rfl) fun c' conn conn' ha ha' hne => ?_
    rw [hw] at ha'
    obtain ⟨b, hb, hsame⟩ := hconns.slot ha'
    rw [Conn.Same] at hsame
    rcases hc with hc | rfl
    · rw [hsame]
      exact hmodify hc c' conn b ha hb hne
    · rw [List.modify_id] at hb
      cases ha.symm.trans hb
      rw [hsame]
  | dialed conn hw hconn hpc hgen hover =>
    refine h.setLoop ht hloop (by rw [hw]; rfl) fun c' a a' ha ha' _ => ?_
    rw [hw] at ha'
    have hold : (w.conns ++ [conn])[c']? = some a := Slots.getElem?_concat_eq_some.2 (.inl ha)
    cases hold.symm.trans ha'
    rfl
  | opened c hw hc hpc hgen =>
    exact h.setLoop ht hloop (by rw [hw]; rfl) fun c' a a' ha ha' =>
      hmodify (by rw [hc]; rfl) c' a a' ha (by rw [hw] at ha'; exact ha')
  | helloed c hw hc hpc hgen =>
    refine h.setLoop ht hloop (by rw [hw]; rfl) fun c' a a' ha ha' _ => ?_
    rw [hw] at ha'
    cases ha.symm.trans ha'
    rfl
  | more c k hw hc hshake hpc hgen =>
    exact h.setLoop ht hloop (by rw [hw]; rfl) fun c' a a' ha ha' =>
      hmodify (by rw [hc]; rfl) c' a a' ha (by rw [hw] at ha'; exact ha')
  | installed c k p hc hshake htail hlive' hact hinst =>
    -- liveness starts afresh
    obtain ⟨v, -, hv, -, -, hdrove⟩ := install_cases hinst
    refine of_none ?_
    rw [hdrove.still.pingOutstanding]
    show v.pingOutstanding = none
    rw [hv]
    rfl

theorem wake (h : w.Unheard) : w.wake.Unheard := by
  unfold World.wake
  dsimp only
  split_ifs
  · exact of_none rfl
  · exact h
  · exact h

theorem piece (h : w.Unheard) (hdec : w.Decoding) (ht : w.Tasks) {l : Label} {n : Next}
    (hwhole : startsWhole w l = true) (hpiece : w.piece l = some (w', n)) : w'.Unheard := by
  rcases piece_cases hpiece with ⟨hact, hq, -⟩ | ⟨g, t, hg, hw⟩ | ⟨i, loop, hloop, hlive, hl⟩ |
    ⟨-, rfl, -⟩
  · exact h.hear hdec ht hq hwhole (hear_cases ht.framed hact hpiece)
  · exact h.writerStep hw
  · exact h.loopStep ht hloop hl
  · exact h.wake

theorem settle (h : w.Unheard) (n : Next) : (w.settle n).1.Unheard := by
  refine settle_rule (P := World.Unheard) h n h (fun g => ?_) fun hv ht => ?_
  · have hclose : Slots.Related Conn.Same w.conns (w.startLoop g).conns :=
      same_closeConn w.conns w.conn
    exact h.same rfl (fun hout hans => ⟨hout, hans⟩) (.refl Reader.Kept.refl _)
      (inbox_of_same hclose)
  · cases ht <;> exact hv

theorem step (h : w.Unheard) (hdec : w.Decoding) (ht : w.Tasks) {l : Label}
    (hwhole : startsWhole w l = true) (hstep : w.step l = some w') : w'.Unheard := by
  obtain ⟨v, n, hpiece, hsettle⟩ := step_cases hstep
  have hs := (h.piece hdec ht hwhole hpiece).settle n
  rcases hsettle with ⟨-, rfl⟩ | ⟨reason, -, hdie⟩
  · exact hs
  · rcases still_declareDead hdie with heq | ⟨hq, hstill⟩
    · rwa [heq]
    · have hmark : (v.settle n).1.markDead.Unheard := hs
      exact hmark.still hq hstill

end Unheard

omit [Postcard] in
/-- A verdict is due when the prober takes its dead branch. -/
theorem overdue_of_dead {g : ℕ} (h : w.keeperTick g = .dead) : w.overdue = true := by
  unfold keeperTick at h
  split at h
  · cases h
  split at h
  · cases h
  split at h
  · rename_i sent hsent
    split at h
    · rename_i hdue
      simp [overdue, hsent, hdue]
    · cases h
  · split at h <;> cases h

/-- A prober whose reader keeps up does not declare a peer silent that answers in time. -/
theorem Unheard.not_declaresSilent (h : w.Unheard) (ht : w.Tasks) {l : Label}
    (htimely : timely w l = true) (hkeeps : keepsUp w l = true) : declaresSilent w l = false := by
  by_contra hsilent
  rw [Bool.not_eq_false] at hsilent
  obtain ⟨act, moves, dying⟩ := l
  cases act <;> simp only [declaresSilent, Bool.false_eq_true] at hsilent
  rename_i g
  obtain ⟨pc, -, hpc⟩ := (Option.any_eq_true _ _).1 hsilent
  have hdead : w.keeperTick g = .dead := by
    split at hpc
    · simp only [Bool.and_eq_true, decide_eq_true_eq] at hpc
      exact hpc.2
    · cases hpc
  have hdue := overdue_of_dead hdead
  simp only [timely, hdue, Bool.not_true, Bool.false_or] at htimely
  simp only [keepsUp, hdue, Bool.not_true, Bool.false_or, Bool.not_eq_true'] at hkeeps
  obtain ⟨sent, hsent, hanswered⟩ := (Option.any_eq_true _ _).1 htimely
  obtain ⟨t, hans, -⟩ := (Option.any_eq_true _ _).1 hanswered
  -- there is a current reader, and its connection
  have hlt : w.generation < w.readers.length := by rw [ht.readers_length]; exact Nat.lt_succ_self _
  have hr := List.getElem?_eq_getElem hlt
  obtain ⟨conn, hc, -⟩ := ht.reader hr
  refine h _ conn hr hc (by rw [hsent]; simp) (by rw [hans]; simp) ?_
  simpa [lagging, hr, hc] using hkeeps

end World

/-! ## Runs -/

/-- **No false liveness verdict**, in a session whose peer answers every ping in time: as long as its
reader keeps up and begins with no part of a frame, the prober never takes its dead branch.

**Proof sketch.** The invariant `World.Unheard` holds in every state. At a verdict, the ping was
answered, so that the reader has a frame to decode, which is what the condition excludes. -/
theorem not_silent [Postcard] {d : Dial} (hproto : d.proto = .v3) {moves : List SshCore.Action}
    {w₀ : World} (hconn : World.connect d moves = some w₀) {ls : List Label}
    (htimely : Run.Along World.step (fun w l => timely w l = true) w₀ ls)
    (hkeeps : Run.Along World.step (fun w l => keepsUp w l = true) w₀ ls)
    (hwhole : Run.Along World.step (fun w l => startsWhole w l = true) w₀ ls) :
    Run.Along World.step (fun w l => declaresSilent w l = false) w₀ ls := by
  have hframed : d.proto.framed = true := by rw [hproto]; rfl
  obtain ⟨v, fs, dec, hbegun, hdrove⟩ := World.begun_connect hframed hconn
  have hstart : w₀.Unheard :=
    .of_none (hdrove.still.pingOutstanding.trans hbegun.pingOutstanding)
  refine Run.Along.of_inv (P := fun w => w.Tasks ∧ w.Decoding ∧ w.Unheard) ?_ ?_
    ⟨World.tasks_connect hframed hconn, World.decoding_connect hframed hconn, hstart⟩
    ((htimely.and hkeeps).and hwhole)
  · rintro u l u' ⟨ht, hdec, hu⟩ ⟨-, hw⟩ hstep
    exact ⟨ht.step hstep, hdec.step ht hw hstep, hu.step hdec ht hw hstep⟩
  · rintro u l ⟨ht, -, hu⟩ ⟨⟨htime, hkeep⟩, -⟩
    exact hu.not_declaresSilent ht htime hkeep

/-- A peer that answers every ping in time is never declared silent, as it should be along every
run. -/
def NeverFalselySilent [Postcard] : Prop :=
  ∀ (d : Dial) (moves : List SshCore.Action) (w₀ : World) (ls : List Label), d.proto = .v3 →
    World.connect d moves = some w₀ →
    Run.Along World.step (fun w l => timely w l = true) w₀ ls →
    Run.Along World.step (fun w l => declaresSilent w l = false) w₀ ls

/-- The prober begins to sleep, and the first bytes arrive; the core takes these steps when they
are read. -/
def idles (moves : List SshCore.Action) : List Label :=
  [⟨.pollReader 0, [], []⟩, ⟨.pollKeeper 0, [], []⟩, ⟨.pollWriter 0, [], []⟩,
    ⟨.arrive 0 (encodeData [0]), [], []⟩, ⟨.read 0 64, moves, []⟩]

/-- After a while the session sends a ping, and its answer arrives. -/
def pings : List Label :=
  [⟨.elapse pingAfterIdleMs, [], []⟩, ⟨.tick 0, [], []⟩, ⟨.pollWriter 0, [], []⟩,
    ⟨.wrote 0 true, [], []⟩, ⟨.arrive 0 (encodePong 1), [], []⟩]

/-- The verdict on the ping is due. -/
def comesDue : List Label := [⟨.elapse pingVerdictMs, [], []⟩, ⟨.tick 0, [], []⟩]

/-- The server asks for a signature. -/
def asksToSign : List SshCore.Action := [.sign ⟨"ssh-ed25519", []⟩ [7]]

/-- A reader that awaits a signature leaves the answer unread until the verdict. -/
theorem not_neverFalselySilent : ¬ @NeverFalselySilent Postcard.golden := by
  intro h
  have hrun : ∃ w₀, @World.connect Postcard.golden sampleDial [] = some w₀ ∧
      @Run.Along _ _ (@World.step Postcard.golden) (fun w l => timely w l = true) w₀
        (idles asksToSign ++ pings ++ comesDue) ∧
      ¬ @Run.Along _ _ (@World.step Postcard.golden) (fun w l => declaresSilent w l = false) w₀
        (idles asksToSign ++ pings ++ comesDue) :=
    ⟨_, rfl, by decide, by decide⟩
  obtain ⟨w₀, h₀, htimely, hsilent⟩ := hrun
  exact hsilent (h _ _ w₀ _ rfl h₀ htimely)

/-- A session whose reader reads the answer: the run to which `not_silent` is applied. -/
theorem not_silent_read :
    ∃ w₀, @World.connect Postcard.golden sampleDial [] = some w₀ ∧
      @Run.Along _ _ (@World.step Postcard.golden) (fun w l => declaresSilent w l = false) w₀
        (idles [] ++ pings ++ [⟨.read 0 64, [], []⟩] ++ comesDue) :=
  ⟨_, rfl, @not_silent Postcard.golden sampleDial rfl [] _ rfl
    (idles [] ++ pings ++ [⟨.read 0 64, [], []⟩] ++ comesDue) (by decide) (by decide) (by decide)⟩

end Client
