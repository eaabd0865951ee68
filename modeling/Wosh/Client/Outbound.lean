import Wosh.Client.Tasks
import Wosh.Lib.Resume

set_option relaxedAutoImplicit false
set_option autoImplicit false

/-!
# The client's outbound stream across resumes

What the core produces is queued in the outbox. A writer pops an item, records it in the replay
buffer and writes it; a resume gives the writer of its connection a copy of what the peer has not
received. Two generations of writer share the outbox and the buffer.

## Main definitions

* `Client.World.Outbound` — the invariant: each writer was given, or holds, an initial part of the
  stream from its peer's count on, and the current one all of it.

## Main results

* `Client.outbound_run` — in every session with frames, what is written on a connection is an
  initial part of the stream from the peer's count on, what is popped is recorded exactly once, and
  a connection whose peer asks for bytes that are gone is never written to.
-/

namespace Client

open Tunnel

/-! ## Definitions -/

/-- A connection on which nothing was written, and whose reply, once it is installed, stands. -/
structure Conn.Sent (conn conn' : Conn) : Prop where
  installed : conn'.installed = conn.installed
  wire : conn'.wire = conn.wire
  reply : conn.installed ≠ none →
    conn'.peerReceived = conn.peerReceived ∧ conn'.gap = conn.gap

theorem Conn.Sent.refl (conn : Conn) : conn.Sent conn := ⟨rfl, rfl, fun _ => ⟨rfl, rfl⟩⟩

theorem Conn.Sent.trans {conn conn' conn'' : Conn} (h : conn.Sent conn')
    (h' : conn'.Sent conn'') : conn.Sent conn'' where
  installed := h'.installed.trans h.installed
  wire := h'.wire.trans h.wire
  reply hinst := by
    obtain ⟨hp, hg⟩ := h.reply hinst
    obtain ⟨hp', hg'⟩ := h'.reply (by rwa [h.installed])
    exact ⟨hp'.trans hp, hg'.trans hg⟩

theorem Conn.Heard.sent {conn conn' : Conn} (h : conn.Heard conn') : conn.Sent conn' := by
  rw [Conn.Heard] at h
  rw [h]
  exact ⟨rfl, rfl, fun _ => ⟨rfl, rfl⟩⟩

/-- A connection that is not installed, changed in anything but that and what was written. -/
theorem Conn.Sent.of_none {conn conn' : Conn} (hnone : conn.installed = none)
    (hinst : conn'.installed = conn.installed) (hwire : conn'.wire = conn.wire) :
    conn.Sent conn' :=
  ⟨hinst, hwire, fun h => absurd hnone h⟩

namespace World

/-- The invariant of what a session sends. -/
structure Outbound [Postcard] (w : World) : Prop where
  usize : w.usize = id
  queued : w.queued = w.popped ++ w.outbox.flatten
  replay : w.replay.Tracks w.popped
  unwritten : ∀ {c : ℕ} {conn : Conn}, w.conns[c]? = some conn → conn.installed = none →
    conn.wire = []
  gap : ∀ {c : ℕ} {conn : Conn}, w.conns[c]? = some conn → conn.gap = true →
    conn.installed = none
  held : ∀ {i c : ℕ} {loop : Loop} {conn : Conn}, w.loops[i]? = some loop →
    loop.pc.conn = some c → w.conns[c]? = some conn → conn.gap = false
  first : ∀ {c : ℕ} {conn : Conn}, w.conns[c]? = some conn → conn.installed = some 0 →
    conn.peerReceived = 0
  /-- What a writer was given and has written, or still has to. -/
  fed : ∀ {g : ℕ} {t : Writer} {conn : Conn}, w.writers[g]? = some t →
    w.conns[t.conn]? = some conn →
    Resume.Fed conn.peerReceived (dataOf conn.wire ++ t.pc.pending) w.popped
  full : ∀ {t : Writer} {conn : Conn}, w.writers[w.generation]? = some t → t.pc ≠ .done →
    w.conns[t.conn]? = some conn →
    Resume.Full conn.peerReceived (dataOf conn.wire ++ t.pc.pending) w.popped

variable [Postcard] {w w' : World}

namespace Outbound

/-! ## What keeps the invariant -/

/-- The writers are left alone, and nothing is popped. -/
theorem keep (h : w.Outbound) (ht : w.Tasks) (husize : w'.usize = w.usize)
    (hgen : w'.generation = w.generation) (hpopped : w'.popped = w.popped)
    (hqueued : ∃ bs, w'.outbox = w.outbox ++ bs ∧ w'.queued = w.queued ++ bs.flatten)
    (hreplay : ∀ s, w.replay.Tracks s → w'.replay.Tracks s) (hwriters : w'.writers = w.writers)
    (hconns : Slots.Related Conn.Sent w.conns w'.conns)
    (hheld : ∀ {i c : ℕ} {loop : Loop} {conn : Conn}, w'.loops[i]? = some loop →
      loop.pc.conn = some c → w'.conns[c]? = some conn → conn.gap = false) : w'.Outbound where
  usize := husize.trans h.usize
  queued := by
    obtain ⟨bs, ho, hq⟩ := hqueued
    rw [hq, ho, hpopped, h.queued, List.flatten_append, List.append_assoc]
  replay := by
    rw [hpopped]
    exact hreplay _ h.replay
  unwritten hc hnone := by
    obtain ⟨a, ha, hsent⟩ := hconns.slot hc
    rw [hsent.wire]
    exact h.unwritten ha (hsent.installed ▸ hnone)
  gap hc hgap := by
    obtain ⟨a, ha, hsent⟩ := hconns.slot hc
    rw [hsent.installed]
    by_contra hinst
    rw [(hsent.reply hinst).2] at hgap
    exact hinst (h.gap ha hgap)
  held := hheld
  first hc hinst := by
    obtain ⟨a, ha, hsent⟩ := hconns.slot hc
    rw [hsent.installed] at hinst
    rw [(hsent.reply (by simp [hinst])).1]
    exact h.first ha hinst
  fed hw hc := by
    rw [hwriters] at hw
    obtain ⟨a, ha, hsent⟩ := hconns.slot hc
    obtain ⟨b, hb, hinst⟩ := ht.writer hw
    cases ha.symm.trans hb
    rw [hsent.wire, (hsent.reply (by simp [hinst])).1, hpopped]
    exact h.fed hw ha
  full hw hpc hc := by
    rw [hwriters, hgen] at hw
    obtain ⟨a, ha, hsent⟩ := hconns.slot hc
    obtain ⟨b, hb, hinst⟩ := ht.writer hw
    cases ha.symm.trans hb
    rw [hsent.wire, (hsent.reply (by simp [hinst])).1, hpopped]
    exact h.full hw hpc ha

theorem quiet (h : w.Outbound) (ht : w.Tasks) (hq : w.Quiet w') : w'.Outbound := by
  have hconns : Slots.Related Conn.Sent w.conns w'.conns :=
    ⟨hq.conns.length_eq, fun hc =>
      let ⟨conn, hconn, hheard⟩ := hq.conns.slot hc
      ⟨conn, hconn, hheard.sent⟩⟩
  refine h.keep ht (by rw [hq.only]) (by rw [hq.only]) (by rw [hq.only]) hq.queued hq.replay
    (by rw [hq.only]) hconns fun hl hc hconn => ?_
  have hloops : w'.loops = w.loops := by rw [hq.only]
  rw [hloops] at hl
  obtain ⟨a, ha, hheard⟩ := hq.conns.slot hconn
  have hgap := h.held hl hc ha
  rw [Conn.Heard] at hheard
  rw [hheard]
  exact hgap

/-- A resume goes on, and the connection it then holds has no gap. -/
theorem setLoop (h : w.Outbound) (ht : w.Tasks) {i : ℕ} {loop loop' : Loop}
    (hloop : w.loops[i]? = some loop) (hlive : loop.pc ≠ .done) (hw : w' = { w with
      conns := w'.conns, hellos := w'.hellos, dials := w'.dials, resuming := w'.resuming
      stalled := w'.stalled, replay := w'.replay, loops := w.loops.set i loop' })
    (hconns : Slots.Related Conn.Sent w.conns w'.conns)
    (hreplay : ∀ s, w.replay.Tracks s → w'.replay.Tracks s)
    (hheld : ∀ (c : ℕ) (conn : Conn), loop'.pc.conn = some c → w'.conns[c]? = some conn →
      conn.gap = false) : w'.Outbound := by
  have hloops : w'.loops = w.loops.set i loop' := by rw [hw]
  refine h.keep ht (by rw [hw]) (by rw [hw]) (by rw [hw]) ⟨[], by rw [hw]; simp⟩ hreplay
    (by rw [hw]) hconns fun hl hc hconn => ?_
  rw [hloops] at hl
  rcases Slots.getElem?_set_eq_some hl with ⟨-, rfl⟩ | ⟨hji, hl⟩
  · exact hheld _ _ hc hconn
  · -- no other resume is alive
    refine absurd (ht.alone hl (fun hdone => ?_) hloop hlive) hji
    rw [hdone] at hc
    cases hc

/-- A resume starts. -/
theorem addLoop (h : w.Outbound) (ht : w.Tasks) (hno : w.NoLoop) {loop : Loop}
    (hpc : loop.pc.conn = none) (hw : w' = { w with
      conns := w'.conns, resuming := true, stalled := w'.stalled, suspended := w'.suspended
      loops := w.loops ++ [loop] })
    (hconns : Slots.Related Conn.Sent w.conns w'.conns) : w'.Outbound := by
  have hloops : w'.loops = w.loops ++ [loop] := by rw [hw]
  refine h.keep ht (by rw [hw]) (by rw [hw]) (by rw [hw]) ⟨[], by rw [hw]; simp⟩
    (by rw [hw]; exact fun _ hs => hs) (by rw [hw]) hconns fun hl hc _ => ?_
  rw [hloops] at hl
  rcases Slots.getElem?_concat_eq_some.1 hl with hl | ⟨-, rfl⟩
  · rw [hno _ _ hl] at hc
    cases hc
  · rw [hpc] at hc
    cases hc

/-- A connection is dialed. -/
theorem addConn (h : w.Outbound) (ht : w.Tasks) {conn : Conn} (hconn : Conn.Same {} conn) :
    { w with conns := w.conns ++ [conn] }.Outbound := by
  have hold : ∀ {g : ℕ} {t : Writer} {cn : Conn}, w.writers[g]? = some t →
      (w.conns ++ [conn])[t.conn]? = some cn → w.conns[t.conn]? = some cn := by
    intro g t cn hw hc
    obtain ⟨a, ha, -⟩ := ht.writer hw
    rcases Slots.getElem?_concat_eq_some.1 hc with hc | ⟨hlast, -⟩
    · exact hc
    · rw [hlast, List.getElem?_eq_none (Nat.le_refl _)] at ha
      cases ha
  exact { h with
    unwritten := fun hc hnone => by
      rcases Slots.getElem?_concat_eq_some.1 hc with hc | ⟨-, rfl⟩
      · exact h.unwritten hc hnone
      · rw [hconn]
    gap := fun hc hgap => by
      rcases Slots.getElem?_concat_eq_some.1 hc with hc | ⟨-, rfl⟩
      · exact h.gap hc hgap
      · rw [hconn]
    held := fun hl hheld hc => by
      rcases Slots.getElem?_concat_eq_some.1 hc with hc | ⟨-, rfl⟩
      · exact h.held hl hheld hc
      · rw [hconn]
    first := fun hc hinst => by
      rcases Slots.getElem?_concat_eq_some.1 hc with hc | ⟨-, rfl⟩
      · exact h.first hc hinst
      · rw [hconn]
    fed := fun hw hc => h.fed hw (hold hw hc)
    full := fun hw hpc hc => h.full hw hpc (hold hw hc) }

/-- A writer takes `b` from the outbox, which only the current one does, and writes. -/
theorem write (h : w.Outbound) (ht : w.Tasks) {g : ℕ} {t : Writer} (hg : w.writers[g]? = some t)
    (fs : List Bytes) (pc : WriterPc) {b : Bytes} (husize : w'.usize = w.usize)
    (hgen : w'.generation = w.generation) (hloops : w'.loops = w.loops)
    (hqueued : w'.queued = w.queued) (houtbox : w.outbox.flatten = b ++ w'.outbox.flatten)
    (hpopped : w'.popped = w.popped ++ b) (hreplay : w'.replay.Tracks (w.popped ++ b))
    (hwriters : w'.writers = w.writers.modify g fun t => { t with pc := pc })
    (hconns : w'.conns = w.conns.modify t.conn fun conn => { conn with wire := conn.wire ++ fs })
    (hcur : b = [] ∨ (w.generation = g ∧ t.pc ≠ .done))
    (hdata : ∃ p, t.pc.pending ++ b = dataOf fs ++ pc.pending ++ p ∧ (pc ≠ .done → p = []))
    (hlive : pc ≠ .done → t.pc ≠ .done) : w'.Outbound := by
  obtain ⟨p, hp, hwhole⟩ := hdata
  obtain ⟨own, hown, hinst⟩ := ht.writer hg
  -- the connection of another writer is another one
  have hother : ∀ {g' : ℕ} {t' : Writer}, w.writers[g']? = some t' → g' ≠ g → t.conn ≠ t'.conn := by
    intro g' t' hg' hne heq
    obtain ⟨a, ha, hinst'⟩ := ht.writer hg'
    rw [← heq, hown] at ha
    cases ha
    rw [hinst] at hinst'
    exact hne (Option.some.inj hinst').symm
  have hback : ∀ {c : ℕ} {conn : Conn}, w'.conns[c]? = some conn → ∃ a, w.conns[c]? = some a ∧
      conn = if t.conn = c then { a with wire := a.wire ++ fs } else a := by
    intro c conn hc
    rw [hconns] at hc
    exact Slots.getElem?_modify_eq_some.1 hc
  -- what it was given and has written, or still has to, grows by `b` unless it retires
  have hout : ∀ a : Conn,
      (p = [] → dataOf (a.wire ++ fs) ++ pc.pending = dataOf a.wire ++ t.pc.pending ++ b) ∧
      dataOf (a.wire ++ fs) ++ pc.pending <+: dataOf a.wire ++ t.pc.pending ++ b := by
    intro a
    have heq : dataOf a.wire ++ t.pc.pending ++ b =
        dataOf (a.wire ++ fs) ++ pc.pending ++ p := by
      rw [List.append_assoc, hp, dataOf_append]
      simp only [List.append_assoc]
    refine ⟨fun hnil => ?_, ?_⟩
    · rw [heq, hnil, List.append_nil]
    · rw [heq]
      exact List.prefix_append _ _
  exact {
    usize := husize.trans h.usize
    queued := by rw [hqueued, hpopped, h.queued, houtbox, List.append_assoc]
    replay := hpopped ▸ hreplay
    unwritten := fun hc hnone => by
      obtain ⟨a, ha, rfl⟩ := hback hc
      split_ifs at hnone ⊢ with hcc
      · subst hcc
        cases ha.symm.trans hown
        rw [hinst] at hnone
        cases hnone
      · exact h.unwritten ha hnone
    gap := fun hc hgap => by
      obtain ⟨a, ha, rfl⟩ := hback hc
      have hnone : a.gap = true → a.installed = none := h.gap ha
      split_ifs at hgap ⊢
      · exact hnone hgap
      · exact hnone hgap
    held := fun hl hheld hc => by
      rw [hloops] at hl
      obtain ⟨a, ha, rfl⟩ := hback hc
      have hgap : a.gap = false := h.held hl hheld ha
      split_ifs
      · exact hgap
      · exact hgap
    first := fun hc => by
      obtain ⟨a, ha, rfl⟩ := hback hc
      have hfirst : a.installed = some 0 → a.peerReceived = 0 := h.first ha
      split_ifs
      · exact hfirst
      · exact hfirst
    fed := fun {g' t' conn} hw hc => by
      rw [hwriters] at hw
      obtain ⟨t₀, ht₀, rfl⟩ := Slots.getElem?_modify_eq_some.1 hw
      by_cases hgg : g = g'
      · subst hgg
        cases ht₀.symm.trans hg
        rw [if_pos rfl] at hc ⊢
        obtain ⟨a, ha, rfl⟩ := hback hc
        rw [if_pos rfl]
        refine Resume.Fed.shrink ?_ (hout a).2
        rw [hpopped]
        rcases hcur with rfl | ⟨rfl, hnd⟩
        · simpa only [List.append_nil] using h.fed hg ha
        · exact ((h.full hg hnd ha).push b).fed
      · rw [if_neg hgg] at hc ⊢
        obtain ⟨a, ha, rfl⟩ := hback hc
        rw [if_neg (hother ht₀ fun heq => hgg heq.symm), hpopped]
        exact (h.fed ht₀ ha).grow b
    full := fun {t' conn} hw hpc hc => by
      rw [hwriters, hgen] at hw
      obtain ⟨t₀, ht₀, rfl⟩ := Slots.getElem?_modify_eq_some.1 hw
      by_cases hgg : g = w.generation
      · subst hgg
        cases ht₀.symm.trans hg
        rw [if_pos rfl] at hc hpc ⊢
        obtain ⟨a, ha, rfl⟩ := hback hc
        rw [if_pos rfl, hpopped]
        have heq := (hout a).1 (hwhole hpc)
        rw [heq]
        exact (h.full hg (hlive hpc) ha).push b
      · rw [if_neg hgg] at hc hpc ⊢
        obtain ⟨a, ha, rfl⟩ := hback hc
        obtain rfl := hcur.resolve_right fun hc => hgg hc.1.symm
        rw [if_neg (hother ht₀ fun heq => hgg heq.symm), hpopped, List.append_nil]
        exact h.full ht₀ hpc ha }

/-- A connection is adopted and its tasks are spawned: its writer has all the peer has not
received to write. -/
theorem spawn (h : w.Outbound) (ht : w.Tasks) (hno : w.NoLoop) {c : ℕ} {conn : Conn}
    (hc : w.conns[c]? = some conn) (hinst : conn.installed = none) (hgap : conn.gap = false)
    {v : World} (hq : (w.adopt c).Quiet v) (dec : Bytes) {tail : Bytes}
    (hfull : Resume.Full conn.peerReceived tail w.popped) :
    (v.spawnTasks c dec tail).Outbound := by
  have hpopped : v.popped = w.popped := by rw [hq.only]; rfl
  have hwriters : v.writers = w.writers := by rw [hq.only]; rfl
  have hgen : v.generation = w.generation + 1 := by rw [hq.only]; rfl
  have hloops : v.loops = w.loops := by rw [hq.only]; rfl
  have hback : ∀ {j : ℕ} {a' : Conn}, v.conns[j]? = some a' → ∃ a, w.conns[j]? = some a ∧
      a'.installed = (if c = j then some (w.generation + 1) else a.installed) ∧
      a'.wire = a.wire ∧ a'.peerReceived = a.peerReceived ∧ a'.gap = a.gap := by
    intro j a' ha'
    obtain ⟨b, hb, hheard⟩ := hq.conns.slot ha'
    obtain ⟨a, ha, rfl⟩ := Slots.getElem?_modify_eq_some.1 hb
    rw [Conn.Heard] at hheard
    exact ⟨a, ha, by rw [hheard]; split_ifs <;> exact ⟨rfl, rfl, rfl, rfl⟩⟩
  -- what an old writer holds is what it held
  have hold : ∀ {g : ℕ} {t : Writer} {a' : Conn}, w.writers[g]? = some t →
      v.conns[t.conn]? = some a' →
      Resume.Fed a'.peerReceived (dataOf a'.wire ++ t.pc.pending) w.popped := by
    intro g t a' hw ha'
    obtain ⟨a, ha, -, hwire, hp, -⟩ := hback ha'
    rw [hwire, hp]
    exact h.fed hw ha
  have hnew : ∀ {a' : Conn}, v.conns[c]? = some a' →
      Resume.Full a'.peerReceived (dataOf a'.wire ++ tail) w.popped := by
    intro a' ha'
    obtain ⟨a, ha, -, hwire, hp, -⟩ := hback ha'
    cases ha.symm.trans hc
    rw [hwire, hp, h.unwritten hc hinst]
    exact hfull
  exact {
    usize := by
      have husize : v.usize = w.usize := by rw [hq.only]; rfl
      exact husize.trans h.usize
    queued := by
      obtain ⟨bs, ho, hqu⟩ := hq.queued
      calc v.queued = w.queued ++ bs.flatten := hqu
        _ = w.popped ++ (w.outbox.flatten ++ bs.flatten) := by
          rw [h.queued, List.append_assoc]
        _ = v.popped ++ v.outbox.flatten := by
          rw [hpopped, ho]
          exact congrArg _ List.flatten_append.symm
    replay := by
      have hreplay : v.replay.Tracks w.popped := hq.replay _ h.replay
      rw [← hpopped] at hreplay
      exact hreplay
    unwritten := fun {j _} hj hnone => by
      obtain ⟨a, ha, hg, hwire, -⟩ := hback hj
      rw [hg] at hnone
      split_ifs at hnone
      rw [hwire]
      exact h.unwritten ha hnone
    gap := fun {j _} hj hgap' => by
      obtain ⟨a, ha, hg, -, -, hgeq⟩ := hback hj
      rw [hgeq] at hgap'
      split_ifs at hg with hcj
      · subst hcj
        cases ha.symm.trans hc
        rw [hgap] at hgap'
        cases hgap'
      · rw [hg]
        exact h.gap ha hgap'
    held := fun hl hheld => by
      have hdone := hno _ _ (hloops ▸ hl)
      rw [hdone] at hheld
      cases hheld
    first := fun {j _} hj hinst' => by
      obtain ⟨a, ha, hg, -, hp, -⟩ := hback hj
      rw [hg] at hinst'
      split_ifs at hinst'
      · cases hinst'
      · rw [hp]
        exact h.first ha hinst'
    fed := fun hw hj => by
      have hpop : (v.spawnTasks c dec tail).popped = w.popped := hpopped
      rw [hpop]
      rcases Slots.getElem?_concat_eq_some.1 hw with hw | ⟨-, rfl⟩
      · exact hold (hwriters ▸ hw) hj
      · exact (hnew hj).fed
    full := fun hw _ hj => by
      have hpop : (v.spawnTasks c dec tail).popped = w.popped := hpopped
      rw [hpop]
      rcases Slots.getElem?_concat_eq_some.1 hw with hw | ⟨-, rfl⟩
      · -- the generation is that of the writer just spawned
        have hlt := (List.getElem?_eq_some_iff.1 hw).1
        have hlen : v.writers.length = (v.spawnTasks c dec tail).generation := by
          rw [hwriters, ht.writers_length]
          exact hgen.symm
        exact absurd hlt (by rw [hlen]; exact Nat.lt_irrefl _)
      · exact hnew hj }

/-! ## Steps -/

theorem writerStep (h : w.Outbound) (ht : w.Tasks) {a : Action} {g : ℕ} {t : Writer} {n : Next}
    (hg : w.writers[g]? = some t) (hw : WriterStep w a g t w' n) : w'.Outbound := by
  cases hw with
  | parked hpc hdirty =>
    obtain ⟨hlive, hpend⟩ := pending_of_listening hpc
    refine h.write ht hg [] .parked (b := []) rfl rfl rfl rfl rfl
      (List.append_nil _).symm ?_ rfl (modify_wire_nil w.conns t.conn).symm (.inl rfl) ?_
      fun _ => hlive
    · rw [List.append_nil]
      exact h.replay
    · exact ⟨[], by rw [hpend]; rfl, fun _ => rfl⟩
  | done n hn hsignal =>
    refine h.write ht hg [] .done (b := []) rfl rfl rfl rfl rfl
      (List.append_nil _).symm ?_ rfl (modify_wire_nil w.conns t.conn).symm (.inl rfl) ?_
      fun hpc => absurd rfl hpc
    · rw [List.append_nil]
      exact h.replay
    · exact ⟨t.pc.pending, by simp [WriterPc.pending], fun hpc => absurd rfl hpc⟩
  | pieces fs hlive hidle hdata =>
    refine h.write ht hg fs _ (b := []) rfl rfl rfl rfl rfl (List.append_nil _).symm ?_ rfl rfl
      (.inl rfl) ?_ fun _ => hlive
    · rw [List.append_nil]
      exact h.replay
    · exact ⟨[], by rw [List.append_nil, List.append_nil, hdata ht.framed], fun _ => rfl⟩
  | round hcur hlive hpend hb =>
    obtain ⟨fs, pc, hws, hcs, hdata, -⟩ := hb.wire
    refine h.write ht hg fs pc (by rw [hb.only]) (by rw [hb.only]) (by rw [hb.only]) (by rw [hb.only])
      hb.outbox hb.popped (hb.replay ht.framed _ h.replay) hws hcs (.inr ⟨?_, hlive⟩) ?_
      fun _ => hlive
    · simpa [stale] using hcur
    · exact ⟨[], by rw [hpend, List.nil_append, List.append_nil, hdata ht.framed], fun _ => rfl⟩

theorem loopStep (h : w.Outbound) (ht : w.Tasks) {a : Action} {i : ℕ} {loop : Loop}
    {n : Next} (hloop : w.loops[i]? = some loop) (hlive : loop.pc ≠ .done)
    (hl : LoopStep w a i loop w' n) :
    w'.Outbound := by
  -- a change of the connection it holds, which is not installed
  have hheld : ∀ {c : ℕ} {f : Conn → Conn}, (∀ conn, (f conn).installed = conn.installed) →
      (∀ conn, (f conn).wire = conn.wire) → loop.pc.conn = some c →
      Slots.Related Conn.Sent w.conns (w.conns.modify c f) := by
    intro c f hinst hwire hc
    obtain ⟨conn, hconn, hnone⟩ := ht.held hloop hc
    refine Slots.related_modify Conn.Sent.refl fun a ha => ?_
    cases hconn.symm.trans ha
    exact .of_none hnone (hinst _) (hwire _)
  cases hl with
  | letGo c f n hw hc hf hread hgap hconns hpc hn hgen hover =>
    rename_i loop' conns
    have hinst : ∀ conn, (f conn).installed = conn.installed := fun conn => by rw [hf conn]
    have hwire : ∀ conn, (f conn).wire = conn.wire := fun conn => by rw [hf conn]
    have hsent : Slots.Related Conn.Sent w.conns (w.conns.modify c f) := by
      rcases hc with hc | rfl
      · exact hheld hinst hwire hc
      · exact Slots.related_modify Conn.Sent.refl fun a _ => .refl a
    have hclose : Slots.Related Conn.Sent (w.conns.modify c f) conns :=
      ⟨hconns.length_eq, fun hb =>
        let ⟨a, ha, hsame⟩ := hconns.slot hb
        ⟨a, ha, hsame.heard.sent⟩⟩
    exact h.setLoop ht hloop hlive (by rw [hw]; rfl)
      (by rw [hw]; exact hsent.trans Conn.Sent.trans hclose) (by rw [hw]; exact fun _ hs => hs)
      fun c' _ hc' => by rw [hpc] at hc'; cases hc'
  | dialed conn hw hconn hpc hgen hover =>
    have hinst : conn.installed = none := by rw [hconn]
    refine (h.addConn ht hconn).setLoop (ht.addConn hinst) hloop hlive (by rw [hw]; rfl)
      (by rw [hw]; exact .refl Conn.Sent.refl _) (by rw [hw]; exact fun _ hs => hs)
      fun c a hc ha => ?_
    rcases hpc with hpc | hpc
    · simp [hpc] at hc
    · rw [hpc] at hc
      cases hc
      rw [hw] at ha
      cases (List.getElem?_concat_length).symm.trans ha
      rw [hconn]
  | opened c hw hc hpc hgen =>
    have hcc : loop.pc.conn = some c := by rw [hc]; rfl
    refine h.setLoop ht hloop hlive (by rw [hw]; rfl)
      (by rw [hw]; exact hheld (fun _ => rfl) (fun _ => rfl) hcc)
      (by rw [hw]; exact fun _ hs => hs) fun c' a hc' ha => ?_
    rw [hpc] at hc'
    cases hc'
    rw [hw] at ha
    obtain ⟨b, hb, rfl⟩ := Slots.getElem?_modify_eq_some.1 ha
    have hgap : b.gap = false := h.held hloop hcc hb
    rw [if_pos rfl]
    exact hgap
  | helloed c hw hc hpc hgen =>
    have hcc : loop.pc.conn = some c := by rw [hc]; rfl
    refine h.setLoop ht hloop hlive (by rw [hw]; rfl) (by rw [hw]; exact .refl Conn.Sent.refl _)
      (by rw [hw]; exact fun _ hs => hs) fun c' a hc' ha => ?_
    rw [hpc] at hc'
    cases hc'
    rw [hw] at ha
    exact h.held hloop hcc ha
  | more c k hw hc hshake hpc hgen =>
    have hcc : loop.pc.conn = some c := by rw [hc]; rfl
    refine h.setLoop ht hloop hlive (by rw [hw]; rfl)
      (by rw [hw]; exact hheld (fun _ => rfl) (fun _ => rfl) hcc)
      (by rw [hw]; exact fun _ hs => hs) fun c' a hc' ha => ?_
    rw [hpc] at hc'
    cases hc'
    rw [hw] at ha
    obtain ⟨b, hb, rfl⟩ := Slots.getElem?_modify_eq_some.1 ha
    have hgap : b.gap = false := h.held hloop hcc hb
    rw [if_pos rfl]
    exact hgap
  | installed c k p hc hshake htail hlive' hact hinst =>
    have hcc : loop.pc.conn = some c := by rw [hc]; rfl
    obtain ⟨conn, hconn, hnone⟩ := ht.held hloop hcc
    obtain ⟨hover, hno⟩ := ht.resumed hloop hlive c k p.toNat
    have hpast : ((w.takeInbox c k).resumed i loop c p.toNat).Outbound := by
      refine h.setLoop ht hloop hlive rfl ?_ (fun _ hs => hs.ack _ _) fun c' _ hc' _ => by cases hc'
      have htwice : ((w.takeInbox c k).resumed i loop c p.toNat).conns =
          w.conns.modify c fun conn => { conn with
            inbox := conn.inbox.drop k
            taken := conn.taken ++ conn.inbox.take k
            peerReceived := p.toNat } := List.modify_modify_eq _ _ _ _
      rw [htwice]
      exact hheld (fun _ => rfl) (fun _ => rfl) hcc
    have hgap : conn.gap = false := h.held hloop hcc hconn
    have hfull : Resume.Full p.toNat _ w.popped :=
      h.replay.tailFrom (by rw [h.usize]; rfl) htail
    obtain ⟨v, hq, -, -, -, hdrove⟩ := install_cases hinst
    exact (hpast.spawn hover hno (Tasks.getElem?_conns_resumed hconn) hnone hgap
      hq _ hfull).quiet
      (hover.spawn hno (Tasks.getElem?_conns_resumed hconn) hnone hq _ _) hdrove.quiet

theorem piece (h : w.Outbound) (ht : w.Tasks) {l : Label} {n : Next}
    (hpiece : w.piece l = some (w', n)) : w'.Outbound := by
  rcases piece_cases hpiece with ⟨-, hq, -⟩ | ⟨g, t, hg, hw⟩ | ⟨i, loop, hloop, hlive, hl⟩ |
    ⟨-, rfl, -⟩
  · exact h.quiet ht hq
  · exact h.writerStep ht hg hw
  · exact h.loopStep ht hloop hlive hl
  · rcases w.wake_cases with hq | ⟨-, -, -, hresuming, heq⟩
    · exact h.quiet ht hq
    · rw [heq]
      exact h.addLoop ht (ht.noLoop hresuming) rfl rfl (.refl Conn.Sent.refl _)

theorem topStep (h : w.Outbound) (ht : w.Tasks) {i : ℕ} {loop : Loop}
    (hloop : w.loops[i]? = some loop) (hlive : loop.pc ≠ .done) {r : Option String}
    (htop : w.TopStep i w' r) : w'.Outbound := by
  -- a resume that is over, or that dials, holds no connection
  have hnone : ∀ {pc : LoopPc} {c : ℕ}, pc = .done ∨ pc = .dialing → pc.conn = some c → False := by
    rintro pc c (rfl | rfl) hc <;> cases hc
  cases htop with
  | gone hgone => exact h
  | ended r hpc hold hgen hover =>
    exact h.setLoop ht hloop hlive rfl (.refl Conn.Sent.refl _) (fun _ hs => hs)
      fun c _ hc _ => (hnone (.inl hpc) hc).elim
  | standDown hpc hold hgen hgoing haway =>
    exact h.setLoop ht hloop hlive rfl (.refl Conn.Sent.refl _) (fun _ hs => hs)
      fun c _ hc _ => (hnone (.inl hpc) hc).elim
  | dial hpc hold hgen hgoing =>
    exact h.setLoop ht hloop hlive rfl (.refl Conn.Sent.refl _) (fun _ hs => hs)
      fun c _ hc _ => (hnone (.inr hpc) hc).elim

theorem settle (h : w.Outbound) (ht : w.Tasks) {n : Next} (hfits : n.Fits w) :
    (w.settle n).1.Outbound := by
  rcases w.settle_cases n with ⟨heq, -⟩ | ⟨heq, -, -⟩ | ⟨i, rfl, htop⟩ |
    ⟨g, reason, rfl, hresume, htop⟩
  · rwa [heq]
  · rw [heq]
    exact { h with }
  · obtain ⟨loop, hloop, hlive⟩ := hfits
    exact h.topStep ht hloop hlive htop
  · have hno : w.NoLoop := ht.noLoop (resuming_of_linkNext hresume)
    have hclose : Slots.Related Conn.Sent w.conns (w.startLoop g).conns :=
      Slots.related_modify Conn.Sent.refl fun _ _ => ⟨rfl, rfl, fun _ => ⟨rfl, rfl⟩⟩
    have hstart : (w.startLoop g).Outbound := h.addLoop ht hno rfl rfl hclose
    have hkin : Slots.Related Conn.Kin w.conns (w.startLoop g).conns :=
      Slots.related_modify Conn.Kin.refl fun _ _ => rfl
    have htstart : (w.startLoop g).Tasks := ht.addLoop hno rfl rfl hkin
    exact hstart.topStep htstart List.getElem?_concat_length (by simp) htop

theorem step (h : w.Outbound) (ht : w.Tasks) {l : Label} (hstep : w.step l = some w') :
    w'.Outbound := by
  obtain ⟨v, n, hpiece, hsettle⟩ := step_cases hstep
  obtain ⟨hv, hfits⟩ := ht.piece hpiece
  have hs := (h.piece ht hpiece).settle hv hfits
  obtain ⟨hts, hno⟩ := hv.settle hfits
  rcases hsettle with ⟨-, rfl⟩ | ⟨reason, hreason, hdie⟩
  · exact hs
  · rcases declareDead_cases hdie with ⟨-, rfl⟩ | ⟨-, hq, -⟩
    · exact hs
    · have hmark : (v.settle n).1.markDead.Outbound := { hs with }
      exact hmark.quiet (hts.setResuming (hno reason hreason) rfl) hq

/-- A session begins with an empty outbox, and its writer with nothing to write. -/
theorem fresh {d : Dial} (husize : d.usize = id) (id : SessionId) (dec hello : Bytes)
    (pc : ReaderPc) : (World.fresh d id dec hello pc).Outbound := by
  exact {
    usize := husize
    queued := rfl
    replay := Replay.tracks_new
    unwritten := fun hc _ => by
      obtain ⟨-, rfl⟩ := Slots.getElem?_singleton_eq_some hc
      rfl
    gap := fun hc hgap => by
      obtain ⟨-, rfl⟩ := Slots.getElem?_singleton_eq_some hc
      cases hgap
    held := nofun
    first := fun hc _ => by
      obtain ⟨-, rfl⟩ := Slots.getElem?_singleton_eq_some hc
      rfl
    fed := fun hw hc => by
      obtain ⟨-, rfl⟩ := Slots.getElem?_singleton_eq_some hw
      obtain ⟨-, rfl⟩ := Slots.getElem?_singleton_eq_some hc
      exact List.prefix_refl _
    full := fun hw _ hc => by
      obtain ⟨-, rfl⟩ := Slots.getElem?_singleton_eq_some hw
      obtain ⟨-, rfl⟩ := Slots.getElem?_singleton_eq_some hc
      exact Resume.full_nil }

end Outbound

/-! ## Bytes that are gone -/

/-- The session is dead once a peer has asked for bytes that are no longer buffered. -/
def GapDead (w : World) : Prop :=
  ∀ (c : ℕ) (conn : Conn), w.conns[c]? = some conn → conn.gap = true → w.linkDown = true

namespace GapDead

omit [Postcard] in
/-- No new gap. -/
theorem keep (h : w.GapDead) (hdown : w.linkDown = true → w'.linkDown = true)
    (hconns : ∀ (c : ℕ) (conn' : Conn), w'.conns[c]? = some conn' → conn'.gap = true →
      ∃ conn, w.conns[c]? = some conn ∧ conn.gap = true) : w'.GapDead := by
  intro c conn' hc hgap
  obtain ⟨conn, hconn, hgap'⟩ := hconns c conn' hc hgap
  exact hdown (h c conn hconn hgap')

omit [Postcard] in
theorem quiet (h : w.GapDead) (hq : w.Quiet w') : w'.GapDead := by
  refine h.keep (fun hdown => by rwa [hq.only]) fun c conn' hc hgap => ?_
  obtain ⟨a, ha, hheard⟩ := hq.conns.slot hc
  rw [Conn.Heard] at hheard
  rw [hheard] at hgap
  exact ⟨a, ha, hgap⟩

omit [Postcard] in
/-- A connection changed in nothing that has to do with its reply. -/
theorem modify (h : w.GapDead) {c : ℕ} {f : Conn → Conn} (hdown : w'.linkDown = w.linkDown)
    (hconns : w'.conns = w.conns.modify c f) (hf : ∀ conn, (f conn).gap = conn.gap) :
    w'.GapDead := by
  refine h.keep (fun hd => hdown.trans hd) fun c' conn' hc hgap => ?_
  rw [hconns] at hc
  obtain ⟨a, ha, rfl⟩ := Slots.getElem?_modify_eq_some.1 hc
  refine ⟨a, ha, ?_⟩
  split_ifs at hgap
  · rwa [hf] at hgap
  · exact hgap

/-- A piece of a step finds a gap only when it goes on to declare the session dead. -/
theorem piece (h : w.GapDead) {l : Label} {n : Next} (hpiece : w.piece l = some (w', n)) :
    w'.GapDead ∨ ∃ reason, n = .die reason := by
  rcases piece_cases hpiece with ⟨-, hq, -⟩ | ⟨g, t, hg, hw⟩ | ⟨i, loop, hloop, hlive, hl⟩ |
    ⟨-, rfl, -⟩
  · exact .inl (h.quiet hq)
  · left
    cases hw with
    | parked => exact h
    | done n hn => exact h
    | pieces fs => exact h.modify rfl rfl fun _ => rfl
    | round hcur hlive hpend hb =>
      obtain ⟨fs, pc, -, hcs, -⟩ := hb.wire
      exact h.modify (by rw [hb.only]) hcs fun _ => rfl
  · cases hl with
    | letGo c f n hw hc hf hread hgap hconns hpc hn hgen hover =>
      rename_i loop' conns
      rcases hgap with hgap | hdie
      · left
        refine h.keep (fun hd => by rwa [hw]) fun c' conn' hc' hgap' => ?_
        rw [hw] at hc'
        obtain ⟨b, hb, hsame⟩ := hconns.slot hc'
        obtain ⟨a, ha, rfl⟩ := Slots.getElem?_modify_eq_some.1 hb
        rw [Conn.Same] at hsame
        rw [hsame] at hgap'
        refine ⟨a, ha, ?_⟩
        split_ifs at hgap'
        · rwa [hgap] at hgap'
        · exact hgap'
      · exact .inr hdie
    | dialed conn hw hconn hpc hgen hover =>
      left
      refine h.keep (fun hd => by rwa [hw]) fun c' conn' hc' hgap' => ?_
      rw [hw] at hc'
      rcases Slots.getElem?_concat_eq_some.1 hc' with hc' | ⟨-, rfl⟩
      · exact ⟨conn', hc', hgap'⟩
      · rw [hconn] at hgap'
        cases hgap'
    | opened c hw hc hpc hgen =>
      rw [hw]
      exact .inl (h.modify rfl rfl fun _ => rfl)
    | helloed c hw hc hpc hgen =>
      rw [hw]
      exact .inl h
    | more c k hw hc hshake hpc hgen =>
      rw [hw]
      exact .inl (h.modify rfl rfl fun _ => rfl)
    | installed c k p hc hshake htail hlive' hact hinst =>
      left
      obtain ⟨v, hq, -, -, -, hdrove⟩ := install_cases hinst
      have hread : (w.takeInbox c k).GapDead := h.modify rfl rfl fun _ => rfl
      have hover : ((w.takeInbox c k).resumed i loop c p.toNat).GapDead :=
        hread.modify rfl rfl fun _ => rfl
      have hadopt : (((w.takeInbox c k).resumed i loop c p.toNat).adopt c).GapDead :=
        hover.modify rfl rfl fun _ => rfl
      have hv : v.GapDead := hadopt.quiet hq
      have hspawn : ∀ dec tail, (v.spawnTasks c dec tail).GapDead := fun _ _ => hv
      exact .quiet (hspawn _ _) hdrove.quiet
  · left
    rcases w.wake_cases with hq | ⟨-, -, -, -, heq⟩
    · exact h.quiet hq
    · rw [heq]
      exact h

omit [Postcard] in
theorem settle (h : w.GapDead) (n : Next) : (w.settle n).1.GapDead := by
  refine settle_rule (P := World.GapDead) h n h (fun g => h.modify rfl rfl fun _ => rfl)
    fun hv ht => ?_
  cases ht <;> exact hv

end GapDead

omit [Postcard] in
/-- After a death was declared the session is dead. -/
theorem linkDown_of_declareDead {reason : String} {moves : List SshCore.Action}
    (h : w.declareDead reason moves = some w') : w'.linkDown = true := by
  rcases declareDead_cases h with ⟨hdown, rfl⟩ | ⟨-, hq, -⟩
  · exact hdown
  · rw [hq.only]
    rfl

theorem GapDead.step (h : w.GapDead) {l : Label} (hstep : w.step l = some w') : w'.GapDead := by
  obtain ⟨v, n, hpiece, hsettle⟩ := step_cases hstep
  rcases hsettle with ⟨hnone, rfl⟩ | ⟨reason, -, hdie⟩
  · rcases h.piece hpiece with hv | ⟨reason, rfl⟩
    · exact hv.settle n
    · cases hnone
  · exact fun _ _ _ _ => linkDown_of_declareDead hdie

/-- A peer asks for bytes from a count on that the buffer no longer holds, or never held: the
session is declared dead in the same step. -/
theorem Outbound.dead_of_replied (h : w.Outbound) (ht : w.Tasks) {l : Label} {c p : ℕ}
    (hreplied : w.replied l = some (c, p))
    (hgone : w.popped.length < p ∨ w.replay.buf.length < w.popped.length - p)
    (hstep : w.step l = some w') :
    w'.linkDown = true ∧ ∃ conn, w'.conns[c]? = some conn ∧ conn.gap = true := by
  obtain ⟨act, moves, dying⟩ := l
  cases act <;> simp only [replied, reduceCtorEq] at hreplied
  rename_i i k
  split at hreplied
  · cases hreplied
  · rename_i loop hloop
    split at hreplied
    · rename_i c' dec deferred hpc
      split at hreplied
      · rename_i q deferred' dec' hshake
        split_ifs at hreplied with habandoned
        cases hreplied
        obtain ⟨conn, hconn, -⟩ := ht.held hloop (c := c) (by rw [hpc]; rfl)
        have htail : w.replay.tailFrom w.usize q.toNat = none := by
          unfold Replay.tailFrom
          rw [h.usize, h.replay.sentTotal_eq]
          rcases hgone with hgone | hgone
          · rw [if_pos hgone]
          · by_cases hlt : w.popped.length < q.toNat
            · rw [if_pos hlt]
            · rw [if_neg hlt]
              exact if_pos hgone
        -- the piece of the step marks the connection, and goes on to declare the session dead
        have hpiece : w.piece ⟨.loopRead i k, moves, dying⟩ =
            some (((w.takeInbox c k).modifyConn c fun conn =>
              { conn with peerReceived := q.toNat, gap := true }).loopDie i loop c
              "resume impossible: the listener asked for data no longer buffered") := by
          have hab : (w.takeInbox c k).abandoned loop.generation = false :=
            Bool.eq_false_iff.2 habandoned
          have htail' : (w.takeInbox c k).replay.tailFrom (w.takeInbox c k).usize q.toNat = none :=
            htail
          simp only [World.piece, World.loopRead, hloop, hpc, hshake, hab, htail',
            Bool.false_eq_true, if_false]
        obtain ⟨v, n, hpiece', hsettle⟩ := step_cases hstep
        cases hpiece.symm.trans hpiece'
        rcases hsettle with ⟨hnone, -⟩ | ⟨reason, -, hdie⟩
        · cases hnone
        · refine ⟨linkDown_of_declareDead hdie, ?_⟩
          have hgap : ∃ conn', (((w.takeInbox c k).modifyConn c fun conn =>
              { conn with peerReceived := q.toNat, gap := true }).leave i loop c).conns[c]? =
                some conn' ∧ conn'.gap = true := by
            refine ⟨_, Slots.getElem?_modify_eq_some.2 ⟨_, Slots.getElem?_modify_eq_some.2
              ⟨_, Slots.getElem?_modify_eq_some.2 ⟨conn, hconn, rfl⟩, rfl⟩, rfl⟩, ?_⟩
            simp
          obtain ⟨conn', hconn', hgap⟩ := hgap
          rcases declareDead_cases hdie with ⟨-, rfl⟩ | ⟨-, hq, -⟩
          · exact ⟨conn', hconn', hgap⟩
          · obtain ⟨a, ha, hheard⟩ := hq.conns.exists hconn'
            rw [Conn.Heard] at hheard
            exact ⟨a, ha, by rw [hheard]; exact hgap⟩
      · cases hreplied
    · cases hreplied

/-! ## The outbound stream -/

/-- What is sent across resumes: each connection was given an initial part of the stream from its
peer's count on, out of what was recorded before; what is popped is recorded once and nothing else
is; and a connection whose peer asked for bytes that are gone was never installed or written to,
and the session is dead. -/
structure OutboundIntact (w : World) : Prop where
  written : ∀ (c : ℕ) (conn : Conn), w.conns[c]? = some conn → conn.installed ≠ none →
    dataOf conn.wire <+: w.queued.drop conn.peerReceived
  first : ∀ (c : ℕ) (conn : Conn), w.conns[c]? = some conn → conn.installed = some 0 →
    conn.peerReceived = 0
  popped : w.queued = w.popped ++ w.outbox.flatten
  recorded : w.replay.sentTotal = w.popped.length ∧ w.replay.buf <:+ w.popped
  recordedFirst : ∀ (c : ℕ) (conn : Conn), w.conns[c]? = some conn → conn.installed ≠ none →
    dataOf conn.wire <+: w.popped.drop conn.peerReceived
  gone : ∀ (c : ℕ) (conn : Conn), w.conns[c]? = some conn → conn.gap = true →
    w.linkDown = true ∧ conn.installed = none ∧ conn.wire = []

theorem Outbound.intact (h : w.Outbound) (ht : w.Tasks) (hgap : w.GapDead) :
    w.OutboundIntact := by
  have hfed : ∀ (c : ℕ) (conn : Conn), w.conns[c]? = some conn → conn.installed ≠ none →
      dataOf conn.wire <+: w.popped.drop conn.peerReceived := by
    intro c conn hc hinst
    obtain ⟨g, hg⟩ := Option.ne_none_iff_exists'.1 hinst
    -- the writer of its generation is on it
    have hlt : g < w.writers.length := by
      rw [ht.writers_length]
      exact Nat.lt_succ_of_le (ht.installed_le hc hg)
    have hw := List.getElem?_eq_getElem hlt
    obtain ⟨conn', hc', hg'⟩ := ht.writer hw
    obtain rfl := ht.installed hc hc' hg hg'
    exact (h.fed hw hc).shrink (List.prefix_append _ _)
  exact {
    written := fun c conn hc hinst => by
      rw [h.queued]
      exact Resume.Fed.grow (hfed c conn hc hinst) _
    first := fun c conn hc hinst => h.first hc hinst
    popped := h.queued
    recorded := ⟨h.replay.sentTotal_eq, h.replay.buf_suffix⟩
    recordedFirst := hfed
    gone := fun c conn hc hg => ⟨hgap c conn hc hg, h.gap hc hg, h.unwritten hc (h.gap hc hg)⟩ }

end World

open World

/-- **The outbound stream of a session with frames**, when the casts of the replay buffer are
exact: in every state it reaches, what is sent is intact; and at every step that learns from its
peer a count from which on the bytes are no longer buffered, the session is declared dead, and the
connection is one of those that are never written to. -/
theorem outbound_run [Postcard] {d : Dial} {moves : List SshCore.Action} {w₀ w : World}
    (hframed : d.proto.framed = true) (husize : d.usize = id)
    (hconn : World.connect d moves = some w₀) {ls : List Label}
    (hrun : Run.run World.step w₀ ls = some w) :
    w.OutboundIntact ∧
    ∀ (l : Label) (w' : World) (c p : ℕ), w.replied l = some (c, p) →
      w.popped.length < p ∨ w.replay.buf.length < w.popped.length - p →
      w.step l = some w' →
      w'.linkDown = true ∧ ∃ conn, w'.conns[c]? = some conn ∧ conn.gap = true := by
  have hall : w.Tasks ∧ w.Outbound ∧ w.GapDead := by
    refine Run.run_inv_of_step (P := fun w => w.Tasks ∧ w.Outbound ∧ w.GapDead)
      (fun _ _ _ h hstep => ⟨h.1.step hstep, h.2.1.step h.1 hstep, h.2.2.step hstep⟩) ?_ hrun
    obtain ⟨id, dec, hello, pc, deferred, hbegin, -⟩ := connect_cases hconn
    have hq := quiet_begin hbegin
    have hgap : (World.fresh d id dec hello pc).GapDead := by
      intro c conn hc hgap
      obtain ⟨-, rfl⟩ := Slots.getElem?_singleton_eq_some hc
      cases hgap
    exact ⟨tasks_connect hframed hconn,
      (Outbound.fresh husize id dec hello pc).quiet (Tasks.fresh hframed id dec hello pc) hq,
      hgap.quiet hq⟩
  obtain ⟨ht, ho, hgap⟩ := hall
  exact ⟨ho.intact ht hgap, fun l w' c p hreplied hgone hstep =>
    ho.dead_of_replied ht hreplied hgone hstep⟩

/-- The core produces some bytes, and the first writer writes them. -/
def producesOutput : List Label :=
  [⟨.pollReader 0, [], []⟩, ⟨.pollWriter 0, [], []⟩, ⟨.tickCore .pump, [.connWrite [1, 2, 3]], []⟩,
    ⟨.pollWriter 0, [], []⟩]

/-- Three bytes are written and one is received, so that the next writer writes the other two: the
run to which `outbound_run` is applied. -/
theorem outbound_run_tail :
    ∃ w₀ w, @World.connect Postcard.golden { sampleDial with usize := id } [] = some w₀ ∧
      @Run.run _ _ (@World.step Postcard.golden) w₀ (producesOutput ++ transportEnds ++ resumes 1 ++
        [⟨.pollWriter 1, [], []⟩]) = some w ∧
      @OutboundIntact Postcard.golden w ∧
      w.conns.map Conn.wire = [[encodeData [1, 2, 3]], [encodeData [2, 3]]] :=
  ⟨_, _, rfl, rfl, (@outbound_run Postcard.golden { sampleDial with usize := id } [] _ _ rfl rfl rfl
    (producesOutput ++ transportEnds ++ resumes 1 ++ [⟨.pollWriter 1, [], []⟩]) rfl).1, rfl⟩

end Client
