import Wosh.Client.Decoding
import Wosh.Client.Wire

set_option relaxedAutoImplicit false
set_option autoImplicit false

/-!
# Control frames at the client

The echoes of the pings that the reader finds are due until the writer writes them, and a new
attachment begins with none. But a reader that was spawned with a decoder consumes it without asking
whether it was superseded meanwhile.

## Main definitions

* `Client.echoesInStep` — a superseded reader has no ping to consume.
* `Client.World.Echoing` — the invariant.

## Main results

* `Client.World.Echoing.step` — such a step keeps the invariant.
* `Client.World.echoing_run` — along such steps, the echoes on a connection are those of the first of
  the pings that arrived on it.
-/

namespace Client

open Tunnel

/-- A reader that was superseded before it was first polled finds no ping in its decoder. -/
def echoesInStep [Postcard] (w : World) (l : Label) : Bool :=
  match l.act with
  | .pollReader g =>
    (w.readers[g]?).all fun r => r.pc ≠ .seeded || !w.stale g || pingsOf (frames r.dec).1 = []
  | _ => true

/-- A connection on which nothing more was said, and more may have been read. -/
structure Conn.Listens (conn conn' : Conn) : Prop where
  wire : conn'.wire = conn.wire
  installed : conn'.installed = conn.installed
  taken : conn.taken <+: conn'.taken

theorem Conn.Listens.refl (conn : Conn) : conn.Listens conn := ⟨rfl, rfl, List.prefix_refl _⟩

theorem Conn.Listens.trans {conn conn' conn'' : Conn} (h : conn.Listens conn')
    (h' : conn'.Listens conn'') : conn.Listens conn'' :=
  ⟨h'.wire.trans h.wire, h'.installed.trans h.installed, h.taken.trans h'.taken⟩

theorem Conn.Same.listens {conn conn' : Conn} (h : conn.Same conn') : conn.Listens conn' := by
  rw [Conn.Same] at h
  rw [h]
  exact ⟨rfl, rfl, List.prefix_refl _⟩

theorem Conn.related_listens {l l' : List Conn} (h : Slots.Related Conn.Same l l') :
    Slots.Related Conn.Listens l l' :=
  ⟨h.length_eq, fun hc =>
    let ⟨a, ha, hsame⟩ := h.slot hc
    ⟨a, ha, hsame.listens⟩⟩

/-- Reading from a connection. -/
theorem Conn.listens_take (conn : Conn) (k : ℕ) : conn.Listens
    { conn with inbox := conn.inbox.drop k, taken := conn.taken ++ conn.inbox.take k } :=
  ⟨rfl, rfl, List.prefix_append _ _⟩

namespace World

variable [Postcard]

/-- What was said on the connection of the reader `r`, and then the echoes `due`, are those of the
pings that it has consumed. -/
structure Due (due : List UInt64) (conn : Conn) (r : Reader) : Prop where
  prefix_of : pongsOf (heard conn.wire) ++ due <+: pingsOf (frames conn.taken).1
  whole : r.pc ≠ .done → pongsOf (heard conn.wire) ++ due ++ pingsOf (frames r.dec).1 =
    pingsOf (frames conn.taken).1

/-- The invariant of the control frames. -/
structure Echoing (w : World) : Prop where
  counted : w.received = w.fed.length
  /-- Nothing is said on a connection before it is installed. -/
  unspoken : ∀ {c : ℕ} {conn : Conn}, w.conns[c]? = some conn → conn.installed = none →
    conn.wire = []
  echoes : ∀ {c : ℕ} {conn : Conn}, w.conns[c]? = some conn →
    pongsOf (heard conn.wire) <+: pingsOf (frames conn.taken).1
  due : ∀ {r : Reader} {conn : Conn}, w.readers[w.generation]? = some r →
    w.conns[r.conn]? = some conn → Due w.pongDue conn r

variable {w w' : World}

namespace Echoing

/-! ## What keeps the invariant -/

/-- The current reader is where it was, or over, and nothing was said on its connection or read from
it. -/
def SameReader (w w' : World) : Prop :=
  ∀ (r' : Reader) (conn' : Conn), w'.readers[w'.generation]? = some r' →
    w'.conns[r'.conn]? = some conn' → ∃ r conn, w.readers[w.generation]? = some r ∧
      w.conns[r.conn]? = some conn ∧ r'.dec = r.dec ∧ (r'.pc ≠ .done → r.pc ≠ .done) ∧
      conn'.wire = conn.wire ∧ conn'.taken = conn.taken

omit [Postcard] in
theorem sameReader_of_kept (hgen : w'.generation = w.generation)
    (hreaders : Slots.Related Reader.Kept w.readers w'.readers)
    (hconns : Slots.Related (fun a b => b.wire = a.wire ∧ b.taken = a.taken) w.conns w'.conns) :
    SameReader w w' := by
  intro r' conn' hr' hc
  rw [hgen] at hr'
  obtain ⟨r, hr, hkept⟩ := hreaders.slot hr'
  obtain ⟨a, ha, hwire, htaken⟩ := hconns.slot hc
  rw [hkept.conn] at ha
  exact ⟨r, a, hr, ha, hkept.dec, fun hpc hdone => hpc (hkept.done hdone), hwire, htaken⟩

omit [Postcard] in
theorem related_of_same {l l' : List Conn} (h : Slots.Related Conn.Same l l') :
    Slots.Related (fun a b => b.wire = a.wire ∧ b.taken = a.taken) l l' :=
  ⟨h.length_eq, fun hc =>
    let ⟨a, ha, hsame⟩ := h.slot hc
    ⟨a, ha, by rw [Conn.Same] at hsame; rw [hsame]; exact ⟨rfl, rfl⟩⟩⟩

/-- More may be read from connections other than the current one. -/
theorem keep (h : w.Echoing) (hcounted : w'.received = w'.fed.length)
    (hdue : w'.pongDue = w.pongDue) (hreader : SameReader w w')
    (hconns : Slots.Related Conn.Listens w.conns w'.conns) : w'.Echoing where
  counted := hcounted
  unspoken hc hnone := by
    obtain ⟨a, ha, hlistens⟩ := hconns.slot hc
    rw [hlistens.wire]
    exact h.unspoken ha (hlistens.installed ▸ hnone)
  echoes hc := by
    obtain ⟨a, ha, hlistens⟩ := hconns.slot hc
    rw [hlistens.wire]
    exact (h.echoes ha).trans ( pingsOf_prefix ( frames_prefix hlistens.taken))
  due hr hc := by
    obtain ⟨r, a, hr, ha, hdec, hpc, hwire, htaken⟩ := hreader _ _ hr hc
    have howed := h.due hr ha
    exact ⟨by rw [hwire, hdue, htaken]; exact howed.prefix_of,
      fun hne => by rw [hwire, hdue, htaken, hdec]; exact howed.whole (hpc hne)⟩

theorem still (h : w.Echoing) (hq : w.Quiet w') (hs : w.Still w') : w'.Echoing :=
  h.keep (by rw [hs.received, hs.fed, h.counted]) hs.pongDue
    (sameReader_of_kept (by rw [hq.only]) hs.readers (related_of_same hs.conns))
    (Conn.related_listens hs.conns)

/-- **The current reader consumed its decoder.** -/
theorem digested (h : w.Echoing) {g : ℕ} {r : Reader} {seeded : Bool} {dec p : Bytes}
    (hr : w.readers[g]? = some r) (hr' : r.dec = dec) (hcur : w.stale g = false)
    (hpc : r.pc ≠ .done) (hd : w.Digested w' g seeded dec p)
    (hwhole : seeded = true → whole dec = true) : w'.Echoing := by
  subst hr'
  obtain rfl : g = w.generation := stale_eq_false.1 hcur
  have hgen : w'.generation = w.generation := by rw [hd.quiet.only]
  obtain ⟨q, hq, hprefix, hall⟩ := hd.owes
  have hlistens := Conn.related_listens hd.conns
  refine ⟨?_, fun hc hnone => ?_, fun hc => ?_, fun {r' conn'} hr₁ hc => ?_⟩
  · rw [hd.received, hd.fed, h.counted, List.length_append]
  · obtain ⟨a, ha, hl⟩ := hlistens.slot hc
    rw [hl.wire]
    exact h.unspoken ha (hl.installed ▸ hnone)
  · obtain ⟨a, ha, hl⟩ := hlistens.slot hc
    rw [hl.wire]
    exact (h.echoes ha).trans ( pingsOf_prefix ( frames_prefix hl.taken))
  · rw [hgen] at hr₁
    obtain ⟨r₀, hr₀, hstays⟩ := hd.quiet.readers.slot hr₁
    cases hr₀.symm.trans hr
    obtain ⟨a, ha, hsame⟩ := hd.conns.slot hc
    rw [hstays] at ha
    obtain ⟨hwire, htaken⟩ : conn'.wire = a.wire ∧ conn'.taken = a.taken := by
      rw [Conn.Same] at hsame
      rw [hsame]
      exact ⟨rfl, rfl⟩
    have hbefore := (h.due hr ha).whole hpc
    refine ⟨?_, fun hne => ?_⟩
    · rw [hwire, htaken, hq, ← List.append_assoc, ← hbefore]
      exact (List.prefix_append_right_inj _).2 hprefix
    · rcases hd.rest hwhole hr₁ with ⟨-, hdone⟩ | ⟨hok, -, -⟩
      · exact absurd hdone hne
      · -- no ping is left in the rest
        have hrest : (frames r'.dec).1 = [] := frames_left hok
        rw [hwire, htaken, hq, hrest, pingsOf_nil, List.append_nil, ← List.append_assoc,
          hall r' hr₁ hne, hbefore]

/-- A superseded reader owed nothing. -/
theorem digested_stale (h : w.Echoing) {g : ℕ} {seeded : Bool} {dec p : Bytes}
    (hstale : w.stale g = true) (hdec : pingsOf (frames dec).1 = [])
    (hd : w.Digested w' g seeded dec p) : w'.Echoing := by
  have hg : w.generation ≠ g := by simpa [stale] using hstale
  obtain ⟨q, hq, hprefix, -⟩ := hd.owes
  obtain rfl : q = [] := List.prefix_nil.1 (hdec ▸ hprefix)
  refine h.keep ?_ (by rw [hq, List.append_nil]) (fun r' conn' hr' hc => ?_)
    (Conn.related_listens hd.conns)
  · rw [hd.received, hd.fed, h.counted, List.length_append]
  · have hgen : w'.generation = w.generation := by rw [hd.quiet.only]
    rw [hgen] at hr'
    obtain ⟨r, hr, hkept⟩ := hd.other _ r' hg hr'
    obtain ⟨a, ha, hwire, htaken⟩ := (related_of_same hd.conns).slot hc
    rw [hkept.conn] at ha
    exact ⟨r, a, hr, ha, hkept.dec, fun hpc hdone => hpc (hkept.done hdone), hwire, htaken⟩

/-- A superseded reader read in vain. -/
theorem vain (h : w.Echoing) (ht : w.Tasks) {g k : ℕ} {r : Reader} (hr : w.readers[g]? = some r)
    (hstale : w.stale g = true) : ((w.takeInbox r.conn k).setReader g .done).Echoing := by
  refine h.keep h.counted rfl (fun r' conn' hr' hc => ?_)
    (Slots.related_modify Conn.Listens.refl fun conn _ => conn.listens_take k)
  obtain ⟨hr₀, hc₀⟩ := vain_current ht hr hstale hr' hc
  exact ⟨r', conn', hr₀, hc₀, rfl, fun hpc => hpc, rfl, rfl⟩

/-- The current reader took bytes into its decoder. -/
theorem taken (h : w.Echoing) (hdec : w.Decoding) {g k : ℕ} {r : Reader}
    (hr : w.readers[g]? = some r) (hcur : w.stale g = false) (hpc : r.pc ≠ .done) :
    ((w.takeInbox r.conn k).decode g (r.dec ++ w.waiting r.conn k) .reading).Echoing := by
  obtain rfl := stale_eq_false.1 hcur
  have hconns : Slots.Related Conn.Listens w.conns (w.takeInbox r.conn k).conns :=
    Slots.related_modify Conn.Listens.refl fun conn _ => conn.listens_take k
  refine ⟨h.counted, fun hc hnone => ?_, fun hc => ?_, fun {r' conn'} hr' hc => ?_⟩
  · obtain ⟨a, ha, hl⟩ := hconns.slot hc
    rw [hl.wire]
    exact h.unspoken ha (hl.installed ▸ hnone)
  · obtain ⟨a, ha, hl⟩ := hconns.slot hc
    rw [hl.wire]
    exact (h.echoes ha).trans ( pingsOf_prefix ( frames_prefix hl.taken))
  · obtain ⟨a, ha, rfl, rfl⟩ := taken_current hr hr' hc
    obtain ⟨fs, hfs⟩ := hdec.reader hr ha
    have hbefore := (h.due hr ha).whole hpc
    have hitems : (frames a.taken).1 = fs ++ (frames r.dec).1 := hfs.items
    -- what was consumed are the pings of the frames decoded
    have hconsumed : pongsOf (heard a.wire) ++ w.pongDue = pingsOf fs := by
      rw [hitems, pingsOf_append] at hbefore
      exact List.append_cancel_right hbefore
    have hmore : Decoded (a.taken ++ a.inbox.take k) fs (r.dec ++ a.inbox.take k) := hfs.append _
    have hitems' : (frames (a.taken ++ a.inbox.take k)).1 =
        fs ++ (frames (r.dec ++ a.inbox.take k)).1 := hmore.items
    refine ⟨?_, fun _ => ?_⟩
    · show pongsOf (heard a.wire) ++ w.pongDue <+: pingsOf (frames (a.taken ++ a.inbox.take k)).1
      rw [hitems', hconsumed, pingsOf_append]
      exact List.prefix_append _ _
    · show pongsOf (heard a.wire) ++ w.pongDue ++ pingsOf (frames (r.dec ++ a.inbox.take k)).1 =
        pingsOf (frames (a.taken ++ a.inbox.take k)).1
      rw [hitems', hconsumed, pingsOf_append]

/-- Bytes arrive. -/
theorem arrived (h : w.Echoing) {c : ℕ} {b : Bytes} (harr : w.arrive c b = some w') :
    w'.Echoing := by
  obtain ⟨conn, -, hw, -⟩ := arrive_cases harr
  rw [hw]
  refine h.keep h.counted rfl (sameReader_of_kept rfl (.refl Reader.Kept.refl _) ?_) ?_
  · exact Slots.related_modify (fun _ => ⟨rfl, rfl⟩) fun _ _ => ⟨rfl, rfl⟩
  · exact Slots.related_modify Conn.Listens.refl fun _ _ => ⟨rfl, rfl, List.prefix_refl _⟩

/-- What a quiet step keeps. -/
theorem hear (h : w.Echoing) (hdec : w.Decoding) (ht : w.Tasks) {l : Label} (hq : w.Quiet w')
    (hstep : echoesInStep w l = true) (hwhole : startsWhole w l = true) (hh : HearStep w l w') :
    w'.Echoing := by
  cases hh with
  | still hact hs => exact h.still hq hs
  | arrived c b hact harr => exact h.arrived harr
  | vain g k r hr hstale => exact h.vain ht hr hstale
  | seeded g r hact hr hpc hd =>
    cases hstale : w.stale g with
    | false =>
      exact h.digested hr rfl hstale (by simp [hpc]) hd fun _ =>
        Decoding.whole_of_startsWhole hwhole hact hr hpc hstale
    | true =>
      have hnil : pingsOf (frames r.dec).1 = [] := by
        simpa [echoesInStep, hact, hr, hpc, hstale] using hstep
      exact h.digested_stale hstale hnil hd
  | read g k r hr hpc hcur hd =>
    have htook : ((w.takeInbox r.conn k).decode g (r.dec ++ w.waiting r.conn k) .reading).readers[g]? =
        some { r with dec := r.dec ++ w.waiting r.conn k, pc := .reading } :=
      Slots.getElem?_modify_eq_some.2 ⟨r, hr, (if_pos rfl).symm⟩
    exact (h.taken hdec hr hcur (by simp [hpc])).digested htook rfl hcur (by simp) hd (by simp)

/-! ## Steps -/

/-- A writer writes `fs`: echoes that were due, if it is the current one, and otherwise none. -/
theorem speak (h : w.Echoing) (ht : w.Tasks) {g : ℕ} {t : Writer} (hg : w.writers[g]? = some t)
    {fs : List Bytes}
    (hconns : w'.conns = w.conns.modify t.conn fun conn => { conn with wire := conn.wire ++ fs })
    (hreaders : w'.readers = w.readers) (hgen : w'.generation = w.generation)
    (hcounted : w'.received = w'.fed.length)
    (hechoes : pongsOf (heard fs) ++ w'.pongDue = w.pongDue)
    (hcur : w.stale g = false ∨ pongsOf (heard fs) = []) : w'.Echoing := by
  obtain ⟨b, hb, hinst⟩ := ht.writer hg
  -- the current reader is on the connection of the current writer
  have hsame : ∀ {r : Reader}, w.stale g = false → w.readers[w.generation]? = some r →
      r.conn = t.conn := by
    intro r hstale hr
    obtain rfl := stale_eq_false.1 hstale
    obtain ⟨a, ha, hinst'⟩ := ht.reader hr
    exact ht.installed ha hb hinst' hinst
  have hback : ∀ {c : ℕ} {conn' : Conn}, w'.conns[c]? = some conn' → ∃ conn, w.conns[c]? = some conn ∧
      conn' = if t.conn = c then { conn with wire := conn.wire ++ fs } else conn := by
    intro c conn' hc
    rw [hconns] at hc
    exact Slots.getElem?_modify_eq_some.1 hc
  refine ⟨hcounted, fun {c conn'} hc hnone => ?_, fun {c conn'} hc => ?_,
    fun {r conn'} hr hc => ?_⟩
  · obtain ⟨conn, hconn, rfl⟩ := hback hc
    by_cases htc : t.conn = c
    · subst htc
      cases hb.symm.trans hconn
      rw [if_pos rfl] at hnone
      cases hinst.symm.trans hnone
    · rw [if_neg htc] at hnone ⊢
      exact h.unspoken hconn hnone
  · obtain ⟨conn, hconn, rfl⟩ := hback hc
    by_cases htc : t.conn = c
    · rw [if_pos htc]
      show pongsOf (heard (conn.wire ++ fs)) <+: pingsOf (frames conn.taken).1
      rw [heard_append, pongsOf_append]
      rcases hcur with hstale | hnil
      · have hlt : w.generation < w.readers.length := by rw [ht.readers_length]; omega
        have hr : w.readers[w.generation]? = some w.readers[w.generation] :=
          List.getElem?_eq_getElem hlt
        have howed := (h.due hr (by rw [hsame hstale hr, htc]; exact hconn)).prefix_of
        rw [← hechoes, ← List.append_assoc] at howed
        exact (List.prefix_append _ _).trans howed
      · rw [hnil, List.append_nil]
        exact h.echoes hconn
    · rw [if_neg htc]
      exact h.echoes hconn
  · rw [hreaders, hgen] at hr
    obtain ⟨conn, hconn, rfl⟩ := hback hc
    have howed := h.due hr hconn
    by_cases htc : t.conn = r.conn
    · rw [if_pos htc]
      have hpongs : pongsOf (heard (conn.wire ++ fs)) ++ w'.pongDue =
          pongsOf (heard conn.wire) ++ w.pongDue := by
        rw [heard_append, pongsOf_append, List.append_assoc, hechoes]
      exact ⟨hpongs ▸ howed.prefix_of, fun hpc => (congrArg (· ++ _) hpongs).trans (howed.whole hpc)⟩
    · have hdue : w'.pongDue = w.pongDue := by
        rcases hcur with hstale | hnil
        · exact absurd (hsame hstale hr).symm htc
        · rw [← hechoes, hnil, List.nil_append]
      rw [if_neg htc, hdue]
      exact howed

theorem writerStep (h : w.Echoing) (ht : w.Tasks) (hcut : w.Cut) {a : Action} {g : ℕ} {t : Writer}
    {n : Next} (hg : w.writers[g]? = some t) (hw : WriterStep w a g t w' n) : w'.Echoing := by
  cases hw with
  | parked => exact { h with }
  | done n hn => exact { h with }
  | pieces fs hlive hidle hdata hpieces =>
    obtain ⟨hfs, -⟩ := hpieces ht.framed (hcut g t hg)
    have hnone : pongsOf (heard fs) = [] := by
      obtain ⟨ps, hps⟩ := hfs.heard
      rw [hps, pongsOf_map_data]
    exact h.speak ht hg rfl rfl rfl h.counted (by rw [hnone]; rfl) (.inr hnone)
  | round hcur hlive hpend hb =>
    obtain ⟨fs, pc, -, hcs, -, -, hsaid⟩ := hb.wire
    obtain ⟨-, hsaid⟩ := hsaid ht.framed
    exact h.speak ht hg hcs (by rw [hb.only]) (by rw [hb.only]) (by rw [hb.only]; exact h.counted)
      hsaid.echoes (.inl hcur)

/-- A resume moved on; only the connection it holds has changed. -/
theorem setLoop (h : w.Echoing) (ht : w.Tasks) {i : ℕ} {loop loop' : Loop}
    (hloop : w.loops[i]? = some loop) (hw : w' = { w with
      conns := w'.conns, hellos := w'.hellos, replay := w'.replay, loops := w.loops.set i loop' })
    (hconns : ∀ (c : ℕ) (conn' : Conn), w'.conns[c]? = some conn' →
      (∃ conn, w.conns[c]? = some conn ∧ conn.Listens conn') ∨ conn'.wire = [])
    (hread : ∀ (c : ℕ) (conn conn' : Conn), w.conns[c]? = some conn → w'.conns[c]? = some conn' →
      loop.pc.conn ≠ some c → conn'.wire = conn.wire ∧ conn'.taken = conn.taken) : w'.Echoing := by
  have hreaders : w'.readers[w'.generation]? = w.readers[w.generation]? := by rw [hw]
  refine ⟨by rw [hw]; exact h.counted, fun {c conn'} hc hnone => ?_, fun {c conn'} hc => ?_,
    fun {r conn'} hr hc => ?_⟩
  · rcases hconns c conn' hc with ⟨conn, hconn, hl⟩ | hnil
    · rw [hl.wire]
      exact h.unspoken hconn (hl.installed ▸ hnone)
    · exact hnil
  · rcases hconns c conn' hc with ⟨conn, hconn, hl⟩ | hnil
    · rw [hl.wire]
      exact (h.echoes hconn).trans ( pingsOf_prefix ( frames_prefix hl.taken))
    · rw [hnil]
      exact List.nil_prefix
  · rw [hreaders] at hr
    obtain ⟨a, ha, -⟩ := ht.reader hr
    obtain ⟨hwire, htaken⟩ := hread _ _ _ ha hc fun hheld =>
      Decoding.ne_held ht hr hloop hheld rfl
    have hdue : w'.pongDue = w.pongDue := by rw [hw]
    have howed := h.due hr ha
    rw [hdue]
    exact ⟨by rw [hwire, htaken]; exact howed.prefix_of,
      fun hpc => by rw [hwire, htaken]; exact howed.whole hpc⟩

/-- **A connection is installed**: nothing was said on it, nothing is due on it yet, and the pings that
arrived on it are still in its reader's decoder. -/
theorem spawn (h : w.Echoing) (ht : w.Tasks) {c : ℕ} {conn : Conn}
    (hconn : w.conns[c]? = some conn) (hinst : conn.installed = none) {fs : List Frame} {dec : Bytes}
    (hdec : Decoded conn.taken fs dec) (hpings : pingsOf fs = []) {v : World}
    (hv : v = { w.adopt c with core := v.core, received := v.received, fed := v.fed })
    (hcounted : v.received = v.fed.length) (tail : Bytes) : (v.spawnTasks c dec tail).Echoing := by
  have hback : ∀ {j : ℕ} {a' : Conn}, v.conns[j]? = some a' → ∃ a, w.conns[j]? = some a ∧
      a'.wire = a.wire ∧ a'.taken = a.taken ∧ (c ≠ j → a'.installed = a.installed) := by
    intro j a' ha'
    rw [hv] at ha'
    obtain ⟨a, ha, rfl⟩ := Slots.getElem?_modify_eq_some.1 ha'
    by_cases hcj : c = j
    · rw [if_pos hcj]
      exact ⟨a, ha, rfl, rfl, fun hne => absurd hcj hne⟩
    · rw [if_neg hcj]
      exact ⟨a, ha, rfl, rfl, fun _ => rfl⟩
  have hgen : v.generation = w.generation + 1 := by rw [hv]; rfl
  have hreaders : v.readers = w.readers := by rw [hv]; rfl
  have hdue : v.pongDue = [] := by rw [hv]; rfl
  refine ⟨hcounted, fun {j a'} hc hnone => ?_, fun {j a'} hc => ?_, fun {r a'} hr hc => ?_⟩
  · obtain ⟨a, ha, hwire, -, hkept⟩ := hback hc
    rw [hwire]
    by_cases hcj : c = j
    · subst hcj
      cases hconn.symm.trans ha
      exact h.unspoken hconn hinst
    · exact h.unspoken ha (hkept hcj ▸ hnone)
  · obtain ⟨a, ha, hwire, htaken, -⟩ := hback hc
    rw [hwire, htaken]
    exact h.echoes ha
  · rcases Slots.getElem?_concat_eq_some.1 hr with hr | ⟨-, rfl⟩
    · have hlt : v.generation < v.readers.length := (List.getElem?_eq_some_iff.1 hr).1
      rw [hgen, hreaders, ht.readers_length] at hlt
      exact absurd hlt (Nat.lt_irrefl _)
    · obtain ⟨a, ha, hwire, htaken, -⟩ := hback hc
      cases hconn.symm.trans ha
      have hnil : conn.wire = [] := h.unspoken hconn hinst
      have hitems : (frames conn.taken).1 = fs ++ (frames dec).1 := hdec.items
      have hdue' : (v.spawnTasks c dec tail).pongDue = [] := hdue
      rw [hdue']
      refine ⟨?_, fun _ => ?_⟩
      · rw [hwire, hnil]
        exact List.nil_prefix
      · rw [hwire, htaken, hnil, hitems, pingsOf_append, hpings]
        rfl

theorem loopStep (h : w.Echoing) (hdec : w.Decoding) (ht : w.Tasks) {a : Action} {i : ℕ}
    {loop : Loop} {n : Next} (hloop : w.loops[i]? = some loop) (hlive : loop.pc ≠ .done)
    (hl : LoopStep w a i loop w' n) : w'.Echoing := by
  -- changes of the one connection it holds
  have hmodify : ∀ {c : ℕ} {f : Conn → Conn}, loop.pc.conn = some c →
      ∀ (c' : ℕ) (conn conn' : Conn), w.conns[c']? = some conn →
      (w.conns.modify c f)[c']? = some conn' → loop.pc.conn ≠ some c' →
      conn'.wire = conn.wire ∧ conn'.taken = conn.taken := by
    intro c f hheld c' conn conn' hc hc' hne
    obtain ⟨a, ha, rfl⟩ := Slots.getElem?_modify_eq_some.1 hc'
    cases hc.symm.trans ha
    rw [if_neg (by rintro rfl; exact hne hheld)]
    exact ⟨rfl, rfl⟩
  cases hl with
  | letGo c f n hw hc hf hread hgap hconns hpc hn hgen hover =>
    rename_i loop' conns
    refine h.setLoop ht hloop (by rw [hw]; rfl) (fun c' a' ha' => ?_) fun c' a a' ha ha' hne => ?_
    · rw [hw] at ha'
      obtain ⟨b, hb, hsame⟩ := hconns.slot ha'
      obtain ⟨a, ha, rfl⟩ := Slots.getElem?_modify_eq_some.1 hb
      rcases hc with hc | rfl
      · by_cases hcc : c = c'
        · -- nothing was said on a connection that it holds
          subst hcc
          obtain ⟨conn, hconn, hnone⟩ := ht.held hloop hc
          cases hconn.symm.trans ha
          rw [if_pos rfl, hf a] at hsame
          have hnil : a.wire = [] := h.unspoken hconn hnone
          exact .inr (hsame.listens.wire.trans hnil)
        · rw [if_neg hcc] at hsame
          exact .inl ⟨a, ha, hsame.listens⟩
      · rw [id, ite_self] at hsame
        exact .inl ⟨a, ha, hsame.listens⟩
    · rw [hw] at ha'
      obtain ⟨b, hb, hwire, htaken⟩ := (related_of_same hconns).slot ha'
      rw [hwire, htaken]
      rcases hc with hc | rfl
      · exact hmodify hc c' a b ha hb hne
      · rw [List.modify_id] at hb
        cases ha.symm.trans hb
        exact ⟨rfl, rfl⟩
  | dialed conn hw hconn hpc hgen hover =>
    refine h.setLoop ht hloop (by rw [hw]; rfl) (fun c' a' ha' => ?_) fun c' a a' ha ha' _ => ?_
    · rw [hw] at ha'
      rcases Slots.getElem?_concat_eq_some.1 ha' with ha' | ⟨-, rfl⟩
      · exact .inl ⟨a', ha', .refl a'⟩
      · exact .inr (by rw [hconn])
    · rw [hw] at ha'
      rcases Slots.getElem?_concat_eq_some.1 ha' with ha' | ⟨hlen, -⟩
      · cases ha.symm.trans ha'
        exact ⟨rfl, rfl⟩
      · have hlt := (List.getElem?_eq_some_iff.1 ha).1
        exact absurd hlt (by omega)
  | opened c hw hc hpc hgen =>
    have hheld : loop.pc.conn = some c := by rw [hc]; rfl
    refine h.setLoop ht hloop (by rw [hw]; rfl) (fun c' a' ha' => .inl ?_)
      fun c' a a' ha ha' => hmodify hheld c' a a' ha (by rw [hw] at ha'; exact ha')
    have hrel : Slots.Related Conn.Listens w.conns w'.conns := by
      rw [hw]
      exact Slots.related_modify Conn.Listens.refl fun _ _ => ⟨rfl, rfl, List.prefix_refl _⟩
    exact hrel.slot ha'
  | helloed c hw hc hpc hgen =>
    refine h.setLoop ht hloop (by rw [hw]; rfl) (fun c' a' ha' => .inl ⟨a', ?_, .refl a'⟩)
      fun c' a a' ha ha' _ => ?_
    · rw [hw] at ha'
      exact ha'
    · rw [hw] at ha'
      cases ha.symm.trans ha'
      exact ⟨rfl, rfl⟩
  | more c k hw hc hshake hpc hgen =>
    have hheld : loop.pc.conn = some c := by rw [hc]; rfl
    refine h.setLoop ht hloop (by rw [hw]; rfl) (fun c' a' ha' => .inl ?_)
      fun c' a a' ha ha' => hmodify hheld c' a a' ha (by rw [hw] at ha'; exact ha')
    rw [hw] at ha'
    have hrel : Slots.Related Conn.Listens w.conns (w.takeInbox c k).conns :=
      Slots.related_modify Conn.Listens.refl fun conn _ => conn.listens_take k
    exact hrel.slot ha'
  | installed c k p hc hshake htail hlive' hact hinst =>
    rename_i dec dec' tail deferred deferred' moves
    have hheld : loop.pc.conn = some c := by rw [hc]; rfl
    obtain ⟨conn, hconn, hnone⟩ := ht.held hloop hheld
    obtain ⟨hover, hno⟩ := ht.resumed hloop hlive c k p.toNat
    obtain ⟨fs, hfs, -, hpings⟩ := hdec.takes hloop hc hconn (takes_of_reply hshake)
    have htwice : ((w.takeInbox c k).resumed i loop c p.toNat).conns =
        w.conns.modify c fun conn => { conn with
          inbox := conn.inbox.drop k
          taken := conn.taken ++ conn.inbox.take k
          peerReceived := p.toNat } := List.modify_modify_eq _ _ _ _
    have hpast : ((w.takeInbox c k).resumed i loop c p.toNat).Echoing := by
      refine h.setLoop ht hloop rfl (fun c' a' ha' => .inl ?_) fun c' a a' ha ha' => ?_
      · have hrel : Slots.Related Conn.Listens w.conns
            ((w.takeInbox c k).resumed i loop c p.toNat).conns := by
          rw [htwice]
          exact Slots.related_modify Conn.Listens.refl fun _ _ => ⟨rfl, rfl, List.prefix_append _ _⟩
        exact hrel.slot ha'
      · rw [htwice] at ha'
        exact hmodify hheld c' a a' ha ha'
    obtain ⟨v, -, hv, hfed, hreceived, hdrove⟩ := install_cases hinst
    have hcounted : v.received = v.fed.length := by
      rw [hfed, hreceived, List.length_append]
      exact congrArg (· + _) h.counted
    have hspawn : (v.spawnTasks c dec' tail).Echoing :=
      hpast.spawn hover (Tasks.getElem?_conns_resumed hconn) hnone hfs hpings hv hcounted tail
    exact hspawn.still hdrove.quiet hdrove.still

theorem piece (h : w.Echoing) (hdec : w.Decoding) (ht : w.Tasks) (hcut : w.Cut) {l : Label}
    {n : Next} (hstep : echoesInStep w l = true) (hwhole : startsWhole w l = true)
    (hpiece : w.piece l = some (w', n)) : w'.Echoing := by
  rcases piece_cases hpiece with ⟨hact, hq, -⟩ | ⟨g, t, hg, hw⟩ | ⟨i, loop, hloop, hlive, hl⟩ |
    ⟨-, rfl, -⟩
  · exact h.hear hdec ht hq hstep hwhole (hear_cases ht.framed hact hpiece)
  · exact h.writerStep ht hcut hg hw
  · exact h.loopStep hdec ht hloop hlive hl
  · unfold wake
    dsimp only
    split_ifs <;> exact { h with }

/-- The resumes change, and with them at most whether a connection is closed. -/
theorem loops (h : w.Echoing) (hw : w' = { w with
      resuming := w'.resuming, stalled := w'.stalled, linkDown := w'.linkDown
      closeKind := w'.closeKind, closedByWire := w'.closedByWire, dials := w'.dials
      conns := w'.conns, loops := w'.loops })
    (hconns : Slots.Related Conn.Same w.conns w'.conns) : w'.Echoing :=
  h.keep (by rw [hw]; exact h.counted) (by rw [hw])
    (sameReader_of_kept (by rw [hw]) (by rw [hw]; exact .refl Reader.Kept.refl _)
      (related_of_same hconns)) (Conn.related_listens hconns)

theorem settle (h : w.Echoing) (n : Next) : (w.settle n).1.Echoing := by
  refine settle_rule (P := World.Echoing) h n { h with }
    (fun g => h.loops rfl (same_closeConn w.conns w.conn)) fun hv ht => ?_
  cases ht with
  | gone hgone => exact hv
  | ended r hpc hold hgen hover => exact hv.loops rfl (.refl Conn.Same.refl _)
  | standDown hpc hold hgen hgoing haway => exact hv.loops rfl (.refl Conn.Same.refl _)
  | dial hpc hold hgen hgoing => exact hv.loops rfl (.refl Conn.Same.refl _)

/-- **A step keeps the echoes with their connection**, if a superseded reader has none to owe and a
reader that begins loses nothing. -/
theorem step (h : w.Echoing) (hdec : w.Decoding) (ht : w.Tasks) (hcut : w.Cut) {l : Label}
    (hin : echoesInStep w l = true) (hwhole : startsWhole w l = true)
    (hstep : w.step l = some w') : w'.Echoing := by
  obtain ⟨v, n, hpiece, hsettle⟩ := step_cases hstep
  have hs := (h.piece hdec ht hcut hin hwhole hpiece).settle n
  rcases hsettle with ⟨-, rfl⟩ | ⟨reason, -, hdie⟩
  · exact hs
  · rcases still_declareDead hdie with heq | ⟨hq, hstill⟩
    · rwa [heq]
    · have hmark : (v.settle n).1.markDead.Echoing := { hs with }
      exact hmark.still hq hstill

end Echoing

/-- A session begins with what came ahead of the reply, among which there is no ping. -/
theorem Begun.echoing {d : Dial} {v : World} {fs : List Frame} {dec : Bytes}
    (h : Begun d v fs dec) : v.Echoing := by
  obtain ⟨hello, hfirst⟩ := h.conn_eq
  have hitems : (frames d.arrived).1 = fs ++ (frames dec).1 := h.decoded.items
  refine ⟨h.received, fun hc hnone => ?_, fun hc => ?_, fun {r conn} hr hc => ?_⟩
  · rw [hfirst hc]
  · rw [hfirst hc]
    exact List.nil_prefix
  · rw [h.readers] at hr
    obtain ⟨-, rfl⟩ := Slots.getElem?_singleton_eq_some hr
    rw [hfirst hc, h.pongDue]
    refine ⟨List.nil_prefix, fun _ => ?_⟩
    show [] ++ [] ++ pingsOf (frames dec).1 = pingsOf (frames d.arrived).1
    rw [hitems, pingsOf_append, h.pings]
    rfl

/-- **The echoes of a session with frames.** Along steps at which a superseded reader has no ping to
consume and a reader that begins loses nothing, what is echoed on a connection are the first of the
pings that arrived on it.

**Proof sketch.** The invariant `Echoing` holds initially and is kept by every such step, next to
`Tasks`, `Decoding` and `Cut`. -/
theorem echoing_run {d : Dial} (hframed : d.proto.framed = true) {moves : List SshCore.Action}
    {w₀ : World} (hconn : World.connect d moves = some w₀) {ls : List Label}
    (hrun : Run.run World.step w₀ ls = some w)
    (hapart : Run.Along World.step
      (fun w l => startsWhole w l = true ∧ echoesInStep w l = true) w₀ ls) : w.Echoing := by
  obtain ⟨v, fs, dec, hbegun, hdrove⟩ := World.begun_connect hframed hconn
  have hall : w.Tasks ∧ w.Decoding ∧ w.Cut ∧ w.Echoing := by
    refine Run.run_inv (P := fun w => w.Tasks ∧ w.Decoding ∧ w.Cut ∧ w.Echoing) ?_
      ⟨tasks_connect hframed hconn, decoding_connect hframed hconn, cut_connect hconn,
        hbegun.echoing.still hdrove.quiet hdrove.still⟩ hapart hrun
    rintro u l u' ⟨ht, hdec, hcut, hu⟩ ⟨hw, hi⟩ hstep
    exact ⟨ht.step hstep, hdec.step ht hw hstep, (speaks_step ht.framed hcut hstep).2,
      hu.step hdec ht hcut hi hw hstep⟩
  exact hall.2.2.2

end World

end Client
