import Wosh.Client.Decoding
import Wosh.Lib.Resume

set_option relaxedAutoImplicit false
set_option autoImplicit false

/-!
# The client's inbound stream across resumes

A hello asks the listener for its stream from the count of the bytes received so far. That count is
a snapshot: the reader of the old connection goes on until the new one is installed, and what it
feeds the core meanwhile the new connection delivers once more. A reader that is spawned with a
decoder takes the complete frames out of it and goes on with a new one, so that a part of a frame
that the handshake has read is lost.

## Main definitions

* `Client.answers` — the listener sends on a connection its stream from the offset asked for.
* `Client.resumesInStep` — a step at which the core is fed nothing that another connection delivers.
* `Client.World.Inbound` — the invariant.

## Main results

* `Client.fed_prefix` — along such steps, what the core is fed is an initial part of the stream.
* `Client.not_inboundIntact` — a run in which it is not.
-/

namespace Client

open Tunnel

/-! ## Definitions -/

/-- What arrives in this step follows a hello, and with it the connection has delivered an initial
part of the listener's stream `S` from the offset that the hello asked for. -/
def answers [Postcard] (S : Bytes) (w : World) (l : Label) : Bool :=
  match l.act with
  | .arrive c b =>
    match w.conns[c]? with
    | none => true
    | some conn =>
      conn.hello.isSome &&
        (streamData (conn.taken ++ conn.inbox ++ b)).isPrefixOf (S.drop conn.resumeFrom)
  | _ => true

/-- A connection is installed only when nothing was received since its hello, and a reader that was
superseded before it was first polled finds no DATA in its decoder. -/
def resumesInStep [Postcard] (w : World) (l : Label) : Bool :=
  (match w.installs l with
    | none => true
    | some c => (w.conns[c]?).all fun conn => conn.resumeFrom = w.received) &&
  match l.act with
  | .pollReader g =>
    (w.readers[g]?).all fun r => r.pc ≠ .seeded || !w.stale g || streamData r.dec = []
  | _ => true

namespace World

/-- The invariant of what a session receives, when `S` is the listener's stream. -/
structure Inbound [Postcard] (S : Bytes) (w : World) : Prop where
  fed : w.fed <+: S
  received : w.received = w.fed.length
  answered : ∀ {c : ℕ} {conn : Conn}, w.conns[c]? = some conn →
    streamData (conn.taken ++ conn.inbox) <+: S.drop conn.resumeFrom
  silent : ∀ {c : ℕ} {conn : Conn}, w.conns[c]? = some conn → conn.hello = none →
    conn.taken ++ conn.inbox = []
  opening : ∀ {i c : ℕ} {loop : Loop} {conn : Conn}, w.loops[i]? = some loop →
    loop.pc = .opening c → w.conns[c]? = some conn → conn.hello = none
  /-- What the current reader has still in its decoder is what it has not fed yet. -/
  reader : ∀ {r : Reader} {conn : Conn}, w.readers[w.generation]? = some r → r.pc ≠ .done →
    w.conns[r.conn]? = some conn →
    w.fed.length + (streamData r.dec).length = conn.resumeFrom + (streamData conn.taken).length

variable [Postcard] {S : Bytes} {w w' : World}

namespace Inbound

/-! ## What keeps the invariant -/

/-- A connection on which nothing arrived: what was read from it at most grew by what waited. -/
def SameStream (conn conn' : Conn) : Prop :=
  conn'.taken ++ conn'.inbox = conn.taken ++ conn.inbox ∧ conn'.hello = conn.hello ∧
    conn'.resumeFrom = conn.resumeFrom

omit [Postcard] in
theorem SameStream.refl (conn : Conn) : SameStream conn conn := ⟨rfl, rfl, rfl⟩

omit [Postcard] in
theorem SameStream.trans {a b c : Conn} (h : SameStream a b) (h' : SameStream b c) :
    SameStream a c :=
  ⟨h'.1.trans h.1, h'.2.1.trans h.2.1, h'.2.2.trans h.2.2⟩

omit [Postcard] in
theorem sameStream_of_same {conn conn' : Conn} (h : conn.Same conn') : SameStream conn conn' := by
  rw [Conn.Same] at h
  rw [h]
  exact .refl conn

omit [Postcard] in
theorem related_of_same {l l' : List Conn} (h : Slots.Related Conn.Same l l') :
    Slots.Related SameStream l l' :=
  ⟨h.length_eq, fun hc =>
    let ⟨a, ha, hsame⟩ := h.slot hc
    ⟨a, ha, sameStream_of_same hsame⟩⟩

omit [Postcard] in
/-- Reading from a connection moves bytes within its stream. -/
theorem sameStream_take (conn : Conn) (k : ℕ) : SameStream conn
    { conn with inbox := conn.inbox.drop k, taken := conn.taken ++ conn.inbox.take k } :=
  ⟨by simp, rfl, rfl⟩

/-- The current reader of `w'`, which is not over, is that of `w`, with the same decoder, and
nothing more was read from its connection. -/
def SameReader (w w' : World) : Prop :=
  ∀ (r' : Reader) (conn' : Conn), w'.readers[w'.generation]? = some r' → r'.pc ≠ .done →
    w'.conns[r'.conn]? = some conn' → ∃ r conn, w.readers[w.generation]? = some r ∧
      r.pc ≠ .done ∧ w.conns[r.conn]? = some conn ∧ r'.dec = r.dec ∧ conn'.taken = conn.taken ∧
      conn'.resumeFrom = conn.resumeFrom

omit [Postcard] in
theorem sameReader_of_kept (hgen : w'.generation = w.generation)
    (hreaders : Slots.Related Reader.Kept w.readers w'.readers)
    (hconns : Slots.Related (fun a b => b.taken = a.taken ∧ b.resumeFrom = a.resumeFrom)
      w.conns w'.conns) : SameReader w w' := by
  intro r' conn' hr' hpc hc
  rw [hgen] at hr'
  obtain ⟨r, hr, hkept⟩ := hreaders.slot hr'
  obtain ⟨a, ha, htaken, hfrom⟩ := hconns.slot hc
  rw [hkept.conn] at ha
  exact ⟨r, a, hr, fun hdone => hpc (hkept.done hdone), ha, hkept.dec, htaken, hfrom⟩

/-- Nothing is fed, and the current reader is as it was. -/
theorem keep (h : w.Inbound S) (hfed : w'.fed = w.fed) (hreceived : w'.received = w.received)
    (hreader : SameReader w w') (hconns : Slots.Related SameStream w.conns w'.conns)
    (hloops : ∀ (i c : ℕ) (loop : Loop), w'.loops[i]? = some loop → loop.pc = .opening c →
      w.loops[i]? = some loop) : w'.Inbound S where
  fed := hfed ▸ h.fed
  received := by rw [hreceived, hfed, h.received]
  answered hc := by
    obtain ⟨a, ha, hstream, -, hfrom⟩ := hconns.slot hc
    rw [hstream, hfrom]
    exact h.answered ha
  silent hc hnone := by
    obtain ⟨a, ha, hstream, hhello, -⟩ := hconns.slot hc
    rw [hstream]
    exact h.silent ha (hhello ▸ hnone)
  opening hl hpc hc := by
    obtain ⟨a, ha, -, hhello, -⟩ := hconns.slot hc
    rw [hhello]
    exact h.opening (hloops _ _ _ hl hpc) hpc ha
  reader hr hpc hc := by
    obtain ⟨r, a, hr, hpc', ha, hdec, htaken, hfrom⟩ := hreader _ _ hr hpc hc
    rw [hfed, hdec, htaken, hfrom]
    exact h.reader hr hpc' ha

theorem still (h : w.Inbound S) (hq : w.Quiet w') (hs : w.Still w') : w'.Inbound S := by
  have hloops : w'.loops = w.loops := by rw [hq.only]
  refine h.keep hs.fed hs.received (sameReader_of_kept (by rw [hq.only]) hs.readers ?_)
    (related_of_same hs.conns) fun i c loop hl _ => hloops ▸ hl
  exact ⟨hs.conns.length_eq, fun hc =>
    let ⟨a, ha, hsame⟩ := hs.conns.slot hc
    ⟨a, ha, by rw [Conn.Same] at hsame; rw [hsame]; exact ⟨rfl, rfl⟩⟩⟩

/-- What the current reader has fed since its connection was opened is what was decoded off it. -/
theorem reader_eq (h : w.Inbound S) {r : Reader} {conn : Conn} {fs : List Frame}
    (hr : w.readers[w.generation]? = some r) (hpc : r.pc ≠ .done)
    (hc : w.conns[r.conn]? = some conn) (hdec : Decoded conn.taken fs r.dec) :
    w.fed.length = conn.resumeFrom + (fs.flatMap Frame.payload).length := by
  have hlen := h.reader hr hpc hc
  rw [hdec.streamData, List.length_append] at hlen
  omega

/-- **The current reader consumed its decoder**: what it fed follows what was fed before.

**Proof sketch.** The reader has fed exactly the payloads of the frames decoded off its connection,
so that what it feeds now comes next in the stream that the connection delivers, and this is the
listener's from the length of what was fed when the connection was opened. -/
theorem digested (h : w.Inbound S) (hdec : w.Decoding) {g : ℕ} {r : Reader} {seeded : Bool}
    {dec p : Bytes}
    (hr : w.readers[g]? = some r) (hr' : r.dec = dec) (hcur : w.stale g = false)
    (hpc : r.pc ≠ .done) (ht : w.Tasks) (hd : w.Digested w' g seeded dec p)
    (hwhole : seeded = true → whole dec = true) : w'.Inbound S := by
  subst hr'
  obtain rfl : g = w.generation := stale_eq_false.1 hcur
  have hloops : w'.loops = w.loops := by rw [hd.quiet.only]
  have hgen : w'.generation = w.generation := by rw [hd.quiet.only]
  obtain ⟨conn, hc, -⟩ := ht.reader hr
  obtain ⟨fs, hfs⟩ := hdec.reader hr hc
  have hlen := h.reader_eq hr hpc hc hfs
  have hstream : fs.flatMap Frame.payload ++ streamData r.dec <+: S.drop conn.resumeFrom := by
    rw [← hfs.streamData]
    exact ( streamData_prefix _ _).trans (h.answered hc)
  have hjoined : Resume.Joined conn.resumeFrom (fs.flatMap Frame.payload) w.fed S := ⟨hlen, h.fed⟩
  have hpush := hjoined.push
    (((List.prefix_append_right_inj _).2 hd.prefix_of).trans hstream)
  refine ⟨?_, ?_, fun hc' => ?_, fun hc' hnone => ?_, fun hl hpc' hc' => ?_,
    fun {r' conn'} hr' hpc' hc' => ?_⟩
  · rw [hd.fed]
    exact hpush.prefix_of
  · rw [hd.received, hd.fed, h.received, List.length_append]
  · obtain ⟨a, ha, hsame⟩ := hd.conns.slot hc'
    obtain ⟨hst, -, hfrom⟩ := sameStream_of_same hsame
    rw [hst, hfrom]
    exact h.answered ha
  · obtain ⟨a, ha, hsame⟩ := hd.conns.slot hc'
    obtain ⟨hst, hhello, -⟩ := sameStream_of_same hsame
    rw [hst]
    exact h.silent ha (hhello ▸ hnone)
  · obtain ⟨a, ha, hsame⟩ := hd.conns.slot hc'
    rw [(sameStream_of_same hsame).2.1]
    exact h.opening (hloops ▸ hl) hpc' ha
  · rw [hgen] at hr'
    obtain ⟨r₀, hr₀, hstays⟩ := hd.quiet.readers.slot hr'
    cases hr₀.symm.trans hr
    obtain ⟨a, ha, hsame⟩ := hd.conns.slot hc'
    rw [hstays] at ha
    cases ha.symm.trans hc
    rw [Conn.Same] at hsame
    rcases hd.rest hwhole hr' with ⟨-, hdone⟩ | ⟨hok, rfl, -⟩
    · exact absurd hdone hpc'
    · -- nothing is left to feed in the rest
      have hrest : streamData r'.dec = [] := by
        have happ := streamData_append_rest hok []
        rw [List.append_nil, List.append_nil] at happ
        exact List.append_cancel_left (happ.symm.trans (List.append_nil _).symm)
      have hbefore := h.reader hr hpc hc
      rw [hrest, hd.fed, List.length_append, hsame]
      simpa using hbefore

/-- A superseded reader fed nothing. -/
theorem digested_stale (h : w.Inbound S) {g : ℕ} {seeded : Bool} {dec : Bytes}
    (hstale : w.stale g = true) (hdec : streamData dec = []) {p : Bytes}
    (hd : w.Digested w' g seeded dec p) : w'.Inbound S := by
  have hg : w.generation ≠ g := by simpa [stale] using hstale
  have hloops : w'.loops = w.loops := by rw [hd.quiet.only]
  obtain rfl : p = [] := List.prefix_nil.1 (hdec ▸ hd.prefix_of)
  refine h.keep (by rw [hd.fed, List.append_nil]) (by rw [hd.received]; rfl)
    (fun r' conn' hr' hpc hc => ?_) (related_of_same hd.conns) fun i c loop hl _ => hloops ▸ hl
  have hgen : w'.generation = w.generation := by rw [hd.quiet.only]
  rw [hgen] at hr'
  obtain ⟨r, hr, hkept⟩ := hd.other _ r' hg hr'
  obtain ⟨a, ha, hsame⟩ := hd.conns.slot hc
  rw [hkept.conn] at ha
  rw [Conn.Same] at hsame
  exact ⟨r, a, hr, fun hdone => hpc (hkept.done hdone), ha, hkept.dec, by rw [hsame],
    by rw [hsame]⟩

/-- A superseded reader read in vain. -/
theorem vain (h : w.Inbound S) (ht : w.Tasks) {g k : ℕ} {r : Reader} (hr : w.readers[g]? = some r)
    (hstale : w.stale g = true) : ((w.takeInbox r.conn k).setReader g .done).Inbound S := by
  refine h.keep rfl rfl (fun r' conn' hr' hpc hc => ?_)
    (Slots.related_modify SameStream.refl fun conn _ => sameStream_take conn k)
    fun i c loop hl _ => hl
  obtain ⟨hr₀, hc₀⟩ := vain_current ht hr hstale hr' hc
  exact ⟨r', conn', hr₀, hpc, hc₀, rfl, rfl, rfl⟩

/-- The current reader took bytes into its decoder. -/
theorem taken (h : w.Inbound S) (hdec : w.Decoding) {g k : ℕ} {r : Reader}
    (hr : w.readers[g]? = some r) (hcur : w.stale g = false) (hpc : r.pc ≠ .done) :
    ((w.takeInbox r.conn k).decode g (r.dec ++ w.waiting r.conn k) .reading).Inbound S := by
  obtain rfl := stale_eq_false.1 hcur
  have hconns : Slots.Related SameStream w.conns (w.takeInbox r.conn k).conns :=
    Slots.related_modify SameStream.refl fun conn _ => sameStream_take conn k
  refine ⟨h.fed, h.received, fun hc => ?_, fun hc hnone => ?_, fun hl hpc' hc => ?_,
    fun {r' conn'} hr' hpc' hc => ?_⟩
  · obtain ⟨a, ha, hst, -, hfrom⟩ := hconns.slot hc
    rw [hst, hfrom]
    exact h.answered ha
  · obtain ⟨a, ha, hst, hhello, -⟩ := hconns.slot hc
    rw [hst]
    exact h.silent ha (hhello ▸ hnone)
  · obtain ⟨a, ha, -, hhello, -⟩ := hconns.slot hc
    rw [hhello]
    exact h.opening hl hpc' ha
  · obtain ⟨a, ha, rfl, rfl⟩ := taken_current hr hr' hc
    obtain ⟨fs, hfs⟩ := hdec.reader hr ha
    have hlen := h.reader_eq hr hpc ha hfs
    have hmore : Decoded (a.taken ++ a.inbox.take k) fs (r.dec ++ a.inbox.take k) := hfs.append _
    rw [hmore.streamData, List.length_append]
    show w.fed.length + (streamData (r.dec ++ a.inbox.take k)).length = a.resumeFrom +
      ((fs.flatMap Frame.payload).length + (streamData (r.dec ++ a.inbox.take k)).length)
    omega

/-- Bytes arrive, as the listener answers. -/
theorem arrived (h : w.Inbound S) {l : Label} {c : ℕ} {b : Bytes} (hact : l.act = .arrive c b)
    (hans : answers S w l = true) (harr : w.arrive c b = some w') : w'.Inbound S := by
  obtain ⟨conn, hc, hw, -⟩ := arrive_cases harr
  have hback : ∀ {c' : ℕ} {a' : Conn}, w'.conns[c']? = some a' → ∃ a, w.conns[c']? = some a ∧
      a' = if c = c' then { a with inbox := a.inbox ++ b } else a := by
    intro c' a' ha'
    rw [hw] at ha'
    exact Slots.getElem?_modify_eq_some.1 ha'
  simp only [answers, hact, hc, Bool.and_eq_true, List.isPrefixOf_iff_prefix] at hans
  obtain ⟨hhello, hstream⟩ := hans
  refine ⟨by rw [hw]; exact h.fed, by rw [hw]; exact h.received, fun {c' _} ha' => ?_,
    fun {c' _} ha' hnone => ?_, fun hl hpc ha' => ?_, fun {r conn'} hr hpc ha' => ?_⟩
  · obtain ⟨a, ha, rfl⟩ := hback ha'
    by_cases hcc : c = c'
    · subst hcc
      cases ha.symm.trans hc
      rw [if_pos rfl, ← List.append_assoc]
      exact hstream
    · rw [if_neg hcc]
      exact h.answered ha
  · obtain ⟨a, ha, rfl⟩ := hback ha'
    by_cases hcc : c = c'
    · subst hcc
      rw [if_pos rfl] at hnone
      have hsilent : a.hello = none := hnone
      cases ha.symm.trans hc
      rw [hsilent] at hhello
      cases hhello
    · rw [if_neg hcc] at hnone ⊢
      exact h.silent ha hnone
  · obtain ⟨a, ha, rfl⟩ := hback ha'
    have hloops : w'.loops = w.loops := by rw [hw]
    have hnone : a.hello = none := h.opening (hloops ▸ hl) hpc ha
    split_ifs
    · exact hnone
    · exact hnone
  · obtain ⟨a, ha, rfl⟩ := hback ha'
    have hreaders : w'.readers[w'.generation]? = w.readers[w.generation]? := by rw [hw]
    have hfed : w'.fed = w.fed := by rw [hw]
    have hlen := h.reader (hreaders ▸ hr) hpc ha
    rw [hfed]
    split_ifs
    · exact hlen
    · exact hlen

/-- What a quiet step keeps. -/
theorem hear (h : w.Inbound S) (hdec : w.Decoding) (ht : w.Tasks) {l : Label} (hq : w.Quiet w')
    (hans : answers S w l = true) (hstep : resumesInStep w l = true)
    (hwhole : startsWhole w l = true) (hh : HearStep w l w') : w'.Inbound S := by
  cases hh with
  | still hact hs => exact h.still hq hs
  | arrived c b hact harr => exact h.arrived hact hans harr
  | vain g k r hr hstale => exact h.vain ht hr hstale
  | seeded g r hact hr hpc hd =>
    cases hstale : w.stale g with
    | false =>
      exact h.digested hdec hr rfl hstale (by simp [hpc]) ht hd fun _ =>
        Decoding.whole_of_startsWhole hwhole hact hr hpc hstale
    | true =>
      have hnil : streamData r.dec = [] := by
        simp only [resumesInStep, hact, hr, hpc, hstale, Option.all_some, ne_eq, not_true_eq_false,
          decide_false, Bool.not_true, Bool.false_or, Bool.and_eq_true, decide_eq_true_eq] at hstep
        exact hstep.2
      exact h.digested_stale hstale hnil hd
  | read g k r hr hpc hcur hd =>
    have hlive : r.pc ≠ .done := by simp [hpc]
    have htook : ((w.takeInbox r.conn k).decode g (r.dec ++ w.waiting r.conn k) .reading).readers[g]? =
        some { r with dec := r.dec ++ w.waiting r.conn k, pc := .reading } :=
      Slots.getElem?_modify_eq_some.2 ⟨r, hr, (if_pos rfl).symm⟩
    have hquiet := (w.quiet_takeInbox r.conn k).trans
      (quiet_decode _ g (r.dec ++ w.waiting r.conn k) .reading)
    exact (h.taken hdec hr hcur hlive).digested (hdec.taken ht hr hcur) htook rfl hcur
      (by simp) (ht.quiet hquiet) hd nofun

/-! ## Steps -/

theorem writerStep (h : w.Inbound S) {a : Action} {g : ℕ} {t : Writer} {n : Next}
    (hw : WriterStep w a g t w' n) : w'.Inbound S := by
  have hwire : ∀ fs : List Bytes, Slots.Related SameStream w.conns
      (w.conns.modify t.conn fun conn => { conn with wire := conn.wire ++ fs }) := fun _ =>
    Slots.related_modify SameStream.refl fun _ _ => ⟨rfl, rfl, rfl⟩
  have hread : ∀ fs : List Bytes, Slots.Related
      (fun a b : Conn => b.taken = a.taken ∧ b.resumeFrom = a.resumeFrom) w.conns
      (w.conns.modify t.conn fun conn => { conn with wire := conn.wire ++ fs }) := fun _ =>
    Slots.related_modify (fun _ => ⟨rfl, rfl⟩) fun _ _ => ⟨rfl, rfl⟩
  cases hw with
  | parked => exact { h with }
  | done n hn => exact { h with }
  | pieces fs =>
    exact h.keep rfl rfl (sameReader_of_kept rfl (.refl Reader.Kept.refl _) (hread fs)) (hwire fs)
      fun i c loop hl _ => hl
  | round hcur hlive hpend hb =>
    obtain ⟨fs, pc, -, hcs, -⟩ := hb.wire
    have hloops : w'.loops = w.loops := by rw [hb.only]
    refine h.keep (by rw [hb.only]) (by rw [hb.only]) (sameReader_of_kept (by rw [hb.only]) ?_ ?_)
      (by rw [hcs]; exact hwire fs) fun i c loop hl _ => hloops ▸ hl
    · rw [hb.only]
      exact .refl Reader.Kept.refl _
    · rw [hcs]
      exact hread fs

/-- What the connections deliver, as it was. -/
theorem stream (h : w.Inbound S) (hconns : Slots.Related SameStream w.conns w'.conns) (c : ℕ)
    (conn' : Conn) (hc : w'.conns[c]? = some conn') :
    streamData (conn'.taken ++ conn'.inbox) <+: S.drop conn'.resumeFrom ∧
      (conn'.hello = none → conn'.taken ++ conn'.inbox = []) := by
  obtain ⟨a, ha, hst, hhello, hfrom⟩ := hconns.slot hc
  rw [hst, hhello, hfrom]
  exact ⟨h.answered ha, h.silent ha⟩

/-- A connection is installed that was asked for what comes next: what came ahead of the reply is
fed, and its reader has the rest in its decoder. -/
theorem spawn (h : w.Inbound S) (ht : w.Tasks) (hno : w.NoLoop) {c : ℕ} {conn : Conn}
    (hconn : w.conns[c]? = some conn) {fs : List Frame} {dec : Bytes}
    (hdec : Decoded conn.taken fs dec) (hfrom : conn.resumeFrom = w.received) {v : World}
    (hv : v = { w.adopt c with core := v.core, received := v.received, fed := v.fed })
    (hfed : v.fed = w.fed ++ fs.flatMap Frame.payload)
    (hreceived : v.received = w.received + (fs.flatMap Frame.payload).length) (tail : Bytes) :
    (v.spawnTasks c dec tail).Inbound S := by
  have hback : ∀ {j : ℕ} {a' : Conn}, v.conns[j]? = some a' → ∃ a, w.conns[j]? = some a ∧
      a'.taken = a.taken ∧ a'.inbox = a.inbox ∧ a'.hello = a.hello ∧
      a'.resumeFrom = a.resumeFrom := by
    intro j a' ha'
    rw [hv] at ha'
    obtain ⟨a, ha, rfl⟩ := Slots.getElem?_modify_eq_some.1 ha'
    exact ⟨a, ha, by split_ifs <;> exact ⟨rfl, rfl, rfl, rfl⟩⟩
  have hpay : fs.flatMap Frame.payload <+: S.drop conn.resumeFrom := by
    refine List.IsPrefix.trans ?_ (( streamData_prefix _ conn.inbox).trans (h.answered hconn))
    rw [hdec.streamData]
    exact List.prefix_append _ _
  have hjoined : Resume.Joined conn.resumeFrom [] w.fed S :=
    Resume.Joined.restart h.fed (by rw [hfrom, h.received])
  have hpush := hjoined.push (b := fs.flatMap Frame.payload) hpay
  have hgen : v.generation = w.generation + 1 := by rw [hv]; rfl
  have hreaders : v.readers = w.readers := by rw [hv]; rfl
  have hloops : v.loops = w.loops := by rw [hv]; rfl
  refine ⟨?_, ?_, fun hc => ?_, fun hc hnone => ?_, fun hl hpc hc => ?_, fun {r a'} hr hpc hc => ?_⟩
  · have hfed' : (v.spawnTasks c dec tail).fed = w.fed ++ fs.flatMap Frame.payload := hfed
    rw [hfed']
    exact hpush.prefix_of
  · have hreceived' : v.received = v.fed.length := by
      rw [hreceived, hfed, h.received, List.length_append]
    exact hreceived'
  · obtain ⟨a, ha, htaken, hinbox, -, hfrom'⟩ := hback hc
    rw [htaken, hinbox, hfrom']
    exact h.answered ha
  · obtain ⟨a, ha, htaken, hinbox, hhello, -⟩ := hback hc
    rw [htaken, hinbox]
    exact h.silent ha (hhello ▸ hnone)
  · have hdone := hno _ _ (hloops ▸ hl)
    rw [hpc] at hdone
    cases hdone
  · rcases Slots.getElem?_concat_eq_some.1 hr with hr | ⟨-, rfl⟩
    · have hlt : v.generation < v.readers.length := (List.getElem?_eq_some_iff.1 hr).1
      rw [hgen, hreaders, ht.readers_length] at hlt
      exact absurd hlt (Nat.lt_irrefl _)
    · obtain ⟨a, ha, htaken, -, -, hfrom'⟩ := hback hc
      cases hconn.symm.trans ha
      have hlen : v.fed.length = conn.resumeFrom + (fs.flatMap Frame.payload).length := by
        rw [hfed, List.length_append, hfrom, h.received]
      have hstream : (streamData conn.taken).length =
          (fs.flatMap Frame.payload).length + (streamData dec).length := by
        rw [hdec.streamData, List.length_append]
      rw [htaken, hfrom', hstream]
      show v.fed.length + (streamData dec).length = _
      omega

/-- A resume moved on; only the connection it holds has changed. -/
theorem setLoop (h : w.Inbound S) (ht : w.Tasks) {i : ℕ} {loop loop' : Loop}
    (hloop : w.loops[i]? = some loop) (hlive : loop.pc ≠ .done) (hw : w' = { w with
      conns := w'.conns, hellos := w'.hellos, replay := w'.replay, loops := w.loops.set i loop' })
    (hstream : ∀ (c : ℕ) (conn' : Conn), w'.conns[c]? = some conn' →
      streamData (conn'.taken ++ conn'.inbox) <+: S.drop conn'.resumeFrom ∧
        (conn'.hello = none → conn'.taken ++ conn'.inbox = []))
    (hread : ∀ (c : ℕ) (conn conn' : Conn), w.conns[c]? = some conn → w'.conns[c]? = some conn' →
      loop.pc.conn ≠ some c → conn'.taken = conn.taken ∧ conn'.resumeFrom = conn.resumeFrom)
    (hopening : ∀ (c : ℕ) (conn : Conn), loop'.pc = .opening c → w'.conns[c]? = some conn →
      conn.hello = none) : w'.Inbound S := by
  have hreaders : w'.readers[w'.generation]? = w.readers[w.generation]? := by rw [hw]
  have hfed : w'.fed = w.fed := by rw [hw]
  refine ⟨hfed ▸ h.fed, by rw [hfed, hw]; exact h.received, fun hc => (hstream _ _ hc).1,
    fun hc => (hstream _ _ hc).2, fun hl hpc hc => ?_, fun {r conn'} hr hpc hc => ?_⟩
  · -- no other resume is alive
    have hloops : w'.loops = w.loops.set i loop' := by rw [hw]
    rw [hloops] at hl
    rcases Slots.getElem?_set_eq_some hl with ⟨-, rfl⟩ | ⟨hji, hl⟩
    · exact hopening _ _ hpc hc
    · exact absurd (ht.alone hl (by rw [hpc]; exact fun h => by cases h) hloop hlive) hji
  · rw [hreaders] at hr
    obtain ⟨a, ha, -⟩ := ht.reader hr
    obtain ⟨htaken, hfrom⟩ := hread _ _ _ ha hc fun hheld =>
      Decoding.ne_held ht hr hloop hheld rfl
    rw [hfed, htaken, hfrom]
    exact h.reader hr hpc ha

/-- The condition speaks of the connection that the step installs. -/
theorem resumeFrom_eq {l : Label} (hstep : resumesInStep w l = true) {i c k : ℕ} {loop : Loop}
    {dec dec' tail : Bytes} {deferred deferred' : List Bytes} {p : UInt64} {conn : Conn}
    (hact : l.act = .loopRead i k) (hloop : w.loops[i]? = some loop)
    (hpc : loop.pc = .replying c dec deferred)
    (hshake : handshakeFrames (dec ++ w.waiting c k) deferred =
      .reply (.resumed p) deferred' dec')
    (htail : w.replay.tailFrom w.usize p.toNat = some tail)
    (hlive : w.abandoned loop.generation = false) (hconn : w.conns[c]? = some conn) :
    conn.resumeFrom = w.received := by
  have hinstalls := installs_eq hact hloop hpc hshake htail hlive
  simp only [resumesInStep, hinstalls, hconn, Option.all_some, Bool.and_eq_true,
    decide_eq_true_eq] at hstep
  exact hstep.1

theorem loopStep (h : w.Inbound S) (hdec : w.Decoding) (ht : w.Tasks) {l : Label} {i : ℕ}
    {loop : Loop} {n : Next} (hloop : w.loops[i]? = some loop) (hlive : loop.pc ≠ .done)
    (hstep : resumesInStep w l = true) (hl : LoopStep w l.act i loop w' n) : w'.Inbound S := by
  -- changes of the one connection it holds
  have hmodify : ∀ {c : ℕ} {f : Conn → Conn}, loop.pc.conn = some c →
      ∀ (c' : ℕ) (conn conn' : Conn), w.conns[c']? = some conn →
      (w.conns.modify c f)[c']? = some conn' → loop.pc.conn ≠ some c' →
      conn'.taken = conn.taken ∧ conn'.resumeFrom = conn.resumeFrom := by
    intro c f hheld c' conn conn' hc hc' hne
    obtain ⟨a, ha, rfl⟩ := Slots.getElem?_modify_eq_some.1 hc'
    cases hc.symm.trans ha
    rw [if_neg (by rintro rfl; exact hne hheld)]
    exact ⟨rfl, rfl⟩
  cases hl with
  | letGo c f n hw hc hf hread hgap hconns hpc hn hgen hover =>
    rename_i loop' conns
    have hsame : Slots.Related SameStream w.conns (w.conns.modify c f) :=
      Slots.related_modify SameStream.refl fun conn _ =>
        ⟨hread conn, by rw [hf conn], by rw [hf conn]⟩
    have hrel : Slots.Related SameStream w.conns w'.conns := by
      rw [hw]
      exact hsame.trans SameStream.trans (related_of_same hconns)
    refine h.setLoop ht hloop hlive (by rw [hw]; rfl) (h.stream hrel)
      (fun c' conn conn' ha ha' hne => ?_) fun c' conn hpc' _ => ?_
    · rw [hw] at ha'
      obtain ⟨b, hb, hs⟩ := hconns.slot ha'
      rw [Conn.Same] at hs
      rcases hc with hc | rfl
      · rw [hs]
        exact hmodify hc c' conn b ha hb hne
      · rw [List.modify_id] at hb
        cases ha.symm.trans hb
        rw [hs]
        exact ⟨rfl, rfl⟩
    · rw [hpc'] at hpc
      cases hpc
  | dialed conn hw hconn hpc hgen hover =>
    have hback : ∀ {c' : ℕ} {a' : Conn}, w'.conns[c']? = some a' →
        w.conns[c']? = some a' ∨ (c' = w.conns.length ∧ a' = conn) := by
      intro c' a' ha'
      rw [hw] at ha'
      exact Slots.getElem?_concat_eq_some.1 ha'
    refine h.setLoop ht hloop hlive (by rw [hw]; rfl) (fun c' a' ha' => ?_)
      (fun c' a a' ha ha' _ => ?_) fun c' a hpc' ha => ?_
    · rcases hback ha' with ha | ⟨-, rfl⟩
      · exact ⟨h.answered ha, h.silent ha⟩
      · rw [hconn]
        exact ⟨List.nil_prefix, fun _ => rfl⟩
    · rcases hback ha' with ha' | ⟨hlen, -⟩
      · cases ha.symm.trans ha'
        exact ⟨rfl, rfl⟩
      · have hlt := (List.getElem?_eq_some_iff.1 ha).1
        exact absurd hlt (by omega)
    · rcases hpc with hpc | hpc
      · rw [hpc'] at hpc
        cases hpc
      · rw [hpc'] at hpc
        cases hpc
        rcases hback ha with ha | ⟨-, rfl⟩
        · have hlt := (List.getElem?_eq_some_iff.1 ha).1
          exact absurd hlt (by omega)
        · rw [hconn]
  | opened c hw hc hpc hgen =>
    have hheld : loop.pc.conn = some c := by rw [hc]; rfl
    refine h.setLoop ht hloop hlive (by rw [hw]; rfl) (fun c' a' ha' => ?_)
      (fun c' a a' ha ha' => hmodify hheld c' a a' ha (by rw [hw] at ha'; exact ha'))
      fun c' a hpc' _ => ?_
    · rw [hw] at ha'
      obtain ⟨a, ha, rfl⟩ := Slots.getElem?_modify_eq_some.1 ha'
      by_cases hcc : c = c'
      · subst hcc
        -- nothing has arrived on it before its hello
        have hnil : a.taken ++ a.inbox = [] := h.silent ha (h.opening hloop hc ha)
        rw [if_pos rfl]
        refine ⟨?_, fun hnone => by cases hnone⟩
        dsimp only
        rw [hnil]
        exact List.nil_prefix
      · rw [if_neg hcc]
        exact ⟨h.answered ha, h.silent ha⟩
    · rw [hpc'] at hpc
      cases hpc
  | helloed c hw hc hpc hgen =>
    refine h.setLoop ht hloop hlive (by rw [hw]; rfl) ?_ (fun c' a a' ha ha' _ => ?_)
      fun c' a hpc' _ => ?_
    · rw [hw]
      exact fun c' a ha => ⟨h.answered ha, h.silent ha⟩
    · rw [hw] at ha'
      cases ha.symm.trans ha'
      exact ⟨rfl, rfl⟩
    · rw [hpc'] at hpc
      cases hpc
  | more c k hw hc hshake hpc hgen =>
    have hheld : loop.pc.conn = some c := by rw [hc]; rfl
    have hrel : Slots.Related SameStream w.conns w'.conns := by
      rw [hw]
      exact Slots.related_modify SameStream.refl fun conn _ => sameStream_take conn k
    refine h.setLoop ht hloop hlive (by rw [hw]; rfl) (h.stream hrel)
      (fun c' a a' ha ha' => hmodify hheld c' a a' ha (by rw [hw] at ha'; exact ha'))
      fun c' a hpc' _ => ?_
    rw [hpc'] at hpc
    cases hpc
  | installed c k p hc hshake htail hlive' hact hinst =>
    rename_i dec dec' tail deferred deferred' moves
    have hheld : loop.pc.conn = some c := by rw [hc]; rfl
    obtain ⟨conn, hconn, hnone⟩ := ht.held hloop hheld
    obtain ⟨hover, hno⟩ := ht.resumed hloop hlive c k p.toNat
    obtain ⟨fs, hfs, hdef, -⟩ := hdec.takes hloop hc hconn (takes_of_reply hshake)
    have hfrom : conn.resumeFrom = w.received :=
      resumeFrom_eq hstep hact hloop hc hshake htail hlive' hconn
    have htwice : ((w.takeInbox c k).resumed i loop c p.toNat).conns =
        w.conns.modify c fun conn => { conn with
          inbox := conn.inbox.drop k
          taken := conn.taken ++ conn.inbox.take k
          peerReceived := p.toNat } := List.modify_modify_eq _ _ _ _
    have hpast : ((w.takeInbox c k).resumed i loop c p.toNat).Inbound S := by
      have hrel : Slots.Related SameStream w.conns
          ((w.takeInbox c k).resumed i loop c p.toNat).conns := by
        rw [htwice]
        exact Slots.related_modify SameStream.refl fun conn _ => sameStream_take conn k
      refine h.setLoop ht hloop hlive rfl (h.stream hrel) (fun c' a a' ha ha' => ?_)
        fun c' a hpc' _ => by cases hpc'
      rw [htwice] at ha'
      exact hmodify hheld c' a a' ha ha'
    obtain ⟨v, -, hv, hfed, hreceived, hdrove⟩ := install_cases hinst
    rw [hdef] at hfed hreceived
    have hspawn : (v.spawnTasks c dec' tail).Inbound S :=
      hpast.spawn hover hno (Tasks.getElem?_conns_resumed hconn) hfs hfrom hv hfed hreceived tail
    exact hspawn.still hdrove.quiet hdrove.still

theorem piece (h : w.Inbound S) (hdec : w.Decoding) (ht : w.Tasks) {l : Label} {n : Next}
    (hans : answers S w l = true) (hstep : resumesInStep w l = true)
    (hwhole : startsWhole w l = true) (hpiece : w.piece l = some (w', n)) : w'.Inbound S := by
  rcases piece_cases hpiece with ⟨hact, hq, -⟩ | ⟨g, t, hg, hw⟩ | ⟨i, loop, hloop, hlive, hl⟩ |
    ⟨-, rfl, -⟩
  · exact h.hear hdec ht hq hans hstep hwhole (hear_cases ht.framed hact hpiece)
  · exact h.writerStep hw
  · exact h.loopStep hdec ht hloop hlive hstep hl
  · have hsame : w.wake = { w with
        writerSignal := w.wake.writerSignal
        resuming := w.wake.resuming
        suspended := w.wake.suspended
        stalled := w.wake.stalled
        lastInboundMs := w.wake.lastInboundMs
        pingOutstanding := w.wake.pingOutstanding
        pingDue := w.wake.pingDue
        loops := w.wake.loops } := by
      unfold wake
      dsimp only
      split_ifs <;> rfl
    have hloops : ∀ (i c : ℕ) (loop : Loop), w.wake.loops[i]? = some loop →
        loop.pc = .opening c → w.loops[i]? = some loop := by
      intro i c loop hl hpc
      rcases w.wake_cases with hq | ⟨-, -, -, -, heq⟩
      · rwa [hq.only] at hl
      · rw [heq] at hl
        rcases Slots.getElem?_concat_eq_some.1 hl with hl | ⟨-, rfl⟩
        · exact hl
        · cases hpc
    refine h.keep (by rw [hsame]) (by rw [hsame]) ?_ ?_ hloops
    · intro r' conn' hr' hpc hc
      rw [hsame] at hr' hc
      exact ⟨r', conn', hr', hpc, hc, rfl, rfl, rfl⟩
    · rw [hsame]
      exact .refl SameStream.refl _

/-- The resumes change, and with them at most whether a connection is closed. -/
theorem loops (h : w.Inbound S) (hw : w' = { w with
      resuming := w'.resuming, stalled := w'.stalled, linkDown := w'.linkDown
      closeKind := w'.closeKind, closedByWire := w'.closedByWire, dials := w'.dials
      conns := w'.conns, loops := w'.loops })
    (hconns : Slots.Related Conn.Same w.conns w'.conns)
    (hloops : ∀ (i c : ℕ) (loop : Loop), w'.loops[i]? = some loop → loop.pc = .opening c →
      w.loops[i]? = some loop) : w'.Inbound S := by
  refine h.keep (by rw [hw]) (by rw [hw]) (sameReader_of_kept (by rw [hw]) ?_ ?_)
    (related_of_same hconns) hloops
  · rw [hw]
    exact .refl Reader.Kept.refl _
  · exact ⟨hconns.length_eq, fun hc =>
      let ⟨a, ha, hsame⟩ := hconns.slot hc
      ⟨a, ha, by rw [Conn.Same] at hsame; rw [hsame]; exact ⟨rfl, rfl⟩⟩⟩

theorem topStep (h : w.Inbound S) {i : ℕ} {r : Option String} (ht : w.TopStep i w' r) :
    w'.Inbound S := by
  have hset : ∀ {v : World} {loop : Loop}, loop.pc.conn = none → v = { w with
      resuming := v.resuming, stalled := v.stalled, dials := v.dials
      loops := w.loops.set i loop } → v.Inbound S := by
    intro v loop hpc hv
    refine h.loops (by rw [hv]) (by rw [hv]; exact .refl Conn.Same.refl _) fun j c l hl hopen => ?_
    rw [hv] at hl
    rcases Slots.getElem?_set_eq_some hl with ⟨-, rfl⟩ | ⟨-, hl⟩
    · rw [hopen] at hpc
      cases hpc
    · exact hl
  cases ht with
  | gone hgone => exact h
  | ended r hpc hold hgen hover => exact hset (by rw [hpc]; rfl) rfl
  | standDown hpc hold hgen hgoing haway => exact hset (by rw [hpc]; rfl) rfl
  | dial hpc hold hgen hgoing => exact hset (by rw [hpc]; rfl) rfl

theorem settle (h : w.Inbound S) (n : Next) : (w.settle n).1.Inbound S := by
  refine settle_rule (P := fun v => v.Inbound S) h n { h with } (fun g => ?_)
    fun hv htop => hv.topStep htop
  have hclose : Slots.Related Conn.Same w.conns (w.startLoop g).conns :=
    same_closeConn w.conns w.conn
  refine h.loops rfl hclose fun j c l hl hopen => ?_
  rcases Slots.getElem?_concat_eq_some.1 hl with hl | ⟨-, rfl⟩
  · exact hl
  · cases hopen

/-- **A step keeps the invariant**, if the listener answers, the core is fed nothing twice, and nothing
is lost. -/
theorem step (h : w.Inbound S) (hdec : w.Decoding) (ht : w.Tasks) {l : Label}
    (hans : answers S w l = true) (hin : resumesInStep w l = true)
    (hwhole : startsWhole w l = true) (hstep : w.step l = some w') : w'.Inbound S := by
  obtain ⟨v, n, hpiece, hsettle⟩ := step_cases hstep
  have hs := (h.piece hdec ht hans hin hwhole hpiece).settle n
  rcases hsettle with ⟨-, rfl⟩ | ⟨reason, -, hdie⟩
  · exact hs
  · rcases still_declareDead hdie with heq | ⟨hq, hstill⟩
    · rwa [heq]
    · have hmark : (v.settle n).1.markDead.Inbound S := { hs with }
      exact hmark.still hq hstill

end Inbound

/-- A session begins with what came ahead of the reply. -/
theorem Begun.inbound {d : Dial} {v : World} {fs : List Frame} {dec : Bytes}
    (h : Begun d v fs dec) (harrived : streamData d.arrived <+: S) : v.Inbound S := by
  obtain ⟨hello, hfirst⟩ := h.conn_eq
  have hstream := h.decoded.streamData
  refine ⟨?_, h.received, fun hc => ?_, fun hc hnone => ?_, fun {i c loop} _ hl => ?_,
    fun {r conn} hr _ hc => ?_⟩
  · rw [h.fed]
    rw [hstream] at harrived
    exact (List.prefix_append _ _).trans harrived
  · rw [hfirst hc]
    simpa using harrived
  · rw [hfirst hc] at hnone
    cases hnone
  · rw [h.loops] at hl
    cases hl
  · rw [h.readers] at hr
    obtain ⟨-, rfl⟩ := Slots.getElem?_singleton_eq_some hr
    rw [hfirst hc, h.fed, hstream]
    simp

end World

/-! ## Runs -/

/-- **The inbound stream of a session with frames.** If the listener answers with its stream `S`,
then along steps that feed the core nothing twice, and at which no reader begins with a part of a
frame, what the core was fed is an initial part of `S`, and the receive counter is its length.

**Proof sketch.** The invariant `World.Inbound` holds initially and is kept by every such step, next
to `World.Tasks` and `World.Decoding`. -/
theorem fed_prefix [Postcard] {S : Bytes} {d : Dial} (hframed : d.proto.framed = true)
    (harrived : streamData d.arrived <+: S) {moves : List SshCore.Action} {w₀ w : World}
    (hconn : World.connect d moves = some w₀) {ls : List Label}
    (hrun : Run.run World.step w₀ ls = some w)
    (hans : Run.Along World.step (fun w l => answers S w l = true) w₀ ls)
    (hin : Run.Along World.step (fun w l => resumesInStep w l = true) w₀ ls)
    (hwhole : Run.Along World.step (fun w l => startsWhole w l = true) w₀ ls) :
    w.fed <+: S ∧ w.received = w.fed.length := by
  obtain ⟨v, fs, dec, hbegun, hdrove⟩ := World.begun_connect hframed hconn
  have hall : w.Tasks ∧ w.Decoding ∧ w.Inbound S := by
    refine Run.run_inv (P := fun w => w.Tasks ∧ w.Decoding ∧ w.Inbound S) ?_
      ⟨World.tasks_connect hframed hconn, World.decoding_connect hframed hconn,
        (hbegun.inbound harrived).still hdrove.quiet hdrove.still⟩ ((hans.and hin).and hwhole) hrun
    rintro u l u' ⟨ht, hdec, hu⟩ ⟨⟨ha, hi⟩, hw⟩ hstep
    exact ⟨ht.step hstep, hdec.step ht hw hstep, hu.step hdec ht ha hi hw hstep⟩
  exact ⟨hall.2.2.fed, hall.2.2.received⟩

/-- The inbound stream as it should be, along every run. -/
def InboundIntact [Postcard] : Prop :=
  ∀ (S : Bytes) (d : Dial) (moves : List SshCore.Action) (w₀ w : World) (ls : List Label),
    d.proto.framed = true → streamData d.arrived <+: S → World.connect d moves = some w₀ →
    Run.run World.step w₀ ls = some w →
    Run.Along World.step (fun w l => answers S w l = true) w₀ ls →
    w.fed <+: S ∧ w.received = w.fed.length

/-- A byte arrives, and then a write fails, so that the session dials again. -/
def losesWrite : List Label :=
  [⟨.pollReader 0, [], []⟩, ⟨.pollWriter 0, [], []⟩, ⟨.arrive 0 (encodeData [1]), [], []⟩,
    ⟨.tickCore .pump, [.connWrite [9]], []⟩, ⟨.pollWriter 0, [], []⟩, ⟨.wrote 0 false, [], []⟩,
    ⟨.dialed 0 true, [], []⟩]

/-- The old reader gets the byte. -/
def readsLate : List Label := [⟨.read 0 64, [], []⟩]

/-- The resume says hello. -/
def saysHello : List Label := [⟨.opened 0 true, [], []⟩]

/-- It gets its reply and then `b`, and the new reader is polled. -/
def resumesWith (b : Bytes) : List Label :=
  [⟨.helloed 0 true, [], []⟩,
    ⟨.arrive 1 (@encodeReply Postcard.golden (.resumed 0) ++ encodeData b), [], []⟩,
    ⟨.loopRead 0 64, [], []⟩, ⟨.pollReader 1, [], []⟩]

/-- A byte that the old reader feeds after the hello is fed once more by the new one. -/
theorem not_inboundIntact : ¬ @InboundIntact Postcard.golden := by
  intro h
  have hrun : ∃ w₀ w, @World.connect Postcard.golden sampleDial [] = some w₀ ∧
      @Run.run _ _ (@World.step Postcard.golden) w₀
        (losesWrite ++ saysHello ++ readsLate ++ resumesWith [1]) = some w ∧
      @Run.Along _ _ (@World.step Postcard.golden)
        (fun w l => @answers Postcard.golden [1] w l = true) w₀
        (losesWrite ++ saysHello ++ readsLate ++ resumesWith [1]) ∧
      w.fed = [1, 1] :=
    ⟨_, _, rfl, rfl, by decide, rfl⟩
  obtain ⟨w₀, w, h₀, hw, hans, hfed⟩ := hrun
  have hfed' := (h [1] _ _ w₀ w _ rfl (by decide) h₀ hw hans).1
  rw [hfed] at hfed'
  exact absurd hfed' (by decide)

/-- A session whose old reader gets the byte before the hello: the run to which `fed_prefix` is
applied. -/
theorem fed_prefix_early :
    ∃ w₀ w, @World.connect Postcard.golden sampleDial [] = some w₀ ∧
      @Run.run _ _ (@World.step Postcard.golden) w₀
        (losesWrite ++ readsLate ++ saysHello ++ resumesWith [2]) = some w ∧
      w.fed <+: [1, 2, 3] ∧ w.fed = [1, 2] :=
  ⟨_, _, rfl, rfl, (@ fed_prefix Postcard.golden [1, 2, 3] sampleDial rfl (by decide) [] _ _ rfl
    (losesWrite ++ readsLate ++ saysHello ++ resumesWith [2]) rfl (by decide) (by decide)
    (by decide)).1, rfl⟩

end Client
