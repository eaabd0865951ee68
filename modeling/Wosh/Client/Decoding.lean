import Wosh.Client.Hearing

set_option relaxedAutoImplicit false
set_option autoImplicit false

/-!
# The decoders of a session

What is left in the decoder of the current reader, and in that of a handshake, is what was read
from the connection without the frames that were taken off it.

## Main definitions

* `Client.Takes` — a handshake took some frames off its decoder.
* `Client.startsWhole` — a reader that begins loses no part of a frame.
* `Client.World.Decoding` — the invariant of the decoders.

## Main results

* `Client.World.Decoding.step` — a step keeps it, if a reader that begins loses nothing.
-/

namespace Client

open Tunnel

/-! ## Handshakes -/

/-- A handshake that has `dec` in its decoder goes on with `dec'`: it took frames off it, none of them
a ping, and deferred the payloads of those. -/
def Takes [Postcard] (dec : Bytes) (deferred : List Bytes) (dec' : Bytes)
    (deferred' : List Bytes) : Prop :=
  ∃ fs, (∀ stream fs₀, Decoded stream fs₀ dec → Decoded stream (fs₀ ++ fs) dec') ∧
    deferred'.flatten = deferred.flatten ++ fs.flatMap Frame.payload ∧ pingsOf fs = []

section Handshakes

variable [Postcard]

theorem takes_refl (dec : Bytes) (deferred : List Bytes) : Takes dec deferred dec deferred :=
  ⟨[], fun stream fs₀ h => by rwa [List.append_nil], by simp, rfl⟩

/-- One frame, and then more of them. -/
theorem Takes.cons {dec rest dec' : Bytes} {deferred deferred₁ deferred' : List Bytes} {f : Frame}
    (h : Takes rest deferred₁ dec' deferred') (hf : nextFrame dec = .ok (some (f, rest)))
    (hdef : deferred₁.flatten = deferred.flatten ++ f.payload) (hping : f.ping? = none) :
    Takes dec deferred dec' deferred' := by
  obtain ⟨fs, hleft, hpay, hpings⟩ := h
  refine ⟨f :: fs, fun stream fs₀ hdec => ?_, ?_, ?_⟩
  · have hitem : Decoded stream (fs₀ ++ [f]) rest := hdec.item nextFrame_framing hf
    have happ := hleft stream _ hitem
    rwa [List.append_assoc] at happ
  · rw [hpay, hdef, List.flatMap_cons, List.append_assoc]
  · rw [pingsOf, List.filterMap_cons_none hping]
    exact hpings

/-- What a handshake does with its decoder. -/
theorem takes_handshakeUpTo (n : ℕ) (dec : Bytes) (deferred : List Bytes) :
    (∀ dec' deferred', handshakeUpTo n dec deferred = .more dec' deferred' →
      Takes dec deferred dec' deferred') ∧
    ∀ r dec' deferred', handshakeUpTo n dec deferred = .reply r deferred' dec' →
      Takes dec deferred dec' deferred' := by
  induction n generalizing dec deferred with
  | zero =>
    refine ⟨fun dec' deferred' h => ?_, fun r dec' deferred' h => ?_⟩
    · cases h
      exact takes_refl dec deferred
    · cases h
  | succ n ih =>
    unfold handshakeUpTo
    cases hnext : nextFrame dec with
    | error e => exact ⟨fun _ _ h => (by cases h), fun _ _ _ h => (by cases h)⟩
    | ok o =>
      cases o with
      | none =>
        refine ⟨fun dec' deferred' h => ?_, fun _ _ _ h => (by cases h)⟩
        cases h
        exact takes_refl dec deferred
      | some p =>
        obtain ⟨f, rest⟩ := p
        cases f with
        | reply r =>
          refine ⟨fun _ _ h => (by cases h), fun r' dec' deferred' h => ?_⟩
          cases h
          exact (takes_refl rest deferred).cons hnext (by simp [Frame.payload]) rfl
        | data payload =>
          refine ⟨fun dec' deferred' h => ?_, fun r dec' deferred' h => ?_⟩
          · exact ((ih rest _).1 dec' deferred' h).cons hnext (by simp [Frame.payload]) rfl
          · exact ((ih rest _).2 r dec' deferred' h).cons hnext (by simp [Frame.payload]) rfl
        | ack m =>
          refine ⟨fun dec' deferred' h => ?_, fun r dec' deferred' h => ?_⟩
          · exact ((ih rest _).1 dec' deferred' h).cons hnext (by simp [Frame.payload]) rfl
          · exact ((ih rest _).2 r dec' deferred' h).cons hnext (by simp [Frame.payload]) rfl
        | hello _ => exact ⟨fun _ _ h => (by cases h), fun _ _ _ h => (by cases h)⟩
        | ping _ => exact ⟨fun _ _ h => (by cases h), fun _ _ _ h => (by cases h)⟩
        | pong _ => exact ⟨fun _ _ h => (by cases h), fun _ _ _ h => (by cases h)⟩

theorem takes_of_more {dec dec' : Bytes} {deferred deferred' : List Bytes}
    (h : handshakeFrames dec deferred = .more dec' deferred') : Takes dec deferred dec' deferred' :=
  (takes_handshakeUpTo _ dec deferred).1 dec' deferred' h

theorem takes_of_reply {dec dec' : Bytes} {deferred deferred' : List Bytes} {r : HelloReply}
    (h : handshakeFrames dec deferred = .reply r deferred' dec') :
    Takes dec deferred dec' deferred' :=
  (takes_handshakeUpTo _ dec deferred).2 r dec' deferred' h

end Handshakes

/-! ## The invariant -/

/-- A reader that is current when it is first polled finds no part of a frame at the end of the decoder
it was spawned with. -/
def startsWhole [Postcard] (w : World) (l : Label) : Bool :=
  match l.act with
  | .pollReader g => (w.readers[g]?).all fun r => r.pc ≠ .seeded || w.stale g || World.whole r.dec
  | _ => true

/-- A connection from which nothing more was read. -/
def Conn.Unread (conn conn' : Conn) : Prop := conn'.taken = conn.taken

theorem Conn.Unread.refl (conn : Conn) : conn.Unread conn := rfl

theorem Conn.Unread.trans {conn conn' conn'' : Conn} (h : conn.Unread conn')
    (h' : conn'.Unread conn'') : conn.Unread conn'' := Eq.trans h' h

theorem Conn.Same.unread {conn conn' : Conn} (h : conn.Same conn') : conn.Unread conn' := by
  rw [Conn.Same] at h
  rw [Conn.Unread, h]

theorem Conn.related_unread {l l' : List Conn} (h : Slots.Related Conn.Same l l') :
    Slots.Related Conn.Unread l l' :=
  ⟨h.length_eq, fun hc =>
    let ⟨a, ha, hsame⟩ := h.slot hc
    ⟨a, ha, hsame.unread⟩⟩

namespace World

/-- The invariant of the decoders. -/
structure Decoding [Postcard] (w : World) : Prop where
  reader : ∀ {r : Reader} {conn : Conn}, w.readers[w.generation]? = some r →
    w.conns[r.conn]? = some conn → ∃ fs, Decoded conn.taken fs r.dec
  /-- A handshake has deferred the payloads of the frames it took. -/
  replying : ∀ {i c : ℕ} {loop : Loop} {dec : Bytes} {deferred : List Bytes} {conn : Conn},
    w.loops[i]? = some loop → loop.pc = .replying c dec deferred → w.conns[c]? = some conn →
    ∃ fs, Decoded conn.taken fs dec ∧ deferred.flatten = fs.flatMap Frame.payload ∧
      pingsOf fs = []
  unread : ∀ {i c : ℕ} {loop : Loop} {conn : Conn}, w.loops[i]? = some loop →
    (loop.pc = .opening c ∨ loop.pc = .helloing c) → w.conns[c]? = some conn → conn.taken = []

variable [Postcard] {w w' : World}

namespace Decoding

/-- A resume that holds no connection, or the one it held, at the same place. -/
def Follows (w w' : World) : Prop :=
  ∀ (i : ℕ) (loop : Loop), w'.loops[i]? = some loop → loop.pc.conn = none ∨
    w.loops[i]? = some loop

/-- The current reader, the resumes and what was read are as they were. -/
theorem keep (h : w.Decoding)
    (hreader : ∀ r', w'.readers[w'.generation]? = some r' →
      ∃ r, w.readers[w.generation]? = some r ∧ r'.conn = r.conn ∧ r'.dec = r.dec)
    (hconns : Slots.Related Conn.Unread w.conns w'.conns) (hloops : Follows w w') :
    w'.Decoding where
  reader hr hc := by
    obtain ⟨r, hr, hconn, hdec⟩ := hreader _ hr
    obtain ⟨a, ha, hunread⟩ := hconns.slot hc
    rw [hconn] at ha
    rw [hdec, hunread]
    exact h.reader hr ha
  replying hl hpc hc := by
    obtain ⟨a, ha, hunread⟩ := hconns.slot hc
    rw [hunread]
    rcases hloops _ _ hl with hnone | hl
    · rw [hpc] at hnone
      cases hnone
    · exact h.replying hl hpc ha
  unread hl hpc hc := by
    obtain ⟨a, ha, hunread⟩ := hconns.slot hc
    rcases hloops _ _ hl with hnone | hl
    · rcases hpc with hpc | hpc <;> rw [hpc] at hnone <;> cases hnone
    · exact Eq.trans hunread (h.unread hl hpc ha)

omit [Postcard] in
theorem follows_of_eq (h : w'.loops = w.loops) : Follows w w' :=
  fun _ _ hl => .inr (h ▸ hl)

omit [Postcard] in
/-- Readers that are left alone, or moved on without touching their decoders. -/
theorem kept_reader (hgen : w'.generation = w.generation)
    (h : Slots.Related Reader.Kept w.readers w'.readers) (r' : Reader)
    (hr : w'.readers[w'.generation]? = some r') :
    ∃ r, w.readers[w.generation]? = some r ∧ r'.conn = r.conn ∧ r'.dec = r.dec := by
  rw [hgen] at hr
  obtain ⟨r, hr, hkept⟩ := h.slot hr
  exact ⟨r, hr, hkept.conn, hkept.dec⟩

theorem still (h : w.Decoding) (hq : w.Quiet w') (hs : w.Still w') : w'.Decoding :=
  h.keep (kept_reader (by rw [hq.only]) hs.readers) (Conn.related_unread hs.conns)
    (follows_of_eq (by rw [hq.only]))

/-- A reader consumed its decoder. -/
theorem digested (h : w.Decoding) {g : ℕ} {r : Reader} {seeded : Bool} {dec p : Bytes}
    (hr : w.readers[g]? = some r) (hdec : r.dec = dec) (hd : w.Digested w' g seeded dec p)
    (hwhole : seeded = true → w.stale g = false → whole dec = true) : w'.Decoding := by
  have hgen : w'.generation = w.generation := by rw [hd.quiet.only]
  have hloops : w'.loops = w.loops := by rw [hd.quiet.only]
  by_cases hg : w.generation = g
  · refine ⟨fun {r' conn} hr' hc => ?_, fun hl hpc hc => ?_, fun hl hpc hc => ?_⟩
    · rw [hgen, hg] at hr'
      obtain ⟨a, ha, hsame⟩ := hd.conns.slot hc
      obtain ⟨r₀, hr₀, hstays⟩ := hd.quiet.readers.slot hr'
      cases hr₀.symm.trans hr
      rw [hstays] at ha
      obtain ⟨fs, hfs⟩ := h.reader (hg ▸ hr) ha
      rw [hsame.unread]
      have hcur : w.stale g = false := stale_eq_false.2 hg.symm
      rcases hd.rest (fun hs => hwhole hs hcur) hr' with ⟨heq, -⟩ | ⟨hok, -, -⟩
      · exact ⟨fs, by rw [heq, ← hdec]; exact hfs⟩
      · subst hdec
        exact ⟨_, hfs.drain nextFrame_framing hok⟩
    · obtain ⟨a, ha, hsame⟩ := hd.conns.slot hc
      rw [hsame.unread]
      exact h.replying (hloops ▸ hl) hpc ha
    · obtain ⟨a, ha, hsame⟩ := hd.conns.slot hc
      exact Eq.trans hsame.unread (h.unread (hloops ▸ hl) hpc ha)
  · refine h.keep (fun r' hr' => ?_) (Conn.related_unread hd.conns) (follows_of_eq hloops)
    rw [hgen] at hr'
    obtain ⟨r₀, hr₀, hkept⟩ := hd.other _ r' hg hr'
    exact ⟨r₀, hr₀, hkept.conn, hkept.dec⟩

omit [Postcard] in
/-- A reader's connection is not one that a resume holds. -/
theorem ne_held (ht : w.Tasks) {g i c : ℕ} {r : Reader} {loop : Loop}
    (hr : w.readers[g]? = some r) (hl : w.loops[i]? = some loop) (hc : loop.pc.conn = some c) :
    r.conn ≠ c := by
  rintro rfl
  obtain ⟨conn, hconn, hinst⟩ := ht.reader hr
  obtain ⟨conn', hconn', hnone⟩ := ht.held hl hc
  cases hconn.symm.trans hconn'
  rw [hinst] at hnone
  cases hnone

/-- A superseded reader read in vain: its connection is neither the current one nor one that a
resume holds. -/
theorem vain (h : w.Decoding) (ht : w.Tasks) {g k : ℕ} {r : Reader} (hr : w.readers[g]? = some r)
    (hstale : w.stale g = true) : ((w.takeInbox r.conn k).setReader g .done).Decoding := by
  have hback : ∀ {c : ℕ} {conn : Conn}, r.conn ≠ c → (w.takeInbox r.conn k).conns[c]? = some conn →
      w.conns[c]? = some conn := by
    intro c conn hne hc
    obtain ⟨a, ha, rfl⟩ := Slots.getElem?_modify_eq_some.1 hc
    rw [if_neg hne]
    exact ha
  refine ⟨fun {r' conn} hr' hc => ?_, fun {i c loop} _ _ _ hl hpc hc => ?_,
    fun {i c loop} _ hl hpc hc => ?_⟩
  · obtain ⟨hr₀, hc₀⟩ := vain_current ht hr hstale hr' hc
    exact h.reader hr₀ hc₀
  · exact h.replying hl hpc (hback (ne_held ht hr hl (by rw [hpc]; rfl)) hc)
  · refine h.unread hl hpc (hback (ne_held ht hr hl ?_) hc)
    rcases hpc with hpc | hpc <;> rw [hpc] <;> rfl

/-- A reader took bytes into its decoder. -/
theorem taken (h : w.Decoding) (ht : w.Tasks) {g k : ℕ} {r : Reader} (hr : w.readers[g]? = some r)
    (hcur : w.stale g = false) :
    ((w.takeInbox r.conn k).decode g (r.dec ++ w.waiting r.conn k) .reading).Decoding := by
  have hg : g = w.generation := by
    by_contra hne
    simp [stale, Ne.symm hne] at hcur
  subst hg
  refine ⟨fun {r' conn} hr' hc => ?_, fun {i c loop} _ _ _ hl hpc hc => ?_,
    fun {i c loop} _ hl hpc hc => ?_⟩
  · obtain ⟨a, ha, rfl, rfl⟩ := taken_current hr hr' hc
    obtain ⟨fs, hfs⟩ := h.reader hr ha
    exact ⟨fs, hfs.append _⟩
  · obtain ⟨a, ha, rfl⟩ := Slots.getElem?_modify_eq_some.1 hc
    rw [if_neg (ne_held ht hr hl (by rw [hpc]; rfl))]
    exact h.replying hl hpc ha
  · obtain ⟨a, ha, rfl⟩ := Slots.getElem?_modify_eq_some.1 hc
    rw [if_neg (ne_held ht hr hl (by rcases hpc with hpc | hpc <;> rw [hpc] <;> rfl))]
    exact h.unread hl hpc ha

omit [Postcard] in
/-- What a reader that begins loses. -/
theorem whole_of_startsWhole [Postcard] {l : Label} {g : ℕ} {r : Reader}
    (hwhole : startsWhole w l = true) (hact : l.act = .pollReader g) (hr : w.readers[g]? = some r)
    (hpc : r.pc = .seeded) (hcur : w.stale g = false) : whole r.dec = true := by
  simpa [startsWhole, hact, hr, hpc, hcur] using hwhole

theorem hear (h : w.Decoding) (ht : w.Tasks) {l : Label} (hq : w.Quiet w')
    (hwhole : startsWhole w l = true) (hh : HearStep w l w') : w'.Decoding := by
  cases hh with
  | still hact hs => exact h.still hq hs
  | arrived c b hact harr =>
    refine h.keep (kept_reader (by rw [hq.only]) ?_) ?_ (follows_of_eq (by rw [hq.only]))
    · obtain ⟨conn, -, hw, -⟩ := arrive_cases harr
      rw [hw]
      exact .refl Reader.Kept.refl _
    · obtain ⟨conn, -, hw, -⟩ := arrive_cases harr
      rw [hw]
      exact Slots.related_modify Conn.Unread.refl fun _ _ => rfl
  | vain g k r hr hstale => exact h.vain ht hr hstale
  | seeded g r hact hr hpc hd =>
    exact h.digested hr rfl hd fun _ => whole_of_startsWhole hwhole hact hr hpc
  | read g k r hr hpc hcur hd =>
    exact (h.taken ht hr hcur).digested (Slots.getElem?_modify_eq_some.2 ⟨r, hr, rfl⟩)
      (by rw [if_pos rfl]) hd nofun

/-! ### Steps -/

theorem writerStep (h : w.Decoding) {a : Action} {g : ℕ} {t : Writer} {n : Next}
    (hw : WriterStep w a g t w' n) : w'.Decoding := by
  have hwire : ∀ fs : List Bytes, Slots.Related Conn.Unread w.conns
      (w.conns.modify t.conn fun conn => { conn with wire := conn.wire ++ fs }) := fun _ =>
    Slots.related_modify Conn.Unread.refl fun _ _ => rfl
  cases hw with
  | parked => exact { h with }
  | done n hn => exact { h with }
  | pieces fs =>
    exact h.keep (fun r' hr' => ⟨r', hr', rfl, rfl⟩) (hwire fs) (follows_of_eq rfl)
  | round hcur hlive hpend hb =>
    obtain ⟨fs, pc, -, hcs, -⟩ := hb.wire
    have hreaders : w'.readers = w.readers := by rw [hb.only]
    have hgen : w'.generation = w.generation := by rw [hb.only]
    refine h.keep (fun r' hr' => ?_) (by rw [hcs]; exact hwire fs) (follows_of_eq (by rw [hb.only]))
    rw [hreaders, hgen] at hr'
    exact ⟨r', hr', rfl, rfl⟩

/-- The tasks of a connection just adopted are spawned, when no resume is alive. -/
theorem spawn (ht : w.Tasks) (hno : w.NoLoop) {v : World}
    (hgen : v.generation = w.generation + 1) (hreaders : v.readers.length = w.readers.length)
    (hloops : v.loops = w.loops) {c : ℕ} {dec tail : Bytes}
    (hdec : ∀ conn, v.conns[c]? = some conn → ∃ fs, Decoded conn.taken fs dec) :
    (v.spawnTasks c dec tail).Decoding where
  reader {r conn} hr hc := by
    rcases Slots.getElem?_concat_eq_some.1 hr with hr | ⟨-, rfl⟩
    · have hlt : v.generation < v.readers.length := (List.getElem?_eq_some_iff.1 hr).1
      rw [hgen, hreaders, ht.readers_length] at hlt
      exact absurd hlt (Nat.lt_irrefl _)
    · exact hdec conn hc
  replying hl hpc _ := by
    have hdone := hno _ _ (hloops ▸ hl)
    rw [hpc] at hdone
    cases hdone
  unread hl hpc _ := by
    have hdone := hno _ _ (hloops ▸ hl)
    rcases hpc with hpc | hpc <;> rw [hpc] at hdone <;> cases hdone

/-- A resume moved on while nothing was read from the connections of the readers. -/
theorem setLoop (h : w.Decoding) (ht : w.Tasks) {i : ℕ} {loop loop' : Loop}
    (hloop : w.loops[i]? = some loop) (hlive : loop.pc ≠ .done)
    (hgen : w'.generation = w.generation) (hreaders : w'.readers = w.readers)
    (hloops : w'.loops = w.loops.set i loop')
    (hconns : ∀ (c : ℕ) (conn conn' : Conn), w.conns[c]? = some conn → w'.conns[c]? = some conn' →
      loop.pc.conn ≠ some c → conn.Unread conn')
    (hreplying : ∀ (c : ℕ) (dec : Bytes) (deferred : List Bytes) (conn : Conn),
      loop'.pc = .replying c dec deferred → w'.conns[c]? = some conn →
      ∃ fs, Decoded conn.taken fs dec ∧ deferred.flatten = fs.flatMap Frame.payload ∧
        pingsOf fs = [])
    (hunread : ∀ (c : ℕ) (conn : Conn), (loop'.pc = .opening c ∨ loop'.pc = .helloing c) →
      w'.conns[c]? = some conn → conn.taken = []) : w'.Decoding := by
  -- no other resume is alive
  have hother : ∀ {j : ℕ} {l : Loop}, w'.loops[j]? = some l → l.pc ≠ .done → l = loop' := by
    intro j l hl hpc
    rw [hloops] at hl
    rcases Slots.getElem?_set_eq_some hl with ⟨-, rfl⟩ | ⟨hji, hl⟩
    · rfl
    · exact absurd (ht.alone hl hpc hloop hlive) hji
  refine ⟨fun {r conn} hr hc => ?_, fun hl hpc hc => ?_, fun hl hpc hc => ?_⟩
  · rw [hreaders, hgen] at hr
    obtain ⟨a, ha, hinst⟩ := ht.reader hr
    have hne : loop.pc.conn ≠ some r.conn := by
      intro hheld
      exact ne_held ht hr hloop hheld rfl
    rw [hconns _ _ _ ha hc hne]
    exact h.reader hr ha
  · obtain rfl := hother hl (by rw [hpc]; exact fun h => by cases h)
    exact hreplying _ _ _ _ hpc hc
  · obtain rfl := hother hl (by rcases hpc with hpc | hpc <;> rw [hpc] <;> exact fun h => by cases h)
    exact hunread _ _ hpc hc

/-- What a handshake read: the frames it took, and the payloads it deferred. -/
theorem takes (h : w.Decoding) {i c k : ℕ} {loop : Loop} {dec dec' : Bytes}
    {deferred deferred' : List Bytes} {conn : Conn} (hloop : w.loops[i]? = some loop)
    (hpc : loop.pc = .replying c dec deferred) (hc : w.conns[c]? = some conn)
    (htakes : Takes (dec ++ w.waiting c k) deferred dec' deferred') :
    ∃ fs, Decoded (conn.taken ++ conn.inbox.take k) fs dec' ∧
      deferred'.flatten = fs.flatMap Frame.payload ∧ pingsOf fs = [] := by
  obtain ⟨fs₀, hfs₀, hdef, hnone⟩ := h.replying hloop hpc hc
  obtain ⟨fs, hleft, hpay, hnone'⟩ := htakes
  rw [waiting_eq hc] at hleft
  refine ⟨fs₀ ++ fs, hleft _ _ (hfs₀.append _), ?_, ?_⟩
  · rw [hpay, hdef, List.flatMap_append]
  · rw [pingsOf_append, hnone, hnone', List.append_nil]

theorem loopStep (h : w.Decoding) (ht : w.Tasks) {a : Action} {i : ℕ} {loop : Loop}
    {n : Next} (hloop : w.loops[i]? = some loop) (hlive : loop.pc ≠ .done)
    (hl : LoopStep w a i loop w' n) :
    w'.Decoding := by
  -- changes of the one connection it holds
  have hmodify : ∀ {c : ℕ} {f : Conn → Conn}, loop.pc.conn = some c →
      ∀ (c' : ℕ) (conn conn' : Conn), w.conns[c']? = some conn →
      (w.conns.modify c f)[c']? = some conn' → loop.pc.conn ≠ some c' → conn.Unread conn' := by
    intro c f hheld c' conn conn' hc hc' hne
    obtain ⟨a, ha, rfl⟩ := Slots.getElem?_modify_eq_some.1 hc'
    cases hc.symm.trans ha
    rw [if_neg (by rintro rfl; exact hne hheld)]
    exact .refl conn
  cases hl with
  | letGo c f n hw hc hf hread hgap hconns hpc hn hgen hover =>
    refine h.setLoop ht hloop hlive (by rw [hw]; rfl) (by rw [hw]; rfl) (by rw [hw]; rfl)
      (fun c' conn conn' ha ha' hne => ?_) (fun c dec deferred conn hpc' _ => ?_)
      fun c conn hpc' _ => ?_
    · rw [hw] at ha'
      obtain ⟨b, hb, hsame⟩ := hconns.slot ha'
      rcases hc with hc | rfl
      · exact (hmodify hc c' conn b ha hb hne).trans hsame.unread
      · rw [List.modify_id] at hb
        cases ha.symm.trans hb
        exact hsame.unread
    · rw [hpc'] at hpc
      cases hpc
    · rcases hpc' with hpc' | hpc' <;> rw [hpc'] at hpc <;> cases hpc
  | dialed conn hw hconn hpc hgen hover =>
    refine h.setLoop ht hloop hlive (by rw [hw]; rfl) (by rw [hw]; rfl) (by rw [hw]; rfl)
      (fun c' a a' ha ha' hne => ?_) (fun c dec deferred a hpc' _ => ?_) fun c a hpc' hc => ?_
    · rw [hw] at ha'
      have hold : (w.conns ++ [conn])[c']? = some a :=
        Slots.getElem?_concat_eq_some.2 (.inl ha)
      cases hold.symm.trans ha'
      exact .refl a
    · rcases hpc with hpc | hpc
      · rw [hpc'] at hpc
        cases hpc
      · rw [hpc'] at hpc
        cases hpc
    · rw [hw] at hc
      rcases hpc with hpc | hpc
      · rcases hpc' with hpc' | hpc' <;> rw [hpc'] at hpc <;> cases hpc
      · rcases hpc' with hpc' | hpc' <;> rw [hpc'] at hpc <;> cases hpc
        cases (List.getElem?_concat_length).symm.trans hc
        rw [hconn]
  | opened c hw hc hpc hgen =>
    have hheld : loop.pc.conn = some c := by rw [hc]; rfl
    refine h.setLoop ht hloop hlive (by rw [hw]; rfl) (by rw [hw]; rfl) (by rw [hw]; rfl)
      (fun c' a a' ha ha' => hmodify hheld c' a a' ha (by rw [hw] at ha'; exact ha'))
      (fun c' dec deferred a hpc' _ => ?_) fun c' a hpc' ha => ?_
    · rw [hpc'] at hpc
      cases hpc
    · rcases hpc' with hpc' | hpc' <;> rw [hpc'] at hpc <;> cases hpc
      rw [hw] at ha
      obtain ⟨b, hb, rfl⟩ := Slots.getElem?_modify_eq_some.1 ha
      have htaken : b.taken = [] := h.unread hloop (.inl hc) hb
      rw [if_pos rfl]
      exact htaken
  | helloed c hw hc hpc hgen =>
    refine h.setLoop ht hloop hlive (by rw [hw]; rfl) (by rw [hw]; rfl) (by rw [hw]; rfl)
      (fun c' a a' ha ha' _ => ?_) (fun c' dec deferred a hpc' ha => ?_) fun c' a hpc' _ => ?_
    · rw [hw] at ha'
      cases ha.symm.trans ha'
      exact .refl a
    · rw [hpc'] at hpc
      cases hpc
      rw [hw] at ha
      rw [h.unread hloop (.inr hc) ha]
      exact ⟨[], Incremental.left_refl [], rfl, rfl⟩
    · rcases hpc' with hpc' | hpc' <;> rw [hpc'] at hpc <;> cases hpc
  | more c k hw hc hshake hpc hgen =>
    have hheld : loop.pc.conn = some c := by rw [hc]; rfl
    refine h.setLoop ht hloop hlive (by rw [hw]; rfl) (by rw [hw]; rfl) (by rw [hw]; rfl)
      (fun c' a a' ha ha' => hmodify hheld c' a a' ha (by rw [hw] at ha'; exact ha'))
      (fun c' dec deferred a hpc' ha => ?_) fun c' a hpc' _ => ?_
    · rw [hpc'] at hpc
      cases hpc
      rw [hw] at ha
      obtain ⟨b, hb, rfl⟩ := Slots.getElem?_modify_eq_some.1 ha
      have htook := h.takes hloop hc hb (takes_of_more hshake)
      rw [if_pos rfl]
      exact htook
    · rcases hpc' with hpc' | hpc' <;> rw [hpc'] at hpc <;> cases hpc
  | installed c k p hc hshake htail hlive' hact hinst =>
    rename_i dec dec' tail deferred deferred' moves
    obtain ⟨conn, hconn, hnone⟩ := ht.held hloop (by rw [hc]; rfl)
    obtain ⟨hover, hno⟩ := ht.resumed hloop hlive c k p.toNat
    obtain ⟨fs, hfs, -⟩ := h.takes hloop hc hconn (takes_of_reply hshake)
    obtain ⟨v, -, hv, -, -, hdrove⟩ := install_cases hinst
    have hspawn : (v.spawnTasks c dec' tail).Decoding := by
      refine spawn hover hno (by rw [hv]; rfl) (by rw [hv]; rfl) (by rw [hv]; rfl) fun a ha => ?_
      rw [hv] at ha
      obtain ⟨b, hb, rfl⟩ := Slots.getElem?_modify_eq_some.1 ha
      cases (Tasks.getElem?_conns_resumed hconn).symm.trans hb
      rw [if_pos rfl]
      exact ⟨fs, hfs⟩
    exact hspawn.still hdrove.quiet hdrove.still

theorem piece (h : w.Decoding) (ht : w.Tasks) {l : Label} {n : Next}
    (hwhole : startsWhole w l = true) (hpiece : w.piece l = some (w', n)) : w'.Decoding := by
  rcases piece_cases hpiece with ⟨hact, hq, -⟩ | ⟨g, t, hg, hw⟩ | ⟨i, loop, hloop, hlive, hl⟩ |
    ⟨-, rfl, -⟩
  · exact h.hear ht hq hwhole (hear_cases ht.framed hact hpiece)
  · exact h.writerStep hw
  · exact h.loopStep ht hloop hlive hl
  · have hloops : Follows w w.wake := by
      intro i loop hl
      rcases w.wake_cases with hq | ⟨-, -, -, -, heq⟩
      · exact .inr (by rwa [hq.only] at hl)
      · rw [heq] at hl
        rcases Slots.getElem?_concat_eq_some.1 hl with hl | ⟨-, rfl⟩
        · exact .inr hl
        · exact .inl rfl
    have hsame : w.wake.readers = w.readers ∧ w.wake.generation = w.generation ∧
        w.wake.conns = w.conns := by
      unfold wake
      dsimp only
      split_ifs <;> exact ⟨rfl, rfl, rfl⟩
    refine h.keep (fun r' hr' => ?_) (hsame.2.2 ▸ .refl Conn.Unread.refl _) hloops
    rw [hsame.1, hsame.2.1] at hr'
    exact ⟨r', hr', rfl, rfl⟩

theorem topStep (h : w.Decoding) {i : ℕ} {r : Option String} (ht : w.TopStep i w' r) :
    w'.Decoding := by
  -- the resume at its top holds no connection
  have hset : ∀ {v : World} {loop : Loop}, loop.pc.conn = none → v.readers = w.readers →
      v.generation = w.generation → v.conns = w.conns → v.loops = w.loops.set i loop →
      v.Decoding := by
    intro v loop hpc hreaders hgen hconns hloops
    refine h.keep (fun r' hr' => ?_) (hconns ▸ .refl Conn.Unread.refl _) fun j l hl => ?_
    · rw [hreaders, hgen] at hr'
      exact ⟨r', hr', rfl, rfl⟩
    · rw [hloops] at hl
      rcases Slots.getElem?_set_eq_some hl with ⟨-, rfl⟩ | ⟨-, hl⟩
      · exact .inl hpc
      · exact .inr hl
  cases ht with
  | gone hgone => exact h
  | ended r hpc hold hgen hover => exact hset (by rw [hpc]; rfl) rfl rfl rfl rfl
  | standDown hpc hold hgen hgoing haway => exact hset (by rw [hpc]; rfl) rfl rfl rfl rfl
  | dial hpc hold hgen hgoing => exact hset (by rw [hpc]; rfl) rfl rfl rfl rfl

theorem settle (h : w.Decoding) (n : Next) : (w.settle n).1.Decoding := by
  refine settle_rule (P := World.Decoding) h n { h with } (fun g => ?_) fun hv htop => hv.topStep htop
  have hclose : Slots.Related Conn.Unread w.conns (w.startLoop g).conns :=
    Slots.related_modify Conn.Unread.refl fun _ _ => rfl
  refine h.keep (fun r' hr' => ⟨r', hr', rfl, rfl⟩) hclose fun j l hl => ?_
  rcases Slots.getElem?_concat_eq_some.1 hl with hl | ⟨-, rfl⟩
  · exact .inr hl
  · exact .inl rfl

/-- A death leaves the decoders alone. -/
theorem declareDead (h : w.Decoding) {reason : String} {moves : List SshCore.Action}
    (hdie : w.declareDead reason moves = some w') : w'.Decoding := by
  rcases still_declareDead hdie with heq | ⟨hq, hstill⟩
  · rwa [heq]
  · have hmark : w.markDead.Decoding := { h with }
    exact hmark.still hq hstill

/-- **A step keeps the decoders**, if a reader that begins loses nothing. -/
theorem step (h : w.Decoding) (ht : w.Tasks) {l : Label} (hwhole : startsWhole w l = true)
    (hstep : w.step l = some w') : w'.Decoding := by
  obtain ⟨v, n, hpiece, hsettle⟩ := step_cases hstep
  have hs := (h.piece ht hwhole hpiece).settle n
  rcases hsettle with ⟨-, rfl⟩ | ⟨reason, -, hdie⟩
  · exact hs
  · exact hs.declareDead hdie

end Decoding

/-! ## The beginning -/

omit [Postcard] in
/-- A session with frames as `connect` leaves it: what came ahead of the reply has been fed, and the
rest is in the decoder of its reader. -/
structure Begun [Postcard] (d : Dial) (v : World) (fs : List Frame) (dec : Bytes) : Prop where
  decoded : Decoded d.arrived fs dec
  pings : pingsOf fs = []
  pongDue : v.pongDue = []
  fed : v.fed = fs.flatMap Frame.payload
  received : v.received = v.fed.length
  generation : v.generation = 0
  readers : v.readers = [⟨0, dec, .seeded⟩]
  conns : ∃ hello, v.conns = [{ taken := d.arrived, hello := some hello, installed := some 0 }]
  loops : v.loops = []
  pingOutstanding : v.pingOutstanding = none

theorem begun_connect {d : Dial} (hframed : d.proto.framed = true) {moves : List SshCore.Action}
    (h : World.connect d moves = some w) : ∃ v fs dec, Begun d v fs dec ∧ v.Drove w := by
  obtain ⟨id, dec, hello, pc, deferred, hbegin, hreply⟩ := connect_cases h
  obtain ⟨hshake, rfl⟩ := hreply hframed
  obtain ⟨fs, hleft, hpay, hnone⟩ := takes_of_reply hshake
  obtain ⟨v, hv, rfl⟩ := Option.map_eq_some_iff.1 hbegin
  obtain ⟨-, hw, hfed, hreceived⟩ := deferred_cases hv
  have hdec : Decoded d.arrived fs dec := hleft d.arrived [] (Incremental.left_refl d.arrived)
  have hpayload : v.fed = fs.flatMap Frame.payload := hfed.trans hpay
  refine ⟨v, fs, dec, ⟨hdec, hnone, by rw [hw]; rfl, hpayload, ?_, by rw [hw]; rfl, by rw [hw]; rfl,
    ⟨hello, by rw [hw]; rfl⟩, by rw [hw]; rfl, by rw [hw]; rfl⟩, drove_driveTurn v .other⟩
  rw [hreceived, hfed, List.length_append]
  rfl

/-- Its one connection is that of the handshake. -/
theorem Begun.conn_eq {d : Dial} {v : World} {fs : List Frame} {dec : Bytes} (h : Begun d v fs dec) :
    ∃ hello, ∀ {c : ℕ} {conn : Conn}, v.conns[c]? = some conn →
      conn = { taken := d.arrived, hello := some hello, installed := some 0 } := by
  obtain ⟨hello, hconns⟩ := h.conns
  refine ⟨hello, fun {c conn} hc => ?_⟩
  rw [hconns] at hc
  exact (Slots.getElem?_singleton_eq_some hc).2

theorem Begun.decoding {d : Dial} {v : World} {fs : List Frame} {dec : Bytes}
    (h : Begun d v fs dec) : v.Decoding := by
  obtain ⟨hello, hfirst⟩ := h.conn_eq
  refine ⟨fun {r conn} hr hc => ?_, fun {i c loop} _ _ _ hl => ?_, fun {i c loop} _ hl => ?_⟩
  · rw [h.readers] at hr
    obtain ⟨-, rfl⟩ := Slots.getElem?_singleton_eq_some hr
    rw [hfirst hc]
    exact ⟨fs, h.decoded⟩
  · rw [h.loops] at hl
    cases hl
  · rw [h.loops] at hl
    cases hl

theorem decoding_connect {d : Dial} (hframed : d.proto.framed = true)
    {moves : List SshCore.Action} (h : World.connect d moves = some w) : w.Decoding := by
  obtain ⟨v, fs, dec, hbegun, hdrove⟩ := begun_connect hframed h
  exact hbegun.decoding.still hdrove.quiet hdrove.still

end World

end Client
