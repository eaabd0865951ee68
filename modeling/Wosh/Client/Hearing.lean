import Wosh.Client.Tasks

set_option relaxedAutoImplicit false
set_option autoImplicit false

/-!
# How a session hears its peer

A quiet step leaves the decoders and the connections alone, or it is the arrival of bytes or a step
of a reader.

## Main definitions

* `Client.World.Still` — a change that leaves the decoders and what was read alone.
* `Client.World.Digested` — a reader consumed its decoder.
* `Client.World.HearStep` — the cases of a quiet step.

## Main results

* `Client.World.hear_cases` — a quiet step is one of these cases.
-/

namespace Client

open Tunnel

namespace World

variable {w w' : World}

/-! ## Changes that leave the decoders alone -/

/-- The decoders and what was read, fed, owed or found out about liveness are left alone. -/
structure Still (w w' : World) : Prop where
  fed : w'.fed = w.fed
  received : w'.received = w.received
  pongDue : w'.pongDue = w.pongDue
  pingOutstanding : w'.pingOutstanding = w.pingOutstanding
  answeredAt : w'.answeredAt = w.answeredAt
  readers : Slots.Related Reader.Kept w.readers w'.readers
  conns : Slots.Related Conn.Same w.conns w'.conns

theorem Still.refl (w : World) : w.Still w :=
  ⟨rfl, rfl, rfl, rfl, rfl, .refl Reader.Kept.refl _, .refl Conn.Same.refl _⟩

theorem Still.trans {w'' : World} (h : w.Still w') (h' : w'.Still w'') : w.Still w'' where
  fed := h'.fed.trans h.fed
  received := h'.received.trans h.received
  pongDue := h'.pongDue.trans h.pongDue
  pingOutstanding := h'.pingOutstanding.trans h.pingOutstanding
  answeredAt := h'.answeredAt.trans h.answeredAt
  readers := h.readers.trans Reader.Kept.trans h'.readers
  conns := h.conns.trans Conn.Same.trans h'.conns

/-- The readers and the connections are left alone altogether. -/
theorem Still.of_eq (hw : w' = { w with
      now := w'.now
      core := w'.core
      signing := w'.signing
      parked := w'.parked
      detached := w'.detached
      suspended := w'.suspended
      pingDue := w'.pingDue
      writerSignal := w'.writerSignal
      keepers := w'.keepers }) : w.Still w' := by
  rw [hw]
  exact ⟨rfl, rfl, rfl, rfl, rfl, .refl Reader.Kept.refl _, .refl Conn.Same.refl _⟩

theorem Drove.still (h : w.Drove w') : w.Still w' where
  fed := by rw [h.only]
  received := by rw [h.only]
  pongDue := by rw [h.only]
  pingOutstanding := by rw [h.only]
  answeredAt := by rw [h.only]
  readers := h.readers
  conns := h.conns

theorem still_coreRounds {moves : List SshCore.Action} (h : w.coreRounds moves = some w') :
    w.Still w' := by
  obtain ⟨c, -, rfl⟩ := Option.map_eq_some_iff.1 h
  exact .of_eq rfl

theorem still_coreCall {entry : SshCore.Action} {moves : List SshCore.Action}
    (h : w.coreCall entry moves = some w') : w.Still w' := by
  obtain ⟨c, -, rfl⟩ := Option.map_eq_some_iff.1 h
  exact .of_eq rfl

/-- A death leaves the decoders alone: it was declared before, or it is recorded and the core is closed. -/
theorem still_declareDead {reason : String} {moves : List SshCore.Action}
    (h : w.declareDead reason moves = some w') :
    w' = w ∨ w.markDead.Quiet w' ∧ w.markDead.Still w' := by
  unfold declareDead at h
  by_cases hdown : w.linkDown = true
  · rw [if_pos hdown] at h
    cases h
    exact .inl rfl
  · rw [if_neg hdown] at h
    obtain ⟨v, hv, rfl⟩ := Option.map_eq_some_iff.1 h
    exact .inr ⟨(quiet_coreCall hv).trans (drove_driveTurn v .other).quiet,
      (still_coreCall hv).trans (drove_driveTurn v .other).still⟩

/-- A reader that comes to its end. -/
theorem still_done (w : World) (g : ℕ) : w.Still (w.setReader g .done) where
  fed := rfl
  received := rfl
  pongDue := rfl
  pingOutstanding := rfl
  answeredAt := rfl
  readers := Slots.related_modify Reader.Kept.refl fun _ _ => ⟨rfl, rfl, nofun, fun _ => rfl⟩
  conns := .refl Conn.Same.refl _

/-! ## Consuming a decoder -/

/-- No part of a frame is left of a decoder whose frames are taken. -/
def whole [Postcard] (dec : Bytes) : Bool :=
  match (frames dec).2 with
  | .ok rest => rest = []
  | .error _ => true

/-- Reader `g`, in whose decoder there is `dec`, consumed it and fed the core `p`: either it came
upon a violation and is over, or it goes on with the rest, unless it was spawned with that decoder
(`seeded`): then it goes on with a new one. -/
structure Digested [Postcard] (w w' : World) (g : ℕ) (seeded : Bool) (dec p : Bytes) : Prop where
  quiet : w.Quiet w'
  prefix_of : p <+: streamData dec
  fed : w'.fed = w.fed ++ p
  received : w'.received = w.received + p.length
  answeredAt : w'.answeredAt = w.answeredAt
  pingOutstanding : w'.pingOutstanding = w.pingOutstanding ∨ w'.pingOutstanding = none
  /-- Any frame is evidence that the peer is alive. -/
  heard : (frames dec).1 ≠ [] → w'.pingOutstanding = none
  /-- The pings are owed their echoes: all of them, if the reader goes on. -/
  owes : ∃ q, w'.pongDue = w.pongDue ++ q ∧ q <+: pingsOf (frames dec).1 ∧
    ∀ r', w'.readers[g]? = some r' → r'.pc ≠ .done → q = pingsOf (frames dec).1
  conns : Slots.Related Conn.Same w.conns w'.conns
  reader : ∀ r', w'.readers[g]? = some r' → (r'.dec = dec ∧ r'.pc = .done) ∨
    ∃ rest, (frames dec).2 = .ok rest ∧ r'.dec = (if seeded then [] else rest) ∧
      p = streamData dec ∧ r'.pc ≠ .seeded
  other : ∀ (j : ℕ) (r' : Reader), j ≠ g → w'.readers[j]? = some r' →
    ∃ r, w.readers[j]? = some r ∧ r.Kept r'

section Consume

variable [Postcard] {g : ℕ} {r : Reader} {n : Next} {moves : List SshCore.Action}

/-- A reader that loses nothing goes on with the rest. -/
theorem Digested.rest {seeded : Bool} {dec p : Bytes} (h : w.Digested w' g seeded dec p)
    (hwhole : seeded = true → whole dec = true) {r' : Reader} (hr : w'.readers[g]? = some r') :
    (r'.dec = dec ∧ r'.pc = .done) ∨
      ((frames dec).2 = .ok r'.dec ∧ p = streamData dec ∧ r'.pc ≠ .seeded) := by
  rcases h.reader r' hr with hdone | ⟨rest, hok, hdec, hp, hpc⟩
  · exact .inl hdone
  · refine .inr ⟨?_, hp, hpc⟩
    cases seeded with
    | false => rwa [hdec, if_neg Bool.false_ne_true]
    | true =>
      have hnil : rest = [] := by simpa [whole, hok] using hwhole rfl
      rw [hdec, if_pos rfl, hok, hnil]

theorem digested_readerConsume {seeded : Bool} {dec : Bytes} (hr : w.readers[g]? = some r)
    (hdec : r.dec = dec) (h : w.readerConsume g seeded dec moves = some (w', n)) :
    ∃ p, w.Digested w' g seeded dec p := by
  have hquiet := quiet_readerConsume h
  obtain ⟨p, hp, hwhole, hcons, hheard⟩ := w.consumed_consume dec
  obtain ⟨q, hq, hpings, hall⟩ := w.pongDue_consume dec
  have hreaders : (w.consume dec).1.readers = w.readers := by rw [hcons.only]
  have hconns : (w.consume dec).1.conns = w.conns := by rw [hcons.only]
  have hanswered : (w.consume dec).1.answeredAt = w.answeredAt := by rw [hcons.only]
  -- the rest of the step, from the session after its frames were consumed
  have hrest : ∀ v : World, (w.consume dec).1.Still v → v.fed = w.fed ++ p ∧
      v.received = w.received + p.length ∧ v.answeredAt = w.answeredAt ∧
      (v.pingOutstanding = w.pingOutstanding ∨ v.pingOutstanding = none) ∧
      ((frames dec).1 ≠ [] → v.pingOutstanding = none) ∧
      Slots.Related Conn.Same w.conns v.conns := by
    intro v hv
    refine ⟨hv.fed.trans hcons.fed, hv.received.trans hcons.received,
      hv.answeredAt.trans hanswered, ?_, fun hf => hv.pingOutstanding.trans (hheard hf),
      hconns ▸ hv.conns⟩
    rw [hv.pingOutstanding]
    exact hcons.pingOutstanding
  refine ⟨p, ?_⟩
  unfold readerConsume at h
  split at h
  · obtain ⟨v, hv, heq⟩ := Option.map_eq_some_iff.1 h
    cases heq
    have hstill : (w.consume dec).1.Still (v.setReader g .done) :=
      (still_coreRounds hv).trans (v.still_done g)
    obtain ⟨hfed, hreceived, hanswered', hping, hheard', hconns'⟩ := hrest _ hstill
    have hdone : ∀ r', (v.setReader g .done).readers[g]? = some r' → r'.pc = .done := by
      intro r' hr'
      obtain ⟨b, -, rfl⟩ := Slots.getElem?_modify_eq_some.1 hr'
      rw [if_pos rfl]
    refine ⟨hquiet, hp, hfed, hreceived, hanswered', hping, hheard',
      ⟨q, hstill.pongDue.trans hq, hpings, fun r' hr' hpc => absurd (hdone r' hr') hpc⟩, hconns',
      fun r' hr' => ?_, fun j r' hj hr' => ?_⟩
    · obtain ⟨a, ha, hkept⟩ := (hreaders ▸ hstill.readers).slot hr'
      cases ha.symm.trans hr
      obtain ⟨b, -, rfl⟩ := Slots.getElem?_modify_eq_some.1 hr'
      rw [if_pos rfl] at hkept ⊢
      exact .inl ⟨hkept.dec.trans hdec, rfl⟩
    · exact (hreaders ▸ hstill.readers).slot hr'
  · rename_i fed rest hok
    obtain ⟨v, hv, heq⟩ := Option.map_eq_some_iff.1 h
    cases heq
    obtain ⟨hpwhole, hleft⟩ := hwhole fed rest hok
    -- it moves on with the rest, and the core is driven or not
    have hdrove : ∀ u : World,
        u.Drove (if fed then u.driveTurn (.reader g) else u.finishDrive (.reader g)) := by
      intro u
      split_ifs
      · exact drove_driveTurn _ _
      · exact drove_finishDrive _ _
    have hv' := still_coreRounds hv
    obtain ⟨hfed, hreceived, hanswered', hping, hheard', hconns'⟩ := hrest v hv'
    have hd := (hdrove (v.decode g (if seeded then [] else rest) (.driving seeded))).still
    refine ⟨hquiet, hp, hd.fed.trans hfed, hd.received.trans hreceived,
      hd.answeredAt.trans hanswered', ?_, fun hf => hd.pingOutstanding.trans (hheard' hf),
      ⟨q, (hd.pongDue.trans hv'.pongDue).trans hq, hpings, fun _ _ _ => hall fed rest hok⟩,
      hconns'.trans Conn.Same.trans hd.conns, fun r' hr' => ?_, fun j r' hj hr' => ?_⟩
    · rw [hd.pingOutstanding]
      exact hping
    · obtain ⟨a, ha, hkept⟩ := hd.readers.slot hr'
      obtain ⟨b, -, rfl⟩ := Slots.getElem?_modify_eq_some.1 ha
      rw [if_pos rfl] at hkept
      refine .inr ⟨rest, hleft, hkept.dec, hpwhole, fun hs => ?_⟩
      cases hkept.seeded hs
    · obtain ⟨a, ha, hkept⟩ := hd.readers.slot hr'
      obtain ⟨b, hb, rfl⟩ := Slots.getElem?_modify_eq_some.1 ha
      rw [if_neg (fun hgj => hj hgj.symm)] at hkept
      obtain ⟨c, hc, hkept'⟩ := (hreaders ▸ hv'.readers).slot hb
      exact ⟨c, hc, hkept'.trans hkept⟩

end Consume

/-! ## The cases of a quiet step -/

/-- A quiet step of a session with frames: nothing is heard; bytes arrive; a superseded reader
reads in vain; a reader that was spawned with a decoder consumes it; or the current reader reads,
and consumes its decoder. -/
inductive HearStep [Postcard] (w : World) (l : Label) : World → Prop
  | still {w' : World} (hact : ∀ c b, l.act ≠ .arrive c b) (h : w.Still w') : HearStep w l w'
  | arrived {w' : World} (c : ℕ) (b : Bytes) (hact : l.act = .arrive c b)
      (h : w.arrive c b = some w') : HearStep w l w'
  | vain (g k : ℕ) (r : Reader) (hr : w.readers[g]? = some r) (hstale : w.stale g = true) :
      HearStep w l ((w.takeInbox r.conn k).setReader g .done)
  | seeded {w' : World} (g : ℕ) (r : Reader) {p : Bytes} (hact : l.act = .pollReader g)
      (hr : w.readers[g]? = some r) (hpc : r.pc = .seeded) (h : w.Digested w' g true r.dec p) :
      HearStep w l w'
  | read {w' : World} (g k : ℕ) (r : Reader) {p : Bytes} (hr : w.readers[g]? = some r)
      (hpc : r.pc = .reading) (hcur : w.stale g = false)
      (h : ((w.takeInbox r.conn k).decode g (r.dec ++ w.waiting r.conn k) .reading).Digested w' g
        false (r.dec ++ w.waiting r.conn k) p) : HearStep w l w'

variable [Postcard] {l : Label} {n : Next}

/-- What the arrival of bytes changes. -/
theorem arrive_cases {c : ℕ} {b : Bytes} (h : w.arrive c b = some w') :
    ∃ conn, w.conns[c]? = some conn ∧
      w' = { w with
        conns := w.conns.modify c fun conn => { conn with inbox := conn.inbox ++ b }
        answeredAt := w'.answeredAt } ∧
      w'.answeredAt =
        if c = w.conn ∧ w.answeredAt = none ∧ w.readable c < w'.readable c then some w.now
        else w.answeredAt := by
  unfold arrive at h
  split at h
  · cases h
  · rename_i conn hc
    split_ifs at h
    cases h
    exact ⟨conn, hc, rfl, rfl⟩

omit [Postcard] in
/-- The current task is the one of the current generation. -/
theorem stale_eq_false {g : ℕ} : w.stale g = false ↔ g = w.generation := by
  rw [stale, decide_eq_false_iff_not, not_not, eq_comm]

omit [Postcard] in
/-- What waits on a connection. -/
theorem waiting_eq {c : ℕ} {conn : Conn} (hc : w.conns[c]? = some conn) (k : ℕ) :
    w.waiting c k = conn.inbox.take k := by
  rw [waiting, hc]
  rfl

omit [Postcard] in
/-- The current reader and its connection, after a superseded one read in vain. -/
theorem vain_current (ht : w.Tasks) {g k : ℕ} {r r' : Reader} {conn' : Conn}
    (hr : w.readers[g]? = some r) (hstale : w.stale g = true)
    (hr' : ((w.takeInbox r.conn k).setReader g .done).readers[w.generation]? = some r')
    (hc : ((w.takeInbox r.conn k).setReader g .done).conns[r'.conn]? = some conn') :
    w.readers[w.generation]? = some r' ∧ w.conns[r'.conn]? = some conn' := by
  have hg : g ≠ w.generation := fun heq => by simp [stale_eq_false.2 heq] at hstale
  have hmodify : (w.readers.modify g fun r => { r with pc := .done })[w.generation]? = some r' :=
    hr'
  obtain ⟨r₀, hr₀, rfl⟩ := Slots.getElem?_modify_eq_some.1 hmodify
  rw [if_neg hg] at hc ⊢
  obtain ⟨a, ha, rfl⟩ := Slots.getElem?_modify_eq_some.1 hc
  rw [if_neg (ht.reader_ne hr hr₀ hg)]
  exact ⟨hr₀, ha⟩

omit [Postcard] in
/-- The current reader and its connection, after it took bytes. -/
theorem taken_current {k : ℕ} {r r' : Reader} {conn' : Conn}
    (hr : w.readers[w.generation]? = some r)
    (hr' : ((w.takeInbox r.conn k).decode w.generation (r.dec ++ w.waiting r.conn k)
      .reading).readers[w.generation]? = some r')
    (hc : ((w.takeInbox r.conn k).decode w.generation (r.dec ++ w.waiting r.conn k)
      .reading).conns[r'.conn]? = some conn') :
    ∃ a, w.conns[r.conn]? = some a ∧
      r' = { r with dec := r.dec ++ a.inbox.take k, pc := .reading } ∧
      conn' = { a with inbox := a.inbox.drop k, taken := a.taken ++ a.inbox.take k } := by
  have hmodify : (w.readers.modify w.generation fun r₀ =>
      { r₀ with dec := r.dec ++ w.waiting r.conn k, pc := .reading })[w.generation]? = some r' :=
    hr'
  obtain ⟨r₀, hr₀, rfl⟩ := Slots.getElem?_modify_eq_some.1 hmodify
  cases hr₀.symm.trans hr
  rw [if_pos rfl] at hc ⊢
  obtain ⟨a, ha, rfl⟩ := Slots.getElem?_modify_eq_some.1 hc
  rw [if_pos rfl, waiting_eq ha k]
  exact ⟨a, ha, rfl, rfl⟩

omit [Postcard] in
/-- Nothing is taken when nothing waits. -/
theorem still_takeInbox {c k : ℕ} (h : w.waiting c k = []) : w.Still (w.takeInbox c k) where
  fed := rfl
  received := rfl
  pongDue := rfl
  pingOutstanding := rfl
  answeredAt := rfl
  readers := .refl Reader.Kept.refl _
  conns := by
    refine Slots.related_modify Conn.Same.refl fun conn hconn => ?_
    have htake : conn.inbox.take k = [] := (waiting_eq hconn k).symm.trans h
    have hdrop : conn.inbox.drop k = conn.inbox := by
      have happ := List.take_append_drop k conn.inbox
      rwa [htake, List.nil_append] at happ
    rw [Conn.Same, htake, hdrop, List.append_nil]

/-- **The cases of a quiet step.** -/
theorem hear_cases (hframed : w.proto.framed = true) (hq : l.act.quiet = true)
    (h : w.piece l = some (w', n)) : HearStep w l w' := by
  obtain ⟨act, moves, dying⟩ := l
  cases act <;> simp only [Action.quiet, Bool.false_eq_true] at hq <;> simp only [piece] at h
  case arrive c b =>
    obtain ⟨v, hv, heq⟩ := Option.map_eq_some_iff.1 h
    cases heq
    exact .arrived c b rfl hv
  case elapse d =>
    cases h
    exact .still (by simp) (.of_eq rfl)
  case pollReader g =>
    unfold pollReader at h
    split at h
    · cases h
    · rename_i r hr
      split_ifs at h with hpc
      obtain ⟨p, hp⟩ := digested_readerConsume hr rfl h
      exact .seeded g r rfl hr hpc hp
  case read g k =>
    unfold read at h
    split at h
    · cases h
    · rename_i r hr
      dsimp only at h
      by_cases hpc : r.pc ≠ .reading
      · rw [if_pos hpc] at h
        cases h
      rw [if_neg hpc] at h
      by_cases hstale : (w.takeInbox r.conn k).stale g = true
      · rw [if_pos hstale] at h
        cases h
        exact .vain g k r hr hstale
      rw [if_neg hstale] at h
      by_cases hnil : w.waiting r.conn k = []
      · rw [if_pos hnil] at h
        cases h
        exact .still (by simp) (still_takeInbox hnil)
      have hproto : ¬(w.takeInbox r.conn k).proto.framed = false := by
        have hsame : (w.takeInbox r.conn k).proto = w.proto := rfl
        rw [hsame, hframed]
        simp
      rw [if_neg hnil, if_neg hproto] at h
      have hr' : ((w.takeInbox r.conn k).decode g (r.dec ++ w.waiting r.conn k) .reading).readers[g]? =
          some { r with dec := r.dec ++ w.waiting r.conn k, pc := .reading } :=
        Slots.getElem?_modify_eq_some.2 ⟨r, hr, (if_pos rfl).symm⟩
      obtain ⟨p, hp⟩ := digested_readerConsume hr' rfl h
      exact .read g k r hr (not_not.1 hpc) (Bool.eq_false_iff.2 hstale) hp
  case readEnd g err =>
    unfold readEnd at h
    split at h
    · cases h
    · split_ifs at h <;> cases h <;> exact .still (by simp) (w.still_done g)
  case signed result =>
    unfold signed at h
    split at h
    · cases h
    · obtain ⟨v, hv, heq⟩ := Option.map_eq_some_iff.1 h
      cases heq
      have hclear : w.Still { w with signing := false, parked := none } := .of_eq rfl
      exact .still (by simp) ((hclear.trans (still_coreCall hv)).trans (drove_driveTurn _ _).still)
  case pollKeeper g =>
    unfold pollKeeper at h
    split_ifs at h
    cases h
    exact .still (by simp) (.of_eq rfl)
  case tick g =>
    unfold tick at h
    split at h
    · dsimp only at h
      split_ifs at h
      split at h <;> cases h <;> exact .still (by simp) (.of_eq rfl)
    · cases h
  case drive entry =>
    obtain ⟨v, turn, hv, rfl, -⟩ := driveCall_cases h
    exact .still (by simp) ((still_coreCall hv).trans (drove_driveTurn v turn).still)
  case tickCore entry =>
    unfold tickCore at h
    split_ifs at h
    obtain ⟨v, hv, heq⟩ := Option.map_eq_some_iff.1 h
    cases heq
    exact .still (by simp) ((still_coreCall hv).trans
      v.drove_queue.still)
  case drainOutput =>
    obtain ⟨v, hv, heq⟩ := Option.map_eq_some_iff.1 h
    cases heq
    exact .still (by simp) (still_coreCall hv)
  case suspend =>
    cases h
    refine .still (by simp) ?_
    unfold suspend
    split_ifs
    · exact .refl w
    · exact .of_eq rfl
  case detach =>
    obtain ⟨v, hv, heq⟩ := Option.map_eq_some_iff.1 h
    cases heq
    have hflag : w.Still { w with detached := true } := .of_eq rfl
    exact .still (by simp) ((hflag.trans (still_coreCall hv)).trans (drove_driveTurn _ _).still)

end World

end Client
