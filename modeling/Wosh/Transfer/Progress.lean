import Wosh.Lib.Tiling
import Wosh.Transfer.Download

set_option relaxedAutoImplicit false
set_option autoImplicit false

/-!
# Downloads from any server

The read loop of a download against a server that may answer a READ with anything: DATA of any
length, the end of the file, an error, in any order. At the end of a lap's harvest and writes, the
loop must either end or have something to ask for.

What was asked for and is not written yet tiles the stretch from `written` to `next`: it is on the
wire, waits to be asked for again, or waits to be written. A READ that is answered with the end of
the file leaves a hole. As long as the server does not contradict itself, nothing is behind the
hole; a server that does contradict itself, or answers with more than was asked for, leaves pieces
that the writer never comes to, and the loop idles beside them for good.

## Main definitions

* `Transfer.Download.stepServed` — a download whose server may answer anything.
* `Transfer.Download.lapEnd` — the state in which a step comes to the end of a lap.
* `Transfer.ServedAction.GoesOn` — the loop ends there or asks for something.
* `Transfer.ServedAction.Unstuck` — nothing waits out of order there that nothing will connect.
* `Transfer.ServedAction.Agrees` — the server does not contradict itself.
* `Transfer.Loop.Tiled` — the invariant.

## Main results

* `Transfer.download_goes_on` — when every lap of a run goes on.
-/

namespace Transfer

open Tunnel (Bytes)

/-! ## The machine -/

/-- What happens to a download whose server may answer anything. -/
inductive ServedAction
  /-- Anything but an answer to a READ or attributes. -/
  | engine (a : DownloadAction)
  /-- The READ at this place of the queue is answered. -/
  | answer (i : ℕ) (resp : Response)
  /-- The attributes of the file arrive. -/
  | attrs (size mtime : Option ℕ)
deriving DecidableEq

namespace Download

/-- One step. The file of `Download.step` is only asked for its length. -/
def stepServed (overwrite : Bool) (d : Download) : ServedAction → Option Download
  | .engine (.answer _ _) => none
  | .engine (.statted (.ok _)) => none
  | .engine a => d.step [] overwrite a
  | .answer i resp =>
    match d.loop.inflight[i]? with
    | some r =>
      if r.slot = .pending then
        some { d with loop := { d.loop with
          inflight := d.loop.inflight.set i { r with slot := .ready resp } } }
      else none
    | none => none
  | .attrs size mtime =>
    if d.pc ≠ .statting then none
    else
      some (d.statted (List.replicate (size.getD 0) 0)
        (.ok { sized := size.isSome, mtime := mtime }))

/-- The end of the write step: nothing is contiguous, and it is not time to flush. -/
def written (d : Download) : Option Download :=
  if d.loop.pending.find? (·.1 = d.loop.written) = none ∧ d.loop.sinceFlush < flushEveryBytes then
    some d
  else none

/-- The harvest and the write step of a lap, if it comes to its end without an await. -/
def harvested (d : Download) : Option Download :=
  let stopping := d.loop.stopping <|> d.shared.stopRequested
  let r := harvest d.loop.inflight { d.loop with stopping := stopping, inflight := [] } none
  if r.2 = none then { d with loop := r.1 }.written else none

/-- The state in which a step comes to the end of a lap's harvest and writes, if it does. -/
def lapEnd (overwrite : Bool) (d : Download) : ServedAction → Option Download
  | .engine .rested => if d.pc = .resting then d.harvested else none
  | .engine .committed =>
    match d.pc with
    | .anchoring remoteLen =>
      match planDownload d.sink.flushed remoteLen overwrite with
      | .ok (.start offset) =>
        { d with
          shared := { d.shared with done := d.sink.flushed }
          loop := {
            remoteLen := remoteLen
            next := offset
            written := offset
            chunk := payloadSize (d.env.sftp.bind Sftp.readLen) } }.harvested
      | _ => none
    | .noting .wrote => { d with shared := { d.shared with done := d.sink.flushed } }.written
    | .noting (.flushed .checkpoint) =>
      some { d with shared := { d.shared with done := d.sink.flushed } }
    | _ => none
  | _ => none

/-- `ended` of the source's loop. -/
def ended (l : Loop) : Bool :=
  decide (l.remoteLen ≤ l.written) ||
    (l.inflight.isEmpty && l.pending.isEmpty && l.refills.isEmpty &&
      (l.eofAt.isSome || decide (l.remoteLen ≤ l.next)))

/-- No stop is requested, nothing is in flight and the whole pool is free. -/
structure Idle (d : Download) : Prop where
  stopping : d.loop.stopping = none
  inflight : d.loop.inflight = []
  others : d.env.others = 0
  held : d.loop.held = 0

/-- The loop ends with a verdict, or with the attempt, or a READ is issued. -/
def GoesOn (d : Download) : Prop :=
  quiesceStep d.loop.stopping d.loop.inflight.isEmpty (ended d.loop) ≠ none ∨
  (∃ halt, issue d.env d.loop = .error halt) ∨
  ∃ l, issue d.env d.loop = .ok l ∧ l.inflight ≠ []

/-- Pieces wait out of order while nothing is to be asked for. -/
def Stuck (l : Loop) : Prop :=
  l.pending ≠ [] ∧ l.refills = [] ∧ (l.eofAt ≠ none ∨ l.remoteLen ≤ l.next) ∧
    l.written < l.remoteLen

end Download

/-- Where the step comes to the end of a lap with nothing in flight, the loop goes on. -/
def ServedAction.GoesOn (overwrite : Bool) (d : Download) (a : ServedAction) : Prop :=
  ∀ e, d.lapEnd overwrite a = some e → e.Idle → e.GoesOn

/-- Where the step comes to the end of a lap with nothing in flight, the loop is not stuck. -/
def ServedAction.Unstuck (overwrite : Bool) (d : Download) (a : ServedAction) : Prop :=
  ∀ e, d.lapEnd overwrite a = some e → e.Idle → ¬ Download.Stuck e.loop

/-- The response says that the file ends where it was to be read: no DATA, or empty DATA. -/
def Response.ends : Response → Bool
  | .data d => d.isEmpty
  | .status (.ok _) => true
  | _ => false

/-- The response carries data. -/
def Response.carries : Response → Bool
  | .data d => !d.isEmpty
  | _ => false

/-- The response in a slot meets the condition. -/
def Slot.is (p : Response → Bool) : Slot → Bool
  | .ready resp => p resp
  | _ => false

/-- Where data has arrived that is not written yet. -/
def Loop.dataAt (l : Loop) : List ℕ :=
  l.pending.map Prod.fst ++ (l.inflight.filter (·.slot.is Response.carries)).map Read.offset

/-- Where the server has said that the file ends. -/
def Loop.endsAt (l : Loop) : List ℕ :=
  l.eofAt.toList ++ (l.inflight.filter (·.slot.is Response.ends)).map Read.offset

/-- A response with data is no longer than was asked for, or was asked for at the end of the
file. -/
def Response.Fits (remoteLen : ℕ) (r : Read) : Response → Prop
  | .data d => d.length ≤ r.want ∨ remoteLen ≤ r.offset + r.want
  | _ => True

instance (remoteLen : ℕ) (r : Read) : (resp : Response) → Decidable (resp.Fits remoteLen r)
  | .data _ => inferInstanceAs (Decidable (_ ∨ _))
  | .status _ => inferInstanceAs (Decidable True)
  | .other _ => inferInstanceAs (Decidable True)

/-- The answer fits, and does not contradict the others: no data comes from where the file has
ended, and it does not end where, or before, data has come from that is not written yet. -/
def ServedAction.Agrees (d : Download) : ServedAction → Prop
  | .answer i resp =>
    ∀ r ∈ d.loop.inflight[i]?, resp.Fits d.loop.remoteLen r ∧
      (resp.carries = true → ∀ e ∈ d.loop.endsAt, r.offset < e) ∧
      (resp.ends = true → ∀ k ∈ d.loop.dataAt, k < r.offset)
  | _ => True

instance (d : Download) : (a : ServedAction) → Decidable (a.Agrees d)
  | .engine _ => inferInstanceAs (Decidable True)
  | .answer _ _ => inferInstanceAs (Decidable (∀ _ ∈ _, _))
  | .attrs _ _ => inferInstanceAs (Decidable True)

/-! ## The end of a lap -/

namespace Download

variable {overwrite : Bool} {d d' e : Download} {a : ServedAction}

/-- The write step that is over is followed by the end of the lap. -/
theorem writeNext_of_written (h : d.written = some e) : d.writeNext = e.endLap := by
  unfold written at h
  split_ifs at h with hwritten
  obtain rfl := Option.some_inj.1 h
  unfold writeNext
  rw [hwritten.1]
  exact if_neg (Nat.not_le.2 hwritten.2)

/-- A lap whose harvest and write step are over is followed by its end. -/
theorem lap_of_harvested (h : d.harvested = some e) : d.lap = e.endLap := by
  unfold harvested at h
  dsimp only at h
  split_ifs at h with hfailed
  unfold lap
  dsimp only
  rw [hfailed]
  exact writeNext_of_written h

/-- **The end of a lap is part of the step** that comes to it. -/
theorem stepServed_of_lapEnd (h : d.lapEnd overwrite a = some e) :
    d.stepServed overwrite a = some e.endLap := by
  obtain ⟨sink, env, shared, futility, identity, loop, pc⟩ := d
  unfold lapEnd at h
  split at h
  · split_ifs at h with hpc
    obtain rfl : pc = .resting := hpc
    exact congrArg some (lap_of_harvested h)
  · split at h
    · rename_i remoteLen hpc
      obtain rfl : pc = .anchoring remoteLen := hpc
      split at h
      · rename_i offset hplan
        dsimp only at hplan
        simp only [stepServed, Download.step, anchor, hplan]
        exact congrArg some (lap_of_harvested h)
      · cases h
    · rename_i hpc
      obtain rfl : pc = .noting .wrote := hpc
      exact congrArg some (writeNext_of_written h)
    · rename_i hpc
      obtain rfl : pc = .noting (.flushed .checkpoint) := hpc
      obtain rfl := Option.some_inj.1 h
      rfl
    · cases h
  · cases h

/-- `ended` is what the end of a lap computes. -/
theorem endLap_eq (d : Download) :
    d.endLap =
      match quiesceStep d.loop.stopping d.loop.inflight.isEmpty (ended d.loop) with
      | some verdict => d.close (.flushes (.final verdict))
      | none =>
        match issue d.env d.loop with
        | .error halt => d.returns halt.into
        | .ok l => { d with loop := l, pc := .pumping } := rfl

/-- A loop that does not go on waits for its next lap with nothing in flight. -/
theorem endLap_of_not_goesOn (h : ¬ d.GoesOn) :
    ∃ l, d.endLap = { d with loop := l, pc := .pumping } ∧ l.inflight = [] := by
  unfold GoesOn at h
  push Not at h
  obtain ⟨hverdict, hhalt, hread⟩ := h
  rw [endLap_eq, hverdict]
  cases hissue : issue d.env d.loop with
  | error halt => exact absurd hissue (hhalt halt)
  | ok l => exact ⟨l, rfl, hread l hissue⟩

/-- What is asked for first, where the whole pool is free: the gaps before what comes next. -/
theorem inflight_issueRefills {env : Env} {gaps : List (ℕ × ℕ)} {l l' : Loop}
    (h : issueRefills env gaps l = .ok l') (hl : l.inflight ≠ []) : l'.inflight ≠ [] := by
  induction gaps generalizing l with
  | nil =>
    obtain rfl := Except.ok.inj h
    exact hl
  | cons gap gaps ih =>
    unfold issueRefills at h
    dsimp only at h
    split at h
    · exact ih h hl
    · split at h
      · cases h
      · exact ih h (by simp)

/-- What comes next is asked for in addition. -/
theorem inflight_issueReads {env : Env} {n : ℕ} {l l' : Loop} (h : issueReads env n l = .ok l')
    (hl : l.inflight ≠ []) : l'.inflight ≠ [] := by
  induction n generalizing l with
  | zero =>
    obtain rfl := Except.ok.inj h
    exact hl
  | succ n ih =>
    unfold issueReads at h
    split_ifs at h
    · dsimp only at h
      split at h
      · obtain rfl := Except.ok.inj h
        exact hl
      · split at h
        · cases h
        · exact ih h (by simp)
    · obtain rfl := Except.ok.inj h
      exact hl

/-- The free pool grants anything. -/
theorem tryCharge_free {env : Env} (h : env.others = 0) (want : ℕ) :
    tryCharge env 0 want = some want := by
  unfold tryCharge Budget.admits
  simp [h]

/-- With the whole pool free, a gap is asked for. -/
theorem issueRefills_free {env : Env} {gap : ℕ × ℕ} {gaps : List (ℕ × ℕ)} {l l' : Loop}
    (hothers : env.others = 0) (hheld : l.held = 0)
    (h : issueRefills env (gap :: gaps) l = .ok l') : l'.inflight ≠ [] := by
  unfold issueRefills at h
  dsimp only at h
  rw [hheld, tryCharge_free hothers] at h
  dsimp only at h
  split at h
  · cases h
  · exact inflight_issueRefills h (by simp)

/-- With the whole pool free, what comes next is asked for. -/
theorem issueReads_free {env : Env} {n : ℕ} {l l' : Loop} (hothers : env.others = 0)
    (hheld : l.held = 0) (hnext : l.next < l.remoteLen) (heof : l.eofAt = none)
    (h : issueReads env (n + 1) l = .ok l') : l'.inflight ≠ [] := by
  unfold issueReads at h
  rw [if_pos ⟨hnext, heof⟩, hheld] at h
  dsimp only at h
  rw [tryCharge_free hothers] at h
  dsimp only at h
  split at h
  · cases h
  · exact inflight_issueReads h (by simp)

/-- **One end of a lap.** With nothing in flight and the whole pool free, the loop goes on exactly
when it is not stuck.

**Proof sketch.** Whatever is to be asked for is granted. What remains is a loop with nothing to
ask for; it ends unless pieces are left that are not written. -/
theorem goesOn_iff (hidle : d.Idle) : d.GoesOn ↔ ¬ Stuck d.loop := by
  obtain ⟨hstop, hinflight, hothers, hheld⟩ := hidle
  constructor
  · rintro hgoes ⟨hpending, hrefills, hnothing, hwritten⟩
    have hlive : ended d.loop = false := by
      unfold ended
      have hne : d.loop.pending.isEmpty = false := by simpa using hpending
      simp [hne, hwritten]
    have hquiesce : quiesceStep d.loop.stopping d.loop.inflight.isEmpty (ended d.loop) = none := by
      rw [hstop, hinflight, hlive]
      rfl
    have hissue : issue d.env d.loop = .ok { d.loop with refills := [] } := by
      unfold issue
      rw [if_neg (not_not.2 hstop), hrefills]
      show issueReads d.env _ { d.loop with refills := [] } = _
      cases d.loop.remoteLen - d.loop.next with
      | zero => rfl
      | succ n =>
        unfold issueReads
        refine if_neg ?_
        rintro ⟨hnext, heof⟩
        exact hnothing.elim (fun h => h heof) (Nat.not_le.2 hnext)
    rcases hgoes with hverdict | ⟨halt, hhalt⟩ | ⟨l, hl, hread⟩
    · exact hverdict hquiesce
    · rw [hissue] at hhalt
      cases hhalt
    · rw [hissue] at hl
      obtain rfl := Except.ok.inj hl
      exact hread hinflight
  · intro hstuck
    by_cases hended : ended d.loop = true
    · left
      rw [hstop, hinflight, hended]
      exact Option.some_ne_none _
    · right
      cases hissue : issue d.env d.loop with
      | error halt => exact .inl ⟨halt, rfl⟩
      | ok l =>
        refine .inr ⟨l, rfl, ?_⟩
        unfold issue at hissue
        rw [if_neg (not_not.2 hstop)] at hissue
        split at hissue
        · cases hissue
        · rename_i l₁ hl₁
          cases hrefills : d.loop.refills with
          | cons gap gaps =>
            rw [hrefills] at hl₁
            have hread := issueRefills_free (l := { d.loop with refills := [] }) hothers hheld hl₁
            exact inflight_issueReads hissue hread
          | nil =>
            rw [hrefills] at hl₁
            obtain rfl := Except.ok.inj hl₁
            have hmore : d.loop.next < d.loop.remoteLen ∧ d.loop.eofAt = none := by
              by_contra hnone
              have hpending : d.loop.pending = [] := by
                by_contra hpending
                refine hstuck ⟨hpending, hrefills, ?_, ?_⟩
                · by_contra hasks
                  push Not at hasks
                  exact hnone ⟨hasks.2, hasks.1⟩
                · by_contra hwritten
                  exact hended (by simp [ended, Nat.not_lt.1 hwritten])
              refine hended ?_
              unfold ended
              cases heof : d.loop.eofAt with
              | some x => simp [hinflight, hpending, hrefills]
              | none =>
                have hle : d.loop.remoteLen ≤ d.loop.next :=
                  Nat.not_lt.1 fun hlt => hnone ⟨hlt, heof⟩
                simp [hinflight, hpending, hrefills, hle]
            obtain ⟨n, hn⟩ : ∃ n, d.loop.remoteLen - d.loop.next = n + 1 :=
              ⟨d.loop.remoteLen - d.loop.next - 1, by omega⟩
            dsimp only at hissue
            rw [hn] at hissue
            exact issueReads_free (l := { d.loop with refills := [] }) hothers hheld hmore.1 hmore.2
              hissue

end Download

/-! ## What tiles the file -/

namespace Loop

open Tiling (Within count Tiles)

/-- The ranges that were asked for and are not written: those that wait to be written, those that
wait to be asked for again, and those on the wire. -/
def ranges (l : Loop) : List (ℕ × ℕ) :=
  l.pending.map (fun p => (p.1, p.2.length)) ++ l.refills ++
    l.inflight.map fun r => (r.offset, r.want)

/-- The file was said to end at the position, or before. -/
def Lost (l : Loop) (x : ℕ) : Prop := ∃ e ∈ l.eofAt, e ≤ x

/-- What was asked for, and a piece of length `n` that is being written, tile the stretch from
`written` to `next`. -/
structure Tiled (l : Loop) (n : ℕ) : Prop where
  chunk_pos : 0 < l.chunk
  next_le : l.next ≤ l.remoteLen
  written_le : l.written ≤ l.next ∨ l.next = l.remoteLen
  reads : ∀ r ∈ l.inflight, 0 < r.want ∧ r.offset + r.want ≤ l.remoteLen ∧
    ∀ resp, r.slot = .ready resp → resp.Fits l.remoteLen r
  gaps : ∀ g ∈ l.refills, 0 < g.2 ∧ g.1 + g.2 ≤ l.remoteLen
  pieces : ∀ p ∈ l.pending, 0 < p.2.length ∧ p.1 < l.remoteLen
  tiles : Tiles l.remoteLen l.written l.next l.Lost ((l.written, n) :: l.ranges)
  agrees : ∀ k ∈ l.dataAt, ∀ e ∈ l.endsAt, k < e

variable {l l' : Loop} {n : ℕ} {as bs : List Read} {r : Read}

/-- The fields that the tiling is about. -/
def view (l : Loop) : ℕ × ℕ × ℕ × ℕ × List Read × List (ℕ × Bytes) × List (ℕ × ℕ) × Option ℕ :=
  (l.remoteLen, l.next, l.written, l.chunk, l.inflight, l.pending, l.refills, l.eofAt)

/-- The other fields do not matter. -/
theorem Tiled.congr (h : l.Tiled n) (hview : l'.view = l.view) : l'.Tiled n := by
  obtain ⟨remoteLen, next, written, chunk, held, inflight, pending, refills, since, eofAt,
    stopping⟩ := l
  obtain ⟨remoteLen', next', written', chunk', held', inflight', pending', refills', since',
    eofAt', stopping'⟩ := l'
  simp only [view, Prod.mk.injEq] at hview
  obtain ⟨rfl, rfl, rfl, rfl, rfl, rfl, rfl, rfl⟩ := hview
  exact ⟨h.chunk_pos, h.next_le, h.written_le, h.reads, h.gaps, h.pieces, h.tiles, h.agrees⟩

theorem mem_dataAt {k : ℕ} :
    k ∈ l.dataAt ↔ (∃ p ∈ l.pending, p.1 = k) ∨
      ∃ r ∈ l.inflight, r.slot.is Response.carries = true ∧ r.offset = k := by
  simp [dataAt, and_assoc]

theorem mem_endsAt {e : ℕ} :
    e ∈ l.endsAt ↔ e ∈ l.eofAt ∨
      ∃ r ∈ l.inflight, r.slot.is Response.ends = true ∧ r.offset = e := by
  simp [endsAt, and_assoc]

/-- A read that begins: nothing was asked for yet. -/
theorem tiled_start {remoteLen offset chunk : ℕ} (hoffset : offset ≤ remoteLen)
    (hchunk : 0 < chunk) :
    Tiled { remoteLen := remoteLen, next := offset, written := offset, chunk := chunk } 0 where
  chunk_pos := hchunk
  next_le := hoffset
  written_le := .inl (Nat.le_refl _)
  reads _ h := absurd h List.not_mem_nil
  gaps _ h := absurd h List.not_mem_nil
  pieces _ h := absurd h List.not_mem_nil
  tiles := (Tiles.nil _ _ _).congr fun x _ => by
    rw [Tiling.count_cons, if_neg (by unfold Within; dsimp only; omega)]
    rfl
  agrees _ h := absurd h List.not_mem_nil

/-- How often a position is in the ranges of a loop. -/
theorem count_ranges (x : ℕ) (l : Loop) :
    count x l.ranges = count x (l.pending.map fun p => (p.1, p.2.length)) + count x l.refills +
      count x (l.inflight.map fun r => (r.offset, r.want)) := by
  unfold ranges
  rw [Tiling.count_append, Tiling.count_append]

/-- How often it is in the ranges of what is on the wire, with one READ set apart. -/
theorem count_inflight (x : ℕ) (as : List Read) (r : Read) (bs : List Read) :
    count x ((as ++ r :: bs).map fun r => (r.offset, r.want)) =
      count x ((as ++ bs).map fun r => (r.offset, r.want)) +
        if Within x (r.offset, r.want) then 1 else 0 := by
  rw [List.map_append, List.map_cons, List.map_append, Tiling.count_append, Tiling.count_append,
    Tiling.count_cons]
  omega

/-- The tiling, with the range of one READ in front. -/
theorem Tiled.tiles_read (h : l.Tiled n) (hl : l.inflight = as ++ r :: bs) :
    Tiles l.remoteLen l.written l.next l.Lost ((r.offset, r.want) :: (l.written, n) ::
      { l with inflight := as ++ bs }.ranges) := by
  refine h.tiles.congr fun x _ => ?_
  rw [Tiling.count_cons, Tiling.count_cons, Tiling.count_cons, count_ranges, count_ranges, hl,
    count_inflight]
  dsimp only
  omega

/-- What remains on the wire was on it. -/
theorem mem_rest {r' : Read} (h : r' ∈ as ++ bs) : r' ∈ as ++ r :: bs :=
  ((List.sublist_cons_self r bs).append_left as).subset h

/-- A READ is answered with the end of the file. -/
theorem Tiled.ends (h : l.Tiled n) (hl : l.inflight = as ++ r :: bs)
    (hr : r.slot.is Response.ends = true) :
    Tiled { l with
      inflight := as ++ bs
      eofAt := some (l.eofAt.elim r.offset (min · r.offset)) } n where
  chunk_pos := h.chunk_pos
  next_le := h.next_le
  written_le := h.written_le
  reads r' hr' := h.reads r' (hl ▸ mem_rest hr')
  gaps := h.gaps
  pieces := h.pieces
  tiles := by
    refine (h.tiles_read hl).lose ?_ ?_
    · rintro x ⟨e, he, hle⟩
      refine ⟨_, rfl, ?_⟩
      rw [Option.mem_def.1 he]
      exact (Nat.min_le_left _ _).trans hle
    · intro x hx
      refine ⟨_, rfl, ?_⟩
      have hstart : r.offset ≤ x := hx.1
      cases l.eofAt with
      | none => exact hstart
      | some e => exact (Nat.min_le_right _ _).trans hstart
  agrees k hk e he := by
    have hk' : k ∈ l.dataAt := by
      rw [mem_dataAt] at hk ⊢
      rw [hl]
      exact hk.imp_right fun ⟨r', hr', hdata⟩ => ⟨r', mem_rest hr', hdata⟩
    have hread : r.offset ∈ l.endsAt := by
      rw [mem_endsAt, hl]
      exact .inr ⟨r, List.mem_append_cons_self, hr, rfl⟩
    rcases mem_endsAt.1 he with heof | ⟨r', hr', hends⟩
    · obtain rfl := Option.some_inj.1 (Option.mem_def.1 heof)
      cases heof' : l.eofAt with
      | none => exact h.agrees k hk' _ hread
      | some e' =>
        have hfirst : k < e' := h.agrees k hk' e' (mem_endsAt.2 (.inl heof'))
        exact Nat.lt_min.2 ⟨hfirst, h.agrees k hk' _ hread⟩
    · refine h.agrees k hk' e (mem_endsAt.2 (.inr ⟨r', ?_, hends⟩))
      rw [hl]
      exact mem_rest hr'

/-- A READ is answered with data. -/
theorem Tiled.carries (h : l.Tiled n) (hl : l.inflight = as ++ r :: bs) {data : Bytes}
    (hr : r.slot = .ready (.data data)) (hdata : data.length ≠ 0) :
    Tiled { l with
      inflight := as ++ bs
      refills :=
        if data.length < r.want then
          l.refills ++ [(r.offset + data.length, r.want - data.length)]
        else l.refills
      pending := (r.offset, data) :: l.pending.filter (·.1 ≠ r.offset) } n := by
  obtain ⟨hwant, hend, hfits⟩ := h.reads r (hl ▸ List.mem_append_cons_self)
  have hfit : data.length ≤ r.want ∨ l.remoteLen ≤ r.offset + r.want := hfits _ hr
  have htiles := h.tiles_read hl
  -- nothing else begins where this READ does
  have hfilter : l.pending.filter (·.1 ≠ r.offset) = l.pending := by
    refine List.filter_eq_self.2 fun p hp => ?_
    have hmem : (p.1, p.2.length) ∈ (l.written, n) :: { l with inflight := as ++ bs }.ranges := by
      refine List.mem_cons_of_mem _ (List.mem_append_left _ (List.mem_append_left _ ?_))
      exact List.mem_map_of_mem (f := fun p : ℕ × Bytes => (p.1, p.2.length)) hp
    have hne := htiles.start_ne hwant (by dsimp only; omega) hmem (h.pieces p hp).1
    simpa using hne
  rw [hfilter]
  have hpiece : ∀ x < l.remoteLen, (if Within x (r.offset, r.want) then 1 else 0) =
      (if Within x (r.offset, data.length) then 1 else 0) +
        count x (if data.length < r.want then [(r.offset + data.length, r.want - data.length)]
          else []) := by
    intro x hx
    have hsplit := Tiling.count_split x r.offset (Nat.min_le_right data.length r.want) []
    rw [Tiling.count_cons, Tiling.count_nil, Tiling.count_cons] at hsplit
    by_cases hshort : data.length < r.want
    · rw [if_pos hshort]
      rw [Nat.min_eq_left hshort.le] at hsplit
      omega
    · rw [if_neg hshort, Tiling.count_nil]
      have hiff : Within x (r.offset, r.want) ↔ Within x (r.offset, data.length) := by
        simp only [Within]
        omega
      simp only [hiff, Nat.add_zero]
  exact {
    chunk_pos := h.chunk_pos
    next_le := h.next_le
    written_le := h.written_le
    reads := fun r' hr' => h.reads r' (hl ▸ mem_rest hr')
    gaps := fun g hg => by
      dsimp only at hg
      split_ifs at hg with hshort
      · rcases List.mem_append.1 hg with hg | hg
        · exact h.gaps g hg
        · obtain rfl := List.mem_singleton.1 hg
          dsimp only
          omega
      · exact h.gaps g hg
    pieces := fun p hp => by
      rcases List.mem_cons.1 hp with rfl | hp
      · dsimp only
        omega
      · exact h.pieces p hp
    tiles := by
      refine htiles.congr fun x hx => ?_
      have hx' := hpiece x hx
      have hrefills : count x (if data.length < r.want then
          l.refills ++ [(r.offset + data.length, r.want - data.length)] else l.refills) =
          count x l.refills +
          count x (if data.length < r.want then [(r.offset + data.length, r.want - data.length)]
            else []) := by
        split_ifs
        · exact Tiling.count_append x _ _
        · rfl
      rw [Tiling.count_cons, Tiling.count_cons, Tiling.count_cons, count_ranges, count_ranges]
      dsimp only
      rw [List.map_cons, Tiling.count_cons, hrefills]
      dsimp only
      omega
    agrees := fun k hk e he => by
      have hread : r.slot.is Response.carries = true := by
        rw [hr]
        simpa [Slot.is, Response.carries] using hdata
      have hk' : k ∈ l.dataAt := by
        rw [mem_dataAt] at hk ⊢
        rcases hk with ⟨p, hp, rfl⟩ | ⟨r', hr', hk⟩
        · rcases List.mem_cons.1 hp with rfl | hp
          · exact .inr ⟨r, hl ▸ List.mem_append_cons_self, hread, rfl⟩
          · exact .inl ⟨p, hp, rfl⟩
        · exact .inr ⟨r', hl ▸ mem_rest hr', hk⟩
      have he' : e ∈ l.endsAt := by
        rw [mem_endsAt] at he ⊢
        rcases he with he | ⟨r', hr', hends⟩
        · exact .inl he
        · exact .inr ⟨r', hl ▸ mem_rest hr', hends⟩
      exact h.agrees k hk' e he' }

/-- A READ is answered, and the attempt goes on. -/
theorem Tiled.answered {rs : List Read} {resp : Response}
    (h : Tiled { l with inflight := l.inflight ++ r :: rs } n) (hr : r.slot = .ready resp)
    (hon : ((l.release r.want).answered r.offset r.want resp).2 = none) :
    Tiled { ((l.release r.want).answered r.offset r.want resp).1 with
      inflight := ((l.release r.want).answered r.offset r.want resp).1.inflight ++ rs } n := by
  cases resp with
  | data d =>
    by_cases hempty : d.length = 0
    · have hends : r.slot.is Response.ends = true := by
        rw [hr]
        simpa [Slot.is, Response.ends] using hempty
      have hanswered : (l.release r.want).answered r.offset r.want (.data d) =
        ((l.release r.want).eof r.offset, none) := if_pos hempty
      rw [hanswered]
      exact (h.ends rfl hends).congr rfl
    · have hanswered : (l.release r.want).answered r.offset r.want (.data d) =
        ({ l.release r.want with
          refills :=
            if d.length < r.want then
              (l.release r.want).refills ++ [(r.offset + d.length, r.want - d.length)]
            else (l.release r.want).refills
          pending := (r.offset, d) :: (l.release r.want).pending.filter (·.1 ≠ r.offset) },
          none) := if_neg hempty
      rw [hanswered]
      exact (h.carries rfl hr hempty).congr rfl
  | status s =>
    cases s with
    | error e => cases hon
    | ok outcome =>
      refine (h.ends rfl ?_).congr rfl
      rw [hr]
      rfl
  | other what => cases hon

end Loop

/-- A failure that was come across ends the attempt. -/
theorem harvest_of_some (rs : List Read) (l : Loop) (f : Attempt) :
    (harvest rs l (some f)).2 ≠ none := by
  induction rs generalizing l f with
  | nil => exact Option.some_ne_none f
  | cons r rs ih =>
    unfold harvest
    split
    · exact ih _ f
    · dsimp only
      cases ((l.release r.want).answered r.offset r.want _).2 with
      | none => exact ih _ f
      | some g => exact ih _ g
    · exact ih _ _

/-- The harvest keeps the tiling, where it does not end the attempt. -/
theorem harvest_tiled {rs : List Read} {l : Loop} {f : Option Attempt} {n : ℕ}
    (h : Loop.Tiled { l with inflight := l.inflight ++ rs } n) (hon : (harvest rs l f).2 = none) :
    (harvest rs l f).1.Tiled n := by
  induction rs generalizing l f with
  | nil =>
    rw [List.append_nil] at h
    exact h
  | cons r rs ih =>
    unfold harvest at hon ⊢
    split
    · rename_i hpending
      rw [hpending] at hon
      refine ih ?_ hon
      rw [List.append_assoc]
      exact h
    · rename_i resp hready
      rw [hready] at hon
      dsimp only at hon ⊢
      cases hfail : ((l.release r.want).answered r.offset r.want resp).2 with
      | some g =>
        rw [hfail] at hon
        exact absurd hon (harvest_of_some rs _ g)
      | none =>
        rw [hfail] at hon
        exact ih (h.answered hready hfail) hon
    · rename_i e hfailed
      rw [hfailed] at hon
      exact absurd hon (harvest_of_some rs _ _)

namespace Loop

open Tiling (Within count Tiles)

variable {l l' : Loop} {n : ℕ} {env : Env}

/-- A READ that was just issued has not been answered. -/
theorem mem_inflight_issued {r r' : Read} (hr : r ∈ l.inflight ++ [r']) (hpending : r'.slot = .pending)
    {p : Response → Bool} (hp : r.slot.is p = true) : r ∈ l.inflight := by
  rcases List.mem_append.1 hr with hr | hr
  · exact hr
  · obtain rfl := List.mem_singleton.1 hr
    rw [hpending] at hp
    cases hp

/-- A READ is issued: `gaps` is what becomes of the refills. -/
theorem Tiled.issue (h : l.Tiled n) {offset want held next : ℕ} (gaps : List (ℕ × ℕ))
    (hwant : 0 < want) (hend : offset + want ≤ l.remoteLen) (hnext : l.next ≤ next)
    (hle : next ≤ l.remoteLen)
    (hgaps : ∀ g ∈ gaps, 0 < g.2 ∧ g.1 + g.2 ≤ l.remoteLen)
    (htiles : Tiles l.remoteLen l.written next l.Lost ((l.written, n) :: ({ l with
      inflight := l.inflight ++ [{ offset := offset, want := want }]
      refills := gaps } : Loop).ranges)) :
    Tiled { l with
      held := held
      inflight := l.inflight ++ [{ offset := offset, want := want }]
      next := next
      refills := gaps } n where
  chunk_pos := h.chunk_pos
  next_le := hle
  written_le := by
    have hwritten := h.written_le
    show l.written ≤ next ∨ next = l.remoteLen
    omega
  reads r hr := by
    rcases List.mem_append.1 hr with hr | hr
    · exact h.reads r hr
    · obtain rfl := List.mem_singleton.1 hr
      exact ⟨hwant, hend, fun _ hslot => by cases hslot⟩
  gaps := hgaps
  pieces := h.pieces
  tiles := htiles
  agrees k hk e he := by
    refine h.agrees k ?_ e ?_
    · rw [mem_dataAt] at hk ⊢
      exact hk.imp_right fun ⟨r, hr, hdata⟩ => ⟨r, mem_inflight_issued hr rfl hdata.1, hdata⟩
    · rw [mem_endsAt] at he ⊢
      exact he.imp_right fun ⟨r, hr, hends⟩ => ⟨r, mem_inflight_issued hr rfl hends.1, hends⟩

/-- How often a position is in the ranges after a READ was issued. -/
theorem count_issued (x offset want : ℕ) (gaps : List (ℕ × ℕ)) (l : Loop) :
    count x ({ l with
      inflight := l.inflight ++ [{ offset := offset, want := want }]
      refills := gaps } : Loop).ranges + count x l.refills =
    count x l.ranges + count x gaps + if Within x (offset, want) then 1 else 0 := by
  rw [count_ranges, count_ranges]
  dsimp only
  rw [List.map_append, List.map_singleton, Tiling.count_append, Tiling.count_cons, Tiling.count_nil]
  dsimp only
  omega

/-- The gaps are asked for again, as far as permits go. -/
theorem issueRefills_tiled {gaps : List (ℕ × ℕ)}
    (h : Tiled { l with refills := l.refills ++ gaps } n)
    (hissue : issueRefills env gaps l = .ok l') : l'.Tiled n := by
  induction gaps generalizing l with
  | nil =>
    obtain rfl := Except.ok.inj hissue
    rw [List.append_nil] at h
    exact h
  | cons gap gaps ih =>
    obtain ⟨offset, len⟩ := gap
    obtain ⟨hlen, hend⟩ := h.gaps (offset, len) List.mem_append_cons_self
    have hchunk : 0 < l.chunk := h.chunk_pos
    have hend' : offset + len ≤ l.remoteLen := hend
    unfold issueRefills at hissue
    dsimp only at hissue hlen
    split at hissue
    · refine ih ?_ hissue
      rw [List.append_assoc]
      exact h
    · split at hissue
      · cases hissue
      · refine ih ?_ hissue
        refine h.issue _ (by omega) (by show offset + _ ≤ l.remoteLen; omega) (Nat.le_refl _)
          h.next_le ?_ ?_
        · intro g hg
          rcases List.mem_append.1 hg with hg | hg
          · split_ifs at hg with hlong
            · rcases List.mem_append.1 hg with hg | hg
              · exact h.gaps g (List.mem_append_left _ hg)
              · obtain rfl := List.mem_singleton.1 hg
                dsimp only
                omega
            · exact h.gaps g (List.mem_append_left _ hg)
          · exact h.gaps g (List.mem_append_right _ (List.mem_cons_of_mem _ hg))
        · refine h.tiles.congr fun x _ => ?_
          have hissued := count_issued x offset (min len l.chunk)
            ((if min len l.chunk < len then
                l.refills ++ [(offset + min len l.chunk, len - min len l.chunk)]
              else l.refills) ++ gaps) { l with refills := l.refills ++ (offset, len) :: gaps }
          have hsplit := Tiling.count_split x offset (Nat.min_le_left len l.chunk) []
          rw [Tiling.count_cons, Tiling.count_nil, Tiling.count_cons] at hsplit
          have hgaps : count x ((if min len l.chunk < len then
                l.refills ++ [(offset + min len l.chunk, len - min len l.chunk)]
              else l.refills) ++ gaps) =
              count x l.refills +
                count x [(offset + min len l.chunk, len - min len l.chunk)] + count x gaps := by
            rw [Tiling.count_append]
            split_ifs with hlong
            · rw [Tiling.count_append]
            · have hempty : count x [(offset + min len l.chunk, len - min len l.chunk)] = 0 := by
                rw [Tiling.count_cons, Tiling.count_nil, if_neg]
                unfold Within
                dsimp only
                omega
              rw [hempty, Nat.add_zero]
          dsimp only at hissued
          rw [Tiling.count_append, Tiling.count_cons] at hissued
          rw [Tiling.count_cons, Tiling.count_cons]
          dsimp only
          omega

/-- What comes next is asked for, as far as permits go. -/
theorem issueReads_tiled {k : ℕ} (h : l.Tiled n) (hissue : issueReads env k l = .ok l') :
    l'.Tiled n := by
  induction k generalizing l with
  | zero =>
    obtain rfl := Except.ok.inj hissue
    exact h
  | succ k ih =>
    unfold issueReads at hissue
    split_ifs at hissue with hmore
    · dsimp only at hissue
      split at hissue
      · obtain rfl := Except.ok.inj hissue
        exact h
      · split at hissue
        · cases hissue
        · have hchunk := h.chunk_pos
          have hnext := hmore.1
          have hwritten : l.written ≤ l.next := by
            have hle := h.written_le
            omega
          refine ih ?_ hissue
          refine h.issue l.refills (by omega) (by omega) (by omega) (by omega) h.gaps ?_
          refine (h.tiles.extend hwritten).congr fun x _ => ?_
          have hissued := count_issued x l.next (min (l.remoteLen - l.next) l.chunk) l.refills l
          rw [Tiling.count_cons, Tiling.count_cons, Tiling.count_cons]
          omega
    · obtain rfl := Except.ok.inj hissue
      exact h

/-- Issuing reads keeps the tiling. -/
theorem issue_tiled (h : l.Tiled n) (hissue : Transfer.issue env l = .ok l') : l'.Tiled n := by
  unfold Transfer.issue at hissue
  split_ifs at hissue
  · obtain rfl := Except.ok.inj hissue
    exact h
  · split at hissue
    · cases hissue
    · rename_i l₁ hrefills
      refine issueReads_tiled (issueRefills_tiled (l := { l with refills := [] }) ?_ hrefills) hissue
      exact h

/-- Nothing that waits to be written is contiguous. -/
def Waits (l : Loop) : Prop := l.pending.find? (·.1 = l.written) = none

/-- A piece is taken to be written. -/
theorem Tiled.take (h : l.Tiled 0) {offset : ℕ} {data : Bytes}
    (hfind : l.pending.find? (·.1 = l.written) = some (offset, data)) :
    Tiled { l with pending := l.pending.filter (·.1 ≠ offset) } data.length := by
  obtain ⟨hoffset, ps, qs, hpending, hps⟩ := List.find?_eq_some_iff_append.1 hfind
  obtain rfl : offset = l.written := by simpa using hoffset
  have hpiece := h.pieces (l.written, data) (hpending ▸ List.mem_append_cons_self)
  have hfront : Tiles l.remoteLen l.written l.next l.Lost ((l.written, data.length) ::
      ({ l with pending := ps ++ qs } : Loop).ranges) := by
    refine h.tiles.congr fun x _ => ?_
    have hempty : ¬ Within x (l.written, 0) := by
      unfold Within
      dsimp only
      omega
    rw [Tiling.count_cons, Tiling.count_cons, count_ranges, count_ranges, hpending, if_neg hempty]
    dsimp only
    rw [List.map_append, List.map_append, List.map_cons, Tiling.count_append, Tiling.count_append,
      Tiling.count_cons]
    dsimp only
    omega
  have hrest : l.pending.filter (·.1 ≠ l.written) = ps ++ qs := by
    rw [hpending, List.filter_append, List.filter_cons_of_neg (by simp)]
    refine congrArg₂ (· ++ ·) (List.filter_eq_self.2 fun p hp => ?_)
      (List.filter_eq_self.2 fun p hp => ?_)
    · simpa using hps p hp
    · have hmem : (p.1, p.2.length) ∈ ({ l with pending := ps ++ qs } : Loop).ranges := by
        refine List.mem_append_left _ (List.mem_append_left _ ?_)
        exact List.mem_map_of_mem (f := fun p : ℕ × Bytes => (p.1, p.2.length))
          (List.mem_append_right ps hp)
      have hpos := (h.pieces p (hpending ▸ List.mem_append_right ps (List.mem_cons_of_mem _ hp))).1
      have hne := hfront.start_ne hpiece.1 hpiece.2 hmem hpos
      simpa using hne
  have hsubset : ∀ p ∈ ps ++ qs, p ∈ l.pending := by
    intro p hp
    rw [hpending]
    exact ((List.sublist_cons_self _ qs).append_left ps).subset hp
  rw [hrest]
  exact {
    chunk_pos := h.chunk_pos
    next_le := h.next_le
    written_le := h.written_le
    reads := h.reads
    gaps := h.gaps
    pieces := fun p hp => h.pieces p (hsubset p hp)
    tiles := hfront
    agrees := fun k hk e he => by
      refine h.agrees k ?_ e he
      rw [mem_dataAt] at hk ⊢
      exact hk.imp_left fun ⟨p, hp, hk⟩ => ⟨p, hsubset p hp, hk⟩ }

/-- The piece is written. -/
theorem Tiled.wrote (h : l.Tiled n) : Tiled { l with written := l.written + n } 0 where
  chunk_pos := h.chunk_pos
  next_le := h.next_le
  written_le := by
    rcases h.written_le with hle | heq
    · by_cases hend : l.next < l.remoteLen
      · exact .inl (h.tiles.advance_le hle hend)
      · exact .inr (Nat.le_antisymm h.next_le (Nat.not_lt.1 hend))
    · exact .inr heq
  reads := h.reads
  gaps := h.gaps
  pieces := h.pieces
  tiles := h.tiles.advance.congr fun x _ => by
    rw [Tiling.count_cons, if_neg (by unfold Within; dsimp only; omega)]
    rfl
  agrees := h.agrees

/-- The READs on the wire are answered, or fail. -/
theorem Tiled.reslot (h : l.Tiled n) {rs : List Read}
    (hsame : rs.map (fun r => (r.offset, r.want)) = l.inflight.map fun r => (r.offset, r.want))
    (hfits : ∀ r ∈ rs, ∀ resp, r.slot = .ready resp → resp.Fits l.remoteLen r)
    (hagrees : ∀ k ∈ ({ l with inflight := rs } : Loop).dataAt,
      ∀ e ∈ ({ l with inflight := rs } : Loop).endsAt, k < e) :
    Tiled { l with inflight := rs } n where
  chunk_pos := h.chunk_pos
  next_le := h.next_le
  written_le := h.written_le
  reads r hr := by
    have hmem : (r.offset, r.want) ∈ l.inflight.map fun r => (r.offset, r.want) := by
      rw [← hsame]
      exact List.mem_map_of_mem (f := fun r : Read => (r.offset, r.want)) hr
    obtain ⟨r₀, hr₀, heq⟩ := List.mem_map.1 hmem
    obtain ⟨hoffset, hwant⟩ := Prod.mk.inj heq
    obtain ⟨hpos, hend, -⟩ := h.reads r₀ hr₀
    rw [hwant] at hpos hend
    rw [hoffset] at hend
    exact ⟨hpos, hend, hfits r hr⟩
  gaps := h.gaps
  pieces := h.pieces
  tiles := by
    have hranges : ({ l with inflight := rs } : Loop).ranges = l.ranges := by
      unfold ranges
      rw [← hsame]
    rw [hranges]
    exact h.tiles
  agrees := hagrees

/-- A READ is answered, by a server that does not contradict itself. -/
theorem Tiled.answer (h : l.Tiled n) {i : ℕ} {r : Read} {resp : Response}
    (hi : l.inflight[i]? = some r) (hfits : resp.Fits l.remoteLen r)
    (hcarries : resp.carries = true → ∀ e ∈ l.endsAt, r.offset < e)
    (hends : resp.ends = true → ∀ k ∈ l.dataAt, k < r.offset) :
    Tiled { l with inflight := l.inflight.set i { r with slot := .ready resp } } n := by
  have hold : ∀ r' ∈ l.inflight.set i { r with slot := .ready resp },
      r' ∈ l.inflight ∨ r' = { r with slot := .ready resp } :=
    fun r' hr' => List.mem_or_eq_of_mem_set hr'
  refine h.reslot ?_ ?_ ?_
  · obtain ⟨hlt, rfl⟩ := List.getElem?_eq_some_iff.1 hi
    rw [List.map_set]
    have hlt' : i < (l.inflight.map fun r => (r.offset, r.want)).length := by
      rwa [List.length_map]
    rw [← List.set_getElem_self hlt', List.getElem_map, List.set_set]
  · intro r' hr' resp' hslot
    rcases hold r' hr' with hmem | rfl
    · exact (h.reads r' hmem).2.2 resp' hslot
    · obtain rfl := Slot.ready.inj hslot
      cases resp with
      | data d => exact hfits
      | status s => trivial
      | other what => trivial
  · intro k hk e he
    rw [mem_dataAt] at hk
    rw [mem_endsAt] at he
    have hk' : k ∈ l.dataAt ∨ (resp.carries = true ∧ k = r.offset) := by
      rcases hk with hpiece | ⟨r', hr', hdata, rfl⟩
      · exact .inl (mem_dataAt.2 (.inl hpiece))
      · rcases hold r' hr' with hmem | rfl
        · exact .inl (mem_dataAt.2 (.inr ⟨r', hmem, hdata, rfl⟩))
        · exact .inr ⟨hdata, rfl⟩
    have he' : e ∈ l.endsAt ∨ (resp.ends = true ∧ e = r.offset) := by
      rcases he with heof | ⟨r', hr', hend, rfl⟩
      · exact .inl (mem_endsAt.2 (.inl heof))
      · rcases hold r' hr' with hmem | rfl
        · exact .inl (mem_endsAt.2 (.inr ⟨r', hmem, hend, rfl⟩))
        · exact .inr ⟨hend, rfl⟩
    rcases hk' with hk | ⟨hdata, rfl⟩
    · rcases he' with he | ⟨hend, rfl⟩
      · exact h.agrees k hk e he
      · exact hends hend k hk
    · rcases he' with he | ⟨hend, rfl⟩
      · exact hcarries hdata e he
      · cases resp with
        | data d => simp [Response.carries, Response.ends] at hdata hend; exact absurd hend hdata
        | status s => cases hdata
        | other what => cases hdata

/-- What still waits on the wire fails. -/
theorem Tiled.fail (h : l.Tiled n) (reason : String) :
    Tiled { l with inflight := l.inflight.map fun r =>
      if r.slot = .pending then { r with slot := .failed reason } else r } n := by
  have hold : ∀ r' ∈ (l.inflight.map fun r =>
        if r.slot = .pending then { r with slot := .failed reason } else r),
      r' ∈ l.inflight ∨ r'.slot = .failed reason := by
    intro r' hr'
    obtain ⟨r, hr, rfl⟩ := List.mem_map.1 hr'
    split_ifs
    · exact .inr rfl
    · exact .inl hr
  refine h.reslot ?_ ?_ ?_
  · rw [List.map_map]
    refine List.map_congr_left fun r _ => ?_
    dsimp only [Function.comp]
    split_ifs <;> rfl
  · intro r' hr' resp hslot
    rcases hold r' hr' with hmem | hfailed
    · exact (h.reads r' hmem).2.2 resp hslot
    · cases hfailed.symm.trans hslot
  · intro k hk e he
    refine h.agrees k ?_ e ?_
    · rw [mem_dataAt] at hk ⊢
      refine hk.imp_right fun ⟨r', hr', hdata⟩ => ?_
      rcases hold r' hr' with hmem | hfailed
      · exact ⟨r', hmem, hdata⟩
      · rw [hfailed] at hdata
        cases hdata.1
    · rw [mem_endsAt] at he ⊢
      refine he.imp_right fun ⟨r', hr', hend⟩ => ?_
      rcases hold r' hr' with hmem | hfailed
      · exact ⟨r', hmem, hend⟩
      · rw [hfailed] at hend
        cases hend.1

/-- **Not stuck.** With nothing on the wire and nothing contiguous, a loop whose ranges tile the
file is not stuck.

**Proof sketch.** If a piece waits and there are no gaps to ask for, the piece that begins at the
front of the stretch waits too, since the server has not said that the file ends before. -/
theorem Tiled.not_stuck (h : l.Tiled 0) (hwaits : l.Waits) (hinflight : l.inflight = []) :
    ¬ Download.Stuck l := by
  rintro ⟨hpending, hrefills, -, -⟩
  obtain ⟨p, hp⟩ := List.exists_mem_of_ne_nil _ hpending
  have hranges : l.ranges = l.pending.map fun p => (p.1, p.2.length) := by
    unfold ranges
    rw [hrefills, hinflight, List.append_nil, List.map_nil, List.append_nil]
  have htiles : Tiles l.remoteLen l.written l.next l.Lost
      (l.pending.map fun p => (p.1, p.2.length)) := by
    refine h.tiles.congr fun x _ => ?_
    rw [Tiling.count_cons, if_neg (by unfold Within; dsimp only; omega), hranges]
    rfl
  have hnot : ¬ l.Lost p.1 := by
    rintro ⟨e, he, hle⟩
    have hlt := h.agrees p.1 (mem_dataAt.2 (.inl ⟨p, hp, rfl⟩)) e (mem_endsAt.2 (.inl he))
    omega
  obtain ⟨r, hr, hstart⟩ := htiles.exists_start (List.mem_map_of_mem hp) (h.pieces p hp).1
    (h.pieces p hp).2 (fun x y ⟨e, he, hle⟩ hxy => ⟨e, he, hle.trans hxy⟩) hnot
  obtain ⟨q, hq, rfl⟩ := List.mem_map.1 hr
  have hno := List.find?_eq_none.1 hwaits q hq
  exact hno (by simpa using hstart)

end Loop

/-! ## Runs -/

/-- What holds of the loop where a download stands. -/
def Loop.TiledAt (l : Loop) : DownloadPc → Prop
  | .writing data => l.Tiled data.length
  | .noting .wrote | .pumping | .resting => l.Tiled 0
  | .closing (.flushes .checkpoint) | .flushing .checkpoint | .noting (.flushed .checkpoint) =>
    l.Tiled 0 ∧ l.Waits
  | _ => True

/-- What the loop keeps, it keeps wherever the download stands. -/
theorem Loop.TiledAt.mono {l l' : Loop} {pc : DownloadPc} (h : l.TiledAt pc)
    (htiled : ∀ n, l.Tiled n → l'.Tiled n) (hwaits : l.Waits → l'.Waits) : l'.TiledAt pc := by
  unfold Loop.TiledAt at h ⊢
  split at h <;> first | exact htiled _ h | exact ⟨htiled _ h.1, hwaits h.2⟩ | trivial

/-- A payload is not empty. -/
theorem payloadSize_pos (advertised : Option ℕ) : 0 < payloadSize advertised := by
  unfold payloadSize
  split
  · split_ifs with hpos
    · exact Nat.lt_min.2 ⟨hpos, by decide⟩
    · decide
  · decide

/-- A download starts within the file. -/
theorem planDownload_start_le {committed remoteLen offset : ℕ} {overwrite : Bool}
    (h : planDownload committed remoteLen overwrite = .ok (.start offset)) :
    offset ≤ remoteLen := by
  unfold planDownload at h
  split_ifs at h <;> cases h
  · exact Nat.zero_le _
  · omega

namespace Download

variable {overwrite : Bool} {d d' e : Download} {a : ServedAction}

/-- The loop of the download is tiled, where it has one. -/
def Tracked (d : Download) : Prop := d.loop.TiledAt d.pc

theorem tracked_returns (d : Download) (a : Attempt) : (d.returns a).Tracked := trivial

/-- A lap ends. -/
theorem tracked_endLap (h : d.loop.Tiled 0) : d.endLap.Tracked := by
  rw [endLap_eq]
  split
  · trivial
  · split
    · exact tracked_returns d _
    · rename_i l hissue
      exact Loop.issue_tiled h hissue

/-- The write step. -/
theorem tracked_writeNext (h : d.loop.Tiled 0) : d.writeNext.Tracked := by
  unfold writeNext
  split
  · rename_i offset data hfind
    exact h.take hfind
  · rename_i hwaits
    split_ifs
    · exact ⟨h, hwaits⟩
    · exact tracked_endLap h

/-- The harvest of a lap, if it does not end the attempt. -/
theorem tiled_harvest (h : d.loop.Tiled 0) {stopping : Option Stop}
    (hon : (harvest d.loop.inflight { d.loop with stopping := stopping, inflight := [] } none).2 =
      none) :
    (harvest d.loop.inflight { d.loop with stopping := stopping, inflight := [] } none).1.Tiled 0 :=
  harvest_tiled (h.congr rfl) hon

/-- A lap begins. -/
theorem tracked_lap (h : d.loop.Tiled 0) : d.lap.Tracked := by
  unfold lap
  dsimp only
  split
  · trivial
  · rename_i hon
    exact tracked_writeNext (tiled_harvest h hon)

/-- An attempt resumes. -/
theorem tracked_anchor (d : Download) (remoteLen : ℕ) : (d.anchor overwrite remoteLen).Tracked := by
  unfold anchor
  dsimp only
  split
  · trivial
  · trivial
  · rename_i offset hplan
    exact tracked_lap (Loop.tiled_start (planDownload_start_le hplan) (payloadSize_pos _))

/-- The attributes arrive. -/
theorem tracked_statted (file : Bytes) (d : Download) (r : Except Halt FileAttrs) :
    (d.statted file r).Tracked := by
  unfold statted
  split
  · trivial
  · split_ifs
    · trivial
    · dsimp only
      split
      · trivial
      · trivial

/-- A flush returns. -/
theorem tracked_flushed {f : Flush} (h : f = .checkpoint → d.loop.Tiled 0 ∧ d.loop.Waits)
    (err : Option String) : (d.flushed f err).Tracked := by
  unfold flushed
  cases f with
  | ignoring a => exact tracked_returns _ a
  | complete =>
    cases err with
    | some e => exact tracked_returns d _
    | none => trivial
  | checkpoint =>
    cases err with
    | some e => exact tracked_returns d _
    | none => exact ⟨(h rfl).1.congr rfl, (h rfl).2⟩
  | final verdict =>
    cases err with
    | some e => exact tracked_returns d _
    | none => trivial

/-- The sink has said what it has committed. -/
theorem tracked_noted {n : Note} (h : d.loop.TiledAt (.noting n)) : (d.noted n).Tracked := by
  unfold noted
  cases n with
  | wrote => exact tracked_writeNext h
  | flushed f =>
    cases f with
    | complete => exact tracked_returns _ _
    | ignoring a => exact tracked_returns _ _
    | checkpoint => exact tracked_endLap h.1
    | final verdict =>
      dsimp only
      unfold conclude
      split
      · exact tracked_returns _ _
      · split_ifs
        · exact tracked_returns _ _
        · exact tracked_returns _ _

/-- A step of the engine keeps the loop tiled. -/
theorem Tracked.step (h : d.Tracked) {a : DownloadAction} (hstep : d.step [] overwrite a = some d')
    (hanswer : ∀ i r, a ≠ .answer i r) : d'.Tracked := by
  unfold Tracked at h
  cases a with
  | ensured err =>
    simp only [Download.step] at hstep
    split_ifs at hstep
    cases err <;> cases hstep
    · trivial
    · exact tracked_returns d _
  | opened err =>
    simp only [Download.step] at hstep
    split_ifs at hstep
    cases err <;> cases hstep
    · trivial
    · exact tracked_returns d _
  | statted r =>
    simp only [Download.step] at hstep
    split_ifs at hstep
    cases hstep
    exact tracked_statted [] d r
  | closed =>
    simp only [Download.step] at hstep
    split at hstep <;> cases hstep
    · exact tracked_returns d _
    · rename_i f hpc
      rw [hpc] at h
      cases f <;> exact h
  | committed =>
    simp only [Download.step] at hstep
    split at hstep <;> cases hstep
    · exact tracked_anchor d _
    · rename_i n hpc
      rw [hpc] at h
      exact tracked_noted h
  | flushed err =>
    simp only [Download.step] at hstep
    split at hstep <;> cases hstep
    · rename_i hpc
      rw [hpc] at h
      unfold checkpointed
      split
      · trivial
      · exact tracked_flushed (fun _ => h) none
    · rename_i f hne hpc
      exact tracked_flushed (fun hf => absurd hf hne) err
  | wrote err =>
    simp only [Download.step] at hstep
    split at hstep <;> cases hstep
    rename_i data hpc
    rw [hpc] at h
    unfold Download.wrote
    split
    · trivial
    · exact h.wrote.congr rfl
  | round =>
    simp only [Download.step] at hstep
    split_ifs at hstep with hpc
    cases hstep
    rw [not_not.1 hpc] at h
    unfold Download.round
    split
    · exact h
    · trivial
  | rested =>
    simp only [Download.step] at hstep
    split at hstep <;> cases hstep
    · rename_i hpc
      rw [hpc] at h
      exact tracked_lap h
    · unfold begin
      split
      · exact tracked_returns d _
      · trivial
    · trivial
  | answer i r => exact absurd rfl (hanswer i r)
  | die reason =>
    cases hstep
    exact h.mono (fun _ htiled => htiled.fail _) fun hwaits => hwaits
  | channel s =>
    cases hstep
    exact h
  | session s =>
    cases hstep
    exact h
  | others n =>
    cases hstep
    exact h
  | cancel =>
    cases hstep
    exact h
  | drop =>
    cases hstep
    exact h

/-- A step of the engine is one of the download, and no answer. -/
theorem step_of_stepServed {a : DownloadAction}
    (h : d.stepServed overwrite (.engine a) = some d') :
    d.step [] overwrite a = some d' ∧ ∀ i r, a ≠ .answer i r := by
  cases a with
  | answer i r => cases h
  | statted r =>
    cases r with
    | error halt => exact ⟨h, by simp⟩
    | ok attrs => cases h
  | _ => exact ⟨h, by simp⟩

/-- A step to which the server does not contradict itself keeps the loop tiled. -/
theorem Tracked.stepServed (h : d.Tracked) (hagrees : a.Agrees d)
    (hstep : d.stepServed overwrite a = some d') : d'.Tracked := by
  cases a with
  | engine a =>
    obtain ⟨hengine, hanswer⟩ := step_of_stepServed hstep
    exact h.step hengine hanswer
  | answer i resp =>
    simp only [Download.stepServed] at hstep
    split at hstep
    · rename_i r hr
      split_ifs at hstep
      obtain rfl := Option.some_inj.1 hstep
      obtain ⟨hfits, hcarries, hends⟩ := hagrees r hr
      exact h.mono (fun _ htiled => htiled.answer hr hfits hcarries hends) fun hwaits => hwaits
    · cases hstep
  | attrs size mtime =>
    simp only [Download.stepServed] at hstep
    split_ifs at hstep
    obtain rfl := Option.some_inj.1 hstep
    exact tracked_statted _ d _

/-- The write step, where it is over. -/
theorem tiled_written (h : d.loop.Tiled 0) (hend : d.written = some e) :
    e.loop.Tiled 0 ∧ e.loop.Waits := by
  unfold written at hend
  split_ifs at hend with hwritten
  obtain rfl := Option.some_inj.1 hend
  exact ⟨h, hwritten.1⟩

/-- The harvest and the write step, where they are over. -/
theorem tiled_harvested (h : d.loop.Tiled 0) (hend : d.harvested = some e) :
    e.loop.Tiled 0 ∧ e.loop.Waits := by
  unfold harvested at hend
  dsimp only at hend
  split_ifs at hend with hon
  exact tiled_written (tiled_harvest h hon) hend

/-- At the end of a lap, the loop is tiled and nothing is contiguous. -/
theorem Tracked.lapEnd (h : d.Tracked) (hend : d.lapEnd overwrite a = some e) :
    e.loop.Tiled 0 ∧ e.loop.Waits := by
  unfold Tracked at h
  unfold Download.lapEnd at hend
  split at hend
  · split_ifs at hend with hpc
    rw [hpc] at h
    exact tiled_harvested h hend
  · split at hend
    · split at hend
      · rename_i offset hplan
        exact tiled_harvested
          (Loop.tiled_start (planDownload_start_le hplan) (payloadSize_pos _)) hend
      · cases hend
    · rename_i hpc
      rw [hpc] at h
      exact tiled_written (d := { d with shared := { d.shared with done := d.sink.flushed } }) h
        hend
    · rename_i hpc
      rw [hpc] at h
      obtain rfl := Option.some_inj.1 hend
      exact h
    · cases hend
  · cases hend

end Download

/-- Where the server does not contradict itself, no lap ends stuck. -/
theorem unstuck_of_agrees {overwrite : Bool} {staged : Bytes} {acts : List ServedAction}
    (h : Run.Along (Download.stepServed overwrite) (fun d a => a.Agrees d) (Download.start staged)
      acts) :
    Run.Along (Download.stepServed overwrite) (fun d a => a.Unstuck overwrite d)
      (Download.start staged) acts := by
  refine Run.Along.of_inv (P := Download.Tracked)
    (fun _ _ _ htracked hagrees hstep => htracked.stepServed hagrees hstep) ?_ trivial h
  intro d a htracked _ e hend hidle
  obtain ⟨htiled, hwaits⟩ := htracked.lapEnd hend
  exact htiled.not_stuck hwaits hidle.inflight

/-- **A download goes on or ends.** Along every run against a server that may answer anything: at
the end of each lap with no stop requested, nothing in flight and the whole pool free, the loop
ends or asks for something, exactly when there are no pieces there that wait out of order while
nothing is to be asked for. That is so in every run in which the server does not contradict
itself.

**Proof sketch.** With the whole pool free, whatever is to be asked for is asked for. What was asked
for and is not written tiles the stretch from `written` to `next`, except for what lies behind the
end of the file; so if a piece waits and nothing is asked for, the piece that begins at `written`
waits too. -/
theorem download_goes_on (overwrite : Bool) (staged : Bytes) (acts : List ServedAction) :
    (Run.Along (Download.stepServed overwrite) (fun d a => a.GoesOn overwrite d)
        (Download.start staged) acts ↔
      Run.Along (Download.stepServed overwrite) (fun d a => a.Unstuck overwrite d)
        (Download.start staged) acts) ∧
    (Run.Along (Download.stepServed overwrite) (fun d a => a.Agrees d) (Download.start staged) acts →
      Run.Along (Download.stepServed overwrite) (fun d a => a.GoesOn overwrite d)
        (Download.start staged) acts) := by
  have hiff : ∀ (d : Download) (a : ServedAction),
      a.GoesOn overwrite d ↔ a.Unstuck overwrite d := by
    intro d a
    constructor
    · intro hgoes e hend hidle
      exact (Download.goesOn_iff hidle).1 (hgoes e hend hidle)
    · intro hunstuck e hend hidle
      exact (Download.goesOn_iff hidle).2 (hunstuck e hend hidle)
  have hcongr : (fun d a => ServedAction.GoesOn overwrite d a) =
      fun d a => ServedAction.Unstuck overwrite d a := by
    funext d a
    exact propext (hiff d a)
  rw [hcongr]
  exact ⟨Iff.rfl, unstuck_of_agrees⟩

/-- From opening the channel to the first lap, with a file of `size` bytes. -/
def opensServed (size : ℕ) : List ServedAction :=
  [.engine (.ensured none), .engine (.opened none), .attrs (some size) none, .engine .committed]

/-- A file of two bytes, the second of which arrives first. -/
def outOfOrder : List ServedAction :=
  ([.engine (.channel (some byByte))] : List ServedAction) ++ opensServed 2 ++
    ([.engine .round, .answer 1 (.data [2]), .engine .rested, .engine .round,
      .answer 0 (.data [1]), .engine .rested] : List ServedAction)

/-- Its server does not contradict itself, and every lap goes on. -/
theorem download_goes_on_outOfOrder :
    Run.Along (Download.stepServed false) (fun d a => a.GoesOn false d) (Download.start [])
      outOfOrder :=
  (download_goes_on false [] outOfOrder).2 (by decide)

/-- A file that was truncated to nothing while it was read: the first READ is answered with the end
of the file, after the second one had been answered with data. -/
def truncatedBehind : List ServedAction :=
  ([.engine (.channel (some byByte))] : List ServedAction) ++ opensServed 2 ++
    ([.engine .round, .answer 1 (.data [2]), .answer 0 (.status (.ok .eof))] : List ServedAction)

/-- The loop idles beside the byte that it cannot write. -/
theorem not_goes_on : ¬ Run.Along (Download.stepServed false) (fun d a => a.GoesOn false d)
    (Download.start []) (truncatedBehind ++ [.engine .rested]) := by
  intro h
  have hidle := (h.after rfl).1 _ rfl ⟨rfl, rfl, rfl, rfl⟩
  refine (Download.goesOn_iff ⟨rfl, rfl, rfl, rfl⟩).1 hidle ?_
  exact ⟨List.cons_ne_nil _ _, rfl, .inl (Option.some_ne_none _), by decide⟩

end Transfer
