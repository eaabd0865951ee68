import Wosh.Lib.Run
import Wosh.Transfer.Plan

set_option relaxedAutoImplicit false
set_option autoImplicit false

/-!
# Downloads

`download_attempt` of `wosh-client/src/transfer.rs` under `supervise`, with the append-only sink it
writes to (`site/transfer-worker.mjs`). An attempt resumes from what the sink has committed, reads
ahead, and appends what is contiguous; an interruption ends it, and the next one starts over from
the sink.

## Main definitions

* `Transfer.Sink` — what was appended, and how much of it a flush has covered.
* `Transfer.Loop`, `Transfer.harvest`, `Transfer.issue` — the read loop.
* `Transfer.Download`, `Transfer.Download.step` — the state machine.
* `Transfer.anchored` — a step that resumes from a sink that holds nothing unflushed.

## Main results

* `Transfer.download_intact` — along a run whose steps are all anchored, the sink holds a beginning
  of the remote file, and the whole of it, committed, once the download has succeeded.
* `Transfer.not_alwaysIntact` — a run in which a dead channel ends an attempt without a flush.

## Design

The remote file does not change and the server answers from it, so a reply to a READ says how many
bytes it carries. Handles are not modelled: every request of an attempt is about the one file. What
an await returns is in the action, and so is what other tasks do: they may deliver replies, notice
that the channel died, open another one, and take permits.
-/

namespace Transfer

open Tunnel (Bytes)

/-! ## The sink -/

/-- A download's destination. -/
structure Sink where
  /-- What was appended. -/
  content : Bytes := []
  /-- How much of it is durable. -/
  flushed : ℕ := 0
deriving DecidableEq

/-- `doWrite`: append at the written offset. -/
def Sink.write (s : Sink) (data : Bytes) : Sink := { s with content := s.content ++ data }

/-- `doFlush`: everything written is durable. -/
def Sink.flush (s : Sink) : Sink := { s with flushed := s.content.length }

/-! ## Requests -/

/-- A READ on the wire. -/
structure Read where
  offset : ℕ
  want : ℕ
  slot : Slot := .pending
deriving DecidableEq

/-! ## The read loop -/

/-- The locals of the read loop. -/
structure Loop where
  remoteLen : ℕ := 0
  /-- The offset the next READ asks for. -/
  next : ℕ := 0
  /-- What has reached the sink in order. -/
  written : ℕ := 0
  chunk : ℕ := 0
  /-- The permits held. -/
  held : ℕ := 0
  inflight : List Read := []
  /-- Out-of-order arrivals, keyed by offset. -/
  pending : List (ℕ × Bytes) := []
  /-- Gaps left by short replies. -/
  refills : List (ℕ × ℕ) := []
  sinceFlush : ℕ := 0
  eofAt : Option ℕ := none
  stopping : Option Stop := none
deriving DecidableEq

namespace Loop

/-- The file ends at this offset, or before. -/
def eof (l : Loop) (offset : ℕ) : Loop :=
  { l with eofAt := some (l.eofAt.elim offset (min · offset)) }

/-- A READ was answered, or will not be: its permits go back. -/
def release (l : Loop) (want : ℕ) : Loop := { l with held := l.held - min want l.held }

/-- Take in the response to a READ, and say how it ends the attempt if it does. -/
def answered (l : Loop) (offset want : ℕ) : Response → Loop × Option Attempt
  | .data d =>
    if d.length = 0 then (l.eof offset, none)
    else
      ({ l with
        refills :=
          if d.length < want then l.refills ++ [(offset + d.length, want - d.length)]
          else l.refills
        pending := (offset, d) :: l.pending.filter (·.1 ≠ offset) }, none)
  | .status (.ok _) => (l.eof offset, none)
  | .status (.error e) => (l, some (.failed ("read the remote file: " ++ e)))
  | .other what =>
    (l, some (.failed ("read the remote file: the server answered with " ++ what)))

end Loop

/-- Harvest what the server has answered, in order; the last failure counts. -/
def harvest : List Read → Loop → Option Attempt → Loop × Option Attempt
  | [], l, f => (l, f)
  | r :: rs, l, f =>
    match r.slot with
    | .pending => harvest rs { l with inflight := l.inflight ++ [r] } f
    | .ready resp =>
      let a := (l.release r.want).answered r.offset r.want resp
      harvest rs a.1 (a.2 <|> f)
    | .failed e => harvest rs (l.release r.want) (some (.retry e))

/-- Ask for the gaps again; one that gets no permits, or is longer than a chunk, is left for a later
round. -/
def issueRefills (env : Env) : List (ℕ × ℕ) → Loop → Except Halt Loop
  | [], l => .ok l
  | (offset, len) :: gaps, l =>
    let want := min len l.chunk
    match tryCharge env l.held want with
    | none => issueRefills env gaps { l with refills := l.refills ++ [(offset, len)] }
    | some held =>
      match submit env with
      | .error halt => .error halt
      | .ok () =>
        issueRefills env gaps { l with
          held := held
          inflight := l.inflight ++ [{ offset := offset, want := want }]
          refills :=
            if want < len then l.refills ++ [(offset + want, len - want)] else l.refills }

/-- Ask for what comes next, with at most `n` requests. -/
def issueReads (env : Env) : ℕ → Loop → Except Halt Loop
  | 0, l => .ok l
  | n + 1, l =>
    if l.next < l.remoteLen ∧ l.eofAt = none then
      let want := min (l.remoteLen - l.next) l.chunk
      match tryCharge env l.held want with
      | none => .ok l
      | some held =>
        match submit env with
        | .error halt => .error halt
        | .ok () =>
          issueReads env n { l with
            held := held
            inflight := l.inflight ++ [{ offset := l.next, want := want }]
            next := l.next + want }
    else .ok l

/-- Issue more reads, refills first. A request asks for something, so what is left of the file
bounds their number. -/
def issue (env : Env) (l : Loop) : Except Halt Loop :=
  if l.stopping ≠ none then .ok l
  else
    match issueRefills env l.refills { l with refills := [] } with
    | .error halt => .error halt
    | .ok l => issueReads env (l.remoteLen - l.next) l

/-! ## The state machine -/

/-- What a flush is for. -/
inductive Flush
  /-- Everything is already in the sink. -/
  | complete
  /-- The attempt ends with this, whatever the flush says. -/
  | ignoring (a : Attempt)
  | checkpoint
  /-- The loop has ended with this verdict. -/
  | final (verdict : Except String Unit)
deriving DecidableEq

/-- What follows the CLOSE of the remote handle. -/
inductive AfterClose
  | returns (a : Attempt)
  | flushes (f : Flush)
deriving DecidableEq

/-- What the sink's `committed` is asked for, once the loop runs. -/
inductive Note
  | wrote
  | flushed (f : Flush)
deriving DecidableEq

/-- Where a download stands: what it awaits. -/
inductive DownloadPc
  | ensuring
  | opening
  | statting
  | anchoring (remoteLen : ℕ)
  | closing (after : AfterClose)
  | flushing (f : Flush)
  | noting (n : Note)
  | writing (data : Bytes)
  /-- About to pump the channel, at the end of a lap. -/
  | pumping
  | resting
  | between (s : Supervisor)
deriving DecidableEq

/-- The attributes of the open remote file: its size, if it is reported, is the true one. -/
structure FileAttrs where
  sized : Bool
  mtime : Option ℕ
deriving DecidableEq

/-- A download: the sink and the engine. -/
structure Download where
  sink : Sink
  env : Env := {}
  shared : Shared := {}
  futility : Futility := {}
  identity : Option RemoteId := none
  loop : Loop := {}
  pc : DownloadPc := .ensuring
deriving DecidableEq

/-- What happens next to a download. -/
inductive DownloadAction
  | ensured (err : Option String)
  | opened (err : Option Halt)
  | statted (r : Except Halt FileAttrs)
  | closed
  | committed
  | flushed (err : Option String)
  | wrote (err : Option String)
  /-- The lap ends with a round. -/
  | round
  /-- The pause between two laps, or two attempts, is over. -/
  | rested
  /-- A reply to the READ at this place of the queue is decoded. -/
  | answer (i : ℕ) (r : Reply)
  /-- The channel is found dead, and everything still waiting on it fails. -/
  | die (reason : String)
  /-- Another connection takes its place. -/
  | channel (s : Option Sftp)
  | session (s : Session)
  /-- The other transfers hold this many permits now. -/
  | others (n : ℕ)
  | cancel
  | drop
deriving DecidableEq

namespace Download

/-- `start_download`, with the sink as the host opens it: what was staged before is durable. -/
def start (staged : Bytes) : Download :=
  { sink := { content := staged, flushed := staged.length } }

/-- The attempt returns; the permits it holds go back. -/
def returns (d : Download) (a : Attempt) : Download :=
  let r := supervise d.env.session d.shared d.futility a
  { d with loop := {}, shared := r.2.1, futility := r.2.2, pc := .between r.1 }

/-- An attempt begins. -/
def begin (d : Download) : Download :=
  match d.shared.stopRequested with
  | some stop => d.returns (.failed (stopMessage stop))
  | none => { d with pc := .ensuring }

/-- `close_handle`. -/
def close (d : Download) (after : AfterClose) : Download := { d with pc := .closing after }

/-- The verdict of a loop that has ended, once what it wrote is durable. -/
def conclude (d : Download) (verdict : Except String Unit) : Download :=
  match verdict with
  | .error e => d.returns (.failed e)
  | .ok () =>
    if d.loop.written < d.loop.remoteLen then
      d.returns (.failed ("the remote file ended at " ++ toString d.loop.written ++
        " bytes but was reported as " ++ toString d.loop.remoteLen ++
        ": it was truncated while the download was running"))
    else d.returns .done

/-- The end of a lap: the loop has ended, or issues more reads. -/
def endLap (d : Download) : Download :=
  let l := d.loop
  let nothingLeft := l.inflight.isEmpty && l.pending.isEmpty && l.refills.isEmpty &&
    (l.eofAt.isSome || l.remoteLen ≤ l.next)
  let ended := decide (l.remoteLen ≤ l.written) || nothingLeft
  match quiesceStep l.stopping l.inflight.isEmpty ended with
  | some verdict => d.close (.flushes (.final verdict))
  | none =>
    match issue d.env l with
    | .error halt => d.returns halt.into
    | .ok l => { d with loop := l, pc := .pumping }

/-- Write what is now contiguous, one piece at a time, then flush if it is time to. -/
def writeNext (d : Download) : Download :=
  match d.loop.pending.find? (·.1 = d.loop.written) with
  | some (offset, data) =>
    { d with
      loop := { d.loop with pending := d.loop.pending.filter (·.1 ≠ offset) }
      pc := .writing data }
  | none =>
    if flushEveryBytes ≤ d.loop.sinceFlush then { d with pc := .flushing .checkpoint }
    else d.endLap

/-- A lap begins: harvest, and unless something failed, write. -/
def lap (d : Download) : Download :=
  let stopping := d.loop.stopping <|> d.shared.stopRequested
  let r := harvest d.loop.inflight { d.loop with stopping := stopping, inflight := [] } none
  match r.2 with
  | some f => { d with loop := r.1 }.close (.flushes (.ignoring f))
  | none => { d with loop := r.1 }.writeNext

/-- The file's attributes have arrived. -/
def statted (file : Bytes) (d : Download) : Except Halt FileAttrs → Download
  | .error halt => d.close (.returns halt.into)
  | .ok attrs =>
    if attrs.sized = false then
      d.close (.returns (.failed ("the server would not report the remote file's size, so " ++
        "there is no way to know when the download is complete")))
    else
      let nowId : RemoteId := { size := file.length, mtime := attrs.mtime }
      match checkIdentity (d.identity.getD nowId) nowId with
      | .error e => d.close (.returns (.failed e))
      | .ok () =>
        { d with
          identity := some (d.identity.getD nowId)
          shared := { d.shared with total := some file.length }
          pc := .anchoring file.length }

/-- The resume point is known. -/
def anchor (overwrite : Bool) (d : Download) (remoteLen : ℕ) : Download :=
  let committed := d.sink.flushed
  match planDownload committed remoteLen overwrite with
  | .error e => d.close (.returns (.failed e))
  | .ok .complete => d.close (.flushes .complete)
  | .ok (.start offset) =>
    { d with
      shared := { d.shared with done := committed }
      loop := {
        remoteLen := remoteLen
        next := offset
        written := offset
        chunk := payloadSize (d.env.sftp.bind Sftp.readLen) } }.lap

/-- A flush returns. -/
def flushed (d : Download) (f : Flush) (err : Option String) : Download :=
  let sink := if err = none then d.sink.flush else d.sink
  match f, err with
  | .ignoring a, _ => { d with sink := sink }.returns a
  | _, some e => d.returns (.failed ("flush the destination: " ++ e))
  | f, none =>
    { d with
      sink := sink
      loop := if f = .checkpoint then { d.loop with sinceFlush := 0 } else d.loop
      pc := .noting (.flushed f) }

/-- A failed flush of the loop closes the handle before it ends the attempt. -/
def checkpointed (d : Download) (err : Option String) : Download :=
  match err with
  | some e => d.close (.returns (.failed ("flush the destination: " ++ e)))
  | none => d.flushed .checkpoint none

/-- A write to the sink returns. -/
def wrote (d : Download) (data : Bytes) : Option String → Download
  | some e => d.close (.returns (.failed ("write to the destination: " ++ e)))
  | none =>
    { d with
      sink := d.sink.write data
      loop := { d.loop with
        written := d.loop.written + data.length
        sinceFlush := d.loop.sinceFlush + data.length }
      pc := .noting .wrote }

/-- The sink has said what it has committed. -/
def noted (d : Download) (n : Note) : Download :=
  let d := { d with shared := { d.shared with done := d.sink.flushed } }
  match n with
  | .wrote => d.writeNext
  | .flushed .checkpoint => d.endLap
  | .flushed .complete => d.returns .done
  | .flushed (.final verdict) => d.conclude verdict
  | .flushed (.ignoring a) => d.returns a

/-- The end of a lap's round. A halt parks the transfer. -/
def round (d : Download) : Download :=
  match sessionHealth d.env with
  | .ok () => { d with pc := .resting }
  | .error halt => { d with pc := .flushing (.ignoring halt.into) }

/-- A response as the server's reply makes it. -/
def respond (file : Bytes) (r : Read) : Reply → Response
  | .bytes n => .data ((file.drop r.offset).take (min n r.want))
  | .status r => .status r
  | .other what => .other what

/-- What other tasks do to the loop's slots. -/
def setSlots (d : Download) (f : Read → Read) : Download :=
  { d with loop := { d.loop with inflight := d.loop.inflight.map f } }

/-- One step. -/
def step (file : Bytes) (overwrite : Bool) (d : Download) : DownloadAction → Option Download
  | .ensured err =>
    if d.pc ≠ .ensuring then none
    else
      match err with
      | some e => some (d.returns (.failed e))
      | none => some { d with pc := .opening }
  | .opened err =>
    if d.pc ≠ .opening then none
    else
      match err with
      | some halt => some (d.returns halt.into)
      | none => some { d with pc := .statting }
  | .statted r => if d.pc ≠ .statting then none else some (d.statted file r)
  | .closed =>
    match d.pc with
    | .closing (.returns a) => some (d.returns a)
    | .closing (.flushes f) => some { d with pc := .flushing f }
    | _ => none
  | .committed =>
    match d.pc with
    | .anchoring remoteLen => some (d.anchor overwrite remoteLen)
    | .noting n => some (d.noted n)
    | _ => none
  | .flushed err =>
    match d.pc with
    | .flushing .checkpoint => some (d.checkpointed err)
    | .flushing f => some (d.flushed f err)
    | _ => none
  | .wrote err =>
    match d.pc with
    | .writing data => some (d.wrote data err)
    | _ => none
  | .round => if d.pc ≠ .pumping then none else some d.round
  | .rested =>
    match d.pc with
    | .resting => some d.lap
    | .between .pausing => some d.begin
    | .between (.awaiting reason) =>
      let r := awaitSession d.env.session d.shared d.futility reason true
      some { d with shared := r.2.1, futility := r.2.2, pc := .between r.1 }
    | _ => none
  | .answer i reply =>
    match d.loop.inflight[i]? with
    | some r =>
      if r.slot = .pending then
        some { d with loop := { d.loop with
          inflight := d.loop.inflight.set i { r with slot := .ready (respond file r reply) } } }
      else none
    | none => none
  | .die reason =>
    -- the first reason is kept
    let reason := (d.env.sftp.bind Sftp.dead).getD reason
    some { d.setSlots fun r => if r.slot = .pending then { r with slot := .failed reason } else r with
      env := { d.env with sftp := d.env.sftp.map fun s => { s with dead := some reason } } }
  | .channel s => some { d with env := { d.env with sftp := s } }
  | .session s => some { d with env := { d.env with session := s } }
  | .others n => some { d with env := { d.env with others := n } }
  | .cancel => some { d with shared := { d.shared with cancelled := true } }
  | .drop => some { d with shared := { d.shared with dropped := true } }

end Download

/-- The step does not resume from a sink that holds something unflushed: where an attempt is about
to start reading from what the sink has committed, that is all it was given. -/
def anchored (overwrite : Bool) (d : Download) (a : DownloadAction) : Bool :=
  match d.pc, a with
  | .anchoring remoteLen, .committed =>
    match planDownload d.sink.flushed remoteLen overwrite with
    | .ok (.start _) => d.sink.flushed = d.sink.content.length
    | _ => true
  | _, _ => true

/-! ## The invariant -/

/-- In the read loop, what is buffered and what was answered is the file's, and the sink is where
the loop believes it to be. -/
structure Loop.Sound (file content : Bytes) (l : Loop) : Prop where
  remoteLen : l.remoteLen = file.length
  written : l.written = content.length
  pending : ∀ p ∈ l.pending, p.2 <+: file.drop p.1
  inflight : ∀ r ∈ l.inflight, ∀ data, r.slot = .ready (.data data) → data <+: file.drop r.offset

namespace Download

/-- The sink holds a beginning of the file, and the download is not over. -/
structure Running (file : Bytes) (d : Download) : Prop where
  content : d.sink.content <+: file
  flushed_le : d.sink.flushed ≤ d.sink.content.length
  outcome : d.shared.outcome = none

/-- The sink holds the file, and all of it is committed. -/
def Whole (file : Bytes) (d : Download) : Prop := d.sink.content = file ∧ d.sink.flushed = file.length

/-- What holds of the sink and the file where a download stands; `sound` is that its loop is. -/
def StandsAt (file : Bytes) (sink : Sink) (sound : Prop) : DownloadPc → Prop
  | .ensuring | .opening | .statting | .between _ => True
  | .anchoring remoteLen => remoteLen = file.length
  | .closing (.returns a) | .closing (.flushes (.ignoring a)) | .flushing (.ignoring a)
  | .noting (.flushed (.ignoring a)) => a ≠ .done
  | .closing (.flushes .complete) | .flushing .complete => sink.content = file
  | .noting (.flushed .complete) => sink.content = file ∧ sink.flushed = file.length
  | .noting (.flushed (.final _)) => sound ∧ sink.flushed = sink.content.length
  | .writing data => sound ∧ data <+: file.drop sink.content.length
  | .pumping | .resting | .noting .wrote | .noting (.flushed .checkpoint)
  | .closing (.flushes .checkpoint) | .closing (.flushes (.final _)) | .flushing .checkpoint
  | .flushing (.final _) => sound

/-- What holds where the download stands. -/
def Stands (file : Bytes) (d : Download) : Prop :=
  StandsAt file d.sink (d.loop.Sound file d.sink.content) d.pc

/-- The invariant: the download is running, or over, and a success is a whole file. -/
inductive Intact (file : Bytes) (d : Download) : Prop
  | running (h : d.Running file) (hstands : d.Stands file)
  | finished (hcontent : d.sink.content <+: file) (hpc : d.pc = .between .finished)
      (hwhole : d.shared.outcome = some (.ok ()) → d.Whole file)

end Download

/-! ### The loop -/

namespace Loop

variable {file content : Bytes} {l : Loop}

theorem Sound.eof (h : l.Sound file content) (offset : ℕ) : (l.eof offset).Sound file content :=
  ⟨h.remoteLen, h.written, h.pending, h.inflight⟩

theorem Sound.release (h : l.Sound file content) (want : ℕ) : (l.release want).Sound file content :=
  ⟨h.remoteLen, h.written, h.pending, h.inflight⟩

/-- A response is taken in. -/
theorem Sound.answered (h : l.Sound file content) {offset want : ℕ} {resp : Response}
    (hresp : ∀ data, resp = .data data → data <+: file.drop offset) :
    (l.answered offset want resp).1.Sound file content := by
  unfold Loop.answered
  split
  · rename_i data
    split_ifs
    · exact h.eof offset
    · exact { h with
        pending := fun p hp => by
          rcases List.mem_cons.1 hp with rfl | hp
          · exact hresp data rfl
          · exact h.pending p (List.mem_of_mem_filter hp) }
    · exact { h with
        pending := fun p hp => by
          rcases List.mem_cons.1 hp with rfl | hp
          · exact hresp data rfl
          · exact h.pending p (List.mem_of_mem_filter hp) }
  · exact h.eof offset
  · exact h
  · exact h

/-- A request is on the wire. -/
theorem Sound.request (h : l.Sound file content) (r : Read) (hr : r.slot = .pending)
    (held next : ℕ) (refills : List (ℕ × ℕ)) :
    { l with held := held, inflight := l.inflight ++ [r], next := next, refills := refills }.Sound
      file content :=
  { h with
    inflight := fun r' hr' data hdata => by
      rcases List.mem_append.1 hr' with hmem | hmem
      · exact h.inflight r' hmem data hdata
      · obtain rfl := List.mem_singleton.1 hmem
        cases hr.symm.trans hdata }

end Loop

variable {file content : Bytes}

/-- The harvest takes in what the file holds. -/
theorem harvest_sound {rs : List Read} {l : Loop} (f : Option Attempt) (h : l.Sound file content)
    (hrs : ∀ r ∈ rs, ∀ data, r.slot = .ready (.data data) → data <+: file.drop r.offset) :
    (harvest rs l f).1.Sound file content := by
  induction rs generalizing l f with
  | nil => exact h
  | cons r rs ih =>
    have hrest := fun r' hr' => hrs r' (List.mem_cons_of_mem _ hr')
    unfold harvest
    split
    · rename_i hpending
      exact ih f (h.request r hpending l.held l.next l.refills) hrest
    · rename_i resp hready
      refine ih _ ((h.release r.want).answered fun data hdata => ?_) hrest
      exact hrs r List.mem_cons_self data (hdata ▸ hready)
    · exact ih _ (h.release r.want) hrest

/-- A failure that it comes across does not end the attempt well. -/
theorem harvest_ne_done {rs : List Read} {l : Loop} {f : Option Attempt} (hf : f ≠ some .done) :
    (harvest rs l f).2 ≠ some .done := by
  induction rs generalizing l f with
  | nil => exact hf
  | cons r rs ih =>
    unfold harvest
    split
    · exact ih hf
    · refine ih ?_
      unfold Loop.answered
      split
      · split_ifs <;> simpa using hf
      · simpa using hf
      · simp
      · simp
    · exact ih (by simp)

theorem issueRefills_sound {env : Env} {gaps : List (ℕ × ℕ)} {l l' : Loop}
    (h : l.Sound file content) (hissue : issueRefills env gaps l = .ok l') :
    l'.Sound file content := by
  induction gaps generalizing l with
  | nil =>
    cases hissue
    exact h
  | cons gap gaps ih =>
    unfold issueRefills at hissue
    dsimp only at hissue
    split at hissue
    · refine ih ?_ hissue
      exact ⟨h.remoteLen, h.written, h.pending, h.inflight⟩
    · split at hissue
      · cases hissue
      · exact ih (h.request _ rfl _ _ _) hissue

theorem issueReads_sound {env : Env} {n : ℕ} {l l' : Loop} (h : l.Sound file content)
    (hissue : issueReads env n l = .ok l') : l'.Sound file content := by
  induction n generalizing l with
  | zero =>
    cases hissue
    exact h
  | succ n ih =>
    unfold issueReads at hissue
    split_ifs at hissue
    · dsimp only at hissue
      split at hissue
      · cases hissue
        exact h
      · split at hissue
        · cases hissue
        · exact ih (h.request _ rfl _ _ _) hissue
    · cases hissue
      exact h

/-- Issuing reads puts requests on the wire, and nothing else. -/
theorem issue_sound {env : Env} {l l' : Loop} (h : l.Sound file content)
    (hissue : issue env l = .ok l') : l'.Sound file content := by
  unfold issue at hissue
  split_ifs at hissue
  · cases hissue
    exact h
  · split at hissue
    · cases hissue
    · rename_i l₁ hrefills
      have h₁ : l₁.Sound file content :=
        issueRefills_sound (l := { l with refills := [] })
          ⟨h.remoteLen, h.written, h.pending, h.inflight⟩ hrefills
      exact issueReads_sound h₁ hissue

/-! ### The machine -/

namespace Download

variable {overwrite : Bool} {d d' : Download} {a : DownloadAction}

/-- An attempt returns; one that is done leaves a whole file. -/
theorem Running.returns (h : d.Running file) {a : Attempt} (hdone : a = .done → d.Whole file) :
    (d.returns a).Intact file := by
  unfold Download.returns
  dsimp only
  obtain ⟨outcome, hover, hsh, hok⟩ | ⟨hon, hsh⟩ :=
    supervise_cases d.env.session d.shared d.futility a
  · refine .finished h.content (by dsimp only; rw [hover]) fun hsucc => hdone (hok ?_)
    dsimp only at hsucc
    rw [hsh, Shared.finish, if_pos h.outcome] at hsucc
    exact Option.some.inj hsucc
  · refine .running ⟨h.content, h.flushed_le, ?_⟩ trivial
    dsimp only
    rw [hsh]
    exact h.outcome

/-- An attempt that is not done returns. -/
theorem Running.stops (h : d.Running file) {a : Attempt} (hnot : a ≠ .done) : (d.returns a).Intact file :=
  h.returns fun heq => absurd heq hnot

/-- The handle is closed on the way out. -/
theorem Running.close (h : d.Running file) {a : Attempt} (hnot : a ≠ .done) :
    (d.close (.returns a)).Intact file :=
  .running ⟨h.content, h.flushed_le, h.outcome⟩ hnot

/-- A lap ends. -/
theorem Running.endLap (h : d.Running file) (hl : d.loop.Sound file d.sink.content) :
    d.endLap.Intact file := by
  unfold Download.endLap
  dsimp only
  split
  · exact .running ⟨h.content, h.flushed_le, h.outcome⟩ hl
  · split
    · exact h.stops (Halt.into_ne_done _)
    · rename_i l hissue
      exact .running ⟨h.content, h.flushed_le, h.outcome⟩ (issue_sound hl hissue)

/-- What is contiguous is written: the next piece is what the file has next. -/
theorem Running.writeNext (h : d.Running file) (hl : d.loop.Sound file d.sink.content) :
    d.writeNext.Intact file := by
  unfold Download.writeNext
  split
  · rename_i offset data hfind
    have hoffset : offset = d.loop.written := by simpa using List.find?_some hfind
    have hdata := hl.pending _ (List.mem_of_find?_eq_some hfind)
    rw [hoffset, hl.written] at hdata
    refine .running ⟨h.content, h.flushed_le, h.outcome⟩ ⟨?_, hdata⟩
    exact { hl with pending := fun p hp => hl.pending p (List.mem_of_mem_filter hp) }
  · split_ifs
    · exact .running ⟨h.content, h.flushed_le, h.outcome⟩ hl
    · exact h.endLap hl

/-- A lap begins. -/
theorem Running.lap (h : d.Running file) (hl : d.loop.Sound file d.sink.content) : d.lap.Intact file := by
  have hl' : Loop.Sound file d.sink.content { d.loop with
      stopping := d.loop.stopping <|> d.shared.stopRequested, inflight := [] } :=
    { hl with inflight := fun r hr => absurd hr List.not_mem_nil }
  have hsound := harvest_sound none hl' hl.inflight
  unfold Download.lap
  dsimp only
  split
  · rename_i f hf
    refine .running ⟨h.content, h.flushed_le, h.outcome⟩ ?_
    rintro rfl
    exact harvest_ne_done (by simp) hf
  · exact Running.writeNext ⟨h.content, h.flushed_le, h.outcome⟩ hsound

/-- The attributes arrive. -/
theorem Running.statted (h : d.Running file) (r : Except Halt FileAttrs) : (d.statted file r).Intact file := by
  unfold Download.statted
  split
  · exact h.close (Halt.into_ne_done _)
  · split_ifs
    · exact h.close (by simp)
    · dsimp only
      split
      · exact h.close (by simp)
      · exact .running ⟨h.content, h.flushed_le, h.outcome⟩ rfl

/-- An attempt resumes, from a sink that holds nothing unflushed. -/
theorem Running.anchor (h : d.Running file)
    (hanchored : ∀ offset, planDownload d.sink.flushed file.length overwrite = .ok (.start offset) →
      d.sink.flushed = d.sink.content.length) :
    (d.anchor overwrite file.length).Intact file := by
  unfold Download.anchor
  dsimp only
  split
  · exact h.close (by simp)
  · rename_i hplan
    have hfull := planDownload_complete hplan
    refine .running ⟨h.content, h.flushed_le, h.outcome⟩ (h.content.eq_of_length ?_)
    have := h.content.length_le
    have := h.flushed_le
    show d.sink.content.length = file.length
    omega
  · rename_i offset hplan
    refine Running.lap ⟨h.content, h.flushed_le, h.outcome⟩ ?_
    exact {
      remoteLen := rfl
      written := (planDownload_start hplan).trans (hanchored offset hplan)
      pending := fun p hp => absurd hp List.not_mem_nil
      inflight := fun r hr => absurd hr List.not_mem_nil }

/-- Flushing makes everything durable. -/
theorem Running.flush (h : d.Running file) : { d with sink := d.sink.flush }.Running file :=
  ⟨h.content, Nat.le_refl _, h.outcome⟩

/-- The verdict of a loop that has ended. -/
theorem Running.conclude (h : d.Running file) (hl : d.loop.Sound file d.sink.content)
    (hflushed : d.sink.flushed = d.sink.content.length) (verdict : Except String Unit) :
    (d.conclude verdict).Intact file := by
  unfold Download.conclude
  split
  · exact h.stops (by simp)
  · split_ifs with hshort
    · exact h.stops (by simp)
    · refine h.returns fun _ => ?_
      rw [hl.written, hl.remoteLen] at hshort
      have hwhole := h.content.eq_of_length_le (Nat.le_of_not_lt hshort)
      exact ⟨hwhole, hwhole ▸ hflushed⟩

/-- A flush returns. -/
theorem Running.flushed (h : d.Running file) {f : Flush} (hpc : d.pc = .flushing f)
    (hstands : d.Stands file) (err : Option String) : (d.flushed f err).Intact file := by
  rw [Stands, hpc] at hstands
  unfold Download.flushed
  cases f with
  | ignoring a =>
    dsimp only
    split_ifs
    · exact h.flush.stops hstands
    · exact h.stops hstands
  | complete =>
    cases err with
    | some e => exact h.stops (by simp)
    | none => exact .running ⟨h.content, Nat.le_refl _, h.outcome⟩ ⟨hstands, congrArg _ hstands⟩
  | checkpoint =>
    cases err with
    | some e => exact h.stops (by simp)
    | none =>
      exact .running ⟨h.content, Nat.le_refl _, h.outcome⟩
        ⟨hstands.remoteLen, hstands.written, hstands.pending, hstands.inflight⟩
  | final verdict =>
    cases err with
    | some e => exact h.stops (by simp)
    | none => exact .running ⟨h.content, Nat.le_refl _, h.outcome⟩ ⟨hstands, rfl⟩

/-- A flush of the loop returns. -/
theorem Running.checkpointed (h : d.Running file) (hpc : d.pc = .flushing .checkpoint)
    (hstands : d.Stands file) (err : Option String) : (d.checkpointed err).Intact file := by
  unfold Download.checkpointed
  split
  · exact h.close (by simp)
  · exact h.flushed hpc hstands none

/-- A write to the sink returns: what was written is what the file has next. -/
theorem Running.wrote (h : d.Running file) {data : Bytes} (hl : d.loop.Sound file d.sink.content)
    (hdata : data <+: file.drop d.sink.content.length) (err : Option String) :
    (d.wrote data err).Intact file := by
  unfold Download.wrote
  split
  · exact h.close (by simp)
  · have hcontent : d.sink.content ++ data <+: file := by
      obtain ⟨rest, hrest⟩ := h.content
      rw [← hrest, List.drop_left] at hdata
      rw [← hrest]
      exact (List.prefix_append_right_inj _).2 hdata
    refine .running ⟨hcontent, ?_, h.outcome⟩ ?_
    · exact Nat.le_trans h.flushed_le (List.prefix_append _ _).length_le
    · exact {
        remoteLen := hl.remoteLen
        written := by
          show d.loop.written + data.length = (d.sink.content ++ data).length
          rw [hl.written, List.length_append]
        pending := hl.pending
        inflight := hl.inflight }

/-- The sink has said what it has committed. -/
theorem Running.noted (h : d.Running file) {n : Note} (hpc : d.pc = .noting n) (hstands : d.Stands file) :
    (d.noted n).Intact file := by
  rw [Stands, hpc] at hstands
  have h' : { d with shared := { d.shared with done := d.sink.flushed } }.Running file :=
    ⟨h.content, h.flushed_le, h.outcome⟩
  unfold Download.noted
  cases n with
  | wrote => exact h'.writeNext hstands
  | flushed f =>
    cases f with
    | complete => exact h'.returns fun _ => hstands
    | ignoring a => exact h'.stops hstands
    | checkpoint => exact h'.endLap hstands
    | final verdict => exact h'.conclude hstands.1 hstands.2 verdict

/-- A lap's round. -/
theorem Running.round (h : d.Running file) (hl : d.loop.Sound file d.sink.content) :
    d.round.Intact file := by
  unfold Download.round
  split
  · exact .running ⟨h.content, h.flushed_le, h.outcome⟩ hl
  · exact .running ⟨h.content, h.flushed_le, h.outcome⟩ (Halt.into_ne_done _)

/-- An attempt begins. -/
theorem Running.begin (h : d.Running file) : d.begin.Intact file := by
  unfold Download.begin
  split
  · exact h.stops (by simp)
  · exact .running ⟨h.content, h.flushed_le, h.outcome⟩ trivial

theorem StandsAt.mono {sink : Sink} {sound sound' : Prop} {pc : DownloadPc}
    (h : StandsAt file sink sound pc) (hsound : sound → sound') : StandsAt file sink sound' pc := by
  unfold StandsAt at h ⊢
  split at h <;> first | exact h | exact hsound h | exact ⟨hsound h.1, h.2⟩

/-- A change of what surrounds the download, or of the loop's slots. -/
theorem Intact.congr (h : d.Intact file) (hsink : d'.sink = d.sink) (houtcome : d'.shared.outcome = d.shared.outcome)
    (hpc : d'.pc = d.pc)
    (hloop : d.loop.Sound file d.sink.content → d'.loop.Sound file d.sink.content) :
    d'.Intact file := by
  cases h with
  | running h hstands =>
    refine .running ⟨?_, ?_, ?_⟩ ?_
    · rw [hsink]
      exact h.content
    · rw [hsink]
      exact h.flushed_le
    · rw [houtcome]
      exact h.outcome
    · unfold Stands at hstands ⊢
      rw [hpc, hsink]
      exact hstands.mono hloop
  | finished hcontent hover hwhole =>
    refine .finished ?_ ?_ ?_
    · rw [hsink]
      exact hcontent
    · rw [hpc]
      exact hover
    · rw [houtcome, Whole, hsink]
      exact hwhole

/-- The data that the server answers with is the file's. -/
theorem respond_data {r : Read} {reply : Reply} {data : Bytes}
    (h : respond file r reply = .data data) : data <+: file.drop r.offset := by
  cases reply with
  | bytes n =>
    cases h
    exact List.take_prefix _ _
  | status r => cases h
  | other what => cases h

/-- What is not over is running. -/
theorem Intact.at {pc : DownloadPc} (h : d.Intact file) (hpc : d.pc = pc)
    (hne : pc ≠ .between .finished) :
    d.Running file ∧ StandsAt file d.sink (d.loop.Sound file d.sink.content) pc := by
  cases h with
  | running h hstands => exact ⟨h, hpc ▸ hstands⟩
  | finished hcontent hover hwhole => exact absurd (hpc.symm.trans hover) hne

/-- **An anchored step keeps the sink intact.** -/
theorem Intact.step (h : d.Intact file) (ha : anchored overwrite d a = true)
    (hstep : d.step file overwrite a = some d') : d'.Intact file := by
  cases a with
  | ensured err =>
    simp only [Download.step] at hstep
    split_ifs at hstep with hpc
    obtain ⟨hrun, -⟩ := h.at (not_not.1 hpc) (by simp)
    cases err <;> cases hstep
    · exact .running ⟨hrun.content, hrun.flushed_le, hrun.outcome⟩ trivial
    · exact hrun.stops (by simp)
  | opened err =>
    simp only [Download.step] at hstep
    split_ifs at hstep with hpc
    obtain ⟨hrun, -⟩ := h.at (not_not.1 hpc) (by simp)
    cases err <;> cases hstep
    · exact .running ⟨hrun.content, hrun.flushed_le, hrun.outcome⟩ trivial
    · exact hrun.stops (Halt.into_ne_done _)
  | statted r =>
    simp only [Download.step] at hstep
    split_ifs at hstep with hpc
    cases hstep
    exact (h.at (not_not.1 hpc) (by simp)).1.statted r
  | closed =>
    simp only [Download.step] at hstep
    split at hstep <;> cases hstep
    · rename_i a hpc
      obtain ⟨hrun, hne⟩ := h.at hpc (by simp)
      exact hrun.stops hne
    · rename_i f hpc
      obtain ⟨hrun, hstands⟩ := h.at hpc (by simp)
      refine .running ⟨hrun.content, hrun.flushed_le, hrun.outcome⟩ ?_
      cases f <;> exact hstands
  | committed =>
    simp only [Download.step] at hstep
    split at hstep <;> cases hstep
    · rename_i remoteLen hpc
      obtain ⟨hrun, hlen⟩ := h.at hpc (by simp)
      cases hlen
      refine hrun.anchor fun offset hplan => ?_
      simpa [anchored, hpc, hplan] using ha
    · rename_i n hpc
      obtain ⟨hrun, hstands⟩ := h.at hpc (by simp)
      exact hrun.noted hpc (by rw [Stands, hpc]; exact hstands)
  | flushed err =>
    simp only [Download.step] at hstep
    split at hstep <;> cases hstep
    · rename_i hpc
      obtain ⟨hrun, hstands⟩ := h.at hpc (by simp)
      exact hrun.checkpointed hpc (by rw [Stands, hpc]; exact hstands) err
    · rename_i f _ hpc
      obtain ⟨hrun, hstands⟩ := h.at hpc (by simp)
      exact hrun.flushed hpc (by rw [Stands, hpc]; exact hstands) err
  | wrote err =>
    simp only [Download.step] at hstep
    split at hstep <;> cases hstep
    rename_i data hpc
    obtain ⟨hrun, hl, hdata⟩ := h.at hpc (by simp)
    exact hrun.wrote hl hdata err
  | round =>
    simp only [Download.step] at hstep
    split_ifs at hstep with hpc
    cases hstep
    obtain ⟨hrun, hl⟩ := h.at (not_not.1 hpc) (by simp)
    exact hrun.round hl
  | rested =>
    simp only [Download.step] at hstep
    split at hstep <;> cases hstep
    · rename_i hpc
      obtain ⟨hrun, hl⟩ := h.at hpc (by simp)
      exact hrun.lap hl
    · rename_i hpc
      exact (h.at hpc (by simp)).1.begin
    · rename_i reason hpc
      obtain ⟨hrun, -⟩ := h.at hpc (by simp)
      obtain ⟨e, hover, hsh⟩ | ⟨hon, hsh⟩ :=
        awaitSession_cases d.env.session d.shared d.futility reason true
      · refine .finished hrun.content (by dsimp only; rw [hover]) fun hsucc => ?_
        dsimp only at hsucc
        rw [hsh, Shared.finish, if_pos hrun.outcome] at hsucc
        cases hsucc
      · refine .running ⟨hrun.content, hrun.flushed_le, ?_⟩ trivial
        dsimp only
        rw [hsh]
        exact hrun.outcome
  | answer i reply =>
    simp only [Download.step] at hstep
    split at hstep
    · split_ifs at hstep
      cases hstep
      rename_i r hr _
      refine h.congr rfl rfl rfl fun hl => { hl with inflight := fun r' hr' data hdata => ?_ }
      rcases List.mem_or_eq_of_mem_set hr' with hmem | rfl
      · exact hl.inflight r' hmem data hdata
      · exact respond_data (Slot.ready.inj hdata)
    · cases hstep
  | die reason =>
    cases hstep
    refine h.congr rfl rfl rfl fun hl => { hl with inflight := fun r' hr' data hdata => ?_ }
    obtain ⟨r, hr, rfl⟩ := List.mem_map.1 hr'
    by_cases hpending : r.slot = .pending
    · rw [if_pos hpending] at hdata
      cases hdata
    · rw [if_neg hpending] at hdata ⊢
      exact hl.inflight r hr data hdata
  | channel s =>
    cases hstep
    exact h.congr rfl rfl rfl fun hl => hl
  | session s =>
    cases hstep
    exact h.congr rfl rfl rfl fun hl => hl
  | others n =>
    cases hstep
    exact h.congr rfl rfl rfl fun hl => hl
  | cancel =>
    cases hstep
    exact h.congr rfl rfl rfl fun hl => hl
  | drop =>
    cases hstep
    exact h.congr rfl rfl rfl fun hl => hl

/-- The sink as the host opens it is intact. -/
theorem intact_start {staged : Bytes} (h : staged <+: file) : (start staged).Intact file :=
  .running ⟨h, Nat.le_refl _, rfl⟩ trivial

end Download

/-- **Download integrity.** In every state reached by a run whose steps are all anchored, what was
appended to the sink is a beginning of the remote file; and if the download has succeeded, the sink
holds the remote file and all of it is committed.

**Proof sketch.** What is buffered and what is answered is the file's. So a piece that is appended
continues what the sink holds, as long as the loop knows how much that is, and an attempt that
resumes from a sink that holds nothing unflushed does. -/
theorem download_intact {file staged : Bytes} {overwrite : Bool} {as : List DownloadAction}
    {d : Download} (hstaged : staged <+: file)
    (hrun : Run.run (Download.step file overwrite) (Download.start staged) as = some d)
    (hanchored : Run.Along (Download.step file overwrite) (fun d a => anchored overwrite d a = true)
      (Download.start staged) as) :
    d.sink.content <+: file ∧ (d.shared.outcome = some (.ok ()) → d.Whole file) := by
  have h : d.Intact file :=
    Run.run_inv (fun _ _ _ h ha hstep => Download.Intact.step h ha hstep)
      (Download.intact_start hstaged) hanchored hrun
  cases h with
  | running h hstands => exact ⟨h.content, fun hok => by cases h.outcome.symm.trans hok⟩
  | finished hcontent hpc hwhole => exact ⟨hcontent, hwhole⟩

/-- Download integrity as it should be, along every run. -/
def AlwaysIntact : Prop :=
  ∀ (file staged : Bytes) (overwrite : Bool) (as : List DownloadAction) (d : Download),
    staged <+: file →
    Run.run (Download.step file overwrite) (Download.start staged) as = some d →
    d.sink.content <+: file ∧ (d.shared.outcome = some (.ok ()) → d.Whole file)

/-- A connection whose server reads one byte at a time. -/
def byByte : Sftp := { readLen := some 1 }

/-- From opening the channel to the first lap. -/
def opens : List DownloadAction :=
  [.ensured none, .opened none, .statted (.ok { sized := true, mtime := none }), .committed]

/-- A file of two bytes. Other transfers leave permits for one READ at a time; while the first byte
is being written to the sink, the channel dies, so that the second READ cannot be issued. -/
def unflushedReanchor : List DownloadAction :=
  ([.channel (some byByte), .others (512 * 1024 - 1)] : List DownloadAction) ++ opens ++
    ([.round, .answer 0 (.bytes 1), .rested, .wrote none, .die "closed", .committed] :
      List DownloadAction) ++
    ([.channel (some byByte), .others 0, .rested] : List DownloadAction) ++ opens ++
    ([.round, .answer 0 (.bytes 1), .answer 1 (.bytes 1), .rested, .wrote none, .committed] :
      List DownloadAction)

/-- The attempt ends without a flush, and the next one appends the first byte again. -/
theorem not_alwaysIntact : ¬ AlwaysIntact := by
  intro h
  have hrun : ∃ d, Run.run (Download.step [1, 2] false) (Download.start []) unflushedReanchor =
      some d ∧ d.sink.content = [1, 1] := ⟨_, rfl, rfl⟩
  obtain ⟨d, hd, hcontent⟩ := hrun
  have hprefix := (h [1, 2] [] false unflushedReanchor d List.nil_prefix hd).1
  rw [hcontent] at hprefix
  exact absurd hprefix (by decide)

/-- A download of the same file whose channel dies once what was written is flushed. -/
def flushedReanchor : List DownloadAction :=
  ([.channel (some byByte)] : List DownloadAction) ++ opens ++
    ([.round, .answer 0 (.bytes 1), .rested, .wrote none, .committed, .die "closed", .round,
      .flushed none, .channel (some byByte), .rested] : List DownloadAction) ++ opens ++
    ([.round, .answer 0 (.bytes 1), .rested, .wrote none, .committed, .closed, .flushed none,
      .committed] : List DownloadAction)

/-- It is intact, and it succeeds. -/
theorem download_intact_reanchor :
    ∃ d, Run.run (Download.step [1, 2] false) (Download.start []) flushedReanchor = some d ∧
      d.shared.outcome = some (.ok ()) ∧ d.sink.content <+: [1, 2] ∧
      (d.shared.outcome = some (.ok ()) → d.Whole [1, 2]) :=
  ⟨_, rfl, rfl, @download_intact [1, 2] [] false flushedReanchor _ (by decide) rfl (by decide)⟩

end Transfer
