import Wosh.Lib.Pool
import Wosh.Transfer.Download
import Wosh.Transfer.Upload

set_option relaxedAutoImplicit false
set_option autoImplicit false

/-!
# The bulk plane

The transfers of a session side by side, in `wosh-client/src/transfer.rs`: any number of
`upload_attempt` and `download_attempt` loops over one SFTP connection, which draw their permits
from one pool (`Budget`, `Permits`). An attempt that ends hands its permits back, whatever it leaves
on the wire.

## Main definitions

* `Transfer.Engine`, `Transfer.Bulk`, `Transfer.Bulk.step` — the transfers and what they share.
* `Transfer.Bulk.inFlight` — the payload sizes of the WRITEs and READs that wait for an answer.
* `Transfer.Bulk.counted` — a step that puts no request on the wire beside one that the pool does
  not count.

## Main results

* `Transfer.in_flight_bounded` — along a run whose steps are all counted, what is in flight stays
  within the pool.
* `Transfer.not_alwaysBounded` — a run in which a download takes the permits of another one, whose
  READs still wait.

## Design

A transfer takes its own steps on a copy of what it sees of the session; what the others hold is the
pool without its own permits. The answer to a request that an attempt left behind is dropped by the
correlator, so of such a request only the size is kept.
-/

namespace Transfer

open Tunnel (Bytes)
open Run

/-! ## The transfers -/

/-- What an upload does not do itself: the session does it to all of its transfers, or it is the
start of another one. -/
def UploadAction.shared : UploadAction → Bool
  | .die _ | .channel _ | .session _ | .others _ | .again _ => true
  | _ => false

/-- What a download does not do itself. -/
def DownloadAction.shared : DownloadAction → Bool
  | .die _ | .channel _ | .session _ | .others _ => true
  | _ => false

/-- A request as the pool sees it: its payload size, and where its answer will land. -/
abbrev Sized := ℕ × Slot

/-- What a request has in flight: nothing once it was answered, or will not be. -/
def Sized.waiting (r : Sized) : ℕ := if r.2 = .pending then r.1 else 0

/-- The WRITEs of the queue. -/
def UploadLoop.sized (l : UploadLoop) : List Sized := l.inflight.map fun w => (w.data.length, w.slot)

/-- The READs of the queue. -/
def Loop.sized (l : Loop) : List Sized := l.inflight.map fun r => (r.want, r.slot)

/-- What the requests of a queue have in flight. -/
def waiting (q : List Sized) : ℕ := (q.map Sized.waiting).sum

/-- The sizes of the requests of a queue that wait for an answer. -/
def unanswered (q : List Sized) : List ℕ := (q.filter (·.2 = .pending)).map Prod.fst

/-- An attempt is not running. -/
def UploadPc.idle : UploadPc → Bool
  | .between _ => true
  | _ => false

/-- An attempt is not running. -/
def DownloadPc.idle : DownloadPc → Bool
  | .between _ => true
  | _ => false

/-- What the READ of the remote tail asks for (`read_exact_remote`), where one is awaited. -/
def UploadPc.tailWant : UploadPc → ℕ
  | .tailing _ tail got => min (tail - got.length) maxPayload
  | _ => 0

/-- The READ of the tail that is in flight after a step: an OPEN or a READ that returns is followed
by the next READ, if the connection takes it. -/
def tailAfter (env : Env) (tail : ℕ) (a : UploadAction) (d : Upload) : ℕ :=
  match a with
  | .opened _ _ | .tailRead _ =>
    match submit env with
    | .ok () => d.pc.tailWant
    | .error _ => 0
  | _ => tail

/-- The READ of the tail that a step gives up on. -/
def abandoned (tail : ℕ) (a : UploadAction) : List ℕ :=
  match a with
  | .tailRead (.error _) => if tail = 0 then [] else [tail]
  | _ => []

/-- What a step of an upload leaves on the wire: the WRITEs of an attempt that returns. -/
def Upload.leaves (d d' : Upload) : List ℕ :=
  if d'.pc.idle then unanswered d.loop.sized else []

/-- What a step of a download leaves on the wire: the READs of an attempt that returns. -/
def Download.leaves (d d' : Download) : List ℕ :=
  if d'.pc.idle then unanswered d.loop.sized else []

/-- A transfer of the session. -/
inductive Engine
  /-- An upload of a source, and the READ of the remote tail that is in flight. -/
  | upload (source : Bytes) (tail : ℕ) (d : Upload)
  /-- A download of a remote file. -/
  | download (file : Bytes) (overwrite : Bool) (d : Download)
deriving DecidableEq

namespace Engine

/-- The permits it holds. -/
def held : Engine → ℕ
  | .upload _ _ d => d.loop.held
  | .download _ _ d => d.loop.held

/-- What its queue has in flight. -/
def waiting : Engine → ℕ
  | .upload _ _ d => Transfer.waiting d.loop.sized
  | .download _ _ d => Transfer.waiting d.loop.sized

/-- What it has in flight without a permit. -/
def tail : Engine → ℕ
  | .upload _ tail _ => tail
  | .download _ _ _ => 0

/-- Everything it waits for on the connection fails. -/
def die (sftp : Option Sftp) (reason : String) : Engine → Engine
  | .upload source _ d =>
    let d := { d with env := { d.env with sftp := sftp } }
    .upload source 0 ((d.step source (.die reason)).getD d)
  | .download file overwrite d =>
    let d := { d with env := { d.env with sftp := sftp } }
    .download file overwrite ((d.step file overwrite (.die reason)).getD d)

/-- The READ of the tail is answered, or not in flight any more. -/
def tailed : Engine → Engine
  | .upload source _ d => .upload source 0 d
  | .download file overwrite d => .download file overwrite d

/-- Somebody else changes the remote file. -/
def rewrite (remote : Option Bytes) : Engine → Engine
  | .upload source tail d => .upload source tail { d with remote := remote }
  | .download _ overwrite d => .download (remote.getD []) overwrite d

end Engine

/-! ## The session -/

/-- The transfers of a session and what they share. -/
structure Bulk where
  session : Session := {}
  sftp : Option Sftp := none
  engines : List Engine := []
  /-- The payload sizes of the requests that attempts left on the wire. -/
  left : List ℕ := []
deriving DecidableEq

/-- What happens next in a session. -/
inductive BulkAction
  | startUpload (source : Bytes) (overwrite : Bool)
  /-- A download starts into a sink that holds this much already. -/
  | startDownload (file staged : Bytes) (overwrite : Bool)
  | upload (i : ℕ) (a : UploadAction)
  | download (i : ℕ) (a : DownloadAction)
  /-- Somebody else changes the remote file of this transfer. -/
  | rewrite (i : ℕ) (remote : Option Bytes)
  /-- The READ of the tail is answered; the upload has not looked yet. -/
  | answerTail (i : ℕ)
  /-- A request that was left behind is answered. -/
  | answerLeft (i : ℕ)
  | die (reason : String)
  /-- Another connection takes the place of one that died, or the one there is is dropped. -/
  | channel (s : Option Sftp)
  /-- The server's limits have arrived. -/
  | limits (readLen writeLen : ℕ)
  | session (s : Session)
deriving DecidableEq

namespace Bulk

/-- The pool: what the permits of all transfers come to. -/
def outstanding (p : Bulk) : ℕ := (p.engines.map Engine.held).sum

/-- What is in flight and no permits stand for. -/
def stray (p : Bulk) : ℕ := (p.engines.map Engine.tail).sum + p.left.sum

/-- What is in flight. The requests of a connection that is dropped before its VERSION came are
counted too: nothing fails them. -/
def inFlight (p : Bulk) : ℕ := (p.engines.map Engine.waiting).sum + p.stray

/-- The connection is there, and takes requests. -/
def live (p : Bulk) : Bool := p.sftp.any (·.dead = none)

/-- What a transfer that holds so many permits sees of the session. -/
def env (p : Bulk) (held : ℕ) : Env :=
  { session := p.session, sftp := p.sftp, others := p.outstanding - held }

/-- One step. -/
def step (p : Bulk) : BulkAction → Option Bulk
  | .startUpload source overwrite =>
    -- `require_ready`
    if p.session.status ≠ .ready then none
    else some { p with engines := p.engines ++ [.upload source 0 (Upload.start source overwrite)] }
  | .startDownload file staged overwrite =>
    if p.session.status ≠ .ready then none
    else some { p with engines := p.engines ++ [.download file overwrite (Download.start staged)] }
  | .upload i a =>
    match p.engines[i]? with
    | some (.upload source tail d) =>
      if a.shared then none
      else
        let d := { d with env := p.env d.loop.held }
        (d.step source a).map fun d' =>
          { p with
            engines := p.engines.set i (.upload source (tailAfter d.env tail a d') d')
            left := p.left ++ abandoned tail a ++ d.leaves d' }
    | _ => none
  | .download i a =>
    match p.engines[i]? with
    | some (.download file overwrite d) =>
      if a.shared then none
      else
        (Download.step file overwrite { d with env := p.env d.loop.held } a).map fun d' =>
          { p with
            engines := p.engines.set i (.download file overwrite d')
            left := p.left ++ d.leaves d' }
    | _ => none
  | .rewrite i remote =>
    (p.engines[i]?).map fun e => { p with engines := p.engines.set i (e.rewrite remote) }
  | .answerTail i => (p.engines[i]?).map fun e => { p with engines := p.engines.set i e.tailed }
  | .answerLeft i => (p.left[i]?).map fun _ => { p with left := p.left.eraseIdx i }
  | .die reason =>
    match p.sftp with
    | none => none
    | some s =>
      -- the first reason is kept
      some { p with
        sftp := some { s with dead := some (s.dead.getD reason) }
        engines := p.engines.map (Engine.die p.sftp reason)
        left := [] }
  | .channel s =>
    if p.live ∧ s.isSome then none
    else some { p with sftp := s, engines := p.engines.map Engine.tailed, left := [] }
  | .limits readLen writeLen =>
    some { p with sftp := p.sftp.map fun s =>
      { s with readLen := some readLen, writeLen := some writeLen } }
  | .session s => some { p with session := s }

end Bulk

/-! ## The condition -/

/-- The step may put requests on the wire that permits were drawn for: the WRITE whose bytes are
there. -/
def Upload.issues (d : Upload) : UploadAction → Bool
  | .sourced _ =>
    match d.pc with
    | .sourcing _ => true
    | _ => false
  | _ => false

/-- The step may put requests on the wire that permits are drawn for: the lap starts, or goes on. -/
def Download.issues (d : Download) (a : DownloadAction) : Bool :=
  match d.pc, a with
  | .anchoring _, .committed | .noting .wrote, .committed
  | .noting (.flushed .checkpoint), .committed | .resting, .rested => true
  | _, _ => false

/-- What the next READ of the tail asks for at most, where the step may put one on the wire. -/
def Upload.rereads (d : Upload) : UploadAction → Option ℕ
  | .opened none _ =>
    match d.pc with
    | .opening (some (_, tail)) => some (min tail maxPayload)
    | _ => none
  | .tailRead (.ok _) =>
    match d.pc with
    | .tailing _ tail got => some (min (tail - got.length) maxPayload)
    | _ => none
  | _ => none

/-- The step puts no request on the wire beside one that the pool does not count: a transfer issues
requests where nothing is stray, and reads a tail where there is room for it. -/
def Bulk.counted (p : Bulk) : BulkAction → Bool
  | .upload i a =>
    match p.engines[i]? with
    | some (.upload _ tail d) =>
      match d.rereads a with
      | some want => p.inFlight - tail + want ≤ replayBudgetBytes
      | none => d.issues a → p.stray = 0
    | _ => true
  | .download i a =>
    match p.engines[i]? with
    | some (.download _ _ d) => d.issues a → p.stray = 0
    | _ => true
  | _ => true

/-! ## Permits and requests -/

/-- A loop's permits cover its requests, and `reserved` beside them; with what the others hold they
fit into the pool. Of the requests no more than `n` waits. -/
structure Paid (others reserved n chunk held : ℕ) (q : List Sized) : Prop where
  chunk : chunk ≤ maxPayload
  covered : (q.map Prod.fst).sum + reserved ≤ held
  pool : others + held ≤ replayBudgetBytes
  waits : waiting q ≤ n

section

variable {others reserved n chunk held held' want i : ℕ} {q q' : List Sized} {r : Sized}
  {env : Env}

/-- What waits of a request is no more than it asks for. -/
theorem Sized.waiting_le (r : Sized) : r.waiting ≤ r.1 := by
  unfold Sized.waiting
  split_ifs
  · exact le_rfl
  · exact Nat.zero_le _

/-- What waits of a queue is no more than it asks for. -/
theorem waiting_le (q : List Sized) : waiting q ≤ (q.map Prod.fst).sum :=
  List.sum_le_sum fun r _ => r.waiting_le

theorem waiting_append (q q' : List Sized) : waiting (q ++ q') = waiting q + waiting q' := by
  simp [waiting]

theorem waiting_cons (r : Sized) (q : List Sized) : waiting (r :: q) = r.waiting + waiting q := by
  simp [waiting]

/-- The sizes of the requests that wait come to what waits. -/
theorem sum_unanswered (q : List Sized) : (unanswered q).sum = waiting q := by
  induction q with
  | nil => rfl
  | cons r q ih =>
    rw [waiting_cons, ← ih]
    by_cases hpending : r.2 = .pending
    · simp [unanswered, Sized.waiting, hpending]
    · simp [unanswered, Sized.waiting, hpending]

namespace Paid

/-- Permits cover what waits. -/
theorem waiting_le (h : Paid others reserved n chunk held q) : waiting q ≤ held :=
  (Transfer.waiting_le q).trans ((Nat.le_add_right _ _).trans h.covered)

/-- What waits is within the pool at any rate. -/
theorem weaken (h : Paid others reserved n chunk held q) :
    Paid others reserved replayBudgetBytes chunk held q where
  chunk := h.chunk
  covered := h.covered
  pool := h.pool
  waits := by
    have hheld := h.waiting_le
    have hpool := h.pool
    omega

/-- A loop that has not started. -/
theorem fresh (hchunk : chunk ≤ maxPayload) (hothers : others ≤ replayBudgetBytes) :
    Paid others 0 n chunk 0 [] :=
  ⟨hchunk, le_rfl, hothers, Nat.zero_le _⟩

/-- A request that was answered, or will not be, is taken off the queue, and its permits go
back. -/
theorem harvest (h : Paid others reserved n chunk held (q ++ r :: q')) :
    Paid others reserved n chunk (held - min r.1 held) (q ++ q') where
  chunk := h.chunk
  covered := by
    have hcovered := h.covered
    simp only [List.map_append, List.map_cons, List.sum_append, List.sum_cons] at hcovered ⊢
    omega
  pool := by
    have hpool := h.pool
    omega
  waits := by
    have hwaits := h.waits
    rw [waiting_append, waiting_cons] at hwaits
    rw [waiting_append]
    omega

/-- Permits are drawn for a request. -/
theorem charge (h : Paid env.others reserved n chunk held q)
    (hcharge : tryCharge env held want = some held') (hwant : want ≤ chunk) :
    Paid env.others (reserved + want) n chunk held' q := by
  obtain ⟨rfl, hpool⟩ := tryCharge_fits hcharge (hwant.trans h.chunk)
  refine ⟨h.chunk, ?_, hpool, h.waits⟩
  have hcovered := h.covered
  omega

/-- The request that permits were drawn for is sent. -/
theorem send (h : Paid others (reserved + want) n chunk held q) (slot : Slot) :
    Paid others reserved replayBudgetBytes chunk held (q ++ [(want, slot)]) := by
  have hcovered : ((q ++ [(want, slot)]).map Prod.fst).sum + reserved ≤ held := by
    have hcovered := h.covered
    simp only [List.map_append, List.map_cons, List.map_nil, List.sum_append, List.sum_singleton]
    omega
  exact weaken (n := _) ⟨h.chunk, hcovered, h.pool, le_rfl⟩

/-- A request of the queue changes, and waits for no more than before. -/
theorem set (h : Paid others reserved n chunk held q) (r' : Sized) (hi : q[i]? = some r)
    (hsize : r'.1 = r.1) (hwaits : r'.waiting ≤ r.waiting) :
    Paid others reserved n chunk held (q.set i r') where
  chunk := h.chunk
  covered := by
    have hset := Pool.sum_map_set Prod.fst hi r'
    have hcovered := h.covered
    omega
  pool := h.pool
  waits := by
    have hset := Pool.sum_map_set Sized.waiting hi r'
    have hbound := h.waits
    unfold waiting at hbound ⊢
    omega

/-- The requests of a queue are not answered any more. -/
theorem fail (h : Paid others reserved n chunk held q) (hsizes : q'.map Prod.fst = q.map Prod.fst)
    (hwaits : waiting q' = 0) : Paid others reserved n chunk held q' where
  chunk := h.chunk
  covered := hsizes ▸ h.covered
  pool := h.pool
  waits := hwaits.trans_le (Nat.zero_le _)

end Paid

end

/-! ### Uploads -/

/-- The permits that were drawn for a WRITE whose bytes are being read. -/
def UploadPc.reserved : UploadPc → ℕ
  | .sourcing want => want
  | _ => 0

/-- The permits of an upload cover its WRITEs. -/
structure Upload.Paid (env : Env) (reserved n : ℕ) (d : Upload) : Prop where
  sees : d.env = env
  loop : Transfer.Paid env.others reserved n d.loop.chunk d.loop.held d.loop.sized

/-- They do where the upload stands, and between two attempts it has no WRITEs. -/
structure Upload.Kept (env : Env) (n : ℕ) (d : Upload) : Prop where
  paid : d.Paid env d.pc.reserved n
  idle : d.pc.idle = true → d.loop.inflight = []

/-- The harvest hands the permits of what was answered back. -/
theorem harvestWrites_paid {others reserved n : ℕ} {ws : List Write} {l : UploadLoop}
    (f : Option Attempt)
    (h : Transfer.Paid others reserved n l.chunk l.held
      (l.sized ++ ws.map fun w => (w.data.length, w.slot))) :
    Transfer.Paid others reserved n (harvestWrites ws l f).1.chunk (harvestWrites ws l f).1.held
      (harvestWrites ws l f).1.sized := by
  induction ws generalizing l f with
  | nil => simpa [harvestWrites] using h
  | cons w ws ih =>
    have hrest := h.harvest
    unfold harvestWrites
    split
    · refine ih f ?_
      simpa [UploadLoop.sized, List.append_assoc] using h
    · dsimp only
      split
      · exact ih f hrest
      · exact ih _ hrest
    · exact ih _ hrest

namespace Upload

variable {source : Bytes} {env : Env} {reserved n : ℕ} {d : Upload}

/-- The upload stands where no permits are drawn ahead. -/
theorem Paid.stand (h : d.Paid env 0 n) {pc : UploadPc} (hpc : pc.reserved = 0)
    (hidle : pc.idle = false) : Kept env n { d with pc := pc } where
  paid := ⟨h.sees, by rw [hpc]; exact h.loop⟩
  idle := by
    intro hon
    exact absurd (hon.symm.trans hidle) (by simp)

/-- The permits that are not needed are there at any rate. -/
theorem Paid.zero (h : d.Paid env reserved n) : d.Paid env 0 n where
  sees := h.sees
  loop := { h.loop with covered := (Nat.add_le_add_left (Nat.zero_le _) _).trans h.loop.covered }

theorem Paid.others_le (h : d.Paid env reserved n) : env.others ≤ replayBudgetBytes :=
  (Nat.le_add_right _ _).trans h.loop.pool

theorem Paid.close (h : d.Paid env 0 n) (a : Attempt) : Kept env n (d.close a) := h.stand rfl rfl

/-- The permits go back. -/
theorem Paid.returns (h : d.Paid env reserved n) (a : Attempt) : Kept env n (d.returns a) where
  paid := ⟨h.sees, .fresh (Nat.zero_le _) h.others_le⟩
  idle _ := rfl

theorem Paid.plan (h : d.Paid env 0 n) (remoteLen : Option ℕ) :
    Kept env n (d.plan source remoteLen) := by
  unfold Upload.plan
  split
  · exact h.returns _
  · exact h.stand rfl rfl
  · exact h.stand rfl rfl

/-- Permits are drawn for the next WRITE. -/
theorem Paid.issueNext (h : d.Paid env 0 n) : Kept env n (d.issueNext source) := by
  unfold Upload.issueNext
  split
  · dsimp only
    split
    · exact h.stand rfl rfl
    · rename_i held hcharge
      have hcharged := h.loop.charge (h.sees ▸ hcharge) (Nat.min_le_right _ _)
      rw [Nat.zero_add] at hcharged
      exact ⟨⟨h.sees, hcharged⟩, by simp [UploadPc.idle]⟩
  · exact h.stand rfl rfl

theorem Paid.lap (h : d.Paid env 0 n) : Kept env n (d.lap source) := by
  have hharvest := harvestWrites_paid
    (l := { d.loop with stopping := d.loop.stopping <|> d.shared.stopRequested, inflight := [] })
    none h.loop
  unfold Upload.lap
  dsimp only
  generalize harvestWrites d.loop.inflight _ none = r at hharvest ⊢
  have hd : Paid env 0 n
      { d with loop := r.1, shared := { d.shared with done := r.1.acked } } :=
    ⟨h.sees, hharvest⟩
  split
  · exact hd.close _
  · split
    · exact hd.close _
    · exact hd.stand rfl rfl
    · exact hd.issueNext

/-- A loop starts with no permits, and chunks that the pool has room for. -/
theorem Paid.startLoop (h : d.Paid env reserved n) (next : ℕ) :
    Kept env n (d.startLoop source next) :=
  Paid.lap ⟨h.sees, .fresh (payloadSize_le _) h.others_le⟩

theorem Paid.readTail (h : d.Paid env 0 n) (remoteLen tail : ℕ) (got : Bytes) :
    Kept env n (d.readTail remoteLen tail got) := by
  unfold Upload.readTail
  split_ifs
  · exact h.stand rfl rfl
  · exact h.stand rfl rfl

theorem Paid.opened (h : d.Paid env 0 n) (verify : Option (ℕ × ℕ)) (err : Option Halt)
    (applied : Bool) : Kept env n (d.opened source verify err applied) := by
  unfold Upload.opened
  dsimp only
  split
  · apply Paid.returns
    exact ⟨h.sees, h.loop⟩
  · apply Paid.startLoop
    exact ⟨h.sees, h.loop⟩
  · apply Paid.readTail
    exact ⟨h.sees, h.loop⟩

theorem Paid.tailRead (h : d.Paid env 0 n) (remoteLen tail : ℕ) (got : Bytes)
    (r : Except Halt Reply) : Kept env n (d.tailRead remoteLen tail got r) := by
  unfold Upload.tailRead
  split
  · exact h.close _
  · dsimp only
    split_ifs
    · exact h.stand rfl rfl
    · exact h.readTail _ _ _
  · exact h.stand rfl rfl
  · exact h.close _
  · exact h.close _

theorem Paid.compared (h : d.Paid env 0 n) (remoteLen tail : ℕ) (got : Bytes)
    (r : Except String ℕ) : Kept env n (d.compared source remoteLen tail got r) := by
  unfold Upload.compared
  split
  · exact h.close _
  · dsimp only
    split
    · exact h.stand rfl rfl
    · exact h.startLoop _
    · exact h.close _

/-- The WRITE is sent on the permits that were drawn for it. -/
theorem Paid.sourced {want : ℕ} (h : d.Paid env want n) (r : Except String ℕ) :
    Kept env replayBudgetBytes (d.sourced source want r) := by
  have hzero : d.Paid env 0 replayBudgetBytes := ⟨h.sees, h.zero.loop.weaken⟩
  unfold Upload.sourced
  split
  · exact hzero.close _
  · rename_i m
    dsimp only
    split_ifs with hshort
    · exact hzero.close _
    · split
      · exact hzero.close _
      · -- a read of the source that is not short is as long as it was to be
        have hlen : ((source.drop d.loop.next).take (min m want)).length = want := by
          have hle := List.length_take_le (min m want) (source.drop d.loop.next)
          omega
        have hloop : Transfer.Paid env.others (0 + want) n d.loop.chunk d.loop.held
            d.loop.sized := by
          rw [Nat.zero_add]
          exact h.loop
        have hsent := hloop.send .pending
        refine Paid.issueNext ⟨h.sees, ?_⟩
        simpa [UploadLoop.sized, hlen] using hsent

theorem Paid.round (h : d.Paid env 0 n) : Kept env n d.round := by
  unfold Upload.round
  split
  · exact h.stand rfl rfl
  · exact h.returns _

theorem Paid.begin (h : d.Paid env 0 n) : Kept env n d.begin := by
  unfold Upload.begin
  split
  · exact h.returns _
  · exact h.stand rfl rfl

/-- A WRITE of the queue changes, and waits for no more than before. -/
theorem Kept.setWrite (h : d.Kept env n) {i : ℕ} {w w' : Write} (hi : d.loop.inflight[i]? = some w)
    (hsize : w'.data.length = w.data.length)
    (hwaits : Sized.waiting (w'.data.length, w'.slot) ≤ Sized.waiting (w.data.length, w.slot)) :
    Kept env n (d.setWrite i w') where
  paid := by
    refine ⟨h.paid.sees, ?_⟩
    have hget : d.loop.sized[i]? = some (w.data.length, w.slot) := by simp [UploadLoop.sized, hi]
    have hset := h.paid.loop.set (w'.data.length, w'.slot) hget hsize hwaits
    rwa [UploadLoop.sized, ← List.map_set] at hset
  idle := by
    intro hidle
    show d.loop.inflight.set i w' = []
    rw [h.idle hidle]
    rfl

/-- What a step leaves alone of an upload stays as it is. -/
theorem Kept.congr (h : d.Kept env n) {d' : Upload} (hsees : d'.env = d.env)
    (hloop : d'.loop = d.loop) (hpc : d'.pc = d.pc) : d'.Kept env n where
  paid := ⟨hsees.trans h.paid.sees, by rw [hloop, hpc]; exact h.paid.loop⟩
  idle := by
    rw [hloop, hpc]
    exact h.idle

/-- **A step of an upload keeps permits for what it has on the wire.** Unless it issues requests,
no more waits than before. -/
theorem Kept.step (h : d.Kept env n) {a : UploadAction} {d' : Upload} (hown : a.shared = false)
    (hissues : d.issues a = true → n = replayBudgetBytes) (hstep : d.step source a = some d') :
    d'.Kept env n := by
  have hpaid := h.paid.zero
  cases a with
  | ensured err =>
    simp only [Upload.step] at hstep
    split at hstep
    · cases hstep
    · split at hstep
      · cases hstep
        exact hpaid.returns _
      · split_ifs at hstep <;> cases hstep
        · exact hpaid.plan none
        · exact hpaid.stand rfl rfl
  | statted err sized =>
    simp only [Upload.step] at hstep
    split at hstep
    · cases hstep
    · split at hstep <;> cases hstep
      · exact hpaid.returns _
      · exact hpaid.plan _
  | opened err applied =>
    simp only [Upload.step] at hstep
    split at hstep <;> cases hstep
    exact hpaid.opened _ _ _
  | tailRead r =>
    simp only [Upload.step] at hstep
    split at hstep <;> cases hstep
    exact hpaid.tailRead _ _ _ _
  | sourced r =>
    simp only [Upload.step] at hstep
    split at hstep <;> cases hstep
    · exact hpaid.compared _ _ _ _
    · rename_i want hpc
      have hn := hissues (by simp [Upload.issues, hpc])
      have hreserved := h.paid
      rw [hpc] at hreserved
      exact hn ▸ hreserved.sourced r
  | closed =>
    simp only [Upload.step] at hstep
    split at hstep <;> cases hstep
    apply Paid.returns
    exact ⟨hpaid.sees, hpaid.loop⟩
  | round =>
    simp only [Upload.step] at hstep
    split_ifs at hstep
    cases hstep
    exact hpaid.round
  | rested =>
    simp only [Upload.step] at hstep
    split at hstep <;> cases hstep
    · exact hpaid.lap
    · exact hpaid.begin
    · rename_i reason hpc
      refine ⟨⟨hpaid.sees, hpaid.loop⟩, fun _ => ?_⟩
      exact h.idle (by rw [hpc]; rfl)
  | apply i =>
    simp only [Upload.step] at hstep
    split at hstep
    · rename_i w hw
      split_ifs at hstep
      cases hstep
      have hserved : Kept env n (d.serve w.offset w.data) := h.congr rfl rfl rfl
      exact hserved.setWrite hw rfl le_rfl
    · cases hstep
  | answer i resp =>
    simp only [Upload.step] at hstep
    split at hstep
    · rename_i w hw
      have hserved : Kept env n (d.serve w.offset w.data) := h.congr rfl rfl rfl
      split_ifs at hstep <;> cases hstep
      · exact hserved.setWrite hw rfl (Nat.zero_le _)
      · exact h.setWrite hw rfl (Nat.zero_le _)
    · cases hstep
  | applyLate i =>
    simp only [Upload.step] at hstep
    split at hstep <;> cases hstep
    exact h.congr rfl rfl rfl
  | cancel =>
    cases hstep
    exact h.congr rfl rfl rfl
  | drop =>
    cases hstep
    exact h.congr rfl rfl rfl
  | die reason => cases hown
  | channel s => cases hown
  | session s => cases hown
  | others m => cases hown
  | again overwrite => cases hown

end Upload

/-! ### Downloads -/

/-- The permits of a loop cover its READs. -/
def Loop.Paid (others n : ℕ) (l : Loop) : Prop := Transfer.Paid others 0 n l.chunk l.held l.sized

/-- The permits of a download cover its READs. -/
structure Download.Paid (env : Env) (n : ℕ) (d : Download) : Prop where
  sees : d.env = env
  loop : d.loop.Paid env.others n

/-- They do where the download stands, and between two attempts it has no READs. -/
structure Download.Kept (env : Env) (n : ℕ) (d : Download) : Prop where
  paid : d.Paid env n
  idle : d.pc.idle = true → d.loop.inflight = []

/-- What is taken in of an answer leaves the requests alone. -/
theorem Loop.answered_paid {others n offset want : ℕ} {l : Loop} {resp : Response}
    {q : List Sized} (h : Transfer.Paid others 0 n l.chunk l.held (l.sized ++ q)) :
    Transfer.Paid others 0 n (l.answered offset want resp).1.chunk
      (l.answered offset want resp).1.held ((l.answered offset want resp).1.sized ++ q) := by
  unfold Loop.answered
  split
  · split_ifs
    · exact h
    · exact h
    · exact h
  · exact h
  · exact h
  · exact h

/-- The harvest hands the permits of what was answered back. -/
theorem harvest_paid {others n : ℕ} {rs : List Read} {l : Loop} (f : Option Attempt)
    (h : Transfer.Paid others 0 n l.chunk l.held
      (l.sized ++ rs.map fun r => (r.want, r.slot))) :
    (harvest rs l f).1.Paid others n := by
  induction rs generalizing l f with
  | nil => simpa [harvest, Loop.Paid] using h
  | cons r rs ih =>
    have hrest := h.harvest
    unfold harvest
    split
    · refine ih f ?_
      simpa [Loop.sized, List.append_assoc] using h
    · refine ih _ (Loop.answered_paid ?_)
      exact hrest
    · exact ih _ hrest

/-- A READ is sent on the permits that are drawn for it. -/
theorem Loop.Paid.send {env : Env} {n held want offset next : ℕ} {l : Loop}
    {refills : List (ℕ × ℕ)} (h : l.Paid env.others n)
    (hcharge : tryCharge env l.held want = some held) (hwant : want ≤ l.chunk) :
    Loop.Paid env.others replayBudgetBytes { l with
      held := held
      inflight := l.inflight ++ [{ offset := offset, want := want }]
      next := next
      refills := refills } := by
  have hsent := (h.charge hcharge hwant).send .pending
  show Transfer.Paid env.others 0 replayBudgetBytes l.chunk held (Loop.sized _)
  simpa [Loop.sized] using hsent

/-- A READ of the queue is answered. -/
theorem Loop.Paid.answer {others n i : ℕ} {l : Loop} {r : Read} (h : l.Paid others n)
    (hi : l.inflight[i]? = some r) (resp : Response) :
    Loop.Paid others n
      { l with inflight := l.inflight.set i { r with slot := .ready resp } } := by
  have hget : l.sized[i]? = some (r.want, r.slot) := by simp [Loop.sized, hi]
  have hset := Transfer.Paid.set h (r.want, .ready resp) hget rfl (Nat.zero_le _)
  show Transfer.Paid others 0 n l.chunk l.held ((l.inflight.set i _).map _)
  rw [List.map_set]
  exact hset

theorem issueRefills_paid {env : Env} {gaps : List (ℕ × ℕ)} {l l' : Loop}
    (h : l.Paid env.others replayBudgetBytes) (hissue : issueRefills env gaps l = .ok l') :
    l'.Paid env.others replayBudgetBytes := by
  induction gaps generalizing l with
  | nil =>
    cases hissue
    exact h
  | cons gap gaps ih =>
    unfold issueRefills at hissue
    dsimp only at hissue
    split at hissue
    · refine ih ?_ hissue
      exact h
    · rename_i held hcharge
      split at hissue
      · cases hissue
      · exact ih (h.send hcharge (Nat.min_le_right _ _)) hissue

theorem issueReads_paid {env : Env} {m : ℕ} {l l' : Loop}
    (h : l.Paid env.others replayBudgetBytes) (hissue : issueReads env m l = .ok l') :
    l'.Paid env.others replayBudgetBytes := by
  induction m generalizing l with
  | zero =>
    cases hissue
    exact h
  | succ m ih =>
    unfold issueReads at hissue
    split_ifs at hissue
    · dsimp only at hissue
      split at hissue
      · cases hissue
        exact h
      · rename_i held hcharge
        split at hissue
        · cases hissue
        · exact ih (h.send hcharge (Nat.min_le_right _ _)) hissue
    · cases hissue
      exact h

/-- What is issued is paid for. -/
theorem issue_paid {env : Env} {l l' : Loop} (h : l.Paid env.others replayBudgetBytes)
    (hissue : issue env l = .ok l') : l'.Paid env.others replayBudgetBytes := by
  unfold issue at hissue
  split_ifs at hissue
  · cases hissue
    exact h
  · split at hissue
    · cases hissue
    · rename_i l₁ hrefills
      exact issueReads_paid (issueRefills_paid (l := { l with refills := [] }) h hrefills) hissue

namespace Download

variable {file : Bytes} {overwrite : Bool} {env : Env} {n : ℕ} {d : Download}

theorem Paid.others_le (h : d.Paid env n) : env.others ≤ replayBudgetBytes :=
  (Nat.le_add_right _ _).trans h.loop.pool

/-- The download stands where an attempt is running. -/
theorem Paid.stand (h : d.Paid env n) {pc : DownloadPc} (hidle : pc.idle = false) :
    Kept env n { d with pc := pc } where
  paid := ⟨h.sees, h.loop⟩
  idle := by
    intro hon
    exact absurd (hon.symm.trans hidle) (by simp)

theorem Paid.close (h : d.Paid env n) (after : AfterClose) : Kept env n (d.close after) :=
  h.stand rfl

/-- The permits go back. -/
theorem Paid.returns (h : d.Paid env n) (a : Attempt) : Kept env n (d.returns a) where
  paid := ⟨h.sees, .fresh (Nat.zero_le _) h.others_le⟩
  idle _ := rfl

theorem Paid.begin (h : d.Paid env n) : Kept env n d.begin := by
  unfold Download.begin
  split
  · exact h.returns _
  · exact h.stand rfl

theorem Paid.conclude (h : d.Paid env n) (verdict : Except String Unit) :
    Kept env n (d.conclude verdict) := by
  unfold Download.conclude
  split
  · exact h.returns _
  · split_ifs
    · exact h.returns _
    · exact h.returns _

theorem Paid.endLap (h : d.Paid env replayBudgetBytes) :
    Kept env replayBudgetBytes d.endLap := by
  unfold Download.endLap
  dsimp only
  split
  · exact h.close _
  · split
    · exact h.returns _
    · rename_i l hissue
      exact ⟨⟨h.sees, issue_paid h.loop (h.sees ▸ hissue)⟩, by simp [DownloadPc.idle]⟩

theorem Paid.writeNext (h : d.Paid env replayBudgetBytes) :
    Kept env replayBudgetBytes d.writeNext := by
  unfold Download.writeNext
  split
  · exact ⟨⟨h.sees, h.loop⟩, by simp [DownloadPc.idle]⟩
  · split_ifs
    · exact h.stand rfl
    · exact h.endLap

theorem Paid.lap (h : d.Paid env replayBudgetBytes) : Kept env replayBudgetBytes d.lap := by
  have hharvest := harvest_paid
    (l := { d.loop with stopping := d.loop.stopping <|> d.shared.stopRequested, inflight := [] })
    none h.loop
  unfold Download.lap
  dsimp only
  generalize harvest d.loop.inflight _ none = r at hharvest ⊢
  have hd : Paid env replayBudgetBytes { d with loop := r.1 } := ⟨h.sees, hharvest⟩
  split
  · exact hd.close _
  · exact hd.writeNext

theorem Paid.statted (h : d.Paid env n) (r : Except Halt FileAttrs) :
    Kept env n (d.statted file r) := by
  unfold Download.statted
  split
  · exact h.close _
  · split_ifs
    · exact h.close _
    · dsimp only
      split
      · exact h.close _
      · exact ⟨⟨h.sees, h.loop⟩, by simp [DownloadPc.idle]⟩

/-- A loop starts with no permits, and chunks that the pool has room for. -/
theorem Paid.anchor (h : d.Paid env replayBudgetBytes) (remoteLen : ℕ) :
    Kept env replayBudgetBytes (d.anchor overwrite remoteLen) := by
  unfold Download.anchor
  dsimp only
  split
  · exact h.close _
  · exact h.close _
  · apply Paid.lap
    exact ⟨h.sees, .fresh (payloadSize_le _) h.others_le⟩

theorem Paid.flushed (h : d.Paid env n) (f : Flush) (err : Option String) :
    Kept env n (d.flushed f err) := by
  unfold Download.flushed
  dsimp only
  split
  · apply Paid.returns
    exact ⟨h.sees, h.loop⟩
  · exact h.returns _
  · refine ⟨⟨h.sees, ?_⟩, by simp [DownloadPc.idle]⟩
    show Loop.Paid env.others n (if f = .checkpoint then _ else d.loop)
    split_ifs
    · exact h.loop
    · exact h.loop

theorem Paid.checkpointed (h : d.Paid env n) (err : Option String) :
    Kept env n (d.checkpointed err) := by
  unfold Download.checkpointed
  split
  · exact h.close _
  · exact h.flushed _ _

theorem Paid.wrote (h : d.Paid env n) (data : Bytes) (err : Option String) :
    Kept env n (d.wrote data err) := by
  unfold Download.wrote
  split
  · exact h.close _
  · exact ⟨⟨h.sees, h.loop⟩, by simp [DownloadPc.idle]⟩

/-- The lap goes on from what was noted, or the attempt returns. -/
theorem Paid.noted (h : d.Paid env n) (note : Note)
    (hn : note = .wrote ∨ note = .flushed .checkpoint → n = replayBudgetBytes) :
    Kept env n (d.noted note) := by
  have hd : Paid env n { d with shared := { d.shared with done := d.sink.flushed } } :=
    ⟨h.sees, h.loop⟩
  unfold Download.noted
  dsimp only
  split
  · obtain rfl := hn (.inl rfl)
    exact hd.writeNext
  · obtain rfl := hn (.inr rfl)
    exact hd.endLap
  · exact hd.returns _
  · exact hd.conclude _
  · exact hd.returns _

theorem Paid.round (h : d.Paid env n) : Kept env n d.round := by
  unfold Download.round
  split
  · exact h.stand rfl
  · exact h.stand rfl

/-- What a step leaves alone of a download stays as it is. -/
theorem Kept.congr (h : d.Kept env n) {d' : Download} (hsees : d'.env = d.env)
    (hloop : d'.loop = d.loop) (hpc : d'.pc = d.pc) : d'.Kept env n where
  paid := ⟨hsees.trans h.paid.sees, by rw [hloop]; exact h.paid.loop⟩
  idle := by
    rw [hloop, hpc]
    exact h.idle

/-- **A step of a download keeps permits for what it has on the wire.** Unless it issues requests,
no more waits than before. -/
theorem Kept.step (h : d.Kept env n) {a : DownloadAction} {d' : Download} (hown : a.shared = false)
    (hissues : d.issues a = true → n = replayBudgetBytes)
    (hstep : d.step file overwrite a = some d') : d'.Kept env n := by
  have hpaid := h.paid
  cases a with
  | ensured err =>
    simp only [Download.step] at hstep
    split_ifs at hstep
    cases err <;> cases hstep
    · exact hpaid.stand rfl
    · exact hpaid.returns _
  | opened err =>
    simp only [Download.step] at hstep
    split_ifs at hstep
    cases err <;> cases hstep
    · exact hpaid.stand rfl
    · exact hpaid.returns _
  | statted r =>
    simp only [Download.step] at hstep
    split_ifs at hstep
    cases hstep
    exact hpaid.statted r
  | closed =>
    simp only [Download.step] at hstep
    split at hstep <;> cases hstep
    · exact hpaid.returns _
    · exact hpaid.stand rfl
  | committed =>
    simp only [Download.step] at hstep
    split at hstep <;> cases hstep
    · rename_i remoteLen hpc
      obtain rfl := hissues (by simp [Download.issues, hpc])
      exact hpaid.anchor remoteLen
    · rename_i note hpc
      refine hpaid.noted note fun hnote => hissues ?_
      rcases hnote with rfl | rfl
      · simp [Download.issues, hpc]
      · simp [Download.issues, hpc]
  | flushed err =>
    simp only [Download.step] at hstep
    split at hstep <;> cases hstep
    · exact hpaid.checkpointed err
    · exact hpaid.flushed _ err
  | wrote err =>
    simp only [Download.step] at hstep
    split at hstep <;> cases hstep
    exact hpaid.wrote _ err
  | round =>
    simp only [Download.step] at hstep
    split_ifs at hstep
    cases hstep
    exact hpaid.round
  | rested =>
    simp only [Download.step] at hstep
    split at hstep <;> cases hstep
    · rename_i hpc
      obtain rfl := hissues (by simp [Download.issues, hpc])
      exact hpaid.lap
    · exact hpaid.begin
    · rename_i reason hpc
      refine ⟨⟨hpaid.sees, hpaid.loop⟩, fun _ => ?_⟩
      exact h.idle (by rw [hpc]; rfl)
  | answer i reply =>
    simp only [Download.step] at hstep
    split at hstep
    · rename_i r hr
      split_ifs at hstep
      cases hstep
      refine ⟨⟨hpaid.sees, hpaid.loop.answer hr _⟩, fun hidle => ?_⟩
      show d.loop.inflight.set i _ = []
      rw [h.idle hidle]
      rfl
    · cases hstep
  | cancel =>
    cases hstep
    exact h.congr rfl rfl rfl
  | drop =>
    cases hstep
    exact h.congr rfl rfl rfl
  | die reason => cases hown
  | channel s => cases hown
  | session s => cases hown
  | others m => cases hown

end Download

/-! ### What a step leaves -/

section

variable {source file : Bytes} {overwrite : Bool} {env : Env} {n m tail : ℕ}

/-- Of an upload between two attempts nothing waits. -/
theorem Upload.Kept.of_idle {d : Upload} (h : d.Kept env n) (hidle : d.pc.idle = true) :
    d.Kept env m where
  paid := ⟨h.paid.sees, { h.paid.loop with
    waits := by simp [UploadLoop.sized, h.idle hidle, waiting] }⟩
  idle := h.idle

/-- Of a download between two attempts nothing waits. -/
theorem Download.Kept.of_idle {d : Download} (h : d.Kept env n) (hidle : d.pc.idle = true) :
    d.Kept env m where
  paid := ⟨h.paid.sees, { h.paid.loop with
    waits := by simp [Loop.sized, h.idle hidle, waiting] }⟩
  idle := h.idle

/-- An attempt that returns leaves on the wire what waits of its queue, and no more. -/
theorem leaves_le (idle : Bool) {q q' : List Sized} (hidle : idle = true → waiting q' = 0)
    (hle : waiting q' ≤ waiting q) :
    waiting q' + (if idle then unanswered q else []).sum ≤ waiting q := by
  split_ifs with hon
  · rw [sum_unanswered, hidle hon, Nat.zero_add]
  · simpa using hle

/-- A lap of the write loop does not await a READ. -/
theorem Upload.tailWant_lap (d : Upload) : (d.lap source).pc.tailWant = 0 := by
  unfold Upload.lap
  dsimp only
  split
  · rfl
  · split
    · rfl
    · rfl
    · unfold Upload.issueNext
      split
      · dsimp only
        split
        · rfl
        · rfl
      · rfl

/-- More of the tail is read by a READ of what is missing. -/
theorem Upload.tailWant_readTail (d : Upload) (remoteLen t : ℕ) (got : Bytes) :
    (d.readTail remoteLen t got).pc.tailWant ≤ min (t - got.length) maxPayload := by
  unfold Upload.readTail
  split_ifs
  · exact le_rfl
  · exact Nat.zero_le _

/-- A READ of the tail is followed by one of what is still missing, if any. -/
theorem Upload.tailWant_tailRead (d : Upload) (remoteLen t : ℕ) (got : Bytes) (reply : Reply) :
    (d.tailRead remoteLen t got (.ok reply)).pc.tailWant ≤ min (t - got.length) maxPayload := by
  unfold Upload.tailRead
  split
  · exact Nat.zero_le _
  · dsimp only
    split_ifs
    · exact Nat.zero_le _
    · refine (Upload.tailWant_readTail _ _ _ _).trans (min_le_min_right _ ?_)
      rw [List.length_append]
      omega
  · exact Nat.zero_le _
  · exact Nat.zero_le _
  · exact Nat.zero_le _

/-- The READ that follows is in flight if the connection takes it. -/
theorem submitted_le (env : Env) (want : ℕ) :
    (match submit env with | .ok () => want | .error _ => 0) ≤ want := by
  split
  · exact le_rfl
  · exact Nat.zero_le _

/-- The READ of the tail that is in flight after a step was so before it, or is sent by it. -/
theorem tailAfter_le {d d' : Upload} {a : UploadAction} (hstep : d.step source a = some d') :
    tailAfter d.env tail a d' + (abandoned tail a).sum ≤ (d.rereads a).getD tail := by
  cases a with
  | opened err applied =>
    simp only [Upload.step] at hstep
    split at hstep <;> cases hstep
    rename_i verify hpc
    refine (submitted_le d.env _).trans ?_
    unfold Upload.opened
    cases err with
    | some halt => exact Nat.zero_le _
    | none =>
      cases verify with
      | none => exact (Upload.tailWant_lap _).trans_le (Nat.zero_le _)
      | some v =>
        simp only [Upload.rereads, hpc]
        exact Upload.tailWant_readTail _ _ _ _
  | tailRead r =>
    simp only [Upload.step] at hstep
    split at hstep <;> cases hstep
    rename_i remoteLen t got hpc
    cases r with
    | error halt =>
      have hnone : tailAfter d.env tail (.tailRead (.error halt))
          (d.tailRead remoteLen t got (.error halt)) ≤ 0 := submitted_le d.env 0
      have hleft : (abandoned tail (.tailRead (.error halt))).sum ≤ tail := by
        unfold abandoned
        split_ifs
        · exact Nat.zero_le _
        · exact le_rfl
      exact (Nat.add_le_add hnone hleft).trans_eq (Nat.zero_add _)
    | ok reply =>
      refine (submitted_le d.env _).trans ?_
      simp only [Upload.rereads, hpc]
      exact Upload.tailWant_tailRead _ _ _ _ _
  | _ => exact le_rfl

end

/-! ## The invariant -/

/-- The permits of a transfer cover its requests. -/
def Engine.Kept : Engine → Prop
  | .upload _ _ d => d.Kept d.env (Transfer.waiting d.loop.sized)
  | .download _ _ d => d.Kept d.env (Transfer.waiting d.loop.sized)

/-- The permits of each transfer cover its requests, and with what is stray they fit into the
pool. -/
structure Bulk.Sound (p : Bulk) : Prop where
  engines : ∀ e ∈ p.engines, e.Kept
  pool : Pool.Bounded replayBudgetBytes Engine.held Engine.waiting p.engines p.stray

section

variable {env env' : Env} {n : ℕ}

/-- What was kept is kept as it stands now. -/
theorem Upload.Kept.now {d : Upload} (h : d.Kept env n) :
    d.Kept d.env (Transfer.waiting d.loop.sized) where
  paid := ⟨rfl, { h.paid.loop with pool := h.paid.sees ▸ h.paid.loop.pool, waits := le_rfl }⟩
  idle := h.idle

/-- What was kept is kept as it stands now. -/
theorem Download.Kept.now {d : Download} (h : d.Kept env n) :
    d.Kept d.env (Transfer.waiting d.loop.sized) where
  paid := ⟨rfl, { h.paid.loop with pool := h.paid.sees ▸ h.paid.loop.pool, waits := le_rfl }⟩
  idle := h.idle

/-- An upload looks at what surrounds it, and the permits still fit. -/
theorem Upload.Kept.look {d : Upload} (h : d.Kept env n)
    (hpool : env'.others + d.loop.held ≤ replayBudgetBytes) :
    Upload.Kept env' n { d with env := env' } where
  paid := ⟨rfl, { h.paid.loop with pool := hpool }⟩
  idle := h.idle

/-- A download looks at what surrounds it, and the permits still fit. -/
theorem Download.Kept.look {d : Download} (h : d.Kept env n)
    (hpool : env'.others + d.loop.held ≤ replayBudgetBytes) :
    Download.Kept env' n { d with env := env' } where
  paid := ⟨rfl, { h.paid.loop with pool := hpool }⟩
  idle := h.idle

/-- At most the whole pool waits. -/
theorem Upload.Kept.weaken {d : Upload} (h : d.Kept env n) : d.Kept env replayBudgetBytes where
  paid := ⟨h.paid.sees, h.paid.loop.weaken⟩
  idle := h.idle

/-- At most the whole pool waits. -/
theorem Download.Kept.weaken {d : Download} (h : d.Kept env n) : d.Kept env replayBudgetBytes where
  paid := ⟨h.paid.sees, Transfer.Paid.weaken h.paid.loop⟩
  idle := h.idle

end

namespace Bulk

variable {p : Bulk} {i : ℕ}

/-- What a transfer holds and what the others hold is the pool. -/
theorem Sound.fits (h : p.Sound) {e : Engine} (hi : p.engines[i]? = some e) :
    (p.env e.held).others + e.held ≤ replayBudgetBytes := by
  have hle : e.held ≤ p.outstanding := Pool.le_sum_map Engine.held hi
  have hpool : p.outstanding ≤ replayBudgetBytes := h.pool.pool
  show p.outstanding - e.held + e.held ≤ _
  omega

theorem Sound.engines_set (h : p.Sound) {e : Engine} (he : e.Kept) :
    ∀ c ∈ p.engines.set i e, c.Kept := by
  intro c hc
  rcases List.mem_or_eq_of_mem_set hc with hc | rfl
  · exact h.engines c hc
  · exact he

section

variable {e e' : Engine}

/-- What is stray after a transfer was replaced, and left something behind. -/
theorem stray_set (hi : p.engines[i]? = some e) (e' : Engine) (left : List ℕ) :
    stray { p with engines := p.engines.set i e', left := left } + e.tail + p.left.sum =
      p.stray + e'.tail + left.sum := by
  have hset := Pool.sum_map_set Engine.tail hi e'
  unfold stray
  dsimp only
  omega

/-- A transfer is replaced where there is room for what it has in flight. -/
theorem Sound.replace (h : p.Sound) (left : List ℕ) (hi : p.engines[i]? = some e) (he : e'.Kept)
    (hcovered : e'.waiting ≤ e'.held)
    (hpool : (p.env e.held).others + e'.held ≤ replayBudgetBytes)
    (hroom : p.inFlight + (e'.waiting + e'.tail + left.sum) ≤
      replayBudgetBytes + (e.waiting + e.tail + p.left.sum)) :
    Sound { p with engines := p.engines.set i e', left := left } where
  engines := h.engines_set he
  pool := by
    refine h.pool.replace hi hcovered hpool ?_
    have hstray := stray_set hi e' left
    have hwaiting := Pool.le_sum_map Engine.waiting hi
    unfold inFlight at hroom
    omega

/-- A transfer that leaves no more in flight than it had keeps the bound. -/
theorem Sound.settle (h : p.Sound) (left : List ℕ) (hi : p.engines[i]? = some e) (he : e'.Kept)
    (hcovered : e'.waiting ≤ e'.held)
    (hpool : (p.env e.held).others + e'.held ≤ replayBudgetBytes)
    (hline : e'.waiting + e'.tail + left.sum ≤ e.waiting + e.tail + p.left.sum) :
    Sound { p with engines := p.engines.set i e', left := left } := by
  refine h.replace left hi he hcovered hpool ?_
  have hbound : p.inFlight ≤ replayBudgetBytes := h.pool.line
  omega

/-- A transfer that sends what it has permits for keeps the bound where nothing is stray. -/
theorem Sound.draw (h : p.Sound) (hi : p.engines[i]? = some e) (he : e'.Kept)
    (hcovered : e'.waiting ≤ e'.held)
    (hpool : (p.env e.held).others + e'.held ≤ replayBudgetBytes) (hzero : p.stray = 0)
    (htail : e'.tail = e.tail) :
    Sound { p with engines := p.engines.set i e' } where
  engines := h.engines_set he
  pool := by
    have hstray := stray_set hi e' p.left
    have hnone : stray { p with engines := p.engines.set i e' } = 0 := by omega
    rw [hnone]
    exact (hzero ▸ h.pool).draw hi hcovered hpool

end

/-- **A download's step is sound, if it is counted.** -/
theorem Sound.download (h : p.Sound) {file : Bytes} {overwrite : Bool} {d d' : Download}
    {a : DownloadAction} (hi : p.engines[i]? = some (.download file overwrite d))
    (hown : a.shared = false) (hcounted : d.issues a = true → p.stray = 0)
    (hstep : Download.step file overwrite { d with env := p.env d.loop.held } a = some d') :
    Sound { p with
      engines := p.engines.set i (.download file overwrite d')
      left := p.left ++ d.leaves d' } := by
  have hkept : d.Kept d.env (Transfer.waiting d.loop.sized) :=
    h.engines _ (List.mem_of_getElem? hi)
  have hlook := hkept.look (h.fits hi)
  have hdone := hlook.weaken.step hown (fun _ => rfl) hstep
  have hcovered := Paid.waiting_le hdone.paid.loop
  have hpool := hdone.paid.loop.pool
  by_cases hissues : d.issues a = true ∧ d'.pc.idle = false
  · have hleaves : d.leaves d' = [] := by simp [Download.leaves, hissues.2]
    rw [hleaves, List.append_nil]
    exact h.draw hi hdone.now hcovered hpool (hcounted hissues.1) rfl
  · -- no more waits than before, and what is left behind did
    have hwaits : Transfer.waiting d'.loop.sized ≤ Transfer.waiting d.loop.sized := by
      by_cases hidle : d'.pc.idle = true
      · exact (hdone.of_idle hidle).paid.loop.waits
      · have hquiet : d.issues a ≠ true := fun hon => hissues ⟨hon, by simpa using hidle⟩
        exact (hlook.step hown (fun hon => absurd hon hquiet) hstep).paid.loop.waits
    have hleft := leaves_le d'.pc.idle
      (fun hidle => Nat.le_zero.1 (hdone.of_idle hidle).paid.loop.waits) hwaits
    refine h.settle _ hi hdone.now hcovered hpool ?_
    rw [List.sum_append]
    show Transfer.waiting d'.loop.sized + 0 + (p.left.sum + (d.leaves d').sum) ≤
      Transfer.waiting d.loop.sized + 0 + p.left.sum
    unfold Download.leaves
    omega

/-- **An upload's step is sound, if it is counted.** -/
theorem Sound.upload (h : p.Sound) {source : Bytes} {tail : ℕ} {d d' : Upload}
    {a : UploadAction} (hi : p.engines[i]? = some (.upload source tail d))
    (hown : a.shared = false) (hcounted : p.counted (.upload i a) = true)
    (hstep : Upload.step source { d with env := p.env d.loop.held } a = some d') :
    Sound { p with
      engines := p.engines.set i (.upload source (tailAfter (p.env d.loop.held) tail a d') d')
      left := p.left ++ abandoned tail a ++ d.leaves d' } := by
  have hkept : d.Kept d.env (Transfer.waiting d.loop.sized) :=
    h.engines _ (List.mem_of_getElem? hi)
  have hlook := hkept.look (h.fits hi)
  have hdone := hlook.weaken.step hown (fun _ => rfl) hstep
  have hcovered := Paid.waiting_le hdone.paid.loop
  have hpool := hdone.paid.loop.pool
  simp only [counted, hi] at hcounted
  by_cases hissues : d.issues a = true ∧ d'.pc.idle = false
  · have hleaves : d.leaves d' = [] := by simp [Upload.leaves, hissues.2]
    obtain ⟨r, rfl⟩ : ∃ r, a = .sourced r := by
      cases a with
      | sourced r => exact ⟨r, rfl⟩
      | _ => exact absurd hissues.1 (by simp [Upload.issues])
    have hzero : p.stray = 0 := by simpa [Upload.rereads, hissues.1] using hcounted
    rw [hleaves, List.append_nil]
    show Sound { p with engines := _, left := p.left ++ [] }
    rw [List.append_nil]
    exact h.draw hi hdone.now hcovered hpool hzero rfl
  · -- no more waits than before, and what is left behind did
    have hwaits : Transfer.waiting d'.loop.sized ≤ Transfer.waiting d.loop.sized := by
      by_cases hidle : d'.pc.idle = true
      · exact (hdone.of_idle hidle).paid.loop.waits
      · have hquiet : d.issues a ≠ true := fun hon => hissues ⟨hon, by simpa using hidle⟩
        exact (hlook.step hown (fun hon => absurd hon hquiet) hstep).paid.loop.waits
    have hleft := leaves_le d'.pc.idle
      (fun hidle => Nat.le_zero.1 (hdone.of_idle hidle).paid.loop.waits) hwaits
    have htail : tailAfter (p.env d.loop.held) tail a d' + (abandoned tail a).sum ≤
      (d.rereads a).getD tail := tailAfter_le hstep
    have hroom : p.inFlight + (d.rereads a).getD tail ≤ replayBudgetBytes + tail := by
      cases hreads : d.rereads a with
      | some want =>
        have hfits : p.inFlight - tail + want ≤ replayBudgetBytes := by
          simpa [hreads] using hcounted
        show p.inFlight + want ≤ _
        omega
      | none => exact Nat.add_le_add_right h.pool.line _
    refine h.replace _ hi hdone.now hcovered hpool ?_
    rw [List.sum_append, List.sum_append]
    show p.inFlight + (Transfer.waiting d'.loop.sized + tailAfter (p.env d.loop.held) tail a d' +
      (p.left.sum + (abandoned tail a).sum + (d.leaves d').sum)) ≤
      replayBudgetBytes + (Transfer.waiting d.loop.sized + tail + p.left.sum)
    unfold Upload.leaves
    omega

end Bulk

/-! ### The connection dies -/

namespace Engine

variable {e : Engine}

/-- A request that fails as the connection dies. -/
def failed (reason : String) (r : Sized) : Sized :=
  if r.2 = .pending then (r.1, .failed reason) else r

/-- What fails is as long as before, and nothing waits. -/
theorem failed_spec (reason : String) (q : List Sized) :
    (q.map (failed reason)).map Prod.fst = q.map Prod.fst ∧
      Transfer.waiting (q.map (failed reason)) = 0 := by
  induction q with
  | nil => exact ⟨rfl, rfl⟩
  | cons r q ih =>
    simp only [List.map_cons, waiting_cons, ih.1, ih.2, Nat.add_zero]
    by_cases hpending : r.2 = .pending
    · simp [failed, Sized.waiting, hpending]
    · simp [failed, Sized.waiting, hpending]

theorem sized_fail_write (l : UploadLoop) (reason : String) :
    UploadLoop.sized { l with inflight := l.inflight.map fun w =>
      if w.slot = .pending then { w with slot := .failed reason } else w } =
      l.sized.map (failed reason) := by
  unfold UploadLoop.sized
  rw [List.map_map, List.map_map]
  refine List.map_congr_left fun w _ => ?_
  by_cases hpending : w.slot = .pending
  · simp [failed, hpending]
  · simp [failed, hpending]

theorem sized_fail_read (l : Loop) (reason : String) :
    Loop.sized { l with inflight := l.inflight.map fun r =>
      if r.slot = .pending then { r with slot := .failed reason } else r } =
      l.sized.map (failed reason) := by
  unfold Loop.sized
  rw [List.map_map, List.map_map]
  refine List.map_congr_left fun r _ => ?_
  by_cases hpending : r.slot = .pending
  · simp [failed, hpending]
  · simp [failed, hpending]

/-- A transfer whose connection dies keeps its permits, and waits for nothing. -/
theorem die_spec (sftp : Option Sftp) (reason : String) (he : e.Kept) :
    (e.die sftp reason).Kept ∧ (e.die sftp reason).held = e.held ∧
      (e.die sftp reason).waiting = 0 ∧ (e.die sftp reason).tail = 0 := by
  cases e with
  | upload source tail d =>
    have hkept : d.Kept d.env (Transfer.waiting d.loop.sized) := he
    have hfailed := failed_spec ((sftp.bind Sftp.dead).getD reason) d.loop.sized
    rw [← sized_fail_write] at hfailed
    have hloop := hkept.paid.loop.fail hfailed.1 hfailed.2
    refine ⟨Upload.Kept.now (n := _) ⟨⟨rfl, hloop⟩, fun hidle => ?_⟩, rfl, hfailed.2, rfl⟩
    show d.loop.inflight.map _ = []
    rw [hkept.idle hidle]
    rfl
  | download file overwrite d =>
    have hkept : d.Kept d.env (Transfer.waiting d.loop.sized) := he
    have hfailed := failed_spec ((sftp.bind Sftp.dead).getD reason) d.loop.sized
    rw [← sized_fail_read] at hfailed
    have hloop := Paid.fail hkept.paid.loop hfailed.1 hfailed.2
    refine ⟨Download.Kept.now (n := _) ⟨⟨rfl, hloop⟩, fun hidle => ?_⟩, rfl, hfailed.2, rfl⟩
    show d.loop.inflight.map _ = []
    rw [hkept.idle hidle]
    rfl

end Engine

/-! ### The run -/

namespace Engine

variable {e : Engine}

/-- What becomes of the remote file is nothing to the permits. -/
theorem rewrite_spec (he : e.Kept) (remote : Option Bytes) :
    (e.rewrite remote).Kept ∧ (e.rewrite remote).held = e.held ∧
      (e.rewrite remote).waiting = e.waiting ∧ (e.rewrite remote).tail = e.tail := by
  cases e with
  | upload source tail d =>
    exact ⟨Upload.Kept.congr (d := d) he rfl rfl rfl, rfl, rfl, rfl⟩
  | download file overwrite d => exact ⟨he, rfl, rfl, rfl⟩

/-- A transfer whose tail is answered has nothing in flight without permits. -/
theorem tailed_spec (he : e.Kept) :
    e.tailed.Kept ∧ e.tailed.held = e.held ∧ e.tailed.waiting = e.waiting ∧ e.tailed.tail = 0 := by
  cases e with
  | upload source tail d => exact ⟨he, rfl, rfl, rfl⟩
  | download file overwrite d => exact ⟨he, rfl, rfl, rfl⟩

/-- A transfer that starts has nothing. -/
theorem start_kept (source file staged : Bytes) (overwrite : Bool) :
    Kept (.upload source 0 (Upload.start source overwrite)) ∧
      Kept (.download file overwrite (Download.start staged)) :=
  ⟨⟨⟨rfl, .fresh (Nat.zero_le _) (Nat.zero_le _)⟩, fun _ => rfl⟩,
    ⟨⟨rfl, .fresh (Nat.zero_le _) (Nat.zero_le _)⟩, fun _ => rfl⟩⟩

end Engine

namespace Bulk

variable {p p' : Bulk}

/-- The session before its first transfer. -/
theorem Sound.init (session : Session) : Sound { session := session } where
  engines := by simp
  pool := .nil

/-- A transfer starts. -/
theorem Sound.join (h : p.Sound) {e : Engine} (he : e.Kept) (hheld : e.held = 0)
    (hwaiting : e.waiting = 0) (htail : e.tail = 0) :
    Sound { p with engines := p.engines ++ [e] } where
  engines := by
    intro c hc
    rcases List.mem_append.1 hc with hc | hc
    · exact h.engines c hc
    · obtain rfl := List.mem_singleton.1 hc
      exact he
  pool := by
    have hstray : stray { p with engines := p.engines ++ [e] } = p.stray := by
      simp [stray, htail]
    rw [hstray]
    exact h.pool.join hheld hwaiting

/-- Something happens to all transfers that takes away from what waits, and nothing is stray any
more. -/
theorem Sound.map (h : p.Sound) {f : Engine → Engine}
    (hf : ∀ e, e.Kept → (f e).Kept ∧ (f e).held = e.held ∧ (f e).waiting ≤ e.waiting ∧
      (f e).tail = 0) (sftp : Option Sftp) :
    Sound { p with sftp := sftp, engines := p.engines.map f, left := [] } where
  engines := by
    intro c hc
    obtain ⟨e, he, rfl⟩ := List.mem_map.1 hc
    exact (hf e (h.engines e he)).1
  pool := by
    have htails : ∀ e ∈ p.engines, (Engine.tail ∘ f) e = 0 :=
      fun e he => (hf e (h.engines e he)).2.2.2
    have hstray : stray { p with sftp := sftp, engines := p.engines.map f, left := [] } = 0 := by
      unfold stray
      dsimp only
      rw [List.map_map, List.map_congr_left htails]
      simp
    rw [hstray]
    exact h.pool.map (fun e he => (hf e (h.engines e he)).2.1)
      (fun e he => (hf e (h.engines e he)).2.2.1) (Nat.zero_le _)

/-- **A counted step keeps what is in flight within the pool.** -/
theorem Sound.step (h : p.Sound) {a : BulkAction} (hcounted : p.counted a = true)
    (hstep : p.step a = some p') : p'.Sound := by
  cases a with
  | startUpload source overwrite =>
    simp only [Bulk.step] at hstep
    split_ifs at hstep
    cases hstep
    exact h.join (Engine.start_kept source [] [] overwrite).1 rfl rfl rfl
  | startDownload file staged overwrite =>
    simp only [Bulk.step] at hstep
    split_ifs at hstep
    cases hstep
    exact h.join (Engine.start_kept [] file staged overwrite).2 rfl rfl rfl
  | upload i a =>
    simp only [Bulk.step] at hstep
    split at hstep
    · rename_i source tail d hi
      split_ifs at hstep with hshared
      obtain ⟨d', hd', rfl⟩ := Option.map_eq_some_iff.1 hstep
      exact h.upload hi (by simpa using hshared) hcounted hd'
    · cases hstep
  | download i a =>
    simp only [Bulk.step] at hstep
    split at hstep
    · rename_i file overwrite d hi
      split_ifs at hstep with hshared
      obtain ⟨d', hd', rfl⟩ := Option.map_eq_some_iff.1 hstep
      refine h.download hi (by simpa using hshared) (fun hissues => ?_) hd'
      simpa [counted, hi, hissues] using hcounted
    · cases hstep
  | rewrite i remote =>
    obtain ⟨e, hi, rfl⟩ := Option.map_eq_some_iff.1 hstep
    have he := h.engines e (List.mem_of_getElem? hi)
    obtain ⟨hkept, hheld, hwaiting, htail⟩ := Engine.rewrite_spec he remote
    have hcovered := h.pool.covered e (List.mem_of_getElem? hi)
    refine h.settle p.left hi hkept ?_ ?_ ?_
    · rwa [hwaiting, hheld]
    · rw [hheld]
      exact h.fits hi
    · rw [hwaiting, htail]
  | answerTail i =>
    obtain ⟨e, hi, rfl⟩ := Option.map_eq_some_iff.1 hstep
    have he := h.engines e (List.mem_of_getElem? hi)
    obtain ⟨hkept, hheld, hwaiting, htail⟩ := Engine.tailed_spec he
    have hcovered := h.pool.covered e (List.mem_of_getElem? hi)
    refine h.settle p.left hi hkept ?_ ?_ ?_
    · rwa [hwaiting, hheld]
    · rw [hheld]
      exact h.fits hi
    · rw [hwaiting, htail]
      omega
  | answerLeft i =>
    obtain ⟨n, hi, rfl⟩ := Option.map_eq_some_iff.1 hstep
    have hless : (p.left.eraseIdx i).sum ≤ p.left.sum :=
      (List.eraseIdx_sublist p.left i).sum_le_sum fun _ _ => Nat.zero_le _
    have hline := h.pool.line
    refine ⟨h.engines, { h.pool with line := ?_ }⟩
    unfold stray at hline ⊢
    dsimp only
    omega
  | die reason =>
    simp only [Bulk.step] at hstep
    split at hstep <;> cases hstep
    refine h.map (fun e he => ?_) _
    obtain ⟨hkept, hheld, hwaiting, htail⟩ := Engine.die_spec p.sftp reason he
    exact ⟨hkept, hheld, hwaiting.trans_le (Nat.zero_le _), htail⟩
  | channel s =>
    simp only [Bulk.step] at hstep
    split_ifs at hstep
    cases hstep
    refine h.map (fun e he => ?_) _
    obtain ⟨hkept, hheld, hwaiting, htail⟩ := Engine.tailed_spec he
    exact ⟨hkept, hheld, hwaiting.le, htail⟩
  | limits readLen writeLen =>
    cases hstep
    exact ⟨h.engines, h.pool⟩
  | session s =>
    cases hstep
    exact ⟨h.engines, h.pool⟩

end Bulk

/-- **The pool bounds what is in flight.** In a session whose transfers issue requests only where
none is on the wire that the pool does not count, the READs and WRITEs that wait for an answer never
come to more than the pool.

**Proof sketch.** The permits of each transfer cover its queue, and all of them fit into the pool.
A step that issues nothing only turns requests of a queue into stray ones, and a step that issues
some finds none stray. -/
theorem in_flight_bounded {session : Session} {as : List BulkAction} {p : Bulk}
    (hcounted : Along Bulk.step (fun p a => p.counted a = true) { session := session } as)
    (h : run Bulk.step { session := session } as = some p) : p.inFlight ≤ replayBudgetBytes :=
  have hsound : p.Sound :=
    run_inv (fun _ _ _ hp hc hs => Bulk.Sound.step hp hc hs) (Bulk.Sound.init session) hcounted h
  hsound.pool.line

/-- A download of two bytes is interrupted: its READ is left on the wire. -/
def parked : List BulkAction := [
  .channel (some {}),
  .startDownload [1, 2] [] false,
  .download 0 (.ensured none),
  .download 0 (.opened none),
  .download 0 (.statted (.ok { sized := true, mtime := none })),
  .download 0 .committed,
  .session { resuming := true },
  .download 0 .round,
  .download 0 (.flushed none)]

theorem in_flight_bounded_parked :
    ∃ p, run Bulk.step {} parked = some p ∧ p.outstanding = 0 ∧ p.left = [2] ∧
      p.inFlight ≤ replayBudgetBytes :=
  have hcounted : Along Bulk.step (fun p a => p.counted a = true) { session := {} } parked := by
    decide
  ⟨_, rfl, rfl, rfl, in_flight_bounded hcounted rfl⟩

/-! ## The overrun -/

/-- The pool bounds what is in flight, whatever happens. -/
def AlwaysBounded : Prop :=
  ∀ (session : Session) (as : List BulkAction) (p : Bulk),
    run Bulk.step { session := session } as = some p → p.inFlight ≤ replayBudgetBytes

/-- A download of a file as long as the pool, about to start. -/
def wholePool : Download where
  sink := {}
  env := { sftp := some { readLen := some 131072 } }
  identity := some { size := 524288, mtime := none }
  shared := { total := some 524288 }
  pc := .anchoring 524288

/-- Two such downloads, from a server that takes the longest READs. -/
def twoWhole (file : Bytes) : Bulk where
  sftp := some { readLen := some 131072 }
  engines := [.download file false wholePool, .download file false wholePool]

/-- They begin. -/
def twoBegin (file : Bytes) : List BulkAction := [
  .channel (some { readLen := some 131072 }),
  .startDownload file [] false,
  .startDownload file [] false,
  .download 0 (.ensured none),
  .download 0 (.opened none),
  .download 0 (.statted (.ok { sized := true, mtime := none })),
  .download 1 (.ensured none),
  .download 1 (.opened none),
  .download 1 (.statted (.ok { sized := true, mtime := none }))]

/-- The first one takes the whole pool, and the second one waits for permits. The first one finds
the transport reconnecting and parks, and the second one issues its READs beside those that the
first one left. -/
def takeOver : List BulkAction := [
  .download 0 .committed,
  .download 0 .round,
  .download 1 .committed,
  .download 1 .round,
  .session { resuming := true },
  .download 0 .rested,
  .download 0 .round,
  .download 0 (.flushed none),
  .session {},
  .download 1 .rested]

/-- The length of such a file arrives for the first time. -/
theorem step_statted {p : Bulk} {i : ℕ} {file : Bytes} {d : Download}
    (hlen : file.length = 524288) (hi : p.engines[i]? = some (.download file false d))
    (hpc : d.pc = .statting) (hid : d.identity = none) :
    p.step (.download i (.statted (.ok { sized := true, mtime := none }))) = some { p with
      engines := p.engines.set i (.download file false { d with
        env := p.env d.loop.held
        identity := some { size := 524288, mtime := none }
        shared := { d.shared with total := some 524288 }
        pc := .anchoring 524288 }) } := by
  have hstep : Download.step file false { d with env := p.env d.loop.held }
      (.statted (.ok { sized := true, mtime := none })) = some { d with
        env := p.env d.loop.held
        identity := some { size := 524288, mtime := none }
        shared := { d.shared with total := some 524288 }
        pc := .anchoring 524288 } := by
    simp [Download.step, Download.statted, checkIdentity, hpc, hid, hlen]
  simp only [Bulk.step, hi, hstep]
  simp [DownloadAction.shared, Download.leaves, DownloadPc.idle]

theorem run_twoBegin {file : Bytes} (hlen : file.length = 524288) :
    run Bulk.step {} (twoBegin file) = some (twoWhole file) := by
  unfold twoBegin
  iterate 5 refine run_cons_eq_some.2 ⟨_, rfl, ?_⟩
  refine run_cons_eq_some.2 ⟨_, step_statted hlen rfl rfl rfl, ?_⟩
  iterate 2 refine run_cons_eq_some.2 ⟨_, rfl, ?_⟩
  refine run_cons_eq_some.2 ⟨_, step_statted hlen rfl rfl rfl, ?_⟩
  rfl

/-- **The pool does not bound what is in flight.** An attempt that parks hands its permits back
while its READs are still on the wire, and another transfer takes them. -/
theorem not_alwaysBounded : ¬ AlwaysBounded := by
  intro hbounded
  have hover : (run Bulk.step (twoWhole (List.replicate 524288 0)) takeOver).map Bulk.inFlight =
      some 1048576 := by
    decide +kernel
  obtain ⟨p, hp, hflight⟩ := Option.map_eq_some_iff.1 hover
  have hbegin : run Bulk.step {} (twoBegin (List.replicate 524288 0)) =
      some (twoWhole (List.replicate 524288 0)) := run_twoBegin List.length_replicate
  have hle := hbounded {} (twoBegin (List.replicate 524288 0) ++ takeOver) p
    ((run_append_of_eq_some hbegin takeOver).trans hp)
  rw [hflight] at hle
  exact absurd hle (by decide)

end Transfer
