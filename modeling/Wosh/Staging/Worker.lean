import Wosh.Lib.Ranged
import Wosh.Tunnel.Frame

set_option relaxedAutoImplicit false
set_option autoImplicit false

/-!
# The staging worker

`site/transfer-worker.mjs`: the files that downloads are staged in, each behind a handle that is opened
once and held. A message is handled at once as far as it needs nothing from the browser's storage; the
rest of an `open` or a `remove` comes in pieces, between other messages.

## Main definitions

* `Staging.StagedFile` — a file of the origin-private file system, and who holds it.
* `Staging.Worker`, `Staging.Worker.step` — the worker, and what happens next.

## Design

`acked` records the payloads that were acknowledged since the file was created; a file that an earlier
worker left counts as acknowledged. A handle belongs to the map, or to the task that has yet to put it
there, or is lost when its size cannot be read. Nothing reads either but the storage itself.
-/

namespace Staging

open Tunnel (Bytes)

/-! ## The storage -/

/-- Who holds the one handle that a file may have. -/
inductive Holder
  /-- The task that awaited it. -/
  | task (k : ℕ)
  /-- The map `open`. -/
  | map
  /-- Nobody any more. -/
  | lost
deriving DecidableEq

/-- A file. -/
structure StagedFile where
  content : Bytes := []
  /-- The payloads that were answered ok since it was created, one after the other. -/
  acked : Bytes := []
  holder : Option Holder := none
deriving DecidableEq

/-- What `handle.write` does: it returns how many bytes it wrote, or throws after so many. -/
inductive WriteOutcome
  | returned (n : ℕ)
  | threw (n : ℕ) (e : String)
deriving DecidableEq

/-- What `handle.close` does: it releases the file, or throws, and may have released it. -/
inductive CloseOutcome
  | closed
  | threw (released : Bool) (e : String)
deriving DecidableEq

/-- `FileSystemSyncAccessHandle.write(bytes, { at })`, of which `n` bytes are written. -/
def StagedFile.write (f : StagedFile) (offset : ℕ) (bytes : Bytes) (n : ℕ) : StagedFile :=
  { f with content := Ranged.writeAt 0 f.content offset (bytes.take n) }

/-! ## The worker -/

/-- `rootDirPromise`. -/
inductive Root
  | unasked
  | pending
  | resolved
  | rejected (e : String)
deriving DecidableEq

/-- An entry of the map `open`. -/
structure OpenFile where
  /-- Written, maybe not yet flushed. -/
  offset : ℕ
  /-- Durable: the resume anchor. -/
  flushed : ℕ
deriving DecidableEq

/-- What a handler awaits. -/
inductive Stage
  /-- `doOpen`: the directory, the file, its handle, and the turn in which it goes on with it. -/
  | openDir (create : Bool)
  | fileHandle (create : Bool)
  | accessHandle
  | created
  /-- `doRemove`: the directory, and the removal. -/
  | removeDir
  | removeEntry
  | finished
deriving DecidableEq

/-- A handler that was not done at once. -/
structure Task where
  reqId : ℕ
  id : String
  stage : Stage
deriving DecidableEq

/-- What is posted back. -/
abbrev Answer := ℕ × Except String (Option ℕ)

/-- The worker, and the directory of staged files. -/
structure Worker where
  root : Root := .unasked
  files : String → Option StagedFile
  opened : String → Option OpenFile := fun _ => none
  tasks : List Task := []
  answers : List Answer := []

/-- A message, with what the handle does that it calls. -/
inductive Op
  | open (create : Bool)
  | write (bytes : Bytes) (outcome : WriteOutcome)
  | flush (outcome : Except String Unit)
  | committed
  | close (outcome : CloseOutcome)
  | remove (outcome : CloseOutcome)
  | other (op : String)
deriving DecidableEq

/-- What happens next. -/
inductive WorkerAction
  | message (reqId : ℕ) (id : String) (op : Op)
  /-- `rootDirPromise` is settled. -/
  | root (outcome : Except String Unit)
  /-- What a task awaits is settled; for one whose handle was created, `getSize` returns or throws. -/
  | settle (k : ℕ) (outcome : Except String Unit)
deriving DecidableEq

namespace Worker

/-- The answer is posted. -/
def post (s : Worker) (reqId : ℕ) (r : Except String (Option ℕ)) : Worker :=
  { s with answers := s.answers ++ [(reqId, r)] }

def setFile (s : Worker) (id : String) (f : Option StagedFile) : Worker :=
  { s with files := Function.update s.files id f }

def setOpened (s : Worker) (id : String) (st : Option OpenFile) : Worker :=
  { s with opened := Function.update s.opened id st }

/-- A handler goes on to await something else. -/
def setStage (s : Worker) (k : ℕ) (stage : Stage) : Worker :=
  { s with tasks := s.tasks.modify k fun t => { t with stage := stage } }

/-- A handler is done. -/
def finish (s : Worker) (k : ℕ) (reqId : ℕ) (r : Except String (Option ℕ)) : Worker :=
  (s.setStage k .finished).post reqId r

/-- A handler awaits `transfersDir()` first. -/
def await (s : Worker) (reqId : ℕ) (id : String) (stage : Stage) : Worker :=
  { s with
    root := if s.root = .unasked then .pending else s.root
    tasks := s.tasks ++ [⟨reqId, id, stage⟩] }

/-- The file, if the handle in the map still holds it. -/
def heldFile (s : Worker) (id : String) : Option StagedFile :=
  (s.files id).filter fun f => f.holder = some .map

def notOpen (id : String) : String := "transfer sink " ++ id ++ ": not open"

/-- `doWrite`. -/
def doWrite (s : Worker) (reqId : ℕ) (id : String) (bytes : Bytes) (outcome : WriteOutcome) :
    Option Worker :=
  match s.opened id with
  | none => some (s.post reqId (.error (notOpen id)))
  | some st =>
    match outcome, s.heldFile id with
    | .returned n, some f =>
      if bytes.length < n then none
      else
        -- What it returns is not looked at.
        let f := { f.write st.offset bytes n with acked := f.acked ++ bytes }
        let st := { st with offset := st.offset + bytes.length }
        some (((s.setFile id (some f)).setOpened id (some st)).post reqId (.ok none))
    | .threw n e, some f =>
      some ((s.setFile id (some (f.write st.offset bytes n))).post reqId (.error e))
    | .threw _ e, none => some (s.post reqId (.error e))
    | .returned _, none => none

/-- `doFlush`. -/
def doFlush (s : Worker) (reqId : ℕ) (id : String) (outcome : Except String Unit) : Option Worker :=
  match s.opened id with
  | none => some (s.post reqId (.error (notOpen id)))
  | some st =>
    match outcome, s.heldFile id with
    | .ok (), some _ =>
      some ((s.setOpened id (some { st with flushed := st.offset })).post reqId
        (.ok (some st.offset)))
    | .error e, _ => some (s.post reqId (.error e))
    | .ok (), none => none

/-- `doCommitted`. -/
def doCommitted (s : Worker) (reqId : ℕ) (id : String) : Worker :=
  match s.opened id with
  | none => s.post reqId (.error (notOpen id))
  | some st => s.post reqId (.ok (some st.flushed))

/-- The file is released. -/
def release (s : Worker) (id : String) : Worker :=
  match s.heldFile id with
  | some f => s.setFile id (some { f with holder := none })
  | none => s

/-- `doClose`; it may throw. -/
def doClose (s : Worker) (id : String) (outcome : CloseOutcome) : Except String Unit × Worker :=
  match s.opened id with
  | none => (.ok (), s)
  | some _ =>
    match outcome with
    | .closed => (.ok (), (s.release id).setOpened id none)
    | .threw released e => (.error e, if released then s.release id else s)

/-- `onmessage`, as far as it goes at once. -/
def receive (s : Worker) (reqId : ℕ) (id : String) : Op → Option Worker
  | .open create =>
    match s.opened id with
    | some st => some (s.post reqId (.ok (some st.flushed)))
    | none => some (s.await reqId id (.openDir create))
  | .write bytes outcome => s.doWrite reqId id bytes outcome
  | .flush outcome => s.doFlush reqId id outcome
  | .committed => some (s.doCommitted reqId id)
  | .close outcome =>
    match s.doClose id outcome with
    | (.ok _, s) => some (s.post reqId (.ok none))
    | (.error e, s) => some (s.post reqId (.error e))
  | .remove outcome =>
    match s.doClose id outcome with
    | (.ok _, s) => some (s.await reqId id .removeDir)
    | (.error e, s) => some (s.post reqId (.error e))
  | .other op => some (s.post reqId (.error ("transfer worker: unknown op " ++ op)))

/-- The directory is there, or is not. -/
def gotDir (s : Worker) (k : ℕ) (reqId : ℕ) (stage : Stage) : Option Worker :=
  match s.root with
  | .resolved => some (s.setStage k stage)
  | .rejected e => some (s.finish k reqId (.error e))
  | .unasked | .pending => none

/-- A handler goes on. -/
def proceed (s : Worker) (k : ℕ) (t : Task) (outcome : Except String Unit) : Option Worker :=
  match t.stage, outcome, s.files t.id with
  | .openDir create, _, _ => s.gotDir k t.reqId (.fileHandle create)
  | .fileHandle _, .error e, _ => some (s.finish k t.reqId (.error e))
  | .fileHandle _, .ok _, some _ => some (s.setStage k .accessHandle)
  | .fileHandle true, .ok _, none => some ((s.setFile t.id (some {})).setStage k .accessHandle)
  | .accessHandle, .error e, _ => some (s.finish k t.reqId (.error e))
  | .accessHandle, .ok _, some f =>
    if f.holder = none then
      some ((s.setFile t.id (some { f with holder := some (.task k) })).setStage k .created)
    else none
  | .created, .ok _, some f =>
    let size := f.content.length
    some (((s.setFile t.id (some { f with holder := some .map })).setOpened t.id
      (some ⟨size, size⟩)).finish k t.reqId (.ok (some size)))
  | .created, .error e, some f =>
    some ((s.setFile t.id (some { f with holder := some .lost })).finish k t.reqId (.error e))
  | .removeDir, _, _ => s.gotDir k t.reqId .removeEntry
  -- That the removal fails is caught.
  | .removeEntry, .error _, _ => some (s.finish k t.reqId (.ok none))
  | .removeEntry, .ok _, some f =>
    if f.holder = none then some ((s.setFile t.id none).finish k t.reqId (.ok none)) else none
  | _, _, _ => none

/-- One step. -/
def step (s : Worker) : WorkerAction → Option Worker
  | .message reqId id op => s.receive reqId id op
  | .root outcome =>
    if s.root = .pending then
      some { s with root := match outcome with | .ok _ => .resolved | .error e => .rejected e }
    else none
  | .settle k outcome =>
    match s.tasks[k]? with
    | some t => s.proceed k t outcome
    | none => none

end Worker

end Staging
