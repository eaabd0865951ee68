import Wosh.Sftp.Response
import Wosh.Transfer.Upload

set_option relaxedAutoImplicit false
set_option autoImplicit false

/-!
# The opening move of an upload

`upload_attempt` of `wosh-client/src/transfer.rs`, against a server that may answer anything: what
STAT is answered, how the answer becomes a plan, which flags the OPEN carries, and whether the tails
were found equal before the first WRITE.

## Main definitions

* `Transfer.statOptional`, `Transfer.remoteSize` — an answer to STAT, as the plan sees it.
* `Transfer.openFlags` — the flags of the OPEN.
* `Transfer.Probed`, `Transfer.Probed.step` — an upload whose STAT and tail are answered with any
  response, and what its attempt was answered and has sent.
* `Transfer.Probed.Careful` — existing content is not truncated, nor written over unseen.
* `Transfer.conclusive` — an answer to STAT that says what is there, or fails.

## Main results

* `Transfer.upload_careful_iff` — an upload is careful in every state exactly as long as STAT is
  answered conclusively.
* `Transfer.step_of_truthful` — where the server answers from the file, a step is one of
  `Transfer.Upload.step`.
* `Transfer.not_alwaysCareful` — attributes without a size, and the file is truncated.
-/

namespace Transfer

open Tunnel (Bytes)
open Run

/-! ## The answer to STAT -/

/-- `SSH_FXF_READ`. -/
def sshFxfRead : ℕ := 0x1

/-- `SSH_FXF_WRITE`. -/
def sshFxfWrite : ℕ := 0x2

/-- `SSH_FXF_CREAT`. -/
def sshFxfCreat : ℕ := 0x8

/-- `SSH_FXF_TRUNC`. -/
def sshFxfTrunc : ℕ := 0x10

/-- STAT a path: no attributes when it is not there (`stat_optional`). -/
def statOptional :
    Except Halt WoshSftp.Response → Except Halt (Option WoshSftp.FileAttrs)
  | .error halt => .error halt
  | .ok (.attrs _ attrs) => .ok (some attrs)
  | .ok (.status _ (.error e)) =>
    if e.code = .noSuchFile then .ok none
    else .error (.fatal ("stat the remote path: " ++ e.text))
  -- a bare OK for a STAT is "no attributes"
  | .ok (.status _ (.ok _)) => .ok none
  | .ok resp =>
    .error (.fatal ("stat the remote path: the server answered with " ++ resp.describe))

/-- The length of the remote file, as the plan is told. -/
def remoteSize (r : Except Halt WoshSftp.Response) : Except Halt (Option ℕ) :=
  (statOptional r).map fun attrs => attrs.bind WoshSftp.FileAttrs.size

/-- The flags of the OPEN, where it opens afresh or to verify a tail. -/
def openFlags : Option (ℕ × ℕ) → ℕ
  | none => sshFxfWrite ||| sshFxfCreat ||| sshFxfTrunc
  | some _ => sshFxfRead ||| sshFxfWrite ||| sshFxfCreat

/-- The flags carry `SSH_FXF_TRUNC`. -/
def truncates (flags : ℕ) : Bool := flags &&& sshFxfTrunc ≠ 0

/-- Only an OPEN afresh truncates. -/
theorem truncates_openFlags (verify : Option (ℕ × ℕ)) :
    truncates (openFlags verify) = verify.isNone := by
  cases verify with
  | none => rfl
  | some v =>
    show truncates (sshFxfRead ||| sshFxfWrite ||| sshFxfCreat) = false
    decide

/-- The server says that there is no file, or that it is empty. -/
def nothingThere : WoshSftp.Response → Bool
  | .attrs _ attrs => attrs.size = some 0
  | .status _ (.error e) => e.code = .noSuchFile
  | _ => false

/-- The answer says how long the file is, or that there is none, or it fails the upload. -/
def conclusive : WoshSftp.Response → Bool
  | .attrs _ attrs => attrs.size ≠ none
  | .status _ (.ok _) => false
  | _ => true

/-! ## The attempt -/

namespace Upload

/-- STAT is answered. -/
def statReplied (source : Bytes) (u : Upload) (r : Except Halt WoshSftp.Response) : Upload :=
  match remoteSize r with
  | .error halt => u.returns halt.into
  | .ok size => u.plan source size

/-- A READ of the tail is answered (`read_exact_remote`). -/
def tailReplied (u : Upload) (remoteLen tail : ℕ) (got : Bytes) :
    Except Halt WoshSftp.Response → Upload
  | .error halt => u.close halt.into
  | .ok (.data _ data) =>
    if data = [] then { u with pc := .comparing remoteLen tail got }
    else u.readTail remoteLen tail (got ++ data)
  | .ok (.status _ (.ok _)) => { u with pc := .comparing remoteLen tail got }
  | .ok (.status _ (.error e)) => u.close (.failed ("read the remote tail: " ++ e.text))
  | .ok resp =>
    u.close (.failed ("read the remote tail: the server answered with " ++ resp.describe))

/-- The source's tail is there, and compared. -/
def tailCompared (source : Bytes) (u : Upload) (remoteLen tail : ℕ) (got : Bytes) :
    Except String Bytes → Upload
  | .error e => u.close (.failed ("read the source's tail: " ++ e))
  | .ok localTail =>
    match resumeAfterVerify remoteLen source.length (got.length = tail ∧ got = localTail) with
    | .ok .complete => { u with pc := .closing .done (some source.length) }
    | .ok (.append offset) => u.startLoop source offset
    | .error e => u.close (.failed e)

end Upload

/-- In the write loop, a WRITE may be sent. -/
def UploadPc.writing : UploadPc → Bool
  | .sourcing _ | .pumping | .resting => true
  | _ => false

/-- An upload, with what concerns the opening move of the attempt that runs. -/
structure Probed where
  upload : Upload
  /-- What STAT was answered. -/
  stat : Option (Except Halt WoshSftp.Response) := none
  /-- The flags of the OPEN that was sent. -/
  flags : Option ℕ := none
  /-- The tails were compared, and are equal. -/
  agreed : Bool := false
deriving DecidableEq

/-- What happens next. -/
inductive ProbedAction
  | stat (r : Except Halt WoshSftp.Response)
  /-- A READ of the tail returns. -/
  | tail (r : Except Halt WoshSftp.Response)
  /-- The read of the source's tail returns. -/
  | sourceTail (r : Except String Bytes)
  /-- Anything else. -/
  | act (a : UploadAction)
deriving DecidableEq

/-- What `ProbedAction` has an action of its own for. -/
def UploadPc.asks : UploadPc → UploadAction → Bool
  | .statting, .statted _ _ | .tailing .., .tailRead _ | .comparing .., .sourced _ => true
  | _, _ => false

namespace Probed

/-- The record of the attempt goes on: it is empty where one begins, and an OPEN is recorded when it
is sent. -/
def goOn (d : Probed) (u : Upload) : Probed :=
  match u.pc with
  | .ensuring => { upload := u }
  | .opening verify => { d with upload := u, flags := some (openFlags verify) }
  | _ => { d with upload := u }

/-- One step. -/
def step (source : Bytes) (d : Probed) : ProbedAction → Option Probed
  | .stat r =>
    if d.upload.pc ≠ .statting then none
    else some ({ d with stat := some r }.goOn (d.upload.statReplied source r))
  | .tail r =>
    match d.upload.pc with
    | .tailing remoteLen tail got => some (d.goOn (d.upload.tailReplied remoteLen tail got r))
    | _ => none
  | .sourceTail r =>
    match d.upload.pc with
    | .comparing remoteLen tail got =>
      some ({ d with agreed := got.length = tail ∧ r.toOption = some got }.goOn
        (d.upload.tailCompared source remoteLen tail got r))
    | _ => none
  | .act a => if d.upload.pc.asks a then none else (d.upload.step source a).map d.goOn

/-- The server said that there is no file, or that it is empty. -/
def empty (d : Probed) : Bool :=
  match d.stat with
  | some (.ok resp) => nothingThere resp
  | _ => false

/-- Unless it was asked to overwrite, the attempt has not sent an OPEN that truncates, and does not
write, where the server did not say that there is nothing; it may write where the tails are equal. -/
structure Careful (d : Probed) : Prop where
  opens : d.upload.overwrite = false →
    ∀ flags ∈ d.flags, truncates flags = true → d.empty = true
  writes : d.upload.overwrite = false → d.upload.pc.writing = true →
    d.empty = true ∨ d.agreed = true

/-- The step does not take an answer to STAT for the absence of a file. -/
def Concludes (d : Probed) : ProbedAction → Prop
  | .stat (.ok resp) => d.upload.pc = .statting → conclusive resp = true
  | _ => True

instance (d : Probed) : (a : ProbedAction) → Decidable (d.Concludes a)
  | .stat (.ok resp) =>
    inferInstanceAs (Decidable (d.upload.pc = .statting → conclusive resp = true))
  | .stat (.error _) | .tail _ | .sourceTail _ | .act _ => inferInstanceAs (Decidable True)

end Probed

/-! ## Where an attempt goes -/

/-- The attempt is over, or about to be. -/
def UploadPc.parked : UploadPc → Bool
  | .closing _ _ | .between _ => true
  | _ => false

/-- The tail is being read, or compared. -/
def UploadPc.verifying : UploadPc → Bool
  | .tailing .. | .comparing .. => true
  | _ => false

theorem UploadPc.not_writing_of_parked {pc : UploadPc} (h : pc.parked = true) :
    pc.writing = false := by
  cases pc <;> first | rfl | cases h

theorem UploadPc.not_writing_of_verifying {pc : UploadPc} (h : pc.verifying = true) :
    pc.writing = false := by
  cases pc <;> first | rfl | cases h

/-- Where an upload goes from one step to the next, if no answer about the file leads it. -/
inductive UploadPc.Next (overwrite : Bool) : UploadPc → UploadPc → Prop
  | stays (pc : UploadPc) : Next overwrite pc pc
  | parks {pc pc' : UploadPc} (h : pc'.parked = true) : Next overwrite pc pc'
  | probes (h : overwrite = false) : Next overwrite .ensuring .statting
  | replaces (h : overwrite = true) (verify : Option (ℕ × ℕ)) :
    Next overwrite .ensuring (.opening verify)
  | starts {pc' : UploadPc} (h : pc'.writing = true) : Next overwrite (.opening none) pc'
  | verifies {v : ℕ × ℕ} {pc' : UploadPc} (h : pc'.verifying = true) :
    Next overwrite (.opening (some v)) pc'
  | writes {pc pc' : UploadPc} (h : pc.writing = true) (h' : pc'.writing = true) :
    Next overwrite pc pc'

namespace Upload

variable {source : Bytes} {u u' : Upload}

/-- The plan refuses, or opens the path: to verify a tail, unless nothing is known to be there. -/
theorem plan_cases (source : Bytes) (u : Upload) (size : Option ℕ) :
    (u.plan source size).overwrite = u.overwrite ∧
      ((u.plan source size).pc.parked = true ∨
        (∃ v, (u.plan source size).pc = .opening (some v)) ∨
        (u.plan source size).pc = .opening none ∧
          (u.overwrite = true ∨ size = none ∨ size = some 0)) := by
  unfold plan
  split
  · exact ⟨rfl, .inl rfl⟩
  · rename_i hfresh
    refine ⟨rfl, .inr (.inr ⟨rfl, ?_⟩)⟩
    unfold planUpload at hfresh
    split_ifs at hfresh with hover
    · exact .inl hover
    · split at hfresh
      · exact .inr (.inl rfl)
      · split_ifs at hfresh with hzero
        exact .inr (.inr (congrArg some hzero))
  · exact ⟨rfl, .inr (.inl ⟨_, rfl⟩)⟩

/-- A lap of the write loop stays in it, or leaves it. -/
theorem lap_cases (source : Bytes) (u : Upload) :
    (u.lap source).overwrite = u.overwrite ∧
      ((u.lap source).pc.writing = true ∨ (u.lap source).pc.parked = true) := by
  unfold lap
  dsimp only
  split
  · exact ⟨rfl, .inr rfl⟩
  · split
    · exact ⟨rfl, .inr rfl⟩
    · exact ⟨rfl, .inr rfl⟩
    · unfold issueNext
      split_ifs
      · dsimp only
        split
        · exact ⟨rfl, .inl rfl⟩
        · exact ⟨rfl, .inl rfl⟩
      · exact ⟨rfl, .inl rfl⟩

/-- The next WRITE is issued, or the attempt ends. -/
theorem sourced_cases (source : Bytes) (u : Upload) (want : ℕ) (r : Except String ℕ) :
    (u.sourced source want r).overwrite = u.overwrite ∧
      ((u.sourced source want r).pc.writing = true ∨
        (u.sourced source want r).pc.parked = true) := by
  cases r with
  | error e => exact ⟨rfl, .inr rfl⟩
  | ok n =>
    unfold sourced
    dsimp only
    split_ifs
    · exact ⟨rfl, .inr rfl⟩
    · split
      · exact ⟨rfl, .inr rfl⟩
      · unfold issueNext
        split_ifs
        · dsimp only
          split
          · exact ⟨rfl, .inl rfl⟩
          · exact ⟨rfl, .inl rfl⟩
        · exact ⟨rfl, .inl rfl⟩

/-- More of the tail is read, or it is compared. -/
theorem verifying_readTail (u : Upload) (remoteLen tail : ℕ) (got : Bytes) :
    (u.readTail remoteLen tail got).overwrite = u.overwrite ∧
      (u.readTail remoteLen tail got).pc.verifying = true := by
  unfold readTail
  split_ifs
  · exact ⟨rfl, rfl⟩
  · exact ⟨rfl, rfl⟩

/-- A step that no answer about the file leads goes where the attempt goes next. Another transfer may
begin instead. -/
theorem step_next {a : UploadAction} (hasks : u.pc.asks a = false)
    (hstep : u.step source a = some u') :
    u'.pc = .ensuring ∨ u'.overwrite = u.overwrite ∧ UploadPc.Next u.overwrite u.pc u'.pc := by
  cases a with
  | ensured err =>
    simp only [step] at hstep
    split at hstep
    · cases hstep
    rename_i hpc
    rw [not_not] at hpc
    split at hstep
    · cases hstep
      exact .inr ⟨rfl, .parks rfl⟩
    · split_ifs at hstep with hover
      · cases hstep
        obtain ⟨hsame, hplan⟩ := plan_cases source u none
        refine .inr ⟨hsame, ?_⟩
        rw [hpc]
        obtain hparked | ⟨v, hopening⟩ | ⟨hopening, -⟩ := hplan
        · exact .parks hparked
        · rw [hopening]
          exact .replaces hover _
        · rw [hopening]
          exact .replaces hover _
      · cases hstep
        rw [hpc]
        exact .inr ⟨rfl, .probes (eq_false_of_ne_true hover)⟩
  | statted err sized =>
    simp only [step] at hstep
    split at hstep
    · cases hstep
    rename_i hpc
    rw [not_not] at hpc
    rw [hpc] at hasks
    cases hasks
  | opened err applied =>
    simp only [step] at hstep
    split at hstep
    · rename_i verify hpc
      cases hstep
      rw [hpc]
      right
      cases err with
      | some halt => exact ⟨rfl, .parks rfl⟩
      | none =>
        cases verify with
        | none =>
          obtain ⟨hsame, hwriting | hparked⟩ := lap_cases source _
          · exact ⟨hsame, .starts hwriting⟩
          · exact ⟨hsame, .parks hparked⟩
        | some v =>
          obtain ⟨hsame, hverifying⟩ := verifying_readTail _ v.1 v.2 []
          exact ⟨hsame, .verifies hverifying⟩
    · cases hstep
  | tailRead r =>
    simp only [step] at hstep
    split at hstep
    · rename_i hpc
      rw [hpc] at hasks
      cases hasks
    · cases hstep
  | sourced r =>
    simp only [step] at hstep
    split at hstep
    · rename_i hpc
      rw [hpc] at hasks
      cases hasks
    · rename_i want hpc
      cases hstep
      rw [hpc]
      obtain ⟨hsame, hwriting | hparked⟩ := sourced_cases source u want r
      · exact .inr ⟨hsame, .writes rfl hwriting⟩
      · exact .inr ⟨hsame, .parks hparked⟩
    · cases hstep
  | closed =>
    simp only [step] at hstep
    split at hstep
    · cases hstep
      exact .inr ⟨rfl, .parks rfl⟩
    · cases hstep
  | round =>
    simp only [step] at hstep
    split at hstep
    · cases hstep
    rename_i hpc
    rw [not_not] at hpc
    cases hstep
    rw [hpc]
    unfold round
    split
    · exact .inr ⟨rfl, .writes rfl rfl⟩
    · exact .inr ⟨rfl, .parks rfl⟩
  | rested =>
    simp only [step] at hstep
    split at hstep
    · rename_i hpc
      cases hstep
      rw [hpc]
      obtain ⟨hsame, hwriting | hparked⟩ := lap_cases source u
      · exact .inr ⟨hsame, .writes rfl hwriting⟩
      · exact .inr ⟨hsame, .parks hparked⟩
    · cases hstep
      unfold begin
      split
      · exact .inr ⟨rfl, .parks rfl⟩
      · exact .inl rfl
    · cases hstep
      exact .inr ⟨rfl, .parks rfl⟩
    · cases hstep
  | apply i =>
    simp only [step] at hstep
    split at hstep
    · split_ifs at hstep
      cases hstep
      exact .inr ⟨rfl, .stays _⟩
    · cases hstep
  | answer i resp =>
    simp only [step] at hstep
    split at hstep
    · split_ifs at hstep
      · cases hstep
        exact .inr ⟨rfl, .stays _⟩
      · cases hstep
        exact .inr ⟨rfl, .stays _⟩
    · cases hstep
  | applyLate i =>
    simp only [step] at hstep
    split at hstep
    · cases hstep
      exact .inr ⟨rfl, .stays _⟩
    · cases hstep
  | die reason | channel s | session s | others n | cancel | drop =>
    cases hstep
    exact .inr ⟨rfl, .stays _⟩
  | again overwrite =>
    simp only [step] at hstep
    split_ifs at hstep
    cases hstep
    exact .inl rfl

end Upload

/-! ## The invariant -/

/-- An answer that concludes and leaves nothing to verify says that there is nothing. -/
theorem nothingThere_of_remoteSize {resp : WoshSftp.Response} {size : Option ℕ}
    (hconclusive : conclusive resp = true) (hsize : remoteSize (.ok resp) = .ok size)
    (hnone : size = none ∨ size = some 0) : nothingThere resp = true := by
  cases resp with
  | attrs id attrs =>
    obtain rfl : attrs.size = size := by simpa [remoteSize, statOptional, Except.map] using hsize
    obtain hnone | hzero := hnone
    · simp [conclusive, hnone] at hconclusive
    · simp [nothingThere, hzero]
  | status id result =>
    cases result with
    | error e =>
      by_cases he : e.code = .noSuchFile
      · simp [nothingThere, he]
      · simp [remoteSize, statOptional, he, Except.map] at hsize
    | ok outcome => simp [conclusive] at hconclusive
  | version _ | handle _ _ | data _ _ | name _ _ | extendedReply _ _ =>
    simp [remoteSize, statOptional, Except.map] at hsize

namespace Probed

/-- A careful upload, whose record fits where the attempt stands. -/
structure Sound (d : Probed) : Prop extends Careful d where
  asked : d.upload.pc = .statting → d.upload.overwrite = false
  unsent : d.upload.pc = .ensuring ∨ d.upload.pc = .statting → d.flags = none
  sent : ∀ verify, d.upload.pc = .opening verify → d.flags = some (openFlags verify)

variable {source : Bytes} {d d' : Probed} {u : Upload}

@[simp]
theorem upload_goOn (d : Probed) (u : Upload) : (d.goOn u).upload = u := by
  unfold goOn
  split <;> rfl

/-- An attempt that begins has done nothing. -/
theorem sound_begins (d : Probed) (h : u.pc = .ensuring) : (d.goOn u).Sound := by
  have hgo : d.goOn u = { upload := u } := by simp only [goOn, h]
  rw [hgo]
  exact {
    opens := by simp
    writes := by simp [h, UploadPc.writing]
    asked := by simp [h]
    unsent := fun _ => rfl
    sent := by simp [h] }

/-- The record stays sound where an OPEN that truncates is sent, and the write loop is entered, with
reason. -/
theorem sound_goOn
    (hopens : u.overwrite = false → ∀ flags ∈ d.flags, truncates flags = true → d.empty = true)
    (hopening : u.pc = .opening none → u.overwrite = false → d.empty = true)
    (hstat : u.pc = .statting → u.overwrite = false ∧ d.flags = none)
    (hwrites : u.overwrite = false → u.pc.writing = true → d.empty = true ∨ d.agreed = true) :
    (d.goOn u).Sound := by
  by_cases hbegins : u.pc = .ensuring
  · exact sound_begins d hbegins
  · by_cases hsends : ∃ verify, u.pc = .opening verify
    · obtain ⟨verify, hpc⟩ := hsends
      have hgo : d.goOn u = { d with upload := u, flags := some (openFlags verify) } := by
        simp only [goOn, hpc]
      rw [hgo]
      refine {
        opens := fun hover flags hflags htrunc => ?_
        writes := by simp [hpc, UploadPc.writing]
        asked := by simp [hpc]
        unsent := by simp [hpc]
        sent := by simp [hpc] }
      obtain rfl : openFlags verify = flags := by simpa using hflags
      cases verify with
      | none => exact hopening hpc hover
      | some v =>
        rw [truncates_openFlags] at htrunc
        cases htrunc
    · have hgo : d.goOn u = { d with upload := u } := by
        unfold goOn
        split
        · rename_i hpc
          exact absurd hpc hbegins
        · rename_i verify hpc
          exact absurd ⟨verify, hpc⟩ hsends
        · rfl
      rw [hgo]
      exact {
        opens := hopens
        writes := hwrites
        asked := fun hpc => (hstat hpc).1
        unsent := fun hpc => hpc.elim (fun hpc => absurd hpc hbegins) fun hpc => (hstat hpc).2
        sent := fun verify hpc => absurd ⟨verify, hpc⟩ hsends }

/-- An attempt that is over, or about to be, sends nothing. -/
theorem sound_parked (hover : u.overwrite = false →
      ∀ flags ∈ d.flags, truncates flags = true → d.empty = true)
    (hparked : u.pc.parked = true) : (d.goOn u).Sound := by
  refine sound_goOn hover ?_ ?_ ?_
  · intro hpc
    rw [hpc] at hparked
    cases hparked
  · intro hpc
    rw [hpc] at hparked
    cases hparked
  · intro _ hwriting
    rw [UploadPc.not_writing_of_parked hparked] at hwriting
    cases hwriting

/-- Nor does one that verifies the tail. -/
theorem sound_verifying (hover : u.overwrite = false →
      ∀ flags ∈ d.flags, truncates flags = true → d.empty = true)
    (hverifying : u.pc.verifying = true) : (d.goOn u).Sound := by
  refine sound_goOn hover ?_ ?_ ?_
  · intro hpc
    rw [hpc] at hverifying
    cases hverifying
  · intro hpc
    rw [hpc] at hverifying
    cases hverifying
  · intro _ hwriting
    rw [UploadPc.not_writing_of_verifying hverifying] at hwriting
    cases hwriting

/-- One that writes has a reason to. -/
theorem sound_writing (hover : u.overwrite = false →
      ∀ flags ∈ d.flags, truncates flags = true → d.empty = true)
    (hwriting : u.pc.writing = true)
    (hreason : u.overwrite = false → d.empty = true ∨ d.agreed = true) : (d.goOn u).Sound := by
  refine sound_goOn hover ?_ ?_ fun hfalse _ => hreason hfalse
  · intro hpc
    rw [hpc] at hwriting
    cases hwriting
  · intro hpc
    rw [hpc] at hwriting
    cases hwriting

/-- A step that no answer about the file leads keeps the record sound. -/
theorem Sound.next (h : d.Sound) (hsame : u.overwrite = d.upload.overwrite)
    (hnext : UploadPc.Next d.upload.overwrite d.upload.pc u.pc) : (d.goOn u).Sound := by
  have hopens : u.overwrite = false →
      ∀ flags ∈ d.flags, truncates flags = true → d.empty = true := by
    rw [hsame]
    exact h.opens
  have hfresh : d.upload.pc = .opening none → d.upload.overwrite = false → d.empty = true :=
    fun hpc hover => h.opens hover _ (h.sent none hpc) rfl
  generalize hfrom : d.upload.pc = pc at hnext
  generalize hto : u.pc = pc' at hnext
  cases hnext with
  | stays =>
    refine sound_goOn hopens ?_ ?_ ?_
    · intro hpc hover
      exact hfresh (hfrom.trans (hto.symm.trans hpc)) (hsame ▸ hover)
    · intro hpc
      have hasking : d.upload.pc = .statting := hfrom.trans (hto.symm.trans hpc)
      exact ⟨hsame.trans (h.asked hasking), h.unsent (.inr hasking)⟩
    · intro hover hwriting
      rw [hto] at hwriting
      exact h.writes (hsame ▸ hover) (hfrom ▸ hwriting)
  | parks hparked => exact sound_parked hopens (hto ▸ hparked)
  | probes hover =>
    refine sound_goOn hopens ?_ ?_ ?_
    · simp [hto]
    · exact fun _ => ⟨hsame.trans hover, h.unsent (.inl hfrom)⟩
    · simp [hto, UploadPc.writing]
  | replaces hover verify =>
    have hnot : u.overwrite ≠ false := by simp [hsame, hover]
    refine sound_goOn hopens ?_ ?_ ?_
    · exact fun _ hfalse => absurd hfalse hnot
    · simp [hto]
    · exact fun hfalse => absurd hfalse hnot
  | starts hwriting =>
    exact sound_writing hopens (hto ▸ hwriting) fun hover => .inl (hfresh hfrom (hsame ▸ hover))
  | verifies hverifying => exact sound_verifying hopens (hto ▸ hverifying)
  | writes hwas hwriting =>
    exact sound_writing hopens (hto ▸ hwriting) fun hover =>
      h.writes (hsame ▸ hover) (hfrom ▸ hwas)

/-- So does an answer to STAT that concludes. -/
theorem Sound.stat (h : d.Sound) (hpc : d.upload.pc = .statting)
    {r : Except Halt WoshSftp.Response} (hr : ∀ resp, r = .ok resp → conclusive resp = true) :
    ({ d with stat := some r }.goOn (d.upload.statReplied source r)).Sound := by
  have hunsent : d.flags = none := h.unsent (.inr hpc)
  have hopens : ∀ {P : Prop}, P → ∀ flags ∈ d.flags, truncates flags = true →
      Probed.empty { d with stat := some r } = true := by simp [hunsent]
  unfold Upload.statReplied
  split
  · exact sound_parked hopens rfl
  · rename_i size hsize
    obtain ⟨hsame, hparked | ⟨v, hopening⟩ | ⟨hopening, hwhy⟩⟩ :=
      Upload.plan_cases source d.upload size
    · exact sound_parked hopens hparked
    · exact sound_goOn hopens (by simp [hopening]) (by simp [hopening])
        (by simp [hopening, UploadPc.writing])
    · refine sound_goOn hopens ?_ (by simp [hopening]) (by simp [hopening, UploadPc.writing])
      intro _ hover
      cases r with
      | error halt => simp [remoteSize, statOptional, Except.map] at hsize
      | ok resp =>
        refine nothingThere_of_remoteSize (hr resp rfl) hsize (hwhy.resolve_left ?_)
        simp [hsame ▸ hover]

/-- An answer to a READ of the tail leads on to the comparison, or ends the attempt. -/
theorem tailReplied_cases (u : Upload) (remoteLen tail : ℕ) (got : Bytes)
    (r : Except Halt WoshSftp.Response) :
    (u.tailReplied remoteLen tail got r).overwrite = u.overwrite ∧
      ((u.tailReplied remoteLen tail got r).pc.verifying = true ∨
        (u.tailReplied remoteLen tail got r).pc.parked = true) := by
  unfold Upload.tailReplied
  split
  · exact ⟨rfl, .inr rfl⟩
  · split_ifs
    · exact ⟨rfl, .inl rfl⟩
    · obtain ⟨hsame, hverifying⟩ := Upload.verifying_readTail u remoteLen tail _
      exact ⟨hsame, .inl hverifying⟩
  · exact ⟨rfl, .inl rfl⟩
  · exact ⟨rfl, .inr rfl⟩
  · exact ⟨rfl, .inr rfl⟩

/-- The write loop is entered after the comparison only where the tails are equal. -/
theorem tailCompared_cases (source : Bytes) (u : Upload) (remoteLen tail : ℕ) (got : Bytes)
    (r : Except String Bytes) :
    (u.tailCompared source remoteLen tail got r).overwrite = u.overwrite ∧
      ((u.tailCompared source remoteLen tail got r).pc.parked = true ∨
        (u.tailCompared source remoteLen tail got r).pc.writing = true ∧
          got.length = tail ∧ r.toOption = some got) := by
  cases r with
  | error e => exact ⟨rfl, .inl rfl⟩
  | ok localTail =>
    unfold Upload.tailCompared
    dsimp only
    split
    · exact ⟨rfl, .inl rfl⟩
    · rename_i offset hresume
      obtain ⟨hequal, -⟩ := resumeAfterVerify_append hresume
      obtain ⟨hlen, rfl⟩ : got.length = tail ∧ got = localTail := by simpa using hequal
      obtain ⟨hsame, hwriting | hparked⟩ := Upload.lap_cases source _
      · exact ⟨hsame, .inr ⟨hwriting, hlen, rfl⟩⟩
      · exact ⟨hsame, .inl hparked⟩
    · exact ⟨rfl, .inl rfl⟩

/-- Every step that does not take an answer for the absence of a file keeps the record sound. -/
theorem Sound.step (h : d.Sound) {a : ProbedAction} (ha : d.Concludes a)
    (hstep : d.step source a = some d') : d'.Sound := by
  cases a with
  | stat r =>
    rw [Probed.step] at hstep
    split_ifs at hstep with hpc
    rw [not_not] at hpc
    cases hstep
    refine h.stat hpc fun resp hr => ?_
    subst hr
    exact ha hpc
  | tail r =>
    rw [Probed.step] at hstep
    split at hstep
    · rename_i remoteLen tail got hpc
      cases hstep
      obtain ⟨hsame, hverifying | hparked⟩ := tailReplied_cases d.upload remoteLen tail got r
      · exact sound_verifying (hsame ▸ h.opens) hverifying
      · exact sound_parked (hsame ▸ h.opens) hparked
    · cases hstep
  | sourceTail r =>
    rw [Probed.step] at hstep
    split at hstep
    · rename_i remoteLen tail got hpc
      cases hstep
      obtain ⟨hsame, hparked | ⟨hwriting, hequal⟩⟩ :=
        tailCompared_cases source d.upload remoteLen tail got r
      · exact sound_parked (hsame ▸ h.opens) hparked
      · exact sound_writing (hsame ▸ h.opens) hwriting fun _ => .inr (by simpa using hequal)
    · cases hstep
  | act a =>
    rw [Probed.step] at hstep
    split_ifs at hstep with hasks
    obtain ⟨u, hu, rfl⟩ := Option.map_eq_some_iff.1 hstep
    obtain hbegins | ⟨hsame, hnext⟩ := Upload.step_next (eq_false_of_ne_true hasks) hu
    · exact sound_begins d hbegins
    · exact h.next hsame hnext

/-- An answer that is taken for the absence of a file has it truncated. -/
theorem Sound.not_careful (h : d.Sound) {a : ProbedAction} (ha : ¬ d.Concludes a) :
    ∃ d', d.step source a = some d' ∧ ¬ d'.Careful := by
  cases a with
  | stat r =>
    cases r with
    | error halt => exact absurd trivial ha
    | ok resp =>
      obtain ⟨hpc, hinconclusive⟩ : d.upload.pc = .statting ∧ conclusive resp = false := by
        simpa [Concludes] using ha
      have hover := h.asked hpc
      have hsize : remoteSize (.ok resp) = .ok none := by
        cases resp with
        | attrs id attrs =>
          have hnone : attrs.size = none := by simpa [conclusive] using hinconclusive
          simp [remoteSize, statOptional, Except.map, hnone]
        | status id result =>
          cases result with
          | error e => simp [conclusive] at hinconclusive
          | ok outcome => rfl
        | version _ | handle _ _ | data _ _ | name _ _ | extendedReply _ _ =>
          simp [conclusive] at hinconclusive
      have hnothing : nothingThere resp = false := by
        cases resp with
        | attrs id attrs =>
          have hnone : attrs.size = none := by simpa [conclusive] using hinconclusive
          simp [nothingThere, hnone]
        | status id result =>
          cases result with
          | error e => simp [conclusive] at hinconclusive
          | ok outcome => rfl
        | version _ | handle _ _ | data _ _ | name _ _ | extendedReply _ _ => rfl
      have hplan : d.upload.statReplied source (.ok resp) =
          { d.upload with pc := .opening none } := by
        simp [Upload.statReplied, hsize, Upload.plan, planUpload, hover]
      refine ⟨_, by rw [Probed.step, if_neg (not_not.2 hpc)], fun hcareful => ?_⟩
      rw [hplan] at hcareful
      have hempty : nothingThere resp = true := hcareful.opens hover _ rfl rfl
      rw [hnothing] at hempty
      cases hempty
  | tail r => exact absurd trivial ha
  | sourceTail r => exact absurd trivial ha
  | act a => exact absurd trivial ha

/-- `start_upload`, to a path that holds this. -/
def start (source : Bytes) (remote : Option Bytes) (overwrite : Bool) : Probed :=
  { upload := { Upload.start source overwrite with remote := remote } }

theorem sound_start (source : Bytes) (remote : Option Bytes) (overwrite : Bool) :
    (start source remote overwrite).Sound where
  opens := by simp [start]
  writes := by simp [start, Upload.start, UploadPc.writing]
  asked := by simp [start, Upload.start]
  unsent := fun _ => rfl
  sent := by simp [start, Upload.start]

end Probed

/-- **An upload without `overwrite` truncates nothing** exactly as long as no answer to STAT is taken
for the absence of a file: attributes that do not say the size, or a STATUS that is no error. As long
as there is none, every OPEN that truncates follows an answer that says that there is nothing, and
what is there is written to only after the tails were found equal.

**Proof sketch.** The record of the attempt is sound: it is empty where an attempt begins, STAT is
asked only without `overwrite`, and what leads into the write loop is either the OPEN that truncates
or the comparison. A conclusive answer keeps it sound; after any other one an OPEN that truncates
is sent at once. -/
theorem upload_careful_iff (source : Bytes) (remote : Option Bytes) (overwrite : Bool)
    (as : List ProbedAction) :
    Along (Probed.step source) Probed.Concludes (Probed.start source remote overwrite) as ↔
      ∀ bs d, bs <+: as →
        run (Probed.step source) (Probed.start source remote overwrite) bs = some d → d.Careful :=
  along_iff_reached (fun _ h => h.toCareful) (fun _ _ _ h ha hstep => h.step ha hstep)
    (fun _ _ h ha => h.not_careful ha) (Probed.sound_start source remote overwrite) as

/-- Uploads without `overwrite` truncate nothing, whatever the server answers. -/
def AlwaysCareful : Prop :=
  ∀ (source : Bytes) (remote : Option Bytes) (as : List ProbedAction) (d : Probed),
    run (Probed.step source) (Probed.start source remote false) as = some d → d.Careful

/-- STAT is answered with attributes that do not say the size, and the OPEN is carried out. -/
def unsized : List ProbedAction :=
  [.act (.ensured none), .stat (.ok (.attrs 0 {})), .act (.opened none true)]

theorem not_alwaysCareful : ¬ AlwaysCareful := by
  intro h
  obtain ⟨d, hrun, hflags, hempty⟩ : ∃ d, run (Probed.step [1, 2]) (.start [1, 2] (some [7, 8, 9])
      false) unsized = some d ∧ d.flags = some (openFlags none) ∧ d.empty = false ∧
        d.upload.overwrite = false ∧ d.upload.remote = some [] :=
    ⟨_, rfl, by decide, by decide, by decide, by decide⟩
  have hcareful := (h _ _ _ _ hrun).opens hempty.2.1 _ hflags rfl
  rw [hempty.1] at hcareful
  cases hcareful

/-! ## A server that answers from the file -/

/-- The size that STAT is answered is that of the file, and the tails are those of the file and of
the source. -/
def ProbedAction.Truthful (source : Bytes) (u : Upload) : ProbedAction → Prop
  | .stat (.ok (.attrs _ attrs)) => ∀ n ∈ attrs.size, u.remote.map List.length = some n
  | .tail (.ok (.data _ data)) => ∀ remoteLen tail got, u.pc = .tailing remoteLen tail got →
    ∃ n, data = (u.file.drop (remoteLen - tail + got.length)).take
      (min n (min (tail - got.length) maxPayload))
  | .sourceTail (.ok localTail) => ∀ remoteLen tail got, u.pc = .comparing remoteLen tail got →
    ∃ n, localTail = (source.drop (remoteLen - tail)).take (min n tail)
  | _ => True

namespace Upload

variable {source : Bytes} {u : Upload}

theorem step_statReplied (hpc : u.pc = .statting) {r : Except Halt WoshSftp.Response}
    (h : ProbedAction.Truthful source u (.stat r)) :
    ∃ a, u.step source a = some (u.statReplied source r) := by
  cases hr : statOptional r with
  | error halt =>
    have hreplied : u.statReplied source r = u.returns halt.into := by
      simp [statReplied, remoteSize, hr, Except.map]
    exact ⟨.statted (some halt) true, by simp [step, hpc, hreplied]⟩
  | ok attrs =>
    have hreplied : u.statReplied source r =
        u.plan source (attrs.bind WoshSftp.FileAttrs.size) := by
      simp [statReplied, remoteSize, hr, Except.map]
    cases hsize : attrs.bind WoshSftp.FileAttrs.size with
    | none => exact ⟨.statted none false, by simp [step, hpc, hreplied, hsize]⟩
    | some n =>
      have hlen : u.remote.map List.length = some n := by
        obtain ⟨attrs, rfl, hn⟩ := Option.bind_eq_some_iff.1 hsize
        cases r with
        | error halt => cases hr
        | ok resp =>
          cases resp with
          | attrs id attrs' =>
            cases hr
            exact h n hn
          | status id result =>
            cases result with
            | error e =>
              simp only [statOptional] at hr
              split_ifs at hr
              cases hr
            | ok outcome => cases hr
          | version _ | handle _ _ | data _ _ | name _ _ | extendedReply _ _ => cases hr
      exact ⟨.statted none true, by simp [step, hpc, hreplied, hsize, hlen]⟩

theorem step_tailReplied {remoteLen tail : ℕ} {got : Bytes} (hpc : u.pc = .tailing remoteLen tail got)
    {r : Except Halt WoshSftp.Response} (h : ProbedAction.Truthful source u (.tail r)) :
    ∃ a, u.step source a = some (u.tailReplied remoteLen tail got r) := by
  cases r with
  | error halt => exact ⟨.tailRead (.error halt), by simp [step, hpc, tailRead, tailReplied]⟩
  | ok resp =>
    cases resp with
    | data id data =>
      obtain ⟨n, rfl⟩ := h remoteLen tail got hpc
      exact ⟨.tailRead (.ok (.bytes n)), by simp [step, hpc, tailRead, tailReplied]⟩
    | status id result =>
      cases result with
      | error e =>
        exact ⟨.tailRead (.ok (.status (.error e.text))),
          by simp [step, hpc, tailRead, tailReplied]⟩
      | ok outcome =>
        exact ⟨.tailRead (.ok (.status (.ok outcome))),
          by simp [step, hpc, tailRead, tailReplied]⟩
    | version limits =>
      exact ⟨.tailRead (.ok (.other (WoshSftp.Response.version limits).describe)),
        by simp [step, hpc, tailRead, tailReplied]⟩
    | handle id handle =>
      exact ⟨.tailRead (.ok (.other (WoshSftp.Response.handle id handle).describe)),
        by simp [step, hpc, tailRead, tailReplied]⟩
    | name id entries =>
      exact ⟨.tailRead (.ok (.other (WoshSftp.Response.name id entries).describe)),
        by simp [step, hpc, tailRead, tailReplied]⟩
    | attrs id attrs =>
      exact ⟨.tailRead (.ok (.other (WoshSftp.Response.attrs id attrs).describe)),
        by simp [step, hpc, tailRead, tailReplied]⟩
    | extendedReply id payload =>
      exact ⟨.tailRead (.ok (.other (WoshSftp.Response.extendedReply id payload).describe)),
        by simp [step, hpc, tailRead, tailReplied]⟩

theorem step_tailCompared {remoteLen tail : ℕ} {got : Bytes}
    (hpc : u.pc = .comparing remoteLen tail got) {r : Except String Bytes}
    (h : ProbedAction.Truthful source u (.sourceTail r)) :
    ∃ a, u.step source a = some (u.tailCompared source remoteLen tail got r) := by
  cases r with
  | error e => exact ⟨.sourced (.error e), by simp [step, hpc, compared, tailCompared]⟩
  | ok localTail =>
    obtain ⟨n, rfl⟩ := h remoteLen tail got hpc
    refine ⟨.sourced (.ok n), ?_⟩
    simp only [step, hpc]
    rfl

end Upload

/-- Where the server and the source answer truthfully, every step is one of `Transfer.Upload.step`:
what holds along the runs of the one holds along those of the other. -/
theorem step_of_truthful {source : Bytes} {d d' : Probed} {a : ProbedAction}
    (h : a.Truthful source d.upload) (hstep : d.step source a = some d') :
    ∃ b, d.upload.step source b = some d'.upload := by
  cases a with
  | stat r =>
    simp only [Probed.step] at hstep
    split at hstep
    · cases hstep
    · rename_i hpc
      cases hstep
      rw [Probed.upload_goOn]
      exact Upload.step_statReplied (not_not.1 hpc) h
  | tail r =>
    simp only [Probed.step] at hstep
    split at hstep
    · rename_i hpc
      cases hstep
      rw [Probed.upload_goOn]
      exact Upload.step_tailReplied hpc h
    · cases hstep
  | sourceTail r =>
    simp only [Probed.step] at hstep
    split at hstep
    · rename_i hpc
      cases hstep
      rw [Probed.upload_goOn]
      exact Upload.step_tailCompared hpc h
    · cases hstep
  | act a =>
    simp only [Probed.step] at hstep
    split at hstep
    · cases hstep
    · obtain ⟨u, hu, rfl⟩ := Option.map_eq_some_iff.1 hstep
      rw [Probed.upload_goOn]
      exact ⟨a, hu⟩

end Transfer
