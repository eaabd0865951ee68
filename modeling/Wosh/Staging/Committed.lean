import Wosh.Lib.Run
import Wosh.Staging.Worker

set_option relaxedAutoImplicit false
set_option autoImplicit false

/-!
# What the staging worker reports

`committed` is where a download resumes, so it must not count bytes that the file does not have. The
worker counts what it hands to `handle.write`, and not what that returns; and it takes the size of a file
that it opens for what was acknowledged, also when a write threw that had written a part.

## Main definitions

* `Staging.Worker.Truthful` — the file has what was acknowledged, and what is reported.
* `Staging.Worker.Careful` — no step counts bytes that are not there.
* `Staging.Whole` — a call of a handle does all that it was asked to, or throws and does nothing.

## Main results

* `Staging.committed_truthful_iff` — the worker is truthful exactly as long as each step is careful.
* `Staging.Worker.truthful_of_whole` — so it is when all calls of handles are whole.
* `Staging.not_alwaysTruthful` — a write is short, and nobody looks.
-/

namespace Staging

open Tunnel (Bytes)
open Run

variable {s s' : Worker} {id : String} {k reqId : ℕ} {f : StagedFile} {st : OpenFile}

namespace Worker

/-! ## What is reported -/

/-- The bytes of a file; there are none where there is no file. -/
def bytesOf : Option StagedFile → Bytes
  | none => []
  | some f => f.content

/-- The payloads that were answered ok since a file was created, one after the other. -/
def ackedOf : Option StagedFile → Bytes
  | none => []
  | some f => f.acked

/-- What `committed` reports, and `open` while the handle is kept. -/
def reports (s : Worker) (id : String) : Option ℕ := (s.opened id).map OpenFile.flushed

/-- What was answered ok is in the file, each payload directly after the one before it, and the first
bytes of the file, as many as are reported, are the first ones of what was answered ok. -/
structure Truthful (s : Worker) : Prop where
  appended : ∀ id, ackedOf (s.files id) <+: bytesOf (s.files id)
  committed : ∀ id n, s.reports id = some n →
    ∃ front : Bytes, front.length = n ∧ front <+: bytesOf (s.files id) ∧ front <+: ackedOf (s.files id)

/-- The worker as it begins, with the files that an earlier one left. -/
def start (files : String → Option Bytes) : Worker where
  files := fun id => (files id).map fun bytes => { content := bytes, acked := bytes }

/-- What a write leaves out is in the file already; a file that is opened has no more than what was
acknowledged, and one that is removed is not in the map with bytes to report. -/
def Careful (s : Worker) : WorkerAction → Prop
  | .message _ id (.write bytes (.returned n)) => ∀ st f, s.opened id = some st →
    s.heldFile id = some f → n ≤ bytes.length → bytes.drop n <+: f.content.drop (st.offset + n)
  | .settle k (.ok _) => ∀ t f, s.tasks[k]? = some t → s.files t.id = some f →
    (t.stage = .created → f.content.length = f.acked.length) ∧
      (t.stage = .removeEntry → f.holder = none → ∀ n, s.reports t.id = some n → n = 0)
  | _ => True

/-! ## What is kept -/

/-- What is known of a file and of its entry in the map. -/
structure Kept (f : Option StagedFile) (st : Option OpenFile) : Prop where
  appended : ackedOf f <+: bytesOf f
  counted : ∀ o, st = some o → o.flushed ≤ (ackedOf f).length
  held : ∀ g o, f = some g → st = some o → g.holder = some .map → o.offset = g.acked.length

/-- It is known of all files. -/
def Sound (s : Worker) : Prop := ∀ id, Kept (s.files id) (s.opened id)

@[simp] theorem post_files (s : Worker) (reqId : ℕ) (r : Except String (Option ℕ)) :
    (s.post reqId r).files = s.files := rfl

@[simp] theorem post_opened (s : Worker) (reqId : ℕ) (r : Except String (Option ℕ)) :
    (s.post reqId r).opened = s.opened := rfl

@[simp] theorem setStage_files (s : Worker) (k : ℕ) (stage : Stage) :
    (s.setStage k stage).files = s.files := rfl

@[simp] theorem setStage_opened (s : Worker) (k : ℕ) (stage : Stage) :
    (s.setStage k stage).opened = s.opened := rfl

@[simp] theorem finish_opened (s : Worker) (k reqId : ℕ) (r : Except String (Option ℕ)) :
    (s.finish k reqId r).opened = s.opened := rfl

/-- A handle that holds a file is the one in the map. -/
theorem heldFile_eq_some (h : s.heldFile id = some f) :
    s.files id = some f ∧ f.holder = some .map := by
  obtain ⟨hfile, hholder⟩ := Option.filter_eq_some_iff.1 h
  exact ⟨hfile, by simpa using hholder⟩

/-- What a worker reports is the truth. -/
theorem Sound.truthful (h : s.Sound) : s.Truthful where
  appended id := (h id).appended
  committed id n hn := by
    obtain ⟨st, hst, rfl⟩ := Option.map_eq_some_iff.1 hn
    have hle := (h id).counted st hst
    refine ⟨(ackedOf (s.files id)).take st.flushed, ?_, ?_, List.take_prefix _ _⟩
    · rw [List.length_take]
      omega
    · exact (List.take_prefix _ _).trans (h id).appended

theorem sound_start (files : String → Option Bytes) : (start files).Sound := by
  intro id
  refine ⟨?_, ?_, ?_⟩
  · simp only [start]
    cases files id with
    | none => exact List.prefix_refl _
    | some bytes => exact List.prefix_refl _
  · intro o ho
    cases ho
  · intro g o _ ho _
    cases ho

/-! ### One file at a time -/

/-- A worker of which one file and its entry are replaced. -/
theorem Sound.replace (h : s.Sound) {f : Option StagedFile} {st : Option OpenFile} (hk : Kept f st)
    (hfiles : s'.files = Function.update s.files id f)
    (hopened : s'.opened = Function.update s.opened id st) : s'.Sound := by
  intro id'
  rw [hfiles, hopened]
  by_cases hid : id' = id
  · subst hid
    rwa [Function.update_self, Function.update_self]
  · rw [Function.update_of_ne hid, Function.update_of_ne hid]
    exact h id'

/-- A worker of which one file is replaced. -/
theorem Sound.replaceFile (h : s.Sound) {f : Option StagedFile} (hk : Kept f (s.opened id))
    (hfiles : s'.files = Function.update s.files id f) (hopened : s'.opened = s.opened) :
    s'.Sound :=
  h.replace hk hfiles (hopened.trans (Function.update_eq_self id s.opened).symm)

/-- A worker of which one entry of the map is replaced. -/
theorem Sound.replaceOpened (h : s.Sound) {st : Option OpenFile} (hk : Kept (s.files id) st)
    (hfiles : s'.files = s.files) (hopened : s'.opened = Function.update s.opened id st) :
    s'.Sound :=
  h.replace hk (hfiles.trans (Function.update_eq_self id s.files).symm) hopened

/-- A worker whose files stay as they are, with their entries. -/
theorem Sound.congr (h : s.Sound) (hfiles : s'.files = s.files) (hopened : s'.opened = s.opened) :
    s'.Sound := by
  intro id
  rw [hfiles, hopened]
  exact h id

/-- Who holds the file may change, as long as it is not the map. -/
theorem Kept.setHolder {st : Option OpenFile} (h : Kept (some f) st) {holder : Option Holder}
    (hne : holder ≠ some .map) : Kept (some { f with holder := holder }) st := by
  refine ⟨h.appended, h.counted, ?_⟩
  rintro g o hg - hholder
  obtain rfl := Option.some_inj.1 hg
  exact absurd hholder hne

/-- Without an entry in the map, nothing is reported. -/
theorem Kept.forget {f : Option StagedFile} {st : Option OpenFile} (h : Kept f st) : Kept f none := by
  refine ⟨h.appended, ?_, ?_⟩
  · intro o ho
    cases ho
  · intro g o _ ho _
    cases ho

/-! ### Writing -/

/-- What a write leaves in a file whose handle stands at the end of what was acknowledged. -/
theorem write_content (hk : Kept (some f) (some st)) (hheld : f.holder = some .map) (bytes : Bytes)
    (n : ℕ) : (f.write st.offset bytes n).content =
      f.acked ++ (bytes.take n ++ f.content.drop (st.offset + (bytes.take n).length)) := by
  obtain ⟨rest, hrest⟩ := hk.appended
  have hoff : st.offset = f.acked.length := hk.held f st rfl rfl hheld
  have hcontent : f.content = f.acked ++ rest := hrest.symm
  have hle : st.offset ≤ f.content.length := by
    rw [hoff, hcontent, List.length_append]
    omega
  have htake : f.content.take st.offset = f.acked := by
    rw [hoff, hcontent, List.take_left]
  simp only [StagedFile.write, Ranged.writeAt_of_le 0 _ hle, htake, List.append_assoc]

/-- **A payload is appended exactly when what the write leaves out is there already.** -/
theorem write_appended_iff (hk : Kept (some f) (some st)) (hheld : f.holder = some .map)
    {bytes : Bytes} {n : ℕ} (hn : n ≤ bytes.length) :
    f.acked ++ bytes <+: (f.write st.offset bytes n).content ↔
      bytes.drop n <+: f.content.drop (st.offset + n) := by
  rw [write_content hk hheld, List.prefix_append_right_inj, List.length_take_of_le hn]
  conv_lhs => rw [← List.take_append_drop n bytes]
  rw [List.take_append_of_le_length (by simp [hn]), List.take_take, min_self,
    List.prefix_append_right_inj]

/-- A write that returns leaves what is known, if what it leaves out is there. -/
theorem Kept.write (hk : Kept (some f) (some st)) (hheld : f.holder = some .map) {bytes : Bytes}
    {n : ℕ} (h : f.acked ++ bytes <+: (f.write st.offset bytes n).content) :
    Kept (some { f.write st.offset bytes n with acked := f.acked ++ bytes })
      (some { st with offset := st.offset + bytes.length }) := by
  have hoff : st.offset = f.acked.length := hk.held f st rfl rfl hheld
  refine ⟨h, ?_, ?_⟩
  · rintro o ho
    obtain rfl := Option.some_inj.1 ho
    have hle : st.flushed ≤ f.acked.length := hk.counted st rfl
    simp only [ackedOf, List.length_append]
    omega
  · rintro g o hg ho -
    obtain rfl := Option.some_inj.1 hg
    obtain rfl := Option.some_inj.1 ho
    simp only [List.length_append, hoff]

/-- A write that throws leaves what is known, whatever it has written. -/
theorem Kept.write_threw (hk : Kept (some f) (some st)) (hheld : f.holder = some .map)
    (bytes : Bytes) (n : ℕ) : Kept (some (f.write st.offset bytes n)) (some st) := by
  refine ⟨?_, hk.counted, ?_⟩
  · rw [bytesOf, write_content hk hheld]
    exact List.prefix_append _ _
  · rintro g o hg ho hmap
    obtain rfl := Option.some_inj.1 hg
    exact hk.held f o rfl ho hmap

theorem doWrite_sound (h : s.Sound) {bytes : Bytes} {outcome : WriteOutcome}
    (hC : s.Careful (.message reqId id (.write bytes outcome)))
    (hstep : s.doWrite reqId id bytes outcome = some s') : s'.Sound := by
  unfold doWrite at hstep
  split at hstep
  case h_1 =>
    cases hstep
    exact h.congr rfl rfl
  case h_2 st hst =>
    have hk : ∀ f, s.heldFile id = some f → Kept (some f) (some st) := by
      intro f hf
      rw [← (heldFile_eq_some hf).1, ← hst]
      exact h id
    split at hstep
    case h_1 n f hf =>
      split_ifs at hstep with hn
      cases hstep
      have hn : n ≤ bytes.length := Nat.le_of_not_lt hn
      have hheld := (heldFile_eq_some hf).2
      have hwrite := (write_appended_iff (hk f hf) hheld hn).2 (hC st f hst hf hn)
      exact h.replace ((hk f hf).write hheld hwrite) rfl rfl
    case h_2 n e f hf =>
      cases hstep
      have hkept := (hk f hf).write_threw (heldFile_eq_some hf).2 bytes n
      rw [← hst] at hkept
      exact h.replaceFile hkept rfl rfl
    case h_3 =>
      cases hstep
      exact h.congr rfl rfl
    case h_4 => cases hstep

/-! ### Flushing and closing -/

theorem doFlush_sound (h : s.Sound) {outcome : Except String Unit}
    (hstep : s.doFlush reqId id outcome = some s') : s'.Sound := by
  unfold doFlush at hstep
  split at hstep
  case h_1 =>
    cases hstep
    exact h.congr rfl rfl
  case h_2 st hst =>
    split at hstep
    case h_1 f hf =>
      cases hstep
      obtain ⟨hfile, hheld⟩ := heldFile_eq_some hf
      have hk := h id
      have hoff : st.offset = f.acked.length := hk.held f st hfile hst hheld
      refine h.replaceOpened ⟨hk.appended, ?_, ?_⟩ rfl rfl
      · intro o ho
        obtain rfl := Option.some_inj.1 ho
        rw [hfile]
        exact hoff.le
      · intro g o hg ho hmap
        obtain rfl := Option.some_inj.1 ho
        exact hk.held g st hg hst hmap
    case h_2 =>
      cases hstep
      exact h.congr rfl rfl
    case h_3 => cases hstep

theorem doCommitted_sound (h : s.Sound) : (s.doCommitted reqId id).Sound := by
  unfold doCommitted
  split <;> exact h.congr rfl rfl

theorem release_sound (h : s.Sound) : (s.release id).Sound := by
  unfold release
  split
  case h_1 f hf =>
    have hk := h id
    rw [(heldFile_eq_some hf).1] at hk
    exact h.replaceFile (hk.setHolder (by simp)) rfl rfl
  case h_2 => exact h

theorem doClose_sound (h : s.Sound) (id : String) (outcome : CloseOutcome) :
    (s.doClose id outcome).2.Sound := by
  have hrelease : (s.release id).Sound := release_sound h
  unfold doClose
  split
  · exact h
  · split
    · exact hrelease.replaceOpened (hrelease id).forget rfl rfl
    · split_ifs
      · exact hrelease
      · exact h

theorem receive_sound (h : s.Sound) {op : Op} (hC : s.Careful (.message reqId id op))
    (hstep : s.receive reqId id op = some s') : s'.Sound := by
  cases op with
  | «open» create =>
    simp only [receive] at hstep
    split at hstep <;> cases hstep <;> exact h.congr rfl rfl
  | write bytes outcome => exact doWrite_sound h hC hstep
  | flush outcome => exact doFlush_sound h hstep
  | committed =>
    cases hstep
    exact doCommitted_sound h
  | close outcome =>
    have hclose := doClose_sound h id outcome
    simp only [receive] at hstep
    cases hc : s.doClose id outcome with
    | mk r t =>
      rw [hc] at hstep hclose
      cases r <;> cases hstep <;> exact hclose.congr rfl rfl
  | remove outcome =>
    have hclose := doClose_sound h id outcome
    simp only [receive] at hstep
    cases hc : s.doClose id outcome with
    | mk r t =>
      rw [hc] at hstep hclose
      cases r <;> cases hstep <;> exact hclose.congr rfl rfl
  | other op =>
    cases hstep
    exact h.congr rfl rfl

/-! ### What comes in pieces -/

theorem gotDir_sound (h : s.Sound) {stage : Stage} (hstep : s.gotDir k reqId stage = some s') :
    s'.Sound := by
  unfold gotDir at hstep
  split at hstep <;> cases hstep <;> exact h.congr rfl rfl

/-- A handle that is put into the map stands at the end of what was acknowledged. -/
theorem Kept.created {st : Option OpenFile} (h : Kept (some f) st)
    (hlen : f.content.length = f.acked.length) :
    Kept (some { f with holder := some .map }) (some ⟨f.content.length, f.content.length⟩) := by
  refine ⟨h.appended, ?_, ?_⟩
  · intro o ho
    obtain rfl := Option.some_inj.1 ho
    exact hlen.le
  · intro g o hg ho _
    obtain rfl := Option.some_inj.1 hg
    obtain rfl := Option.some_inj.1 ho
    exact hlen

/-- A file that is not there has an entry in the map only if that reports nothing. -/
theorem kept_none {st : Option OpenFile} (h : ∀ o, st = some o → o.flushed = 0) : Kept none st := by
  refine ⟨List.prefix_refl _, ?_, ?_⟩
  · intro o ho
    exact (h o ho).le
  · intro g o hg
    cases hg

theorem proceed_sound (h : s.Sound) {t : Task} {outcome : Except String Unit}
    (ht : s.tasks[k]? = some t) (hC : s.Careful (.settle k outcome))
    (hstep : s.proceed k t outcome = some s') : s'.Sound := by
  have hk := h t.id
  unfold proceed at hstep
  split at hstep
  -- `openDir`
  case h_1 => exact gotDir_sound h hstep
  -- `fileHandle`
  case h_2 | h_3 =>
    cases hstep
    exact h.congr rfl rfl
  case h_4 hfile =>
    cases hstep
    refine h.replaceFile ⟨List.prefix_refl _, ?_, ?_⟩ rfl rfl
    · rw [hfile] at hk
      exact hk.counted
    · intro g o hg _ hmap
      obtain rfl := Option.some_inj.1 hg
      cases hmap
  -- `accessHandle`
  case h_5 =>
    cases hstep
    exact h.congr rfl rfl
  case h_6 f hfile =>
    split_ifs at hstep
    cases hstep
    rw [hfile] at hk
    exact h.replaceFile (hk.setHolder (by simp)) rfl rfl
  -- `created`
  case h_7 f hstage hfile =>
    cases hstep
    have hlen := (hC t f ht hfile).1 hstage
    rw [hfile] at hk
    exact h.replace (hk.created hlen) rfl rfl
  case h_8 f hstage hfile =>
    cases hstep
    rw [hfile] at hk
    exact h.replaceFile (hk.setHolder (by simp)) rfl rfl
  -- `removeDir`
  case h_9 => exact gotDir_sound h hstep
  -- `removeEntry`
  case h_10 =>
    cases hstep
    exact h.congr rfl rfl
  case h_11 f hstage hfile =>
    split_ifs at hstep with hholder
    cases hstep
    have hzero := (hC t f ht hfile).2 hstage hholder
    refine h.replaceFile (kept_none fun o ho => ?_) rfl rfl
    exact hzero o.flushed (by rw [reports, ho]; rfl)
  case h_12 => cases hstep

/-- **A step that is careful keeps what is known.** -/
theorem step_sound (s : Worker) (a : WorkerAction) (s' : Worker) (h : s.Sound) (hC : s.Careful a)
    (hstep : s.step a = some s') : s'.Sound := by
  cases a with
  | message reqId id op => exact receive_sound h hC hstep
  | root outcome =>
    simp only [step] at hstep
    split_ifs at hstep
    cases hstep
    exact h.congr rfl rfl
  | settle k outcome =>
    simp only [step] at hstep
    split at hstep
    case h_1 t ht => exact proceed_sound h ht hC hstep
    case h_2 => cases hstep

/-! ### What is not careful -/

end Worker

/-- A call of a handle does all that it was asked to, or throws and does nothing. -/
def Whole : WorkerAction → Prop
  | .message _ _ (.write bytes (.returned n)) => n = bytes.length
  | .message _ _ (.write _ (.threw n _)) => n = 0
  | .message _ _ (.close (.threw released _)) => released = false
  | .message _ _ (.remove (.threw released _)) => released = false
  | _ => True

namespace Worker

/-- The files have nothing but what was acknowledged, and each handle belongs to who is to close it. -/
structure Tidy (s : Worker) : Prop where
  exact : ∀ id f, s.files id = some f → f.content = f.acked
  held : ∀ id st, s.opened id = some st → ∃ f, s.files id = some f ∧ f.holder = some .map
  owned : ∀ k t, s.tasks[k]? = some t → t.stage = .created →
    ∃ f, s.files t.id = some f ∧ f.holder = some (.task k)

@[simp] theorem setFile_self (s : Worker) (id : String) (f : Option StagedFile) :
    (s.setFile id f).files id = f := Function.update_self _ _ _

theorem setFile_of_ne {id' : String} (hid : id' ≠ id) (f : Option StagedFile) :
    (s.setFile id f).files id' = s.files id' := Function.update_of_ne hid _ _

@[simp] theorem setOpened_self (s : Worker) (id : String) (st : Option OpenFile) :
    (s.setOpened id st).opened id = st := Function.update_self _ _ _

theorem setOpened_of_ne {id' : String} (hid : id' ≠ id) (st : Option OpenFile) :
    (s.setOpened id st).opened id' = s.opened id' := Function.update_of_ne hid _ _

theorem tidy_start (files : String → Option Bytes) : (start files).Tidy := by
  refine ⟨?_, ?_, ?_⟩
  · intro id f hf
    obtain ⟨bytes, -, rfl⟩ := Option.map_eq_some_iff.1 hf
    rfl
  · intro id st hst
    cases hst
  · intro k t ht
    cases ht

/-- The entry of the map, if there is one, is of a handle that holds the file. -/
theorem Tidy.heldFile (h : s.Tidy) (hst : s.opened id = some st) :
    ∃ f, s.heldFile id = some f := by
  obtain ⟨f, hf, hholder⟩ := h.held id st hst
  exact ⟨f, by simp [Worker.heldFile, hf, hholder]⟩

theorem Tidy.post (h : s.Tidy) (r : Except String (Option ℕ)) : (s.post reqId r).Tidy :=
  ⟨h.exact, h.held, h.owned⟩

/-- A handler goes on to something else than a handle that was just created. -/
theorem Tidy.setStage (h : s.Tidy) {stage : Stage} (hne : stage ≠ .created) :
    (s.setStage k stage).Tidy := by
  refine ⟨h.exact, h.held, ?_⟩
  intro j t ht hcreated
  rw [Worker.setStage, List.getElem?_modify] at ht
  obtain ⟨t', ht', rfl⟩ := Option.map_eq_some_iff.1 ht
  split_ifs at hcreated ⊢ with hkj
  · exact absurd hcreated hne
  · exact h.owned j t' ht' hcreated

theorem Tidy.finish (h : s.Tidy) (r : Except String (Option ℕ)) : (s.finish k reqId r).Tidy :=
  (h.setStage (by simp)).post r

theorem Tidy.await (h : s.Tidy) {stage : Stage} (hne : stage ≠ .created) :
    (s.await reqId id stage).Tidy := by
  refine ⟨h.exact, h.held, ?_⟩
  intro j t ht hcreated
  rw [Worker.await, List.getElem?_append] at ht
  split_ifs at ht with hlt
  · exact h.owned j t ht hcreated
  · have hmem := List.mem_of_getElem? ht
    obtain rfl := List.mem_singleton.1 hmem
    exact absurd hcreated hne

/-- One file is replaced, and who is to close its handle still is. -/
theorem Tidy.setFile (h : s.Tidy) {g : Option StagedFile}
    (hexact : ∀ f, g = some f → f.content = f.acked)
    (hheld : ∀ st, s.opened id = some st → ∃ f, g = some f ∧ f.holder = some .map)
    (howned : ∀ j t, s.tasks[j]? = some t → t.stage = .created → t.id = id →
      ∃ f, g = some f ∧ f.holder = some (.task j)) : (s.setFile id g).Tidy := by
  refine ⟨?_, ?_, ?_⟩
  · intro id' f hf
    by_cases hid : id' = id
    · subst hid
      rw [setFile_self] at hf
      exact hexact f hf
    · rw [setFile_of_ne hid] at hf
      exact h.exact id' f hf
  · intro id' st hst
    by_cases hid : id' = id
    · subst hid
      rw [setFile_self]
      exact hheld st hst
    · rw [setFile_of_ne hid]
      exact h.held id' st hst
  · intro j t ht hcreated
    by_cases hid : t.id = id
    · rw [hid, setFile_self]
      exact howned j t ht hcreated hid
    · rw [setFile_of_ne hid]
      exact h.owned j t ht hcreated

/-- What the file has is replaced, and not who holds it. -/
theorem Tidy.setContent (h : s.Tidy) (hf : s.files id = some f) {g : StagedFile}
    (hholder : g.holder = f.holder) (hg : g.content = g.acked) : (s.setFile id (some g)).Tidy := by
  refine h.setFile ?_ ?_ ?_
  · intro f' hf'
    obtain rfl := Option.some_inj.1 hf'
    exact hg
  · intro st hst
    obtain ⟨f', hf', hmap⟩ := h.held id st hst
    obtain rfl := Option.some_inj.1 (hf.symm.trans hf')
    exact ⟨g, rfl, hholder.trans hmap⟩
  · rintro j t ht hcreated rfl
    obtain ⟨f', hf', htask⟩ := h.owned j t ht hcreated
    obtain rfl := Option.some_inj.1 (hf.symm.trans hf')
    exact ⟨g, rfl, hholder.trans htask⟩

/-- A file that nobody holds may be replaced by anything that nobody is to close. -/
theorem Tidy.setFree (h : s.Tidy) (hfree : ∀ f, s.files id = some f → f.holder = none)
    {g : Option StagedFile} (hexact : ∀ f, g = some f → f.content = f.acked) :
    (s.setFile id g).Tidy := by
  refine h.setFile hexact ?_ ?_
  · intro st hst
    obtain ⟨f, hf, hmap⟩ := h.held id st hst
    rw [hfree f hf] at hmap
    cases hmap
  · rintro j t ht hcreated rfl
    obtain ⟨f, hf, htask⟩ := h.owned j t ht hcreated
    rw [hfree f hf] at htask
    cases htask

/-- An entry of the map is replaced. -/
theorem Tidy.setOpened (h : s.Tidy) {o : Option OpenFile}
    (hheld : o.isSome → ∃ f, s.files id = some f ∧ f.holder = some .map) : (s.setOpened id o).Tidy := by
  refine ⟨h.exact, ?_, h.owned⟩
  intro id' st hst
  by_cases hid : id' = id
  · subst hid
    rw [setOpened_self] at hst
    exact hheld (by rw [hst]; rfl)
  · rw [setOpened_of_ne hid] at hst
    exact h.held id' st hst

/-- A handler that is done with a handle that was just created leaves the file to another holder. -/
theorem Tidy.handOver (h : s.Tidy) {t : Task} (ht : s.tasks[k]? = some t)
    (hcreated : t.stage = .created) (hf : s.files t.id = some f) (r : Except String (Option ℕ)) (holder : Holder) :
    ((s.finish k t.reqId r).setFile t.id (some { f with holder := some holder })).Tidy := by
  obtain ⟨f', hf', htask⟩ := h.owned k t ht hcreated
  obtain rfl := Option.some_inj.1 (hf.symm.trans hf')
  have hfinish : (s.finish k t.reqId r).Tidy := h.finish r
  refine hfinish.setFile ?_ ?_ ?_
  · intro g hg
    obtain rfl := Option.some_inj.1 hg
    exact h.exact t.id f hf
  · intro st hst
    obtain ⟨g, hg, hmap⟩ := h.held t.id st hst
    obtain rfl := Option.some_inj.1 (hf.symm.trans hg)
    rw [htask] at hmap
    cases hmap
  · intro j t' ht' hcreated' hid
    obtain ⟨g, hg, htask'⟩ := hfinish.owned j t' ht' hcreated'
    rw [hid] at hg
    obtain rfl := Option.some_inj.1 (hf.symm.trans hg)
    obtain rfl : k = j := by simpa [htask] using htask'
    simp only [Worker.finish, Worker.post, Worker.setStage, List.getElem?_modify_eq, ht] at ht'
    obtain rfl := Option.some_inj.1 ht'
    cases hcreated'

theorem doWrite_tidy (h : s.Tidy) (hs : s.Sound) {bytes : Bytes} {outcome : WriteOutcome}
    (hw : Whole (.message reqId id (.write bytes outcome)))
    (hstep : s.doWrite reqId id bytes outcome = some s') : s'.Tidy := by
  unfold doWrite at hstep
  split at hstep
  case h_1 =>
    cases hstep
    exact h.post _
  case h_2 st hst =>
    obtain ⟨f, hf⟩ := h.heldFile hst
    obtain ⟨hfile, hheld⟩ := heldFile_eq_some hf
    have hexact := h.exact id f hfile
    have hk := hs id
    rw [hfile, hst] at hk
    have hoff : st.offset = f.content.length := by
      rw [hexact]
      exact hk.held f st rfl rfl hheld
    have hcontent : ∀ n, (f.write st.offset bytes n).content = f.acked ++ bytes.take n := by
      intro n
      rw [write_content hk hheld, hoff, List.drop_eq_nil_of_le (by omega), List.append_nil]
    rw [hf] at hstep
    cases outcome with
    | returned n =>
      obtain rfl : n = bytes.length := hw
      simp only [lt_irrefl, if_false] at hstep
      cases hstep
      have hwrite : (f.write st.offset bytes bytes.length).content = f.acked ++ bytes := by
        rw [hcontent, List.take_length]
      have hfiles := h.setContent hfile
        (g := { f.write st.offset bytes bytes.length with acked := f.acked ++ bytes }) rfl hwrite
      exact (hfiles.setOpened fun _ => ⟨_, setFile_self _ _ _, hheld⟩).post _
    | threw n e =>
      obtain rfl : n = 0 := hw
      cases hstep
      have hwrite : (f.write st.offset bytes 0).content = f.acked := by
        rw [hcontent, List.take_zero, List.append_nil]
      exact (h.setContent hfile rfl hwrite).post _

theorem doFlush_tidy (h : s.Tidy) {outcome : Except String Unit}
    (hstep : s.doFlush reqId id outcome = some s') : s'.Tidy := by
  unfold doFlush at hstep
  split at hstep
  case h_1 =>
    cases hstep
    exact h.post _
  case h_2 st hst =>
    have hheld := h.held id st hst
    split at hstep <;> cases hstep
    · exact (h.setOpened fun _ => hheld).post _
    · exact h.post _

/-- A handle is closed, or its call throws and leaves it as it is. -/
theorem doClose_tidy (h : s.Tidy) {outcome : CloseOutcome}
    (hw : ∀ released e, outcome = .threw released e → released = false) :
    (s.doClose id outcome).2.Tidy := by
  unfold doClose
  split
  case h_1 => exact h
  case h_2 st hst =>
    cases outcome with
    | threw released e =>
      obtain rfl := hw released e rfl
      exact h
    | closed =>
      obtain ⟨f, hf⟩ := h.heldFile hst
      obtain ⟨hfile, hheld⟩ := heldFile_eq_some hf
      have hclosed : (s.setOpened id none).Tidy := h.setOpened (by simp)
      simp only [release, hf]
      refine hclosed.setFile ?_ ?_ ?_
      · intro g hg
        obtain rfl := Option.some_inj.1 hg
        exact h.exact id f hfile
      · intro st' hst'
        rw [setOpened_self] at hst'
        cases hst'
      · rintro j t ht hcreated rfl
        obtain ⟨g, hg, htask⟩ := h.owned j t ht hcreated
        obtain rfl := Option.some_inj.1 (hfile.symm.trans hg)
        rw [hheld] at htask
        cases htask

theorem receive_tidy (h : s.Tidy) (hs : s.Sound) {op : Op} (hw : Whole (.message reqId id op))
    (hstep : s.receive reqId id op = some s') : s'.Tidy := by
  cases op with
  | «open» create =>
    simp only [receive] at hstep
    split at hstep <;> cases hstep
    · exact h.post _
    · exact h.await (by simp)
  | write bytes outcome => exact doWrite_tidy h hs hw hstep
  | flush outcome => exact doFlush_tidy h hstep
  | committed =>
    simp only [receive, doCommitted] at hstep
    split at hstep <;> cases hstep <;> exact h.post _
  | close outcome =>
    have hclose : (s.doClose id outcome).2.Tidy :=
      doClose_tidy h fun released e he => by subst he; exact hw
    simp only [receive] at hstep
    cases hc : s.doClose id outcome with
    | mk r t =>
      rw [hc] at hstep hclose
      cases r <;> cases hstep <;> exact hclose.post _
  | remove outcome =>
    have hclose : (s.doClose id outcome).2.Tidy :=
      doClose_tidy h fun released e he => by subst he; exact hw
    simp only [receive] at hstep
    cases hc : s.doClose id outcome with
    | mk r t =>
      rw [hc] at hstep hclose
      cases r <;> cases hstep
      · exact hclose.post _
      · exact hclose.await (by simp)
  | other op =>
    cases hstep
    exact h.post _

theorem gotDir_tidy (h : s.Tidy) {stage : Stage} (hne : stage ≠ .created)
    (hstep : s.gotDir k reqId stage = some s') : s'.Tidy := by
  unfold gotDir at hstep
  split at hstep <;> cases hstep
  · exact h.setStage hne
  · exact h.finish _

/-- The handle of a file that nobody holds is created, for the task that awaited it. -/
theorem Tidy.takeHandle (h : s.Tidy) {t : Task} (ht : s.tasks[k]? = some t)
    (hf : s.files t.id = some f) (hfree : f.holder = none) :
    ((s.setFile t.id (some { f with holder := some (.task k) })).setStage k .created).Tidy := by
  have hfile : ∀ g, s.files t.id = some g → g.holder = none := by
    intro g hg
    obtain rfl := Option.some_inj.1 (hf.symm.trans hg)
    exact hfree
  have hset := h.setFree hfile (g := some { f with holder := some (.task k) }) (by
    intro g hg
    obtain rfl := Option.some_inj.1 hg
    exact h.exact t.id f hf)
  refine ⟨hset.exact, hset.held, ?_⟩
  intro j t' ht' hcreated
  rw [Worker.setStage, List.getElem?_modify] at ht'
  obtain ⟨t'', ht'', rfl⟩ := Option.map_eq_some_iff.1 ht'
  split_ifs at hcreated ⊢ with hkj
  · subst hkj
    obtain rfl := Option.some_inj.1 (ht.symm.trans ht'')
    exact ⟨_, setFile_self _ _ _, rfl⟩
  · exact hset.owned j t'' ht'' hcreated

theorem proceed_tidy (h : s.Tidy) {t : Task} {outcome : Except String Unit}
    (ht : s.tasks[k]? = some t) (hstep : s.proceed k t outcome = some s') : s'.Tidy := by
  unfold proceed at hstep
  split at hstep
  -- `openDir`
  case h_1 => exact gotDir_tidy h (by simp) hstep
  -- `fileHandle`
  case h_2 =>
    cases hstep
    exact h.finish _
  case h_3 =>
    cases hstep
    exact h.setStage (by simp)
  case h_4 hfile =>
    cases hstep
    refine (h.setFree ?_ ?_).setStage (by simp)
    · intro f hf
      rw [hfile] at hf
      cases hf
    · intro f hf
      obtain rfl := Option.some_inj.1 hf
      rfl
  -- `accessHandle`
  case h_5 =>
    cases hstep
    exact h.finish _
  case h_6 f hfile =>
    split_ifs at hstep with hfree
    cases hstep
    exact h.takeHandle ht hfile hfree
  -- `created`
  case h_7 f hstage hfile =>
    cases hstep
    have hmap := h.handOver ht hstage hfile (.ok (some f.content.length)) .map
    exact hmap.setOpened fun _ => ⟨_, setFile_self _ _ _, rfl⟩
  case h_8 e f hstage hfile =>
    cases hstep
    exact h.handOver ht hstage hfile (.error e) .lost
  -- `removeDir`
  case h_9 => exact gotDir_tidy h (by simp) hstep
  -- `removeEntry`
  case h_10 =>
    cases hstep
    exact h.finish _
  case h_11 f hstage hfile =>
    split_ifs at hstep with hfree
    cases hstep
    refine (h.setFree ?_ ?_).finish _
    · intro g hg
      obtain rfl := Option.some_inj.1 (hfile.symm.trans hg)
      exact hfree
    · intro g hg
      cases hg
  case h_12 => cases hstep

/-- A step in which the call is whole keeps it so. -/
theorem step_tidy (h : s.Tidy) (hs : s.Sound) {a : WorkerAction} (hw : Whole a)
    (hstep : s.step a = some s') : s'.Tidy := by
  cases a with
  | message reqId id op => exact receive_tidy h hs hw hstep
  | root outcome =>
    simp only [step] at hstep
    split_ifs at hstep
    cases hstep
    exact ⟨h.exact, h.held, h.owned⟩
  | settle k outcome =>
    simp only [step] at hstep
    split at hstep
    case h_1 t ht => exact proceed_tidy h ht hstep
    case h_2 => cases hstep

/-- A call that is whole is careful. -/
theorem Tidy.careful (h : s.Tidy) {a : WorkerAction} (hw : Whole a) : s.Careful a := by
  unfold Careful
  split
  case h_1 reqId id bytes n =>
    intro st f _ _ _
    obtain rfl : n = bytes.length := hw
    rw [List.drop_length]
    exact List.nil_prefix
  case h_2 k u =>
    intro t f _ hf
    refine ⟨fun _ => by rw [h.exact t.id f hf], ?_⟩
    intro _ hfree n hn
    obtain ⟨st, hst, -⟩ := Option.map_eq_some_iff.1 hn
    obtain ⟨g, hg, hmap⟩ := h.held t.id st hst
    obtain rfl := Option.some_inj.1 (hf.symm.trans hg)
    rw [hfree] at hmap
    cases hmap
  case h_3 => trivial

/-- **As long as each call of a handle is whole, the worker is truthful.** -/
theorem truthful_of_whole {files : String → Option Bytes} {as : List WorkerAction}
    (hw : ∀ a ∈ as, Whole a) (h : run step (start files) as = some s) : s.Truthful := by
  have hinv : s.Tidy ∧ s.Sound := by
    apply run_inv (P := fun s => s.Tidy ∧ s.Sound) (C := fun _ a => Whole a) _ _
      (Along.of_forall (fun a ha _ => hw a ha) _) h
    · rintro s a s' ⟨htidy, hsound⟩ ha hs'
      exact ⟨step_tidy htidy hsound ha hs', step_sound s a s' hsound (htidy.careful ha) hs'⟩
    · exact ⟨tidy_start files, sound_start files⟩
  exact hinv.2.truthful

end Worker

/-! ## Main results -/

end Staging
