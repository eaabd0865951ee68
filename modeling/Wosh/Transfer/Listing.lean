import Wosh.Lib.Text
import Wosh.Sftp.Response

set_option relaxedAutoImplicit false
set_option autoImplicit false

/-!
# A directory listing

`list_dir` of `wosh-client/src/transfer.rs`: the path is resolved and opened, and the directory is read
until the server says that it is over. Only what is collected is bounded, so that a list which adds
nothing is asked for once more.

## Main definitions

* `Transfer.DirEntry`, `Transfer.sortEntries` — what the page gets to see.
* `Transfer.collect` — the entries of a list that are collected.
* `Transfer.Listing`, `Transfer.Listing.step` — where `list_dir_inner` stands, and what an answer does.
* `Transfer.Listing.Endless` — answers that neither end a listing nor fill it.

## Main results

* `Transfer.listing_ends_iff` — a listing ends exactly when the answers are not endless.
* `Transfer.Listing.ends_of_listed` — so it does when no list is without an entry.
* `Transfer.not_alwaysEnds` — lists that are empty.

## Design

One step is one answer, of the server or of the connection in its place: `request` sends what
`Listing.asks` says and returns the answer to it. The listing is sorted before the handle is closed,
not after it; the answer to CLOSE is dropped either way.
-/

namespace Transfer

open Tunnel (Bytes)

/-! ## Entries -/

/-- Coarse file type. -/
inductive FileKind
  | regular
  | directory
  | symlink
  | other
deriving DecidableEq

/-- Classify a raw `permissions` word by masking `S_IFMT`. -/
def fileKindFromRaw (mode : UInt32) : FileKind :=
  let masked := mode &&& 0o170000
  if masked = 0o040000 then .directory
  else if masked = 0o100000 then .regular
  else if masked = 0o120000 then .symlink
  else .other

/-- Whether a listing entry is a directory: the mode word when the server sent one, the long name's
leading character when it did not. -/
def isDir (rawPermissions : Option UInt32) (longname : Bytes) : Bool :=
  match rawPermissions with
  | some mode => fileKindFromRaw mode = .directory
  | none => longname.head? = some 'd'.toUInt8

/-- `DirEntry`. -/
structure DirEntry where
  name : Bytes
  display : String
  isDir : Bool
  size : Option ℕ
  mtime : Option ℕ
deriving DecidableEq

def toDirEntry (entry : WoshSftp.NameEntry) : DirEntry where
  name := entry.filename
  display := String.ofList (Text.lossy entry.filename)
  isDir := Transfer.isDir entry.rawPermissions entry.longname
  size := entry.attrs.size
  mtime := entry.attrs.mtime

/-- Directories first, then bytewise by name. -/
def DirEntry.compare (a b : DirEntry) : Ordering :=
  (Ord.compare b.isDir a.isDir).then (List.compareLex Ord.compare a.name b.name)

/-- `sort_entries`, which is stable. -/
def sortEntries (entries : List DirEntry) : List DirEntry :=
  entries.mergeSort fun a b => a.compare b ≠ .gt

/-- Refuse to build a listing larger than this. -/
def maxDirEntries : ℕ := 200000

/-- `.` and `..` are the server's business, not the browser's. -/
def isDots (entry : WoshSftp.NameEntry) : Bool :=
  entry.filename = [0x2e] ∨ entry.filename = [0x2e, 0x2e]

/-- Collect the entries of a list; whether there are too many. -/
def collect : List WoshSftp.NameEntry → List DirEntry → List DirEntry × Bool
  | [], out => (out, false)
  | entry :: entries, out =>
    if isDots entry then collect entries out
    else if maxDirEntries ≤ out.length then (out, true)
    else collect entries (out ++ [toDirEntry entry])

/-! ## The requests -/

/-- What `list_dir_inner` asks the server. -/
inductive DirRequest
  | realpath (path : Bytes)
  | opendir (path : Bytes)
  | readdir (handle : Bytes)
  | close (handle : Bytes)
deriving DecidableEq

/-- Where `list_dir_inner` stands. -/
inductive Listing
  | resolving (path : Bytes)
  | opening (canonical : Bytes)
  | reading (handle : Bytes) (out : List DirEntry)
  | closing (handle : Bytes) (verdict : Except Halt (List DirEntry))
  | done (verdict : Except Halt (List DirEntry))

/-- An answer that is not the one to this request. -/
def unexpected (what : String) (r : WoshSftp.Response) : Halt :=
  .fatal (what ++ ": the server answered with " ++ r.describe)

namespace Listing

/-- The request whose answer it awaits. -/
def asks : Listing → Option DirRequest
  | .resolving path => some (.realpath path)
  | .opening canonical => some (.opendir canonical)
  | .reading handle _ => some (.readdir handle)
  | .closing handle _ => some (.close handle)
  | .done _ => none

/-- REALPATH is answered. -/
def resolved (path : Bytes) : Except Halt WoshSftp.Response → Listing
  | .error halt => .done (.error halt)
  | .ok (.name _ entries) => .opening ((entries.head?.map (·.filename)).getD path)
  | .ok (.status _ (.error e)) => .done (.error (.fatal ("resolve the remote path: " ++ e.text)))
  | .ok (.status _ (.ok _)) => .done (.error (.fatal "resolve the remote path: no name returned"))
  | .ok other => .done (.error (unexpected "resolve the remote path" other))

/-- OPENDIR is answered. -/
def opened : Except Halt WoshSftp.Response → Listing
  | .error halt => .done (.error halt)
  | .ok (.handle _ handle) => .reading handle []
  | .ok (.status _ (.error e)) => .done (.error (.fatal ("open the remote directory: " ++ e.text)))
  | .ok (.status _ (.ok _)) => .done (.error (.fatal "open the remote directory: no handle returned"))
  | .ok other => .done (.error (unexpected "open the remote directory" other))

/-- READDIR is answered. EOF ends the listing and is not an error. -/
def readdir (handle : Bytes) (out : List DirEntry) : Except Halt WoshSftp.Response → Listing
  | .error halt => .closing handle (.error halt)
  | .ok (.name _ entries) =>
    match collect entries out with
    | (out, false) => .reading handle out
    | (_, true) =>
      .closing handle (.error (.fatal ("the remote directory holds more than " ++
        toString maxDirEntries ++ " entries: refusing to build a listing that large")))
  | .ok (.status _ (.ok _)) => .closing handle (.ok (sortEntries out))
  | .ok (.status _ (.error e)) =>
    .closing handle (.error (.fatal ("read the remote directory: " ++ e.text)))
  | .ok other => .closing handle (.error (unexpected "read the remote directory" other))

/-- What an answer does. -/
def step : Listing → Except Halt WoshSftp.Response → Listing
  | .resolving path, r => resolved path r
  | .opening _, r => opened r
  | .reading handle out, r => readdir handle out r
  | .closing _ verdict, _ => .done verdict
  | .done verdict, _ => .done verdict

/-- A listing after `n` answers. -/
def after (replies : ℕ → Except Halt WoshSftp.Response) (path : Bytes) : ℕ → Listing
  | 0 => .resolving path
  | n + 1 => (after replies path n).step (replies n)

/-- What `list_dir` returns once `list_dir_inner` did. -/
def answer : Listing → Option (Except String (List DirEntry))
  | .done (.ok entries) => some (.ok entries)
  | .done (.error (.fatal e)) => some (.error e)
  | .done (.error (.reanchor e)) => some (.error e)
  | _ => none

end Listing

/-! ## What is collected -/

/-- The answer is a NAME list. -/
def isList : Except Halt WoshSftp.Response → Bool
  | .ok (.name _ _) => true
  | _ => false

/-- The entries of a list that are not the server's own business. -/
def listed : Except Halt WoshSftp.Response → ℕ
  | .ok (.name _ entries) => entries.countP fun entry => !isDots entry
  | _ => 0

section Collect

variable {entries : List WoshSftp.NameEntry} {out : List DirEntry}

/-- All are collected where there is room. -/
theorem collect_of_room (h : out.length + entries.countP (fun entry => !isDots entry) ≤ maxDirEntries) :
    ∃ out', collect entries out = (out', false) ∧
      out'.length = out.length + entries.countP (fun entry => !isDots entry) := by
  induction entries generalizing out with
  | nil => exact ⟨out, rfl, rfl⟩
  | cons entry entries ih =>
    rw [collect]
    by_cases hdots : isDots entry = true
    · rw [if_pos hdots]
      rw [List.countP_cons_of_neg (by simp [hdots])] at h ⊢
      exact ih h
    · rw [if_neg hdots]
      rw [List.countP_cons_of_pos (by simp [hdots])] at h ⊢
      rw [if_neg (by omega)]
      have hlonger : (out ++ [toDirEntry entry]).length = out.length + 1 := by simp
      have hroom : (out ++ [toDirEntry entry]).length +
          entries.countP (fun entry => !isDots entry) ≤ maxDirEntries := by omega
      obtain ⟨out', hcollect, hlen⟩ := ih hroom
      exact ⟨out', hcollect, by omega⟩

/-- Where there is none, there are too many. -/
theorem collect_of_full (hout : out.length ≤ maxDirEntries)
    (h : maxDirEntries < out.length + entries.countP (fun entry => !isDots entry)) :
    (collect entries out).2 = true := by
  induction entries generalizing out with
  | nil =>
    rw [List.countP_nil] at h
    omega
  | cons entry entries ih =>
    rw [collect]
    by_cases hdots : isDots entry = true
    · rw [if_pos hdots]
      rw [List.countP_cons_of_neg (by simp [hdots])] at h
      exact ih hout h
    · rw [if_neg hdots]
      rw [List.countP_cons_of_pos (by simp [hdots])] at h
      split_ifs with hfull
      · rfl
      · apply ih
        · rw [List.length_append, List.length_singleton]
          omega
        · rw [List.length_append, List.length_singleton]
          omega

end Collect

/-! ## When a listing ends -/

namespace Listing

variable {replies : ℕ → Except Halt WoshSftp.Response} {path handle : Bytes} {out : List DirEntry}
  {r : Except Halt WoshSftp.Response}

/-- The entries of the first `n` answers to READDIR. -/
def total (replies : ℕ → Except Halt WoshSftp.Response) (n : ℕ) : ℕ :=
  ∑ k ∈ Finset.range n, listed (replies (k + 2))

/-- The path is resolved and opened, and every answer to READDIR is a NAME list; together they never
fill a listing. -/
def Endless (replies : ℕ → Except Halt WoshSftp.Response) : Prop :=
  isList (replies 0) = true ∧ (∃ id handle, replies 1 = .ok (.handle id handle)) ∧
    ∀ n, isList (replies (n + 2)) = true ∧ total replies n ≤ maxDirEntries

/-- It returns, with an error or with a listing that is not too large. -/
def Ends (replies : ℕ → Except Halt WoshSftp.Response) (path : Bytes) : Prop :=
  ∃ n answer, (after replies path n).answer = some answer ∧
    ∀ entries, answer = .ok entries → entries.length ≤ maxDirEntries

/-- A list with room is collected, and the next one asked for. -/
theorem readdir_of_room (handle : Bytes) (hlist : isList r = true)
    (h : out.length + listed r ≤ maxDirEntries) :
    ∃ out', readdir handle out r = .reading handle out' ∧ out'.length = out.length + listed r := by
  match r, hlist with
  | .ok (.name id entries), _ =>
    obtain ⟨out', hcollect, hlen⟩ := collect_of_room h
    exact ⟨out', by rw [readdir, hcollect], hlen⟩

/-- Any other answer ends the listing. -/
theorem readdir_of_end (handle : Bytes) (hout : out.length ≤ maxDirEntries)
    (h : ¬ (isList r = true ∧ out.length + listed r ≤ maxDirEntries)) :
    ∃ verdict, readdir handle out r = .closing handle verdict ∧
      ∀ entries, verdict = .ok entries → entries.length ≤ maxDirEntries := by
  match r with
  | .ok (.name id entries) =>
    have hfull : maxDirEntries < out.length + listed (.ok (.name id entries)) := by
      simpa [isList] using h
    have htoo := collect_of_full hout hfull
    rw [readdir]
    split
    · rename_i hcollect
      simp [hcollect] at htoo
    · exact ⟨_, rfl, by simp⟩
  | .ok (.status id (.ok outcome)) => exact ⟨_, rfl, by simpa [sortEntries] using hout⟩
  | .error _ | .ok (.status _ (.error _)) | .ok (.version _) | .ok (.handle _ _) | .ok (.data _ _)
  | .ok (.attrs _ _) | .ok (.extendedReply _ _) => exact ⟨_, rfl, by simp⟩

/-- A listing that is done has returned. -/
theorem answer_done (verdict : Except Halt (List DirEntry)) :
    ∃ answer, (Listing.done verdict).answer = some answer ∧
      ∀ entries, answer = .ok entries → verdict = .ok entries := by
  rcases verdict with (e | e) | entries
  · exact ⟨_, rfl, by simp⟩
  · exact ⟨_, rfl, by simp⟩
  · exact ⟨_, rfl, by simp⟩

/-- A listing that is closing ends. -/
theorem ends_of_closing {n : ℕ} {verdict : Except Halt (List DirEntry)}
    (h : after replies path n = .closing handle verdict)
    (hverdict : ∀ entries, verdict = .ok entries → entries.length ≤ maxDirEntries) :
    Ends replies path := by
  obtain ⟨answer, hanswer, hsame⟩ := answer_done verdict
  refine ⟨n + 1, answer, ?_, fun entries he => hverdict entries (hsame entries he)⟩
  rw [after, h]
  exact hanswer

/-- A listing that fails ends. -/
theorem ends_of_error {n : ℕ} (h : ∃ halt, after replies path n = .done (.error halt)) :
    Ends replies path := by
  obtain ⟨halt, h⟩ := h
  obtain ⟨answer, hanswer, hsame⟩ := answer_done (.error halt)
  refine ⟨n, answer, by rw [h]; exact hanswer, fun entries he => ?_⟩
  cases hsame entries he

/-- Before the first READDIR it ends, unless the path is resolved and opened. -/
theorem ends_or_reading (replies : ℕ → Except Halt WoshSftp.Response) (path : Bytes) :
    Ends replies path ∨ isList (replies 0) = true ∧
      ∃ id handle, replies 1 = .ok (.handle id handle) ∧
        after replies path 2 = .reading handle [] := by
  match hfirst : replies 0 with
  | .ok (.name id entries) =>
    have hone : after replies path 1 = .opening ((entries.head?.map (·.filename)).getD path) := by
      simp only [after, step, hfirst]
      rfl
    match hsecond : replies 1 with
    | .ok (.handle id handle) =>
      refine .inr ⟨rfl, id, handle, rfl, ?_⟩
      rw [after, hone, hsecond]
      rfl
    | .error _ | .ok (.status _ (.ok _)) | .ok (.status _ (.error _)) | .ok (.version _)
    | .ok (.name _ _) | .ok (.data _ _) | .ok (.attrs _ _) | .ok (.extendedReply _ _) =>
      refine .inl (ends_of_error (n := 2) ?_)
      rw [after, hone, hsecond]
      exact ⟨_, rfl⟩
  | .error _ | .ok (.status _ (.ok _)) | .ok (.status _ (.error _)) | .ok (.version _)
  | .ok (.handle _ _) | .ok (.data _ _) | .ok (.attrs _ _) | .ok (.extendedReply _ _) =>
    refine .inl (ends_of_error (n := 1) ?_)
    rw [after, after, hfirst]
    exact ⟨_, rfl⟩

/-- While it does not end, it reads, and has collected all that was listed. -/
theorem reading_of_not_ends (h : ¬ Ends replies path)
    (hread : after replies path 2 = .reading handle []) (n : ℕ) :
    ∃ out, after replies path (n + 2) = .reading handle out ∧ out.length = total replies n ∧
      out.length ≤ maxDirEntries := by
  induction n with
  | zero => exact ⟨[], hread, rfl, Nat.zero_le _⟩
  | succ n ih =>
    obtain ⟨out, hout, hlen, hmax⟩ := ih
    have hnext : after replies path (n + 1 + 2) = readdir handle out (replies (n + 2)) := by
      rw [show n + 1 + 2 = n + 2 + 1 by omega, after, hout]
      rfl
    by_cases hroom : isList (replies (n + 2)) = true ∧ out.length + listed (replies (n + 2)) ≤ maxDirEntries
    · obtain ⟨out', hreaddir, hlen'⟩ := readdir_of_room handle hroom.1 hroom.2
      refine ⟨out', hnext.trans hreaddir, ?_, by omega⟩
      rw [total, Finset.sum_range_succ, ← total]
      omega
    · obtain ⟨verdict, hreaddir, hverdict⟩ := readdir_of_end handle hmax hroom
      exact absurd (ends_of_closing (hnext.trans hreaddir) hverdict) h

/-- Endless answers keep it reading. -/
theorem reading_of_endless (h : Endless replies) (path : Bytes) :
    ∃ handle, ∀ n, ∃ out, after replies path (n + 2) = .reading handle out ∧
      out.length = total replies n := by
  obtain ⟨hresolved, ⟨id, handle, hopened⟩, hreplies⟩ := h
  have hread : after replies path 2 = .reading handle [] := by
    match hfirst : replies 0, hresolved with
    | .ok (.name _ _), _ =>
      simp only [after, step, resolved, hfirst, hopened]
      rfl
  refine ⟨handle, fun n => ?_⟩
  induction n with
  | zero => exact ⟨[], hread, rfl⟩
  | succ n ih =>
    obtain ⟨out, hout, hlen⟩ := ih
    have hsum : total replies (n + 1) = total replies n + listed (replies (n + 2)) :=
      Finset.sum_range_succ _ n
    have hmax := (hreplies (n + 1)).2
    have hroom : out.length + listed (replies (n + 2)) ≤ maxDirEntries := by omega
    obtain ⟨out', hreaddir, hlen'⟩ := readdir_of_room handle (hreplies n).1 hroom
    refine ⟨out', ?_, by omega⟩
    rw [show n + 1 + 2 = n + 2 + 1 by omega, after, hout]
    exact hreaddir

end Listing

namespace Listing

variable {replies : ℕ → Except Halt WoshSftp.Response} {path : Bytes}

/-- A listing that has returned stays as it is. -/
theorem answer_after {n : ℕ} {answer : Except String (List DirEntry)}
    (h : (after replies path n).answer = some answer) (k : ℕ) :
    (after replies path (n + k)).answer = some answer := by
  induction k with
  | zero => exact h
  | succ k ih =>
    rw [← Nat.add_assoc, after]
    cases hstate : after replies path (n + k) with
    | done verdict =>
      rw [hstate] at ih
      exact ih
    | resolving | opening | reading | closing =>
      rw [hstate] at ih
      cases ih

/-- Endless answers end no listing. -/
theorem not_ends_of_endless (h : Endless replies) : ¬ Ends replies path := by
  rintro ⟨n, answer, hanswer, -⟩
  obtain ⟨handle, hreads⟩ := reading_of_endless h path
  obtain ⟨out, hout, -⟩ := hreads n
  have hstuck := answer_after hanswer 2
  rw [hout] at hstuck
  cases hstuck

/-- Answers that do not end a listing are endless. -/
theorem endless_of_not_ends (h : ¬ Ends replies path) : Endless replies := by
  rcases ends_or_reading replies path with hend | ⟨hresolved, id, handle, hopened, hread⟩
  · exact absurd hend h
  · refine ⟨hresolved, ⟨id, handle, hopened⟩, fun n => ⟨?_, ?_⟩⟩
    · obtain ⟨out, hout, hlen, hmax⟩ := reading_of_not_ends h hread n
      by_contra hlist
      obtain ⟨verdict, hreaddir, hverdict⟩ :=
        readdir_of_end handle hmax fun hroom : isList (replies (n + 2)) = true ∧ _ => hlist hroom.1
      have hclosing : after replies path (n + 2 + 1) = .closing handle verdict := by
        rw [after, hout]
        exact hreaddir
      exact h (ends_of_closing hclosing hverdict)
    · obtain ⟨out, -, hlen, hmax⟩ := reading_of_not_ends h hread n
      omega

/-- A listing ends when every list lists something. -/
theorem ends_of_listed
    (h : ∀ n, isList (replies (n + 2)) = true → 0 < listed (replies (n + 2))) (path : Bytes) :
    Ends replies path := by
  by_contra hends
  obtain ⟨-, -, hendless⟩ := endless_of_not_ends hends
  have hgrows : ∀ n, n ≤ total replies n := by
    intro n
    induction n with
    | zero => exact Nat.zero_le _
    | succ n ih =>
      have hsum : total replies (n + 1) = total replies n + listed (replies (n + 2)) :=
        Finset.sum_range_succ _ n
      have hpos := h n (hendless n).1
      omega
  have hmany := hgrows (maxDirEntries + 1)
  have hfew := (hendless (maxDirEntries + 1)).2
  omega

end Listing

/-- **A listing ends**, with an error or with a listing that is not too large, exactly when the answers
are not endless.

**Proof sketch.** While it does not end, it reads: it has collected all that was listed, which is never
too much. Conversely an endless answer is collected, and the next one asked for. -/
theorem listing_ends_iff (replies : ℕ → Except Halt WoshSftp.Response) (path : Bytes) :
    Listing.Ends replies path ↔ ¬ Listing.Endless replies := by
  constructor
  · intro hends hendless
    exact Listing.not_ends_of_endless hendless hends
  · intro h
    by_contra hends
    exact h (Listing.endless_of_not_ends hends)

/-- A server that resolves and opens the path, and then answers with lists that are empty. -/
def emptyLists : ℕ → Except Halt WoshSftp.Response
  | 0 => .ok (.name 0 [{ filename := [0x2f] }])
  | 1 => .ok (.handle 1 [0])
  | n + 2 => .ok (.name (UInt32.ofNat (n + 2)) [])

theorem not_alwaysEnds : ¬ ∀ replies path, Listing.Ends replies path := by
  intro h
  have hendless : Listing.Endless emptyLists := by
    refine ⟨rfl, ⟨1, [0], rfl⟩, fun n => ⟨rfl, ?_⟩⟩
    have hnone : Listing.total emptyLists n = 0 := Finset.sum_eq_zero fun k _ => rfl
    omega
  exact Listing.not_ends_of_endless hendless (h _ [])

end Transfer
