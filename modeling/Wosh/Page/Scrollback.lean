import Wosh.Lib.Ecma
import Wosh.Lib.Run
import Wosh.Tunnel.Replay

set_option relaxedAutoImplicit false
set_option autoImplicit false

/-!
# Saved scrollback

What of `site/app.mjs` writes to the terminal and saves what is on it: `connect` with its output pump,
`restoreScrollback`, `claimTerminal`, `saveScrollback`, `sessionEnded`, `detach` and the hook of
`initLifecycle`; of one page load, with any number of sessions.

## Main definitions

* `Scrollback.App` — the variables of the page, the calls of `connect`, and the terminal.
* `Scrollback.App.step` — the transition function.
* `Scrollback.App.From` — what was written to the terminal came from a session, or a restored dump, of
  a key.
* `Scrollback.App.Mixed` — content of two keys has been painted.

## Main results

* `Scrollback.Sound.step` — who owns the terminal owns all of its content.
* `Scrollback.saves_one_key` — a dump is stored under the one key that all content came from, and none
  is stored any more once there is content of two.

## Design

Between two awaits the page runs alone, so each step below is what happens from one await to the next.
A dump is stored when `saveScrollback` gives it to the store, which may lose it, or write it later.
-/

namespace Scrollback

open Tunnel (Bytes)

/-! ## The terminal -/

/-- A key is a string that is not empty; all else is `UNKEYED`, here `none`. -/
def truthy (key : Option String) : Option String := key.filter (· ≠ "")

/-- Whose content the terminal shows (`terminalOwner`). -/
inductive Owner
  | unclaimed
  | only (key : Option String)
  | mixed
deriving DecidableEq

/-- `claimTerminal`. -/
def Owner.claim (owner : Owner) (key : Option String) : Owner :=
  if owner = .unclaimed then .only (truthy key)
  else if owner ≠ .only (truthy key) then .mixed
  else owner

/-- What is written to the terminal, with the call of `connect` that it is on behalf of. -/
inductive Write
  | output (i : ℕ) (out : Bytes)
  | restored (i : ℕ) (text : String)
  /-- An annotation of the page: a note, a rule between sessions, a reset of modes. -/
  | note (text : String)
deriving DecidableEq

/-- The call of `connect` that content came from. -/
def Write.connection? : Write → Option ℕ
  | output i _ => some i
  | restored i _ => some i
  | note _ => none

/-- A dump in the store. -/
structure Dump where
  key : String
  buf : String
  /-- History: all that was painted when it was taken. -/
  shown : List Write
deriving DecidableEq

/-! ## The page -/

/-- Where a call of `connect` stands, with what it awaits. -/
inductive Pc
  | dialing
  /-- Host key, credentials, and what the server asks. -/
  | authenticating
  /-- The restored dump and the opening rule. -/
  | opening
  /-- The pump: at the top of its loop, and what it awaits there. -/
  | top
  | draining
  | asking
  | checking
  | sleeping
  | returned
  /-- `connect` has thrown, or the user has declined. -/
  | abandoned
deriving DecidableEq

/-- A call of `connect`. -/
structure Connection where
  persistKey : Option String
  /-- `restore.buf`. -/
  restore : Option String
  pc : Pc := .dialing
  lastPersistAt : ℕ := 0
deriving DecidableEq

/-- The page. -/
structure App where
  /-- `serializeAddon` is there. -/
  addon : Bool
  /-- The calls of `connect`, each of which has a session of its own. -/
  connections : List Connection := []
  currentSession : Option ℕ := none
  currentPersistKey : Option String := none
  terminalOwner : Owner := .unclaimed
  everPainted : Bool := false
  restored : Bool := false
  dirtySincePersist : Bool := false
  /-- Painted, and not yet written to the terminal. -/
  chunks : List Write := []
  /-- What the terminal was given. -/
  terminal : List Write := []
  /-- How much of it the terminal has parsed. -/
  parsed : ℕ := 0
  /-- `term.buffer.active.type === "alternate"`. -/
  alternate : Bool := false
  /-- Dumps that the store has been given: all of them, those it is writing, and those it has written. -/
  stored : List Dump := []
  pending : List Dump := []
  landed : List Dump := []

/-- The page as it is loaded. -/
def App.load (addon : Bool) : App := { addon := addon }

namespace App

/-- `flush`. -/
def flush (p : App) : App := { p with chunks := [], terminal := p.terminal ++ p.chunks }

/-- `paint`. -/
def paint (p : App) (i : ℕ) (out : Bytes) : App :=
  if out = [] then p
  else { p with everPainted := true, dirtySincePersist := true, chunks := p.chunks ++ [.output i out] }

/-- `claimTerminal`. -/
def claimTerminal (p : App) (key : Option String) : App :=
  { p with terminalOwner := p.terminalOwner.claim key }

/-- `restoreScrollback`, as far as it runs at once. -/
def restoreScrollback (p : App) (i : ℕ) (text : String) (key : Option String) : App :=
  if p.everPainted = true ∨ p.restored = true ∨ text = "" then p
  else { p.claimTerminal key with restored := true, terminal := p.terminal ++ [.restored i text] }

/-- `SCROLLBACK_SAVE_CAP`. -/
def saveCap : ℕ := 768 * 1024

/-- `saveScrollback`, where `serialize` is what the addon makes of what was parsed, unless it throws. -/
def saveScrollback (serialize : List Write → Option String) (p : App) (key : Option String) : App :=
  match truthy key with
  | none => p
  | some key =>
    if p.addon = false then p
    else if p.terminalOwner ≠ .only (some key) then p
    else if p.alternate = true then p
    else
      match serialize (p.terminal.take p.parsed) with
      | none => p
      | some buf =>
        if saveCap < Ecma.utf16Length buf.toList then p
        else
          let dump : Dump := ⟨key, buf, p.terminal ++ p.chunks⟩
          { p with stored := p.stored ++ [dump], pending := p.pending ++ [dump] }

/-- `sessionEnded`, as far as it runs at once. -/
def sessionEnded (serialize : List Write → Option String) (p : App) (i : ℕ) : App :=
  if p.currentSession ≠ some i then p
  else
    { p with currentSession := none, currentPersistKey := none }.flush.saveScrollback serialize
      p.currentPersistKey

/-- A call of `connect` goes on. -/
def setPc (p : App) (i : ℕ) (pc : Pc) : App :=
  { p with connections := p.connections.modify i fun c => { c with pc := pc } }

end App

/-! ## Steps -/

/-- How a call of `connect` goes on. -/
inductive Event
  /-- The session is there, and takes over. -/
  | dialed
  /-- `connect` throws, or lets go of the page before it does. -/
  | abandon
  | giveUp
  /-- The status is `ready`; then the pump begins. -/
  | ready
  | start (now : ℕ)
  /-- The pump turns, is given output, is told whether the shell has exited, and ends. -/
  | turn
  | drained (out : Bytes)
  | asked (exited : Bool) (now : ℕ)
  | conclude
  | wake
  /-- A call that the pump awaits fails, or a keystroke or a resize does. -/
  | pumpFailed
  | inputFailed

/-- What happens next. -/
inductive Action
  | connect (persistKey restore : Option String)
  | go (i : ℕ) (e : Event)
  | detach
  /-- The page is hidden. -/
  | hidden
  | flush
  /-- The page annotates. -/
  | annotate (text : String)
  /-- The terminal parses. -/
  | parse (n : ℕ) (alternate : Bool)
  /-- The store writes a dump, or loses it. -/
  | land (j : ℕ)
  | lose (j : ℕ)

namespace App

variable (serialize : List Write → Option String)

/-- The pump may save every ten seconds. -/
def periodicSave (p : App) (i : ℕ) (c : Connection) (now : ℕ) : App :=
  if truthy c.persistKey ≠ none ∧ p.currentSession = some i ∧ p.dirtySincePersist = true ∧
      10000 ≤ now - c.lastPersistAt then
    ({ p with
      dirtySincePersist := false
      connections := p.connections.modify i fun c => { c with lastPersistAt := now } } : App)
        |>.saveScrollback serialize c.persistKey
  else p

/-- A call of `connect` goes on. -/
def advance (p : App) (i : ℕ) (c : Connection) : Event → Option App
  | .dialed =>
    if c.pc = .dialing then
      some (({ p with
        currentSession := some i
        currentPersistKey := truthy c.persistKey } : App).setPc i .authenticating)
    else none
  | .abandon =>
    if c.pc = .dialing ∨ c.pc = .authenticating then some (p.setPc i .abandoned) else none
  | .giveUp =>
    if c.pc = .authenticating then
      some (({ p with currentSession := none } : App).setPc i .abandoned)
    else none
  | .ready =>
    if c.pc = .authenticating then
      some ((p.restoreScrollback i (c.restore.getD "") c.persistKey).setPc i .opening)
    else none
  | .start now =>
    if c.pc = .opening then
      some (({ p with
        connections := p.connections.modify i fun c => { c with lastPersistAt := now } } : App).setPc
          i .top)
    else none
  | .turn =>
    if c.pc = .top then
      some (p.setPc i (if p.currentSession = some i then .draining else .returned))
    else none
  | .drained out =>
    if c.pc = .draining then
      some (((if out = [] then p else p.claimTerminal c.persistKey).paint i out).setPc i .asking)
    else none
  | .asked exited now =>
    if c.pc = .asking then
      some (if exited = true then p.setPc i .checking
        else (p.periodicSave serialize i c now).setPc i .sleeping)
    else none
  | .conclude =>
    if c.pc = .checking then some ((p.sessionEnded serialize i).setPc i .returned) else none
  | .wake => if c.pc = .sleeping then some (p.setPc i .top) else none
  | .pumpFailed =>
    if c.pc = .draining ∨ c.pc = .asking ∨ c.pc = .checking then
      some ((p.sessionEnded serialize i).setPc i .returned)
    else none
  | .inputFailed =>
    if c.pc = .dialing ∨ c.pc = .authenticating ∨ c.pc = .opening ∨ c.pc = .abandoned then none
    else some (p.sessionEnded serialize i)

/-- One step. -/
def step (p : App) : Action → Option App
  | .connect persistKey restore =>
    some { p with connections := p.connections ++ [{ persistKey := persistKey, restore := restore }] }
  | .go i e =>
    match p.connections[i]? with
    | none => none
    | some c => p.advance serialize i c e
  | .detach => some { p with currentSession := none }
  | .hidden =>
    some ((if p.chunks = [] then p else p.flush).saveScrollback serialize p.currentPersistKey)
  | .flush => some p.flush
  | .annotate text => some { p with terminal := p.terminal ++ [.note text] }
  | .parse n alternate =>
    if p.parsed ≤ n ∧ n ≤ p.terminal.length then some { p with parsed := n, alternate := alternate }
    else none
  | .land j =>
    match p.pending[j]? with
    | none => none
    | some d => some { p with pending := p.pending.eraseIdx j, landed := p.landed ++ [d] }
  | .lose j => some { p with pending := p.pending.eraseIdx j }

/-! ## Whose content it is -/

/-- All that was painted. -/
def content (p : App) : List Write := p.terminal ++ p.chunks

/-- The key of a call of `connect`. -/
def keyAt (p : App) (i : ℕ) : Option (Option String) :=
  (p.connections[i]?).map fun c => truthy c.persistKey

/-- Content is of a key: the output of a session that was connected with it, a dump that was restored
under it, or an annotation of the page. -/
def From (p : App) (w : Write) (key : Option String) : Prop :=
  ∀ i, w.connection? = some i → p.keyAt i = some key

/-- Content of two keys has been painted. -/
def Mixed (p : App) : Prop :=
  ∃ w ∈ p.content, ∃ w' ∈ p.content, ∃ i j key key', w.connection? = some i ∧
    w'.connection? = some j ∧ p.keyAt i = some key ∧ p.keyAt j = some key' ∧ key ≠ key'

end App

/-! ## Steps that change nothing of this -/

open App

/-- A step that keeps the keys, the owner and what was stored, and paints annotations at most. -/
structure Kept (p p' : App) : Prop where
  keys : ∀ i key, p.keyAt i = some key → p'.keyAt i = some key
  owner : p'.terminalOwner = p.terminalOwner
  content : ∀ w ∈ p'.content, w ∈ p.content ∨ w.connection? = none
  stored : p'.stored = p.stored
  pending : p'.pending ⊆ p.pending
  landed : p'.landed ⊆ p.landed ++ p.pending

variable {serialize : List Write → Option String} {p p' q : App} {i : ℕ} {c : Connection}

theorem Kept.rfl : Kept p p where
  keys _ _ h := h
  owner := Eq.refl _
  content _ h := .inl h
  stored := Eq.refl _
  pending := List.Subset.refl _
  landed := List.subset_append_left _ _

/-- The steps that leave all of this alone, the calls of `connect` aside. -/
theorem Kept.of_eq (hkeys : ∀ i key, p.keyAt i = some key → p'.keyAt i = some key)
    (hrest : p'.terminalOwner = p.terminalOwner ∧ p'.terminal = p.terminal ∧ p'.chunks = p.chunks ∧
      p'.stored = p.stored ∧ p'.pending = p.pending ∧ p'.landed = p.landed) : Kept p p' := by
  obtain ⟨howner, hterminal, hchunks, hstored, hpending, hlanded⟩ := hrest
  refine ⟨hkeys, howner, fun w hw => .inl ?_, hstored, ?_, ?_⟩
  · rwa [App.content, hterminal, hchunks] at hw
  · rw [hpending]
    exact List.Subset.refl _
  · rw [hlanded]
    exact List.subset_append_left _ _

theorem keyAt_modify (p : App) (i j : ℕ) (f : Connection → Connection)
    (hf : ∀ c, (f c).persistKey = c.persistKey) :
    ({ p with connections := p.connections.modify i f } : App).keyAt j = p.keyAt j := by
  rw [keyAt, keyAt]
  simp only [List.getElem?_modify]
  cases p.connections[j]? with
  | none => rfl
  | some c =>
    simp only [Option.map_some]
    split_ifs
    · simp [hf]
    · simp

theorem Kept.trans {r : App} (h : Kept p q) (h' : Kept q r) : Kept p r where
  keys i key hkey := h'.keys i key (h.keys i key hkey)
  owner := h'.owner.trans h.owner
  content w hw := by
    obtain hq | hnote := h'.content w hw
    · exact h.content w hq
    · exact .inr hnote
  stored := h'.stored.trans h.stored
  pending := List.Subset.trans h'.pending h.pending
  landed d hd := by
    obtain hq | hq := List.mem_append.1 (h'.landed hd)
    · exact h.landed hq
    · exact List.mem_append_right _ (h.pending hq)

/-- A call of `connect` is changed, and keeps its key. -/
theorem kept_modify (p : App) (i : ℕ) (f : Connection → Connection)
    (hf : ∀ c, (f c).persistKey = c.persistKey) :
    Kept p { p with connections := p.connections.modify i f } :=
  .of_eq (fun j _ h => (keyAt_modify p i j f hf).trans h)
    ⟨Eq.refl _, Eq.refl _, Eq.refl _, Eq.refl _, Eq.refl _, Eq.refl _⟩

theorem kept_setPc (p : App) (i : ℕ) (pc : Pc) : Kept p (p.setPc i pc) :=
  kept_modify p i (fun c => { c with pc := pc }) fun _ => Eq.refl _

/-- A call of `connect` begins. -/
theorem kept_connect (p : App) (c : Connection) :
    Kept p { p with connections := p.connections ++ [c] } := by
  refine .of_eq (fun i key h => ?_)
    ⟨Eq.refl _, Eq.refl _, Eq.refl _, Eq.refl _, Eq.refl _, Eq.refl _⟩
  obtain ⟨c', hc', hkey⟩ := Option.map_eq_some_iff.1 h
  have hlt : i < p.connections.length := (List.getElem?_eq_some_iff.1 hc').1
  rw [keyAt, List.getElem?_append_left hlt, hc', Option.map_some, hkey]

/-- The variables that say which session is current. -/
theorem kept_current (p : App) (session : Option ℕ) (key : Option String) :
    Kept p { p with currentSession := session, currentPersistKey := key } :=
  .of_eq (fun _ _ h => h) ⟨Eq.refl _, Eq.refl _, Eq.refl _, Eq.refl _, Eq.refl _, Eq.refl _⟩

theorem kept_flush (p : App) : Kept p p.flush where
  keys _ _ h := h
  owner := Eq.refl _
  content w hw := by
    left
    simpa [App.content, flush] using hw
  stored := Eq.refl _
  pending := List.Subset.refl _
  landed := List.subset_append_left _ _

theorem kept_annotate (p : App) (text : String) :
    Kept p { p with terminal := p.terminal ++ [.note text] } where
  keys _ _ h := h
  owner := Eq.refl _
  content w hw := by
    simp only [App.content, List.mem_append, List.mem_singleton] at hw ⊢
    obtain (hw | rfl) | hw := hw
    · exact .inl (.inl hw)
    · exact .inr (Eq.refl _)
    · exact .inl (.inr hw)
  stored := Eq.refl _
  pending := List.Subset.refl _
  landed := List.subset_append_left _ _

/-- The store is done with a dump. -/
theorem kept_eraseIdx (p : App) (j : ℕ) : Kept p { p with pending := p.pending.eraseIdx j } where
  keys _ _ h := h
  owner := Eq.refl _
  content _ h := .inl h
  stored := Eq.refl _
  pending := List.eraseIdx_subset
  landed := List.subset_append_left _ _

theorem kept_land {j : ℕ} {d : Dump} (hd : p.pending[j]? = some d) :
    Kept p { p with pending := p.pending.eraseIdx j, landed := p.landed ++ [d] } where
  keys _ _ h := h
  owner := Eq.refl _
  content _ h := .inl h
  stored := Eq.refl _
  pending := List.eraseIdx_subset
  landed := by
    intro x hx
    obtain hx | hx := List.mem_append.1 hx
    · exact List.mem_append_left _ hx
    · rw [List.mem_singleton.1 hx]
      exact List.mem_append_right _ (List.mem_of_getElem? hd)

/-! ## What a step does -/

/-- The functions that write content, or store it. -/
inductive Deed (serialize : List Write → Option String) : App → App → Prop
  | nothing (p : App) : Deed serialize p p
  | save (p : App) (key : Option String) : Deed serialize p (p.saveScrollback serialize key)
  | paint (p : App) (i : ℕ) (out : Bytes) (c : Connection) (hc : p.connections[i]? = some c) :
    Deed serialize p ((if out = [] then p else p.claimTerminal c.persistKey).paint i out)
  | restore (p : App) (i : ℕ) (text : String) (c : Connection) (hc : p.connections[i]? = some c) :
    Deed serialize p (p.restoreScrollback i text c.persistKey)

/-- A step does at most one of these, among what changes nothing. -/
def Does (serialize : List Write → Option String) (p p' : App) : Prop :=
  ∃ q r, Kept p q ∧ Deed serialize q r ∧ Kept r p'

theorem Kept.does (h : Kept p p') : Does serialize p p' := ⟨p, p, .rfl, .nothing p, h⟩

theorem Deed.does_setPc {i : ℕ} {pc : Pc} (h : Deed serialize p q) :
    Does serialize p (q.setPc i pc) :=
  ⟨p, q, .rfl, h, kept_setPc q i pc⟩

theorem does_sessionEnded (p : App) (i : ℕ) : Does serialize p (p.sessionEnded serialize i) := by
  rw [sessionEnded]
  split_ifs
  · exact Kept.rfl.does
  · exact ⟨_, _, (kept_current p none none).trans (kept_flush _), .save _ p.currentPersistKey, .rfl⟩

theorem does_periodicSave (p : App) (i : ℕ) (c : Connection) (now : ℕ) :
    Does serialize p (p.periodicSave serialize i c now) := by
  rw [periodicSave]
  split_ifs
  · have hdirty : Kept p { p with dirtySincePersist := false } :=
      .of_eq (fun _ _ h => h) ⟨Eq.refl _, Eq.refl _, Eq.refl _, Eq.refl _, Eq.refl _, Eq.refl _⟩
    have hmodify := kept_modify { p with dirtySincePersist := false } i
      (fun c => { c with lastPersistAt := now }) fun _ => Eq.refl _
    exact ⟨_, _, hdirty.trans hmodify, .save _ c.persistKey, .rfl⟩
  · exact Kept.rfl.does

theorem Does.setPc {i : ℕ} {pc : Pc} (h : Does serialize p q) : Does serialize p (q.setPc i pc) := by
  obtain ⟨r, s, hr, hdeed, hs⟩ := h
  exact ⟨r, s, hr, hdeed, hs.trans (kept_setPc q i pc)⟩

theorem advance_does {e : Event} (hc : p.connections[i]? = some c)
    (h : p.advance serialize i c e = some p') : Does serialize p p' := by
  cases e with
  | dialed =>
    obtain ⟨-, ⟨⟩⟩ := Option.ite_none_right_eq_some.1 h
    exact (kept_current p (some i) (truthy c.persistKey)).does.setPc
  | abandon =>
    obtain ⟨-, ⟨⟩⟩ := Option.ite_none_right_eq_some.1 h
    exact (kept_setPc p i .abandoned).does
  | giveUp =>
    obtain ⟨-, ⟨⟩⟩ := Option.ite_none_right_eq_some.1 h
    exact (kept_current p none p.currentPersistKey).does.setPc
  | ready =>
    obtain ⟨-, ⟨⟩⟩ := Option.ite_none_right_eq_some.1 h
    exact (Deed.restore p i _ c hc).does_setPc
  | start now =>
    obtain ⟨-, ⟨⟩⟩ := Option.ite_none_right_eq_some.1 h
    exact (kept_modify p i (fun c => { c with lastPersistAt := now }) fun _ => rfl).does.setPc
  | turn =>
    obtain ⟨-, ⟨⟩⟩ := Option.ite_none_right_eq_some.1 h
    exact (kept_setPc p i _).does
  | drained out =>
    obtain ⟨-, ⟨⟩⟩ := Option.ite_none_right_eq_some.1 h
    exact (Deed.paint p i out c hc).does_setPc
  | asked exited now =>
    obtain ⟨-, ⟨⟩⟩ := Option.ite_none_right_eq_some.1 h
    cases exited with
    | true => exact (kept_setPc p i .checking).does
    | false => exact (does_periodicSave p i c now).setPc
  | conclude =>
    obtain ⟨-, ⟨⟩⟩ := Option.ite_none_right_eq_some.1 h
    exact (does_sessionEnded p i).setPc
  | wake =>
    obtain ⟨-, ⟨⟩⟩ := Option.ite_none_right_eq_some.1 h
    exact (kept_setPc p i .top).does
  | pumpFailed =>
    obtain ⟨-, ⟨⟩⟩ := Option.ite_none_right_eq_some.1 h
    exact (does_sessionEnded p i).setPc
  | inputFailed =>
    obtain ⟨-, ⟨⟩⟩ := Option.ite_none_left_eq_some.1 h
    exact does_sessionEnded p i

/-- **What a step can do.** -/
theorem step_does {a : Action} (h : step serialize p a = some p') : Does serialize p p' := by
  cases a with
  | connect persistKey restore =>
    obtain rfl := Option.some.inj h
    exact (kept_connect p _).does
  | go i e =>
    cases hc : p.connections[i]? with
    | none => simp [step, hc] at h
    | some c => exact advance_does hc (by simpa [step, hc] using h)
  | detach =>
    obtain rfl := Option.some.inj h
    exact (kept_current p none p.currentPersistKey).does
  | hidden =>
    obtain rfl := Option.some.inj h
    by_cases hchunks : p.chunks = []
    · rw [if_pos hchunks]
      exact ⟨_, _, .rfl, .save p _, .rfl⟩
    · rw [if_neg hchunks]
      exact ⟨_, _, kept_flush p, .save p.flush _, .rfl⟩
  | flush =>
    obtain rfl := Option.some.inj h
    exact (kept_flush p).does
  | annotate text =>
    obtain rfl := Option.some.inj h
    exact (kept_annotate p text).does
  | parse n alternate =>
    obtain ⟨-, ⟨⟩⟩ := Option.ite_none_right_eq_some.1 h
    have hparse : Kept p { p with parsed := n, alternate := alternate } :=
      .of_eq (fun _ _ h => h) ⟨Eq.refl _, Eq.refl _, Eq.refl _, Eq.refl _, Eq.refl _, Eq.refl _⟩
    exact hparse.does
  | land j =>
    cases hd : p.pending[j]? with
    | none => simp [step, hd] at h
    | some d =>
      obtain rfl : _ = p' := by simpa [step, hd] using h
      exact (kept_land hd).does
  | lose j =>
    obtain rfl := Option.some.inj h
    exact (kept_eraseIdx p j).does

/-! ## Who owns the terminal owns its content -/

/-- All content is of the owner's key, unless keys have mixed; and it was of one key at each dump. -/
structure Sound (p : App) : Prop where
  owned : ∀ w ∈ p.content, ∀ i, w.connection? = some i →
    ∃ key, p.keyAt i = some key ∧ (p.terminalOwner = .only key ∨ p.terminalOwner = .mixed)
  pure : ∀ d ∈ p.stored, d.key ≠ "" ∧ ∀ w ∈ d.shown, p.From w (some d.key)
  pending : p.pending ⊆ p.stored
  landed : p.landed ⊆ p.stored

theorem Sound.load (addon : Bool) : Sound (App.load addon) where
  owned _ hw := absurd hw List.not_mem_nil
  pure _ hd := absurd hd List.not_mem_nil
  pending := List.nil_subset _
  landed := List.nil_subset _

theorem ne_empty_of_truthy {key : Option String} {k : String} (h : truthy key = some k) : k ≠ "" := by
  simpa using (Option.filter_eq_some_iff.1 h).2

theorem From_mono {w : Write} {key : Option String}
    (hkeys : ∀ i key, p.keyAt i = some key → p'.keyAt i = some key) (h : p.From w key) :
    p'.From w key :=
  fun i hi => hkeys i key (h i hi)

/-- What changes nothing of this keeps it. -/
theorem Sound.kept (hs : Sound p) (h : Kept p p') : Sound p' where
  owned w hw i hi := by
    obtain hw | hnote := h.content w hw
    · obtain ⟨key, hkey, howner⟩ := hs.owned w hw i hi
      exact ⟨key, h.keys i key hkey, by rwa [h.owner]⟩
    · rw [hi] at hnote
      contradiction
  pure d hd := by
    rw [h.stored] at hd
    exact ⟨(hs.pure d hd).1, fun w hw => From_mono h.keys ((hs.pure d hd).2 w hw)⟩
  pending := by
    rw [h.stored]
    exact List.Subset.trans h.pending hs.pending
  landed d hd := by
    rw [h.stored]
    obtain hd | hd := List.mem_append.1 (h.landed hd)
    · exact hs.landed hd
    · exact hs.pending hd

/-- A dump is saved under the key that owns the terminal, if at all. -/
theorem saveScrollback_cases (serialize : List Write → Option String) (p : App)
    (key : Option String) :
    p.saveScrollback serialize key = p ∨
      ∃ k buf, k ≠ "" ∧ p.terminalOwner = .only (some k) ∧ p.saveScrollback serialize key =
        { p with
          stored := p.stored ++ [⟨k, buf, p.content⟩]
          pending := p.pending ++ [⟨k, buf, p.content⟩] } := by
  rw [saveScrollback]
  cases hk : truthy key with
  | none => exact .inl rfl
  | some k =>
    dsimp only
    split_ifs with haddon howner halternate
    · exact .inl rfl
    · exact .inl rfl
    · exact .inl rfl
    cases serialize (p.terminal.take p.parsed) with
    | none => exact .inl rfl
    | some buf =>
      dsimp only
      split_ifs with hcap
      · exact .inl rfl
      · exact .inr ⟨k, buf, ne_empty_of_truthy hk, not_not.1 howner, rfl⟩

theorem Sound.save (hs : Sound p) (key : Option String) :
    Sound (p.saveScrollback serialize key) := by
  obtain h | ⟨k, buf, hk, howner, h⟩ := saveScrollback_cases serialize p key
  · rwa [h]
  rw [h]
  refine ⟨hs.owned, fun d hd => ?_, fun d hd => ?_, fun d hd => List.mem_append_left _ (hs.landed hd)⟩
  · obtain hd | hd := List.mem_append.1 hd
    · exact hs.pure d hd
    obtain rfl := List.mem_singleton.1 hd
    refine ⟨hk, fun w hw i hi => ?_⟩
    -- the owner is `k`, so that all content is of `k`
    obtain ⟨key, hkey, hsame | hmixed⟩ := hs.owned w hw i hi
    · obtain rfl := Owner.only.inj (howner.symm.trans hsame)
      exact hkey
    · rw [howner] at hmixed
      contradiction
  · obtain hd | hd := List.mem_append.1 hd
    · exact List.mem_append_left _ (hs.pending hd)
    · exact List.mem_append_right _ hd

/-- A claim leaves the terminal to the key alone, or mixed. -/
theorem Owner.claim_cases (owner : Owner) (key : Option String) :
    owner.claim key = .only (truthy key) ∧ (owner = .unclaimed ∨ owner = .only (truthy key)) ∨
      owner.claim key = .mixed := by
  rw [Owner.claim]
  split_ifs with hfree howner
  · exact .inl ⟨rfl, .inl hfree⟩
  · exact .inr rfl
  · exact .inl ⟨not_not.1 howner, .inr (not_not.1 howner)⟩

theorem Owner.claim_of_mixed (key : Option String) : Owner.claim .mixed key = .mixed := rfl

/-- Content is written after the claim of its key. -/
theorem Sound.write (hs : Sound p) (hc : p.connections[i]? = some c)
    (hconnections : q.connections = p.connections)
    (howner : q.terminalOwner = p.terminalOwner.claim c.persistKey)
    (hcontent : ∀ w ∈ q.content, w ∈ p.content ∨ w.connection? = some i)
    (hstore : q.stored = p.stored ∧ q.pending = p.pending ∧ q.landed = p.landed) : Sound q := by
  obtain ⟨hstored, hpending, hlanded⟩ := hstore
  have hkeys (j : ℕ) : q.keyAt j = p.keyAt j := by rw [keyAt, keyAt, hconnections]
  have hkey : p.keyAt i = some (truthy c.persistKey) := by rw [keyAt, hc, Option.map_some]
  refine ⟨fun w hw j hj => ?_, fun d hd => ?_, ?_, ?_⟩
  · rw [hkeys, howner]
    obtain hw | hi := hcontent w hw
    · obtain ⟨key, hold, hown⟩ := hs.owned w hw j hj
      refine ⟨key, hold, ?_⟩
      obtain ⟨hclaim, hfree | hsame⟩ | hmixed := p.terminalOwner.claim_cases c.persistKey
      · rw [hfree] at hown
        obtain hown | hown := hown <;> contradiction
      · rw [hclaim, ← hsame]
        exact hown
      · exact .inr hmixed
    · obtain rfl := Option.some.inj (hi.symm.trans hj)
      refine ⟨_, hkey, ?_⟩
      obtain ⟨hclaim, -⟩ | hmixed := p.terminalOwner.claim_cases c.persistKey
      · exact .inl hclaim
      · exact .inr hmixed
  · rw [hstored] at hd
    exact ⟨(hs.pure d hd).1, fun w hw => From_mono (fun j key h => (hkeys j).trans h)
      ((hs.pure d hd).2 w hw)⟩
  · rw [hpending, hstored]
    exact hs.pending
  · rw [hlanded, hstored]
    exact hs.landed

theorem Sound.paint (hs : Sound p) (hc : p.connections[i]? = some c) (out : Bytes) :
    Sound ((if out = [] then p else p.claimTerminal c.persistKey).paint i out) := by
  by_cases hout : out = []
  · rwa [if_pos hout, App.paint, if_pos hout]
  rw [if_neg hout, App.paint, if_neg hout]
  refine hs.write hc rfl rfl (fun w hw => ?_) ⟨rfl, rfl, rfl⟩
  simp only [App.content, claimTerminal, List.mem_append, List.mem_singleton] at hw ⊢
  obtain hw | hw | rfl := hw
  · exact .inl (.inl hw)
  · exact .inl (.inr hw)
  · exact .inr rfl

theorem Sound.restore (hs : Sound p) (hc : p.connections[i]? = some c) (text : String) :
    Sound (p.restoreScrollback i text c.persistKey) := by
  rw [restoreScrollback]
  split_ifs
  · exact hs
  refine hs.write hc rfl rfl (fun w hw => ?_) ⟨rfl, rfl, rfl⟩
  simp only [App.content, claimTerminal, List.mem_append, List.mem_singleton] at hw ⊢
  obtain (hw | rfl) | hw := hw
  · exact .inl (.inl hw)
  · exact .inr rfl
  · exact .inl (.inr hw)

/-- **Every step keeps it.** -/
theorem Sound.step {a : Action} (hs : Sound p) (h : App.step serialize p a = some p') : Sound p' := by
  obtain ⟨q, r, hq, hdeed, hr⟩ := step_does h
  have hsq := hs.kept hq
  refine Sound.kept ?_ hr
  cases hdeed with
  | nothing => exact hsq
  | save key => exact hsq.save key
  | paint i out c hc => exact hsq.paint hc out
  | restore i text c hc => exact hsq.restore hc text

theorem Sound.of_run {addon : Bool} {as : List Action}
    (h : Run.run (App.step serialize) (App.load addon) as = some p) : Sound p :=
  Run.run_inv_of_step (fun _ _ _ hs h => hs.step h) (Sound.load addon) h

/-! ## Mixed content -/

/-- Mixed content stays mixed, and no dump of it is stored. -/
theorem step_mixed {a : Action} (hmixed : p.terminalOwner = .mixed)
    (h : App.step serialize p a = some p') :
    p'.terminalOwner = .mixed ∧ p'.stored = p.stored := by
  obtain ⟨q, r, hq, hdeed, hr⟩ := step_does h
  rw [hr.owner, hr.stored, ← hq.stored]
  rw [← hq.owner] at hmixed
  cases hdeed with
  | nothing => exact ⟨hmixed, rfl⟩
  | save key =>
    obtain h | ⟨k, buf, -, howner, -⟩ := saveScrollback_cases serialize q key
    · rw [h]
      exact ⟨hmixed, rfl⟩
    · rw [hmixed] at howner
      contradiction
  | paint i out c hc =>
    rw [App.paint]
    split_ifs
    · exact ⟨hmixed, rfl⟩
    · exact ⟨by rw [claimTerminal, hmixed, Owner.claim_of_mixed], rfl⟩
  | restore i text c hc =>
    rw [restoreScrollback]
    split_ifs
    · exact ⟨hmixed, rfl⟩
    · exact ⟨by rw [claimTerminal, hmixed, Owner.claim_of_mixed], rfl⟩

theorem run_mixed {as : List Action} (hmixed : p.terminalOwner = .mixed)
    (h : Run.run (App.step serialize) p as = some p') : p'.stored = p.stored := by
  induction as generalizing p with
  | nil =>
    obtain rfl := Option.some.inj h
    rfl
  | cons a as ih =>
    obtain ⟨q, hq, hrest⟩ := Run.run_cons_eq_some.1 h
    obtain ⟨howner, hstored⟩ := step_mixed hmixed hq
    exact (ih howner hrest).trans hstored

/-- Content of two keys makes the owner `mixed`. -/
theorem Sound.owner_mixed (hs : Sound p) (h : p.Mixed) : p.terminalOwner = .mixed := by
  obtain ⟨w, hw, w', hw', i, j, key, key', hi, hj, hkey, hkey', hne⟩ := h
  obtain ⟨k, hk, hown | hmixed⟩ := hs.owned w hw i hi
  · obtain ⟨k', hk', hown' | hmixed⟩ := hs.owned w' hw' j hj
    · obtain rfl := Owner.only.inj (hown.symm.trans hown')
      rw [hkey] at hk
      rw [hkey'] at hk'
      exact absurd (Option.some.inj (hk.trans hk'.symm)) hne
    · exact hmixed
  · exact hmixed

/-- **Saved scrollback never mixes hosts**: of every dump that was stored since the page was loaded, all
that was painted until then came from sessions or dumps of its key; and once content of two keys has
been painted, none is stored any more. -/
theorem saves_one_key {addon : Bool} {as : List Action}
    (h : Run.run (App.step serialize) (App.load addon) as = some p) :
    (∀ d ∈ p.stored, d.key ≠ "" ∧ ∀ w ∈ d.shown, p.From w (some d.key)) ∧
      (∀ d ∈ p.landed, d ∈ p.stored) ∧
      (p.Mixed → ∀ bs p', Run.run (App.step serialize) p bs = some p' → p'.stored = p.stored) := by
  have hs := Sound.of_run h
  exact ⟨hs.pure, hs.landed, fun hmixed _ _ hrun => run_mixed (hs.owner_mixed hmixed) hrun⟩

/-- A session to one host, whose output is saved, and one to another host after it. -/
def twoHosts : List Action :=
  [.connect (some "a") none, .go 0 .dialed, .go 0 .ready, .go 0 (.start 0), .go 0 .turn,
    .go 0 (.drained [104]), .hidden, .connect (some "b") none, .go 1 .dialed, .go 1 .ready,
    .go 1 (.start 0), .go 1 .turn, .go 1 (.drained [105]), .hidden]

theorem saves_one_key_twoHosts :
    ∃ p, Run.run (App.step fun _ => some "screen") (App.load true) twoHosts = some p ∧
      p.Mixed ∧ p.stored = [⟨"a", "screen", [.output 0 [104]]⟩] ∧
      p.From (.output 0 [104]) (some "a") := by
  obtain ⟨p, hp⟩ := Option.isSome_iff_exists.1
    (show (Run.run (App.step fun _ => some "screen") (App.load true) twoHosts).isSome from rfl)
  have hstored : (Run.run (App.step fun _ => some "screen") (App.load true) twoHosts).map stored =
      some [⟨"a", "screen", [.output 0 [104]]⟩] := rfl
  have hcontent : (Run.run (App.step fun _ => some "screen") (App.load true) twoHosts).map
      App.content = some [.output 0 [104], .output 1 [105]] := rfl
  have hkeys : (Run.run (App.step fun _ => some "screen") (App.load true) twoHosts).map
      (fun p => (p.keyAt 0, p.keyAt 1)) = some (some (some "a"), some (some "b")) := rfl
  rw [hp, Option.map_some, Option.some_inj] at hstored hcontent hkeys
  refine ⟨p, hp, ⟨.output 0 [104], by rw [hcontent]; decide, .output 1 [105],
    by rw [hcontent]; decide, 0, 1, some "a", some "b", rfl, rfl, congrArg Prod.fst hkeys,
    congrArg Prod.snd hkeys, by decide⟩, hstored, ?_⟩
  have hsaved := (saves_one_key hp).1
  rw [hstored] at hsaved
  exact (hsaved _ (List.mem_singleton_self _)).2 _ (List.mem_singleton_self _)

end Scrollback
