import Mathlib

set_option relaxedAutoImplicit false
set_option autoImplicit false

/-!
# The host-key gate of the page

What a page asks, and what it remembers, before a session may use a credential: the sheet, the store of
approved host keys, `doConnect` and `ui.confirmHostKey` of `site/boot.mjs`, and `connect` of
`site/app.mjs` up to its output pump. Any number of pages share the store, and each may connect any
number of times.

## Main definitions

* `HostKeys.Page`, `HostKeys.Browser` — the variables of a page, and the pages with their store.
* `HostKeys.Browser.step` — the transition function.

## Main results

* `HostKeys.Page.goOn_cases` — what a connection can do next.

## Design

Between two awaits the page runs alone, so each step is what happens from one await to the next. What
the component answers, whether the storage can be used, and what the user does are in the actions.
-/

namespace HostKeys

/-! ## What is asked -/

/-- An entry of the store of approved host keys. -/
structure Pin where
  /-- The fingerprint, which an entry that this page did not write may lack. -/
  fp : Option String
deriving DecidableEq

/-- The store: what is saved for an endpoint. -/
abbrev Pins := String → Option Pin

structure Prompt where
  text : String
  echo : Bool
deriving DecidableEq

structure PromptBatch where
  instruction : String
  prompts : List Prompt
deriving DecidableEq

/-- How a connection authenticates. -/
inductive Method
  | auto | publickey | passkey | password | keyboardInteractive
deriving DecidableEq

/-- What a sheet asks. -/
inductive Ask
  /-- `hostKeyAsk`, for a call of `connect`. -/
  | hostkey (i : ℕ) (fingerprint : String) (endpointId : Option String) (pinned : Option Pin)
  /-- `promptsAsk`. -/
  | prompts (batch : PromptBatch)
  | scan
  /-- The sheets of the other questions. -/
  | other (name : String)
deriving DecidableEq

/-- What a sheet resolves with. -/
inductive Value
  | null
  | verdict (ok remember : Bool)
  | answers (as : List String)
  | flag (b : Bool)
  | text (s : String)
  /-- An object of another sheet, which has no `ok`. -/
  | record
deriving DecidableEq

namespace Value

/-- `r?.ok`. -/
def ok : Value → Bool
  | verdict ok _ => ok
  | _ => false

/-- `r.remember`. -/
def remember : Value → Bool
  | verdict _ remember => remember
  | _ => false

/-- The value counts as true. -/
def truthy : Value → Bool
  | null => false
  | flag b => b
  | text s => s ≠ ""
  | _ => true

end Value

/-- What the buttons of a sheet resolve it with. -/
def Ask.offers : Ask → Value → Bool
  | hostkey _ _ _ none, .verdict ok remember => ok || !remember
  -- a key that has changed is approved for this connection only
  | hostkey _ _ _ (some _), .verdict _ remember => !remember
  | prompts batch, .answers as => as.length = batch.prompts.length
  | prompts _, .null => true
  | other _, .verdict _ _ => false
  | other _, _ => true
  | _, _ => false

/-- A question, and what it was resolved with. -/
structure Asked where
  ask : Ask
  value : Option Value := none
deriving DecidableEq

/-! ## The state -/

/-- Where a call of `doConnect` stands, with what it awaits. -/
inductive Stage
  /-- The saved scrollback, the component, and its `Session.connect`. -/
  | dialing
  /-- `status`, in `settle`. -/
  | settling
  /-- `hostKeyFingerprint`. -/
  | reading
  /-- `ui.confirmHostKey`, which has asked, or knows the key. -/
  | confirming (fp : String) (ask : Option ℕ)
  /-- `confirmHostKey`. -/
  | deciding (ok : Bool)
  /-- `ui.collectPrompts`, for a password. -/
  | asking (ask : ℕ)
  | authenticating
  /-- `status`, `pendingPrompts`, `ui.collectPrompts` and `answerPrompts`. -/
  | polling
  | pending
  | prompting (ask : ℕ)
  | answering
  /-- `detach`, after the user has declined. -/
  | cancelling
  | connected
  /-- It has thrown, or the host key was rejected. -/
  | abandoned
deriving DecidableEq

/-- A call of `doConnect`, which has one session. -/
structure Connection where
  connstring : String
  user : String
  stage : Stage := .dialing
deriving DecidableEq

structure Page where
  dialing : Bool := false
  attemptMethod : Method := .auto
  asks : List Asked := []
  /-- The question that `sheetResolve` would resolve. -/
  sheet : Option ℕ := none
  connections : List Connection := []
  currentSession : Option ℕ := none
deriving DecidableEq

/-- A call of a session. -/
inductive Call
  | confirmHostKey (accept : Bool)
  | authenticate (method : Method)
  /-- `authenticatePassword`, with the first of the answers. -/
  | authenticatePassword (answers : Value)
  | answerPrompts (answers : Value)
  | detach
deriving DecidableEq

/-- The call lets the session use a credential. -/
def Call.isCredential : Call → Bool
  | authenticate _ | authenticatePassword _ | answerPrompts _ => true
  | confirmHostKey _ | detach => false

/-- What happens to a connection. -/
inductive Deed
  /-- It has a session. -/
  | opened
  /-- The session has reported the fingerprint of the host key. -/
  | reported (connstring fp : String)
  /-- The user is asked to approve it, maybe in place of another one. -/
  | shown (endpointId : Option String) (fp : String) (changed : Bool)
  /-- The user approves it. -/
  | approved (endpointId : Option String) (fp : String) (remember : Bool)
  | saved (endpointId fp : String)
  /-- It is the one that was saved. -/
  | matched (endpointId : Option String) (fp : String)
  | call (c : Call)
  /-- `sessionEnded`. -/
  | ended
deriving DecidableEq

/-- An entry of the log. -/
structure Entry where
  page : ℕ
  connection : ℕ
  deed : Deed
deriving DecidableEq

/-- The pages of one origin in one browser. -/
structure Browser where
  pins : Pins
  pages : List Page := []
  /-- History: what has happened, in order. -/
  log : List Entry := []

/-- A browser before any page is loaded. -/
def Browser.start (pins : Pins) : Browser := { pins := pins }

/-! ## Steps -/

/-- What `status` answers. -/
inductive Status
  | connecting | hostKeyCheck | authPrompts | ready | closed
  | other (kind : String)
deriving DecidableEq

/-- What a connection goes on with. -/
inductive Event
  | opened
  /-- What it awaits has rejected, or taken too long. -/
  | failed
  | status (s : Status)
  /-- The fingerprint, and whether the store can be read. -/
  | fingerprint (fp : Option String) (storage : Bool)
  /-- The sheet has resolved; whether the store can be written. -/
  | answered (storage : Bool)
  | batch (b : Option PromptBatch)
  | returned

/-- What happens on a page. -/
inductive Action
  | dial (connstring user : String) (method : Method)
  | goOn (i : ℕ) (e : Event)
  /-- A sheet for something else. -/
  | ask (a : Ask)
  /-- A button of the sheet. -/
  | tap (v : Value)
  /-- The sheet is closed without an answer. -/
  | dismiss
  /-- `scanQr` is through, for a sheet that may be gone. -/
  | scanned (text : Option String)
  | removePin (endpointId : String) (storage : Bool)
  /-- The current session has ended. -/
  | ended
  | detach

/-- What a page has done. -/
structure Turn where
  page : Page
  pins : Pins
  deeds : List (ℕ × Deed) := []

namespace Page

/-- `settleSheet`. -/
def settleSheet (p : Page) (v : Value) : Page :=
  match p.sheet with
  | none => p
  | some k => { p with sheet := none, asks := p.asks.modify k fun a => { a with value := some v } }

/-- `withdrawSheet`. -/
def withdrawSheet (p : Page) : Page := p.settleSheet .null

/-- `showSheet`: it supersedes the one before. -/
def showSheet (p : Page) (a : Ask) : Page :=
  { p.withdrawSheet with sheet := some p.asks.length, asks := p.withdrawSheet.asks ++ [⟨a, none⟩] }

def setStage (p : Page) (i : ℕ) (s : Stage) : Page :=
  { p with connections := p.connections.modify i fun c => { c with stage := s } }

/-! A sheet changes nothing but what is asked. -/

@[simp] theorem connections_settleSheet (p : Page) (v : Value) :
    (p.settleSheet v).connections = p.connections := by
  unfold settleSheet
  split <;> rfl

@[simp] theorem currentSession_settleSheet (p : Page) (v : Value) :
    (p.settleSheet v).currentSession = p.currentSession := by
  unfold settleSheet
  split <;> rfl

@[simp] theorem dialing_settleSheet (p : Page) (v : Value) :
    (p.settleSheet v).dialing = p.dialing := by
  unfold settleSheet
  split <;> rfl

@[simp] theorem length_asks_settleSheet (p : Page) (v : Value) :
    (p.settleSheet v).asks.length = p.asks.length := by
  unfold settleSheet
  split
  · rfl
  · exact List.length_modify ..

@[simp] theorem connections_showSheet (p : Page) (a : Ask) :
    (p.showSheet a).connections = p.connections := connections_settleSheet p .null

@[simp] theorem currentSession_showSheet (p : Page) (a : Ask) :
    (p.showSheet a).currentSession = p.currentSession := currentSession_settleSheet p .null

@[simp] theorem dialing_showSheet (p : Page) (a : Ask) : (p.showSheet a).dialing = p.dialing :=
  dialing_settleSheet p .null

theorem connections_setStage (p : Page) (i : ℕ) (s : Stage) :
    (p.setStage i s).connections = p.connections.modify i fun c => { c with stage := s } := rfl

/-- `doConnect` returns. -/
def finish (p : Page) (i : ℕ) (s : Stage) : Page := { p.setStage i s with dialing := false }

/-- What the sheet was resolved with. -/
def valueOf (p : Page) (k : ℕ) : Option Value := (p.asks[k]?).bind Asked.value

section Steps

variable (key : String → Option String)

/-- `ui.confirmHostKey`, up to its answer; `pinned` is what `loadPins` has for the endpoint. -/
def confirmHostKey (p : Page) (pins : Pins) (i : ℕ) (fp : String) (endpointId : Option String)
    (pinned : Option Pin) : Turn :=
  if pinned = some ⟨some fp⟩ then
    ⟨p.setStage i (.confirming fp none), pins, [(i, .matched endpointId fp)]⟩
  else
    ⟨(p.showSheet (.hostkey i fp endpointId pinned)).setStage i (.confirming fp (some p.asks.length)),
      pins, [(i, .shown endpointId fp pinned.isSome)]⟩

/-- `savePin`. -/
def savePin (pins : Pins) (storage : Bool) (e fp : String) : Pins :=
  if storage then Function.update pins e (some ⟨some fp⟩) else pins

/-- `ui.confirmHostKey` has its answer, and the session is told. -/
def tell (p : Page) (pins : Pins) (i : ℕ) (fp : String) (endpointId : Option String) (v : Value)
    (storage : Bool) : Turn :=
  let page := p.setStage i (.deciding v.ok)
  match endpointId with
  | some e =>
    if v.ok && v.remember then
      ⟨page, savePin pins storage e fp, [(i, .saved e fp), (i, .call (.confirmHostKey v.ok))]⟩
    else ⟨page, pins, [(i, .call (.confirmHostKey v.ok))]⟩
  | none => ⟨page, pins, [(i, .call (.confirmHostKey v.ok))]⟩

/-- The session is told how to authenticate. -/
def authenticate (p : Page) (pins : Pins) (i : ℕ) (c : Connection) : Turn :=
  if p.attemptMethod = .password then
    ⟨(p.showSheet (.prompts ⟨"", [⟨"password for " ++ c.user ++ ": ", false⟩]⟩)).setStage i
      (.asking p.asks.length), pins, []⟩
  else
    ⟨p.setStage i .authenticating, pins, [(i, .call (.authenticate p.attemptMethod))]⟩

/-- What the user has answered is passed on, or the session is torn down. -/
def pass (p : Page) (pins : Pins) (i : ℕ) (v : Value) (next : Stage) (c : Call) : Turn :=
  if v.truthy then ⟨p.setStage i next, pins, [(i, .call c)]⟩
  else ⟨p.setStage i .cancelling, pins, [(i, .call .detach)]⟩

/-- A connection goes on. -/
def goOn (p : Page) (pins : Pins) (i : ℕ) (c : Connection) : Stage → Event → Option Turn
  | .dialing, .opened =>
    -- the session that it replaces is detached
    some ⟨{ p.setStage i .settling with currentSession := some i }, pins,
      (i, .opened) :: p.currentSession.toList.map fun j => (j, .call .detach)⟩
  | .settling, .status .connecting => some ⟨p, pins, []⟩
  | .settling, .status .hostKeyCheck => some ⟨p.setStage i .reading, pins, []⟩
  | .settling, .status _ => some ⟨p.finish i .abandoned, pins, []⟩
  | .reading, .fingerprint fp? storage =>
    let fp := fp?.getD "(unavailable)"
    let endpointId := key c.connstring
    let t := p.confirmHostKey pins i fp endpointId (if storage then endpointId.bind pins else none)
    some { t with deeds := (i, .reported c.connstring fp) :: t.deeds }
  | .confirming fp none, .answered storage =>
    some (p.tell pins i fp none (.verdict true false) storage)
  | .confirming fp (some k), .answered storage =>
    (p.valueOf k).map fun v => p.tell pins i fp (key c.connstring) v storage
  | .deciding true, .returned => some (p.authenticate pins i c)
  | .deciding false, .returned => some ⟨{ p.finish i .abandoned with currentSession := none }, pins, []⟩
  | .asking k, .answered _ =>
    (p.valueOf k).map fun v => p.pass pins i v .authenticating (.authenticatePassword v)
  | .authenticating, .returned => some ⟨p.setStage i .polling, pins, []⟩
  | .polling, .status .ready => some ⟨p.finish i .connected, pins, []⟩
  | .polling, .status .closed => some ⟨p.finish i .abandoned, pins, []⟩
  | .polling, .status .authPrompts => some ⟨p.setStage i .pending, pins, []⟩
  | .polling, .status _ => some ⟨p, pins, []⟩
  | .pending, .batch none => some ⟨p.setStage i .polling, pins, []⟩
  | .pending, .batch (some b) =>
    some ⟨(p.showSheet (.prompts b)).setStage i (.prompting p.asks.length), pins, []⟩
  | .prompting k, .answered _ =>
    (p.valueOf k).map fun v => p.pass pins i v .answering (.answerPrompts v)
  | .answering, .returned => some ⟨p.setStage i .polling, pins, []⟩
  | .cancelling, .returned => some ⟨{ p.finish i .abandoned with currentSession := none }, pins, []⟩
  -- a sheet never rejects
  | .confirming _ _, .failed | .asking _, .failed | .prompting _, .failed | .connected, .failed
  | .abandoned, .failed => none
  | _, .failed => some ⟨p.finish i .abandoned, pins, []⟩
  | _, _ => none

/-- What the user approves with a button. -/
def approval : Ask → Value → List (ℕ × Deed)
  | .hostkey i fp e _, v => if v.ok then [(i, .approved e fp v.remember)] else []
  | _, _ => []

/-- One step of a page. -/
def step (p : Page) (pins : Pins) : Action → Option Turn
  | .dial connstring user method =>
    if p.dialing then some ⟨p, pins, []⟩
    else
      some ⟨{ p.withdrawSheet with
        dialing := true
        attemptMethod := method
        connections := p.connections ++ [⟨connstring, user, .dialing⟩] }, pins, []⟩
  | .goOn i e =>
    match p.connections[i]? with
    | none => none
    | some c => p.goOn key pins i c c.stage e
  | .ask a =>
    match a with
    | .hostkey _ _ _ _ | .prompts _ => none
    | a => some ⟨p.showSheet a, pins, []⟩
  | .tap v =>
    match p.sheet.bind fun k => p.asks[k]? with
    | none => none
    | some a => if a.ask.offers v then some ⟨p.settleSheet v, pins, approval a.ask v⟩ else none
  | .dismiss => some ⟨p.withdrawSheet, pins, []⟩
  | .scanned text =>
    -- its `done` resolves whatever is on the screen by now
    if p.asks.any fun a => a.ask = .scan then some ⟨p.settleSheet (text.elim .null .text), pins, []⟩
    else none
  | .removePin e storage => some ⟨p, if storage then Function.update pins e none else pins, []⟩
  | .ended =>
    match p.currentSession with
    | none => none
    | some i =>
      if (p.connections[i]?).any fun c => c.stage = .connected then
        some ⟨{ p with currentSession := none }, pins, [(i, .ended)]⟩
      else none
  | .detach =>
    match p.currentSession with
    | none => some ⟨p, pins, []⟩
    | some i => some ⟨{ p with currentSession := none }, pins, [(i, .call .detach)]⟩

end Steps

end Page

/-- What happens next. -/
inductive Happening
  /-- A page is loaded. -/
  | load
  | on (n : ℕ) (a : Action)

/-- The log of what a page has done. -/
def entries (n : ℕ) (deeds : List (ℕ × Deed)) : List Entry := deeds.map fun d => ⟨n, d.1, d.2⟩

theorem mem_entries {n : ℕ} {deeds : List (ℕ × Deed)} {x : Entry} :
    x ∈ entries n deeds ↔ x.page = n ∧ (x.connection, x.deed) ∈ deeds := by
  constructor
  · intro h
    obtain ⟨d, hd, rfl⟩ := List.mem_map.1 h
    exact ⟨rfl, hd⟩
  · rintro ⟨rfl, hd⟩
    exact List.mem_map.2 ⟨_, hd, rfl⟩

/-- One step of the browser. -/
def Browser.step (key : String → Option String) (b : Browser) : Happening → Option Browser
  | .load => some { b with pages := b.pages ++ [{}] }
  | .on n a =>
    match b.pages[n]? with
    | none => none
    | some p =>
      (p.step key b.pins a).map fun t =>
        { pins := t.pins, pages := b.pages.set n t.page, log := b.log ++ entries n t.deeds }

/-! ## What a connection can do -/

/-- The question that is awaited. -/
def Stage.ask? : Stage → Option ℕ
  | confirming _ k => k
  | asking k | prompting k => some k
  | _ => none

/-- The session has been told that its host key is approved. -/
def Stage.told : Stage → Bool
  | deciding ok => ok
  | asking _ | authenticating | polling | pending | prompting _ | answering | cancelling
  | connected => true
  | dialing | settling | reading | confirming _ _ | abandoned => false

/-- `doConnect` has not returned. -/
def Stage.inFlight : Stage → Bool
  | connected | abandoned => false
  | _ => true

namespace Page

variable {key : String → Option String} {p : Page} {pins : Pins} {i : ℕ} {c : Connection} {t : Turn}

/-- The cases of `goOn`. -/
inductive Goes (key : String → Option String) (p : Page) (pins : Pins) (i : ℕ) (c : Connection) :
    Turn → Prop
  | stays : Goes key p pins i c ⟨p, pins, []⟩
  | opens (h : c.stage = .dialing) :
      Goes key p pins i c ⟨{ p.setStage i .settling with currentSession := some i }, pins,
        (i, .opened) :: p.currentSession.toList.map fun j => (j, .call .detach)⟩
  | settles (h : c.stage = .settling) : Goes key p pins i c ⟨p.setStage i .reading, pins, []⟩
  | reports {fp : String} {pinned : Option Pin} (h : c.stage = .reading)
      (hpinned : pinned = none ∨ pinned = (key c.connstring).bind pins) :
      Goes key p pins i c { p.confirmHostKey pins i fp (key c.connstring) pinned with
        deeds := (i, .reported c.connstring fp) ::
          (p.confirmHostKey pins i fp (key c.connstring) pinned).deeds }
  | knows {fp : String} (h : c.stage = .confirming fp none) (storage : Bool) :
      Goes key p pins i c (p.tell pins i fp none (.verdict true false) storage)
  | tells {fp : String} {k : ℕ} {v : Value} (h : c.stage = .confirming fp (some k))
      (hv : p.valueOf k = some v) (storage : Bool) :
      Goes key p pins i c (p.tell pins i fp (key c.connstring) v storage)
  | moves {s : Stage} (h : c.stage.told = true) (hs : s.told = true) (hin : s.inFlight = true)
      (hask : s.ask? = none) (hcancels : s ≠ .cancelling) :
      Goes key p pins i c ⟨p.setStage i s, pins, []⟩
  | calls {s : Stage} {cl : Call} (h : c.stage.told = true) (hs : s.told = true)
      (hin : s.inFlight = true) (hask : s.ask? = none) (hcl : ∀ ok, cl ≠ .confirmHostKey ok)
      (hcancels : s = .cancelling → cl = .detach) :
      Goes key p pins i c ⟨p.setStage i s, pins, [(i, .call cl)]⟩
  | asks {b : PromptBatch} {s : Stage} (h : c.stage.told = true) (hs : s.told = true)
      (hin : s.inFlight = true) (hask : s.ask? = some p.asks.length) :
      Goes key p pins i c ⟨(p.showSheet (.prompts b)).setStage i s, pins, []⟩
  | finishes {s : Stage} (h : s = .abandoned ∨ s = .connected ∧ c.stage.told = true) :
      Goes key p pins i c ⟨p.finish i s, pins, []⟩
  | closes (h : c.stage = .deciding false ∨ c.stage = .cancelling) :
      Goes key p pins i c ⟨{ p.finish i .abandoned with currentSession := none }, pins, []⟩

theorem goes_authenticate (h : c.stage.told = true) :
    Goes key p pins i c (p.authenticate pins i c) := by
  unfold authenticate
  split_ifs
  · exact .asks h rfl rfl rfl
  · exact .calls h rfl rfl rfl nofun nofun

theorem goes_pass (h : c.stage.told = true) {v : Value} {s : Stage} {cl : Call} (hs : s.told = true)
    (hin : s.inFlight = true) (hask : s.ask? = none) (hcl : ∀ ok, cl ≠ .confirmHostKey ok)
    (hcancels : s ≠ .cancelling) : Goes key p pins i c (p.pass pins i v s cl) := by
  unfold pass
  split_ifs
  · exact .calls h hs hin hask hcl fun heq => absurd heq hcancels
  · exact .calls h rfl rfl rfl nofun fun _ => rfl

/-- **The cases of `goOn`.** -/
theorem goOn_cases {e : Event} (h : p.goOn key pins i c c.stage e = some t) :
    Goes key p pins i c t := by
  cases hs : c.stage <;> rw [hs] at h
  case dialing =>
    cases e <;> cases h
    · exact .opens hs
    · exact .finishes (.inl rfl)
  case settling =>
    cases e
    case status s => cases s <;> cases h <;> first
      | exact .stays
      | exact .settles hs
      | exact .finishes (.inl rfl)
    all_goals cases h
    exact .finishes (.inl rfl)
  case reading =>
    cases e <;> cases h
    · exact .finishes (.inl rfl)
    · refine .reports hs ?_
      split_ifs
      · exact .inr rfl
      · exact .inl rfl
  case confirming fp ask =>
    cases ask with
    | none =>
      cases e <;> cases h
      exact .knows hs _
    | some k =>
      cases e
      case answered storage =>
        obtain ⟨v, hv, rfl⟩ := Option.map_eq_some_iff.1 h
        exact .tells hs hv storage
      all_goals cases h
  case deciding ok =>
    cases ok <;> cases e <;> cases h
    · exact .finishes (.inl rfl)
    · exact .closes (.inl hs)
    · exact .finishes (.inl rfl)
    · exact goes_authenticate (by rw [hs]; rfl)
  case asking k =>
    cases e
    case answered storage =>
      obtain ⟨v, hv, rfl⟩ := Option.map_eq_some_iff.1 h
      exact goes_pass (by rw [hs]; rfl) rfl rfl rfl nofun nofun
    all_goals cases h
  case prompting k =>
    cases e
    case answered storage =>
      obtain ⟨v, hv, rfl⟩ := Option.map_eq_some_iff.1 h
      exact goes_pass (by rw [hs]; rfl) rfl rfl rfl nofun nofun
    all_goals cases h
  case polling =>
    cases e
    case status s =>
      cases s <;> cases h <;> first
        | exact .stays
        | exact .finishes (.inl rfl)
        | exact .finishes (.inr ⟨rfl, by rw [hs]; rfl⟩)
        | exact .moves (by rw [hs]; rfl) rfl rfl rfl nofun
    all_goals cases h
    exact .finishes (.inl rfl)
  case pending =>
    cases e
    case batch b =>
      cases b <;> cases h
      · exact .moves (by rw [hs]; rfl) rfl rfl rfl nofun
      · exact .asks (by rw [hs]; rfl) rfl rfl rfl
    all_goals cases h
    exact .finishes (.inl rfl)
  case cancelling =>
    cases e <;> cases h
    · exact .finishes (.inl rfl)
    · exact .closes (.inr hs)
  case authenticating | answering =>
    cases e <;> cases h
    · exact .finishes (.inl rfl)
    · exact .moves (by rw [hs]; rfl) rfl rfl rfl nofun
  case connected | abandoned => cases e <;> cases h

/-- A connection that goes on is in flight. -/
theorem inFlight_of_goOn {e : Event} (h : p.goOn key pins i c c.stage e = some t) :
    c.stage.inFlight = true := by
  cases hs : c.stage <;> rw [hs] at h <;> first
    | rfl
    | (cases e <;> cases h)

end Page

/-! ## A run -/

/-- A page is loaded and connects, up to where it has the fingerprint of the host key. -/
def connecting (n : ℕ) : List Happening :=
  [.load, .on n (.dial "machine" "user" .auto), .on n (.goOn 0 .opened),
    .on n (.goOn 0 (.status .connecting)), .on n (.goOn 0 (.status .hostKeyCheck)),
    .on n (.goOn 0 (.fingerprint (some "SHA256:one") true))]

end HostKeys
