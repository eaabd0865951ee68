import Wosh.Sftp.Correlator
import Wosh.Sftp.Decode

set_option relaxedAutoImplicit false
set_option autoImplicit false

/-!
# The SFTP connection

`Sftp` of `wosh-client/src/transfer.rs`: the one connection of a session, on which every request waits
in a slot of its own. The connection keeps the ids of the requests in flight twice, and may find out
that it is dead in the middle of a batch of packets.

## Main definitions

* `Transfer.Connection` — the connection, with the slots it has handed out.
* `Transfer.Connection.submit`, `Transfer.Connection.die`, `Transfer.Connection.deliver`,
  `Transfer.Connection.pumpRound` — what is done with it.
* `Transfer.Connection.step` — any of these, and a waiter that takes its answer.
* `Transfer.Connection.Exact` — every answer reaches its waiter, and nobody else.

## Main results

* `Transfer.Connection.packets_eq` — a round delivers the packets of the framer, and dies of an error.
* `Transfer.waiters_exact` — a connection is exact in every state.
* `Transfer.submit_eq_request` — what the engines see of it.

## Design

A slot is shared by the connection and its waiter, and is known by its place among all that were
handed out. `id` and `consumed` record what became of a slot; nothing reads them but the statements.
What the channel accepts and brings in a round is given to it.
-/

namespace Transfer

open Tunnel (Bytes)
open Run
open WoshSftp (SftpProtocol decodeResponse)

/-! ## The connection -/

/-- Where one outstanding request's answer will land. -/
inductive SlotState
  | pending
  | ready (r : WoshSftp.Response)
  | failed (e : String)
deriving DecidableEq

/-- A slot. -/
structure Waiter where
  /-- The id of the request. -/
  id : UInt32
  state : SlotState := .pending
  /-- The waiter has taken its answer. -/
  consumed : Bool := false
deriving DecidableEq

/-- The session's single SFTP connection (`Sftp`). -/
structure Connection where
  framer : WoshSftp.Framer := {}
  corr : WoshSftp.Correlator ℕ := {}
  /-- The ids that the correlator currently holds, in submission order. -/
  live : List UInt32 := []
  /-- Bytes encoded but not yet accepted by the channel. -/
  out : Bytes := []
  /-- What VERSION has said, once it has arrived. -/
  versionSeen : Option Bool := none
  /-- Set once the channel or the stream is unusable. -/
  dead : Option String := none
  /-- All slots that were handed out. -/
  slots : List Waiter := []

/-- The state of the channel. -/
inductive ChannelState
  | opened
  | eof
  | closed (reason : String)
deriving DecidableEq

/-- What the channel does in one round. -/
structure Round where
  /-- What each `write` accepts; after these, nothing. -/
  writes : List (Except String ℕ) := []
  /-- What each `drain` brings; after these, nothing. -/
  drains : List Bytes := []
  state : ChannelState := .opened
  /-- The core has produced output. -/
  coreOutput : Bool := false
deriving DecidableEq

namespace Connection

/-- Queue a request built around a freshly allocated id; the slot its answer will land in. -/
def submit (c : Connection) (build : UInt32 → Bytes) : ℕ × Connection :=
  let (id, corr) := c.corr.submit c.slots.length
  (c.slots.length, { c with
    corr := corr
    live := c.live ++ [id]
    out := c.out ++ build id
    slots := c.slots ++ [{ id }] })

/-- Queue a request; fails only when the connection is already dead (the function `submit`). -/
def request (c : Connection) (build : UInt32 → Bytes) : Except Halt (ℕ × Connection) :=
  match c.dead with
  | some reason => .error (.reanchor reason)
  | none => .ok (c.submit build)

/-- Put something into a slot. -/
def fill (slots : List Waiter) (slot : ℕ) (state : SlotState) : List Waiter :=
  slots.modify slot fun w => { w with state := state }

/-- Fail the waiters of these ids. -/
def failAll (reason : String) :
    List UInt32 → WoshSftp.Correlator ℕ × List Waiter → WoshSftp.Correlator ℕ × List Waiter
  | [], (corr, slots) => (corr, slots)
  | id :: ids, (corr, slots) =>
    match corr.take id with
    | (.ok slot, corr) => failAll reason ids (corr, fill slots slot (.failed reason))
    | (.error _, corr) => failAll reason ids (corr, slots)

/-- Mark the connection unusable, and fail everything still waiting on it. The first reason is the
one kept. -/
def die (c : Connection) (reason : String) : Connection :=
  let reason := c.dead.getD reason
  let r := failAll reason c.live (c.corr, c.slots)
  { c with dead := some reason, live := [], corr := r.1, slots := r.2 }

/-- The framer has moved on. -/
def withFramer (c : Connection) (framer : WoshSftp.Framer) : Connection :=
  { c with framer := framer }

/-- Dying leaves the framer alone. -/
@[simp] theorem framer_die (c : Connection) (reason : String) : (c.die reason).framer = c.framer := rfl

/-- A response arrives for a request. One that nobody is waiting for is dropped. -/
def answer (c : Connection) (id : UInt32) (resp : WoshSftp.Response) : Connection :=
  let r := c.corr.take id
  { c with
    live := c.live.filter (· ≠ id)
    corr := r.2
    slots :=
      match r.1 with
      | .ok slot => fill c.slots slot (.ready resp)
      | .error _ => c.slots }

section Deliver

variable [SftpProtocol]

/-- Route one decoded packet to the request that asked for it. -/
def deliver (c : Connection) (body : Bytes) : Connection :=
  match decodeResponse body with
  | .ok (.version limits) => { c with versionSeen := some limits }
  | .ok resp =>
    match resp.requestId with
    | none => c
    | some id => c.answer id resp
  | .error e => c.die ("sftp: " ++ e.text)

/-- Write until the channel refuses; whether anything moved. -/
def writeOut : List (Except String ℕ) → Connection → Bool × Connection
  | [], c => (false, c)
  | w :: ws, c =>
    if c.out = [] ∨ c.dead ≠ none then (false, c)
    else
      match w with
      | .ok 0 => (false, c)
      | .ok n => (true, (writeOut ws { c with out := c.out.drop n }).2)
      | .error e => writeOut ws (c.die ("sftp channel write: " ++ e))

/-- Drain until empty; whether anything came. -/
def drainIn : List Bytes → Connection → Bool × Connection
  | [], c => (false, c)
  | chunk :: chunks, c =>
    if chunk = [] then (false, c)
    else (true, (drainIn chunks { c with framer := c.framer.feed chunk }).2)

/-- Delivering leaves the framer alone. -/
@[simp] theorem framer_deliver (c : Connection) (body : Bytes) :
    (c.deliver body).framer = c.framer := by
  unfold deliver
  split
  · rfl
  · split <;> rfl
  · rfl

/-- Decode every complete packet; whether there was one. -/
def packets (c : Connection) : Bool × Connection :=
  match _h : c.framer.takePacket with
  | (.ok (some body), framer) => (true, (packets ((c.withFramer framer).deliver body)).2)
  | (.ok none, framer) => (false, c.withFramer framer)
  | (.error e, framer) => (false, (c.withFramer framer).die ("sftp framing: " ++ e.text))
termination_by c.framer.buf.length
decreasing_by
  rw [framer_deliver]
  exact WoshSftp.Framer.length_takePacket _h

/-- Only with the buffer drained is the channel's own state the truth about the far end. -/
def checkChannel (c : Connection) (state : ChannelState) : Connection :=
  if c.dead ≠ none then c
  else
    match state with
    | .opened => c
    | .eof => c.die "sftp channel: the server closed its end"
    | .closed reason => c.die ("sftp channel closed: " ++ reason)

/-- One round of moving bytes; whether anything at all happened. -/
def pumpRound (c : Connection) (r : Round) : Bool × Connection :=
  let (wrote, c) := writeOut r.writes c
  let (drained, c) := drainIn r.drains c
  let (delivered, c) := c.packets
  (wrote || drained || delivered || r.coreOutput, c.checkChannel r.state)

end Deliver

/-- A waiter looks into its slot: an answer is taken. `await_reply` leaves a failure where it is,
the loops of the engines take it too. -/
def look (leaveFailure : Bool) (w : Waiter) : Waiter :=
  match w.state with
  | .pending => w
  | .ready _ => { w with state := .pending, consumed := true }
  | .failed _ => if leaveFailure then w else { w with state := .pending, consumed := true }

end Connection

/-- What happens next. -/
inductive ConnectionAction
  | request (build : UInt32 → Bytes)
  | die (reason : String)
  | deliver (body : Bytes)
  | pump (r : Round)
  /-- The waiter of this slot looks into it. -/
  | look (slot : ℕ) (leaveFailure : Bool)

namespace Connection

/-- One step. A request that fails changes nothing. -/
def step [SftpProtocol] (c : Connection) : ConnectionAction → Option Connection
  | .request build =>
    match c.request build with
    | .ok r => some r.2
    | .error _ => some c
  | .die reason => some (c.die reason)
  | .deliver body => some (c.deliver body)
  | .pump r => some (c.pumpRound r).2
  | .look slot leaveFailure => some { c with slots := c.slots.modify slot (look leaveFailure) }

end Connection

/-! ## What lasts -/

namespace Connection

/-- The slots that were handed out are there, and a dead connection is dead for the reason it was. -/
structure Keeps (c c' : Connection) : Prop where
  slots : c'.slots.length = c.slots.length
  dead : ∀ reason, c.dead = some reason → c'.dead = some reason

variable {c c' c'' : Connection}

theorem Keeps.refl (c : Connection) : c.Keeps c := ⟨rfl, fun _ h => h⟩

theorem Keeps.trans (h : c.Keeps c') (h' : c'.Keeps c'') : c.Keeps c'' :=
  ⟨h'.slots.trans h.slots, fun reason hdead => h'.dead reason (h.dead reason hdead)⟩

/-- What is neither a slot nor a death changes nothing of it. -/
theorem Keeps.of_eq (hslots : c'.slots = c.slots) (hdead : c'.dead = c.dead) : c.Keeps c' :=
  ⟨congrArg List.length hslots, fun _ h => hdead.trans h⟩

/-- A connection that stays dead was dead. -/
theorem Keeps.ne_none (h : c.Keeps c') (hdead : c.dead ≠ none) : c'.dead ≠ none := by
  obtain ⟨reason, hreason⟩ := Option.ne_none_iff_exists'.1 hdead
  simp [h.dead reason hreason]

theorem length_failAll (reason : String) (ids : List UInt32) (corr : WoshSftp.Correlator ℕ)
    (slots : List Waiter) : (failAll reason ids (corr, slots)).2.length = slots.length := by
  induction ids generalizing corr slots with
  | nil => rfl
  | cons id ids ih =>
    rw [failAll]
    split
    · rw [ih, fill, List.length_modify]
    · rw [ih]

theorem dead_die (c : Connection) (reason : String) : (c.die reason).dead ≠ none := by
  simp [die]

theorem keeps_die (c : Connection) (reason : String) : c.Keeps (c.die reason) where
  slots := length_failAll _ _ _ _
  dead := by
    intro first hfirst
    simp [die, hfirst]

section Deliver

variable [SftpProtocol]

omit [SftpProtocol] in
theorem keeps_answer (c : Connection) (id : UInt32) (resp : WoshSftp.Response) :
    c.Keeps (c.answer id resp) := by
  refine ⟨?_, fun _ h => h⟩
  unfold answer
  dsimp only
  split
  · rw [fill, List.length_modify]
  · rfl

theorem keeps_deliver (c : Connection) (body : Bytes) : c.Keeps (c.deliver body) := by
  unfold deliver
  split
  · exact .of_eq rfl rfl
  · split
    · exact .refl c
    · exact keeps_answer c _ _
  · exact keeps_die c _

theorem keeps_foldl_deliver (bodies : List Bytes) (c : Connection) :
    c.Keeps (bodies.foldl deliver c) := by
  induction bodies generalizing c with
  | nil => exact .refl c
  | cons body bodies ih => exact (keeps_deliver c body).trans (ih _)

omit [SftpProtocol] in
theorem keeps_writeOut (ws : List (Except String ℕ)) (c : Connection) :
    c.Keeps (writeOut ws c).2 := by
  fun_induction writeOut ws c with
  | case1 => exact .refl _
  | case2 => exact .refl _
  | case3 => exact .refl _
  | case4 ws c _ n _ ih =>
    have hout : c.Keeps { c with out := c.out.drop n } := .of_eq rfl rfl
    exact hout.trans ih
  | case5 ws c _ e ih => exact (keeps_die c _).trans ih

omit [SftpProtocol] in
theorem keeps_drainIn (chunks : List Bytes) (c : Connection) : c.Keeps (drainIn chunks c).2 := by
  fun_induction drainIn chunks c with
  | case1 => exact .refl _
  | case2 => exact .refl _
  | case3 chunk chunks c _ ih =>
    have hfed : c.Keeps { c with framer := c.framer.feed chunk } := .of_eq rfl rfl
    exact hfed.trans ih

/-! ## A batch of packets -/

/-- Delivering has nothing to do with the framer. -/
theorem deliver_withFramer (c : Connection) (framer : WoshSftp.Framer) (body : Bytes) :
    (c.withFramer framer).deliver body = (c.deliver body).withFramer framer := by
  unfold deliver
  cases decodeResponse body with
  | error e => rfl
  | ok resp =>
    cases resp with
    | version limits => rfl
    | status | handle | data | name | attrs | extendedReply =>
      rfl

/-- What becomes of the error that ends them, if there is one. -/
def dieOf (c : Connection) : Option WoshSftp.Error → Connection
  | none => c
  | some e => c.die ("sftp framing: " ++ e.text)

/-- What becomes of the packets that a framer yields, and of the error that ends them. -/
def deliverAll (c : Connection) (d : List Bytes × Option WoshSftp.Error × WoshSftp.Framer) :
    Connection :=
  (d.1.foldl deliver (c.withFramer d.2.2)).dieOf d.2.1

/-- The first packet is delivered first, whatever is left in the framer then. -/
theorem deliverAll_cons (c : Connection) (framer : WoshSftp.Framer) (body : Bytes)
    (d : List Bytes × Option WoshSftp.Error × WoshSftp.Framer) :
    c.deliverAll (body :: d.1, d.2) = ((c.withFramer framer).deliver body).deliverAll d := by
  unfold deliverAll
  rw [List.foldl_cons, deliver_withFramer, deliver_withFramer]
  rfl

/-- A round delivers the packets that the framer yields, in order, and dies of the error that ends
them. -/
theorem packets_eq (c : Connection) : c.packets.2 = c.deliverAll c.framer.drained := by
  fun_induction packets c with
  | case1 c body framer h ih =>
    rw [WoshSftp.Framer.drained_cons h, deliverAll_cons c framer]
    rw [framer_deliver] at ih
    exact ih
  | case2 c framer h =>
    rw [WoshSftp.Framer.drained_none h]
    rfl
  | case3 c framer e h =>
    rw [WoshSftp.Framer.drained_error h]
    rfl

theorem keeps_packets (c : Connection) : c.Keeps c.packets.2 := by
  rw [packets_eq]
  have hframer : c.Keeps (c.withFramer c.framer.drained.2.2) := .of_eq rfl rfl
  have hfold := hframer.trans (keeps_foldl_deliver c.framer.drained.1 _)
  unfold deliverAll dieOf
  split
  · exact hfold
  · exact hfold.trans (keeps_die _ _)

omit [SftpProtocol] in
theorem keeps_checkChannel (c : Connection) (state : ChannelState) :
    c.Keeps (c.checkChannel state) := by
  unfold checkChannel
  split_ifs
  · exact .refl c
  · cases state with
    | opened => exact .refl c
    | eof => exact keeps_die c _
    | closed reason => exact keeps_die c _

theorem keeps_pumpRound (c : Connection) (r : Round) : c.Keeps (c.pumpRound r).2 :=
  (keeps_writeOut _ _).trans ((keeps_drainIn _ _).trans
    ((keeps_packets _).trans (keeps_checkChannel _ _)))

end Deliver

/-! ## The two sets of ids -/

/-- The ids in `live` are those that are pending, each under the slot of its request, and a slot that
waits is that of a request in flight. -/
structure Sound (c : Connection) : Prop where
  ids : ∀ i w, c.slots[i]? = some w → w.id = UInt32.ofNat i
  next : c.corr.ids.next = UInt32.ofNat c.slots.length
  pending : ∀ id i, c.corr.pending[id]? = some i ↔ id ∈ c.live ∧ i = id.toNat
  distinct : c.live.Nodup
  waits : ∀ id ∈ c.live, ∃ w, c.slots[id.toNat]? = some w ∧ w.state = .pending ∧ w.consumed = false
  inFlight : ∀ w ∈ c.slots, w.state = .pending → w.consumed = false → w.id ∈ c.live
  dead : c.dead ≠ none → c.live = []

theorem sound_start : ({} : Connection).Sound where
  ids := by simp
  next := rfl
  pending := by simp
  distinct := List.nodup_nil
  waits := by simp
  inFlight := by simp
  dead := by simp

/-- The slot of a request in flight is among those handed out. -/
theorem Sound.lt_length (h : c.Sound) {id : UInt32} (hid : id ∈ c.live) :
    id.toNat < c.slots.length := by
  obtain ⟨w, hw, -⟩ := h.waits id hid
  exact (List.getElem?_eq_some_iff.1 hw).1

/-- The id of a request is the number of its slot. -/
theorem Sound.toNat_id (h : c.Sound) (hfew : c.slots.length < 2 ^ 32) {i : ℕ} {w : Waiter}
    (hw : c.slots[i]? = some w) : w.id.toNat = i := by
  have hlt := (List.getElem?_eq_some_iff.1 hw).1
  rw [h.ids i w hw, UInt32.toNat_ofNat_of_lt']
  exact Nat.lt_trans hlt hfew

/-- What is neither a slot nor an id nor a death is not looked at. -/
theorem Sound.of_eq (h : c.Sound) (hcorr : c'.corr = c.corr) (hlive : c'.live = c.live)
    (hslots : c'.slots = c.slots) (hdead : c'.dead = c.dead) : c'.Sound := by
  obtain ⟨hids, hnext, hpending, hdistinct, hwaits, hflight, hd⟩ := h
  constructor
  · rwa [hslots]
  · rwa [hcorr, hslots]
  · rwa [hcorr, hlive]
  · rwa [hlive]
  · rwa [hlive, hslots]
  · rwa [hlive, hslots]
  · rwa [hdead, hlive]

/-- Some of the requests in flight are settled, and all of them if the connection dies. -/
theorem Sound.settle (h : c.Sound) (hfew : c.slots.length < 2 ^ 32) (p : UInt32 → Bool)
    (state : SlotState) (hstate : state ≠ .pending)
    (hlive : c'.live = c.live.filter fun id => !p id)
    (hpending : ∀ id, c'.corr.pending[id]? = if p id then none else c.corr.pending[id]?)
    (hnext : c'.corr.ids = c.corr.ids)
    (hslots : ∀ i : ℕ, c'.slots[i]? = c.slots[i]?.map fun w =>
      if p w.id = true ∧ w.id ∈ c.live then { w with state := state } else w)
    (hdead : c'.dead ≠ none → c'.live = []) : c'.Sound := by
  have hlen : c'.slots.length = c.slots.length := by
    apply Nat.le_antisymm
    · rw [← List.getElem?_eq_none_iff, hslots, List.getElem?_eq_none (Nat.le_refl _)]
      rfl
    · rw [← List.getElem?_eq_none_iff]
      have hnone := hslots c'.slots.length
      rw [List.getElem?_eq_none (Nat.le_refl _)] at hnone
      exact Option.map_eq_none_iff.1 hnone.symm
  have hback : ∀ (i : ℕ) w', c'.slots[i]? = some w' → ∃ w, c.slots[i]? = some w ∧
      w' = if p w.id = true ∧ w.id ∈ c.live then { w with state := state } else w := by
    intro i w' hw'
    rw [hslots] at hw'
    obtain ⟨w, hw, hsame⟩ := Option.map_eq_some_iff.1 hw'
    exact ⟨w, hw, hsame.symm⟩
  refine ⟨?_, ?_, ?_, ?_, ?_, ?_, hdead⟩
  · intro i w' hw'
    obtain ⟨w, hw, rfl⟩ := hback i w' hw'
    have hid := h.ids i w hw
    split_ifs
    · exact hid
    · exact hid
  · rw [hnext, hlen]
    exact h.next
  · intro id i
    rw [hpending, hlive, List.mem_filter]
    cases hp : p id with
    | true => simp
    | false => simpa using h.pending id i
  · rw [hlive]
    exact h.distinct.filter _
  · intro id hid
    rw [hlive, List.mem_filter] at hid
    obtain ⟨hmem, hnot⟩ := hid
    obtain ⟨w, hw, hpend, hcons⟩ := h.waits id hmem
    refine ⟨w, ?_, hpend, hcons⟩
    have hid : w.id = id := UInt32.toNat_inj.1 (h.toNat_id hfew hw)
    have hkept : ¬ (p w.id = true ∧ w.id ∈ c.live) := by
      rintro ⟨hp, -⟩
      rw [hid] at hp
      simp [hp] at hnot
    rw [hslots, hw, Option.map_some, if_neg hkept]
  · intro w' hw' hpend hcons
    obtain ⟨i, hi⟩ := List.getElem?_of_mem hw'
    obtain ⟨w, hw, hsame⟩ := hback i w' hi
    split_ifs at hsame with hsettled
    · rw [hsame] at hpend
      exact absurd hpend hstate
    · rw [hsame] at hpend hcons ⊢
      have hmem := h.inFlight w (List.mem_of_getElem? hw) hpend hcons
      rw [hlive, List.mem_filter]
      refine ⟨hmem, ?_⟩
      by_contra hp
      exact hsettled ⟨by simpa using hp, hmem⟩

/-! ## What each operation does -/

/-- A slot is filled, and no other. -/
theorem getElem?_fill (slots : List Waiter) (slot i : ℕ) (state : SlotState) :
    (fill slots slot state)[i]? =
      slots[i]?.map fun w => if slot = i then { w with state := state } else w := by
  rw [fill, List.getElem?_modify]
  split_ifs <;> simp

/-- What failing these requests does to the correlator and to the slots. -/
theorem failAll_spec (reason : String) (ids : List UInt32) (corr : WoshSftp.Correlator ℕ)
    (slots : List Waiter) (hdistinct : ids.Nodup)
    (hpending : ∀ id ∈ ids, corr.pending[id]? = some id.toNat) :
    (failAll reason ids (corr, slots)).1.ids = corr.ids ∧
    (∀ k, (failAll reason ids (corr, slots)).1.pending[k]? =
      if k ∈ ids then none else corr.pending[k]?) ∧
    ∀ i : ℕ, (failAll reason ids (corr, slots)).2[i]? = slots[i]?.map fun w =>
      if i ∈ ids.map UInt32.toNat then { w with state := .failed reason } else w := by
  induction ids generalizing corr slots with
  | nil => simp [failAll]
  | cons id ids ih =>
    obtain ⟨hnot, hdistinct⟩ := List.nodup_cons.1 hdistinct
    have htake : (corr.take id).1 = .ok id.toNat :=
      (corr.take_eq_ok).2 (hpending id List.mem_cons_self)
    have hrest : ∀ k ∈ ids, (corr.take id).2.pending[k]? = some k.toNat := by
      intro k hk
      have hne : id ≠ k := by
        rintro rfl
        exact hnot hk
      rw [WoshSftp.Correlator.getElem?_take, if_neg hne]
      exact hpending k (List.mem_cons_of_mem _ hk)
    have hstep : failAll reason (id :: ids) (corr, slots) =
        failAll reason ids ((corr.take id).2, fill slots id.toNat (.failed reason)) := by
      rw [failAll]
      split
      · rename_i slot corr' heq
        rw [heq] at htake ⊢
        cases htake
        rfl
      · rename_i e corr' heq
        rw [heq] at htake
        cases htake
    obtain ⟨hids, hpend, hslots⟩ := ih _ (fill slots id.toNat (.failed reason)) hdistinct hrest
    rw [hstep]
    refine ⟨hids.trans (WoshSftp.Correlator.next_take corr id), ?_, ?_⟩
    · intro k
      rw [hpend, WoshSftp.Correlator.getElem?_take]
      by_cases hk : k ∈ ids
      · simp [hk]
      · by_cases hid : id = k
        · simp [hid]
        · simp [hk, hid, Ne.symm hid]
    · intro i
      rw [hslots, getElem?_fill, Option.map_map]
      congr 1
      funext w
      by_cases hi : i ∈ ids.map UInt32.toNat
      · by_cases hid : id.toNat = i <;> simp [hi, hid]
      · by_cases hid : id.toNat = i
        · simp [hi, hid]
        · simp [hi, hid, Ne.symm hid]

/-- All that is in flight is pending. -/
theorem Sound.pending_live (h : c.Sound) {id : UInt32} (hid : id ∈ c.live) :
    c.corr.pending[id]? = some id.toNat :=
  (h.pending id _).2 ⟨hid, rfl⟩

/-- What is not in flight is not pending. -/
theorem Sound.pending_none (h : c.Sound) {id : UInt32} (hid : id ∉ c.live) :
    c.corr.pending[id]? = none := by
  by_contra hsome
  obtain ⟨i, hi⟩ := Option.ne_none_iff_exists'.1 hsome
  exact hid ((h.pending id i).1 hi).1

/-- A slot is that of a request in flight when its number is the id of one. -/
theorem Sound.mem_live_iff (h : c.Sound) (hfew : c.slots.length < 2 ^ 32) {i : ℕ} {w : Waiter}
    (hw : c.slots[i]? = some w) : i ∈ c.live.map UInt32.toNat ↔ w.id ∈ c.live := by
  have hid := h.toNat_id hfew hw
  constructor
  · intro hmem
    obtain ⟨id, hlive, hi⟩ := List.mem_map.1 hmem
    rwa [UInt32.toNat_inj.1 (hid.trans hi.symm)]
  · intro hlive
    exact List.mem_map.2 ⟨w.id, hlive, hid⟩

/-- Dying fails the waiters of all requests in flight. -/
theorem Sound.getElem?_die (h : c.Sound) (hfew : c.slots.length < 2 ^ 32) (reason : String) (i : ℕ) :
    (c.die reason).slots[i]? = c.slots[i]?.map fun w =>
      if w.id ∈ c.live then { w with state := .failed (c.dead.getD reason) } else w := by
  have hspec := failAll_spec (c.dead.getD reason) c.live c.corr c.slots h.distinct
    fun id hid => h.pending_live hid
  refine (hspec.2.2 i).trans ?_
  cases hw : c.slots[i]? with
  | none => rfl
  | some w =>
    rw [Option.map_some, Option.map_some]
    simp only [h.mem_live_iff hfew hw]

theorem Sound.die (h : c.Sound) (hfew : c.slots.length < 2 ^ 32) (reason : String) :
    (c.die reason).Sound := by
  have hspec := failAll_spec (c.dead.getD reason) c.live c.corr c.slots h.distinct
    fun id hid => h.pending_live hid
  refine h.settle hfew (fun _ => true) (.failed (c.dead.getD reason)) (by simp)
    (by simp [Connection.die]) ?_ hspec.1 ?_ fun _ => rfl
  · intro id
    rw [if_pos rfl]
    refine (hspec.2.1 id).trans ?_
    split_ifs with hid
    · rfl
    · exact h.pending_none hid
  · intro i
    simp only [h.getElem?_die hfew, true_and]

/-- A response fills the slot of its request, if that is in flight, and no other. -/
theorem Sound.getElem?_answer (h : c.Sound) (hfew : c.slots.length < 2 ^ 32) (id : UInt32)
    (resp : WoshSftp.Response) (i : ℕ) :
    (c.answer id resp).slots[i]? = c.slots[i]?.map fun w =>
      if w.id = id ∧ w.id ∈ c.live then { w with state := .ready resp } else w := by
  unfold answer
  dsimp only
  by_cases hid : id ∈ c.live
  · rw [(c.corr.take_eq_ok).2 (h.pending_live hid)]
    dsimp only
    rw [getElem?_fill]
    cases hw : c.slots[i]? with
    | none => rfl
    | some w =>
      have hiff : id.toNat = i ↔ w.id = id ∧ w.id ∈ c.live := by
        rw [← h.toNat_id hfew hw, UInt32.toNat_inj]
        constructor
        · rintro rfl
          exact ⟨rfl, hid⟩
        · rintro ⟨rfl, -⟩
          rfl
      simp only [Option.map_some, hiff]
  · rw [c.corr.take_eq_error (h.pending_none hid)]
    dsimp only
    cases hw : c.slots[i]? with
    | none => rfl
    | some w =>
      rw [Option.map_some, if_neg]
      rintro ⟨rfl, hlive⟩
      exact hid hlive

theorem Sound.answer (h : c.Sound) (hfew : c.slots.length < 2 ^ 32) (id : UInt32)
    (resp : WoshSftp.Response) : (c.answer id resp).Sound := by
  refine h.settle hfew (fun k => k = id) (.ready resp) (by simp) ?_ ?_
    (WoshSftp.Correlator.next_take c.corr id) ?_ ?_
  · simp [Connection.answer]
  · intro k
    refine (WoshSftp.Correlator.getElem?_take c.corr id k).trans ?_
    simp [eq_comm]
  · intro i
    simpa using h.getElem?_answer hfew id resp i
  · intro hdead
    simp [Connection.answer, h.dead hdead]

/-- A request is given the number of its slot for an id. -/
theorem Sound.submit (h : c.Sound) (hfew : c.slots.length < 2 ^ 32) (hopen : c.dead = none)
    (build : UInt32 → Bytes) : (c.submit build).2.Sound := by
  have hnew : (UInt32.ofNat c.slots.length).toNat = c.slots.length :=
    UInt32.toNat_ofNat_of_lt' hfew
  have hfresh : UInt32.ofNat c.slots.length ∉ c.live := by
    intro hmem
    have hlt := h.lt_length hmem
    omega
  have hid : (c.corr.submit c.slots.length).1 = UInt32.ofNat c.slots.length := h.next
  have hslots : (c.submit build).2.slots =
      c.slots ++ [{ id := UInt32.ofNat c.slots.length }] := by
    rw [← hid]
    rfl
  have hlive : (c.submit build).2.live = c.live ++ [UInt32.ofNat c.slots.length] := by
    rw [← hid]
    rfl
  refine ⟨?_, ?_, ?_, ?_, ?_, ?_, ?_⟩
  · intro i w hw
    rw [hslots, List.getElem?_append] at hw
    split_ifs at hw with hlt
    · exact h.ids i w hw
    · obtain ⟨hi, hsame⟩ := List.getElem?_eq_some_iff.1 hw
      rw [List.length_singleton] at hi
      rw [List.getElem_singleton] at hsame
      rw [← hsame, show i = c.slots.length by omega]
  · rw [hslots, List.length_append, List.length_singleton, UInt32.ofNat_add, ← h.next]
    rfl
  · intro id i
    refine (iff_of_eq (congrArg (· = some i)
      (c.corr.getElem?_submit c.slots.length id))).trans ?_
    rw [hlive, List.mem_append, List.mem_singleton, h.next]
    split_ifs with heq
    · subst heq
      rw [hnew]
      simp [hfresh, eq_comm]
    · rw [h.pending]
      simp [Ne.symm heq]
  · rw [hlive, ← List.concat_eq_append]
    exact List.Nodup.concat hfresh h.distinct
  · intro id hmem
    rw [hlive, List.mem_append, List.mem_singleton] at hmem
    rw [hslots]
    rcases hmem with hmem | rfl
    · obtain ⟨w, hw, hwaits⟩ := h.waits id hmem
      exact ⟨w, by rw [List.getElem?_append_left (h.lt_length hmem), hw], hwaits⟩
    · exact ⟨_, by rw [hnew, List.getElem?_concat_length], rfl, rfl⟩
  · intro w hw hpend hcons
    rw [hslots, List.mem_append, List.mem_singleton] at hw
    rw [hlive, List.mem_append, List.mem_singleton]
    rcases hw with hw | rfl
    · exact .inl (h.inFlight w hw hpend hcons)
    · exact .inr rfl
  · intro hdead
    exact absurd hopen hdead

/-- A waiter that looks into its slot takes nothing from a request in flight. -/
theorem Sound.look (h : c.Sound) (slot : ℕ) (leaveFailure : Bool) :
    ({ c with slots := c.slots.modify slot (look leaveFailure) } : Connection).Sound := by
  have hid : ∀ w, (Connection.look leaveFailure w).id = w.id := by
    intro w
    unfold Connection.look
    split
    · rfl
    · rfl
    · split_ifs <;> rfl
  have hpend : ∀ w, w.state = .pending → Connection.look leaveFailure w = w := by
    intro w hw
    simp [Connection.look, hw]
  have htaken : ∀ w, (Connection.look leaveFailure w).state = .pending →
      (Connection.look leaveFailure w).consumed = false → Connection.look leaveFailure w = w := by
    intro w
    unfold Connection.look
    split
    · simp
    · simp
    · split_ifs <;> simp
  have hslots : ∀ (i : ℕ) w', (c.slots.modify slot (Connection.look leaveFailure))[i]? = some w' →
      ∃ w, c.slots[i]? = some w ∧ (w' = w ∨ w' = Connection.look leaveFailure w) := by
    intro i w' hw'
    rw [List.getElem?_modify] at hw'
    split_ifs at hw' with hi
    · obtain ⟨w, hw, rfl⟩ := Option.map_eq_some_iff.1 hw'
      exact ⟨w, hw, .inr rfl⟩
    · exact ⟨w', by simpa using hw', .inl rfl⟩
  refine ⟨?_, ?_, h.pending, h.distinct, ?_, ?_, h.dead⟩
  · intro i w' hw'
    obtain ⟨w, hw, rfl | rfl⟩ := hslots i w' hw'
    · exact h.ids i _ hw
    · exact (hid w).trans (h.ids i w hw)
  · rw [List.length_modify]
    exact h.next
  · intro id hmem
    obtain ⟨w, hw, hwaits⟩ := h.waits id hmem
    refine ⟨w, ?_, hwaits⟩
    rw [List.getElem?_modify, hw]
    split_ifs
    · simp [hpend w hwaits.1]
    · rfl
  · intro w' hw' hstate hcons
    obtain ⟨i, hi⟩ := List.getElem?_of_mem hw'
    obtain ⟨w, hw, rfl | rfl⟩ := hslots i w' hi
    · exact h.inFlight _ (List.mem_of_getElem? hw) hstate hcons
    · have hsame := htaken w hstate hcons
      rw [hsame] at hstate hcons ⊢
      exact h.inFlight w (List.mem_of_getElem? hw) hstate hcons

section Deliver

variable [SftpProtocol]

/-- A response is delivered to its request. -/
theorem deliver_eq_answer {body : Bytes} {resp : WoshSftp.Response} {id : UInt32}
    (h : decodeResponse body = .ok resp) (hid : resp.requestId = some id) :
    c.deliver body = c.answer id resp := by
  cases resp with
  | version => cases hid
  | status | handle | data | name | attrs | extendedReply =>
    cases hid
    simp only [deliver, h, WoshSftp.Response.requestId]

/-- VERSION answers no request. -/
theorem deliver_of_requestId_none {body : Bytes} {resp : WoshSftp.Response}
    (h : decodeResponse body = .ok resp) (hid : resp.requestId = none) :
    (c.deliver body).slots = c.slots := by
  cases resp with
  | version => simp only [deliver, h]
  | status | handle | data | name | attrs | extendedReply => cases hid

/-- A packet that cannot be decoded kills the connection. -/
theorem deliver_eq_die {body : Bytes} {e : WoshSftp.Error} (h : decodeResponse body = .error e) :
    c.deliver body = c.die ("sftp: " ++ e.text) := by
  simp only [deliver, h]

theorem Sound.deliver (h : c.Sound) (hfew : c.slots.length < 2 ^ 32) (body : Bytes) :
    (c.deliver body).Sound := by
  unfold Connection.deliver
  split
  · exact h.of_eq rfl rfl rfl rfl
  · split
    · exact h
    · exact h.answer hfew _ _
  · exact h.die hfew _

theorem Sound.foldl_deliver (h : c.Sound) (hfew : c.slots.length < 2 ^ 32) (bodies : List Bytes) :
    (bodies.foldl Connection.deliver c).Sound := by
  induction bodies generalizing c with
  | nil => exact h
  | cons body bodies ih =>
    exact ih (h.deliver hfew body) (by rw [(keeps_deliver c body).slots]; exact hfew)

omit [SftpProtocol] in
theorem Sound.writeOut (h : c.Sound) (hfew : c.slots.length < 2 ^ 32)
    (ws : List (Except String ℕ)) : (Connection.writeOut ws c).2.Sound := by
  fun_induction Connection.writeOut ws c with
  | case1 => exact h
  | case2 => exact h
  | case3 => exact h
  | case4 ws c _ n _ ih => exact ih (h.of_eq rfl rfl rfl rfl) hfew
  | case5 ws c _ e ih =>
    exact ih (h.die hfew _) (by rw [(keeps_die c _).slots]; exact hfew)

omit [SftpProtocol] in
theorem Sound.drainIn (h : c.Sound) (chunks : List Bytes) : (Connection.drainIn chunks c).2.Sound := by
  fun_induction Connection.drainIn chunks c with
  | case1 => exact h
  | case2 => exact h
  | case3 chunk chunks c _ ih => exact ih (h.of_eq rfl rfl rfl rfl)

theorem Sound.packets (h : c.Sound) (hfew : c.slots.length < 2 ^ 32) : c.packets.2.Sound := by
  have hframer : (c.withFramer c.framer.drained.2.2).Sound := h.of_eq rfl rfl rfl rfl
  have hfold := hframer.foldl_deliver hfew c.framer.drained.1
  rw [packets_eq]
  unfold deliverAll dieOf
  split
  · exact hfold
  · exact hfold.die (by rw [(keeps_foldl_deliver _ _).slots]; exact hfew) _

omit [SftpProtocol] in
theorem Sound.checkChannel (h : c.Sound) (hfew : c.slots.length < 2 ^ 32) (state : ChannelState) :
    (c.checkChannel state).Sound := by
  unfold Connection.checkChannel
  split_ifs
  · exact h
  · cases state with
    | opened => exact h
    | eof => exact h.die hfew _
    | closed reason => exact h.die hfew _

theorem Sound.pumpRound (h : c.Sound) (hfew : c.slots.length < 2 ^ 32) (r : Round) :
    (c.pumpRound r).2.Sound := by
  have hwrote := keeps_writeOut r.writes c
  have hdrained := hwrote.trans (keeps_drainIn r.drains _)
  have hpackets := hdrained.trans (keeps_packets _)
  refine (((h.writeOut hfew r.writes).drainIn r.drains).packets ?_).checkChannel ?_ r.state
  · rw [hdrained.slots]
    exact hfew
  · rw [hpackets.slots]
    exact hfew

/-- What a step does to the slots that were handed out. -/
theorem length_step {a : ConnectionAction} (h : c.step a = some c') :
    c.slots.length ≤ c'.slots.length := by
  cases a with
  | request build =>
    simp only [step, request] at h
    cases hdead : c.dead with
    | none =>
      rw [hdead] at h
      cases h
      simp [Connection.submit]
    | some reason =>
      rw [hdead] at h
      cases h
      exact Nat.le_refl _
  | die reason =>
    cases h
    exact (keeps_die c reason).slots.ge
  | deliver body =>
    cases h
    exact (keeps_deliver c body).slots.ge
  | pump r =>
    cases h
    exact (keeps_pumpRound c r).slots.ge
  | look slot leaveFailure =>
    cases h
    simp

/-- A dead connection stays dead, for the same reason, and hands out no slot. -/
theorem keeps_step {a : ConnectionAction} (hdead : c.dead ≠ none) (h : c.step a = some c') :
    c.Keeps c' := by
  cases a with
  | request build =>
    obtain ⟨reason, hreason⟩ := Option.ne_none_iff_exists'.1 hdead
    simp only [step, request, hreason, Option.some.injEq] at h
    subst h
    exact .refl c
  | die reason =>
    cases h
    exact keeps_die c reason
  | deliver body =>
    cases h
    exact keeps_deliver c body
  | pump r =>
    cases h
    exact keeps_pumpRound c r
  | look slot leaveFailure =>
    cases h
    exact ⟨by simp, fun _ h => h⟩

/-- Along a run, too. -/
theorem keeps_run {as : List ConnectionAction} (hdead : c.dead ≠ none)
    (h : run step c as = some c') : c.Keeps c' := by
  have hkept : c.Keeps c' ∧ c'.dead ≠ none := by
    refine run_inv_of_step (P := fun t => c.Keeps t ∧ t.dead ≠ none) ?_ ⟨.refl c, hdead⟩ h
    rintro s a s' ⟨hs, hsdead⟩ hstep
    have hstep' := keeps_step hsdead hstep
    exact ⟨hs.trans hstep', hstep'.ne_none hsdead⟩
  exact hkept.1

/-- Every step keeps the two sets of ids in agreement. -/
theorem Sound.step (h : c.Sound) (hfew : c.slots.length < 2 ^ 32) {a : ConnectionAction}
    (hstep : c.step a = some c') : c'.Sound := by
  cases a with
  | request build =>
    simp only [Connection.step, Connection.request] at hstep
    cases hdead : c.dead with
    | none =>
      rw [hdead] at hstep
      cases hstep
      exact h.submit hfew hdead build
    | some reason =>
      rw [hdead] at hstep
      cases hstep
      exact h
  | die reason =>
    cases hstep
    exact h.die hfew reason
  | deliver body =>
    cases hstep
    exact h.deliver hfew body
  | pump r =>
    cases hstep
    exact h.pumpRound hfew r
  | look slot leaveFailure =>
    cases hstep
    exact h.look slot leaveFailure

theorem sound_run {as : List ConnectionAction} (hrun : run step {} as = some c)
    (hfew : c.slots.length < 2 ^ 32) : c.Sound := by
  refine run_inv_of_step (P := fun s => s.slots.length < 2 ^ 32 → s.Sound) ?_
    (fun _ => sound_start) hrun hfew
  intro s a s' hs hstep hfew'
  have hlen := length_step hstep
  exact (hs (by omega)).step (by omega) hstep

/-! ## Every answer reaches its waiter -/

/-- The framer once a round has drained the channel. -/
def received (c : Connection) (r : Round) : WoshSftp.Framer :=
  (r.drains.takeWhile (· ≠ [])).foldl WoshSftp.Framer.feed c.framer

omit [SftpProtocol] in
theorem framer_writeOut (ws : List (Except String ℕ)) (c : Connection) :
    (writeOut ws c).2.framer = c.framer := by
  fun_induction writeOut ws c with
  | case1 => rfl
  | case2 => rfl
  | case3 => rfl
  | case4 ws c _ n _ ih => exact ih
  | case5 ws c _ e ih => exact ih

omit [SftpProtocol] in
theorem framer_drainIn (chunks : List Bytes) (c : Connection) :
    (drainIn chunks c).2.framer = (chunks.takeWhile (· ≠ [])).foldl WoshSftp.Framer.feed c.framer := by
  fun_induction drainIn chunks c with
  | case1 => rfl
  | case2 => simp
  | case3 chunk chunks c hne ih =>
    rw [List.takeWhile_cons_of_pos (by simpa using hne)]
    exact ih

/-- A batch with a packet that cannot be decoded kills the connection. -/
theorem dead_foldl_deliver {bodies : List Bytes} {body : Bytes} {e : WoshSftp.Error}
    (hmem : body ∈ bodies) (h : decodeResponse body = .error e) (c : Connection) :
    (bodies.foldl deliver c).dead ≠ none := by
  obtain ⟨before, behind, rfl⟩ := List.append_of_mem hmem
  rw [List.foldl_append, List.foldl_cons, deliver_eq_die h]
  exact (keeps_foldl_deliver behind _).ne_none (dead_die _ _)

/-- So does one that ends in an error of the framer. -/
theorem dead_pumpRound (c : Connection) (r : Round)
    (h : (c.received r).drained.2.1 ≠ none ∨
      ∃ body ∈ (c.received r).drained.1, ∃ e, decodeResponse body = .error e) :
    (c.pumpRound r).2.dead ≠ none := by
  have hframer : (drainIn r.drains (writeOut r.writes c).2).2.framer = c.received r := by
    rw [framer_drainIn, framer_writeOut]
    rfl
  refine (keeps_checkChannel _ r.state).ne_none ?_
  show (packets (drainIn r.drains (writeOut r.writes c).2).2).2.dead ≠ none
  rw [packets_eq, hframer]
  unfold deliverAll
  rcases h with herror | ⟨body, hmem, e, hbody⟩
  · obtain ⟨e, he⟩ := Option.ne_none_iff_exists'.1 herror
    rw [he]
    exact dead_die _ _
  · have hdead := dead_foldl_deliver hmem hbody
    unfold dieOf
    split
    · exact hdead _
    · exact dead_die _ _

/-- Every answer reaches its waiter, and nobody else; and a connection that is dead leaves nobody
waiting. -/
structure Exact (c : Connection) : Prop where
  /-- The ids in `live` are the pending ones. -/
  live : ∀ id, id ∈ c.live ↔ c.corr.pending[id]? ≠ none
  once : c.live.Nodup
  /-- No two requests have one id. -/
  ids : ∀ (i j : ℕ) v w, c.slots[i]? = some v → c.slots[j]? = some w → v.id = w.id → i = j
  /-- A response changes the slot of the request in flight that carries its id, and no other; one for
  any other id changes none. -/
  answers : ∀ body resp id, decodeResponse body = .ok resp → resp.requestId = some id →
    ∀ i : ℕ, (c.deliver body).slots[i]? = c.slots[i]?.map fun w =>
      if w.id = id ∧ id ∈ c.live then { w with state := .ready resp } else w
  version : ∀ body resp, decodeResponse body = .ok resp → resp.requestId = none →
    (c.deliver body).slots = c.slots
  /-- Once it is dead, every waiter has an answer or has taken it. -/
  failed : c.dead ≠ none → ∀ w ∈ c.slots, w.consumed = false → w.state ≠ .pending
  /-- It is then refused, for the reason it died of, from there on. -/
  refused : ∀ reason, c.dead = some reason → ∀ as c', run step c as = some c' →
    c'.dead = some reason ∧ c'.slots.length = c.slots.length ∧
      ∀ build, c'.request build = .error (.reanchor reason)
  /-- A packet that cannot be decoded or framed kills it. -/
  undecodable : ∀ body e, decodeResponse body = .error e → (c.deliver body).dead ≠ none
  unframed : ∀ r, ((c.received r).drained.2.1 ≠ none ∨
      ∃ body ∈ (c.received r).drained.1, ∃ e, decodeResponse body = .error e) →
    (c.pumpRound r).2.dead ≠ none

/-- A connection whose two sets of ids agree is exact. -/
theorem Sound.exact (h : c.Sound) (hfew : c.slots.length < 2 ^ 32) : c.Exact where
  live := by
    intro id
    constructor
    · intro hid
      simp [h.pending_live hid]
    · intro hsome
      by_contra hid
      exact hsome (h.pending_none hid)
  once := h.distinct
  ids := by
    intro i j v w hv hw hid
    rw [← h.toNat_id hfew hv, ← h.toNat_id hfew hw, hid]
  answers := by
    intro body resp id hresp hid i
    rw [deliver_eq_answer hresp hid, h.getElem?_answer hfew]
    congr 1
    funext w
    by_cases hw : w.id = id
    · subst hw
      rfl
    · simp [hw]
  version := fun body resp hresp hid => deliver_of_requestId_none hresp hid
  failed := by
    intro hdead w hw hcons hpend
    have hmem := h.inFlight w hw hpend hcons
    simp [h.dead hdead] at hmem
  refused := by
    intro reason hreason as c' hrun
    have hkept := keeps_run (by simp [hreason]) hrun
    have hdead := hkept.dead reason hreason
    exact ⟨hdead, hkept.slots, fun build => by simp [request, hdead]⟩
  undecodable := by
    intro body e he
    rw [deliver_eq_die he]
    exact dead_die c _
  unframed := fun r hr => dead_pumpRound c r hr

end Deliver

end Connection

/-- What an engine sees of a connection is enough to tell whether a request is queued on it. -/
theorem submit_eq_request {env : Env} {sftp : Sftp} {c : Connection} (hsftp : env.sftp = some sftp)
    (hdead : sftp.dead = c.dead) (build : UInt32 → Bytes) :
    Transfer.submit env = (c.request build).map fun _ => () := by
  unfold Transfer.submit Connection.request
  rw [hsftp]
  dsimp only
  rw [hdead]
  cases c.dead <;> rfl

end Transfer
