import Wosh.Listener.Pairing

set_option relaxedAutoImplicit false
set_option autoImplicit false

/-!
# The listener

The accept loop of `listener-core/src/lib.rs` with its connections: those of protocol v1, which are
bridged to the target, and those of v2 and v3, which start a session or resume one. All sessions
share one registry, and all connections one set of paired devices, which a store keeps across
restarts.

## Main definitions

* `Listener.Conn` — a connection and how far it has been served.
* `Listener.Host` — a run of the listener: its configuration, connections and sessions.
* `Listener.Host.serveConnection`, `Listener.Host.serveV2` — the verdict on a connection.
* `Listener.HostAction`, `Listener.Host.step` — the transition function.

## Design

A session is a `World`; its connection tasks are the connections that reached it. The sessions of a
run are never removed from the list: which of them are live is what the registry says, under whose
key the last one with an id is found. A line is appended to the store whole or not at all. What the
tasks log is not modelled.
-/

namespace Listener

open Tunnel

/-- The ALPN of protocol v2 (`ALPN_V2`): `wosh/2`. -/
def alpnV2 : Bytes := [119, 111, 115, 104, 47, 50]

/-- The ALPN of protocol v3 (`ALPN_V3`): `wosh/3`. -/
def alpnV3 : Bytes := [119, 111, 115, 104, 47, 51]

/-! ## State -/

/-- How far a connection has been served. -/
inductive ConnPc
  /-- Awaiting `accept_bi`. -/
  | accepting
  /-- Awaiting its pairing frame, or its hello. -/
  | reading
  /-- In `tcp::forward`, with the bytes read past the pairing frame. -/
  | forwarding (leading : Bytes)
  /-- In `start_session`, connecting to the target; the rest is in its decoder. -/
  | starting (dec : Bytes)
  /-- Task `k` of session `i`. -/
  | serving (i k : ℕ)
  /-- Awaiting `refuse`. -/
  | refusing (reason : String)
  | done
deriving DecidableEq

/-- The functions that a connection reaches once it is admitted. -/
inductive Entry
  /-- `tcp::forward`. -/
  | forward
  /-- `start_session`. -/
  | start
  /-- `resume_session`. -/
  | resume
deriving DecidableEq

/-- A connection. -/
structure Conn where
  /-- The endpoint id that was authenticated (`conn.peer()`). -/
  peer : Bytes
  /-- The ALPN that was negotiated. -/
  alpn : Bytes
  /-- What was read of its handshake. -/
  buf : Bytes := []
  pc : ConnPc := .accepting
  /-- History: what it reached. -/
  entry : Option Entry := none
deriving DecidableEq

/-- The connection speaks protocol v2 or v3. -/
def Conn.framed (conn : Conn) : Bool := conn.alpn = alpnV2 ∨ conn.alpn = alpnV3

/-- A run of the listener. -/
structure Host where
  /-- The pairing token; `none` in open mode. -/
  token : Option Bytes
  /-- The endpoint id of the listener. -/
  listenerId : Bytes
  /-- `--resume-grace`. -/
  grace : ℕ
  /-- The paired devices. -/
  paired : List String
  /-- The paired-device store. -/
  file : List String
  conns : List Conn := []
  sessions : List World := []
  reg : Registry := {}
deriving DecidableEq

namespace Host

/-- A listener that starts; the devices it knows are those of its store, if it can be read. -/
def boot (token : Option Bytes) (listenerId : Bytes) (grace : ℕ) (file : List String)
    (readable : Bool) : Host where
  token := token
  listenerId := listenerId
  grace := grace
  paired := if readable then load file else []
  file := file

/-- A connection moves on. -/
def setConn (h : Host) (c : ℕ) (pc : ConnPc) : Host :=
  { h with conns := h.conns.modify c fun conn => { conn with pc := pc } }

/-- A connection reaches one of the functions behind the verdict. -/
def enter (h : Host) (c : ℕ) (entry : Entry) : Host :=
  { h with conns := h.conns.modify c fun conn => { conn with entry := some entry } }

/-- `tcp::forward` is called. -/
def forward (h : Host) (c : ℕ) (leading : Bytes) : Host :=
  (h.enter c .forward).setConn c (.forwarding leading)

/-! ## Sessions -/

/-- Session `i` is the one its id stands for in `Registry.live`. -/
def isLive (h : Host) (i : ℕ) : Bool :=
  match h.sessions[i]? with
  | some w => h.reg.live.contains w.id && (h.sessions.drop (i + 1)).all fun v => v.id ≠ w.id
  | none => false

/-- The session that is live under an id. -/
def lookup (h : Host) (id : SessionId) : Option ℕ :=
  (List.range h.sessions.length).find? fun i =>
    h.isLive i ∧ (h.sessions[i]?.map World.id) = some id

/-- A task of session `i` makes a step. -/
def act [Postcard] (h : Host) (i : ℕ) (a : Action) : Option Host :=
  match h.sessions[i]? with
  | none => none
  | some w =>
    match { w with reg := h.reg }.step a with
    | none => none
    | some w' => some { h with sessions := h.sessions.set i w', reg := w'.reg }

/-- `start_session`, once the target has answered: the session is registered under a fresh id, and
its reply is about to be written. -/
def startSession (h : Host) (c : ℕ) (conn : Conn) (id : SessionId) (dec : Bytes) : Host :=
  let w := World.start id (encodeHex conn.peer) h.grace h.reg (conn.alpn = alpnV3) dec
  { h.setConn c (.serving h.sessions.length 0) with
    sessions := h.sessions ++ [w]
    reg := w.reg }

/-- `resume_session`, up to its first await. -/
def resumeSession [Postcard] (h : Host) (c : ℕ) (conn : Conn) (r : Resume) (dec : Bytes) :
    Option Host :=
  match h.lookup r.sessionId with
  | none => some (h.setConn c (.refusing (h.reg.epitaph r.sessionId)))
  | some i =>
    match h.sessions[i]? with
    | none => none
    | some w =>
      (h.act i (.resume (encodeHex conn.peer) r.received.toNat (conn.alpn = alpnV3) dec)).map
        fun h => h.setConn c (.serving i w.tasks.length)

/-! ## The verdict on a connection -/

/-- A device is enrolled; its line may or may not reach the store. -/
def enroll (h : Host) (peer : String) (persisted : Bool) : Host :=
  { h with
    paired := peer :: h.paired
    file := if persisted then h.file ++ [peer] else h.file }

/-- `serve_connection`, once the pairing frame was read. -/
def serveConnection [Hmac] (h : Host) (c : ℕ) (conn : Conn) (presented leading : Bytes)
    (persisted : Bool) : Host :=
  match h.token with
  | none => h.forward c leading
  | some want =>
    let peer := encodeHex conn.peer
    if peer ∈ h.paired then h.forward c leading
    else
      match peerProof conn.peer conn.alpn want h.listenerId with
      | .error _ => h.setConn c .done
      | .ok expected =>
        if presented = expected then (h.enroll peer persisted).forward c leading
        else h.setConn c .done

/-- The end of `serve_v2`: a new session, or an existing one. -/
def openSession [Postcard] (h : Host) (c : ℕ) (conn : Conn) (hello : Hello) (dec : Bytes) :
    Option Host :=
  match hello.resume with
  | none => some ((h.enter c .start).setConn c (.starting dec))
  | some r => (h.enter c .resume).resumeSession c conn r dec

/-- `serve_v2`, once the hello was read. -/
def serveV2 [Hmac] [Postcard] (h : Host) (c : ℕ) (conn : Conn) (hello : Hello) (dec : Bytes)
    (persisted : Bool) : Option Host :=
  match h.token with
  | none => h.openSession c conn hello dec
  | some want =>
    let peer := encodeHex conn.peer
    if peer ∈ h.paired then h.openSession c conn hello dec
    else
      match peerProof conn.peer conn.alpn want h.listenerId with
      | .error _ => some (h.setConn c .done)
      | .ok expected =>
        if hello.pairing = expected then (h.enroll peer persisted).openSession c conn hello dec
        else
          some (h.setConn c (.refusing ("pairing-required: this listener does not recognise this " ++
            "device; re-pair it with the token or link the listener printed")))

/-- A read of the handshake returns: of `read_pairing_frame` on a v1 connection, of `read_hello`
on the others. -/
def hear [Hmac] [Postcard] (h : Host) (c : ℕ) (conn : Conn) (r : ReadResult) (persisted : Bool) :
    Option Host :=
  match r with
  | .eof => some (h.setConn c .done)
  | .failed => some (h.setConn c .done)
  | .chunk b =>
    let buf := conn.buf ++ b
    let waits : Host :=
      { h with conns := h.conns.modify c fun conn => { conn with buf := buf } }
    if conn.framed then
      match nextFrame buf with
      | .ok (some (.hello hello, dec)) => h.serveV2 c conn hello dec persisted
      | .ok (some _) => some (h.setConn c .done)
      | .ok none => some waits
      | .error _ => some (h.setConn c .done)
    else
      match pairingFrame buf with
      | some (presented, leading) => some (h.serveConnection c conn presented leading persisted)
      | none => some waits

end Host

/-! ## Steps -/

/-- What happens next. -/
inductive HostAction
  /-- A connection is accepted. -/
  | accept (peer alpn : Bytes)
  /-- Its `accept_bi` returns. -/
  | opened (c : ℕ) (ok : Bool)
  /-- A read of its handshake returns; if that enrolls the device, its line is `persisted` or
  not. -/
  | heard (c : ℕ) (r : ReadResult) (persisted : Bool)
  /-- The target answered, and this is the id of the new session. -/
  | connected (c : ℕ) (id : SessionId)
  /-- The target did not answer. -/
  | unreachable (c : ℕ)
  /-- No id could be made. -/
  | noRandomness (c : ℕ)
  /-- A refusal was spoken. -/
  | refused (c : ℕ)
  /-- `tcp::forward` returns. -/
  | forwarded (c : ℕ)
  /-- A task of a session makes a step. -/
  | session (i : ℕ) (a : Action)
  /-- Time passes. -/
  | elapse (d : ℕ)
  /-- The listener is stopped, and started with another configuration. -/
  | restart (token : Option Bytes) (listenerId : Bytes) (grace : ℕ) (readable : Bool)
deriving DecidableEq

/-- The steps of a session that its own tasks make. -/
def Action.own : Action → Bool
  | .resume _ _ _ _ | .elapse _ | .otherEnded _ _ => false
  | _ => true

/-- One step of the listener. -/
def Host.step [Hmac] [Postcard] (h : Host) : HostAction → Option Host
  | .accept peer alpn => some { h with conns := h.conns ++ [{ peer, alpn }] }
  | .opened c ok =>
    match h.conns[c]? with
    | some conn =>
      if conn.pc = .accepting then some (h.setConn c (if ok then .reading else .done)) else none
    | none => none
  | .heard c r persisted =>
    match h.conns[c]? with
    | some conn => if conn.pc = .reading then h.hear c conn r persisted else none
    | none => none
  | .connected c id =>
    match h.conns[c]? with
    | some conn =>
      match conn.pc with
      | .starting dec => some (h.startSession c conn id dec)
      | _ => none
    | none => none
  | .unreachable c =>
    match h.conns[c]? with
    | some conn =>
      match conn.pc with
      | .starting _ => some (h.setConn c (.refusing "target unreachable"))
      | _ => none
    | none => none
  | .noRandomness c =>
    match h.conns[c]? with
    | some conn =>
      match conn.pc with
      | .starting _ => some (h.setConn c .done)
      | _ => none
    | none => none
  | .refused c =>
    match h.conns[c]? with
    | some conn =>
      match conn.pc with
      | .refusing _ => some (h.setConn c .done)
      | _ => none
    | none => none
  | .forwarded c =>
    match h.conns[c]? with
    | some conn =>
      match conn.pc with
      | .forwarding _ => some (h.setConn c .done)
      | _ => none
    | none => none
  | .session i a => if a.own then h.act i a else none
  | .elapse d =>
    some { h with sessions := h.sessions.map fun w => { w with now := w.now + d } }
  | .restart token listenerId grace readable =>
    some (Host.boot token listenerId grace h.file readable)

/-! ## What a step can be -/

/-- What a chunk makes of the proof that the handshake of a connection presents, if it completes
it. -/
def Conn.presents [Postcard] (conn : Conn) (b : Bytes) : Option Bytes :=
  if conn.framed then
    match nextFrame (conn.buf ++ b) with
    | .ok (some (.hello hello, _)) => some hello.pairing
    | _ => none
  else (pairingFrame (conn.buf ++ b)).map Prod.fst

namespace Host

/-- The verdict that admits a connection which presents a proof: the listener is open, it knows the
device, or the proof is right and the device is enrolled. -/
inductive Verdict [Hmac] (h : Host) (conn : Conn) (presented : Bytes) : Host → Prop
  | opens (htoken : h.token = none) : Verdict h conn presented h
  | knows (hpaired : encodeHex conn.peer ∈ h.paired) : Verdict h conn presented h
  | enrolls {want : Bytes} (persisted : Bool) (htoken : h.token = some want)
      (hlen : conn.peer.length = pubkeyLen)
      (hproof : presented = pairingProof want h.listenerId conn.peer conn.alpn) :
      Verdict h conn presented (h.enroll (encodeHex conn.peer) persisted)

/-- The steps of the listener. -/
inductive Moves [Hmac] [Postcard] (h : Host) : HostAction → Host → Prop
  | accepts (peer alpn : Bytes) :
      Moves h (.accept peer alpn) { h with conns := h.conns ++ [{ peer, alpn }] }
  /-- A connection moves on, and stays where it is or leaves the functions it reached. -/
  | turns {a : HostAction} (c : ℕ) (f : Conn → Conn)
      (hkeeps : ∀ conn, (f conn).peer = conn.peer ∧ (f conn).alpn = conn.alpn ∧
        (f conn).entry = conn.entry)
      (hpc : ∀ conn, h.conns[c]? = some conn → (∀ i k, conn.pc ≠ .serving i k) ∧
        ∀ i k, (f conn).pc ≠ .serving i k) :
      Moves h a { h with conns := h.conns.modify c f }
  | forwards {c : ℕ} {conn : Conn} {b presented leading : Bytes} {persisted : Bool} {u : Host}
      (hconn : h.conns[c]? = some conn) (hpc : conn.pc = .reading)
      (hpresents : conn.presents b = some presented) (hverdict : h.Verdict conn presented u) :
      Moves h (.heard c (.chunk b) persisted) (u.forward c leading)
  | starts {c : ℕ} {conn : Conn} {b presented dec : Bytes} {persisted : Bool} {u : Host}
      (hconn : h.conns[c]? = some conn) (hpc : conn.pc = .reading)
      (hpresents : conn.presents b = some presented) (hverdict : h.Verdict conn presented u) :
      Moves h (.heard c (.chunk b) persisted) ((u.enter c .start).setConn c (.starting dec))
  /-- A resume of a session that is not live. -/
  | misses {c : ℕ} {conn : Conn} {b presented : Bytes} {reason : String} {persisted : Bool}
      {u : Host} (hconn : h.conns[c]? = some conn) (hpc : conn.pc = .reading)
      (hpresents : conn.presents b = some presented) (hverdict : h.Verdict conn presented u) :
      Moves h (.heard c (.chunk b) persisted) ((u.enter c .resume).setConn c (.refusing reason))
  | resumes {c : ℕ} {conn : Conn} {b presented dec : Bytes} {persisted : Bool} {u : Host} {i : ℕ}
      {received : ℕ} {w w' : World} (hconn : h.conns[c]? = some conn) (hpc : conn.pc = .reading)
      (hpresents : conn.presents b = some presented) (hverdict : h.Verdict conn presented u)
      (hw : h.sessions[i]? = some w)
      (hstep : { w with reg := h.reg }.step
        (.resume (encodeHex conn.peer) received (conn.alpn = alpnV3) dec) = some w') :
      Moves h (.heard c (.chunk b) persisted)
        ({ u.enter c .resume with sessions := h.sessions.set i w', reg := w'.reg }.setConn c
          (.serving i w.tasks.length))
  | connects {c : ℕ} {conn : Conn} {dec : Bytes} (id : SessionId) (hconn : h.conns[c]? = some conn)
      (hpc : conn.pc = .starting dec) : Moves h (.connected c id) (h.startSession c conn id dec)
  | session {i : ℕ} {a : Action} {w w' : World} (hown : a.own = true)
      (hw : h.sessions[i]? = some w) (hstep : { w with reg := h.reg }.step a = some w') :
      Moves h (.session i a) { h with sessions := h.sessions.set i w', reg := w'.reg }
  | elapses (d : ℕ) :
      Moves h (.elapse d)
        { h with sessions := h.sessions.map fun w => { w with now := w.now + d } }
  | restarts (token : Option Bytes) (listenerId : Bytes) (grace : ℕ) (readable : Bool) :
      Moves h (.restart token listenerId grace readable)
        (Host.boot token listenerId grace h.file readable)

section Cases

variable [Hmac] [Postcard] {h h' : Host} {c : ℕ} {conn : Conn}

omit [Hmac] in
/-- A step of a session, from what `act` does. -/
theorem act_eq_some {i : ℕ} {a : Action} (hact : h.act i a = some h') :
    ∃ w w', h.sessions[i]? = some w ∧ { w with reg := h.reg }.step a = some w' ∧
      h' = { h with sessions := h.sessions.set i w', reg := w'.reg } := by
  unfold act at hact
  split at hact
  · cases hact
  · rename_i w hw
    split at hact
    · cases hact
    · rename_i w' hw'
      cases hact
      exact ⟨w, w', hw, hw', rfl⟩

omit [Postcard] in
/-- A verdict leaves the connections and the sessions alone. -/
theorem Verdict.same {presented : Bytes} {u : Host} (hv : h.Verdict conn presented u) :
    u.conns = h.conns ∧ u.sessions = h.sessions ∧ u.reg = h.reg := by
  cases hv <;> exact ⟨rfl, rfl, rfl⟩

/-- A connection that was admitted with a hello. -/
theorem openSession_cases {b presented dec : Bytes} {persisted : Bool} {u : Host} {hello : Hello}
    (hconn : h.conns[c]? = some conn) (hpc : conn.pc = .reading)
    (hpresents : conn.presents b = some presented) (hverdict : h.Verdict conn presented u)
    (hopen : u.openSession c conn hello dec = some h') :
    h.Moves (.heard c (.chunk b) persisted) h' := by
  obtain ⟨-, hsessions, hreg⟩ := hverdict.same
  unfold openSession at hopen
  split at hopen
  · cases hopen
    exact .starts hconn hpc hpresents hverdict
  · unfold resumeSession at hopen
    split at hopen
    · cases hopen
      exact .misses hconn hpc hpresents hverdict
    · rename_i i _
      split at hopen
      · cases hopen
      · rename_i w hw
        obtain ⟨v, hv, rfl⟩ := Option.map_eq_some_iff.1 hopen
        obtain ⟨w₀, w', hw₀, hstep, rfl⟩ := act_eq_some hv
        cases hw.symm.trans hw₀
        have hw' : h.sessions[i]? = some w := by rw [← hsessions]; exact hw
        have hstep' := hstep
        simp only [enter, hreg] at hstep'
        have heq : ({ u.enter c .resume with
            sessions := (u.enter c .resume).sessions.set i w', reg := w'.reg } : Host) =
            { u.enter c .resume with sessions := h.sessions.set i w', reg := w'.reg } := by
          simp only [enter, hsessions]
        rw [heq]
        exact .resumes hconn hpc hpresents hverdict hw' hstep'

/-- The verdict on a v1 connection. -/
theorem serveConnection_cases {b presented leading : Bytes} {persisted : Bool}
    (hconn : h.conns[c]? = some conn) (hpc : conn.pc = .reading)
    (hpresents : conn.presents b = some presented) :
    h.Moves (.heard c (.chunk b) persisted)
      (h.serveConnection c conn presented leading persisted) := by
  have hdrop : h.Moves (.heard c (.chunk b) persisted) (h.setConn c .done) :=
    .turns c _ (fun _ => ⟨rfl, rfl, rfl⟩) fun conn' h' => by
      cases hconn.symm.trans h'
      simp [hpc]
  unfold serveConnection
  split
  · rename_i htoken
    exact .forwards hconn hpc hpresents (.opens htoken)
  · rename_i want htoken
    dsimp only
    split_ifs with hpaired
    · exact .forwards hconn hpc hpresents (.knows hpaired)
    · unfold peerProof
      split_ifs with hlen
      · dsimp only
        split_ifs with hproof
        · exact .forwards hconn hpc hpresents (.enrolls persisted htoken hlen hproof)
        · exact hdrop
      · exact hdrop

/-- The verdict on a v2 or v3 connection. -/
theorem serveV2_cases {b dec : Bytes} {hello : Hello} {persisted : Bool}
    (hconn : h.conns[c]? = some conn) (hpc : conn.pc = .reading)
    (hpresents : conn.presents b = some hello.pairing)
    (hserve : h.serveV2 c conn hello dec persisted = some h') :
    h.Moves (.heard c (.chunk b) persisted) h' := by
  have hturns : ∀ pc : ConnPc, (∀ i k, pc ≠ .serving i k) →
      h.Moves (.heard c (.chunk b) persisted) (h.setConn c pc) := fun pc hne =>
    .turns c _ (fun _ => ⟨rfl, rfl, rfl⟩) fun conn' h' => by
      cases hconn.symm.trans h'
      simp [hpc, hne]
  unfold serveV2 at hserve
  split at hserve
  · rename_i htoken
    exact openSession_cases hconn hpc hpresents (.opens htoken) hserve
  · rename_i want htoken
    dsimp only at hserve
    split_ifs at hserve with hpaired
    · exact openSession_cases hconn hpc hpresents (.knows hpaired) hserve
    · unfold peerProof at hserve
      split_ifs at hserve with hlen
      · dsimp only at hserve
        split_ifs at hserve with hproof
        · exact openSession_cases hconn hpc hpresents (.enrolls persisted htoken hlen hproof) hserve
        · cases hserve
          exact hturns _ (by simp)
      · cases hserve
        exact hturns _ (by simp)

/-- **The cases of a step of the listener.** -/
theorem step_cases {a : HostAction} (hstep : h.step a = some h') : h.Moves a h' := by
  have hturns : ∀ {c conn} (f : Conn → Conn), h.conns[c]? = some conn →
      (∀ conn, (f conn).peer = conn.peer ∧ (f conn).alpn = conn.alpn ∧
        (f conn).entry = conn.entry) →
      (∀ i k, conn.pc ≠ .serving i k) → (∀ i k, (f conn).pc ≠ .serving i k) →
      h.Moves a { h with conns := h.conns.modify c f } := fun {c conn} f hconn hkeeps hold hnew =>
    .turns c f hkeeps fun conn' h' => by
      cases hconn.symm.trans h'
      exact ⟨hold, hnew⟩
  cases a with
  | accept peer alpn =>
    cases hstep
    exact .accepts peer alpn
  | opened c ok =>
    simp only [step] at hstep
    split at hstep
    · rename_i conn hconn
      by_cases hpc : conn.pc = .accepting
      · rw [if_pos hpc] at hstep
        cases hstep
        exact hturns _ hconn (fun _ => ⟨rfl, rfl, rfl⟩) (by simp [hpc]) (by cases ok <;> simp)
      · rw [if_neg hpc] at hstep
        cases hstep
    · cases hstep
  | heard c r persisted =>
    simp only [step] at hstep
    split at hstep
    · rename_i conn hconn
      split_ifs at hstep with hpc
      have hends : h.Moves (.heard c r persisted) (h.setConn c .done) :=
        hturns _ hconn (fun _ => ⟨rfl, rfl, rfl⟩) (by simp [hpc]) (by simp)
      have hwaits : ∀ buf, h.Moves (.heard c r persisted)
          { h with conns := h.conns.modify c fun conn => { conn with buf := buf } } := fun buf =>
        hturns _ hconn (fun _ => ⟨rfl, rfl, rfl⟩) (by simp [hpc]) (by simp [hpc])
      unfold hear at hstep
      split at hstep
      · cases hstep
        exact hends
      · cases hstep
        exact hends
      · rename_i b
        dsimp only at hstep
        by_cases hframed : conn.framed = true
        · rw [if_pos hframed] at hstep
          split at hstep
          · rename_i hello dec hnext
            refine serveV2_cases hconn hpc ?_ hstep
            simp [Conn.presents, hframed, hnext]
          · cases hstep
            exact hends
          · cases hstep
            exact hwaits _
          · cases hstep
            exact hends
        · rw [if_neg hframed] at hstep
          split at hstep
          · rename_i presented leading hframe
            cases hstep
            refine serveConnection_cases hconn hpc ?_
            simp [Conn.presents, hframed, hframe]
          · cases hstep
            exact hwaits _
    · cases hstep
  | connected c id =>
    simp only [step] at hstep
    split at hstep
    · rename_i conn hconn
      split at hstep
      · rename_i dec hpc
        cases hstep
        exact .connects id hconn hpc
      · cases hstep
    · cases hstep
  | unreachable c | noRandomness c | refused c | forwarded c =>
    simp only [step] at hstep
    split at hstep
    · rename_i conn hconn
      split at hstep
      · rename_i hpc
        cases hstep
        exact hturns _ hconn (fun _ => ⟨rfl, rfl, rfl⟩) (by simp [hpc]) (by simp)
      · cases hstep
    · cases hstep
  | session i a =>
    simp only [step] at hstep
    split_ifs at hstep with hown
    obtain ⟨w, w', hw, hw', rfl⟩ := act_eq_some hstep
    exact .session hown hw hw'
  | elapse d =>
    cases hstep
    exact .elapses d
  | restart token listenerId grace readable =>
    cases hstep
    exact .restarts token listenerId grace readable

end Cases

end Host

end Listener
