import Wosh.Ends.Link

set_option relaxedAutoImplicit false
set_option autoImplicit false

/-!
# From end to end

Along calm steps, whatever is lost, resumed or refused on the way, each end has been handed an initial
part of what the other produced: nothing twice, nothing out of order and nothing left out.

## Main definitions

* `Ends.Runs`, `Ends.Listens` — the invariants of the ends.
* `Ends.Serves` — a connection of the client and the task that serves it.
* `Ends.Linked` — the invariant of both.

## Main results

* `Ends.Linked.step` — a calm step keeps it.
* `Ends.delivered` — what each end was handed, along every calm run.
-/

namespace Ends

open Tunnel Slots

variable [Postcard]

/-! ## Replies -/

theorem streamData_mono {b b' : Bytes} (h : b <+: b') : streamData b <+: streamData b' := by
  obtain ⟨c, rfl⟩ := h
  exact streamData_prefix b c

/-- The session bytes of a wire. -/
theorem streamData_flatten {wire : List Bytes} (h : Spells wire) :
    streamData wire.flatten = dataOf wire := by
  have hall : decode wire = (heard wire, .ok []) := h.decode rfl
  rw [decode_eq_frames] at hall
  rw [streamData, hall, heard, dataOf, List.flatMap_assoc]
  rfl

/-- A reply that fits a frame comes first, and the rest follows it. -/
theorem frames_reply (hexact : Postcard.Exact) {r : HelloReply} (hfits : (Frame.reply r).Fits)
    (rest : Bytes) : (frames (encodeReply r ++ rest)).1 = .reply r :: (frames rest).1 := by
  have h := frames_encode_append hexact (List.forall_mem_singleton.2 hfits) rest
  rw [List.flatMap_singleton, encode] at h
  rw [h]
  rfl

theorem streamData_reply (hexact : Postcard.Exact) {r : HelloReply} (hfits : (Frame.reply r).Fits)
    {wire : List Bytes} (h : Spells wire) :
    streamData (encodeReply r ++ wire.flatten) = dataOf wire := by
  rw [← streamData_flatten h, streamData, frames_reply hexact hfits]
  rfl

/-- The first reply on a connection is the one that was written on it. -/
theorem told_reply (hexact : Postcard.Exact) {r : HelloReply} (hfits : (Frame.reply r).Fits)
    {conn : Client.Conn} {rest : Bytes} (htold : Client.Told conn)
    (hdown : conn.taken ++ conn.inbox <+: encodeReply r ++ rest) :
    ∃ p, r = .resumed p ∧ conn.peerReceived = p.toNat := by
  obtain ⟨fs, p, hfs, hnone, hp⟩ := htold
  have hall := hfs.trans ( frames_prefix hdown)
  rw [frames_reply hexact hfits] at hall
  refine ⟨p, ?_, hp⟩
  cases fs with
  | nil =>
    obtain ⟨heq, -⟩ := List.cons_prefix_cons.1 hall
    cases heq
    rfl
  | cons f fs =>
    obtain ⟨rfl, -⟩ := List.cons_prefix_cons.1 hall
    exact absurd (hnone _ List.mem_cons_self) (by simp [Client.isReply])

omit [Postcard] in
theorem length_putFrame (ty : UInt8) (payload : Bytes) :
    (putFrame ty payload).length = headerLen + payload.length := by
  simp [putFrame, headerLen]
  omega

/-- What a hello says is what is read of it, and nothing is left. -/
theorem greeted_hello (hexact : Postcard.Exact) {conn : Client.Conn} {hello hello' : Hello}
    {n : ℕ} {dec : Bytes} (hwire : conn.wire = []) (hhello : conn.hello = some (encodeHello hello))
    (hfits : (Frame.hello hello).Fits) (h : Link.greeted conn n = some (hello', dec)) :
    hello' = hello ∧ dec = [] := by
  unfold Link.greeted at h
  rw [hhello, hwire] at h
  dsimp only at h
  rw [List.flatten_nil, List.append_nil] at h
  split at h
  · rename_i hnext
    cases h
    have hwhole := nextFrame_encode hexact hfits []
    rw [List.append_nil, encode] at hwhole
    have hmore := nextFrame_framing.item_append ((encodeHello hello).drop n) hnext
    rw [List.take_append_drop, hwhole] at hmore
    simp only [Except.ok.injEq, Option.some.injEq, Prod.mk.injEq, Frame.hello.injEq] at hmore
    exact ⟨hmore.1.symm, (List.append_eq_nil_iff.1 hmore.2.symm).1⟩
  · cases h

/-! ## The invariant -/

/-- The casts of the client's replay buffer are exact below this. -/
def wide : ℕ := 2 ^ 32

/-- The invariant of the listener, when `o` is what the client produces. -/
structure Listens (o : Bytes) (w : Listener.World) : Prop where
  toClient : Listener.ToClient w
  toSshd : Listener.ToSshd o none w
  latest : w.Latest
  echoes : Listener.Echoes w

/-- The invariant of the client, when `i` is what sshd writes. -/
structure Runs (i : Bytes) (u : Client.World) : Prop where
  tasks : u.Tasks
  cut : u.Cut
  spells : ∀ c, Spells (u.wireOf c)
  decoding : u.Decoding
  inbound : u.Inbound i
  unanswered : u.Unanswered
  told : u.AllTold
  greets : u.Greets i.length
  outbound : (u.withUsize id).Outbound
  gapDead : u.GapDead
  /-- The first connection is the one that the session began with. -/
  first : ∃ conn, u.conns[0]? = some conn ∧ conn.installed = some 0

/-- A connection of the client, and the task that serves it. -/
structure Serves (st : Stream) (t : Listener.Task) (conn : Client.Conn) : Prop where
  hello : conn.hello.isSome = true
  resumeFrom : t.resumeFrom = conn.resumeFrom
  /-- What the task read was written by the client. -/
  up : t.arrived <+: conn.wire.flatten
  /-- What the client read was written by the task. -/
  down : conn.taken ++ conn.inbox <+: encodeReply st.reply ++ t.wire.flatten

/-- The streams of the tasks: the first serves the first connection, and each serves another. -/
structure Streamed (s : Link) : Prop where
  length : s.streams.length = s.listener.tasks.length
  first : ∃ id t, s.streams[0]? = some ⟨some 0, .new id⟩ ∧ s.listener.tasks[0]? = some t ∧
    t.received = 0 ∧ t.resumeFrom = 0
  distinct : ∀ {k k' c : ℕ} {st st' : Stream}, s.streams[k]? = some st → s.streams[k']? = some st' →
    st.conn = some c → st'.conn = some c → k = k'
  /-- A reply that goes on carries the count of its task. -/
  reply : ∀ {k : ℕ} {st : Stream} {t : Listener.Task}, s.streams[k]? = some st →
    s.listener.tasks[k]? = some t → ∀ p, st.reply = .resumed p → p.toNat = t.received

/-- The client has what its tasks wrote, and its tasks what it wrote. -/
structure Carries (s : Link) (u : Client.World) : Prop where
  serves : ∀ {k c : ℕ} {st : Stream} {t : Listener.Task}, s.streams[k]? = some st →
    s.listener.tasks[k]? = some t → st.conn = some c →
    ∃ conn, u.conns[c]? = some conn ∧ Serves st t conn
  idle : ∀ {c : ℕ} {conn : Client.Conn}, u.conns[c]? = some conn →
    (∀ st ∈ s.streams, st.conn ≠ some c) → conn.taken ++ conn.inbox = []

/-- Before the client is through with its handshake, no task has read anything of it. -/
structure Waits (s : Link) : Prop where
  arrived : ∀ t, s.listener.tasks[0]? = some t → t.arrived = []
  alone : ∀ {k c : ℕ} {st : Stream}, s.streams[k]? = some st → st.conn = some c → k = 0

/-- The invariant of both ends, when `o` is what the client produces and `i` what sshd writes. -/
structure Linked (o i : Bytes) (s : Link) : Prop where
  listens : Listens o s.listener
  streamed : Streamed s
  waits : s.client = none → Waits s
  runs : ∀ u, s.client = some u → Runs i u ∧ Carries s u

/-- What the ends produce is part of this, the replies fit a frame, and the client's casts are exact on
what it produces. -/
structure Within (o i : Bytes) (s : Link) : Prop where
  sshd : s.listener.sshd <+: i
  queued : ∀ u, s.client = some u → u.queued <+: o ∧ ∀ n < wide, u.usize n = n
  replies : ∀ st ∈ s.streams, (Frame.reply st.reply).Fits

variable {o i : Bytes} {s s' : Link} {u u' : Client.World} {w : Listener.World}

/-- What the listener wrote on a connection is what the task wrote that serves it. -/
theorem Streamed.toConn_eq (h : Streamed s) {k c : ℕ} {st : Stream} {t : Listener.Task}
    (hst : s.streams[k]? = some st) (ht : s.listener.tasks[k]? = some t) (hc : st.conn = some c) :
    s.toConn c = encodeReply st.reply ++ t.wire.flatten := by
  unfold Link.toConn
  have hzip : (s.streams.zip s.listener.tasks)[k]? = some (st, t) :=
    List.getElem?_zip_eq_some.2 ⟨hst, ht⟩
  split
  · rename_i st' t' hfind
    obtain ⟨k', hk'⟩ := List.getElem?_of_mem (List.mem_of_find?_eq_some hfind)
    obtain ⟨hst', ht'⟩ := List.getElem?_zip_eq_some.1 hk'
    have hc' : st'.conn = some c := by simpa using List.find?_some hfind
    obtain rfl := h.distinct hst hst' hc hc'
    cases hst.symm.trans hst'
    cases ht.symm.trans ht'
    rfl
  · rename_i hfind
    have hnot := List.find?_eq_none.1 hfind _ (List.mem_of_getElem? hzip)
    simp [hc] at hnot

/-- A connection that no task serves carries nothing. -/
theorem toConn_eq_nil {c : ℕ} (h : ∀ st ∈ s.streams, st.conn ≠ some c) : s.toConn c = [] := by
  unfold Link.toConn
  split
  · rename_i st t hfind
    have hmem := (List.of_mem_zip (List.mem_of_find?_eq_some hfind)).1
    exact absurd (by simpa using List.find?_some hfind) (h st hmem)
  · rfl

omit [Postcard] in
theorem toTask_eq {k c : ℕ} {st : Stream} {conn : Client.Conn} (hu : s.client = some u)
    (hst : s.streams[k]? = some st) (hc : st.conn = some c) (hconn : u.conns[c]? = some conn) :
    s.toTask k = conn.wire.flatten := by
  simp only [Link.toTask, hu, hst, Option.bind_some, hc, Client.World.wireOf_eq hconn]

/-! ## The client -/

namespace Runs

theorem wide_tasks (hr : Runs i u) : (u.withUsize id).Tasks := { hr.tasks with }

/-- **The client was told the count of the task that serves it.** -/
theorem peerReceived_eq (hr : Runs i u) (hexact : Postcard.Exact)
    (hreplies : ∀ st ∈ s.streams, (Frame.reply st.reply).Fits) (hs : Streamed s) {k c g : ℕ}
    {st : Stream} {t : Listener.Task} {conn : Client.Conn} (hst : s.streams[k]? = some st)
    (ht : s.listener.tasks[k]? = some t) (hc : st.conn = some c) (hconn : u.conns[c]? = some conn)
    (hserves : Serves st t conn) (hinst : conn.installed = some g) :
    conn.peerReceived = t.received := by
  cases g with
  | zero =>
    obtain ⟨conn₀, hconn₀, hinst₀⟩ := hr.first
    obtain rfl := hr.tasks.installed hconn hconn₀ hinst hinst₀
    obtain ⟨id, t₀, hst₀, ht₀, hzero, -⟩ := hs.first
    obtain rfl := hs.distinct hst hst₀ hc rfl
    cases ht.symm.trans ht₀
    rw [hzero]
    exact hr.outbound.first hconn hinst
  | succ g =>
    obtain ⟨p, hp, hpeer⟩ := told_reply hexact (hreplies st (List.mem_of_getElem? hst))
      (hr.told c g conn hconn hinst) hserves.down
    rw [hpeer]
    exact hs.reply hst ht p hp

/-- What was written on a connection follows the count of the task that serves it. -/
theorem sent (hr : Runs i u) (hexact : Postcard.Exact) (hin : Within o i s)
    (hu : s.client = some u) (hs : Streamed s) {k c : ℕ} {st : Stream} {t : Listener.Task}
    {conn : Client.Conn} (hst : s.streams[k]? = some st) (ht : s.listener.tasks[k]? = some t)
    (hc : st.conn = some c) (hconn : u.conns[c]? = some conn) (hserves : Serves st t conn) :
    streamData conn.wire.flatten <+: o.drop t.received := by
  cases hinst : conn.installed with
  | none =>
    have hwire : conn.wire = [] := hr.outbound.unwritten hconn hinst
    rw [hwire]
    exact List.nil_prefix
  | some g =>
    have hwritten : dataOf conn.wire <+: u.queued.drop conn.peerReceived :=
      (hr.outbound.intact hr.wide_tasks hr.gapDead).written c conn hconn (by simp [hinst])
    have hspells : Spells conn.wire := Client.World.wireOf_eq hconn ▸ hr.spells c
    rw [streamData_flatten hspells,
      ← hr.peerReceived_eq hexact hin.replies hs hst ht hc hconn hserves hinst]
    exact Resume.Fed.grow_of_isPrefix hwritten (hin.queued u hu).1

theorem step (hr : Runs i u) {l : Client.Label}
    (hans : Client.answers i u l = true) (hin : Client.resumesInStep u l = true)
    (hwhole : Client.startsWhole u l = true) (hexact : ∀ n < wide, u.usize n = n)
    (hshort : u.queued.length < wide) (hstep : u.step l = some u') : Runs i u' := by
  obtain ⟨hspeaks, hcut⟩ := Client.World.speaks_step hr.tasks.framed hr.cut hstep
  have hreceived : u.received ≤ i.length := by
    rw [hr.inbound.received]
    exact hr.inbound.fed.length_le
  obtain ⟨conn, hconn, hinst⟩ := hr.first
  obtain ⟨conn', hconn', hm⟩ := Client.World.exists_step hr.tasks hstep hconn
  exact {
    tasks := hr.tasks.step hstep
    cut := hcut
    spells := hspeaks.spells hr.spells
    decoding := hr.decoding.step hr.tasks hwhole hstep
    inbound := hr.inbound.step hr.decoding hr.tasks hans hin hwhole hstep
    unanswered := hr.unanswered.step hr.decoding hr.tasks hstep
    told := hr.told.step hr.unanswered hr.tasks hstep
    greets := hr.greets.step hr.tasks hreceived hstep
    outbound := (hr.outbound.step_narrow hr.wide_tasks hexact hshort hstep).2.2
    gapDead := hr.gapDead.step hstep
    first := ⟨conn', hconn', hm.installed hr.tasks hconn hinst⟩ }

/-- A client that is through with its first handshake. -/
theorem connect {d : Client.Dial} (hframed : d.proto.framed = true) {moves : List SshCore.Action}
    (hconn : Client.World.connect d moves = some u) (harrived : streamData d.arrived <+: i) :
    Runs i u := by
  obtain ⟨-, conn, hconns, hinst, -, -, -, hgap⟩ := Client.World.conns_connect hframed hconn
  obtain ⟨hunanswered, htold, hgreets⟩ := Client.World.streams_connect hframed hconn i.length
  obtain ⟨v, fs, dec, hbegun, hdrove⟩ := Client.World.begun_connect hframed hconn
  exact {
    tasks := Client.World.tasks_connect hframed hconn
    cut := Client.World.cut_connect hconn
    spells := fun c => by
      rw [Client.World.wireOf_connect hconn]
      exact spells_nil
    decoding := Client.World.decoding_connect hframed hconn
    inbound := (hbegun.inbound harrived).still hdrove.quiet hdrove.still
    unanswered := hunanswered
    told := htold
    greets := hgreets
    outbound := (Client.World.outbound_connect hframed hconn).2.2
    gapDead := fun c conn' hc hgap' => by
      rw [hconns] at hc
      obtain ⟨-, rfl⟩ := getElem?_singleton_eq_some hc
      cases hgap.symm.trans hgap'
    first := ⟨conn, by rw [hconns]; rfl, hinst⟩ }

end Runs

/-! ## What the client reads -/

omit [Postcard] in
/-- A task for every stream. -/
theorem Streamed.exists_task (h : Streamed s) {k : ℕ} {st : Stream} (hst : s.streams[k]? = some st) :
    ∃ t, s.listener.tasks[k]? = some t := by
  have hlt : k < s.streams.length := (List.getElem?_eq_some_iff.1 hst).1
  rw [h.length] at hlt
  exact ⟨_, List.getElem?_eq_getElem hlt⟩

/-- What arrives on a connection follows what had arrived there, in what was written on it. -/
theorem carried_down {l : Client.Label} {c : ℕ} {conn : Client.Conn}
    (hcarried : s.carriesDown u l = true) (hconn : u.conns[c]? = some conn)
    (hdown : conn.taken ++ conn.inbox <+: s.toConn c) :
    conn.taken ++ conn.inbox ++ l.arriving c <+: s.toConn c := by
  unfold Client.Label.arriving
  split
  · rename_i c' b hact
    split_ifs with hcc
    · subst hcc
      simp only [Link.carriesDown, hact, hconn, Bool.and_eq_true, Option.all_some] at hcarried
      exact List.isPrefixOf_iff_prefix.1 hcarried.2
    · rwa [List.append_nil]
  · rwa [List.append_nil]

/-- Nothing arrives on a connection that no task serves. -/
theorem arriving_eq_nil {l : Client.Label} {c : ℕ} (hcarried : s.carriesDown u l = true)
    (hidle : ∀ st ∈ s.streams, st.conn ≠ some c) : l.arriving c = [] := by
  unfold Client.Label.arriving
  split
  · rename_i c' b hact
    split_ifs with hcc
    · subst hcc
      simp only [Link.carriesDown, hact, Bool.and_eq_true] at hcarried
      obtain ⟨st, hst, hc⟩ := Link.serving_iff.1 hcarried.1
      exact absurd hc (hidle st hst)
    · rfl
  · rfl

namespace Linked

/-- **The listener answers with what sshd writes**, from the count that a hello asked for on. -/
theorem answers (h : Linked o i s) (hexact : Postcard.Exact) (hin : Within o i s)
    (hu : s.client = some u) {l : Client.Label} (hcarried : s.carriesDown u l = true) :
    Client.answers i u l = true := by
  unfold Client.answers
  split
  · rename_i c b hact
    split
    · rfl
    · rename_i conn hconn
      have hserved : s.serving c = true := by
        simp only [Link.carriesDown, hact, Bool.and_eq_true] at hcarried
        exact hcarried.1
      obtain ⟨st, hmem, hc⟩ := Link.serving_iff.1 hserved
      obtain ⟨k, hst⟩ := List.getElem?_of_mem hmem
      obtain ⟨t, ht⟩ := h.streamed.exists_task hst
      obtain ⟨conn', hconn', hserves⟩ := (h.runs u hu).2.serves hst ht hc
      cases hconn.symm.trans hconn'
      have harriving : l.arriving c = b := by simp [Client.Label.arriving, hact]
      have hdown := hserves.down
      rw [← h.streamed.toConn_eq hst ht hc] at hdown
      have hall := carried_down hcarried hconn hdown
      rw [harriving, h.streamed.toConn_eq hst ht hc] at hall
      have hdata := streamData_mono hall
      rw [streamData_reply hexact (hin.replies st hmem) (h.listens.echoes.wires k t ht)] at hdata
      have hfed : Resume.Fed t.resumeFrom (dataOf t.wire) i :=
        (h.listens.toClient.fed t (List.mem_of_getElem? ht)).grow_of_isPrefix
          (h.listens.toClient.recorded_sshd.trans hin.sshd)
      rw [Resume.Fed, hserves.resumeFrom] at hfed
      rw [hserves.hello, Bool.true_and, List.isPrefixOf_iff_prefix]
      exact hdata.trans hfed
  · rfl

end Linked

/-- A step of the client leaves on its connections what its tasks wrote, and writes after what it had
written. -/
theorem Carries.client (hcar : Carries s u) (hs : Streamed s) (hr : Runs i u) {l : Client.Label}
    (hcarried : s.carriesDown u l = true) (hstep : u.step l = some u') : Carries s u' where
  serves {k c st t} hst ht hc := by
    obtain ⟨conn, hconn, hserves⟩ := hcar.serves hst ht hc
    obtain ⟨conn', hconn', hm⟩ := Client.World.exists_step hr.tasks hstep hconn
    have hhello : conn'.hello = conn.hello ∧ conn'.resumeFrom = conn.resumeFrom := by
      rcases hm.hello with hsame | ⟨⟨j, loop, hloop, hpc⟩, -⟩
      · exact hsame
      · have hnone := hr.inbound.opening hloop hpc hconn
        have hsome := hserves.hello
        rw [hnone] at hsome
        cases hsome
    refine ⟨conn', hconn', ⟨by rw [hhello.1]; exact hserves.hello,
      hserves.resumeFrom.trans hhello.2.symm, hserves.up.trans ?_, ?_⟩⟩
    · obtain ⟨fs, hfs, -⟩ := (Client.World.speaks_step hr.tasks.framed hr.cut hstep).1 c
      rw [Client.World.wireOf_eq hconn', Client.World.wireOf_eq hconn] at hfs
      rw [hfs, List.flatten_append]
      exact List.prefix_append _ _
    · have hdown := hserves.down
      rw [← hs.toConn_eq hst ht hc] at hdown ⊢
      rw [hm.stream]
      exact carried_down hcarried hconn hdown
  idle {c conn'} hconn' hidle := by
    rcases (Client.World.moved_step hr.tasks hstep).2 c conn' hconn' with
      ⟨-, hnew⟩ | ⟨conn, hconn, hm⟩
    · rw [Client.Conn.Same] at hnew
      rw [hnew]
      rfl
    · rw [hm.stream, hcar.idle hconn hidle, arriving_eq_nil hcarried hidle]
      rfl

/-! ## What the listener reads -/

/-- **The client sends a task what it produces**, from the count that the task's reply carried on. -/
theorem Linked.faithful (h : Linked o i s) (hexact : Postcard.Exact) (hin : Within o i s)
    {a : Listener.Action} (hown : ∀ peer received pings dec, a ≠ .resume peer received pings dec)
    (hcarried : s.carriesUp a = true) : Listener.faithful o s.listener a = true := by
  unfold Listener.faithful
  split
  · exact absurd rfl (hown _ _ _ _)
  · rename_i k b
    split
    · rename_i t ht
      simp only [Link.carriesUp, ht, List.isPrefixOf_iff_prefix] at hcarried
      rw [List.isPrefixOf_iff_prefix]
      refine (streamData_mono hcarried).trans ?_
      cases hu : s.client with
      | none =>
        simp only [Link.toTask, hu]
        exact List.nil_prefix
      | some u =>
        cases hst : s.streams[k]? with
        | none =>
          simp only [Link.toTask, hu, hst, Option.bind_none]
          exact List.nil_prefix
        | some st =>
          cases hc : st.conn with
          | none =>
            simp only [Link.toTask, hu, hst, Option.bind_some, hc]
            exact List.nil_prefix
          | some c =>
            obtain ⟨hruns, hcar⟩ := h.runs u hu
            obtain ⟨conn, hconn, hserves⟩ := hcar.serves hst ht hc
            rw [toTask_eq hu hst hc hconn]
            exact hruns.sent hexact hin hu h.streamed hst ht hc hconn hserves
    · rfl
  · rfl

theorem Listens.step (h : Listens o w) {w' : Listener.World} {a : Listener.Action}
    (hundisturbed : Listener.undisturbed w a = true) (hunmoved : Listener.unmoved w a = true)
    (hfaithful : Listener.faithful o w a = true) (hstep : w.step a = some w') : Listens o w' where
  toClient := h.toClient.step hundisturbed hstep
  toSshd := h.toSshd.step hfaithful hunmoved hstep
  latest := h.latest.step hstep
  echoes := h.echoes.step h.latest hstep

section Listener

variable {a : Listener.Action}

omit [Postcard] in
theorem Streamed.listener (h : Streamed s) (hw : s.listener.Wents a w) :
    Streamed { s with listener := w } where
  length := h.length.trans hw.1.symm
  first := by
    obtain ⟨id, t, hst, ht, hreceived, hfrom⟩ := h.first
    have hlt : 0 < w.tasks.length := by
      rw [hw.1]
      exact (List.getElem?_eq_some_iff.1 ht).1
    have ht' := List.getElem?_eq_getElem hlt
    obtain ⟨t₀, ht₀, hwent⟩ := hw.2 0 _ ht'
    cases ht.symm.trans ht₀
    exact ⟨id, _, hst, ht', hwent.received.trans hreceived, hwent.resumeFrom.trans hfrom⟩
  distinct := h.distinct
  reply hst ht p hp := by
    obtain ⟨t, ht, hwent⟩ := hw.2 _ _ ht
    rw [hwent.received]
    exact h.reply hst ht p hp

/-- A step of the listener reads what the client wrote, and writes after what it had written. -/
theorem Carries.listener (hcar : Carries s u) (hu : s.client = some u)
    (hcarried : s.carriesUp a = true) (hw : s.listener.Wents a w) :
    Carries { s with listener := w } u where
  serves {k c st t'} hst ht' hc := by
    obtain ⟨t, ht, hwent⟩ := hw.2 k t' ht'
    obtain ⟨conn, hconn, hserves⟩ := hcar.serves hst ht hc
    refine ⟨conn, hconn, hserves.hello, hwent.resumeFrom.trans hserves.resumeFrom, ?_, ?_⟩
    · rcases hwent.arrived with heq | ⟨b, hact, heq⟩
      · rw [heq]
        exact hserves.up
      · subst hact
        simp only [Link.carriesUp, ht, List.isPrefixOf_iff_prefix] at hcarried
        rw [heq, ← toTask_eq hu hst hc hconn]
        exact hcarried
    · obtain ⟨fs, hfs⟩ := hwent.wire
      rw [← hfs, List.flatten_append, ← List.append_assoc]
      exact hserves.down.trans (List.prefix_append _ _)
  idle := hcar.idle

omit [Postcard] in
theorem Waits.listener (h : Waits s) (hnone : s.client = none) (hcarried : s.carriesUp a = true)
    (hw : s.listener.Wents a w) : Waits { s with listener := w } where
  arrived t' ht' := by
    obtain ⟨t, ht, hwent⟩ := hw.2 0 t' ht'
    rcases hwent.arrived with heq | ⟨b, hact, heq⟩
    · rw [heq]
      exact h.arrived t ht
    · subst hact
      simp only [Link.carriesUp, ht, Link.toTask, hnone, List.isPrefixOf_iff_prefix] at hcarried
      rw [heq]
      exact List.prefix_nil.1 hcarried
  alone := h.alone

end Listener

/-! ## New tasks -/

section Attend

variable {conn : Option ℕ} {peer : String} {received : ℕ} {pings : Bool} {dec : Bytes}

omit [Postcard] in
/-- What has been counted is part of what the client produces. -/
theorem Listens.received_le [Postcard] (h : Listens o w) : w.st.received ≤ o.length := by
  rw [h.toSshd.received_eq]
  exact h.toSshd.pushed_isPrefix.length_le

/-- A task that another one is not disturbed by. -/
theorem Listens.attend (h : Listens o w) (hsshd : w.sshd.length < wide)
    (htoSshd : Listener.ToSshd o none
      { w with tasks := w.tasks ++ [w.resumeSession peer received pings dec] }) :
    Listens o { w with tasks := w.tasks ++ [w.resumeSession peer received pings dec] } := by
  have hstep : w.step (.resume peer received pings dec) =
      some { w with tasks := w.tasks ++ [w.resumeSession peer received pings dec] } := rfl
  have hundisturbed : Listener.undisturbed w (.resume peer received pings dec) = true := by
    have hlen := h.toClient.recorded_sshd.length_le
    have htotal := h.toClient.tracks.sentTotal_eq
    have hlt : w.st.replay.sentTotal - received < 2 ^ 32 := by
      rw [wide] at hsshd
      omega
    exact decide_eq_true (.inl hlt)
  exact ⟨h.toClient.step hundisturbed hstep, htoSshd, h.latest.step hstep,
    h.echoes.step h.latest hstep⟩

omit [Postcard] in
theorem Streamed.attend (h : Streamed s)
    (hfree : ∀ c, conn = some c → ∀ st ∈ s.streams, st.conn ≠ some c)
    (hreceived : s.listener.st.received < 2 ^ 64) :
    Streamed (s.attend conn peer received pings dec) where
  length := by
    show (s.streams ++ [_]).length = (s.listener.tasks ++ [_]).length
    rw [List.length_append, List.length_append, h.length]
    rfl
  first := by
    obtain ⟨id, t, hst, ht, hzero⟩ := h.first
    exact ⟨id, t, getElem?_concat_eq_some.2 (.inl hst), getElem?_concat_eq_some.2 (.inl ht), hzero⟩
  distinct {k k' c st st'} hst hst' hc hc' := by
    rcases getElem?_concat_eq_some.1 hst with hst | ⟨rfl, rfl⟩
    · rcases getElem?_concat_eq_some.1 hst' with hst' | ⟨-, rfl⟩
      · exact h.distinct hst hst' hc hc'
      · exact absurd hc (hfree c hc' st (List.mem_of_getElem? hst))
    · rcases getElem?_concat_eq_some.1 hst' with hst' | ⟨rfl, -⟩
      · exact absurd hc' (hfree c hc st' (List.mem_of_getElem? hst'))
      · rfl
  reply {k st t} hst ht p hp := by
    rcases getElem?_concat_eq_some.1 hst with hst | ⟨rfl, rfl⟩
    · rcases getElem?_concat_eq_some.1 ht with ht | ⟨rfl, -⟩
      · exact h.reply hst ht p hp
      · have hlt := (List.getElem?_eq_some_iff.1 hst).1
        rw [h.length] at hlt
        exact absurd hlt (Nat.lt_irrefl _)
    · rcases getElem?_concat_eq_some.1 ht with ht | ⟨-, rfl⟩
      · have hlt := (List.getElem?_eq_some_iff.1 ht).1
        rw [h.length] at hlt
        exact absurd hlt (Nat.lt_irrefl _)
      · -- a reply that goes on is written from the counter itself
        unfold Listener.Task.reply at hp
        split at hp
        · cases hp
          show s.listener.st.received % 2 ^ 64 = _
          exact Nat.mod_eq_of_lt hreceived
        · cases hp
        · cases hp

theorem Carries.attend (h : Carries s u) (hs : Streamed s)
    (hserves : ∀ c, conn = some c → ∃ cn, u.conns[c]? = some cn ∧ cn.hello.isSome = true ∧
      received = cn.resumeFrom ∧ cn.taken ++ cn.inbox = [] ∧ dec = []) :
    Carries (s.attend conn peer received pings dec) u where
  serves {k c st t} hst ht hc := by
    rcases getElem?_concat_eq_some.1 hst with hst | ⟨rfl, rfl⟩
    · obtain ⟨t', ht'⟩ := hs.exists_task hst
      rcases getElem?_concat_eq_some.1 ht with ht | ⟨rfl, -⟩
      · exact h.serves hst ht hc
      · exact absurd (List.getElem?_eq_some_iff.1 ht').1 (Nat.lt_irrefl _)
    · rcases getElem?_concat_eq_some.1 ht with ht | ⟨-, rfl⟩
      · have hlt := (List.getElem?_eq_some_iff.1 ht).1
        rw [hs.length] at hlt
        exact absurd hlt (Nat.lt_irrefl _)
      · obtain ⟨cn, hcn, hhello, hfrom, hnil, rfl⟩ := hserves c hc
        refine ⟨cn, hcn, hhello, hfrom, List.nil_prefix, ?_⟩
        rw [hnil]
        exact List.nil_prefix
  idle {c cn} hcn hidle :=
    h.idle hcn fun st hst => hidle st (List.mem_append_left _ hst)

end Attend

/-! ## Steps -/

omit [Postcard] in
/-- A resume by anyone but the creator is refused. -/
theorem resumePc_stranger {peer : String} (hpeer : peer ≠ w.creator) (received : ℕ) :
    ∃ reason gap err, w.resumePc peer received = .refusing reason gap err := by
  unfold Listener.World.resumePc
  dsimp only
  by_cases hlive : w.id ∉ w.reg.live
  · rw [if_pos hlive]
    exact ⟨_, _, _, rfl⟩
  · rw [if_neg hlive, if_pos hpeer.symm]
    exact ⟨_, _, _, rfl⟩

namespace Linked

/-- The client is through with its first handshake. -/
theorem connects (h : Linked o i s) (hexact : Postcard.Exact) (hin : Within o i s)
    (hnone : s.client = none) {d : Client.Dial} (hframed : d.proto.framed = true)
    (harrived : d.arrived <+: s.toConn 0) {moves : List SshCore.Action}
    (hconn : Client.World.connect d moves = some u) : Linked o i { s with client := some u } where
  listens := h.listens
  streamed := { h.streamed with }
  waits hsome := by cases hsome
  runs u' hu' := by
    cases hu'
    have hwaits := h.waits hnone
    obtain ⟨id, t, hst, ht, -, hfrom⟩ := h.streamed.first
    obtain ⟨-, conn, hconns, -, hstream, hhello, hresume, -⟩ :=
      Client.World.conns_connect hframed hconn
    have hc : u.conns[0]? = some conn := by rw [hconns]; rfl
    rw [h.streamed.toConn_eq hst ht rfl] at harrived
    have hdata : streamData d.arrived <+: i := by
      refine (streamData_mono harrived).trans ?_
      rw [streamData_reply hexact (hin.replies _ (List.mem_of_getElem? hst))
        (h.listens.echoes.wires 0 t ht)]
      have hfed := (h.listens.toClient.fed t (List.mem_of_getElem? ht)).grow_of_isPrefix
        (h.listens.toClient.recorded_sshd.trans hin.sshd)
      rwa [Resume.Fed, hfrom, List.drop_zero] at hfed
    refine ⟨.connect hframed hconn hdata, fun {k c st t'} hst' ht' hc' => ?_, fun {c cn} hcn hidle => ?_⟩
    · -- no task but the first serves the client
      obtain rfl := hwaits.alone hst' hc'
      cases hst.symm.trans hst'
      cases ht.symm.trans ht'
      cases hc'
      refine ⟨conn, hc, hhello, hfrom.trans hresume.symm, ?_, ?_⟩
      · rw [hwaits.arrived t ht]
        exact List.nil_prefix
      · rw [hstream]
        exact harrived
    · rw [hconns] at hcn
      obtain ⟨rfl, -⟩ := getElem?_singleton_eq_some hcn
      exact absurd rfl (hidle _ (List.mem_of_getElem? hst))

/-- The listener reads the hello of a resume. -/
theorem accepts (h : Linked o i s) (hexact : Postcard.Exact) (hin : Within o i s)
    (hi : i.length < wide) (ho : o.length < wide) (hu : s.client = some u) {c n : ℕ}
    {conn : Client.Conn} (hc : u.conns[c]? = some conn)
    (hfree : ∀ st ∈ s.streams, st.conn ≠ some c)
    (hshort : conn.hello.all fun h => h.length ≤ headerLen + maxFrame) {pairing dec : Bytes}
    {r : Resume} (hgreeted : Link.greeted conn n = some (⟨pairing, some r⟩, dec)) (peer : String)
    (pings : Bool) : Linked o i (s.attend (some c) peer r.received.toNat pings dec) := by
  obtain ⟨hruns, hcar⟩ := h.runs u hu
  obtain ⟨id₀, t₀, hst₀, -⟩ := h.streamed.first
  have hne : c ≠ 0 := by
    rintro rfl
    exact hfree _ (List.mem_of_getElem? hst₀) rfl
  have hnil := hcar.idle hc hfree
  -- it has no reply yet, so it is not installed, and nothing was written after its hello
  have hinst : conn.installed = none := by
    by_contra hsome
    obtain ⟨g, hg⟩ := Option.ne_none_iff_exists'.1 hsome
    cases g with
    | zero =>
      obtain ⟨conn₀, hc₀, hinst₀⟩ := hruns.first
      exact hne (hruns.tasks.installed hc hc₀ hg hinst₀)
    | succ g =>
      obtain ⟨fs, p, hfs, -⟩ := hruns.told c g conn hc hg
      rw [hnil] at hfs
      have hempty : (frames ([] : Bytes)).1 = [] := rfl
      rw [hempty, List.prefix_nil] at hfs
      simp at hfs
  have hwire : conn.wire = [] := hruns.outbound.unwritten hc hinst
  obtain ⟨hello, hhello⟩ : ∃ hello, conn.hello = some hello := by
    cases hhello : conn.hello with
    | none => simp [Link.greeted, hhello] at hgreeted
    | some hello => exact ⟨hello, rfl⟩
  obtain ⟨hle, pairing', sid, rfl⟩ := hruns.greets c conn hello hc hne hhello
  have hfits : (Frame.hello ⟨pairing', some ⟨sid, UInt64.ofNat conn.resumeFrom⟩⟩).Fits := by
    rw [hhello, Option.all_some, decide_eq_true_eq, encodeHello, length_putFrame] at hshort
    exact Nat.le_of_add_le_add_left hshort
  obtain ⟨heq, rfl⟩ := greeted_hello hexact hwire hhello hfits hgreeted
  cases heq
  have hfrom : (UInt64.ofNat conn.resumeFrom).toNat = conn.resumeFrom := by
    rw [wide] at hi
    show conn.resumeFrom % 2 ^ 64 = _
    exact Nat.mod_eq_of_lt (by omega)
  have hreceived : s.listener.st.received < 2 ^ 64 := by
    have hle := h.listens.received_le
    rw [wide] at ho
    omega
  exact {
    listens := h.listens.attend (Nat.lt_of_le_of_lt hin.sshd.length_le hi)
      (h.listens.toSshd.resume (by rfl))
    streamed := h.streamed.attend (fun c' hc' => Option.some.inj hc' ▸ hfree) hreceived
    waits := fun hnone => by
      have hclient : s.client = none := hnone
      cases hu.symm.trans hclient
    runs := fun u' hu' => by
      cases hu.symm.trans hu'
      refine ⟨hruns, hcar.attend h.streamed fun c' hc' => ?_⟩
      cases hc'
      exact ⟨conn, hc, by rw [hhello]; rfl, hfrom, hnil, rfl⟩ }

/-- Someone else asks to resume. -/
theorem stranger (h : Linked o i s) (hin : Within o i s) (hi : i.length < wide)
    (ho : o.length < wide) {peer : String} (hpeer : peer ≠ s.listener.creator) (received : ℕ)
    (pings : Bool) (dec : Bytes) : Linked o i (s.attend none peer received pings dec) := by
  have hreceived : s.listener.st.received < 2 ^ 64 := by
    have hle := h.listens.received_le
    rw [wide] at ho
    omega
  obtain ⟨reason, gap, err, hpc⟩ := resumePc_stranger hpeer received
  exact {
    listens := h.listens.attend (Nat.lt_of_le_of_lt hin.sshd.length_le hi)
      (h.listens.toSshd.refuse hpc)
    streamed := h.streamed.attend (fun c hc => by cases hc) hreceived
    waits := fun hnone => {
      arrived := fun t ht => by
        obtain ⟨-, t₀, -, ht₀, -⟩ := h.streamed.first
        rcases getElem?_concat_eq_some.1 ht with ht | ⟨hzero, -⟩
        · exact (h.waits hnone).arrived t ht
        · have hlt := (List.getElem?_eq_some_iff.1 ht₀).1
          omega
      alone := fun {k c st} hst hc => by
        rcases getElem?_concat_eq_some.1 hst with hst | ⟨-, rfl⟩
        · exact (h.waits hnone).alone hst hc
        · cases hc }
    runs := fun u hu => by
      obtain ⟨hruns, hcar⟩ := h.runs u hu
      exact ⟨hruns, hcar.attend h.streamed fun c hc => by cases hc⟩ }

/-- **A calm step keeps the invariant.** -/
theorem step (h : Linked o i s) (hexact : Postcard.Exact) (hi : i.length < wide)
    (ho : o.length < wide) (hin : Within o i s) {a : Action}
    (hcalm : calm s a = true) (hstep : s.step a = some s') : Linked o i s' := by
  have hmoves := Link.step_cases hstep
  clear hstep
  cases hmoves with
  | connects hnone hframed harrived hconn =>
    exact h.connects hexact hin hnone hframed harrived hconn
  | client hu hcarried hstep =>
    rename_i l u u'
    obtain ⟨hruns, hcar⟩ := h.runs u hu
    obtain ⟨hqueued, husize⟩ := hin.queued u hu
    simp only [calm, hu, Option.all_some, Bool.and_eq_true] at hcalm
    exact {
      listens := h.listens
      streamed := { h.streamed with }
      waits := fun hnone => by cases hnone
      runs := fun v hv => by
        cases hv
        have hcar' := hcar.client h.streamed hruns hcarried hstep
        exact ⟨hruns.step (h.answers hexact hin hu hcarried) hcalm.1 hcalm.2 husize
          (Nat.lt_of_le_of_lt hqueued.length_le ho) hstep, { hcar' with }⟩ }
  | listener hown hcarried hstep =>
    simp only [calm, Bool.and_eq_true] at hcalm
    have hwents := Listener.World.went_step hown hstep
    exact {
      listens := h.listens.step hcalm.1 hcalm.2 (h.faithful hexact hin hown hcarried) hstep
      streamed := h.streamed.listener hwents
      waits := fun hnone => (h.waits hnone).listener hnone hcarried hwents
      runs := fun u hu =>
        ⟨(h.runs u hu).1, (h.runs u hu).2.listener hu hcarried hwents⟩ }
  | accepts hu hc hfree hgreeted =>
    simp only [calm, hu, Option.all_some, hc] at hcalm
    exact h.accepts hexact hin hi ho hu hc hfree hcalm hgreeted _ _
  | stranger hpeer received pings dec => exact h.stranger hin hi ho hpeer received pings dec

end Linked

/-! ## Runs -/

/-- What is produced stays produced. -/
theorem Within.of_step {a : Action} (hstep : s.step a = some s') (h : Within o i s') :
    Within o i s := by
  have hsame : ∀ {v : Link}, Within o i v → v.client = s.client →
      s.listener.sshd <+: v.listener.sshd → s.streams <+: v.streams → Within o i s :=
    fun hv hclient hsshd hstreams =>
    ⟨hsshd.trans hv.sshd, fun u hu => hv.queued u (hclient ▸ hu),
      fun st hst => hv.replies st (hstreams.subset hst)⟩
  have hmoves := Link.step_cases hstep
  clear hstep
  cases hmoves with
  | connects hnone hframed harrived hconn =>
    exact ⟨h.sshd, fun u hu => (by cases hnone.symm.trans hu), h.replies⟩
  | client hu hcarried hstep =>
    rename_i l u u'
    obtain ⟨hqueued, husize⟩ := h.queued u' rfl
    refine ⟨h.sshd, fun v hv => ?_, h.replies⟩
    cases hu.symm.trans hv
    exact ⟨(Client.World.queued_step hstep).trans hqueued,
      fun n hn => by rw [← Client.World.usize_step hstep]; exact husize n hn⟩
  | listener hown hcarried hstep =>
    exact hsame h rfl (Listener.World.sshd_step hstep) (List.prefix_refl _)
  | accepts hu hc hfree hgreeted =>
    exact hsame h rfl (List.prefix_refl _) (List.prefix_append _ _)
  | stranger hpeer received pings dec =>
    exact hsame h rfl (List.prefix_refl _) (List.prefix_append _ _)

/-- A session has been registered, and nobody has been told. -/
theorem linked_start (id : SessionId) (creator : String) (grace : ℕ) (reg : Listener.Registry)
    (pings : Bool) : Linked o i (Link.start id creator grace reg pings) where
  listens := ⟨Listener.toClient_start .., Listener.toSshd_start _ _ _ _ _ List.nil_prefix,
    Listener.World.latest_start .., Listener.echoes_start ..⟩
  streamed := {
    length := rfl
    first := ⟨id, _, rfl, rfl, rfl, rfl⟩
    distinct := fun hst hst' _ _ => by
      rw [(getElem?_singleton_eq_some hst).1, (getElem?_singleton_eq_some hst').1]
    reply := fun hst _ p hp => by
      obtain ⟨-, rfl⟩ := getElem?_singleton_eq_some hst
      cases hp }
  waits _ := {
    arrived := fun t ht => by
      obtain ⟨-, rfl⟩ := getElem?_singleton_eq_some ht
      rfl
    alone := fun hst _ => (getElem?_singleton_eq_some hst).1 }
  runs u hu := by cases hu

/-- The invariant, in the last state of a calm run. -/
theorem linked_run (hexact : Postcard.Exact) {id : SessionId} {creator : String} {grace : ℕ}
    {reg : Listener.Registry} {pings : Bool} {as : List Action}
    (hrun : Run.run Link.step (Link.start id creator grace reg pings) as = some s)
    (hcalm : Run.Along Link.step (fun s a => calm s a = true)
      (Link.start id creator grace reg pings) as)
    (hi : i.length < wide) (ho : o.length < wide) (hin : Within o i s) : Linked o i s :=
  Run.run_inv_within (fun _ _ _ => Within.of_step)
    (fun _ _ _ h hw hcalm hstep => h.step hexact hi ho hw hcalm hstep)
    (linked_start id creator grace reg pings) hcalm hrun hin

/-- What each end was handed. -/
structure Delivered (s : Link) (u : Client.World) : Prop where
  /-- The core was fed an initial part of what sshd wrote, and the count is its length. -/
  down : u.fed <+: s.listener.sshd ∧ u.received = u.fed.length
  /-- What was pushed for sshd is an initial part of what the core produced, and sshd was written an
  initial part of that. -/
  up : s.listener.st.pushed <+: u.queued ∧ s.listener.toSshd <+: s.listener.st.pushed ∧
    s.listener.st.received = s.listener.st.pushed.length

/-- **From end to end.** Along every calm run of a client and its listener, over however many resumes,
with whatever else asks to resume the session in between, each end has been handed an initial part of
what the other produced, as long as both are below 4 GiB and every reply fits a frame.

**Proof sketch.** The two invariants of a stream, the one of its sender and the one of its receiver,
meet at the connection: the count in a hello is where the listener's stream begins on it, and the
count in a reply where the client's does. -/
theorem delivered (hexact : Postcard.Exact) {id : SessionId} {creator : String} {grace : ℕ}
    {reg : Listener.Registry} {pings : Bool} {as : List Action}
    (hrun : Run.run Link.step (Link.start id creator grace reg pings) as = some s)
    (hcalm : Run.Along Link.step (fun s a => calm s a = true)
      (Link.start id creator grace reg pings) as)
    (hu : s.client = some u) (husize : ∀ n < wide, u.usize n = n)
    (hsshd : s.listener.sshd.length < wide) (hqueued : u.queued.length < wide)
    (hreplies : ∀ st ∈ s.streams, (Postcard.ofReply st.reply).length ≤ maxFrame) :
    Delivered s u := by
  have hin : Within u.queued s.listener.sshd s := {
    sshd := List.prefix_refl _
    queued := fun v hv => by
      cases hu.symm.trans hv
      exact ⟨List.prefix_refl _, husize⟩
    replies := hreplies }
  have h := linked_run hexact hrun hcalm hsshd hqueued hin
  obtain ⟨hruns, -⟩ := h.runs u hu
  exact ⟨⟨hruns.inbound.fed, hruns.inbound.received⟩,
    ⟨h.listens.toSshd.pushed_isPrefix, h.listens.toSshd.written, h.listens.toSshd.received_eq⟩⟩

/-- A session is begun, and a byte of sshd is read by the core. -/
def begins : List Action :=
  [.listener (.replied 0 none), .connect Client.sampleDial [], .listener .pollA,
    .listener (.readA [1] .complete false), .listener .pollB, .listener (.wroteB true),
    .client ⟨.pollReader 0, [], []⟩, .client ⟨.arrive 0 (encodeData [1]), [], []⟩,
    .client ⟨.read 0 16, [], []⟩]

/-- A byte of the core is lost with its connection, and the client says hello on another. -/
def redials : List Action :=
  [.client ⟨.pollWriter 0, [], []⟩, .client ⟨.tickCore .pump, [.connWrite [9]], []⟩,
    .client ⟨.pollWriter 0, [], []⟩, .client ⟨.wrote 0 false, [], []⟩,
    .client ⟨.dialed 0 true, [], []⟩, .client ⟨.opened 0 true, [], []⟩,
    .client ⟨.helloed 0 true, [], []⟩]

/-- The client is told to go on from the start, and a byte is carried each way. -/
def goesOn : List Action :=
  [.accept 1 64 "client", .listener (.replied 1 none),
    .client ⟨.arrive 1 (@encodeReply Postcard.golden (.resumed 0)), [], []⟩,
    .client ⟨.loopRead 0 64, [], []⟩, .client ⟨.pollWriter 1, [], []⟩,
    .listener (.read 1 (.chunk (encodeData [9]))), .listener .pollC, .listener (.wroteC 1),
    .listener .pollA, .listener (.readA [2] .complete false), .listener .pollB,
    .client ⟨.arrive 1 (encodeData [2]), [], []⟩, .client ⟨.pollReader 1, [], []⟩,
    .client ⟨.read 1 16, [], []⟩]

omit [Postcard] in
/-- A session that is resumed once: the run to which `delivered` is applied. -/
theorem delivered_resumed :
    ∃ s u, @Run.run _ _ (@Link.step Postcard.golden)
        (Link.start Listener.sampleId "client" 60 {} true) (begins ++ redials ++ goesOn) = some s ∧
      s.client = some u ∧ Delivered s u ∧ u.fed = [1, 2] ∧ s.listener.toSshd = [9] :=
  ⟨_, _, rfl, rfl, @delivered Postcard.golden _ _ Postcard.golden_exact Listener.sampleId "client" 60
    {} true (begins ++ redials ++ goesOn) rfl (by decide) rfl (fun _ hn => Nat.mod_eq_of_lt hn)
    (by decide) (by decide) (by decide), rfl, rfl⟩

end Ends
