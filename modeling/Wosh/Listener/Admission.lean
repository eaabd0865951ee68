import Wosh.Lib.Run
import Wosh.Listener.Cases
import Wosh.Listener.Host

set_option relaxedAutoImplicit false
set_option autoImplicit false

/-!
# Who is admitted, and to which session

A connection is bridged, or given a session, only after the verdict on the proof that it presents;
the devices that the verdict remembers presented one; and the streams of a session are those of
connections of the device that created it.

## Main definitions

* `Listener.Host.Admits` — what the verdict asks for.
* `Listener.Host.Enrolls` — a step by which a device presents a right proof.
* `Listener.World.Owned`, `Listener.Host.Owned` — the invariants.

## Main results

* `Listener.listener_admission` — over every run of the listener, with its restarts.
-/

namespace Listener

open Tunnel Slots

/-! ## The tasks of a session -/

/-- The task has not been refused and has not returned. -/
def Task.admitted (t : Task) : Bool :=
  match t.pc with
  | .replying _ _ | .reading _ => true
  | _ => false

namespace World

/-- The authenticated endpoint ids of the tasks' clients. -/
def peers (w : World) : List String := w.tasks.map Task.peer

/-- Task `k` belongs to the device that created the session. -/
def Owner (w : World) (k : ℕ) : Prop := w.peers[k]? = some w.creator

/-- The streams of the session are those of tasks of its creator. -/
structure Owned (w : World) : Prop where
  send : ∀ k, w.st.send = some k → w.Owner k
  conn : ∀ k, w.st.conn = some k → w.Owner k
  last : ∀ k, w.st.last = some k → w.Owner k
  writing : ∀ b g k, w.pumpB = .writing b g k → w.Owner k
  task : ∀ t ∈ w.tasks, t.admitted = true → t.peer = w.creator

variable {w u w' : World} {a : Action}

/-- Tables of tasks with the same peers in the same slots. -/
theorem peers_eq (hlen : u.tasks.length = w.tasks.length)
    (htask : ∀ (k : ℕ) (t' : Task), u.tasks[k]? = some t' →
      ∃ t, w.tasks[k]? = some t ∧ t'.peer = t.peer) : u.peers = w.peers := by
  apply List.ext_getElem?
  intro k
  simp only [peers, List.getElem?_map]
  cases hu : u.tasks[k]? with
  | none =>
    have hnone : w.tasks[k]? = none := by
      rw [List.getElem?_eq_none_iff] at hu ⊢
      omega
    rw [hnone]
  | some t' =>
    obtain ⟨t, ht, hpeer⟩ := htask k t' hu
    rw [ht, Option.map_some, Option.map_some, hpeer]

theorem Still.peers_eq (hu : w.Still a u) : u.peers = w.peers :=
  World.peers_eq hu.tasks_length fun k t' ht' =>
    let ⟨t, ht, hmoved⟩ := hu.task k t' ht'
    ⟨t, ht, hmoved.peer⟩

theorem Attaches.peers_eq {k : ℕ} {t : Task} {fresh : Bool} (ht : w.tasks[k]? = some t)
    (hu : w.Attaches k t fresh u) : u.peers = w.peers :=
  World.peers_eq hu.tasks_length fun j t' ht' => by
    rcases hu.task j t' ht' with ⟨-, hold⟩ | ⟨rfl, hpeer, -⟩
    · exact ⟨t', hold, rfl⟩
    · exact ⟨t, ht, hpeer⟩

/-- A step of a session's own tasks adds none. -/
theorem peers_moves (hown : a.own = true) (hu : w.Moves a u) : u.peers = w.peers := by
  cases hu with
  | still ha hu => exact hu.peers_eq
  | takes hB hatt hsend hq =>
    refine World.peers_eq (List.length_modify _ _ _) fun k t' ht' => ?_
    obtain ⟨t, ht, rfl⟩ := getElem?_modify_eq_some.1 ht'
    exact ⟨t, ht, by split_ifs <;> rfl⟩
  | fails hB hatt =>
    unfold park
    split_ifs <;> rfl
  | resumes peer received pings dec => cases hown
  | attaches ht hpc hu => exact hu.peers_eq ht
  | finishes | exits | abandons | putsBack | lapses | expires | elapses => rfl

theorem peers_step [Postcard] (hown : a.own = true) (hstep : w.step a = some w') :
    w'.peers = w.peers := by
  obtain ⟨u, hu, hafter⟩ := step_cases hstep
  rw [← peers_moves hown hu]
  cases hafter with
  | stays => rfl
  | ends ha reason => rfl
  | parks hreporter =>
    unfold park
    split_ifs <;> rfl

namespace Owned

theorem endSession (h : w.Owned) (reason : String) : (w.endSession reason).Owned :=
  ⟨h.send, h.conn, h.last, h.writing, h.task⟩

theorem park (h : w.Owned) : w.park.Owned := by
  unfold World.park
  split_ifs
  · exact h
  · exact h.endSession _
  · exact ⟨fun k hk => (by cases hk), fun k hk => (by cases hk), h.last, h.writing, h.task⟩

/-- Another part of the world moved. -/
theorem congr (h : w.Owned) (hcreator : u.creator = w.creator) (hpeers : u.peers = w.peers)
    (hst : u.st.send = w.st.send ∧ u.st.conn = w.st.conn ∧ u.st.last = w.st.last)
    (hB : u.pumpB = w.pumpB)
    (htask : ∀ t' ∈ u.tasks, t'.admitted = true → t'.peer = w.creator) : u.Owned := by
  obtain ⟨hsend, hconn, hlast⟩ := hst
  constructor
  · intro k hk
    rw [Owner, hpeers, hcreator]
    exact h.send k (hsend ▸ hk)
  · intro k hk
    rw [Owner, hpeers, hcreator]
    exact h.conn k (hconn ▸ hk)
  · intro k hk
    rw [Owner, hpeers, hcreator]
    exact h.last k (hlast ▸ hk)
  · intro b g k hb
    rw [Owner, hpeers, hcreator]
    exact h.writing b g k (hB ▸ hb)
  · intro t' ht' hadmitted
    rw [hcreator]
    exact htask t' ht' hadmitted

/-- A task that is admitted after a step that attaches none was admitted before. -/
theorem still (h : w.Owned) (hu : w.Still a u) : u.Owned := by
  have htask : ∀ t' ∈ u.tasks, t'.admitted = true → t'.peer = w.creator := by
    intro t' ht' hadmitted
    obtain ⟨k, hk⟩ := List.getElem?_of_mem ht'
    obtain ⟨t, ht, hmoved⟩ := hu.task k t' hk
    rw [hmoved.peer]
    refine h.task t (List.mem_of_getElem? ht) ?_
    rcases hmoved.pc with hpc | ⟨out, hdone⟩
    · simpa [Task.admitted, hpc] using hadmitted
    · simp [Task.admitted, hdone] at hadmitted
  have hpeers := hu.peers_eq
  rw [hu.only] at hpeers htask ⊢
  exact h.congr rfl hpeers ⟨rfl, rfl, rfl⟩ rfl htask

/-- A task that attaches has been admitted. -/
theorem attaches {k : ℕ} {t : Task} {fresh : Bool} {tail : Bytes} (h : w.Owned)
    (ht : w.tasks[k]? = some t) (hpc : t.pc = .replying fresh tail)
    (hu : w.Attaches k t fresh u) : u.Owned := by
  have hpeer : t.peer = w.creator := h.task t (List.mem_of_getElem? ht) (by simp [Task.admitted, hpc])
  have hk : w.Owner k := by
    rw [Owner, peers, List.getElem?_map, ht, Option.map_some, hpeer]
  have hpeers := hu.peers_eq ht
  have htask : ∀ t' ∈ u.tasks, t'.admitted = true → t'.peer = w.creator := by
    intro t' ht' hadmitted
    obtain ⟨j, hj⟩ := List.getElem?_of_mem ht'
    rcases hu.task j t' hj with ⟨-, hold⟩ | ⟨-, hsame, -⟩
    · exact h.task t' (List.mem_of_getElem? hold) hadmitted
    · exact hsame.trans hpeer
  have howner : ∀ j, w.Owner j → u.Owner j := by
    intro j hj
    rw [Owner, hpeers]
    rw [hu.only]
    exact hj
  rw [hu.only] at htask howner ⊢
  refine ⟨fun j hj => ?_, fun j hj => ?_, fun j hj => ?_, fun b g j hb => ?_, htask⟩
  · cases hj
    exact howner k hk
  · cases hj
    exact howner k hk
  · cases hj
    exact howner k hk
  · cases fresh with
    | true => cases hb
    | false => exact howner j (h.writing b g j hb)

theorem moves (h : w.Owned) (hu : w.Moves a u) : u.Owned := by
  cases hu with
  | still ha hu => exact h.still hu
  | takes hB hatt hsend hq =>
    rename_i b q k
    have hpeers : peers { w with
        st := { w.st with send := none, outq := q }
        pumpB := .writing b w.st.generation k
        tasks := w.tasks.modify k fun t => { t with wire := t.wire ++ [b] } } = w.peers :=
      peers_moves (a := .pollB) rfl (.takes hB hatt hsend hq)
    refine ⟨fun j hj => (by cases hj), fun j hj => ?_, fun j hj => ?_, fun b' g j hb => ?_,
      fun t' ht' hadmitted => ?_⟩
    · rw [Owner, hpeers]
      exact h.conn j hj
    · rw [Owner, hpeers]
      exact h.last j hj
    · cases hb
      rw [Owner, hpeers]
      exact h.send _ hsend
    · obtain ⟨j, hj⟩ := List.getElem?_of_mem ht'
      obtain ⟨t, ht, rfl⟩ := getElem?_modify_eq_some.1 hj
      have hold := h.task t (List.mem_of_getElem? ht)
      split_ifs at hadmitted ⊢ <;> exact hold hadmitted
  | finishes hB hatt hsend hq hdead =>
    exact ⟨fun j hj => (by cases hj), fun j hj => (by cases hj), h.last,
      fun b g j hb => (by cases hb), h.task⟩
  | exits hB hatt hdead => exact ⟨h.send, h.conn, h.last, fun b g j hb => (by cases hb), h.task⟩
  | abandons hB hover => exact ⟨h.send, h.conn, h.last, fun b g j hb => (by cases hb), h.task⟩
  | putsBack hB hatt =>
    refine ⟨fun j hj => ?_, h.conn, h.last, fun b g j hb => (by cases hb), h.task⟩
    cases hj
    exact h.writing _ _ _ hB
  | fails hB hatt =>
    have hpolling : Owned { w with pumpB := .polling } :=
      ⟨h.send, h.conn, h.last, fun b g j hb => (by cases hb), h.task⟩
    exact hpolling.park
  | resumes peer received pings dec =>
    have howner : ∀ j, w.Owner j →
        Owner { w with tasks := w.tasks ++ [w.resumeSession peer received pings dec] } j := by
      intro j hj
      have hlt : j < w.peers.length := (List.getElem?_eq_some_iff.1 hj).1
      simp only [Owner, peers, List.map_append] at hj hlt ⊢
      rw [List.getElem?_append_left hlt]
      exact hj
    refine ⟨fun j hj => howner j (h.send j hj), fun j hj => howner j (h.conn j hj),
      fun j hj => howner j (h.last j hj), fun b g j hb => howner j (h.writing b g j hb),
      fun t' ht' hadmitted => ?_⟩
    rcases List.mem_append.1 ht' with hold | hnew
    · exact h.task t' hold hadmitted
    · -- a resume is answered only if it comes from the creator
      obtain rfl := List.mem_singleton.1 hnew
      unfold Task.admitted at hadmitted
      split at hadmitted
      · rename_i hpc
        exact (resumePc_admitted hpc).2.1.symm
      · rename_i hpc
        exact absurd hpc (resumePc_ne_reading _)
      · cases hadmitted
  | attaches ht hpc hu => exact h.attaches ht hpc hu
  | lapses | elapses => exact ⟨h.send, h.conn, h.last, h.writing, h.task⟩
  | expires => exact ⟨h.send, h.conn, h.last, h.writing, h.task⟩

/-- Every step leaves the streams with tasks of the creator. -/
theorem step [Postcard] (h : w.Owned) (hstep : w.step a = some w') : w'.Owned := by
  obtain ⟨u, hu, hafter⟩ := step_cases hstep
  have howned := h.moves hu
  cases hafter with
  | stays => exact howned
  | ends ha reason => exact howned.endSession reason
  | parks hreporter => exact howned.park

end Owned

end World

/-! ## The listener -/

namespace Host

/-- What the verdict asks of a connection that presents a proof. -/
def Admits [Hmac] (h : Host) (conn : Conn) (presented : Bytes) : Prop :=
  h.token = none ∨ encodeHex conn.peer ∈ h.paired ∨
    ∃ want, h.token = some want ∧ presented = pairingProof want h.listenerId conn.peer conn.alpn

/-- The step is one by which the device of a connection presents the right proof, and `s` is the
device. -/
def Enrolls [Hmac] [Postcard] (h : Host) (a : HostAction) (s : String) : Prop :=
  ∃ c conn b persisted presented want, a = .heard c (.chunk b) persisted ∧
    h.conns[c]? = some conn ∧ conn.presents b = some presented ∧ h.token = some want ∧
    presented = pairingProof want h.listenerId conn.peer conn.alpn ∧ s = encodeHex conn.peer

/-- The device is paired, or will be when the store is read again. -/
def Knows (h : Host) (s : String) : Prop := s ∈ h.paired ∨ s ∈ load h.file

/-- Connection `c` is the one behind task `k` of session `i`, of the device `s`. -/
def Serves (h : Host) (c i k : ℕ) (s : String) : Prop :=
  ∃ conn, h.conns[c]? = some conn ∧ conn.pc = .serving i k ∧ encodeHex conn.peer = s

/-- The invariant: the streams of every session are with tasks of its creator, the first of which
created it, and behind each of its tasks there is a connection of the same device. -/
structure Owned (h : Host) : Prop where
  sessions : ∀ w ∈ h.sessions, w.Owned ∧ w.Owner 0
  serves : ∀ (i : ℕ) (w : World) (k : ℕ) (s : String), h.sessions[i]? = some w →
    w.peers[k]? = some s → ∃ c, h.Serves c i k s

variable {h h' u : Host} {c : ℕ} {conn : Conn} {a : HostAction}

section Steps

variable [Hmac] [Postcard]

/-- A connection that has reached one of the functions behind the verdict had reached it before the
step, or the verdict admitted it in this step. -/
theorem entry_step (hstep : h.step a = some h') {conn' : Conn} {e : Entry}
    (hconn' : h'.conns[c]? = some conn') (hentry : conn'.entry = some e) :
    (∃ conn, h.conns[c]? = some conn ∧ conn.entry = some e) ∨
      ∃ conn b persisted presented, a = .heard c (.chunk b) persisted ∧
        h.conns[c]? = some conn ∧ conn.peer = conn'.peer ∧ conn.alpn = conn'.alpn ∧
        conn.presents b = some presented ∧ h.Admits conn presented := by
  have admits : ∀ {conn : Conn} {presented : Bytes} {u : Host}, h.Verdict conn presented u →
      h.Admits conn presented := fun {conn presented u} hverdict => by
    cases hverdict with
    | opens htoken => exact .inl htoken
    | knows hpaired => exact .inr (.inl hpaired)
    | enrolls persisted htoken hlen hproof => exact .inr (.inr ⟨_, htoken, hproof⟩)
  -- the connection that reaches a function in this step is the one that was heard
  have reached : ∀ {c₀ : ℕ} {conn₀ : Conn} {b presented : Bytes} {persisted : Bool} {u : Host}
      {entry : Entry} {pc : ConnPc}, h.conns[c₀]? = some conn₀ → conn₀.presents b = some presented →
      h.Verdict conn₀ presented u → a = .heard c₀ (.chunk b) persisted →
      h'.conns = ((u.enter c₀ entry).setConn c₀ pc).conns →
      (∃ conn, h.conns[c]? = some conn ∧ conn.entry = some e) ∨
        ∃ conn b persisted presented, a = .heard c (.chunk b) persisted ∧
          h.conns[c]? = some conn ∧ conn.peer = conn'.peer ∧ conn.alpn = conn'.alpn ∧
          conn.presents b = some presented ∧ h.Admits conn presented := by
    intro c₀ conn₀ b presented persisted u entry pc hconn hpresents hverdict ha hconns
    rw [hconns] at hconn'
    obtain ⟨conn₁, h₁, rfl⟩ := getElem?_modify_eq_some.1 hconn'
    obtain ⟨conn₂, h₂, rfl⟩ := getElem?_modify_eq_some.1 h₁
    rw [hverdict.same.1] at h₂
    by_cases hc : c₀ = c
    · subst hc
      cases hconn.symm.trans h₂
      exact .inr ⟨conn₀, b, persisted, presented, ha, hconn, by simp, by simp, hpresents,
        admits hverdict⟩
    · simp only [if_neg hc] at hentry
      exact .inl ⟨conn₂, h₂, hentry⟩
  cases step_cases hstep with
  | accepts peer alpn =>
    rcases getElem?_concat_eq_some.1 hconn' with hold | ⟨-, rfl⟩
    · exact .inl ⟨conn', hold, hentry⟩
    · cases hentry
  | turns c₀ f hkeeps hpc =>
    obtain ⟨conn, hconn, rfl⟩ := getElem?_modify_eq_some.1 hconn'
    refine .inl ⟨conn, hconn, ?_⟩
    split_ifs at hentry
    · exact (hkeeps conn).2.2.symm.trans hentry
    · exact hentry
  | forwards hconn hpc hpresents hverdict => exact reached hconn hpresents hverdict rfl rfl
  | starts hconn hpc hpresents hverdict => exact reached hconn hpresents hverdict rfl rfl
  | misses hconn hpc hpresents hverdict => exact reached hconn hpresents hverdict rfl rfl
  | resumes hconn hpc hpresents hverdict hw hw' => exact reached hconn hpresents hverdict rfl rfl
  | connects id hconn hpc =>
    obtain ⟨conn, hconn, rfl⟩ := getElem?_modify_eq_some.1 hconn'
    exact .inl ⟨conn, hconn, by split_ifs at hentry <;> exact hentry⟩
  | session hown hw hw' => exact .inl ⟨conn', hconn', hentry⟩
  | elapses d => exact .inl ⟨conn', hconn', hentry⟩
  | restarts token listenerId grace readable => simp [boot] at hconn'

/-- A device that is known after a step was known before, or presents its proof in this step. -/
theorem knows_step (hstep : h.step a = some h') {s : String} (hknows : h'.Knows s) :
    h.Knows s ∨ h.Enrolls a s := by
  have verdict : ∀ {c : ℕ} {conn : Conn} {b presented : Bytes} {persisted : Bool} {u : Host},
      h.conns[c]? = some conn → conn.presents b = some presented → h.Verdict conn presented u →
      a = .heard c (.chunk b) persisted → u.Knows s → h.Knows s ∨ h.Enrolls a s := by
    intro c conn b presented persisted u hconn hpresents hverdict ha hu
    cases hverdict with
    | opens htoken => exact .inl hu
    | knows hpaired => exact .inl hu
    | enrolls persisted' htoken hlen hproof =>
      have henrolls : s = encodeHex conn.peer → h.Enrolls a s := fun hs =>
        ⟨c, conn, b, persisted, presented, _, ha, hconn, hpresents, htoken, hproof, hs⟩
      rcases hu with hpaired | hfile
      · rcases List.mem_cons.1 hpaired with hs | hold
        · exact .inr (henrolls hs)
        · exact .inl (.inl hold)
      · cases persisted' with
        | false => exact .inl (.inr hfile)
        | true => exact (load_persist h.file conn.peer s hfile).imp .inr henrolls
  cases step_cases hstep with
  | accepts | turns | connects | session | elapses => exact .inl hknows
  | forwards hconn hpc hpresents hverdict => exact verdict hconn hpresents hverdict rfl hknows
  | starts hconn hpc hpresents hverdict => exact verdict hconn hpresents hverdict rfl hknows
  | misses hconn hpc hpresents hverdict => exact verdict hconn hpresents hverdict rfl hknows
  | resumes hconn hpc hpresents hverdict hw hw' =>
    exact verdict hconn hpresents hverdict rfl hknows
  | restarts token listenerId grace readable =>
    refine .inl (.inr ?_)
    rcases hknows with hpaired | hfile
    · cases readable with
      | true => exact hpaired
      | false => cases hpaired
    · exact hfile

/-- A device that is known after a run was known before, or has presented its proof. -/
theorem knows_run {as : List HostAction} (hrun : Run.run step h as = some h') {s : String}
    (hknows : h'.Knows s) :
    h.Knows s ∨ ∃ bs a cs u, as = bs ++ a :: cs ∧ Run.run step h bs = some u ∧ u.Enrolls a s := by
  induction as generalizing h with
  | nil =>
    obtain rfl : h = h' := by simpa using hrun
    exact .inl hknows
  | cons a as ih =>
    obtain ⟨v, hv, hrun'⟩ := Run.run_cons_eq_some.1 hrun
    rcases ih hrun' with hold | ⟨bs, b, cs, u, rfl, hbs, hu⟩
    · rcases knows_step hv hold with hold | henrolls
      · exact .inl hold
      · exact .inr ⟨[], a, as, h, rfl, rfl, henrolls⟩
    · exact .inr ⟨a :: bs, b, cs, u, rfl, Run.run_cons_eq_some.2 ⟨v, hv, hbs⟩, hu⟩

/-! ### Connections and tasks -/

omit [Hmac] [Postcard] in
/-- Nothing happened to the connections that are behind tasks. -/
theorem Serves.mono {i k : ℕ} {s : String} (hs : h.Serves c i k s)
    (hconns : ∀ conn, h.conns[c]? = some conn → conn.pc = .serving i k →
      h'.conns[c]? = some conn) : h'.Serves c i k s := by
  obtain ⟨conn, hconn, hpc, hpeer⟩ := hs
  exact ⟨conn, hconns conn hconn hpc, hpc, hpeer⟩

omit [Hmac] [Postcard] in
/-- A connection that is behind no task moves on. -/
theorem Serves.modify {c₀ i k : ℕ} {s : String} {f : Conn → Conn} (hs : h.Serves c i k s)
    (hidle : ∀ conn, h.conns[c₀]? = some conn → conn.pc ≠ .serving i k)
    (hconns : h'.conns = h.conns.modify c₀ f) : h'.Serves c i k s := by
  refine hs.mono fun conn hconn hpc => ?_
  rw [hconns]
  refine getElem?_modify_eq_some.2 ⟨conn, hconn, ?_⟩
  rw [if_neg]
  rintro rfl
  exact hidle conn hconn hpc

omit [Hmac] [Postcard] in
/-- The connections behind tasks are the same, and so are the sessions. -/
theorem Owned.congr (ho : h.Owned) (hsessions : h'.sessions = h.sessions)
    (hserves : ∀ {c i k : ℕ} {s : String}, h.Serves c i k s → h'.Serves c i k s) : h'.Owned where
  sessions w hw := ho.sessions w (hsessions ▸ hw)
  serves i w k s hw hs := by
    obtain ⟨c, hc⟩ := ho.serves i w k s (hsessions ▸ hw) hs
    exact ⟨c, hserves hc⟩

omit [Hmac] in
/-- A session's own task makes a step. -/
theorem Owned.act (ho : h.Owned) {i : ℕ} {b : Action} {w w' : World}
    (hown : b.own = true) (hw : h.sessions[i]? = some w)
    (hstep : { w with reg := h.reg }.step b = some w') :
    Owned { h with sessions := h.sessions.set i w', reg := w'.reg } := by
  obtain ⟨howned, howner⟩ := ho.sessions w (List.mem_of_getElem? hw)
  have howned' : World.Owned { w with reg := h.reg } :=
    ⟨howned.send, howned.conn, howned.last, howned.writing, howned.task⟩
  have hpeers' := World.peers_step hown hstep
  have hpeers : w'.peers = w.peers := hpeers'
  have hcreator : w'.creator = w.creator := (World.registered_step hstep).creator
  constructor
  · intro v hv
    rcases List.mem_or_eq_of_mem_set hv with hold | rfl
    · exact ho.sessions v hold
    · refine ⟨howned'.step hstep, ?_⟩
      rw [World.Owner, hpeers, hcreator]
      exact howner
  · intro j v k s hv hs
    rcases getElem?_set_eq_some hv with ⟨rfl, rfl⟩ | ⟨-, hj⟩
    · exact ho.serves _ w k s hw (hpeers ▸ hs)
    · exact ho.serves j v k s hj hs

omit [Postcard] in
/-- A connection that was heard is behind no task. -/
theorem Serves.heard {c₀ i k : ℕ} {s : String} {pc : ConnPc} {entry : Entry} {presented : Bytes}
    (hs : h.Serves c i k s) (hconn : h.conns[c₀]? = some conn) (hpc : conn.pc = .reading)
    (hverdict : h.Verdict conn presented u) : Serves ((u.enter c₀ entry).setConn c₀ pc) c i k s := by
  refine hs.mono fun conn' hconn' hpc' => ?_
  have hne : c₀ ≠ c := by
    rintro rfl
    cases hconn.symm.trans hconn'
    cases hpc.symm.trans hpc'
  refine getElem?_modify_eq_some.2 ⟨conn', getElem?_modify_eq_some.2 ⟨conn', ?_, ?_⟩, ?_⟩
  · rw [hverdict.same.1]
    exact hconn'
  · rw [if_neg hne]
  · rw [if_neg hne]

/-- A session is resumed: the new task is that of the connection. -/
theorem Owned.resumes (ho : h.Owned) {presented dec : Bytes} {i received : ℕ} {pings : Bool}
    {w w' : World} (hconn : h.conns[c]? = some conn) (hpc : conn.pc = .reading)
    (hverdict : h.Verdict conn presented u) (hw : h.sessions[i]? = some w)
    (hstep : { w with reg := h.reg }.step (.resume (encodeHex conn.peer) received pings dec) =
      some w') :
    Owned ({ u.enter c .resume with sessions := h.sessions.set i w', reg := w'.reg }.setConn c
      (.serving i w.tasks.length)) := by
  obtain ⟨howned, howner⟩ := ho.sessions w (List.mem_of_getElem? hw)
  have howned' : World.Owned { w with reg := h.reg } :=
    ⟨howned.send, howned.conn, howned.last, howned.writing, howned.task⟩
  have hpeers : w'.peers = w.peers ++ [encodeHex conn.peer] := by
    cases hstep
    simp [World.peers, World.resumeSession]
  have hcreator : w'.creator = w.creator := (World.registered_step hstep).creator
  have keep : ∀ {j k : ℕ} {s : String}, (∃ c, h.Serves c j k s) →
      ∃ c', Serves ({ u.enter c .resume with sessions := h.sessions.set i w', reg := w'.reg }.setConn
        c (.serving i w.tasks.length)) c' j k s := fun ⟨c', hs⟩ =>
    ⟨c', (hs.heard hconn hpc hverdict : Serves ((u.enter c .resume).setConn c
      (.serving i w.tasks.length)) c' _ _ _)⟩
  constructor
  · intro v hv
    rcases List.mem_or_eq_of_mem_set hv with hold | rfl
    · exact ho.sessions v hold
    · refine ⟨howned'.step hstep, ?_⟩
      have hlt : 0 < w.peers.length := (List.getElem?_eq_some_iff.1 howner).1
      rw [World.Owner, hpeers, hcreator, List.getElem?_append_left hlt]
      exact howner
  · intro j v k s hv hs
    rcases getElem?_set_eq_some hv with ⟨rfl, rfl⟩ | ⟨-, hj⟩
    · rw [hpeers] at hs
      rcases getElem?_concat_eq_some.1 hs with hold | ⟨rfl, rfl⟩
      · exact keep (ho.serves _ w k s hw hold)
      · have hc : u.conns[c]? = some conn := by
          rw [hverdict.same.1]
          exact hconn
        refine ⟨c, { conn with entry := some .resume, pc := .serving j w.tasks.length }, ?_, ?_, rfl⟩
        · exact getElem?_modify_eq_some.2
            ⟨_, getElem?_modify_eq_some.2 ⟨conn, hc, rfl⟩, by simp⟩
        · simp [World.peers]
    · exact keep (ho.serves j v k s hj hs)

omit [Hmac] [Postcard] in
/-- A session is started: it belongs to the device of the connection. -/
theorem Owned.startSession (ho : h.Owned) {dec : Bytes} (hconn : h.conns[c]? = some conn)
    (hpc : conn.pc = .starting dec) (id : SessionId) : (h.startSession c conn id dec).Owned := by
  constructor
  · intro v hv
    rcases List.mem_append.1 hv with hold | hnew
    · exact ho.sessions v hold
    · obtain rfl := List.mem_singleton.1 hnew
      refine ⟨⟨fun k hk => (by cases hk), fun k hk => (by cases hk), fun k hk => (by cases hk),
        fun b g k hb => (by cases hb), fun t ht _ => ?_⟩, rfl⟩
      obtain rfl := List.mem_singleton.1 ht
      rfl
  · intro i v k s hv hs
    rcases getElem?_concat_eq_some.1 hv with hold | ⟨rfl, rfl⟩
    · obtain ⟨c', hc'⟩ := ho.serves i v k s hold hs
      exact ⟨c', hc'.modify (fun conn' h' => by
        cases hconn.symm.trans h'
        simp [hpc]) rfl⟩
    · obtain ⟨rfl, rfl⟩ := getElem?_singleton_eq_some hs
      refine ⟨c, { conn with pc := .serving h.sessions.length 0 }, ?_, rfl, rfl⟩
      exact getElem?_modify_eq_some.2 ⟨conn, hconn, by simp⟩

/-- **Every step of the listener leaves the sessions with their creators.** -/
theorem Owned.step (ho : h.Owned) (hstep : h.step a = some h') : h'.Owned := by
  cases step_cases hstep with
  | accepts peer alpn =>
    refine ho.congr rfl fun hs => hs.mono fun conn hconn _ => ?_
    exact getElem?_concat_eq_some.2 (.inl hconn)
  | turns c₀ f hkeeps hpc =>
    exact ho.congr rfl fun hs => hs.modify (fun conn hconn => (hpc conn hconn).1 _ _) rfl
  | forwards hconn hpc hpresents hverdict =>
    exact ho.congr hverdict.same.2.1 fun hs => hs.heard hconn hpc hverdict
  | starts hconn hpc hpresents hverdict =>
    exact ho.congr hverdict.same.2.1 fun hs => hs.heard hconn hpc hverdict
  | misses hconn hpc hpresents hverdict =>
    exact ho.congr hverdict.same.2.1 fun hs => hs.heard hconn hpc hverdict
  | resumes hconn hpc hpresents hverdict hw hw' => exact ho.resumes hconn hpc hverdict hw hw'
  | connects id hconn hpc => exact ho.startSession hconn hpc id
  | session hown hw hw' =>
    exact ho.act hown hw hw'
  | elapses d =>
    constructor
    · intro v hv
      obtain ⟨w, hw, rfl⟩ := List.mem_map.1 hv
      obtain ⟨howned, howner⟩ := ho.sessions w hw
      exact ⟨⟨howned.send, howned.conn, howned.last, howned.writing, howned.task⟩, howner⟩
    · intro i v k s hv hs
      rw [List.getElem?_map] at hv
      obtain ⟨w, hw, rfl⟩ := Option.map_eq_some_iff.1 hv
      exact ho.serves i w k s hw hs
  | restarts token listenerId grace readable =>
    exact ⟨fun w hw => by simp [boot] at hw, fun i w k s hw => by simp [boot] at hw⟩

end Steps

end Host

/-! ## Runs -/

/-- The streams that are the session's, or that pump B writes to, are those of task `k`; or it was
attached last. -/
def World.Carries (w : World) (k : ℕ) : Prop :=
  w.st.conn = some k ∨ w.st.send = some k ∨ w.st.last = some k ∨ ∃ b g, w.pumpB = .writing b g k

/-- **Admission and resume authority.** Over every run of the listener, with its restarts:

* a connection reaches `tcp::forward`, `start_session` or `resume_session` in the step in which its
  handshake is complete, and only if no token is configured, its device is paired, or it presents
  the proof for the current token, this listener, its own authenticated id and its own ALPN;
* a paired device was in the store when the run began, or has presented such a proof itself;
* the connection that carries a session is one of the device whose connection created it.

**Proof sketch.** The verdict is one of three on both code paths, and only the right proof enrolls.
A resume is answered if it comes from the creator, and only tasks whose reply was written attach;
behind each task there is one connection. -/
theorem listener_admission [Hmac] [Postcard] {token : Option Bytes} {listenerId : Bytes}
    {grace : ℕ} {file : List String} {readable : Bool} {as : List HostAction} {h : Host}
    (hrun : Run.run Host.step (Host.boot token listenerId grace file readable) as = some h) :
    (∀ a h' c conn' e, h.step a = some h' → h'.conns[c]? = some conn' → conn'.entry = some e →
      (∃ conn, h.conns[c]? = some conn ∧ conn.entry = some e) ∨
        ∃ conn b persisted presented, a = .heard c (.chunk b) persisted ∧
          h.conns[c]? = some conn ∧ conn.peer = conn'.peer ∧ conn.alpn = conn'.alpn ∧
          conn.presents b = some presented ∧ h.Admits conn presented) ∧
    (∀ s ∈ h.paired, s ∈ load file ∨ ∃ bs a cs u, as = bs ++ a :: cs ∧
      Run.run Host.step (Host.boot token listenerId grace file readable) bs = some u ∧
      u.Enrolls a s) ∧
    (∀ (i : ℕ) (w : World) (k : ℕ), h.sessions[i]? = some w → w.Carries k →
      ∃ (c : ℕ) (conn : Conn) (c₀ : ℕ) (conn₀ : Conn),
        h.conns[c]? = some conn ∧ conn.pc = .serving i k ∧
        h.conns[c₀]? = some conn₀ ∧ conn₀.pc = .serving i 0 ∧ encodeHex conn₀.peer = w.creator ∧
        conn.peer = conn₀.peer) := by
  refine ⟨fun a h' c conn' e hstep hconn' hentry => Host.entry_step hstep hconn' hentry,
    fun s hs => ?_, fun i w k hw hcarries => ?_⟩
  · rcases Host.knows_run hrun (.inl hs) with (hpaired | hfile) | hpresented
    · cases readable with
      | true => exact .inl hpaired
      | false => cases hpaired
    · exact .inl hfile
    · exact .inr hpresented
  · have ho : h.Owned := Run.run_inv_of_step (fun _ _ _ ho hs => ho.step hs)
      ⟨fun w hw => by simp [Host.boot] at hw, fun i w k s hw => by simp [Host.boot] at hw⟩ hrun
    obtain ⟨howned, hfirst⟩ := ho.sessions w (List.mem_of_getElem? hw)
    have howner : w.Owner k := by
      rcases hcarries with hk | hk | hk | ⟨b, g, hk⟩
      · exact howned.conn k hk
      · exact howned.send k hk
      · exact howned.last k hk
      · exact howned.writing b g k hk
    obtain ⟨c, conn, hconn, hpc, hpeer⟩ := ho.serves i w k _ hw howner
    obtain ⟨c₀, conn₀, hconn₀, hpc₀, hpeer₀⟩ := ho.serves i w 0 _ hw hfirst
    exact ⟨c, conn, c₀, conn₀, hconn, hpc, hconn₀, hpc₀, hpeer₀,
      encodeHex_injective (hpeer.trans hpeer₀.symm)⟩

/-- An endpoint id, for runs on fixed inputs. -/
def samplePeer : Bytes := List.replicate 32 9

/-- A device pairs and opens a session, the listener is restarted with another token, and the device
opens a session and resumes it. -/
def pairThenResume : List HostAction :=
  [.accept samplePeer alpnV2, .opened 0 true,
    .heard 0 (.chunk (@encodeHello Postcard.golden
      ⟨@pairingProof Hmac.plain [1] [] samplePeer alpnV2, none⟩)) true,
    .restart (some [2]) [] 600 true,
    .accept samplePeer alpnV3, .opened 0 true,
    .heard 0 (.chunk (@encodeHello Postcard.golden ⟨[], none⟩)) false, .connected 0 sampleId,
    .session 0 (.replied 0 none), .accept samplePeer alpnV3, .opened 1 true,
    .heard 1 (.chunk (@encodeHello Postcard.golden ⟨[], some ⟨sampleId, 0⟩⟩)) false,
    .session 0 (.replied 1 none)]

/-- Along it, the device presented its proof in a step before the restart, and the session is carried
by its second connection. -/
theorem listener_admission_pairThenResume :
    ∃ h w, @Run.run _ _ (@Host.step Hmac.plain Postcard.golden)
        (Host.boot (some [1]) [] 600 [] true) pairThenResume = some h ∧
      h.sessions[0]? = some w ∧ w.Carries 1 ∧
      (∃ bs a cs u, pairThenResume = bs ++ a :: cs ∧
        @Run.run _ _ (@Host.step Hmac.plain Postcard.golden)
          (Host.boot (some [1]) [] 600 [] true) bs = some u ∧
        @Host.Enrolls Hmac.plain Postcard.golden u a (encodeHex samplePeer)) ∧
      ∃ (c : ℕ) (conn : Conn), h.conns[c]? = some conn ∧ conn.pc = .serving 0 1 := by
  have hrun : ∃ h w, @Run.run _ _ (@Host.step Hmac.plain Postcard.golden)
      (Host.boot (some [1]) [] 600 [] true) pairThenResume = some h ∧
      h.sessions[0]? = some w ∧ w.st.conn = some 1 ∧ h.paired = load [encodeHex samplePeer] :=
    ⟨_, _, rfl, rfl, rfl, rfl⟩
  obtain ⟨h, w, hh, hw, hconn, hpaired⟩ := hrun
  have hadmission := @listener_admission Hmac.plain Postcard.golden (some [1]) [] 600 [] true
    pairThenResume h hh
  have hmem : encodeHex samplePeer ∈ h.paired := by
    rw [hpaired, load, List.map_singleton, trim_encodeHex, List.mem_filter]
    refine ⟨List.mem_cons_self, ?_⟩
    simp [encodeHex, samplePeer, List.replicate, hexChars]
  obtain ⟨c, conn, -, -, hget, hpc, -⟩ := hadmission.2.2 0 w 1 hw (.inl hconn)
  exact ⟨h, w, hh, hw, .inl hconn,
    (hadmission.2.1 _ hmem).resolve_left (by simp [load]), c, conn, hget, hpc⟩

end Listener
