import Wosh.Client.Tasks

set_option relaxedAutoImplicit false
set_option autoImplicit false

/-!
# What a session writes

Only the writers write on the connections of a session, and what they write are frames that may
follow the handshake: short pieces of items and tails, and control frames.

## Main definitions

* `Client.World.wireOf` — what was written on a connection.
* `Client.World.Speaks` — what a step writes.
* `Client.World.Cut` — the invariant of the pieces that are still to be written.

## Main results

* `Client.World.speaks_step` — what every step of a session with frames writes.
* `Client.World.spells_run` — every connection carries frames that its peer accepts.
-/

namespace Client

open Tunnel

namespace World

variable {w v w' : World}

/-- What was written on a connection after its hello. -/
def wireOf (w : World) (c : ℕ) : List Bytes := ((w.conns[c]?).map Conn.wire).getD []

theorem wireOf_eq {c : ℕ} {conn : Conn} (hc : w.conns[c]? = some conn) : w.wireOf c = conn.wire := by
  simp [wireOf, hc]

/-- Nothing is written. -/
def Mute (w w' : World) : Prop := ∀ c, w'.wireOf c = w.wireOf c

theorem Mute.trans (h : w.Mute v) (h' : v.Mute w') : w.Mute w' := fun c => (h' c).trans (h c)

/-- The connections are as they were, but for what does not matter here. -/
theorem mute_of_related (h : Slots.Related (fun a b : Conn => b.wire = a.wire) w.conns w'.conns) :
    w.Mute w' := by
  intro c
  cases hc : w'.conns[c]? with
  | none =>
    have hlen := h.length_eq
    rw [List.getElem?_eq_none_iff] at hc
    have hc' : w.conns[c]? = none := List.getElem?_eq_none_iff.2 (by omega)
    simp [wireOf, hc', List.getElem?_eq_none_iff.2 hc]
  | some conn' =>
    obtain ⟨a, ha, hwire⟩ := h.slot hc
    rw [wireOf_eq hc, wireOf_eq ha, hwire]

theorem mute_of_eq (h : w'.conns = w.conns) : w.Mute w' := by
  intro c
  rw [wireOf, wireOf, h]

/-- One of them may have been read or closed. -/
theorem mute_of_heard (h : Slots.Related Conn.Heard w.conns w'.conns) : w.Mute w' :=
  mute_of_related ⟨h.length_eq, fun hc =>
    let ⟨a, ha, hheard⟩ := h.slot hc
    ⟨a, ha, by rw [hheard]⟩⟩

theorem mute_of_same (h : Slots.Related Conn.Same w.conns w'.conns) : w.Mute w' :=
  mute_of_related ⟨h.length_eq, fun hc =>
    let ⟨a, ha, hsame⟩ := h.slot hc
    ⟨a, ha, by rw [hsame]⟩⟩

theorem mute_modify {c : ℕ} {f : Conn → Conn} (h : w'.conns = w.conns.modify c f)
    (hf : ∀ conn, (f conn).wire = conn.wire) : w.Mute w' := by
  apply mute_of_related
  rw [h]
  refine Slots.related_modify ?_ ?_
  · exact fun _ => rfl
  · exact fun conn _ => hf conn

section Steps

variable [Postcard]

/-- What a step writes on each connection: frames that may follow the handshake; an acknowledgement
carries the count of that moment, and a step that writes a control frame neither counts nor records
session bytes. -/
def Speaks (w w' : World) : Prop :=
  ∀ c, ∃ fs, w'.wireOf c = w.wireOf c ++ fs ∧ Spells fs ∧
    (∀ n ∈ acksOf (heard fs), n = UInt64.ofNat w.received) ∧
    ∀ f ∈ heard fs, f.control = true → w'.received = w.received ∧ w'.replay = w.replay

theorem Mute.speaks (h : w.Mute w') : w.Speaks w' :=
  fun c => ⟨[], by rw [h c, List.append_nil], spells_nil, by simp [acksOf], by simp⟩

/-- Something is written on one connection. -/
theorem speaks_write {c : ℕ} {fs : List Bytes}
    (h : w'.conns = w.conns.modify c fun conn => { conn with wire := conn.wire ++ fs })
    (hspells : Spells fs) (hacks : ∀ n ∈ acksOf (heard fs), n = UInt64.ofNat w.received)
    (hcontrol : ∀ f ∈ heard fs, f.control = true →
      w'.received = w.received ∧ w'.replay = w.replay) : w.Speaks w' := by
  intro c'
  have hmute : w'.wireOf c' = w.wireOf c' ∨ w'.wireOf c' = w.wireOf c' ++ fs := by
    unfold wireOf
    rw [h]
    cases hc : w.conns[c']? with
    | none => simp [List.getElem?_modify, hc]
    | some conn => by_cases hcc : c = c' <;> simp [hc, hcc]
  rcases hmute with heq | heq
  · exact ⟨[], by rw [heq, List.append_nil], spells_nil, by simp [acksOf], by simp⟩
  · exact ⟨fs, heq, hspells, hacks, hcontrol⟩

/-- What the writers have yet to write are short DATA frames. -/
def Cut (w : World) : Prop := ∀ (g : ℕ) (t : Writer), w.writers[g]? = some t → t.pc.Cut

theorem Cut.of_eq (h : w.Cut) (heq : w'.writers = w.writers) : w'.Cut :=
  fun g t ht => h g t (heq ▸ ht)

theorem Cut.modify (h : w.Cut) {g : ℕ} (pc : WriterPc) (hpc : pc.Cut)
    (heq : w'.writers = w.writers.modify g fun t => { t with pc := pc }) : w'.Cut := by
  intro j t ht
  rw [heq] at ht
  obtain ⟨t₀, ht₀, rfl⟩ := Slots.getElem?_modify_eq_some.1 ht
  split_ifs
  · exact hpc
  · exact h j t₀ ht₀

theorem writerStep_speaks (hframed : w.proto.framed = true) (hcut : w.Cut) {a : Action} {g : ℕ}
    {t : Writer} {n : Next} (ht : w.writers[g]? = some t) (hw : WriterStep w a g t w' n) :
    w.Speaks w' ∧ w'.Cut := by
  cases hw with
  | parked => exact ⟨(mute_of_eq rfl).speaks, hcut.modify .parked trivial rfl⟩
  | done n hn => exact ⟨(mute_of_eq rfl).speaks, hcut.modify .done trivial rfl⟩
  | pieces fs hlive hidle h hpieces =>
    obtain ⟨hfs, hpc⟩ := hpieces hframed (hcut g t ht)
    obtain ⟨ps, hps⟩ := hfs.heard
    refine ⟨speaks_write rfl hfs.spells (fun n hn => ?_) fun f hf hcontrol => ?_,
      hcut.modify _ hpc rfl⟩
    · rw [hps, mem_acksOf] at hn
      simp at hn
    · rw [hps] at hf
      obtain ⟨p, -, rfl⟩ := List.mem_map.1 hf
      cases hcontrol
  | round hcur hlive hpend hb =>
    obtain ⟨fs, pc, hws, hcs, -, -, hsaid⟩ := hb.wire
    obtain ⟨hpc, hsaid⟩ := hsaid hframed
    have hreceived : w'.received = w.received := by rw [hb.only]
    exact ⟨speaks_write hcs hsaid.spells hsaid.acks fun f hf hcontrol =>
      ⟨hreceived, hsaid.control f hf hcontrol⟩, hcut.modify pc hpc hws⟩

theorem loopStep_mute {a : Action} {i : ℕ} {loop : Loop} {n : Next}
    (hl : LoopStep w a i loop w' n) : w.Mute w' ∧ (w.Cut → w'.Cut) := by
  cases hl with
  | letGo c f n hw hc hf hread hgap hconns hpc hn hgen hover =>
    rename_i loop' conns
    have hread : w.Mute { w with conns := w.conns.modify c f } :=
      mute_modify rfl fun conn => by rw [hf conn]
    refine ⟨hread.trans (mute_of_same ?_), fun h => h.of_eq (by rw [hw]; rfl)⟩
    rw [hw]
    exact hconns
  | dialed conn hw hconn hpc hgen hover =>
    refine ⟨fun c => ?_, fun h => h.of_eq (by rw [hw]; rfl)⟩
    have hconns : w'.conns = w.conns ++ [conn] := by rw [hw]; rfl
    have hwire : conn.wire = [] := by rw [hconn]
    rcases Nat.lt_trichotomy c w.conns.length with hlt | rfl | hgt
    · rw [wireOf, wireOf, hconns, List.getElem?_append_left hlt]
    · simp [wireOf, hconns, hwire]
    · have hnone : w.conns[c]? = none := List.getElem?_eq_none_iff.2 (Nat.le_of_lt hgt)
      have hnone' : w'.conns[c]? = none := by
        rw [hconns, List.getElem?_eq_none_iff, List.length_append, List.length_singleton]
        exact hgt
      simp [wireOf, hnone, hnone']
  | opened c hw hc hpc hgen =>
    refine ⟨?_, fun h => h.of_eq (by rw [hw]; rfl)⟩
    rw [hw]
    exact mute_modify rfl fun _ => rfl
  | helloed c hw hc hpc hgen =>
    rw [hw]
    exact ⟨mute_of_eq rfl, fun h => h.of_eq rfl⟩
  | more c k hw hc hshake hpc hgen =>
    rw [hw]
    refine ⟨?_, fun h => h.of_eq rfl⟩
    exact mute_modify rfl fun _ => rfl
  | installed c k p hc hshake htail hlive hact hinst =>
    obtain ⟨v, -, hv, -, -, hdrove⟩ := install_cases hinst
    have htake : w.Mute (w.takeInbox c k) := mute_modify rfl fun _ => rfl
    have hresumed : (w.takeInbox c k).Mute ((w.takeInbox c k).resumed i loop c p.toNat) :=
      mute_modify rfl fun _ => rfl
    have hadopt : ((w.takeInbox c k).resumed i loop c p.toNat).Mute v := by
      rw [hv]
      exact mute_modify rfl fun _ => rfl
    refine ⟨((htake.trans hresumed).trans hadopt).trans (mute_of_same hdrove.conns), fun h => ?_⟩
    rename_i dec' tail deferred deferred' moves
    have hws : w'.writers = w.writers ++ [⟨c, .spawned tail⟩] := by
      rw [hdrove.only]
      show v.writers ++ _ = _
      rw [hv]
      rfl
    intro g t ht
    rw [hws] at ht
    rcases Slots.getElem?_concat_eq_some.1 ht with ht | ⟨-, rfl⟩
    · exact h g t ht
    · trivial

theorem speaks_piece (hframed : w.proto.framed = true) (hcut : w.Cut) {l : Label} {n : Next}
    (hpiece : w.piece l = some (w', n)) : w.Speaks w' ∧ w'.Cut := by
  rcases piece_cases hpiece with ⟨-, hq, -⟩ | ⟨g, t, ht, hw⟩ | ⟨i, loop, -, -, hl⟩ | ⟨-, rfl, -⟩
  · exact ⟨(mute_of_heard hq.conns).speaks, hcut.of_eq (by rw [hq.only])⟩
  · exact writerStep_speaks hframed hcut ht hw
  · obtain ⟨hmute, hkeeps⟩ := loopStep_mute hl
    exact ⟨hmute.speaks, hkeeps hcut⟩
  · have hsame : w.wake.conns = w.conns ∧ w.wake.writers = w.writers := by
      unfold wake
      dsimp only
      split_ifs <;> exact ⟨rfl, rfl⟩
    exact ⟨(mute_of_eq hsame.1).speaks, hcut.of_eq hsame.2⟩

omit [Postcard] in
/-- What follows a piece writes nothing, neither counts nor records session bytes, and brings no
reader back. -/
structure Hushed (w w' : World) : Prop where
  mute : w.Mute w'
  writers : w'.writers = w.writers
  received : w'.received = w.received
  fed : w'.fed = w.fed
  replay : w'.replay = w.replay
  readers : Slots.Related Reader.Kept w.readers w'.readers

omit [Postcard] in
theorem Hushed.trans (h : w.Hushed v) (h' : v.Hushed w') : w.Hushed w' where
  mute := h.mute.trans h'.mute
  writers := h'.writers.trans h.writers
  received := h'.received.trans h.received
  fed := h'.fed.trans h.fed
  replay := h'.replay.trans h.replay
  readers := h.readers.trans Reader.Kept.trans h'.readers

omit [Postcard] in
/-- The connections, the readers and the traffic are left alone. -/
theorem hushed_of_eq (hconns : w'.conns = w.conns) (hwriters : w'.writers = w.writers)
    (hreceived : w'.received = w.received) (hfed : w'.fed = w.fed) (hreplay : w'.replay = w.replay)
    (hreaders : w'.readers = w.readers) : w.Hushed w' :=
  ⟨mute_of_eq hconns, hwriters, hreceived, hfed, hreplay, hreaders ▸ .refl Reader.Kept.refl _⟩

omit [Postcard] in
theorem hushed_settle (w : World) (n : Next) : w.Hushed (w.settle n).1 := by
  have hsame : w.Hushed w := hushed_of_eq rfl rfl rfl rfl rfl rfl
  refine settle_rule (P := w.Hushed) hsame n (hushed_of_eq rfl rfl rfl rfl rfl rfl) (fun g => ?_)
    fun hv ht => hv.trans ?_
  · exact ⟨mute_of_same (same_closeConn w.conns w.conn), rfl, rfl, rfl, rfl,
      .refl Reader.Kept.refl _⟩
  · cases ht <;> exact hushed_of_eq rfl rfl rfl rfl rfl rfl

omit [Postcard] in
theorem Drove.hushed (h : w.Drove w') : w.Hushed w' :=
  ⟨mute_of_same h.conns, by rw [h.only], by rw [h.only], by rw [h.only], by rw [h.only], h.readers⟩

omit [Postcard] in
theorem hushed_declareDead {reason : String} {moves : List SshCore.Action}
    (h : w.declareDead reason moves = some w') : w.Hushed w' := by
  unfold declareDead at h
  split_ifs at h
  · cases h
    exact hushed_of_eq rfl rfl rfl rfl rfl rfl
  · obtain ⟨v, hv, rfl⟩ := Option.map_eq_some_iff.1 h
    obtain ⟨core, -, rfl⟩ := Option.map_eq_some_iff.1 hv
    have hmark : w.Hushed { w.markDead with core := core } := hushed_of_eq rfl rfl rfl rfl rfl rfl
    exact hmark.trans (drove_driveTurn _ _).hushed

/-- A step, and what follows its piece. -/
theorem hushed_step {l : Label} (hstep : w.step l = some w') :
    ∃ v n, w.piece l = some (v, n) ∧ v.Hushed w' := by
  obtain ⟨v, n, hpiece, hsettle⟩ := step_cases hstep
  refine ⟨v, n, hpiece, ?_⟩
  rcases hsettle with ⟨-, rfl⟩ | ⟨reason, -, hdie⟩
  · exact v.hushed_settle n
  · exact (v.hushed_settle n).trans (hushed_declareDead hdie)

/-- **What a step writes**, in a session with frames. -/
theorem speaks_step (hframed : w.proto.framed = true) (hcut : w.Cut) {l : Label}
    (hstep : w.step l = some w') : w.Speaks w' ∧ w'.Cut := by
  obtain ⟨v, n, hpiece, hrest⟩ := hushed_step hstep
  obtain ⟨hspeaks, hcut'⟩ := speaks_piece hframed hcut hpiece
  refine ⟨fun c => ?_, hcut'.of_eq hrest.writers⟩
  obtain ⟨fs, hfs, hspells, hacks, hcontrol⟩ := hspeaks c
  refine ⟨fs, (hrest.mute c).trans hfs, hspells, hacks, fun f hf hf' => ?_⟩
  obtain ⟨hreceived, hreplay⟩ := hcontrol f hf hf'
  exact ⟨hrest.received.trans hreceived, hrest.replay.trans hreplay⟩

/-- What was written stays acceptable. -/
theorem Speaks.spells (h : w.Speaks w') (hold : ∀ c, Spells (w.wireOf c)) (c : ℕ) :
    Spells (w'.wireOf c) := by
  obtain ⟨fs, hfs, hspells, -⟩ := h c
  rw [hfs]
  exact (hold c).append hspells

/-- Nothing is written yet when a session begins. -/
theorem wireOf_connect {d : Dial} {moves : List SshCore.Action} (h : World.connect d moves = some w)
    (c : ℕ) : w.wireOf c = [] := by
  obtain ⟨id, dec, hello, pc, deferred, hbegin, -⟩ := connect_cases h
  have hmute := mute_of_heard (quiet_begin hbegin).conns
  rw [hmute c]
  cases c <;> rfl

theorem cut_connect {d : Dial} {moves : List SshCore.Action} (h : World.connect d moves = some w) :
    w.Cut := by
  obtain ⟨id, dec, hello, pc, deferred, hbegin, -⟩ := connect_cases h
  have hws : w.writers = [⟨0, .spawned []⟩] := by rw [(quiet_begin hbegin).only]; rfl
  intro g t ht
  rw [hws] at ht
  obtain ⟨-, rfl⟩ := Slots.getElem?_singleton_eq_some ht
  trivial

/-- **Every connection of a session with frames carries frames that its peer accepts.** -/
theorem spells_run {d : Dial} (hframed : d.proto.framed = true) {moves : List SshCore.Action}
    {w₀ : World} (hconn : World.connect d moves = some w₀) {ls : List Label}
    (hrun : Run.run World.step w₀ ls = some w) (c : ℕ) : Spells (w.wireOf c) := by
  have hall : w.Tasks ∧ w.Cut ∧ ∀ c, Spells (w.wireOf c) := by
    refine Run.run_inv_of_step (P := fun w => w.Tasks ∧ w.Cut ∧ ∀ c, Spells (w.wireOf c)) ?_
      ⟨tasks_connect hframed hconn, cut_connect hconn, fun c => ?_⟩ hrun
    · rintro u l u' ⟨ht, hcut, hspells⟩ hstep
      obtain ⟨hspeaks, hcut'⟩ := speaks_step ht.framed hcut hstep
      exact ⟨ht.step hstep, hcut', hspeaks.spells hspells⟩
    · rw [wireOf_connect hconn]
      exact spells_nil
  exact hall.2.2 c

end Steps

end World

end Client
