import Wosh.Client.Control

set_option relaxedAutoImplicit false
set_option autoImplicit false

/-!
# What the client applies in a step

A reader consumes the frames in its decoder up to the first violation, and a reader that came upon one
is over.

## Main definitions

* `Client.World.applying` — the reader that consumes frames in a step, and these.
* `Client.World.Retired` — a reader is over.

## Main results

* `Client.World.consumeFrame_control` — what a control frame changes.
* `Client.World.violation_step` — a ping or a pong without liveness ends the reader that finds it.
* `Client.World.Retired.not_applying` — such a reader consumes nothing any more.
-/

namespace Client

open Tunnel

namespace World

variable {w w' : World}

/-! ## Control frames -/

/-- **What a control frame changes**: it is not counted and feeds the core nothing, and only an
acknowledgement touches the replay buffer. -/
theorem consumeFrame_control (w : World) {f : Frame} (hf : f.control = true) :
    (w.consumeFrame f).1.received = w.received ∧ (w.consumeFrame f).1.fed = w.fed ∧
      (w.consumeFrame f).1.replay =
        f.ack?.elim w.replay fun n => w.replay.ack w.usize n.toNat := by
  cases f with
  | ack n => exact ⟨rfl, rfl, rfl⟩
  | ping p =>
    unfold consumeFrame
    dsimp only
    split_ifs <;> exact ⟨rfl, rfl, rfl⟩
  | pong p =>
    unfold consumeFrame
    dsimp only
    split_ifs <;> exact ⟨rfl, rfl, rfl⟩
  | data | hello | reply => cases hf

/-- A frame leaves the dialect alone. -/
theorem proto_consumeFrame (w : World) (f : Frame) : (w.consumeFrame f).1.proto = w.proto := by
  obtain ⟨p, -, -, hcons, -⟩ := w.consumed_frame f
  rw [hcons.only]

/-- **Nothing is consumed after a violation**: without liveness, what follows a ping or a pong is as if
it had not been there. -/
theorem consumeFrames_violation (fs : List Frame) {f : Frame} (hproto : w.proto ≠ .v3)
    (hf : f.liveness = true) (rest : List Frame) :
    w.consumeFrames (fs ++ f :: rest) = w.consumeFrames (fs ++ [f]) ∧
      (w.consumeFrames (fs ++ [f])).2.2.2 ≠ none := by
  induction fs generalizing w with
  | nil =>
    cases f with
    | ping p => simp [consumeFrames, consumeFrame, hproto]
    | pong p => simp [consumeFrames, consumeFrame, hproto]
    | data | ack | hello | reply => cases hf
  | cons g fs ih =>
    rw [List.cons_append, List.cons_append, consumeFrames, consumeFrames]
    split
    · exact ⟨rfl, by simp⟩
    · rename_i v fed wake heq
      have hv : v.proto ≠ .v3 := by
        have hkept := w.proto_consumeFrame g
        rw [heq] at hkept
        rw [hkept]
        exact hproto
      have hrest := ih hv
      exact ⟨by rw [hrest.1], hrest.2⟩

/-! ## Readers that are over -/

/-- Reader `g` is over. -/
def Retired (w : World) (g : ℕ) : Prop := ∃ r, w.readers[g]? = some r ∧ r.pc = .done

theorem Retired.kept {g : ℕ} (h : w.Retired g)
    (hreaders : Slots.Related Reader.Kept w.readers w'.readers) : w'.Retired g := by
  obtain ⟨r, hr, hdone⟩ := h
  obtain ⟨r', hr', hkept⟩ := hreaders.exists hr
  exact ⟨r', hr', hkept.done hdone⟩

theorem Retired.of_eq {g : ℕ} (h : w.Retired g) (hreaders : w'.readers = w.readers) :
    w'.Retired g := by
  obtain ⟨r, hr, hdone⟩ := h
  exact ⟨r, hreaders ▸ hr, hdone⟩

section Steps

variable [Postcard]

/-- Another reader consumed its decoder. -/
theorem Retired.digested {g j : ℕ} {seeded : Bool} {dec p : Bytes} (h : w.Retired j) (hne : j ≠ g)
    (hd : w.Digested w' g seeded dec p) : w'.Retired j := by
  obtain ⟨r, hr, hdone⟩ := h
  obtain ⟨r', hr', -⟩ := hd.quiet.readers.exists hr
  obtain ⟨r₀, hr₀, hkept⟩ := hd.other j r' hne hr'
  cases hr.symm.trans hr₀
  exact ⟨r', hr', hkept.done hdone⟩

theorem Retired.hear {g : ℕ} (h : w.Retired g) {l : Label} (hh : HearStep w l w') : w'.Retired g := by
  cases hh with
  | still hact hs => exact h.kept hs.readers
  | arrived c b hact harr =>
    obtain ⟨conn, -, hw, -⟩ := arrive_cases harr
    exact h.of_eq (by rw [hw])
  | vain j k r hr hstale =>
    exact h.kept (Slots.related_modify Reader.Kept.refl fun _ _ =>
      ⟨rfl, rfl, fun hs => (by cases hs), fun _ => rfl⟩)
  | seeded j r hact hr hpc hd =>
    refine h.digested ?_ hd
    rintro rfl
    obtain ⟨r₀, hr₀, hdone⟩ := h
    cases hr.symm.trans hr₀
    cases hpc.symm.trans hdone
  | read j k r hr hpc hcur hd =>
    have hne : g ≠ j := by
      rintro rfl
      obtain ⟨r₀, hr₀, hdone⟩ := h
      cases hr.symm.trans hr₀
      cases hpc.symm.trans hdone
    refine Retired.digested ?_ hne hd
    obtain ⟨r₀, hr₀, hdone⟩ := h
    refine ⟨r₀, Slots.getElem?_modify_eq_some.2 ⟨r₀, hr₀, ?_⟩, hdone⟩
    rw [if_neg (fun heq => hne heq.symm)]

theorem Retired.loopStep {g : ℕ} (h : w.Retired g) {a : Action} {i : ℕ} {loop : Loop} {n : Next}
    (hl : LoopStep w a i loop w' n) : w'.Retired g := by
  cases hl with
  | letGo c f n hw | dialed conn hw | opened c hw | helloed c hw | more c k hw =>
    exact h.of_eq (by rw [hw]; rfl)
  | installed c k p hc hshake htail hlive hact hinst =>
    obtain ⟨v, -, hv, -, -, hdrove⟩ := install_cases hinst
    refine Retired.kept ?_ hdrove.readers
    obtain ⟨r, hr, hdone⟩ := h
    refine ⟨r, Slots.getElem?_concat_eq_some.2 (.inl ?_), hdone⟩
    rw [hv]
    exact hr

/-- **A reader that is over stays so.** -/
theorem Retired.step {g : ℕ} (h : w.Retired g) (hframed : w.proto.framed = true) {l : Label}
    (hstep : w.step l = some w') : w'.Retired g := by
  obtain ⟨v, n, hpiece, hrest⟩ := hushed_step hstep
  refine Retired.kept ?_ hrest.readers
  rcases piece_cases hpiece with ⟨hact, -, -⟩ | ⟨j, t, -, hw⟩ | ⟨i, loop, -, -, hl⟩ | ⟨-, rfl, -⟩
  · exact h.hear (hear_cases hframed hact hpiece)
  · cases hw with
    | parked | done | pieces => exact h.of_eq rfl
    | round hcur hlive hpend hb => exact h.of_eq (by rw [hb.only])
  · exact h.loopStep hl
  · refine h.of_eq ?_
    unfold wake
    dsimp only
    split_ifs <;> rfl

/-- The reader that consumes frames in this step, and the frames that are in its decoder. -/
def applying (w : World) (l : Label) : Option (ℕ × List Frame) :=
  match l.act with
  | .pollReader g =>
    match w.readers[g]? with
    | some r => if r.pc = .seeded then some (g, (frames r.dec).1) else none
    | none => none
  | .read g n =>
    match w.readers[g]? with
    | some r =>
      if r.pc = .reading ∧ w.stale g = false ∧ w.waiting r.conn n ≠ [] then
        some (g, (frames (r.dec ++ w.waiting r.conn n)).1)
      else none
    | none => none
  | _ => none

/-- A reader that is over consumes nothing any more. -/
theorem Retired.not_applying {g : ℕ} (h : w.Retired g) (l : Label) (fs : List Frame) :
    w.applying l ≠ some (g, fs) := by
  obtain ⟨r, hr, hdone⟩ := h
  intro happly
  unfold applying at happly
  split at happly
  · split at happly
    · rename_i r₀ hr₀
      split_ifs at happly with hpc
      cases happly
      cases hr.symm.trans hr₀
      cases hdone.symm.trans hpc
    · cases happly
  · split at happly
    · rename_i r₀ hr₀
      split_ifs at happly with hpc
      cases happly
      cases hr.symm.trans hr₀
      cases hdone.symm.trans hpc.1
    · cases happly
  · cases happly

/-! ## Violations -/

/-- A decoder with a violation in it: its reader is over, and what it fed came before. -/
theorem readerConsume_violation {g : ℕ} {seeded : Bool} {dec : Bytes} {moves : List SshCore.Action}
    {n : Next} {r : Reader} (hr : w.readers[g]? = some r) (hproto : w.proto ≠ .v3)
    {before after : List Frame} {f : Frame} (hframes : (frames dec).1 = before ++ f :: after)
    (hf : f.liveness = true) (h : w.readerConsume g seeded dec moves = some (w', n)) :
    w'.Retired g ∧ w'.fed <+: w.fed ++ before.flatMap Frame.payload := by
  obtain ⟨happly, hobject⟩ := consumeFrames_violation before hproto hf after
  obtain ⟨p, hp, -, hcons, -⟩ := w.consumed_frames (before ++ [f])
  have hnone : f.payload = [] := by
    cases f with
    | data => cases hf
    | ack | hello | reply | ping | pong => rfl
  rw [List.flatMap_append, List.flatMap_singleton, hnone, List.append_nil] at hp
  -- the first of its frames that is a violation is where consuming them ends
  have herror : ∃ e, w.consume dec = ((w.consumeFrames (before ++ [f])).1, .error e) := by
    unfold consume
    dsimp only
    rw [hframes, happly]
    split
    · exact ⟨_, rfl⟩
    · rename_i hnone' _
      exact absurd hnone' hobject
    · rename_i hnone' _
      exact absurd hnone' hobject
  obtain ⟨e, he⟩ := herror
  unfold readerConsume at h
  rw [he] at h
  obtain ⟨v, hv, heq⟩ := Option.map_eq_some_iff.1 h
  cases heq
  have hstill := still_coreRounds hv
  refine ⟨?_, ?_⟩
  · have hreaders : (w.consumeFrames (before ++ [f])).1.readers = w.readers := by rw [hcons.only]
    obtain ⟨r', hr', -⟩ := hstill.readers.exists (hreaders.symm ▸ hr)
    exact ⟨{ r' with pc := .done }, Slots.getElem?_modify_eq_some.2 ⟨r', hr', by rw [if_pos rfl]⟩, rfl⟩
  · show v.fed <+: _
    rw [hstill.fed, hcons.fed]
    exact (List.prefix_append_right_inj _).2 hp

/-- **A ping or a pong on a connection without liveness is a violation**: the reader that finds it is
over, having fed nothing of what follows. -/
theorem violation_step (hframed : w.proto.framed = true) (hproto : w.proto ≠ .v3) {l : Label} {g : ℕ}
    {before after : List Frame} {f : Frame} (hstep : w.step l = some w')
    (happly : w.applying l = some (g, before ++ f :: after)) (hf : f.liveness = true) :
    w'.Retired g ∧ w'.fed <+: w.fed ++ before.flatMap Frame.payload := by
  obtain ⟨v, n, hpiece, hrest⟩ := hushed_step hstep
  have hv : v.Retired g ∧ v.fed <+: w.fed ++ before.flatMap Frame.payload := by
    obtain ⟨act, moves, dying⟩ := l
    unfold applying at happly
    dsimp only at happly
    split at happly
    · rename_i g'
      split at happly
      · rename_i r hr
        split_ifs at happly with hpc
        simp only [Option.some.injEq, Prod.mk.injEq] at happly
        obtain ⟨rfl, hframes⟩ := happly
        simp only [piece, pollReader, hr, hpc, if_true] at hpiece
        exact readerConsume_violation hr hproto hframes hf hpiece
      · cases happly
    · rename_i g' k
      split at happly
      · rename_i r hr
        split_ifs at happly with hpc
        obtain ⟨hreading, hcur, hwaiting⟩ := hpc
        simp only [Option.some.injEq, Prod.mk.injEq] at happly
        obtain ⟨rfl, hframes⟩ := happly
        have hstale : (w.takeInbox r.conn k).stale g' = false := hcur
        have hproto' : (w.takeInbox r.conn k).proto.framed = true := hframed
        simp only [piece, read, hr, hreading, ne_eq, not_true_eq_false, if_false, hstale, hwaiting,
          hproto', Bool.false_eq_true, Bool.true_eq_false] at hpiece
        refine readerConsume_violation
          (w := (w.takeInbox r.conn k).decode g' (r.dec ++ w.waiting r.conn k) .reading)
          (r := { r with dec := r.dec ++ w.waiting r.conn k, pc := .reading }) ?_ hproto hframes hf
          hpiece
        exact Slots.getElem?_modify_eq_some.2 ⟨r, hr, by rw [if_pos rfl]⟩
      · cases happly
    · cases happly
  exact ⟨hv.1.kept hrest.readers, by rw [hrest.fed]; exact hv.2⟩

end Steps

end World

end Client
