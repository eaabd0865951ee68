import Wosh.Transfer.Progress

set_option relaxedAutoImplicit false
set_option autoImplicit false

/-!
# Downloads that overwrite

`plan_download` refuses to overwrite a sink that holds bytes. Every attempt of a download asks it
again, and after an interruption the bytes that the sink holds are those of the download's own
earlier attempts.

## Main definitions

* `Transfer.ServedAction.Continues` — an attempt continues from what the sink has committed.
* `Transfer.ServedAction.Fresh` — an attempt begins with nothing committed.

## Main results

* `Transfer.overwrite_continues_iff` — which downloads that overwrite survive their interruptions.
-/

namespace Transfer

open Tunnel (Bytes)

/-- Where an attempt of a download that overwrites is anchored, it does what a download without
`overwrite` does, or starts at what the sink has committed. -/
def ServedAction.Continues (d : Download) (a : ServedAction) : Prop :=
  ∀ remoteLen, a = .engine .committed → d.pc = .anchoring remoteLen →
    planDownload d.sink.flushed remoteLen true = planDownload d.sink.flushed remoteLen false ∨
    planDownload d.sink.flushed remoteLen true = .ok (.start d.sink.flushed)

/-- Where an attempt is anchored, nothing has been committed. -/
def ServedAction.Fresh (d : Download) (a : ServedAction) : Prop :=
  ∀ remoteLen, a = .engine .committed → d.pc = .anchoring remoteLen → d.sink.flushed = 0

/-- To overwrite a sink that holds bytes is refused. -/
theorem planDownload_overwrite_pos {committed : ℕ} (h : 0 < committed) (remoteLen : ℕ) :
    ∃ e, planDownload committed remoteLen true = .error ("overwrite needs an empty destination, " ++
      "but it already holds " ++ e) := by
  refine ⟨toString committed ++ " bytes: this component's sink is append-only (see transfer-io) " ++
    "and cannot truncate it -- hand over a fresh destination", ?_⟩
  unfold planDownload
  rw [if_pos rfl, if_pos h]
  refine congrArg Except.error ?_
  apply String.toList_inj.1
  simp [String.toList_append]

/-- Without `overwrite`, it is refused with another reason, if at all. -/
theorem planDownload_resume_ne (committed remoteLen : ℕ) (e : String) :
    planDownload committed remoteLen false ≠ .error ("overwrite needs an empty destination, " ++
      "but it already holds " ++ e) := by
  unfold planDownload
  rw [if_neg Bool.false_ne_true]
  split_ifs
  · intro h
    have hheads := congrArg (fun s : String => s.toList.head?) (Except.error.inj h)
    simp [String.toList_append] at hheads
  · intro h
    cases h
  · intro h
    cases h

/-- **One anchor.** An attempt continues from what is committed exactly when that is nothing. -/
theorem continues_iff (committed remoteLen : ℕ) :
    (planDownload committed remoteLen true = planDownload committed remoteLen false ∨
      planDownload committed remoteLen true = .ok (.start committed)) ↔ committed = 0 := by
  constructor
  · intro hcontinues
    by_contra hne
    obtain ⟨e, hrefused⟩ := planDownload_overwrite_pos (Nat.pos_of_ne_zero hne) remoteLen
    rw [hrefused] at hcontinues
    rcases hcontinues with hsame | hstart
    · exact planDownload_resume_ne committed remoteLen e hsame.symm
    · cases hstart
  · rintro rfl
    exact .inr rfl

/-- Where nothing has been committed, a step of a download that overwrites is that of one that
does not, but for an empty file, of which the latter reads nothing. -/
theorem stepServed_overwrite {d : Download} {a : ServedAction} (hfresh : a.Fresh d)
    (hfile : ∀ remoteLen, a = .engine .committed → d.pc = .anchoring remoteLen → 0 < remoteLen) :
    d.stepServed true a = d.stepServed false a := by
  cases a with
  | answer i resp => rfl
  | attrs size mtime => rfl
  | engine a =>
    cases a with
    | committed =>
      unfold Download.stepServed Download.step
      dsimp only
      cases hpc : d.pc with
      | anchoring remoteLen =>
        have hzero := hfresh remoteLen rfl hpc
        have hpos := hfile remoteLen rfl hpc
        have hplan : planDownload d.sink.flushed remoteLen true =
            planDownload d.sink.flushed remoteLen false := by
          rw [hzero]
          unfold planDownload
          rw [if_pos rfl, if_neg (Nat.lt_irrefl 0), if_neg Bool.false_ne_true,
            if_neg (Nat.not_lt_zero _), if_neg (Nat.ne_of_lt hpos)]
        refine congrArg some ?_
        unfold Download.anchor
        dsimp only
        rw [hplan]
      | _ => rfl
    | statted r => cases r <;> rfl
    | _ => rfl

/-- **Downloads that overwrite.** Along every run of a download that overwrites, with a sink that
holds nothing at first: every attempt continues from what the sink has committed, or does what one
of a download without `overwrite` would, exactly when every attempt is anchored with nothing
committed. The whole run is then one of a download without `overwrite`, unless the file is empty.

**Proof sketch.** Once something is committed, the plan of the next attempt is the refusal. -/
theorem overwrite_continues_iff (acts : List ServedAction) :
    (Run.Along (Download.stepServed true) (fun d a => a.Continues d) (Download.start []) acts ↔
      Run.Along (Download.stepServed true) (fun d a => a.Fresh d) (Download.start []) acts) ∧
    (Run.Along (Download.stepServed true) (fun d a => a.Fresh d ∧
        ∀ remoteLen, a = .engine .committed → d.pc = .anchoring remoteLen → 0 < remoteLen)
        (Download.start []) acts →
      Run.run (Download.stepServed true) (Download.start []) acts =
        Run.run (Download.stepServed false) (Download.start []) acts) := by
  have hcongr : (fun d a => ServedAction.Continues d a) = fun d a => ServedAction.Fresh d a := by
    funext d a
    refine propext (forall_congr' fun remoteLen => ?_)
    refine imp_congr_right fun _ => imp_congr_right fun _ => ?_
    exact continues_iff d.sink.flushed remoteLen
  rw [hcongr]
  refine ⟨Iff.rfl, ?_⟩
  generalize Download.start [] = d
  intro h
  induction acts generalizing d with
  | nil => rfl
  | cons a acts ih =>
    unfold Run.run
    rw [← stepServed_overwrite h.1.1 h.1.2]
    cases hstep : d.stepServed true a with
    | none => rfl
    | some d' => exact ih d' (h.2 d' hstep)

/-- A download that overwrites a fresh sink; its channel dies once the first of two bytes is
flushed, and another attempt begins. -/
def overwriteInterrupted : List ServedAction :=
  ([.engine (.channel (some byByte))] : List ServedAction) ++ opensServed 2 ++
    ([.engine .round, .answer 0 (.data [1]), .engine .rested, .engine (.wrote none),
      .engine .committed, .engine (.die "closed"), .engine .round, .engine (.flushed none),
      .engine (.channel (some byByte)), .engine .rested, .engine (.ensured none),
      .engine (.opened none), .attrs (some 2) none] : List ServedAction)

/-- The next attempt refuses the byte that the first one committed, and the transfer fails. -/
theorem not_overwrite_continues :
    ((Run.run (Download.stepServed true) (Download.start [])
        (overwriteInterrupted ++ [.engine .committed, .engine .closed])).map
      fun d => (d.sink.flushed, d.shared.outcome.isSome, d.sink.content)) = some (1, true, [1]) ∧
    ¬ Run.Along (Download.stepServed true) (fun d a => a.Continues d) (Download.start [])
      (overwriteInterrupted ++ [.engine .committed, .engine .closed]) := by
  refine ⟨by decide, fun h => ?_⟩
  have hagain := (h.after rfl).1 2 rfl rfl
  exact absurd ((continues_iff 1 2).1 hagain) (by decide)

end Transfer
