import Wosh.Hostkey.Sniff
import Wosh.Lib.Run
import Wosh.Listener.Session

set_option relaxedAutoImplicit false
set_option autoImplicit false

/-!
# What the sshd-side pumps hand on

Both paths of the listener read sshd's bytes in a pump that shows a copy of each chunk to a
host-key sniffer before it hands the chunk on. The raw path is `forward` of
`listener-core/src/tcp.rs`, which bridges one stream of a client to one TCP connection.

## Main definitions

* `Listener.Watch`, `Listener.Watch.take` — what such a pump has read, shown and handed on.
* `Listener.Watch.Guarded` — what it hands on: everything, until a key is refused.
* `Listener.Forward`, `Listener.Forward.step` — the state machine of `forward`.

## Main results

* `Listener.Watch.Sound.take` — a chunk that is taken keeps a pump guarded.
* `Listener.Forward.guarded_run` — the pump of the raw path is guarded along every run.

## Design

The answer of `observe` is part of the action whose bytes complete a key.
-/

namespace Listener

open Tunnel Hostkey

variable {Key : Type}

/-! ## A pump that watches -/

/-- The bytes a sshd-side pump has read, shown to its sniffer and handed on. -/
structure Watch (Key : Type) where
  sniffer : Sniffer Key := {}
  /-- History: the bytes read. -/
  read : Bytes := []
  /-- History: the bytes handed on. -/
  handed : Bytes := []
  /-- History: the key that `observe` refused. -/
  refused : Option Key := none
deriving DecidableEq

namespace Watch

/-- A copy of some bytes that were read goes to the sniffer, unless it has finished: the sniffer
after this, and the key it reports. -/
def shown (parse : Bytes → Option Key) (wt : Watch Key) (buf : Bytes) :
    Sniffer Key × Option Key :=
  if wt.sniffer.finished then (wt.sniffer, none) else wt.sniffer.feed parse buf

/-- A read has returned some bytes. They are shown to the sniffer and handed on, unless they
complete a key and `observe` refuses it. -/
def take (parse : Bytes → Option Key) (wt : Watch Key) (buf : Bytes) (refuses : Bool) :
    Watch Key :=
  let fed := wt.shown parse buf
  let wt := { wt with sniffer := fed.1, read := wt.read ++ buf }
  match fed.2, refuses with
  | some k, true => { wt with refused := some k }
  | _, _ => { wt with handed := wt.handed ++ buf }

/-- What is handed on is what was read, until a key is refused. From then on it is a beginning of
what was read, and the packet that carries the refused key ends behind it. -/
structure Guarded (parse : Bytes → Option Key) (wt : Watch Key) : Prop where
  unrefused : wt.refused = none → wt.handed = wt.read
  refused : ∀ k, wt.refused = some k →
    wt.handed <+: wt.read ∧ PresentsAfter parse k wt.read wt.handed.length

/-- The invariant: until a key is refused, the sniffer follows what was read. -/
structure Sound (parse : Bytes → Option Key) (wt : Watch Key) : Prop where
  guarded : wt.Guarded parse
  follows : wt.refused = none → wt.sniffer.Follows parse wt.read

variable {parse : Bytes → Option Key} {wt : Watch Key}

theorem sound_new : Sound parse ({} : Watch Key) where
  guarded := ⟨fun _ => rfl, fun k hk => by cases hk⟩
  follows _ := Sniffer.follows_new parse

/-- The sniffer keeps its place, and a key that it reports was not whole before. -/
theorem shown_spec {s : Bytes} (h : wt.sniffer.Follows parse s) (buf : Bytes) :
    (wt.shown parse buf).1.Follows parse (s ++ buf) ∧
      ∀ k, (wt.shown parse buf).2 = some k → PresentsAfter parse k (s ++ buf) s.length := by
  unfold shown
  split_ifs with hfinished
  · exact ⟨Sniffer.follows_of_done (by simpa [Sniffer.finished] using hfinished),
      fun k hk => by cases hk⟩
  · exact ⟨Sniffer.feed_follows h buf, fun k hk => Sniffer.feed_found h hk⟩

/-- **A pump that watches is guarded.** If a key is refused, its packet was not whole in what was
read before, and nothing is handed on of what completes it. -/
theorem Sound.take (h : wt.Sound parse) (hopen : wt.refused = none) (buf : Bytes)
    (refuses : Bool) : (wt.take parse buf refuses).Sound parse := by
  have hhanded := h.guarded.unrefused hopen
  have hfollows := h.follows hopen
  obtain ⟨hfollows', hfound⟩ := shown_spec hfollows buf
  have hhands : Sound parse { wt with
      sniffer := (wt.shown parse buf).1
      read := wt.read ++ buf
      handed := wt.handed ++ buf } := {
    guarded := {
      unrefused := fun _ => by simp only [hhanded]
      refused := fun k hk => by cases hopen.symm.trans hk }
    follows := fun _ => hfollows' }
  unfold Watch.take
  dsimp only
  cases hkey : (wt.shown parse buf).2 with
  | none => exact hhands
  | some k =>
    cases refuses with
    | false => exact hhands
    | true =>
      exact {
        guarded := {
          unrefused := fun hnone => by cases hnone
          refused := fun k' hk' => by
            cases hk'
            dsimp only
            rw [hhanded]
            exact ⟨List.prefix_append _ _, hfound k hkey⟩ }
        follows := fun hnone => by cases hnone }

/-- A chunk is handed on, or a key is refused. -/
theorem take_cases (parse : Bytes → Option Key) (wt : Watch Key) (buf : Bytes) (refuses : Bool) :
    (((wt.shown parse buf).2 = none ∨ refuses = false) ∧ wt.take parse buf refuses =
      { wt with
        sniffer := (wt.shown parse buf).1
        read := wt.read ++ buf
        handed := wt.handed ++ buf }) ∨
    ∃ k, (wt.shown parse buf).2 = some k ∧ refuses = true ∧ wt.take parse buf refuses =
      { wt with
        sniffer := (wt.shown parse buf).1
        read := wt.read ++ buf
        refused := some k } := by
  unfold take
  dsimp only
  cases (wt.shown parse buf).2 with
  | none => exact .inl ⟨.inl rfl, rfl⟩
  | some k =>
    cases refuses with
    | false => exact .inl ⟨.inr rfl, rfl⟩
    | true => exact .inr ⟨k, rfl, rfl, rfl⟩

end Watch

/-! ## The raw path -/

/-- The pump from the client's stream to the target. -/
inductive ToTcp
  /-- Awaiting the write of what was read, or of what the handshake left over. -/
  | writing (bytes : Bytes)
  | reading
  | done
deriving DecidableEq

/-- The pump from the target to the client's stream. -/
inductive FromTcp
  | reading
  /-- Awaiting the write of a chunk, whose read ended like this. -/
  | writing (result : StreamResult)
  | done
deriving DecidableEq

/-- Where `forward` stands. -/
inductive ForwardPc
  | connecting
  /-- In `join2_or_refuse`. -/
  | joining
  /-- Awaiting `send_done`. -/
  | closing
  | done (out : Except String String)
deriving DecidableEq

/-- One call of `forward`. -/
structure Forward (Key : Type) where
  target : String
  toTcp : ToTcp
  /-- How many bytes `to_tcp` was given for the target. -/
  sent : ℕ
  fromTcp : FromTcp := .reading
  /-- How many bytes `from_tcp` handed to the client's stream. -/
  received : ℕ := 0
  watch : Watch Key := {}
  pc : ForwardPc := .connecting
deriving DecidableEq

/-- How the target's socket came up. -/
inductive ConnectResult
  | connected
  | notCreated (e : String)
  | unreachable (e : String)
deriving DecidableEq

/-- What happens next to a call of `forward`. -/
inductive ForwardAction
  | connect (r : ConnectResult)
  /-- The write of `to_tcp` returns, having written this many bytes. -/
  | wroteTcp (n : ℕ)
  /-- Its read of the client's stream returns. -/
  | readStream (r : ReadResult)
  /-- The read of `from_tcp` returns; `refusal` is the answer of `observe` to a key that the bytes
  complete. -/
  | readTcp (buf : Bytes) (result : StreamResult) (refusal : Option String)
  /-- Its write to the client's stream returns. -/
  | wroteStream (ok : Bool)
  /-- `send_done` completes. -/
  | sent
deriving DecidableEq

namespace Forward

/-- `forward`, with the bytes `leading` left over by the handshake. -/
def start (target : String) (leading : Bytes) : Forward Key where
  target := target
  toTcp := if leading = [] then .reading else .writing leading
  sent := leading.length

/-- `join2_or_refuse`: both pumps have run to completion. -/
def settle (f : Forward Key) : Forward Key :=
  if f.toTcp = .done ∧ f.fromTcp = .done then { f with pc := .closing } else f

/-- The end of a turn of `from_tcp`. -/
def endTurn (f : Forward Key) (result : StreamResult) : Forward Key :=
  match result with
  | .complete => { f with fromTcp := .reading }
  | .dropped => { f with fromTcp := .done }
  | .cancelled => { f with fromTcp := .done }

/-- A read of `from_tcp` returns. A refusal ends the connection, other pump included. -/
def readTcp (parse : Bytes → Option Key) (f : Forward Key) (buf : Bytes) (result : StreamResult)
    (refusal : Option String) : Forward Key :=
  if buf = [] then (f.endTurn result).settle
  else
    let key := (f.watch.shown parse buf).2
    let f := { f with watch := f.watch.take parse buf refusal.isSome }
    match key, refusal with
    | some _, some e => { f with fromTcp := .done, pc := .done (.error e) }
    | _, _ => { f with received := f.received + buf.length, fromTcp := .writing result }

/-- One step of `forward`. -/
def step (parse : Bytes → Option Key) (f : Forward Key) : ForwardAction → Option (Forward Key)
  | .connect r =>
    if f.pc ≠ .connecting then none
    else
      match r with
      | .connected => some { f with pc := .joining }
      | .notCreated e => some { f with pc := .done (.error ("tcp create: " ++ e)) }
      | .unreachable e =>
        some { f with pc := .done (.error ("WARNING: could not reach the target " ++ f.target ++
          ": " ++ e ++ " -- is the service running? (--target sets it; this connection was " ++
          "dropped)")) }
  | .wroteTcp n =>
    if f.pc ≠ .joining then none
    else
      match f.toTcp with
      | .writing bytes =>
        if n < bytes.length then some { f with toTcp := .done }.settle
        else some { f with toTcp := .reading }
      | _ => none
  | .readStream r =>
    if f.pc ≠ .joining ∨ f.toTcp ≠ .reading then none
    else
      match r with
      | .chunk bytes =>
        some { f with sent := f.sent + bytes.length, toTcp := .writing bytes }
      | _ => some { f with toTcp := .done }.settle
  | .readTcp buf result refusal =>
    if f.pc ≠ .joining ∨ f.fromTcp ≠ .reading then none
    else some (f.readTcp parse buf result refusal)
  | .wroteStream ok =>
    if f.pc ≠ .joining then none
    else
      match f.fromTcp with
      | .writing result =>
        if ok then some (f.endTurn result).settle else some { f with fromTcp := .done }.settle
      | _ => none
  | .sent =>
    if f.pc ≠ .closing then none
    else
      some { f with pc := .done (.ok (toString f.sent ++ "B -> target, " ++
        toString f.received ++ "B <- target")) }

variable {parse : Bytes → Option Key} {f f' : Forward Key} {a : ForwardAction}

/-- The invariant: the pump is sound, and as long as it runs, no key was refused. -/
structure Watches (parse : Bytes → Option Key) (f : Forward Key) : Prop where
  sound : f.watch.Sound parse
  running : f.pc = .connecting ∨ f.pc = .joining → f.watch.refused = none

/-- A change of the other pump, or of where `forward` stands. -/
theorem Watches.congr (h : f.Watches parse) (hwatch : f'.watch = f.watch)
    (hpc : f'.pc = .connecting ∨ f'.pc = .joining → f.pc = .connecting ∨ f.pc = .joining) :
    f'.Watches parse := by
  refine ⟨?_, fun hrun => ?_⟩
  · rw [hwatch]
    exact h.sound
  · rw [hwatch]
    exact h.running (hpc hrun)

theorem Watches.settle (h : f.Watches parse) : f.settle.Watches parse := by
  unfold Forward.settle
  split_ifs
  · exact h.congr rfl (by simp)
  · exact h

theorem Watches.endTurn (h : f.Watches parse) (result : StreamResult) :
    (f.endTurn result).Watches parse := by
  unfold Forward.endTurn
  split <;> exact h.congr rfl fun hrun => hrun

/-- A read of `from_tcp` returns. -/
theorem Watches.readTcp (h : f.Watches parse) (hpc : f.pc = .joining) (buf : Bytes)
    (result : StreamResult) (refusal : Option String) :
    (f.readTcp parse buf result refusal).Watches parse := by
  have hopen := h.running (.inr hpc)
  have hsound := h.sound.take hopen buf refusal.isSome
  unfold Forward.readTcp
  split_ifs
  · exact (h.endTurn result).settle
  · dsimp only
    obtain ⟨hopens, htake⟩ | ⟨k, hkey, hrefuses, htake⟩ :=
      f.watch.take_cases parse buf refusal.isSome
    · rw [htake] at hsound ⊢
      split
      · rename_i k e hkey
        rcases hopens with hnone | hnone
        · cases hkey.symm.trans hnone
        · cases hnone
      · exact ⟨hsound, fun _ => hopen⟩
    · obtain ⟨e, rfl⟩ := Option.isSome_iff_exists.1 hrefuses
      rw [htake] at hsound ⊢
      rw [hkey]
      exact ⟨hsound, by simp⟩

/-- Every step keeps the pump sound. -/
theorem Watches.step (h : f.Watches parse) (hstep : f.step parse a = some f') :
    f'.Watches parse := by
  cases a with
  | connect r =>
    simp only [Forward.step] at hstep
    split_ifs at hstep with hpc
    rw [not_not] at hpc
    cases r <;> cases hstep <;> exact h.congr rfl (by simp [hpc])
  | wroteTcp n =>
    simp only [Forward.step] at hstep
    split_ifs at hstep with hpc
    split at hstep
    · have hdone : { f with toTcp := .done }.Watches parse := h.congr rfl fun hrun => hrun
      split_ifs at hstep <;> cases hstep
      · exact hdone.settle
      · exact h.congr rfl fun hrun => hrun
    · cases hstep
  | readStream r =>
    simp only [Forward.step] at hstep
    split_ifs at hstep with hpc
    have hdone : { f with toTcp := .done }.Watches parse := h.congr rfl fun hrun => hrun
    cases r <;> cases hstep
    · exact h.congr rfl fun hrun => hrun
    · exact hdone.settle
    · exact hdone.settle
  | readTcp buf result refusal =>
    simp only [Forward.step] at hstep
    split_ifs at hstep with hpc
    cases hstep
    rw [not_or, not_not] at hpc
    exact h.readTcp hpc.1 buf result refusal
  | wroteStream ok =>
    have hdone : { f with fromTcp := .done }.Watches parse := h.congr rfl fun hrun => hrun
    simp only [Forward.step] at hstep
    split_ifs at hstep <;> split at hstep <;> cases hstep
    · exact (h.endTurn _).settle
    · exact hdone.settle
  | sent =>
    simp only [Forward.step] at hstep
    split_ifs at hstep
    cases hstep
    exact h.congr rfl (by simp)

end Forward

end Listener
