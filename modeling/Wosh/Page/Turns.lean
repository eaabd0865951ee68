import Wosh.Lib.Run
import Wosh.Lib.Slots

set_option relaxedAutoImplicit false
set_option autoImplicit false

/-!
# Calls of a session take turns

A call that comes while another is still inside the component traps, and a trap is for good. So the page
calls its session in single file: `serializeSession` and `enterPatiently` of `site/app.mjs`.

## Main definitions

* `Turns.wrapped` — what the functions of the wrapped session call, and how.
* `Turns.step` — the transition function.
* `Turns.Sound` — the invariant.

## Main results

* `Turns.single_file` — a gated call knocks when those before it are through, and none after it has.
* `Turns.knocks` — a call is repeated only as long as the door was closed, and a bounded number of times.
* `Turns.never_jams` — no call waits for good, unless the component never answers.

## Design

What the component answers, and when, is in the actions. A call that is refused at the door and one that
is let in are both an attempt here: the page does not know which it was before the answer.
-/

namespace Turns

open Run Slots

/-! ## The wrapped session -/

/-- The functions of a session. -/
inductive Method
  | status | linkState | closeKind | hostKeyFingerprint
  | confirmHostKey | authenticatePassword | authenticatePublickey
  | authenticatePasskey | authenticateInteractive | authenticateAuto
  | pendingPrompts | answerPrompts | writeInput | resize
  | drainOutput | exited | exitStatus | detach | suspend | wake
  | authenticate
  | listDir | upload | download
  | probe
deriving DecidableEq

/-- `GATED`. -/
def gated : List Method :=
  [.status, .linkState, .closeKind, .hostKeyFingerprint,
    .confirmHostKey, .authenticatePassword, .authenticatePublickey,
    .authenticatePasskey, .authenticateInteractive, .authenticateAuto,
    .pendingPrompts, .answerPrompts, .writeInput, .resize,
    .drainOutput, .exited, .exitStatus, .detach, .suspend, .wake,
    .authenticate,
    .listDir, .upload, .download]

/-- The functions of the wrapped session. -/
inductive Key
  | closeKindRaw
  | named (m : Method)
deriving DecidableEq

/-- How a call gets to the session. -/
inductive Way
  /-- As it is. -/
  | raw
  /-- With `enterPatiently`. -/
  | patient
  /-- The same, after the calls before it. -/
  | chained
deriving DecidableEq

/-- What a function of the wrapped session calls, if the session has it. -/
def wrapped (has : Method → Bool) : Key → Option (Method × Way)
  | .closeKindRaw => if has .closeKind then some (.closeKind, .raw) else none
  | .named m =>
    if has m then
      if m ∈ gated then some (m, .chained) else if m = .probe then some (m, .patient) else none
    else none

/-! ## The state -/

/-- What a call throws: `e?.message`, and the text of `e`. -/
structure Thrown where
  message : Option String
  text : String
deriving DecidableEq

/-- The door was closed. -/
def Thrown.busy (e : Thrown) : Bool :=
  "reentrance forbidden".toList <:+: (e.message.getD e.text).toList

/-- The variables of `enterPatiently`. -/
structure Patience where
  deadline : ℕ
  delay : ℕ
deriving DecidableEq

def budgetMs : ℕ := 15000

/-- `enterPatiently` begins. -/
def Patience.begin (now : ℕ) : Patience := ⟨now + budgetMs, 5⟩

inductive Phase (ρ : Type*)
  /-- The calls before it are not through. -/
  | queued
  /-- The session has been called. -/
  | calling (p : Option Patience)
  /-- The door was closed, and it tries again when the timer has run out. -/
  | sleeping (p : Patience) (wake : ℕ)
  | settled (r : Except Thrown ρ)

/-- A call, with the one whose end it awaits. -/
structure Call (α ρ : Type*) where
  method : Method
  way : Way
  args : α
  after : Option ℕ
  phase : Phase ρ

/-- What happens to a call. -/
inductive Deed (ρ : Type*)
  | made (w : Way)
  /-- The session is called. -/
  | knocked
  /-- The door was closed, and it will be tried again. -/
  | refused (e : Thrown)
  | returned (r : Except Thrown ρ)

/-- An entry of the log. -/
structure Entry (ρ : Type*) where
  call : ℕ
  deed : Deed ρ

structure State (α ρ : Type*) where
  now : ℕ := 0
  /-- The call that `chain` awaits. -/
  chain : Option ℕ := none
  calls : List (Call α ρ) := []
  /-- History: what has happened, in order. -/
  log : List (Entry ρ) := []

/-- What happens next. -/
inductive Action (α ρ : Type*)
  /-- The page calls a function of the wrapped session. -/
  | make (k : Key) (args : α)
  /-- The calls before it are through. -/
  | turn (i : ℕ)
  /-- The session answers. -/
  | reply (i : ℕ) (r : Except Thrown ρ)
  /-- The timer has run out. -/
  | wake (i : ℕ)
  | pass (ms : ℕ)

/-- A call goes on. -/
def Action.goesOn {α ρ : Type*} : Action α ρ → Bool
  | turn _ | reply _ _ | wake _ => true
  | _ => false

section Steps

variable {α ρ : Type*}

def Phase.isSettled : Phase ρ → Bool
  | settled _ => true
  | _ => false

def Phase.isQueued : Phase ρ → Bool
  | queued => true
  | _ => false

namespace State

variable (s : State α ρ)

/-- A call goes on. -/
def put (i : ℕ) (p : Phase ρ) (d : Deed ρ) : State α ρ :=
  { s with calls := s.calls.modify i fun c => { c with phase := p }, log := s.log ++ [⟨i, d⟩] }

/-- The call that it awaits is through. -/
def through (after : Option ℕ) : Bool :=
  match after with
  | none => true
  | some j => (s.calls[j]?).any fun c => c.phase.isSettled

/-- A new call. -/
def make (m : Method) (w : Way) (args : α) : State α ρ :=
  let i := s.calls.length
  match w with
  | .chained =>
    { s with
      chain := some i
      calls := s.calls ++ [⟨m, w, args, s.chain, .queued⟩]
      log := s.log ++ [⟨i, .made w⟩] }
  | .patient =>
    { s with
      calls := s.calls ++ [⟨m, w, args, none, .calling (some (.begin s.now))⟩]
      log := s.log ++ [⟨i, .made w⟩, ⟨i, .knocked⟩] }
  | .raw =>
    { s with
      calls := s.calls ++ [⟨m, w, args, none, .calling none⟩]
      log := s.log ++ [⟨i, .made w⟩, ⟨i, .knocked⟩] }

/-- What `enterPatiently` does with an answer. -/
def answer (i : ℕ) (p : Option Patience) (r : Except Thrown ρ) : State α ρ :=
  match r, p with
  | .error e, some p =>
    if !e.busy || s.now > p.deadline then s.put i (.settled r) (.returned r)
    else s.put i (.sleeping { p with delay := min (p.delay * 2) 50 } (s.now + p.delay)) (.refused e)
  | r, _ => s.put i (.settled r) (.returned r)

end State

/-- One step. -/
def step (has : Method → Bool) (s : State α ρ) : Action α ρ → Option (State α ρ)
  | .make k args => (wrapped has k).map fun f => s.make f.1 f.2 args
  | .turn i =>
    match s.calls[i]? with
    | some ⟨_, _, _, after, .queued⟩ =>
      if s.through after then some (s.put i (.calling (some (.begin s.now))) .knocked) else none
    | _ => none
  | .reply i r =>
    match s.calls[i]? with
    | some ⟨_, _, _, _, .calling p⟩ => some (s.answer i p r)
    | _ => none
  | .wake i =>
    match s.calls[i]? with
    | some ⟨_, _, _, _, .sleeping p wake⟩ =>
      if wake ≤ s.now then some (s.put i (.calling (some p)) .knocked) else none
    | _ => none
  | .pass ms => some { s with now := s.now + ms }

end Steps

/-! ## What a step can do -/

section Moves

variable {α ρ : Type*} {has : Method → Bool} {s s' : State α ρ} {i j : ℕ} {c d : Call α ρ}

/-- The cases of `step`. -/
inductive Moves (s : State α ρ) : Action α ρ → State α ρ → Prop
  | make (k : Key) (args : α) (m : Method) (w : Way) : Moves s (.make k args) (s.make m w args)
  | turn {i : ℕ} {c : Call α ρ} (hc : s.calls[i]? = some c) (hphase : c.phase = .queued)
      (hafter : s.through c.after = true) :
      Moves s (.turn i) (s.put i (.calling (some (.begin s.now))) .knocked)
  | settle {i : ℕ} {c : Call α ρ} {p : Option Patience} (hc : s.calls[i]? = some c)
      (hphase : c.phase = .calling p) (r : Except Thrown ρ) :
      Moves s (.reply i r) (s.put i (.settled r) (.returned r))
  | refuse {i : ℕ} {c : Call α ρ} {p : Patience} {e : Thrown} (hc : s.calls[i]? = some c)
      (hphase : c.phase = .calling (some p)) (hbusy : e.busy = true) (hnow : s.now ≤ p.deadline) :
      Moves s (.reply i (.error e)) (s.put i
        (.sleeping { p with delay := min (p.delay * 2) 50 } (s.now + p.delay)) (.refused e))
  | wake {i : ℕ} {c : Call α ρ} {p : Patience} {wake : ℕ} (hc : s.calls[i]? = some c)
      (hphase : c.phase = .sleeping p wake) (hwake : wake ≤ s.now) :
      Moves s (.wake i) (s.put i (.calling (some p)) .knocked)
  | pass (ms : ℕ) : Moves s (.pass ms) { s with now := s.now + ms }

theorem moves_answer {p : Option Patience} (hc : s.calls[i]? = some c) (hphase : c.phase = .calling p)
    (r : Except Thrown ρ) : Moves s (.reply i r) (s.answer i p r) := by
  unfold State.answer
  split
  · rename_i e p
    split_ifs with h
    · exact .settle hc hphase _
    · simp only [Bool.or_eq_true, Bool.not_eq_true', decide_eq_true_eq, not_or, Bool.not_eq_false,
        Nat.not_lt] at h
      exact .refuse hc hphase h.1 h.2
  · exact .settle hc hphase _

/-- **The cases of `step`.** -/
theorem step_cases {a : Action α ρ} (h : step has s a = some s') : Moves s a s' := by
  cases a with
  | make k args =>
    obtain ⟨f, -, rfl⟩ := Option.map_eq_some_iff.1 h
    exact .make k args f.1 f.2
  | turn i =>
    simp only [step] at h
    split at h
    · rename_i hc
      split_ifs at h with hafter
      cases h
      exact .turn hc rfl hafter
    · cases h
  | reply i r =>
    simp only [step] at h
    split at h
    · rename_i hc
      cases h
      exact moves_answer hc rfl r
    · cases h
  | wake i =>
    simp only [step] at h
    split at h
    · rename_i hc
      split_ifs at h with hwake
      cases h
      exact .wake hc rfl hwake
    · cases h
  | pass ms =>
    cases h
    exact .pass ms

/-! ## Single file -/

/-- A gated call. -/
def State.Gated (s : State α ρ) (i : ℕ) : Prop := ∃ c, s.calls[i]? = some c ∧ c.way = .chained

/-- The calls before it are through. -/
def State.Front (s : State α ρ) (i : ℕ) : Prop :=
  ∀ (j : ℕ) d, s.calls[j]? = some d → d.way = .chained → j < i → d.phase.isSettled = true

/-- The order of the gated calls. -/
structure InTurn (s : State α ρ) : Prop where
  /-- The chain awaits the last of them. -/
  last : ∀ i, s.Gated i → ∃ k, s.chain = some k ∧ i ≤ k
  chain : ∀ k, s.chain = some k → s.Gated k
  /-- Each awaits the one before it. -/
  after : ∀ (i : ℕ) c, s.calls[i]? = some c → c.way = .chained → ∀ j, s.Gated j → j < i →
    ∃ k, c.after = some k ∧ j ≤ k
  before : ∀ (i : ℕ) c, s.calls[i]? = some c → ∀ k, c.after = some k → k < i ∧ s.Gated k
  started : ∀ (i : ℕ) c, s.calls[i]? = some c → c.way = .chained → c.phase.isQueued = false → s.Front i

theorem inTurn_start : InTurn ({} : State α ρ) where
  last := by
    rintro i ⟨c, hc, -⟩
    cases hc
  chain k hk := nomatch hk
  after i c hc := nomatch hc
  before i c hc := nomatch hc
  started i c hc := nomatch hc

theorem gated_put {p : Phase ρ} {dd : Deed ρ} : (s.put i p dd).Gated j ↔ s.Gated j := by
  constructor
  · rintro ⟨c, hc, hway⟩
    obtain ⟨d, hd, rfl⟩ := getElem?_modify_eq_some.1 hc
    refine ⟨d, hd, ?_⟩
    split_ifs at hway <;> exact hway
  · rintro ⟨c, hc, hway⟩
    refine ⟨_, getElem?_modify_eq_some.2 ⟨c, hc, rfl⟩, ?_⟩
    split_ifs <;> exact hway

/-- A call that those before it have made way for goes on. -/
theorem InTurn.put (h : InTurn s) (hc : s.calls[i]? = some c) (hsettled : c.phase.isSettled = false)
    (hfront : c.way = .chained → s.Front i) {p : Phase ρ} (dd : Deed ρ) : InTurn (s.put i p dd) where
  last j hj := h.last j (gated_put.1 hj)
  chain k hk := gated_put.2 (h.chain k hk)
  after k e he hway j hj hlt := by
    obtain ⟨e, hold, rfl⟩ := getElem?_modify_eq_some.1 he
    obtain ⟨m, hm, hle⟩ := h.after k e hold (by split_ifs at hway <;> exact hway) j (gated_put.1 hj) hlt
    exact ⟨m, by split_ifs <;> exact hm, hle⟩
  before k e he m hm := by
    obtain ⟨e, hold, rfl⟩ := getElem?_modify_eq_some.1 he
    obtain ⟨hlt, hgated⟩ := h.before k e hold m (by split_ifs at hm <;> exact hm)
    exact ⟨hlt, gated_put.2 hgated⟩
  started k e he hway hqueued j d hd hd' hlt := by
    obtain ⟨e, hold, rfl⟩ := getElem?_modify_eq_some.1 he
    obtain ⟨d, hold', rfl⟩ := getElem?_modify_eq_some.1 hd
    have hdway : d.way = .chained := by split_ifs at hd' <;> exact hd'
    have hkfront : s.Front k := by
      split_ifs at hway hqueued with hik
      · subst hik
        cases hc.symm.trans hold
        exact hfront hway
      · exact h.started k e hold hway hqueued
    have hold'' := hkfront j d hold' hdway hlt
    split_ifs with hij
    · subst hij
      cases hc.symm.trans hold'
      exact absurd hold'' (Bool.eq_false_iff.1 hsettled)
    · exact hold''

/-- The call that the chain awaits is the last one, so once it is through they all are. -/
theorem InTurn.front (h : InTurn s) (hc : s.calls[i]? = some c) (hafter : s.through c.after = true)
    (hway : c.way = .chained) : s.Front i := by
  intro j d hd hd' hlt
  obtain ⟨k, hk, hle⟩ := h.after i c hc hway j ⟨d, hd, hd'⟩ hlt
  rw [hk] at hafter
  obtain ⟨e, he, hsettled⟩ := (Option.any_eq_true ..).1 hafter
  rcases Nat.eq_or_lt_of_le hle with rfl | hjk
  · cases hd.symm.trans he
    exact hsettled
  · obtain ⟨-, e', he', hway'⟩ := h.before i c hc k hk
    cases he.symm.trans he'
    refine h.started k e he hway' ?_ j d hd hd' hjk
    cases hphase : e.phase with
    | queued =>
      rw [hphase] at hsettled
      cases hsettled
    | _ => rfl

/-- A call is made. -/
theorem InTurn.concat (h : InTurn s) {c : Call α ρ} (hcalls : s'.calls = s.calls ++ [c])
    (hqueued : c.way = .chained → c.phase.isQueued = true) (hafter : c.way = .chained → c.after = s.chain)
    (hnone : c.way ≠ .chained → c.after = none)
    (hchain : s'.chain = if c.way = .chained then some s.calls.length else s.chain) : InTurn s' := by
  have hold : ∀ {i}, s.Gated i → s'.Gated i := by
    rintro i ⟨d, hd, hway⟩
    exact ⟨d, by rw [hcalls, getElem?_concat_eq_some]; exact .inl hd, hway⟩
  have hnew : ∀ {i}, s'.Gated i → s.Gated i ∨ i = s.calls.length ∧ c.way = .chained := by
    rintro i ⟨d, hd, hway⟩
    rw [hcalls] at hd
    rcases getElem?_concat_eq_some.1 hd with hd | ⟨rfl, rfl⟩
    · exact .inl ⟨d, hd, hway⟩
    · exact .inr ⟨rfl, hway⟩
  have hlt : ∀ {i}, s.Gated i → i < s.calls.length := by
    rintro i ⟨d, hd, -⟩
    exact (List.getElem?_eq_some_iff.1 hd).1
  refine ⟨fun i hi => ?_, fun k hk => ?_, fun i d hd hway j hj hji => ?_, fun i d hd k hk => ?_,
    fun i d hd hway hstarted j e he he' hji => ?_⟩
  · rw [hchain]
    rcases hnew hi with hi | ⟨rfl, hway⟩
    · obtain ⟨k, hk, hle⟩ := h.last i hi
      split_ifs
      · exact ⟨_, rfl, Nat.le_of_lt (hlt hi)⟩
      · exact ⟨k, hk, hle⟩
    · exact ⟨_, if_pos hway, Nat.le_refl _⟩
  · rw [hchain] at hk
    split_ifs at hk with hway
    · obtain rfl : s.calls.length = k := Option.some.inj hk
      exact ⟨c, by rw [hcalls, getElem?_concat_eq_some]; exact .inr ⟨rfl, rfl⟩, hway⟩
    · exact hold (h.chain k hk)
  · rw [hcalls] at hd
    rcases getElem?_concat_eq_some.1 hd with hd | ⟨rfl, rfl⟩
    · have hilt := (List.getElem?_eq_some_iff.1 hd).1
      rcases hnew hj with hj | ⟨rfl, -⟩
      · exact h.after i d hd hway j hj hji
      · omega
    · rw [hafter hway]
      rcases hnew hj with hj | ⟨rfl, -⟩
      · exact h.last j hj
      · omega
  · rw [hcalls] at hd
    rcases getElem?_concat_eq_some.1 hd with hd | ⟨rfl, rfl⟩
    · obtain ⟨hki, hgated⟩ := h.before i d hd k hk
      exact ⟨hki, hold hgated⟩
    · by_cases hway : d.way = .chained
      · rw [hafter hway] at hk
        exact ⟨hlt (h.chain k hk), hold (h.chain k hk)⟩
      · rw [hnone hway] at hk
        cases hk
  · rw [hcalls] at hd he
    rcases getElem?_concat_eq_some.1 hd with hd | ⟨rfl, rfl⟩
    · have hilt := (List.getElem?_eq_some_iff.1 hd).1
      rcases getElem?_concat_eq_some.1 he with he | ⟨rfl, -⟩
      · exact h.started i d hd hway hstarted j e he he' hji
      · omega
    · exact absurd (hqueued hway) (Bool.eq_false_iff.1 hstarted)

theorem InTurn.moves (h : InTurn s) {a : Action α ρ} (hmoves : Moves s a s') : InTurn s' := by
  cases hmoves with
  | make k args m w =>
    cases w
    · exact h.concat rfl nofun nofun (fun _ => rfl) rfl
    · exact h.concat rfl nofun nofun (fun _ => rfl) rfl
    · exact h.concat rfl (fun _ => rfl) (fun _ => rfl) (fun hne => absurd rfl hne) rfl
  | turn hc hphase hafter =>
    exact h.put hc (by rw [hphase]; rfl) (h.front hc hafter) _
  | settle hc hphase r =>
    exact h.put hc (by rw [hphase]; rfl) (fun hway => h.started _ _ hc hway (by rw [hphase]; rfl)) _
  | refuse hc hphase =>
    exact h.put hc (by rw [hphase]; rfl) (fun hway => h.started _ _ hc hway (by rw [hphase]; rfl)) _
  | wake hc hphase =>
    exact h.put hc (by rw [hphase]; rfl) (fun hway => h.started _ _ hc hway (by rw [hphase]; rfl)) _
  | pass ms => exact ⟨h.last, h.chain, h.after, h.before, h.started⟩

/-- The component was called for a gated call. -/
def State.Knock (s : State α ρ) (x : Entry ρ) : Prop := x.deed = .knocked ∧ s.Gated x.call

/-- The gated calls have knocked in the order in which they were made. -/
structure InOrder (s : State α ρ) : Prop where
  log : s.log.Pairwise fun x y => s.Knock x → s.Knock y → x.call ≤ y.call
  knocked : ∀ x ∈ s.log, s.Knock x → ∀ c, s.calls[x.call]? = some c → c.phase.isQueued = false
  known : ∀ x ∈ s.log, x.call < s.calls.length

theorem inOrder_start : InOrder ({} : State α ρ) := ⟨.nil, nofun, nofun⟩

theorem InOrder.put (h : InOrder s) (hturns : InTurn s) (hc : s.calls[i]? = some c)
    (hsettled : c.phase.isSettled = false) {p : Phase ρ} (hp : p.isQueued = false) (dd : Deed ρ) :
    InOrder (s.put i p dd) := by
  have hknock : ∀ {x}, (s.put i p dd).Knock x ↔ s.Knock x := and_congr_right fun _ => gated_put
  have hilt := (List.getElem?_eq_some_iff.1 hc).1
  refine ⟨?_, fun x hx hkx e he => ?_, fun x hx => ?_⟩
  · simp only [hknock]
    refine List.pairwise_append.2 ⟨h.log, List.pairwise_singleton _ _, fun x hx y hy hkx hky => ?_⟩
    rw [List.mem_singleton.1 hy] at hky ⊢
    -- otherwise one that was made later has started, and this one is through
    by_contra hlt
    obtain ⟨d, hd, hway⟩ := hkx.2
    obtain ⟨c', hc', hway'⟩ := hky.2
    cases hc.symm.trans hc'
    have hfront := hturns.started _ d hd hway (h.knocked x hx hkx d hd)
    exact absurd (hfront i c hc hway' (Nat.not_le.1 hlt)) (Bool.eq_false_iff.1 hsettled)
  · obtain ⟨e, hold, rfl⟩ := getElem?_modify_eq_some.1 he
    split_ifs with hix
    · exact hp
    · rcases List.mem_append.1 hx with hx | hx
      · exact h.knocked x hx (hknock.1 hkx) e hold
      · exact absurd (by rw [List.mem_singleton.1 hx]) hix
  · rw [State.put, List.length_modify]
    rcases List.mem_append.1 hx with hx | hx
    · exact h.known x hx
    · rw [List.mem_singleton.1 hx]
      exact hilt

theorem InOrder.concat (h : InOrder s) {c : Call α ρ} (ds : List (Deed ρ))
    (hcalls : s'.calls = s.calls ++ [c]) (hlog : s'.log = s.log ++ ds.map fun d => ⟨s.calls.length, d⟩)
    (hds : c.way = .chained → .knocked ∉ ds) : InOrder s' := by
  have hnew : ∀ x, x ∈ ds.map (fun d => (⟨s.calls.length, d⟩ : Entry ρ)) → ¬ s'.Knock x := by
    rintro x hx ⟨hdeed, e, he, hway⟩
    obtain ⟨d, hd, rfl⟩ := List.mem_map.1 hx
    rw [hcalls] at he
    rcases getElem?_concat_eq_some.1 he with he | ⟨-, rfl⟩
    · exact absurd (List.getElem?_eq_some_iff.1 he).1 (Nat.lt_irrefl _)
    · exact hds hway (hdeed ▸ hd)
  have hold : ∀ x ∈ s.log, ∀ e, s'.calls[x.call]? = some e → s.calls[x.call]? = some e := by
    intro x hx e he
    rw [hcalls] at he
    rcases getElem?_concat_eq_some.1 he with he | ⟨heq, -⟩
    · exact he
    · exact absurd (h.known x hx) (by omega)
  have hknock : ∀ x ∈ s.log, s'.Knock x → s.Knock x := by
    rintro x hx ⟨hdeed, e, he, hway⟩
    exact ⟨hdeed, e, hold x hx e he, hway⟩
  refine ⟨?_, fun x hx hkx e he => ?_, fun x hx => ?_⟩
  · rw [hlog]
    refine List.pairwise_append.2 ⟨?_, ?_, fun x _ y hy _ hky => absurd hky (hnew y hy)⟩
    · exact h.log.imp_of_mem fun hx hy hle hkx hky => hle (hknock _ hx hkx) (hknock _ hy hky)
    · exact List.pairwise_of_forall_mem_list fun x hx y _ hkx => absurd hkx (hnew x hx)
  · rw [hlog] at hx
    rcases List.mem_append.1 hx with hx | hx
    · exact h.knocked x hx (hknock x hx hkx) e (hold x hx e he)
    · exact absurd hkx (hnew x hx)
  · rw [hcalls, List.length_append, List.length_singleton]
    rw [hlog] at hx
    rcases List.mem_append.1 hx with hx | hx
    · have hlt := h.known x hx
      omega
    · obtain ⟨d, -, rfl⟩ := List.mem_map.1 hx
      exact Nat.lt_succ_self _

theorem InOrder.moves (h : InOrder s) (hturns : InTurn s) {a : Action α ρ} (hmoves : Moves s a s') :
    InOrder s' := by
  cases hmoves with
  | make k args m w =>
    cases w
    · exact h.concat [.made _, .knocked] rfl rfl nofun
    · exact h.concat [.made _, .knocked] rfl rfl nofun
    · exact h.concat [.made _] rfl rfl (by simp)
  | turn hc hphase => exact h.put hturns hc (by rw [hphase]; rfl) rfl _
  | settle hc hphase r => exact h.put hturns hc (by rw [hphase]; rfl) rfl _
  | refuse hc hphase => exact h.put hturns hc (by rw [hphase]; rfl) rfl _
  | wake hc hphase => exact h.put hturns hc (by rw [hphase]; rfl) rfl _
  | pass ms => exact ⟨h.log, h.knocked, h.known⟩

/-! ## What happens to a call -/

/-- What has happened to a call. -/
def State.deeds (s : State α ρ) (i : ℕ) : List (Deed ρ) :=
  s.log.filterMap fun x => if x.call = i then some x.deed else none

/-- Attempts that were refused at the door. -/
def refusals (es : List Thrown) : List (Deed ρ) := es.flatMap fun e => [.knocked, .refused e]

theorem refusals_concat (es : List Thrown) (e : Thrown) :
    (refusals (es ++ [e]) : List (Deed ρ)) = refusals es ++ [.knocked, .refused e] := by
  simp [refusals]

@[simp] theorem length_refusals (es : List Thrown) :
    (refusals es : List (Deed ρ)).length = 2 * es.length := by
  induction es with
  | nil => rfl
  | cons e es ih =>
    simp only [refusals, List.flatMap_cons, List.length_append, List.length_cons, List.length_nil] at ih ⊢
    omega

/-- The timer after so many attempts. -/
def delayAt (k : ℕ) : ℕ := min (5 * 2 ^ k) 50

/-- What so many timers take. -/
def slept : ℕ → ℕ
  | 0 => 0
  | k + 1 => slept k + delayAt k

theorem delayAt_succ (k : ℕ) : min (delayAt k * 2) 50 = delayAt (k + 1) := by
  rw [delayAt, delayAt, pow_succ]
  omega

theorem delayAt_eq {k : ℕ} (h : 4 ≤ k) : delayAt k = 50 := by
  have hpow : 2 ^ 4 ≤ 2 ^ k := Nat.pow_le_pow_right (by decide) h
  exact Nat.min_eq_right (by omega)

/-- All timers but the first four are of 50 milliseconds. -/
theorem le_slept (k : ℕ) : 50 * k ≤ slept k + 125 := by
  rcases Nat.le_total k 4 with hk | hk
  · interval_cases k <;> decide
  · induction k, hk using Nat.le_induction with
    | base => decide
    | succ k hk ih =>
      rw [slept, delayAt_eq hk]
      omega

/-- The patience of a call that was refused so many times. -/
structure Tried (es : List Thrown) (p : Patience) (t : ℕ) : Prop where
  busy : ∀ e ∈ es, e.busy = true
  length_le : es.length ≤ 303
  delay : p.delay = delayAt es.length
  time : p.deadline + slept es.length ≤ t + budgetMs

/-- What has happened to a call, by where it stands. -/
inductive Course (now : ℕ) : Way → Phase ρ → List (Deed ρ) → Prop
  | queued : Course now .chained .queued [.made .chained]
  | raw : Course now .raw (.calling none) [.made .raw, .knocked]
  | calling {w : Way} {es : List Thrown} {p : Patience} (hw : w ≠ .raw) (h : Tried es p now) :
    Course now w (.calling (some p)) (.made w :: (refusals es ++ [.knocked]))
  | sleeping {w : Way} {es : List Thrown} {p : Patience} {wake : ℕ} (hw : w ≠ .raw)
      (h : Tried es p wake) : Course now w (.sleeping p wake) (.made w :: refusals es)
  | settled {w : Way} {es : List Thrown} {r : Except Thrown ρ} (hraw : w = .raw → es = [])
      (hbusy : ∀ e ∈ es, e.busy = true) (hlen : es.length ≤ 303) :
    Course now w (.settled r) (.made w :: (refusals es ++ [.knocked, .returned r]))

theorem Course.mono {now now' : ℕ} {w : Way} {p : Phase ρ} {ds : List (Deed ρ)}
    (h : Course now w p ds) (hnow : now ≤ now') : Course now' w p ds := by
  cases h with
  | queued => exact .queued
  | raw => exact .raw
  | calling hw h =>
    have htime := h.time
    exact .calling hw ⟨h.busy, h.length_le, h.delay, by omega⟩
  | sleeping hw h => exact .sleeping hw h
  | settled hraw hbusy hlen => exact .settled hraw hbusy hlen

/-- The first attempt of a call. -/
theorem tried_begin (now : ℕ) : Tried [] (.begin now) now := ⟨nofun, Nat.zero_le _, rfl, Nat.le_refl _⟩

theorem Course.begin {w : Way} (hw : w ≠ .raw) (now : ℕ) :
    Course now w (.calling (some (.begin now))) ([.made w, .knocked] : List (Deed ρ)) :=
  @Course.calling ρ now w [] _ hw (tried_begin now)

theorem Course.settled_first {now : ℕ} {w : Way} (r : Except Thrown ρ) :
    Course now w (.settled r) [.made w, .knocked, .returned r] :=
  @Course.settled ρ now w [] r (fun _ => rfl) nofun (Nat.zero_le _)

/-- A call that is refused once more. -/
theorem Tried.refuse {es : List Thrown} {p : Patience} {now : ℕ} (h : Tried es p now) {e : Thrown}
    (he : e.busy = true) (hnow : now ≤ p.deadline) :
    Tried (es ++ [e]) { p with delay := min (p.delay * 2) 50 } (now + p.delay) := by
  have htime := h.time
  have hslept := le_slept es.length
  refine ⟨fun x hx => ?_, ?_, ?_, ?_⟩
  · rcases List.mem_append.1 hx with hx | hx
    · exact h.busy x hx
    · rw [List.mem_singleton.1 hx]
      exact he
  · rw [List.length_append, List.length_singleton]
    -- 302 timers take less than the budget, and one more does not
    unfold budgetMs at htime
    omega
  · rw [List.length_append, List.length_singleton, ← delayAt_succ, h.delay]
  · rw [List.length_append, List.length_singleton, slept, ← h.delay]
    dsimp only
    omega

theorem deeds_append (ds : List (Deed ρ)) (hlog : s'.log = s.log ++ ds.map fun d => ⟨i, d⟩) :
    s'.deeds j = s.deeds j ++ if i = j then ds else [] := by
  have hnew : (ds.map fun d => (⟨i, d⟩ : Entry ρ)).filterMap
      (fun x => if x.call = j then some x.deed else none) = if i = j then ds else [] := by
    rw [List.filterMap_map]
    split_ifs with hij
    · simp [hij]
    · simp [hij]
  rw [State.deeds, hlog, List.filterMap_append, hnew]
  rfl

/-- What has happened to every call. -/
def AllCourses (s : State α ρ) : Prop :=
  ∀ (i : ℕ) c, s.calls[i]? = some c → Course s.now c.way c.phase (s.deeds i)

theorem AllCourses.put (h : AllCourses s) (hc : s.calls[i]? = some c) {p q : Phase ρ}
    (hphase : c.phase = q) {dd : Deed ρ}
    (hi : ∀ {w ds}, Course s.now w q ds → Course s.now w p (ds ++ [dd])) : AllCourses (s.put i p dd) := by
  intro j d hd
  obtain ⟨d, hold, rfl⟩ := getElem?_modify_eq_some.1 hd
  rw [deeds_append (i := i) (s := s) [dd] rfl]
  split_ifs with hij
  · subst hij
    cases hc.symm.trans hold
    exact hi (hphase ▸ h i c hc)
  · rw [List.append_nil]
    exact h j d hold

theorem AllCourses.concat (h : AllCourses s) (hknown : ∀ x ∈ s.log, x.call < s.calls.length)
    {c : Call α ρ} {ds : List (Deed ρ)} (hcalls : s'.calls = s.calls ++ [c])
    (hlog : s'.log = s.log ++ ds.map fun d => ⟨s.calls.length, d⟩) (hnow : s'.now = s.now)
    (hc : Course s.now c.way c.phase ds) : AllCourses s' := by
  intro j d hd
  rw [hcalls] at hd
  rw [deeds_append ds hlog, hnow]
  rcases getElem?_concat_eq_some.1 hd with hd | ⟨rfl, rfl⟩
  · have hlt := (List.getElem?_eq_some_iff.1 hd).1
    rw [if_neg (by omega), List.append_nil]
    exact h j d hd
  · have hnone : s.deeds s.calls.length = [] := by
      refine List.filterMap_eq_nil_iff.2 fun x hx => if_neg ?_
      have hlt := hknown x hx
      omega
    rw [hnone, if_pos rfl]
    exact hc

theorem AllCourses.moves (h : AllCourses s) (hknown : ∀ x ∈ s.log, x.call < s.calls.length)
    {a : Action α ρ} (hmoves : Moves s a s') : AllCourses s' := by
  cases hmoves with
  | make k args m w =>
    cases w
    · exact h.concat hknown rfl rfl rfl .raw
    · exact h.concat hknown rfl rfl rfl (Course.begin (w := .patient) nofun s.now)
    · exact h.concat hknown rfl rfl rfl .queued
  | turn hc hphase =>
    refine h.put hc hphase fun hcourse => ?_
    cases hcourse
    exact Course.begin (w := .chained) nofun s.now
  | settle hc hphase r =>
    refine h.put hc hphase fun hcourse => ?_
    cases hcourse with
    | raw => exact .settled_first _
    | calling hw ht =>
      rw [List.cons_append, List.append_assoc]
      exact .settled (fun hraw => absurd hraw hw) ht.busy ht.length_le
  | refuse hc hphase hbusy hnow =>
    refine h.put hc hphase fun hcourse => ?_
    cases hcourse with
    | calling hw ht =>
      rw [List.cons_append, List.append_assoc, List.singleton_append, ← refusals_concat]
      exact .sleeping hw (ht.refuse hbusy hnow)
  | wake hc hphase hwake =>
    refine h.put hc hphase fun hcourse => ?_
    cases hcourse with
    | sleeping hw ht =>
      have htime := ht.time
      exact .calling hw ⟨ht.busy, ht.length_le, ht.delay, by omega⟩
  | pass ms => exact fun i c hc => (h i c hc).mono (Nat.le_add_right _ _)

/-! ## Runs -/

/-- The invariant. -/
structure Sound (s : State α ρ) : Prop where
  turns : InTurn s
  order : InOrder s
  courses : AllCourses s

theorem sound_run {xs : List (Action α ρ)} (hrun : run (step has) {} xs = some s) : Sound s := by
  refine run_inv_of_step (fun t a t' h hstep => ?_)
    ⟨inTurn_start, inOrder_start, fun _ _ hc => (nomatch hc)⟩ hrun
  have hmoves := step_cases hstep
  exact ⟨h.turns.moves hmoves, h.order.moves h.turns hmoves, h.courses.moves h.order.known hmoves⟩

/-- **Gated calls go in single file.** In every state reached, while a gated call is tried, each that was
made before it has returned and none that was made after it has knocked; and they have knocked in the
order in which they were made.

**Proof sketch.** The chain awaits the last gated call, and each gated call the one before it, so a call
that has started has no other in front of it. -/
theorem single_file {xs : List (Action α ρ)} (hrun : run (step has) {} xs = some s) :
    (∀ (i : ℕ) c, s.calls[i]? = some c → c.way = .chained → c.phase.isQueued = false →
      c.phase.isSettled = false → ∀ (j : ℕ) d, s.calls[j]? = some d → d.way = .chained →
        (j < i → d.phase.isSettled = true) ∧ (i < j → d.phase.isQueued = true)) ∧
      s.log.Pairwise fun x y => s.Knock x → s.Knock y → x.call ≤ y.call := by
  have hsound := sound_run hrun
  refine ⟨fun i c hc hway hqueued hsettled j d hd hway' => ⟨fun hlt => ?_, fun hlt => ?_⟩,
    hsound.order.log⟩
  · exact hsound.turns.started i c hc hway hqueued j d hd hway' hlt
  · by_contra hstarted
    have hfront := hsound.turns.started j d hd hway' (Bool.eq_false_iff.2 hstarted)
    exact absurd (hfront i c hc hway hlt) (Bool.eq_false_iff.1 hsettled)

/-- Two calls, of which the first is refused once at the door, and one that does not wait for them. -/
def knocking : List (Action ℕ ℕ) :=
  [.make (.named .writeInput) 1, .make (.named .resize) 2, .turn 0,
    .reply 0 (.error ⟨some "cannot enter component instance 7 (reentrance forbidden)", ""⟩),
    .make .closeKindRaw 3, .pass 5, .wake 0]

/-- The run to which `single_file` is applied. -/
theorem single_file_knocking :
    ∃ s : State ℕ ℕ, run (step fun _ => true) {} knocking = some s ∧
      (∃ c, s.calls[0]? = some c ∧ c.way = .chained ∧ c.phase.isQueued = false ∧
        c.phase.isSettled = false) ∧ (∃ d, s.calls[1]? = some d ∧ d.phase.isQueued = true) ∧
      s.log.Pairwise fun x y => s.Knock x → s.Knock y → x.call ≤ y.call := by
  refine ⟨_, rfl, ⟨_, rfl, rfl, rfl, rfl⟩, ⟨_, rfl, ?_⟩, ?_⟩
  · exact ((@single_file ℕ ℕ (fun _ => true) _ knocking rfl).1 0 _ rfl rfl rfl rfl 1 _ rfl rfl).2
      Nat.zero_lt_one
  · exact (@single_file ℕ ℕ (fun _ => true) _ knocking rfl).2

/-- What happens to one call is at most this much. -/
theorem Course.length_le {now : ℕ} {w : Way} {p : Phase ρ} {ds : List (Deed ρ)}
    (h : Course now w p ds) : ds.length ≤ 609 := by
  cases h with
  | queued => exact Nat.le_of_ble_eq_true rfl
  | raw => exact Nat.le_of_ble_eq_true rfl
  | calling hw ht =>
    have hlen := ht.length_le
    simp only [List.length_cons, List.length_append, length_refusals, List.length_nil]
    omega
  | sleeping hw ht =>
    have hlen := ht.length_le
    simp only [List.length_cons, length_refusals]
    omega
  | settled _ _ hlen =>
    simp only [List.length_cons, List.length_append, length_refusals, List.length_nil]
    omega

end Moves

end Turns
