import Mathlib

set_option relaxedAutoImplicit false
set_option autoImplicit false

/-!
# Runs of labelled step functions

A system is a partial step function `step : σ → α → Option σ`: the action `a` carries every
choice the environment makes (what a read returned, which task was scheduled, what a peer
answered), and `step s a = none` when `a` is not possible in `s`. With the choices in the
action, a step is a function, so that a concrete run can be evaluated, while a statement about
*every* run is a statement about every list of actions.

## Main definitions

* `Run.run` — the state after a list of actions, if each is possible where it is taken.
* `Run.Along` — every step of a run meets a condition on the state before it and its action.
* `Run.log` — the events of a run.
* `Run.Trace` — a list of events takes one state to another, under a relation.

## Main results

* `Run.run_inv` — the invariant rule: what holds initially and is kept by each step that meets
  the condition holds at the end of every run along the condition.
* `Run.run_append` — runs compose.
* `Run.run_mono` — a quantity that no step lowers is at least as large after a run.
* `Run.run_inv_within`, `Run.run_map` — the invariant rule for runs that end within a bound, and that
  a function between two systems takes such runs to runs.
* `Run.trace_log` — a run whose steps refine a relation, event by event, traces its log.

## Design

An intermediate state of a run is the last state of a shorter run (`Run.exists_run_take`), so
"in every state reached" needs no separate notion: the rules below are stated for the last
state of an arbitrary run.
-/

namespace Run

variable {σ α : Type*} (step : σ → α → Option σ)

/-- The state after taking the actions in order, or `none` if one of them is not possible. -/
def run : σ → List α → Option σ
  | s, [] => some s
  | s, a :: as => (step s a).bind fun s' => run s' as

/-- Every step of the run of the given actions meets `C`, a condition on the state before the
step and on its action. -/
def Along (C : σ → α → Prop) : σ → List α → Prop
  | _, [] => True
  | s, a :: as => C s a ∧ ∀ s', step s a = some s' → Along C s' as

/-- A condition that can be computed can be checked along a run. -/
instance decidableAlong (C : σ → α → Prop) [∀ s a, Decidable (C s a)] :
    (s : σ) → (as : List α) → Decidable (Along step C s as)
  | _, [] => isTrue trivial
  | s, a :: as =>
    match h : step s a with
    | none => decidable_of_iff (C s a) ⟨fun hC => ⟨hC, fun _ hs => by simp [h] at hs⟩, And.left⟩
    | some s' =>
      have := decidableAlong C s' as
      decidable_of_iff (C s a ∧ Along step C s' as)
        ⟨fun hC => ⟨hC.1, fun _ hs => by cases h.symm.trans hs; exact hC.2⟩,
          fun hC => ⟨hC.1, hC.2 _ h⟩⟩

variable {step}

@[simp] theorem run_nil (s : σ) : run step s [] = some s := rfl

@[simp] theorem along_nil (C : σ → α → Prop) (s : σ) : Along step C s [] := trivial

/-- A run of `a :: as` is a step and a run from where it leads. -/
theorem run_cons_eq_some {s t : σ} {a : α} {as : List α} :
    run step s (a :: as) = some t ↔ ∃ s', step s a = some s' ∧ run step s' as = some t := by
  simp [run, Option.bind_eq_some_iff]

/-- Runs compose. -/
theorem run_append (s : σ) (as bs : List α) :
    run step s (as ++ bs) = (run step s as).bind fun t => run step t bs := by
  induction as generalizing s with
  | nil => rfl
  | cons a as ih =>
    simp only [List.cons_append, run]
    cases step s a with
    | none => rfl
    | some s' => exact ih s'

/-- A run that continues another one. -/
theorem run_append_of_eq_some {s t : σ} {as : List α} (h : run step s as = some t)
    (bs : List α) : run step s (as ++ bs) = run step t bs := by
  rw [run_append, h]
  rfl

/-- Every prefix of a run is a run. -/
theorem exists_run_take {s t : σ} {as bs : List α} (h : run step s (as ++ bs) = some t) :
    ∃ u, run step s as = some u ∧ run step u bs = some t := by
  rw [run_append] at h
  exact Option.bind_eq_some_iff.1 h

/-- Two conditions along a run hold together along it. -/
theorem Along.and {C D : σ → α → Prop} {s : σ} {as : List α} (hC : Along step C s as)
    (hD : Along step D s as) : Along step (fun s a => C s a ∧ D s a) s as := by
  induction as generalizing s with
  | nil => trivial
  | cons a as ih => exact ⟨⟨hC.1, hD.1⟩, fun s' hs => ih (hC.2 s' hs) (hD.2 s' hs)⟩

/-- A condition that every action meets, whatever the state, holds along every run. -/
theorem Along.of_forall {C : σ → α → Prop} {as : List α} (h : ∀ a ∈ as, ∀ s, C s a) (s : σ) :
    Along step C s as := by
  induction as generalizing s with
  | nil => trivial
  | cons a as ih =>
    exact ⟨h a List.mem_cons_self s, fun s' _ => ih (fun b hb => h b (List.mem_cons_of_mem a hb)) s'⟩

/-- A condition along a run is one along every initial part of it. -/
theorem Along.initial {C : σ → α → Prop} {s : σ} {as bs : List α} (h : Along step C s as)
    (hbs : bs <+: as) : Along step C s bs := by
  induction bs generalizing s as with
  | nil => trivial
  | cons b bs ih =>
    obtain ⟨cs, rfl⟩ := hbs
    exact ⟨h.1, fun s' hs => ih (h.2 s' hs) (List.prefix_append bs cs)⟩

/-- A condition along a run is one along what follows an initial part of it. -/
theorem Along.after {C : σ → α → Prop} {s t : σ} {as bs : List α}
    (h : Along step C s (as ++ bs)) (hrun : run step s as = some t) : Along step C t bs := by
  induction as generalizing s with
  | nil =>
    obtain rfl : s = t := by simpa using hrun
    exact h
  | cons a as ih =>
    obtain ⟨s', hs', hrun'⟩ := run_cons_eq_some.1 hrun
    exact ih (h.2 s' hs') hrun'

/-- **The invariant rule.** If `P` holds of `s` and every step that meets `C` keeps `P`, then
`P` holds at the end of every run from `s` along `C`.

**Proof sketch.** Induction on the list of actions. -/
theorem run_inv {P : σ → Prop} {C : σ → α → Prop}
    (hstep : ∀ s a s', P s → C s a → step s a = some s' → P s')
    {s t : σ} {as : List α} (hs : P s) (hC : Along step C s as)
    (h : run step s as = some t) : P t := by
  induction as generalizing s with
  | nil =>
    obtain rfl : s = t := by simpa using h
    exact hs
  | cons a as ih =>
    obtain ⟨s', hs', h'⟩ := run_cons_eq_some.1 h
    exact ih (hstep _ _ _ hs hC.1 hs') (hC.2 _ hs') h'

/-- The invariant rule for a property every step keeps. -/
theorem run_inv_of_step {P : σ → Prop} (hstep : ∀ s a s', P s → step s a = some s' → P s')
    {s t : σ} {as : List α} (hs : P s) (h : run step s as = some t) : P t := by
  induction as generalizing s with
  | nil =>
    obtain rfl : s = t := by simpa using h
    exact hs
  | cons a as ih =>
    obtain ⟨s', hs', h'⟩ := run_cons_eq_some.1 h
    exact ih (hstep _ _ _ hs hs') h'

/-- The invariant rule for what happens on the way: if every step that meets `C` keeps `P`, and
meets `D` where `P` holds, then `D` holds along every run along `C`. -/
theorem Along.of_inv {P : σ → Prop} {C D : σ → α → Prop}
    (hstep : ∀ s a s', P s → C s a → step s a = some s' → P s')
    (hD : ∀ s a, P s → C s a → D s a) {s : σ} {as : List α} (hs : P s)
    (hC : Along step C s as) : Along step D s as := by
  induction as generalizing s with
  | nil => trivial
  | cons a as ih =>
    exact ⟨hD _ _ hs hC.1, fun s' hs' => ih (hstep _ _ _ hs hC.1 hs') (hC.2 s' hs')⟩

/-- The same rule for the actions of a run, each of which is possible where it is taken. -/
theorem Along.of_inv_run {P : σ → Prop} {C D : σ → α → Prop}
    (hstep : ∀ s a s', P s → C s a → step s a = some s' → P s')
    (hD : ∀ s a s', P s → C s a → step s a = some s' → D s a) {s t : σ} {as : List α} (hs : P s)
    (hC : Along step C s as) (h : run step s as = some t) : Along step D s as := by
  induction as generalizing s with
  | nil => trivial
  | cons a as ih =>
    obtain ⟨s', hs', h'⟩ := run_cons_eq_some.1 h
    refine ⟨hD s a s' hs hC.1 hs', fun u hu => ?_⟩
    obtain rfl : s' = u := Option.some_inj.1 (hs'.symm.trans hu)
    exact ih (hstep s a s' hs hC.1 hs') (hC.2 s' hs') h'

/-- A condition that every step to a state with `Q` meets holds along each run that only reaches
such states; `P` is an invariant that may be used to see this. -/
theorem Along.of_reached {P Q : σ → Prop} {C : σ → α → Prop}
    (hstep : ∀ s a s', P s → step s a = some s' → P s')
    (hC : ∀ s a s', P s → step s a = some s' → Q s' → C s a) {s t : σ} {as : List α} (hs : P s)
    (h : run step s as = some t)
    (hQ : ∀ bs u, bs <+: as → run step s bs = some u → Q u) : Along step C s as := by
  induction as generalizing s with
  | nil => trivial
  | cons a as ih =>
    obtain ⟨s', hs', h'⟩ := run_cons_eq_some.1 h
    refine ⟨hC s a s' hs hs' (hQ [a] s' ⟨as, rfl⟩ (by simp [run, hs'])), fun u hu => ?_⟩
    obtain rfl : s' = u := by simpa [hs'] using hu
    refine ih (hstep s a s' hs hs') h' fun bs v hbs hv => hQ (a :: bs) v ?_ ?_
    · exact List.prefix_cons_inj a |>.2 hbs
    · exact run_cons_eq_some.2 ⟨s', hs', hv⟩

/-- A condition holds along the steps of a run exactly as long as only states with `Q` are reached,
where a step that does not meet it leads to a state without `Q`; `P` is an invariant of the steps
that do. -/
theorem along_iff_reached {P Q : σ → Prop} {C : σ → α → Prop} (hQ : ∀ s, P s → Q s)
    (hstep : ∀ s a s', P s → C s a → step s a = some s' → P s')
    (hnot : ∀ s a, P s → ¬ C s a → ∃ s', step s a = some s' ∧ ¬ Q s') {s : σ} (hs : P s)
    (as : List α) :
    Along step C s as ↔ ∀ bs t, bs <+: as → run step s bs = some t → Q t := by
  constructor
  · intro h bs t hbs hrun
    exact hQ t (run_inv hstep hs (h.initial hbs) hrun)
  · intro h
    induction as generalizing s with
    | nil => trivial
    | cons a as ih =>
      have hC : C s a := by
        by_contra hfails
        obtain ⟨s', hs', hnotQ⟩ := hnot s a hs hfails
        refine hnotQ (h [a] s' ⟨as, rfl⟩ ?_)
        exact run_cons_eq_some.2 ⟨s', hs', rfl⟩
      refine ⟨hC, fun s' hs' => ih (hstep s a s' hs hC hs') fun bs t hbs hrun => ?_⟩
      refine h (a :: bs) t ?_ ?_
      · exact List.prefix_cons_inj a |>.2 hbs
      · exact run_cons_eq_some.2 ⟨s', hs', hrun⟩

/-- What each step relates to its successor, a reflexive and transitive relation relates along
the whole run: the shape of every "never goes back" statement. -/
theorem run_mono {R : σ → σ → Prop} (hrefl : ∀ s, R s s)
    (htrans : ∀ s t u, R s t → R t u → R s u)
    (hstep : ∀ s a s', step s a = some s' → R s s')
    {s t : σ} {as : List α} (h : run step s as = some t) : R s t :=
  run_inv_of_step (P := R s) (fun _ a _ hs ha => htrans _ _ _ hs (hstep _ a _ ha)) (hrefl s) h

/-! ### Bounds -/

/-- If a step that ends within a bound has begun within it, so has a run. -/
theorem run_within {B : σ → Prop} (hB : ∀ s a s', step s a = some s' → B s' → B s) {s t : σ}
    {as : List α} (h : run step s as = some t) (ht : B t) : B s := by
  induction as generalizing s with
  | nil =>
    obtain rfl : s = t := by simpa using h
    exact ht
  | cons a as ih =>
    obtain ⟨s', hs', h'⟩ := run_cons_eq_some.1 h
    exact hB s a s' hs' (ih h')

/-- The invariant rule for a run that ends within a bound. -/
theorem run_inv_within {P B : σ → Prop} {C : σ → α → Prop}
    (hB : ∀ s a s', step s a = some s' → B s' → B s)
    (hstep : ∀ s a s', P s → B s → C s a → step s a = some s' → P s') {s t : σ} {as : List α}
    (hs : P s) (hC : Along step C s as) (h : run step s as = some t) (ht : B t) : P t := by
  induction as generalizing s with
  | nil =>
    obtain rfl : s = t := by simpa using h
    exact hs
  | cons a as ih =>
    obtain ⟨s', hs', h'⟩ := run_cons_eq_some.1 h
    exact ih (hstep s a s' hs (run_within hB h ht) hC.1 hs') (hC.2 s' hs') h'

/-- A function that takes the steps between good states of one system to steps of another takes
runs to runs, if the run ends within the bound. -/
theorem run_map {τ : Type*} {step' : τ → α → Option τ} (f : σ → τ) {P B : σ → Prop}
    (hB : ∀ s a s', step s a = some s' → B s' → B s)
    (hstep : ∀ s a s', P s → B s → step s a = some s' → step' (f s) a = some (f s') ∧ P s')
    {s t : σ} {as : List α} (hs : P s) (h : run step s as = some t) (ht : B t) :
    run step' (f s) as = some (f t) ∧ P t := by
  induction as generalizing s with
  | nil =>
    obtain rfl : s = t := by simpa using h
    exact ⟨rfl, hs⟩
  | cons a as ih =>
    obtain ⟨s', hs', h'⟩ := run_cons_eq_some.1 h
    obtain ⟨hf, hP⟩ := hstep s a s' hs (run_within hB h ht) hs'
    obtain ⟨hrun, hPt⟩ := ih hP h'
    exact ⟨run_cons_eq_some.2 ⟨_, hf, hrun⟩, hPt⟩

/-! ### Events -/

section Events

variable {ε τ : Type*}

variable (step) in
/-- The events of a run, where a step has the events of the state before it and of its action. -/
def log (event : σ → α → List ε) : σ → List α → List ε
  | _, [] => []
  | s, a :: as => event s a ++ ((step s a).elim [] fun s' => log event s' as)

/-- The events take one state to the other, one after the other. -/
inductive Trace (R : τ → ε → τ → Prop) (s : τ) : List ε → τ → Prop
  | nil : Trace R s [] s
  | snoc {t u : τ} {es : List ε} {e : ε} (h : Trace R s es t) (he : R t e u) :
    Trace R s (es ++ [e]) u

/-- One event. -/
theorem Trace.one {R : τ → ε → τ → Prop} {s t : τ} {e : ε} (h : R s e t) : Trace R s [e] t :=
  .snoc .nil h

/-- Traces compose. -/
theorem Trace.append {R : τ → ε → τ → Prop} {s t u : τ} {es fs : List ε} (h : Trace R s es t)
    (h' : Trace R t fs u) : Trace R s (es ++ fs) u := by
  induction h' with
  | nil => rwa [List.append_nil]
  | snoc _ he ih =>
    rw [← List.append_assoc]
    exact .snoc ih he

/-- A function that takes each step of one relation to a step of the other takes traces to traces. -/
theorem Trace.refine {τ' : Type*} {R : τ → ε → τ → Prop} {S : τ' → ε → τ' → Prop} (f : τ' → τ)
    (hstep : ∀ g e t, R (f g) e t → ∃ g', S g e g' ∧ f g' = t) {g : τ'} {t : τ} {es : List ε}
    (h : Trace R (f g) es t) : ∃ g', Trace S g es g' ∧ f g' = t := by
  induction h with
  | nil => exact ⟨g, .nil, rfl⟩
  | snoc _ he ih =>
    obtain ⟨g', hg', rfl⟩ := ih
    obtain ⟨g'', hstep', rfl⟩ := hstep _ _ _ he
    exact ⟨g'', .snoc hg' hstep', rfl⟩

/-- A run whose steps refine a relation, event by event, traces its log. -/
theorem trace_log {R : τ → ε → τ → Prop} {event : σ → α → List ε} (view : σ → τ)
    (hstep : ∀ s a s', step s a = some s' → Trace R (view s) (event s a) (view s')) {s t : σ}
    {as : List α} (h : run step s as = some t) :
    Trace R (view s) (log step event s as) (view t) := by
  induction as generalizing s with
  | nil =>
    obtain rfl : s = t := by simpa using h
    exact .nil
  | cons a as ih =>
    obtain ⟨s', hs', h'⟩ := run_cons_eq_some.1 h
    have htail := ih h'
    simp only [log, hs', Option.elim_some]
    exact (hstep s a s' hs').append htail

end Events

end Run
