import Mathlib.Data.List.Forall2
import Mathlib.Data.List.Flatten

set_option relaxedAutoImplicit false
set_option autoImplicit false

/-!
# Wildcard patterns

A pattern of literals, single wildcards and runs, and what it matches. A matcher that goes through
the value once need only remember the last run it passed: where a later run was reached at all, it
can take up all that an earlier one could.

## Main definitions

* `Wildcard.Token` — an element of a pattern.
* `Wildcard.Matches` — what a pattern matches.
* `Wildcard.Tied` — what a pattern without runs has taken.

## Main results

* `Wildcard.matches_iff_pieces` — a value is matched when it is made of a piece for each token.
* `Wildcard.resume_end`, `Wildcard.resume_run`, `Wildcard.resume_back` — what a matcher may do that
  remembers one run: end, forget it for a later one, or let it take one more.
-/

namespace Wildcard

variable {α β γ : Type*}

/-- An element of a pattern. -/
inductive Token (α : Type*)
  /-- Any run of elements, also none. -/
  | run
  /-- Any one element. -/
  | any
  /-- This element. -/
  | lit (a : α)
deriving DecidableEq

/-- One token takes one element of the value, where `r` compares a literal with it. -/
def Token.Takes (r : α → β → Prop) : Token α → β → Prop
  | .run, _ => False
  | .any, _ => True
  | .lit a, c => r a c

/-- The value can be obtained from the pattern. -/
inductive Matches (r : α → β → Prop) : List (Token α) → List β → Prop
  | nil : Matches r [] []
  | skip {p : List (Token α)} {v : List β} : Matches r p v → Matches r (.run :: p) v
  | eat {p : List (Token α)} {v : List β} {c : β} :
      Matches r (.run :: p) v → Matches r (.run :: p) (c :: v)
  | take {t : Token α} {p : List (Token α)} {v : List β} {c : β} :
      t.Takes r c → Matches r p v → Matches r (t :: p) (c :: v)

variable {r : α → β → Prop} {p w : List (Token α)} {u v : List β} {t : Token α} {c : β}

/-! ## A token at a time -/

@[simp]
theorem not_matches_nil_cons : ¬ Matches r [] (c :: v) := by
  intro h
  cases h

/-- Only runs match nothing. -/
theorem matches_nil_iff : Matches r p [] ↔ ∀ t ∈ p, t = .run := by
  constructor
  · intro h
    generalize hv : ([] : List β) = v at h
    induction h with
    | nil => simp
    | skip _ ih => simpa using ih hv
    | eat => cases hv
    | take => cases hv
  · intro h
    induction p with
    | nil => exact .nil
    | cons t p ih =>
      obtain rfl := h t List.mem_cons_self
      exact .skip (ih fun t ht => h t (List.mem_cons_of_mem _ ht))

/-- A token that is not a run takes one element. -/
theorem matches_cons_iff (ht : t ≠ .run) :
    Matches r (t :: p) (c :: v) ↔ t.Takes r c ∧ Matches r p v := by
  constructor
  · intro h
    cases h with
    | skip => exact absurd rfl ht
    | eat => exact absurd rfl ht
    | take htakes hrest => exact ⟨htakes, hrest⟩
  · rintro ⟨htakes, hrest⟩
    exact .take htakes hrest

/-- What takes an element is not a run. -/
theorem Token.Takes.ne_run (h : t.Takes r c) : t ≠ .run := by
  rintro rfl
  exact h

/-- A run takes more. -/
theorem Matches.prepend (h : Matches r (.run :: p) v) (u : List β) :
    Matches r (.run :: p) (u ++ v) := by
  induction u with
  | nil => exact h
  | cons c u ih => exact .eat ih

/-- A run takes a part of the value, and the pattern goes on behind it. -/
theorem matches_run_iff : Matches r (.run :: p) v ↔ ∃ u v', v = u ++ v' ∧ Matches r p v' := by
  constructor
  · intro h
    generalize hq : Token.run :: p = q at h
    induction h with
    | nil => cases hq
    | skip h _ =>
      obtain ⟨-, rfl⟩ := List.cons.inj hq
      exact ⟨[], _, rfl, h⟩
    | eat _ ih =>
      obtain ⟨u, v', rfl, h⟩ := ih hq
      exact ⟨_ :: u, v', rfl, h⟩
    | take htakes =>
      obtain ⟨rfl, -⟩ := List.cons.inj hq
      exact absurd rfl htakes.ne_run
  · rintro ⟨u, v', rfl, h⟩
    exact (Matches.skip h).prepend u

/-- A run takes nothing, or one element more. -/
theorem matches_run_cons_iff :
    Matches r (.run :: p) (c :: v) ↔ Matches r p (c :: v) ∨ Matches r (.run :: p) v := by
  constructor
  · intro h
    cases h with
    | skip h => exact .inl h
    | eat h => exact .inr h
    | take htakes => exact absurd rfl htakes.ne_run
  · rintro (h | h)
    · exact .skip h
    · exact .eat h

/-! ## A piece for each token -/

/-- The piece of the value that a token stands for. -/
def Token.Denotes (r : α → β → Prop) : Token α → List β → Prop
  | .run, _ => True
  | t, piece => ∃ c, piece = [c] ∧ t.Takes r c

/-- A value is matched when it is made of a piece for each token. -/
theorem matches_iff_pieces :
    Matches r p v ↔ ∃ pieces, List.Forall₂ (Token.Denotes r) p pieces ∧ pieces.flatten = v := by
  constructor
  · intro h
    induction h with
    | nil => exact ⟨[], .nil, rfl⟩
    | skip _ ih =>
      obtain ⟨pieces, hpieces, rfl⟩ := ih
      exact ⟨[] :: pieces, .cons trivial hpieces, rfl⟩
    | @eat p v c _ ih =>
      obtain ⟨pieces, hpieces, rfl⟩ := ih
      cases hpieces with
      | @cons _ piece _ pieces _ hpieces => exact ⟨(c :: piece) :: pieces, .cons trivial hpieces, rfl⟩
    | @take t p v c htakes _ ih =>
      obtain ⟨pieces, hpieces, rfl⟩ := ih
      refine ⟨[c] :: pieces, .cons ?_ hpieces, rfl⟩
      cases t with
      | run => trivial
      | any => exact ⟨c, rfl, htakes⟩
      | lit a => exact ⟨c, rfl, htakes⟩
  · rintro ⟨pieces, hpieces, rfl⟩
    induction hpieces with
    | nil => exact .nil
    | @cons t piece p pieces hdenotes _ ih =>
      rw [List.flatten_cons]
      cases t with
      | run => exact (Matches.skip ih).prepend piece
      | any =>
        obtain ⟨c, rfl, htakes⟩ := hdenotes
        exact .take htakes ih
      | lit a =>
        obtain ⟨c, rfl, htakes⟩ := hdenotes
        exact .take htakes ih

/-! ## Remembering the last run -/

/-- A pattern without runs has taken this part of the value. -/
def Tied (r : α → β → Prop) (w : List (Token α)) (u : List β) : Prop :=
  List.Forall₂ (Token.Takes r) w u

/-- A pattern without runs takes a part of the value that is as long as it. -/
theorem Tied.matches_append_iff (h : Tied r w u) :
    Matches r (w ++ p) v ↔ ∃ u' v', v = u' ++ v' ∧ Tied r w u' ∧ Matches r p v' := by
  induction h generalizing v with
  | nil =>
    constructor
    · intro hv
      exact ⟨[], v, rfl, .nil, hv⟩
    · rintro ⟨u', v', rfl, hu', hv'⟩
      cases hu'
      exact hv'
  | @cons t c w u htakes _ ih =>
    constructor
    · intro hv
      cases hv with
      | skip => exact absurd rfl htakes.ne_run
      | eat => exact absurd rfl htakes.ne_run
      | @take _ _ v d htakes' hv =>
        obtain ⟨u', v', rfl, hu', hv'⟩ := ih.1 hv
        exact ⟨d :: u', v', rfl, .cons htakes' hu', hv'⟩
    · rintro ⟨u', v', rfl, hu', hv'⟩
      cases hu' with
      | cons htakes' hu' => exact .take htakes' (ih.2 ⟨_, v', rfl, hu', hv'⟩)

/-- What was tied may be set aside. -/
theorem Tied.matches_append (h : Tied r w u) : Matches r (w ++ p) (u ++ v) ↔ Matches r p v := by
  constructor
  · intro hv
    obtain ⟨u', v', heq, hu', hv'⟩ := h.matches_append_iff.1 hv
    have hlen : u.length = u'.length := h.length_eq.symm.trans hu'.length_eq
    obtain ⟨-, rfl⟩ := List.append_inj heq hlen
    exact hv'
  · intro hv
    exact h.matches_append_iff.2 ⟨u, v, rfl, h, hv⟩

/-- One more is tied. -/
theorem Tied.snoc (h : Tied r w u) (ht : t.Takes r c) : Tied r (w ++ [t]) (u ++ [c]) :=
  List.rel_append h (.cons ht .nil)

/-- Behind a run and what is tied stands the end of the value: whatever the run takes, no more is
left for the rest of the pattern than there is now. -/
theorem Tied.of_matches_run (h : Tied r w u) (hv : Matches r (.run :: (w ++ p)) (u ++ v)) :
    ∃ u' v', v = u' ++ v' ∧ Matches r p v' := by
  obtain ⟨x, y, heq, hy⟩ := matches_run_iff.1 hv
  obtain ⟨u', v', rfl, hu', hv'⟩ := h.matches_append_iff.1 hy
  have hlen : u.length = u'.length := h.length_eq.symm.trans hu'.length_eq
  have hend : v' <:+ u ++ v := ⟨x ++ u', by rw [List.append_assoc, heq]⟩
  have hsuffix : v' <:+ v := by
    apply List.suffix_of_suffix_length_le hend (List.suffix_append u v)
    have hlength := congrArg List.length heq
    simp only [List.length_append] at hlength
    omega
  obtain ⟨u'', rfl⟩ := hsuffix
  exact ⟨u'', v', rfl, hv'⟩

/-- At the end of the value, the run that is remembered has nothing more to take. -/
theorem resume_end (h : Tied r w u) : Matches r (.run :: (w ++ p)) u ↔ ∀ t ∈ p, t = .run := by
  rw [← matches_nil_iff (r := r)]
  constructor
  · intro hv
    rw [← List.append_nil u] at hv
    obtain ⟨u', v', heq, hv'⟩ := h.of_matches_run hv
    obtain ⟨-, rfl⟩ := List.append_eq_nil_iff.1 heq.symm
    exact hv'
  · intro hp
    rw [← List.append_nil u]
    exact .skip (h.matches_append.2 hp)

/-- At a later run, the one that is remembered may be forgotten: the later one takes what the earlier
one would. -/
theorem resume_run (h : Tied r w u) :
    Matches r (.run :: (w ++ .run :: p)) (u ++ v) ↔ Matches r (.run :: p) v := by
  constructor
  · intro hv
    obtain ⟨u', v', rfl, hv'⟩ := h.of_matches_run hv
    exact hv'.prepend u'
  · intro hp
    exact .skip (h.matches_append.2 hp)

/-- Where the pattern does not go on, the run that is remembered takes one element more. -/
theorem resume_back {sv : List β} (h : Tied r w u) (hp : ¬ Matches r p v) (hsv : u ++ v = c :: sv) :
    Matches r (.run :: (w ++ p)) (u ++ v) ↔ Matches r (.run :: (w ++ p)) sv := by
  rw [hsv, matches_run_cons_iff, ← hsv, h.matches_append]
  exact or_iff_right hp

/-! ## Folding -/

/-- A token of a folded pattern. -/
def Token.map (f : α → β) : Token α → Token β
  | .run => .run
  | .any => .any
  | .lit a => .lit (f a)

/-- To compare without regard to what a map forgets is to compare what it leaves. -/
theorem matches_map_iff {f : α → γ} {g : β → γ} :
    Matches (· = ·) (p.map (Token.map f)) (v.map g) ↔ Matches (fun a c => f a = g c) p v := by
  have htakes : ∀ (t : Token α) (c : β),
      (t.map f).Takes (· = ·) (g c) ↔ t.Takes (fun a c => f a = g c) c := by
    intro t c
    cases t <;> exact Iff.rfl
  constructor
  · intro h
    generalize hq : p.map (Token.map f) = q at h
    generalize hx : v.map g = x at h
    induction h generalizing p v with
    | nil =>
      obtain rfl := List.map_eq_nil_iff.1 hq
      obtain rfl := List.map_eq_nil_iff.1 hx
      exact .nil
    | skip _ ih =>
      obtain ⟨t, p, rfl, ht, rfl⟩ := List.map_eq_cons_iff.1 hq
      cases t <;> cases ht
      exact .skip (ih rfl hx)
    | eat _ ih =>
      obtain ⟨c, v, rfl, -, rfl⟩ := List.map_eq_cons_iff.1 hx
      obtain ⟨t, p, rfl, ht, rfl⟩ := List.map_eq_cons_iff.1 hq
      cases t <;> cases ht
      exact .eat (ih (p := .run :: p) rfl rfl)
    | take ht _ ih =>
      obtain ⟨t, p, rfl, rfl, rfl⟩ := List.map_eq_cons_iff.1 hq
      obtain ⟨c, v, rfl, rfl, rfl⟩ := List.map_eq_cons_iff.1 hx
      exact .take ((htakes t c).1 ht) (ih rfl rfl)
  · intro h
    induction h with
    | nil => exact .nil
    | skip _ ih => exact .skip ih
    | eat _ ih => exact .eat ih
    | @take t _ _ c ht _ ih => exact .take ((htakes t c).2 ht) ih

end Wildcard
