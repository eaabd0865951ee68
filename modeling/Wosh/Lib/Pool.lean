import Mathlib

set_option relaxedAutoImplicit false
set_option autoImplicit false

/-!
# Pools of permits

Parties that share a line draw permits from one pool before they send, and hand them back when they
are answered. Each has permits that it holds, and something on the line that waits for an answer.
What waits and belongs to no party any more is stray: no permits stand for it.

## Main definitions

* `Pool.Bounded` — each party holds permits for what it has waiting, and neither the permits nor
  what waits, stray or not, is more than the limit.

## Main results

* `Pool.sum_map_set` — a sum over a table after one of its entries was replaced.
* `Pool.Bounded.replace` — a party keeps the bound where there is room for what it has waiting.
* `Pool.Bounded.draw` — so does one that sends more, where nothing is stray.
* `Pool.Bounded.join`, `Pool.Bounded.map` — so do a new party, and answers to several.
-/

namespace Pool

variable {α : Type*}

/-! ## Sums over a table -/

/-- A sum over a table after one of its entries was replaced. -/
theorem sum_map_set (f : α → ℕ) {l : List α} {i : ℕ} {a : α} (h : l[i]? = some a) (b : α) :
    ((l.set i b).map f).sum + f a = (l.map f).sum + f b := by
  induction l generalizing i with
  | nil => simp at h
  | cons c l ih =>
    cases i with
    | zero =>
      obtain rfl : c = a := by simpa using h
      simp only [List.set_cons_zero, List.map_cons, List.sum_cons]
      omega
    | succ i =>
      have hrest := ih (by simpa using h)
      simp only [List.set_cons_succ, List.map_cons, List.sum_cons]
      omega

/-- What one entry has is no more than all have. -/
theorem le_sum_map (f : α → ℕ) {l : List α} {i : ℕ} {a : α} (h : l[i]? = some a) :
    f a ≤ (l.map f).sum :=
  List.le_sum_of_mem (List.mem_map_of_mem (List.mem_of_getElem? h))

/-! ## The bound -/

section

variable (limit : ℕ) (held waiting : α → ℕ)

/-- Each party holds permits for what it has waiting, and neither the permits nor what waits, with
what is stray, is more than the limit. -/
structure Bounded (l : List α) (stray : ℕ) : Prop where
  covered : ∀ a ∈ l, waiting a ≤ held a
  pool : (l.map held).sum ≤ limit
  line : (l.map waiting).sum + stray ≤ limit

end

variable {limit : ℕ} {held waiting : α → ℕ} {l : List α} {i stray stray' : ℕ} {a b : α}

/-- Nobody holds anything. -/
theorem Bounded.nil : Bounded limit held waiting [] 0 := ⟨by simp, by simp, by simp⟩

/-- What the parties have waiting is no more than the permits they hold. -/
theorem sum_waiting_le (h : ∀ a ∈ l, waiting a ≤ held a) :
    (l.map waiting).sum ≤ (l.map held).sum := List.sum_le_sum h

/-- Where a party is replaced by one that is covered, all are. -/
theorem covered_set (h : ∀ a ∈ l, waiting a ≤ held a) (hb : waiting b ≤ held b) :
    ∀ c ∈ l.set i b, waiting c ≤ held c := by
  intro c hc
  rcases List.mem_or_eq_of_mem_set hc with hc | rfl
  · exact h c hc
  · exact hb

/-- The permits fit after a party's were replaced by what fits beside those of the others. -/
theorem pool_set (hi : l[i]? = some a)
    (hpool : (l.map held).sum - held a + held b ≤ limit) :
    ((l.set i b).map held).sum ≤ limit := by
  have hset := sum_map_set held hi b
  have hle := le_sum_map held hi
  omega

/-- A party keeps the bound where there is room for what it has waiting, beside what waits of the
others and what is stray. -/
theorem Bounded.replace (h : Bounded limit held waiting l stray) (hi : l[i]? = some a)
    (hb : waiting b ≤ held b) (hpool : (l.map held).sum - held a + held b ≤ limit)
    (hline : (l.map waiting).sum - waiting a + waiting b + stray' ≤ limit) :
    Bounded limit held waiting (l.set i b) stray' := by
  refine ⟨covered_set h.covered hb, pool_set hi hpool, ?_⟩
  have hset := sum_map_set waiting hi b
  have hle := le_sum_map waiting hi
  omega

/-- A party that sends more keeps the bound where nothing is stray: what waits is covered, and the
permits fit. -/
theorem Bounded.draw (h : Bounded limit held waiting l 0) (hi : l[i]? = some a)
    (hb : waiting b ≤ held b) (hpool : (l.map held).sum - held a + held b ≤ limit) :
    Bounded limit held waiting (l.set i b) 0 := by
  have hcovered := covered_set (i := i) h.covered hb
  have hfits := pool_set hi hpool
  exact ⟨hcovered, hfits, (sum_waiting_le hcovered).trans hfits⟩

/-- A new party has nothing. -/
theorem Bounded.join (h : Bounded limit held waiting l stray) (hheld : held b = 0)
    (hwaiting : waiting b = 0) : Bounded limit held waiting (l ++ [b]) stray where
  covered := by
    intro c hc
    rcases List.mem_append.1 hc with hc | hc
    · exact h.covered c hc
    · obtain rfl := List.mem_singleton.1 hc
      exact hwaiting.trans_le (Nat.zero_le _)
  pool := by simpa [hheld] using h.pool
  line := by simpa [hwaiting] using h.line

/-- Answers, or the end of the line, take away from what waits and leave the permits. -/
theorem Bounded.map (h : Bounded limit held waiting l stray) {f : α → α}
    (hheld : ∀ a ∈ l, held (f a) = held a) (hwaiting : ∀ a ∈ l, waiting (f a) ≤ waiting a)
    (hstray : stray' ≤ stray) : Bounded limit held waiting (l.map f) stray' where
  covered := by
    intro c hc
    obtain ⟨a, ha, rfl⟩ := List.mem_map.1 hc
    calc waiting (f a) ≤ waiting a := hwaiting a ha
      _ ≤ held a := h.covered a ha
      _ = held (f a) := (hheld a ha).symm
  pool := by
    have hsame : (l.map f).map held = l.map held := by
      rw [List.map_map]
      exact List.map_congr_left hheld
    rw [hsame]
    exact h.pool
  line := by
    have hle : ((l.map f).map waiting).sum ≤ (l.map waiting).sum := by
      rw [List.map_map]
      exact List.sum_le_sum hwaiting
    have hbound := h.line
    omega

end Pool
