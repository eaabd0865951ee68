import Mathlib

set_option relaxedAutoImplicit false
set_option autoImplicit false

/-!
# Ranges that tile a stretch

A stretch of positions is handled in ranges: each is asked for, split, put aside or given up, and
what is handled in order is taken from the front. That no position is forgotten on the way is a
fact about how often the ranges contain it.

## Main definitions

* `Tiling.count` — how many of the ranges contain a position.
* `Tiling.Tiles` — the ranges are disjoint, lie within the stretch, and contain all of it but what
  is lost.

## Main results

* `Tiling.Tiles.exists_start` — where a range is left and nothing before it is lost, one begins at
  the front of the stretch.
* `Tiling.Tiles.advance`, `Tiling.Tiles.extend`, `Tiling.Tiles.lose` — the stretch is shortened at
  its front, grows at its end, and loses a range.
-/

namespace Tiling

variable {x y bound lo hi n : ℕ} {lost lost' : ℕ → Prop} {r r' : ℕ × ℕ} {rs rs' : List (ℕ × ℕ)}

/-- The position is in the range, given by its first position and its length. -/
def Within (x : ℕ) (r : ℕ × ℕ) : Prop := r.1 ≤ x ∧ x < r.1 + r.2

instance (x : ℕ) (r : ℕ × ℕ) : Decidable (Within x r) := inferInstanceAs (Decidable (_ ∧ _))

/-- How many of the ranges contain the position. -/
def count (x : ℕ) (rs : List (ℕ × ℕ)) : ℕ := rs.countP fun r => Within x r

@[simp] theorem count_nil (x : ℕ) : count x [] = 0 := rfl

@[simp] theorem count_append (x : ℕ) (rs rs' : List (ℕ × ℕ)) :
    count x (rs ++ rs') = count x rs + count x rs' := List.countP_append

theorem count_cons (x : ℕ) (r : ℕ × ℕ) (rs : List (ℕ × ℕ)) :
    count x (r :: rs) = count x rs + if Within x r then 1 else 0 := by
  unfold count
  rw [List.countP_cons]
  simp

/-- A range is as good as two that it is split into. -/
theorem count_split (x a : ℕ) {len : ℕ} (hn : n ≤ len) (rs : List (ℕ × ℕ)) :
    count x ((a, len) :: rs) = count x ((a, n) :: (a + n, len - n) :: rs) := by
  rw [count_cons, count_cons, count_cons]
  have hiff : Within x (a, len) ↔ Within x (a, n) ∨ Within x (a + n, len - n) := by
    simp only [Within]
    omega
  have hnot : ¬ (Within x (a, n) ∧ Within x (a + n, len - n)) := by
    simp only [Within]
    omega
  by_cases hfirst : Within x (a, n)
  · rw [if_pos (hiff.2 (.inl hfirst)), if_pos hfirst, if_neg fun hsecond => hnot ⟨hfirst, hsecond⟩]
  · by_cases hsecond : Within x (a + n, len - n)
    · rw [if_pos (hiff.2 (.inr hsecond)), if_pos hsecond, if_neg hfirst]
    · rw [if_neg hfirst, if_neg hsecond, if_neg fun h => (hiff.1 h).elim hfirst hsecond]

/-- A position that is counted is in a range. -/
theorem exists_within (h : 0 < count x rs) : ∃ r ∈ rs, Within x r := by
  obtain ⟨r, hr, hx⟩ := List.countP_pos_iff.1 h
  exact ⟨r, hr, by simpa using hx⟩

/-- A position in a range is counted. -/
theorem count_pos (hr : r ∈ rs) (hx : Within x r) : 0 < count x rs :=
  List.countP_pos_iff.2 ⟨r, hr, by simpa using hx⟩

/-- Below `bound`: every position is in at most one range, in none outside of `lo` to `hi`, and
in one inside, unless it is lost. -/
structure Tiles (bound lo hi : ℕ) (lost : ℕ → Prop) (rs : List (ℕ × ℕ)) : Prop where
  outside : ∀ x < bound, x < lo ∨ hi ≤ x → count x rs = 0
  once : ∀ x < bound, count x rs ≤ 1
  inside : ∀ x < bound, lo ≤ x → x < hi → ¬ lost x → count x rs = 1

namespace Tiles

/-- Nothing tiles the empty stretch. -/
theorem nil (bound lo : ℕ) (lost : ℕ → Prop) : Tiles bound lo lo lost [] where
  outside _ _ _ := rfl
  once _ _ := Nat.zero_le _
  inside _ _ hlo hhi _ := absurd hhi (Nat.not_lt.2 hlo)

/-- Only the counts matter. -/
theorem congr (h : Tiles bound lo hi lost rs) (hcount : ∀ x < bound, count x rs' = count x rs) :
    Tiles bound lo hi lost rs' where
  outside x hx hout := (hcount x hx).trans (h.outside x hx hout)
  once x hx := (hcount x hx).trans_le (h.once x hx)
  inside x hx hlo hhi hlost := (hcount x hx).trans (h.inside x hx hlo hhi hlost)

/-- More may be lost. -/
theorem mono (h : Tiles bound lo hi lost rs) (hlost : ∀ x, lost x → lost' x) :
    Tiles bound lo hi lost' rs where
  outside := h.outside
  once := h.once
  inside x hx hlo hhi hnot := h.inside x hx hlo hhi fun hl => hnot (hlost x hl)

/-- A range is given up, and all of it is lost. -/
theorem lose (h : Tiles bound lo hi lost (r :: rs)) (hlost : ∀ x, lost x → lost' x)
    (hr : ∀ x, Within x r → lost' x) : Tiles bound lo hi lost' rs where
  outside x hx hout := by
    have hzero := h.outside x hx hout
    rw [count_cons] at hzero
    omega
  once x hx := by
    have hone := h.once x hx
    rw [count_cons] at hone
    omega
  inside x hx hlo hhi hnot := by
    have hone := h.inside x hx hlo hhi fun hl => hnot (hlost x hl)
    rwa [count_cons, if_neg fun hw => hnot (hr x hw)] at hone

/-- A range that is left lies within the stretch. -/
theorem le_start (h : Tiles bound lo hi lost rs) (hr : r ∈ rs) (hpos : 0 < r.2)
    (hbound : r.1 < bound) : lo ≤ r.1 ∧ r.1 < hi := by
  have hcount : 0 < count r.1 rs := count_pos hr ⟨Nat.le_refl _, by omega⟩
  by_contra hout
  have hzero := h.outside r.1 hbound (by omega)
  omega

/-- Two ranges do not begin at one position. -/
theorem start_ne (h : Tiles bound lo hi lost (r :: rs)) (hpos : 0 < r.2) (hbound : r.1 < bound)
    (hr' : r' ∈ rs) (hpos' : 0 < r'.2) : r'.1 ≠ r.1 := by
  intro heq
  have hone := h.once r.1 hbound
  have hrest : 0 < count r.1 rs := count_pos hr' ⟨by omega, by omega⟩
  rw [count_cons, if_pos ⟨Nat.le_refl _, by omega⟩] at hone
  omega

/-- The range at the front is taken, and the stretch begins after it. -/
theorem advance (h : Tiles bound lo hi lost ((lo, n) :: rs)) :
    Tiles bound (lo + n) hi lost rs where
  outside x hx hout := by
    have hone := h.once x hx
    rw [count_cons] at hone
    by_cases hw : Within x (lo, n)
    · rw [if_pos hw] at hone
      omega
    · have hzero := h.outside x hx (by unfold Within at hw; dsimp only at hw; omega)
      rw [count_cons] at hzero
      omega
  once x hx := by
    have hone := h.once x hx
    rw [count_cons] at hone
    omega
  inside x hx hlo hhi hnot := by
    have hone := h.inside x hx (by omega) hhi hnot
    rwa [count_cons, if_neg (by unfold Within; dsimp only; omega)] at hone

/-- The range that is taken does not reach beyond the stretch, if that ends below the bound. -/
theorem advance_le (h : Tiles bound lo hi lost ((lo, n) :: rs)) (hlo : lo ≤ hi)
    (hhi : hi < bound) : lo + n ≤ hi := by
  by_contra hlong
  have hzero := h.outside hi hhi (.inr (Nat.le_refl _))
  rw [count_cons, if_pos ⟨hlo, by dsimp only; omega⟩] at hzero
  omega

/-- The stretch grows at its end by a range. -/
theorem extend (h : Tiles bound lo hi lost rs) (hlo : lo ≤ hi) :
    Tiles bound lo (hi + n) lost ((hi, n) :: rs) where
  outside x hx hout := by
    have hzero := h.outside x hx (by omega)
    rw [count_cons, if_neg (by unfold Within; dsimp only; omega), hzero]
  once x hx := by
    have hone := h.once x hx
    rw [count_cons]
    by_cases hw : Within x (hi, n)
    · have hzero := h.outside x hx (.inr hw.1)
      rw [if_pos hw]
      omega
    · rw [if_neg hw]
      omega
  inside x hx hle hhi hnot := by
    rw [count_cons]
    by_cases hw : Within x (hi, n)
    · rw [if_pos hw, h.outside x hx (.inr hw.1)]
    · rw [if_neg hw, h.inside x hx hle (by unfold Within at hw; dsimp only at hw; omega) hnot]

/-- **A range begins at the front** of a stretch, if one is left at all that is not lost, and what
is lost ends the stretch.

**Proof sketch.** The range that is left begins within the stretch, so the front is not lost
either and lies in a range. That one cannot begin before the front. -/
theorem exists_start (h : Tiles bound lo hi lost rs) (hr : r ∈ rs) (hpos : 0 < r.2)
    (hbound : r.1 < bound) (hlost : ∀ x y, lost x → x ≤ y → lost y) (hnot : ¬ lost r.1) :
    ∃ r' ∈ rs, r'.1 = lo := by
  obtain ⟨hlo, hhi⟩ := h.le_start hr hpos hbound
  have hone := h.inside lo (by omega) (Nat.le_refl _) (by omega)
    fun hl => hnot (hlost _ _ hl hlo)
  obtain ⟨r', hr', hle, hlt⟩ := exists_within (show 0 < count lo rs by omega)
  have hstart := (h.le_start hr' (by omega) (by omega)).1
  exact ⟨r', hr', by omega⟩

end Tiles

end Tiling
