import Mathlib

set_option relaxedAutoImplicit false
set_option autoImplicit false

/-!
# Files written in ranges

A file that is written piece by piece, at any offsets and in any order. A piece that is written
beyond the end leaves a gap before it, which reads as a filler. The pieces are those of a source.

## Main definitions

* `Ranged.writeAt` — the file after a piece was written.
* `Ranged.Piece` — the piece is what the source has at an offset.
* `Ranged.Holds` — the file has what the source has at a position.

## Main results

* `Ranged.Piece.holds_writeAt`, `Ranged.Holds.writeAt` — a piece that is written is held, and what
  was held stays so.
* `Ranged.eq_of_holds` — a file that is not longer than the source and holds it everywhere is it.
-/

namespace Ranged

variable {α : Type*} {zero : α} {source file piece : List α} {offset p : ℕ}

/-- The file after `piece` was written at `offset`. -/
def writeAt (zero : α) (file : List α) (offset : ℕ) (piece : List α) : List α :=
  if piece = [] then file
  else
    (file ++ List.replicate (offset - file.length) zero).take offset ++ piece ++
      file.drop (offset + piece.length)

/-- The piece is what the source has at the offset. -/
def Piece (source : List α) (offset : ℕ) (piece : List α) : Prop := piece <+: source.drop offset

/-- The file has what the source has at the position, and the source has something there. -/
def Holds (source file : List α) (p : ℕ) : Prop := ∃ a, source[p]? = some a ∧ file[p]? = some a

/-! ## What a write does -/

/-- What comes before the piece takes up exactly the room before it. -/
theorem length_before (zero : α) (file : List α) (offset : ℕ) :
    ((file ++ List.replicate (offset - file.length) zero).take offset).length = offset := by
  rw [List.length_take, List.length_append, List.length_replicate]
  omega

/-- The piece can be read back. -/
theorem getElem?_writeAt_inside (hle : offset ≤ p) (hlt : p < offset + piece.length) :
    (writeAt zero file offset piece)[p]? = piece[p - offset]? := by
  have hne : piece ≠ [] := by
    rintro rfl
    simp at hlt
    omega
  have hbefore := length_before zero file offset
  rw [writeAt, if_neg hne, List.append_assoc, List.getElem?_append_right (by omega), hbefore,
    List.getElem?_append_left (by omega)]

/-- What the file had outside of the piece stays. -/
theorem getElem?_writeAt_outside (hp : p < file.length)
    (hout : p < offset ∨ offset + piece.length ≤ p) :
    (writeAt zero file offset piece)[p]? = file[p]? := by
  unfold writeAt
  split_ifs with hnil
  · rfl
  · have hbefore := length_before zero file offset
    rcases hout with hlt | hle
    · rw [List.append_assoc, List.getElem?_append_left (by omega), List.getElem?_take_of_lt hlt,
        List.getElem?_append_left hp]
    · rw [List.getElem?_append_right (by rw [List.length_append]; omega), List.length_append,
        hbefore, List.getElem?_drop]
      congr 1
      omega

/-- A file is not longer than it was, or than the piece needs. -/
theorem length_writeAt_le :
    (writeAt zero file offset piece).length ≤ max file.length (offset + piece.length) := by
  unfold writeAt
  split_ifs
  · exact Nat.le_max_left _ _
  · have hbefore := length_before zero file offset
    rw [List.length_append, List.length_append, hbefore, List.length_drop]
    omega

/-- A write within the file puts the piece in the place of what it had there. -/
theorem writeAt_of_le (zero : α) (piece : List α) (h : offset ≤ file.length) :
    writeAt zero file offset piece = file.take offset ++ piece ++ file.drop (offset + piece.length) := by
  unfold writeAt
  split_ifs with hnil
  · rw [hnil, List.append_nil, List.length_nil, Nat.add_zero, List.take_append_drop]
  · rw [Nat.sub_eq_zero_of_le h, List.replicate_zero, List.append_nil]

/-! ## Pieces of a source -/

/-- What a piece has is the source's. -/
theorem Piece.getElem? (h : Piece source offset piece) (hle : offset ≤ p)
    (hlt : p < offset + piece.length) : piece[p - offset]? = source[p]? := by
  obtain ⟨rest, hrest⟩ := h
  have hdrop : (source.drop offset)[p - offset]? = source[p]? := by
    rw [List.getElem?_drop]
    congr 1
    omega
  rw [← hdrop, ← hrest, List.getElem?_append_left (by omega)]

/-- A piece that is not empty lies within the source. -/
theorem Piece.end_le (h : Piece source offset piece) (hne : piece ≠ []) :
    offset + piece.length ≤ source.length := by
  have hlen := h.length_le
  have hpos : 0 < piece.length := List.length_pos_iff.2 hne
  rw [List.length_drop] at hlen
  omega

/-- A beginning of what the source has at an offset is a piece. -/
theorem piece_take (source : List α) (offset n : ℕ) :
    Piece source offset ((source.drop offset).take n) := List.take_prefix _ _

/-- **A piece that is written is held.** -/
theorem Piece.holds_writeAt (h : Piece source offset piece) (hle : offset ≤ p)
    (hlt : p < offset + piece.length) : Holds source (writeAt zero file offset piece) p := by
  have hget := h.getElem? hle hlt
  have hsome : p - offset < piece.length := by omega
  rw [List.getElem?_eq_getElem hsome] at hget
  refine ⟨_, hget.symm, ?_⟩
  rw [getElem?_writeAt_inside hle hlt, List.getElem?_eq_getElem hsome]

/-- **What is held stays so.** -/
theorem Holds.writeAt (h : Holds source file p) (hpiece : Piece source offset piece) :
    Holds source (writeAt zero file offset piece) p := by
  by_cases hin : offset ≤ p ∧ p < offset + piece.length
  · exact hpiece.holds_writeAt hin.1 hin.2
  · obtain ⟨a, hsource, hfile⟩ := h
    have hp : p < file.length := (List.getElem?_eq_some_iff.1 hfile).1
    exact ⟨a, hsource, (getElem?_writeAt_outside hp (by omega)).trans hfile⟩

/-- A file does not outgrow its source. -/
theorem Piece.length_writeAt_le (h : Piece source offset piece)
    (hfile : file.length ≤ source.length) :
    (writeAt zero file offset piece).length ≤ source.length := by
  by_cases hnil : piece = []
  · rw [Ranged.writeAt, if_pos hnil]
    exact hfile
  · have := h.end_le hnil
    have := @Ranged.length_writeAt_le _ zero file piece offset
    omega

/-- **A file that holds its source everywhere is the source.** -/
theorem eq_of_holds (hlen : file.length ≤ source.length)
    (h : ∀ p < source.length, Holds source file p) : file = source := by
  apply List.ext_getElem?
  intro p
  by_cases hp : p < source.length
  · obtain ⟨a, hsource, hfile⟩ := h p hp
    rw [hsource, hfile]
  · rw [List.getElem?_eq_none (by omega), List.getElem?_eq_none (by omega)]

end Ranged
