import Mathlib

set_option relaxedAutoImplicit false
set_option autoImplicit false

/-!
# Tables of slots

A list whose entries are known by their position, such as the tasks a system has spawned or the
connections it has opened: entries are added at the end and changed in place, and none is removed.

## Main definitions

* `Slots.Related` — every entry of the second table is one of the first, changed by a relation.

## Main results

* `Slots.getElem?_modify_eq_some`, `Slots.getElem?_set_eq_some`, `Slots.getElem?_concat_eq_some` —
  the entries of a table after an entry was changed, replaced or added.
* `Slots.Related.trans`, `Slots.related_modify` — such changes compose, and changing one entry is
  one.
-/

namespace Slots

variable {α : Type*} {l l' l'' : List α} {i j : ℕ} {a b : α}

/-! ## Lookups -/

/-- The entry of a table that holds one. -/
theorem getElem?_singleton_eq_some (h : [a][i]? = some b) : i = 0 ∧ b = a := by
  cases i with
  | zero => exact ⟨rfl, (Option.some.inj h).symm⟩
  | succ i => cases h

/-- The entries after one of them was changed. -/
theorem getElem?_modify_eq_some {f : α → α} :
    (l.modify i f)[j]? = some b ↔ ∃ a, l[j]? = some a ∧ b = if i = j then f a else a := by
  rw [List.getElem?_modify, Option.map_eq_map, Option.map_eq_some_iff]
  constructor
  · rintro ⟨a, ha, rfl⟩
    exact ⟨a, ha, by split_ifs <;> rfl⟩
  · rintro ⟨a, ha, rfl⟩
    exact ⟨a, ha, by split_ifs <;> rfl⟩

/-- The entries after one of them was replaced. -/
theorem getElem?_set_eq_some (h : (l.set i a)[j]? = some b) :
    (j = i ∧ b = a) ∨ (j ≠ i ∧ l[j]? = some b) := by
  rw [List.getElem?_set] at h
  split_ifs at h with hij hi
  · exact .inl ⟨hij.symm, (Option.some.inj h).symm⟩
  · exact .inr ⟨fun hji => hij hji.symm, h⟩

/-- The entries after one was added. -/
theorem getElem?_concat_eq_some :
    (l ++ [a])[j]? = some b ↔ l[j]? = some b ∨ (j = l.length ∧ b = a) := by
  rcases Nat.lt_trichotomy j l.length with hlt | rfl | hgt
  · rw [List.getElem?_append_left hlt]
    exact ⟨.inl, fun h => h.resolve_right fun h => absurd h.1 (Nat.ne_of_lt hlt)⟩
  · simp [eq_comm]
  · rw [List.getElem?_eq_none (by simp; omega), List.getElem?_eq_none (Nat.le_of_lt hgt)]
    simp [Nat.ne_of_gt hgt]

/-! ## Changes in place -/

/-- The tables have the same slots, and each entry of the second is related to the one of the
first in the same slot. -/
structure Related (R : α → α → Prop) (l l' : List α) : Prop where
  length_eq : l'.length = l.length
  slot : ∀ {i : ℕ} {b : α}, l'[i]? = some b → ∃ a, l[i]? = some a ∧ R a b

variable {R : α → α → Prop}

theorem Related.refl (hR : ∀ a, R a a) (l : List α) : Related R l l :=
  ⟨rfl, fun {_ b} h => ⟨b, h, hR b⟩⟩

theorem Related.trans (hR : ∀ {a b c}, R a b → R b c → R a c) (h : Related R l l')
    (h' : Related R l' l'') : Related R l l'' where
  length_eq := h'.length_eq.trans h.length_eq
  slot := by
    intro i c hc
    obtain ⟨b, hb, hbc⟩ := h'.slot hc
    obtain ⟨a, ha, hab⟩ := h.slot hb
    exact ⟨a, ha, hR hab hbc⟩

/-- An entry of the first table is one of the second. -/
theorem Related.exists (h : Related R l l') (ha : l[i]? = some a) :
    ∃ b, l'[i]? = some b ∧ R a b := by
  have hi : i < l'.length := by
    rw [h.length_eq]
    exact (List.getElem?_eq_some_iff.1 ha).1
  obtain ⟨a', ha', hab⟩ := h.slot (List.getElem?_eq_getElem hi)
  cases ha.symm.trans ha'
  exact ⟨l'[i], List.getElem?_eq_getElem hi, hab⟩

/-- Changing one entry. -/
theorem related_modify (hR : ∀ a, R a a) {f : α → α} (hf : ∀ a, l[i]? = some a → R a (f a)) :
    Related R l (l.modify i f) where
  length_eq := List.length_modify f l i
  slot := by
    intro j b hb
    obtain ⟨a, ha, rfl⟩ := getElem?_modify_eq_some.1 hb
    refine ⟨a, ha, ?_⟩
    split_ifs with hij
    · subst hij
      exact hf a ha
    · exact hR a

end Slots
