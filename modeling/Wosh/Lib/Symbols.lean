import Mathlib

set_option relaxedAutoImplicit false
set_option autoImplicit false

/-!
# Distinct symbols

A list of distinct symbols numbers them. A text in these symbols and the list of their numbers
determine each other.

## Main results

* `Symbols.idxOf?_eq_some` — a symbol is the one at its number.
* `Symbols.mapM_idxOf?` — a text has the numbers whose symbols it is made of.
-/

namespace Symbols

variable {α : Type} [BEq α] [LawfulBEq α] {symbols : List α}

/-- A symbol is the one at its number. -/
theorem idxOf?_eq_some (hnodup : symbols.Nodup) (default : α) {a : α} {n : ℕ} :
    symbols.idxOf? a = some n ↔ n < symbols.length ∧ symbols.getD n default = a := by
  rw [List.idxOf?_eq_some_iff]
  constructor
  · rintro ⟨hn, ha, -⟩
    exact ⟨hn, by rw [List.getD_eq_getElem _ _ hn, ha]⟩
  · rintro ⟨hn, ha⟩
    rw [List.getD_eq_getElem _ _ hn] at ha
    refine ⟨hn, ha, fun j hj hsame => ?_⟩
    have heq : j = n := hnodup.getElem_inj_iff.1 (hsame.trans ha.symm)
    omega

/-- **A text has the numbers whose symbols it is made of.** -/
theorem mapM_idxOf? (hnodup : symbols.Nodup) (default : α) {text : List α} {ns : List ℕ} :
    text.mapM symbols.idxOf? = some ns ↔
      (∀ n ∈ ns, n < symbols.length) ∧ text = ns.map (symbols.getD · default) := by
  induction text generalizing ns with
  | nil => cases ns <;> simp
  | cons a text ih =>
    cases ns with
    | nil => simp [Option.bind_eq_some_iff]
    | cons n ns =>
      simp only [List.mapM_cons, Option.bind_eq_bind, Option.bind_eq_some_iff, Option.pure_def,
        Option.some.injEq, List.cons.injEq, List.map_cons, List.forall_mem_cons, ih,
        idxOf?_eq_some hnodup default]
      constructor
      · rintro ⟨n', ⟨hn, rfl⟩, ns', ⟨hns, rfl⟩, rfl, rfl⟩
        exact ⟨⟨hn, hns⟩, rfl, rfl⟩
      · rintro ⟨⟨hn, hns⟩, rfl, rfl⟩
        exact ⟨n, ⟨hn, rfl⟩, ns, ⟨hns, rfl⟩, rfl, rfl⟩

end Symbols
