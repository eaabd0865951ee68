import Mathlib

set_option relaxedAutoImplicit false
set_option autoImplicit false

/-!
# Logs whose entries are justified

A log that is only appended to, in which each entry needs a reason among the entries before it.

## Main definitions

* `Chronicle.Follows` — each of the new entries is justified by those before it.
* `Chronicle.Founded` — so is every entry of a log.

## Main results

* `Chronicle.follows_append` — entries follow one after the other.
* `Chronicle.Founded.append` — a log to which justified entries are appended is founded.
* `Chronicle.Founded.justified` — the reason of an entry, wherever it stands.
-/

namespace Chronicle

variable {ε : Type*} (J : List ε → ε → Prop)

/-- Each of the new entries is justified by those before it, the new ones among them. -/
def Follows : List ε → List ε → Prop
  | _, [] => True
  | es, d :: ds => J es d ∧ Follows (es ++ [d]) ds

/-- Every entry is justified by those before it. -/
def Founded (es : List ε) : Prop := Follows J [] es

variable {J} {es ds : List ε} {d : ε}

@[simp] theorem follows_nil : Follows J es [] := trivial

@[simp] theorem follows_cons : Follows J es (d :: ds) ↔ J es d ∧ Follows J (es ++ [d]) ds := Iff.rfl

/-- Entries follow one after the other. -/
theorem follows_append {ds' : List ε} :
    Follows J es (ds ++ ds') ↔ Follows J es ds ∧ Follows J (es ++ ds) ds' := by
  induction ds generalizing es with
  | nil => simp
  | cons d ds ih =>
    rw [List.cons_append, follows_cons, follows_cons, ih, and_assoc, List.append_assoc,
      List.singleton_append]

/-- Entries that need no reason follow anything. -/
theorem follows_of_forall (h : ∀ x ∈ ds, ∀ pre, J pre x) : Follows J es ds := by
  induction ds generalizing es with
  | nil => trivial
  | cons d ds ih =>
    exact ⟨h d List.mem_cons_self es, ih fun x hx => h x (List.mem_cons_of_mem d hx)⟩

theorem founded_nil : Founded J [] := trivial

theorem Founded.append (h : Founded J es) (hds : Follows J es ds) : Founded J (es ++ ds) :=
  follows_append.2 ⟨h, hds⟩

/-- The reason of an entry. -/
theorem Founded.justified {pre post : List ε} (h : Founded J (pre ++ d :: post)) : J pre d :=
  (follows_append.1 h).2.1

/-- Every entry has its reason among the entries of the log. -/
theorem Founded.reason (h : Founded J es) (hd : d ∈ es) :
    ∃ pre, pre <+: es ∧ J pre d ∧ Founded J pre := by
  obtain ⟨pre, post, rfl⟩ := List.append_of_mem hd
  exact ⟨pre, List.prefix_append _ _, h.justified, (follows_append.1 h).1⟩

/-- The entries before one are founded too. -/
theorem Founded.before {pre post : List ε} (h : Founded J (pre ++ post)) : Founded J pre :=
  (follows_append.1 h).1

end Chronicle
