import Mathlib

set_option relaxedAutoImplicit false
set_option autoImplicit false

/-!
# Readers of a format

A format relates values to the inputs that spell them; a value may have several spellings. A reader
takes the spelling of a value off the front of an input, and answers the value and what follows. It
reads the format if it accepts exactly the inputs that begin with a spelling.

## Main definitions

* `Reader.Reads` — a reader reads a format.
* `Reader.seq`, `Reader.choose` — a reader after another, and a reader for each value of another.
* `Reader.array` — the reader of so many symbols.

## Main results

* `Reader.Reads.append`, `Reader.Reads.unique` — a spelling is read whatever follows it, and an
  input begins with one value.
* `Reader.Reads.map`, `Reader.Reads.seq`, `Reader.Reads.choose`, `Reader.reads_array` — what the
  readers put together from others read.
-/

namespace Reader

variable {σ α β γ : Type*}

/-- A reader accepts the inputs that begin with a spelling, and answers what it spells. -/
def Reads (take : List σ → Option (α × List σ)) (spelled : α → List σ → Prop) : Prop :=
  ∀ input x rest, take input = some (x, rest) ↔ ∃ bs, spelled x bs ∧ input = bs ++ rest

section Reads

variable {take : List σ → Option (α × List σ)} {spelled : α → List σ → Prop}

/-- A spelling is read whatever follows it. -/
theorem Reads.append (h : Reads take spelled) {x : α} {bs : List σ} (hx : spelled x bs)
    (rest : List σ) : take (bs ++ rest) = some (x, rest) :=
  (h _ _ _).2 ⟨bs, hx, rfl⟩

/-- A spelling is read where it is all of the input. -/
theorem Reads.whole (h : Reads take spelled) {x : α} {bs : List σ} :
    take bs = some (x, []) ↔ spelled x bs := by
  rw [h]
  constructor
  · rintro ⟨bs', hx, rfl⟩
    rwa [List.append_nil]
  · intro hx
    exact ⟨bs, hx, (List.append_nil bs).symm⟩

/-- An input begins with at most one value, spelled in one way. -/
theorem Reads.unique (h : Reads take spelled) {x y : α} {bs bs' rest rest' : List σ}
    (hx : spelled x bs) (hy : spelled y bs') (heq : bs ++ rest = bs' ++ rest') :
    x = y ∧ bs = bs' ∧ rest = rest' := by
  have hread := h.append hx rest
  rw [heq, h.append hy rest'] at hread
  obtain ⟨rfl, rfl⟩ : y = x ∧ rest' = rest := by
    simpa only [Option.some.injEq, Prod.mk.injEq] using hread
  exact ⟨rfl, List.append_cancel_right heq, rfl⟩

/-- The same values, as another type or under another description. -/
theorem Reads.congr (h : Reads take spelled) {spelled' : α → List σ → Prop}
    (heq : ∀ x bs, spelled x bs ↔ spelled' x bs) : Reads take spelled' := by
  have hrel : spelled = spelled' := by
    funext x bs
    exact propext (heq x bs)
  exact hrel ▸ h

/-- The values of a reader, under a function. -/
theorem Reads.map (h : Reads take spelled) (f : α → β) :
    Reads (fun input => (take input).map fun p => (f p.1, p.2))
      (fun y bs => ∃ x, f x = y ∧ spelled x bs) := by
  intro input y rest
  simp only [Option.map_eq_some_iff, Prod.exists, Prod.mk.injEq]
  constructor
  · rintro ⟨x, rest', hread, rfl, rfl⟩
    obtain ⟨bs, hx, heq⟩ := (h _ _ _).1 hread
    exact ⟨bs, ⟨x, rfl, hx⟩, heq⟩
  · rintro ⟨bs, ⟨x, rfl, hx⟩, heq⟩
    exact ⟨x, rest, (h _ _ _).2 ⟨bs, hx, heq⟩, rfl, rfl⟩

end Reads

/-- A reader for each value that another one finds. -/
def choose (take : List σ → Option (α × List σ)) (next : α → List σ → Option (β × List σ))
    (input : List σ) : Option (β × List σ) :=
  (take input).bind fun p => next p.1 p.2

/-- A reader after another. -/
def seq (take : List σ → Option (α × List σ)) (take' : List σ → Option (β × List σ)) :
    List σ → Option ((α × β) × List σ) :=
  choose take fun x input => (take' input).map fun p => ((x, p.1), p.2)

/-- The reader that takes nothing, and finds a value or none. -/
def give (x? : Option α) (input : List σ) : Option (α × List σ) := x?.map fun x => (x, input)

/-- The reader of one symbol. -/
def symbol : List σ → Option (σ × List σ)
  | [] => none
  | b :: rest => some (b, rest)

/-- The reader of so many symbols. -/
def array (n : ℕ) (input : List σ) : Option ({ bs : List σ // bs.length = n } × List σ) :=
  if h : (input.take n).length = n then some (⟨input.take n, h⟩, input.drop n) else none

theorem reads_give (x? : Option α) :
    Reads (give x? : List σ → _) (fun x bs => x? = some x ∧ bs = []) := by
  intro input x rest
  simp only [give, Option.map_eq_some_iff, Prod.mk.injEq]
  constructor
  · rintro ⟨_, hx, rfl, rfl⟩
    exact ⟨[], ⟨hx, rfl⟩, rfl⟩
  · rintro ⟨_, ⟨hx, rfl⟩, rfl⟩
    exact ⟨x, hx, rfl, rfl⟩

theorem reads_symbol : Reads (symbol : List σ → _) (fun b bs => bs = [b]) := by
  intro input b rest
  cases input with
  | nil => simp [symbol]
  | cons a input => simp [symbol]

theorem reads_array (n : ℕ) : Reads (array n : List σ → _) (fun x bs => bs = x.val) := by
  rintro input ⟨bs, hbs⟩ rest
  simp only [array, exists_eq_left]
  split_ifs with hlen
  · simp only [Option.some.injEq, Prod.mk.injEq, Subtype.mk.injEq]
    constructor
    · rintro ⟨rfl, rfl⟩
      exact (List.take_append_drop n input).symm
    · rintro rfl
      exact ⟨List.take_left' hbs, List.drop_left' hbs⟩
  · simp only [false_iff]
    rintro rfl
    exact hlen (by rw [List.take_left' hbs, hbs])

/-- A value of the first reader, then one of the reader that it chooses. -/
theorem Reads.choose {take : List σ → Option (α × List σ)} {spelled : α → List σ → Prop}
    {next : α → List σ → Option (β × List σ)} {spelled' : α → β → List σ → Prop}
    (h : Reads take spelled) (h' : ∀ x, Reads (next x) (spelled' x)) :
    Reads (choose take next)
      (fun y bs => ∃ x b b', spelled x b ∧ spelled' x y b' ∧ bs = b ++ b') := by
  intro input y rest
  simp only [Reader.choose, Option.bind_eq_some_iff, Prod.exists]
  constructor
  · rintro ⟨x, mid, hread, hnext⟩
    obtain ⟨b, hx, rfl⟩ := (h _ _ _).1 hread
    obtain ⟨b', hy, rfl⟩ := (h' _ _ _ _).1 hnext
    exact ⟨b ++ b', ⟨x, b, b', hx, hy, rfl⟩, (List.append_assoc b b' rest).symm⟩
  · rintro ⟨_, ⟨x, b, b', hx, hy, rfl⟩, rfl⟩
    refine ⟨x, b' ++ rest, ?_, (h' x).append hy rest⟩
    rw [List.append_assoc]
    exact h.append hx _

/-- The values of two readers, one after the other. -/
theorem Reads.seq {take : List σ → Option (α × List σ)} {spelled : α → List σ → Prop}
    {take' : List σ → Option (β × List σ)} {spelled' : β → List σ → Prop}
    (h : Reads take spelled) (h' : Reads take' spelled') :
    Reads (seq take take')
      (fun p bs => ∃ b b', spelled p.1 b ∧ spelled' p.2 b' ∧ bs = b ++ b') := by
  refine (h.choose fun x => h'.map (Prod.mk x)).congr ?_
  rintro ⟨x, y⟩ bs
  constructor
  · rintro ⟨x', b, b', hx, ⟨y', hy', hy⟩, rfl⟩
    obtain ⟨rfl, rfl⟩ := Prod.mk.inj hy'
    exact ⟨b, b', hx, hy, rfl⟩
  · rintro ⟨b, b', hx, hy, rfl⟩
    exact ⟨x, b, b', hx, ⟨y, rfl, hy⟩, rfl⟩

end Reader
