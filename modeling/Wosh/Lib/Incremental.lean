import Mathlib

set_option relaxedAutoImplicit false
set_option autoImplicit false

/-!
# Incremental decoders

A stream arrives in chunks of any size and is cut into items by a function `take` on the bytes
buffered so far: it takes the next item off the front, or says that none is complete yet, or
that the stream is corrupt. Draining the buffer takes items off until one of the other two
answers comes up.

## Main definitions

* `Incremental.Framing` — what makes such a `take` a framing: it consumes something, and bytes
  that arrive later change neither an item it has found nor an error it has reported.
* `Incremental.drain` — the items of a buffer, and what is left of it.
* `Incremental.feed` — the items of a stream that arrives in chunks.
* `Incremental.Left` — what is left of a stream once some items were taken off.
* `Incremental.chunks` — a list cut into pieces of a given length, the last one possibly shorter.

## Main results

* `Incremental.drain_append` — draining a buffer, then the rest with a new chunk, is draining
  both at once: the division into chunks does not matter.
* `Incremental.feed_eq_drain` — so feeding the chunks of a stream is draining the whole of it.
* `Incremental.flatten_chunks`, `Incremental.length_le_of_mem_chunks` — cutting is lossless, and
  no piece is too long.
-/

namespace Incremental

variable {α β ε : Type*}

/-! ## Framings -/

/-- `take` finds items at the front of a buffer whatever follows them. -/
structure Framing (take : List α → Except ε (Option (β × List α))) : Prop where
  /-- An item takes room. -/
  shorter : ∀ {b f r}, take b = .ok (some (f, r)) → r.length < b.length
  /-- What follows a complete item does not change it. -/
  item_append : ∀ {b f r} (c), take b = .ok (some (f, r)) → take (b ++ c) = .ok (some (f, r ++ c))
  /-- What follows a corrupt item does not repair it. -/
  error_append : ∀ {b e} (c), take b = .error e → take (b ++ c) = .error e

/-- Take items off the buffer, at most `n` of them. -/
def drainUpTo (take : List α → Except ε (Option (β × List α))) :
    ℕ → List α → List β × Except ε (List α)
  | 0, b => ([], .ok b)
  | n + 1, b =>
    match take b with
    | .error e => ([], .error e)
    | .ok none => ([], .ok b)
    | .ok (some (f, r)) => (f :: (drainUpTo take n r).1, (drainUpTo take n r).2)

/-- Take items off the buffer until none is complete: the items in order, and the rest of the
buffer or the error that ended it. An item takes room, so the length bounds their number. -/
def drain (take : List α → Except ε (Option (β × List α))) (b : List α) :
    List β × Except ε (List α) :=
  drainUpTo take (b.length + 1) b

variable {take : List α → Except ε (Option (β × List α))}

/-- The bound is irrelevant once it exceeds the length of the buffer. -/
theorem drainUpTo_congr (h : Framing take) {m n : ℕ} {b : List α} (hm : b.length < m)
    (hn : b.length < n) : drainUpTo take m b = drainUpTo take n b := by
  induction m generalizing n b with
  | zero => omega
  | succ m ih =>
    obtain ⟨n, rfl⟩ : ∃ k, n = k + 1 := ⟨n - 1, by omega⟩
    rw [drainUpTo, drainUpTo]
    split
    · rfl
    · rfl
    · rename_i f r hb
      have hr := h.shorter hb
      rw [ih (n := n) (by omega) (by omega)]

/-- Draining a buffer that begins with an item. -/
theorem drain_item (h : Framing take) {b : List α} {f : β} {r : List α}
    (hb : take b = .ok (some (f, r))) :
    drain take b = (f :: (drain take r).1, (drain take r).2) := by
  have hr := h.shorter hb
  rw [drain, drainUpTo, hb]
  simp only [drain]
  rw [drainUpTo_congr h hr (Nat.lt_succ_self _)]

/-- Draining a buffer that holds no complete item. -/
theorem drain_none {b : List α} (hb : take b = .ok none) : drain take b = ([], .ok b) := by
  rw [drain, drainUpTo, hb]

/-- Draining a corrupt buffer. -/
theorem drain_error {b : List α} {e : ε} (hb : take b = .error e) :
    drain take b = ([], .error e) := by
  rw [drain, drainUpTo, hb]

/-- **Chunk independence.** Draining a buffer and then what is left of it with a new chunk gives
the items, and the rest, of draining both together.

**Proof sketch.** Induction on the length of the buffer, along the items it begins with. -/
theorem drain_append (h : Framing take) (b c : List α) :
    drain take (b ++ c) =
      match (drain take b).2 with
      | .ok r => ((drain take b).1 ++ (drain take (r ++ c)).1, (drain take (r ++ c)).2)
      | .error e => ((drain take b).1, .error e) := by
  induction hb : b.length using Nat.strongRecOn generalizing b with
  | ind n ih =>
    cases ht : take b with
    | error e =>
      rw [drain_error ht, drain_error (h.error_append c ht)]
    | ok o =>
      cases o with
      | none => rw [drain_none ht]; rfl
      | some p =>
        obtain ⟨f, r⟩ := p
        have hr := h.shorter ht
        rw [drain_item h ht, drain_item h (h.item_append c ht), ih r.length (by omega) r rfl]
        cases (drain take r).2 <;> rfl

/-- The items of a buffer come first among those of any longer one. -/
theorem drain_fst_prefix (h : Framing take) (b c : List α) :
    (drain take b).1 <+: (drain take (b ++ c)).1 := by
  rw [drain_append h b c]
  cases (drain take b).2 with
  | ok r => exact List.prefix_append _ _
  | error e => exact List.prefix_refl _

/-- What is left of a buffer holds no complete item. -/
theorem take_rest (h : Framing take) {b r : List α} (hr : (drain take b).2 = .ok r) :
    take r = .ok none := by
  induction hb : b.length using Nat.strongRecOn generalizing b with
  | ind n ih =>
    cases ht : take b with
    | error e =>
      rw [drain_error ht] at hr
      cases hr
    | ok o =>
      cases o with
      | none =>
        rw [drain_none ht] at hr
        cases hr
        exact ht
      | some p =>
        obtain ⟨f, r'⟩ := p
        rw [drain_item h ht] at hr
        exact ih r'.length (hb ▸ h.shorter ht) hr rfl

/-! ## Feeding chunks -/

/-- Feed the chunks to a decoder that holds `b`, and drain it after each; an error is the end. -/
def feed (take : List α → Except ε (Option (β × List α))) :
    List α → List (List α) → List β × Except ε (List α)
  | b, [] => ([], .ok b)
  | b, c :: cs =>
    match drain take (b ++ c) with
    | (fs, .error e) => (fs, .error e)
    | (fs, .ok r) => (fs ++ (feed take r cs).1, (feed take r cs).2)

/-- **Feeding is draining**: it does not matter how the stream was divided.

**Proof sketch.** Induction on the chunks; what is left after the first one holds no complete
item. -/
theorem feed_eq_drain (h : Framing take) {b : List α} (hb : take b = .ok none)
    (cs : List (List α)) : feed take b cs = drain take (b ++ cs.flatten) := by
  induction cs generalizing b with
  | nil => rw [feed, List.flatten_nil, List.append_nil, drain_none hb]
  | cons c cs ih =>
    rw [feed, List.flatten_cons, ← List.append_assoc, drain_append h (b ++ c)]
    cases hc : drain take (b ++ c) with
    | mk fs result =>
      cases result with
      | error e => rfl
      | ok r =>
        have hr : (drain take (b ++ c)).2 = .ok r := by rw [hc]
        dsimp only
        rw [ih (take_rest h hr)]

/-! ## What is left of a stream -/

/-- The items `fs` were taken off the stream `b`, and `r` is left of it: whatever arrives next,
decoding it after `r` continues decoding it after `b`. -/
def Left (take : List α → Except ε (Option (β × List α))) (b : List α) (fs : List β)
    (r : List α) : Prop :=
  ∀ c, drain take (b ++ c) = (fs ++ (drain take (r ++ c)).1, (drain take (r ++ c)).2)

variable {b r r' : List α} {fs : List β}

/-- Nothing was taken off yet. -/
theorem left_refl (b : List α) : Left take b [] b := fun _ => rfl

/-- More arrives. -/
theorem Left.append (h : Left take b fs r) (c : List α) : Left take (b ++ c) fs (r ++ c) := by
  intro d
  rw [List.append_assoc, List.append_assoc]
  exact h (c ++ d)

/-- One more item is taken off. -/
theorem Left.item (h : Left take b fs r) (hframing : Framing take) {f : β}
    (hr : take r = .ok (some (f, r'))) : Left take b (fs ++ [f]) r' := by
  intro c
  rw [h c, drain_item hframing (hframing.item_append c hr), List.append_assoc]
  rfl

/-- Everything that is complete is taken off. -/
theorem Left.drain (h : Left take b fs r) (hframing : Framing take)
    (hr : (drain take r).2 = .ok r') : Left take b (fs ++ (Incremental.drain take r).1) r' := by
  intro c
  rw [h c, drain_append hframing r c, hr, List.append_assoc]

/-- The items of the stream are those taken off and those still to come. -/
theorem Left.items (h : Left take b fs r) :
    (Incremental.drain take b).1 = fs ++ (Incremental.drain take r).1 := by
  have hnil := h []
  rw [List.append_nil, List.append_nil] at hnil
  rw [hnil]

/-- A buffer without a complete item is left as it is. -/
theorem drain_eq_of_nil (hnil : (drain take b).1 = []) (hr : (drain take b).2 = .ok r) :
    r = b := by
  have hzero : ∀ {n : ℕ}, (drainUpTo take n b).1 = [] → (drainUpTo take n b).2 = .ok r → r = b := by
    intro n hnil hr
    cases n with
    | zero => exact (Except.ok.inj hr).symm
    | succ n =>
      rw [drainUpTo] at hnil hr
      split at hr
      · cases hr
      · exact (Except.ok.inj hr).symm
      · rename_i f r hitem
        rw [hitem] at hnil
        cases hnil
  exact hzero hnil hr

/-! ## Cutting into pieces -/

/-- Cut off pieces of length `n`, at most `fuel` of them. -/
def chunksUpTo (n : ℕ) : ℕ → List α → List (List α)
  | 0, _ => []
  | _ + 1, [] => []
  | fuel + 1, a :: l => (a :: l).take n :: chunksUpTo n fuel ((a :: l).drop n)

/-- The list in pieces of length `n`, the last one possibly shorter, and no piece empty. -/
def chunks (n : ℕ) (l : List α) : List (List α) := chunksUpTo n l.length l

private theorem flatten_chunksUpTo {n : ℕ} (hn : 0 < n) :
    ∀ {fuel : ℕ} {l : List α}, l.length ≤ fuel → (chunksUpTo n fuel l).flatten = l
  | 0, l, h => by simp_all [chunksUpTo]
  | _ + 1, [], _ => rfl
  | fuel + 1, a :: l, h => by
    have hlen : ((a :: l).drop n).length ≤ fuel := by
      simp only [List.length_drop, List.length_cons] at h ⊢
      omega
    rw [chunksUpTo, List.flatten_cons, flatten_chunksUpTo hn hlen, List.take_append_drop]

/-- **Cutting is lossless.** -/
theorem flatten_chunks {n : ℕ} (hn : 0 < n) (l : List α) : (chunks n l).flatten = l :=
  flatten_chunksUpTo hn (Nat.le_refl _)

/-- No piece is longer than asked. -/
theorem length_le_of_mem_chunks {n : ℕ} {l c : List α} (h : c ∈ chunks n l) : c.length ≤ n := by
  have aux : ∀ (fuel : ℕ) (l : List α), c ∈ chunksUpTo n fuel l → c.length ≤ n := by
    intro fuel
    induction fuel with
    | zero => intro l h; simp [chunksUpTo] at h
    | succ fuel ih =>
      intro l h
      cases l with
      | nil => simp [chunksUpTo] at h
      | cons a l =>
        rcases List.mem_cons.1 h with rfl | h
        · exact List.length_take_le _ _
        · exact ih _ h
  exact aux _ _ h

end Incremental
