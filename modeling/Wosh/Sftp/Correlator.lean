import Wosh.Lib.Run
import Wosh.Sftp.Response

set_option relaxedAutoImplicit false
set_option autoImplicit false

/-!
# The correlator

`IdAllocator` and `Correlator` of `sftp/src/lib.rs`: a request is given the next id, and its response
is matched back to the tag that was remembered under it.

## Main definitions

* `WoshSftp.IdAllocator`, `WoshSftp.Correlator` — the allocator, and the tags of the requests in flight.
* `WoshSftp.Desk`, `WoshSftp.Desk.step` — a correlator, with the requests that are outstanding.
* `WoshSftp.Desk.Exact` — it returns the tags of the outstanding requests, each once.
* `WoshSftp.Desk.Fresh` — no request is given an id that a pending one has.

## Main results

* `WoshSftp.correlator_exact_iff` — a correlator is exact in every state as long as ids are fresh, and
  no longer.
* `WoshSftp.not_alwaysExact` — one request is never answered, and the allocator comes round.
-/

namespace WoshSftp

open Run

/-! ## The allocator and the map -/

/-- `IdAllocator`. -/
structure IdAllocator where
  next : UInt32 := 0

/-- Allocate the next request id. It wraps. -/
def IdAllocator.alloc (a : IdAllocator) : UInt32 × IdAllocator := (a.next, ⟨a.next + 1⟩)

/-- `Correlator`. -/
structure Correlator (T : Type) where
  ids : IdAllocator := {}
  pending : Std.TreeMap UInt32 T := {}

namespace Correlator

variable {T : Type}

/-- Allocate a request id, and remember the tag under it. -/
def submit (c : Correlator T) (tag : T) : UInt32 × Correlator T :=
  let (id, ids) := c.ids.alloc
  (id, { ids := ids, pending := c.pending.insert id tag })

/-- Match the id of a response back to its tag. -/
def take (c : Correlator T) (id : UInt32) : Except Error T × Correlator T :=
  match c.pending[id]? with
  | some tag => (.ok tag, { c with pending := c.pending.erase id })
  | none => (.error (.unknownRequestId id), c)

/-- The number of requests in flight. -/
def pendingLen (c : Correlator T) : ℕ := c.pending.size

/-- Hand back what is in flight, and forget it. -/
def drainPending (c : Correlator T) : List (UInt32 × T) × Correlator T :=
  (c.pending.toList, { c with pending := {} })

/-! ### What the operations do to the map -/

variable (c : Correlator T)

@[simp] theorem submit_fst (tag : T) : (c.submit tag).1 = c.ids.next := rfl

@[simp] theorem next_submit (tag : T) : (c.submit tag).2.ids.next = c.ids.next + 1 := rfl

@[simp] theorem next_take (id : UInt32) : (c.take id).2.ids = c.ids := by
  unfold take
  split <;> rfl

theorem getElem?_submit (tag : T) (id : UInt32) :
    (c.submit tag).2.pending[id]? = if c.ids.next = id then some tag else c.pending[id]? := by
  simp only [submit, IdAllocator.alloc, Std.TreeMap.getElem?_insert,
    Std.LawfulEqCmp.compare_eq_iff_eq]

theorem getElem?_take (id k : UInt32) :
    (c.take id).2.pending[k]? = if id = k then none else c.pending[k]? := by
  unfold take
  split
  · simp only [Std.TreeMap.getElem?_erase, Std.LawfulEqCmp.compare_eq_iff_eq]
  · rename_i hnone
    split_ifs with hk
    · rw [← hk, hnone]
    · rfl

/-- A tag is taken exactly from under its id. -/
theorem take_eq_ok {id : UInt32} {tag : T} :
    (c.take id).1 = .ok tag ↔ c.pending[id]? = some tag := by
  unfold take
  split <;> simp_all

/-- An id without a tag is unknown. -/
theorem take_eq_error {id : UInt32} (h : c.pending[id]? = none) :
    (c.take id).1 = .error (.unknownRequestId id) := by
  unfold take
  rw [h]

/-- No two tags are drained from under one id. -/
theorem nodup_drainPending : (c.drainPending.1.map Prod.fst).Nodup := by
  have hkeys : c.pending.toList.Pairwise fun a b => ¬ compare a.1 b.1 = .eq :=
    Std.TreeMap.distinct_keys_toList
  simp only [Std.LawfulEqCmp.compare_eq_iff_eq] at hkeys
  exact List.pairwise_map.2 hkeys

end Correlator

/-! ## Requests in flight -/

/-- What is done with a correlator. -/
inductive CorrelatorOp (T : Type)
  | submit (tag : T)
  | take (id : UInt32)
  | drain

/-- A correlator, and what was asked of it. -/
structure Desk (T : Type) where
  corr : Correlator T := {}
  /-- The outstanding requests: they were submitted, and neither taken nor drained. -/
  asked : List (UInt32 × T) := []
  /-- All that were submitted. -/
  submitted : List (UInt32 × T) := []
  /-- The tags that were handed back. -/
  returned : List (UInt32 × T) := []

namespace Desk

variable {T : Type}

/-- One step. -/
def step (s : Desk T) : CorrelatorOp T → Option (Desk T)
  | .submit tag =>
    let (id, corr) := s.corr.submit tag
    some { s with
      corr := corr
      asked := s.asked ++ [(id, tag)]
      submitted := s.submitted ++ [(id, tag)] }
  | .take id =>
    let (r, corr) := s.corr.take id
    some { s with
      corr := corr
      asked := s.asked.filter (·.1 ≠ id)
      returned := s.returned ++ r.toOption.toList.map fun tag => (id, tag) }
  | .drain =>
    let (tags, corr) := s.corr.drainPending
    some { s with corr := corr, asked := [], returned := s.returned ++ tags }

/-- The tag of an outstanding request, and no other, is taken with its id, and a drain hands back all of
them. What was submitted was handed back or is outstanding, and not both. -/
structure Exact (s : Desk T) : Prop where
  takes : ∀ id tag, (s.corr.take id).1 = .ok tag ↔ (id, tag) ∈ s.asked
  unknown : ∀ id, (∀ tag, (id, tag) ∉ s.asked) →
    (s.corr.take id).1 = .error (.unknownRequestId id)
  drains : s.corr.drainPending.1.Perm s.asked
  once : s.submitted.Perm (s.returned ++ s.asked)

/-- The request is not given an id that a pending one has. -/
def Fresh (s : Desk T) : CorrelatorOp T → Prop
  | .submit _ => s.corr.pending[s.corr.ids.next]? = none
  | .take _ | .drain => True

/-- The map holds the outstanding requests, which have different ids. -/
structure Sound (s : Desk T) : Prop where
  reachable : ∀ id tag, s.corr.pending[id]? = some tag ↔ (id, tag) ∈ s.asked
  distinct : (s.asked.map Prod.fst).Nodup
  once : s.submitted.Perm (s.returned ++ s.asked)

variable {s s' : Desk T}

theorem sound_start : ({} : Desk T).Sound where
  reachable := by simp
  distinct := List.nodup_nil
  once := List.Perm.refl _

/-- What is drained is what is outstanding. -/
theorem Sound.drains (h : s.Sound) : s.corr.drainPending.1.Perm s.asked := by
  have hdrained : s.corr.drainPending.1.Nodup := s.corr.nodup_drainPending.of_map
  refine (List.perm_ext_iff_of_nodup hdrained h.distinct.of_map).2 ?_
  rintro ⟨id, tag⟩
  exact Std.TreeMap.mem_toList_iff_getElem?_eq_some.trans (h.reachable id tag)

theorem Sound.exact (h : s.Sound) : s.Exact where
  takes := fun id tag => (s.corr.take_eq_ok).trans (h.reachable id tag)
  unknown := by
    intro id hnone
    refine s.corr.take_eq_error ?_
    by_contra hsome
    obtain ⟨tag, htag⟩ := Option.ne_none_iff_exists'.1 hsome
    exact hnone tag ((h.reachable id tag).1 htag)
  drains := h.drains
  once := h.once

/-- A request is outstanding once it is submitted. -/
theorem Sound.submit (h : s.Sound) {tag : T} (hfresh : s.Fresh (.submit tag))
    (hstep : s.step (.submit tag) = some s') : s'.Sound := by
  cases hstep
  have hfree : ∀ tag', (s.corr.ids.next, tag') ∉ s.asked := by
    intro tag' hmem
    rw [← h.reachable] at hmem
    rw [show s.corr.pending[s.corr.ids.next]? = none from hfresh] at hmem
    cases hmem
  refine ⟨?_, ?_, ?_⟩
  · intro id tag'
    show (s.corr.submit tag).2.pending[id]? = some tag' ↔
      (id, tag') ∈ s.asked ++ [(s.corr.ids.next, tag)]
    rw [Correlator.getElem?_submit, List.mem_append, List.mem_singleton, ← h.reachable]
    split_ifs with hid
    · subst hid
      have hnone : s.corr.pending[s.corr.ids.next]? = none := hfresh
      simp [hnone, eq_comm]
    · simp [Ne.symm hid]
  · show ((s.asked ++ [(s.corr.ids.next, tag)]).map Prod.fst).Nodup
    rw [List.map_append, List.map_singleton, ← List.concat_eq_append]
    refine List.Nodup.concat ?_ h.distinct
    intro hmem
    obtain ⟨⟨id, tag'⟩, hp, hid⟩ := List.mem_map.1 hmem
    obtain rfl : id = s.corr.ids.next := hid
    exact hfree tag' hp
  · show (s.submitted ++ [_]).Perm (s.returned ++ (s.asked ++ [_]))
    rw [← List.append_assoc]
    exact h.once.append_right _

/-- An outstanding request and the others. -/
theorem perm_filter_of_mem {asked : List (UInt32 × T)} (hdistinct : (asked.map Prod.fst).Nodup)
    {id : UInt32} {tag : T} (hmem : (id, tag) ∈ asked) :
    asked.Perm ((id, tag) :: asked.filter (·.1 ≠ id)) := by
  induction asked with
  | nil => simp at hmem
  | cons p asked ih =>
    obtain ⟨hp, hrest⟩ := List.nodup_cons.1 hdistinct
    rcases List.mem_cons.1 hmem with rfl | hmem
    · have hothers : asked.filter (·.1 ≠ id) = asked := by
        refine List.filter_eq_self.2 fun q hq => ?_
        have hne : q.1 ≠ id := by
          rintro rfl
          exact hp (List.mem_map.2 ⟨q, hq, rfl⟩)
        simpa using hne
      rw [List.filter_cons_of_neg (by simp), hothers]
    · have hne : p.1 ≠ id := fun hp' => hp (hp' ▸ List.mem_map_of_mem hmem)
      rw [List.filter_cons_of_pos (by simpa using hne)]
      exact ((ih hrest hmem).cons p).trans (List.Perm.swap _ _ _)

/-- A request is outstanding until it is taken. -/
theorem Sound.take (h : s.Sound) {id : UInt32} (hstep : s.step (.take id) = some s') :
    s'.Sound := by
  cases hstep
  refine ⟨?_, ?_, ?_⟩
  · intro k tag
    show (s.corr.take id).2.pending[k]? = some tag ↔ (k, tag) ∈ s.asked.filter (·.1 ≠ id)
    rw [Correlator.getElem?_take, List.mem_filter, ← h.reachable]
    split_ifs with hk
    · simp [hk]
    · simp [Ne.symm hk]
  · exact h.distinct.sublist (List.filter_sublist.map Prod.fst)
  · show s.submitted.Perm (s.returned ++ (s.corr.take id).1.toOption.toList.map _ ++
      s.asked.filter (·.1 ≠ id))
    cases htag : s.corr.pending[id]? with
    | some tag =>
      rw [(s.corr.take_eq_ok).2 htag]
      have hmem := (h.reachable id tag).1 htag
      refine h.once.trans ?_
      rw [List.append_assoc]
      exact (perm_filter_of_mem h.distinct hmem).append_left _
    | none =>
      rw [s.corr.take_eq_error htag]
      have hall : s.asked.filter (·.1 ≠ id) = s.asked := by
        refine List.filter_eq_self.2 fun p hp => ?_
        obtain ⟨k, tag⟩ := p
        have hne : k ≠ id := by
          rintro rfl
          rw [← h.reachable, htag] at hp
          cases hp
        simpa using hne
      rw [hall]
      simpa [Except.toOption] using h.once

/-- A drain leaves nothing outstanding. -/
theorem Sound.drain (h : s.Sound) (hstep : s.step .drain = some s') : s'.Sound := by
  cases hstep
  refine ⟨by simp, List.nodup_nil, ?_⟩
  show s.submitted.Perm (s.returned ++ s.corr.drainPending.1 ++ [])
  rw [List.append_nil]
  exact h.once.trans (h.drains.symm.append_left _)

theorem Sound.step (h : s.Sound) {op : CorrelatorOp T} (hop : s.Fresh op)
    (hstep : s.step op = some s') : s'.Sound := by
  cases op with
  | submit tag => exact h.submit hop hstep
  | take id => exact h.take hstep
  | drain => exact h.drain hstep

/-- A request that is given the id of a pending one has its tag overwritten. -/
theorem Sound.not_exact (h : s.Sound) {op : CorrelatorOp T} (hop : ¬ s.Fresh op) :
    ∃ s', s.step op = some s' ∧ ¬ s'.Exact := by
  cases op with
  | submit tag =>
    refine ⟨_, rfl, fun hexact => ?_⟩
    obtain ⟨tag', htag'⟩ := Option.ne_none_iff_exists'.1 hop
    have hmem : s.corr.ids.next ∈ s.asked.map Prod.fst :=
      List.mem_map_of_mem ((h.reachable _ tag').1 htag')
    have hdistinct : ((s.asked ++ [(s.corr.ids.next, tag)]).map Prod.fst).Nodup :=
      (hexact.drains.map Prod.fst).nodup_iff.1 (Correlator.nodup_drainPending _)
    rw [List.map_append, List.map_singleton, ← List.concat_eq_append,
      List.nodup_concat] at hdistinct
    exact hdistinct.1 hmem
  | take id => exact absurd trivial hop
  | drain => exact absurd trivial hop

end Desk

/-- **The correlator misattributes and loses nothing** exactly as long as no request is given an id
that a pending one has. Then the tag of the outstanding request that was given an id, and no other,
is taken with it, and each tag is handed back at most once; nothing detects it when the
allocator comes round to a pending id, and the tag that was there is overwritten.

**Proof sketch.** The map holds what is outstanding, under different ids. A submission under a fresh
id adds to both; under a pending one, two outstanding requests share an id, while the map has one
tag for it. -/
theorem correlator_exact_iff {T : Type} (as : List (CorrelatorOp T)) :
    Along Desk.step Desk.Fresh {} as ↔
      ∀ bs s, bs <+: as → run Desk.step ({} : Desk T) bs = some s → s.Exact :=
  along_iff_reached (fun _ h => h.exact) (fun _ _ _ h hop hstep => h.step hop hstep)
    (fun _ _ h hop => h.not_exact hop) Desk.sound_start as

/-- Correlators misattribute and lose nothing. -/
def AlwaysExact : Prop :=
  ∀ (as : List (CorrelatorOp ℕ)) (s : Desk ℕ), run Desk.step {} as = some s → s.Exact

/-- A request that is answered at once, and so on. -/
def answered : ℕ → List (CorrelatorOp ℕ)
  | 0 => []
  | n + 1 => answered n ++ [.submit 2, .take (UInt32.ofNat (n + 1))]

/-- A request stays unanswered while others come and go. -/
theorem run_answered {n : ℕ} (hn : n < 2 ^ 32) :
    ∃ s, run Desk.step {} (.submit 1 :: answered n) = some s ∧
      s.asked = [(0, 1)] ∧ s.corr.ids.next = UInt32.ofNat (n + 1) := by
  induction n with
  | zero => exact ⟨_, rfl, rfl, rfl⟩
  | succ n ih =>
    obtain ⟨s, hrun, hasked, hnext⟩ := ih (by omega)
    have hne : (0 : UInt32) ≠ UInt32.ofNat (n + 1) := by
      intro heq
      have hnat := congrArg UInt32.toNat heq
      rw [UInt32.toNat_ofNat_of_lt' (by simpa [UInt32.size] using hn)] at hnat
      simp at hnat
    rw [answered, ← List.cons_append, run_append_of_eq_some hrun]
    refine ⟨_, rfl, ?_, ?_⟩
    · simp [hasked, hnext, hne, -UInt32.ofNat_add]
    · simp [hnext, UInt32.ofNat_add]

theorem not_alwaysExact : ¬ AlwaysExact := by
  intro h
  obtain ⟨s, hrun, hasked, hnext⟩ := run_answered (n := 2 ^ 32 - 1) (by norm_num)
  have hwrapped : s.corr.ids.next = 0 := by
    rw [hnext]
    decide
  have hexact := h (.submit 1 :: answered (2 ^ 32 - 1) ++ [.submit 3]) _
    (by rw [run_append_of_eq_some hrun]; rfl)
  have hdistinct := (hexact.drains.map Prod.fst).nodup_iff.1 (Correlator.nodup_drainPending _)
  simp [hasked, hwrapped] at hdistinct

end WoshSftp
