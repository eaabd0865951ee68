import Wosh.Lib.Pool
import Wosh.Lib.Run
import Wosh.Transfer.Plan

set_option relaxedAutoImplicit false
set_option autoImplicit false

/-!
# The shared permits

`Budget` and `Permits` of `wosh-client/src/transfer.rs`, in the machine's own arithmetic: the transfers
of a session draw from one pool, hand back what the server acknowledges, and hand back the rest when
their attempt ends.

## Main definitions

* `Transfer.Pool64`, `Transfer.Permits` — the pool, and one transfer's claim on it.
* `Transfer.Sharing`, `Transfer.Sharing.step` — any number of transfers over one pool.
* `Transfer.Sharing.Accounted` — the pool has lent what its transfers hold.

## Main results

* `Transfer.permits_accounted` — the pool is accounted for along every run.
* `Transfer.tryCharge_sharing` — a transfer that sees what the others hold is granted what the pool
  grants.

## Design

`u64` wraps in a release build, so sums are exact only while nothing overflows. The pool is
`REPLAY_BUDGET_BYTES`, and what is charged is the payload of one request, which is a `u32`.
-/

namespace Transfer

open Run

/-! ## The pool and the permits -/

/-- The session-wide pool of in-flight permits (`Budget`). -/
structure Pool64 where
  limit : UInt64
  outstanding : UInt64 := 0
deriving DecidableEq

/-- May `n` more bytes go in flight anywhere on this session? -/
def Pool64.admits (b : Pool64) (n : UInt64) : Bool :=
  b.outstanding = 0 ∨ b.outstanding + n ≤ b.limit

def Pool64.charge (b : Pool64) (n : UInt64) : Pool64 :=
  { b with outstanding := b.outstanding + n }

/-- It saturates. -/
def Pool64.release (b : Pool64) (n : UInt64) : Pool64 :=
  { b with outstanding := if b.outstanding < n then 0 else b.outstanding - n }

/-- One transfer's claim on the shared pool. -/
structure Permits where
  held : UInt64 := 0
deriving DecidableEq

/-- Take `n` bytes' worth if the pool can spare them, all or nothing. -/
def Permits.tryCharge (p : Permits) (pool : Pool64) (n : UInt64) : Bool × Permits × Pool64 :=
  if pool.admits n then (true, ⟨p.held + n⟩, pool.charge n) else (false, p, pool)

/-- Hand `n` back, or all there is. -/
def Permits.release (p : Permits) (pool : Pool64) (n : UInt64) : Permits × Pool64 :=
  let n := min n p.held
  (⟨p.held - n⟩, pool.release n)

/-- An attempt leaves. -/
def Permits.drop (p : Permits) (pool : Pool64) : Pool64 :=
  pool.release p.held

/-! ## Any number of transfers -/

/-- The pool, and the claims that were made on it; none for one that was dropped. -/
structure Sharing where
  pool : Pool64
  permits : List (Option Permits) := []
deriving DecidableEq

/-- What happens next. -/
inductive PermitAction
  | new
  | tryCharge (i : ℕ) (n : UInt64)
  | release (i : ℕ) (n : UInt64)
  | drop (i : ℕ)
deriving DecidableEq

/-- What is asked of the pool. -/
def PermitAction.asks : PermitAction → ℕ
  | .tryCharge _ n => n.toNat
  | _ => 0

/-- What a claim holds. -/
def heldBy : Option Permits → ℕ
  | some p => p.held.toNat
  | none => 0

namespace Sharing

/-- What all claims hold. -/
def held (s : Sharing) : ℕ := (s.permits.map heldBy).sum

/-- One step. -/
def step (s : Sharing) : PermitAction → Option Sharing
  | .new => some { s with permits := s.permits ++ [some {}] }
  | .tryCharge i n =>
    match s.permits[i]? with
    | some (some p) =>
      let r := p.tryCharge s.pool n
      some { pool := r.2.2, permits := s.permits.set i (some r.2.1) }
    | _ => none
  | .release i n =>
    match s.permits[i]? with
    | some (some p) =>
      let r := p.release s.pool n
      some { pool := r.2, permits := s.permits.set i (some r.1) }
    | _ => none
  | .drop i =>
    match s.permits[i]? with
    | some (some p) => some { pool := p.drop s.pool, permits := s.permits.set i none }
    | _ => none

end Sharing

/-! ## The arithmetic -/

/-- What is handed back is what was lent. -/
theorem Pool64.toNat_release {b : Pool64} {n : UInt64} (h : n.toNat ≤ b.outstanding.toNat) :
    (b.release n).outstanding.toNat + n.toNat = b.outstanding.toNat := by
  have hle : n ≤ b.outstanding := UInt64.le_iff_toNat_le.2 h
  have hnot : ¬ b.outstanding < n := by
    rw [UInt64.lt_iff_toNat_lt]
    omega
  simp only [Pool64.release, if_neg hnot, UInt64.toNat_sub_of_le _ _ hle]
  omega

/-- What is lent is added, where it does not overflow. -/
theorem Pool64.toNat_charge {b : Pool64} {n : UInt64}
    (h : b.outstanding.toNat + n.toNat < 2 ^ 64) :
    (b.charge n).outstanding.toNat = b.outstanding.toNat + n.toNat := by
  rw [Pool64.charge, UInt64.toNat_add, Nat.mod_eq_of_lt h]

/-- The smaller of two. -/
theorem toNat_min (n m : UInt64) : (min n m).toNat = min n.toNat m.toNat := by
  show (if n ≤ m then n else m).toNat = min n.toNat m.toNat
  split_ifs with h
  · rw [UInt64.le_iff_toNat_le] at h
    omega
  · rw [UInt64.le_iff_toNat_le] at h
    omega

/-- What the pool admits, where nothing overflows. -/
theorem Pool64.admits_iff {b : Pool64} {n : UInt64}
    (h : b.outstanding.toNat + n.toNat < 2 ^ 64) :
    b.admits n = true ↔ b.outstanding.toNat = 0 ∨
      b.outstanding.toNat + n.toNat ≤ b.limit.toNat := by
  have hzero : b.outstanding = 0 ↔ b.outstanding.toNat = 0 := by
    rw [← UInt64.toNat_inj]
    rfl
  rw [Pool64.admits, decide_eq_true_eq, hzero, UInt64.le_iff_toNat_le, UInt64.toNat_add,
    Nat.mod_eq_of_lt h]

@[simp] theorem Pool64.limit_charge (b : Pool64) (n : UInt64) : (b.charge n).limit = b.limit := rfl

@[simp] theorem Pool64.limit_release (b : Pool64) (n : UInt64) : (b.release n).limit = b.limit := rfl

/-! ## The account -/

namespace Sharing

/-- The pool has lent what its transfers hold: within its limit, or once as much as one request
asks. -/
structure Accounted (limit : UInt64) (most : ℕ) (s : Sharing) : Prop where
  limited : s.pool.limit = limit
  exact : s.pool.outstanding.toNat = s.held
  bounded : s.held ≤ max limit.toNat most

variable {limit : UInt64} {most i : ℕ} {n : UInt64} {p : Permits} {s s' : Sharing}

/-- Nobody holds more than was lent. -/
theorem Accounted.held_le (h : s.Accounted limit most) (hp : s.permits[i]? = some (some p)) :
    p.held.toNat ≤ s.pool.outstanding.toNat := by
  rw [h.exact]
  exact Pool.le_sum_map heldBy hp

/-- What all hold, once one holds something else. -/
theorem held_set (hp : s.permits[i]? = some (some p)) (q : Option Permits) (pool : Pool64) :
    held { pool, permits := s.permits.set i q } + p.held.toNat = s.held + heldBy q :=
  Pool.sum_map_set heldBy hp q

/-- A charge. -/
theorem Accounted.tryCharge (h : s.Accounted limit most) (hp : s.permits[i]? = some (some p))
    (hn : n.toNat ≤ most) (hfits : max limit.toNat most + most < 2 ^ 64) :
    Accounted limit most
      { pool := (p.tryCharge s.pool n).2.2,
        permits := s.permits.set i (some (p.tryCharge s.pool n).2.1) } := by
  have hbounded := h.bounded
  have hexact := h.exact
  have hheld := h.held_le hp
  have hroom : s.pool.outstanding.toNat + n.toNat < 2 ^ 64 := by omega
  unfold Permits.tryCharge
  by_cases hadmits : s.pool.admits n = true
  · rw [if_pos hadmits]
    have hsum := held_set hp (some ⟨p.held + n⟩) (s.pool.charge n)
    have hnew : (p.held + n).toNat = p.held.toNat + n.toNat := by
      rw [UInt64.toNat_add, Nat.mod_eq_of_lt (by omega)]
    simp only [heldBy, hnew] at hsum
    rw [Pool64.admits_iff hroom, h.limited] at hadmits
    dsimp only
    refine ⟨h.limited, ?_, ?_⟩
    · rw [Pool64.toNat_charge hroom]
      omega
    · omega
  · rw [if_neg hadmits]
    have hsum := held_set hp (some p) s.pool
    simp only [heldBy] at hsum
    refine ⟨h.limited, ?_, ?_⟩
    · show s.pool.outstanding.toNat = _
      dsimp only
      omega
    · dsimp only
      omega

/-- What one hands back. -/
theorem Accounted.handBack (h : s.Accounted limit most) (hp : s.permits[i]? = some (some p))
    {q : Option Permits} (hq : heldBy q + n.toNat = p.held.toNat) :
    Accounted limit most { pool := s.pool.release n, permits := s.permits.set i q } := by
  have hbounded := h.bounded
  have hexact := h.exact
  have hheld := h.held_le hp
  have hsum := held_set hp q (s.pool.release n)
  have hback := Pool64.toNat_release (b := s.pool) (n := n) (by omega)
  refine ⟨h.limited, ?_, ?_⟩
  · dsimp only
    omega
  · omega

/-- What is left of a claim. -/
theorem heldBy_release (p : Permits) (n : UInt64) :
    heldBy (some ⟨p.held - min n p.held⟩) + (min n p.held).toNat = p.held.toNat := by
  have hmin := toNat_min n p.held
  have hle : min n p.held ≤ p.held := by
    rw [UInt64.le_iff_toNat_le]
    omega
  simp only [heldBy, UInt64.toNat_sub_of_le _ _ hle]
  omega

/-- Every step keeps the account. -/
theorem Accounted.step (h : s.Accounted limit most) {a : PermitAction} (ha : a.asks ≤ most)
    (hfits : max limit.toNat most + most < 2 ^ 64) (hstep : s.step a = some s') :
    s'.Accounted limit most := by
  cases a with
  | new =>
    cases hstep
    refine ⟨h.limited, ?_, ?_⟩
    · simpa [held, heldBy] using h.exact
    · simpa [held, heldBy] using h.bounded
  | tryCharge i n =>
    simp only [Sharing.step] at hstep
    split at hstep
    · rename_i p hp
      cases hstep
      exact h.tryCharge hp ha hfits
    · cases hstep
  | release i n =>
    simp only [Sharing.step] at hstep
    split at hstep
    · rename_i p hp
      cases hstep
      exact h.handBack hp (heldBy_release p n)
    · cases hstep
  | drop i =>
    simp only [Sharing.step] at hstep
    split at hstep
    · rename_i p hp
      cases hstep
      exact h.handBack hp (q := none) (by simp [heldBy])
    · cases hstep

/-- Every run keeps the account. -/
theorem Accounted.run {as : List PermitAction} (h : s.Accounted limit most)
    (has : ∀ a ∈ as, a.asks ≤ most) (hfits : max limit.toNat most + most < 2 ^ 64)
    (hrun : run Sharing.step s as = some s') : s'.Accounted limit most :=
  run_inv (fun _ _ _ h ha hstep => h.step ha hfits hstep) h
    (Along.of_forall (C := fun _ a => a.asks ≤ most) (fun a ha _ => has a ha) s) hrun

/-- To hand back more than one holds is to hand back all of it. -/
theorem Accounted.release (h : s.Accounted limit most) (hp : s.permits[i]? = some (some p))
    (hstep : s.step (.release i n) = some s') :
    s'.pool.outstanding.toNat + min n.toNat p.held.toNat = s.pool.outstanding.toNat ∧
      ∀ j, j ≠ i → s'.permits[j]? = s.permits[j]? := by
  have hheld := h.held_le hp
  simp only [Sharing.step, hp, Option.some.injEq] at hstep
  subst hstep
  constructor
  · rw [← toNat_min]
    apply Pool64.toNat_release
    rw [toNat_min]
    omega
  · intro j hj
    simp only [Permits.release]
    rw [List.getElem?_set_ne hj.symm]

end Sharing

/-- A transfer that sees what the others hold is granted what the pool grants. -/
theorem tryCharge_sharing {limit n : UInt64} {most i : ℕ} {p : Permits} {s : Sharing} {env : Env}
    (h : s.Accounted limit most) (hlimit : limit.toNat = replayBudgetBytes)
    (hp : s.permits[i]? = some (some p)) (hfits : max limit.toNat most + n.toNat < 2 ^ 64)
    (hothers : env.others + p.held.toNat = s.held) :
    tryCharge env p.held.toNat n.toNat =
      if (p.tryCharge s.pool n).1 = true then some (p.tryCharge s.pool n).2.1.held.toNat
      else none := by
  have hbounded := h.bounded
  have hexact := h.exact
  have hheld := h.held_le hp
  have hadmits : ({ outstanding := env.others + p.held.toNat : Budget }.admits n.toNat = true) ↔
      s.pool.admits n = true := by
    rw [Pool64.admits_iff (by omega), h.limited, hlimit, hexact, hothers]
    simp [Budget.admits]
  unfold tryCharge Permits.tryCharge
  by_cases hroom : s.pool.admits n = true
  · rw [if_pos (hadmits.2 hroom), if_pos hroom, if_pos rfl]
    dsimp only
    rw [UInt64.toNat_add, Nat.mod_eq_of_lt (by omega)]
  · rw [if_neg fun hno => hroom (hadmits.1 hno), if_neg hroom, if_neg (by simp)]

end Transfer
