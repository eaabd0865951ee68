import Wosh.Lib.Wildcard
import Wosh.Hostkey.Known

set_option relaxedAutoImplicit false
set_option autoImplicit false

/-!
# Which hosts a pattern covers

`glob_match` remembers where the last `*` stands and how much it has taken, and nothing of the ones
before it. It finds a match all the same whenever there is one.

## Main definitions

* `Hostkey.token` — what a character of a pattern stands for.
* `Hostkey.Obtained` — the value can be obtained from the pattern.

## Main results

* `Hostkey.globMatch_iff` — the loop finds a match exactly when there is one.
* `Hostkey.star_notMem_hostLookupKey` — the spelling of a target has no `*`.
* `Hostkey.patternsCover_iff` — a list of patterns covers a host when one of them matches and no
  negation does.
-/

namespace Hostkey

open Wildcard (Token Matches Tied)

/-! ## Patterns -/

/-- What a character of a pattern stands for. -/
def token : Char → Token Char
  | '*' => .run
  | '?' => .any
  | q => .lit q

@[simp]
theorem token_eq_run_iff (q : Char) : token q = .run ↔ q = '*' := by
  unfold token
  split <;> simp_all

/-- When one step of the loop takes a character. -/
theorem takes_token_iff {q c : Char} (hc : c ≠ '*') :
    (token q).Takes (· = ·) c ↔ q = '?' ∨ q = c := by
  unfold token
  split
  · simp [Token.Takes, hc.symm]
  · simp [Token.Takes]
  · rename_i hany
    have hany : q ≠ '?' := hany
    simp [Token.Takes, hany]

/-- What is left of a pattern is all runs. -/
theorem all_star_iff (p : List Char) :
    p.all (· = '*') = true ↔ ∀ t ∈ p.map token, t = Token.run := by
  simp

/-! ## The loop -/

section Loop

variable {q c : Char} {p v : List Char} {star : Option (List Char × List Char)}

/-- One character is taken. -/
theorem globLoop_take (h : q = '?' ∨ q = c) :
    globLoop (q :: p) (c :: v) star = globLoop p v star := by
  rw [globLoop.eq_def]
  exact if_pos h

/-- A `*` is remembered. -/
theorem globLoop_star (h : ¬ ('*' = '?' ∨ '*' = c)) :
    globLoop ('*' :: p) (c :: v) star = globLoop p (c :: v) (some (p, c :: v)) := by
  rw [globLoop.eq_def]
  exact (if_neg h).trans (if_pos rfl)

/-- The `*` that is remembered takes one more. -/
theorem globLoop_back {sp sv : List Char} {d : Char} (h : ¬ (q = '?' ∨ q = c)) (hrun : q ≠ '*') :
    globLoop (q :: p) (c :: v) (some (sp, d :: sv)) = globLoop sp sv (some (sp, sv)) := by
  rw [globLoop.eq_def]
  exact (if_neg h).trans (if_neg hrun)

/-- Without a `*`, a character that does not match is the end. -/
theorem globLoop_stuck (h : ¬ (q = '?' ∨ q = c)) (hrun : q ≠ '*') :
    globLoop (q :: p) (c :: v) none = false := by
  rw [globLoop.eq_def]
  exact (if_neg h).trans (if_neg hrun)

end Loop

/-- A pattern that is over, or that goes on with something else, does not match. -/
theorem not_matches_of_no_step {q c : Char} {p v : List Char} (hc : c ≠ '*')
    (htakes : ¬ (q = '?' ∨ q = c)) (hrun : q ≠ '*') :
    ¬ Matches (· = ·) ((q :: p).map token) (c :: v) := by
  intro h
  rw [List.map_cons, Wildcard.matches_cons_iff (by simpa using hrun), takes_token_iff hc] at h
  exact htakes h.1

/-- Where a `*` is remembered, the loop matches the pattern from there on. The part between that `*`
and where the loop stands has been taken one for one. -/
theorem globLoop_some {p v w u : List Char} (hu : '*' ∉ u) (hv : '*' ∉ v)
    (htied : Tied (· = ·) (w.map token) u) :
    globLoop p v (some (w ++ p, u ++ v)) = true ↔
      Matches (· = ·) (.run :: (w ++ p).map token) (u ++ v) := by
  generalize hstar : some (w ++ p, u ++ v) = star
  induction p, v, star using globLoop.induct generalizing w u with
  | case1 p star =>
    rw [globLoop, all_star_iff, List.map_append, List.append_nil, Wildcard.resume_end htied]
  | case2 c v q p star hq ih =>
    -- One character is taken, and tied to what took it.
    have hc : c ≠ '*' := by
      rintro rfl
      exact hv List.mem_cons_self
    have hsnoc : Tied (· = ·) ((w ++ [q]).map token) (u ++ [c]) := by
      rw [List.map_append]
      exact htied.snoc ((takes_token_iff hc).2 hq)
    have hnext := ih (w := w ++ [q]) (u := u ++ [c]) (by simp [hu, hc.symm])
      (fun hmem => hv (List.mem_cons_of_mem _ hmem)) hsnoc (by simp [← hstar])
    rw [globLoop_take hq]
    simpa using hnext
  | case3 c v p star hq ih =>
    -- The loop forgets the `*` it remembers for the one it has reached.
    have hnext := ih (w := []) (u := []) (by simp) hv .nil rfl
    rw [globLoop_star hq, List.map_append, List.map_cons,
      (token_eq_run_iff _).2 rfl, Wildcard.resume_run htied]
    exact hnext
  | case4 c v q p hq hrun sp d sv ih =>
    have hc : c ≠ '*' := by
      rintro rfl
      exact hv List.mem_cons_self
    obtain ⟨rfl, hsv⟩ : w ++ q :: p = sp ∧ u ++ c :: v = d :: sv := by simpa using hstar
    have hmem : '*' ∉ d :: sv := by
      rw [← hsv]
      simp only [List.mem_append, not_or]
      exact ⟨hu, hv⟩
    have hnext := ih (w := []) (u := []) (by simp)
      (fun hmem' => hmem (List.mem_cons_of_mem _ hmem')) .nil rfl
    rw [globLoop_back hq hrun]
    rw [List.map_append, Wildcard.resume_back htied (not_matches_of_no_step hc hq hrun) hsv,
      ← List.map_append]
    exact hnext
  | case5 c v q p star hq hrun hnone =>
    subst hstar
    cases hsv : u ++ c :: v with
    | nil => simp at hsv
    | cons d sv => exact absurd (by rw [hsv]) (hnone (w ++ q :: p) d sv)
  | case6 c v sp d sv ih =>
    obtain ⟨rfl, hsv⟩ : w ++ [] = sp ∧ u ++ c :: v = d :: sv := by simpa using hstar
    have hmem : '*' ∉ d :: sv := by
      rw [← hsv]
      simp only [List.mem_append, not_or]
      exact ⟨hu, hv⟩
    have hnext := ih (w := []) (u := []) (by simp)
      (fun hmem' => hmem (List.mem_cons_of_mem _ hmem')) .nil rfl
    rw [globLoop]
    rw [List.map_append, Wildcard.resume_back htied (by simp) hsv, ← List.map_append]
    exact hnext
  | case7 star c v hnone =>
    subst hstar
    cases hsv : u ++ c :: v with
    | nil => simp at hsv
    | cons d sv => exact absurd (by rw [hsv]) (hnone (w ++ []) d sv)

/-- The loop finds a match exactly when there is one. -/
theorem globLoop_none {p v : List Char} (hv : '*' ∉ v) :
    globLoop p v none = true ↔ Matches (· = ·) (p.map token) v := by
  induction v generalizing p with
  | nil => rw [globLoop, all_star_iff, Wildcard.matches_nil_iff]
  | cons c v ih =>
    have hc : c ≠ '*' := by
      rintro rfl
      exact hv List.mem_cons_self
    cases p with
    | nil => simp [globLoop]
    | cons q p =>
      by_cases hq : q = '?' ∨ q = c
      · have hrun : token q ≠ .run := ((takes_token_iff hc).2 hq).ne_run
        rw [globLoop_take hq, ih (fun hmem => hv (List.mem_cons_of_mem _ hmem)), List.map_cons,
          Wildcard.matches_cons_iff hrun, takes_token_iff hc]
        exact (and_iff_right hq).symm
      · by_cases hrun : q = '*'
        · subst hrun
          rw [globLoop_star hq]
          exact globLoop_some (w := []) (u := []) (by simp) hv .nil
        · rw [globLoop_stuck hq hrun]
          simpa using not_matches_of_no_step hc hq hrun

/-! ## Without regard to case -/

/-- The value can be obtained from the pattern by putting some run of characters for each `*` and
exactly one for each `?`, without regard to the case of ASCII letters. -/
def Obtained (pattern value : String) : Prop :=
  ∃ pieces : List (List Char),
    List.Forall₂ (fun q piece => q = '*' ∨ ∃ c, piece = [c] ∧ (q = '?' ∨ c.toLower = q.toLower))
      pattern.toList pieces ∧ pieces.flatten = value.toList

/-- What is not a letter has no other case. -/
theorem toLower_eq_iff {c d : Char} (hd : d.isAlpha = false) : c.toLower = d ↔ c = d := by
  have hlower : ∀ c : Char, c.isAlpha = false → c.toLower = c := by
    intro c hc
    apply Char.toLower_eq_of_not_isUpper
    intro hupper
    simp [Char.isAlpha, hupper] at hc
  constructor
  · intro h
    have hc : c.isAlpha = false := by rw [← Char.isAlpha_toLower_eq_isAlpha, h, hd]
    rw [← hlower c hc, h]
  · rintro rfl
    exact hlower c hd

/-- A wildcard has no case. -/
theorem token_toLower (q : Char) : token q.toLower = (token q).map Char.toLower := by
  by_cases hrun : q = '*'
  · subst hrun
    rfl
  · by_cases hany : q = '?'
    · subst hany
      rfl
    · have hrun' : q.toLower ≠ '*' := fun h => hrun ((toLower_eq_iff (by decide)).1 h)
      have hany' : q.toLower ≠ '?' := fun h => hany ((toLower_eq_iff (by decide)).1 h)
      have hlit : ∀ q : Char, q ≠ '*' → q ≠ '?' → token q = .lit q := by
        intro q hrun hany
        unfold token
        split <;> trivial
      rw [hlit _ hrun' hany', hlit q hrun hany]
      rfl

/-- The piece that a character of a pattern stands for. -/
theorem denotes_token_iff (q : Char) (piece : List Char) :
    (token q).Denotes (fun a c => a.toLower = c.toLower) piece ↔
      q = '*' ∨ ∃ c, piece = [c] ∧ (q = '?' ∨ c.toLower = q.toLower) := by
  unfold token
  split
  · simp [Token.Denotes]
  · simp [Token.Denotes, Token.Takes]
  · rename_i hrun hany
    have hrun : q ≠ '*' := hrun
    have hany : q ≠ '?' := hany
    simp [Token.Denotes, Token.Takes, hrun, hany, eq_comm]

/-- The loop finds a match exactly when there is one. -/
theorem globMatch_iff {pattern value : String} (h : '*' ∉ value.toList) :
    globMatch pattern value = true ↔ Obtained pattern value := by
  have hvalue : '*' ∉ value.toList.map Char.toLower := by
    intro hmem
    obtain ⟨c, hc, hlower⟩ := List.mem_map.1 hmem
    obtain rfl := (toLower_eq_iff (by decide)).1 hlower
    exact h hc
  have htokens : (pattern.toList.map Char.toLower).map token =
      (pattern.toList.map token).map (Token.map Char.toLower) := by
    rw [List.map_map, List.map_map]
    apply List.map_congr_left
    intro q _
    exact token_toLower q
  rw [globMatch, globLoop_none hvalue, htokens, Wildcard.matches_map_iff,
    Wildcard.matches_iff_pieces]
  simp only [List.forall₂_map_left_iff, denotes_token_iff]
  exact Iff.rfl

/-! ## How a target is spelled -/

/-- No digit is a `*`. -/
theorem star_notMem_toDigits {b n : ℕ} (hb : 1 < b) (hb16 : b ≤ 16) : '*' ∉ Nat.toDigits b n := by
  have hdigit : ∀ d < 16, Nat.digitChar d ≠ '*' := by decide
  induction n using Nat.strong_induction_on with
  | _ n ih =>
    rcases Nat.lt_or_ge n b with hlt | hge
    · rw [Nat.toDigits_of_lt_base hlt, List.mem_singleton]
      exact (hdigit n (by omega)).symm
    · rw [Nat.toDigits_of_base_le hb hge, List.mem_append, List.mem_singleton, not_or]
      have hmod : n % b < b := Nat.mod_lt n (by omega)
      exact ⟨ih (n / b) (Nat.div_lt_self (by omega) hb), (hdigit _ (by omega)).symm⟩

@[simp]
theorem star_notMem_decimal (n : ℕ) : '*' ∉ Nat.toDigits 10 n :=
  star_notMem_toDigits (by decide) (by decide)

@[simp]
theorem star_notMem_ipv4 (ip : Ipv4Addr) : '*' ∉ ip.text.toList := by
  simp [Ipv4Addr.text]

/-- Neither between the parts nor in them. -/
theorem star_notMem_intercalate {sep : List Char} {parts : List (List Char)} (hsep : '*' ∉ sep)
    (hparts : ∀ part ∈ parts, '*' ∉ part) : '*' ∉ sep.intercalate parts := by
  induction parts with
  | nil => simp
  | cons part parts ih =>
    have hpart := hparts part List.mem_cons_self
    have hrest := ih fun p hp => hparts p (List.mem_cons_of_mem _ hp)
    cases parts with
    | nil => simpa using hpart
    | cons part' parts =>
      rw [List.intercalate_cons_cons]
      simp only [List.mem_append, not_or]
      exact ⟨⟨hpart, hsep⟩, hrest⟩

@[simp]
theorem star_notMem_segments (ss : List UInt16) : '*' ∉ (segmentsText ss).toList := by
  rw [segmentsText, String.toList_intercalate]
  apply star_notMem_intercalate (by decide)
  simp only [List.mem_map]
  rintro part ⟨_, ⟨s, -, rfl⟩, rfl⟩
  rw [String.toList_ofList]
  exact star_notMem_toDigits (by decide) (by decide)

@[simp]
theorem star_notMem_ipv6 (ip : Ipv6Addr) : '*' ∉ ip.text.toList := by
  unfold Ipv6Addr.text
  split
  · simp
  · dsimp only
    split_ifs <;> simp

/-- The spelling of a target has no `*`. -/
theorem star_notMem_hostLookupKey (addr : SocketAddr) : '*' ∉ (hostLookupKey addr).toList := by
  cases addr <;> simp only [hostLookupKey] <;> split_ifs <;> simp

/-! ## Lists of patterns -/

/-- A list of patterns covers a host when one that is no negation matches, and no negation does. -/
theorem patternsCover_iff (lookupKey : String) (list : List String) (positive : Bool) :
    patternsCover lookupKey list positive = true ↔
      (positive = true ∨
        ∃ pattern ∈ list, pattern.toList.head? ≠ some '!' ∧ globMatch pattern lookupKey = true) ∧
      ∀ pattern ∈ list, ∀ neg, pattern.toList = '!' :: neg →
        globMatch (String.ofList neg) lookupKey = false := by
  fun_induction patternsCover lookupKey list positive with
  | case1 positive => simp
  | case2 pattern rest positive neg hneg hmatch =>
    -- A negation matches.
    constructor
    · intro h
      cases h
    · rintro ⟨-, hnone⟩
      exact absurd hmatch (by simp [hnone pattern List.mem_cons_self neg hneg])
  | case3 pattern rest positive neg hneg hmatch ih =>
    have hhead : pattern.toList.head? = some '!' := by simp [hneg]
    have hother : ∀ neg', pattern.toList = '!' :: neg' →
        globMatch (String.ofList neg') lookupKey = false := by
      intro neg' hneg'
      obtain rfl : neg = neg' := by simpa [hneg] using hneg'
      exact eq_false_of_ne_true hmatch
    rw [ih, List.forall_mem_cons, and_iff_right hother]
    simp [hhead]
  | case4 pattern rest positive hpos ih =>
    have hhead : pattern.toList.head? ≠ some '!' := by
      intro hhead
      obtain ⟨neg, hneg⟩ := List.head?_eq_some_iff.1 hhead
      exact hpos neg hneg
    have hother : ∀ neg, pattern.toList = '!' :: neg →
        globMatch (String.ofList neg) lookupKey = false := by
      intro neg hneg
      exact absurd hneg (hpos neg)
    rw [ih, List.forall_mem_cons, and_iff_right hother]
    simp [hhead, or_assoc]

/-- **Patterns are matched correctly**. For a value without `*`, as every spelling of a target is,
the loop finds a match exactly when there is one, and a list of patterns covers a host when one that
is no negation matches, and no negation does. -/
theorem pattern_matching_exact (Key : Type) [SshKey Key] :
    (∀ pattern value : String, '*' ∉ value.toList →
      (globMatch pattern value = true ↔ Obtained pattern value)) ∧
    (∀ addr : SocketAddr, '*' ∉ (hostLookupKey addr).toList) ∧
    ∀ (lookupKey : String) (list : List String),
      patternsMatch Key lookupKey (.patterns list) = true ↔
        (∃ pattern ∈ list, pattern.toList.head? ≠ some '!' ∧ globMatch pattern lookupKey = true) ∧
        ∀ pattern ∈ list, ∀ neg, pattern.toList = '!' :: neg →
          globMatch (String.ofList neg) lookupKey = false := by
  refine ⟨?_, star_notMem_hostLookupKey, ?_⟩
  · intro pattern value h
    exact globMatch_iff h
  · intro lookupKey list
    rw [patternsMatch, patternsCover_iff]
    simp

end Hostkey
