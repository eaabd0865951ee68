import Mathlib

set_option relaxedAutoImplicit false
set_option autoImplicit false

/-!
# Backtracking patterns

Regular expressions as a backtracking matcher reads them: repetitions are greedy, of two alternatives
the left one is tried first, and the first match is the answer, with what its groups captured.

## Main definitions

* `Pattern.run` — all ways to match at a place, in the order in which they are tried.
* `Pattern.exec` — the leftmost match.
* `Pattern.scan` — a text cut into its matches and what is between them, with `Pattern.matchAll`,
  `Pattern.replaceAll` and `Pattern.split`.

## Main results

* `Pattern.replaceAll_plus` — replacing runs of a class.
* `Pattern.replaceAll_ends`, `Pattern.replaceFirst_end` — trimming is replacing at the ends.
* `Pattern.test_between` — an anchored repetition of a class bounds the length.
* `Pattern.search_fields` — a word and a gap are looked for field by field.
* `Pattern.run_options` — a repetition of options skips fields of a text.

## Design

The matcher of a repetition goes round again only if it has consumed something, so that the length of
the text bounds the number of turns. A turn forgets what the groups within it have captured before.
-/

/-- A regular expression over an alphabet. -/
inductive Pattern (α : Type*)
  | nothing
  /-- One symbol of a class. -/
  | one (p : α → Bool)
  | seq (r t : Pattern α)
  | alt (r t : Pattern α)
  /-- As often as possible, and any number of times. -/
  | star (r : Pattern α)
  /-- As often as possible, and at most `k` times. -/
  | upTo (k : ℕ) (r : Pattern α)
  /-- A group that captures. -/
  | group (k : ℕ) (r : Pattern α)
  /-- The beginning and the end of the text. -/
  | start
  | finish

namespace Pattern

variable {α : Type*}

/-! ## Matching -/

/-- What is left of the text, and what the groups have captured. -/
structure State (α : Type*) where
  rest : List α
  groups : List (ℕ × List α) := []

/-- A new turn forgets its groups. -/
def State.forget (s : State α) (ks : List ℕ) : State α :=
  { s with groups := s.groups.filter fun kt => kt.1 ∉ ks }

/-- The groups of a pattern. -/
def captures : Pattern α → List ℕ
  | nothing | one _ | start | finish => []
  | seq r t | alt r t => r.captures ++ t.captures
  | star r | upTo _ r => r.captures
  | group k r => k :: r.captures

/-- At most `k` turns of `f`, each of which consumes something; as many as possible first. -/
def turns (f : State α → List (State α)) : ℕ → State α → List (State α)
  | 0, s => [s]
  | k + 1, s => ((f s).filter fun t => t.rest.length < s.rest.length).flatMap (turns f k) ++ [s]

/-- All ways to match at a place of a text of length `n`, in the order in which they are tried. -/
def run (n : ℕ) : Pattern α → State α → List (State α)
  | nothing, s => [s]
  | one p, s =>
    match s.rest with
    | [] => []
    | a :: as => if p a then [{ s with rest := as }] else []
  | seq r t, s => (run n r s).flatMap (run n t)
  | alt r t, s => run n r s ++ run n t s
  | star r, s => turns (fun s => run n r (s.forget r.captures)) s.rest.length s
  | upTo k r, s => turns (fun s => run n r (s.forget r.captures)) k s
  | group k r, s =>
    (run n r s).map fun t =>
      { t with groups := (k, s.rest.take (s.rest.length - t.rest.length)) :: t.groups }
  | start, s => if s.rest.length = n then [s] else []
  | finish, s => if s.rest = [] then [s] else []

/-- A match, with the text before and after it. -/
structure Match (α : Type*) where
  before : List α
  text : List α
  groups : List (ℕ × List α)
  after : List α

/-- What a group has captured. -/
def Match.group (m : Match α) (k : ℕ) : Option (List α) := m.groups.lookup k

/-- The first match at a place. -/
def first (r : Pattern α) (n : ℕ) (s : List α) : Option (Match α) :=
  (r.run n ⟨s, []⟩).head?.map fun t => ⟨[], s.take (s.length - t.rest.length), t.groups, t.rest⟩

/-- The leftmost match from a place on. -/
def search (r : Pattern α) (n : ℕ) : List α → Option (Match α)
  | [] => r.first n []
  | a :: as =>
    match r.first n (a :: as) with
    | some m => some m
    | none => (search r n as).map fun m => { m with before := a :: m.before }

/-- The leftmost match. -/
def exec (r : Pattern α) (s : List α) : Option (Match α) := r.search s.length s

/-- There is a match. -/
def test (r : Pattern α) (s : List α) : Bool := (r.exec s).isSome

/-- The matches of a text and the symbols between them, the first `k` places of it. -/
def scanUpTo (r : Pattern α) (n : ℕ) : ℕ → List α → List (α ⊕ Match α)
  | _, [] => ((r.first n []).map Sum.inr).toList
  | 0, _ :: _ => []
  | k + 1, a :: as =>
    match r.first n (a :: as) with
    | none => .inl a :: scanUpTo r n k as
    | some m =>
      -- after a match of nothing, the search goes on one symbol further
      if m.after.length ≤ as.length then .inr m :: scanUpTo r n k m.after
      else .inr m :: .inl a :: scanUpTo r n k as

/-- The matches of a text and the symbols between them. -/
def scan (r : Pattern α) (s : List α) : List (α ⊕ Match α) := r.scanUpTo s.length s.length s

/-- All matches. -/
def matchAll (r : Pattern α) (s : List α) : List (Match α) := (r.scan s).filterMap Sum.getRight?

/-- All matches are replaced. -/
def replaceAll (r : Pattern α) (w s : List α) : List α :=
  (r.scan s).flatMap (Sum.elim (fun a => [a]) fun _ => w)

/-- The first match is replaced. -/
def replaceFirst (r : Pattern α) (w s : List α) : List α :=
  match r.exec s with
  | none => s
  | some m => m.before ++ w ++ m.after

/-- The symbols between matches. -/
def pieces : List (α ⊕ Match α) → List (List α)
  | [] => [[]]
  | .inl a :: ts => (pieces ts).modifyHead (a :: ·)
  | .inr _ :: ts => [] :: pieces ts

/-- The text between matches of something. -/
def split (r : Pattern α) (s : List α) : List (List α) := pieces (r.scan s)

/-! ## Derived patterns -/

/-- One after the other. -/
def seqs (rs : List (Pattern α)) : Pattern α := rs.foldr seq nothing

/-- At least once. -/
def plus (r : Pattern α) : Pattern α := seq r (star r)

/-- At most once. -/
def opt (r : Pattern α) : Pattern α := upTo 1 r

/-- From once to `k + 1` times. -/
def between (k : ℕ) (r : Pattern α) : Pattern α := seq r (upTo k r)

/-- The symbols of a text. -/
def lit [DecidableEq α] (w : List α) : Pattern α := seqs (w.map fun a => one (· = a))

/-! ## Ways to match -/

section Run

variable {n : ℕ} {p : α → Bool} {r t : Pattern α} {g : List (ℕ × List α)}

@[simp] theorem State.forget_nil (s : State α) : s.forget [] = s := by
  simp [State.forget]

@[simp] theorem run_nothing (s : State α) : run n nothing s = [s] := rfl

@[simp] theorem run_one_nil : run n (one p) ⟨[], g⟩ = [] := rfl

@[simp] theorem run_one_cons (a : α) (as : List α) :
    run n (one p) ⟨a :: as, g⟩ = if p a then [⟨as, g⟩] else [] := rfl

theorem run_seq (s : State α) : run n (seq r t) s = (run n r s).flatMap (run n t) := rfl

/-- The first way to match is the first one that can be completed. -/
theorem head?_flatMap_cons {f : State α → List (State α)} {s t : State α} {ss : List (State α)}
    (h : (f s).head? = some t) : ((s :: ss).flatMap f).head? = some t := by
  rw [List.flatMap_cons, List.head?_append, h]
  rfl

theorem run_alt (s : State α) : run n (alt r t) s = run n r s ++ run n t s := rfl

theorem run_group (k : ℕ) (s : State α) :
    run n (group k r) s = (run n r s).map fun t =>
      { t with groups := (k, s.rest.take (s.rest.length - t.rest.length)) :: t.groups } := rfl

@[simp] theorem run_finish_nil : run n finish (⟨[], g⟩ : State α) = [⟨[], g⟩] := rfl

@[simp] theorem run_finish_cons (a : α) (as : List α) : run n finish ⟨a :: as, g⟩ = [] := rfl

theorem run_start_of_lt {s : List α} (h : s.length < n) : run n start ⟨s, g⟩ = [] :=
  if_neg h.ne

theorem run_start (s : List α) : run s.length start ⟨s, g⟩ = [⟨s, g⟩] := if_pos rfl

theorem run_seqs_cons (r : Pattern α) (rs : List (Pattern α)) (s : State α) :
    run n (seqs (r :: rs)) s = (run n r s).flatMap (run n (seqs rs)) := rfl

@[simp] theorem run_seqs_nil (s : State α) : run n (seqs []) s = [s] := rfl

theorem run_seqs_singleton (r : Pattern α) (s : State α) : run n (seqs [r]) s = run n r s :=
  List.flatMap_singleton' _

theorem run_opt (s : State α) (hcaptures : r.captures = [])
    (hshorter : ∀ t ∈ run n r s, t.rest.length < s.rest.length) :
    run n (opt r) s = run n r s ++ [s] := by
  have hfilter : (run n r s).filter (fun t => t.rest.length < s.rest.length) = run n r s :=
    List.filter_eq_self.2 fun t ht => decide_eq_true (hshorter t ht)
  simp only [opt, run, turns, hcaptures, State.forget_nil, hfilter, List.flatMap_singleton']

/-- A bound on the turns that exceeds the length of the text is irrelevant. -/
theorem turns_eq (f : State α → List (State α)) {k : ℕ} {s : State α} (h : s.rest.length ≤ k) :
    turns f k s = turns f s.rest.length s := by
  induction k using Nat.strong_induction_on generalizing s with
  | _ k ih =>
    cases k with
    | zero => rw [Nat.le_zero.1 h]
    | succ k =>
      cases hs : s.rest.length with
      | zero => simp [turns, hs]
      | succ m =>
        rw [turns, turns]
        congr 1
        refine List.flatMap_congr fun u hu => ?_
        have hlt : u.rest.length < s.rest.length := by simpa using (List.mem_filter.1 hu).2
        rw [ih k (Nat.lt_succ_self k) (by omega), ih m (by omega) (by omega)]

/-- A repetition goes round, or ends. -/
theorem run_star (s : State α) :
    run n (star r) s =
      ((run n r (s.forget r.captures)).filter fun t => t.rest.length < s.rest.length).flatMap
        (run n (star r)) ++ [s] := by
  rw [run]
  cases hs : s.rest.length with
  | zero => simp [turns]
  | succ m =>
    rw [turns]
    congr 1
    rw [hs]
    refine List.flatMap_congr fun u hu => ?_
    have hlt : u.rest.length < m + 1 := by simpa using (List.mem_filter.1 hu).2
    rw [turns_eq _ (Nat.lt_succ_iff.1 hlt)]
    rfl

theorem suffix_of_mem_turns {f : State α → List (State α)}
    (hf : ∀ s, ∀ t ∈ f s, t.rest <:+ s.rest) (k : ℕ) {s t : State α} (h : t ∈ turns f k s) :
    t.rest <:+ s.rest := by
  induction k generalizing s with
  | zero =>
    obtain rfl := List.mem_singleton.1 h
    exact List.suffix_refl _
  | succ k ih =>
    obtain h | h := List.mem_append.1 h
    · obtain ⟨u, hu, ht⟩ := List.mem_flatMap.1 h
      exact (ih ht).trans (hf s u (List.mem_filter.1 hu).1)
    · obtain rfl := List.mem_singleton.1 h
      exact List.suffix_refl _

/-- A match consumes the text from its front. -/
theorem suffix_of_mem_run {s t : State α} (h : t ∈ run n r s) : t.rest <:+ s.rest := by
  induction r generalizing s t with
  | nothing =>
    obtain rfl := List.mem_singleton.1 h
    exact List.suffix_refl _
  | one p =>
    obtain ⟨rest, g⟩ := s
    cases rest with
    | nil => exact absurd h List.not_mem_nil
    | cons a as =>
      rw [run_one_cons] at h
      split_ifs at h
      · obtain rfl := List.mem_singleton.1 h
        exact List.suffix_cons a as
      · exact absurd h List.not_mem_nil
  | seq r r' ih ih' =>
    obtain ⟨u, hu, ht⟩ := List.mem_flatMap.1 h
    exact (ih' ht).trans (ih hu)
  | alt r r' ih ih' =>
    obtain h | h := List.mem_append.1 h
    · exact ih h
    · exact ih' h
  | star r ih =>
    exact suffix_of_mem_turns (f := fun s => run n r (s.forget r.captures))
      (fun s t ht => ih (s := s.forget r.captures) ht) _ h
  | upTo k r ih =>
    exact suffix_of_mem_turns (f := fun s => run n r (s.forget r.captures))
      (fun s t ht => ih (s := s.forget r.captures) ht) _ h
  | group k r ih =>
    obtain ⟨u, hu, rfl⟩ := List.mem_map.1 h
    exact ih (t := u) hu
  | start | finish =>
    rw [run] at h
    split_ifs at h
    · obtain rfl := List.mem_singleton.1 h
      exact List.suffix_refl _
    · exact absurd h List.not_mem_nil

theorem groups_of_mem_turns {f : State α → List (State α)}
    (hf : ∀ s, ∀ t ∈ f s, t.groups = s.groups) (k : ℕ) {s t : State α} (h : t ∈ turns f k s) :
    t.groups = s.groups := by
  induction k generalizing s with
  | zero =>
    obtain rfl := List.mem_singleton.1 h
    rfl
  | succ k ih =>
    obtain h | h := List.mem_append.1 h
    · obtain ⟨u, hu, ht⟩ := List.mem_flatMap.1 h
      exact (ih ht).trans (hf s u (List.mem_filter.1 hu).1)
    · obtain rfl := List.mem_singleton.1 h
      rfl

/-- A pattern without groups leaves alone what was captured. -/
theorem groups_of_mem_run {s t : State α} (hr : r.captures = []) (h : t ∈ run n r s) :
    t.groups = s.groups := by
  induction r generalizing s t with
  | nothing =>
    obtain rfl := List.mem_singleton.1 h
    rfl
  | one p =>
    obtain ⟨rest, g⟩ := s
    cases rest with
    | nil => exact absurd h List.not_mem_nil
    | cons a as =>
      rw [run_one_cons] at h
      split_ifs at h
      · obtain rfl := List.mem_singleton.1 h
        rfl
      · exact absurd h List.not_mem_nil
  | seq r r' ih ih' =>
    obtain ⟨hr, hr'⟩ := List.append_eq_nil_iff.1 hr
    obtain ⟨u, hu, ht⟩ := List.mem_flatMap.1 h
    exact (ih' hr' ht).trans (ih hr hu)
  | alt r r' ih ih' =>
    obtain ⟨hr, hr'⟩ := List.append_eq_nil_iff.1 hr
    obtain h | h := List.mem_append.1 h
    · exact ih hr h
    · exact ih' hr' h
  | star r ih | upTo k r ih =>
    have hturn (s : State α) : ∀ t ∈ run n r (s.forget r.captures), t.groups = s.groups := by
      intro t ht
      rw [show r.captures = [] from hr, State.forget_nil] at ht
      exact ih hr ht
    exact groups_of_mem_turns hturn _ h
  | group k r ih => exact absurd hr (List.cons_ne_nil _ _)
  | start | finish =>
    rw [run] at h
    split_ifs at h
    · obtain rfl := List.mem_singleton.1 h
      rfl
    · exact absurd h List.not_mem_nil

/-- A group has captured something once it is matched. -/
theorem isSome_lookup_of_mem_run {k : ℕ} {rs : List (Pattern α)} {s t : State α}
    (hrs : (seqs rs).captures = []) (h : t ∈ run n (seqs (group k r :: rs)) s) :
    (t.groups.lookup k).isSome = true := by
  obtain ⟨u, hu, ht⟩ := List.mem_flatMap.1 h
  obtain ⟨v, -, rfl⟩ := List.mem_map.1 hu
  rw [groups_of_mem_run hrs ht, List.lookup_cons_self]
  rfl

end Run

/-! ## Runs of a class -/

section Classes

variable {n : ℕ} {p : α → Bool} {g : List (ℕ × List α)}

theorem run_star_one_cons (a : α) (as : List α) :
    run n (star (one p)) ⟨a :: as, g⟩ =
      if p a then run n (star (one p)) ⟨as, g⟩ ++ [⟨a :: as, g⟩] else [⟨a :: as, g⟩] := by
  rw [run_star, captures, State.forget_nil, run_one_cons]
  split_ifs with ha
  · simp
  · simp

theorem run_plus_one_nil : run n (plus (one p)) ⟨[], g⟩ = [] := rfl

theorem run_plus_one_cons (a : α) (as : List α) :
    run n (plus (one p)) ⟨a :: as, g⟩ = if p a then run n (star (one p)) ⟨as, g⟩ else [] := by
  rw [plus, run_seq, run_one_cons]
  split_ifs <;> simp

/-- The longest run is tried first. -/
theorem exists_run_star_one (s : List α) :
    ∃ ts, run n (star (one p)) ⟨s, g⟩ = ⟨s.dropWhile p, g⟩ :: ts := by
  induction s with
  | nil => exact ⟨[], rfl⟩
  | cons a as ih =>
    rw [run_star_one_cons]
    by_cases ha : p a = true
    · obtain ⟨ts, hts⟩ := ih
      rw [if_pos ha, hts, List.dropWhile_cons_of_pos ha]
      exact ⟨ts ++ [⟨a :: as, g⟩], rfl⟩
    · rw [if_neg ha, List.dropWhile_cons_of_neg ha]
      exact ⟨[], rfl⟩

theorem head?_run_plus_one (s : List α) :
    (run n (plus (one p)) ⟨s, g⟩).head? =
      if (s.head?.any p) then some ⟨s.dropWhile p, g⟩ else none := by
  cases s with
  | nil => rfl
  | cons a as =>
    rw [run_plus_one_cons, List.head?_cons, Option.any_some]
    split_ifs with ha
    · obtain ⟨ts, hts⟩ := exists_run_star_one (n := n) (p := p) (g := g) as
      rw [hts, List.dropWhile_cons_of_pos ha, List.head?_cons]
    · rfl

/-- **A run is captured** as a whole, where what follows it can be matched. -/
theorem head?_run_capture {k : ℕ} {rs : List (Pattern α)} {f rest : List α} {t : State α}
    (hne : f ≠ []) (hf : ∀ a ∈ f, p a = true) (hrest : ∀ a ∈ rest.head?, p a = false)
    (ht : (run n (seqs rs) ⟨rest, (k, f) :: g⟩).head? = some t) :
    (run n (seqs (group k (plus (one p)) :: rs)) ⟨f ++ rest, g⟩).head? = some t := by
  have hdrop : (f ++ rest).dropWhile p = rest := by
    rw [List.dropWhile_append_of_pos hf]
    cases rest with
    | nil => rfl
    | cons a as => rw [List.dropWhile_cons_of_neg (by simp [hrest a rfl])]
  have hhead := head?_run_plus_one (n := n) (p := p) (g := g) (f ++ rest)
  have hfirst : (f ++ rest).head?.any p = true := by
    cases f with
    | nil => exact absurd rfl hne
    | cons a as => exact hf a List.mem_cons_self
  rw [if_pos hfirst, hdrop] at hhead
  rw [run_seqs_cons, run_group]
  cases hrun : run n (plus (one p)) ⟨f ++ rest, g⟩ with
  | nil => simp [hrun] at hhead
  | cons u us =>
    obtain rfl : u = ⟨rest, g⟩ := by simpa [hrun] using hhead
    simp [ht]

/-- A run that has to end with the text. -/
theorem run_star_one_finish (s : List α) :
    (run n (star (one p)) ⟨s, g⟩).flatMap (run n finish) = if s.all p then [⟨[], g⟩] else [] := by
  induction s with
  | nil => rfl
  | cons a as ih =>
    rw [run_star_one_cons, List.all_cons]
    by_cases ha : p a = true
    · rw [if_pos ha, List.flatMap_append, ih, ha, Bool.true_and]
      simp
    · simp [ha]

theorem run_plus_one_finish (s : List α) :
    run n (seq (plus (one p)) finish) ⟨s, g⟩ = if s ≠ [] ∧ s.all p then [⟨[], g⟩] else [] := by
  cases s with
  | nil => rfl
  | cons a as =>
    rw [run_seq, run_plus_one_cons]
    by_cases ha : p a = true
    · simp [ha, run_star_one_finish]
    · simp [ha]

end Classes

/-! ## Scans -/

section Scans

variable {n k : ℕ} {r : Pattern α} {p : α → Bool}

theorem scanUpTo_nil : r.scanUpTo n k [] = ((r.first n []).map Sum.inr).toList := by
  cases k <;> rfl

theorem scanUpTo_of_none {a : α} {as : List α} (h : r.first n (a :: as) = none) :
    r.scanUpTo n (k + 1) (a :: as) = .inl a :: r.scanUpTo n k as := by
  rw [scanUpTo, h]

theorem scanUpTo_of_some {a : α} {as : List α} {m : Match α} (h : r.first n (a :: as) = some m)
    (hafter : m.after.length ≤ as.length) :
    r.scanUpTo n (k + 1) (a :: as) = .inr m :: r.scanUpTo n k m.after := by
  rw [scanUpTo, h]
  exact if_pos hafter

/-- A symbol of a piece is one between matches. -/
theorem mem_of_mem_pieces {ts : List (α ⊕ Match α)} {f : List α} (hf : f ∈ pieces ts) {a : α}
    (ha : a ∈ f) : .inl a ∈ ts := by
  induction ts generalizing f a with
  | nil =>
    obtain rfl := List.mem_singleton.1 hf
    exact absurd ha List.not_mem_nil
  | cons t ts ih =>
    cases t with
    | inl b =>
      rw [pieces] at hf
      cases hpieces : pieces ts with
      | nil => rw [hpieces] at hf; exact absurd hf List.not_mem_nil
      | cons f' fs =>
        rw [hpieces, List.modifyHead_cons, List.mem_cons] at hf
        obtain rfl | hf := hf
        · obtain rfl | ha := List.mem_cons.1 ha
          · exact List.mem_cons_self
          · exact List.mem_cons_of_mem _ (ih (by rw [hpieces]; exact List.mem_cons_self) ha)
        · exact List.mem_cons_of_mem _ (ih (by rw [hpieces]; exact List.mem_cons_of_mem _ hf) ha)
    | inr m =>
      obtain rfl | hf := List.mem_cons.1 hf
      · exact absurd ha List.not_mem_nil
      · exact List.mem_cons_of_mem _ (ih hf ha)

theorem suffix_of_first {s : List α} {m : Match α} (h : r.first n s = some m) : m.after <:+ s := by
  obtain ⟨t, ht, rfl⟩ := Option.map_eq_some_iff.1 h
  exact suffix_of_mem_run (List.mem_of_head? ht)

/-- A symbol between matches is of the text. -/
theorem mem_of_mem_scanUpTo {s : List α} {a : α} (h : .inl a ∈ r.scanUpTo n k s) : a ∈ s := by
  induction k generalizing s with
  | zero =>
    cases s with
    | nil => simp [scanUpTo_nil] at h
    | cons b bs => exact absurd h List.not_mem_nil
  | succ k ih =>
    cases s with
    | nil => simp [scanUpTo_nil] at h
    | cons b bs =>
      rw [scanUpTo] at h
      split at h
      · obtain h | h := List.mem_cons.1 h
        · rw [Sum.inl.inj h]
          exact List.mem_cons_self
        · exact List.mem_cons_of_mem _ (ih h)
      next m hm =>
        split_ifs at h with hlength
        · obtain h | h := List.mem_cons.1 h
          · contradiction
          · exact (suffix_of_first hm).subset (ih h)
        · simp only [List.mem_cons, reduceCtorEq, false_or] at h
          obtain h | h := h
          · rw [Sum.inl.inj h]
            exact List.mem_cons_self
          · exact List.mem_cons_of_mem _ (ih h)

/-- A match that is found by a scan is the first match at some place. -/
theorem exists_first_of_mem_scanUpTo {s : List α} {m : Match α} (h : .inr m ∈ r.scanUpTo n k s) :
    ∃ t, r.first n t = some m := by
  have hnil (h : (.inr m : α ⊕ Match α) ∈ ((r.first n []).map Sum.inr).toList) :
      ∃ t, r.first n t = some m := by
    obtain ⟨m', hm', heq⟩ := Option.map_eq_some_iff.1 (Option.mem_toList.1 h)
    exact ⟨[], Sum.inr.inj heq ▸ hm'⟩
  induction k generalizing s with
  | zero =>
    cases s with
    | nil => exact hnil (scanUpTo_nil (k := 0) ▸ h)
    | cons b bs => exact absurd h List.not_mem_nil
  | succ k ih =>
    cases s with
    | nil => exact hnil (scanUpTo_nil (k := 0) ▸ h)
    | cons b bs =>
      rw [scanUpTo] at h
      split at h
      · obtain h | h := List.mem_cons.1 h
        · contradiction
        · exact ih h
      next m' hm' =>
        split_ifs at h with hlength
        · obtain h | h := List.mem_cons.1 h
          · exact ⟨_, Sum.inr.inj h ▸ hm'⟩
          · exact ih h
        · simp only [List.mem_cons, reduceCtorEq, false_or] at h
          obtain h | h := h
          · exact ⟨_, Sum.inr.inj h ▸ hm'⟩
          · exact ih h

theorem exists_first_of_mem_matchAll {s : List α} {m : Match α} (h : m ∈ r.matchAll s) :
    ∃ n t, r.first n t = some m := by
  obtain ⟨t, ht, hright⟩ := List.mem_filterMap.1 h
  rw [Sum.getRight?_eq_some_iff.1 hright] at ht
  exact ⟨_, exists_first_of_mem_scanUpTo ht⟩

/-- What is between matches is of the text. -/
theorem mem_of_mem_split {s f : List α} (hf : f ∈ r.split s) {a : α} (ha : a ∈ f) : a ∈ s :=
  mem_of_mem_scanUpTo (mem_of_mem_pieces hf ha)

/-- A bound on the places that exceeds the length of the text is irrelevant. -/
theorem scanUpTo_eq {s : List α} (h : s.length ≤ k) :
    r.scanUpTo n k s = r.scanUpTo n s.length s := by
  induction k using Nat.strong_induction_on generalizing s with
  | _ k ih =>
    cases s with
    | nil => rw [scanUpTo_nil, scanUpTo_nil]
    | cons a as =>
      obtain ⟨k, rfl⟩ : ∃ j, k = j + 1 := ⟨k - 1, by simp at h; omega⟩
      have hk : as.length ≤ k := by simpa using h
      rw [List.length_cons, scanUpTo, scanUpTo, ih k (Nat.lt_succ_self k) hk]
      cases r.first n (a :: as) with
      | none => rfl
      | some m =>
        dsimp only
        split_ifs with hafter
        · rw [ih k (Nat.lt_succ_self k) (hafter.trans hk),
            ih as.length (Nat.lt_succ_of_le hk) hafter]
        · rfl

/-- What is left after the first match at a place. -/
theorem exists_first {s rest : List α} {g : List (ℕ × List α)}
    (h : (r.run n ⟨s, []⟩).head? = some ⟨rest, g⟩) :
    ∃ m, r.first n s = some m ∧ m.after = rest ∧ m.groups = g := by
  rw [first, h]
  exact ⟨_, rfl, rfl, rfl⟩

theorem first_eq_none {s : List α} (h : r.run n ⟨s, []⟩ = []) : r.first n s = none := by
  rw [first, h]
  rfl

/-! ### Runs of a class -/

/-- A text whose runs of a class are replaced, after a symbol that was of the class or not. -/
def collapse (p : α → Bool) (w : List α) : Bool → List α → List α
  | _, [] => []
  | inside, a :: as =>
    if p a then (if inside then [] else w) ++ collapse p w true as else a :: collapse p w false as

theorem collapse_true (p : α → Bool) (w s : List α) :
    collapse p w true s = collapse p w false (s.dropWhile p) := by
  induction s with
  | nil => rfl
  | cons a as ih =>
    by_cases ha : p a = true
    · rw [List.dropWhile_cons_of_pos ha, ← ih, collapse, if_pos ha, if_pos rfl, List.nil_append]
    · rw [List.dropWhile_cons_of_neg ha, collapse, collapse, if_neg ha, if_neg ha]

theorem scanUpTo_plus {w s : List α} (hk : s.length ≤ k) :
    ((plus (one p)).scanUpTo n k s).flatMap (Sum.elim (fun a => [a]) fun _ => w) =
      collapse p w false s := by
  induction k using Nat.strong_induction_on generalizing s with
  | _ k ih =>
    cases s with
    | nil => simp [scanUpTo_nil, first, run_plus_one_nil, collapse]
    | cons a as =>
      obtain ⟨k, rfl⟩ : ∃ j, k = j + 1 := ⟨k - 1, by simp at hk; omega⟩
      have hk : as.length ≤ k := by simpa using hk
      by_cases ha : p a = true
      · have hrun := head?_run_plus_one (n := n) (p := p) (g := []) (a :: as)
        rw [List.head?_cons, Option.any_some, if_pos ha, List.dropWhile_cons_of_pos ha] at hrun
        obtain ⟨m, hm, hafter, -⟩ := exists_first hrun
        have hle : (as.dropWhile p).length ≤ as.length := List.length_dropWhile_le _ _
        rw [scanUpTo_of_some hm (by rw [hafter]; exact hle), List.flatMap_cons, hafter,
          ih k (Nat.lt_succ_self k) (hle.trans hk), collapse, if_pos ha, collapse_true]
        rfl
      · have hnone : (plus (one p)).first n (a :: as) = none :=
          first_eq_none (by rw [run_plus_one_cons, if_neg ha])
        rw [scanUpTo_of_none hnone, List.flatMap_cons, ih k (Nat.lt_succ_self k) hk, collapse,
          if_neg ha]
        rfl

/-- **Runs of a class are replaced.** -/
theorem replaceAll_plus (p : α → Bool) (w s : List α) :
    (plus (one p)).replaceAll w s = collapse p w false s :=
  scanUpTo_plus le_rfl

/-- What is left of the text, and what a run is replaced by. -/
theorem mem_collapse {w s : List α} {inside : Bool} {a : α} (h : a ∈ collapse p w inside s) :
    a ∈ s ∧ p a = false ∨ a ∈ w := by
  induction s generalizing inside with
  | nil => exact absurd h List.not_mem_nil
  | cons b bs ih =>
    have hrest {inside : Bool} (h : a ∈ collapse p w inside bs) :
        a ∈ b :: bs ∧ p a = false ∨ a ∈ w :=
      (ih h).imp (And.imp_left (List.mem_cons_of_mem b)) id
    rw [collapse] at h
    split_ifs at h with hb
    · exact hrest h
    · obtain h | h := List.mem_append.1 h
      · exact .inr h
      · exact hrest h
    · obtain rfl | h := List.mem_cons.1 h
      · exact .inl ⟨List.mem_cons_self, Bool.not_eq_true _ ▸ hb⟩
      · exact hrest h

/-- A text without the class is left alone. -/
theorem collapse_eq_self {w s : List α} (h : ∀ a ∈ s, p a = false) :
    collapse p w false s = s := by
  induction s with
  | nil => rfl
  | cons a as ih =>
    have ha : ¬p a = true := by simp [h a List.mem_cons_self]
    rw [collapse, if_neg ha, ih fun b hb => h b (List.mem_cons_of_mem a hb)]

/-- No two symbols of a class are side by side. -/
def Spread (p : α → Bool) : List α → Prop := List.IsChain fun a b => p a = true → p b = false

/-- Runs that were replaced by a symbol leave no runs. -/
theorem spread_collapse {c : α} (s : List α) :
    Spread p (collapse p [c] false s) ∧ Spread p (collapse p [c] true s) ∧
      ∀ a ∈ (collapse p [c] true s).head?, p a = false := by
  induction s with
  | nil => exact ⟨.nil, .nil, by simp [collapse]⟩
  | cons a as ih =>
    obtain ⟨hfalse, htrue, hhead⟩ := ih
    by_cases ha : p a = true
    · simp only [collapse, if_pos ha, if_true, Bool.false_eq_true, if_false, List.nil_append]
      exact ⟨List.IsChain.cons htrue fun b hb _ => hhead b hb, htrue, hhead⟩
    · have hspread : Spread p (a :: collapse p [c] false as) :=
        List.IsChain.cons hfalse fun _ _ hpa => absurd hpa ha
      simp only [collapse, if_neg ha]
      exact ⟨hspread, hspread, by simpa using ha⟩

/-- A text whose runs are single symbols `c` is left alone. -/
theorem collapse_eq_self_of_spread {c : α} {s : List α} (hspread : Spread p s)
    (hc : ∀ a ∈ s, p a = true → a = c) : collapse p [c] false s = s := by
  induction s with
  | nil => rfl
  | cons a as ih =>
    have hrest := ih hspread.tail fun b hb => hc b (List.mem_cons_of_mem a hb)
    by_cases ha : p a = true
    · have hhead : as.dropWhile p = as := by
        cases as with
        | nil => rfl
        | cons b bs =>
          have hb := (List.isChain_cons_cons.1 hspread).1 ha
          rw [List.dropWhile_cons_of_neg (by simp [hb])]
      rw [collapse, if_pos ha, collapse_true, hhead, hrest, ← hc a List.mem_cons_self ha]
      rfl
    · rw [collapse, if_neg ha, hrest]

/-- A run of a class is found wherever the text begins. -/
theorem scanUpTo_plus_congr (n n' k : ℕ) (s : List α) :
    (plus (one p)).scanUpTo n k s = (plus (one p)).scanUpTo n' k s := by
  have hfirst (s : List α) : (plus (one p)).first n s = (plus (one p)).first n' s := rfl
  induction k generalizing s with
  | zero => cases s <;> rfl
  | succ k ih =>
    cases s with
    | nil => rfl
    | cons a as => simp only [scanUpTo, hfirst, ih]

/-- A text is split at runs of a class. -/
theorem split_plus_append {w rest : List α} {b : α} (hw : ∀ a ∈ w, p a = false) (hb : p b = true) :
    (plus (one p)).split (w ++ b :: rest) = w :: (plus (one p)).split (rest.dropWhile p) := by
  rw [split, scan]
  induction w with
  | nil =>
    obtain ⟨ts, hts⟩ := exists_run_star_one (n := rest.length + 1) (p := p) (g := []) rest
    obtain ⟨m, hm, hafter, -⟩ :=
      exists_first (r := plus (one p)) (n := rest.length + 1) (s := b :: rest)
        (by rw [run_plus_one_cons, if_pos hb, hts]; rfl)
    have hle : (rest.dropWhile p).length ≤ rest.length := List.length_dropWhile_le _ _
    rw [List.nil_append, List.length_cons,
      scanUpTo_of_some hm (by rw [hafter]; exact hle), hafter, scanUpTo_eq hle, pieces, split, scan,
      scanUpTo_plus_congr _ (rest.dropWhile p).length]
  | cons a as ih =>
    have ha : ¬p a = true := by simp [hw a List.mem_cons_self]
    have hnone : (plus (one p)).first ((as ++ b :: rest).length + 1) (a :: (as ++ b :: rest)) = none :=
      first_eq_none (by rw [run_plus_one_cons, if_neg ha])
    rw [List.cons_append, List.length_cons, scanUpTo_of_none hnone, pieces,
      scanUpTo_plus_congr _ (as ++ b :: rest).length,
      ih fun c hc => hw c (List.mem_cons_of_mem a hc), List.modifyHead_cons]

/-! ### Runs of a class at the ends -/

theorem rdropWhile_of_all {s : List α} (h : s.all p = true) : s.rdropWhile p = [] :=
  List.rdropWhile_eq_nil_iff.2 (List.all_eq_true.1 h)

theorem rdropWhile_cons_of_not_all {a : α} {as : List α} (h : (a :: as).all p ≠ true) :
    (a :: as).rdropWhile p = a :: as.rdropWhile p := by
  rw [List.rdropWhile, List.rdropWhile, List.reverse_cons, List.dropWhile_append]
  cases hdrop : as.reverse.dropWhile p with
  | nil =>
    have hall : as.all p = true :=
      List.all_eq_true.2 fun b hb => List.dropWhile_eq_nil_iff.1 hdrop b (List.mem_reverse.2 hb)
    have ha : ¬p a = true := by simpa [hall] using h
    simp [ha]
  | cons b bs => simp

/-- A run that ends the text. -/
theorem run_end (s : List α) (g : List (ℕ × List α)) :
    run n (seqs [plus (one p), finish]) ⟨s, g⟩ =
      if s ≠ [] ∧ s.all p then [⟨[], g⟩] else [] := by
  rw [← run_plus_one_finish, run_seqs_cons, run_seq]
  exact List.flatMap_congr fun t _ => run_seqs_singleton _ t

/-- A run that begins the text, or ends it. -/
def ends (p : α → Bool) : Pattern α := alt (seqs [start, plus (one p)]) (seqs [plus (one p), finish])

theorem run_ends_of_lt {s : List α} (h : s.length < n) :
    run n (ends p) ⟨s, []⟩ = if s ≠ [] ∧ s.all p then [⟨[], []⟩] else [] := by
  rw [ends, run_alt, run_end, run_seqs_cons, run_start_of_lt h]
  rfl

theorem scanUpTo_ends {s : List α} (hk : s.length ≤ k) (hn : s.length < n) :
    ((ends p).scanUpTo n k s).flatMap (Sum.elim (fun a => [a]) fun _ => []) = s.rdropWhile p := by
  induction s generalizing k with
  | nil =>
    rw [scanUpTo_nil, first_eq_none (by rw [run_ends_of_lt hn]; rfl)]
    rfl
  | cons a as ih =>
    obtain ⟨k, rfl⟩ : ∃ j, k = j + 1 := ⟨k - 1, by simp at hk; omega⟩
    have hrun := run_ends_of_lt (p := p) hn
    by_cases hall : (a :: as).all p = true
    · rw [if_pos ⟨List.cons_ne_nil a as, hall⟩] at hrun
      obtain ⟨m, hm, hafter, -⟩ := exists_first (by rw [hrun]; rfl)
      have hnone : (ends p).first n [] = none :=
        first_eq_none (by rw [run_ends_of_lt (Nat.zero_lt_of_lt hn)]; rfl)
      rw [scanUpTo_of_some hm (by rw [hafter]; exact Nat.zero_le _), hafter, scanUpTo_nil, hnone,
        rdropWhile_of_all hall]
      rfl
    · rw [if_neg fun h => hall h.2] at hrun
      rw [scanUpTo_of_none (first_eq_none hrun), List.flatMap_cons,
        ih (by simpa using hk) (Nat.lt_of_succ_lt hn), rdropWhile_cons_of_not_all hall]
      rfl

/-- **Trimming**, by replacing at the ends. -/
theorem replaceAll_ends (p : α → Bool) (s : List α) :
    (ends p).replaceAll [] s = (s.dropWhile p).rdropWhile p := by
  rw [replaceAll, scan]
  cases s with
  | nil => rfl
  | cons a as =>
    have hseq : run (a :: as).length (seqs [start, plus (one p)]) ⟨a :: as, []⟩ =
        run (a :: as).length (plus (one p)) ⟨a :: as, []⟩ := by
      rw [run_seqs_cons, run_start, List.flatMap_singleton, run_seqs_singleton]
    rw [List.length_cons]
    by_cases ha : p a = true
    · obtain ⟨ts, hts⟩ := exists_run_star_one (n := as.length + 1) (p := p) (g := []) as
      have hrun : ((ends p).run (as.length + 1) ⟨a :: as, []⟩).head? = some ⟨as.dropWhile p, []⟩ := by
        rw [ends, run_alt, ← List.length_cons (a := a), hseq, run_plus_one_cons, if_pos ha,
          List.length_cons, hts]
        rfl
      obtain ⟨m, hm, hafter, -⟩ := exists_first hrun
      have hle : (as.dropWhile p).length ≤ as.length := List.length_dropWhile_le _ _
      rw [scanUpTo_of_some hm (by rw [hafter]; exact hle), List.flatMap_cons, hafter,
        scanUpTo_ends hle (Nat.lt_succ_of_le hle), List.dropWhile_cons_of_pos ha]
      rfl
    · have hall : (a :: as).all p ≠ true := by simp [ha]
      have hrun : (ends p).run (as.length + 1) ⟨a :: as, []⟩ = [] := by
        rw [ends, run_alt, ← List.length_cons (a := a), hseq, run_end, run_plus_one_cons, if_neg ha,
          if_neg fun h => hall h.2]
        rfl
      rw [scanUpTo_of_none (first_eq_none hrun), List.flatMap_cons,
        scanUpTo_ends le_rfl (Nat.lt_succ_self _), List.dropWhile_cons_of_neg ha,
        rdropWhile_cons_of_not_all hall]
      rfl

/-- **Trimming at the end**, by replacing once. -/
theorem replaceFirst_end (p : α → Bool) (s : List α) :
    (seqs [plus (one p), finish]).replaceFirst [] s = s.rdropWhile p := by
  have hsearch (n : ℕ) : ∀ s : List α,
      match (seqs [plus (one p), finish]).search n s with
      | none => s = s.rdropWhile p
      | some m => m.before ++ [] ++ m.after = s.rdropWhile p := by
    intro s
    induction s with
    | nil =>
      rw [search, first_eq_none (by rw [run_end]; rfl)]
      rfl
    | cons a as ih =>
      have hrun := run_end (n := n) (p := p) (a :: as) []
      rw [search]
      by_cases hall : (a :: as).all p = true
      · rw [if_pos ⟨List.cons_ne_nil a as, hall⟩] at hrun
        rw [first, hrun, rdropWhile_of_all hall]
        rfl
      · rw [if_neg fun h => hall h.2] at hrun
        rw [first_eq_none hrun, rdropWhile_cons_of_not_all hall]
        cases hrest : (seqs [plus (one p), finish]).search n as with
        | none =>
          rw [hrest] at ih
          exact congrArg (a :: ·) ih
        | some m =>
          rw [hrest] at ih
          exact congrArg (a :: ·) ih
  have h := hsearch s.length s
  rw [replaceFirst, exec]
  split
  next hnone =>
    rw [hnone] at h
    exact h
  next m hm =>
    rw [hm] at h
    exact h

/-! ### Anchored patterns -/

/-- A pattern that begins with the text is only found there. -/
theorem search_start_of_lt {rs : List (Pattern α)} {s : List α} (h : s.length < n) :
    (seqs (start :: rs)).search n s = none := by
  have hrun {t : List α} (ht : t.length < n) : (seqs (start :: rs)).first n t = none := by
    refine first_eq_none ?_
    rw [run_seqs_cons, run_start_of_lt ht]
    rfl
  induction s with
  | nil => exact hrun h
  | cons a as ih => rw [search, hrun h, ih (Nat.lt_of_succ_lt h)]; rfl

theorem test_start (rs : List (Pattern α)) (s : List α) :
    (seqs (start :: rs)).test s = ((seqs rs).run s.length ⟨s, []⟩).head?.isSome := by
  have hfirst : ((seqs (start :: rs)).first s.length s).isSome =
      ((seqs rs).run s.length ⟨s, []⟩).head?.isSome := by
    rw [first, Option.isSome_map, run_seqs_cons, run_start, List.flatMap_singleton]
  rw [test, exec]
  cases s with
  | nil => exact hfirst
  | cons a as =>
    rw [search, ← hfirst]
    cases (seqs (start :: rs)).first (a :: as).length (a :: as) with
    | none =>
      dsimp only
      rw [search_start_of_lt (n := (a :: as).length) (Nat.lt_succ_self _)]
      rfl
    | some m => rfl

/-- A bounded run that has to end with the text. -/
theorem run_upTo_one_finish (k : ℕ) (s : List α) (g : List (ℕ × List α)) :
    (run n (upTo k (one p)) ⟨s, g⟩).flatMap (run n finish) =
      if s.length ≤ k ∧ s.all p then [⟨[], g⟩] else [] := by
  have hturns (k : ℕ) : ∀ s : List α,
      (turns (fun s => run n (one p) (s.forget (one p).captures)) k ⟨s, g⟩).flatMap (run n finish) =
        if s.length ≤ k ∧ s.all p then [⟨[], g⟩] else [] := by
    induction k with
    | zero =>
      intro s
      cases s <;> simp [turns]
    | succ k ih =>
      intro s
      cases s with
      | nil => simp [turns, captures]
      | cons a as =>
        by_cases ha : p a = true
        · simpa [turns, captures, ha] using ih as
        · simp [turns, captures, ha]
  exact hturns k s

/-- **An anchored repetition of a class bounds the length.** -/
theorem test_between (k : ℕ) (p : α → Bool) (s : List α) :
    (seqs [start, between k (one p), finish]).test s = true ↔
      s ≠ [] ∧ s.length ≤ k + 1 ∧ ∀ a ∈ s, p a = true := by
  rw [test_start]
  cases s with
  | nil => simp [run_seqs_cons, between, run_seq]
  | cons a as =>
    have hrun : (seqs [between k (one p), finish]).run (a :: as).length ⟨a :: as, []⟩ =
        if p a = true ∧ as.length ≤ k ∧ as.all p then [⟨[], []⟩] else [] := by
      rw [run_seqs_cons, between, run_seq, run_one_cons]
      by_cases ha : p a = true
      · rw [if_pos ha, List.flatMap_singleton]
        have hfinish : run (a :: as).length (seqs [finish]) =
            run (a :: as).length (finish : Pattern α) := funext fun t => run_seqs_singleton _ t
        rw [hfinish, run_upTo_one_finish]
        simp [ha]
      · simp [ha]
    rw [hrun]
    split_ifs with h
    · simpa [and_assoc] using And.intro h.2.1 ⟨h.1, by simpa using h.2.2⟩
    · simpa using fun hle ha => by simpa [ha, hle] using h

end Scans

/-! ## Literal texts -/

section Literals

variable [DecidableEq α] {n : ℕ} {g : List (ℕ × List α)}

@[simp] theorem run_lit_nil (s : State α) : run n (lit []) s = [s] := rfl

theorem run_lit_cons (a : α) (w : List α) (s : State α) :
    run n (lit (a :: w)) s = (run n (one (· = a)) s).flatMap (run n (lit w)) := rfl

theorem run_lit_append (w s : List α) : run n (lit w) ⟨w ++ s, g⟩ = [⟨s, g⟩] := by
  induction w with
  | nil => rfl
  | cons a w ih =>
    rw [run_lit_cons, List.cons_append, run_one_cons, if_pos (decide_eq_true rfl),
      List.flatMap_singleton, ih]

theorem captures_lit (w : List α) : (lit w).captures = [] := by
  induction w with
  | nil => rfl
  | cons a w ih => exact ih

/-- A text that may be there, and is. -/
theorem run_opt_lit {w : List α} (hne : w ≠ []) (s : List α) :
    run n (opt (lit w)) ⟨w ++ s, g⟩ = [⟨s, g⟩, ⟨w ++ s, g⟩] := by
  rw [run_opt _ (captures_lit w), run_lit_append]
  · rfl
  · intro t ht
    rw [run_lit_append, List.mem_singleton] at ht
    have hpos := List.length_pos_iff.2 hne
    rw [ht]
    dsimp only
    rw [List.length_append]
    omega

end Literals

/-! ## Fields -/

section Fields

variable {n : ℕ} {p : α → Bool} {sep d : α} {w f : List α} {fs : List (List α)}
  {rs : List (Pattern α)} {g : List (ℕ × List α)}

/-- A field of a text has no symbol that separates fields. -/
def IsField (p : α → Bool) (f : List α) : Prop := f ≠ [] ∧ ∀ a ∈ f, p a = false

instance [DecidableEq α] (p : α → Bool) (f : List α) : Decidable (IsField p f) :=
  inferInstanceAs (Decidable (f ≠ [] ∧ ∀ a ∈ f, p a = false))

/-- Fields, with one symbol between any two. -/
def joined (sep : α) (fs : List (List α)) : List α := [sep].intercalate fs

/-- What follows a field. -/
def behind (sep : α) (fs : List (List α)) : List α := if fs = [] then [] else sep :: joined sep fs

theorem joined_cons (sep : α) (f : List α) (fs : List (List α)) :
    joined sep (f :: fs) = f ++ behind sep fs := by
  cases fs <;> simp [joined, behind, List.intercalate]

/-- Fields do not begin with a separator. -/
theorem head?_joined (hfs : ∀ f ∈ fs, IsField p f) : ∀ a ∈ (joined sep fs).head?, p a = false := by
  cases fs with
  | nil => exact fun a ha => absurd ha (by simp [joined, List.intercalate])
  | cons f fs =>
    obtain ⟨hne, hf⟩ := hfs f List.mem_cons_self
    cases f with
    | nil => exact absurd rfl hne
    | cons b f =>
      rw [joined_cons]
      intro a ha
      obtain rfl : b = a := Option.some.inj ha
      exact hf b List.mem_cons_self

theorem run_star_one_of_head? {s : List α} (h : ∀ a ∈ s.head?, p a = false) :
    run n (star (one p)) ⟨s, g⟩ = [⟨s, g⟩] := by
  cases s with
  | nil => rfl
  | cons a as => rw [run_star_one_cons, if_neg (by simp [h a rfl])]

/-- The gap between two fields. -/
theorem run_plus_behind (hsep : p sep = true) (hfs : ∀ f ∈ fs, IsField p f) :
    run n (plus (one p)) ⟨behind sep fs, g⟩ = if fs ≠ [] then [⟨joined sep fs, g⟩] else [] := by
  rw [behind]
  by_cases hnil : fs = []
  · rw [if_pos hnil, if_neg (not_not.2 hnil)]
    rfl
  · rw [if_neg hnil, if_pos hnil, run_plus_one_cons, if_pos hsep,
      run_star_one_of_head? (head?_joined hfs)]

theorem run_one_of_head? {s : List α} (h : ∀ a ∈ s.head?, p a = false) :
    run n (one p) ⟨s, g⟩ = [] := by
  cases s with
  | nil => rfl
  | cons a as => rw [run_one_cons, if_neg (by simp [h a rfl])]

theorem run_plus_of_head? {s : List α} (h : ∀ a ∈ s.head?, p a = false) :
    run n (plus (one p)) ⟨s, g⟩ = [] := by
  rw [plus, run_seq, run_one_of_head? h]
  rfl

/-- The front of a gap, if there is one. -/
theorem head?_behind {q : α → Bool} (hq : q sep = false) :
    ∀ a ∈ (behind sep fs).head?, q a = false := by
  rw [behind]
  split_ifs
  · simp
  · simp [hq]

/-- The rest of a field is taken as a whole, where a gap is to follow. -/
theorem run_star_not_plus (hsep : p sep = true) (hf : ∀ a ∈ f, p a = false)
    (hfs : ∀ f ∈ fs, IsField p f) :
    (run n (star (one fun a => !p a)) ⟨f ++ behind sep fs, g⟩).flatMap (run n (plus (one p))) =
      if fs ≠ [] then [⟨joined sep fs, g⟩] else [] := by
  induction f with
  | nil =>
    rw [List.nil_append, run_star_one_of_head? (head?_behind (by simp [hsep])),
      List.flatMap_singleton, run_plus_behind hsep hfs]
  | cons b f ih =>
    have hb := hf b List.mem_cons_self
    rw [List.cons_append, run_star_one_cons, if_pos (by simp [hb]), List.flatMap_append,
      ih fun a ha => hf a (List.mem_cons_of_mem b ha), List.flatMap_singleton,
      run_plus_of_head? (by simpa using hb), List.append_nil]

/-- The groups of the leftmost match. -/
def found (r : Pattern α) (n : ℕ) (s : List α) : Option (List (ℕ × List α)) :=
  (r.search n s).map Match.groups

theorem found_cons (r : Pattern α) (n : ℕ) (a : α) (as : List α) :
    r.found n (a :: as) = ((run n r ⟨a :: as, []⟩).head?.map State.groups).or (r.found n as) := by
  rw [found, found, search, first]
  cases (run n r ⟨a :: as, []⟩).head? with
  | none => cases r.search n as <;> rfl
  | some t => rfl

theorem exec_eq_none {r : Pattern α} {s : List α} (h : r.found s.length s = none) :
    r.exec s = none :=
  Option.map_eq_none_iff.1 h

theorem exists_exec {r : Pattern α} {s : List α} (h : r.found s.length s = some g) :
    ∃ m, r.exec s = some m ∧ m.groups = g :=
  Option.map_eq_some_iff.1 h

/-! ### Words -/

section Words

variable [DecidableEq α]

/-- **A word and a gap**, at the beginning of a field or within it. -/
theorem run_word (hsep : p sep = true) (hw : ∀ a ∈ w, p a = false) (hf : ∀ a ∈ f, p a = false)
    (hfs : ∀ f ∈ fs, IsField p f) :
    run n (seqs (lit w :: plus (one p) :: rs)) ⟨f ++ behind sep fs, g⟩ =
      if f = w ∧ fs ≠ [] then run n (seqs rs) ⟨joined sep fs, g⟩ else [] := by
  induction w generalizing f with
  | nil =>
    rw [run_seqs_cons, run_lit_nil, List.flatMap_singleton, run_seqs_cons]
    cases f with
    | nil =>
      rw [List.nil_append, run_plus_behind hsep hfs]
      by_cases hnil : fs = [] <;> simp [hnil]
    | cons b f => simp [run_plus_of_head? (s := b :: (f ++ behind sep fs)) (p := p) (by simpa using hf b)]
  | cons a w ih =>
    have ha := hw a List.mem_cons_self
    rw [run_seqs_cons, run_lit_cons, List.flatMap_assoc]
    cases f with
    | nil =>
      have hne : decide (sep = a) = false :=
        decide_eq_false fun h => Bool.false_ne_true (ha.symm.trans (h ▸ hsep))
      rw [List.nil_append, run_one_of_head? (head?_behind (q := fun x => decide (x = a)) hne)]
      simp
    | cons b f =>
      rw [List.cons_append, run_one_cons]
      by_cases hab : b = a
      · subst hab
        rw [if_pos (decide_eq_true rfl), List.flatMap_singleton, ← run_seqs_cons,
          ih (fun c hc => hw c (List.mem_cons_of_mem b hc)) fun c hc =>
            hf c (List.mem_cons_of_mem b hc)]
        simp
      · rw [if_neg (by simpa using hab), if_neg (by simp [hab])]
        rfl

/-- **A word and a gap are looked for field by field.** -/
theorem found_joined (hsep : p sep = true) (hw : IsField p w) (hf : IsField p f)
    (hfs : ∀ f ∈ fs, IsField p f) :
    (seqs (lit w :: plus (one p) :: rs)).found n (joined sep (f :: fs)) =
      (if w <:+ f ∧ fs ≠ [] then (run n (seqs rs) ⟨joined sep fs, []⟩).head?.map State.groups
        else none).or ((seqs (lit w :: plus (one p) :: rs)).found n (joined sep fs)) := by
  obtain ⟨hne, hword⟩ := hw
  have hbehind : (seqs (lit w :: plus (one p) :: rs)).found n (behind sep fs) =
      (seqs (lit w :: plus (one p) :: rs)).found n (joined sep fs) := by
    rw [behind]
    split_ifs with hnil
    · rw [hnil]
      rfl
    · have hrun : run n (seqs (lit w :: plus (one p) :: rs)) ⟨[] ++ behind sep fs, []⟩ =
          if [] = w ∧ fs ≠ [] then run n (seqs rs) ⟨joined sep fs, []⟩ else [] :=
        run_word hsep hword (fun a ha => absurd ha List.not_mem_nil) hfs
      rw [List.nil_append, if_neg fun h => hne h.1.symm, behind, if_neg hnil] at hrun
      rw [found_cons, hrun]
      rfl
  rw [joined_cons]
  have hchars := hf.2
  clear hf
  induction f with
  | nil =>
    rw [List.nil_append, hbehind, if_neg fun h => hne (List.suffix_nil.1 h.1)]
    rfl
  | cons a f ih =>
    rw [List.cons_append, found_cons, ← List.cons_append, run_word hsep hword hchars hfs,
      ih fun b hb => hchars b (List.mem_cons_of_mem a hb), ← Option.or_assoc]
    congr 1
    by_cases heq : a :: f = w
    · have hnot : ¬w <:+ f := fun h => by
        have := h.length_le
        rw [← heq, List.length_cons] at this
        omega
      have hself : w <:+ a :: f := by rw [heq]
      by_cases hnil : fs = [] <;> simp [heq, hnil, hnot]
    · have hiff : w <:+ a :: f ↔ w <:+ f := by
        rw [List.suffix_cons_iff]
        exact or_iff_right fun h => heq h.symm
      simp [heq, hiff]

/-- Nothing follows the last field. -/
theorem found_last (hsep : p sep = true) (hw : IsField p w) (hf : IsField p f) :
    (seqs (lit w :: plus (one p) :: rs)).found n (joined sep [f]) = none := by
  rw [found_joined hsep hw hf (by simp), if_neg fun h => h.2 rfl, Option.none_or]
  cases w with
  | nil => exact absurd rfl hw.1
  | cons a w => rfl

/-- Fields that do not end in the word are passed over. -/
theorem found_append (hsep : p sep = true) (hw : IsField p w) {fs' : List (List α)}
    (hfs : ∀ f ∈ fs, IsField p f) (hfs' : ∀ f ∈ fs', IsField p f) (h : ∀ f ∈ fs, ¬w <:+ f) :
    (seqs (lit w :: plus (one p) :: rs)).found n (joined sep (fs ++ fs')) =
      (seqs (lit w :: plus (one p) :: rs)).found n (joined sep fs') := by
  induction fs with
  | nil => rfl
  | cons f fs ih =>
    obtain ⟨hf, hfs⟩ := List.forall_mem_cons.1 hfs
    obtain ⟨hnot, h⟩ := List.forall_mem_cons.1 h
    rw [List.cons_append, found_joined hsep hw hf fun f hf => (List.mem_append.1 hf).elim (hfs f)
      (hfs' f), if_neg fun h => hnot h.1, Option.none_or, ih hfs h]

/-- The word is found, and what follows it. -/
theorem found_of_run (hsep : p sep = true) (hw : IsField p w) (hfs : ∀ f ∈ fs, IsField p f)
    (hne : fs ≠ []) {t : State α} (ht : (run n (seqs rs) ⟨joined sep fs, []⟩).head? = some t) :
    (seqs (lit w :: plus (one p) :: rs)).found n (joined sep (w :: fs)) = some t.groups := by
  rw [found_joined hsep hw hw hfs, if_pos ⟨List.suffix_refl w, hne⟩, ht]
  rfl

/-- Behind fields that do not end in it, the word is found, and what follows it. -/
theorem found_append_of_run (hsep : p sep = true) (hw : IsField p w) (fs : List (List α))
    (hfs : ∀ f ∈ fs, IsField p f) (hnot : ∀ f ∈ fs, ¬w <:+ f) {fs' : List (List α)}
    (hfs' : ∀ f ∈ fs', IsField p f) (hne : fs' ≠ []) {t : State α}
    (ht : (run n (seqs rs) ⟨joined sep fs', []⟩).head? = some t) :
    (seqs (lit w :: plus (one p) :: rs)).found n (joined sep (fs ++ w :: fs')) = some t.groups := by
  rw [found_append hsep hw hfs (List.forall_mem_cons.2 ⟨hw, hfs'⟩) hnot]
  exact found_of_run hsep hw hfs' hne ht

/-- A field may end in the word, but what follows it is not matched. -/
theorem found_of_run_nil (hsep : p sep = true) (hw : IsField p w) (hf : IsField p f)
    (hfs : ∀ f ∈ fs, IsField p f) (hrun : run n (seqs rs) ⟨joined sep fs, []⟩ = []) :
    (seqs (lit w :: plus (one p) :: rs)).found n (joined sep (f :: fs)) =
      (seqs (lit w :: plus (one p) :: rs)).found n (joined sep fs) := by
  rw [found_joined hsep hw hf hfs, hrun]
  simp

/-! ### Options -/

/-- A dash, the rest of a field, and the gap behind it. -/
def option (p : α → Bool) (d : α) : Pattern α := seqs [lit [d], plus (one fun a => !p a), plus (one p)]

/-- A field that a pattern of an option skips. -/
def IsOption (d : α) (f : List α) : Prop := f.head? = some d ∧ 2 ≤ f.length

instance (d : α) (f : List α) : Decidable (IsOption d f) :=
  inferInstanceAs (Decidable (f.head? = some d ∧ 2 ≤ f.length))

theorem captures_option (p : α → Bool) (d : α) : (option p d).captures = [] := rfl

theorem run_option (hsep : p sep = true) (hd : p d = false) (hf : IsField p f)
    (hfs : ∀ f ∈ fs, IsField p f) :
    run n (option p d) ⟨joined sep (f :: fs), g⟩ =
      if IsOption d f ∧ fs ≠ [] then [⟨joined sep fs, g⟩] else [] := by
  obtain ⟨hne, hchars⟩ := hf
  rw [joined_cons, option, run_seqs_cons, run_lit_cons]
  cases f with
  | nil => exact absurd rfl hne
  | cons b f =>
    rw [List.cons_append, run_one_cons]
    by_cases hb : b = d
    · subst hb
      rw [if_pos (decide_eq_true rfl), List.flatMap_singleton, run_lit_nil, List.flatMap_singleton,
        run_seqs_cons]
      cases f with
      | nil =>
        rw [List.nil_append, run_plus_of_head? (head?_behind (by simp [hsep])),
          if_neg fun h => by simpa using h.1.2]
        rfl
      | cons c f =>
        have hrest : (run n (plus (one fun a => !p a)) ⟨c :: f ++ behind sep fs, g⟩).flatMap
            (run n (seqs [plus (one p)])) = if fs ≠ [] then [⟨joined sep fs, g⟩] else [] := by
          rw [List.cons_append, run_plus_one_cons,
            if_pos (by simp [hchars c (by simp)]), ← run_star_not_plus (n := n) (g := g) (f := f)
              hsep (fun a ha => hchars a (by simp [ha])) hfs]
          exact List.flatMap_congr fun t _ => run_seqs_singleton _ t
        rw [hrest]
        by_cases hnil : fs = [] <;> simp [hnil, IsOption]
    · rw [if_neg (by simpa using hb), if_neg fun h => hb (by simpa using h.1.1)]
      rfl

/-- **A repetition of options**: it skips as many fields as it can, and tries fewer then. -/
theorem run_options (hsep : p sep = true) (hd : p d = false) (hf : IsField p f)
    (hfs : ∀ f ∈ fs, IsField p f) :
    run n (star (option p d)) ⟨joined sep (f :: fs), g⟩ =
      (if IsOption d f ∧ fs ≠ [] then run n (star (option p d)) ⟨joined sep fs, g⟩ else []) ++
        [⟨joined sep (f :: fs), g⟩] := by
  rw [run_star, captures_option, State.forget_nil, run_option hsep hd hf hfs]
  congr 1
  by_cases hskip : IsOption d f ∧ fs ≠ []
  · have hlength : (joined sep fs).length < (joined sep (f :: fs)).length := by
      rw [joined_cons, behind, if_neg hskip.2, List.length_append, List.length_cons]
      omega
    simp only [if_pos hskip, List.filter_cons, hlength, decide_true, if_true, List.filter_nil,
      List.flatMap_singleton]
  · rw [if_neg hskip, if_neg hskip]
    rfl

/-- The first way to match a repetition of options, a word, and what follows it. -/
def tried (p : α → Bool) (sep d : α) (w : List α) (rs : List (Pattern α)) (n : ℕ)
    (g : List (ℕ × List α)) (fs : List (List α)) : Option (State α) :=
  ((run n (star (option p d)) ⟨joined sep fs, g⟩).flatMap
    (run n (seqs (lit w :: plus (one p) :: rs)))).head?

theorem tried_cons (hsep : p sep = true) (hd : p d = false) (hw : ∀ a ∈ w, p a = false)
    (hf : IsField p f) (hfs : ∀ f ∈ fs, IsField p f) :
    tried p sep d w rs n g (f :: fs) =
      (if IsOption d f ∧ fs ≠ [] then tried p sep d w rs n g fs else none).or
        (if f = w ∧ fs ≠ [] then (run n (seqs rs) ⟨joined sep fs, g⟩).head? else none) := by
  have hword : run n (seqs (lit w :: plus (one p) :: rs)) ⟨f ++ behind sep fs, g⟩ =
      if f = w ∧ fs ≠ [] then run n (seqs rs) ⟨joined sep fs, g⟩ else [] :=
    run_word hsep hw hf.2 hfs
  rw [← joined_cons] at hword
  rw [tried, run_options hsep hd hf hfs, List.flatMap_append, List.head?_append,
    List.flatMap_singleton, hword]
  congr 1
  · split_ifs <;> rfl
  · split_ifs <;> rfl

theorem tried_last (hsep : p sep = true) (hd : p d = false) (hw : ∀ a ∈ w, p a = false)
    (hf : IsField p f) : tried p sep d w rs n g [f] = none := by
  rw [tried_cons hsep hd hw hf (by simp), if_neg fun h => h.2 rfl, if_neg fun h => h.2 rfl]
  rfl

end Words

end Fields

end Pattern
