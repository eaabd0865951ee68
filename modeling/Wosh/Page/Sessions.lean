import Wosh.Lib.CodeUnits
import Wosh.Lib.Pattern
import Wosh.Lib.Shell

set_option relaxedAutoImplicit false
set_option autoImplicit false

/-!
# Session managers

The pure functions of `site/sessions.mjs`: the command lines that are built for a named session of four
tools, the way back from a command line to the tool and the name, and the parsers of what the tools
print.

## Main definitions

* `Sessions.validName` — the names that are put into a command line.
* `Sessions.PRESETS` — the tools, with their command lines and parsers.
* `Sessions.matchCommand` — a command line back to its tool and name.

## Main results

* `Sessions.matchCommand_command` — the way back leads to the tool and the name.
* `Sessions.parseList_ok` — a parser does not throw, and lists valid names only.
* `Sessions.safe_of_mem` — a shell reads a valid name as a piece of one word.
* `Sessions.preset_consistent` — all of this.
-/

namespace Sessions

open CodeUnits

/-! ## Names -/

/-- `[A-Za-z0-9_-]`. -/
def isNameUnit (u : UInt16) : Bool := isWord u || u == 45

/-- `validName`. -/
def validName (s : Option CodeUnits) : Bool :=
  (Pattern.seqs [.start, .between 31 (.one isNameUnit), .finish]).test (s.getD [])

/-! ## Lists -/

/-- What the parsers use of Numbers. -/
structure Numbers where
  Number : Type
  /-- `Number(text)`. -/
  ofText : Option CodeUnits → Number
  isFinite : Number → Bool
  /-- `x > 0`. -/
  isPositive : Number → Bool
  /-- `x * 1000`. -/
  thousandfold : Number → Number

/-- A session that is listed. -/
structure Row (N : Numbers) where
  name : CodeUnits
  attached : Option Bool
  at? : Option N.Number

/-- A value that is not there has no methods. -/
inductive TypeError
  | undefined
deriving DecidableEq

/-- A value that a method is called on. -/
def receiver {α : Type} : Option α → Except TypeError α
  | none => .error .undefined
  | some a => .ok a

/-- `lines`. -/
def lines (text : Option CodeUnits) : List CodeUnits :=
  (((text.getD []).splitOn 10).map fun l =>
    (Pattern.seqs [.lit [13], .finish]).replaceFirst [] l).filter fun l => trim l ≠ []

section Parsers

variable {N : Numbers}

/-- A loop over lines, which may push a row for each. -/
def collect (row : CodeUnits → Except TypeError (Option (Row N))) :
    List CodeUnits → Except TypeError (List (Row N))
  | [] => .ok []
  | line :: rest => do
    let pushed ← row line
    let out ← collect row rest
    return pushed.toList ++ out

variable (N) in
/-- A line of `parseTmuxList`. -/
def tmuxRow (line : CodeUnits) : Except TypeError (Option (Row N)) := do
  let f := line.splitOn 9
  let name := trim (f[0]?.getD [])
  if name = [] ∨ f.length < 2 then return none
  if validName (some name) = false then return none
  let created := N.ofText f[2]?
  let attached ← receiver f[1]?
  return some {
    name := name
    attached := some (trim attached != ofAscii "0")
    at? := if N.isFinite created && N.isPositive created then some (N.thousandfold created) else none }

variable (N) in
/-- `parseTmuxList`. -/
def parseTmuxList (text : Option CodeUnits) : Except TypeError (List (Row N)) :=
  collect (tmuxRow N) (lines text)

variable (N) in
/-- A line of `parseAbducoList`. -/
def abducoRow (line : CodeUnits) : Except TypeError (Option (Row N)) :=
  let tokens := (Pattern.plus (.one isSpace)).split (trim line)
  match tokens.getLast? with
  | none => return none
  | some name =>
    if name = [] ∨ validName (some name) = false then return none
    else return some {
      name := name
      attached := some ((ofAscii "*").isPrefixOf (trimStart line))
      at? := none }

variable (N) in
/-- `parseAbducoList`. -/
def parseAbducoList (text : Option CodeUnits) : Except TypeError (List (Row N)) :=
  -- the first line is the header
  collect (abducoRow N) ((lines text).drop 1)

/-- `/^(.*)\.dtach$/`. -/
def socketPattern : Pattern UInt16 :=
  .seqs [.start, .group 1 (.star (.one fun u => !isLine u)), .lit (ofAscii ".dtach"), .finish]

variable (N) in
/-- A line of `parseDtachList`. -/
def dtachRow (line : CodeUnits) : Except TypeError (Option (Row N)) :=
  match socketPattern.exec (trim line) with
  | none => return none
  | some m =>
    if validName (m.group 1) = false then return none
    else return some { name := (m.group 1).getD [], attached := none, at? := none }

variable (N) in
/-- `parseDtachList`. -/
def parseDtachList (text : Option CodeUnits) : Except TypeError (List (Row N)) :=
  collect (dtachRow N) (lines text)

/-- `/(?:^|\s)\d+\.(\S+)/`. -/
def pidPattern : Pattern UInt16 :=
  .seqs [.alt .start (.one isSpace), .plus (.one isDigit), .lit (ofAscii "."),
    .group 1 (.plus (.one fun u => !isSpace u))]

/-- A literal, in small letters or capital ones. -/
def anyCase (s : String) : Pattern UInt16 :=
  .seqs ((ofAscii s).map fun u => .one fun v => lower v == lower u)

/-- `/\((Attached|Detached|Multi,\s*attached|Multi,\s*detached)\)/gi`. -/
def statePattern : Pattern UInt16 :=
  .seqs [.lit (ofAscii "("),
    .group 1 (.alt (anyCase "Attached") (.alt (anyCase "Detached")
      (.alt (.seqs [anyCase "Multi,", .star (.one isSpace), anyCase "attached"])
        (.seqs [anyCase "Multi,", .star (.one isSpace), anyCase "detached"])))),
    .lit (ofAscii ")")]

variable (N) in
/-- A line of `parseScreenList`. -/
def screenRow (line : CodeUnits) : Except TypeError (Option (Row N)) :=
  match pidPattern.exec line with
  | none => return none
  | some m => do
    let states := statePattern.matchAll line
    if states.length = 0 then return none
    let last ← receiver states[states.length - 1]?
    let state := toLowerCase (← receiver (last.group 1))
    if validName (m.group 1) = false then return none
    return some {
      name := (m.group 1).getD []
      attached := some (decide (ofAscii "attached" <:+: state))
      at? := none }

variable (N) in
/-- `parseScreenList`. -/
def parseScreenList (text : Option CodeUnits) : Except TypeError (List (Row N)) :=
  collect (screenRow N) (lines text)

end Parsers

/-! ## Presets -/

/-- A session manager. -/
structure Preset (N : Numbers) where
  id : String
  command : CodeUnits → CodeUnits
  parseList : Option CodeUnits → Except TypeError (List (Row N))

variable (N : Numbers)

def dtach : Preset N where
  id := "dtach"
  command name :=
    ofAscii "mkdir -p \"$HOME/.wosh\" && exec dtach -A \"$HOME/.wosh/" ++ name ++
      ofAscii ".dtach\" -r winch \"$SHELL\""
  parseList := parseDtachList N

def abduco : Preset N where
  id := "abduco"
  command name := ofAscii "exec abduco -A " ++ name ++ ofAscii " \"$SHELL\""
  parseList := parseAbducoList N

def tmux : Preset N where
  id := "tmux"
  command name := ofAscii "exec tmux new-session -A -D -s " ++ name
  parseList := parseTmuxList N

def screen : Preset N where
  id := "screen"
  command name := ofAscii "exec screen -D -R -S " ++ name
  parseList := parseScreenList N

def PRESETS : List (Preset N) := [dtach N, abduco N, tmux N, screen N]

/-- `presetById`. -/
def presetById (id : String) : Option (Preset N) := (PRESETS N).find? (·.id == id)

/-! ## The way back -/

/-- `([A-Za-z0-9_-]+)`. -/
def nameGroup : Pattern UInt16 := .group 1 (.plus (.one isNameUnit))

/-- `\s+`. -/
def gap : Pattern UInt16 := .plus (.one isSpace)

/-- `(?:-\S+\s+)*`. -/
def options : Pattern UInt16 :=
  .star (.seqs [.lit (ofAscii "-"), .plus (.one fun u => !isSpace u), gap])

/-- `/dtach\s+-A\s+"?\$HOME\/\.wosh\/([A-Za-z0-9_-]+)\.dtach/`. -/
def dtachPattern : Pattern UInt16 :=
  .seqs [.lit (ofAscii "dtach"), gap, .lit (ofAscii "-A"), gap, .opt (.lit (ofAscii "\"")),
    .lit (ofAscii "$HOME/.wosh/"), nameGroup, .lit (ofAscii ".dtach")]

/-- `/abduco\s+(?:-\S+\s+)*-A\s+([A-Za-z0-9_-]+)/`. -/
def abducoPattern : Pattern UInt16 :=
  .seqs [.lit (ofAscii "abduco"), gap, options, .lit (ofAscii "-A"), gap, nameGroup]

/-- `/tmux\s+new(?:-session)?\s+(?:-\S+\s+)*-s\s+([A-Za-z0-9_-]+)/`. -/
def tmuxPattern : Pattern UInt16 :=
  .seqs [.lit (ofAscii "tmux"), gap, .lit (ofAscii "new"), .opt (.lit (ofAscii "-session")), gap,
    options, .lit (ofAscii "-s"), gap, nameGroup]

/-- `/screen\s+(?:-\S+\s+)*-S\s+([A-Za-z0-9_-]+)/`. -/
def screenPattern : Pattern UInt16 :=
  .seqs [.lit (ofAscii "screen"), gap, options, .lit (ofAscii "-S"), gap, nameGroup]

def MATCHERS : List (String × Pattern UInt16) :=
  [("dtach", dtachPattern), ("abduco", abducoPattern), ("tmux", tmuxPattern),
    ("screen", screenPattern)]

/-- What a command line is understood as. -/
structure Matched where
  preset : Option (Preset N)
  name : CodeUnits

/-- `matchCommand`. -/
def matchCommand (command : Option CodeUnits) : Option (Matched N) :=
  let s := command.getD []
  if trim s = [] then none
  else
    MATCHERS.findSome? fun (id, re) =>
      match re.exec s with
      | none => none
      | some m =>
        if validName (m.group 1) then some ⟨presetById N id, (m.group 1).getD []⟩ else none

/-! ## Names -/

theorem validName_iff {s : CodeUnits} :
    validName (some s) = true ↔ s ≠ [] ∧ s.length ≤ 32 ∧ ∀ u ∈ s, isNameUnit u = true :=
  Pattern.test_between 31 isNameUnit s

/-! ## The parsers do not throw -/

section Parsers

variable {N : Numbers}

/-- A line that is read without throwing, into a row of a valid name if at all. -/
def Reads (row : Except TypeError (Option (Row N))) : Prop :=
  ∃ o, row = .ok o ∧ ∀ r ∈ o, validName (some r.name) = true

theorem reads_none : Reads (N := N) (.ok none) := ⟨none, rfl, by simp⟩

theorem reads_some {r : Row N} (h : validName (some r.name) = true) : Reads (.ok (some r)) :=
  ⟨some r, rfl, by simpa using h⟩

theorem collect_ok {row : CodeUnits → Except TypeError (Option (Row N))} (h : ∀ line, Reads (row line))
    (rest : List CodeUnits) :
    ∃ rows, collect row rest = .ok rows ∧ ∀ r ∈ rows, validName (some r.name) = true := by
  induction rest with
  | nil => exact ⟨[], rfl, by simp⟩
  | cons line rest ih =>
    obtain ⟨o, ho, hvalid⟩ := h line
    obtain ⟨rows, hrows, hrest⟩ := ih
    refine ⟨o.toList ++ rows, by rw [collect, ho, hrows]; rfl, fun r hr => ?_⟩
    obtain hr | hr := List.mem_append.1 hr
    · exact hvalid r (Option.mem_toList.1 hr)
    · exact hrest r hr

theorem tmuxRow_reads (line : CodeUnits) : Reads (tmuxRow N line) := by
  rw [tmuxRow]
  dsimp only
  split
  · exact reads_none
  next hshort =>
    split
    · exact reads_none
    next hvalid =>
      have hlength : 1 < (line.splitOn 9).length := by
        by_contra hle
        exact hshort (.inr (by omega))
      rw [List.getElem?_eq_getElem hlength]
      exact reads_some (Bool.not_eq_false _ ▸ hvalid)

theorem abducoRow_reads (line : CodeUnits) : Reads (abducoRow N line) := by
  rw [abducoRow]
  split
  · exact reads_none
  · split
    · exact reads_none
    next hvalid => exact reads_some (by simpa using fun h => hvalid (.inr h))

/-- A name that is valid is there. -/
theorem exists_of_validName {s : Option CodeUnits} (h : validName s = true) :
    ∃ name, s = some name ∧ validName (some name) = true := by
  cases s with
  | none => exact absurd h (by decide)
  | some name => exact ⟨name, rfl, h⟩

theorem dtachRow_reads (line : CodeUnits) : Reads (dtachRow N line) := by
  rw [dtachRow]
  split
  · exact reads_none
  next m hm =>
    split_ifs with hvalid
    · exact reads_none
    · obtain ⟨name, hname, hvalid⟩ := exists_of_validName (Bool.not_eq_false _ ▸ hvalid)
      rw [hname]
      exact reads_some hvalid

/-- A state is captured. -/
theorem isSome_group_of_mem_matchAll {line : CodeUnits} {m : Pattern.Match UInt16}
    (hm : m ∈ statePattern.matchAll line) : (m.group 1).isSome = true := by
  obtain ⟨n, s, hfirst⟩ := Pattern.exists_first_of_mem_matchAll hm
  obtain ⟨u, hu, rfl⟩ := Option.map_eq_some_iff.1 hfirst
  obtain ⟨v, -, hv⟩ := List.mem_flatMap.1 (List.mem_of_head? hu)
  exact Pattern.isSome_lookup_of_mem_run rfl hv

theorem screenRow_reads (line : CodeUnits) : Reads (screenRow N line) := by
  rw [screenRow]
  split
  · exact reads_none
  next m hm =>
    dsimp only
    split
    · exact reads_none
    next hstates =>
      have hlast : (statePattern.matchAll line).length - 1 < (statePattern.matchAll line).length := by
        omega
      obtain ⟨state, hstate⟩ :=
        Option.isSome_iff_exists.1 (isSome_group_of_mem_matchAll (List.getElem_mem hlast))
      rw [List.getElem?_eq_getElem hlast]
      simp only [receiver, bind, Except.bind, hstate]
      split
      · exact reads_none
      next hvalid =>
        obtain ⟨name, hname, hvalid⟩ := exists_of_validName (Bool.not_eq_false _ ▸ hvalid)
        rw [hname]
        exact reads_some hvalid

/-- **A parser does not throw**, and every name that it lists is valid. -/
theorem parseList_ok {preset : Preset N} (hpreset : preset ∈ PRESETS N) (text : Option CodeUnits) :
    ∃ rows, preset.parseList text = .ok rows ∧ ∀ r ∈ rows, validName (some r.name) = true := by
  simp only [PRESETS, List.mem_cons, List.not_mem_nil, or_false] at hpreset
  obtain rfl | rfl | rfl | rfl := hpreset
  · exact collect_ok dtachRow_reads _
  · exact collect_ok abducoRow_reads _
  · exact collect_ok tmuxRow_reads _
  · exact collect_ok screenRow_reads _

end Parsers

/-! ## Fields of a command line -/

theorem isSpace_space : isSpace 32 = true := by decide

theorem isSpace_dash : isSpace 45 = false := by decide

theorem isAscii_of_isNameUnit {u : UInt16} (h : isNameUnit u = true) : isAscii u = true := by
  rw [isNameUnit, Bool.or_eq_true] at h
  obtain h | h := h
  · exact isAscii_of_isWord h
  · rw [beq_iff_eq.1 h]
    decide

theorem isSpace_of_isNameUnit {u : UInt16} (h : isNameUnit u = true) : isSpace u = false := by
  have hu := forall_ascii (fun u => !isNameUnit u || !isSpace u) (by decide)
    (isAscii_of_isNameUnit h)
  simpa [h] using hu

section Fields

open Pattern

variable {n : CodeUnits}

theorem isField_of_validName (h : validName (some n) = true) : IsField isSpace n := by
  obtain ⟨hne, -, hunits⟩ := validName_iff.1 h
  exact ⟨hne, fun u hu => isSpace_of_isNameUnit (hunits u hu)⟩

/-- The name is the next field, and is captured. -/
theorem head?_run_nameGroup (h : validName (some n) = true) (k : ℕ) (fs : List CodeUnits) :
    (run k (seqs [nameGroup]) ⟨joined 32 (n :: fs), []⟩).head? =
      some ⟨behind 32 fs, [(1, n)]⟩ := by
  obtain ⟨hne, -, hunits⟩ := validName_iff.1 h
  rw [joined_cons]
  exact head?_run_capture hne hunits (head?_behind (by decide)) rfl

theorem head?_run_options (w : CodeUnits) (k : ℕ) (fs : List CodeUnits) :
    (run k (seqs [options, .lit w, gap, nameGroup]) ⟨joined 32 fs, []⟩).head? =
      tried isSpace 32 45 w [nameGroup] k [] fs := by
  have hoptions : options = .star (option isSpace 45) := rfl
  rw [run_seqs_cons, hoptions, tried, gap]

/-- Options up to the word, the word and the name. -/
theorem tried_name (h : validName (some n) = true) {w : CodeUnits} (hw : IsField isSpace w)
    {k : ℕ} {fs : List CodeUnits} (hfs : ∀ f ∈ fs, IsField isSpace f)
    (hnone : tried isSpace 32 45 w [nameGroup] k [] (n :: fs) = none) :
    tried isSpace 32 45 w [nameGroup] k [] (w :: n :: fs) = some ⟨behind 32 fs, [(1, n)]⟩ := by
  have hfields : ∀ f ∈ n :: fs, IsField isSpace f :=
    List.forall_mem_cons.2 ⟨isField_of_validName h, hfs⟩
  rw [tried_cons isSpace_space isSpace_dash hw.2 hw hfields, hnone, ite_self, Option.none_or,
    if_pos ⟨rfl, List.cons_ne_nil _ _⟩, head?_run_nameGroup h]

/-- Nothing can be missed where the name is the last field. -/
theorem tried_name_last (h : validName (some n) = true) {w : CodeUnits} (hw : IsField isSpace w)
    (k : ℕ) : tried isSpace 32 45 w [nameGroup] k [] [w, n] = some ⟨[], [(1, n)]⟩ :=
  tried_name h hw (by simp) (tried_last isSpace_space isSpace_dash hw.2 (isField_of_validName h))

theorem tried_skip {w f f' : CodeUnits} {k : ℕ} {fs : List CodeUnits} {t : State UInt16}
    (hw : IsField isSpace w) (hf : IsField isSpace f) (hoption : IsOption 45 f)
    (hfs : ∀ f ∈ f' :: fs, IsField isSpace f)
    (ht : tried isSpace 32 45 w [nameGroup] k [] (f' :: fs) = some t) :
    tried isSpace 32 45 w [nameGroup] k [] (f :: f' :: fs) = some t := by
  rw [tried_cons isSpace_space isSpace_dash hw.2 hf hfs,
    if_pos ⟨hoption, List.cons_ne_nil _ _⟩, ht]
  rfl

/-! ### The command lines as fields -/

/-- The path of a socket, in quotes. -/
def socket (n : CodeUnits) : CodeUnits := ofAscii "\"$HOME/.wosh/" ++ n ++ ofAscii ".dtach\""

theorem dtach_command (n : CodeUnits) :
    (dtach N).command n =
      joined 32 [ofAscii "mkdir", ofAscii "-p", ofAscii "\"$HOME/.wosh\"", ofAscii "&&",
        ofAscii "exec", ofAscii "dtach", ofAscii "-A", socket n, ofAscii "-r", ofAscii "winch",
        ofAscii "\"$SHELL\""] := by
  simp only [joined, List.intercalate, List.intersperse, List.flatten_cons, List.flatten_nil,
    List.append_nil, List.append_assoc, dtach, socket]
  rfl

theorem abduco_command (n : CodeUnits) :
    (abduco N).command n =
      joined 32 [ofAscii "exec", ofAscii "abduco", ofAscii "-A", n, ofAscii "\"$SHELL\""] := rfl

theorem tmux_command (n : CodeUnits) :
    (tmux N).command n =
      joined 32 [ofAscii "exec", ofAscii "tmux", ofAscii "new-session", ofAscii "-A", ofAscii "-D",
        ofAscii "-s", n] := by
  simp only [joined, List.intercalate, List.intersperse, List.flatten_cons, List.flatten_nil,
    List.append_nil, tmux]
  rfl

theorem screen_command (n : CodeUnits) :
    (screen N).command n =
      joined 32 [ofAscii "exec", ofAscii "screen", ofAscii "-D", ofAscii "-R", ofAscii "-S", n] := by
  simp only [joined, List.intercalate, List.intersperse, List.flatten_cons, List.flatten_nil,
    List.append_nil, screen]
  rfl

/-! ### Other tools do not match -/

theorem forall_isField (h : validName (some n) = true) {fs : List CodeUnits}
    (hfs : ∀ f ∈ fs, IsField isSpace f) : ∀ f ∈ n :: fs, IsField isSpace f :=
  List.forall_mem_cons.2 ⟨isField_of_validName h, hfs⟩

/-- The word of a tool ends no field but the last one, which is the name. -/
theorem found_eq_none (h : validName (some n) = true) {w : CodeUnits} (hw : IsField isSpace w)
    {k : ℕ} {rs : List (Pattern UInt16)} {fs : List CodeUnits} (hfs : ∀ f ∈ fs, IsField isSpace f)
    (hnot : ∀ f ∈ fs, ¬w <:+ f) :
    (seqs (.lit w :: gap :: rs)).found k (joined 32 (fs ++ [n])) = none := by
  rw [gap, found_append isSpace_space hw hfs (forall_isField h (by simp)) hnot]
  exact found_last isSpace_space hw (isField_of_validName h)

/-- The name may end like the word of `dtach`, but no option follows it. -/
theorem found_dtach_abduco (h : validName (some n) = true) (k : ℕ) :
    dtachPattern.found k ((abduco N).command n) = none := by
  have hw : IsField isSpace (ofAscii "dtach") := by decide
  have hquote : IsField isSpace (ofAscii "\"$SHELL\"") := by decide
  have hrun : run k (seqs [.lit (ofAscii "-A"), gap, .opt (.lit (ofAscii "\"")),
      .lit (ofAscii "$HOME/.wosh/"), nameGroup, .lit (ofAscii ".dtach")])
      ⟨joined 32 [ofAscii "\"$SHELL\""], []⟩ = [] := rfl
  rw [abduco_command]
  calc dtachPattern.found k (joined 32
        ([ofAscii "exec", ofAscii "abduco", ofAscii "-A"] ++ [n, ofAscii "\"$SHELL\""]))
      = dtachPattern.found k (joined 32 [n, ofAscii "\"$SHELL\""]) :=
        found_append isSpace_space hw (by decide) (forall_isField h (by simpa using hquote))
          (by decide)
    _ = dtachPattern.found k (joined 32 [ofAscii "\"$SHELL\""]) :=
        found_of_run_nil isSpace_space hw (isField_of_validName h) (by simpa using hquote) hrun
    _ = none := found_last isSpace_space hw hquote

/-! ### A tool matches its own command line -/

theorem found_abduco (h : validName (some n) = true) (k : ℕ) :
    abducoPattern.found k ((abduco N).command n) = some [(1, n)] := by
  have hw : IsField isSpace (ofAscii "abduco") := by decide
  have hoption : IsField isSpace (ofAscii "-A") := by decide
  have hquote : IsField isSpace (ofAscii "\"$SHELL\"") := by decide
  have hfields : ∀ f ∈ [n, ofAscii "\"$SHELL\""], IsField isSpace f :=
    forall_isField h (by simpa using hquote)
  -- a name that is an option itself, or `-A`, leaves nothing that could be the name
  have hnone : tried isSpace 32 45 (ofAscii "-A") [nameGroup] k [] [n, ofAscii "\"$SHELL\""] =
      none := by
    have hrun : run k (seqs [nameGroup]) ⟨joined 32 [ofAscii "\"$SHELL\""], []⟩ = [] := rfl
    rw [tried_cons isSpace_space isSpace_dash hoption.2 (isField_of_validName h)
      (by simpa using hquote), tried_last isSpace_space isSpace_dash hoption.2 hquote, hrun]
    simp
  have ht := tried_name h hoption (by simpa using hquote) hnone
  rw [abduco_command]
  exact found_append_of_run isSpace_space hw [ofAscii "exec"] (by decide) (by decide)
    (List.forall_mem_cons.2 ⟨hoption, hfields⟩) (List.cons_ne_nil _ _)
    ((head?_run_options _ k _).trans ht)

theorem found_screen (h : validName (some n) = true) (k : ℕ) :
    screenPattern.found k ((screen N).command n) = some [(1, n)] := by
  have hw : IsField isSpace (ofAscii "screen") := by decide
  have hoption : IsField isSpace (ofAscii "-S") := by decide
  have hd : IsField isSpace (ofAscii "-D") := by decide
  have hr : IsField isSpace (ofAscii "-R") := by decide
  have hname : ∀ f ∈ [n], IsField isSpace f := forall_isField h (by simp)
  have hs := List.forall_mem_cons.2 ⟨hoption, hname⟩
  have hrs := List.forall_mem_cons.2 ⟨hr, hs⟩
  have hdrs := List.forall_mem_cons.2 ⟨hd, hrs⟩
  have ht : tried isSpace 32 45 (ofAscii "-S") [nameGroup] k []
      [ofAscii "-D", ofAscii "-R", ofAscii "-S", n] = some ⟨[], [(1, n)]⟩ := by
    refine tried_skip hoption hd (by decide) hrs ?_
    refine tried_skip hoption hr (by decide) hs ?_
    exact tried_name_last h hoption k
  rw [screen_command]
  exact found_append_of_run isSpace_space hw [ofAscii "exec"] (by decide) (by decide) hdrs
    (List.cons_ne_nil _ _) ((head?_run_options _ k _).trans ht)

/-- `new-session`, of which `-session` may be missing. -/
theorem run_new_session (k : ℕ) (rs : List (Pattern UInt16)) {fs : List CodeUnits}
    (hfs : ∀ f ∈ fs, IsField isSpace f) (hne : fs ≠ []) :
    run k (seqs (.lit (ofAscii "new") :: .opt (.lit (ofAscii "-session")) :: gap :: rs))
      ⟨joined 32 (ofAscii "new-session" :: fs), []⟩ = run k (seqs rs) ⟨joined 32 fs, []⟩ := by
  have hsplit : ofAscii "new-session" ++ behind 32 fs =
      ofAscii "new" ++ (ofAscii "-session" ++ behind 32 fs) := rfl
  have hdash : run k gap ⟨ofAscii "-session" ++ behind 32 fs, []⟩ = [] := rfl
  have hgap : run k gap ⟨behind 32 fs, []⟩ = [⟨joined 32 fs, []⟩] := by
    rw [gap, run_plus_behind isSpace_space hfs, if_pos hne]
  rw [joined_cons, hsplit, run_seqs_cons, run_lit_append, List.flatMap_singleton, run_seqs_cons,
    run_opt_lit (by decide), List.flatMap_cons, List.flatMap_singleton, run_seqs_cons, run_seqs_cons,
    hgap, hdash]
  simp

theorem found_tmux (h : validName (some n) = true) (k : ℕ) :
    tmuxPattern.found k ((tmux N).command n) = some [(1, n)] := by
  have hw : IsField isSpace (ofAscii "tmux") := by decide
  have hnew : IsField isSpace (ofAscii "new-session") := by decide
  have hoption : IsField isSpace (ofAscii "-s") := by decide
  have ha : IsField isSpace (ofAscii "-A") := by decide
  have hd : IsField isSpace (ofAscii "-D") := by decide
  have hname : ∀ f ∈ [n], IsField isSpace f := forall_isField h (by simp)
  have hs := List.forall_mem_cons.2 ⟨hoption, hname⟩
  have hds := List.forall_mem_cons.2 ⟨hd, hs⟩
  have hads := List.forall_mem_cons.2 ⟨ha, hds⟩
  have hnads := List.forall_mem_cons.2 ⟨hnew, hads⟩
  have ht : tried isSpace 32 45 (ofAscii "-s") [nameGroup] k []
      [ofAscii "-A", ofAscii "-D", ofAscii "-s", n] = some ⟨[], [(1, n)]⟩ := by
    refine tried_skip hoption ha (by decide) hds ?_
    refine tried_skip hoption hd (by decide) hs ?_
    exact tried_name_last h hoption k
  have hrun := (congrArg List.head? (run_new_session k _ hads (List.cons_ne_nil _ _))).trans
    ((head?_run_options _ k _).trans ht)
  rw [tmux_command]
  exact found_append_of_run isSpace_space hw [ofAscii "exec"] (by decide) (by decide) hnads
    (List.cons_ne_nil _ _) hrun

theorem isField_socket (h : validName (some n) = true) : IsField isSpace (socket n) := by
  have hleft : IsField isSpace (ofAscii "\"$HOME/.wosh/") := by decide
  have hright : IsField isSpace (ofAscii ".dtach\"") := by decide
  refine ⟨by simp [socket, hleft.1], fun u hu => ?_⟩
  obtain hu | hu := List.mem_append.1 hu
  · exact (List.mem_append.1 hu).elim (hleft.2 u) ((isField_of_validName h).2 u)
  · exact hright.2 u hu

theorem head?_run_socket (h : validName (some n) = true) (k : ℕ) (fs : List CodeUnits) :
    (run k (seqs [.opt (.lit (ofAscii "\"")), .lit (ofAscii "$HOME/.wosh/"), nameGroup,
      .lit (ofAscii ".dtach")]) ⟨joined 32 (socket n :: fs), []⟩).head? =
      some ⟨ofAscii "\"" ++ behind 32 fs, [(1, n)]⟩ := by
  obtain ⟨hne, -, hunits⟩ := validName_iff.1 h
  have htext : joined 32 (socket n :: fs) =
      ofAscii "\"" ++ (ofAscii "$HOME/.wosh/" ++
        (n ++ (ofAscii ".dtach" ++ (ofAscii "\"" ++ behind 32 fs)))) := by
    rw [joined_cons, socket, List.append_assoc, List.append_assoc]
    rfl
  rw [htext, run_seqs_cons, run_opt_lit (by decide)]
  refine head?_flatMap_cons ?_
  rw [run_seqs_cons, run_lit_append, List.flatMap_singleton]
  refine head?_run_capture hne hunits (fun u hu => ?_) ?_
  · obtain rfl : (46 : UInt16) = u := Option.some.inj hu
    decide
  · rw [run_seqs_singleton, run_lit_append]
    rfl

theorem found_dtach (h : validName (some n) = true) (k : ℕ) :
    dtachPattern.found k ((dtach N).command n) = some [(1, n)] := by
  have hw : IsField isSpace (ofAscii "dtach") := by decide
  have ha : IsField isSpace (ofAscii "-A") := by decide
  let fs := [ofAscii "-r", ofAscii "winch", ofAscii "\"$SHELL\""]
  have htail : ∀ f ∈ fs, IsField isSpace f := by decide
  have hsocket := List.forall_mem_cons.2 ⟨isField_socket h, htail⟩
  have hfields := List.forall_mem_cons.2 ⟨ha, hsocket⟩
  have hrun : (run k (seqs [.lit (ofAscii "-A"), gap, .opt (.lit (ofAscii "\"")),
      .lit (ofAscii "$HOME/.wosh/"), nameGroup, .lit (ofAscii ".dtach")])
      ⟨joined 32 (ofAscii "-A" :: socket n :: fs), []⟩).head? =
        some ⟨ofAscii "\"" ++ behind 32 fs, [(1, n)]⟩ := by
    rw [joined_cons, gap, run_word isSpace_space ha.2 ha.2 hsocket,
      if_pos ⟨rfl, List.cons_ne_nil _ _⟩]
    exact head?_run_socket h k fs
  rw [dtach_command]
  exact found_append_of_run isSpace_space hw
    [ofAscii "mkdir", ofAscii "-p", ofAscii "\"$HOME/.wosh\"", ofAscii "&&", ofAscii "exec"]
    (by decide) (by decide) hfields (List.cons_ne_nil _ _) hrun

/-! ### The way back -/

/-- The first pattern that matches captures a valid name. -/
theorem matchCommand_of_found {s : CodeUnits} {id : String} {re : Pattern UInt16}
    (before : List (String × Pattern UInt16)) {after : List (String × Pattern UInt16)}
    (hM : MATCHERS = before ++ (id, re) :: after)
    (hbefore : ∀ m ∈ before, m.2.found s.length s = none)
    (hfound : re.found s.length s = some [(1, n)]) (h : validName (some n) = true)
    (hs : trim s ≠ []) : matchCommand N (some s) = some ⟨presetById N id, n⟩ := by
  obtain ⟨m, hm, hgroups⟩ := exists_exec hfound
  have hgroup : m.group 1 = some n := by
    rw [Match.group, hgroups]
    rfl
  have hnone : before.findSome? (fun (id, re) =>
      match re.exec s with
      | none => none
      | some m =>
        if validName (m.group 1) then some (⟨presetById N id, (m.group 1).getD []⟩ : Matched N)
        else none) = none := by
    refine List.findSome?_eq_none_iff.2 fun m hm => ?_
    dsimp only
    rw [exec_eq_none (hbefore m hm)]
  rw [matchCommand, Option.getD_some, if_neg hs, hM, List.findSome?_append, hnone, Option.none_or,
    List.findSome?_cons]
  simp only [hm, hgroup, h, if_true, Option.getD_some]

/-- **The way back** leads from a command line to its tool and the name. -/
theorem matchCommand_command {preset : Preset N} (hpreset : preset ∈ PRESETS N)
    (h : validName (some n) = true) :
    matchCommand N (some (preset.command n)) = some ⟨some preset, n⟩ := by
  simp only [PRESETS, List.mem_cons, List.not_mem_nil, or_false] at hpreset
  have hd : IsField isSpace (ofAscii "dtach") := by decide
  have ha : IsField isSpace (ofAscii "abduco") := by decide
  have ht : IsField isSpace (ofAscii "tmux") := by decide
  have htmux : ∀ f ∈ [ofAscii "exec", ofAscii "tmux", ofAscii "new-session", ofAscii "-A",
      ofAscii "-D", ofAscii "-s"], IsField isSpace f := by decide
  have hscreen : ∀ f ∈ [ofAscii "exec", ofAscii "screen", ofAscii "-D", ofAscii "-R", ofAscii "-S"],
      IsField isSpace f := by decide
  have hexec (s : CodeUnits) : trim (ofAscii "exec" ++ s) ≠ [] :=
    trim_ne_nil (u := 101) (by simp [ofAscii]) (by decide)
  obtain rfl | rfl | rfl | rfl := hpreset
  · exact matchCommand_of_found N [] rfl (by simp) (found_dtach N h _) h
      (trim_ne_nil (u := 109) (by simp [dtach, ofAscii]) (by decide))
  · refine matchCommand_of_found N [_] rfl ?_ (found_abduco N h _) h (hexec _)
    simpa using found_dtach_abduco N h _
  · refine matchCommand_of_found N [_, _] rfl ?_ (found_tmux N h _) h (hexec _)
    rw [tmux_command]
    exact List.forall_mem_cons.2 ⟨found_eq_none h hd htmux (by decide),
      List.forall_mem_singleton.2 (found_eq_none h ha htmux (by decide))⟩
  · refine matchCommand_of_found N [_, _, _] rfl ?_ (found_screen N h _) h (hexec _)
    rw [screen_command]
    exact List.forall_mem_cons.2 ⟨found_eq_none h hd hscreen (by decide),
      List.forall_mem_cons.2 ⟨found_eq_none h ha hscreen (by decide),
        List.forall_mem_singleton.2 (found_eq_none h ht hscreen (by decide))⟩⟩

end Fields

/-! ## What a shell makes of a name -/

section Words

variable {n : CodeUnits}

theorem isAscii_of_validName (h : validName (some n) = true) : ∀ u ∈ n, isAscii u = true :=
  fun u hu => isAscii_of_isNameUnit ((validName_iff.1 h).2.2 u hu)

/-- A name has no mark of the shell. -/
theorem isOrdinary_of_validName (h : validName (some n) = true) :
    ∀ c ∈ chars n, Shell.isOrdinary c = true := by
  intro c hc
  rw [chars_eq_map (isAscii_of_validName h)] at hc
  obtain ⟨u, hu, rfl⟩ := List.mem_map.1 hc
  have hcheck := forall_ascii (fun u => !isNameUnit u || Shell.isOrdinary (Char.ofNat u.toNat))
    (by decide) (isAscii_of_validName h u hu)
  simpa [(validName_iff.1 h).2.2 u hu] using hcheck

theorem chars_ne_nil (h : validName (some n) = true) : chars n ≠ [] := by
  rw [chars_eq_map (isAscii_of_validName h)]
  exact fun hnil => (validName_iff.1 h).1 (List.map_eq_nil_iff.1 hnil)

/-- A name is a word of its own. -/
theorem tokens_name (h : validName (some n) = true) {a : CodeUnits} {ts : List Shell.Token}
    (hascii : ∀ u ∈ a, isAscii u = true) (ha : Shell.lex {} (chars a) = some ({}, ts))
    (rest : CodeUnits) :
    Shell.tokens (chars (a ++ (n ++ rest))) =
      (Shell.tokensFrom ⟨[], .nothing, some ((chars n).map fun c => (c, .plain))⟩ (chars rest)).map
        (ts ++ ·) := by
  rw [chars_append_eq hascii, chars_append_eq (isAscii_of_validName h), Shell.tokens,
    Shell.tokensFrom_append ha,
    Shell.tokensFrom_append (Shell.lex_word (chars_ne_nil h) (isOrdinary_of_validName h))]
  simp

/-- A name stays in the word that it is put into: what comes before it and after it, in this word and in
others, is the same for all names. -/
def Safe (preset : Preset N) : Prop :=
  ∃ (before after : List Shell.Token) (left right : Shell.Word) (q : Shell.Quoting),
    ∀ n, validName (some n) = true → Shell.tokens (chars (preset.command n)) =
      some (before ++ .word (left ++ (chars n).map (fun c => (c, q)) ++ right) :: after)

/-- What a text is read as, where it leads to a state. -/
theorem exists_lex {a : CodeUnits} {st : Shell.State}
    (h : (Shell.lex {} (chars a)).map Prod.fst = some st) :
    ∃ ts, Shell.lex {} (chars a) = some (st, ts) := by
  obtain ⟨⟨st', ts⟩, hlex, rfl⟩ := Option.map_eq_some_iff.1 h
  exact ⟨ts, hlex⟩

/-- A name at the end of a command line. -/
theorem safe_of_last {preset : Preset N} {a : CodeUnits} (hascii : ∀ u ∈ a, isAscii u = true)
    (ha : (Shell.lex {} (chars a)).map Prod.fst = some {})
    (hcommand : ∀ n, preset.command n = a ++ n) : Safe N preset := by
  obtain ⟨ts, hts⟩ := exists_lex ha
  refine ⟨ts, [], [], [], .plain, fun n h => ?_⟩
  have htokens := tokens_name h hascii hts []
  rw [List.append_nil] at htokens
  rw [hcommand, htokens, chars, Shell.tokensFrom_nil]
  simp

theorem safe_tmux : Safe N (tmux N) :=
  safe_of_last N (List.all_eq_true.1 (by decide)) (by decide) fun _ => rfl

theorem safe_screen : Safe N (screen N) :=
  safe_of_last N (List.all_eq_true.1 (by decide)) (by decide) fun _ => rfl

theorem safe_abduco : Safe N (abduco N) := by
  have hascii : ∀ u ∈ ofAscii "exec abduco -A ", isAscii u = true :=
    List.all_eq_true.1 (by decide)
  obtain ⟨ts, hts⟩ : ∃ ts, Shell.lex {} (chars (ofAscii "exec abduco -A ")) = some ({}, ts) :=
    exists_lex (by decide)
  have hrest : chars (ofAscii " \"$SHELL\"") = ' ' :: "\"$SHELL\"".toList := by decide
  obtain ⟨after, hafter⟩ := Option.isSome_iff_exists.1
    (show (Shell.tokens "\"$SHELL\"".toList).isSome = true by decide)
  refine ⟨ts, after, [], [], .plain, fun n h => ?_⟩
  have htokens := tokens_name h hascii hts (ofAscii " \"$SHELL\"")
  rw [hrest, Shell.tokensFrom_blank, hafter, ← List.append_assoc] at htokens
  rw [abduco, htokens]
  simp

/-- Within double quotes, the name stays between the path and the suffix. -/
theorem safe_dtach : Safe N (dtach N) := by
  have hascii : ∀ u ∈ ofAscii "mkdir -p \"$HOME/.wosh\" && exec dtach -A \"$HOME/.wosh/",
      isAscii u = true := List.all_eq_true.1 (by decide)
  obtain ⟨ts, hts⟩ : ∃ ts,
      Shell.lex {} (chars (ofAscii "mkdir -p \"$HOME/.wosh\" && exec dtach -A \"$HOME/.wosh/")) =
        some (⟨[.double], .nothing, some ("$HOME/.wosh/".toList.map fun c => (c, .double))⟩, ts) :=
    exists_lex (by decide)
  have hrest : chars (ofAscii ".dtach\" -r winch \"$SHELL\"") =
      ".dtach".toList ++ '"' :: ' ' :: "-r winch \"$SHELL\"".toList := by decide
  have hsuffix : ∀ c ∈ ".dtach".toList, Shell.isOrdinary c = true :=
    List.all_eq_true.1 (by decide)
  obtain ⟨after, hafter⟩ := Option.isSome_iff_exists.1
    (show (Shell.tokens "-r winch \"$SHELL\"".toList).isSome = true by decide)
  refine ⟨ts, after, "$HOME/.wosh/".toList.map fun c => (c, .double),
    ".dtach".toList.map fun c => (c, .double), .double, fun n h => ?_⟩
  rw [dtach]
  dsimp only
  rw [List.append_assoc, chars_append_eq hascii, chars_append_eq (isAscii_of_validName h), hrest,
    Shell.tokens, Shell.tokensFrom_append hts,
    Shell.tokensFrom_append (Shell.lex_double (isOrdinary_of_validName h) _),
    Shell.tokensFrom_append (Shell.lex_double hsuffix _), Shell.tokensFrom_double, hafter]
  simp

theorem safe_of_mem {preset : Preset N} (hpreset : preset ∈ PRESETS N) : Safe N preset := by
  simp only [PRESETS, List.mem_cons, List.not_mem_nil, or_false] at hpreset
  obtain rfl | rfl | rfl | rfl := hpreset
  · exact safe_dtach N
  · exact safe_abduco N
  · exact safe_tmux N
  · exact safe_screen N

/-- **Command lines and lists are consistent and safe.** For each preset: the command line of a valid name
is understood as this preset and this name; a list is parsed without throwing, into valid names, each of
which can be put back; and in the command line a shell reads a valid name as a piece of one word. -/
theorem preset_consistent {preset : Preset N} (hpreset : preset ∈ PRESETS N) :
    (∀ n, validName (some n) = true →
      matchCommand N (some (preset.command n)) = some ⟨some preset, n⟩) ∧
    (∀ text, ∃ rows, preset.parseList text = .ok rows ∧ ∀ r ∈ rows, validName (some r.name) = true ∧
      matchCommand N (some (preset.command r.name)) = some ⟨some preset, r.name⟩) ∧
    Safe N preset := by
  refine ⟨fun n h => matchCommand_command N hpreset h, fun text => ?_, safe_of_mem N hpreset⟩
  obtain ⟨rows, hrows, hvalid⟩ := parseList_ok hpreset text
  exact ⟨rows, hrows, fun r hr => ⟨hvalid r hr, matchCommand_command N hpreset (hvalid r hr)⟩⟩

/-- Numbers that have no sign and no fraction, of texts of digits. -/
def decimal : Numbers where
  Number := Option ℕ
  ofText text :=
    match text.map trim with
    | none => none
    | some t => if t.all isDigit then some (t.foldl (fun n u => n * 10 + (u.toNat - 48)) 0) else none
  isFinite := Option.isSome
  isPositive x := x.any (0 < ·)
  thousandfold := Option.map (· * 1000)

/-- A session with the name of an option. -/
theorem preset_consistent_option :
    matchCommand decimal (some ((tmux decimal).command (ofAscii "-s"))) =
      some ⟨some (tmux decimal), ofAscii "-s"⟩ :=
  (preset_consistent decimal (show tmux decimal ∈ PRESETS decimal by simp [PRESETS])).1
    (ofAscii "-s") (by decide)

end Words

end Sessions
