import Wosh.Lib.CodeUnits
import Wosh.Lib.Pattern
import Wosh.Lib.Shell

set_option relaxedAutoImplicit false
set_option autoImplicit false

/-!
# Installing a key

The pure functions of `site/authorized-keys.mjs`: the command that installs a line in the file
`authorized_keys` of a target, and the comment that such a line may have.

## Main definitions

* `AuthorizedKeys.cleanComment`, `AuthorizedKeys.installCommand` — the functions.
* `AuthorizedKeys.program` — the tokens of the command.

## Main results

* `AuthorizedKeys.cleanComment_eq_self` — a clean comment is left alone.
* `AuthorizedKeys.tokens_installCommand` — a line without a quote stays in its quotes.
* `AuthorizedKeys.appended_program` — what the command appends is the line.
* `AuthorizedKeys.cleanComment_cannot_break_out` — all of this, of a line with a clean comment.
-/

namespace AuthorizedKeys

open CodeUnits

/-! ## The functions -/

/-- The second field of a line. -/
def keyBlob (line : CodeUnits) : CodeUnits :=
  ((Pattern.plus (.one isSpace)).split line)[1]?.getD []

/-- `installCommand`. -/
def installCommand (line : CodeUnits) : CodeUnits :=
  let blob := keyBlob line
  (ofAscii "; ").intercalate [
    ofAscii "cd || exit 1",
    ofAscii "umask 077",
    ofAscii "mkdir -p .ssh || exit 1",
    ofAscii "if grep -qsF '" ++ blob ++
      ofAscii "' .ssh/authorized_keys; then echo WOSH_ALREADY; exit 0; fi",
    ofAscii "\x7b [ -z \"$(tail -1c .ssh/authorized_keys 2>/dev/null)\" ] || echo >> .ssh/authorized_keys; \x7d || exit 1",
    ofAscii "printf '%s\\n' '" ++ line ++ ofAscii "' >> .ssh/authorized_keys || exit 1",
    ofAscii "if command -v restorecon >/dev/null 2>&1; then restorecon -F .ssh .ssh/authorized_keys 2>/dev/null; fi",
    ofAscii "echo WOSH_ADDED"]

/-- `[\w.@+ -]`. -/
def isCommentUnit (u : UInt16) : Bool := isWord u || oneOf ".@+ -" u

/-- `[-\s]`. -/
def isEdge (u : UInt16) : Bool := u == 45 || isSpace u

/-- `cleanComment`. -/
def cleanComment (s : Option CodeUnits) : CodeUnits :=
  let s := s.getD []
  let s := (Pattern.plus (.one fun u => !isCommentUnit u)).replaceAll (ofAscii "-") s
  let s := (Pattern.plus (.one isSpace)).replaceAll (ofAscii " ") s
  let s := (Pattern.alt (.seqs [.start, .plus (.one isEdge)])
    (.seqs [.plus (.one isEdge), .finish])).replaceAll [] s
  let s := s.take 64
  (Pattern.seqs [.plus (.one isEdge), .finish]).replaceFirst [] s

/-! ## Clean comments -/

/-- What a comment is after the whitelist, white space made single, and the rest. -/
theorem cleanComment_eq (s : Option CodeUnits) :
    cleanComment s =
      ((((Pattern.collapse isSpace [32] false (Pattern.collapse (fun u => !isCommentUnit u) [45] false
        (s.getD []))).dropWhile isEdge).rdropWhile isEdge).take 64).rdropWhile isEdge := by
  have hends := Pattern.replaceAll_ends isEdge
  rw [Pattern.ends] at hends
  rw [cleanComment, Pattern.replaceFirst_end, hends, Pattern.replaceAll_plus, Pattern.replaceAll_plus]
  rfl

/-- A comment that is safe in quotes, and that cleaning leaves alone. -/
structure Clean (t : CodeUnits) : Prop where
  units : ∀ u ∈ t, isCommentUnit u = true
  short : t.length ≤ 64
  head : ∀ u ∈ t.head?, isEdge u = false
  last : ∀ u ∈ t.getLast?, isEdge u = false
  spread : Pattern.Spread isSpace t

theorem isAscii_of_isCommentUnit {u : UInt16} (h : isCommentUnit u = true) : isAscii u = true := by
  have hmarks : ∀ v ∈ ofAscii ".@+ -", isAscii v = true :=
    List.all_eq_true.1 (by decide)
  rw [isCommentUnit, Bool.or_eq_true] at h
  obtain h | h := h
  · exact isAscii_of_isWord h
  · exact hmarks u (by simpa [oneOf] using h)

/-- The only white space of a comment. -/
theorem eq_space_of_isCommentUnit {u : UInt16} (h : isCommentUnit u = true)
    (hspace : isSpace u = true) : u = 32 := by
  have hu := forall_ascii (fun u => !isCommentUnit u || !isSpace u || u == 32) (by decide)
    (isAscii_of_isCommentUnit h)
  simpa [h, hspace] using hu

/-- The whitelist leaves nothing else, nor does the white space that is put in. -/
theorem isCommentUnit_of_mem_collapse {s : CodeUnits} {u : UInt16}
    (hu : u ∈ Pattern.collapse isSpace [32] false
      (Pattern.collapse (fun u => !isCommentUnit u) [45] false s)) : isCommentUnit u = true := by
  obtain ⟨hu, -⟩ | hu := Pattern.mem_collapse hu
  · obtain ⟨-, hu⟩ | hu := Pattern.mem_collapse hu
    · simpa using hu
    · rw [List.mem_singleton.1 hu]
      decide
  · rw [List.mem_singleton.1 hu]
    decide

/-- The front of a text is the front of all that it begins. -/
theorem head?_of_prefix {t t' : CodeUnits} (h : t <+: t') {u : UInt16} (hu : u ∈ t.head?) :
    u ∈ t'.head? := by
  obtain ⟨r, rfl⟩ := h
  cases t with
  | nil => exact absurd hu (by simp)
  | cons v t => exact hu

/-- **A comment is clean** once it has been cleaned. -/
theorem clean_cleanComment (s : Option CodeUnits) : Clean (cleanComment s) := by
  rw [cleanComment_eq]
  generalize hlisted : Pattern.collapse (fun u => !isCommentUnit u) [45] false (s.getD []) = listed
  generalize hsingle : Pattern.collapse isSpace [32] false listed = single
  generalize htrimmed : (single.dropWhile isEdge).rdropWhile isEdge = trimmed
  have hunits : ∀ u ∈ single, isCommentUnit u = true := by
    rw [← hsingle, ← hlisted]
    exact fun u hu => isCommentUnit_of_mem_collapse hu
  have hspread : Pattern.Spread isSpace single := by
    rw [← hsingle]
    exact (Pattern.spread_collapse listed).1
  -- what is left is a piece of that text, and the front of a trimmed one
  have hfront : (trimmed.take 64).rdropWhile isEdge <+: trimmed :=
    (List.rdropWhile_prefix isEdge _).trans (List.take_prefix 64 trimmed)
  have hpiece : (trimmed.take 64).rdropWhile isEdge <:+: single := by
    refine hfront.isInfix.trans ?_
    rw [← htrimmed]
    exact (List.rdropWhile_prefix isEdge _).isInfix.trans (List.dropWhile_suffix isEdge).isInfix
  refine ⟨fun u hu => hunits u (hpiece.subset hu), ?_, fun u hu => ?_, fun u hu => ?_,
    hspread.infix hpiece⟩
  · exact (List.rdropWhile_prefix isEdge _).length_le.trans (List.length_take_le 64 trimmed)
  · have hu := head?_of_prefix hfront hu
    rw [← htrimmed] at hu
    have hu := head?_of_prefix (List.rdropWhile_prefix isEdge _) hu
    have hnot := List.head?_dropWhile_not isEdge single
    rw [Option.mem_def.1 hu] at hnot
    exact hnot
  · have hne : (trimmed.take 64).rdropWhile isEdge ≠ [] := by
      intro hnil
      rw [hnil] at hu
      exact absurd hu (by simp)
    rw [List.getLast?_eq_some_getLast hne, Option.mem_some_iff] at hu
    rw [← hu]
    exact Bool.not_eq_true _ ▸ List.rdropWhile_last_not isEdge _ hne

theorem dropWhile_eq_self {t : CodeUnits} (h : ∀ u ∈ t.head?, isEdge u = false) :
    t.dropWhile isEdge = t := by
  cases t with
  | nil => rfl
  | cons u t => rw [List.dropWhile_cons_of_neg (by simp [h u rfl])]

theorem rdropWhile_eq_self {t : CodeUnits} (h : ∀ u ∈ t.getLast?, isEdge u = false) :
    t.rdropWhile isEdge = t := by
  rw [List.rdropWhile_eq_self_iff]
  intro hne
  rw [h _ (List.getLast?_eq_some_getLast hne)]
  exact Bool.false_ne_true

/-- **A clean comment is left alone.** -/
theorem cleanComment_eq_self {t : CodeUnits} (h : Clean t) : cleanComment (some t) = t := by
  have hlisted : Pattern.collapse (fun u => !isCommentUnit u) [45] false t = t :=
    Pattern.collapse_eq_self fun u hu => by simp [h.units u hu]
  have hsingle : Pattern.collapse isSpace [32] false t = t :=
    Pattern.collapse_eq_self_of_spread h.spread fun u hu hspace =>
      eq_space_of_isCommentUnit (h.units u hu) hspace
  rw [cleanComment_eq, Option.getD_some, hlisted, hsingle, dropWhile_eq_self h.head,
    rdropWhile_eq_self h.last, List.take_of_length_le h.short, rdropWhile_eq_self h.last]

/-! ## The command as a shell reads it -/

open Shell (Token)

/-- A word without quotes. -/
def bare (s : String) : Token := .word (s.toList.map fun c => (c, .plain))

/-- A word in single quotes. -/
def quoted (cs : List Char) : Token := .word (cs.map fun c => (c, .single))

/-- `.ssh/authorized_keys`. -/
def file : Token := bare ".ssh/authorized_keys"

/-- The commands before the one that looks for the key. -/
def prologue : List Token :=
  [bare "cd", .op "||", bare "exit", bare "1", .op ";",
    bare "umask", bare "077", .op ";",
    bare "mkdir", bare "-p", bare ".ssh", .op "||", bare "exit", bare "1"]

/-- What happens if the key is there, and how a last line without an end is ended. -/
def guards : List Token :=
  [bare "then", bare "echo", bare "WOSH_ALREADY", .op ";", bare "exit", bare "0", .op ";",
    bare "fi", .op ";",
    bare "\x7b", bare "[", bare "-z",
    .word ("$(tail -1c .ssh/authorized_keys 2>/dev/null)".toList.map fun c => (c, .nested)),
    bare "]", .op "||", bare "echo", .op ">>", file, .op ";", bare "\x7d", .op "||",
    bare "exit", bare "1"]

/-- The commands after the line is there. -/
def epilogue : List Token :=
  [bare "exit", bare "1", .op ";",
    bare "if", bare "command", bare "-v", bare "restorecon", .op ">", bare "/dev/null",
    .number [('2', .plain)], .op ">&", bare "1", .op ";",
    bare "then", bare "restorecon", bare "-F", bare ".ssh", file,
    .number [('2', .plain)], .op ">", bare "/dev/null", .op ";", bare "fi", .op ";",
    bare "echo", bare "WOSH_ADDED"]

/-- The tokens of the command, of which two depend on the line. -/
def program (blob line : List Char) : List Token :=
  prologue ++ .op ";" :: ([bare "if", bare "grep", bare "-qsF", quoted blob, file] ++
    .op ";" :: (guards ++ .op ";" :: ([bare "printf", quoted "%s\\n".toList, quoted line, .op ">>", file] ++
      .op "||" :: epilogue)))

/-- The text before the key. -/
def before : CodeUnits :=
  ofAscii "cd || exit 1" ++ ofAscii "; " ++ ofAscii "umask 077" ++ ofAscii "; " ++
    ofAscii "mkdir -p .ssh || exit 1" ++ ofAscii "; " ++ ofAscii "if grep -qsF '"

/-- The text between the key and the line, after a quote and a blank. -/
def between : CodeUnits :=
  ofAscii ".ssh/authorized_keys; then echo WOSH_ALREADY; exit 0; fi" ++ ofAscii "; " ++
    ofAscii "\x7b [ -z \"$(tail -1c .ssh/authorized_keys 2>/dev/null)\" ] || echo >> .ssh/authorized_keys; \x7d || exit 1" ++
    ofAscii "; " ++ ofAscii "printf '%s\\n' '"

/-- The text after the line, a quote and a blank. -/
def after : CodeUnits :=
  ofAscii ">> .ssh/authorized_keys || exit 1" ++ ofAscii "; " ++
    ofAscii "if command -v restorecon >/dev/null 2>&1; then restorecon -F .ssh .ssh/authorized_keys 2>/dev/null; fi" ++
    ofAscii "; " ++ ofAscii "echo WOSH_ADDED"

theorem installCommand_eq (line : CodeUnits) :
    installCommand line =
      before ++ (keyBlob line ++ (39 :: 32 :: (between ++ (line ++ (39 :: 32 :: after))))) := by
  have hblob : ofAscii "' .ssh/authorized_keys; then echo WOSH_ALREADY; exit 0; fi" =
      39 :: 32 :: ofAscii ".ssh/authorized_keys; then echo WOSH_ALREADY; exit 0; fi" := rfl
  have hline : ofAscii "' >> .ssh/authorized_keys || exit 1" =
      39 :: 32 :: ofAscii ">> .ssh/authorized_keys || exit 1" := rfl
  simp only [installCommand, List.intercalate, List.intersperse, List.flatten_cons, List.flatten_nil,
    List.append_nil, List.append_assoc, hblob, hline, before, between, after, List.cons_append]

/-- The line is in single quotes, and so is the key. -/
theorem lex_before :
    Shell.lex {} (chars before) = some (⟨[.single], .nothing, some []⟩,
      prologue ++ [.op ";", bare "if", bare "grep", bare "-qsF"]) := by
  decide

theorem lex_between :
    Shell.lex {} (chars between) = some (⟨[.single], .nothing, some []⟩,
      file :: .op ";" :: guards ++ [.op ";", bare "printf", quoted "%s\\n".toList]) := by
  decide +kernel

theorem tokens_after :
    Shell.tokens (chars after) = some (.op ">>" :: file :: .op "||" :: epilogue) := by
  decide +kernel

/-- Code units that stay in single quotes, and are sent as they are. -/
def isQuotable (u : UInt16) : Bool := isAscii u && u != 39

theorem isAscii_of_isQuotable {s : CodeUnits} (hs : ∀ u ∈ s, isQuotable u = true) :
    ∀ u ∈ s, isAscii u = true :=
  fun u hu => (Bool.and_eq_true_iff.1 (hs u hu)).1

theorem not_mem_chars {s : CodeUnits} (hs : ∀ u ∈ s, isQuotable u = true) : '\'' ∉ chars s := by
  intro hmem
  have hquote : (39 : UInt16) ∈ s :=
    (mem_chars_iff (v := 39) (isAscii_of_isQuotable hs) (by decide)).1 hmem
  exact absurd (hs 39 hquote) (by decide)

/-- **A line without a quote stays in its quotes**, and the key that is looked for in its own. -/
theorem tokens_installCommand {line : CodeUnits} (hline : ∀ u ∈ line, isQuotable u = true) :
    Shell.tokens (chars (installCommand line)) =
      some (program (chars (keyBlob line)) (chars line)) := by
  have hblob : ∀ u ∈ keyBlob line, isQuotable u = true := by
    intro u hu
    rw [keyBlob] at hu
    cases hfield : ((Pattern.plus (.one isSpace)).split line)[1]? with
    | none => simp [hfield] at hu
    | some f =>
      rw [hfield] at hu
      exact hline u (Pattern.mem_of_mem_split (List.mem_of_getElem? hfield) hu)
  have hquote (s : CodeUnits) : chars (39 :: 32 :: s) = '\'' :: ' ' :: chars s := by
    rw [chars_cons (by decide), chars_cons (by decide)]
    rfl
  have hbefore : ∀ u ∈ before, isAscii u = true := List.all_eq_true.1 (by decide)
  have hbetween : ∀ u ∈ between, isAscii u = true := List.all_eq_true.1 (by decide +kernel)
  rw [installCommand_eq, chars_append_eq hbefore, chars_append_eq (isAscii_of_isQuotable hblob),
    hquote, chars_append_eq hbetween, chars_append_eq (isAscii_of_isQuotable hline), hquote]
  rw [Shell.tokens, Shell.tokensFrom_append lex_before,
    Shell.tokensFrom_append (Shell.lex_single (not_mem_chars hblob) []), Shell.tokensFrom_single,
    Shell.tokens, Shell.tokensFrom_append lex_between,
    Shell.tokensFrom_append (Shell.lex_single (not_mem_chars hline) []), Shell.tokensFrom_single,
    tokens_after]
  simp [program, quoted]

/-! ## What is appended -/

theorem mapM_literal_nil : ([] : List Shell.Word).mapM Shell.literal = some [] := rfl

/-- The text of a word that is not quoted. -/
theorem mapM_literal_cons {w : Shell.Word} {text : List Char} (hw : Shell.literal w = some text)
    {ws : List Shell.Word} {texts : List (List Char)} (hws : ws.mapM Shell.literal = some texts) :
    (w :: ws).mapM Shell.literal = some (text :: texts) := by
  rw [List.mapM_cons, hw, hws]
  rfl

theorem literal_file : Shell.literal (".ssh/authorized_keys".toList.map fun c => (c, .plain)) =
    some ".ssh/authorized_keys".toList := by
  decide

/-- To look for the key appends nothing. -/
theorem appended_grep (blob : List Char) :
    (Shell.commands [bare "if", bare "grep", bare "-qsF", quoted blob, file]).filterMap
      Shell.appended = [] := by
  have hcommand : Shell.commands [bare "if", bare "grep", bare "-qsF", quoted blob, file] =
      [⟨["if".toList.map fun c => (c, .plain), "grep".toList.map fun c => (c, .plain),
        "-qsF".toList.map fun c => (c, .plain), blob.map fun c => (c, .single),
        ".ssh/authorized_keys".toList.map fun c => (c, .plain)], []⟩] := rfl
  have hif : Shell.literal ("if".toList.map fun c => (c, .plain)) = some "if".toList := by decide
  have hname : Shell.literal ("grep".toList.map fun c => (c, .plain)) = some "grep".toList := by
    decide
  have hoption : Shell.literal ("-qsF".toList.map fun c => (c, .plain)) = some "-qsF".toList := by
    decide
  have hwords := mapM_literal_cons hif (mapM_literal_cons hname (mapM_literal_cons hoption
    (mapM_literal_cons (Shell.literal_single blob)
      (mapM_literal_cons literal_file mapM_literal_nil))))
  rw [hcommand, List.filterMap_cons, Shell.appended_eq_none hwords (by decide)]
  rfl

/-- To print the line appends it, and its end. -/
theorem appended_printf (line : List Char) :
    (Shell.commands [bare "printf", quoted "%s\\n".toList, quoted line, .op ">>", file]).filterMap
      Shell.appended = [(".ssh/authorized_keys".toList, line ++ ['\n'])] := by
  have hcommand : Shell.commands
      [bare "printf", quoted "%s\\n".toList, quoted line, .op ">>", file] =
        [⟨["printf".toList.map fun c => (c, .plain), "%s\\n".toList.map fun c => (c, .single),
          line.map fun c => (c, .single)],
          [(">>", ".ssh/authorized_keys".toList.map fun c => (c, .plain))]⟩] := rfl
  have hname : Shell.literal ("printf".toList.map fun c => (c, .plain)) =
      some "printf".toList := by
    decide
  have hwords := mapM_literal_cons hname (mapM_literal_cons (Shell.literal_single "%s\\n".toList)
    (mapM_literal_cons (Shell.literal_single line) mapM_literal_nil))
  rw [hcommand, List.filterMap_cons, Shell.appended_eq_some hwords rfl literal_file
    (Shell.printf_line line)]
  rfl

/-- **What is appended** is the line, and its end. -/
theorem appended_program (blob line : List Char) :
    (Shell.commands (program blob line)).filterMap Shell.appended =
      [(".ssh/authorized_keys".toList, line ++ ['\n'])] := by
  have hprologue : (Shell.commands prologue).filterMap Shell.appended = [] := by decide
  have hguards : (Shell.commands guards).filterMap Shell.appended = [] := by decide
  have hepilogue : (Shell.commands epilogue).filterMap Shell.appended = [] := by decide
  have hsemicolon : ";" ∈ Shell.separators := by decide
  have hor : "||" ∈ Shell.separators := by decide
  rw [program, Shell.commands_append hsemicolon, Shell.commands_append hsemicolon,
    Shell.commands_append hsemicolon, Shell.commands_append hor]
  simp only [List.filterMap_append, hprologue, hguards, hepilogue, appended_grep, appended_printf]
  rfl

/-! ## Lines -/

/-- A visible character of ASCII, of which a key type has all but the quote. -/
def isTypeUnit (u : UInt16) : Bool := 33 ≤ u && u ≤ 126 && u != 39

/-- A character of base 64. -/
def isBase64Unit (u : UInt16) : Bool := isAlphanumeric u || oneOf "+/=" u

theorem of_isTypeUnit {u : UInt16} (h : isTypeUnit u = true) :
    isQuotable u = true ∧ isSpace u = false ∧ u ≠ 10 := by
  have hascii : isAscii u = true := by
    simp only [isTypeUnit, isAscii, Bool.and_eq_true, decide_eq_true_eq, UInt16.le_iff_toNat_le,
      UInt16.lt_iff_toNat_lt, UInt16.toNat_ofNat] at h ⊢
    omega
  have hu := forall_ascii (fun u => !isTypeUnit u || isQuotable u && !isSpace u && u != 10)
    (by decide) hascii
  simpa [h, and_assoc] using hu

theorem isTypeUnit_of_isBase64Unit {u : UInt16} (h : isBase64Unit u = true) :
    isTypeUnit u = true := by
  have hmarks : ∀ v ∈ ofAscii "+/=", isTypeUnit v = true := List.all_eq_true.1 (by decide)
  rw [isBase64Unit, Bool.or_eq_true] at h
  obtain h | h := h
  · have hu := forall_ascii (fun u => !isAlphanumeric u || isTypeUnit u) (by decide)
      (isAscii_of_isWord (by rw [isWord, h]; rfl))
    simpa [h] using hu
  · exact hmarks u (by simpa [oneOf] using h)

theorem of_isCommentUnit {u : UInt16} (h : isCommentUnit u = true) :
    isQuotable u = true ∧ u ≠ 10 ∧ u ∈ ofAscii
      "ABCDEFGHIJKLMNOPQRSTUVWXYZabcdefghijklmnopqrstuvwxyz0123456789_.@+ -" := by
  have hu := forall_ascii (fun u => !isCommentUnit u || isQuotable u && u != 10 && (ofAscii
    "ABCDEFGHIJKLMNOPQRSTUVWXYZabcdefghijklmnopqrstuvwxyz0123456789_.@+ -").contains u)
    (by decide) (isAscii_of_isCommentUnit h)
  simpa [h, and_assoc] using hu

/-- The key is the second field. -/
theorem keyBlob_line {keyType blob comment : CodeUnits} (hkey : ∀ u ∈ keyType, isSpace u = false)
    (hblob : ∀ u ∈ blob, isSpace u = false) (hne : blob ≠ []) :
    keyBlob (keyType ++ ofAscii " " ++ blob ++ ofAscii " " ++ comment) = blob := by
  have hspace : ofAscii " " = [32] := rfl
  have hdrop : (blob ++ 32 :: comment).dropWhile isSpace = blob ++ 32 :: comment := by
    cases blob with
    | nil => exact absurd rfl hne
    | cons u blob => rw [List.cons_append, List.dropWhile_cons_of_neg (by simp [hblob u])]
  rw [keyBlob, hspace, List.append_assoc, List.append_assoc, List.append_assoc]
  simp only [List.singleton_append]
  rw [Pattern.split_plus_append hkey (by decide), hdrop, Pattern.split_plus_append hblob (by decide)]
  rfl

/-- A line of a key type, a key and a comment may stand in single quotes, and is one line. -/
theorem quotable_line {keyType blob comment : CodeUnits} (hkey : ∀ u ∈ keyType, isTypeUnit u = true)
    (hblob : ∀ u ∈ blob, isTypeUnit u = true) (hcomment : ∀ u ∈ comment, isCommentUnit u = true) :
    ∀ u ∈ keyType ++ ofAscii " " ++ blob ++ ofAscii " " ++ comment, isQuotable u = true ∧ u ≠ 10 := by
  have hspace : ∀ u ∈ ofAscii " ", isQuotable u = true ∧ u ≠ 10 := by
    intro u hu
    obtain rfl := List.mem_singleton.1 hu
    decide
  intro u hu
  simp only [List.mem_append] at hu
  obtain (((hu | hu) | hu) | hu) | hu := hu
  · exact ⟨(of_isTypeUnit (hkey u hu)).1, (of_isTypeUnit (hkey u hu)).2.2⟩
  · exact hspace u hu
  · exact ⟨(of_isTypeUnit (hblob u hu)).1, (of_isTypeUnit (hblob u hu)).2.2⟩
  · exact hspace u hu
  · exact ⟨(of_isCommentUnit (hcomment u hu)).1, (of_isCommentUnit (hcomment u hu)).2.1⟩

/-- **A cleaned comment cannot break out** of the command: it has no character but those of the
whitelist, at most 64 of them, no space and no dash at either end, and cleaning it again changes
nothing; of a line of a key type, a key and such a comment, the tokens of the command are always the
same, but for two words in single quotes, which are the key and the line; and what the command appends
to the file is this line, which has no end of a line within it. -/
theorem cleanComment_cannot_break_out (s : Option CodeUnits) :
    ((∀ u ∈ cleanComment s, u ∈ ofAscii
        "ABCDEFGHIJKLMNOPQRSTUVWXYZabcdefghijklmnopqrstuvwxyz0123456789_.@+ -") ∧
      (cleanComment s).length ≤ 64 ∧
      (∀ u ∈ (cleanComment s).head?, u ≠ 32 ∧ u ≠ 45) ∧
      (∀ u ∈ (cleanComment s).getLast?, u ≠ 32 ∧ u ≠ 45) ∧
      cleanComment (some (cleanComment s)) = cleanComment s) ∧
    ∀ keyType blob : CodeUnits, (∀ u ∈ keyType, isTypeUnit u = true) →
      (∀ u ∈ blob, isBase64Unit u = true) →
      let line := keyType ++ ofAscii " " ++ blob ++ ofAscii " " ++ cleanComment s
      (blob ≠ [] → keyBlob line = blob) ∧
      Shell.tokens (chars (installCommand line)) =
        some (program (chars (keyBlob line)) (chars line)) ∧
      (Shell.commands (program (chars (keyBlob line)) (chars line))).filterMap Shell.appended =
        [(".ssh/authorized_keys".toList, chars line ++ ['\n'])] ∧
      '\n' ∉ chars line := by
  have hclean := clean_cleanComment s
  have hedge {u : UInt16} (h : isEdge u = false) : u ≠ 32 ∧ u ≠ 45 := by
    constructor
    · rintro rfl
      exact absurd h (by decide)
    · rintro rfl
      exact absurd h (by decide)
  refine ⟨⟨fun u hu => (of_isCommentUnit (hclean.units u hu)).2.2, hclean.short,
    fun u hu => hedge (hclean.head u hu), fun u hu => hedge (hclean.last u hu),
    cleanComment_eq_self hclean⟩, fun keyType blob hkey hblob => ?_⟩
  have hblob : ∀ u ∈ blob, isTypeUnit u = true := fun u hu => isTypeUnit_of_isBase64Unit (hblob u hu)
  have hline := quotable_line hkey hblob hclean.units
  have hquotable := fun u hu => (hline u hu).1
  refine ⟨fun hne => keyBlob_line (fun u hu => (of_isTypeUnit (hkey u hu)).2.1)
    (fun u hu => (of_isTypeUnit (hblob u hu)).2.1) hne, tokens_installCommand hquotable,
    appended_program _ _, fun hmem => ?_⟩
  exact (hline 10 ((mem_chars_iff (v := 10) (isAscii_of_isQuotable hquotable) (by decide)).1 hmem)).2
    rfl

/-- A comment that was meant to end the word. -/
theorem cleanComment_cannot_break_out_quote :
    let line := ofAscii "ssh-ed25519" ++ ofAscii " " ++ ofAscii "AAAA" ++ ofAscii " " ++
      cleanComment (some (ofAscii "' ; rm -rf ~ ; echo '"))
    Shell.tokens (chars (installCommand line)) =
      some (program (chars (keyBlob line)) (chars line)) :=
  ((cleanComment_cannot_break_out (some (ofAscii "' ; rm -rf ~ ; echo '"))).2 (ofAscii "ssh-ed25519")
    (ofAscii "AAAA") (List.all_eq_true.1 (by decide))
    (List.all_eq_true.1 (by decide))).2.1

end AuthorizedKeys
