import Mathlib

set_option relaxedAutoImplicit false
set_option autoImplicit false

/-!
# Command lines of a shell

How a POSIX shell cuts a command line into tokens, and what is quoted in them: single and double quotes,
backslashes, substitutions of commands, operators and redirections. What is not covered (backquotes,
`$` before a brace or a quote, comments, here-documents) is no token at all.

## Main definitions

* `Shell.tokens` — the tokens of a command line, each character of a word with how it is quoted.
* `Shell.commands` — the commands of a list of tokens, with their words and redirections.
* `Shell.printf` — what the utility writes.

## Main results

* `Shell.lex_append` — a command line is read from left to right.
* `Shell.lex_single`, `Shell.lex_plain`, `Shell.lex_double` — text that cannot end the word it is in.
-/

namespace Shell

/-! ## Tokens -/

/-- How a character of a word is quoted. -/
inductive Quoting
  | plain
  | escaped
  | single
  | double
  /-- Within a substitution. -/
  | nested
deriving DecidableEq

/-- A word, without the marks that quote its characters. -/
abbrev Word := List (Char × Quoting)

inductive Token
  | word (w : Word)
  /-- Digits right before a redirection. -/
  | number (w : Word)
  | op (o : String)
deriving DecidableEq

/-- What has begun and has not ended. -/
inductive Frame
  | single
  | double
  | parens
deriving DecidableEq

/-- A character that the next one has a say in. -/
inductive Held
  | nothing
  | backslash
  | dollar
  | op (o : Char)
deriving DecidableEq

structure State where
  frames : List Frame := []
  held : Held := .nothing
  word : Option Word := none
deriving DecidableEq

/-- How a character is quoted within frames. -/
def quoting (frames : List Frame) : Quoting :=
  if .parens ∈ frames then .nested
  else
    match frames with
    | [] => .plain
    | .double :: _ => .double
    | _ => .single

namespace State

/-- A character goes to the word. -/
def push (s : State) (c : Char) : State :=
  { s with word := some (s.word.getD [] ++ [(c, quoting s.frames)]) }

/-- A mark of quotes opens a word, even if nothing follows. -/
def enter (s : State) (f : Frame) : State :=
  { s with frames := f :: s.frames, word := some (s.word.getD []) }

/-- A mark within a substitution is part of the word. -/
def mark (s : State) (c : Char) : State := if .parens ∈ s.frames then s.push c else s

end State

/-- The word that ends, before a redirection or not. -/
def ended (redirection : Bool) : Option Word → List Token
  | none => []
  | some w =>
    if redirection = true ∧ w ≠ [] ∧ w.all (fun cq => cq.1.isDigit && cq.2 = .plain) then [.number w]
    else [.word w]

/-- The characters of operators. -/
def isOperator (c : Char) : Bool := [';', '&', '|', '<', '>', '(', ')'].contains c

/-- The operators of two characters, of which a here-document is not covered. -/
def pairs : List (Char × Char) :=
  [('&', '&'), ('|', '|'), (';', ';'), ('>', '>'), ('<', '&'), ('>', '&'), ('<', '>'), ('>', '|')]

/-- A character after which nothing is held. -/
def read (s : State) (c : Char) : Option (State × List Token) :=
  match s.frames with
  | [] =>
    if c = '\'' then some (s.enter .single, [])
    else if c = '"' then some (s.enter .double, [])
    else if c = '\\' then some ({ s with held := .backslash }, [])
    else if c = '$' then some ({ s with held := .dollar }, [])
    else if c = '\x60' ∨ c = '#' ∧ s.word = none then none
    else if c = ' ' ∨ c = '\t' then some ({ s with word := none }, ended false s.word)
    else if c = '\n' then some ({ s with word := none }, ended false s.word ++ [.op "\n"])
    else if isOperator c then
      some ({ s with word := none, held := .op c }, ended (c = '<' ∨ c = '>') s.word)
    else some (s.push c, [])
  | .single :: frames =>
    if c = '\'' then some ({ s.mark c with frames := frames }, []) else some (s.push c, [])
  | .double :: frames =>
    if c = '"' then some ({ s.mark c with frames := frames }, [])
    else if c = '\\' then some ({ s with held := .backslash }, [])
    else if c = '$' then some ({ s with held := .dollar }, [])
    else if c = '\x60' then none
    else some (s.push c, [])
  | .parens :: frames =>
    if c = '\'' then some ((s.mark c).enter .single, [])
    else if c = '"' then some ((s.mark c).enter .double, [])
    else if c = '\\' then some ({ s with held := .backslash }, [])
    else if c = '$' then some ({ s with held := .dollar }, [])
    else if c = '(' then some ((s.push c).enter .parens, [])
    else if c = ')' then some ({ s.push c with frames := frames }, [])
    else if c = '\x60' ∨ c = '#' then none
    else some (s.push c, [])

/-- A character after a backslash: within double quotes it quotes some characters only. -/
def escape (s : State) (c : Char) : State :=
  let s := { s with held := .nothing }
  if .parens ∈ s.frames then (s.push '\\').push c
  else if s.frames.head? = some .double ∧ c ∉ ['$', '"', '\\', '\n', '\x60'] then
    (s.push '\\').push c
  else if c = '\n' then s
  else { s with word := some (s.word.getD [] ++ [(c, .escaped)]) }

/-- One character. -/
def step (s : State) (c : Char) : Option (State × List Token) :=
  match s.held with
  | .nothing => read s c
  | .backslash => some (escape s c, [])
  | .dollar =>
    if c = '(' then
      let s := { s with held := .nothing }.enter .parens
      some ((s.push '$').push c, [])
    else if c = '\x7b' ∨ c = '\'' ∧ s.frames = [] then none
    else read ({ s with held := .nothing }.push '$') c
  | .op o =>
    if (o, c) ∈ pairs then some ({ s with held := .nothing }, [.op (String.ofList [o, c])])
    else if o = '<' ∧ c = '<' then none
    else (read { s with held := .nothing } c).map fun r => (r.1, .op (String.ofList [o]) :: r.2)

/-- Some characters. -/
def lex (s : State) : List Char → Option (State × List Token)
  | [] => some (s, [])
  | c :: cs =>
    match step s c with
    | none => none
    | some (s', ts) => (lex s' cs).map fun r => (r.1, ts ++ r.2)

/-- The end of the command line. -/
def finish (s : State) : Option (List Token) :=
  if s.frames ≠ [] then none
  else
    match s.held with
    | .nothing => some (ended false s.word)
    | .backslash => none
    | .dollar => some (ended false (s.push '$').word)
    | .op o => some [.op (String.ofList [o])]

/-- The tokens of what is left of a command line. -/
def tokensFrom (s : State) (cs : List Char) : Option (List Token) :=
  (lex s cs).bind fun r => (finish r.1).map fun ts => r.2 ++ ts

/-- The tokens of a command line. -/
def tokens (cs : List Char) : Option (List Token) := tokensFrom {} cs

/-! ## Commands -/

/-- The operators between commands. -/
def separators : List String := [";", "&", "|", "&&", "||", ";;", "(", ")", "\n"]

def isSeparator : Token → Bool
  | .op o => separators.contains o
  | _ => false

/-- The tokens of each command, reserved words included. -/
def segments (ts : List Token) : List (List Token) := ts.splitOnP isSeparator

/-- A command, with its words and redirections: an operator, and the word that follows it. -/
structure Command where
  words : List Word := []
  redirections : List (String × Word) := []
deriving DecidableEq

/-- The command of a segment, unless a redirection has no word. -/
def command : List Token → Option Command
  | [] => some {}
  | .word w :: ts => (command ts).map fun c => { c with words := w :: c.words }
  | .number _ :: .op o :: .word w :: ts
  | .op o :: .word w :: ts =>
    (command ts).map fun c => { c with redirections := (o, w) :: c.redirections }
  | _ :: _ => none

/-- The commands of a list of tokens. -/
def commands (ts : List Token) : List Command := (segments ts).filterMap command

/-- The text of a word that nothing is expanded in. -/
def literal (w : Word) : Option (List Char) :=
  if w.all fun cq => match cq.2 with
    | .single | .escaped => true
    | .double => cq.1 ≠ '$'
    | .plain => cq.1 ∉ ['$', '*', '?', '[', '~']
    | .nested => false
  then some (w.map Prod.fst) else none

/-! ## printf -/

/-- A part of a format. -/
inductive Directive
  | char (c : Char)
  /-- `%s`. -/
  | string
deriving DecidableEq

/-- The parts of a format, where it is covered. -/
def directives : List Char → Option (List Directive)
  | [] => some []
  | '%' :: 's' :: cs => (directives cs).map (.string :: ·)
  | '%' :: '%' :: cs => (directives cs).map (.char '%' :: ·)
  | '\\' :: 'n' :: cs => (directives cs).map (.char '\n' :: ·)
  | '\\' :: 't' :: cs => (directives cs).map (.char '\t' :: ·)
  | '\\' :: '\\' :: cs => (directives cs).map (.char '\\' :: ·)
  | c :: cs => if c = '%' ∨ c = '\\' then none else (directives cs).map (.char c :: ·)

/-- What a format writes once, and the arguments that are left. -/
def write : List Directive → List (List Char) → List Char × List (List Char)
  | [], args => ([], args)
  | .char c :: ds, args => (c :: (write ds args).1, (write ds args).2)
  | .string :: ds, [] => write ds []
  | .string :: ds, arg :: args => (arg ++ (write ds args).1, (write ds args).2)

/-- What a format writes, which is used again while it takes arguments and there are any left. -/
def writeAll (ds : List Directive) : ℕ → List (List Char) → List Char
  | 0, args => (write ds args).1
  | k + 1, args =>
    let (out, rest) := write ds args
    if rest = [] ∨ rest.length = args.length then out else out ++ writeAll ds k rest

/-- `printf`. -/
def printf (format : List Char) (args : List (List Char)) : Option (List Char) :=
  (directives format).map fun ds => writeAll ds args.length args

/-- The file that a command of `printf` appends to, and the text, where no other redirection is in
its way. -/
def appended (c : Command) : Option (List Char × List Char) :=
  match c.words.mapM literal, c.redirections with
  | some (name :: format :: args), [(">>", file)] =>
    if name = "printf".toList then
      (literal file).bind fun file => (printf format args).map fun text => (file, text)
    else none
  | _, _ => none

/-! ## Reading from left to right -/

section Lex

variable {s s' : State} {ts : List Token} {c : Char} {cs cs' : List Char} {w : Word}

theorem lex_append (h : lex s cs = some (s', ts)) (cs' : List Char) :
    lex s (cs ++ cs') = (lex s' cs').map fun r => (r.1, ts ++ r.2) := by
  induction cs generalizing s ts with
  | nil =>
    obtain ⟨rfl, rfl⟩ := Prod.mk.inj (Option.some.inj h)
    simp
  | cons c cs ih =>
    rw [List.cons_append, lex]
    rw [lex] at h
    cases hstep : step s c with
    | none => simp [hstep] at h
    | some r =>
      obtain ⟨t, ts'⟩ := r
      simp only [hstep] at h ⊢
      obtain ⟨⟨u, ts''⟩, hu, heq⟩ := Option.map_eq_some_iff.1 h
      obtain ⟨rfl, rfl⟩ := Prod.mk.inj heq
      rw [ih hu, Option.map_map]
      congr 1
      funext r
      simp

/-- Characters that each go to the word. -/
theorem lex_push {frames : List Frame}
    (hpush : ∀ c ∈ cs, ∀ w, step ⟨frames, .nothing, w⟩ c =
      some ((⟨frames, .nothing, w⟩ : State).push c, [])) (w : Word) :
    lex ⟨frames, .nothing, some w⟩ cs =
      some (⟨frames, .nothing, some (w ++ cs.map fun c => (c, quoting frames))⟩, []) := by
  induction cs generalizing w with
  | nil => simp [lex]
  | cons c cs ih =>
    rw [lex, hpush c List.mem_cons_self]
    simp only [State.push, Option.getD_some]
    rw [ih fun c' hc' => hpush c' (List.mem_cons_of_mem c hc')]
    simp

/-- **What single quotes hold** is ended by a single quote only. -/
theorem lex_single (h : '\'' ∉ cs) (w : Word) :
    lex ⟨[.single], .nothing, some w⟩ cs =
      some (⟨[.single], .nothing, some (w ++ cs.map fun c => (c, .single))⟩, []) := by
  refine lex_push (fun c hc w => ?_) w
  have hne : c ≠ '\'' := fun h' => h (h' ▸ hc)
  simp [step, read, hne]

/-- A character that is no mark of the shell. -/
def isOrdinary (c : Char) : Bool :=
  !(isOperator c || ['\'', '"', '\\', '$', '\x60', '#', ' ', '\t', '\n'].contains c)

theorem step_of_isOrdinary (h : isOrdinary c = true) (w : Option Word) :
    step ⟨[], .nothing, w⟩ c = some ((⟨[], .nothing, w⟩ : State).push c, []) := by
  simp only [isOrdinary, Bool.not_eq_true', Bool.or_eq_false_iff, List.contains_cons,
    List.contains_nil, beq_eq_false_iff_ne] at h
  obtain ⟨hop, hquote, hdouble, hbackslash, hdollar, hbackquote, hhash, hspace, htab, hline, -⟩ := h
  simp [step, read, hop, hquote, hdouble, hbackslash, hdollar, hbackquote, hhash, hspace, htab, hline]

/-- **What is not quoted** ends at a mark of the shell only. -/
theorem lex_plain (h : ∀ c ∈ cs, isOrdinary c = true) (w : Word) :
    lex ⟨[], .nothing, some w⟩ cs =
      some (⟨[], .nothing, some (w ++ cs.map fun c => (c, .plain))⟩, []) :=
  lex_push (fun c hc w => step_of_isOrdinary (h c hc) w) w

/-- **What double quotes hold** ends at a mark of the shell only. -/
theorem lex_double (h : ∀ c ∈ cs, isOrdinary c = true) (w : Word) :
    lex ⟨[.double], .nothing, some w⟩ cs =
      some (⟨[.double], .nothing, some (w ++ cs.map fun c => (c, .double))⟩, []) := by
  refine lex_push (fun c hc w => ?_) w
  have hord := h c hc
  simp only [isOrdinary, Bool.not_eq_true', Bool.or_eq_false_iff, List.contains_cons,
    List.contains_nil, beq_eq_false_iff_ne] at hord
  obtain ⟨-, -, hdouble, hbackslash, hdollar, hbackquote, -⟩ := hord
  simp [step, read, hdouble, hbackslash, hdollar, hbackquote]

/-- A word that begins without quotes. -/
theorem lex_word (hne : cs ≠ []) (h : ∀ c ∈ cs, isOrdinary c = true) :
    lex {} cs = some (⟨[], .nothing, some (cs.map fun c => (c, .plain))⟩, []) := by
  have hempty := lex_plain h []
  cases cs with
  | nil => exact absurd rfl hne
  | cons c cs =>
    rw [lex] at hempty ⊢
    have hstep : step {} c = step ⟨[], .nothing, some []⟩ c := by
      rw [step_of_isOrdinary (h c List.mem_cons_self), step_of_isOrdinary (h c List.mem_cons_self)]
      rfl
    rw [hstep]
    exact hempty

/-! ### Ends of words -/

theorem tokensFrom_append (h : lex s cs = some (s', ts)) (cs' : List Char) :
    tokensFrom s (cs ++ cs') = (tokensFrom s' cs').map (ts ++ ·) := by
  rw [tokensFrom, lex_append h, tokensFrom]
  cases lex s' cs' with
  | none => rfl
  | some r =>
    simp only [Option.map_some, Option.bind_some, Option.map_map]
    congr 1
    funext ts'
    simp

theorem tokensFrom_cons {c : Char} (h : step s c = some (s', ts)) (cs : List Char) :
    tokensFrom s (c :: cs) = (tokensFrom s' cs).map (ts ++ ·) := by
  have hlex : lex s [c] = some (s', ts) := by simp [lex, h]
  exact tokensFrom_append hlex cs

/-- A word ends at a blank. -/
theorem tokensFrom_blank (w : Word) (cs : List Char) :
    tokensFrom ⟨[], .nothing, some w⟩ (' ' :: cs) = (tokens cs).map (.word w :: ·) := by
  have hstep : step ⟨[], .nothing, some w⟩ ' ' = some ({}, [.word w]) := rfl
  rw [tokensFrom_cons hstep]
  rfl

/-- Quotes end, and the word with them. -/
theorem tokensFrom_single (w : Word) (cs : List Char) :
    tokensFrom ⟨[.single], .nothing, some w⟩ ('\'' :: ' ' :: cs) =
      (tokens cs).map (.word w :: ·) := by
  have hstep : step ⟨[.single], .nothing, some w⟩ '\'' =
      some (⟨[], .nothing, some w⟩, []) := rfl
  rw [tokensFrom_cons hstep, tokensFrom_blank, Option.map_map]
  rfl

theorem tokensFrom_double (w : Word) (cs : List Char) :
    tokensFrom ⟨[.double], .nothing, some w⟩ ('"' :: ' ' :: cs) =
      (tokens cs).map (.word w :: ·) := by
  have hstep : step ⟨[.double], .nothing, some w⟩ '"' =
      some (⟨[], .nothing, some w⟩, []) := rfl
  rw [tokensFrom_cons hstep, tokensFrom_blank, Option.map_map]
  rfl

/-- The last word. -/
theorem tokensFrom_nil (w : Word) : tokensFrom ⟨[], .nothing, some w⟩ [] = some [.word w] := rfl

end Lex

/-! ## Commands one after the other -/

theorem commands_append {o : String} (ho : o ∈ separators) (ts ts' : List Token) :
    commands (ts ++ .op o :: ts') = commands ts ++ commands ts' := by
  have hsep : isSeparator (.op o) = true := List.contains_iff_mem.2 ho
  rw [commands, segments, List.splitOnP_append_cons _ _ hsep, List.filterMap_append]
  rfl

/-- What single quotes hold is not expanded. -/
theorem literal_single (cs : List Char) : literal (cs.map fun c => (c, .single)) = some cs := by
  simp [literal, Function.comp_def]

/-! ## What is appended -/

section Appended

variable {c : Command} {name format text file : List Char} {args : List (List Char)} {f : Word}

theorem appended_eq_some (hwords : c.words.mapM literal = some ("printf".toList :: format :: args))
    (hredirections : c.redirections = [(">>", f)]) (hfile : literal f = some file)
    (htext : printf format args = some text) : appended c = some (file, text) := by
  simp only [appended, hwords, hredirections, if_true, hfile, htext, Option.bind_some,
    Option.map_some]

/-- Another command appends nothing by `printf`. -/
theorem appended_eq_none (hwords : c.words.mapM literal = some (name :: args))
    (hne : name ≠ "printf".toList) : appended c = none := by
  rw [appended, hwords]
  split
  next heq _ =>
    rw [← (List.cons.inj (Option.some.inj heq)).1, if_neg hne]
  · rfl

/-- A text and the end of its line. -/
theorem printf_line (text : List Char) : printf "%s\\n".toList [text] = some (text ++ ['\n']) := by
  have hformat : directives "%s\\n".toList = some [.string, .char '\n'] := by decide
  rw [printf, hformat]
  simp [writeAll, write]

end Appended

end Shell
