import JAgent.Tools.Runtime

/-! # The command rule of the scope guardrail

`ScopeGuardrail.check` accepts a command when no text of a blacklist occurs in it and the first word that
`shlex.split(command, posix=False)` finds, stripped of quotes, is in the list of allowed commands.

What the command does is decided by a shell.  The second section reads a text as POSIX does: tokens, with
quotes and back-slashes, comments and operators; then the grammar's simple command, assignments before
the command word and reserved words included.

The blacklist has every operator but a single `&` and the newline (`lexShell_unlisted`), and the two
readings cut words and remove quotes differently.  `command_scope_sound_iff` says that nothing else goes
wrong, and `executes_of_plain` that without quotes and separators the two readings agree. -/

namespace JAgent

/-- The single quote. -/
def quoteMark : Char := Char.ofNat 39

/-- The back-quote. -/
def backQuote : Char := Char.ofNat 96

/-! ### How the guard reads a command -/

/-- `whitespace` of `shlex`. -/
def isShlexSpace (c : Char) : Bool := c = ' ' || c = '\t' || c = '\r' || c = '\n'

/-- Where `shlex` is in the text. -/
inductive ShlexMode where
  | between
  | word (token : List Char)
  | quoted (mark : Char) (token : List Char)

/-- `shlex.split(command, posix=False)`: quotes stay in the token, and a token that starts with one ends
with the next; `none` when a quotation is not closed. -/
def shlexSplit : ShlexMode → List Char → Option (List (List Char))
  | .between, [] => some []
  | .word token, [] => some [token]
  | .quoted _ _, [] => none
  | .between, c :: cs =>
    if isShlexSpace c then shlexSplit .between cs
    else if c = quoteMark || c = '"' then shlexSplit (.quoted c [c]) cs
    else shlexSplit (.word [c]) cs
  | .word token, c :: cs =>
    if isShlexSpace c then (shlexSplit .between cs).map (token :: ·)
    else shlexSplit (.word (token ++ [c])) cs
  | .quoted mark token, c :: cs =>
    if c = mark then (shlexSplit .between cs).map ((token ++ [c]) :: ·)
    else shlexSplit (.quoted mark (token ++ [c])) cs

/-- `text.strip("\"'")`. -/
def stripQuotes (text : List Char) : List Char :=
  let isMark := fun c => c = quoteMark || c = '"'
  ((text.dropWhile isMark).reverse.dropWhile isMark).reverse

/-- `argv[0].strip("\"'") if argv else ""`. -/
def guardExecutable (command : List Char) : List Char :=
  match shlexSplit .between command with
  | some (first :: _) => stripQuotes first
  | _ => []

/-- `shell_tokens`. -/
def shellTokens : List String := [";", "&&", "||", "|", ">", "<", "`", "$", "(", ")"]

/-- `any(token in command for token in shell_tokens)`. -/
def hasShellOperator (command : String) : Bool := shellTokens.any fun token => hasInfix token command

/-- The first word is on the list. -/
def listsExecutable (allowed : List String) (command : List Char) : Bool :=
  !(guardExecutable command).isEmpty && allowed.contains (String.ofList (guardExecutable command))

/-- The command branch of `ScopeGuardrail.check`; an empty list restricts nothing. -/
def commandAccepted (allowed : List String) (command : String) : Bool :=
  allowed.isEmpty || (!hasShellOperator command && listsExecutable allowed command.toList)

/-! ### How a shell reads a command -/

inductive ShellToken where
  /-- A word as it is written, with its quotes. -/
  | word (raw : List Char)
  | operator (c : Char)
  | newline
  /-- A parameter or command substitution starts. -/
  | substitution
deriving DecidableEq

/-- Where the shell is in the text. -/
inductive ShellMode where
  | between
  | word (raw : List Char)
  | escape (raw : List Char)
  | single (raw : List Char)
  | double (raw : List Char)
  | doubleEscape (raw : List Char)
  | comment

def isBlank (c : Char) : Bool := c = ' ' || c = '\t'

/-- The characters that operators are made of. -/
def operatorChars : List Char := ['&', ';', '|', '<', '>', '(', ')']

def startsSubstitution (c : Char) : Bool := c = '$' || c = backQuote

/-- A character of a word, outside quotes. -/
def wordMode (raw : List Char) (c : Char) : ShellMode :=
  if c = '\\' then .escape raw
  else if c = quoteMark then .single (raw ++ [c])
  else if c = '"' then .double (raw ++ [c])
  else .word (raw ++ [c])

/-- Put a token in front. -/
def emitToken (token : ShellToken) (rest : Option (List ShellToken)) : Option (List ShellToken) :=
  rest.map (token :: ·)

/-- A substitution is noted when the character starts one. -/
def noteSubstitution (c : Char) (rest : Option (List ShellToken)) : Option (List ShellToken) :=
  if startsSubstitution c then emitToken .substitution rest else rest

/-- Token recognition; `none` when a quotation is not closed.  A back-slash before a newline joins the
lines. -/
def lexShell : ShellMode → List Char → Option (List ShellToken)
  | .between, [] | .comment, [] => some []
  | .word raw, [] => some [.word raw]
  | .escape raw, [] => some [.word (raw ++ ['\\'])]
  | .single _, [] | .double _, [] | .doubleEscape _, [] => none
  | .between, c :: cs =>
    if isBlank c then lexShell .between cs
    else if c = '\n' then emitToken .newline (lexShell .between cs)
    else if operatorChars.contains c then emitToken (.operator c) (lexShell .between cs)
    else if c = '#' then lexShell .comment cs
    else noteSubstitution c (lexShell (wordMode [] c) cs)
  | .word raw, c :: cs =>
    if isBlank c then emitToken (.word raw) (lexShell .between cs)
    else if c = '\n' then emitToken (.word raw) (emitToken .newline (lexShell .between cs))
    else if operatorChars.contains c then
      emitToken (.word raw) (emitToken (.operator c) (lexShell .between cs))
    else noteSubstitution c (lexShell (wordMode raw c) cs)
  | .escape raw, c :: cs =>
    if c = '\n' then lexShell (if raw.isEmpty then .between else .word raw) cs
    else lexShell (.word (raw ++ ['\\', c])) cs
  | .single raw, c :: cs =>
    lexShell (if c = quoteMark then .word (raw ++ [c]) else .single (raw ++ [c])) cs
  | .double raw, c :: cs =>
    if c = '"' then lexShell (.word (raw ++ [c])) cs
    else if c = '\\' then lexShell (.doubleEscape raw) cs
    else noteSubstitution c (lexShell (.double (raw ++ [c])) cs)
  | .doubleEscape raw, c :: cs =>
    lexShell (.double (if c = '\n' then raw else raw ++ ['\\', c])) cs
  | .comment, c :: cs =>
    if c = '\n' then emitToken .newline (lexShell .between cs) else lexShell .comment cs

/-- Where quote removal is in a word. -/
inductive QuoteMode where
  | plain | escape | single | double | doubleEscape

/-- Quote removal. -/
def unquote : QuoteMode → List Char → List Char
  | .escape, [] => ['\\']
  | _, [] => []
  | .plain, c :: cs =>
    if c = '\\' then unquote .escape cs
    else if c = quoteMark then unquote .single cs
    else if c = '"' then unquote .double cs
    else c :: unquote .plain cs
  | .escape, c :: cs => c :: unquote .plain cs
  | .single, c :: cs => if c = quoteMark then unquote .plain cs else c :: unquote .single cs
  | .double, c :: cs =>
    if c = '"' then unquote .plain cs
    else if c = '\\' then unquote .doubleEscape cs
    else c :: unquote .double cs
  | .doubleEscape, c :: cs =>
    if startsSubstitution c || c = '"' || c = '\\' then c :: unquote .double cs
    else '\\' :: c :: unquote .double cs

/-- Newlines before and after a command mean nothing. -/
def trimNewlines (tokens : List ShellToken) : List ShellToken :=
  ((tokens.dropWhile (· = .newline)).reverse.dropWhile (· = .newline)).reverse

def ShellToken.word? : ShellToken → Option (List Char)
  | .word raw => some raw
  | _ => none

/-- Words that do not name a command when they stand first. -/
def reservedWords : List (List Char) :=
  ["!", "\x7b", "\x7d", "case", "do", "done", "elif", "else", "esac", "fi", "for", "if", "in", "then",
    "until", "while"].map String.toList

/-- `NAME=…`. -/
def isAssignment (raw : List Char) : Bool :=
  let name := raw.takeWhile fun c => c.isAlphanum || c = '_'
  !name.isEmpty && !name.head?.any Char.isDigit && raw[name.length]? = some '='

/-- The word of a simple command that names what is executed. -/
def commandWord : List (List Char) → Option (List Char)
  | [] => none
  | first :: rest =>
    if reservedWords.contains first then none else (first :: rest).find? fun raw => !isAssignment raw

/-- The text is a single simple command, and this is its executable. -/
def Executes (command executable : List Char) : Prop :=
  ∃ tokens words raw, lexShell .between command = some tokens ∧
    trimNewlines tokens = words.map ShellToken.word ∧ commandWord words = some raw ∧
    unquote .plain raw = executable

/-! ### What the blacklist leaves -/

/-- The tokens that the blacklist does not exclude. -/
def ShellToken.unlisted : ShellToken → Bool
  | .word _ | .newline => true
  | .operator c => c = '&'
  | .substitution => false

theorem hasInfix_of_mem {c : Char} {token text : String} (htoken : token.toList = [c])
    (h : c ∈ text.toList) : hasInfix token text = true := by
  obtain ⟨front, rest, hsplit⟩ := List.append_of_mem h
  unfold hasInfix
  rw [List.any_eq_true]
  refine ⟨c :: rest, ?_, ?_⟩
  · rw [List.mem_tails, hsplit]
    exact List.suffix_append _ _
  · rw [htoken]
    simp

/-- A command that passes the blacklist has no operator character but `&`, and no substitution. -/
theorem unlisted_of_mem {command : String} (h : hasShellOperator command = false) {c : Char}
    (hmem : c ∈ command.toList) : (operatorChars.contains c = true → c = '&') ∧ startsSubstitution c = false := by
  unfold hasShellOperator at h
  have habsent : ∀ token ∈ shellTokens, token.toList ≠ [c] := by
    intro token htoken heq
    have hfalse := List.any_eq_false.mp h token htoken
    exact hfalse (hasInfix_of_mem heq hmem)
  constructor
  · intro hop
    simp only [operatorChars, List.contains_eq_mem, List.mem_cons, List.not_mem_nil, or_false,
      decide_eq_true_eq] at hop
    rcases hop with rfl | rfl | rfl | rfl | rfl | rfl | rfl
    · rfl
    · exact absurd rfl (habsent ";" (by decide))
    · exact absurd rfl (habsent "|" (by decide))
    · exact absurd rfl (habsent "<" (by decide))
    · exact absurd rfl (habsent ">" (by decide))
    · exact absurd rfl (habsent "(" (by decide))
    · exact absurd rfl (habsent ")" (by decide))
  · unfold startsSubstitution
    rw [Bool.or_eq_false_iff, decide_eq_false_iff_not, decide_eq_false_iff_not]
    constructor
    · rintro rfl
      exact habsent "$" (by decide) rfl
    · rintro rfl
      exact habsent "`" (by decide) rfl

theorem emitToken_eq {token : ShellToken} {rest : Option (List ShellToken)} {tokens : List ShellToken}
    (h : emitToken token rest = some tokens) : ∃ tokens', rest = some tokens' ∧ tokens = token :: tokens' := by
  obtain ⟨tokens', hrest, rfl⟩ := Option.map_eq_some_iff.mp h
  exact ⟨tokens', hrest, rfl⟩

/-- **The blacklist excludes every token but words, `&` and newlines.** -/
theorem lexShell_unlisted {text : List Char}
    (hlist : ∀ c ∈ text, (operatorChars.contains c = true → c = '&') ∧ startsSubstitution c = false)
    {mode : ShellMode} {tokens : List ShellToken} (h : lexShell mode text = some tokens) :
    ∀ token ∈ tokens, token.unlisted = true := by
  induction text generalizing mode tokens with
  | nil =>
      cases mode <;> simp only [lexShell, Option.some.injEq, reduceCtorEq] at h <;> subst h <;>
        simp [ShellToken.unlisted]
  | cons c text ih =>
      obtain ⟨hop, hsub⟩ := hlist c List.mem_cons_self
      have hrest := fun c' hc' => hlist c' (List.mem_cons_of_mem c hc')
      have hnote : ∀ rest, noteSubstitution c rest = rest := fun rest => by
        unfold noteSubstitution
        rw [hsub]
        rfl
      have hemit : ∀ {token : ShellToken} {rest : Option (List ShellToken)}, token.unlisted = true →
          (∀ {tokens : List ShellToken}, rest = some tokens → ∀ token ∈ tokens, token.unlisted = true) →
          ∀ {tokens : List ShellToken}, emitToken token rest = some tokens →
          ∀ token ∈ tokens, token.unlisted = true := by
        intro token rest htoken hall tokens hsome token' hmem
        obtain ⟨tokens', hrest', rfl⟩ := emitToken_eq hsome
        rcases List.mem_cons.mp hmem with rfl | hmem'
        · exact htoken
        · exact hall hrest' token' hmem'
      cases mode with
      | between =>
          simp only [lexShell, hnote] at h
          split_ifs at h with h1 h2 h3 h4
          · exact ih hrest h
          · exact hemit rfl (ih hrest) h
          · exact hemit (by simp [ShellToken.unlisted, hop h3]) (ih hrest) h
          · exact ih hrest h
          · exact ih hrest h
      | word raw =>
          simp only [lexShell, hnote] at h
          split_ifs at h with h1 h2 h3
          · exact hemit rfl (ih hrest) h
          · exact hemit rfl (hemit rfl (ih hrest)) h
          · exact hemit rfl (hemit (by simp [ShellToken.unlisted, hop h3]) (ih hrest)) h
          · exact ih hrest h
      | escape raw =>
          simp only [lexShell] at h
          split_ifs at h <;> exact ih hrest h
      | single raw => exact ih hrest h
      | double raw =>
          simp only [lexShell, hnote] at h
          split_ifs at h <;> exact ih hrest h
      | doubleEscape raw => exact ih hrest h
      | comment =>
          simp only [lexShell] at h
          split_ifs at h
          · exact hemit rfl (ih hrest) h
          · exact ih hrest h

/-! ### When the two readings agree -/

/-- Read by the shell, the quotations of the command are closed, no `&` and no newline separates commands
in it, and the word that names what is executed, without its quotes, is on the list. -/
def ReadsAsOne (allowed : List String) (command : List Char) : Prop :=
  ∃ tokens raw, lexShell .between command = some tokens ∧
    ShellToken.operator '&' ∉ trimNewlines tokens ∧ ShellToken.newline ∉ trimNewlines tokens ∧
    commandWord ((trimNewlines tokens).filterMap ShellToken.word?) = some raw ∧
    String.ofList (unquote .plain raw) ∈ allowed

theorem mem_of_mem_trimNewlines {token : ShellToken} {tokens : List ShellToken}
    (h : token ∈ trimNewlines tokens) : token ∈ tokens := by
  unfold trimNewlines at h
  rw [List.mem_reverse] at h
  have hdrop := (List.dropWhile_sublist _).subset h
  rw [List.mem_reverse] at hdrop
  exact (List.dropWhile_sublist _).subset hdrop

theorem filterMap_word (raw : List Char) (tokens : List ShellToken) :
    (ShellToken.word raw :: tokens).filterMap ShellToken.word? = raw :: tokens.filterMap ShellToken.word? := rfl

/-- Tokens that are all words. -/
theorem eq_map_word {tokens : List ShellToken} (hall : ∀ token ∈ tokens, token.unlisted = true)
    (hamp : ShellToken.operator '&' ∉ tokens) (hnewline : ShellToken.newline ∉ tokens) :
    tokens = (tokens.filterMap ShellToken.word?).map ShellToken.word := by
  induction tokens with
  | nil => rfl
  | cons token tokens ih =>
      rw [List.mem_cons, not_or] at hamp hnewline
      have htail := ih (fun t ht => hall t (List.mem_cons_of_mem _ ht)) hamp.2 hnewline.2
      cases token with
      | word raw =>
          rw [filterMap_word, List.map_cons, ← htail]
      | operator c =>
          have hc : c = '&' := of_decide_eq_true (hall (.operator c) List.mem_cons_self)
          exact absurd (by rw [hc]) hamp.1
      | newline => exact absurd rfl hnewline.1
      | substitution => exact absurd (hall .substitution List.mem_cons_self) (by decide)

theorem filterMap_map_word (words : List (List Char)) :
    (words.map ShellToken.word).filterMap ShellToken.word? = words := by
  induction words with
  | nil => rfl
  | cons raw words ih => rw [List.map_cons, filterMap_word, ih]

/-- Behind the blacklist a text is a single simple command from the list exactly when it reads as one. -/
theorem executes_iff {allowed : List String} {command : String} (h : hasShellOperator command = false) :
    (∃ executable, Executes command.toList executable ∧ String.ofList executable ∈ allowed) ↔
      ReadsAsOne allowed command.toList := by
  constructor
  · rintro ⟨executable, ⟨tokens, words, raw, hlex, htrim, hword, rfl⟩, hallowed⟩
    refine ⟨tokens, raw, hlex, ?_, ?_, ?_, hallowed⟩
    · rw [htrim]
      simp
    · rw [htrim]
      simp
    · rw [htrim, filterMap_map_word]
      exact hword
  · rintro ⟨tokens, raw, hlex, hamp, hnewline, hword, hallowed⟩
    have hall := lexShell_unlisted (fun c hc => unlisted_of_mem h hc) hlex
    have htrim := eq_map_word (fun t ht => hall t (mem_of_mem_trimNewlines ht)) hamp hnewline
    exact ⟨_, ⟨tokens, _, raw, hlex, htrim, hword, rfl⟩, hallowed⟩

/-- A character that neither reading gives a meaning to, or a blank. -/
def isPlain (c : Char) : Bool :=
  !(operatorChars ++ [quoteMark, '"', '\\', '#', '\n', '\r', '$', backQuote]).contains c

theorem isPlain_ne {c d : Char} (h : isPlain c = true)
    (hd : d ∈ operatorChars ++ [quoteMark, '"', '\\', '#', '\n', '\r', '$', backQuote]) : c ≠ d := by
  rintro rfl
  unfold isPlain at h
  rw [List.contains_iff_mem.mpr hd] at h
  cases h

theorem isPlain_operator {c : Char} (h : isPlain c = true) : operatorChars.contains c = false := by
  rw [← Bool.not_eq_true, List.contains_iff_mem]
  exact fun hc => isPlain_ne h (List.mem_append_left _ hc) rfl

theorem isPlain_wordMode {c : Char} (h : isPlain c = true) (raw : List Char) :
    wordMode raw c = .word (raw ++ [c]) := by
  unfold wordMode
  rw [if_neg (isPlain_ne h (by decide)), if_neg (isPlain_ne h (by decide)), if_neg (isPlain_ne h (by decide))]

theorem isPlain_note {c : Char} (h : isPlain c = true) (rest : Option (List ShellToken)) :
    noteSubstitution c rest = rest := by
  have hsub : startsSubstitution c = false := by
    unfold startsSubstitution
    rw [decide_eq_false (isPlain_ne h (by decide)), decide_eq_false (isPlain_ne h (by decide))]
    rfl
  unfold noteSubstitution
  rw [hsub]
  rfl

theorem isPlain_space {c : Char} (h : isPlain c = true) : isShlexSpace c = isBlank c := by
  unfold isShlexSpace isBlank
  rw [decide_eq_false (isPlain_ne (d := '\r') h (by decide)),
    decide_eq_false (isPlain_ne (d := '\n') h (by decide)), Bool.or_false, Bool.or_false]

theorem isPlain_mark {c : Char} (h : isPlain c = true) : (c = quoteMark || c = '"') = false := by
  rw [decide_eq_false (isPlain_ne h (by decide)), decide_eq_false (isPlain_ne h (by decide))]
  rfl

/-- The words of a plain text, as `shlex` finds them from between two words and from within one; the shell
finds the same. -/
theorem lexShell_plain {text : List Char} (hplain : ∀ c ∈ text, isPlain c = true) :
    (∃ words, shlexSplit .between text = some words ∧
        lexShell .between text = some (words.map .word) ∧ ∀ word ∈ words, ∀ c ∈ word, isPlain c = true) ∧
      ∀ raw, (∀ c ∈ raw, isPlain c = true) →
        ∃ words, shlexSplit (.word raw) text = some words ∧
          lexShell (.word raw) text = some (words.map .word) ∧ ∀ word ∈ words, ∀ c ∈ word, isPlain c = true := by
  induction text with
  | nil =>
      refine ⟨⟨[], rfl, rfl, fun word h => absurd h List.not_mem_nil⟩, fun raw hraw => ⟨[raw], rfl, rfl, ?_⟩⟩
      intro word hword
      rw [List.mem_singleton.mp hword]
      exact hraw
  | cons c text ih =>
      have hc := hplain c List.mem_cons_self
      obtain ⟨⟨between, hsplit, hlex, hall⟩, hword⟩ := ih fun d hd => hplain d (List.mem_cons_of_mem c hd)
      have hnewline : c ≠ '\n' := isPlain_ne hc (by decide)
      have hhash : c ≠ '#' := isPlain_ne hc (by decide)
      have hgrow : ∀ {raw : List Char}, (∀ d ∈ raw, isPlain d = true) → ∀ d ∈ raw ++ [c], isPlain d = true := by
        intro raw hraw d hd
        rcases List.mem_append.mp hd with hd' | hd'
        · exact hraw d hd'
        · rw [List.mem_singleton.mp hd']
          exact hc
      constructor
      · cases hblank : isBlank c with
        | true =>
            refine ⟨between, ?_, ?_, hall⟩
            · simp only [shlexSplit, isPlain_space hc, hblank, if_true, hsplit]
            · simp only [lexShell, hblank, if_true, hlex]
        | false =>
            obtain ⟨words, hs, hl, ha⟩ := hword [c] (hgrow (fun d hd => absurd hd List.not_mem_nil))
            refine ⟨words, ?_, ?_, ha⟩
            · simp only [shlexSplit, isPlain_space hc, hblank, isPlain_mark hc, Bool.false_eq_true, if_false, hs]
            · simp only [lexShell, hblank, hnewline, isPlain_operator hc, hhash, Bool.false_eq_true, if_false,
                isPlain_note hc, isPlain_wordMode hc, List.nil_append, hl]
      · intro raw hraw
        cases hblank : isBlank c with
        | true =>
            refine ⟨raw :: between, ?_, ?_, ?_⟩
            · simp only [shlexSplit, isPlain_space hc, hblank, if_true, hsplit, Option.map_some]
            · simp only [lexShell, hblank, if_true, hlex, emitToken, Option.map_some, List.map_cons]
            · intro word hmem
              rcases List.mem_cons.mp hmem with rfl | hmem'
              · exact hraw
              · exact hall word hmem'
        | false =>
            obtain ⟨words, hs, hl, ha⟩ := hword (raw ++ [c]) (hgrow hraw)
            refine ⟨words, ?_, ?_, ha⟩
            · simp only [shlexSplit, isPlain_space hc, hblank, Bool.false_eq_true, if_false, hs]
            · simp only [lexShell, hblank, hnewline, isPlain_operator hc, Bool.false_eq_true, if_false,
                isPlain_note hc, isPlain_wordMode hc, hl]

theorem unquote_plain {raw : List Char} (hplain : ∀ c ∈ raw, isPlain c = true) : unquote .plain raw = raw := by
  induction raw with
  | nil => rfl
  | cons c raw ih =>
      have hc := hplain c List.mem_cons_self
      have hback : c ≠ '\\' := isPlain_ne hc (by decide)
      have hsingle : c ≠ quoteMark := isPlain_ne hc (by decide)
      have hdouble : c ≠ '"' := isPlain_ne hc (by decide)
      rw [unquote, if_neg hback, if_neg hsingle, if_neg hdouble]
      rw [ih fun d hd => hplain d (List.mem_cons_of_mem c hd)]

theorem stripQuotes_plain {raw : List Char} (hplain : ∀ c ∈ raw, isPlain c = true) : stripQuotes raw = raw := by
  have hdrop : ∀ {text : List Char}, (∀ c ∈ text, isPlain c = true) →
      text.dropWhile (fun c => c = quoteMark || c = '"') = text := by
    intro text htext
    cases text with
    | nil => rfl
    | cons c text =>
        rw [List.dropWhile_cons, isPlain_mark (htext c List.mem_cons_self), if_neg Bool.false_ne_true]
  dsimp only [stripQuotes]
  rw [hdrop hplain, hdrop fun c hc => hplain c (List.mem_reverse.mp hc), List.reverse_reverse]

theorem trimNewlines_words (words : List (List Char)) :
    trimNewlines (words.map .word) = words.map .word := by
  have hdrop : ∀ ws : List (List Char),
      (ws.map ShellToken.word).dropWhile (· = .newline) = ws.map .word := by
    intro ws
    cases ws with
    | nil => rfl
    | cons w ws => rfl
  unfold trimNewlines
  rw [hdrop, ← List.map_reverse, hdrop, ← List.map_reverse, List.reverse_reverse]

/-- **The command rule is sound on plain text** whose first word is neither reserved nor an assignment: what
is accepted is a single command, and the word the guard looked up names its executable. -/
theorem executes_of_plain {allowed : List String} {command : String} (hne : allowed ≠ [])
    (hplain : ∀ c ∈ command.toList, isPlain c = true) (h : commandAccepted allowed command = true)
    (hword : reservedWords.contains (guardExecutable command.toList) = false)
    (hassign : isAssignment (guardExecutable command.toList) = false) :
    Executes command.toList (guardExecutable command.toList) ∧
      String.ofList (guardExecutable command.toList) ∈ allowed := by
  have hempty : allowed.isEmpty = false := by simpa using hne
  unfold commandAccepted listsExecutable at h
  rw [hempty, Bool.false_or, Bool.and_eq_true, Bool.and_eq_true, List.contains_iff_mem] at h
  obtain ⟨-, hsome, hlisted⟩ := h
  refine ⟨?_, hlisted⟩
  obtain ⟨⟨words, hsplit, hlex, hall⟩, -⟩ := lexShell_plain hplain
  cases words with
  | nil =>
      unfold guardExecutable at hsome
      rw [hsplit] at hsome
      cases hsome
  | cons first rest =>
      have hfirst := hall first List.mem_cons_self
      have hguard : guardExecutable command.toList = first := by
        unfold guardExecutable
        rw [hsplit]
        exact stripQuotes_plain hfirst
      rw [hguard] at hword hassign ⊢
      refine ⟨_, first :: rest, first, hlex, trimNewlines_words _, ?_, unquote_plain hfirst⟩
      rw [commandWord, hword, if_neg Bool.false_ne_true, List.find?_cons, hassign]
      rfl

end JAgent
