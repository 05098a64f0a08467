import Mathlib.Data.List.Basic

/-! # The words of a command line

How a POSIX shell splits a command line into words and operators, as far as quoting decides it.  A
character that makes the shell look further (an expansion, a pattern, an escape, a comment) ends the
reading with `none` unless it is quoted, so that a command line with tokens is one whose words the
shell takes as they stand.

The reader is a machine that takes one character at a time (`step`), so that the reading of a
concatenation is put together from the readings of its parts (`run_append`).  `quote` writes a text as
one word; `run_quote` says that it is read as that text and nothing else, wherever a word may stand. -/

namespace Lib.Shell

/-- The single quote. -/
def apostrophe : Char := Char.ofNat 39

/-- The back-quote. -/
def backQuote : Char := Char.ofNat 96

inductive Token where
  | word (text : List Char)
  | op (text : List Char)
deriving DecidableEq

/-- What the reader is in: outside quotes with the word begun, in quotes, or after an operator. -/
inductive Mode where
  | plain (cur : Option (List Char))
  | single (cur : List Char)
  | double (cur : List Char)
  | operator (text : List Char)
deriving DecidableEq

def isBlank (c : Char) : Bool := c = ' ' || c = '\t'

/-- The characters that operators consist of. -/
def operatorChars : List Char := ['|', '&', ';', '<', '>', '(', ')', '\n']

/-- The characters that have a meaning of their own outside quotes. -/
def activeChars : List Char :=
  ['$', backQuote, '\\', '*', '?', '[', ']', '#', '~', '!', '\x7b', '\x7d', '^']

/-- The characters that have a meaning of their own between double quotes. -/
def doubleActive : List Char := ['$', backQuote, '\\']

/-- The operators of two characters. -/
def extends? (text : List Char) (c : Char) : Bool :=
  (text ++ [c]) ∈ [['&', '&'], ['|', '|'], [';', ';'], ['<', '<'], ['>', '>'], ['<', '&'], ['>', '&'],
    ['<', '>'], ['>', '|']]

/-- The word that ends here. -/
def closed : Option (List Char) → List Token
  | none => []
  | some text => [.word text]

/-- Read a character outside quotes. -/
def plainStep (cur : Option (List Char)) (c : Char) : Option (List Token × Mode) :=
  if c = apostrophe then some ([], .single (cur.getD []))
  else if c = '"' then some ([], .double (cur.getD []))
  else if isBlank c then some (closed cur, .plain none)
  else if c ∈ operatorChars then some (closed cur, .operator [c])
  else if c ∈ activeChars then none
  else some ([], .plain (some (cur.getD [] ++ [c])))

/-- Read a character: the tokens that end with it, and what the reader is in afterwards. -/
def step : Mode → Char → Option (List Token × Mode)
  | .plain cur, c => plainStep cur c
  | .single cur, c => some ([], if c = apostrophe then .plain (some cur) else .single (cur ++ [c]))
  | .double cur, c =>
      if c = '"' then some ([], .plain (some cur))
      else if c ∈ doubleActive then none
      else some ([], .double (cur ++ [c]))
  | .operator text, c =>
      if extends? text c then some ([], .operator (text ++ [c]))
      else (plainStep none c).map fun r => (.op text :: r.1, r.2)

/-- Read one character after the other. -/
def run : Mode → List Char → Option (List Token × Mode)
  | m, [] => some ([], m)
  | m, c :: cs => do
      let r ← step m c
      let s ← run r.2 cs
      return (r.1 ++ s.1, s.2)

/-- The tokens that end with the command line; an open quote is none. -/
def finish : Mode → Option (List Token)
  | .plain cur => some (closed cur)
  | .operator text => some [.op text]
  | .single _ => none
  | .double _ => none

/-- The tokens of a command line. -/
def tokens (command : List Char) : Option (List Token) := do
  let r ← run (.plain none) command
  let last ← finish r.2
  return r.1 ++ last

/-! ### Reading a concatenation -/

theorem run_append (m : Mode) (xs ys : List Char) : run m (xs ++ ys) = do
    let r ← run m xs
    let s ← run r.2 ys
    return (r.1 ++ s.1, s.2) := by
  induction xs generalizing m with
  | nil =>
      show run m ys = _
      cases h : run m ys with
      | none => simp only [run, h, Option.bind_eq_bind, Option.bind_some, Option.bind_none]
      | some s => simp only [run, h, Option.bind_eq_bind, Option.bind_some, List.nil_append, pure]
  | cons c cs ih =>
      simp only [List.cons_append, run]
      cases step m c with
      | none => rfl
      | some r =>
          show (run r.2 (cs ++ ys)).bind _ = ((run r.2 cs).bind _).bind _
          rw [ih]
          cases run r.2 cs with
          | none => rfl
          | some s =>
              show ((run s.2 ys).bind _).bind _ = (run s.2 ys).bind _
              cases run s.2 ys with
              | none => rfl
              | some t =>
                  show some (r.1 ++ (s.1 ++ t.1), t.2) = some (r.1 ++ s.1 ++ t.1, t.2)
                  rw [List.append_assoc]

/-- Two readings, one after the other. -/
theorem run_append_of_eq {m m' m'' : Mode} {xs ys : List Char} {ts us : List Token}
    (h : run m xs = some (ts, m')) (h' : run m' ys = some (us, m'')) :
    run m (xs ++ ys) = some (ts ++ us, m'') := by
  rw [run_append, h]
  show (run m' ys).bind _ = _
  rw [h']
  rfl

theorem tokens_of_run {command : List Char} {ts last : List Token} {m : Mode}
    (h : run (.plain none) command = some (ts, m)) (hlast : finish m = some last) :
    tokens command = some (ts ++ last) := by
  rw [tokens, h]
  show (finish m).bind _ = _
  rw [hlast]
  rfl

/-! ### Quoting -/

/-- The characters that stand for themselves in any word. -/
def isSafe (c : Char) : Bool := c.isAlphanum || c ∈ ['@', '%', '+', '=', ':', ',', '.', '/', '-', '_']

/-- What stands for a character between single quotes. -/
def inQuotes (c : Char) : List Char :=
  if c = apostrophe then [apostrophe, '"', apostrophe, '"', apostrophe] else [c]

/-- Write a text as one word. -/
def quote (text : List Char) : List Char :=
  if text = [] then [apostrophe, apostrophe]
  else if text.all isSafe then text
  else apostrophe :: text.flatMap inQuotes ++ [apostrophe]

/-- The characters that the reader treats specially outside quotes. -/
def specialChars : List Char := [apostrophe, '"', ' ', '\t'] ++ operatorChars ++ activeChars

theorem isSafe_special : ∀ c ∈ specialChars, isSafe c = false := by
  have hall : (specialChars.all fun c => !isSafe c) = true := by decide
  intro c hc
  have hc := List.all_eq_true.mp hall c hc
  rwa [Bool.not_eq_true'] at hc

/-- A character that is not special stands for itself. -/
theorem plainStep_of_not_special (cur : Option (List Char)) {c : Char} (h : c ∉ specialChars) :
    plainStep cur c = some ([], .plain (some (cur.getD [] ++ [c]))) := by
  simp only [specialChars, List.mem_append, List.mem_cons, List.not_mem_nil, or_false, not_or] at h
  obtain ⟨⟨⟨hsingle, hdouble, hspace, htab⟩, hop⟩, hactive⟩ := h
  have hblank : isBlank c = false := by
    simp only [isBlank, hspace, htab, decide_false, Bool.or_self]
  rw [plainStep, if_neg hsingle, if_neg hdouble, hblank]
  rw [if_neg Bool.false_ne_true, if_neg (by simpa [operatorChars] using hop),
    if_neg (by simpa [activeChars] using hactive)]

/-- A text of characters that are not special is read as a part of one word. -/
theorem run_of_not_special (cur : List Char) {text : List Char} (h : ∀ c ∈ text, c ∉ specialChars) :
    run (.plain (some cur)) text = some ([], .plain (some (cur ++ text))) := by
  induction text generalizing cur with
  | nil => simp only [run, List.append_nil]
  | cons c cs ih =>
      have hrest := ih (cur ++ [c]) fun d hd => h d (List.mem_cons_of_mem c hd)
      rw [run, step, plainStep_of_not_special _ (h c List.mem_cons_self)]
      show (run (.plain (some (cur ++ [c]))) cs).bind _ = _
      rw [hrest, List.append_assoc]
      rfl

/-- A word begins with the first character that is not special. -/
theorem run_word {text : List Char} (hne : text ≠ []) (h : ∀ c ∈ text, c ∉ specialChars)
    (cur : Option (List Char)) :
    run (.plain cur) text = some ([], .plain (some (cur.getD [] ++ text))) := by
  cases text with
  | nil => exact absurd rfl hne
  | cons c cs =>
      have hrest := run_of_not_special (cur.getD [] ++ [c]) fun d hd => h d (List.mem_cons_of_mem c hd)
      rw [run, step, plainStep_of_not_special _ (h c List.mem_cons_self)]
      show (run (.plain (some (cur.getD [] ++ [c]))) cs).bind _ = _
      rw [hrest, List.append_assoc]
      rfl

/-- Between single quotes every character is read as it stands. -/
theorem run_inQuotes (cur text : List Char) :
    run (.single cur) (text.flatMap inQuotes ++ [apostrophe]) = some ([], .plain (some (cur ++ text))) := by
  induction text generalizing cur with
  | nil => simp [run, step]
  | cons c cs ih =>
      have hchar : run (.single cur) (inQuotes c) = some ([], .single (cur ++ [c])) := by
        by_cases hc : c = apostrophe
        · subst hc
          rfl
        · simp [inQuotes, run, step, hc]
      rw [List.flatMap_cons, List.append_assoc, run_append_of_eq hchar (ih (cur ++ [c]))]
      rw [List.append_assoc]
      rfl

/-- **A quoted text is read as itself**, after whatever of a word has been read. -/
theorem run_quote (cur : Option (List Char)) (text : List Char) :
    run (.plain cur) (quote text) = some ([], .plain (some (cur.getD [] ++ text))) := by
  unfold quote
  split_ifs with hnil hsafe
  · subst hnil
    simp [run, step, plainStep]
  · apply run_word hnil
    intro c hc hspecial
    have hbad := isSafe_special c hspecial
    rw [List.all_eq_true.mp hsafe c hc] at hbad
    cases hbad
  · rw [List.cons_append, run, step, plainStep, if_pos rfl]
    show (run (.single (cur.getD [])) _).bind _ = _
    rw [run_inQuotes]
    rfl

end Lib.Shell
