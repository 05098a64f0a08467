import JAgent.Value

/-! # The JSON decoder

`jsonLoads` is `json.loads`: the scanner of the host language's decoder, one definition per
function of it, over the characters that are left.  The scanner is structural on fuel; the length
of the text is enough of it.  A text that names a value with no counterpart here (a lone
surrogate, `NaN`, an infinity) counts as one that cannot be decoded, and `float(…)` is the
parameter `parseFloat`. -/

namespace JAgent

/-! ### Distinct keys -/

namespace Value

mutual
/-- The keys of every object in the value are distinct, as those of a `dict` are. -/
def distinct : Value → Bool
  | .arr xs => distinctList xs
  | .obj a => decide (a.map Prod.fst).Nodup && distinctObj a
  | _ => true
def distinctList : List Value → Bool
  | [] => true
  | v :: vs => distinct v && distinctList vs
def distinctObj : List (String × Value) → Bool
  | [] => true
  | (_, v) :: a => distinct v && distinctObj a
end

@[simp] theorem distinct_arr {xs : List Value} : distinct (.arr xs) = distinctList xs := by
  simp only [distinct]

@[simp] theorem distinct_obj {a : Obj} :
    distinct (.obj a) = (decide (a.map Prod.fst).Nodup && distinctObj a) := by
  simp only [distinct]

theorem distinctList_iff {xs : List Value} :
    distinctList xs = true ↔ ∀ v ∈ xs, v.distinct = true := by
  induction xs with
  | nil => simp [distinctList]
  | cons v vs ih => simp [distinctList, ih]

theorem distinctObj_iff {a : Obj} : distinctObj a = true ↔ ∀ p ∈ a, p.2.distinct = true := by
  induction a with
  | nil => simp [distinctObj]
  | cons p a ih =>
      obtain ⟨k, v⟩ := p
      simp [distinctObj, ih]

mutual
/-- The binary fractions in a value. -/
def floats : Value → List Dyadic
  | .float d => [d]
  | .arr xs => floatsList xs
  | .obj a => floatsObj a
  | _ => []
def floatsList : List Value → List Dyadic
  | [] => []
  | v :: vs => floats v ++ floatsList vs
def floatsObj : List (String × Value) → List Dyadic
  | [] => []
  | (_, v) :: a => floats v ++ floatsObj a
end

end Value

/-! ### Characters -/

/-- The text after the character `c`; `none` when another one is next. -/
def expect (c : Char) : List Char → Option (List Char)
  | [] => none
  | d :: cs => if d = c then some cs else none

/-- The whitespace the decoder skips. -/
def isJsonSpace (c : Char) : Bool := c = ' ' || c = '\t' || c = '\n' || c = '\r'

def skipSpace (cs : List Char) : List Char := cs.dropWhile isJsonSpace

@[simp] theorem expect_cons_self (c : Char) (cs : List Char) : expect c (c :: cs) = some cs := by
  simp [expect]

theorem expect_cons_ne {c d : Char} (h : d ≠ c) (cs : List Char) : expect c (d :: cs) = none := by
  simp [expect, h]

theorem skipSpace_cons {c : Char} (h : isJsonSpace c = false) (cs : List Char) :
    skipSpace (c :: cs) = c :: cs := by
  simp [skipSpace, h]

/-! ### String literals -/

/-- The value of a hexadecimal digit. -/
def hexValue (c : Char) : Option ℕ :=
  if c.isDigit then some (c.toNat - 48)
  else if 97 ≤ c.toNat && c.toNat ≤ 102 then some (c.toNat - 87)
  else if 65 ≤ c.toNat && c.toNat ≤ 70 then some (c.toNat - 55)
  else none

/-- Read `k` hexadecimal digits after those that make up `acc`. -/
def scanHex : ℕ → ℕ → List Char → Option (ℕ × List Char)
  | 0, acc, cs => some (acc, cs)
  | _ + 1, _, [] => none
  | k + 1, acc, c :: cs => (hexValue c).bind fun d => scanHex k (acc * 16 + d) cs

/-- `chr(n)`. -/
def chr (n : ℕ) : Option Char := if n.isValidChar then some (Char.ofNat n) else none

/-- The four digits after `\u`, and those of the second half of a surrogate pair. -/
def scanUnicode (cs : List Char) : Option (Char × List Char) :=
  (scanHex 4 0 cs).bind fun (n, cs) =>
    if 0xd800 ≤ n ∧ n ≤ 0xdbff then
      (expect '\\' cs).bind fun cs => (expect 'u' cs).bind fun cs =>
        (scanHex 4 0 cs).bind fun (m, cs) =>
          if 0xdc00 ≤ m ∧ m ≤ 0xdfff then
            (chr (0x10000 + (n - 0xd800) * 1024 + (m - 0xdc00))).map fun c => (c, cs)
          else none
    else (chr n).map fun c => (c, cs)

/-- The character after a backslash and what it stands for. -/
def scanEscape : List Char → Option (Char × List Char)
  | [] => none
  | c :: cs =>
    if c = 'u' then scanUnicode cs
    else if c = '\\' || c = '/' || c.toNat = 34 then some (c, cs)
    else if c = 'n' then some ('\n', cs)
    else if c = 'r' then some ('\r', cs)
    else if c = 't' then some ('\t', cs)
    else if c = 'b' then some (Char.ofNat 8, cs)
    else if c = 'f' then some (Char.ofNat 12, cs)
    else none

/-- One character of a string literal; control characters must be escaped. -/
def scanChar : List Char → Option (Char × List Char)
  | [] => none
  | c :: cs =>
    if c = '\\' then scanEscape cs
    else if c.toNat < 32 then none
    else some (c, cs)

/-- `scanstring`: the literal whose opening quote has been read. -/
def scanString : ℕ → List Char → Option (List Char × List Char)
  | 0, _ => none
  | n + 1, cs => match expect (Char.ofNat 34) cs with
    | some rest => some ([], rest)
    | none => (scanChar cs).bind fun (c, cs) =>
      (scanString n cs).map fun (s, rest) => (c :: s, rest)

/-! ### Number literals -/

/-- The digits at the front, and the rest. -/
def spanDigits (cs : List Char) : List Char × List Char :=
  (cs.takeWhile Char.isDigit, cs.dropWhile Char.isDigit)

/-- `-?`. -/
def matchSign : List Char → List Char × List Char
  | [] => ([], [])
  | c :: cs => if c = '-' then (['-'], cs) else ([], c :: cs)

/-- `0|[1-9][0-9]*`. -/
def matchInt : List Char → Option (List Char × List Char)
  | [] => none
  | c :: cs =>
    if c = '0' then some (['0'], cs)
    else if c.isDigit then some (c :: (spanDigits cs).1, (spanDigits cs).2)
    else none

/-- `(\.[0-9]+)?`. -/
def matchFrac : List Char → List Char × List Char
  | [] => ([], [])
  | c :: cs =>
    if c = '.' && !(spanDigits cs).1.isEmpty then ('.' :: (spanDigits cs).1, (spanDigits cs).2)
    else ([], c :: cs)

/-- `[-+]?` of an exponent. -/
def matchExpSign : List Char → List Char × List Char
  | [] => ([], [])
  | c :: cs => if c = '-' || c = '+' then ([c], cs) else ([], c :: cs)

/-- `([eE][-+]?[0-9]+)?`. -/
def matchExp : List Char → List Char × List Char
  | [] => ([], [])
  | c :: cs =>
    let (sign, ds) := matchExpSign cs
    if (c = 'e' || c = 'E') && !(spanDigits ds).1.isEmpty then
      (c :: sign ++ (spanDigits ds).1, (spanDigits ds).2)
    else ([], c :: cs)

/-- A match of `NUMBER_RE`: its groups and the rest of the text. -/
structure NumberMatch where
  sign : List Char
  integer : List Char
  frac : List Char
  exp : List Char
  rest : List Char
deriving DecidableEq

/-- `match_number`. -/
def matchNumber (cs : List Char) : Option NumberMatch :=
  let (sign, cs) := matchSign cs
  (matchInt cs).map fun (integer, cs) =>
    let (frac, cs) := matchFrac cs
    let (exp, cs) := matchExp cs
    { sign := sign, integer := integer, frac := frac, exp := exp, rest := cs }

namespace NumberMatch

/-- The text of the literal. -/
def text (m : NumberMatch) : List Char := m.sign ++ m.integer ++ m.frac ++ m.exp

/-- `int(…)` of the literal. -/
def int (m : NumberMatch) : ℤ :=
  if m.sign = [] then Nat.ofDigitChars 10 m.integer 0 else -(Nat.ofDigitChars 10 m.integer 0 : ℤ)

/-- The literal has a fraction or an exponent. -/
def isFloat (m : NumberMatch) : Bool := !m.frac.isEmpty || !m.exp.isEmpty

end NumberMatch

/-! ### Values -/

section
variable (parseFloat : String → Option Dyadic)

/-- A number literal and its value. -/
def scanNumber (cs : List Char) : Option (Value × List Char) :=
  (matchNumber cs).bind fun m =>
    if m.isFloat then (parseFloat (String.ofList m.text)).map fun d => (.float d, m.rest)
    else some (.int m.int, m.rest)

/-- What follows an element of an array or a member of an object: the closing character, or a comma
and more of them. -/
def scanMore {α : Type} (close : Char) (more : List Char → Option (List α × List Char)) (x : α)
    (cs : List Char) : Option (List α × List Char) :=
  match expect close (skipSpace cs) with
  | some rest => some ([x], rest)
  | none => (expect ',' (skipSpace cs)).bind fun cs =>
    (more (skipSpace cs)).map fun (xs, rest) => (x :: xs, rest)

mutual
/-- `scan_once`. -/
def scanOnce : ℕ → List Char → Option (Value × List Char)
  | 0, _ => none
  | _ + 1, [] => none
  | n + 1, c :: cs =>
    if c = Char.ofNat 34 then
      (scanString cs.length cs).map fun (s, rest) => (.str (String.ofList s), rest)
    else if c = '\x7b' then match expect '\x7d' (skipSpace cs) with
      | some rest => some (.obj [], rest)
      | none => (scanMembers n (skipSpace cs)).map fun (kvs, rest) =>
        (.obj (Lib.Dict.ofPairs kvs).items, rest)
    else if c = '[' then match expect ']' (skipSpace cs) with
      | some rest => some (.arr [], rest)
      | none => (scanElements n (skipSpace cs)).map fun (xs, rest) => (.arr xs, rest)
    else if ['n', 'u', 'l', 'l'].isPrefixOf (c :: cs) then some (.null, cs.drop 3)
    else if ['t', 'r', 'u', 'e'].isPrefixOf (c :: cs) then some (.bool true, cs.drop 3)
    else if ['f', 'a', 'l', 's', 'e'].isPrefixOf (c :: cs) then some (.bool false, cs.drop 4)
    else scanNumber parseFloat (c :: cs)
/-- The members of `JSONObject`, from the opening quote of the first key. -/
def scanMembers : ℕ → List Char → Option (Obj × List Char)
  | 0, _ => none
  | n + 1, cs =>
    (expect (Char.ofNat 34) cs).bind fun cs => (scanString cs.length cs).bind fun (key, cs) =>
    (expect ':' (skipSpace cs)).bind fun cs => (scanOnce n (skipSpace cs)).bind fun (v, cs) =>
    scanMore '\x7d' (scanMembers n) (String.ofList key, v) cs
/-- The elements of `JSONArray`, from the first one. -/
def scanElements : ℕ → List Char → Option (List Value × List Char)
  | 0, _ => none
  | n + 1, cs => (scanOnce n cs).bind fun (v, cs) => scanMore ']' (scanElements n) v cs
end

/-- `json.loads(s)`; `none` when it raises. -/
def jsonLoads (s : String) : Option Value :=
  (scanOnce parseFloat s.toList.length (skipSpace s.toList)).bind fun (v, rest) =>
    if (skipSpace rest).isEmpty then some v else none

end

end JAgent
