import JAgent.Lib.Dict
import Mathlib.Data.List.Sort

/-! # JSON values and the text functions of the host language

Step inputs, tool inputs and tool outputs are JSON values (`Value`); an object is the list of
its entries in insertion order (`Obj`).  Numbers are integers or binary fractions, as the
decoder of the host language produces them.

The host language's own functions on values and text are defined here once, under the names
the source uses: equality (`pyEq`: numbers compare by value across `bool`, `int` and `float`,
objects ignore entry order), `str` (`pyStr`), `json.dumps` (`dumps`), `strip`, `lower`.
Their behaviour on ASCII is spelled out; what they do outside ASCII, the decimal form of a
fraction, the JSON decoder and the iteration order of sets are the parameters of the class
`Py`. -/

namespace JAgent

/-- A JSON value. -/
inductive Value where
  | null
  | bool (b : Bool)
  | int (n : ℤ)
  | float (d : Dyadic)
  | str (s : String)
  | arr (xs : List Value)
  | obj (kvs : List (String × Value))
deriving Inhabited

/-- The entries of a JSON object, in insertion order. -/
abbrev Obj := List (String × Value)

/-- `o.get(k)`. -/
def Obj.get? (o : Obj) (k : String) : Option Value := Lib.assoc k o

/-! ### Decidable equality -/

namespace Value

mutual
def decEq : (a b : Value) → Decidable (a = b)
  | .null, .null => isTrue rfl
  | .bool a, .bool b => if h : a = b then isTrue (by rw [h]) else isFalse (by simpa using h)
  | .int a, .int b => if h : a = b then isTrue (by rw [h]) else isFalse (by simpa using h)
  | .float a, .float b => if h : a = b then isTrue (by rw [h]) else isFalse (by simpa using h)
  | .str a, .str b => if h : a = b then isTrue (by rw [h]) else isFalse (by simpa using h)
  | .arr a, .arr b => match decEqList a b with
    | isTrue h => isTrue (by rw [h])
    | isFalse h => isFalse (by simpa using h)
  | .obj a, .obj b => match decEqObj a b with
    | isTrue h => isTrue (by rw [h])
    | isFalse h => isFalse (by simpa using h)
  | .null, .bool _ | .null, .int _ | .null, .float _ | .null, .str _ | .null, .arr _
  | .null, .obj _ | .bool _, .null | .bool _, .int _ | .bool _, .float _ | .bool _, .str _
  | .bool _, .arr _ | .bool _, .obj _ | .int _, .null | .int _, .bool _ | .int _, .float _
  | .int _, .str _ | .int _, .arr _ | .int _, .obj _ | .float _, .null | .float _, .bool _
  | .float _, .int _ | .float _, .str _ | .float _, .arr _ | .float _, .obj _ | .str _, .null
  | .str _, .bool _ | .str _, .int _ | .str _, .float _ | .str _, .arr _ | .str _, .obj _
  | .arr _, .null | .arr _, .bool _ | .arr _, .int _ | .arr _, .float _ | .arr _, .str _
  | .arr _, .obj _ | .obj _, .null | .obj _, .bool _ | .obj _, .int _ | .obj _, .float _
  | .obj _, .str _ | .obj _, .arr _ => isFalse (by simp)
def decEqList : (a b : List Value) → Decidable (a = b)
  | [], [] => isTrue rfl
  | [], _ :: _ => isFalse (by simp)
  | _ :: _, [] => isFalse (by simp)
  | v :: a, w :: b => match decEq v w, decEqList a b with
    | isTrue h, isTrue h' => isTrue (by rw [h, h'])
    | isFalse h, _ => isFalse (by simp [h])
    | _, isFalse h => isFalse (by simp [h])
def decEqObj : (a b : List (String × Value)) → Decidable (a = b)
  | [], [] => isTrue rfl
  | [], _ :: _ => isFalse (by simp)
  | _ :: _, [] => isFalse (by simp)
  | (k, v) :: a, (l, w) :: b =>
    if hk : k = l then
      match decEq v w, decEqObj a b with
      | isTrue h, isTrue h' => isTrue (by rw [hk, h, h'])
      | isFalse h, _ => isFalse (by simp [h])
      | _, isFalse h => isFalse (by simp [h])
    else isFalse (by simp [hk])
end

instance : DecidableEq Value := decEq

/-! ### Equality of the host language -/

/-- The value of a number; `True` and `False` count as `1` and `0`. -/
def num? : Value → Option Dyadic
  | .bool b => some (.ofInt (if b then 1 else 0))
  | .int n => some (.ofInt n)
  | .float d => some d
  | _ => none

mutual
/-- `a == b`. -/
def pyEq : Value → Value → Bool
  | .null, w => decide (w = .null)
  | .str s, w => decide (w = .str s)
  | .int n, .int m => decide (n = m)
  | .bool a, .bool b => a == b
  | .arr xs, .arr ys => pyEqList xs ys
  | .obj a, .obj b => a.length == b.length && pyEqObj a b
  | v, w => match num? v, num? w with
    | some x, some y => decide (x = y)
    | _, _ => false
def pyEqList : List Value → List Value → Bool
  | [], [] => true
  | v :: vs, w :: ws => pyEq v w && pyEqList vs ws
  | _, _ => false
/-- Every entry of the first object is in the second one with an equal value. -/
def pyEqObj : List (String × Value) → List (String × Value) → Bool
  | [], _ => true
  | (k, v) :: a, b => (match Lib.assoc k b with
    | some w => pyEq v w
    | none => false) && pyEqObj a b
end

mutual
/-- Order the entries of every object by key, as `json.dumps(…, sort_keys=True)` does. -/
def sortKeys : Value → Value
  | .arr xs => .arr (sortKeysList xs)
  | .obj a => .obj ((sortKeysObj a).insertionSort (fun p q => p.1 ≤ q.1))
  | v => v
def sortKeysList : List Value → List Value
  | [] => []
  | v :: vs => sortKeys v :: sortKeysList vs
def sortKeysObj : List (String × Value) → List (String × Value)
  | [] => []
  | (k, v) :: a => (k, sortKeys v) :: sortKeysObj a
end

/-- `bool(v)`. -/
def truthy : Value → Bool
  | .null => false
  | .bool b => b
  | .int n => decide (n ≠ 0)
  | .float d => decide (d ≠ 0)
  | .str s => decide (s ≠ "")
  | .arr xs => !xs.isEmpty
  | .obj kvs => !kvs.isEmpty

/-- `isinstance(v, dict)`. -/
def asObj? : Value → Option Obj
  | .obj o => some o
  | _ => none

/-- `isinstance(v, str)`. -/
def asStr? : Value → Option String
  | .str s => some s
  | _ => none

end Value

/-! ### Parameters of the host language -/

/-- What the model does not spell out of the host language's text functions. -/
class Py where
  /-- `str.isalnum` outside ASCII. -/
  alnum : Char → Bool
  /-- `\d` outside ASCII. -/
  digit : Char → Bool
  /-- `str.isprintable` outside ASCII. -/
  printable : Char → Bool
  /-- `str.isspace` outside ASCII. -/
  space : Char → Bool
  /-- `str.lower` outside ASCII. -/
  lower : Char → List Char
  /-- The shortest decimal form of a binary fraction. -/
  floatRepr : Dyadic → String
  /-- `json.loads`; `none` when decoding raises. -/
  loads : String → Option Value
  /-- The order in which a set built by these insertions is iterated. -/
  setOrder : List String → List String
  setOrder_perm : ∀ l, (setOrder l).Perm l

/-- An interpretation that knows ASCII only and decodes nothing; used to evaluate scenarios
in which neither matters. -/
@[reducible] def asciiPy : Py where
  alnum _ := false
  digit _ := false
  printable _ := true
  space _ := false
  lower c := [c]
  floatRepr _ := "0.0"
  loads _ := none
  setOrder l := l
  setOrder_perm l := List.Perm.refl l

section text
variable [Py]

/-- The regular expression class `\w`. -/
def isWordChar (c : Char) : Bool :=
  if c.toNat < 128 then c.isAlphanum || c == '_' else Py.alnum c

/-- `str.isspace` for one character. -/
def isSpaceChar (c : Char) : Bool :=
  if c.toNat < 128 then c == ' ' || (9 ≤ c.toNat && c.toNat ≤ 13) || (28 ≤ c.toNat && c.toNat ≤ 31)
  else Py.space c

/-- The regular expression class `\d`. -/
def isDigitChar (c : Char) : Bool := if c.toNat < 128 then c.isDigit else Py.digit c

/-- `s.strip()`. -/
def strip (s : List Char) : List Char :=
  ((s.dropWhile isSpaceChar).reverse.dropWhile isSpaceChar).reverse

/-- `s.lower()`. -/
def lower (s : List Char) : List Char :=
  s.flatMap fun c => if c.toNat < 128 then [c.toLower] else Py.lower c

/-- `s.rstrip(c)`. -/
def rstrip (c : Char) (s : List Char) : List Char := (s.reverse.dropWhile (· == c)).reverse

/-- `sep.join(xs)`. -/
def join (sep : String) : List String → String
  | [] => ""
  | [x] => x
  | x :: xs => x ++ sep ++ join sep xs

/-! ### `str` and `repr` -/

/-- The last `k` hexadecimal digits of `n`. -/
def hexDigits : ℕ → ℕ → List Char
  | 0, _ => []
  | k + 1, n => hexDigits k (n / 16) ++ [Nat.digitChar (n % 16)]

/-- One character inside a quoted `repr`. -/
def reprChar (quote c : Char) : List Char :=
  if c = '\\' || c = quote then ['\\', c]
  else if c = '\n' then ['\\', 'n']
  else if c = '\r' then ['\\', 'r']
  else if c = '\t' then ['\\', 't']
  else if c.toNat < 32 || c.toNat = 127 then '\\' :: 'x' :: hexDigits 2 c.toNat
  else if c.toNat < 128 || Py.printable c then [c]
  else if c.toNat < 256 then '\\' :: 'x' :: hexDigits 2 c.toNat
  else if c.toNat < 65536 then '\\' :: 'u' :: hexDigits 4 c.toNat
  else '\\' :: 'U' :: hexDigits 8 c.toNat

/-- `repr(s)` for a string: single quotes unless only double quotes avoid escaping. -/
def reprStr (s : String) : String :=
  let single := Char.ofNat 39
  let double := Char.ofNat 34
  let quote := if s.toList.contains single && !s.toList.contains double then double else single
  String.ofList (quote :: s.toList.flatMap (reprChar quote) ++ [quote])

/-- `repr(xs)` for a list of strings. -/
def reprStrs (xs : List String) : String := "[" ++ join ", " (xs.map reprStr) ++ "]"

mutual
/-- `repr(v)`. -/
def pyRepr : Value → String
  | .null => "None"
  | .bool b => if b then "True" else "False"
  | .int n => toString n
  | .float d => Py.floatRepr d
  | .str s => reprStr s
  | .arr xs => "[" ++ join ", " (pyReprList xs) ++ "]"
  | .obj a => "\x7b" ++ join ", " (pyReprObj a) ++ "\x7d"
def pyReprList : List Value → List String
  | [] => []
  | v :: vs => pyRepr v :: pyReprList vs
def pyReprObj : List (String × Value) → List String
  | [] => []
  | (k, v) :: a => (reprStr k ++ ": " ++ pyRepr v) :: pyReprObj a
end

/-- `str(v)`. -/
def pyStr : Value → String
  | .str s => s
  | v => pyRepr v

/-! ### `json.dumps` -/

/-- The options of `json.dumps` the source uses. -/
structure DumpOpts where
  ensureAscii : Bool := true
  sortKeys : Bool := true
  itemSep : String := ", "
  keySep : String := ": "

/-- One character inside a JSON string. -/
def dumpChar (ascii : Bool) (c : Char) : List Char :=
  if c = '\\' || c.toNat = 34 then ['\\', c]
  else if c = '\n' then ['\\', 'n']
  else if c = '\r' then ['\\', 'r']
  else if c = '\t' then ['\\', 't']
  else if c.toNat = 8 then ['\\', 'b']
  else if c.toNat = 12 then ['\\', 'f']
  else if c.toNat < 32 then '\\' :: 'u' :: hexDigits 4 c.toNat
  else if !ascii || c.toNat < 127 then [c]
  else if c.toNat < 65536 then '\\' :: 'u' :: hexDigits 4 c.toNat
  else
    let n := c.toNat - 65536
    '\\' :: 'u' :: hexDigits 4 (55296 + n / 1024) ++ '\\' :: 'u' :: hexDigits 4 (56320 + n % 1024)

/-- A JSON string literal. -/
def dumpStr (ascii : Bool) (s : String) : String :=
  let double := Char.ofNat 34
  String.ofList (double :: s.toList.flatMap (dumpChar ascii) ++ [double])

mutual
/-- The text of a value whose objects are already in output order. -/
def dumpText (o : DumpOpts) : Value → String
  | .null => "null"
  | .bool b => if b then "true" else "false"
  | .int n => toString n
  | .float d => Py.floatRepr d
  | .str s => dumpStr o.ensureAscii s
  | .arr xs => "[" ++ join o.itemSep (dumpTextList o xs) ++ "]"
  | .obj a => "\x7b" ++ join o.itemSep (dumpTextObj o a) ++ "\x7d"
def dumpTextList (o : DumpOpts) : List Value → List String
  | [] => []
  | v :: vs => dumpText o v :: dumpTextList o vs
def dumpTextObj (o : DumpOpts) : List (String × Value) → List String
  | [] => []
  | (k, v) :: a => (dumpStr o.ensureAscii k ++ o.keySep ++ dumpText o v) :: dumpTextObj o a
end

/-- `json.dumps(v, …)`. -/
def dumps (o : DumpOpts) (v : Value) : String := dumpText o (if o.sortKeys then v.sortKeys else v)

end text

section
attribute [local instance] asciiPy

example : dumps {} (.obj [("b", .int 1), ("a", .arr [.str "x", .null])]) =
    "\x7b\"a\": [\"x\", null], \"b\": 1\x7d" := by decide

example : pyStr (.obj [("a", .bool true)]) = "\x7b'a': True\x7d" := by decide

end

end JAgent
