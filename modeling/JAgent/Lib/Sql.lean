import Mathlib.Data.List.Count
import Mathlib.Data.List.Infix

/-! # SQL text

Text as SQLite reads it: a lexer that tells words, quoted text, parameters and punctuation apart, and what
can be said about a `SELECT` from its tokens alone.  The lexer is a fold over the characters, so that text
which ends between two tokens can be followed by any other text (`lex_append`).

`Engine` is a database that answers such text.  Its fields are the documented facts about a query with one
`SELECT` over one table, and nothing else is known of it: rows on which the condition is not true do not
count, `AND` binds tighter than `OR`, and the parameters are bound from left to right. -/

namespace Lib.Sql

/-! ### Tokens -/

inductive Token where
  | word (w : String)
  | quoted (close : Char) (text : List Char)
  | placeholder
  | named
  | punct (c : Char)
deriving DecidableEq

/-- What the lexer is in the middle of. -/
inductive Mode where
  | ground
  | word (text : List Char)
  | mark
  | quoted (close : Char) (text : List Char)
deriving DecidableEq

structure Lexer where
  mode : Mode
  out : List Token
deriving DecidableEq

/-- Characters of names and numbers. -/
def isIdChar (c : Char) : Bool := c.isAlphanum || c = '_' || c = '$' || 128 ≤ c.toNat

def isBlank (c : Char) : Bool := c = ' ' || c = '\t' || c = '\n' || c = '\r' || c.toNat = 12

/-- Keywords and names do not distinguish ASCII letters by case. -/
def wordToken (text : List Char) : Token := .word (String.ofList (text.map Char.toLower))

/-- The character that ends a quotation begun with this one: quotes, double quotes, backticks and
brackets. -/
def closing (c : Char) : Option Char :=
  if c.toNat = 39 || c.toNat = 34 || c.toNat = 96 then some c
  else if c = '[' then some ']'
  else none

/-- A character between two tokens. -/
def between (out : List Token) (c : Char) : Lexer :=
  if isBlank c then ⟨.ground, out⟩
  else if c = '$' || c = ':' || c = '@' || c = '#' then ⟨.ground, out ++ [.named]⟩
  else if isIdChar c then ⟨.word [c], out⟩
  else if c = '?' then ⟨.mark, out⟩
  else match closing c with
    | some close => ⟨.quoted close [], out⟩
    | none => ⟨.ground, out ++ [.punct c]⟩

/-- One character; `?` directly before a digit is a numbered parameter. -/
def lexStep (l : Lexer) (c : Char) : Lexer :=
  match l.mode with
  | .ground => between l.out c
  | .word text => if isIdChar c then ⟨.word (text ++ [c]), l.out⟩ else between (l.out ++ [wordToken text]) c
  | .mark => if c.isDigit then ⟨.word [c], l.out ++ [.named]⟩ else between (l.out ++ [.placeholder]) c
  | .quoted close text =>
    if c = close then ⟨.ground, l.out ++ [.quoted close text]⟩ else ⟨.quoted close (text ++ [c]), l.out⟩

/-- The lexer after some text. -/
def lexed (text : List Char) : Lexer := text.foldl lexStep ⟨.ground, []⟩

/-- The tokens of a whole text; an open quotation is an error. -/
def lex (text : List Char) : Option (List Token) :=
  match lexed text with
  | ⟨.ground, out⟩ => some out
  | ⟨.word w, out⟩ => some (out ++ [wordToken w])
  | ⟨.mark, out⟩ => some (out ++ [.placeholder])
  | ⟨.quoted _ _, _⟩ => none

/-- The tokens of a text that ends between two tokens. -/
def lexClosed (text : List Char) : Option (List Token) :=
  match lexed text with
  | ⟨.ground, out⟩ => some out
  | _ => none

/-- The same lexer with more tokens in front. -/
def Lexer.behind (front : List Token) (l : Lexer) : Lexer := ⟨l.mode, front ++ l.out⟩

theorem between_behind (front out : List Token) (c : Char) :
    between (front ++ out) c = (between out c).behind front := by
  unfold between Lexer.behind
  split_ifs
  · rfl
  · simp
  · rfl
  · rfl
  · split <;> simp

theorem lexStep_behind (front : List Token) (l : Lexer) (c : Char) :
    lexStep (l.behind front) c = (lexStep l c).behind front := by
  obtain ⟨mode, out⟩ := l
  cases mode with
  | ground => exact between_behind front out c
  | word text =>
      simp only [lexStep, Lexer.behind]
      split_ifs
      · rfl
      · rw [List.append_assoc]
        exact between_behind front _ c
  | mark =>
      simp only [lexStep, Lexer.behind]
      split_ifs
      · simp
      · rw [List.append_assoc]
        exact between_behind front _ c
  | quoted close text =>
      simp only [lexStep, Lexer.behind]
      split_ifs
      · simp
      · rfl

theorem foldl_behind (front : List Token) : ∀ (text : List Char) (l : Lexer),
    text.foldl lexStep (l.behind front) = (text.foldl lexStep l).behind front
  | [], _ => rfl
  | c :: text, l => by
      rw [List.foldl_cons, List.foldl_cons, lexStep_behind]
      exact foldl_behind front text _

/-- Text that ends between two tokens does not influence what follows it. -/
theorem lexed_append {a : List Char} {ts : List Token} (h : lexClosed a = some ts) (b : List Char) :
    lexed (a ++ b) = (lexed b).behind ts := by
  have ha : lexed a = ⟨.ground, ts⟩ := by
    unfold lexClosed at h
    split at h
    next out heq =>
      cases h
      exact heq
    next => cases h
  unfold lexed at ha ⊢
  rw [List.foldl_append, ha]
  have hfront : (⟨.ground, ts⟩ : Lexer) = Lexer.behind ts ⟨.ground, []⟩ := by
    simp [Lexer.behind]
  rw [hfront]
  exact foldl_behind ts b _

theorem lexClosed_append {a b : List Char} {ts us : List Token} (ha : lexClosed a = some ts)
    (hb : lexClosed b = some us) : lexClosed (a ++ b) = some (ts ++ us) := by
  unfold lexClosed at hb ⊢
  rw [lexed_append ha]
  split at hb
  next out heq =>
    cases hb
    rw [heq]
    rfl
  next => cases hb

/-- **Tokens of a concatenation.** -/
theorem lex_append {a b : List Char} {ts us : List Token} (ha : lexClosed a = some ts)
    (hb : lex b = some us) : lex (a ++ b) = some (ts ++ us) := by
  unfold lex at hb ⊢
  rw [lexed_append ha]
  split at hb
  next out heq =>
    cases hb
    rw [heq]
    rfl
  next w out heq =>
    cases hb
    rw [heq]
    simp [Lexer.behind]
  next out heq =>
    cases hb
    rw [heq]
    simp [Lexer.behind]
  next => cases hb

/-! ### Clauses -/

/-- The nesting of parentheses after a token. -/
def depthStep (d : ℕ) (t : Token) : ℕ :=
  if t = .punct '(' then d + 1 else if t = .punct ')' then d - 1 else d

def depth (ts : List Token) : ℕ := ts.foldl depthStep 0

/-- The tokens before the first of the given words outside parentheses. -/
def upTo (stops : List Token) : ℕ → List Token → List Token
  | _, [] => []
  | d, t :: ts => if d = 0 && stops.contains t then [] else t :: upTo stops (depthStep d t) ts

/-- A token occurs outside parentheses. -/
def hasTop (w : Token) : ℕ → List Token → Bool
  | _, [] => false
  | d, t :: ts => (d = 0 && t = w) || hasTop w (depthStep d t) ts

/-- Every occurrence of a token is followed by another one. -/
def eachFollowed (w next : Token) : List Token → Bool
  | [] => true
  | t :: ts => (t ≠ w || ts.head? = some next) && eachFollowed w next ts

/-- The pieces between the occurrences of a token outside parentheses; `front` is the piece at hand. -/
def segments (w : Token) : ℕ → List Token → List Token → List (List Token)
  | _, front, [] => [front]
  | d, front, t :: ts =>
    if d = 0 && t = w then front :: segments w 0 [] ts else segments w (depthStep d t) (front ++ [t]) ts

theorem segments_of_hasTop {w : Token} : ∀ {d : ℕ} {front ts : List Token}, hasTop w d ts = false →
    segments w d front ts = [front ++ ts]
  | _, front, [], _ => by simp [segments]
  | d, front, t :: ts, h => by
      simp only [hasTop, Bool.or_eq_false_iff] at h
      rw [segments, if_neg (by simp [h.1]), segments_of_hasTop h.2]
      simp

/-- What can end a `WHERE` condition. -/
def clauseWords : List Token :=
  [.word "group", .word "having", .word "order", .word "limit", .word "union", .word "intersect",
    .word "except"]

/-- The condition of the text behind `WHERE`. -/
def condition (post : List Token) : List Token := upTo clauseWords 0 post

/-- A `SELECT` list before `FROM`, and the text behind `WHERE`, of a query that names no further table: it
has one `SELECT`, every `IN` is followed by a list, and its parameters are plain. -/
def single (pre post : List Token) : Bool :=
  pre.head? = some (.word "select") && !pre.tail.contains (.word "select") && !pre.contains (.word "from") &&
    depth pre = 0 && !post.contains (.word "select") && !pre.contains .named && !post.contains .named &&
    eachFollowed (.word "in") (.punct '(') pre && eachFollowed (.word "in") (.punct '(') post

/-- Two characters stand side by side. -/
def hasPair (x y : Char) : List Char → Bool
  | [] => false
  | c :: cs => (c = x && cs.head? = some y) || hasPair x y cs

/-- A single statement without comments. -/
def uncommented (text : List Char) : Bool :=
  !text.contains ';' && !hasPair '-' '-' text && !hasPair '/' '*' text

theorem hasPair_append {x y : Char} : ∀ {a b : List Char}, hasPair x y a = false →
    hasPair x y b = false → a.getLast? ≠ some x → hasPair x y (a ++ b) = false
  | [], _, _, hb, _ => hb
  | [c], b, _, hb, hl => by
      have hc : c ≠ x := by
        intro he
        simp [he] at hl
      simp [hasPair, hc, hb]
  | c :: c' :: a, b, ha, hb, hl => by
      simp only [hasPair, List.head?_cons, Bool.or_eq_false_iff] at ha
      have htail : hasPair x y (c' :: a ++ b) = false := by
        refine hasPair_append ?_ hb ?_
        · simp only [hasPair, Bool.or_eq_false_iff]
          exact ha.2
        · simpa using hl
      simp only [List.cons_append, hasPair, List.head?_cons, Bool.or_eq_false_iff] at htail ⊢
      exact ⟨ha.1, htail⟩

theorem hasPair_append_left {x y : Char} : ∀ {a b : List Char}, hasPair x y (a ++ b) = false →
    hasPair x y a = false
  | [], _, _ => rfl
  | [c], b, _ => by simp [hasPair]
  | c :: c' :: a, b, h => by
      simp only [List.cons_append, hasPair, List.head?_cons, Bool.or_eq_false_iff] at h
      have htail : hasPair x y (c' :: a) = false := by
        refine hasPair_append_left (b := b) ?_
        simp only [List.cons_append, hasPair, Bool.or_eq_false_iff]
        exact h.2
      simp only [hasPair, List.head?_cons, Bool.or_eq_false_iff] at htail ⊢
      exact ⟨h.1, htail⟩

theorem hasPair_append_right {x y : Char} : ∀ {a b : List Char}, hasPair x y (a ++ b) = false →
    hasPair x y b = false
  | [], _, h => h
  | c :: a, b, h => by
      simp only [List.cons_append, hasPair, Bool.or_eq_false_iff] at h
      exact hasPair_append_right h.2

/-- The text does not end in the middle of a comment mark. -/
def endsClear (text : List Char) : Prop := text.getLast? ≠ some '-' ∧ text.getLast? ≠ some '/'

/-- Text put into a statement adds no comment. -/
theorem uncommented_insert {a b mid : List Char} (h : uncommented (a ++ b) = true)
    (hmid : uncommented mid = true) (ha : endsClear a) (hm : endsClear (a ++ mid)) :
    uncommented (a ++ mid ++ b) = true := by
  simp only [uncommented, Bool.and_eq_true, Bool.not_eq_true', List.contains_eq_mem, List.mem_append,
    decide_eq_false_iff_not, not_or] at h hmid ⊢
  obtain ⟨⟨⟨hsa, hsb⟩, hdash⟩, hslash⟩ := h
  obtain ⟨⟨hsm, hmdash⟩, hmslash⟩ := hmid
  refine ⟨⟨⟨⟨hsa, hsm⟩, hsb⟩, ?_⟩, ?_⟩
  · refine hasPair_append ?_ (hasPair_append_right hdash) hm.1
    exact hasPair_append (hasPair_append_left hdash) hmdash ha.1
  · refine hasPair_append ?_ (hasPair_append_right hslash) hm.2
    exact hasPair_append (hasPair_append_left hslash) hmslash ha.2

/-! ### Three-valued logic -/

/-- `AND`; NULL is `none`. -/
def sqlAnd : Option Bool → Option Bool → Option Bool
  | some false, _ => some false
  | _, some false => some false
  | some true, some true => some true
  | _, _ => none

/-- `OR`; NULL is `none`. -/
def sqlOr : Option Bool → Option Bool → Option Bool
  | some true, _ => some true
  | _, some true => some true
  | some false, some false => some false
  | _, _ => none

theorem left_of_sqlAnd {x y : Option Bool} (h : sqlAnd x y = some true) : x = some true := by
  cases x with
  | none => cases y with
    | none => cases h
    | some y => cases y <;> cases h
  | some x => cases x with
    | false => cases h
    | true => rfl

@[simp] theorem sqlAnd_true (x : Option Bool) : sqlAnd x (some true) = x := by
  cases x with
  | none => rfl
  | some x => cases x <;> rfl

@[simp] theorem sqlOr_false (x : Option Bool) : sqlOr x (some false) = x := by
  cases x with
  | none => rfl
  | some x => cases x <;> rfl

/-! ### The engine -/

/-- `column = ?`. -/
def equalsParam (column : String) : List Token := [.word column, .punct '=', .placeholder]

/-- A name that is not a keyword of the expressions and clauses looked at here. -/
def isColumn (column : String) : Bool :=
  !(Token.word "select" :: .word "in" :: .word "or" :: .word "and" :: clauseWords).contains (.word column)

/-- A database engine that answers text with parameters; `rows` are the rows of the one table that the
documented facts are about. -/
structure Engine (Db Row Param Answer : Type) (table : String) (rows : Db → List Row) where
  /-- The answer to a text with its parameters. -/
  exec : List Char → List Param → Db → Answer
  /-- What a query makes of the rows that its condition leaves. -/
  project : List Char → List Param → List Row → Answer
  /-- The value of a condition on a row, with the parameters from its first placeholder on. -/
  truth : List Token → List Param → Row → Option Bool
  /-- The evaluation of a condition on a row fails. -/
  raises : List Token → List Param → Row → Bool
  /-- A statement is not run unless each of its parameters is bound. -/
  unbound : ∀ {text ts params}, lex text = some ts → .named ∉ ts → ts.count .placeholder ≠ params.length →
    ∀ db db', exec text params db = exec text params db'
  /-- A query over the table works on the rows for which its condition is true. -/
  select : ∀ {text pre post params}, uncommented text = true →
    lex text = some (pre ++ [.word "from", .word table, .word "where"] ++ post) → single pre post = true →
    pre.count .placeholder + post.count .placeholder = params.length →
    (∀ row, raises (condition post) (params.drop (pre.count .placeholder)) row = false) →
    ∀ db, exec text params db = project text params ((rows db).filter fun row =>
      truth (condition post) (params.drop (pre.count .placeholder)) row = some true)
  /-- `AND` binds tighter than `OR` and is true only when both sides are. -/
  and_truth : ∀ {column rest} (p : Param) (ps : List Param) (row : Row), isColumn column = true →
    hasTop (.word "or") 0 rest = false →
    truth (equalsParam column ++ Token.word "and" :: rest) (p :: ps) row =
      sqlAnd (truth (equalsParam column) [p] row) (truth rest ps row)
  /-- Comparing a column with a parameter does not fail. -/
  and_raises : ∀ {column rest} (p : Param) (ps : List Param) (row : Row), isColumn column = true →
    raises rest ps row = false →
    raises (equalsParam column ++ Token.word "and" :: rest) (p :: ps) row = false

section splice
variable {column : String} {pre post : List Token}

theorem not_mem_of_isColumn (hc : isColumn column = true) :
    Token.word column ≠ .word "select" ∧ Token.word column ≠ .word "in" ∧ Token.word column ≠ .word "or" ∧
      Token.word column ≠ .word "and" ∧ Token.word column ∉ clauseWords := by
  unfold isColumn at hc
  rw [Bool.not_eq_true', List.contains_eq_mem, decide_eq_false_iff_not] at hc
  simpa only [List.mem_cons, not_or] using hc

theorem condition_splice (hc : isColumn column = true) :
    condition (equalsParam column ++ Token.word "and" :: post) =
      equalsParam column ++ Token.word "and" :: condition post := by
  have hcolumn := (not_mem_of_isColumn hc).2.2.2.2
  have hequals : Token.punct '=' ∉ clauseWords := by decide
  have hmark : Token.placeholder ∉ clauseWords := by decide
  have hand : Token.word "and" ∉ clauseWords := by decide
  simp [condition, equalsParam, upTo, depthStep, hcolumn, hequals, hmark, hand]

theorem single_splice (hc : isColumn column = true) (h : single pre post = true) :
    single pre (equalsParam column ++ Token.word "and" :: post) = true := by
  obtain ⟨hselect, hin, -⟩ := not_mem_of_isColumn hc
  simp only [single, Bool.and_eq_true] at h ⊢
  obtain ⟨⟨⟨⟨⟨⟨⟨⟨h1, h2⟩, h3⟩, h4⟩, h5⟩, h6⟩, h7⟩, h8⟩, h9⟩ := h
  refine ⟨⟨⟨⟨⟨⟨⟨⟨h1, h2⟩, h3⟩, h4⟩, ?_⟩, h6⟩, ?_⟩, h8⟩, ?_⟩
  · simpa [equalsParam, hselect.symm] using h5
  · simpa [equalsParam] using h7
  · simp only [equalsParam, List.cons_append, List.nil_append, eachFollowed, h9, Bool.and_true]
    simpa using hin

/-- **A spliced filter keeps other rows out**, when the text it is put in front of has no `OR` outside
parentheses. -/
theorem Engine.exec_eq_of_filter {Db Row Param Answer : Type} {table : String} {rows : Db → List Row}
    (q : Engine Db Row Param Answer table rows) {text : List Char} {params : List Param} {p : Param}
    (hplain : uncommented text = true)
    (hlex : lex text = some (pre ++ [.word "from", .word table, .word "where"] ++
      (equalsParam column ++ Token.word "and" :: post)))
    (hsingle : single pre post = true) (hcolumn : isColumn column = true)
    (hor : hasTop (.word "or") 0 (condition post) = false)
    (hraises : ∀ row, q.raises (condition post) (params.drop (pre.count .placeholder + 1)) row = false)
    (hparam : pre.count .placeholder < params.length → params[pre.count .placeholder]? = some p)
    {db db' : Db} (hrows : ((rows db).filter fun row => q.truth (equalsParam column) [p] row = some true) =
      (rows db').filter fun row => q.truth (equalsParam column) [p] row = some true) :
    q.exec text params db = q.exec text params db' := by
  have hfull := single_splice hcolumn hsingle
  have hcount : (equalsParam column ++ Token.word "and" :: post).count .placeholder =
      post.count .placeholder + 1 := by
    simp [equalsParam]
  by_cases hbound : pre.count .placeholder + (post.count .placeholder + 1) = params.length
  · have hlt : pre.count .placeholder < params.length := by omega
    have hdrop : params.drop (pre.count .placeholder) = p :: params.drop (pre.count .placeholder + 1) := by
      rw [List.drop_eq_getElem_cons hlt]
      have hget := hparam hlt
      rw [List.getElem?_eq_getElem hlt, Option.some.injEq] at hget
      rw [hget]
    have hselect : ∀ db, q.exec text params db = q.project text params ((rows db).filter fun row =>
        q.truth (condition (equalsParam column ++ Token.word "and" :: post))
          (params.drop (pre.count .placeholder)) row = some true) := by
      refine q.select hplain hlex hfull ?_ ?_
      · rw [hcount]
        exact hbound
      · intro row
        rw [condition_splice hcolumn, hdrop]
        exact q.and_raises p _ row hcolumn (hraises row)
    -- the condition of the spliced text implies the filter, so it can be evaluated after the filter
    have hfilter : ∀ db, ((rows db).filter fun row =>
        q.truth (condition (equalsParam column ++ Token.word "and" :: post))
          (params.drop (pre.count .placeholder)) row = some true) =
        ((rows db).filter fun row => q.truth (equalsParam column) [p] row = some true).filter fun row =>
          q.truth (condition (equalsParam column ++ Token.word "and" :: post))
            (params.drop (pre.count .placeholder)) row = some true := by
      intro db
      rw [List.filter_filter]
      refine List.filter_congr ?_
      intro row _
      rw [condition_splice hcolumn, hdrop, q.and_truth p _ row hcolumn hor]
      by_cases htrue : sqlAnd (q.truth (equalsParam column) [p] row)
          (q.truth (condition post) (params.drop (pre.count .placeholder + 1)) row) = some true
      · simp [left_of_sqlAnd htrue]
      · simp [htrue]
    rw [hselect db, hselect db', hfilter db, hfilter db', hrows]
  · refine q.unbound hlex ?_ ?_ db db'
    · simp only [single, Bool.and_eq_true, Bool.not_eq_true', List.contains_eq_mem,
        decide_eq_false_iff_not] at hfull
      simp only [List.mem_append, not_or]
      refine ⟨⟨hfull.1.1.1.2, by simp⟩, ?_⟩
      simpa using hfull.1.1.2
    · intro hcounts
      apply hbound
      rw [← hcounts, List.count_append, List.count_append, hcount]
      simp

end splice
end Lib.Sql
