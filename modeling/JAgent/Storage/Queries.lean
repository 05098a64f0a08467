import Mathlib.Data.List.TakeWhile
import JAgent.Core.Recovery
import JAgent.Lib.Sql
import JAgent.Storage.Scoped

/-! # Queries of one tenant

`ScopedEventStore.execute_query` lets a caller run a `SELECT` over `events`: it checks the text, splices the
tenant filter behind the first `from events where` and inserts the tenant among the parameters.  The checks
are searches in the text; whether the filter governs the query is decided by how SQLite reads it.

The checks (`scopeQuery`) are modelled on characters, as the source has them.  SQLite is a parameter
(`Sqlite`): an engine for which the documented facts about a plain `SELECT` hold.  A query is scoped when its
answer does not change with rows of other tenants (`ScopedTo`).  `scopable` says which accepted texts are read
as the splice intends. -/

namespace JAgent
open Lib.Sql

/-! ### The checks -/

section checks
variable [Py]

/-- `re.sub(r"\s+", " ", text)`. -/
def collapseSpaces : Bool → List Char → List Char
  | _, [] => []
  | inside, c :: cs =>
    if isSpaceChar c then (if inside then collapseSpaces true cs else ' ' :: collapseSpaces true cs)
    else c :: collapseSpaces false cs

/-- The text the checks look at. -/
def normalizeQuery (sql : List Char) : List Char := collapseSpaces false (lower (strip sql))

/-- `part in text`. -/
def occursIn (part text : List Char) : Bool := text.tails.any fun t => part.isPrefixOf t

/-- How often `\bword\b` matches; `prev` is the character before. -/
def countWord (word : List Char) : Option Char → List Char → ℕ
  | _, [] => 0
  | prev, c :: cs =>
    (if boundary prev && word.isPrefixOf (c :: cs) && boundary ((c :: cs).drop word.length).head? then 1
      else 0) + countWord word (some c) cs

/-- The words that no scoped query may use. -/
def forbiddenWords : List String :=
  ["union", "join", "with", "insert", "update", "delete", "drop", "alter", "create", "attach", "pragma"]

/-- `\s+` at the start of a text; returns the rest. -/
def skipSpaces : List Char → Option (List Char)
  | [] => none
  | c :: cs => if isSpaceChar c then some (cs.dropWhile isSpaceChar) else none

/-- `from\s+events\s+where\s+` at the start of a text, ignoring case; returns the rest. -/
def matchScope (text : List Char) : Option (List Char) :=
  (matchLit "from".toList text).bind fun r => (skipSpaces r).bind fun r =>
    (matchLit "events".toList r).bind fun r => (skipSpaces r).bind fun r =>
      (matchLit "where".toList r).bind skipSpaces

/-- The first match, with the text before it and behind it. -/
structure ScopeMatch where
  before : List Char
  matched : List Char
  after : List Char
deriving DecidableEq

/-- `re.search(r"\bfrom\s+events\s+where\s+", sql, flags=re.IGNORECASE)`. -/
def searchScope : Option Char → List Char → Option ScopeMatch
  | _, [] => none
  | prev, c :: cs =>
    match if boundary prev then matchScope (c :: cs) else none with
    | some rest => some ⟨[], (c :: cs).take ((c :: cs).length - rest.length), rest⟩
    | none => (searchScope (some c) cs).map fun m => { m with before := c :: m.before }

/-- The filter that is spliced in. -/
def tenantFilter : List Char := "tenant_id = ? AND ".toList

/-- `ScopedEventStore.execute_query` up to the call of the raw store: the text and the parameters it is
called with. -/
def scopeQuery (tenantId : String) (sql : List Char) (params : List Value) :
    Except String (List Char × List Value) :=
  let normalized := normalizeQuery sql
  if !"select".toList.isPrefixOf normalized ||
      !occursIn " from events ".toList (' ' :: normalized ++ [' ']) then
    .error "Scoped analysis only permits SELECT queries over events"
  else if forbiddenWords.any fun w => 0 < countWord w.toList none normalized then
    .error "Scoped event queries must not use UNION, JOIN, CTE, or DML"
  else if sql.contains ';' || occursIn "--".toList sql || occursIn "/*".toList sql then
    .error "Scoped event queries must be a single statement without comment syntax"
  else if countWord "events".toList none normalized ≠ 1 then
    .error "Scoped event queries must reference the events table exactly once"
  else match searchScope none sql with
    | none => .error "Scoped event queries must include a WHERE clause"
    | some m =>
      let beforeWhere := m.before.count '?'
      .ok (m.before ++ m.matched ++ tenantFilter ++ m.after,
        params.take beforeWhere ++ .str tenantId :: params.drop beforeWhere)

/-! ### What the search finds -/

omit [Py] in
theorem matchLit_append : ∀ {p text rest : List Char}, matchLit p text = some rest →
    ∃ w, text = w ++ rest
  | [], text, rest, h => by
      simp only [matchLit, Option.some.injEq] at h
      exact ⟨[], h⟩
  | _ :: _, [], _, h => by cases h
  | _ :: ps, c :: cs, rest, h => by
      simp only [matchLit] at h
      split_ifs at h
      obtain ⟨w, hw⟩ := matchLit_append h
      exact ⟨c :: w, by rw [hw, List.cons_append]⟩

theorem skipSpaces_append {text rest : List Char} (h : skipSpaces text = some rest) :
    ∃ w, text = w ++ rest ∧ w ≠ [] ∧ ∀ c ∈ w, isSpaceChar c = true := by
  cases text with
  | nil => cases h
  | cons c cs =>
      simp only [skipSpaces] at h
      split_ifs at h with hc
      cases h
      refine ⟨c :: cs.takeWhile isSpaceChar, ?_, by simp, ?_⟩
      · rw [List.cons_append, List.takeWhile_append_dropWhile]
      · intro d hd
        rcases List.mem_cons.mp hd with rfl | hd
        · exact hc
        · exact List.mem_takeWhile_imp hd

/-- What was matched ends with a space. -/
theorem matchScope_append {text rest : List Char} (h : matchScope text = some rest) :
    ∃ w, text = w ++ rest ∧ ∃ c, w.getLast? = some c ∧ isSpaceChar c = true := by
  simp only [matchScope, Option.bind_eq_some_iff] at h
  obtain ⟨r1, h1, r2, h2, r3, h3, r4, h4, r5, h5, h6⟩ := h
  obtain ⟨w1, rfl⟩ := matchLit_append h1
  obtain ⟨w2, rfl, -⟩ := skipSpaces_append h2
  obtain ⟨w3, rfl⟩ := matchLit_append h3
  obtain ⟨w4, rfl, -⟩ := skipSpaces_append h4
  obtain ⟨w5, rfl⟩ := matchLit_append h5
  obtain ⟨w6, rfl, hne, hspace⟩ := skipSpaces_append h6
  refine ⟨w1 ++ (w2 ++ (w3 ++ (w4 ++ (w5 ++ w6)))), by simp, w6.getLast hne, ?_, ?_⟩
  · have hlast : (w1 ++ w2 ++ w3 ++ w4 ++ w5 ++ w6).getLast? = some (w6.getLast hne) := by
      rw [List.getLast?_append_of_ne_nil _ hne, List.getLast?_eq_some_getLast hne]
    simpa using hlast
  · exact hspace _ (List.getLast_mem hne)

/-- **The search takes the text apart**, and what was matched ends with a space. -/
theorem searchScope_spec : ∀ {prev : Option Char} {sql : List Char} {m : ScopeMatch},
    searchScope prev sql = some m →
      sql = m.before ++ m.matched ++ m.after ∧ ∃ c, m.matched.getLast? = some c ∧ isSpaceChar c = true
  | _, [], _, h => by cases h
  | prev, c :: cs, m, h => by
      simp only [searchScope] at h
      split at h
      next rest heq =>
        cases h
        split_ifs at heq
        obtain ⟨w, hw, hlast⟩ := matchScope_append heq
        have hlen : (c :: cs).length - rest.length = w.length := by
          rw [hw, List.length_append]
          omega
        have htake : (c :: cs).take ((c :: cs).length - rest.length) = w := by
          rw [hlen, hw, List.take_left]
        refine ⟨?_, ?_⟩
        · rw [List.nil_append, htake]
          exact hw
        · rw [htake]
          exact hlast
      next =>
        obtain ⟨m', hm', rfl⟩ := Option.map_eq_some_iff.mp h
        obtain ⟨hsql, hlast⟩ := searchScope_spec hm'
        exact ⟨by rw [hsql]; simp, hlast⟩

omit [Py] in
theorem occursIn_pair {x y : Char} : ∀ {text : List Char}, occursIn [x, y] text = hasPair x y text
  | [] => rfl
  | c :: cs => by
      have ih := @occursIn_pair x y cs
      unfold occursIn at ih ⊢
      rw [List.tails_cons, List.any_cons, ih, hasPair]
      congr 1
      cases cs with
      | nil => simp [List.isPrefixOf]
      | cons d ds => simp [List.isPrefixOf, eq_comm, beq_eq_decide]

/-! ### Reading the text as SQLite does -/

/-- The tables with the hidden row ids of `events`. -/
structure QueryDb extends TenantDb where
  rowid : LogRow → ℕ := fun _ => 0

/-- A row of `events` as a query sees it. -/
structure QueryRow extends LogRow where
  rowid : ℕ
deriving DecidableEq

def QueryDb.rows (db : QueryDb) : List QueryRow := db.events.map fun row => ⟨row, db.rowid row⟩

/-- SQLite as the store uses it: an engine for queries over `events`, which compares the column `tenant_id`
with a text by equality. -/
structure Sqlite (Answer : Type) extends Engine QueryDb QueryRow Value Answer "events" QueryDb.rows where
  tenant_truth : ∀ (tenantId : String) (row : QueryRow),
    truth (equalsParam "tenant_id") [.str tenantId] row = some (decide (row.tenantId = tenantId))

/-- The rows of one tenant. -/
def tenantEvents (tenantId : String) (db : QueryDb) : List QueryRow :=
  db.rows.filter fun row => row.tenantId = tenantId

/-- The answer depends only on the rows of the tenant. -/
def Sqlite.ScopedTo {Answer : Type} (q : Sqlite Answer) (tenantId : String) (text : List Char)
    (params : List Value) : Prop :=
  ∀ db db', tenantEvents tenantId db = tenantEvents tenantId db' →
    q.exec text params db = q.exec text params db'

/-- A query as SQLite reads it: the tokens before `FROM` and the tokens behind `WHERE`. -/
structure Reading where
  pre : List Token
  post : List Token
deriving DecidableEq

/-- The reading of a query in which the match of the search is the `FROM events WHERE` of the query: it lies
outside quotations, and SQLite reads the three words in it. -/
def readQuery (sql : List Char) : Option Reading :=
  match searchScope none sql with
  | none => none
  | some m => match lexClosed m.before, lexClosed m.matched, lex m.after with
    | some pre, some ts, some post =>
      if ts = [.word "from", .word "events", .word "where"] then some ⟨pre, post⟩ else none
    | _, _, _ => none

/-- The query has one `SELECT` and plain parameters, as many before `FROM` as question marks are counted
there, and its condition has no `OR` outside parentheses. -/
def scopable (sql : List Char) : Bool :=
  match readQuery sql with
  | none => false
  | some r => single r.pre r.post && !hasTop (.word "or") 0 (condition r.post) &&
      (searchScope none sql).any fun m => m.before.count '?' = r.pre.count .placeholder

/-- The condition of the caller can be evaluated on every row. -/
def Sqlite.Evaluates {Answer : Type} (q : Sqlite Answer) (sql : List Char) (params : List Value) : Prop :=
  ∀ r, readQuery sql = some r → ∀ row,
    q.raises (condition r.post) (params.drop (r.pre.count .placeholder)) row = false

theorem readQuery_eq {sql : List Char} {r : Reading} {m : ScopeMatch} (h : readQuery sql = some r)
    (hm : searchScope none sql = some m) : lexClosed m.before = some r.pre ∧
      lexClosed m.matched = some [.word "from", .word "events", .word "where"] ∧
        lex m.after = some r.post := by
  simp only [readQuery, hm] at h
  split at h
  next pre ts post hpre hts hpost =>
    split_ifs at h with heq
    cases h
    exact ⟨hpre, by rw [hts, heq], hpost⟩
  next => cases h

/-- What an accepted query is turned into. -/
theorem scopeQuery_eq_ok {tenantId : String} {sql text : List Char} {params ps : List Value}
    (h : scopeQuery tenantId sql params = .ok (text, ps)) : uncommented sql = true ∧
      ∃ m, searchScope none sql = some m ∧ text = m.before ++ m.matched ++ tenantFilter ++ m.after ∧
        ps = params.take (m.before.count '?') ++ .str tenantId :: params.drop (m.before.count '?') := by
  simp only [scopeQuery] at h
  split_ifs at h with h1 h2 h3 h4
  split at h
  next => cases h
  next m hm =>
    cases h
    refine ⟨?_, m, hm, rfl, rfl⟩
    have hdash : occursIn "--".toList sql = hasPair '-' '-' sql := occursIn_pair
    have hslash : occursIn "/*".toList sql = hasPair '/' '*' sql := occursIn_pair
    rw [hdash, hslash] at h3
    simp only [Bool.or_eq_true, not_or, Bool.not_eq_true] at h3
    rw [uncommented, h3.1.1, h3.1.2, h3.2]
    rfl

theorem endsClear_of_space {a : List Char} {c : Char} (h : a.getLast? = some c)
    (hc : isSpaceChar c = true) : endsClear a := by
  have hdash : isSpaceChar '-' = false := by simp [isSpaceChar]
  have hslash : isSpaceChar '/' = false := by simp [isSpaceChar]
  refine ⟨?_, ?_⟩
  · rw [h]
    rintro ⟨⟩
    rw [hdash] at hc
    cases hc
  · rw [h]
    rintro ⟨⟩
    rw [hslash] at hc
    cases hc

omit [Py] in
/-- `list.insert` puts the value at the index, or at the end of a shorter list. -/
theorem getElem?_insert {α : Type} (l : List α) (n : ℕ) (x : α)
    (h : n < (l.take n ++ x :: l.drop n).length) : (l.take n ++ x :: l.drop n)[n]? = some x := by
  have hle : n ≤ l.length := by
    by_contra hgt
    rw [List.drop_eq_nil_of_le (by omega), List.take_of_length_le (by omega), List.length_append] at h
    simp only [List.length_cons, List.length_nil] at h
    omega
  rw [List.getElem?_append_right (by simp), List.length_take, Nat.min_eq_left hle]
  simp

omit [Py] in
theorem drop_insert {α : Type} (l : List α) (n : ℕ) (x : α) :
    (l.take n ++ x :: l.drop n).drop (n + 1) = l.drop n := by
  by_cases hle : n ≤ l.length
  · rw [List.drop_append, List.length_take, Nat.min_eq_left hle, List.drop_eq_nil_of_le (by simp)]
    simp
  · have hdrop : l.drop n = [] := List.drop_eq_nil_of_le (by omega)
    have htake : l.take n = l := List.take_of_length_le (by omega)
    rw [hdrop, htake]
    refine List.drop_eq_nil_of_le ?_
    simp only [List.length_append, List.length_cons, List.length_nil]
    omega

end checks
/-! ### A small engine -/

/-- A comparison of a column with a parameter; everything else counts as NULL. -/
def comparison (atom : List Token) (ps : List Value) (row : QueryRow) : Option Bool :=
  match ps with
  | .str t :: _ =>
    if atom = equalsParam "tenant_id" then some (decide (row.tenantId = t))
    else if atom = equalsParam "run_id" then some (decide (row.runId = t))
    else none
  | _ => none

/-- Comparisons that are all true; each takes its parameters from the front. -/
def allTrue (row : QueryRow) : List (List Token) → List Value → Option Bool
  | [], _ => some true
  | a :: rest, ps => sqlAnd (comparison a ps row) (allTrue row rest (ps.drop (a.count .placeholder)))

/-- Alternatives of which one is true. -/
def anyTrue (row : QueryRow) : List (List Token) → List Value → Option Bool
  | [], _ => some false
  | a :: rest, ps => sqlOr (allTrue row (segments (.word "and") 0 [] a) ps)
      (anyTrue row rest (ps.drop (a.count .placeholder)))

/-- The value of a condition made of comparisons, `AND` and `OR`. -/
def comparisons (ts : List Token) (ps : List Value) (row : QueryRow) : Option Bool :=
  anyTrue row (segments (.word "or") 0 [] ts) ps

/-- The tokens before the first `FROM` and behind `FROM events WHERE`. -/
def splitFrom (ts : List Token) : Option (List Token × List Token) :=
  match ts.dropWhile (· ≠ .word "from") with
  | .word "from" :: .word "events" :: .word "where" :: post => some (ts.takeWhile (· ≠ .word "from"), post)
  | _ => none

/-- The run ids of the rows for which the condition is true; anything but a plain query is an error. -/
def listRuns (text : List Char) (params : List Value) (db : QueryDb) : Option (List String) :=
  ((lex text).bind splitFrom).bind fun p =>
    if uncommented text && single p.1 p.2 &&
        decide (p.1.count .placeholder + p.2.count .placeholder = params.length) then
      some ((db.rows.filter fun row => comparisons (condition p.2)
        (params.drop (p.1.count .placeholder)) row = some true).map fun row => row.runId)
    else none

theorem comparisons_of_hasTop {ts : List Token} {ps : List Value} {row : QueryRow}
    (h : hasTop (.word "or") 0 ts = false) :
    comparisons ts ps row = allTrue row (segments (.word "and") 0 [] ts) ps := by
  simp [comparisons, segments_of_hasTop h, anyTrue]

theorem hasTop_equalsParam {column : String} {w : Token} (hw : w = .word "or" ∨ w = .word "and")
    (hc : isColumn column = true) : hasTop w 0 (equalsParam column) = false := by
  have hne := not_mem_of_isColumn hc
  rcases hw with rfl | rfl
  · simp [hasTop, equalsParam, depthStep, hne.2.2.1]
  · simp [hasTop, equalsParam, depthStep, hne.2.2.2.1]

theorem splitFrom_eq {pre : List Token} (h : Token.word "from" ∉ pre) (post : List Token) :
    splitFrom (pre ++ [.word "from", .word "events", .word "where"] ++ post) = some (pre, post) := by
  have hall : ∀ t ∈ pre, decide (t ≠ Token.word "from") = true := by
    intro t ht
    rw [decide_eq_true_eq]
    rintro rfl
    exact h ht
  rw [List.append_assoc]
  unfold splitFrom
  rw [List.dropWhile_append_of_pos hall, List.takeWhile_append_of_pos hall]
  simp

theorem splitFrom_count {ts : List Token} {p : List Token × List Token} (h : splitFrom ts = some p) :
    ts.count .placeholder = p.1.count .placeholder + p.2.count .placeholder := by
  unfold splitFrom at h
  split at h
  next post heq =>
    cases h
    have hts := List.takeWhile_append_dropWhile (p := (· ≠ Token.word "from")) (l := ts)
    rw [heq] at hts
    have hcount := congrArg (List.count Token.placeholder) hts
    rw [List.count_append] at hcount
    simpa using hcount.symm
  next => cases h

/-- SQLite on queries that list run ids and compare columns with parameters. -/
def plainSqlite : Sqlite (Option (List String)) where
  exec := listRuns
  project _ _ rows := some (rows.map fun row => row.runId)
  truth := comparisons
  raises _ _ _ := false
  unbound := by
    intro text ts params hlex hnamed hcount db db'
    have hnone : ∀ db, listRuns text params db = none := by
      intro db
      simp only [listRuns, hlex, Option.bind_some, Option.bind_eq_none_iff]
      intro p hp
      have hts := splitFrom_count hp
      rw [if_neg]
      simp only [Bool.and_eq_true, decide_eq_true_eq, not_and]
      intro _ heq
      exact hcount (hts.trans heq)
    rw [hnone db, hnone db']
  select := by
    intro text pre post params hplain hlex hsingle hcount _ db
    have hfrom : Token.word "from" ∉ pre := by
      simp only [single, Bool.and_eq_true, Bool.not_eq_true', List.contains_eq_mem,
        decide_eq_false_iff_not] at hsingle
      exact hsingle.1.1.1.1.1.1.2
    have hsplit := splitFrom_eq hfrom post
    simp only [listRuns, hlex, Option.bind_some, hsplit, hplain, hsingle, hcount, Bool.and_self,
      decide_true, if_true]
  and_truth := by
    intro column rest p ps row hc hor
    have hne := not_mem_of_isColumn hc
    have htop : hasTop (.word "or") 0 (equalsParam column ++ Token.word "and" :: rest) = false := by
      simpa [hasTop, equalsParam, depthStep, hne.2.2.1] using hor
    have hseg : segments (.word "and") 0 [] (equalsParam column ++ Token.word "and" :: rest) =
        equalsParam column :: segments (.word "and") 0 [] rest := by
      simp [segments, equalsParam, depthStep, hne.2.2.2.1]
    have hatom : comparison (equalsParam column) (p :: ps) row = comparison (equalsParam column) [p] row := by
      cases p <;> rfl
    rw [comparisons_of_hasTop htop, comparisons_of_hasTop hor, hseg,
      comparisons_of_hasTop (hasTop_equalsParam (.inl rfl) hc),
      segments_of_hasTop (hasTop_equalsParam (.inr rfl) hc)]
    have hcount : (equalsParam column).count .placeholder = 1 := by simp [equalsParam]
    simp [allTrue, hatom, hcount]
  and_raises := by
    intro column rest p ps row hc h
    rfl
  tenant_truth := by
    intro tenantId row
    rw [comparisons_of_hasTop (hasTop_equalsParam (.inl rfl) (by decide)),
      segments_of_hasTop (hasTop_equalsParam (.inr rfl) (by decide))]
    simp [allTrue, comparison]

section rows
attribute [local instance] asciiPy

/-- A row of the tenant with the given run. -/
def rowOf (tenantId runId : String) : LogRow :=
  { runId := runId, tenantId := tenantId, seq := 1, eventType := .run, payload := [], createdAt := 0 }

/-- The answer to a query of the tenant "acme" differs with a row of the tenant "other". -/
def sees (sql : String) (params : List Value) : Bool :=
  match scopeQuery "acme" sql.toList params with
  | .ok (text, ps) =>
    plainSqlite.exec text ps { events := [rowOf "other" "acme"] } ≠ plainSqlite.exec text ps {}
  | .error _ => false

theorem not_scopedTo_of_sees {sql : String} {params : List Value} (h : sees sql params = true) :
    ∃ text ps, scopeQuery "acme" sql.toList params = .ok (text, ps) ∧
      ¬plainSqlite.ScopedTo "acme" text ps := by
  unfold sees at h
  split at h
  next text ps heq =>
    refine ⟨text, ps, heq, ?_⟩
    intro hscoped
    rw [decide_eq_true_eq] at h
    exact h (hscoped _ _ (by decide +kernel))
  next => cases h

end rows
end JAgent
