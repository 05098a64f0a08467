import JAgent.Api.Tokens
import JAgent.Lib.Segments

/-! # Access to routes

`AuthMiddleware` decides of each call of the application whether it goes through: without an identity on public
paths and for preflight requests, with the principal that the provider returns where the policy allows it, and not
at all otherwise.  The policy is a table of patterns, of which the first that matches gives the role that a
request needs.

The table is compared with the routes of the application.  Every read needs a viewer, every write an operator, and
writes of workspaces and retries an administrator (`Route.level`); `requiredRole_of_route` says that the table
gives this role on every path of every route, with one exception: `.` does not match a line end, so a read whose
path has one before its last character is given to nobody. -/

namespace JAgent
open Lib

/-! ### The policy -/

/-- `PolicyRule`. -/
structure PolicyRule where
  method : String
  pattern : Pattern Char
  role : Role

/-- `method.upper()`; a server passes on ASCII methods only. -/
def upper (method : List Char) : List Char := method.map Char.toUpper

/-- The method under which a request is looked up. -/
def normalizedMethod (method : List Char) : List Char :=
  if upper method = "HEAD".toList then "GET".toList else upper method

/-- The rule is about the method, and its pattern matches the path. -/
def PolicyRule.applies (rule : PolicyRule) (method path : List Char) : Bool :=
  decide (rule.method.toList = method) && matchLine '\n' rule.pattern path

/-- `RoutePolicy.required_role`. -/
def requiredRole (rules : List PolicyRule) (method path : List Char) : Option Role :=
  (rules.find? (·.applies (normalizedMethod method) path)).map PolicyRule.role

/-- `RoutePolicy.allows`. -/
def policyAllows (rules : List PolicyRule) (method path : List Char) (p : Principal) : Bool :=
  match requiredRole rules method path with
  | none => false
  | some required => p.hasRole required

/-- `.*`. -/
def anyText : Pattern Char := .many (.one fun c => decide (c ≠ '\n'))

/-- A part of a pattern or of a template: `{name}`, and `*` for `[^/]+`, stand for anything, `(a|b)` for one of some
words. -/
def segmentOf (part : List Char) : Segment Char :=
  match part with
  | '\x7b' :: _ => .any
  | ['*'] => .any
  | '(' :: rest => .words (rest.dropLast.splitOn '|')
  | _ => .words [part]

/-- The parts of a path with placeholders. -/
def compilePath (path : String) : List (Segment Char) := ((path.toList.splitOn '/').drop 1).map segmentOf

/-- A rule whose pattern gives each part of the path. -/
structure PartsRule where
  method : String
  segments : List (Segment Char)
  role : Role

/-- The rule of the policy. -/
def PartsRule.toRule (rule : PartsRule) : PolicyRule := ⟨rule.method, pathPattern '/' rule.segments, rule.role⟩

/-- `PolicyRule("GET", "^/api/v1/.*$", Role.VIEWER)`. -/
def readRule : PolicyRule := ⟨"GET", .seq (.word "/api/v1/".toList) anyText, .viewer⟩

/-- The rules of the writes, with `*` for `[^/]+`. -/
def writeRules : List PartsRule :=
  [⟨"POST", compilePath "/api/v1/runs", .operator⟩,
   ⟨"POST", compilePath "/api/v1/runs/*/(pause|resume|confirm|feedback)", .operator⟩,
   ⟨"DELETE", compilePath "/api/v1/runs/*", .operator⟩,
   ⟨"POST", compilePath "/api/v1/conversations", .operator⟩,
   ⟨"POST", compilePath "/api/v1/conversations/*/messages", .operator⟩,
   ⟨"PATCH", compilePath "/api/v1/conversations/*", .operator⟩,
   ⟨"DELETE", compilePath "/api/v1/conversations/*", .operator⟩,
   ⟨"POST", compilePath "/api/v1/workspaces", .admin⟩,
   ⟨"PATCH", compilePath "/api/v1/workspaces/*", .admin⟩,
   ⟨"DELETE", compilePath "/api/v1/workspaces/*", .admin⟩,
   ⟨"POST", compilePath "/api/v1/operations/retry", .admin⟩]

/-- `PolicyRule("GET", "^/(docs|redoc|openapi\.json).*$", Role.ADMIN)`. -/
def docsRule : PolicyRule :=
  ⟨"GET", .seq (.word "/".toList) (.seq (.words ["docs".toList, "redoc".toList, "openapi.json".toList]) anyText), .admin⟩

/-- `DEFAULT_POLICY`. -/
def defaultPolicy : List PolicyRule := readRule :: writeRules.map PartsRule.toRule ++ [docsRule]

/-! ### The middleware -/

/-- `AuthProvider.authenticate`: a principal or None, or an exception. -/
abbrev AuthProvider := AsgiScope → Except Unit (Option Principal)

/-- What the middleware does with a call. -/
inductive Admission where
  | passed
  | admitted (p : Principal)
  | refused (status : ℕ) (reason : String)
deriving DecidableEq

/-- The method for the policy: `scope.get("method", "GET")` of a request, `"GET"` of a websocket. -/
def AsgiScope.policyMethod (scope : AsgiScope) : List Char :=
  if scope.type = "http" then scope.method.getD "GET".toList else "GET".toList

/-- `AuthMiddleware.__call__` up to the call of the application; `public_paths` is `("/health",)`. -/
def admission (rules : List PolicyRule) (provider : Option AuthProvider) (scope : AsgiScope) : Admission :=
  let path := scope.path.getD []
  if scope.type ≠ "http" ∧ scope.type ≠ "websocket" then .passed
  else if path = "/health".toList then .passed
  else if scope.type = "http" ∧ upper (scope.method.getD []) = "OPTIONS".toList then .passed
  else match provider with
    | none => .refused 401 "authentication provider not configured"
    | some authenticate => match authenticate scope with
      | .error _ => .refused 401 "authentication failed"
      | .ok none => .refused 401 "missing or invalid credentials"
      | .ok (some p) =>
          if policyAllows rules scope.policyMethod path p then .admitted p else .refused 403 "insufficient role"

/-- A message to the server. -/
inductive SentMessage where
  | close (code : ℕ) (reason : String)
  | start (status : ℕ) (headers : List (String × String))
  | body (text : String)
deriving DecidableEq

section reject
variable [Py]

/-- `_HTTP_UNAUTHORIZED` and `_HTTP_FORBIDDEN`. -/
def rejectPayload (status : ℕ) : Value :=
  if status = 401 then .obj [("error", .str "unauthorized"), ("message", .str "Authentication required")]
  else .obj [("error", .str "forbidden"), ("message", .str "Insufficient permissions")]

/-- `_reject`. -/
def rejectMessages (scope : AsgiScope) (status : ℕ) (reason : String) : List SentMessage :=
  if scope.type = "websocket" then [.close (if status = 401 then 4401 else 4403) reason]
  else
    let text := dumps {} (rejectPayload status)
    [.start status ([("content-type", "application/json"), ("content-length", toString text.utf8ByteSize)] ++
      if status = 401 then [("www-authenticate", "Bearer realm=\"jagent\", error=\"invalid_token\"")] else []),
     .body text]

end reject

/-- **An admitted call** is one that the provider knows and the policy allows. -/
theorem admission_eq_admitted {rules : List PolicyRule} {provider : Option AuthProvider} {scope : AsgiScope}
    {p : Principal} (h : admission rules provider scope = .admitted p) :
    ∃ authenticate, provider = some authenticate ∧ authenticate scope = .ok (some p) ∧
      policyAllows rules scope.policyMethod (scope.path.getD []) p = true := by
  delta admission at h
  dsimp only at h
  split_ifs at h
  cases provider with
  | none => cases h
  | some authenticate =>
      refine ⟨authenticate, rfl, ?_⟩
      cases hauth : authenticate scope with
      | error e => simp [hauth] at h
      | ok found =>
          cases found with
          | none => simp [hauth] at h
          | some p' =>
              simp only [hauth] at h
              split_ifs at h with hallowed
              obtain rfl := Admission.admitted.inj h
              exact ⟨rfl, hallowed⟩

/-! ### The routes -/

/-- A route: its method and the template of its path. -/
structure Route where
  method : String
  template : List (Segment Char)

/-- The decorator of a route. -/
def route (method path : String) : Route := ⟨method, compilePath path⟩

/-- The routes of the application; a websocket is looked up as a read. -/
def registeredRoutes : List Route :=
  [route "GET" "/api/v1/auth/whoami",
   route "POST" "/api/v1/workspaces",
   route "GET" "/api/v1/workspaces",
   route "GET" "/api/v1/workspaces/\x7bworkspace_id\x7d",
   route "PATCH" "/api/v1/workspaces/\x7bworkspace_id\x7d",
   route "DELETE" "/api/v1/workspaces/\x7bworkspace_id\x7d",
   route "GET" "/api/v1/workspaces/\x7bworkspace_id\x7d/events",
   route "GET" "/api/v1/runs",
   route "POST" "/api/v1/runs",
   route "GET" "/api/v1/runs/\x7brun_id\x7d",
   route "GET" "/api/v1/runs/\x7brun_id\x7d/events",
   route "POST" "/api/v1/runs/\x7brun_id\x7d/pause",
   route "POST" "/api/v1/runs/\x7brun_id\x7d/resume",
   route "POST" "/api/v1/runs/\x7brun_id\x7d/confirm",
   route "POST" "/api/v1/runs/\x7brun_id\x7d/feedback",
   route "DELETE" "/api/v1/runs/\x7brun_id\x7d",
   route "POST" "/api/v1/conversations",
   route "GET" "/api/v1/conversations",
   route "GET" "/api/v1/conversations/\x7bconversation_id\x7d",
   route "POST" "/api/v1/conversations/\x7bconversation_id\x7d/messages",
   route "DELETE" "/api/v1/conversations/\x7bconversation_id\x7d",
   route "PATCH" "/api/v1/conversations/\x7bconversation_id\x7d",
   route "GET" "/api/v1/replay/runs/\x7brun_id\x7d/meta",
   route "GET" "/api/v1/replay/runs/\x7brun_id\x7d/timeline",
   route "GET" "/api/v1/replay/runs/\x7brun_id\x7d/state",
   route "GET" "/api/v1/replay/runs/\x7brun_id\x7d/diff",
   route "GET" "/api/v1/analysis/dashboard",
   route "GET" "/api/v1/analysis/tools",
   route "GET" "/api/v1/analysis/guardrails",
   route "GET" "/api/v1/analysis/runs/\x7brun_id\x7d",
   route "GET" "/api/v1/analysis/runs/\x7brun_id\x7d/timeline",
   route "GET" "/api/v1/analysis/runs/\x7brun_id\x7d/tool-traces",
   route "POST" "/api/v1/operations/retry"]

/-- The router matches the path with the template of the route. -/
def Route.serves (r : Route) (path : List Char) : Bool := matchLine '\n' (pathPattern '/' r.template) path

/-- The role that a route is meant for. -/
def Route.level (r : Route) : Role :=
  if r.method = "GET" then .viewer
  else match (r.template[2]? : Option (Segment Char)) with
    | some (.words [area]) => if area = "workspaces".toList ∨ area = "operations".toList then .admin else .operator
    | _ => .operator

/-! ### The policy on the routes -/

/-- The role of the first rule that covers the route, when the rules before it clash with it. -/
def settled : List PartsRule → Route → Option Role
  | [], _ => none
  | rule :: rest, r =>
      if rule.method ≠ r.method ∨ clashes rule.segments r.template = true then settled rest r
      else if covers rule.segments r.template = true then some rule.role
      else none

/-- The parts of the rule or of the route can be compared. -/
def comparable (segments : List (Segment Char)) : Bool :=
  !segments.isEmpty && segments.all (Segment.proper '/' '\n')

theorem find?_of_settled {rules : List PartsRule} {r : Route} {role : Role} {path : List Char}
    (hrules : rules.all (comparable ·.segments) = true) (hr : comparable r.template = true)
    (h : settled rules r = some role) (hserves : r.serves path = true) :
    ((rules.map PartsRule.toRule).find? (·.applies r.method.toList path)).map PolicyRule.role = some role := by
  have hparts : ∀ {segments : List (Segment Char)}, comparable segments = true →
      segments ≠ [] ∧ segments.all (Segment.proper '/' '\n') = true := by
    intro segments hseg
    rw [comparable, Bool.and_eq_true, Bool.not_eq_true', List.isEmpty_eq_false_iff] at hseg
    exact hseg
  have hline : '/' ≠ '\n' := by decide
  induction rules with
  | nil => cases h
  | cons rule rest ih =>
      rw [List.all_cons, Bool.and_eq_true] at hrules
      obtain ⟨hnil, hproper⟩ := hparts hrules.1
      obtain ⟨hnil', hproper'⟩ := hparts hr
      rw [settled] at h
      rw [List.map_cons]
      split_ifs at h with hskip hcovers
      · have happlies : rule.toRule.applies r.method.toList path = false := by
          rw [PolicyRule.applies, Bool.and_eq_false_iff]
          by_cases hmethod : rule.method = r.method
          · -- the route has the path, so a rule that clashes with it does not
            right
            have hclash := hskip.resolve_left (not_not_intro hmethod)
            by_contra hmatch
            rw [Bool.not_eq_false] at hmatch
            have hnot := not_matchLine_of_clashes hline hnil hnil' hproper hproper' hclash hmatch
            rw [Route.serves, hnot] at hserves
            exact Bool.false_ne_true hserves
          · left
            apply decide_eq_false
            intro heq
            exact hmethod (String.toList_inj.mp heq)
        simp only [List.find?_cons, happlies]
        exact ih hrules.2 h
      · rw [not_or, not_not] at hskip
        have happlies : rule.toRule.applies r.method.toList path = true := by
          rw [PolicyRule.applies, Bool.and_eq_true]
          refine ⟨decide_eq_true (congrArg String.toList hskip.1), ?_⟩
          exact matchLine_of_covers hline hnil hnil' hproper' hcovers hserves
        simp only [List.find?_cons, happlies, Option.map_some]
        exact h

/-- The route is below `/api/v1/`. -/
def Route.readable (r : Route) : Bool :=
  match r.template with
  | .words [api] :: .words [v1] :: _ :: _ => decide (api = "api".toList ∧ v1 = "v1".toList)
  | _ => false

theorem api_of_readable {r : Route} {path : List Char} (h : r.readable = true) (hserves : r.serves path = true) :
    ∃ rest, path = "/api/v1/".toList ++ rest := by
  rw [Route.readable] at h
  split at h
  · rename_i api v1 s segments htemplate
    obtain ⟨rfl, rfl⟩ := of_decide_eq_true h
    rw [Route.serves, htemplate] at hserves
    obtain ⟨parts, rfl, hfits⟩ := (matchLine_pathPattern (by decide) (List.cons_ne_nil _ _)).mp hserves
    cases hfits with
    | @cons _ _ first parts hfirst hfits =>
        cases hfits with
        | @cons _ _ second parts hsecond hfits =>
            obtain rfl := List.mem_singleton.mp hfirst
            obtain rfl := List.mem_singleton.mp hsecond
            cases hfits with
            | @last _ part _ => exact ⟨part, by simp [glue]⟩
            | @cons _ _ part parts _ _ => exact ⟨part ++ glue '/' parts, by simp [glue]⟩
  · exact absurd h Bool.false_ne_true

theorem matchLine_anyText {front rest : List Char} (hfront : '\n' ∉ front) :
    matchLine '\n' (.seq (.word front) anyText) (front ++ rest) = true ↔ '\n' ∉ (front ++ rest).dropLast := by
  have hany : ∀ l, (Pattern.seq (.word front) anyText).Spells (front ++ l) ↔ '\n' ∉ l := by
    intro l
    rw [Pattern.spells_word_seq]
    constructor
    · rintro ⟨rest', heq, hrest⟩ hmem
      obtain rfl := List.append_cancel_left heq
      exact of_decide_eq_true (Pattern.spells_many_one.mp hrest '\n' hmem) rfl
    · intro hnot
      refine ⟨l, rfl, Pattern.spells_many_one.mpr ?_⟩
      intro c hc
      apply decide_eq_true
      rintro rfl
      exact hnot hc
  rw [matchLine_iff, hany]
  cases rest using List.reverseRecOn with
  | nil =>
      rw [List.append_nil]
      refine iff_of_true (.inl List.not_mem_nil) ?_
      exact fun h => hfront (List.mem_of_mem_dropLast h)
  | append_singleton back c =>
      rw [← List.append_assoc, List.dropLast_concat]
      constructor
      · rintro (h | ⟨text, heq, h⟩) hmem
        · rw [List.mem_append, not_or] at h
          exact (List.mem_append.mp hmem).elim hfront h.1
        · obtain ⟨rfl, -⟩ := List.append_inj' heq rfl
          exact (List.mem_append.mp hmem).elim hfront ((hany back).mp h)
      · intro hnot
        have hback : '\n' ∉ back := fun hmem => hnot (List.mem_append_right _ hmem)
        by_cases hc : c = '\n'
        · subst hc
          exact .inr ⟨front ++ back, rfl, (hany back).mpr hback⟩
        · left
          rw [List.mem_append, List.mem_singleton]
          exact fun h => h.elim hback (fun heq => hc heq.symm)

/-- The documentation is not below `/a…`. -/
theorem not_docs (text : List Char) : matchLine '\n' docsRule.pattern ('/' :: 'a' :: text) = false := by
  have hnot : ∀ t, ¬ docsRule.pattern.Spells ('/' :: 'a' :: t) := by
    intro t hspells
    obtain ⟨rest, heq, hrest⟩ := Pattern.spells_word_seq.mp hspells
    obtain ⟨w, back, rfl, hname, -⟩ := Pattern.spells_seq.mp hrest
    have htail : 'a' :: t = w ++ back := (List.cons.inj heq).2
    have hfirst : ["docs".toList, "redoc".toList, "openapi.json".toList].all (fun w => decide (w.head? ≠ some 'a') &&
        decide (w ≠ [])) = true := by decide
    have hw := List.all_eq_true.mp hfirst w (Pattern.spells_words.mp hname)
    rw [Bool.and_eq_true] at hw
    obtain ⟨c, w, rfl⟩ := List.exists_cons_of_ne_nil (of_decide_eq_true hw.2)
    obtain ⟨rfl, -⟩ := List.cons.inj htail
    exact of_decide_eq_true hw.1 rfl
  rw [← Bool.not_eq_true, matchLine_iff]
  rintro (h | ⟨front, heq, h⟩)
  · exact hnot text h
  · match front, heq, h with
    | [], heq, _ => exact absurd (List.cons.inj heq).1 (by decide)
    | [c], heq, _ => exact absurd (List.cons.inj (List.cons.inj heq).2).1 (by decide)
    | c :: d :: front, heq, h =>
        obtain ⟨hc, heq⟩ := List.cons.inj heq
        obtain ⟨rfl, -⟩ := List.cons.inj heq
        rw [← hc] at h
        exact hnot front h

/-- The table, compared with the routes. -/
theorem routes_settled : registeredRoutes.all (fun r =>
    comparable r.template && (decide (r.method = "GET") ||
      decide (r.method ≠ "GET" ∧ settled writeRules r = some r.level))) = true := by
  decide +kernel

theorem routes_readable : registeredRoutes.all Route.readable = true := by decide +kernel

theorem routes_methods : registeredRoutes.all (fun r => decide (r.method.toList ≠ "OPTIONS".toList)) = true := by
  decide +kernel

theorem writeRules_comparable : writeRules.all (comparable ·.segments) = true := by decide +kernel

/-- **The policy on the routes**: on every path of a route, the request needs the role that the route is meant for;
a read whose path has a line end before its last character is given to nobody. -/
theorem requiredRole_of_route {r : Route} (hr : r ∈ registeredRoutes) {method path : List Char}
    (hmethod : normalizedMethod method = r.method.toList) (hserves : r.serves path = true) :
    requiredRole defaultPolicy method path =
      if r.method = "GET" ∧ '\n' ∈ path.dropLast then none else some r.level := by
  have hchecked := List.all_eq_true.mp routes_settled r hr
  rw [Bool.and_eq_true, Bool.or_eq_true] at hchecked
  obtain ⟨hcomparable, hread | hwrite⟩ := hchecked
  · have hget := of_decide_eq_true hread
    obtain ⟨rest, rfl⟩ := api_of_readable (List.all_eq_true.mp routes_readable r hr) hserves
    have hlevel : r.level = .viewer := by rw [Route.level, if_pos hget]
    have hrule : readRule.applies "GET".toList ("/api/v1/".toList ++ rest) =
        decide ('\n' ∉ ("/api/v1/".toList ++ rest).dropLast) := by
      rw [PolicyRule.applies, decide_eq_true (show readRule.method.toList = "GET".toList from rfl), Bool.true_and,
        Bool.eq_iff_iff, decide_eq_true_iff]
      exact matchLine_anyText (by decide)
    rw [requiredRole, hmethod, hget, hlevel]
    by_cases hline : '\n' ∈ ("/api/v1/".toList ++ rest).dropLast
    · rw [if_pos ⟨rfl, hline⟩]
      have hnone : defaultPolicy.find? (·.applies "GET".toList ("/api/v1/".toList ++ rest)) = none := by
        rw [List.find?_eq_none]
        intro rule hrule'
        rw [Bool.not_eq_true]
        rw [defaultPolicy, List.cons_append, List.mem_cons, List.mem_append, List.mem_singleton] at hrule'
        obtain rfl | hmem | rfl := hrule'
        · rw [hrule, decide_eq_false (not_not_intro hline)]
        · -- the writes are about other methods
          obtain ⟨w, hw, rfl⟩ := List.mem_map.mp hmem
          have hother : writeRules.all (fun w => decide (w.method.toList ≠ "GET".toList)) = true := by decide +kernel
          have hne : w.method.toList ≠ "GET".toList := of_decide_eq_true (List.all_eq_true.mp hother w hw)
          rw [PolicyRule.applies, decide_eq_false (show w.toRule.method.toList ≠ _ from hne), Bool.false_and]
        · have hpath : "/api/v1/".toList ++ rest = '/' :: 'a' :: ("pi/v1/".toList ++ rest) := rfl
          rw [PolicyRule.applies, hpath, not_docs, Bool.and_false]
      rw [hnone]
      rfl
    · rw [if_neg (fun h => hline h.2), defaultPolicy, List.cons_append,
        List.find?_cons_of_pos (by rw [hrule]; exact decide_eq_true hline)]
      rfl
  · obtain ⟨hput, hsettled⟩ := of_decide_eq_true hwrite
    have hfind := find?_of_settled writeRules_comparable hcomparable hsettled hserves
    have hread : readRule.applies r.method.toList path = false := by
      rw [PolicyRule.applies, decide_eq_false, Bool.false_and]
      intro heq
      exact hput (String.toList_inj.mp heq).symm
    rw [if_neg (fun h => hput h.1), requiredRole, hmethod, defaultPolicy, List.cons_append,
      List.find?_cons_of_neg (by rw [hread]; exact Bool.false_ne_true), List.find?_append]
    obtain ⟨rule, hrule, hrole⟩ := Option.map_eq_some_iff.mp hfind
    rw [hrule, Option.some_or, Option.map_some, hrole]

/-- A request to pause a run. -/
def pauseRequest : AsgiScope :=
  { type := "http", path := some "/api/v1/runs/r1/pause".toList, method := some "POST".toList }

/-- A principal with one role. -/
def onlyRole (role : Role) : Principal := { subject := "ann", tenantId := "acme", roles := {role} }

end JAgent
