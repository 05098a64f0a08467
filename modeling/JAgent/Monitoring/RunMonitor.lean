import JAgent.Core.RunState
import JAgent.Models.Payloads
import JAgent.Tools.Addresses
import JAgent.Lib.System

/-! # The run monitor

`RunMonitor` listens to the events of a run as they are stored.  It counts failures for each endpoint,
remembers the calls that have no result yet, and injects feedback: on three failures in a row, when the
endpoint recovers, and on identical calls.  The feedback is stored as events of the run.

The second half compares the counters with the log: the tool calls to an endpoint that went wrong since its
last success (`failuresOf`), and the calls without a result (`unanswered`).  The failure of a step is counted
besides that of its tool call, time-outs are not counted, and failed calls stay pending;
`monitor_agrees_with_log` says that in runs without such events the counters are those of the log. -/

namespace JAgent

/-! ### State -/

/-- What the host gives: `hash` of a text, compatibility normalization, and the first sixteen digits of
SHA-256. -/
structure MonitorEnv where
  hash : String → ℤ
  nfkc : List Char → List Char
  digest : String → String

/-- A call that has no result yet. -/
structure PendingCall where
  toolName : String
  inputHash : ℤ
  epKey : String
deriving DecidableEq

/-- What the monitor keeps for one run. -/
structure RunMonitor where
  consecutiveFailures : ℕ := 0
  consecutivePerEp : Lib.Dict String ℕ := .empty
  pendingCalls : Lib.Dict String PendingCall := .empty
  lastSig : Option (String × ℤ × ℤ) := none
  repeatedCallCount : ℕ := 0
  stuckFeedbackSent : ℕ := 0
  failuresPerTool : Lib.Dict String ℕ := .empty
  failureErrorMap : Lib.Dict String (Lib.Dict String ℕ) := .empty
  capturedEpKey : Option String := none
  fedEpKeys : List (String × String) := []
  lastFailSig : Option (String × ℤ × String) := none
  repeatFailCount : ℕ := 0
  lastSeenSeq : ℕ := 0

section monitor
variable [Py] (env : MonitorEnv) (runId : String)

/-- `_endpoint_key`. -/
def endpointKey (tool : String) (url : Value) : String :=
  match url with
  | .str url =>
    if tool = "http_request" then
      match urlsplit env.nfkc url.toList with
      | .ok parts => if parts.netloc.isEmpty then tool else String.ofList parts.netloc
      | .error _ => tool
    else tool
  | _ => tool

/-- The endpoint of a call, by its input. -/
def calledEndpoint (p : ToolCalledPayload) : String :=
  endpointKey env p.toolName ((Obj.get? p.input "url").getD (.str ""))

/-- `_extract_error_type`. -/
def extractErrorType (errorText : String) : String :=
  String.ofList (strip (errorText.toList.takeWhile (· ≠ ':')))

/-- `text.startswith(front)`. -/
def startsWith (front text : String) : Bool := front.toList.isPrefixOf text.toList

omit [Py] in
/-- `_generate_suggestion`. -/
def generateSuggestion (tool errorType : String) : Option String :=
  if startsWith "browser_" tool then
    if startsWith "Timeout" errorType then
      some ("Browser action timed out. Take a browser_snapshot to inspect the " ++
        "current page, then retry the element-level action. For plain web " ++ "fetches use http_request.")
    else some ("Browser automation failed. Take a browser_snapshot (accessibility tree) " ++
      "to re-locate the target element before retrying.")
  else if tool = "http_request" && startsWith "ConnectTimeout" errorType then
    some "HTTP connection timed out. Check network or try a different URL."
  else if tool = "http_request" && startsWith "InvalidURL" errorType then
    some "Invalid URL format. Check and correct the URL before retrying."
  else none

/-- `compute_feedback_id` of the events and `_compute_feedback_id` of the monitor. -/
def computeFeedbackId (category : FeedbackCategory) (tool error : Option String) : String :=
  env.digest (runId ++ ":" ++ category.value ++ ":" ++ (nonEmpty tool).getD "?" ++ ":" ++
    (nonEmpty error).getD "?")

/-- The payload `_inject_feedback` stores. -/
def injected (fb : FeedbackInjectedPayload) : FeedbackInjectedPayload :=
  { fb with feedbackId := computeFeedbackId env runId fb.category fb.affectedTool fb.errorType }

/-- The item, if its count is larger. -/
def largerCount : Option (String × ℕ) → String × ℕ → Option (String × ℕ)
  | none, item => some item
  | some best, item => if best.2 < item.2 then some item else some best

/-- `max(counts, key=...)`: the first key with the largest count. -/
def dominant (counts : Lib.Dict String ℕ) : Option String :=
  (counts.items.foldl largerCount none).map Prod.fst

namespace RunMonitor
variable (m : RunMonitor)

/-- The consecutive failures of an endpoint. -/
def count (epKey : String) : ℕ := m.consecutivePerEp.getD epKey 0

/-- One more failure of an endpoint. -/
def countFailure (epKey : String) : RunMonitor :=
  { m with
    consecutivePerEp := m.consecutivePerEp.set epKey (m.count epKey + 1)
    consecutiveFailures := m.count epKey + 1 }

/-- One more failure of a tool, and of this kind. -/
def countError (tool errorType : String) : RunMonitor :=
  let errors := m.failureErrorMap.getD tool .empty
  { m with
    failuresPerTool := m.failuresPerTool.set tool (m.failuresPerTool.getD tool 0 + 1)
    failureErrorMap := m.failureErrorMap.set tool (errors.set errorType (errors.getD errorType 0 + 1)) }

/-- The same input with the same error again, or not. -/
def noteFailSig (sig : String × ℤ × String) : RunMonitor :=
  { m with
    repeatFailCount := if m.lastFailSig = some sig then m.repeatFailCount + 1 else 0
    lastFailSig := some sig }

/-- The text of a failure feedback. -/
def failureText (tool epKey dominantError : String) : String :=
  let perToolTotal := m.failuresPerTool.getD tool 0
  join " " (["Endpoint '" ++ epKey ++ "' (tool '" ++ tool ++ "') failed " ++ toString (m.count epKey) ++
      " consecutive times: '" ++ dominantError ++ "'"] ++
    (if 2 ≤ m.repeatFailCount then ["Same input parameters and same error repeated " ++
      toString (m.repeatFailCount + 1) ++ " times. Retrying will not help."] else []) ++
    (if m.count epKey < perToolTotal then ["Tool '" ++ tool ++ "' has " ++ toString perToolTotal ++
      " total failures — endpoint may be unreachable."] else []))

/-- `_check_and_inject_feedback`: one feedback for each endpoint and kind of error. -/
def checkAndInjectFeedback (tool epKey errorType : String) (blocked : Bool) (errorDetail : String) :
    RunMonitor × List FeedbackInjectedPayload :=
  match dominant (m.failureErrorMap.getD tool .empty) with
  | none => (m, [])
  | some dominantError =>
    if m.fedEpKeys.contains (epKey, errorType) then (m, [])
    else
      let m := { m with fedEpKeys := m.fedEpKeys ++ [(epKey, errorType)], capturedEpKey := some epKey }
      (m, [injected env runId
        { category := if blocked then .guardrailTriggered else .toolFailure
          feedbackText := m.failureText tool epKey dominantError
          priority := .high
          affectedTool := some epKey
          errorType := some dominantError
          errorDetail := some errorDetail
          suggestion := generateSuggestion tool errorType
          expiresAtSeq := some (m.lastSeenSeq + 50) }])

/-- From the third failure in a row on, the endpoint is reported. -/
def alert (tool epKey errorType : String) (blocked : Bool) (errorDetail : String) :
    RunMonitor × List FeedbackInjectedPayload :=
  if 3 ≤ m.count epKey then m.checkAndInjectFeedback env runId tool epKey errorType blocked errorDetail
  else (m, [])

/-- The branch for a call. -/
def onCalled (p : ToolCalledPayload) : RunMonitor :=
  let epKey := calledEndpoint env p
  let call : PendingCall := ⟨p.toolName, env.hash (pyStr (.obj p.input)), epKey⟩
  { m with pendingCalls := m.pendingCalls.set p.toolCallId call }

/-- The detection of identical calls. -/
def noteCompleted (info : Option PendingCall) (epKey : String) (p : ToolCompletedPayload) (seq : ℕ) :
    RunMonitor × List FeedbackInjectedPayload :=
  match info with
  | none => (m, [])
  | some call =>
    let sig := (epKey, call.inputHash, env.hash (pyStr p.output))
    let m := if m.lastSig = some sig then { m with repeatedCallCount := m.repeatedCallCount + 1 }
      else { m with repeatedCallCount := 0, lastSig := some sig, stuckFeedbackSent := 0 }
    let count := m.repeatedCallCount
    if 3 ≤ count ∧ count % 3 = 0 ∧ m.stuckFeedbackSent < count / 3 then
      ({ m with stuckFeedbackSent := count / 3 }, [injected env runId
        { category := .repeatedCall
          feedbackText := "Warning: repeated same tool call " ++ toString (count + 1) ++ " times (" ++
            p.toolName ++ "). Consider changing strategy or terminating."
          priority := .high
          affectedTool := some p.toolName
          expiresAtSeq := some (seq + 50) }])
    else (m, [])

end RunMonitor

/-- `_find_last_feedback_id`; the outer `none` when the fold raises. -/
def findLastFeedbackId (events : List LogEvent) (epKey : String) : Option (Option String) :=
  match foldEvents events with
  | .error _ => none
  | .ok st => some ((st.feedbacks.reverse.find? fun fb =>
      fb.affectedTool = some epKey && fb.category ≠ .conditionResolved &&
        fb.expiresAtSeq.all (st.seq ≤ ·)).map FeedbackInjectedPayload.feedbackId)

namespace RunMonitor
variable (m : RunMonitor)

/-- The signal that an endpoint has recovered; `none` when looking the feedback up raises. -/
def resolution (events : List LogEvent) (epKey : String) (was seq : ℕ) :
    Option (List FeedbackInjectedPayload) :=
  if 3 ≤ was ∧ m.capturedEpKey = some epKey then
    (findLastFeedbackId events epKey).map fun previous => match nonEmpty previous with
      | none => []
      | some feedbackId => [injected env runId
        { category := .conditionResolved
          feedbackText := "Endpoint '" ++ epKey ++ "' recovered after " ++ toString was ++ " consecutive failures"
          priority := .low
          affectedTool := some epKey
          resolvesFeedbackId := some feedbackId
          expiresAtSeq := some (seq + 10) }]
  else some []

/-- The streak of an endpoint ends; nothing is stored before the first failure of the run. -/
def resetStreak (epKey : String) : RunMonitor :=
  { m with
    consecutivePerEp :=
      if m.consecutivePerEp.items.isEmpty then m.consecutivePerEp else m.consecutivePerEp.set epKey 0
    consecutiveFailures := 0 }

/-- The call has its result. -/
def answered (toolCallId : String) : RunMonitor := { m with pendingCalls := m.pendingCalls.pop toolCallId }

/-- A call that completed without success.  Reading the kind of a missing error raises, and the handler ends
with what it has stored. -/
def onUnsuccessful (info : Option PendingCall) (epKey : String) (seq : ℕ) (p : ToolCompletedPayload) :
    RunMonitor × List FeedbackInjectedPayload :=
  let m := m.countFailure epKey
  match p.error with
  | none => (m, [])
  | some error =>
    let errorType := extractErrorType error
    let alerted := (m.countError p.toolName errorType).alert env runId p.toolName epKey errorType false error
    let noted := alerted.1.noteCompleted env runId info epKey p seq
    (noted.1, alerted.2 ++ noted.2)

/-- A call that succeeded.  The handler ends here when the search for the feedback to resolve raises. -/
def onSuccess (events : List LogEvent) (info : Option PendingCall) (epKey : String) (seq : ℕ)
    (p : ToolCompletedPayload) : RunMonitor × List FeedbackInjectedPayload :=
  let was := m.count epKey
  let m := m.resetStreak epKey
  match m.resolution env runId events epKey was seq with
  | none => (m, [])
  | some resolved =>
    let noted := m.noteCompleted env runId info epKey p seq
    (noted.1, resolved ++ noted.2)

/-- The endpoint a result is counted for. -/
def resultEndpoint (toolCallId : Option String) (tool : String) : String :=
  ((toolCallId.bind m.pendingCalls.get?).map PendingCall.epKey).getD tool

/-- The branch for a failed or blocked tool call and for a failed step. -/
def onFailure (tool error : String) (toolCallId : Option String) (blocked : Bool) :
    RunMonitor × List FeedbackInjectedPayload :=
  let errorType := extractErrorType error
  let epKey := m.resultEndpoint toolCallId tool
  let inputHash := ((toolCallId.bind m.pendingCalls.get?).map PendingCall.inputHash).getD (env.hash "")
  (((m.countFailure epKey).countError tool errorType).noteFailSig (epKey, inputHash, errorType)).alert env runId
    tool epKey errorType blocked error

/-- The branch for a completed call. -/
def onCompleted (events : List LogEvent) (seq : ℕ) (p : ToolCompletedPayload) :
    RunMonitor × List FeedbackInjectedPayload :=
  let info := m.pendingCalls.get? p.toolCallId
  let epKey := m.resultEndpoint (some p.toolCallId) p.toolName
  if p.resultType = .unsuccessful then (m.answered p.toolCallId).onUnsuccessful env runId info epKey seq p
  else (m.answered p.toolCallId).onSuccess env runId events info epKey seq p

/-- `_on_event_impl`: what the monitor keeps, and the feedback it stores. -/
def onEvent (events : List LogEvent) (e : LogEvent) : RunMonitor × List FeedbackInjectedPayload :=
  let m := { m with lastSeenSeq := e.seq }
  match e.payload with
  | .toolFailed toolCallId toolName error _ _ => m.onFailure env runId toolName error (some toolCallId) false
  | .guardrailTriggered toolCallId toolName _ _ _ _ => m.onFailure env runId toolName "" (some toolCallId) true
  | .stepFailed _ _ error _ toolName toolCallId => m.onFailure env runId toolName error toolCallId false
  | .toolCalled p => (m.onCalled env p, [])
  | .toolCompleted p => m.onCompleted env runId events e.seq p
  | _ => (m, [])

end RunMonitor

/-! ### Runs under the monitor -/

/-- The stored events of a run, and its monitor. -/
structure MonitoredRun where
  events : List LogEvent := []
  monitor : RunMonitor := {}

namespace MonitoredRun
variable (s : MonitoredRun)

def payloads : List Payload := s.events.map LogEvent.payload

/-- The next event of the run. -/
def nextEvent (payload : Payload) : LogEvent := ⟨runId, s.events.length + 1, payload⟩

/-- What the monitor makes of the next event. -/
def heard (payload : Payload) : RunMonitor × List FeedbackInjectedPayload :=
  s.monitor.onEvent env runId (s.events ++ [s.nextEvent runId payload]) (s.nextEvent runId payload)

/-- An event is stored, and the monitor hears of it. -/
def store (payload : Payload) : MonitoredRun :=
  ⟨s.events ++ [s.nextEvent runId payload], (s.heard env runId payload).1⟩

/-- An event is stored, and then the feedback of the monitor. -/
def append (payload : Payload) : MonitoredRun :=
  (s.heard env runId payload).2.foldl (fun s fb => s.store env runId (.feedbackInjected fb))
    (s.store env runId payload)

end MonitoredRun

/-- Whoever writes events of the run writes one. -/
def monitorStep (s : MonitoredRun) (payload : Payload) : Option MonitoredRun := some (s.append env runId payload)

/-! ### What the log says -/

omit [Py] in
/-- The result of a tool call. -/
structure ToolOutcome where
  toolCallId : String
  toolName : String
  success : Bool

/-- The events that are results. -/
def outcomeOf? : Payload → Option ToolOutcome
  | .toolCompleted p => some ⟨p.toolCallId, p.toolName, p.resultType ≠ .unsuccessful⟩
  | .toolFailed toolCallId toolName _ _ _ | .toolTimeout toolCallId toolName _ _
  | .guardrailTriggered toolCallId toolName _ _ _ _ => some ⟨toolCallId, toolName, false⟩
  | _ => none

/-- The endpoint of the event, if it is a call with this id. -/
def calledAs (toolCallId : String) : Payload → Option String
  | .toolCalled p => if p.toolCallId = toolCallId then some (calledEndpoint env p) else none
  | _ => none

/-- The endpoint of the last call with this id. -/
def calledAt (log : List Payload) (toolCallId : String) : Option String :=
  log.reverse.findSome? (calledAs env toolCallId)

/-- The result that an event adds to a log, with the endpoint of its call; a call that was refused before it
was made belongs to its tool. -/
def outcomeAt (log : List Payload) (p : Payload) : Option (String × ToolOutcome) :=
  (outcomeOf? p).map fun outcome => ((calledAt env log outcome.toolCallId).getD outcome.toolName, outcome)

def outcomesFrom : List Payload → List Payload → List (String × ToolOutcome)
  | _, [] => []
  | before, p :: rest => (outcomeAt env before p).toList ++ outcomesFrom (before ++ [p]) rest

/-- The results of a log, with their endpoints. -/
def outcomes (log : List Payload) : List (String × ToolOutcome) := outcomesFrom env [] log

/-- The distinct calls to an endpoint that went wrong since its last success. -/
def failing (log : List Payload) (epKey : String) : List String :=
  ((((outcomes env log).filter (·.1 = epKey)).reverse.takeWhile fun o => !o.2.success).map
    fun o => o.2.toolCallId).dedup

/-- Their number. -/
def failuresOf (log : List Payload) (epKey : String) : ℕ := (failing env log epKey).length

/-- The event is a call with this id, or a result of one. -/
def concerns (toolCallId : String) : Payload → Bool
  | .toolCalled p => p.toolCallId = toolCallId
  | p => (outcomeOf? p).any fun outcome => outcome.toolCallId = toolCallId

def isCall : Payload → Bool
  | .toolCalled _ => true
  | _ => false

/-- The id was called and has no result yet. -/
def unanswered (log : List Payload) (toolCallId : String) : Bool :=
  (log.reverse.find? (concerns toolCallId)).any isCall

/-- The endpoint of a result can be told: its call is waiting for it, or goes by the name of its tool. -/
def attributed (log : List Payload) (toolCallId toolName : String) : Bool :=
  unanswered log toolCallId || (calledAt env log toolCallId).getD toolName = toolName

/-- The result is the first to go wrong under its id since the last success of the endpoint. -/
def firstFailing (log : List Payload) (toolCallId toolName : String) : Bool :=
  !(failing env log ((calledAt env log toolCallId).getD toolName)).contains toolCallId

/-- The monitor accounts for the event: not a failed step, not a time-out, and not the failure of a call that
is waiting for its result; the endpoint can be told; and nothing goes wrong twice under one id. -/
def accountable (log : List Payload) : Payload → Bool
  | .stepFailed .. | .toolTimeout .. => false
  | .toolFailed toolCallId toolName _ _ _ | .guardrailTriggered toolCallId toolName _ _ _ _ =>
    !unanswered log toolCallId && attributed env log toolCallId toolName &&
      firstFailing env log toolCallId toolName
  | .toolCompleted p => attributed env log p.toolCallId p.toolName &&
    (p.resultType ≠ .unsuccessful || firstFailing env log p.toolCallId p.toolName)
  | _ => true

/-! ### One more event of the log -/

section log
variable {env} {log : List Payload} {p : Payload}

theorem calledAt_append (toolCallId : String) :
    calledAt env (log ++ [p]) toolCallId = (calledAs env toolCallId p).or (calledAt env log toolCallId) := by
  unfold calledAt
  rw [List.reverse_append, List.reverse_singleton, List.singleton_append, List.findSome?_cons]
  cases calledAs env toolCallId p <;> rfl

theorem outcomesFrom_append (before : List Payload) :
    outcomesFrom env before (log ++ [p]) =
      outcomesFrom env before log ++ (outcomeAt env (before ++ log) p).toList := by
  induction log generalizing before with
  | nil =>
      rw [List.nil_append, outcomesFrom, outcomesFrom, outcomesFrom, List.append_nil, List.append_nil,
        List.nil_append]
  | cons q log ih =>
      rw [List.cons_append, outcomesFrom, outcomesFrom, ih, List.append_assoc, List.append_assoc]
      rfl

theorem outcomes_append : outcomes env (log ++ [p]) = outcomes env log ++ (outcomeAt env log p).toList :=
  outcomesFrom_append []

omit [Py] in
theorem unanswered_append (toolCallId : String) : unanswered (log ++ [p]) toolCallId =
    if concerns toolCallId p then isCall p else unanswered log toolCallId := by
  unfold unanswered
  rw [List.reverse_append, List.reverse_singleton, List.singleton_append, List.find?_cons]
  cases concerns toolCallId p <;> rfl

/-- An event that is no result of the endpoint. -/
theorem failing_append_other {epKey : String} (h : ∀ o, outcomeAt env log p = some o → o.1 ≠ epKey) :
    failing env (log ++ [p]) epKey = failing env log epKey := by
  have hnone : (outcomeAt env log p).toList.filter (·.1 = epKey) = [] := by
    rw [List.filter_eq_nil_iff]
    intro o ho heq
    exact h o (Option.mem_toList.mp ho) (of_decide_eq_true heq)
  unfold failing
  rw [outcomes_append, List.filter_append, hnone, List.append_nil]

/-- A result of the endpoint. -/
theorem failing_append_outcome {epKey : String} {outcome : ToolOutcome}
    (h : outcomeAt env log p = some (epKey, outcome)) :
    failing env (log ++ [p]) epKey = if outcome.success then [] else
      if outcome.toolCallId ∈ failing env log epKey then failing env log epKey
      else outcome.toolCallId :: failing env log epKey := by
  unfold failing
  rw [outcomes_append, h, Option.toList_some, List.filter_append, List.filter_singleton, decide_eq_true rfl,
    cond_true, List.reverse_append, List.reverse_singleton, List.singleton_append, List.takeWhile_cons]
  cases hsuccess : outcome.success with
  | true => rfl
  | false =>
      rw [Bool.not_false, if_pos rfl, if_neg Bool.false_ne_true, List.map_cons]
      split_ifs with hmem
      · exact List.dedup_cons_of_mem (List.mem_dedup.mp hmem)
      · exact List.dedup_cons_of_notMem fun h => hmem (List.mem_dedup.mpr h)

end log

/-! ### What an event does to the counters -/

namespace RunMonitor
variable {env runId} {m : RunMonitor}

omit [Py] in
theorem count_countFailure (epKey e : String) :
    (m.countFailure epKey).count e = if epKey = e then m.count e + 1 else m.count e := by
  unfold countFailure count
  rw [Lib.Dict.getD_set]
  split_ifs with h
  · rw [h]
  · rfl

omit [Py] in
theorem count_resetStreak (epKey e : String) :
    (m.resetStreak epKey).count e = if epKey = e then 0 else m.count e := by
  unfold resetStreak count
  dsimp only
  split_ifs with hempty hkey hkey
  · unfold Lib.Dict.getD Lib.Dict.get?
    rw [List.isEmpty_iff.mp hempty]
    rfl
  · rfl
  · rw [Lib.Dict.getD_set, if_pos hkey]
  · rw [Lib.Dict.getD_set, if_neg hkey]

omit [Py] in
/-- The counts and the pending calls are those of `m`. -/
structure Keeps (m m' : RunMonitor) : Prop where
  perEp : m'.consecutivePerEp = m.consecutivePerEp
  pending : m'.pendingCalls = m.pendingCalls

omit [Py] in
theorem Keeps.trans {m m' m'' : RunMonitor} (h : Keeps m m') (h' : Keeps m' m'') : Keeps m m'' :=
  ⟨h'.perEp.trans h.perEp, h'.pending.trans h.pending⟩

omit [Py] in
theorem Keeps.count {m m' : RunMonitor} (h : Keeps m m') (e : String) : m'.count e = m.count e := by
  unfold RunMonitor.count
  rw [h.perEp]

omit [Py] in
/-- Reporting an endpoint touches neither. -/
theorem keeps_alert (tool epKey errorType : String) (blocked : Bool) (detail : String) :
    Keeps m (m.alert env runId tool epKey errorType blocked detail).1 := by
  unfold alert checkAndInjectFeedback
  cases dominant (m.failureErrorMap.getD tool .empty) with
  | none => split_ifs <;> exact ⟨rfl, rfl⟩
  | some dominantError =>
      dsimp only
      split_ifs <;> exact ⟨rfl, rfl⟩

theorem keeps_noteCompleted (info : Option PendingCall) (epKey : String) (p : ToolCompletedPayload) (seq : ℕ) :
    Keeps m (m.noteCompleted env runId info epKey p seq).1 := by
  unfold noteCompleted
  cases info with
  | none => exact ⟨rfl, rfl⟩
  | some call =>
      dsimp only
      split_ifs <;> exact ⟨rfl, rfl⟩

theorem keeps_onFailure (tool error : String) (toolCallId : Option String) (blocked : Bool) :
    Keeps (m.countFailure (m.resultEndpoint toolCallId tool))
      (m.onFailure env runId tool error toolCallId blocked).1 := by
  unfold onFailure
  refine Keeps.trans ?_ (keeps_alert _ _ _ _ _)
  exact ⟨rfl, rfl⟩

theorem keeps_onUnsuccessful (info : Option PendingCall) (epKey : String) (seq : ℕ) (p : ToolCompletedPayload) :
    Keeps (m.countFailure epKey) (m.onUnsuccessful env runId info epKey seq p).1 := by
  unfold onUnsuccessful
  cases p.error with
  | none => exact ⟨rfl, rfl⟩
  | some error =>
      refine Keeps.trans ?_ (keeps_noteCompleted _ _ _ _)
      refine Keeps.trans ?_ (keeps_alert _ _ _ _ _)
      exact ⟨rfl, rfl⟩

theorem keeps_onSuccess (events : List LogEvent) (info : Option PendingCall) (epKey : String) (seq : ℕ)
    (p : ToolCompletedPayload) :
    Keeps (m.resetStreak epKey) (m.onSuccess env runId events info epKey seq p).1 := by
  unfold onSuccess
  dsimp only
  cases (m.resetStreak epKey).resolution env runId events epKey (m.count epKey) seq with
  | none => exact ⟨rfl, rfl⟩
  | some resolved => exact keeps_noteCompleted _ _ _ _

/-- After a result: the call is no longer pending, and its endpoint has one failure more, or none. -/
theorem onCompleted_spec (events : List LogEvent) (seq : ℕ) (p : ToolCompletedPayload) :
    (m.onCompleted env runId events seq p).1.pendingCalls = m.pendingCalls.pop p.toolCallId ∧
      ∀ e, (m.onCompleted env runId events seq p).1.count e =
        if m.resultEndpoint (some p.toolCallId) p.toolName = e then
          if p.resultType = .unsuccessful then m.count e + 1 else 0
        else m.count e := by
  unfold onCompleted
  dsimp only
  by_cases hresult : p.resultType = .unsuccessful
  · simp only [if_pos hresult]
    have hkeeps : Keeps _ ((m.answered p.toolCallId).onUnsuccessful env runId (m.pendingCalls.get? p.toolCallId)
      (m.resultEndpoint (some p.toolCallId) p.toolName) seq p).1 := keeps_onUnsuccessful _ _ _ _
    refine ⟨hkeeps.pending, fun e => ?_⟩
    rw [hkeeps.count, count_countFailure]
    rfl
  · simp only [if_neg hresult]
    have hkeeps : Keeps _ ((m.answered p.toolCallId).onSuccess env runId events (m.pendingCalls.get? p.toolCallId)
      (m.resultEndpoint (some p.toolCallId) p.toolName) seq p).1 := keeps_onSuccess _ _ _ _ _
    refine ⟨hkeeps.pending, fun e => ?_⟩
    rw [hkeeps.count, count_resetStreak]
    rfl

end RunMonitor

/-! ### The counters and the log -/

/-- The counters are those of the log; a pending call knows its endpoint. -/
structure Tallies (log : List Payload) (m : RunMonitor) : Prop where
  count_eq : ∀ epKey, m.count epKey = failuresOf env log epKey
  pending_eq : ∀ toolCallId, (m.pendingCalls.get? toolCallId).isSome = unanswered log toolCallId
  endpoint_eq : ∀ toolCallId call, m.pendingCalls.get? toolCallId = some call →
    calledAt env log toolCallId = some call.epKey

section agreement
variable {env runId} {log : List Payload} {m : RunMonitor} {p : Payload}

/-- An event that is neither a call nor a result, and that the monitor does not count. -/
theorem Tallies.quiet (h : Tallies env log m) {m' : RunMonitor} (hkeeps : m.Keeps m')
    (hcalled : ∀ toolCallId, calledAs env toolCallId p = none) (houtcome : outcomeOf? p = none)
    (hconcerns : ∀ toolCallId, concerns toolCallId p = false) : Tallies env (log ++ [p]) m' := by
  refine ⟨fun epKey => ?_, fun toolCallId => ?_, fun toolCallId call hcall => ?_⟩
  · have hnone : outcomeAt env log p = none := by
      unfold outcomeAt
      rw [houtcome]
      rfl
    unfold failuresOf
    rw [hkeeps.count, failing_append_other fun o ho => by rw [hnone] at ho; cases ho]
    exact h.count_eq epKey
  · rw [hkeeps.pending, unanswered_append, hconcerns, if_neg Bool.false_ne_true]
    exact h.pending_eq toolCallId
  · rw [hkeeps.pending] at hcall
    rw [calledAt_append, hcalled, Option.none_or]
    exact h.endpoint_eq toolCallId call hcall

theorem Tallies.called (h : Tallies env log m) (q : ToolCalledPayload) :
    Tallies env (log ++ [.toolCalled q]) (m.onCalled env q) := by
  refine ⟨fun epKey => ?_, fun toolCallId => ?_, fun toolCallId call hcall => ?_⟩
  · unfold failuresOf
    rw [failing_append_other fun o ho => by cases ho]
    exact h.count_eq epKey
  · unfold RunMonitor.onCalled
    have hconcerns : concerns toolCallId (.toolCalled q) = decide (q.toolCallId = toolCallId) := rfl
    rw [Lib.Dict.get?_set, unanswered_append, hconcerns]
    by_cases hid : q.toolCallId = toolCallId
    · rw [if_pos hid, if_pos (decide_eq_true hid)]
      rfl
    · rw [if_neg hid, if_neg (by simpa using hid)]
      exact h.pending_eq toolCallId
  · unfold RunMonitor.onCalled at hcall
    rw [Lib.Dict.get?_set] at hcall
    rw [calledAt_append]
    by_cases hid : q.toolCallId = toolCallId
    · rw [if_pos hid] at hcall
      obtain rfl := Option.some.inj hcall
      rw [calledAs, if_pos hid]
      rfl
    · rw [if_neg hid] at hcall
      rw [calledAs, if_neg hid, Option.none_or]
      exact h.endpoint_eq toolCallId call hcall

/-- A result that goes wrong: the endpoint has one failure more, under an id that is not counted yet. -/
theorem failuresOf_append_failed {epKey : String} {outcome : ToolOutcome}
    (houtcome : outcomeAt env log p = some (epKey, outcome)) (hfail : outcome.success = false)
    (hnew : outcome.toolCallId ∉ failing env log epKey) (e : String) :
    failuresOf env (log ++ [p]) e = if epKey = e then failuresOf env log e + 1 else failuresOf env log e := by
  unfold failuresOf
  by_cases hkey : epKey = e
  · subst hkey
    rw [if_pos rfl, failing_append_outcome houtcome, hfail, if_neg Bool.false_ne_true, if_neg hnew,
      List.length_cons]
  · rw [if_neg hkey, failing_append_other fun o ho => ?_]
    rw [houtcome] at ho
    obtain rfl := Option.some.inj ho
    exact hkey

/-- Once the endpoint can be told, the monitor counts the result for the endpoint of its call. -/
theorem Tallies.resultEndpoint_eq (h : Tallies env log m) {toolCallId toolName : String}
    (hkey : attributed env log toolCallId toolName = true) :
    m.resultEndpoint (some toolCallId) toolName = (calledAt env log toolCallId).getD toolName := by
  unfold RunMonitor.resultEndpoint
  rw [Option.bind_some]
  cases hget : m.pendingCalls.get? toolCallId with
  | some call =>
      rw [h.endpoint_eq toolCallId call hget]
      rfl
  | none =>
      have hdone := h.pending_eq toolCallId
      rw [hget, Option.isSome_none] at hdone
      unfold attributed at hkey
      rw [← hdone, Bool.false_or] at hkey
      exact (of_decide_eq_true hkey).symm

theorem firstFailing_iff {toolCallId toolName : String} : firstFailing env log toolCallId toolName = true ↔
    toolCallId ∉ failing env log ((calledAt env log toolCallId).getD toolName) := by
  unfold firstFailing
  rw [Bool.not_eq_true', List.contains_eq_mem, decide_eq_false_iff_not]

/-- A failure of a call that is not waiting for its result, such as a call refused before it was made. -/
theorem Tallies.refused (h : Tallies env log m) {toolCallId toolName : String}
    (houtcome : outcomeOf? p = some ⟨toolCallId, toolName, false⟩)
    (hcalled : ∀ id, calledAs env id p = none)
    (hconcerns : ∀ id, concerns id p = decide (toolCallId = id)) (hcall : isCall p = false)
    (hok : (!unanswered log toolCallId && attributed env log toolCallId toolName &&
      firstFailing env log toolCallId toolName) = true)
    {m' : RunMonitor}
    (hkeeps : (m.countFailure (m.resultEndpoint (some toolCallId) toolName)).Keeps m') :
    Tallies env (log ++ [p]) m' := by
  rw [Bool.and_eq_true, Bool.and_eq_true, Bool.not_eq_true', firstFailing_iff] at hok
  obtain ⟨⟨hclosed, hkey⟩, hnew⟩ := hok
  have hat : outcomeAt env log p =
      some ((calledAt env log toolCallId).getD toolName, ⟨toolCallId, toolName, false⟩) := by
    unfold outcomeAt
    rw [houtcome, Option.map_some]
  refine ⟨fun epKey => ?_, fun id => ?_, fun id call hget => ?_⟩
  · rw [hkeeps.count, h.resultEndpoint_eq hkey, RunMonitor.count_countFailure,
      failuresOf_append_failed hat rfl hnew, h.count_eq]
  · rw [hkeeps.pending, unanswered_append, hconcerns, hcall]
    by_cases hid : toolCallId = id
    · rw [if_pos (decide_eq_true hid), ← hid, ← hclosed]
      exact h.pending_eq toolCallId
    · rw [if_neg (by simpa using hid)]
      exact h.pending_eq id
  · rw [hkeeps.pending] at hget
    rw [calledAt_append, hcalled, Option.none_or]
    exact h.endpoint_eq id call hget

/-- A completed call counts for its endpoint, and is no longer pending. -/
theorem Tallies.completed (h : Tallies env log m) {q : ToolCompletedPayload} (events : List LogEvent) (seq : ℕ)
    (hkey : attributed env log q.toolCallId q.toolName = true)
    (hnew : q.resultType = .unsuccessful → firstFailing env log q.toolCallId q.toolName = true) :
    Tallies env (log ++ [.toolCompleted q]) (m.onCompleted env runId events seq q).1 := by
  obtain ⟨hpending, hcount⟩ := @RunMonitor.onCompleted_spec _ env runId m events seq q
  have hat : outcomeAt env log (.toolCompleted q) = some ((calledAt env log q.toolCallId).getD q.toolName,
      ⟨q.toolCallId, q.toolName, q.resultType ≠ .unsuccessful⟩) := rfl
  refine ⟨fun epKey => ?_, fun id => ?_, fun id other hget => ?_⟩
  · rw [hcount, h.resultEndpoint_eq hkey]
    by_cases hresult : q.resultType = .unsuccessful
    · have hfail : (⟨q.toolCallId, q.toolName, q.resultType ≠ .unsuccessful⟩ : ToolOutcome).success = false :=
        decide_eq_false (not_not.mpr hresult)
      rw [failuresOf_append_failed hat hfail (firstFailing_iff.mp (hnew hresult)), if_pos hresult, h.count_eq]
    · have hsuccess : (⟨q.toolCallId, q.toolName, q.resultType ≠ .unsuccessful⟩ : ToolOutcome).success = true :=
        decide_eq_true hresult
      rw [if_neg hresult]
      unfold failuresOf
      by_cases hep : (calledAt env log q.toolCallId).getD q.toolName = epKey
      · rw [hep] at hat
        rw [if_pos hep, failing_append_outcome hat, hsuccess, if_pos rfl]
        rfl
      · rw [if_neg hep, failing_append_other fun o ho => ?_]
        · exact h.count_eq epKey
        · rw [hat] at ho
          obtain rfl := Option.some.inj ho
          exact hep
  · have hconcerns : concerns id (.toolCompleted q) = decide (q.toolCallId = id) := rfl
    rw [hpending, Lib.Dict.get?_pop, unanswered_append, hconcerns]
    by_cases hid : q.toolCallId = id
    · rw [if_pos hid, if_pos (decide_eq_true hid)]
      rfl
    · rw [if_neg hid, if_neg (by simpa using hid)]
      exact h.pending_eq id
  · rw [hpending, Lib.Dict.get?_pop] at hget
    split_ifs at hget
    rw [calledAt_append]
    exact h.endpoint_eq id other hget

/-- **One event** that the monitor accounts for. -/
theorem Tallies.event (h : Tallies env log m) (hok : accountable env log p = true) (events : List LogEvent)
    (seq : ℕ) : Tallies env (log ++ [p]) (m.onEvent env runId events ⟨runId, seq, p⟩).1 := by
  have hseen : Tallies env log { m with lastSeenSeq := seq } := ⟨h.count_eq, h.pending_eq, h.endpoint_eq⟩
  cases p with
  | toolCalled q => exact hseen.called q
  | toolCompleted q =>
      simp only [accountable, Bool.and_eq_true, Bool.or_eq_true, decide_eq_true_eq] at hok
      exact hseen.completed events seq hok.1 fun hresult => hok.2.resolve_left (not_not.mpr hresult)
  | toolFailed toolCallId toolName error retryable stepId =>
      exact hseen.refused rfl (fun _ => rfl) (fun _ => rfl) rfl hok (RunMonitor.keeps_onFailure _ _ _ _)
  | guardrailTriggered toolCallId toolName guardrailId reason stepId workspaceId =>
      exact hseen.refused rfl (fun _ => rfl) (fun _ => rfl) rfl hok (RunMonitor.keeps_onFailure _ _ _ _)
  | stepFailed planId stepId error retryable toolName toolCallId => cases hok
  | toolTimeout toolCallId toolName timeoutMs stepId => cases hok
  | _ => exact h.quiet ⟨rfl, rfl⟩ (fun _ => rfl) rfl (fun _ => rfl)

end agreement

/-! ### Whole runs -/

namespace MonitoredRun
variable {env runId} {s : MonitoredRun}

/-- The counters of the monitor are those of the log so far. -/
def Accounted (env : MonitorEnv) (s : MonitoredRun) : Prop := Tallies env s.payloads s.monitor

theorem Accounted.store (h : s.Accounted env) {payload : Payload}
    (hok : accountable env s.payloads payload = true) : (s.store env runId payload).Accounted env := by
  have hlog : (s.store env runId payload).payloads = s.payloads ++ [payload] := by
    unfold MonitoredRun.store payloads
    rw [List.map_append]
    rfl
  unfold Accounted
  rw [hlog]
  exact h.event hok _ _

/-- The feedback that is stored is neither a call nor a result. -/
theorem Accounted.feedback (h : s.Accounted env) (feedback : List FeedbackInjectedPayload) :
    (feedback.foldl (fun s fb => s.store env runId (.feedbackInjected fb)) s).Accounted env := by
  induction feedback generalizing s with
  | nil => exact h
  | cons fb feedback ih => exact ih (h.store rfl)

theorem Accounted.append (h : s.Accounted env) {payload : Payload}
    (hok : accountable env s.payloads payload = true) : (s.append env runId payload).Accounted env :=
  (h.store hok).feedback _

end MonitoredRun

variable {env runId} in
/-- **The counters are those of the log** in every run whose events the monitor accounts for. -/
theorem monitor_agrees_with_log {s : MonitoredRun}
    (h : Lib.ReachesVia (monitorStep env runId) (fun s p => accountable env s.payloads p = true) {} s) :
    (∀ epKey, s.monitor.count epKey = failuresOf env s.payloads epKey) ∧
      ∀ toolCallId, toolCallId ∈ s.monitor.pendingCalls.keys ↔ unanswered s.payloads toolCallId = true := by
  have hacc : s.Accounted env := by
    refine h.invariant ⟨fun _ => rfl, fun _ => rfl, fun _ _ hcall => by cases hcall⟩ ?_
    intro s t payload _ hok hs hstep
    obtain rfl := Option.some.inj hstep
    exact MonitoredRun.Accounted.append hs hok
  refine ⟨hacc.count_eq, fun toolCallId => ?_⟩
  rw [← hacc.pending_eq, Lib.Dict.mem_keys_iff, Option.isSome_iff_exists]

end monitor

section scenarios
attribute [local instance] asciiPy

/-- A host for scenarios. -/
def plainHost : MonitorEnv := ⟨fun text => text.length, id, id⟩

/-- A request to the host of the address. -/
def requested (toolCallId url : String) : Payload :=
  .toolCalled { toolCallId, toolName := "http_request", input := [("url", .str url)] }

/-- The server answered a request with an error. -/
def serverError (toolCallId : String) : Payload :=
  .toolCompleted ⟨toolCallId, "http_request", .null, .unsuccessful, some "HTTP 500: failed", none⟩

/-- Two requests go wrong while a third is under way, and one more is refused for its tool. -/
theorem two_failures_counted : ∃ s : MonitoredRun,
    (s.monitor.count "api.example.com" = failuresOf plainHost s.payloads "api.example.com" ∧
      ("c3" ∈ s.monitor.pendingCalls.keys ↔ unanswered s.payloads "c3" = true)) ∧
    failuresOf plainHost s.payloads "api.example.com" = 2 ∧ failuresOf plainHost s.payloads "http_request" = 1 ∧
      unanswered s.payloads "c3" = true := by
  obtain ⟨s, hreach, hs⟩ := Lib.exists_reachesVia_of_run (monitorStep plainHost "r")
    (fun s p => accountable plainHost s.payloads p)
    [requested "c1" "https://api.example.com/a", requested "c2" "https://api.example.com/b",
      serverError "c2", requested "c3" "https://api.example.com/c", serverError "c1",
      .guardrailTriggered "c4" "http_request" "rate_limit" "too many calls" none none] {}
    (fun s => decide (failuresOf plainHost s.payloads "api.example.com" = 2 ∧
      failuresOf plainHost s.payloads "http_request" = 1 ∧ unanswered s.payloads "c3" = true)) (by decide +kernel)
  obtain ⟨hcount, hpending⟩ := monitor_agrees_with_log hreach
  exact ⟨s, ⟨hcount _, hpending _⟩, of_decide_eq_true hs⟩

/-- **A step that fails counts twice**, and its call stays pending: one call was made and failed. -/
theorem failed_step_counts_twice : ∃ s, Lib.Reaches (monitorStep plainHost "r") {} s ∧
    (s.monitor.count "api.example.com" = 2 ∧ failuresOf plainHost s.payloads "api.example.com" = 1) ∧
      "c1" ∈ s.monitor.pendingCalls.keys ∧ unanswered s.payloads "c1" = false := by
  obtain ⟨s, hreach, hs⟩ := Lib.exists_reaches_of_run (monitorStep plainHost "r")
    [requested "c1" "https://api.example.com/a",
      .toolFailed "c1" "http_request" "ConnectError: refused" true (some "s1"),
      .stepFailed "p1" "s1" "ConnectError: refused" true "http_request" (some "c1")] {}
    (fun s => decide ((s.monitor.count "api.example.com" = 2 ∧
      failuresOf plainHost s.payloads "api.example.com" = 1) ∧
      "c1" ∈ s.monitor.pendingCalls.keys ∧ unanswered s.payloads "c1" = false)) (by decide +kernel)
  exact ⟨s, hreach, of_decide_eq_true hs⟩

end scenarios

end JAgent
