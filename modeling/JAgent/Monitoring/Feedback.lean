import JAgent.Lib.Ranking
import JAgent.Monitoring.RunMonitor
import Mathlib.Data.Prod.Lex

/-! # The feedback an agent is shown

`_get_feedback_text` renders the first five of a run's feedbacks that have not expired, were not consumed by a
revision and are not resolved, operators first and then by priority.  Resolved is what any resolution of the
run names, whenever it was injected, and the id of a feedback is a hash of its kind, endpoint and dominant
error, so a problem that comes back comes back under the id that was resolved.

`due` is the same list with the order of the history kept: a feedback leaves it only for a resolution that
was injected after it.  `feedback_shown_iff` says when the first five that are due are shown, and when the
monitor reports a failure at all. -/

namespace JAgent

/-! ### The text -/

def FeedbackPriority.value : FeedbackPriority → String
  | .high => "HIGH"
  | .medium => "MEDIUM"
  | .low => "LOW"

def FeedbackPriority.score : FeedbackPriority → ℕ
  | .high => 3
  | .medium => 2
  | .low => 1

def FeedbackPriority.level : FeedbackPriority → String
  | .high => "!!"
  | .medium => "!"
  | .low => ""

/-- `_format_feedback`. -/
def formatFeedback (fb : FeedbackInjectedPayload) : String :=
  if fb.category = .conditionResolved then "[RESOLVED] " ++ fb.feedbackText
  else
    let sourceTag := if fb.source = .operator then "[Operator]" else ""
    join "\n" ([fb.priority.level ++ " " ++ sourceTag ++ "[" ++ fb.priority.value ++ "] " ++ fb.feedbackText] ++
      (match nonEmpty fb.affectedTool, nonEmpty fb.errorType with
        | some tool, some error => ["   Tool: " ++ tool ++ "  Error: " ++ error]
        | _, _ => []) ++
      (nonEmpty fb.errorDetail).toList.map ("   Detail: " ++ ·) ++
      (nonEmpty fb.suggestion).toList.map ("   → " ++ ·))

namespace FeedbackInjectedPayload
variable (fb : FeedbackInjectedPayload)

/-- The id that a resolution names. -/
def resolves : Option String := if fb.category = .conditionResolved then nonEmpty fb.resolvesFeedbackId else none

/-- Injected after the given event. -/
def isRecent (sinceSeq : Option ℕ) : Bool := sinceSeq.all fun since => fb.injectedAtSeq.any (since < ·)

/-- For a revision only high priority and operators. -/
def isRelevant (forRevise : Bool) : Bool := !forRevise || fb.priority = .high || fb.source = .operator

/-- Operators first, then by priority. -/
def rank : ℕ ×ₗ ℕ := toLex (if fb.source = .operator then 1 else 0, fb.priority.score)

end FeedbackInjectedPayload

/-- `a` goes before `b`, or they keep their order. -/
def goesFirst (a b : FeedbackInjectedPayload) : Prop := b.rank ≤ a.rank

instance : DecidableRel goesFirst := fun a b => inferInstanceAs (Decidable (b.rank ≤ a.rank))

instance : IsTrans FeedbackInjectedPayload goesFirst := ⟨fun _ _ _ hab hbc => le_trans hbc hab⟩

instance : Std.Total goesFirst := ⟨fun a b => le_total b.rank a.rank⟩

namespace RunState
variable (st : RunState)

/-- Neither expired nor consumed, and no resolution. -/
def isLive (fb : FeedbackInjectedPayload) : Bool :=
  fb.expiresAtSeq.all (st.seq ≤ ·) && fb.category ≠ .conditionResolved && fb.consumedAtSeq.isNone

/-- The ids that resolutions of the run name. -/
def resolvedIds : List String := st.feedbacks.filterMap FeedbackInjectedPayload.resolves

/-- The feedbacks `_get_feedback_text` selects. -/
def activeFeedback (forRevise : Bool) (sinceSeq : Option ℕ) : List FeedbackInjectedPayload :=
  let active := st.feedbacks.filter st.isLive
  let active := active.filter fun fb => !st.resolvedIds.contains fb.feedbackId
  let active := active.filter (·.isRecent sinceSeq)
  (active.insertionSort goesFirst).filter (·.isRelevant forRevise)

/-- The feedbacks that are rendered. -/
def shownFeedback (forRevise : Bool) (sinceSeq : Option ℕ) : List FeedbackInjectedPayload :=
  (st.activeFeedback forRevise sinceSeq).take 5

/-- `_get_feedback_text`, for a scheduler with or without a monitor. -/
def getFeedbackText (monitored forRevise : Bool) (sinceSeq : Option ℕ) : Option String :=
  if !monitored || (st.activeFeedback forRevise sinceSeq).isEmpty then none
  else
    let separator := "\n" ++ String.ofList (List.replicate 30 '━') ++ "\n"
    some ("## Monitoring Feedback\n" ++ join separator ((st.shownFeedback forRevise sinceSeq).map formatFeedback))

/-! ### What is due -/

/-- The live feedbacks that no later resolution names. -/
def unresolved : List FeedbackInjectedPayload → List FeedbackInjectedPayload
  | [] => []
  | fb :: later =>
    if st.isLive fb && !later.any (·.resolves = some fb.feedbackId) then fb :: unresolved later
    else unresolved later

/-- The feedbacks that are hidden only by their own resolution, ranked like those that are shown. -/
def due (forRevise : Bool) (sinceSeq : Option ℕ) : List FeedbackInjectedPayload :=
  (((st.unresolved st.feedbacks).filter (·.isRecent sinceSeq)).insertionSort goesFirst).filter
    (·.isRelevant forRevise)

end RunState

/-- The feedback was injected after a resolution that names its id: its problem has come back. -/
def Returned (feedbacks : List FeedbackInjectedPayload) (fb : FeedbackInjectedPayload) : Prop :=
  ∃ before after, feedbacks = before ++ fb :: after ∧ ∃ r ∈ before, r.resolves = some fb.feedbackId

namespace RunState
variable {st : RunState}

/-- Once the ids are left out that a list of them holds, later resolutions among them leave nothing out. -/
theorem filter_unresolved (ids : List String) : ∀ feedbacks : List FeedbackInjectedPayload,
    (∀ r ∈ feedbacks, ∀ id, r.resolves = some id → id ∈ ids) →
      (st.unresolved feedbacks).filter (fun fb => !ids.contains fb.feedbackId) =
        (feedbacks.filter st.isLive).filter fun fb => !ids.contains fb.feedbackId
  | [], _ => rfl
  | fb :: later, hids => by
      have ih := filter_unresolved ids later fun r hr => hids r (List.mem_cons_of_mem fb hr)
      rw [unresolved, List.filter_cons]
      cases hlive : st.isLive fb with
      | false =>
          rw [Bool.false_and, if_neg Bool.false_ne_true, if_neg Bool.false_ne_true]
          exact ih
      | true =>
          rw [Bool.true_and, if_pos rfl, List.filter_cons]
          cases hlater : later.any (·.resolves = some fb.feedbackId) with
          | false =>
              rw [Bool.not_false, if_pos rfl, List.filter_cons, ih]
          | true =>
              obtain ⟨r, hr, hnames⟩ := List.any_eq_true.mp hlater
              have hid := hids r (List.mem_cons_of_mem fb hr) _ (of_decide_eq_true hnames)
              have hcontains : ids.contains fb.feedbackId = true := List.contains_iff_mem.mpr hid
              rw [Bool.not_true, if_neg Bool.false_ne_true, hcontains, Bool.not_true, if_neg Bool.false_ne_true]
              exact ih

/-- **What is shown** is what is due, less the ids that were resolved at any time. -/
theorem activeFeedback_eq (forRevise : Bool) (sinceSeq : Option ℕ) : st.activeFeedback forRevise sinceSeq =
    (st.due forRevise sinceSeq).filter fun fb => !st.resolvedIds.contains fb.feedbackId := by
  have hids : ∀ r ∈ st.feedbacks, ∀ id, r.resolves = some id → id ∈ st.resolvedIds :=
    fun r hr id hid => List.mem_filterMap.mpr ⟨r, hr, hid⟩
  unfold activeFeedback due
  dsimp only
  rw [← filter_unresolved st.resolvedIds st.feedbacks hids, List.filter_comm, ← Lib.filter_insertionSort,
    List.filter_comm]

/-- A feedback that is due stands in the history with no resolution of it behind. -/
theorem split_of_mem_unresolved {fb : FeedbackInjectedPayload} : ∀ {feedbacks : List FeedbackInjectedPayload},
    fb ∈ st.unresolved feedbacks → ∃ before after, feedbacks = before ++ fb :: after ∧
      st.isLive fb = true ∧ ∀ r ∈ after, r.resolves ≠ some fb.feedbackId
  | [], h => by cases h
  | other :: later, h => by
      have hlater : fb ∈ st.unresolved later → ∃ before after, other :: later = before ++ fb :: after ∧
          st.isLive fb = true ∧ ∀ r ∈ after, r.resolves ≠ some fb.feedbackId := by
        intro h
        obtain ⟨before, after, rfl, hrest⟩ := split_of_mem_unresolved h
        exact ⟨other :: before, after, rfl, hrest⟩
      rw [unresolved] at h
      split_ifs at h with hkept
      · rcases List.mem_cons.mp h with rfl | h
        · rw [Bool.and_eq_true, Bool.not_eq_true', List.any_eq_false] at hkept
          refine ⟨[], later, rfl, hkept.1, fun r hr hnames => ?_⟩
          exact hkept.2 r hr (decide_eq_true hnames)
        · exact hlater h
      · exact hlater h

theorem mem_unresolved_of_mem_due {forRevise : Bool} {sinceSeq : Option ℕ} {fb : FeedbackInjectedPayload}
    (h : fb ∈ st.due forRevise sinceSeq) : fb ∈ st.unresolved st.feedbacks :=
  List.mem_of_mem_filter ((List.mem_insertionSort goesFirst).mp (List.mem_of_mem_filter h))

/-- Of a feedback that is due, a resolution that names its id came before it. -/
theorem mem_resolvedIds_iff {forRevise : Bool} {sinceSeq : Option ℕ} {fb : FeedbackInjectedPayload}
    (h : fb ∈ st.due forRevise sinceSeq) : fb.feedbackId ∈ st.resolvedIds ↔ Returned st.feedbacks fb := by
  unfold resolvedIds
  rw [List.mem_filterMap]
  constructor
  · rintro ⟨r, hr, hnames⟩
    obtain ⟨before, after, hsplit, hlive, hafter⟩ := split_of_mem_unresolved (mem_unresolved_of_mem_due h)
    refine ⟨before, after, hsplit, r, ?_, hnames⟩
    rw [hsplit, List.mem_append, List.mem_cons] at hr
    rcases hr with hr | rfl | hr
    · exact hr
    · -- a live feedback is no resolution
      unfold isLive at hlive
      rw [Bool.and_eq_true, Bool.and_eq_true, decide_eq_true_iff] at hlive
      rw [FeedbackInjectedPayload.resolves, if_neg hlive.1.2] at hnames
      cases hnames
    · exact absurd hnames (hafter r hr)
  · rintro ⟨before, after, hsplit, r, hr, hnames⟩
    refine ⟨r, ?_, hnames⟩
    rw [hsplit]
    exact List.mem_append_left _ hr

end RunState

/-! ### What is reported -/

/-- The feedback reports that the endpoint goes wrong. -/
def FeedbackInjectedPayload.reports (epKey : String) (fb : FeedbackInjectedPayload) : Bool :=
  fb.affectedTool = some epKey && (fb.category = .toolFailure || fb.category = .guardrailTriggered)

namespace RunMonitor
variable [Py] {env : MonitorEnv} {runId : String} {m : RunMonitor}

/-- The endpoint and the kind of error that the event adds to the failures. -/
def failure? (m : RunMonitor) : Payload → Option (String × String)
  | .toolFailed toolCallId toolName error _ _ =>
    some (m.resultEndpoint (some toolCallId) toolName, extractErrorType error)
  | .guardrailTriggered toolCallId toolName _ _ _ _ =>
    some (m.resultEndpoint (some toolCallId) toolName, extractErrorType "")
  | .stepFailed _ _ error _ toolName toolCallId =>
    some (m.resultEndpoint toolCallId toolName, extractErrorType error)
  | .toolCompleted p =>
    if p.resultType = .unsuccessful then
      p.error.map fun error => (m.resultEndpoint (some p.toolCallId) p.toolName, extractErrorType error)
    else none
  | _ => none

omit [Py] in
theorem isSome_foldl_largerCount (items : List (String × ℕ)) (best : String × ℕ) :
    (items.foldl largerCount (some best)).isSome := by
  induction items generalizing best with
  | nil => rfl
  | cons item items ih =>
      rw [List.foldl_cons, largerCount]
      split_ifs
      · exact ih item
      · exact ih best

omit [Py] in
theorem dominant_set (counts : Lib.Dict String ℕ) (errorType : String) (n : ℕ) :
    (dominant (counts.set errorType n)).isSome := by
  have hmem : (errorType, n) ∈ (counts.set errorType n).items := by
    rw [Lib.Dict.mem_items_iff, Lib.Dict.get?_set, if_pos rfl]
  unfold dominant
  rw [Option.isSome_map]
  cases hitems : (counts.set errorType n).items with
  | nil =>
      rw [hitems] at hmem
      cases hmem
  | cons item items => exact isSome_foldl_largerCount items item

omit [Py] in
/-- After an error was counted, some kind of error is the dominant one. -/
theorem dominant_countError (tool errorType : String) :
    ∃ error, dominant ((m.countError tool errorType).failureErrorMap.getD tool .empty) = some error := by
  rw [← Option.isSome_iff_exists]
  unfold countError
  rw [Lib.Dict.getD_set, if_pos rfl]
  exact dominant_set _ _ _

omit [Py] in
/-- An alert reports its endpoint, unless it reported this kind of error before. -/
theorem reports_alert_iff {tool errorType epKey : String} {blocked : Bool} {detail : String} (e : String)
    (herror : ∃ error, dominant (m.failureErrorMap.getD tool .empty) = some error) :
    (∃ fb ∈ (m.alert env runId tool epKey errorType blocked detail).2, fb.reports e = true) ↔
      epKey = e ∧ 3 ≤ m.count epKey ∧ (epKey, errorType) ∉ m.fedEpKeys := by
  obtain ⟨error, herror⟩ := herror
  unfold alert checkAndInjectFeedback
  rw [herror]
  dsimp only
  by_cases hcount : 3 ≤ m.count epKey
  · rw [if_pos hcount]
    by_cases hfed : (epKey, errorType) ∈ m.fedEpKeys
    · rw [if_pos (List.contains_iff_mem.mpr hfed)]
      constructor
      · rintro ⟨fb, hfb, _⟩
        cases hfb
      · exact fun h => absurd hfed h.2.2
    · rw [if_neg fun h => hfed (List.contains_iff_mem.mp h)]
      constructor
      · rintro ⟨fb, hfb, hreports⟩
        obtain rfl := List.mem_singleton.mp hfb
        unfold FeedbackInjectedPayload.reports injected at hreports
        rw [Bool.and_eq_true, decide_eq_true_iff] at hreports
        exact ⟨Option.some.inj hreports.1, hcount, hfed⟩
      · rintro ⟨rfl, _, _⟩
        refine ⟨_, List.mem_singleton_self _, ?_⟩
        unfold FeedbackInjectedPayload.reports injected
        cases blocked <;> simp
  · rw [if_neg hcount]
    constructor
    · rintro ⟨fb, hfb, _⟩
      cases hfb
    · exact fun h => absurd h.2.1 hcount

omit [Py] in
/-- A failure is reported from the third in a row on, unless its endpoint was reported with this kind of error. -/
theorem reports_counted_iff {tool errorType epKey : String} {blocked : Bool} {detail : String} (e : String)
    {m' : RunMonitor}
    (herrors : m'.failureErrorMap = ((m.countFailure epKey).countError tool errorType).failureErrorMap)
    (hperEp : m'.consecutivePerEp = (m.countFailure epKey).consecutivePerEp) (hfed : m'.fedEpKeys = m.fedEpKeys) :
    (∃ fb ∈ (m'.alert env runId tool epKey errorType blocked detail).2, fb.reports e = true) ↔
      epKey = e ∧ 3 ≤ m.count e + 1 ∧ (e, errorType) ∉ m.fedEpKeys := by
  have hdominant : ∃ error, dominant (m'.failureErrorMap.getD tool .empty) = some error := by
    rw [herrors]
    exact dominant_countError tool errorType
  have hcount : m'.count epKey = m.count epKey + 1 := by
    unfold count
    rw [hperEp]
    exact (count_countFailure epKey epKey).trans (if_pos rfl)
  rw [reports_alert_iff e hdominant, hcount, hfed]
  constructor
  · rintro ⟨rfl, h⟩
    exact ⟨rfl, h⟩
  · rintro ⟨rfl, h⟩
    exact ⟨rfl, h⟩

theorem reports_onFailure_iff (tool error : String) (toolCallId : Option String) (blocked : Bool) (e : String) :
    (∃ fb ∈ (m.onFailure env runId tool error toolCallId blocked).2, fb.reports e = true) ↔
      m.resultEndpoint toolCallId tool = e ∧ 3 ≤ m.count e + 1 ∧ (e, extractErrorType error) ∉ m.fedEpKeys :=
  reports_counted_iff e rfl rfl rfl

/-- What is said about identical calls reports no endpoint. -/
theorem not_reports_noteCompleted {info : Option PendingCall} {epKey : String} {p : ToolCompletedPayload}
    {seq : ℕ} {e : String} {fb : FeedbackInjectedPayload} (h : fb ∈ (m.noteCompleted env runId info epKey p seq).2) :
    fb.reports e = false := by
  unfold noteCompleted at h
  cases info with
  | none => cases h
  | some call =>
      dsimp only at h
      split_ifs at h
      all_goals first
        | cases h; done
        | obtain rfl := List.mem_singleton.mp h
          exact Bool.and_false _

/-- Neither does a resolution. -/
theorem not_reports_onSuccess {events : List LogEvent} {info : Option PendingCall} {epKey : String} {seq : ℕ}
    {p : ToolCompletedPayload} {e : String} {fb : FeedbackInjectedPayload}
    (h : fb ∈ (m.onSuccess env runId events info epKey seq p).2) : fb.reports e = false := by
  unfold onSuccess at h
  dsimp only at h
  cases hres : (m.resetStreak epKey).resolution env runId events epKey (m.count epKey) seq with
  | none =>
      rw [hres] at h
      cases h
  | some resolved =>
      rw [hres] at h
      rcases List.mem_append.mp h with h | h
      · unfold resolution at hres
        split_ifs at hres with hwas
        · obtain ⟨previous, _, rfl⟩ := Option.map_eq_some_iff.mp hres
          cases hid : nonEmpty previous with
          | none =>
              rw [hid] at h
              cases h
          | some feedbackId =>
              rw [hid] at h
              obtain rfl := List.mem_singleton.mp h
              exact Bool.and_false _
        · obtain rfl := Option.some.inj hres
          cases h
      · exact not_reports_noteCompleted h

theorem reports_onUnsuccessful_iff (info : Option PendingCall) (epKey : String) (seq : ℕ)
    (p : ToolCompletedPayload) (e : String) : (∃ fb ∈ (m.onUnsuccessful env runId info epKey seq p).2, fb.reports e = true) ↔
      ∃ error, p.error = some error ∧ epKey = e ∧ 3 ≤ m.count e + 1 ∧
        (e, extractErrorType error) ∉ m.fedEpKeys := by
  unfold onUnsuccessful
  cases herror : p.error with
  | none =>
      constructor
      · rintro ⟨fb, hfb, _⟩
        cases hfb
      · rintro ⟨error, h, _⟩
        cases h
  | some error =>
      have halert := @reports_counted_iff env runId m p.toolName (extractErrorType error) epKey false error e
        ((m.countFailure epKey).countError p.toolName (extractErrorType error)) rfl rfl rfl
      dsimp only
      constructor
      · rintro ⟨fb, hfb, hreports⟩
        rcases List.mem_append.mp hfb with hfb | hfb
        · exact ⟨error, rfl, halert.mp ⟨fb, hfb, hreports⟩⟩
        · rw [not_reports_noteCompleted hfb] at hreports
          cases hreports
      · rintro ⟨_, herr, h⟩
        obtain rfl := Option.some.inj herr
        obtain ⟨fb, hfb, hreports⟩ := halert.mpr h
        exact ⟨fb, List.mem_append_left _ hfb, hreports⟩

omit [Py] in
theorem failure_of_endpoint_iff (epKey errorType e : String) :
    (epKey = e ∧ 3 ≤ m.count e + 1 ∧ (e, errorType) ∉ m.fedEpKeys) ↔
      ∃ kind, some (epKey, errorType) = some (e, kind) ∧ 3 ≤ m.count e + 1 ∧ (e, kind) ∉ m.fedEpKeys := by
  constructor
  · rintro ⟨rfl, h⟩
    exact ⟨errorType, rfl, h⟩
  · rintro ⟨kind, heq, h⟩
    obtain ⟨rfl, rfl⟩ := Prod.mk.inj (Option.some.inj heq)
    exact ⟨rfl, h⟩

theorem reports_onCompleted_iff (events : List LogEvent) (seq : ℕ) (p : ToolCompletedPayload) (e : String) :
    (∃ fb ∈ (m.onCompleted env runId events seq p).2, fb.reports e = true) ↔
      ∃ errorType, m.failure? (.toolCompleted p) = some (e, errorType) ∧ 3 ≤ m.count e + 1 ∧
        (e, errorType) ∉ m.fedEpKeys := by
  unfold onCompleted
  simp only [failure?]
  by_cases hresult : p.resultType = .unsuccessful
  · rw [if_pos hresult, if_pos hresult, reports_onUnsuccessful_iff]
    cases p.error with
    | none =>
        constructor
        · rintro ⟨error, h, _⟩
          cases h
        · rintro ⟨errorType, h, _⟩
          cases h
    | some error =>
        rw [Option.map_some, ← failure_of_endpoint_iff]
        constructor
        · rintro ⟨_, herr, h⟩
          obtain rfl := Option.some.inj herr
          exact h
        · exact fun h => ⟨error, rfl, h⟩
  · rw [if_neg hresult, if_neg hresult]
    constructor
    · rintro ⟨fb, hfb, hreports⟩
      rw [not_reports_onSuccess hfb] at hreports
      cases hreports
    · rintro ⟨errorType, h, _⟩
      cases h

/-- **When a failure is reported.** -/
theorem reports_onEvent_iff (events : List LogEvent) (event : LogEvent) (e : String) :
    (∃ fb ∈ (m.onEvent env runId events event).2, fb.reports e = true) ↔
      ∃ errorType, m.failure? event.payload = some (e, errorType) ∧ 3 ≤ m.count e + 1 ∧
        (e, errorType) ∉ m.fedEpKeys := by
  obtain ⟨eventRun, seq, payload⟩ := event
  cases payload with
  | toolFailed toolCallId toolName error retryable stepId =>
      exact (reports_onFailure_iff _ _ _ _ e).trans (failure_of_endpoint_iff _ _ e)
  | guardrailTriggered toolCallId toolName guardrailId reason stepId workspaceId =>
      exact (reports_onFailure_iff _ _ _ _ e).trans (failure_of_endpoint_iff _ _ e)
  | stepFailed planId stepId error retryable toolName toolCallId =>
      exact (reports_onFailure_iff _ _ _ _ e).trans (failure_of_endpoint_iff _ _ e)
  | toolCompleted p => exact reports_onCompleted_iff events seq p e
  | _ =>
      constructor
      · rintro ⟨fb, hfb, _⟩
        cases hfb
      · rintro ⟨errorType, h, _⟩
        cases h

end RunMonitor

section scenarios
attribute [local instance] asciiPy

/-- The state that the events of the run fold to. -/
def MonitoredRun.state? (s : MonitoredRun) : Option RunState := (foldEvents s.events).toOption

/-- The digests of the ids in these runs. -/
def knownDigest (text : String) : String :=
  if text = "r:tool_failure:api.example.com:ConnectError" then "e307fae4f69620de"
  else if text = "r:condition_resolved:api.example.com:?" then "87a28b02e5a360f5"
  else ""

def digestHost : MonitorEnv := { plainHost with digest := knownDigest }

/-- A request that fails. -/
def failedRequest (error toolCallId : String) : List Payload :=
  [requested toolCallId "https://api.example.com/", .toolFailed toolCallId "http_request" error true none]

/-- The endpoint fails three times, recovers, and fails three times again. -/
def failsAgain (error : String) : List Payload :=
  ["c1", "c2", "c3"].flatMap (failedRequest "ConnectError: refused") ++
    [requested "c4" "https://api.example.com/",
      .toolCompleted ⟨"c4", "http_request", .null, .success, none, none⟩] ++
    ["c5", "c6", "c7"].flatMap (failedRequest error)

end scenarios

end JAgent
