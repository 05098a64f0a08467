import Mathlib.Data.List.DropRight
import Mathlib.Data.List.Pairwise
import JAgent.Core.RunState
import JAgent.Lib.Sections

/-! # The history shown to the model

`_build_history_messages` rebuilds the conversation of the last few thoughts and tool results.  It walks
them by sequence number: a thought opens an assistant message, the results up to the next thought become its
tool calls, and behind the message each call is answered by the result that has its id.

The messages are the sections of the timeline, one assistant message each
(`buildHistoryMessages_eq_sections`), so the calls are always paired with answers.  The answer is looked up
by the id over the whole window, though, and the first result with the id wins.
`history_messages_faithful_iff` says when this is harmless: results that share an id have the same content
and a thought in between. -/

namespace JAgent

/-- An entry of `tool_calls`. -/
structure ToolCallEntry where
  id : String
  type : String := "function"
  name : String
  arguments : String := "\x7b\x7d"
deriving DecidableEq

/-- A message; an assistant message without calls has no key `tool_calls`. -/
inductive ChatMessage where
  | assistant (content : String) (toolCalls : List ToolCallEntry)
  | tool (toolCallId content : String)
deriving DecidableEq

def ChatMessage.isTool : ChatMessage → Bool
  | .assistant .. => false
  | .tool .. => true

/-- The id of the call that a message answers. -/
def ChatMessage.toolCallId? : ChatMessage → Option String
  | .assistant .. => none
  | .tool toolCallId _ => some toolCallId

/-- The message answers this call. -/
def ToolResult.call (r : ToolResult) : ToolCallEntry := { id := r.toolCallId, name := r.toolName }

section history
variable [Py]

/-- `tr.output if tr.output is not None else (tr.error or "")`, as text. -/
def ToolResult.body (tr : ToolResult) : String :=
  if tr.output ≠ .null then pyStr tr.output else tr.error.getD ""

/-- `_tool_result_message`. -/
def toolResultMessage (tr : ToolResult) : ChatMessage :=
  .tool tr.toolCallId (tr.status.value ++ ": " ++ tr.body)

/-- The variables of the walk. -/
structure HistoryWalk where
  messages : List ChatMessage := []
  currentAssistant : Option (String × List ToolCallEntry) := none
  pendingToolCallIds : List String := []

/-- `_flush`. -/
def HistoryWalk.flush (results : List ToolResult) (w : HistoryWalk) : HistoryWalk :=
  match w.currentAssistant with
  | none => w
  | some (content, calls) =>
      { messages := w.messages ++ .assistant content calls :: w.pendingToolCallIds.filterMap fun tcid =>
          (results.find? fun r => r.toolCallId = tcid).map toolResultMessage }

/-- One entry of the timeline. -/
def HistoryWalk.visit (results : List ToolResult) (w : HistoryWalk) : ThoughtEntry ⊕ ToolResult → HistoryWalk
  | .inl t => { w.flush results with currentAssistant := some (t.thought, []) }
  | .inr r =>
      let current := w.currentAssistant.getD ("", [])
      { w with
        currentAssistant := some (current.1, current.2 ++ [r.call])
        pendingToolCallIds := w.pendingToolCallIds ++ [r.toolCallId] }

/-- `if state.summary`: an episode is always true, a text when it is not empty. -/
def RunState.hasSummary (st : RunState) : Bool :=
  match st.summary with
  | none => false
  | some (.text s) => decide (s ≠ "")
  | some (.episode _) => true

/-- The number of thoughts, and of results, that are shown. -/
def RunState.historyWindow (st : RunState) : ℕ :=
  max (if st.hasSummary then max st.keepRecentCount 2 else 5) 2

def RunState.windowThoughts (st : RunState) : List ThoughtEntry := st.thoughtHistory.rtake st.historyWindow

def RunState.windowResults (st : RunState) : List ToolResult := st.toolResults.rtake st.historyWindow

/-- `_build_history_messages`. -/
def buildHistoryMessages (st : RunState) : List ChatMessage :=
  let timeline := Lib.timeline ThoughtEntry.seq ToolResult.eventSeq st.windowThoughts st.windowResults
  ((timeline.foldl (HistoryWalk.visit st.windowResults) {}).flush st.windowResults).messages

/-! ### The walk writes sections -/

/-- The result that answers a call: the first of the window with its id. -/
def answerTo (results : List ToolResult) (r : ToolResult) : ToolResult :=
  (results.find? fun x => x.toolCallId = r.toolCallId).getD r

omit [Py] in
theorem find?_answerTo {results : List ToolResult} {r : ToolResult} (h : r ∈ results) :
    (results.find? fun x => x.toolCallId = r.toolCallId) = some (answerTo results r) := by
  have hsome : (results.find? fun x => x.toolCallId = r.toolCallId).isSome = true :=
    List.find?_isSome.mpr ⟨r, h, decide_eq_true rfl⟩
  obtain ⟨x, hx⟩ := Option.isSome_iff_exists.mp hsome
  rw [answerTo, hx]
  rfl

omit [Py] in
theorem answerTo_spec {results : List ToolResult} {r : ToolResult} (h : r ∈ results) :
    answerTo results r ∈ results ∧ (answerTo results r).toolCallId = r.toolCallId := by
  have hfind := find?_answerTo h
  exact ⟨List.mem_of_find?_eq_some hfind, of_decide_eq_true (List.find?_some hfind :)⟩

omit [Py] in
theorem answerTo_congr {results : List ToolResult} {a b : ToolResult} (ha : a ∈ results) (hb : b ∈ results)
    (hid : a.toolCallId = b.toolCallId) : answerTo results a = answerTo results b := by
  have hfind := find?_answerTo ha
  rw [hid, find?_answerTo hb] at hfind
  exact (Option.some.inj hfind).symm

/-- The text of the assistant message of a section. -/
def sectionText : Option ThoughtEntry → String
  | some t => t.thought
  | none => ""

/-- The messages of a section. -/
def sectionMessages (results : List ToolResult) (s : Option ThoughtEntry × List ToolResult) :
    List ChatMessage :=
  .assistant (sectionText s.1) (s.2.map (·.call)) :: s.2.map fun r => toolResultMessage (answerTo results r)

theorem filterMap_pending {results items : List ToolResult} (h : ∀ r ∈ items, r ∈ results) :
    ((items.map (·.toolCallId)).filterMap fun tcid =>
      (results.find? fun r => r.toolCallId = tcid).map toolResultMessage) =
        items.map fun r => toolResultMessage (answerTo results r) := by
  rw [List.filterMap_map, ← List.filterMap_eq_map]
  apply List.filterMap_congr
  intro r hr
  show Option.map _ (results.find? _) = _
  rw [find?_answerTo (h r hr)]
  rfl

/-- The flush of an open section. -/
theorem flush_of_open {results items : List ToolResult} {marker : Option ThoughtEntry} {w : HistoryWalk}
    (hitems : ∀ r ∈ items, r ∈ results)
    (hcurrent : w.currentAssistant = some (sectionText marker, items.map (·.call)))
    (hpending : w.pendingToolCallIds = items.map (·.toolCallId)) :
    w.flush results = { messages := w.messages ++ sectionMessages results (marker, items) } := by
  rw [HistoryWalk.flush, hcurrent, hpending]
  show HistoryWalk.mk (w.messages ++ .assistant _ _ :: List.filterMap _ _) none [] = _
  rw [filterMap_pending hitems]
  rfl

/-- **The walk from an open section.** -/
theorem messages_of_open (marker : Option ThoughtEntry) {results items : List ToolResult}
    {es : List (ThoughtEntry ⊕ ToolResult)} {w : HistoryWalk} (hitems : ∀ r ∈ items, r ∈ results)
    (hes : ∀ r ∈ Lib.itemsOf es, r ∈ results)
    (hcurrent : w.currentAssistant = some (sectionText marker, items.map (·.call)))
    (hpending : w.pendingToolCallIds = items.map (·.toolCallId)) :
    ((es.foldl (HistoryWalk.visit results) w).flush results).messages =
      w.messages ++ (Lib.sectionsFrom marker items es).flatMap (sectionMessages results) := by
  induction es generalizing marker items w with
  | nil =>
      rw [Lib.sectionsFrom, List.flatMap_singleton, List.foldl_nil, flush_of_open hitems hcurrent hpending]
  | cons e es ih =>
      rw [List.foldl_cons]
      cases e with
      | inl t =>
          have hvisit : w.visit results (.inl t) =
              { messages := w.messages ++ sectionMessages results (marker, items)
                currentAssistant := some (t.thought, []) } := by
            rw [HistoryWalk.visit, flush_of_open hitems hcurrent hpending]
          have hopen := ih (some t) (w := w.visit results (.inl t))
            (fun r hr => absurd hr List.not_mem_nil) hes (by rw [hvisit]; rfl) (by rw [hvisit]; rfl)
          rw [hopen, Lib.sectionsFrom, List.flatMap_cons, ← List.append_assoc, hvisit]
      | inr r =>
          obtain ⟨hr, hes⟩ := List.forall_mem_cons.mp hes
          have hitems' : ∀ x ∈ items ++ [r], x ∈ results := by
            intro x hx
            obtain hx | hx := List.mem_append.mp hx
            · exact hitems x hx
            · rw [List.mem_singleton.mp hx]
              exact hr
          rw [Lib.sectionsFrom]
          apply ih marker hitems' hes
          · rw [HistoryWalk.visit, hcurrent, List.map_append]
            rfl
          · rw [HistoryWalk.visit, hpending, List.map_append]
            rfl

theorem messages_eq_sections {results : List ToolResult} {es : List (ThoughtEntry ⊕ ToolResult)}
    (hes : ∀ r ∈ Lib.itemsOf es, r ∈ results) :
    ((es.foldl (HistoryWalk.visit results) {}).flush results).messages =
      (Lib.sections es).flatMap (sectionMessages results) := by
  match es with
  | [] => rfl
  | .inl t :: es =>
      have hnone : ∀ r ∈ ([] : List ToolResult), r ∈ results := fun r hr => absurd hr List.not_mem_nil
      exact @messages_of_open _ (some t) results [] es (({} : HistoryWalk).visit results (.inl t)) hnone hes
        rfl rfl
  | .inr r :: es =>
      obtain ⟨hr, hes⟩ := List.forall_mem_cons.mp hes
      exact messages_of_open none (List.forall_mem_singleton.mpr hr) hes rfl rfl

/-- The sections of the window. -/
def windowSections (st : RunState) : List (Option ThoughtEntry × List ToolResult) :=
  Lib.sections (Lib.timeline ThoughtEntry.seq ToolResult.eventSeq st.windowThoughts st.windowResults)

/-- **The messages are the sections of the window.** -/
theorem buildHistoryMessages_eq_sections (st : RunState) : buildHistoryMessages st =
    (windowSections st).flatMap (sectionMessages st.windowResults) :=
  messages_eq_sections fun _ hr => Lib.itemsOf_timeline.mem_iff.mp hr

omit [Py] in
theorem windowSections_items (st : RunState) :
    ((windowSections st).flatMap Prod.snd).Perm st.windowResults := by
  rw [windowSections, Lib.flatMap_sections]
  exact Lib.itemsOf_timeline

omit [Py] in
theorem mem_windowResults {st : RunState} {s : Option ThoughtEntry × List ToolResult}
    (hs : s ∈ windowSections st) {r : ToolResult} (hr : r ∈ s.2) : r ∈ st.windowResults :=
  (windowSections_items st).mem_iff.mp (List.mem_flatMap.mpr ⟨s, hs, hr⟩)

/-! ### Pairing -/

/-- Behind an assistant message each of its calls is answered, in order and once. -/
def Paired (messages : List ChatMessage) : Prop :=
  ∀ before content calls after, messages = before ++ .assistant content calls :: after →
    (after.takeWhile ChatMessage.isTool).map ChatMessage.toolCallId? = calls.map fun c => some c.id

theorem takeWhile_answers {results : List ToolResult} (ss : List (Option ThoughtEntry × List ToolResult))
    (items : List ToolResult) :
    (items.map (fun r => toolResultMessage (answerTo results r)) ++
      ss.flatMap (sectionMessages results)).takeWhile ChatMessage.isTool =
        items.map fun r => toolResultMessage (answerTo results r) := by
  rw [List.takeWhile_append_of_pos]
  · cases ss with
    | nil => rw [List.flatMap_nil, List.takeWhile_nil, List.append_nil]
    | cons s ss =>
        rw [List.flatMap_cons, sectionMessages, List.cons_append, List.takeWhile_cons_of_neg Bool.false_ne_true,
          List.append_nil]
  · intro m hm
    obtain ⟨r, -, rfl⟩ := List.mem_map.mp hm
    rfl

theorem ids_answers {results items : List ToolResult} (h : ∀ r ∈ items, r ∈ results) :
    (items.map fun r => toolResultMessage (answerTo results r)).map ChatMessage.toolCallId? =
      (items.map (·.call)).map fun c => some c.id := by
  rw [List.map_map, List.map_map]
  apply List.map_congr_left
  intro r hr
  show some (answerTo results r).toolCallId = some r.toolCallId
  rw [(answerTo_spec (h r hr)).2]

/-- **Sections are paired**, whatever their ids. -/
theorem paired_sections {results : List ToolResult} {ss : List (Option ThoughtEntry × List ToolResult)}
    (h : ∀ s ∈ ss, ∀ r ∈ s.2, r ∈ results) : Paired (ss.flatMap (sectionMessages results)) := by
  intro before content calls after heq
  induction ss generalizing before with
  | nil => exact absurd heq.symm (List.append_ne_nil_of_right_ne_nil _ (List.cons_ne_nil _ _))
  | cons s ss ih =>
      obtain ⟨hs, hss⟩ := List.forall_mem_cons.mp h
      rw [List.flatMap_cons, sectionMessages, List.cons_append] at heq
      cases before with
      | nil =>
          obtain ⟨hhead, rfl⟩ := List.cons.inj heq
          obtain ⟨-, rfl⟩ := ChatMessage.assistant.inj hhead
          rw [takeWhile_answers, ids_answers hs]
      | cons m before =>
          obtain ⟨-, htail⟩ := List.cons.inj heq
          -- the assistant message is not one of the answers of the first section
          obtain ⟨rest, rfl, hrest⟩ | ⟨rest, hanswers, hrest⟩ := List.append_eq_append_iff.mp htail
          · exact ih hss rest hrest
          · cases rest with
            | nil => exact ih hss [] hrest.symm
            | cons m' rest =>
                have hm' : m' ∈ s.2.map fun r => toolResultMessage (answerTo results r) := by
                  rw [hanswers]
                  exact List.mem_append_right _ List.mem_cons_self
                obtain ⟨r, -, rfl⟩ := List.mem_map.mp hm'
                cases (List.cons.inj hrest).1

/-! ### Faithful histories -/

/-- What the history should be for these results: paired, with no id twice in one message, and with one
answer for each result that carries its own content. -/
structure FaithfulHistory (results : List ToolResult) (messages : List ChatMessage) : Prop where
  paired : Paired messages
  distinct : ∀ content calls, .assistant content calls ∈ messages → (calls.map (·.id)).Nodup
  once : (messages.filter ChatMessage.isTool).Perm (results.map toolResultMessage)

theorem filter_isTool_sections (results : List ToolResult)
    (ss : List (Option ThoughtEntry × List ToolResult)) :
    (ss.flatMap (sectionMessages results)).filter ChatMessage.isTool =
      (ss.flatMap Prod.snd).map fun r => toolResultMessage (answerTo results r) := by
  induction ss with
  | nil => rfl
  | cons s ss ih =>
      rw [List.flatMap_cons, List.filter_append, ih, List.flatMap_cons, List.map_append, sectionMessages,
        List.filter_cons_of_neg Bool.false_ne_true, List.filter_eq_self.mpr]
      intro m hm
      obtain ⟨r, -, rfl⟩ := List.mem_map.mp hm
      rfl

theorem mem_sections_assistant {results : List ToolResult}
    {ss : List (Option ThoughtEntry × List ToolResult)} {content : String} {calls : List ToolCallEntry} :
    .assistant content calls ∈ ss.flatMap (sectionMessages results) ↔
      ∃ s ∈ ss, sectionText s.1 = content ∧ s.2.map (·.call) = calls := by
  rw [List.mem_flatMap]
  constructor
  · rintro ⟨s, hs, hmem⟩
    obtain heq | hmem := List.mem_cons.mp hmem
    · obtain ⟨hcontent, hcalls⟩ := ChatMessage.assistant.inj heq
      exact ⟨s, hs, hcontent.symm, hcalls.symm⟩
    · obtain ⟨r, -, hr⟩ := List.mem_map.mp hmem
      cases hr
  · rintro ⟨s, hs, rfl, rfl⟩
    exact ⟨s, hs, List.mem_cons_self⟩

/-- The ids of each message are distinct exactly when results with one id have a thought in between. -/
theorem distinct_iff (st : RunState) :
    (∀ content calls, .assistant content calls ∈ buildHistoryMessages st → (calls.map (·.id)).Nodup) ↔
      st.windowResults.Pairwise fun a b => a.toolCallId = b.toolCallId →
        ∃ t ∈ st.windowThoughts, min a.eventSeq b.eventSeq < t.seq ∧ t.seq ≤ max a.eventSeq b.eventSeq := by
  have hsections : (∀ content calls, .assistant content calls ∈ buildHistoryMessages st →
      (calls.map (·.id)).Nodup) ↔
        ∀ s ∈ windowSections st, s.2.Pairwise fun a b => a.toolCallId ≠ b.toolCallId := by
    rw [buildHistoryMessages_eq_sections]
    constructor
    · intro h s hs
      have hnodup := h _ _ (mem_sections_assistant.mpr ⟨s, hs, rfl, rfl⟩)
      rw [List.map_map] at hnodup
      exact List.pairwise_map.mp hnodup
    · intro h content calls hmem
      obtain ⟨s, hs, -, rfl⟩ := mem_sections_assistant.mp hmem
      rw [List.map_map]
      exact List.pairwise_map.mpr (h s hs)
  rw [hsections, windowSections, Lib.forall_sections_iff fun h => h.symm]
  apply List.Pairwise.iff
  intro a b
  constructor
  · intro h hid
    by_contra hnone
    exact h (fun t ht hbetween => hnone ⟨t, ht, hbetween⟩) hid
  · intro h hnone hid
    obtain ⟨t, ht, hbetween⟩ := h hid
    exact hnone t ht hbetween

/-- Each result is answered with its own content exactly when results with one id have the same content. -/
theorem once_iff (st : RunState) :
    ((buildHistoryMessages st).filter ChatMessage.isTool).Perm (st.windowResults.map toolResultMessage) ↔
      st.windowResults.Pairwise fun a b => a.toolCallId = b.toolCallId →
        toolResultMessage a = toolResultMessage b := by
  rw [buildHistoryMessages_eq_sections, filter_isTool_sections]
  have hanswers := (windowSections_items st).map fun r => toolResultMessage (answerTo st.windowResults r)
  constructor
  · intro hperm
    -- a message with an id is the one of the first result with this id
    have hfirst : ∀ r ∈ st.windowResults, toolResultMessage r =
        toolResultMessage (answerTo st.windowResults r) := by
      intro r hr
      have hmem := (hanswers.symm.trans hperm).mem_iff.mpr (List.mem_map_of_mem hr)
      obtain ⟨x, hx, hxr⟩ := List.mem_map.mp hmem
      have hid : x.toolCallId = r.toolCallId := by
        rw [← (answerTo_spec hx).2]
        exact (ChatMessage.tool.inj hxr).1
      rw [← hxr, answerTo_congr hx hr hid]
    apply List.pairwise_of_forall_mem_list
    intro a ha b hb hid
    rw [hfirst a ha, hfirst b hb, answerTo_congr ha hb hid]
  · intro h
    refine hanswers.trans (List.Perm.of_eq (List.map_congr_left fun r hr => ?_))
    obtain ⟨hmem, hid⟩ := answerTo_spec hr
    have : Std.Symm fun a b : ToolResult => a.toolCallId = b.toolCallId →
        toolResultMessage a = toolResultMessage b := ⟨fun a b hab hba => (hab hba.symm).symm⟩
    exact h.forall_of_forall (fun _ _ _ => rfl) hmem hr hid

/-- **The history is faithful** exactly when any two results of the window that share an id have the same
content and a thought of the window in between. -/
theorem history_messages_faithful_iff (st : RunState) :
    FaithfulHistory st.windowResults (buildHistoryMessages st) ↔
      st.windowResults.Pairwise fun a b => a.toolCallId = b.toolCallId →
        toolResultMessage a = toolResultMessage b ∧
          ∃ t ∈ st.windowThoughts, min a.eventSeq b.eventSeq < t.seq ∧ t.seq ≤ max a.eventSeq b.eventSeq := by
  have hpaired : Paired (buildHistoryMessages st) := by
    rw [buildHistoryMessages_eq_sections]
    exact paired_sections fun s hs r hr => mem_windowResults hs hr
  constructor
  · intro h
    have honce := (once_iff st).mp h.once
    have hdistinct := (distinct_iff st).mp h.distinct
    exact honce.imp₂ (fun a b hsame hbetween hid => ⟨hsame hid, hbetween hid⟩) hdistinct
  · intro h
    refine ⟨hpaired, (distinct_iff st).mpr (h.imp ?_), (once_iff st).mpr (h.imp ?_)⟩
    · intro a b hab hid
      exact (hab hid).2
    · intro a b hab hid
      exact (hab hid).1

end history

section sample

attribute [local instance] asciiPy

/-- Two calls to which the model gave one id. -/
def repeatedIdLog : List LogEvent :=
  [⟨"run_1", 1, .runStarted { intent := "list the files" }⟩,
    ⟨"run_1", 2, .agentThought "look at the sources" (some "list_files") none⟩,
    ⟨"run_1", 3, .toolCompleted { toolCallId := "call_0", toolName := "list_files", output := .str "a.py" }⟩,
    ⟨"run_1", 4, .agentThought "look at the tests" (some "list_files") none⟩,
    ⟨"run_1", 5, .toolCompleted { toolCallId := "call_0", toolName := "list_files", output := .str "b.py" }⟩]

/-- **The second call gets the first answer**, and its own is shown nowhere. -/
theorem repeated_id_answered_with_first : ∃ st, foldEvents repeatedIdLog = .ok st ∧
    buildHistoryMessages st =
      [.assistant "look at the sources" [{ id := "call_0", name := "list_files" }],
        .tool "call_0" "completed: a.py",
        .assistant "look at the tests" [{ id := "call_0", name := "list_files" }],
        .tool "call_0" "completed: a.py"] ∧
    ¬FaithfulHistory st.windowResults (buildHistoryMessages st) := by
  refine ⟨_, rfl, by decide +kernel, fun h => ?_⟩
  have hown := h.once.mem_iff (a := .tool "call_0" "completed: b.py")
  exact absurd (hown.mpr (by decide +kernel)) (by decide +kernel)

end sample

end JAgent
