import JAgent.Lib.Tasks
import JAgent.Core.Status
import JAgent.Storage.EventStore

/-! # Messages of a conversation

A run that belongs to a conversation puts two messages there: the user's, written by the request
that makes the run, and the assistant's, written by a background task of `cleanup_run_resources`.
That method runs at the end of the scheduler, however it ends, and again in every `delete_run`.
A message is one append without a key, its count a later update of the conversation.

The requests, the background tasks and the schedulers of all runs are one transition system here, in
which each await is a step.  The ids of runs and conversations are made up at random, so a new one is
none that is in use.  `Accounts.step`: the count of a conversation lags behind its messages by the
updates that are still to come, as long as nobody makes a run for the conversation of another
tenant. -/

namespace JAgent
open Lib

/-! ### The tables -/

inductive MessageRole where
  | user | assistant
deriving DecidableEq

/-- `ConversationMessagePayload`. -/
structure ConversationMessage where
  conversationId : String
  runId : String
  role : MessageRole
  content : String
  clientRequestId : Option String := none
deriving DecidableEq

/-- What a row of `events` holds here. -/
inductive ApiEvent where
  | run (p : Payload)
  | message (m : ConversationMessage)
deriving DecidableEq

/-- The payload as the fold of a run reads it. -/
def ApiEvent.payload : ApiEvent → Payload
  | .run p => p
  | .message _ => .conversation "message"

/-- A row of `events`; a conversation has a stream of its own, under its id. -/
structure ApiRow where
  runId : String
  tenantId : String
  event : ApiEvent
deriving DecidableEq

/-- The conversation that a RunStarted names. -/
def ApiRow.conversation (row : ApiRow) : Option String :=
  match row.event with
  | .run (.runStarted p) => nonEmpty p.conversationId
  | _ => none

/-- A row of `conversations`. -/
structure ChatRow where
  conversationId : String
  tenantId : String
  messageCount : ℕ := 0
deriving DecidableEq

/-! ### Requests and tasks -/

/-- A run that is to be made: `create_run` and `send_message` after their checks. -/
structure NewRun where
  runId : String
  started : RunStartedPayload
  clientRequestId : Option String := none

/-- The conversation of the run; an empty id counts as none. -/
def NewRun.conversation (q : NewRun) : Option String := nonEmpty q.started.conversationId

/-- The message of the user. -/
def NewRun.message (q : NewRun) (conversationId : String) : ConversationMessage :=
  { conversationId, runId := q.runId, role := .user, content := q.started.intent
    clientRequestId := q.clientRequestId }

/-- How `start_run` ends. -/
inductive Launch where
  /-- No LLM client or no registry. -/
  | unconfigured
  | running
  | failed (error : String)

/-- The next await of a request or of a background task. -/
inductive ApiJob where
  /-- `send_message`: `get_conversation`. -/
  | opening (q : NewRun)
  /-- The claim of the request, or the append of RunStarted. -/
  | creating (q : NewRun)
  /-- `start_run`. -/
  | starting (q : NewRun)
  /-- The append of a message. -/
  | posting (m : ConversationMessage)
  /-- `increment_message_count` of the scoped store: `get_conversation`. -/
  | counting (conversationId : String)
  /-- `increment_message_count` of the raw store. -/
  | updating (conversationId : String)
  /-- `delete_run`: `get_events`. -/
  | deleting (runId : String)
  /-- The append of RunFailed. -/
  | failing (runId : String) (eventCount : ℕ)
  /-- `cleanup_run_resources`. -/
  | cleaning (runId : String)
  /-- `_write_assistant_message`: `get_events` and the fold. -/
  | answering (runId : String)
  /-- `_write_assistant_message`: `get_conversation`. -/
  | finding (m : ConversationMessage)
  | done

def ApiJob.isDone : ApiJob → Bool
  | .done => true
  | _ => false

/-- The conversation a job is about. -/
def ApiJob.conversation : ApiJob → Option String
  | .opening q | .creating q | .starting q => q.conversation
  | .posting m | .finding m => some m.conversationId
  | .counting c | .updating c => some c
  | _ => none

/-- A task, with the tenant of its principal. -/
structure ApiTask where
  tenantId : String
  job : ApiJob

/-- The tables, the schedulers that have not ended and the tasks.  `cleaned` keeps the runs whose
resources were cleaned up. -/
structure ApiState where
  conversations : List ChatRow := []
  rows : List ApiRow := []
  claims : List ClaimRow := []
  schedulers : List (String × String) := []
  tasks : List ApiTask := []
  cleaned : List String := []

inductive ApiMove where
  | createConversation (tenantId conversationId : String)
  | createRun (tenantId : String) (q : NewRun)
  | sendMessage (tenantId : String) (q : NewRun)
  | deleteRun (tenantId runId : String)
  /-- A task takes its next step; `launch` says how `start_run` ends. -/
  | advance (i : ℕ) (launch : Launch)
  /-- A scheduler appends an event to its run. -/
  | write (runId : String) (p : Payload)
  /-- The `finally` of a scheduler: the run ended, failed, was cancelled or timed out. -/
  | finish (runId : String)

/-- The text of an assistant message. -/
def assistantContent (strEpisode : Episode → String) (st : RunState) : String :=
  if st.status = .failed then
    (nonEmpty st.userFacingMessage).getD "任务未能完成，请检查任务要求或稍后重试。"
  else match st.summary with
    | some (.text t) => if t = "" then "任务已完成。" else t
    | some (.episode e) => strEpisode e
    | none => "任务已完成。"

namespace ApiState
variable (s : ApiState)

/-- `get_events` of the scoped store. -/
def getEvents (tenantId runId : String) : List Payload :=
  (s.rows.filter fun row => row.runId = runId && row.tenantId = tenantId).map (·.event.payload)

/-- `get_conversation` of the scoped store. -/
def getConversation (tenantId conversationId : String) : Option ChatRow :=
  (s.conversations.find? (·.conversationId = conversationId)).filter (·.tenantId = tenantId)

/-- `append_event` without a key. -/
def append (runId tenantId : String) (event : ApiEvent) : ApiState :=
  { s with rows := s.rows ++ [⟨runId, tenantId, event⟩] }

/-- `increment_message_count` of the raw store. -/
def increment (conversationId : String) : ApiState :=
  { s with conversations := s.conversations.map fun row =>
      if row.conversationId = conversationId then { row with messageCount := row.messageCount + 1 }
      else row }

/-- `cleanup_run_resources`. -/
def cleanup (tenantId runId : String) : ApiState :=
  { s with tasks := s.tasks ++ [⟨tenantId, .answering runId⟩], cleaned := s.cleaned ++ [runId] }

/-- The message `_write_assistant_message` is about to write, if the run has a conversation. -/
def assistantMessage [Py] (strEpisode : Episode → String) (tenantId runId : String) :
    Option ConversationMessage :=
  match foldLog runId (s.getEvents tenantId runId) with
  | .error _ => none
  | .ok st => (nonEmpty st.conversationId).map fun conversationId =>
      { conversationId, runId, role := .assistant, content := assistantContent strEpisode st }

/-- What follows on the fold. -/
def afterFold : Option ConversationMessage → ApiJob
  | none => .done
  | some m => .finding m

/-- What follows on the look-up of the conversation. -/
def afterFind (m : ConversationMessage) : Option ChatRow → ApiJob
  | none => .done
  | some _ => .posting m

/-- Nothing names this id, as nothing names one that is made up at random. -/
def unnamed (conversationId : String) : Bool :=
  s.conversations.all (·.conversationId ≠ conversationId) &&
    s.rows.all (fun row => row.runId ≠ conversationId && row.conversation ≠ some conversationId) &&
    s.tasks.all (·.job.conversation ≠ some conversationId)

/-- Add a task. -/
def spawn (tenantId : String) (job : ApiJob) : ApiState := { s with tasks := s.tasks ++ [⟨tenantId, job⟩] }

/-- What follows on `start_run`. -/
def afterStart (q : NewRun) : ApiJob :=
  match q.conversation with
  | none => .done
  | some c => .posting (q.message c)

/-- The event of a run that could not be started. -/
def startFailure (error : String) : Payload :=
  .runFailed { finalError := "Run failed to start: " ++ error, eventCount := 1
               resultSummary := some ("Task failed before execution. " ++ error)
               userFacingMessage := "任务未能启动，请检查任务要求或稍后重试。" }

/-- One await of a task: the state and what the task does next. -/
def advance [Py] (strEpisode : Episode → String) (t : String) (launch : Launch) :
    ApiJob → Option (ApiState × ApiJob)
  | .opening q =>
    if (q.conversation.bind (s.getConversation t)).isSome then some (s, .creating q) else some (s, .done)
  | .creating q =>
    -- the id of the run is made up at random
    if s.rows.any (·.runId = q.runId) then none
    else
      let s' := s.append q.runId t (.run (.runStarted q.started))
      match q.conversation, nonEmpty q.clientRequestId with
      | some c, some k =>
        if s.claims.any (·.isFor t c k) then some (s, .done)
        else some ({ s' with claims := s.claims ++ [⟨t, c, k, q.runId⟩] }, .starting q)
      | _, _ => some (s', .starting q)
  | .starting q => match launch with
    | .unconfigured => some (s, afterStart q)
    | .running => some ({ s with schedulers := s.schedulers ++ [(q.runId, t)] }, afterStart q)
    | .failed error => some (s.append q.runId t (.run (startFailure error)), .done)
  | .posting m => some (s.append m.conversationId t (.message m), .counting m.conversationId)
  | .counting c => some (s, if (s.getConversation t c).isSome then .updating c else .done)
  | .updating c => some (s.increment c, .done)
  | .deleting r =>
    some (s, if (s.getEvents t r).isEmpty then .done else .failing r (s.getEvents t r).length)
  | .failing r n =>
    some (s.append r t (.run (.runFailed { finalError := "Run deleted by user", eventCount := n })),
      .cleaning r)
  | .cleaning r => some (s.cleanup t r, .done)
  | .answering r => some (s, afterFold (s.assistantMessage strEpisode t r))
  | .finding m => some (s, afterFind m (s.getConversation t m.conversationId))
  | .done => none

end ApiState

/-- A payload that only the requests write. -/
def Payload.isRunStarted : Payload → Bool
  | .runStarted _ => true
  | _ => false

/-- One step. -/
def apiStep [Py] (strEpisode : Episode → String) (s : ApiState) : ApiMove → Option ApiState
  | .createConversation t c =>
    if s.unnamed c then some { s with conversations := s.conversations ++ [⟨c, t, 0⟩] } else none
  | .createRun t q => some (s.spawn t (.creating q))
  | .sendMessage t q => some (s.spawn t (.opening q))
  | .deleteRun t r => some (s.spawn t (.deleting r))
  | .advance i launch => match s.tasks[i]? with
    | none => none
    | some task => (s.advance strEpisode task.tenantId launch task.job).map fun out =>
        { out.1 with tasks := out.1.tasks.set i ⟨task.tenantId, out.2⟩ }
  | .write r p => match s.schedulers.find? (·.1 = r) with
    | none => none
    | some (_, t) => if p.isRunStarted then none else some (s.append r t (.run p))
  | .finish r => match s.schedulers.find? (·.1 = r) with
    | none => none
    | some (_, t) => some ({ s with schedulers := s.schedulers.filter (·.1 ≠ r) }.cleanup t r)

/-! ### One clean-up per run -/

namespace ApiState
variable (s : ApiState)

/-- The run has a conversation. -/
def talks (runId : String) : Bool :=
  s.rows.any fun row => row.runId = runId &&
    s.conversations.any fun chat => row.conversation = some chat.conversationId

/-- Cleaning up after the run is the first time, or has no message to write. -/
def cleansFirst (runId : String) : Bool := !s.cleaned.contains runId || !s.talks runId

/-- The conversation is not one of another tenant. -/
def owns (tenantId : String) (conversation : Option String) : Bool :=
  s.conversations.all fun chat => conversation ≠ some chat.conversationId || chat.tenantId = tenantId

/-- A run with a conversation is cleaned up once, and no run is made for the conversation of another
tenant. -/
def tidy : ApiMove → Bool
  | .createRun t q => s.owns t q.conversation
  | .finish r => s.cleansFirst r
  | .advance i _ => match s.tasks[i]? with
    | some ⟨_, .cleaning r⟩ => s.cleansFirst r
    | _ => true
  | _ => true

/-! ### Counting -/

/-- The row is an assistant message of the run. -/
def isAnswer (runId : String) (row : ApiRow) : Bool :=
  match row.event with
  | .message m => m.role = .assistant && m.runId = runId
  | .run _ => false

/-- The assistant messages of a run. -/
def answers (runId : String) : ℕ := s.rows.countP (isAnswer runId)

/-- The row is a message of the conversation. -/
def isMessageIn (conversationId : String) (row : ApiRow) : Bool :=
  match row.event with
  | .message _ => row.runId = conversationId
  | .run _ => false

/-- The messages of a conversation. -/
def messages (conversationId : String) : ℕ := s.rows.countP (isMessageIn conversationId)

/-- The task may still write an assistant message of the run. -/
def isPending (runId : String) (task : ApiTask) : Bool :=
  match task.job with
  | .answering r => r = runId
  | .finding m | .posting m => m.role = .assistant && m.runId = runId
  | _ => false

def pending (runId : String) : ℕ := s.tasks.countP (isPending runId)

/-- The task has written a message and not counted it. -/
def isUncounted (conversationId : String) (task : ApiTask) : Bool :=
  match task.job with
  | .counting c | .updating c => c = conversationId
  | _ => false

def uncounted (conversationId : String) : ℕ := s.tasks.countP (isUncounted conversationId)

/-- Nothing is in progress. -/
def quiet : Bool := s.tasks.all (·.job.isDone)

/-! ### The counts of the conversations -/

/-- The conversation a job is going to write to or to count for. -/
def posts : ApiJob → Option String
  | .creating q | .starting q => q.conversation
  | .posting m => some m.conversationId
  | .counting c | .updating c => some c
  | _ => none

/-- The count of a conversation lags behind its messages by the updates that are to come, and whoever
posts to a conversation is of its tenant, so that the update finds it. -/
structure Accounts (s : ApiState) : Prop where
  ids : (s.conversations.map (·.conversationId)).Nodup
  owned : ∀ task ∈ s.tasks, s.owns task.tenantId (posts task.job) = true
  account : ∀ chat ∈ s.conversations,
    chat.messageCount + s.uncounted chat.conversationId = s.messages chat.conversationId

variable {s} {s' : ApiState} {t : String}

theorem owns_iff {conversation : Option String} : s.owns t conversation = true ↔
    ∀ chat ∈ s.conversations, conversation = some chat.conversationId → chat.tenantId = t := by
  unfold owns
  rw [List.all_eq_true]
  refine forall₂_congr fun chat _ => ?_
  rw [Bool.or_eq_true, decide_eq_true_eq, decide_eq_true_eq, ne_eq, imp_iff_not_or]

@[simp] theorem owns_none : s.owns t none = true := by
  rw [owns_iff]
  intro chat _ h
  cases h

/-- The scoped store finds the conversations of its tenant. -/
theorem owns_of_getConversation (hids : (s.conversations.map (·.conversationId)).Nodup) {c : String}
    (h : (s.getConversation t c).isSome = true) : s.owns t (some c) = true := by
  obtain ⟨chat, hchat⟩ := Option.isSome_iff_exists.mp h
  obtain ⟨hfound, htenant⟩ := Option.filter_eq_some_iff.mp hchat
  have hmem := List.mem_of_find?_eq_some hfound
  have hid : chat.conversationId = c := by simpa using List.find?_some hfound
  rw [owns_iff]
  intro chat' hmem' hc
  have heq : chat' = chat := by
    refine List.inj_on_of_nodup_map hids hmem' hmem ?_
    rw [hid]
    exact (Option.some.inj hc).symm
  rw [heq]
  simpa using htenant

theorem getConversation_isSome_of_owns {chat : ChatRow} (hmem : chat ∈ s.conversations)
    (hids : (s.conversations.map (·.conversationId)).Nodup)
    (h : s.owns t (some chat.conversationId) = true) :
    (s.getConversation t chat.conversationId).isSome = true := by
  have htenant : chat.tenantId = t := owns_iff.mp h chat hmem rfl
  have hfound : s.conversations.find? (·.conversationId = chat.conversationId) = some chat := by
    cases hf : s.conversations.find? (·.conversationId = chat.conversationId) with
    | none =>
        have hnone := List.find?_eq_none.mp hf chat hmem
        simp at hnone
    | some chat' =>
        have hid : chat'.conversationId = chat.conversationId := by simpa using List.find?_some hf
        rw [List.inj_on_of_nodup_map hids (List.mem_of_find?_eq_some hf) hmem hid]
  unfold getConversation
  rw [hfound, Option.filter_some, if_pos (by simpa using htenant)]
  rfl

theorem posts_of_isUncounted {c : String} {task : ApiTask} (h : isUncounted c task = true) :
    posts task.job = some c := by
  obtain ⟨t, job⟩ := task
  cases job with
  | counting c' | updating c' =>
      have hc : c' = c := by simpa [isUncounted] using h
      rw [hc]
      rfl
  | _ => cases h

theorem runId_of_isMessageIn {c : String} {row : ApiRow} (h : isMessageIn c row = true) : row.runId = c := by
  unfold isMessageIn at h
  split at h
  · simpa using h
  · cases h

theorem conversation_of_posts {c : String} {job : ApiJob} (h : posts job = some c) :
    job.conversation = some c := by
  cases job with
  | creating q | starting q | posting m | counting c' | updating c' => exact h
  | _ => cases h

/-- A step that leaves the table of conversations alone. -/
theorem Accounts.of_same (h : Accounts s) (hconv : s'.conversations = s.conversations)
    (howned : ∀ task ∈ s'.tasks, s.owns task.tenantId (posts task.job) = true)
    (hcount : ∀ chat ∈ s.conversations, s'.uncounted chat.conversationId + s.messages chat.conversationId =
      s.uncounted chat.conversationId + s'.messages chat.conversationId) : Accounts s' := by
  refine ⟨?_, ?_, ?_⟩
  · rw [hconv]
    exact h.ids
  · intro task htask
    have ho := howned task htask
    unfold owns at ho ⊢
    rw [hconv]
    exact ho
  · intro chat hchat
    rw [hconv] at hchat
    have hold := h.account chat hchat
    have hnew := hcount chat hchat
    omega

/-- A step of a task that leaves the table of conversations alone: some rows are appended and some
tasks are spawned. -/
theorem Accounts.of_task (h : Accounts s) {i : ℕ} {job job' : ApiJob} (rows : List ApiRow)
    (tasks : List ApiTask) (hi : s.tasks[i]? = some ⟨t, job⟩) (hconv : s'.conversations = s.conversations)
    (hrows : s'.rows = s.rows ++ rows) (htasks : s'.tasks = s.tasks ++ tasks)
    (hquiet : ∀ task ∈ tasks, posts task.job = none) (hposts : s.owns t (posts job') = true)
    (hdelta : ∀ chat ∈ s.conversations, (isUncounted chat.conversationId ⟨t, job'⟩).toNat =
      (isUncounted chat.conversationId ⟨t, job⟩).toNat + rows.countP (isMessageIn chat.conversationId)) :
    Accounts { s' with tasks := s'.tasks.set i ⟨t, job'⟩ } := by
  have hi' : (s.tasks ++ tasks)[i]? = some ⟨t, job⟩ := by
    rw [List.getElem?_append_left (List.getElem?_eq_some_iff.mp hi).1]
    exact hi
  refine h.of_same hconv ?_ ?_
  · intro task htask
    simp only [htasks] at htask
    rcases List.mem_or_eq_of_mem_set htask with hold | rfl
    · rcases List.mem_append.mp hold with hold | hnew
      · exact h.owned task hold
      · rw [hquiet task hnew]
        exact owns_none
    · exact hposts
  · intro chat hchat
    have hset := countP_set_toNat (isUncounted chat.conversationId) (b := ⟨t, job'⟩) hi'
    have hnone : tasks.countP (isUncounted chat.conversationId) = 0 := by
      rw [List.countP_eq_zero]
      intro task htask huncounted
      have hposts := posts_of_isUncounted huncounted
      rw [hquiet task htask] at hposts
      cases hposts
    have hd := hdelta chat hchat
    simp only [uncounted, messages, htasks, hrows, List.countP_append] at hset ⊢
    omega

/-- A task goes on without a message. -/
theorem Accounts.goto (h : Accounts s) {i : ℕ} {job job' : ApiJob} (hi : s.tasks[i]? = some ⟨t, job⟩)
    (hposts : s.owns t (posts job') = true) (hu : ∀ chat ∈ s.conversations,
      isUncounted chat.conversationId ⟨t, job'⟩ = isUncounted chat.conversationId ⟨t, job⟩) :
    Accounts { s with tasks := s.tasks.set i ⟨t, job'⟩ } := by
  refine h.of_task [] [] hi rfl (by simp) (by simp) (by simp) hposts ?_
  intro chat hchat
  rw [hu chat hchat, List.countP_nil, Nat.add_zero]

/-- A task appends an event of a run. -/
theorem Accounts.wrote (h : Accounts s) {i : ℕ} {job job' : ApiJob} (r : String) (p : Payload)
    (hi : s.tasks[i]? = some ⟨t, job⟩) (hconv : s'.conversations = s.conversations)
    (hrows : s'.rows = s.rows ++ [⟨r, t, .run p⟩]) (htasks : s'.tasks = s.tasks)
    (hposts : s.owns t (posts job') = true)
    (hu : ∀ c, isUncounted c ⟨t, job'⟩ = isUncounted c ⟨t, job⟩) :
    Accounts { s' with tasks := s'.tasks.set i ⟨t, job'⟩ } := by
  refine h.of_task [⟨r, t, .run p⟩] [] hi hconv hrows (by simpa using htasks) (by simp) hposts ?_
  intro chat _
  rw [hu, List.countP_singleton]
  rfl

theorem Accounts.spawn (h : Accounts s) {job : ApiJob} (hj : ∀ c, isUncounted c ⟨t, job⟩ = false)
    (ho : s.owns t (posts job) = true) : Accounts (s.spawn t job) := by
  refine h.of_same rfl ?_ ?_
  · intro task htask
    rcases List.mem_append.mp htask with hold | hnew
    · exact h.owned task hold
    · rw [List.mem_singleton.mp hnew]
      exact ho
  · intro chat _
    have huncounted : (s.spawn t job).uncounted chat.conversationId = s.uncounted chat.conversationId := by
      unfold uncounted ApiState.spawn
      rw [List.countP_append, List.countP_singleton, hj]
      simp
    rw [huncounted]
    rfl

/-- A new conversation has no messages. -/
theorem Accounts.create (h : Accounts s) {c : String} (hc : s.unnamed c = true) :
    Accounts { s with conversations := s.conversations ++ [⟨c, t, 0⟩] } := by
  unfold unnamed at hc
  rw [Bool.and_eq_true, Bool.and_eq_true, List.all_eq_true, List.all_eq_true, List.all_eq_true] at hc
  obtain ⟨⟨hconv, hrows⟩, htasks⟩ := hc
  have hposts : ∀ task ∈ s.tasks, posts task.job ≠ some c := by
    intro task htask hp
    have hne := htasks task htask
    rw [decide_eq_true_eq] at hne
    exact hne (conversation_of_posts hp)
  refine ⟨?_, ?_, ?_⟩
  · rw [List.map_append, List.nodup_append]
    refine ⟨h.ids, List.nodup_singleton _, ?_⟩
    intro a ha b hb hab
    obtain ⟨chat, hchat, rfl⟩ := List.mem_map.mp ha
    have hne := hconv chat hchat
    rw [decide_eq_true_eq] at hne
    exact hne (hab.trans (List.mem_singleton.mp hb))
  · intro task htask
    rw [owns_iff]
    intro chat hchat hp
    rcases List.mem_append.mp hchat with hold | hnew
    · exact owns_iff.mp (h.owned task htask) chat hold hp
    · rw [List.mem_singleton.mp hnew] at hp
      exact absurd hp (hposts task htask)
  · intro chat hchat
    rcases List.mem_append.mp hchat with hold | hnew
    · exact h.account chat hold
    · rw [List.mem_singleton.mp hnew]
      have huncounted : s.uncounted c = 0 := by
        unfold uncounted
        rw [List.countP_eq_zero]
        intro task htask hu
        exact hposts task htask (posts_of_isUncounted hu)
      have hmessages : s.messages c = 0 := by
        unfold messages
        rw [List.countP_eq_zero]
        intro row hrow hm
        have hne := hrows row hrow
        rw [Bool.and_eq_true, decide_eq_true_eq] at hne
        exact hne.1 (runId_of_isMessageIn hm)
      show 0 + s.uncounted c = s.messages c
      rw [huncounted, hmessages]

theorem increment_ids (c : String) :
    (s.increment c).conversations.map (·.conversationId) = s.conversations.map (·.conversationId) := by
  unfold ApiState.increment
  rw [List.map_map]
  refine List.map_congr_left fun chat _ => ?_
  rw [Function.comp_apply]
  split <;> rfl

/-- The update of a count. -/
theorem Accounts.increment (h : Accounts s) {i : ℕ} {c : String} (hi : s.tasks[i]? = some ⟨t, .updating c⟩) :
    Accounts { s.increment c with tasks := (s.increment c).tasks.set i ⟨t, .done⟩ } := by
  refine ⟨?_, ?_, ?_⟩
  · show ((s.increment c).conversations.map (·.conversationId)).Nodup
    rw [increment_ids]
    exact h.ids
  · intro task htask
    rw [owns_iff]
    intro chat hchat hp
    obtain ⟨chat', hchat', rfl⟩ := List.mem_map.mp hchat
    have htenant : ∀ row : ChatRow, (if row.conversationId = c then
        { row with messageCount := row.messageCount + 1 } else row).tenantId = row.tenantId ∧
        (if row.conversationId = c then
        { row with messageCount := row.messageCount + 1 } else row).conversationId = row.conversationId := by
      intro row
      split <;> exact ⟨rfl, rfl⟩
    rw [(htenant chat').1]
    rw [(htenant chat').2] at hp
    rcases List.mem_or_eq_of_mem_set htask with hold | rfl
    · exact owns_iff.mp (h.owned task hold) chat' hchat' hp
    · cases hp
  · intro chat hchat
    obtain ⟨chat', hchat', rfl⟩ := List.mem_map.mp hchat
    have hold := h.account chat' hchat'
    have hset := countP_set_toNat (isUncounted chat'.conversationId) (b := ⟨t, .done⟩) hi
    by_cases hc : chat'.conversationId = c
    · have hone : isUncounted chat'.conversationId ⟨t, .updating c⟩ = true := by simp [isUncounted, hc]
      rw [hone] at hset
      rw [if_pos hc]
      simp only [uncounted, messages, ApiState.increment] at hold ⊢
      simp only [isUncounted, Bool.toNat_true, Bool.toNat_false] at hset
      omega
    · have hzero : isUncounted chat'.conversationId ⟨t, .updating c⟩ = false := by
        simp [isUncounted, Ne.symm hc]
      rw [hzero] at hset
      rw [if_neg hc]
      simp only [uncounted, messages, ApiState.increment] at hold ⊢
      simp only [isUncounted, Bool.toNat_false] at hset
      omega

theorem owns_afterStart {q : NewRun} (h : s.owns t q.conversation = true) :
    s.owns t (posts (afterStart q)) = true := by
  unfold afterStart
  split
  · exact owns_none
  next c hc =>
    rw [hc] at h
    exact h

theorem isUncounted_afterStart {q : NewRun} (c : String) : isUncounted c ⟨t, afterStart q⟩ = false := by
  unfold afterStart
  split <;> rfl

section step
variable [Py] {strEpisode : Episode → String} {m : ApiMove}

/-- A step of a task keeps the accounts. -/
theorem Accounts.advance (h : Accounts s) {i : ℕ} {job job' : ApiJob} {launch : Launch}
    (hi : s.tasks[i]? = some ⟨t, job⟩) (hs : s.advance strEpisode t launch job = some (s', job')) :
    Accounts { s' with tasks := s'.tasks.set i ⟨t, job'⟩ } := by
  have hown : s.owns t (posts job) = true := h.owned _ (List.mem_of_getElem? hi)
  cases job with
  | opening q =>
      simp only [ApiState.advance] at hs
      split_ifs at hs with hfound <;> obtain ⟨rfl, rfl⟩ := Prod.mk.inj (Option.some.inj hs)
      · refine h.goto hi ?_ fun _ _ => rfl
        show s.owns t q.conversation = true
        cases hc : q.conversation with
        | none => exact owns_none
        | some c =>
            rw [hc] at hfound
            exact owns_of_getConversation h.ids hfound
      · exact h.goto hi owns_none fun _ _ => rfl
  | creating q =>
      simp only [ApiState.advance] at hs
      split_ifs at hs
      split at hs
      · split_ifs at hs <;> obtain ⟨rfl, rfl⟩ := Prod.mk.inj (Option.some.inj hs)
        · exact h.goto hi owns_none fun _ _ => rfl
        · exact h.wrote _ _ hi rfl rfl rfl hown fun _ => rfl
      · obtain ⟨rfl, rfl⟩ := Prod.mk.inj (Option.some.inj hs)
        exact h.wrote _ _ hi rfl rfl rfl hown fun _ => rfl
  | starting q =>
      cases launch with
      | unconfigured =>
          obtain ⟨rfl, rfl⟩ := Prod.mk.inj (Option.some.inj hs)
          exact h.goto hi (owns_afterStart hown) fun _ _ => isUncounted_afterStart _
      | running =>
          obtain ⟨rfl, rfl⟩ := Prod.mk.inj (Option.some.inj hs)
          refine h.of_task [] [] hi rfl (by simp) (by simp) (by simp) (owns_afterStart hown) ?_
          intro chat _
          rw [isUncounted_afterStart]
          rfl
      | failed error =>
          obtain ⟨rfl, rfl⟩ := Prod.mk.inj (Option.some.inj hs)
          exact h.wrote _ _ hi rfl rfl rfl owns_none fun _ => rfl
  | posting m =>
      obtain ⟨rfl, rfl⟩ := Prod.mk.inj (Option.some.inj hs)
      refine h.of_task [⟨m.conversationId, t, .message m⟩] [] hi rfl rfl (by simp [append]) (by simp) hown ?_
      intro chat _
      rw [List.countP_singleton]
      simp only [isUncounted, isMessageIn, Bool.toNat_false, Nat.zero_add]
      by_cases hc : m.conversationId = chat.conversationId <;> simp [hc]
  | counting c =>
      obtain ⟨rfl, rfl⟩ := Prod.mk.inj (Option.some.inj hs)
      refine h.goto hi ?_ ?_
      · split_ifs
        · exact hown
        · exact owns_none
      · intro chat hchat
        split_ifs with hfound
        · rfl
        · have hne : c ≠ chat.conversationId := by
            rintro rfl
            exact hfound (getConversation_isSome_of_owns hchat h.ids hown)
          simp [isUncounted, hne]
  | updating c =>
      obtain ⟨rfl, rfl⟩ := Prod.mk.inj (Option.some.inj hs)
      exact h.increment hi
  | deleting r =>
      obtain ⟨rfl, rfl⟩ := Prod.mk.inj (Option.some.inj hs)
      split_ifs <;> exact h.goto hi owns_none fun _ _ => rfl
  | failing r n =>
      obtain ⟨rfl, rfl⟩ := Prod.mk.inj (Option.some.inj hs)
      exact h.wrote _ _ hi rfl rfl rfl owns_none fun _ => rfl
  | cleaning r =>
      obtain ⟨rfl, rfl⟩ := Prod.mk.inj (Option.some.inj hs)
      exact h.of_task [] [⟨t, .answering r⟩] hi rfl (by simp [cleanup]) rfl (by simp [posts]) owns_none
        fun _ _ => rfl
  | answering r =>
      obtain ⟨rfl, rfl⟩ := Prod.mk.inj (Option.some.inj hs)
      cases s.assistantMessage strEpisode t r <;> exact h.goto hi owns_none fun _ _ => rfl
  | finding m =>
      obtain ⟨rfl, rfl⟩ := Prod.mk.inj (Option.some.inj hs)
      cases hfound : s.getConversation t m.conversationId with
      | none => exact h.goto hi owns_none fun _ _ => rfl
      | some chat =>
          refine h.goto hi ?_ fun _ _ => rfl
          exact owns_of_getConversation h.ids (by rw [hfound]; rfl)
  | done => cases hs

/-- **The accounts are kept**, as long as nobody makes a run for the conversation of another tenant. -/
theorem Accounts.step (h : Accounts s) (hm : s.tidy m = true) (hs : apiStep strEpisode s m = some s') :
    Accounts s' := by
  cases m with
  | createConversation t c =>
      simp only [apiStep] at hs
      split_ifs at hs with hc
      obtain rfl := Option.some.inj hs
      exact h.create hc
  | createRun t q =>
      obtain rfl := Option.some.inj hs
      exact h.spawn (fun _ => rfl) hm
  | sendMessage t q =>
      obtain rfl := Option.some.inj hs
      exact h.spawn (fun _ => rfl) owns_none
  | deleteRun t r =>
      obtain rfl := Option.some.inj hs
      exact h.spawn (fun _ => rfl) owns_none
  | advance i launch =>
      simp only [apiStep] at hs
      split at hs
      · cases hs
      next task hi =>
        obtain ⟨out, hout, rfl⟩ := Option.map_eq_some_iff.mp hs
        exact h.advance hi hout
  | write r p =>
      simp only [apiStep] at hs
      split at hs
      · cases hs
      · split_ifs at hs
        obtain rfl := Option.some.inj hs
        refine h.of_same rfl h.owned fun chat _ => ?_
        simp [uncounted, messages, append, isMessageIn]
  | finish r =>
      simp only [apiStep] at hs
      split at hs
      · cases hs
      · obtain rfl := Option.some.inj hs
        refine h.of_same rfl ?_ ?_
        · intro task htask
          rcases List.mem_append.mp htask with hold | hnew
          · exact h.owned task hold
          · rw [List.mem_singleton.mp hnew]
            exact owns_none
        · intro chat _
          simp [uncounted, messages, cleanup, isUncounted]

end step

end ApiState
end JAgent
