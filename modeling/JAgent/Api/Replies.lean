import JAgent.Api.Messages

/-! # The assistant's messages

`cleanup_run_resources` spawns a task that writes the answer of a run to its conversation; the end of
the scheduler calls it, and so does every `delete_run`.  `assistant_message_once`: as long as a run
that has a conversation is cleaned up once, it gets at most one assistant message. -/

namespace JAgent
open Lib
namespace ApiState
variable {s s' : ApiState} {t : String}

/-! ### The messages of the assistant -/

/-- The job is going to write an assistant message of the run. -/
def replies (runId : String) : ApiJob → Bool
  | .posting m => m.role = .assistant && m.runId = runId
  | _ => false

/-- The job is there because the run was made. -/
def followsStart (runId : String) : ApiJob → Bool
  | .starting q => q.runId = runId
  | .failing r _ | .cleaning r => r = runId
  | _ => false

/-- The run has events. -/
def Begun (s : ApiState) (runId : String) : Prop := ∃ row ∈ s.rows, row.runId = runId

/-- Where an assistant message comes from: one clean-up, one task, one message, and only of a run
that has a conversation. -/
structure Once (s : ApiState) : Prop where
  cleaned : ∀ r ∈ s.cleaned, s.Begun r
  schedulers : ∀ r t, (r, t) ∈ s.schedulers → s.Begun r
  tasks : ∀ task ∈ s.tasks, ∀ r, followsStart r task.job = true → s.Begun r
  fresh : ∀ r, r ∉ s.cleaned → s.pending r + s.answers r = 0
  once : ∀ r, s.talks r = true → s.pending r + s.answers r ≤ 1
  silent : ∀ r, s.talks r = false → s.answers r = 0 ∧ ∀ task ∈ s.tasks, replies r task.job = false
  named : ∀ task ∈ s.tasks, ∀ m, task.job = .finding m → m.role = .assistant ∧
    ∃ row ∈ s.rows, row.runId = m.runId ∧ row.conversation = some m.conversationId

theorem talks_iff {r : String} : s.talks r = true ↔
    ∃ row ∈ s.rows, row.runId = r ∧ ∃ chat ∈ s.conversations, row.conversation = some chat.conversationId := by
  simp only [talks, List.any_eq_true, Bool.and_eq_true, decide_eq_true_eq]

/-- The runs that talk, after rows of runs that were not cleaned up were appended. -/
theorem talks_append {rows : List ApiRow} (cleaned : List String)
    (hconv : s'.conversations.map (·.conversationId) = s.conversations.map (·.conversationId))
    (hrows : s'.rows = s.rows ++ rows)
    (hnew : ∀ row ∈ rows, row.conversation = none ∨ row.runId ∉ cleaned) {r : String} :
    (s.talks r = true → s'.talks r = true) ∧ (s'.talks r = true → s.talks r = true ∨ r ∉ cleaned) := by
  have hids : ∀ c, (∃ chat ∈ s'.conversations, some c = some chat.conversationId) ↔
      ∃ chat ∈ s.conversations, some c = some chat.conversationId := by
    intro c
    have hmem : c ∈ s'.conversations.map (·.conversationId) ↔ c ∈ s.conversations.map (·.conversationId) := by
      rw [hconv]
    simpa [List.mem_map, eq_comm] using hmem
  rw [talks_iff, talks_iff, hrows]
  refine ⟨?_, ?_⟩
  · rintro ⟨row, hrow, hr, chat, hchat, hc⟩
    refine ⟨row, List.mem_append_left _ hrow, hr, ?_⟩
    rw [hc]
    exact (hids _).mpr ⟨chat, hchat, rfl⟩
  · rintro ⟨row, hrow, hr, chat, hchat, hc⟩
    rcases List.mem_append.mp hrow with hold | hadded
    · refine .inl ⟨row, hold, hr, ?_⟩
      rw [hc]
      exact (hids _).mp ⟨chat, hchat, rfl⟩
    · rcases hnew row hadded with hnone | hfresh
      · rw [hnone] at hc
        cases hc
      · rw [hr] at hfresh
        exact .inr hfresh

theorem Begun.append {rows : List ApiRow} (hrows : s'.rows = s.rows ++ rows) {r : String} (h : s.Begun r) :
    s'.Begun r := by
  obtain ⟨row, hrow, hr⟩ := h
  exact ⟨row, hrows ▸ List.mem_append_left _ hrow, hr⟩

/-- A step of a task that cleans nothing up. -/
theorem Once.of_task (h : Once s) {i : ℕ} {job job' : ApiJob} (rows : List ApiRow)
    (hi : s.tasks[i]? = some ⟨t, job⟩)
    (hconv : s'.conversations.map (·.conversationId) = s.conversations.map (·.conversationId))
    (hrows : s'.rows = s.rows ++ rows) (htasks : s'.tasks = s.tasks) (hcleaned : s'.cleaned = s.cleaned)
    (hsched : ∀ r t, (r, t) ∈ s'.schedulers → s'.Begun r)
    (hfollows : ∀ r, followsStart r job' = true → s'.Begun r)
    (hnew : ∀ row ∈ rows, row.conversation = none ∨ row.runId ∉ s.cleaned)
    (hle : ∀ r, (isPending r ⟨t, job'⟩).toNat + rows.countP (isAnswer r) ≤ (isPending r ⟨t, job⟩).toNat)
    (hsilent : ∀ r, s.talks r = false → rows.countP (isAnswer r) = 0 ∧ replies r job' = false)
    (hnamed : ∀ m, job' = .finding m → m.role = .assistant ∧
      ∃ row ∈ s.rows, row.runId = m.runId ∧ row.conversation = some m.conversationId) :
    Once { s' with tasks := s'.tasks.set i ⟨t, job'⟩ } := by
  have htalks : ∀ r, (s.talks r = true → s'.talks r = true) ∧
      (s'.talks r = true → s.talks r = true ∨ r ∉ s.cleaned) := fun r => talks_append s.cleaned hconv hrows hnew
  have hsum : ∀ r, (s'.tasks.set i ⟨t, job'⟩).countP (isPending r) + s'.rows.countP (isAnswer r) ≤
      s.pending r + s.answers r := by
    intro r
    have hset := countP_set_toNat (isPending r) (b := ⟨t, job'⟩) hi
    have hr := hle r
    simp only [pending, answers, htasks, hrows, List.countP_append]
    omega
  have hmem : ∀ {task : ApiTask}, task ∈ s'.tasks.set i ⟨t, job'⟩ → task ∈ s.tasks ∨ task = ⟨t, job'⟩ := by
    intro task htask
    rw [htasks] at htask
    exact List.mem_or_eq_of_mem_set htask
  refine ⟨?_, hsched, ?_, ?_, ?_, ?_, ?_⟩
  · intro r hr
    simp only [hcleaned] at hr
    exact (h.cleaned r hr).append hrows
  · intro task htask r hr
    rcases hmem htask with hold | rfl
    · exact (h.tasks task hold r hr).append hrows
    · exact hfollows r hr
  · intro r hr
    simp only [hcleaned] at hr
    have hzero := h.fresh r hr
    have hr := hsum r
    simp only [pending, answers] at hzero hr ⊢
    omega
  · intro r hr
    have hle := hsum r
    simp only [pending, answers] at hle ⊢
    rcases (htalks r).2 hr with hold | hfresh
    · have hone := h.once r hold
      simp only [pending, answers] at hone
      omega
    · have hzero := h.fresh r hfresh
      simp only [pending, answers] at hzero
      omega
  · intro r hr
    have hold : s.talks r = false := by
      rw [← Bool.not_eq_true] at hr ⊢
      exact fun htrue => hr ((htalks r).1 htrue)
    obtain ⟨hans, hrep⟩ := h.silent r hold
    obtain ⟨hans', hrep'⟩ := hsilent r hold
    refine ⟨?_, ?_⟩
    · simp only [answers, hrows, List.countP_append] at hans ⊢
      omega
    · intro task htask
      rcases hmem htask with hin | rfl
      · exact hrep task hin
      · exact hrep'
  · intro task htask m hm
    simp only [hrows]
    rcases hmem htask with hin | rfl
    · obtain ⟨hrole, row, hrow, hrest⟩ := h.named task hin m hm
      exact ⟨hrole, row, List.mem_append_left _ hrow, hrest⟩
    · obtain ⟨hrole, row, hrow, hrest⟩ := hnamed m hm
      exact ⟨hrole, row, List.mem_append_left _ hrow, hrest⟩

/-- A task goes on and writes nothing. -/
theorem Once.goto (h : Once s) {i : ℕ} {job job' : ApiJob} (hi : s.tasks[i]? = some ⟨t, job⟩)
    (hfollows : ∀ r, followsStart r job' = true → s.Begun r)
    (hle : ∀ r, isPending r ⟨t, job'⟩ = true → isPending r ⟨t, job⟩ = true)
    (hsilent : ∀ r, s.talks r = false → replies r job' = false)
    (hnamed : ∀ m, job' = .finding m → m.role = .assistant ∧
      ∃ row ∈ s.rows, row.runId = m.runId ∧ row.conversation = some m.conversationId) :
    Once { s with tasks := s.tasks.set i ⟨t, job'⟩ } := by
  refine h.of_task [] hi rfl (by simp) rfl rfl h.schedulers hfollows (by simp) ?_ ?_ hnamed
  · intro r
    have hr := hle r
    cases hj : isPending r ⟨t, job'⟩ with
    | false => simp
    | true =>
        rw [hr hj]
        simp
  · intro r hr
    exact ⟨rfl, hsilent r hr⟩

/-- A task appends an event of a run. -/
theorem Once.wrote (h : Once s) {i : ℕ} {job job' : ApiJob} (r : String) (p : Payload)
    (hi : s.tasks[i]? = some ⟨t, job⟩) (hconv : s'.conversations = s.conversations)
    (hrows : s'.rows = s.rows ++ [⟨r, t, .run p⟩]) (htasks : s'.tasks = s.tasks)
    (hcleaned : s'.cleaned = s.cleaned) (hsched : s'.schedulers = s.schedulers)
    (hfollows : ∀ r, followsStart r job' = true → s'.Begun r) (hnew : p.isRunStarted = false ∨ r ∉ s.cleaned)
    (hpending : ∀ r, isPending r ⟨t, job'⟩ = false) (hreplies : ∀ r, replies r job' = false)
    (hnamed : ∀ m, job' ≠ .finding m) :
    Once { s' with tasks := s'.tasks.set i ⟨t, job'⟩ } := by
  refine h.of_task [⟨r, t, .run p⟩] hi (by rw [hconv]) hrows htasks hcleaned ?_ hfollows ?_ ?_ ?_ ?_
  · intro r t hr
    rw [hsched] at hr
    exact (h.schedulers r t hr).append hrows
  · intro row hrow
    rw [List.mem_singleton.mp hrow]
    rcases hnew with hp | hr
    · refine .inl ?_
      cases p with
      | runStarted p => cases hp
      | _ => rfl
    · exact .inr hr
  · intro r'
    rw [hpending, List.countP_singleton]
    simp [isAnswer]
  · intro r' _
    exact ⟨rfl, hreplies r'⟩
  · intro m hm
    exact absurd hm (hnamed m)

theorem Once.spawn (h : Once s) {job : ApiJob} (hp : ∀ r, isPending r ⟨t, job⟩ = false)
    (hr : ∀ r, replies r job = false) (hf : ∀ r, followsStart r job = false) (hm : ∀ m, job ≠ .finding m) :
    Once (s.spawn t job) := by
  have hpending : ∀ r, (s.spawn t job).pending r = s.pending r := by
    intro r
    unfold pending ApiState.spawn
    rw [List.countP_append, List.countP_singleton, hp]
    simp
  have hmem : ∀ {task : ApiTask}, task ∈ (s.spawn t job).tasks → task ∈ s.tasks ∨ task = ⟨t, job⟩ := by
    intro task htask
    rcases List.mem_append.mp htask with hold | hnew
    · exact .inl hold
    · exact .inr (List.mem_singleton.mp hnew)
  refine ⟨h.cleaned, h.schedulers, ?_, ?_, ?_, ?_, ?_⟩
  · intro task htask r hfol
    rcases hmem htask with hold | rfl
    · exact h.tasks task hold r hfol
    · rw [hf] at hfol
      cases hfol
  · intro r hfresh
    rw [hpending]
    exact h.fresh r hfresh
  · intro r htalks
    rw [hpending]
    exact h.once r htalks
  · intro r hsilent
    obtain ⟨hans, hrep⟩ := h.silent r hsilent
    refine ⟨hans, ?_⟩
    intro task htask
    rcases hmem htask with hold | rfl
    · exact hrep task hold
    · exact hr r
  · intro task htask m hjob
    rcases hmem htask with hold | rfl
    · exact h.named task hold m hjob
    · exact absurd hjob (hm m)

/-- A scheduler appends an event to its run. -/
theorem Once.write (h : Once s) {r : String} {p : Payload} (hp : p.isRunStarted = false) :
    Once (s.append r t (.run p)) := by
  have hnone : ApiRow.conversation ⟨r, t, .run p⟩ = none := by
    cases p with
    | runStarted p => cases hp
    | _ => rfl
  have htalks : ∀ r', (s.append r t (.run p)).talks r' = s.talks r' := by
    intro r'
    have happend := @talks_append s (s.append r t (.run p)) [⟨r, t, .run p⟩] [r'] rfl rfl
      (by simpa using .inl hnone) r'
    rw [Bool.eq_iff_iff]
    refine ⟨fun htrue => ?_, happend.1⟩
    rcases happend.2 htrue with hold | hnot
    · exact hold
    · exact absurd (List.mem_singleton_self r') hnot
  have hanswers : ∀ r', (s.append r t (.run p)).answers r' = s.answers r' := by
    intro r'
    unfold answers ApiState.append
    rw [List.countP_append, List.countP_singleton]
    simp [isAnswer]
  refine ⟨fun r' hr' => (h.cleaned r' hr').append rfl, fun r' t' hr' => (h.schedulers r' t' hr').append rfl,
    fun task htask r' hr' => (h.tasks task htask r' hr').append rfl, ?_, ?_, ?_, ?_⟩
  · intro r' hr'
    rw [hanswers]
    exact h.fresh r' hr'
  · intro r' hr'
    rw [htalks] at hr'
    rw [hanswers]
    exact h.once r' hr'
  · intro r' hr'
    rw [htalks] at hr'
    rw [hanswers]
    exact h.silent r' hr'
  · intro task htask m hm
    obtain ⟨hrole, row, hrow, hrest⟩ := h.named task htask m hm
    exact ⟨hrole, row, List.mem_append_left _ hrow, hrest⟩

/-- **The first clean-up of a run, or one of a run without a conversation.** -/
theorem Once.cleanup (h : Once s) {r : String} (hb : s.Begun r) (hfirst : s.cleansFirst r = true) :
    Once (s.cleanup t r) := by
  have hpending : ∀ r', (s.cleanup t r).pending r' = s.pending r' + if r = r' then 1 else 0 := by
    intro r'
    unfold pending ApiState.cleanup
    rw [List.countP_append, List.countP_singleton]
    simp [isPending]
  have hmem : ∀ {task : ApiTask}, task ∈ (s.cleanup t r).tasks →
      task ∈ s.tasks ∨ task = ⟨t, .answering r⟩ := by
    intro task htask
    rcases List.mem_append.mp htask with hold | hnew
    · exact .inl hold
    · exact .inr (List.mem_singleton.mp hnew)
  refine ⟨?_, h.schedulers, ?_, ?_, ?_, ?_, ?_⟩
  · intro r' hr'
    rcases List.mem_append.mp hr' with hold | hnew
    · exact h.cleaned r' hold
    · rw [List.mem_singleton.mp hnew]
      exact hb
  · intro task htask r' hfol
    rcases hmem htask with hold | rfl
    · exact h.tasks task hold r' hfol
    · cases hfol
  · intro r' hfresh
    have hnot : r' ∉ s.cleaned ∧ r' ≠ r := by simpa [ApiState.cleanup] using hfresh
    rw [hpending, if_neg (Ne.symm hnot.2)]
    exact h.fresh r' hnot.1
  · intro r' htalks
    have hone := h.once r' htalks
    rw [hpending]
    show s.pending r' + (if r = r' then 1 else 0) + s.answers r' ≤ 1
    split_ifs with hr
    · subst hr
      have hnot : r ∉ s.cleaned := by
        have htalks' : s.talks r = true := htalks
        simpa [cleansFirst, htalks'] using hfirst
      have hzero := h.fresh r hnot
      omega
    · omega
  · intro r' hsilent
    obtain ⟨hans, hrep⟩ := h.silent r' hsilent
    refine ⟨hans, ?_⟩
    intro task htask
    rcases hmem htask with hold | rfl
    · exact hrep task hold
    · rfl
  · intro task htask m hjob
    rcases hmem htask with hold | rfl
    · exact h.named task hold m hjob
    · cases hjob

/-- A new conversation is not one that a run has. -/
theorem Once.create (h : Once s) {c : String} (hc : s.unnamed c = true) :
    Once { s with conversations := s.conversations ++ [⟨c, t, 0⟩] } := by
  unfold unnamed at hc
  rw [Bool.and_eq_true, Bool.and_eq_true, List.all_eq_true, List.all_eq_true, List.all_eq_true] at hc
  obtain ⟨⟨_, hrows⟩, _⟩ := hc
  have htalks : ∀ r, talks { s with conversations := s.conversations ++ [⟨c, t, 0⟩] } r = s.talks r := by
    intro r
    rw [Bool.eq_iff_iff, talks_iff, talks_iff]
    refine ⟨?_, ?_⟩
    · rintro ⟨row, hrow, hr, chat, hchat, hname⟩
      rcases List.mem_append.mp hchat with hold | hnew
      · exact ⟨row, hrow, hr, chat, hold, hname⟩
      · rw [List.mem_singleton.mp hnew] at hname
        have hne := hrows row hrow
        simp [hname] at hne
    · rintro ⟨row, hrow, hr, chat, hchat, hname⟩
      exact ⟨row, hrow, hr, chat, List.mem_append_left _ hchat, hname⟩
  refine ⟨h.cleaned, h.schedulers, h.tasks, h.fresh, ?_, ?_, h.named⟩
  · intro r hr
    rw [htalks] at hr
    exact h.once r hr
  · intro r hr
    rw [htalks] at hr
    exact h.silent r hr

/-- After the start of a run comes the message of the user, if anything. -/
theorem afterStart_quiet (t : String) (q : NewRun) :
    (∀ r, isPending r ⟨t, afterStart q⟩ = false) ∧ (∀ r, replies r (afterStart q) = false) ∧
      (∀ r, followsStart r (afterStart q) = false) ∧ ∀ m, afterStart q ≠ .finding m := by
  unfold afterStart
  split
  · exact ⟨fun _ => rfl, fun _ => rfl, fun _ => rfl, by simp⟩
  · exact ⟨fun _ => rfl, fun _ => rfl, fun _ => rfl, by simp⟩

theorem some_of_nonEmpty {o : Option String} {c : String} (h : nonEmpty o = some c) : o = some c := by
  unfold nonEmpty at h
  split at h
  · cases h
  · cases h
  · exact h

theorem begun_of_getEvents {r : String} (h : (s.getEvents t r).isEmpty = false) : s.Begun r := by
  unfold getEvents at h
  rw [List.isEmpty_eq_false_iff_exists_mem] at h
  obtain ⟨p, hp⟩ := h
  obtain ⟨row, hrow, -⟩ := List.mem_map.mp hp
  rw [List.mem_filter, Bool.and_eq_true, decide_eq_true_eq] at hrow
  exact ⟨row, hrow.1, hrow.2.1⟩

section step
variable [Py] {strEpisode : Episode → String} {m : ApiMove}

/-- The message is the assistant's, for a conversation that the run names. -/
theorem assistantMessage_some {r : String} {m : ConversationMessage}
    (h : s.assistantMessage strEpisode t r = some m) : m.role = .assistant ∧ m.runId = r ∧
      ∃ row ∈ s.rows, row.runId = m.runId ∧ row.conversation = some m.conversationId := by
  unfold assistantMessage at h
  split at h
  · cases h
  next st hst =>
    obtain ⟨c, hc, rfl⟩ := Option.map_eq_some_iff.mp h
    refine ⟨rfl, rfl, ?_⟩
    have hconv : st.conversationId = some c := some_of_nonEmpty hc
    obtain ⟨p, hp, hname⟩ := runStarted_of_foldLog hst hconv
    obtain ⟨row, hrow, hpayload⟩ := List.mem_map.mp hp
    rw [List.mem_filter, Bool.and_eq_true, decide_eq_true_eq] at hrow
    refine ⟨row, hrow.1, hrow.2.1, ?_⟩
    obtain ⟨rid, tid, event⟩ := row
    cases event with
    | run q =>
        obtain rfl : q = .runStarted p := hpayload
        show nonEmpty p.conversationId = some c
        rw [hname]
        rw [hconv] at hc
        exact hc
    | message q => cases hpayload

theorem Once.answering (h : Once s) {i : ℕ} {r : String} (hi : s.tasks[i]? = some ⟨t, .answering r⟩) :
    Once { s with tasks := s.tasks.set i ⟨t, afterFold (s.assistantMessage strEpisode t r)⟩ } := by
  cases hm : s.assistantMessage strEpisode t r with
  | none =>
      exact h.goto hi (by simp [afterFold, followsStart]) (by simp [afterFold, isPending])
        (by simp [afterFold, replies]) (by simp [afterFold])
  | some m =>
      obtain ⟨hrole, hrun, hrow⟩ := assistantMessage_some hm
      refine h.goto hi (by simp [afterFold, followsStart]) ?_ (by simp [afterFold, replies]) ?_
      · intro r' hr'
        simp only [afterFold, isPending, Bool.and_eq_true, decide_eq_true_eq] at hr' ⊢
        rw [← hrun]
        exact hr'.2
      · intro m' hm'
        obtain rfl : m = m' := by simpa [afterFold] using hm'
        exact ⟨hrole, hrow⟩

omit [Py] in
/-- A message is posted only to a conversation that the run has. -/
theorem Once.finding (h : Once s) {i : ℕ} {m : ConversationMessage}
    (hi : s.tasks[i]? = some ⟨t, .finding m⟩) :
    Once { s with tasks := s.tasks.set i ⟨t, afterFind m (s.getConversation t m.conversationId)⟩ } := by
  obtain ⟨_, row, hrow, hrun, hname⟩ := h.named _ (List.mem_of_getElem? hi) m rfl
  cases hfound : s.getConversation t m.conversationId with
  | none =>
      exact h.goto hi (by simp [afterFind, followsStart]) (by simp [afterFind, isPending])
        (by simp [afterFind, replies]) (by simp [afterFind])
  | some chat =>
      refine h.goto hi (by simp [afterFind, followsStart]) (fun r hr => hr) ?_ (by simp [afterFind])
      intro r hsilent
      have htalks : s.talks m.runId = true := by
        have hfind := (Option.filter_eq_some_iff.mp hfound).1
        have hid : chat.conversationId = m.conversationId := by simpa using List.find?_some hfind
        rw [talks_iff]
        refine ⟨row, hrow, hrun, chat, List.mem_of_find?_eq_some hfind, ?_⟩
        rw [hid]
        exact hname
      have hne : m.runId ≠ r := by
        rintro rfl
        rw [hsilent] at htalks
        cases htalks
      simp [afterFind, replies, hne]

omit [Py] in
/-- The message of a task becomes a row. -/
theorem Once.posting (h : Once s) {i : ℕ} {m : ConversationMessage}
    (hi : s.tasks[i]? = some ⟨t, .posting m⟩) :
    Once { s.append m.conversationId t (.message m) with
      tasks := (s.append m.conversationId t (.message m)).tasks.set i ⟨t, .counting m.conversationId⟩ } := by
  refine h.of_task [⟨m.conversationId, t, .message m⟩] hi rfl rfl rfl rfl ?_ (by simp [followsStart]) ?_ ?_ ?_
    (by simp)
  · intro r t hr
    exact (h.schedulers r t hr).append rfl
  · intro row hrow
    rw [List.mem_singleton.mp hrow]
    exact .inl rfl
  · intro r
    have hsame : isAnswer r ⟨m.conversationId, t, .message m⟩ = isPending r ⟨t, .posting m⟩ := rfl
    rw [List.countP_singleton, hsame]
    cases isPending r ⟨t, .posting m⟩ <;> simp [isPending]
  · intro r hr
    have hnot := (h.silent r hr).2 _ (List.mem_of_getElem? hi)
    rw [List.countP_singleton]
    simp only [replies] at hnot
    simp [isAnswer, hnot, replies]

/-- The run is created, under an id that no row has. -/
theorem Once.creating (h : Once s) {i : ℕ} {q : NewRun} {job' : ApiJob} {launch : Launch}
    (hi : s.tasks[i]? = some ⟨t, .creating q⟩)
    (hs : s.advance strEpisode t launch (.creating q) = some (s', job')) :
    Once { s' with tasks := s'.tasks.set i ⟨t, job'⟩ } := by
  simp only [ApiState.advance] at hs
  split_ifs at hs with hused
  have hfresh : q.runId ∉ s.cleaned := by
    intro hin
    obtain ⟨row, hrow, hr⟩ := h.cleaned _ hin
    rw [List.any_eq_true] at hused
    exact hused ⟨row, hrow, by simpa using hr⟩
  have hbegun : ∀ {u : ApiState}, u.rows = s.rows ++ [⟨q.runId, t, .run (.runStarted q.started)⟩] →
      ∀ r, followsStart r (.starting q) = true → u.Begun r := by
    intro u hrows r hr
    obtain rfl : q.runId = r := by simpa [followsStart] using hr
    exact ⟨_, hrows ▸ List.mem_append_right _ (List.mem_singleton_self _), rfl⟩
  split at hs
  · split_ifs at hs <;> obtain ⟨rfl, rfl⟩ := Prod.mk.inj (Option.some.inj hs)
    · exact h.goto hi (by simp [followsStart]) (by simp [isPending]) (by simp [replies]) (by simp)
    · exact h.wrote _ _ hi rfl rfl rfl rfl rfl (hbegun rfl) (.inr hfresh) (fun _ => rfl) (fun _ => rfl)
        (by simp)
  · obtain ⟨rfl, rfl⟩ := Prod.mk.inj (Option.some.inj hs)
    exact h.wrote _ _ hi rfl rfl rfl rfl rfl (hbegun rfl) (.inr hfresh) (fun _ => rfl) (fun _ => rfl)
      (by simp)

/-- Its scheduler is started, or fails to start. -/
theorem Once.starting (h : Once s) {i : ℕ} {q : NewRun} {job' : ApiJob} {launch : Launch}
    (hi : s.tasks[i]? = some ⟨t, .starting q⟩)
    (hs : s.advance strEpisode t launch (.starting q) = some (s', job')) :
    Once { s' with tasks := s'.tasks.set i ⟨t, job'⟩ } := by
  have hb : s.Begun q.runId := h.tasks _ (List.mem_of_getElem? hi) _ (by simp [followsStart])
  cases launch with
  | unconfigured =>
      obtain ⟨rfl, rfl⟩ := Prod.mk.inj (Option.some.inj hs)
      obtain ⟨hp, hr, hf, hm⟩ := afterStart_quiet t q
      refine h.goto hi ?_ ?_ (fun r _ => hr r) fun m hm' => absurd hm' (hm m)
      · intro r hr'
        rw [hf] at hr'
        cases hr'
      · intro r hr'
        rw [hp] at hr'
        cases hr'
  | running =>
      obtain ⟨rfl, rfl⟩ := Prod.mk.inj (Option.some.inj hs)
      obtain ⟨hp, hr, hf, hm⟩ := afterStart_quiet t q
      refine h.of_task [] hi rfl (by simp) rfl rfl ?_ ?_ (by simp) ?_ (fun r _ => ⟨rfl, hr r⟩)
        fun m hm' => absurd hm' (hm m)
      · intro r t' hr'
        rcases List.mem_append.mp hr' with hold | hnew
        · exact h.schedulers r t' hold
        · obtain ⟨rfl, rfl⟩ := Prod.mk.inj (List.mem_singleton.mp hnew)
          exact hb
      · intro r hr'
        rw [hf] at hr'
        cases hr'
      · intro r
        rw [hp]
        simp
  | failed error =>
      obtain ⟨rfl, rfl⟩ := Prod.mk.inj (Option.some.inj hs)
      exact h.wrote _ _ hi rfl rfl rfl rfl rfl (by simp [followsStart]) (.inl rfl) (fun _ => rfl)
        (fun _ => rfl) (by simp)

/-- A step of a task. -/
theorem Once.advance (h : Once s) {i : ℕ} {job job' : ApiJob} {launch : Launch}
    (hi : s.tasks[i]? = some ⟨t, job⟩) (hfirst : ∀ r, job = .cleaning r → s.cleansFirst r = true)
    (hs : s.advance strEpisode t launch job = some (s', job')) :
    Once { s' with tasks := s'.tasks.set i ⟨t, job'⟩ } := by
  have hmem := List.mem_of_getElem? hi
  cases job with
  | opening q =>
      simp only [ApiState.advance] at hs
      split_ifs at hs <;> obtain ⟨rfl, rfl⟩ := Prod.mk.inj (Option.some.inj hs)
      all_goals
        exact h.goto hi (by simp [followsStart]) (by simp [isPending]) (by simp [replies]) (by simp)
  | creating q => exact h.creating hi hs
  | starting q => exact h.starting hi hs
  | posting m =>
      obtain ⟨rfl, rfl⟩ := Prod.mk.inj (Option.some.inj hs)
      exact h.posting hi
  | counting c =>
      obtain ⟨rfl, rfl⟩ := Prod.mk.inj (Option.some.inj hs)
      split_ifs
      all_goals
        exact h.goto hi (by simp [followsStart]) (by simp [isPending]) (by simp [replies]) (by simp)
  | updating c =>
      obtain ⟨rfl, rfl⟩ := Prod.mk.inj (Option.some.inj hs)
      exact h.of_task [] hi (increment_ids c) (by simp [ApiState.increment]) rfl rfl h.schedulers
        (by simp [followsStart]) (by simp) (by simp [isPending]) (by simp [replies]) (by simp)
  | deleting r =>
      obtain ⟨rfl, rfl⟩ := Prod.mk.inj (Option.some.inj hs)
      split_ifs with hempty
      · exact h.goto hi (by simp [followsStart]) (by simp [isPending]) (by simp [replies]) (by simp)
      · refine h.goto hi ?_ (by simp [isPending]) (by simp [replies]) (by simp)
        intro r' hr'
        obtain rfl : r = r' := by simpa [followsStart] using hr'
        exact begun_of_getEvents (by simpa using hempty)
  | failing r n =>
      obtain ⟨rfl, rfl⟩ := Prod.mk.inj (Option.some.inj hs)
      refine h.wrote _ _ hi rfl rfl rfl rfl rfl ?_ (.inl rfl) (fun _ => rfl) (fun _ => rfl) (by simp)
      intro r' hr'
      obtain rfl : r = r' := by simpa [followsStart] using hr'
      exact (h.tasks _ hmem r (by simp [followsStart])).append rfl
  | cleaning r =>
      obtain ⟨rfl, rfl⟩ := Prod.mk.inj (Option.some.inj hs)
      have hb : s.Begun r := h.tasks _ hmem r (by simp [followsStart])
      have hclean : Once (s.cleanup t r) := h.cleanup hb (hfirst r rfl)
      have hi' : (s.cleanup t r).tasks[i]? = some ⟨t, .cleaning r⟩ := by
        unfold ApiState.cleanup
        rw [List.getElem?_append_left (List.getElem?_eq_some_iff.mp hi).1]
        exact hi
      exact hclean.goto hi' (by simp [followsStart]) (by simp [isPending]) (by simp [replies]) (by simp)
  | answering r =>
      obtain ⟨rfl, rfl⟩ := Prod.mk.inj (Option.some.inj hs)
      exact h.answering hi
  | finding m =>
      obtain ⟨rfl, rfl⟩ := Prod.mk.inj (Option.some.inj hs)
      exact h.finding hi
  | done => cases hs

/-- **A step that cleans a run with a conversation up only once.** -/
theorem Once.step (h : Once s) (hm : s.tidy m = true) (hs : apiStep strEpisode s m = some s') :
    Once s' := by
  cases m with
  | createConversation t c =>
      simp only [apiStep] at hs
      split_ifs at hs with hc
      obtain rfl := Option.some.inj hs
      exact h.create hc
  | createRun t q =>
      obtain rfl := Option.some.inj hs
      exact h.spawn (fun _ => rfl) (fun _ => rfl) (fun _ => rfl) (by simp)
  | sendMessage t q =>
      obtain rfl := Option.some.inj hs
      exact h.spawn (fun _ => rfl) (fun _ => rfl) (fun _ => rfl) (by simp)
  | deleteRun t r =>
      obtain rfl := Option.some.inj hs
      exact h.spawn (fun _ => rfl) (fun _ => rfl) (fun _ => rfl) (by simp)
  | advance i launch =>
      simp only [apiStep] at hs
      split at hs
      · cases hs
      next task hi =>
        obtain ⟨out, hout, rfl⟩ := Option.map_eq_some_iff.mp hs
        refine h.advance hi ?_ hout
        intro r hr
        obtain ⟨t, job⟩ := task
        obtain rfl : job = .cleaning r := hr
        simpa only [tidy, hi] using hm
  | write r p =>
      simp only [apiStep] at hs
      split at hs
      · cases hs
      next t hfind =>
        split_ifs at hs with hp
        obtain rfl := Option.some.inj hs
        exact h.write (by simpa using hp)
  | finish r =>
      simp only [apiStep] at hs
      split at hs
      · cases hs
      next r' t hfind =>
        obtain rfl := Option.some.inj hs
        have hr : r' = r := by simpa using List.find?_some hfind
        have hb : s.Begun r := by
          rw [← hr]
          exact h.schedulers _ t (List.mem_of_find?_eq_some hfind)
        have hrest : Once { s with schedulers := s.schedulers.filter (·.1 ≠ r) } :=
          ⟨h.cleaned, fun r' t' hr' => h.schedulers r' t' (List.mem_filter.mp hr').1, h.tasks, h.fresh, h.once,
            h.silent, h.named⟩
        exact hrest.cleanup hb hm

omit [Py] in
theorem answers_le_one (h : Once s) (r : String) : s.answers r ≤ 1 := by
  cases htalks : s.talks r with
  | true =>
      have hone := h.once r htalks
      omega
  | false =>
      rw [(h.silent r htalks).1]
      exact Nat.zero_le 1

/-- **At most one assistant message per run, and right counts.**  If every run that has a conversation
is cleaned up once, and no run is made for the conversation of another tenant, then a run has at most
one assistant message, the count of a conversation lags behind its messages by the updates that are to
come, and it is right when nothing is in progress. -/
theorem assistant_message_once
    (h : Lib.ReachesVia (apiStep strEpisode) (fun s m => s.tidy m = true) {} s) :
    (∀ r, s.answers r ≤ 1) ∧
    (∀ chat ∈ s.conversations,
      chat.messageCount + s.uncounted chat.conversationId = s.messages chat.conversationId) ∧
    (s.quiet = true → ∀ chat ∈ s.conversations, chat.messageCount = s.messages chat.conversationId) := by
  have honce : Once s := by
    refine h.invariant ⟨?_, ?_, ?_, ?_, ?_, ?_, ?_⟩ fun _ _ _ _ hm hi hs => hi.step hm hs
    all_goals simp [pending, answers, talks]
  have haccounts : Accounts s := by
    refine h.invariant ⟨?_, ?_, ?_⟩ fun _ _ _ _ hm hi hs => hi.step hm hs
    all_goals simp
  refine ⟨answers_le_one honce, haccounts.account, ?_⟩
  intro hquiet chat hchat
  have hzero : s.uncounted chat.conversationId = 0 := by
    unfold uncounted
    rw [List.countP_eq_zero]
    intro task htask hu
    have hdone := List.all_eq_true.mp hquiet task htask
    obtain ⟨t, job⟩ := task
    cases job with
    | done => cases hu
    | _ => cases hdone
  have haccount := haccounts.account chat hchat
  omega

end step

end ApiState

/-! ### A run that is deleted when it has ended -/

section scenario
attribute [local instance] asciiPy

/-- A message for a conversation. -/
def hello : NewRun :=
  { runId := "r", started := { intent := "hello", conversationId := some "conv_a" } }

/-- A task takes some steps. -/
def works (i n : ℕ) : List ApiMove := List.replicate n (.advance i .running)

/-- Make a run in a conversation and let it end. -/
def answeredRun : List ApiMove :=
  [ApiMove.createConversation "default" "conv_a", .sendMessage "default" hello] ++ works 0 6 ++
    [.write "r" (.runCompleted { resultSummary := "hi" }), .finish "r"] ++ works 1 5

/-- Two assistant messages of one run. -/
def answeredTwice (s : ApiState) : Bool := s.answers "r" = 2

/-- Deleting the run writes its answer again. -/
theorem deleted_run_answers_twice : ∃ s, Lib.Reaches (apiStep fun _ => "") {} s ∧ ¬s.answers "r" ≤ 1 := by
  obtain ⟨s, hs, htwo⟩ := Lib.exists_reaches_of_run (apiStep fun _ => "")
    (answeredRun ++ .deleteRun "default" "r" :: works 2 3 ++ works 3 3) {} answeredTwice (by decide +kernel)
  have heq : s.answers "r" = 2 := of_decide_eq_true htwo
  exact ⟨s, hs, by omega⟩

/-- Quiet, with one assistant message. -/
def answeredQuietly (s : ApiState) : Bool := s.quiet && s.answers "r" = 1 && s.conversations ≠ []

/-- A run that ends and is not deleted has one answer, and both messages are counted. -/
theorem answered_run_counted : ∃ s,
    Lib.ReachesVia (apiStep fun _ => "") (fun s m => s.tidy m = true) {} s ∧ s.answers "r" = 1 ∧
      s.conversations ≠ [] ∧ ∀ chat ∈ s.conversations, chat.messageCount = s.messages chat.conversationId := by
  obtain ⟨s, hs, hp⟩ := Lib.exists_reachesVia_of_run (apiStep fun _ => "") ApiState.tidy answeredRun {}
    answeredQuietly (by decide +kernel)
  simp only [answeredQuietly, Bool.and_eq_true, decide_eq_true_eq] at hp
  exact ⟨s, hs, hp.1.2, hp.2, (ApiState.assistant_message_once hs).2.2 hp.1.1⟩

end scenario
end JAgent
