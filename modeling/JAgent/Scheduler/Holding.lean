import JAgent.Scheduler.Control

/-! # What the scheduler starts while the run is paused

A pause is only an event.  The loop of a run reads it at one place: at the head of a plan cycle, or
at the head of an iteration of the serial loop.  Everything between two such reads goes on: the
planner's answer is recorded, layer after layer is started, a revision opens the next round, the
tool calls of an iteration follow each other.

`Hold` refines the loop of `JAgent.Scheduler.Control`: where that one is `working`, `Work` says at
what.  `Held` is the property of the log; it holds in every run in which the operator's pause lands
where the loop is about to read (`pausesAtRead`), and a landing elsewhere breaks it. -/

namespace JAgent

/-- The two schedulers. -/
inductive LoopMode where
  | planning | serial
deriving DecidableEq

/-- What the loop is doing while it is `working`. -/
inductive Work where
  /-- About to read the log, at the head of a cycle or iteration. -/
  | reading
  /-- Resolving contracts and classifying the intent, before the first cycle. -/
  | classifying
  /-- Waiting for the planner. -/
  | planning
  /-- In `_execute_plan`, between two layers or two rounds. -/
  | layering
  /-- Writing the Step started events of a layer. -/
  | starting (todo started : List String)
  /-- The steps of a layer are running. -/
  | gathering (running : List String)
  /-- Waiting for the answer that ends the run. -/
  | answering
  /-- The answer is recorded; the run is about to be completed. -/
  | completing
  /-- The serial loop has come back from `_handle_pause` and reads the log once more. -/
  | rereading
  /-- Waiting for the kernel. -/
  | thinking
  /-- The tool calls of an iteration that are still to be made. -/
  | acting (left : List String)
  /-- A tool call is under way; `called` says that Tool called is written. -/
  | calling (called : Bool) (left : List String)
deriving DecidableEq

/-- The tool call that was under way has returned. -/
def Work.afterCall : Work → Work
  | .calling _ left => .calling true left
  | work => work

/-- A run with its loop, the requests on it and the calls of the Tool Layer it has begun, each with
the length of the log at that moment. -/
structure Hold where
  ctl : Control
  work : Work
  begun : List (String × ℕ) := []

/-- What happens next. -/
inductive HoldMove where
  | classified (needsTools : Bool)
  | read
  /-- The planner returns: no plan, a plan without steps, or a plan. -/
  | planned (hasSteps : Option Bool) (thought : String)
  | openLayer (steps : List String)
  | start (planId toolName : String) (dependsOn : List String)
  | endStep (sid : String)
  | endLayer
  /-- The running layer or call needs a confirmation. -/
  | suspend (todo : List (String × String))
  /-- All work of the plan is done; the answer is asked for. -/
  | conclude
  | answer (thought : String)
  | complete (p : RunCompletedPayload)
  | fail (error : String)
  /-- The kernel returns with the tools to call. -/
  | thought (text : String) (tools : List String)
  | beginCall (toolCallId : String)
  /-- Tool called is written. -/
  | called (p : ToolCalledPayload)
  | endCall
  /-- All calls of the iteration are made. -/
  | iterate
  | retried (again : Bool)
  /-- The loop takes its next action while it pauses, confirms or fails. -/
  | tick
  | timeout
  | request (kind : RequestKind)
  | act (i : ℕ)
  | note (p : Payload)

/-- The events that start something new. -/
def isStart : Payload → Bool
  | .agentThought .. | .toolCalled _ | .stepStarted .. => true
  | _ => false

namespace Hold
variable (h : Hold)

/-- Where the loop is in the refined sense: `none` while it pauses, confirms, fails or has ended. -/
def at? : Option Work :=
  match h.ctl.loop with
  | .working => some h.work
  | _ => none

def goto (work : Work) : Hold := { h with work := work }

def emit (p : Payload) : Hold := { h with ctl := h.ctl.emit p }

/-- The run fails; `_fail` waits for the lock. -/
def failWith (error : String) : Hold := { h with ctl := { h.ctl with loop := .failing error } }

/-- The serial loop calls a tool, for the first time or after a confirmation. -/
def acts : Bool :=
  match h.ctl.loop with
  | .working | .retrying .. => true
  | _ => false

/-- The step of a tool call that is under way. -/
def isRunning (sid : String) : Bool :=
  match h.ctl.loop, h.work with
  | .working, .gathering running => running.contains sid
  | .retrying ((sid', _) :: _) _, _ => sid = sid'
  | _, _ => false

end Hold

/-- The loop reads the log at the head of a cycle or iteration. -/
def Hold.read (mode : LoopMode) (h : Hold) : Hold :=
  if (statusOf h.ctl.log).isTerminal then { h with ctl := h.ctl.stop }
  else if statusOf h.ctl.log = .paused then
    { h with ctl := { h.ctl with loop := .detected }
             work := match mode with
               | .planning => .reading
               | .serial => .rereading }
  else h.goto (match mode with
    | .planning => .planning
    | .serial => .thinking)

/-- One move of the planning loop that is not shared with the serial one. -/
def planningStep (h : Hold) : HoldMove → Option Hold
  | .classified needsTools => match h.at? with
    | some .classifying => some (h.goto (if needsTools then .reading else .answering))
    | _ => none
  | .planned none _ => match h.at? with
    | some .planning => some (h.failWith "Planner failed to produce a valid plan")
    | _ => none
  | .planned (some hasSteps) thought => match h.at? with
    | some .planning => some ((h.emit (.agentThought thought (some "plan") none)).goto
        (if hasSteps then .layering else .answering))
    | _ => none
  | .openLayer steps => match h.at? with
    | some .layering => some (h.goto (.starting steps []))
    | _ => none
  | .start planId toolName dependsOn => match h.at? with
    | some (.starting (sid :: todo) started) =>
        some ((h.emit (.stepStarted planId sid toolName dependsOn)).goto (.starting todo (started ++ [sid])))
    | some (.starting [] started) => some (h.goto (.gathering started))
    | _ => none
  | .endStep sid => match h.at? with
    | some (.gathering running) => some (h.goto (.gathering (running.erase sid)))
    | _ => none
  | .endLayer => match h.at? with
    | some (.gathering []) => some (h.goto .layering)
    | _ => none
  | .suspend todo => match h.at? with
    | some (.gathering []) =>
        some { h with ctl := { h.ctl with loop := .choosing todo 0 }, work := .layering }
    | _ => none
  | .called p => match p.stepId with
    | some sid => if h.isRunning sid then some (h.emit (.toolCalled p)) else none
    | none => none
  | .conclude => match h.at? with
    | some .layering => some (h.goto .answering)
    | _ => none
  | .answer thought => match h.at? with
    | some .answering => some ((h.emit (.agentThought ("ANSWER: " ++ thought) none none)).goto .completing)
    | _ => none
  | .complete p => match h.at? with
    | some .answering | some .completing =>
        if h.ctl.holder.isNone then some { h with ctl := (h.ctl.emit (.runCompleted p)).stop } else none
    | _ => none
  | _ => none

/-- One move of the serial loop that is not shared with the planning one. -/
def serialStep (h : Hold) : HoldMove → Option Hold
  | .thought text tools => match h.at? with
    | some .thinking => some ((h.emit (.agentThought text tools.head? none)).goto (.acting tools))
    | _ => none
  | .beginCall id => match h.ctl.loop, h.work with
    | .working, .acting (_ :: left) =>
        some { h with work := .calling false left, begun := h.begun ++ [(id, h.ctl.log.length)] }
    | .retrying .., .calling _ left =>
        some { h with work := .calling false left, begun := h.begun ++ [(id, h.ctl.log.length)] }
    | _, _ => none
  | .called p => match h.work with
    | .calling false left =>
        if h.acts && h.begun.getLast?.any (fun b => b.1 = p.toolCallId) then
          some ((h.emit (.toolCalled p)).goto (.calling true left))
        else none
    | _ => none
  | .endCall => match h.at? with
    | some (.calling _ left) => some (h.goto (.acting left))
    | _ => none
  | .suspend todo => match h.at? with
    | some (.calling _ left) =>
        some { h with ctl := { h.ctl with loop := .choosing todo 0 }, work := .calling true left }
    | _ => none
  -- the serial loop ends the run without the lock
  | .complete p => match h.at? with
    | some (.acting _) => some { h with ctl := (h.ctl.emit (.runCompleted p)).stop }
    | _ => none
  | .iterate => match h.at? with
    | some (.acting []) => some (h.goto .reading)
    | _ => none
  | _ => none

/-- One move of the loop on its own. -/
def modeStep (mode : LoopMode) (h : Hold) (m : HoldMove) : Option Hold :=
  match mode with
  | .planning => planningStep h m
  | .serial => serialStep h m

/-- One move. -/
def holdStep (mode : LoopMode) (maxConfirmRetries : ℕ) (h : Hold) : HoldMove → Option Hold
  | .read => match h.at? with
    | some .reading => some (h.read mode)
    | some .rereading => some (if (statusOf h.ctl.log).isTerminal then { h with ctl := h.ctl.stop }
        else h.goto .thinking)
    | _ => none
  | .fail error => match h.ctl.loop with
    | .working => some (h.failWith error)
    | _ => none
  | .tick => (h.ctl.tick maxConfirmRetries).map fun ctl => { h with ctl := ctl }
  | .retried again => (controlStep maxConfirmRetries h.ctl (.retried again)).map fun ctl =>
      { h with ctl := ctl, work := h.work.afterCall }
  | .timeout => (controlStep maxConfirmRetries h.ctl .timeout).map fun ctl => { h with ctl := ctl }
  | .request kind => (controlStep maxConfirmRetries h.ctl (.request kind)).map fun ctl =>
      { h with ctl := ctl }
  | .act i => (controlStep maxConfirmRetries h.ctl (.act i)).map fun ctl => { h with ctl := ctl }
  | .note p => if isNeutral p && !isStart p then some (h.emit p) else none
  | m => modeStep mode h m

/-- A run that has just been started. -/
def Hold.start (mode : LoopMode) (p : RunStartedPayload) : Hold :=
  { ctl := .start p, work := match mode with
      | .planning => .classifying
      | .serial => .reading }

/-! ### The property -/

/-- Whether the operator's pause stands after an event. -/
def pauseAfter (paused : Bool) : Payload → Bool
  | .runPaused reason => reason = "user_requested" || paused
  | .runResumed _ => false
  | _ => paused

/-- The operator has paused the run and no RunResumed has followed. -/
def userPaused (log : List Payload) : Bool := log.foldl pauseAfter false

/-- An event that may stand under a pause that came after `before`: it starts nothing, or it is the
Tool called event of a step or call that was started before. -/
def Excused (begun : List (String × ℕ)) (before : List Payload) : Payload → Prop
  | .agentThought .. | .stepStarted .. => False
  | .toolCalled p =>
      (∃ planId sid toolName deps, .stepStarted planId sid toolName deps ∈ before ∧ p.stepId = some sid) ∨
        ∃ n, (p.toolCallId, n) ∈ begun ∧ n ≤ before.length
  | _ => True

/-- **The pause holds the run**: after the operator's pause and until the next RunResumed nothing new
is started. -/
def Held (h : Hold) : Prop :=
  ∀ before between e, before ++ .runPaused "user_requested" :: between ++ [e] <+: h.ctl.log →
    (∀ n, .runResumed n ∉ between) → Excused h.begun before e

/-- The loop reads the log before it starts anything, or is about to end the run. -/
def Hold.readsNext (mode : LoopMode) (h : Hold) : Bool :=
  match h.ctl.loop with
  | .working => h.work = .reading
  | .detected => mode = .serial || h.work = .reading
  | .pausing => mode = .planning && h.work = .reading
  | .failing _ | .ended => true
  | _ => false

/-- The operator's pause lands where the loop reads next, and no wait of the serial loop times out
while it stands. -/
def pausesAtRead (mode : LoopMode) (h : Hold) : HoldMove → Bool
  | .act i => match h.ctl.requests[i]? with
    | some ⟨.pause, .appending⟩ => h.readsNext mode
    | _ => true
  | .timeout => mode = .planning || !userPaused h.ctl.log
  | _ => true

section log
variable {log before between : List Payload}

theorem userPaused_append (log : List Payload) (p : Payload) :
    userPaused (log ++ [p]) = pauseAfter (userPaused log) p := by
  unfold userPaused
  rw [List.foldl_append]
  rfl

/-- The operator's pause stands until the next RunResumed. -/
theorem userPaused_of_between (hb : ∀ n, .runResumed n ∉ between) :
    userPaused (before ++ .runPaused "user_requested" :: between) = true := by
  induction between using List.reverseRecOn with
  | nil => rw [userPaused_append]; rfl
  | append_singleton between p ih =>
      have hp : ∀ n, p ≠ .runResumed n := by
        rintro n rfl
        exact hb n (by simp)
      have hrest := ih fun n hn => hb n (List.mem_append_left _ hn)
      rw [← List.cons_append, ← List.append_assoc, userPaused_append, hrest]
      cases p with
      | runResumed n => exact absurd rfl (hp n)
      | runPaused reason => simp [pauseAfter]
      | _ => rfl

end log

/-! ### The lock -/

/-- The request is inside `_resume_lock`. -/
def RequestPc.critical : RequestPc → Bool
  | .checking | .appending | .signalling => true
  | _ => false

/-- A request inside the lock is its holder. -/
def Locked (s : Control) : Prop :=
  ∀ i kind pc, s.requests[i]? = some ⟨kind, pc⟩ → pc.critical = true → s.holder = some i

section locked
variable {s t : Control} {i : ℕ} {kind : RequestKind} {pc pc' : RequestPc}

theorem Locked.congr (h : Locked s) (hr : t.requests = s.requests) (hh : t.holder = s.holder) :
    Locked t := by
  intro j kind pc hj hpc
  rw [hh]
  rw [hr] at hj
  exact h j kind pc hj hpc

theorem set_cases {l : List Request} {r r' : Request} {j : ℕ} (h : (l.set i r)[j]? = some r') :
    (i = j ∧ r = r') ∨ (i ≠ j ∧ l[j]? = some r') := by
  rw [List.getElem?_set] at h
  by_cases hij : i = j
  · rw [if_pos hij] at h
    split_ifs at h
    exact .inl ⟨hij, Option.some.inj h⟩
  · rw [if_neg hij] at h
    exact .inr ⟨hij, h⟩

/-- A request goes on inside or outside the lock. -/
theorem Locked.set (h : Locked s) (hr : t.requests = s.requests.set i ⟨kind, pc'⟩)
    (hh : t.holder = s.holder) (hi : pc'.critical = true → s.holder = some i) : Locked t := by
  intro j kind' pc'' hj hpc
  rw [hh]
  rw [hr] at hj
  rcases set_cases hj with ⟨rfl, he⟩ | ⟨_, hj⟩
  · obtain ⟨rfl, rfl⟩ := Request.mk.inj he
    exact hi hpc
  · exact h j kind' pc'' hj hpc

/-- The lock is taken. -/
theorem Locked.enter (h : Locked s) (hr : t.requests = s.requests.set i ⟨kind, pc'⟩)
    (hfree : s.holder = none) (hh : t.holder = some i) : Locked t := by
  intro j kind' pc'' hj hpc
  rw [hr] at hj
  rcases set_cases hj with ⟨rfl, _⟩ | ⟨_, hj⟩
  · exact hh
  · have hheld := h j kind' pc'' hj hpc
    rw [hfree] at hheld
    cases hheld

/-- The lock is released. -/
theorem Locked.release (h : Locked s) (hi : s.requests[i]? = some ⟨kind, pc⟩)
    (hpc : pc.critical = true) (hr : t.requests = s.requests.set i ⟨kind, .ended⟩) : Locked t := by
  intro j kind' pc'' hj hpc''
  rw [hr] at hj
  rcases set_cases hj with ⟨rfl, he⟩ | ⟨hij, hj⟩
  · obtain ⟨rfl, rfl⟩ := Request.mk.inj he
    cases hpc''
  · have hheld := h j kind' pc'' hj hpc''
    rw [h i kind pc hi hpc] at hheld
    exact absurd (Option.some.inj hheld) hij

/-- **One action of a request keeps the lock.** -/
theorem Locked.acted (h : Locked s) (hi : s.requests[i]? = some ⟨kind, pc⟩) (ha : Acted s i kind pc t) :
    Locked t := by
  cases ha with
  | refuse | accept _ _ | skip _ | record _ => exact h.set rfl rfl (by simp [RequestPc.critical])
  | enter hfree => exact h.enter rfl hfree rfl
  | proceed _ => exact h.set rfl rfl fun _ => h i _ _ hi rfl
  | reject _ => exact h.release hi rfl rfl
  | pause => exact h.release hi rfl rfl
  | resume _ => exact h.set rfl rfl fun _ => h i _ _ hi rfl
  | signal => exact h.release hi rfl rfl

end locked

/-! ### The invariant -/

/-- The loop starts nothing before it has read the log. -/
def Hold.parked (mode : LoopMode) (h : Hold) : Bool :=
  match h.ctl.loop with
  | .working => h.work = .reading
  | .detected | .pausing => mode = .serial || h.work = .reading
  | .failing _ | .ended => true
  | _ => false

/-- While the operator's pause stands, the loop is parked, the run is PAUSED until it ends, and a
waiting serial loop is not about to be woken. -/
structure HoldInv (mode : LoopMode) (h : Hold) : Prop where
  held : Held h
  locked : Locked h.ctl
  signalling : h.ctl.signalling → userPaused h.ctl.log = false
  parked : userPaused h.ctl.log = true → h.parked mode = true
  paused : userPaused h.ctl.log = true → h.ctl.loop ≠ .ended → statusOf h.ctl.log = .paused
  blocked : mode = .serial → userPaused h.ctl.log = true → h.ctl.loop = .pausing →
    h.ctl.pauseEvent = some false

section invariant
variable {mode : LoopMode} {h t : Hold}

theorem Excused.mono {begun begun' : List (String × ℕ)} {before : List Payload} {e : Payload}
    (hb : begun ⊆ begun') (h : Excused begun before e) : Excused begun' before e := by
  cases e with
  | toolCalled p =>
      rcases h with h | ⟨n, hn, hle⟩
      · exact .inl h
      · exact .inr ⟨n, hb hn, hle⟩
  | agentThought _ _ _ => exact h
  | stepStarted _ _ _ _ => exact h
  | _ => trivial

theorem Held.of_log (hh : Held h) (hlog : t.ctl.log = h.ctl.log) (hb : h.begun ⊆ t.begun) : Held t := by
  intro before between e hpre hbetween
  rw [hlog] at hpre
  exact (hh before between e hpre hbetween).mono hb

/-- An event is written that starts nothing, or while no pause stands. -/
theorem Held.append {p : Payload} (hh : Held h) (hlog : t.ctl.log = h.ctl.log ++ [p])
    (hb : h.begun ⊆ t.begun) (hp : userPaused h.ctl.log = false ∨ isStart p = false) : Held t := by
  intro before between e hpre hbetween
  rw [hlog] at hpre
  rcases List.prefix_concat_iff.mp hpre with he | hpre
  · obtain ⟨hbefore, hlast⟩ := List.append_inj' he rfl
    obtain rfl := List.singleton_inj.mp hlast
    rcases hp with hp | hp
    · rw [← hbefore, userPaused_of_between hbetween] at hp
      cases hp
    · cases e with
      | agentThought _ _ _ => cases hp
      | stepStarted _ _ _ _ => cases hp
      | toolCalled _ => cases hp
      | _ => trivial
  · exact (hh before between e hpre hbetween).mono hb

/-- Where no pause stands there is nothing more to maintain. -/
theorem HoldInv.of_free (hheld : Held t) (hlocked : Locked t.ctl) (hfree : userPaused t.ctl.log = false) :
    HoldInv mode t := by
  refine ⟨hheld, hlocked, fun _ => hfree, ?_, ?_, ?_⟩
  · intro hp
    rw [hfree] at hp
    cases hp
  · intro hp
    rw [hfree] at hp
    cases hp
  · intro _ hp
    rw [hfree] at hp
    cases hp

/-- The loop does some work of its own: it is not parked, and writes at most one event, which neither
pauses nor resumes the run. -/
structure Works (mode : LoopMode) (h t : Hold) : Prop where
  busy : h.parked mode = false
  log : t.ctl.log = h.ctl.log ∨ ∃ p, (∀ b, pauseAfter b p = b) ∧ t.ctl.log = h.ctl.log ++ [p]
  requests : t.ctl.requests = h.ctl.requests
  holder : t.ctl.holder = h.ctl.holder
  begun : h.begun ⊆ t.begun

/-- **Work is done only while no pause stands.** -/
theorem HoldInv.works (hi : HoldInv mode h) (hw : Works mode h t) : HoldInv mode t := by
  have hfree : userPaused h.ctl.log = false := by
    cases hp : userPaused h.ctl.log with
    | false => rfl
    | true =>
        have hparked := hi.parked hp
        rw [hw.busy] at hparked
        cases hparked
  have hlocked := hi.locked.congr hw.requests hw.holder
  rcases hw.log with hlog | ⟨p, hneutral, hlog⟩
  · refine .of_free (hi.held.of_log hlog hw.begun) hlocked ?_
    rw [hlog]
    exact hfree
  · refine .of_free (hi.held.append hlog hw.begun (.inl hfree)) hlocked ?_
    rw [hlog, userPaused_append, hneutral]
    exact hfree

theorem parked_of_at {w : Work} (hat : h.at? = some w) : h.parked mode = decide (w = .reading) := by
  unfold Hold.at? at hat
  split at hat
  next hl =>
    cases hat
    unfold Hold.parked
    rw [hl]
  next => cases hat

/-- Work at a place other than a read. -/
theorem Works.at {w : Work} (hat : h.at? = some w) (hw : w ≠ .reading)
    (hlog : t.ctl.log = h.ctl.log ∨ ∃ p, (∀ b, pauseAfter b p = b) ∧ t.ctl.log = h.ctl.log ++ [p])
    (hrequests : t.ctl.requests = h.ctl.requests) (hholder : t.ctl.holder = h.ctl.holder)
    (hbegun : h.begun ⊆ t.begun) : Works mode h t := by
  refine ⟨?_, hlog, hrequests, hholder, hbegun⟩
  rw [parked_of_at hat]
  exact decide_eq_false hw

theorem parked_of_isRunning {sid : String} (hr : h.isRunning sid = true) : h.parked mode = false := by
  unfold Hold.isRunning at hr
  unfold Hold.parked
  split at hr
  next running hl hwork => rw [hl, hwork]; rfl
  next hl => rw [hl]
  next => cases hr

theorem parked_of_acts {called : Bool} {left : List String} (ha : h.acts = true)
    (hwork : h.work = .calling called left) : h.parked mode = false := by
  unfold Hold.acts at ha
  unfold Hold.parked
  split at ha
  next hl => rw [hl, hwork]; rfl
  next hl => rw [hl]
  next => cases ha

/-- The loop moves on without writing anything. -/
theorem Works.silent {w : Work} (hat : h.at? = some w) (hw : w ≠ .reading) (hlog : t.ctl.log = h.ctl.log)
    (hrequests : t.ctl.requests = h.ctl.requests) (hholder : t.ctl.holder = h.ctl.holder)
    (hbegun : t.begun = h.begun) : Works mode h t :=
  .at hat hw (.inl hlog) hrequests hholder (by rw [hbegun]; exact List.Subset.refl _)

/-- The loop writes an event that neither pauses nor resumes the run. -/
theorem Works.writes {w : Work} {p : Payload} (hat : h.at? = some w) (hw : w ≠ .reading)
    (hp : ∀ b, pauseAfter b p = b) (hlog : t.ctl.log = h.ctl.log ++ [p])
    (hrequests : t.ctl.requests = h.ctl.requests) (hholder : t.ctl.holder = h.ctl.holder)
    (hbegun : t.begun = h.begun) : Works mode h t :=
  .at hat hw (.inr ⟨p, hp, hlog⟩) hrequests hholder (by rw [hbegun]; exact List.Subset.refl _)

/-- **What the planning loop does on its own.** -/
theorem planningStep_works {m : HoldMove} (hs : planningStep h m = some t) : Works .planning h t := by
  cases m with
  | classified needsTools =>
      simp only [planningStep] at hs
      split at hs
      next hat => cases hs; exact .silent hat (by simp) rfl rfl rfl rfl
      next => cases hs
  | planned hasSteps thought =>
      cases hasSteps with
      | none =>
          simp only [planningStep] at hs
          split at hs
          next hat => cases hs; exact .silent hat (by simp) rfl rfl rfl rfl
          next => cases hs
      | some hasSteps =>
          simp only [planningStep] at hs
          split at hs
          next hat => cases hs; exact .writes hat (by simp) (fun _ => rfl) rfl rfl rfl rfl
          next => cases hs
  | openLayer steps =>
      simp only [planningStep] at hs
      split at hs
      next hat => cases hs; exact .silent hat (by simp) rfl rfl rfl rfl
      next => cases hs
  | start planId toolName dependsOn =>
      simp only [planningStep] at hs
      split at hs
      next hat => cases hs; exact .writes hat (by simp) (fun _ => rfl) rfl rfl rfl rfl
      next hat => cases hs; exact .silent hat (by simp) rfl rfl rfl rfl
      next => cases hs
  | endStep sid =>
      simp only [planningStep] at hs
      split at hs
      next hat => cases hs; exact .silent hat (by simp) rfl rfl rfl rfl
      next => cases hs
  | endLayer =>
      simp only [planningStep] at hs
      split at hs
      next hat => cases hs; exact .silent hat (by simp) rfl rfl rfl rfl
      next => cases hs
  | suspend todo =>
      simp only [planningStep] at hs
      split at hs
      next hat => cases hs; exact .silent hat (by simp) rfl rfl rfl rfl
      next => cases hs
  | called p =>
      simp only [planningStep] at hs
      split at hs
      next sid _ =>
        split_ifs at hs with hr
        cases hs
        exact ⟨parked_of_isRunning hr, .inr ⟨_, fun _ => rfl, rfl⟩, rfl, rfl, List.Subset.refl _⟩
      next => cases hs
  | conclude =>
      simp only [planningStep] at hs
      split at hs
      next hat => cases hs; exact .silent hat (by simp) rfl rfl rfl rfl
      next => cases hs
  | answer thought =>
      simp only [planningStep] at hs
      split at hs
      next hat => cases hs; exact .writes hat (by simp) (fun _ => rfl) rfl rfl rfl rfl
      next => cases hs
  | complete p =>
      simp only [planningStep] at hs
      split at hs
      next hat =>
        split_ifs at hs
        cases hs
        exact .writes hat (by simp) (fun _ => rfl) rfl rfl rfl rfl
      next hat =>
        split_ifs at hs
        cases hs
        exact .writes hat (by simp) (fun _ => rfl) rfl rfl rfl rfl
      next => cases hs
  | _ => cases hs

/-- **What the serial loop does on its own.** -/
theorem serialStep_works {m : HoldMove} (hs : serialStep h m = some t) : Works .serial h t := by
  cases m with
  | thought text tools =>
      simp only [serialStep] at hs
      split at hs
      next hat => cases hs; exact .writes hat (by simp) (fun _ => rfl) rfl rfl rfl rfl
      next => cases hs
  | beginCall id =>
      simp only [serialStep] at hs
      split at hs
      next hl hwork =>
        cases hs
        refine ⟨?_, .inl rfl, rfl, rfl, List.subset_append_left _ _⟩
        simp [Hold.parked, hl, hwork]
      next hl hwork =>
        cases hs
        refine ⟨?_, .inl rfl, rfl, rfl, List.subset_append_left _ _⟩
        simp [Hold.parked, hl]
      next => cases hs
  | called p =>
      simp only [serialStep] at hs
      split at hs
      next left hwork =>
        split_ifs at hs with hc
        cases hs
        rw [Bool.and_eq_true] at hc
        exact ⟨parked_of_acts hc.1 hwork, .inr ⟨_, fun _ => rfl, rfl⟩, rfl, rfl, List.Subset.refl _⟩
      next => cases hs
  | endCall =>
      simp only [serialStep] at hs
      split at hs
      next hat => cases hs; exact .silent hat (by simp) rfl rfl rfl rfl
      next => cases hs
  | suspend todo =>
      simp only [serialStep] at hs
      split at hs
      next hat => cases hs; exact .silent hat (by simp) rfl rfl rfl rfl
      next => cases hs
  | complete p =>
      simp only [serialStep] at hs
      split at hs
      next hat => cases hs; exact .writes hat (by simp) (fun _ => rfl) rfl rfl rfl rfl
      next => cases hs
  | iterate =>
      simp only [serialStep] at hs
      split at hs
      next hat => cases hs; exact .silent hat (by simp) rfl rfl rfl rfl
      next => cases hs
  | _ => cases hs

/-! ### The shared moves -/

/-- The loop of a run under a pause goes on to another parked place, and writes at most the end of
the run. -/
theorem HoldInv.moved (hi : HoldInv mode h) (hbegun : t.begun = h.begun)
    (hlog : t.ctl.log = h.ctl.log ∨ ∃ p, isStart p = false ∧ (∀ b, pauseAfter b p = b) ∧
      t.ctl.loop = .ended ∧ t.ctl.log = h.ctl.log ++ [p])
    (hrequests : t.ctl.requests = h.ctl.requests) (hholder : t.ctl.holder = h.ctl.holder)
    (hended : h.ctl.loop ≠ .ended)
    (hparked : userPaused h.ctl.log = true → t.parked mode = true)
    (hblocked : mode = .serial → userPaused h.ctl.log = true → t.ctl.loop = .pausing →
      t.ctl.pauseEvent = some false) : HoldInv mode t := by
  have hsub : h.begun ⊆ t.begun := by rw [hbegun]; exact List.Subset.refl _
  have hsignalling : t.ctl.signalling → userPaused h.ctl.log = false := by
    rintro ⟨i, kind, hget⟩
    rw [hrequests] at hget
    exact hi.signalling ⟨i, kind, hget⟩
  rcases hlog with hlog | ⟨p, hstart, hneutral, hend, hlog⟩
  · refine ⟨hi.held.of_log hlog hsub, hi.locked.congr hrequests hholder, ?_, ?_, ?_, ?_⟩
    · rw [hlog]
      exact hsignalling
    · rw [hlog]
      exact hparked
    · rw [hlog]
      exact fun hp _ => hi.paused hp hended
    · rw [hlog]
      exact hblocked
  · have hsame : userPaused t.ctl.log = userPaused h.ctl.log := by
      rw [hlog, userPaused_append, hneutral]
    refine ⟨hi.held.append hlog hsub (.inr hstart), hi.locked.congr hrequests hholder, ?_, ?_, ?_, ?_⟩
    · rw [hsame]
      exact hsignalling
    · rw [hsame]
      exact hparked
    · exact fun _ hne => absurd hend hne
    · rw [hsame]
      exact hblocked

/-- Work while the loop is at a place where it is never parked. -/
theorem HoldInv.busy {ctl : Control} {work : Work} (hi : HoldInv mode h) (hbusy : h.parked mode = false)
    (hlog : ctl.log = h.ctl.log ∨ ∃ p, (∀ b, pauseAfter b p = b) ∧ ctl.log = h.ctl.log ++ [p])
    (hrequests : ctl.requests = h.ctl.requests) (hholder : ctl.holder = h.ctl.holder) :
    HoldInv mode { h with ctl := ctl, work := work } :=
  hi.works ⟨hbusy, hlog, hrequests, hholder, List.Subset.refl _⟩

/-- **One action of the loop while it pauses, confirms or fails.** -/
theorem HoldInv.tick {n : ℕ} {ctl : Control} (hi : HoldInv mode h) (hs : h.ctl.tick n = some ctl) :
    HoldInv mode { h with ctl := ctl } := by
  unfold Control.tick at hs
  split at hs
  next => cases hs
  next => cases hs
  next => cases hs
  next hl =>
    cases hs
    refine hi.moved rfl (.inl rfl) rfl rfl (by simp [hl]) ?_ (fun _ _ _ => rfl)
    intro hp
    have hparked := hi.parked hp
    simpa [Hold.parked, hl] using hparked
  next hl =>
    split_ifs at hs with hset
    cases hs
    refine hi.moved rfl (.inl rfl) rfl rfl (by simp [hl]) ?_ (by simp)
    intro hp
    have hparked := hi.parked hp
    cases mode with
    | planning => simpa [Hold.parked, hl] using hparked
    | serial =>
        have hblocked := hi.blocked rfl hp hl
        rw [hset] at hblocked
        cases hblocked
  next hl =>
    cases hs
    exact hi.busy (by simp [Hold.parked, hl]) (.inl rfl) rfl rfl
  next hl =>
    have hbusy : h.parked mode = false := by simp [Hold.parked, hl]
    split_ifs at hs
    · cases hs
      exact hi.busy hbusy (.inl rfl) rfl rfl
    · cases hs
      exact hi.busy hbusy (.inr ⟨_, fun _ => rfl, rfl⟩) rfl rfl
    · cases hs
      exact hi.busy hbusy (.inl rfl) rfl rfl
  next hl =>
    cases hs
    exact hi.busy (by simp [Hold.parked, hl]) (.inr ⟨_, by simp [pauseAfter], rfl⟩) rfl rfl
  next hl =>
    cases hs
    exact hi.busy (by simp [Hold.parked, hl]) (.inl rfl) rfl rfl
  next hl =>
    split_ifs at hs
    cases hs
    exact hi.busy (by simp [Hold.parked, hl]) (.inl rfl) rfl rfl
  next hl =>
    have hbusy : h.parked mode = false := by simp [Hold.parked, hl]
    split_ifs at hs
    · cases hs
      exact hi.busy hbusy (.inl rfl) rfl rfl
    · cases hs
      exact hi.busy hbusy (.inl rfl) rfl rfl
  next hl =>
    split_ifs at hs
    cases hs
    refine hi.moved rfl (.inr ⟨_, rfl, fun _ => rfl, rfl, rfl⟩) rfl rfl (by simp [hl])
      (fun _ => rfl) ?_
    intro _ _ hpausing
    cases hpausing

/-- The loop reads the log at the head of a cycle or iteration. -/
theorem HoldInv.read (hi : HoldInv mode h) (hat : h.at? = some .reading) : HoldInv mode (h.read mode) := by
  have hl : h.ctl.loop = .working := by
    unfold Hold.at? at hat
    split at hat
    next hl => exact hl
    next => cases hat
  have hne : h.ctl.loop ≠ .ended := by simp [hl]
  unfold Hold.read
  split_ifs with hterm hpaused
  · refine hi.moved rfl (.inl rfl) rfl rfl hne (fun _ => rfl) ?_
    intro _ _ hpausing
    cases hpausing
  · refine hi.moved rfl (.inl rfl) rfl rfl hne ?_ ?_
    · intro _
      cases mode <;> rfl
    · intro _ _ hpausing
      cases hpausing
  · have hfree : userPaused h.ctl.log = false := by
      cases hp : userPaused h.ctl.log with
      | false => rfl
      | true => exact absurd (hi.paused hp hne) hpaused
    exact .of_free (hi.held.of_log rfl (List.Subset.refl _)) (hi.locked.congr rfl rfl) hfree

/-- The loop gives up. -/
theorem HoldInv.fail (hi : HoldInv mode h) (error : String) (hl : h.ctl.loop = .working) :
    HoldInv mode (h.failWith error) := by
  refine hi.moved rfl (.inl rfl) rfl rfl (by simp [hl]) (fun _ => rfl) ?_
  intro _ _ hpausing
  cases hpausing

/-- A wait of the loop times out. -/
theorem HoldInv.timeout {n : ℕ} {ctl : Control} (hi : HoldInv mode h)
    (hok : pausesAtRead mode h .timeout = true) (hs : controlStep n h.ctl .timeout = some ctl) :
    HoldInv mode { h with ctl := ctl } := by
  simp only [controlStep] at hs
  split at hs
  next hl =>
    cases hs
    refine hi.moved rfl (.inl rfl) rfl rfl (by simp [hl]) ?_ (by simp)
    intro hp
    have hparked := hi.parked hp
    cases mode with
    | planning => simpa [Hold.parked, hl] using hparked
    | serial => simp [pausesAtRead, hp] at hok
  next hl =>
    cases hs
    exact hi.busy (by simp [Hold.parked, hl]) (.inl rfl) rfl rfl
  next => cases hs

/-- Something happens beside the loop that neither pauses nor resumes the run. -/
theorem HoldInv.beside {ctl : Control} (hi : HoldInv mode h) (hlocked : Locked ctl)
    (hsignalling : ctl.signalling → h.ctl.signalling) (hloop : ctl.loop = h.ctl.loop)
    (hevent : ctl.pauseEvent = h.ctl.pauseEvent)
    (hlog : ctl.log = h.ctl.log ∨ ∃ p, isStart p = false ∧ (∀ b, pauseAfter b p = b) ∧
      statusChange p = none ∧ ctl.log = h.ctl.log ++ [p]) : HoldInv mode { h with ctl := ctl } := by
  have hparked : Hold.parked mode { h with ctl := ctl } = h.parked mode := by
    unfold Hold.parked
    simp only [hloop]
  have hheld : Held { h with ctl := ctl } := by
    rcases hlog with hlog | ⟨p, hstart, _, _, hlog⟩
    · exact hi.held.of_log hlog (List.Subset.refl _)
    · exact hi.held.append hlog (List.Subset.refl _) (.inr hstart)
  have hsame : userPaused ctl.log = userPaused h.ctl.log := by
    rcases hlog with hlog | ⟨p, _, hneutral, _, hlog⟩
    · rw [hlog]
    · rw [hlog, userPaused_append, hneutral]
  have hstatus : statusOf ctl.log = statusOf h.ctl.log := by
    rcases hlog with hlog | ⟨p, _, _, hquiet, hlog⟩
    · rw [hlog]
    · rw [hlog, statusOf_append]
      unfold statusAfter
      rw [hquiet]
      rfl
  refine ⟨hheld, hlocked, ?_, ?_, ?_, ?_⟩
  · intro hs
    exact hsame.trans (hi.signalling (hsignalling hs))
  · intro hp
    rw [hparked]
    exact hi.parked (hsame.symm.trans hp)
  · intro hp hne
    refine hstatus.trans (hi.paused (hsame.symm.trans hp) ?_)
    rw [← hloop]
    exact hne
  · intro hmode hp hpausing
    refine hevent.trans (hi.blocked hmode (hsame.symm.trans hp) ?_)
    rw [← hloop]
    exact hpausing

/-- An event of another component. -/
theorem HoldInv.note {p : Payload} (hi : HoldInv mode h) (hp : (isNeutral p && !isStart p) = true) :
    HoldInv mode (h.emit p) := by
  rw [Bool.and_eq_true, Bool.not_eq_true'] at hp
  have hpause : ∀ b, pauseAfter b p = b := by
    intro b
    cases p <;> first | rfl | simp [isNeutral, statusChange] at hp
  have hstatus : statusChange p = none := by
    cases p <;> first | rfl | simp [isNeutral, statusChange] at hp
  exact hi.beside (hi.locked.congr rfl rfl) id rfl rfl (.inr ⟨p, hp.2, hpause, hstatus, rfl⟩)

/-- A request inside the lock is not a new one. -/
theorem getElem?_of_critical {l : List Request} {r : Request} {i : ℕ} {kind : RequestKind} {pc : RequestPc}
    (hr : r.pc.critical = false) (hget : (l ++ [r])[i]? = some ⟨kind, pc⟩) (hpc : pc.critical = true) :
    l[i]? = some ⟨kind, pc⟩ := by
  rcases Nat.lt_or_ge i l.length with hlt | hge
  · rwa [List.getElem?_append_left hlt] at hget
  · rw [List.getElem?_append_right hge] at hget
    obtain ⟨_, he⟩ := List.getElem?_eq_some_iff.mp hget
    rw [List.getElem_singleton] at he
    rw [he, hpc] at hr
    cases hr

/-- A new request. -/
theorem HoldInv.request {ctl : Control} {n : ℕ} {kind : RequestKind} (hi : HoldInv mode h)
    (hs : controlStep n h.ctl (.request kind) = some ctl) : HoldInv mode { h with ctl := ctl } := by
  have hnew : ∃ pc, pc.critical = false ∧
      ctl = { h.ctl with requests := h.ctl.requests ++ [⟨kind, pc⟩] } := by
    cases kind <;> cases hs <;> exact ⟨_, rfl, rfl⟩
  obtain ⟨pc, hpc, rfl⟩ := hnew
  refine hi.beside ?_ ?_ rfl rfl (.inl rfl)
  · intro i kind' pc' hget hpc'
    exact hi.locked i kind' pc' (getElem?_of_critical hpc hget hpc') hpc'
  · rintro ⟨i, kind', hget⟩
    exact ⟨i, kind', getElem?_of_critical hpc hget rfl⟩

/-- A request that is not about to set the events. -/
theorem signalling_of_set {ctl ctl' : Control} {i : ℕ} {kind : RequestKind} {pc : RequestPc}
    (hr : ctl'.requests = ctl.requests.set i ⟨kind, pc⟩) (hpc : pc ≠ .signalling) (hs : ctl'.signalling) :
    ∃ j kind', i ≠ j ∧ ctl.requests[j]? = some ⟨kind', .signalling⟩ := by
  obtain ⟨j, kind', hj⟩ := hs
  rw [hr] at hj
  rcases set_cases hj with ⟨_, he⟩ | ⟨hij, hj⟩
  · exact absurd (Request.mk.inj he).2 hpc
  · exact ⟨j, kind', hij, hj⟩

theorem parked_of_readsNext (hr : h.readsNext mode = true) : h.parked mode = true := by
  unfold Hold.readsNext at hr
  unfold Hold.parked
  split at hr <;> simp_all

/-- **One action of a request keeps the invariant**, if a pause lands where the loop reads next. -/
theorem HoldInv.acted {ctl : Control} {i : ℕ} {kind : RequestKind} {pc : RequestPc} (hi : HoldInv mode h)
    (hget : h.ctl.requests[i]? = some ⟨kind, pc⟩) (hok : pausesAtRead mode h (.act i) = true)
    (ha : Acted h.ctl i kind pc ctl) : HoldInv mode { h with ctl := ctl } := by
  have hlocked := hi.locked.acted hget ha
  have hmono : ∀ {ctl' : Control} {pc' : RequestPc},
      ctl'.requests = h.ctl.requests.set i ⟨kind, pc'⟩ → pc' ≠ .signalling → ctl'.signalling →
        h.ctl.signalling := by
    intro ctl' pc' hr hpc' hs
    obtain ⟨j, kind', _, hj⟩ := signalling_of_set hr hpc' hs
    exact ⟨j, kind', hj⟩
  cases ha with
  | refuse | accept _ _ | skip _ | enter _ | proceed _ | reject _ =>
      exact hi.beside hlocked (hmono rfl (by simp)) rfl rfl (.inl rfl)
  | record _ =>
      exact hi.beside hlocked (hmono rfl (by simp)) rfl rfl (.inr ⟨_, rfl, fun _ => rfl, rfl, rfl⟩)
  | pause =>
      have hreads : h.readsNext mode = true := by
        simpa only [pausesAtRead, hget] using hok
      refine ⟨hi.held.append rfl (List.Subset.refl _) (.inr rfl), hlocked, ?_, ?_, ?_, ?_⟩
      · intro hs
        -- the lock: nobody else is about to set the events
        obtain ⟨j, kind', hij, hj⟩ := signalling_of_set rfl (by simp) hs
        have hheld := hi.locked j kind' _ hj rfl
        rw [hi.locked i _ _ hget rfl] at hheld
        exact absurd (Option.some.inj hheld) hij
      · exact fun _ => parked_of_readsNext hreads
      · intro _ _
        show statusOf (h.ctl.log ++ _) = _
        rw [statusOf_append]
        rfl
      · intro hmode _ hpausing
        have hl : h.ctl.loop = .pausing := hpausing
        simp [Hold.readsNext, hl, hmode] at hreads
  | resume _ =>
      refine .of_free (hi.held.append rfl (List.Subset.refl _) (.inr rfl)) hlocked ?_
      show userPaused (h.ctl.log ++ _) = false
      rw [userPaused_append]
      rfl
  | signal =>
      exact .of_free (hi.held.of_log rfl (List.Subset.refl _)) hlocked (hi.signalling ⟨i, kind, hget⟩)

/-- **One move keeps the invariant**, if a pause lands where the loop reads next. -/
theorem HoldInv.step {n : ℕ} {m : HoldMove} (hi : HoldInv mode h) (hok : pausesAtRead mode h m = true)
    (hs : holdStep mode n h m = some t) : HoldInv mode t := by
  have hown : modeStep mode h m = some t → HoldInv mode t := by
    intro hs
    cases mode with
    | planning => exact hi.works (planningStep_works hs)
    | serial => exact hi.works (serialStep_works hs)
  cases m with
  | read =>
      simp only [holdStep] at hs
      split at hs
      next hat =>
        cases hs
        exact hi.read hat
      next hat =>
        cases hs
        refine hi.works (.silent hat (by simp) ?_ ?_ ?_ ?_) <;> split_ifs <;> rfl
      next => cases hs
  | fail error =>
      simp only [holdStep] at hs
      split at hs
      next hl =>
        cases hs
        exact hi.fail error hl
      next => cases hs
  | tick =>
      obtain ⟨ctl, hctl, rfl⟩ := Option.map_eq_some_iff.mp hs
      exact hi.tick hctl
  | retried again =>
      obtain ⟨ctl, hctl, rfl⟩ := Option.map_eq_some_iff.mp hs
      simp only [controlStep] at hctl
      split at hctl
      next hl =>
        split_ifs at hctl <;> cases hctl <;>
          exact hi.busy (by simp [Hold.parked, hl]) (.inl rfl) rfl rfl
      next => cases hctl
  | timeout =>
      obtain ⟨ctl, hctl, rfl⟩ := Option.map_eq_some_iff.mp hs
      exact hi.timeout hok hctl
  | request kind =>
      simp only [holdStep, Option.map_eq_some_iff] at hs
      obtain ⟨ctl, hctl, rfl⟩ := hs
      exact hi.request hctl
  | act i =>
      obtain ⟨ctl, hctl, rfl⟩ := Option.map_eq_some_iff.mp hs
      simp only [controlStep] at hctl
      split at hctl
      next kind pc hget => exact hi.acted hget hok (acted_of_act hctl)
      next => cases hctl
  | note p =>
      simp only [holdStep] at hs
      split_ifs at hs with hp
      cases hs
      exact hi.note hp
  | _ => exact hown hs

theorem HoldInv.start (p : RunStartedPayload) : HoldInv mode (.start mode p) := by
  refine .of_free ?_ ?_ rfl
  · intro before between e hpre
    have hlen := hpre.length_le
    simp [Hold.start, Control.start] at hlen
    omega
  · intro i kind pc hget
    cases hget

/-- **The pause holds the run** in every interleaving of the loop with the operator's requests in which
each pause lands where the loop reads next, and no wait of the serial loop times out under it. -/
theorem pause_holds_the_run (p : RunStartedPayload) {n : ℕ}
    (hr : Lib.ReachesVia (holdStep mode n) (fun h m => pausesAtRead mode h m = true) (.start mode p) h) :
    Held h := by
  have hinv : HoldInv mode h := hr.invariant (.start p) fun _ _ _ _ hok hi hs => hi.step hok hs
  exact hinv.held

end invariant

/-! ### A pause between two layers -/

section scenario

/-- A standing pause of the operator has a place in the log. -/
theorem exists_pause_of_userPaused {log : List Payload} (h : userPaused log = true) :
    ∃ before between, log = before ++ .runPaused "user_requested" :: between ∧
      ∀ n, .runResumed n ∉ between := by
  induction log using List.reverseRecOn with
  | nil => cases h
  | append_singleton log p ih =>
      have hext : userPaused log = true → (∀ n, p ≠ .runResumed n) → ∃ before between,
          log ++ [p] = before ++ .runPaused "user_requested" :: between ∧ ∀ n, .runResumed n ∉ between := by
        intro hlog hp
        obtain ⟨before, between, rfl, hb⟩ := ih hlog
        refine ⟨before, between ++ [p], by simp, fun n hn => ?_⟩
        rcases List.mem_append.mp hn with hn | hn
        · exact hb n hn
        · exact hp n (List.mem_singleton.mp hn).symm
      rw [userPaused_append] at h
      cases p with
      | runPaused reason =>
          by_cases hreason : reason = "user_requested"
          · exact ⟨log, [], by rw [hreason], by simp⟩
          · refine hext ?_ (by simp)
            simpa [pauseAfter, hreason] using h
      | runResumed n => cases h
      | _ => exact hext h (by simp)

/-- Something that has no excuse is started. -/
def startsAfresh : Payload → Bool
  | .agentThought .. | .stepStarted .. => true
  | _ => false

/-- A test for a pause that does not hold: the last event starts something under it. -/
def breaksPause (h : Hold) : Bool :=
  h.ctl.log.getLast?.any startsAfresh && userPaused h.ctl.log.dropLast

theorem not_held {h : Hold} (hb : breaksPause h = true) : ¬Held h := by
  unfold breaksPause at hb
  rw [Bool.and_eq_true, Option.any_eq_true] at hb
  obtain ⟨⟨e, he, hstart⟩, hpaused⟩ := hb
  obtain ⟨before, between, hsplit, hbetween⟩ := exists_pause_of_userPaused hpaused
  intro hheld
  have hlog : before ++ .runPaused "user_requested" :: between ++ [e] = h.ctl.log := by
    rw [← hsplit]
    exact List.dropLast_append_getLast? e he
  have hinitial : before ++ .runPaused "user_requested" :: between ++ [e] <+: h.ctl.log :=
    ⟨[], (List.append_nil _).trans hlog⟩
  have hexc := hheld before between e hinitial hbetween
  cases e with
  | agentThought _ _ _ => exact hexc
  | stepStarted _ _ _ _ => exact hexc
  | _ => cases hstart

/-- The intent. -/
def someWork : RunStartedPayload := { intent := "work" }

/-- A plan is made and its first layer is running. -/
def firstLayer : List HoldMove :=
  [.read, .planned (some true) "plan", .openLayer ["a"], .start "p" "file_op" [], .start "p" "file_op" []]

/-- The operator pauses the run; the request runs to its end. -/
def pausedByUser : List HoldMove := [.request .pause, .act 0, .act 0, .act 0]

/-- A pause while the first layer is running does not keep the second one from being started, and a
pause that the serial loop has found ends with the time-out of the wait. -/
theorem paused_run_goes_on :
    (∃ h, Lib.Reaches (holdStep .planning 3) (.start .planning someWork) h ∧ ¬Held h) ∧
    ∃ h, Lib.Reaches (holdStep .serial 3) (.start .serial someWork) h ∧ ¬Held h := by
  constructor
  · obtain ⟨h, hr, hb⟩ := Lib.exists_reaches_of_run (holdStep .planning 3)
      (HoldMove.classified true :: firstLayer ++ pausedByUser ++
        [.endStep "a", .endLayer, .openLayer ["b"], .start "p" "file_op" ["a"]])
      (.start .planning someWork) breaksPause (by decide +kernel)
    exact ⟨h, hr, not_held hb⟩
  · obtain ⟨h, hr, hb⟩ := Lib.exists_reaches_of_run (holdStep .serial 3)
      (pausedByUser ++ [.read, .tick, .timeout, .read, .thought "go on" ["file_op"]])
      (.start .serial someWork) breaksPause (by decide +kernel)
    exact ⟨h, hr, not_held hb⟩

/-- The operator pauses and resumes the run before its first cycle; then a plan is executed. -/
theorem paused_run_is_held : ∃ h,
    Lib.ReachesVia (holdStep .planning 3) (fun h m => pausesAtRead .planning h m = true)
      (.start .planning someWork) h ∧
    (.runPaused "user_requested" ∈ h.ctl.log ∧ ∃ deps, .stepStarted "p" "a" "file_op" deps ∈ h.ctl.log) ∧
    Held h := by
  obtain ⟨h, hr, hb⟩ := Lib.exists_reachesVia_of_run (holdStep .planning 3) (pausesAtRead .planning)
    (HoldMove.classified true :: pausedByUser ++
      [.read, .tick, .request .resume, .act 1, .act 1, .act 1, .act 1, .tick] ++ firstLayer)
    (.start .planning someWork)
    (fun h => decide (.runPaused "user_requested" ∈ h.ctl.log) &&
      decide (.stepStarted "p" "a" "file_op" [] ∈ h.ctl.log)) (by decide +kernel)
  rw [Bool.and_eq_true, decide_eq_true_eq, decide_eq_true_eq] at hb
  exact ⟨h, hr, ⟨hb.1, [], hb.2⟩, pause_holds_the_run someWork hr⟩

end scenario
end JAgent
