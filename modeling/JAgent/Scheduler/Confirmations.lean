import JAgent.Scheduler.Control

/-! # The order of confirmations

A suspended layer may have several steps to confirm.  The loop takes them in its own order: it
pauses the run, waits, and retries the step when it is woken.  It never looks whether the answer is
already there.  An answer that is recorded while the loop waits for another step wakes the loop for
that other step; when the turn of the answered step comes, the loop waits for an answer that cannot
come again, because a repeated answer is taken as done.

What makes the loop go on is that each answer is recorded while the loop waits for it
(`confirmations_answered_in_turn`). -/

namespace JAgent

/-! ### The property and its condition -/

/-- A request is on its way to write RunResumed. -/
def Control.resuming (s : Control) : Prop :=
  ∃ (i : ℕ) (kind : RequestKind) (pc : RequestPc), s.requests[i]? = some ⟨kind, pc⟩ ∧
    kind ≠ .pause ∧ (pc = .entering ∨ pc = .checking ∨ pc = .appending)

/-- The requests that are under way, left to themselves, wake the loop, which then retries the current
step. -/
def Control.RetriesNext (maxConfirmRetries : ℕ) (s : Control) (todo : List (String × String))
    (retries : ℕ) : Prop :=
  ∃ (requests : List ℕ) (t : Control),
    Lib.run (controlStep maxConfirmRetries) (requests.map .act ++ [.tick, .tick]) s = some t ∧
      t.loop = .retrying todo retries

/-- The answers to the confirmations of a suspended layer reach the loop: it never starts to wait for
an answer that is there, an answer that arrives makes it retry the step, and until then the answer is
accepted. -/
structure AnswersTaken (maxConfirmRetries : ℕ) (s : Control) : Prop where
  entry : ∀ sid cid todo retries, s.loop = .announced ((sid, cid) :: todo) retries →
    answered? s.log cid = false
  retried : ∀ sid cid todo retries, s.loop = .confirming ((sid, cid) :: todo) retries →
    s.blocked = true → answered? s.log cid = true →
      s.RetriesNext maxConfirmRetries ((sid, cid) :: todo) retries
  accepted : ∀ sid cid todo retries, s.loop = .confirming ((sid, cid) :: todo) retries →
    s.blocked = true → answered? s.log cid = false →
      s.signalling ∨ (statusOf s.log = .paused ∧ (requested? s.log cid).isSome = true)

/-- Confirmations are requested, open and distinct when the layer is suspended, a retry does not ask
again for a confirmation that was answered, an answer is recorded while the loop waits for it, and no
RunResumed is written in the gap. -/
def answersInTurn (s : Control) : ControlMove → Bool
  | .suspend todo => (todo.map Prod.snd).Nodup && todo.all fun x =>
      !answered? s.log x.2 && (requested? s.log x.2).isSome
  | .retried again => match s.loop with
    | .retrying ((_, cid) :: _) _ => !(again && answered? s.log cid)
    | _ => true
  | .act i => match s.requests[i]? with
    | some ⟨.confirm cid _ _, .recording _⟩ => answered? s.log cid || match s.loop with
      | .confirming ((_, c) :: _) _ => c = cid
      | _ => false
    | _ => resumesOutsideGap s (.act i)
  | _ => true

/-! ### Answers and requests in the log -/

section log
variable {log : List Payload} {p : Payload} {cid : String}

theorem answered?_append_ne (h : ∀ q, p = .confirmationReceived q → q.confirmationId ≠ cid) :
    answered? (log ++ [p]) cid = answered? log cid := by
  unfold answered?
  rw [List.any_append]
  cases p with
  | confirmationReceived q =>
      have hne := h q rfl
      simp [hne]
  | _ => simp

theorem requested?_append (h : (requested? log cid).isSome = true) :
    (requested? (log ++ [p]) cid).isSome = true := by
  obtain ⟨q, hq⟩ := Option.isSome_iff_exists.mp h
  have happ : requested? (log ++ [p]) cid = (requested? log cid).or (requested? [p] cid) :=
    List.findSome?_append
  rw [happ, hq]
  rfl

end log

/-! ### The invariant -/

/-- The confirmations that are still to come: requested, distinct and open, the current one apart while
the loop waits for it or retries its step. -/
def LoopPc.Open (log : List Payload) : LoopPc → Prop
  | .choosing todo _ | .announcing todo _ | .announced todo _ =>
    (todo.map Prod.snd).Nodup ∧ (∀ x ∈ todo, (requested? log x.2).isSome = true) ∧
      ∀ x ∈ todo, answered? log x.2 = false
  | .confirming todo _ | .refreshing todo _ | .retrying todo _ =>
    (todo.map Prod.snd).Nodup ∧ (∀ x ∈ todo, (requested? log x.2).isSome = true) ∧
      ∀ x ∈ todo.tail, answered? log x.2 = false
  | _ => True

/-- The invariant of the confirmation loop. -/
structure TurnInv (s : Control) : Prop where
  open_ : s.loop.Open s.log
  alive : s.loop.isEnded = false → (statusOf s.log).isTerminal = false
  announced : ∀ todo retries, s.loop = .announced todo retries → statusOf s.log = .paused
  paused : ∀ todo retries, s.loop = .confirming todo retries → s.blocked = true →
    s.signalling ∨ statusOf s.log = .paused
  woken : ∀ sid cid todo retries, s.loop = .confirming ((sid, cid) :: todo) retries →
    s.blocked = true → answered? s.log cid = true →
      s.signalling ∨ (statusOf s.log = .paused ∧ s.resuming)

section invariant
variable {s t : Control} {maxConfirmRetries : ℕ}

/-- Other events leave the confirmations open. -/
theorem LoopPc.Open.append {loop : LoopPc} {log : List Payload} {p : Payload} (h : loop.Open log)
    (hp : ∀ q, p ≠ .confirmationReceived q) : loop.Open (log ++ [p]) := by
  have hans : ∀ cid, answered? (log ++ [p]) cid = answered? log cid := fun cid =>
    answered?_append_ne fun q hq => absurd hq (hp q)
  cases loop with
  | choosing todo retries | announcing todo retries | announced todo retries =>
      obtain ⟨hn, hreq, hopen⟩ := h
      exact ⟨hn, fun x hx => requested?_append (hreq x hx), fun x hx => by rw [hans]; exact hopen x hx⟩
  | confirming todo retries | refreshing todo retries | retrying todo retries =>
      obtain ⟨hn, hreq, hopen⟩ := h
      exact ⟨hn, fun x hx => requested?_append (hreq x hx), fun x hx => by rw [hans]; exact hopen x hx⟩
  | _ => trivial

/-- Where the loop neither waits for a confirmation nor is about to. -/
theorem TurnInv.of_other (hopen : s.loop.Open s.log)
    (halive : s.loop.isEnded = false → (statusOf s.log).isTerminal = false)
    (h1 : ∀ todo retries, s.loop ≠ .announced todo retries)
    (h2 : ∀ todo retries, s.loop ≠ .confirming todo retries) : TurnInv s :=
  ⟨hopen, halive, fun todo retries h => absurd h (h1 todo retries),
    fun todo retries h => absurd h (h2 todo retries),
    fun _ _ _ retries h => absurd h (h2 _ retries)⟩

/-- **One action of the loop keeps the invariant.** -/
theorem TurnInv.tick (h : TurnInv s) (hs : s.tick maxConfirmRetries = some t) : TurnInv t := by
  have hopen := h.open_
  unfold Control.tick at hs
  split at hs
  next => cases hs
  next => cases hs
  next => cases hs
  next hl =>
    cases hs
    exact .of_other trivial (fun _ => h.alive (by rw [hl]; rfl)) (by simp) (by simp)
  next hl =>
    split_ifs at hs
    cases hs
    exact .of_other trivial (fun _ => h.alive (by rw [hl]; rfl)) (by simp) (by simp)
  next hl =>
    cases hs
    exact .of_other trivial (fun _ => h.alive (by rw [hl]; rfl)) (by simp) (by simp)
  next sid cid todo retries hl =>
    have halive := h.alive (by rw [hl]; rfl)
    rw [hl] at hopen
    split_ifs at hs with hmax hterm
    · cases hs
      exact .of_other trivial (fun _ => halive) (by simp) (by simp)
    · rw [halive] at hterm
      cases hterm
    · cases hs
      exact .of_other hopen (fun _ => halive) (by simp) (by simp)
  next todo retries hl =>
    rw [hl] at hopen
    cases hs
    have hstatus : statusOf (s.log ++ [Payload.runPaused "waiting_confirmation"]) = .paused := by
      rw [statusOf_append]
      rfl
    refine ⟨?_, fun _ => ?_, fun _ _ _ => hstatus, by simp, by simp⟩
    · exact LoopPc.Open.append hopen (by simp)
    · show (statusOf (s.log ++ _)).isTerminal = false
      rw [hstatus]
      rfl
  next todo retries hl =>
    rw [hl] at hopen
    obtain ⟨hn, hreq, hun⟩ := hopen
    have hstatus := h.announced todo retries hl
    cases hs
    refine ⟨⟨hn, hreq, fun x hx => hun x (List.mem_of_mem_tail hx)⟩,
      fun _ => h.alive (by rw [hl]; rfl), by simp, fun _ _ _ _ => .inr hstatus, ?_⟩
    rintro sid cid todo' retries' ⟨⟩ _ hans
    rw [hun (sid, cid) List.mem_cons_self] at hans
    cases hans
  next todo retries hl =>
    rw [hl] at hopen
    split_ifs at hs
    cases hs
    exact .of_other hopen (fun _ => h.alive (by rw [hl]; rfl)) (by simp) (by simp)
  next todo retries hl =>
    rw [hl] at hopen
    split_ifs at hs
    · cases hs
      exact .of_other trivial (fun hend => by cases hend) (by simp [Control.stop]) (by simp [Control.stop])
    · cases hs
      exact .of_other hopen (fun _ => h.alive (by rw [hl]; rfl)) (by simp) (by simp)
  next =>
    split_ifs at hs
    cases hs
    exact .of_other trivial (fun hend => by cases hend) (by simp [Control.stop]) (by simp [Control.stop])

/-- The log and the events stay, and what is on its way stays on its way. -/
theorem TurnInv.silent (h : TurnInv s) (hloop : t.loop = s.loop)
    (hevents : t.pauseEvent = s.pauseEvent ∧ t.confirmEvent = s.confirmEvent) (hlog : t.log = s.log)
    (hsig : s.signalling → t.signalling)
    (hres : statusOf s.log = .paused → s.resuming → t.resuming) : TurnInv t := by
  have hblocked : t.blocked = s.blocked := by
    unfold Control.blocked
    rw [hloop, hevents.1, hevents.2]
  refine ⟨?_, ?_, ?_, ?_, ?_⟩
  · rw [hloop, hlog]
    exact h.open_
  · rw [hloop, hlog]
    exact h.alive
  · rw [hloop, hlog]
    exact h.announced
  · rw [hloop, hlog, hblocked]
    exact fun todo retries hl hb => (h.paused todo retries hl hb).imp_left hsig
  · rw [hloop, hlog, hblocked]
    intro sid cid todo retries hl hb hans
    exact (h.woken sid cid todo retries hl hb hans).imp hsig fun hp => ⟨hp.1, hres hp.1 hp.2⟩

/-- An event that neither moves the status nor answers a confirmation. -/
theorem TurnInv.note {p : Payload} (h : TurnInv s) (hp : isNeutral p = true) : TurnInv (s.emit p) := by
  have hst : statusChange p = none := by
    cases p <;> simp_all [isNeutral]
  have hrec : ∀ q, p ≠ .confirmationReceived q := by
    rintro q rfl
    cases hp
  have hstatus : statusOf (s.log ++ [p]) = statusOf s.log := by
    rw [statusOf_append]
    unfold statusAfter
    rw [hst]
    rfl
  have hans : ∀ cid, answered? (s.log ++ [p]) cid = answered? s.log cid := fun cid =>
    answered?_append_ne fun q hq => absurd hq (hrec q)
  refine ⟨h.open_.append hrec, ?_, ?_, ?_, ?_⟩ <;>
    simp only [Control.emit, hstatus, hans]
  · exact h.alive
  · exact h.announced
  · exact h.paused
  · exact h.woken

/-! ### Requests -/

section requests
variable {i : ℕ} {kind : RequestKind} {pc : RequestPc}

/-- A request goes on: it stays on its way, or was not. -/
theorem resuming_set {pc' : RequestPc} (hi : s.requests[i]? = some ⟨kind, pc⟩)
    (ht : t.requests = s.requests.set i ⟨kind, pc'⟩) (h : s.resuming)
    (hpc : kind ≠ .pause → (pc = .entering ∨ pc = .checking ∨ pc = .appending) →
      pc' = .entering ∨ pc' = .checking ∨ pc' = .appending) : t.resuming := by
  obtain ⟨j, kind', pc₁, hj, hkind, hway⟩ := h
  by_cases hij : i = j
  · subst hij
    rw [hi, Option.some.injEq, Request.mk.injEq] at hj
    obtain ⟨rfl, rfl⟩ := hj
    refine ⟨i, kind, pc', ?_, hkind, hpc hkind hway⟩
    rw [ht, List.getElem?_set_self', hi]
    rfl
  · exact ⟨j, kind', pc₁, by rw [ht, List.getElem?_set_ne hij, hj], hkind, hway⟩

/-- An answer is recorded while the loop waits for it. -/
theorem TurnInv.record {cid operatorId : String} {confirmed : Bool} {stepId : Option String}
    (h : TurnInv s) (hi : s.requests[i]? = some ⟨.confirm cid confirmed operatorId, .recording stepId⟩)
    {sid : String} {todo : List (String × String)} {retries : ℕ}
    (hloop : s.loop = .confirming ((sid, cid) :: todo) retries) :
    TurnInv ((s.emit (.confirmationReceived { confirmationId := cid, confirmed, operatorId, stepId })).goto
      i (.confirm cid confirmed operatorId) .entering) := by
  have hstatus : ∀ q, statusOf (s.log ++ [Payload.confirmationReceived q]) = statusOf s.log := fun q => by
    rw [statusOf_append]
    rfl
  have hopen := h.open_
  rw [hloop] at hopen
  obtain ⟨hn, hreq, hun⟩ := hopen
  rw [List.map_cons, List.nodup_cons] at hn
  refine ⟨?_, ?_, ?_, ?_, ?_⟩
  · show s.loop.Open _
    rw [hloop]
    refine ⟨List.nodup_cons.mpr hn, fun x hx => requested?_append (hreq x hx), fun x hx => ?_⟩
    rw [Control.goto, Control.emit, answered?_append_ne]
    · exact hun x hx
    · rintro q ⟨⟩ heq
      have hmem : x.2 ∈ todo.map Prod.snd := List.mem_map_of_mem hx
      rw [← heq] at hmem
      exact hn.1 hmem
  · intro hend
    show (statusOf (s.log ++ _)).isTerminal = false
    rw [hstatus]
    exact h.alive hend
  · intro todo' retries' hl
    have hl' : s.loop = .announced todo' retries' := hl
    rw [hloop] at hl'
    cases hl'
  · intro todo' retries' hl hb
    refine (h.paused todo' retries' hl hb).imp (signalling_set hi (by simp) rfl) fun hp => ?_
    show statusOf (s.log ++ _) = .paused
    rw [hstatus, hp]
  · intro sid' cid' todo' retries' hl hb _
    refine (h.paused _ retries' hl hb).imp (signalling_set hi (by simp) rfl) fun hp => ⟨?_, ?_⟩
    · show statusOf (s.log ++ _) = .paused
      rw [hstatus, hp]
    · exact ⟨i, .confirm cid confirmed operatorId, .entering, getElem?_set_of hi, by simp, .inl rfl⟩

/-- A request writes RunPaused or RunResumed; after a RunResumed it is about to set the events, and the
loop is not in the gap. -/
theorem TurnInv.write {p : Payload} (h : TurnInv s) (hloop : t.loop = s.loop)
    (hevents : t.pauseEvent = s.pauseEvent ∧ t.confirmEvent = s.confirmEvent)
    (hlog : t.log = s.log ++ [p]) (hrec : ∀ q, p ≠ .confirmationReceived q)
    (hp : (statusOf (s.log ++ [p]) = .paused ∧ (s.signalling → t.signalling) ∧
        (s.resuming → t.resuming)) ∨
      ((statusOf (s.log ++ [p])).isTerminal = false ∧ s.loop.inGap = false ∧ t.signalling)) :
    TurnInv t := by
  have hblocked : t.blocked = s.blocked := by
    unfold Control.blocked
    rw [hloop, hevents.1, hevents.2]
  have hans : ∀ cid, answered? (s.log ++ [p]) cid = answered? s.log cid := fun cid =>
    answered?_append_ne fun q hq => absurd hq (hrec q)
  refine ⟨?_, fun _ => ?_, ?_, ?_, ?_⟩
  · rw [hloop, hlog]
    exact h.open_.append hrec
  · rw [hlog]
    rcases hp with ⟨hst, _⟩ | ⟨hst, _⟩
    · rw [hst]
      rfl
    · exact hst
  · rw [hloop, hlog]
    intro todo retries hl
    rcases hp with ⟨hst, _⟩ | ⟨_, hgap, _⟩
    · exact hst
    · rw [hl] at hgap
      cases hgap
  · rw [hlog]
    intro _ _ _ _
    exact hp.elim (fun hp => .inr hp.1) fun hp => .inl hp.2.2
  · rw [hloop, hblocked, hlog]
    intro sid cid todo retries hl hb hr
    rw [hans] at hr
    rcases hp with ⟨hst, hsig, hres⟩ | ⟨_, _, hsig⟩
    · exact (h.woken sid cid todo retries hl hb hr).imp hsig fun hw => ⟨hst, hres hw.2⟩
    · exact .inl hsig

/-- **One action of a request keeps the invariant**, if the answers come in turn. -/
theorem TurnInv.acted (h : TurnInv s) (hi : s.requests[i]? = some ⟨kind, pc⟩)
    (hok : answersInTurn s (.act i) = true) (ha : Acted s i kind pc t) : TurnInv t := by
  cases ha with
  | refuse | accept _ _ | skip _ =>
      exact h.silent rfl ⟨rfl, rfl⟩ rfl (signalling_set hi (by simp) rfl) fun _ hres =>
        resuming_set hi rfl hres (by simp)
  | enter _ | proceed _ =>
      exact h.silent rfl ⟨rfl, rfl⟩ rfl (signalling_set hi (by simp) rfl) fun _ hres =>
        resuming_set hi rfl hres (by simp)
  | reject hno =>
      refine h.silent rfl ⟨rfl, rfl⟩ rfl (signalling_set hi (by simp) rfl) fun hp hres =>
        resuming_set hi rfl hres fun hkind _ => ?_
      -- a resume of a paused run is not rejected
      cases kind with
      | pause => exact absurd rfl hkind
      | resume => simp [Control.mayProceed, hp] at hno
      | confirm cid confirmed operatorId => simp [Control.mayProceed, hp] at hno
  | record hnew =>
      simp only [answersInTurn, hi, hnew, Bool.false_or] at hok
      split at hok
      next sid c todo retries hl =>
        rw [decide_eq_true_eq] at hok
        subst hok
        exact h.record hi hl
      next => cases hok
  | pause =>
      refine h.write rfl ⟨rfl, rfl⟩ rfl (by simp) (.inl ⟨?_, signalling_set hi (by simp) rfl, ?_⟩)
      · rw [statusOf_append]
        rfl
      · exact fun hres => resuming_set hi rfl hres fun hkind => absurd rfl hkind
  | resume hkind =>
      refine h.write rfl ⟨rfl, rfl⟩ rfl (by simp) (.inr ⟨?_, ?_, signalling_self hi rfl⟩)
      · rw [statusOf_append]
        rfl
      · cases kind with
        | pause => exact absurd rfl hkind
        | resume => simpa [answersInTurn, resumesOutsideGap, hi] using hok
        | confirm cid confirmed operatorId => simpa [answersInTurn, resumesOutsideGap, hi] using hok
  | signal =>
      have hblocked : (s.signal.release i kind).blocked = false := not_blocked_signal s
      refine ⟨h.open_, h.alive, h.announced, fun _ _ _ hb => ?_, fun _ _ _ _ _ hb => ?_⟩
      · rw [hblocked] at hb
        cases hb
      · rw [hblocked] at hb
        cases hb

end requests

/-- **One move keeps the invariant**, if the answers come in turn. -/
theorem TurnInv.step {m : ControlMove} (h : TurnInv s) (hok : answersInTurn s m = true)
    (hs : controlStep maxConfirmRetries s m = some t) : TurnInv t := by
  cases m with
  | observe =>
      simp only [controlStep] at hs
      split at hs
      next hl =>
        split_ifs at hs
        cases hs
        exact .of_other trivial (fun _ => h.alive (by rw [hl]; rfl)) (by simp) (by simp)
      next => cases hs
  | suspend todo =>
      simp only [controlStep] at hs
      split at hs
      next hl =>
        cases hs
        simp only [answersInTurn, Bool.and_eq_true, decide_eq_true_eq, List.all_eq_true,
          Bool.not_eq_true'] at hok
        exact .of_other ⟨hok.1, fun x hx => (hok.2 x hx).2, fun x hx => (hok.2 x hx).1⟩
          (fun _ => h.alive (by rw [hl]; rfl)) (by simp) (by simp)
      next => cases hs
  | finish p =>
      simp only [controlStep] at hs
      split at hs
      next =>
        split_ifs at hs
        cases hs
        exact .of_other trivial (fun hend => by cases hend) (by simp [Control.stop]) (by simp [Control.stop])
      next => cases hs
  | tick => exact h.tick hs
  | retried again =>
      simp only [controlStep] at hs
      have hopen := h.open_
      split at hs
      next todo retries hl =>
        rw [hl] at hopen
        obtain ⟨hn, hreq, hun⟩ := hopen
        have halive := h.alive (by rw [hl]; rfl)
        split_ifs at hs with hagain
        · cases hs
          refine .of_other ⟨hn, hreq, fun x hx => ?_⟩ (fun _ => halive) (by simp) (by simp)
          cases todo with
          | nil => cases hx
          | cons y todo =>
              rcases List.mem_cons.mp hx with rfl | hx
              · simpa [answersInTurn, hl, hagain] using hok
              · exact hun x hx
        · cases hs
          refine .of_other ⟨?_, fun x hx => hreq x (List.mem_of_mem_tail hx), hun⟩ (fun _ => halive)
            (by simp) (by simp)
          rw [List.map_tail]
          exact hn.tail
      next => cases hs
  | timeout =>
      simp only [controlStep] at hs
      split at hs
      next hl =>
        cases hs
        exact .of_other trivial (fun _ => h.alive (by rw [hl]; rfl)) (by simp) (by simp)
      next hl =>
        cases hs
        exact .of_other trivial (fun _ => h.alive (by rw [hl]; rfl)) (by simp) (by simp)
      next => cases hs
  | request kind =>
      cases hs
      have hkeep : ∀ {i : ℕ} {r r' : Request}, s.requests[i]? = some r →
          (s.requests ++ [r'])[i]? = some r := fun hi => by
        rw [List.getElem?_append_left (List.getElem?_eq_some_iff.mp hi).1]
        exact hi
      refine h.silent rfl ⟨rfl, rfl⟩ rfl ?_ ?_
      · rintro ⟨i, kind', hi⟩
        exact ⟨i, kind', hkeep hi⟩
      · rintro _ ⟨i, kind', pc, hi, hrest⟩
        exact ⟨i, kind', pc, hkeep hi, hrest⟩
  | act i =>
      simp only [controlStep] at hs
      split at hs
      next kind pc hi => exact h.acted hi hok (acted_of_act hs)
      next => cases hs
  | note p =>
      simp only [controlStep] at hs
      split_ifs at hs with hp
      cases hs
      exact h.note hp

/-! ### The requests under way wake the loop -/

/-- The holder of the lock is inside. -/
def LockInv (s : Control) : Prop :=
  ∀ i, s.holder = some i → ∃ kind pc, s.requests[i]? = some ⟨kind, pc⟩ ∧
    (pc = .checking ∨ pc = .appending ∨ pc = .signalling)

section progress
variable {i : ℕ} {kind : RequestKind} {pc : RequestPc}

/-- A request goes on without the lock changing hands. -/
theorem LockInv.goto {pc' : RequestPc} (h : LockInv s) (hi : s.requests[i]? = some ⟨kind, pc⟩)
    (hholder : t.holder = s.holder) (ht : t.requests = s.requests.set i ⟨kind, pc'⟩)
    (hpc : (pc = .checking ∨ pc = .appending ∨ pc = .signalling) →
      pc' = .checking ∨ pc' = .appending ∨ pc' = .signalling) : LockInv t := by
  intro j hj
  rw [hholder] at hj
  obtain ⟨kind', pc₁, hreq, hin⟩ := h j hj
  by_cases hij : i = j
  · subst hij
    rw [hi, Option.some.injEq, Request.mk.injEq] at hreq
    obtain ⟨rfl, rfl⟩ := hreq
    exact ⟨kind, pc', by rw [ht]; exact getElem?_set_of hi, hpc hin⟩
  · exact ⟨kind', pc₁, by rw [ht, List.getElem?_set_ne hij, hreq], hin⟩

theorem LockInv.acted (h : LockInv s) (hi : s.requests[i]? = some ⟨kind, pc⟩)
    (ha : Acted s i kind pc t) : LockInv t := by
  cases ha with
  | refuse | accept _ _ | skip _ | record _ | proceed _ | resume _ => exact h.goto hi rfl rfl (by simp)
  | enter _ =>
      rintro j ⟨⟩
      exact ⟨kind, .checking, getElem?_set_of hi, .inl rfl⟩
  | reject _ | pause | signal =>
      intro j hj
      cases hj

/-- The loop keeps the lock and the requests. -/
theorem LockInv.of_eq (h : LockInv s) (hholder : t.holder = s.holder) (hreq : t.requests = s.requests) :
    LockInv t := by
  unfold LockInv
  rw [hholder, hreq]
  exact h

theorem LockInv.step {m : ControlMove} (h : LockInv s)
    (hs : controlStep maxConfirmRetries s m = some t) : LockInv t := by
  cases m with
  | act i =>
      simp only [controlStep] at hs
      split at hs
      next kind pc hi => exact h.acted hi (acted_of_act hs)
      next => cases hs
  | request kind =>
      cases hs
      intro i hi
      obtain ⟨kind', pc, hreq, hin⟩ := h i hi
      refine ⟨kind', pc, ?_, hin⟩
      rw [List.getElem?_append_left (List.getElem?_eq_some_iff.mp hreq).1]
      exact hreq
  | tick =>
      simp only [controlStep, Control.tick] at hs
      repeat' split at hs
      all_goals first | cases hs; done | (cases hs; exact h.of_eq rfl rfl)
  | _ =>
      simp only [controlStep] at hs
      repeat' split at hs
      all_goals first | cases hs; done | (cases hs; exact h.of_eq rfl rfl)

variable {todo : List (String × String)} {retries : ℕ}

/-- A request acts first. -/
theorem retriesNext_act (hs : controlStep maxConfirmRetries s (.act i) = some t)
    (h : t.RetriesNext maxConfirmRetries todo retries) :
    s.RetriesNext maxConfirmRetries todo retries := by
  obtain ⟨requests, u, hrun, hloop⟩ := h
  refine ⟨i :: requests, u, ?_, hloop⟩
  rw [List.map_cons, List.cons_append, Lib.run, hs]
  exact hrun

theorem controlStep_act (hi : s.requests[i]? = some ⟨kind, pc⟩) :
    controlStep maxConfirmRetries s (.act i) = s.act i kind pc := by
  simp only [controlStep, hi]

/-- A request that has written RunResumed sets the event, and the loop goes on. -/
theorem retriesNext_signalling (hloop : s.loop = .confirming todo retries)
    (hevent : s.confirmEvent.isSome = true) (halive : (statusOf s.log).isTerminal = false)
    (hi : s.requests[i]? = some ⟨kind, .signalling⟩) :
    s.RetriesNext maxConfirmRetries todo retries := by
  obtain ⟨b, hb⟩ := Option.isSome_iff_exists.mp hevent
  refine retriesNext_act (controlStep_act hi) ⟨[], ?_⟩
  refine ⟨{ s.signal.release i kind with
    loop := .retrying todo retries, confirmEvent := some false }, ?_, rfl⟩
  simp [Lib.run, controlStep, Control.tick, Control.release, Control.goto, Control.signal, hloop, hb,
    halive]

/-- A request that is about to write RunResumed. -/
theorem retriesNext_appending (hloop : s.loop = .confirming todo retries)
    (hevent : s.confirmEvent.isSome = true) (hkind : kind ≠ .pause)
    (hi : s.requests[i]? = some ⟨kind, .appending⟩) :
    s.RetriesNext maxConfirmRetries todo retries := by
  have hact : s.act i kind .appending =
      some ((s.emit (.runResumed s.log.length)).goto i kind .signalling) := by
    cases kind with
    | pause => exact absurd rfl hkind
    | resume => rfl
    | confirm cid confirmed operatorId => rfl
  refine retriesNext_act ((controlStep_act hi).trans hact)
    (retriesNext_signalling hloop hevent ?_ (getElem?_set_of hi))
  show (statusOf (s.log ++ _)).isTerminal = false
  rw [statusOf_append]
  rfl

/-- A request that is about to check a paused run. -/
theorem retriesNext_checking (hloop : s.loop = .confirming todo retries)
    (hevent : s.confirmEvent.isSome = true) (hstatus : statusOf s.log = .paused) (hkind : kind ≠ .pause)
    (hi : s.requests[i]? = some ⟨kind, .checking⟩) :
    s.RetriesNext maxConfirmRetries todo retries := by
  have hmay : s.mayProceed kind = true := by
    cases kind with
    | pause => exact absurd rfl hkind
    | resume => simp [Control.mayProceed, hstatus]
    | confirm cid confirmed operatorId => simp [Control.mayProceed, hstatus]
  have hact : s.act i kind .checking = some (s.goto i kind .appending) := by
    simp only [Control.act, hmay, if_true]
  exact retriesNext_act ((controlStep_act hi).trans hact)
    (retriesNext_appending hloop hevent hkind (getElem?_set_of hi))

/-- A request that waits for a lock that is free. -/
theorem retriesNext_entering (hloop : s.loop = .confirming todo retries)
    (hevent : s.confirmEvent.isSome = true) (hstatus : statusOf s.log = .paused) (hkind : kind ≠ .pause)
    (hi : s.requests[i]? = some ⟨kind, .entering⟩) (hfree : s.holder = none) :
    s.RetriesNext maxConfirmRetries todo retries := by
  have hact : s.act i kind .entering = some { s.goto i kind .checking with holder := some i } := by
    simp only [Control.act, hfree, Option.isNone_none, if_true]
  exact retriesNext_act ((controlStep_act hi).trans hact)
    (retriesNext_checking hloop hevent hstatus hkind (getElem?_set_of hi))

/-- **A resume on its way to a paused run wakes the loop**, whoever holds the lock. -/
theorem retriesNext_resuming (hlock : LockInv s) (hloop : s.loop = .confirming todo retries)
    (hevent : s.confirmEvent.isSome = true) (hstatus : statusOf s.log = .paused) (h : s.resuming) :
    s.RetriesNext maxConfirmRetries todo retries := by
  obtain ⟨i, kind, pc, hi, hkind, rfl | rfl | rfl⟩ := h
  · cases hholder : s.holder with
    | none => exact retriesNext_entering hloop hevent hstatus hkind hi hholder
    | some j =>
        obtain ⟨kind', pc', hj, hin⟩ := hlock j hholder
        -- the holder wakes the loop itself, or is a pause that gives the lock back
        have hagain : ∀ t : Control, t.loop = s.loop → t.confirmEvent = s.confirmEvent →
            statusOf t.log = .paused → t.holder = none →
            t.requests = s.requests.set j ⟨kind', .ended⟩ →
            t.RetriesNext maxConfirmRetries todo retries := by
          intro t ht1 ht2 ht3 ht4 ht5
          have hne : j ≠ i := by
            rintro rfl
            rw [hi, Option.some.injEq, Request.mk.injEq] at hj
            rcases hin with hin | hin | hin <;> rw [hin] at hj <;> cases hj.2
          have hi' : t.requests[i]? = some ⟨kind, .entering⟩ := by
            rw [ht5, List.getElem?_set_ne hne, hi]
          exact retriesNext_entering (ht1.trans hloop) (by rw [ht2]; exact hevent) ht3 hkind hi' ht4
        by_cases hk : kind' = .pause
        · subst hk
          rcases hin with rfl | rfl | rfl
          · have hact : s.act j .pause .checking = some (s.release j .pause) := by
              simp [Control.act, Control.mayProceed, hstatus]
            exact retriesNext_act ((controlStep_act hj).trans hact) (hagain _ rfl rfl hstatus rfl rfl)
          · have hpaused : statusOf (s.log ++ [Payload.runPaused "user_requested"]) = .paused := by
              rw [statusOf_append]
              rfl
            exact retriesNext_act (controlStep_act hj) (hagain _ rfl rfl hpaused rfl rfl)
          · exact retriesNext_signalling hloop hevent (by rw [hstatus]; rfl) hj
        · rcases hin with rfl | rfl | rfl
          · exact retriesNext_checking hloop hevent hstatus hk hj
          · exact retriesNext_appending hloop hevent hk hj
          · exact retriesNext_signalling hloop hevent (by rw [hstatus]; rfl) hj
  · exact retriesNext_checking hloop hevent hstatus hkind hi
  · exact retriesNext_appending hloop hevent hkind hi

end progress

theorem TurnInv.answersTaken (h : TurnInv s) (hlock : LockInv s) : AnswersTaken maxConfirmRetries s := by
  have hopen := h.open_
  refine ⟨fun sid cid todo retries hl => ?_, fun sid cid todo retries hl hb hans => ?_,
    fun sid cid todo retries hl hb _ => ?_⟩
  · rw [hl] at hopen
    exact hopen.2.2 (sid, cid) List.mem_cons_self
  · have hevent : s.confirmEvent.isSome = true := by
      unfold Control.blocked at hb
      simp only [hl, decide_eq_true_eq] at hb
      rw [hb]
      rfl
    rcases h.woken sid cid todo retries hl hb hans with ⟨i, kind, hi⟩ | ⟨hst, hres⟩
    · exact retriesNext_signalling hl hevent (h.alive (by rw [hl]; rfl)) hi
    · exact retriesNext_resuming hlock hl hevent hst hres
  · rw [hl] at hopen
    exact (h.paused _ retries hl hb).imp_right fun hp => ⟨hp, hopen.2.1 (sid, cid) List.mem_cons_self⟩

/-- **Every answer reaches the loop, as long as each is recorded while the loop waits for it.**  In
every interleaving of the loop with the operator's requests that meets the condition, the loop never
starts to wait for an answer that is there; when it waits for an answer that has arrived, the requests
under way make it retry the step; and as long as the answer is missing the run accepts it. -/
theorem confirmations_answered_in_turn (p : RunStartedPayload)
    (h : Lib.ReachesVia (controlStep maxConfirmRetries) (fun s m => answersInTurn s m = true)
      (.start p) s) : AnswersTaken maxConfirmRetries s := by
  have hinv : TurnInv s ∧ LockInv s := by
    apply h.invariant
    · exact ⟨.of_other trivial (fun _ => rfl) (by simp [Control.start]) (by simp [Control.start]),
        by simp [LockInv, Control.start]⟩
    · exact fun _ _ _ _ hok hi hs => ⟨hi.1.step hok hs, hi.2.step hs⟩
  exact hinv.1.answersTaken hinv.2

/-- A test for a loop that is about to wait for an answer that is there. -/
def awaitsAnswered (s : Control) : Bool :=
  match s.loop with
  | .announced ((_, cid) :: _) _ => answered? s.log cid
  | _ => false

theorem not_answersTaken (h : awaitsAnswered s = true) : ¬AnswersTaken maxConfirmRetries s := by
  intro htaken
  unfold awaitsAnswered at h
  split at h
  next sid cid todo retries hl =>
    rw [htaken.entry sid cid todo retries hl] at h
    cases h
  next => cases h

end invariant

/-! ### Two steps to confirm -/

section scenario

/-- A request for the confirmation of a delete. -/
def askFor (cid path : String) : ControlMove :=
  .note (.confirmationRequested
    { confirmationId := cid, toolCallId := "call", toolName := "file_op", idempotencyKey := cid
      input := [("operation", .str "delete"), ("path", .str path)] })

/-- Two deletes are to be confirmed, and the loop waits for the first. -/
def twoToConfirm : List ControlMove :=
  [askFor "c1" "a.txt", askFor "c2" "b.txt", .suspend [("s1", "c1"), ("s2", "c2")], .tick, .tick, .tick]

/-- The operator confirms, and the `i`-th request runs to its end. -/
def confirmed (i : ℕ) (cid : String) : List ControlMove :=
  .request (.confirm cid true "operator") :: List.replicate 6 (.act i)

/-- The loop is woken, retries the step, and goes on until it has paused the run again. -/
def retriedAndPaused (again : Bool) : List ControlMove := [.tick, .tick, .retried again, .tick, .tick]

/-- The second step is confirmed first. -/
def secondFirst : List ControlMove :=
  twoToConfirm ++ confirmed 0 "c2" ++ retriedAndPaused true ++ [ControlMove.tick] ++ confirmed 1 "c1" ++
    retriedAndPaused false

/-- All requests have ended. -/
def Control.quiescent (s : Control) : Bool := s.requests.all fun r => match r.pc with
  | .ended => true
  | _ => false

/-- The loop waits for the answers to these confirmations. -/
def isConfirming (awaited : List (String × String)) : LoopPc → Bool
  | .confirming todo _ => todo = awaited
  | _ => false

theorem isConfirming_iff {awaited : List (String × String)} {pc : LoopPc} :
    isConfirming awaited pc = true ↔ ∃ retries, pc = .confirming awaited retries := by
  cases pc <;> simp [isConfirming]

/-- The loop is at its head with these confirmations left. -/
def isChoosing (left : List (String × String)) : LoopPc → Bool
  | .choosing todo _ => todo = left
  | _ => false

theorem isChoosing_iff {left : List (String × String)} {pc : LoopPc} :
    isChoosing left pc = true ↔ ∃ retries, pc = .choosing left retries := by
  cases pc <;> simp [isChoosing]

/-- Both steps are confirmed, the second one first: the loop starts to wait for an answer that is
there, and is then blocked although every request, also a repeated one, has ended. -/
theorem answer_out_of_turn_is_not_taken :
    (∃ s, Lib.Reaches (controlStep 3) (.start { intent := "work" }) s ∧ ¬AnswersTaken 3 s) ∧
    ∃ s, Lib.Reaches (controlStep 3) (.start { intent := "work" }) s ∧ s.blocked = true ∧
      (∃ retries, s.loop = .confirming [("s2", "c2")] retries) ∧
      (answered? s.log "c1" = true ∧ answered? s.log "c2" = true) ∧ s.quiescent = true := by
  constructor
  · obtain ⟨s, hs, hp⟩ := Lib.exists_reaches_of_run (controlStep 3) secondFirst
      (.start { intent := "work" }) awaitsAnswered (by decide +kernel)
    exact ⟨s, hs, not_answersTaken hp⟩
  · obtain ⟨s, hs, hp⟩ := Lib.exists_reaches_of_run (controlStep 3)
      (secondFirst ++ [.tick, .request (.confirm "c2" true "operator"), .act 2])
      (.start { intent := "work" }) (fun s => s.blocked && isConfirming [("s2", "c2")] s.loop &&
        answered? s.log "c1" && answered? s.log "c2" && s.quiescent) (by decide +kernel)
    simp only [Bool.and_eq_true] at hp
    obtain ⟨⟨⟨⟨hb, hl⟩, h1⟩, h2⟩, hq⟩ := hp
    exact ⟨s, hs, hb, isConfirming_iff.mp hl, ⟨h1, h2⟩, hq⟩

/-- The steps are confirmed in the order of the loop: both are retried. -/
theorem answers_in_turn_are_taken : ∃ s,
    Lib.ReachesVia (controlStep 3) (fun s m => answersInTurn s m = true) (.start { intent := "work" }) s ∧
    (answered? s.log "c1" = true ∧ answered? s.log "c2" = true ∧ ∃ retries, s.loop = .choosing [] retries) ∧
    AnswersTaken 3 s := by
  obtain ⟨s, hs, hp⟩ := Lib.exists_reachesVia_of_run (controlStep 3) answersInTurn
    (twoToConfirm ++ confirmed 0 "c1" ++ retriedAndPaused false ++ [.tick] ++ confirmed 1 "c2" ++
      [.tick, .tick, .retried false])
    (.start { intent := "work" }) (fun s => answered? s.log "c1" && answered? s.log "c2" &&
      isChoosing [] s.loop) (by decide +kernel)
  simp only [Bool.and_eq_true] at hp
  exact ⟨s, hs, ⟨hp.1.1, hp.1.2, isChoosing_iff.mp hp.2⟩,
    confirmations_answered_in_turn { intent := "work" } hs⟩

end scenario
end JAgent
