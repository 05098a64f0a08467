import Mathlib.Data.List.Pairwise
import JAgent.Core.Compression
import JAgent.Lib.Retained

/-! # The working view of a stream

The thoughts and the tool results of a folded run are views that the events add to and that archiving and
pruning take from: `view_foldEvents`.  The sequence numbers of a stream go up, and so the numbers in both
lists do (`seqs_foldEvents`). -/

namespace JAgent

/-- The sequence numbers whose entries leave the working view. -/
def Payload.trims : Payload → List ℕ
  | .episodeArchived _ _ refs | .contextPruned refs _ _ => refs
  | _ => []

theorem eventSeq_of_toolResultOf {seq : ℕ} {p : Payload} {r : ToolResult} (h : toolResultOf seq p = some r) :
    r.eventSeq = seq := by
  cases p <;> cases h <;> rfl

theorem seq_of_thoughtOf {seq : ℕ} {p : Payload} {t : ThoughtEntry} (h : thoughtOf seq p = some t) :
    t.seq = seq := by
  cases p <;> cases h
  rfl

/-- The tool results of a stream. -/
def resultView : Lib.Retention LogEvent ToolResult where
  stamp := LogEvent.seq
  adds e := toolResultOf e.seq e.payload
  drops e := e.payload.trims
  key := ToolResult.eventSeq
  key_adds := eventSeq_of_toolResultOf

/-- The thoughts of a stream. -/
def thoughtView : Lib.Retention LogEvent ThoughtEntry where
  stamp := LogEvent.seq
  adds e := thoughtOf e.seq e.payload
  drops e := e.payload.trims
  key := ThoughtEntry.seq
  key_adds := seq_of_thoughtOf

/-- The events of a run by sequence number, as the store returns them. -/
def InSequence (es : List LogEvent) : Prop := es.Pairwise fun a b => a.seq < b.seq

section fold
variable [Py]

theorem foldFrom_append {r : String} (es es' : List LogEvent) (st : RunState) :
    foldFrom r st (es ++ es') = (foldFrom r st es).bind fun st₁ => foldFrom r st₁ es' := by
  induction es generalizing st with
  | nil => rfl
  | cons e es ih =>
      rw [List.cons_append, foldFrom, foldFrom]
      cases foldEvent r st e with
      | error err => rfl
      | ok st₁ => exact ih st₁

/-- The first part of a stream that can be folded can be folded. -/
theorem foldEvents_append {e : LogEvent} {es es' : List LogEvent} {u : RunState}
    (h : foldEvents (e :: es ++ es') = .ok u) : ∃ st, foldEvents (e :: es) = .ok st := by
  rw [List.cons_append, foldEvents, ← List.cons_append, foldFrom_append] at h
  cases hfold : foldFrom e.runId { runId := e.runId } (e :: es) with
  | error err =>
      rw [hfold] at h
      cases h
  | ok st => exact ⟨st, hfold⟩

/-- **What one event does to the working view.** -/
theorem view_foldEvent {r : String} {st u : RunState} {e : LogEvent} (h : foldEvent r st e = .ok u) :
    u.toolResults = resultView.retain st.toolResults e ∧
      u.thoughtHistory = thoughtView.retain st.thoughtHistory e := by
  rw [foldEvent] at h
  split_ifs at h
  by_cases hc : e.payload.eventType = .context
  · obtain ⟨runId, seq, payload⟩ := e
    cases payload <;> cases hc
    all_goals
      cases h
      simp [Lib.Retention.retain, resultView, thoughtView, Payload.trims, toolResultOf, thoughtOf,
        RunState.trim]
  · obtain ⟨hthoughts, hresults⟩ := view_foldPayload hc h
    have htrims : e.payload.trims = [] := by
      cases hp : e.payload <;> first
        | rfl
        | exact absurd (congrArg Payload.eventType hp) hc
    have hkeep {α : Type} (ρ : Lib.Retention LogEvent α) (hρ : ρ.drops e = []) (view : List α) :
        ρ.retain view e = view ++ (ρ.adds e).toList := by
      rw [Lib.Retention.retain, hρ, List.filter_eq_self.mpr]
      intro a _
      rfl
    rw [hkeep resultView htrims, hkeep thoughtView htrims]
    exact ⟨hresults, hthoughts⟩

theorem view_foldFrom {r : String} {es : List LogEvent} {st u : RunState} (h : foldFrom r st es = .ok u) :
    u.toolResults = es.foldl resultView.retain st.toolResults ∧
      u.thoughtHistory = es.foldl thoughtView.retain st.thoughtHistory := by
  constructor
  · exact foldFrom_part (fun _ _ _ hv => (view_foldEvent hv).1) h
  · exact foldFrom_part (fun _ _ _ hv => (view_foldEvent hv).2) h

/-- **The working view of a folded stream.** -/
theorem view_foldEvents {es : List LogEvent} {u : RunState} (h : foldEvents es = .ok u) :
    u.toolResults = es.foldl resultView.retain [] ∧ u.thoughtHistory = es.foldl thoughtView.retain [] := by
  cases es with
  | nil => cases h
  | cons e es => exact view_foldFrom h

/-- The sequence numbers of both lists go up. -/
theorem seqs_foldEvents {es : List LogEvent} {u : RunState} (hes : InSequence es) (h : foldEvents es = .ok u) :
    (u.toolResults.Pairwise fun a b => a.eventSeq < b.eventSeq) ∧
      u.thoughtHistory.Pairwise fun a b => a.seq < b.seq := by
  obtain ⟨hresults, hthoughts⟩ := view_foldEvents h
  have hr : resultView.Ascending es := hes
  have ht : thoughtView.Ascending es := hes
  rw [hresults, hthoughts]
  exact ⟨Lib.Retention.keys_retain hr, Lib.Retention.keys_retain ht⟩

/-- No entry of the view stands for two events: a thought and a result never share a number. -/
theorem thought_ne_result {es : List LogEvent} {u : RunState} (hes : InSequence es) (h : foldEvents es = .ok u)
    {t : ThoughtEntry} (ht : t ∈ u.thoughtHistory) {r : ToolResult} (hr : r ∈ u.toolResults) :
    t.seq ≠ r.eventSeq := by
  obtain ⟨hresults, hthoughts⟩ := view_foldEvents h
  have hrview : resultView.Ascending es := hes
  have htview : thoughtView.Ascending es := hes
  rw [hresults, Lib.Retention.foldl_retain hrview fun a ha => absurd ha List.not_mem_nil] at hr
  rw [hthoughts, Lib.Retention.foldl_retain htview fun a ha => absurd ha List.not_mem_nil] at ht
  obtain ⟨e, he, hadds, hkey⟩ := Lib.Retention.exists_stamp_of_mem (List.mem_of_mem_filter ht)
  obtain ⟨e', he', hadds', hkey'⟩ := Lib.Retention.exists_stamp_of_mem (List.mem_of_mem_filter hr)
  intro hseq
  have hstamp : e.seq = e'.seq := hkey.symm.trans (hseq.trans hkey')
  have hne : e ≠ e' := by
    rintro rfl
    have hthought : thoughtOf e.seq e.payload = some t := hadds
    have hresult : toolResultOf e.seq e.payload = some r := hadds'
    cases hp : e.payload <;> rw [hp] at hthought hresult <;>
      first
      | (cases hresult; done)
      | cases hthought
  have : Std.Symm fun a b : LogEvent => a.seq ≠ b.seq := ⟨fun _ _ h => h.symm⟩
  exact (hes.imp (S := fun a b => a.seq ≠ b.seq) fun hlt => hlt.ne).forall he he' hne hstamp

/-- What an event does to the end of the last plan. -/
theorem bounds_foldPayload {st u : RunState} {seq : ℕ} {p : Payload} (h : foldPayload st seq p = .ok u) :
    u.seq = st.seq ∧
      (u.planBoundarySeqs = st.planBoundarySeqs ∨ u.planBoundarySeqs = st.planBoundarySeqs ++ [seq]) := by
  by_cases hp : p.ofPlan
  · obtain ⟨_, _, _, _, _, rfl, hbounds⟩ := foldPayload_frame hp h
    exact ⟨rfl, hbounds⟩
  · cases p with
    | toolCompleted p =>
        simp only [foldPayload] at h
        split at h
        all_goals
          cases h
          exact ⟨rfl, .inl rfl⟩
    | planCreated | planRevised | planCompleted | planFailed => exact absurd (.inl rfl) hp
    | stepStarted | stepCompleted | stepFailed | stepSkipped => exact absurd (.inr rfl) hp
    | _ =>
        simp only [foldPayload] at h
        cases h
        exact ⟨rfl, .inl rfl⟩

/-- **No plan ends after the last event** that was folded. -/
theorem boundaries_foldFrom {r : String} {es : List LogEvent} {st u : RunState}
    (hst : ∀ n ∈ st.planBoundarySeqs, n ≤ st.seq) (h : foldFrom r st es = .ok u) :
    ∀ n ∈ u.planBoundarySeqs, n ≤ u.seq := by
  induction es generalizing st with
  | nil =>
      cases h
      exact hst
  | cons e es ih =>
      obtain ⟨v, hstep, h⟩ := foldFrom_cons_eq_ok.mp h
      refine ih ?_ h
      rw [foldEvent] at hstep
      split_ifs at hstep
      obtain ⟨hseq, hbounds⟩ := bounds_foldPayload hstep
      have hold : ∀ n ∈ st.planBoundarySeqs, n ≤ max st.seq e.seq :=
        fun n hn => (hst n hn).trans (Nat.le_max_left _ _)
      intro n hn
      rw [hseq]
      obtain hbounds | hbounds := hbounds
      · rw [hbounds] at hn
        exact hold n hn
      · rw [hbounds] at hn
        obtain hn | hn := List.mem_append.mp hn
        · exact hold n hn
        · rw [List.mem_singleton.mp hn]
          exact Nat.le_max_right _ _

theorem boundaries_foldEvents {es : List LogEvent} {u : RunState} (h : foldEvents es = .ok u) :
    ∀ n ∈ u.planBoundarySeqs, n ≤ u.seq := by
  cases es with
  | nil => cases h
  | cons e es => exact boundaries_foldFrom (fun n hn => absurd hn List.not_mem_nil) h

end fold

end JAgent
