import Mathlib.Data.List.Dedup
import Mathlib.Data.List.DropRight
import Mathlib.Data.List.Infix
import JAgent.Core.WorkingView
import JAgent.Lib.System

/-! # The context manager

`maybe_compress` is called with a snapshot of the run before each round.  By the estimated number of tokens
it chooses a tier: it prunes results that do not matter, or archives all but the newest entries under an
episode, or archives under the emergency rule.  A stamp keeps it from compressing again within the
cooldown.

What an archive event removes from a folded run is exactly what was archived
(`archived_foldEvent`), as the numbers of a stream never meet.  The emergency tier does not ask whether
there is anything to archive, though: `archiving_exact_iff`.  And the stamp is set before the tier decides
whether there is anything to do: `cooldown_counts_compressions` says in which runs the cooldown counts
compressions all the same. -/

namespace JAgent

/-! ### The estimate -/

/-- `Episode.to_context_text`. -/
def Episode.toContextText (e : Episode) : String :=
  let part (label : String) (text : String) := if text = "" then [] else [label ++ text]
  let list (label : String) (texts : List String) := if texts.isEmpty then [] else [label ++ join ", " texts]
  join "\n" (part "Title: " e.title ++ part "Summary: " e.summary ++ list "Key decisions: " e.keyDecisions ++
    list "Tools used: " e.toolsUsed ++ list "Key findings: " e.keyFindings ++
    list "Errors: " e.errorsEncountered ++ part "Current plan: " (e.currentPlan.getD "") ++
    if e.preservedExcerpts.isEmpty then []
    else ["Preserved verbatim excerpts:\n- " ++ join "\n- " e.preservedExcerpts])

/-- The settings of the manager.  The constructor computes the thresholds from the limit and checks that
they are in order. -/
structure ContextSettings where
  /-- `TokenCounter.count`. -/
  count : String → ℕ
  lazyClearThreshold : ℕ
  compressionThreshold : ℕ
  emergencyThreshold : ℕ
  compressionCooldownIterations : ℤ
  lazy_le : lazyClearThreshold ≤ compressionThreshold
  compression_le : compressionThreshold ≤ emergencyThreshold

section manager
variable [Py] (cfg : ContextSettings)

/-- `_async_estimate_context_tokens`. -/
def estimateContextTokens (st : RunState) : ℕ :=
  let thoughts := st.thoughtHistory.foldl (fun total t => total + cfg.count t.thought) 0
  let results := st.toolResults.foldl (fun total tr => total +
    (if tr.output ≠ .null then cfg.count (pyStr tr.output) else 0) +
      (match nonEmpty tr.error with
      | some error => cfg.count error
      | none => 0)) thoughts
  let summary := match st.summary with
    | none => 0
    | some (.text s) => cfg.count s
    | some (.episode e) => cfg.count e.toContextText
  max 1 (results + summary)

/-! ### What is pruned and archived -/

/-- `decision_markers`. -/
def decisionMarkers : List String := ["decided", "choose", "select", "plan", "strategy", "approach"]

/-- `_score_event_importance` of a thought, in tenths. -/
def thoughtImportance (t : ThoughtEntry) : ℕ :=
  if decisionMarkers.any fun m => decide (m.toList <:+: lower t.thought.toList) then 7 else 5

/-- `_score_event_importance` of a result, in tenths. -/
def resultImportance (tr : ToolResult) : ℕ :=
  if ["failed", "timeout", "guardrail_blocked"].contains tr.status.value then 8
  else if tr.status.value = "unsuccessful" then 6
  else 2

/-- `xs[:-keep] if len(xs) > keep else []`. -/
def olderThan {α : Type} (keep : ℕ) (xs : List α) : List α := if keep < xs.length then xs.rdrop keep else []

/-- `xs[-keep:] if len(xs) > keep else []`. -/
def newest {α : Type} (keep : ℕ) (xs : List α) : List α := if keep < xs.length then xs.rtake keep else []

/-- `_select_low_importance_events`. -/
def selectLowImportanceEvents (st : RunState) : List ℕ :=
  let keepRecent := max st.keepRecentCount 2
  let recentThoughtSeqs := (newest keepRecent st.thoughtHistory).map (·.seq)
  let recentResultSeqs := (newest keepRecent st.toolResults).map (·.eventSeq)
  (((olderThan keepRecent st.thoughtHistory).filter fun t =>
      !recentThoughtSeqs.contains t.seq && decide (thoughtImportance t ≤ 2)).map (·.seq)) ++
    (((olderThan keepRecent st.toolResults).filter fun tr =>
      !recentResultSeqs.contains tr.eventSeq && decide (resultImportance tr ≤ 2)).map (·.eventSeq))

omit [Py] in
/-- `sorted(set(thought_seqs + result_seqs))` of what is older than the newest entries. -/
def archivedRefs (keep : ℕ) (st : RunState) : List ℕ :=
  ((olderThan keep st.thoughtHistory).map (·.seq) ++
    (olderThan keep st.toolResults).map (·.eventSeq)).dedup.insertionSort (· ≤ ·)

inductive CompressionTier where
  | lazyClear | episodeArchive | emergencyCompact
deriving DecidableEq

/-- `_lazy_clear`: the payload that is written. -/
def lazyClear (st : RunState) : Except String (Option Payload) :=
  let prunedRefs := selectLowImportanceEvents st
  if prunedRefs.isEmpty then .ok none
  else .ok (some (.contextPruned prunedRefs prunedRefs.length "lazy_clear"))

omit [Py] in
/-- Generate the episode and write the archive event. -/
def archive (keep : ℕ) (st : RunState) (episode : Except String Episode) : Except String (Option Payload) :=
  match episode with
  | .error e => .error e
  | .ok episode => .ok (some (.episodeArchived episode keep (archivedRefs keep st)))

omit [Py] in
/-- `_archive_episode`. -/
def archiveEpisode (st : RunState) (episode : Except String Episode) : Except String (Option Payload) :=
  if (olderThan 2 st.thoughtHistory).isEmpty && (olderThan 2 st.toolResults).isEmpty then .ok none
  else archive 2 st episode

omit [Py] in
/-- `_emergency_compact`. -/
def emergencyCompact (st : RunState) (episode : Except String Episode) : Except String (Option Payload) :=
  archive 3 st episode

/-! ### A call -/

/-- A call of `maybe_compress` with a snapshot of the run, and what `_generate_episode` returns or raises if
it is asked to. -/
structure CompressCall where
  runId : String
  iteration : ℤ
  state : RunState
  episode : Except String Episode
  reached : ∃ es, InSequence es ∧ foldEvents es = .ok state

/-- `_last_compressed_iteration`. -/
abbrev CompressionStamps := Lib.Dict String ℤ

/-- The tier that is run; `none` when the call returns before. -/
def chosenTier (stamps : CompressionStamps) (call : CompressCall) : Option CompressionTier :=
  let st := call.state
  if st.planBoundarySeqs.getLast?.any fun n => st.seq < n then none
  else
    let estimate := estimateContextTokens cfg st
    if estimate ≤ cfg.lazyClearThreshold then none
    else
      let last := (stamps.get? call.runId).getD 0
      if 0 < last && call.iteration - last < cfg.compressionCooldownIterations then none
      else if cfg.emergencyThreshold < estimate then some .emergencyCompact
      else if cfg.compressionThreshold < estimate then some .episodeArchive
      else some .lazyClear

/-- What a tier writes. -/
def runTier (call : CompressCall) : CompressionTier → Except String (Option Payload)
  | .lazyClear => lazyClear call.state
  | .episodeArchive => archiveEpisode call.state call.episode
  | .emergencyCompact => emergencyCompact call.state call.episode

/-- `maybe_compress`: the stamps, and the payload of the event it writes, if any. -/
def maybeCompress (stamps : CompressionStamps) (call : CompressCall) :
    CompressionStamps × Except String (Option Payload) :=
  match chosenTier cfg stamps call with
  | none => (stamps, .ok none)
  | some tier => (stamps.set call.runId call.iteration, runTier call tier)

/-! ### Exact archives -/

section archive
variable {α : Type} {keep : ℕ}

omit [Py] in
theorem olderThan_eq (keep : ℕ) (xs : List α) : olderThan keep xs = xs.rdrop keep := by
  rw [olderThan]
  split_ifs with hlt
  · rfl
  · rw [List.rdrop, Nat.sub_eq_zero_of_le (Nat.le_of_not_lt hlt), List.take_zero]

omit [Py] in
theorem olderThan_eq_nil {xs : List α} : olderThan keep xs = [] ↔ xs.length ≤ keep := by
  rw [olderThan_eq, List.rdrop, List.take_eq_nil_iff, List.eq_nil_iff_length_eq_zero]
  omega

omit [Py] in
theorem mem_archivedRefs {st : RunState} {n : ℕ} : n ∈ archivedRefs keep st ↔
    n ∈ (st.thoughtHistory.rdrop keep).map (·.seq) ∨ n ∈ (st.toolResults.rdrop keep).map (·.eventSeq) := by
  rw [archivedRefs, List.mem_insertionSort, List.mem_dedup, List.mem_append, olderThan_eq, olderThan_eq]

omit [Py] in
theorem archivedRefs_eq_nil {st : RunState} : archivedRefs keep st = [] ↔
    st.thoughtHistory.length ≤ keep ∧ st.toolResults.length ≤ keep := by
  rw [← olderThan_eq_nil, ← olderThan_eq_nil, olderThan_eq, olderThan_eq, List.eq_nil_iff_forall_not_mem]
  simp only [mem_archivedRefs, not_or]
  rw [forall_and, ← List.eq_nil_iff_forall_not_mem, ← List.eq_nil_iff_forall_not_mem, List.map_eq_nil_iff,
    List.map_eq_nil_iff]

omit [Py] in
/-- Dropping what is older by number leaves what is newest. -/
theorem filter_eq_rtake {key : α → ℕ} {xs : List α} {refs : List ℕ}
    (hkeys : xs.Pairwise fun a b => key a < key b) (hrefs : ∀ a ∈ xs, key a ∈ refs ↔
      key a ∈ (xs.rdrop keep).map key) :
    (xs.filter fun a => !refs.contains (key a)) = xs.rtake keep := by
  have hsplit : xs.rdrop keep ++ xs.rtake keep = xs := List.take_append_drop _ _
  have hold : ((xs.rdrop keep).filter fun a => !refs.contains (key a)) = [] := by
    rw [List.filter_eq_nil_iff]
    intro a ha hkept
    have hmem : key a ∈ refs := (hrefs a (List.mem_of_mem_take ha)).mpr (List.mem_map_of_mem ha)
    rw [List.contains_iff_mem.mpr hmem] at hkept
    cases hkept
  have hnew : ((xs.rtake keep).filter fun a => !refs.contains (key a)) = xs.rtake keep := by
    rw [List.filter_eq_self]
    intro a ha
    rw [Bool.not_eq_true', ← Bool.not_eq_true, List.contains_iff_mem, hrefs a (List.mem_of_mem_drop ha)]
    intro hold
    obtain ⟨b, hb, hba⟩ := List.mem_map.mp hold
    rw [← hsplit, List.pairwise_append] at hkeys
    exact absurd hba (hkeys.2.2 b hb a ha).ne
  calc xs.filter (fun a => !refs.contains (key a))
      = (xs.rdrop keep ++ xs.rtake keep).filter fun a => !refs.contains (key a) := by rw [hsplit]
    _ = xs.rtake keep := by rw [List.filter_append, hold, hnew, List.nil_append]

/-- **An archive event removes what was archived**, and leaves the newest thoughts and results. -/
theorem archived_foldEvent {st : RunState} (hreached : ∃ es, InSequence es ∧ foldEvents es = .ok st)
    (keep seq : ℕ) (episode : Episode) :
    ∃ u, foldEvent st.runId st ⟨st.runId, seq, .episodeArchived episode keep (archivedRefs keep st)⟩ = .ok u ∧
      u.thoughtHistory = st.thoughtHistory.rtake keep ∧ u.toolResults = st.toolResults.rtake keep := by
  obtain ⟨es, hes, hfold⟩ := hreached
  obtain ⟨hresults, hthoughts⟩ := seqs_foldEvents hes hfold
  refine ⟨_, if_neg (not_not.mpr rfl), ?_, ?_⟩
  · apply filter_eq_rtake hthoughts
    intro t ht
    rw [mem_archivedRefs, or_iff_left]
    intro hres
    obtain ⟨r, hr, hseq⟩ := List.mem_map.mp hres
    exact thought_ne_result hes hfold ht (List.mem_of_mem_take hr) hseq.symm
  · apply filter_eq_rtake hresults
    intro r hr
    rw [mem_archivedRefs, or_iff_right]
    intro hthought
    obtain ⟨t, ht, hseq⟩ := List.mem_map.mp hthought
    exact thought_ne_result hes hfold (List.mem_of_mem_take ht) hr hseq

end archive

/-- An archive event that is written names what it archives, and folding it leaves the newest thoughts and
results, as many as it says. -/
def ArchivesExactly (st : RunState) (out : Except String (Option Payload)) : Prop :=
  ∀ episode keep refs, out = .ok (some (.episodeArchived episode keep refs)) → refs ≠ [] ∧
    ∀ seq, ∃ u, foldEvent st.runId st ⟨st.runId, seq, .episodeArchived episode keep refs⟩ = .ok u ∧
      u.thoughtHistory = st.thoughtHistory.rtake keep ∧ u.toolResults = st.toolResults.rtake keep

theorem archivesExactly_archive {call : CompressCall} {keep : ℕ} :
    ArchivesExactly call.state (archive keep call.state call.episode) ↔
      ¬(call.state.thoughtHistory.length ≤ keep ∧ call.state.toolResults.length ≤ keep ∧
        ∃ episode, call.episode = .ok episode) := by
  cases hepisode : call.episode with
  | error e =>
      rw [archive]
      constructor
      · rintro - ⟨-, -, episode, hok⟩
        cases hok
      · intro _ episode keep refs hout
        cases hout
  | ok episode =>
      rw [archive]
      constructor
      · rintro h ⟨hthoughts, hresults, -⟩
        exact (h episode keep _ rfl).1 (archivedRefs_eq_nil.mpr ⟨hthoughts, hresults⟩)
      · intro h episode' keep' refs hout
        cases hout
        refine ⟨fun hnil => ?_, fun seq => archived_foldEvent call.reached keep seq episode⟩
        obtain ⟨hthoughts, hresults⟩ := archivedRefs_eq_nil.mp hnil
        exact h ⟨hthoughts, hresults, episode, rfl⟩

/-- **Archiving is exact** unless the emergency tier is run on a snapshot with nothing to archive. -/
theorem archiving_exact_iff (cfg : ContextSettings) (stamps : CompressionStamps) (call : CompressCall) :
    ArchivesExactly call.state (maybeCompress cfg stamps call).2 ↔
      ¬(chosenTier cfg stamps call = some .emergencyCompact ∧ call.state.thoughtHistory.length ≤ 3 ∧
        call.state.toolResults.length ≤ 3 ∧ ∃ episode, call.episode = .ok episode) := by
  rw [maybeCompress]
  cases htier : chosenTier cfg stamps call with
  | none =>
      refine iff_of_true (fun episode keep refs hout => ?_) (fun h => ?_)
      · cases hout
      · cases h.1
  | some tier =>
      cases tier with
      | lazyClear =>
          refine iff_of_true (fun episode keep refs hout => ?_) (fun h => ?_)
          · replace hout : lazyClear call.state = _ := hout
            rw [lazyClear] at hout
            split_ifs at hout <;> cases hout
          · cases h.1
      | episodeArchive =>
          refine iff_of_true ?_ (fun h => ?_)
          · show ArchivesExactly call.state (archiveEpisode call.state call.episode)
            rw [archiveEpisode]
            split_ifs with hempty
            · intro episode keep refs hout
              cases hout
            · refine archivesExactly_archive.mpr fun h => hempty ?_
              rw [olderThan_eq_nil.mpr h.1, olderThan_eq_nil.mpr h.2.1]
              rfl
          · cases h.1
      | emergencyCompact =>
          show ArchivesExactly call.state (archive 3 call.state call.episode) ↔ _
          rw [archivesExactly_archive]
          exact not_congr (and_iff_right rfl).symm

/-! ### The cooldown -/

/-- An archive or prune event. -/
def Payload.compresses : Payload → Bool
  | .episodeArchived .. | .contextPruned .. => true
  | _ => false

/-- The call wrote an archive or prune event. -/
def Compressed (out : Except String (Option Payload)) : Prop :=
  ∃ payload, out = .ok (some payload) ∧ payload.compresses = true

/-- The tier has something to do in this call. -/
def HasWork (call : CompressCall) : CompressionTier → Prop
  | .lazyClear => selectLowImportanceEvents call.state ≠ []
  | .episodeArchive => (2 < call.state.thoughtHistory.length ∨ 2 < call.state.toolResults.length) ∧
      ∃ episode, call.episode = .ok episode
  | .emergencyCompact => ∃ episode, call.episode = .ok episode

omit [Py] in
theorem compressed_archive {keep : ℕ} {st : RunState} {episode : Except String Episode} :
    Compressed (archive keep st episode) ↔ ∃ e, episode = .ok e := by
  cases episode with
  | error err =>
      rw [archive]
      refine iff_of_false ?_ ?_
      · rintro ⟨payload, hout, -⟩
        cases hout
      · rintro ⟨e, he⟩
        cases he
  | ok e =>
      rw [archive]
      exact iff_of_true ⟨_, rfl, rfl⟩ ⟨e, rfl⟩

/-- **A tier writes** exactly when it has something to do. -/
theorem compressed_runTier (call : CompressCall) (tier : CompressionTier) :
    Compressed (runTier call tier) ↔ HasWork call tier := by
  have hnone : ¬Compressed (.ok none) := by
    rintro ⟨payload, hout, -⟩
    cases hout
  cases tier with
  | lazyClear =>
      show Compressed (lazyClear call.state) ↔ selectLowImportanceEvents call.state ≠ []
      rw [lazyClear]
      split_ifs with hempty
      · exact iff_of_false hnone (not_not.mpr (List.isEmpty_iff.mp hempty))
      · exact iff_of_true ⟨_, rfl, rfl⟩ fun hnil => hempty (List.isEmpty_iff.mpr hnil)
  | episodeArchive =>
      show Compressed (archiveEpisode call.state call.episode) ↔ _ ∧ _
      rw [archiveEpisode]
      split_ifs with hempty
      · rw [Bool.and_eq_true, List.isEmpty_iff, List.isEmpty_iff, olderThan_eq_nil, olderThan_eq_nil] at hempty
        exact iff_of_false hnone fun h => by omega
      · rw [Bool.and_eq_true, List.isEmpty_iff, List.isEmpty_iff, olderThan_eq_nil, olderThan_eq_nil] at hempty
        rw [compressed_archive, and_iff_right]
        omega
  | emergencyCompact => exact compressed_archive

/-- The manager over a run of calls: its stamps, and each call with what it wrote. -/
structure CompressionRun where
  stamps : CompressionStamps := .empty
  calls : List (CompressCall × Except String (Option Payload)) := []

/-- One call. -/
def CompressionRun.step (s : CompressionRun) (call : CompressCall) : Option CompressionRun :=
  let out := maybeCompress cfg s.stamps call
  some { stamps := out.1, calls := s.calls ++ [(call, out.2)] }

/-- If the call gets as far as a tier, the tier has something to do. -/
def Productive (s : CompressionRun) (call : CompressCall) : Prop :=
  ∀ tier, chosenTier cfg s.stamps call = some tier → HasWork call tier

/-- **The cooldown counts compressions only**: a call above the emergency threshold that could archive
something and returns without writing is less than the cooldown after a call of the run that wrote. -/
def CooldownCounts (calls : List (CompressCall × Except String (Option Payload))) : Prop :=
  ∀ pre call post, calls = pre ++ (call, .ok none) :: post →
    cfg.emergencyThreshold < estimateContextTokens cfg call.state →
    (3 < call.state.thoughtHistory.length ∨ 3 < call.state.toolResults.length) →
    ∃ earlier ∈ pre, earlier.1.runId = call.runId ∧ Compressed earlier.2 ∧
      call.iteration - earlier.1.iteration < cfg.compressionCooldownIterations

/-- Each stamp is the iteration of a call that wrote. -/
def StampsWritten (s : CompressionRun) : Prop :=
  ∀ runId last, s.stamps.get? runId = some last →
    ∃ c ∈ s.calls, c.1.runId = runId ∧ c.1.iteration = last ∧ Compressed c.2

variable {cfg} {s t : CompressionRun} {call : CompressCall}

theorem StampsWritten.step (h : StampsWritten s) (hok : Productive cfg s call)
    (hstep : CompressionRun.step cfg s call = some t) : StampsWritten t := by
  obtain rfl := Option.some.inj hstep
  intro runId last hlast
  have hkeep (hold : s.stamps.get? runId = some last) :
      ∃ c ∈ s.calls ++ [(call, (maybeCompress cfg s.stamps call).2)],
        c.1.runId = runId ∧ c.1.iteration = last ∧ Compressed c.2 := by
    obtain ⟨c, hc, hrest⟩ := h runId last hold
    exact ⟨c, List.mem_append_left _ hc, hrest⟩
  cases htier : chosenTier cfg s.stamps call with
  | none =>
      apply hkeep
      rw [maybeCompress, htier] at hlast
      exact hlast
  | some tier =>
      have hnew : maybeCompress cfg s.stamps call =
          (s.stamps.set call.runId call.iteration, runTier call tier) := by rw [maybeCompress, htier]
      rw [hnew] at hlast
      obtain ⟨rfl, rfl⟩ | ⟨-, hold⟩ := Lib.Dict.get?_set_cases hlast
      · refine ⟨_, List.mem_append_right _ (List.mem_singleton_self _), rfl, rfl, ?_⟩
        rw [hnew]
        exact (compressed_runTier call tier).mpr (hok tier htier)
      · exact hkeep hold

/-- Above the emergency threshold only the cooldown keeps the tier from being run. -/
theorem chosenTier_of_emergency (stamps : CompressionStamps)
    (hestimate : cfg.emergencyThreshold < estimateContextTokens cfg call.state) :
    chosenTier cfg stamps call =
      if 0 < (stamps.get? call.runId).getD 0 &&
        call.iteration - (stamps.get? call.runId).getD 0 < cfg.compressionCooldownIterations then none
      else some .emergencyCompact := by
  have hguard : (call.state.planBoundarySeqs.getLast?.any fun n => call.state.seq < n) = false := by
    obtain ⟨es, -, hfold⟩ := call.reached
    rw [Option.any_eq_false]
    intro n hn
    exact decide_eq_false (Nat.not_lt.mpr (boundaries_foldEvents hfold n (List.mem_of_getLast? hn)))
  have hlazy : ¬estimateContextTokens cfg call.state ≤ cfg.lazyClearThreshold :=
    Nat.not_le.mpr ((cfg.lazy_le.trans cfg.compression_le).trans_lt hestimate)
  rw [chosenTier, hguard, if_neg Bool.false_ne_true, if_neg hlazy, if_pos hestimate]

/-- **Why a call above the emergency threshold returns without writing**: it is in the cooldown. -/
theorem stamp_of_skipped {stamps : CompressionStamps}
    (hestimate : cfg.emergencyThreshold < estimateContextTokens cfg call.state)
    (hout : (maybeCompress cfg stamps call).2 = .ok none) :
    ∃ last, stamps.get? call.runId = some last ∧
      call.iteration - last < cfg.compressionCooldownIterations := by
  have htier := chosenTier_of_emergency stamps hestimate
  split_ifs at htier with hcooldown
  · rw [Bool.and_eq_true, decide_eq_true_eq, decide_eq_true_eq] at hcooldown
    cases hlast : stamps.get? call.runId with
    | none =>
        rw [hlast] at hcooldown
        exact absurd hcooldown.1 (lt_irrefl 0)
    | some last =>
        rw [hlast] at hcooldown
        exact ⟨last, rfl, hcooldown.2⟩
  · -- the tier does not return without writing
    rw [maybeCompress, htier] at hout
    replace hout : archive 3 call.state call.episode = .ok none := hout
    cases hepisode : call.episode <;> rw [hepisode] at hout <;> cases hout

/-- **The cooldown counts compressions** in every run in which each call that gets as far as a tier has
something to do there. -/
theorem cooldown_counts_compressions (h : Lib.ReachesVia (CompressionRun.step cfg) (Productive cfg) {} s) :
    CooldownCounts cfg s.calls := by
  suffices hinv : StampsWritten s ∧ CooldownCounts cfg s.calls from hinv.2
  refine h.invariant (I := fun s => StampsWritten s ∧ CooldownCounts cfg s.calls) ⟨?_, ?_⟩ ?_
  · intro runId last hlast
    cases hlast
  · intro pre call post hsplit
    exact absurd hsplit.symm (List.append_ne_nil_of_right_ne_nil _ (List.cons_ne_nil _ _))
  · rintro s t call - hok ⟨hstamps, hcounts⟩ hstep
    refine ⟨hstamps.step hok hstep, ?_⟩
    obtain rfl := Option.some.inj hstep
    intro pre call' post hsplit hestimate hwork
    obtain ⟨rfl, hcall, -⟩ | ⟨rest, -, hold⟩ := Lib.entry_of_append hsplit
    · -- the call that was just made
      obtain ⟨rfl, hout⟩ := Prod.mk.inj hcall
      obtain ⟨last, hlast, hlt⟩ := stamp_of_skipped hestimate hout.symm
      obtain ⟨earlier, hmem, hrun, rfl, hwritten⟩ := hstamps call'.runId last hlast
      exact ⟨earlier, hmem, hrun, hwritten, hlt⟩
    · exact hcounts pre call' rest hold hestimate hwork

end manager

section sample

attribute [local instance] asciiPy

/-- A limit of ten tokens, one for each character. -/
def tenTokens : ContextSettings where
  count := String.length
  lazyClearThreshold := 6
  compressionThreshold := 8
  emergencyThreshold := 9
  compressionCooldownIterations := 10
  lazy_le := by decide
  compression_le := by decide

/-- What is written without a model. -/
def legacyEpisode : Episode :=
  { episodeRange := (0, 0), keyDecisions := [], toolsUsed := [], keyFindings := [], errorsEncountered := []
    originalEventRefs := [], title := "Legacy summary (no LLM)" }

/-- A run whose tool calls have these outputs. -/
def outputLog (outputs : List String) : List LogEvent :=
  ⟨"run_1", 1, .runStarted { intent := "list the files" }⟩ :: outputs.zipIdx.map fun (output, n) =>
    ⟨"run_1", n + 2, .toolCompleted
      { toolCallId := toString n, toolName := "list_files", output := .str output }⟩

/-- Its snapshot. -/
def outputState (outputs : List String) : RunState :=
  match foldEvents (outputLog outputs) with
  | .ok st => st
  | .error _ => { runId := "run_1" }

/-- A result that is longer than the limit. -/
def longCall : CompressCall where
  runId := "run_1"
  iteration := 1
  state := outputState ["fourteen chars"]
  episode := .ok legacyEpisode
  reached := ⟨outputLog ["fourteen chars"], by rw [InSequence]; decide, rfl⟩

/-- **One long result makes the emergency tier archive nothing**: the event it writes has no references. -/
theorem emergency_archives_nothing :
    (maybeCompress tenTokens .empty longCall).2 = .ok (some (.episodeArchived legacyEpisode 3 [])) ∧
      ¬ArchivesExactly longCall.state (maybeCompress tenTokens .empty longCall).2 := by
  have hout : (maybeCompress tenTokens .empty longCall).2 =
      .ok (some (.episodeArchived legacyEpisode 3 [])) := rfl
  exact ⟨hout, fun h => (h legacyEpisode 3 [] hout).1 rfl⟩

/-- A call with one result, between the first two thresholds. -/
def idleCall : CompressCall where
  runId := "run_1"
  iteration := 1
  state := outputState ["a.py, b"]
  episode := .ok legacyEpisode
  reached := ⟨outputLog ["a.py, b"], by rw [InSequence]; decide, rfl⟩

/-- A call with four results, above the limit. -/
def fullCall (iteration : ℤ) : CompressCall where
  runId := "run_1"
  iteration := iteration
  state := outputState ["a.py, b", "c.py", "d.py", "e.py"]
  episode := .ok legacyEpisode
  reached := ⟨outputLog ["a.py, b", "c.py", "d.py", "e.py"], by rw [InSequence]; decide, rfl⟩

/-- The cooldown after an archive counts it. -/
theorem archive_then_cooldown : CooldownCounts tenTokens
    [(fullCall 1, .ok (some (.episodeArchived legacyEpisode 3 [2]))), (fullCall 2, .ok none)] := by
  have hrun : Lib.ReachesVia (CompressionRun.step tenTokens) (Productive tenTokens) {}
      { stamps := .set .empty "run_1" 1
        calls := [(fullCall 1, .ok (some (.episodeArchived legacyEpisode 3 [2]))), (fullCall 2, .ok none)] } := by
    refine .tail (c := fullCall 2) (.tail (c := fullCall 1) .refl ?_ rfl) ?_ rfl
    · intro tier htier
      have hemergency : chosenTier tenTokens .empty (fullCall 1) = some .emergencyCompact := by decide +kernel
      obtain rfl := Option.some.inj (hemergency.symm.trans htier)
      exact ⟨legacyEpisode, rfl⟩
    · intro tier htier
      have hnone : chosenTier tenTokens (.set .empty "run_1" 1) (fullCall 2) = none := by decide +kernel
      cases hnone.symm.trans htier
  exact cooldown_counts_compressions hrun

/-- **A tier with nothing to do starts the cooldown**: after a call that prunes nothing, the next one is above
the emergency threshold, has a result to archive, and returns without writing. -/
theorem idle_call_starts_cooldown : ∃ s, Lib.Reaches (CompressionRun.step tenTokens) {} s ∧
    s.calls = [(idleCall, .ok none), (fullCall 2, .ok none)] ∧ ¬CooldownCounts tenTokens s.calls := by
  have hrun : Lib.Reaches (CompressionRun.step tenTokens) {}
      { stamps := .set .empty "run_1" 1, calls := [(idleCall, .ok none), (fullCall 2, .ok none)] } :=
    .tail (c := fullCall 2) (.tail (c := idleCall) .refl rfl) rfl
  refine ⟨_, hrun, rfl, fun h => ?_⟩
  obtain ⟨earlier, hmem, -, ⟨payload, hout, -⟩, -⟩ := h [(idleCall, .ok none)] (fullCall 2) [] rfl
    (by decide +kernel) (.inr (by decide +kernel))
  obtain rfl := List.mem_singleton.mp hmem
  cases hout

end sample

end JAgent
