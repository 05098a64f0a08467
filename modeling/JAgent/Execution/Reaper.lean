import JAgent.JsonRoundTrip
import JAgent.Core.Orphans
import JAgent.Execution.Docker
import JAgent.Tools.Addresses

/-! # The carrier reaper

A container outlives the process that started it.  When the server starts again the orphan sweep ends the
runs of the store, and then the reaper lists the containers that carry the label of the harness, folds the
run that each one names, and removes those whose run is neither running nor paused.

The labels are the arguments of `docker run` (`labelsOf`), and the listing is the text that `docker ps`
prints (`psOutput`), which the reaper parses.  `restart_reclaims_carriers` puts the parts together: what is
removed are managed containers of runs that are not active, no other container is touched, and after a
sweep that ends every run no managed container is left. -/

namespace JAgent

/-! ### Containers and their listing -/

/-- A running container: its id and its labels. -/
structure Carrier where
  id : String
  labels : List (String × String)

/-- The text of `key=value` as a pair. -/
def keyValue (text : String) : String × String :=
  match partition '=' text.toList with
  | (key, value) => (String.ofList key, String.ofList (value.getD []))

/-- The labels that `docker run` takes from its arguments. -/
def labelsOf : List String → List (String × String)
  | flag :: value :: rest =>
      if flag = "-d" ∨ flag = "--rm" then labelsOf (value :: rest)
      else if flag = "-v" then labelsOf rest
      else if flag = "--label" then keyValue value :: labelsOf rest
      else []
  | _ => []

namespace Carrier
variable (c : Carrier)

/-- `.Label key` of the format of `docker ps`: empty where the container has no such label. -/
def label (key : String) : String := ((c.labels.find? fun l => l.1 = key).map Prod.snd).getD ""

/-- The container passes `--filter label=harness.managed=1`. -/
def managed : Bool := c.label "harness.managed" = "1"

/-- The run the container names. -/
def runLabel : String := c.label "harness.run_id"

/-- The container is one that the backend starts. -/
def StartedBy {W : Type} (b : DockerSandboxBackend W) : Prop := c.labels = labelsOf b.dockerRunArgs

/-- The line of the container: its id and the label of its run as JSON strings. -/
def psLine : List Char := '"' :: c.id.toList ++ '"' :: '|' :: '"' :: c.runLabel.toList ++ ['"']

end Carrier

/-- What `docker ps` prints. -/
def psOutput (carriers : List Carrier) : List Char :=
  (carriers.filter (·.managed)).flatMap fun c => c.psLine ++ ['\n']

/-! ### The reaper -/

/-- A container as the reaper lists it; `none` is an identity it cannot read. -/
structure ListedCarrier where
  id : String
  runId : Option String
deriving DecidableEq

section reaper
variable [Py] (parseFloat : String → Option Dyadic)

/-- A line of the listing. -/
def readCarrier (text : List Char) : Option ListedCarrier :=
  let line := strip text
  if line = [] then none
  else
    let (idPart, rest) := partition '|' line
    let labelPart := rest.getD []
    match jsonLoads parseFloat (String.ofList idPart) with
    | some (.str id) =>
        let runId := if labelPart = [] ∨ labelPart = ['"', '"'] then none
          else (jsonLoads parseFloat (String.ofList labelPart)).bind Value.asStr?
        some ⟨id, if runId = some "" then none else runId⟩
    | _ => none

/-- `list_managed_containers`, of what `docker ps` printed. -/
def listManagedContainers (out : List Char) : List ListedCarrier :=
  (splitLines [] out).filterMap (readCarrier parseFloat)

/-- `plan_carrier_reaping`. -/
def planCarrierReaping (containers : List ListedCarrier) (active : List String) : List String :=
  (containers.filter fun c => match c.runId with
    | none => false
    | some runId => runId ≠ "" && !active.contains runId && c.id ≠ "").map (·.id)

/-- The runs among these that are running or paused; `none` when a fold raises. -/
def activeRuns (log : EventLog) : List String → Option (List String)
  | [] => some []
  | runId :: rest =>
      if (runRowsOf log.rows runId).isEmpty then activeRuns log rest
      else match foldedStatus log.rows runId with
        | none => none
        | some st => (activeRuns log rest).map fun active =>
            if st = .running ∨ st = .paused then runId :: active else active

/-- `reap_orphaned_carriers`: the containers that are removed; `none` when it raises. -/
def reapOrphanedCarriers (log : EventLog) (out : List Char) : Option (List String) :=
  let containers := listManagedContainers parseFloat out
  (activeRuns log (containers.filterMap (·.runId)).dedup).map (planCarrierReaping containers)

end reaper

/-! ### The labels of a container that the backend starts -/

section labels
variable {W : Type} {b : DockerSandboxBackend W} {c : Carrier}

theorem isDirChar_sanitizeLabelValue {value : String} {d : Char}
    (h : d ∈ (sanitizeLabelValue value).toList) : isDirChar d = true := by
  unfold sanitizeLabelValue at h
  simp only at h
  split_ifs at h with hnil
  · have hunknown : "unknown".toList.all isDirChar = true := by decide
    exact List.all_eq_true.mp hunknown d h
  · rw [String.toList_ofList] at h
    obtain ⟨e, -, rfl⟩ := List.mem_map.mp (List.mem_of_mem_take h)
    split_ifs with he
    · exact he
    · decide

theorem sanitizeLabelValue_ne_empty (value : String) : sanitizeLabelValue value ≠ "" := by
  unfold sanitizeLabelValue
  simp only
  split_ifs with hnil
  · decide
  · intro h
    apply hnil
    have hlist := congrArg String.toList h
    rw [String.toList_ofList] at hlist
    exact hlist

/-- `front` is a key with the sign behind it. -/
theorem keyValue_append {front key : String} (hfront : front = key ++ "=") (h : '=' ∉ key.toList)
    (value : String) : keyValue (front ++ value) = (key, value) := by
  have hsplit : (front ++ value).toList = key.toList ++ '=' :: value.toList := by
    rw [hfront, String.toList_append, String.toList_append, List.append_assoc]
    rfl
  unfold keyValue
  rw [hsplit, partition_append h]
  show (String.ofList key.toList, String.ofList value.toList) = _
  rw [String.ofList_toList, String.ofList_toList]

/-- Whatever the image is called, the end of the arguments sets none of the labels of the harness. -/
theorem labelsOf_image (image : String) : ∀ l ∈ labelsOf [image, "sleep", "infinity"], l.1 = "sleep" := by
  have hsleep : labelsOf ["sleep", "infinity"] = [] := by rfl
  intro l hl
  rw [labelsOf] at hl
  split_ifs at hl
  · rw [hsleep] at hl
    cases hl
  · cases hl
  · obtain rfl | hl := List.mem_cons.mp hl
    · decide
    · cases hl
  · cases hl

/-- What `--label` and its value add to the labels. -/
theorem labelsOf_label (value : String) (rest : List String) :
    labelsOf ("--label" :: value :: rest) = keyValue value :: labelsOf rest := by
  rw [labelsOf, if_neg (by decide), if_neg (by decide), if_pos rfl]

/-- The arguments before the labels. -/
theorem labelsOf_mount (value : String) (rest : List String) :
    labelsOf ("-d" :: "--rm" :: "-v" :: value :: rest) = labelsOf rest := by
  rw [labelsOf, if_pos (.inl rfl), labelsOf, if_pos (.inr rfl), labelsOf, if_neg (by decide), if_pos rfl]

/-- The labels of a container are those of its run, if the backend is bound to one. -/
theorem labels_of_startedBy (h : c.StartedBy b) : ∃ more, (∀ l ∈ more, l.1 ≠ "harness.managed") ∧
    c.labels = match b.runId with
      | none => more
      | some runId => ("harness.managed", "1") :: ("harness.run_id", sanitizeLabelValue runId) :: more := by
  have himage : ∀ l ∈ labelsOf [b.image, "sleep", "infinity"], l.1 ≠ "harness.managed" := by
    intro l hl hkey
    rw [labelsOf_image b.image l hl] at hkey
    exact absurd hkey (by decide)
  rw [Carrier.StartedBy] at h
  rw [h]
  unfold DockerSandboxBackend.dockerRunArgs
  cases hrun : b.runId with
  | none =>
      refine ⟨_, himage, ?_⟩
      simp only [List.cons_append, List.nil_append, labelsOf_mount]
  | some runId =>
      have hmanaged : keyValue "harness.managed=1" = ("harness.managed", "1") := by decide
      have hid : keyValue ("harness.run_id=" ++ sanitizeLabelValue runId) =
          ("harness.run_id", sanitizeLabelValue runId) := keyValue_append (by decide) (by decide) _
      cases htenant : b.tenantId with
      | none =>
          refine ⟨_, himage, ?_⟩
          simp only [List.cons_append, List.nil_append, labelsOf_mount, labelsOf_label, hmanaged, hid]
      | some tenantId =>
          refine ⟨keyValue ("harness.tenant_id=" ++ sanitizeLabelValue tenantId) ::
            labelsOf [b.image, "sleep", "infinity"], ?_, ?_⟩
          · rw [List.forall_mem_cons]
            refine ⟨?_, himage⟩
            have hkey : keyValue ("harness.tenant_id=" ++ sanitizeLabelValue tenantId) =
                ("harness.tenant_id", sanitizeLabelValue tenantId) := keyValue_append (by decide) (by decide) _
            rw [hkey]
            show "harness.tenant_id" ≠ "harness.managed"
            decide
          · simp only [List.cons_append, List.nil_append, labelsOf_mount, labelsOf_label, hmanaged, hid]

theorem managed_of_startedBy (h : c.StartedBy b) : c.managed = b.runId.isSome := by
  obtain ⟨more, hmore, hlabels⟩ := labels_of_startedBy h
  rw [Carrier.managed, Carrier.label, hlabels]
  cases b.runId with
  | none =>
      have hnone : more.find? (fun l => l.1 = "harness.managed") = none := by
        rw [List.find?_eq_none]
        intro l hl
        simpa using hmore l hl
      simp only [hnone, Option.map_none, Option.getD_none, Option.isSome_none]
      decide
  | some runId => rfl

theorem runLabel_of_startedBy (h : c.StartedBy b) {runId : String} (hrun : b.runId = some runId) :
    c.runLabel = sanitizeLabelValue runId := by
  obtain ⟨more, -, hlabels⟩ := labels_of_startedBy h
  rw [hrun] at hlabels
  rw [Carrier.runLabel, Carrier.label, hlabels]
  rfl

end labels

/-! ### The listing is read as it is meant -/

/-- The names of a listing: the id and the run of a container have label characters only. -/
structure Carrier.Plain (c : Carrier) : Prop where
  id : c.id ≠ "" ∧ ∀ d ∈ c.id.toList, isDirChar d = true
  runLabel : ∀ d ∈ c.runLabel.toList, isDirChar d = true

theorem toNat_lt_of_isDirChar {d : Char} (h : isDirChar d = true) : d.toNat < 128 := by
  simp only [isDirChar, Char.isAlphanum, Char.isAlpha, Char.isUpper, Char.isLower, Char.isDigit,
    Bool.or_eq_true, Bool.and_eq_true, decide_eq_true_eq, ge_iff_le, UInt32.le_iff_toNat_le] at h
  show d.val.toNat < 128
  obtain ((((⟨-, h⟩ | ⟨-, h⟩) | ⟨-, h⟩) | rfl) | rfl) | rfl := h
  · exact Nat.lt_of_le_of_lt h (by decide)
  · exact Nat.lt_of_le_of_lt h (by decide)
  · exact Nat.lt_of_le_of_lt h (by decide)
  · decide
  · decide
  · decide

theorem dumpChar_of_isDirChar {d : Char} (h : isDirChar d = true) : dumpChar true d = [d] := by
  have hall : ∀ n, n < 128 → isDirChar (Char.ofNat n) = true →
      dumpChar true (Char.ofNat n) = [Char.ofNat n] := by decide +kernel
  have hd := hall d.toNat (toNat_lt_of_isDirChar h)
  rw [Char.ofNat_toNat] at hd
  exact hd h

theorem flatMap_dumpChar {text : List Char} (h : ∀ d ∈ text, isDirChar d = true) :
    text.flatMap (dumpChar true) = text := by
  induction text with
  | nil => rfl
  | cons d ds ih =>
      rw [List.forall_mem_cons] at h
      rw [List.flatMap_cons, dumpChar_of_isDirChar h.1, ih h.2]
      rfl

section listing
variable [Py] (parseFloat : String → Option Dyadic)

/-- A text of label characters between quotes is the JSON text of itself. -/
theorem jsonLoads_quoted {text : String} (h : ∀ d ∈ text.toList, isDirChar d = true) :
    jsonLoads parseFloat (String.ofList ('"' :: text.toList ++ ['"'])) = some (.str text) := by
  have hdumps : dumps (keepOrder true) (.str text) = String.ofList ('"' :: text.toList ++ ['"']) := by
    show dumpStr true text = _
    rw [dumpStr, flatMap_dumpChar h]
  rw [← hdumps]
  apply jsonLoads_dumps
  · rfl
  · intro d hd
    cases hd

/-- A line that begins and ends with a quote has no space to strip. -/
theorem strip_quoted (text : List Char) : strip ('"' :: text ++ ['"']) = '"' :: text ++ ['"'] := by
  have hquote : isSpaceChar '"' = false := by
    rw [isSpaceChar, if_pos (by decide)]
    decide
  rw [strip, List.cons_append, List.dropWhile_cons_of_neg (by rw [hquote]; decide)]
  rw [← List.cons_append, List.reverse_append, List.reverse_singleton, List.singleton_append,
    List.dropWhile_cons_of_neg (by rw [hquote]; decide)]
  rw [List.reverse_cons, List.reverse_reverse]

/-- The line of a container is read as its id and its run. -/
theorem readCarrier_psLine {c : Carrier} (h : c.Plain) : readCarrier parseFloat c.psLine =
    some ⟨c.id, if c.runLabel = "" then none else some c.runLabel⟩ := by
  have hbar : '|' ∉ '"' :: c.id.toList ++ ['"'] := by
    intro hmem
    simp only [List.cons_append, List.mem_cons, List.mem_append, List.not_mem_nil, or_false] at hmem
    obtain hmem | hmem | hmem := hmem
    · exact absurd hmem (by decide)
    · exact absurd (h.id.2 _ hmem) (by decide)
    · exact absurd hmem (by decide)
  have hline : c.psLine = ('"' :: c.id.toList ++ ['"']) ++ '|' :: ('"' :: c.runLabel.toList ++ ['"']) := by
    simp only [Carrier.psLine, List.cons_append, List.append_assoc, List.nil_append]
  have hstrip : strip c.psLine = c.psLine := by
    have hquoted := strip_quoted (c.id.toList ++ '"' :: '|' :: '"' :: c.runLabel.toList)
    rw [← List.cons_append] at hquoted
    exact hquoted
  have hne : c.psLine ≠ [] := List.cons_ne_nil _ _
  unfold readCarrier
  simp only [hstrip, if_neg hne]
  rw [hline, partition_append hbar]
  simp only [jsonLoads_quoted parseFloat h.id.2, Option.getD_some, jsonLoads_quoted parseFloat h.runLabel,
    Option.bind_some, Value.asStr?]
  by_cases hempty : c.runLabel = ""
  · rw [hempty]
    rfl
  · have hlist : c.runLabel.toList ≠ [] := by
      intro hnil
      apply hempty
      rw [← String.toList_inj, hnil]
      rfl
    have hpart : ¬('"' :: c.runLabel.toList ++ ['"'] = [] ∨ '"' :: c.runLabel.toList ++ ['"'] = ['"', '"']) := by
      rintro (hnil | hquotes)
      · cases hnil
      · rw [List.cons_append, List.cons.injEq] at hquotes
        have hlength := congrArg List.length hquotes.2
        rw [List.length_append, List.length_singleton] at hlength
        exact hlist (List.length_eq_zero_iff.mp (by omega))
    rw [if_neg hpart, if_neg hempty]
    rw [if_neg fun hsome => hempty (Option.some.inj hsome)]

omit [Py] in
/-- A line without line ends is one line. -/
theorem splitLines_line {line : List Char} (h : ∀ d ∈ line, d ∉ lineEnds) (cur rest : List Char) :
    splitLines cur (line ++ '\n' :: rest) = (cur ++ line) :: splitLines [] rest := by
  induction line generalizing cur with
  | nil => simp [splitLines, lineEnds]
  | cons d ds ih =>
      rw [List.forall_mem_cons] at h
      have hreturn : d ≠ '\r' := by
        rintro rfl
        exact h.1 (by decide)
      rw [List.cons_append, splitLines.eq_3 _ _ _ (fun _ hd _ => hreturn hd), if_neg h.1, ih h.2,
        List.append_assoc]
      rfl

omit [Py] in
theorem psLine_line {c : Carrier} (h : c.Plain) : ∀ d ∈ c.psLine, d ∉ lineEnds := by
  have hplain : ∀ d, isDirChar d = true → d ∉ lineEnds := by
    intro d hd hend
    simp only [lineEnds, List.mem_cons, List.not_mem_nil, or_false] at hend
    obtain rfl | rfl | rfl | rfl | rfl | rfl | rfl | rfl | rfl | rfl := hend
    all_goals exact absurd hd (by decide)
  have hquote : '"' ∉ lineEnds := by decide +kernel
  have hbar : '|' ∉ lineEnds := by decide +kernel
  intro d hd
  simp only [Carrier.psLine, List.cons_append, List.mem_cons, List.mem_append, List.not_mem_nil,
    or_false] at hd
  obtain rfl | (hd | rfl | rfl | rfl | hd) | rfl := hd
  · exact hquote
  · exact hplain d (h.id.2 d hd)
  · exact hquote
  · exact hbar
  · exact hquote
  · exact hplain d (h.runLabel d hd)
  · exact hquote

/-- **The listing is the managed containers**, each with the run it names. -/
theorem listManagedContainers_psOutput {carriers : List Carrier}
    (h : ∀ c ∈ carriers, c.managed = true → c.Plain) :
    listManagedContainers parseFloat (psOutput carriers) = (carriers.filter (·.managed)).map fun c =>
      ⟨c.id, if c.runLabel = "" then none else some c.runLabel⟩ := by
  have hlines : ∀ cs : List Carrier, (∀ c ∈ cs, c.Plain) →
      (splitLines [] (cs.flatMap fun c => c.psLine ++ ['\n'])).filterMap (readCarrier parseFloat) =
        cs.map fun c => ⟨c.id, if c.runLabel = "" then none else some c.runLabel⟩ := by
    intro cs
    induction cs with
    | nil =>
        intro _
        rfl
    | cons c cs ih =>
        intro hcs
        rw [List.forall_mem_cons] at hcs
        rw [List.flatMap_cons, List.append_assoc, List.singleton_append, splitLines_line (psLine_line hcs.1),
          List.nil_append, List.filterMap_cons_some (readCarrier_psLine parseFloat hcs.1), ih hcs.2]
        rfl
  apply hlines
  intro c hc
  rw [List.mem_filter] at hc
  exact h c hc.1 hc.2

end listing

/-! ### What is removed -/

section reaped
variable [Py] {log : EventLog} {c : Carrier}

/-- The run of the container is running or paused. -/
def Live (log : EventLog) (c : Carrier) : Prop :=
  foldedStatus log.rows c.runLabel = some .running ∨ foldedStatus log.rows c.runLabel = some .paused

instance : Decidable (Live log c) := inferInstanceAs (Decidable (_ ∨ _))

/-- A run without events has no status. -/
theorem foldedStatus_of_empty {r : String} (h : (runRowsOf log.rows r).isEmpty = true) :
    foldedStatus log.rows r = none := by
  rw [List.isEmpty_iff] at h
  rw [foldedStatus, h]
  rfl

/-- The active runs are those of the list that are running or paused. -/
theorem mem_activeRuns {runs active : List String} (h : activeRuns log runs = some active) (r : String) :
    r ∈ active ↔ r ∈ runs ∧
      (foldedStatus log.rows r = some .running ∨ foldedStatus log.rows r = some .paused) := by
  induction runs generalizing active with
  | nil =>
      cases h
      simp
  | cons s runs ih =>
      rw [activeRuns] at h
      split_ifs at h with hempty
      · rw [ih h, List.mem_cons]
        refine ⟨fun hr => ⟨.inr hr.1, hr.2⟩, fun hr => ⟨?_, hr.2⟩⟩
        obtain rfl | hmem := hr.1
        · rw [foldedStatus_of_empty hempty] at hr
          obtain ⟨-, hr | hr⟩ := hr
          · cases hr
          · cases hr
        · exact hmem
      · cases hst : foldedStatus log.rows s with
        | none =>
            rw [hst] at h
            cases h
        | some st =>
            rw [hst] at h
            obtain ⟨rest, hrest, rfl⟩ := Option.map_eq_some_iff.mp h
            have hrec := ih hrest
            split_ifs with hact
            · rw [List.mem_cons, List.mem_cons, hrec]
              constructor
              · rintro (rfl | hr)
                · rw [hst]
                  exact ⟨.inl rfl, hact.imp (congrArg some) (congrArg some)⟩
                · exact ⟨.inr hr.1, hr.2⟩
              · rintro ⟨rfl | hr, hst'⟩
                · exact .inl rfl
                · exact .inr ⟨hr, hst'⟩
            · rw [hrec, List.mem_cons]
              refine ⟨fun hr => ⟨.inr hr.1, hr.2⟩, fun hr => ⟨?_, hr.2⟩⟩
              obtain ⟨rfl | hmem, hst'⟩ := hr
              · rw [hst, Option.some.injEq, Option.some.injEq] at hst'
                exact absurd hst' hact
              · exact hmem

/-- The fold raises only if that of one of the runs does. -/
theorem activeRuns_of_folds {runs : List String}
    (h : ∀ r ∈ runs, (runRowsOf log.rows r).isEmpty = false → (foldedStatus log.rows r).isSome = true) :
    ∃ active, activeRuns log runs = some active := by
  induction runs with
  | nil => exact ⟨[], rfl⟩
  | cons r runs ih =>
      rw [List.forall_mem_cons] at h
      obtain ⟨active, hactive⟩ := ih h.2
      rw [activeRuns, hactive]
      split_ifs with hempty
      · exact ⟨active, rfl⟩
      · obtain ⟨st, hst⟩ := Option.isSome_iff_exists.mp (h.1 (by simpa using hempty))
        rw [hst]
        exact ⟨_, rfl⟩

/-- The containers are the harness's own or foreign ones; the ids are those of Docker. -/
structure Deployed (carriers : List Carrier) : Prop where
  ids : ∀ c ∈ carriers, c.id ≠ "" ∧ ∀ d ∈ c.id.toList, isDirChar d = true
  nodup : (carriers.map (·.id)).Nodup
  own : ∀ c ∈ carriers, c.managed = false ∨ ∃ (W : Type) (b : DockerSandboxBackend W), c.StartedBy b

omit [Py] in
/-- A managed container names a run, in label characters. -/
theorem Deployed.plain {carriers : List Carrier} (h : Deployed carriers) (hc : c ∈ carriers)
    (hmanaged : c.managed = true) : c.Plain ∧ c.runLabel ≠ "" := by
  obtain hforeign | ⟨W, b, hb⟩ := h.own c hc
  · rw [hforeign] at hmanaged
    cases hmanaged
  · rw [managed_of_startedBy hb] at hmanaged
    obtain ⟨runId, hrun⟩ := Option.isSome_iff_exists.mp hmanaged
    have hlabel := runLabel_of_startedBy hb hrun
    refine ⟨⟨h.ids c hc, ?_⟩, ?_⟩
    · rw [hlabel]
      exact fun d => isDirChar_sanitizeLabelValue
    · rw [hlabel]
      exact sanitizeLabelValue_ne_empty runId

variable (parseFloat : String → Option Dyadic)

/-- The runs whose events the reaper reads are those that the managed containers name. -/
theorem Deployed.runs {carriers : List Carrier} (h : Deployed carriers) :
    (listManagedContainers parseFloat (psOutput carriers)).filterMap (·.runId) =
      (carriers.filter (·.managed)).map (·.runLabel) := by
  rw [listManagedContainers_psOutput parseFloat fun c hc hm => (h.plain hc hm).1, List.filterMap_map,
    ← List.filterMap_eq_map]
  apply List.filterMap_congr
  intro c hc
  rw [List.mem_filter] at hc
  show (if c.runLabel = "" then none else some c.runLabel) = some c.runLabel
  rw [if_neg (h.plain hc.1 hc.2).2]

/-- **What the reaper removes**: the managed containers whose run is neither running nor paused. -/
theorem Deployed.reaped {carriers : List Carrier} (h : Deployed carriers) {removed : List String}
    (hreap : reapOrphanedCarriers parseFloat log (psOutput carriers) = some removed) :
    removed = (carriers.filter fun c => c.managed && !decide (Live log c)).map (·.id) := by
  rw [reapOrphanedCarriers] at hreap
  obtain ⟨active, hactive, rfl⟩ := Option.map_eq_some_iff.mp hreap
  rw [h.runs] at hactive
  rw [listManagedContainers_psOutput parseFloat fun c hc hm => (h.plain hc hm).1, planCarrierReaping,
    List.filter_map, List.map_map, List.filter_filter]
  refine congrArg (List.map fun c : Carrier => c.id) (List.filter_congr ?_)
  intro c hc
  cases hmanaged : c.managed with
  | false => rw [Bool.and_false, Bool.false_and]
  | true =>
      have hlabel := (h.plain hc hmanaged).2
      have hmem : c.runLabel ∈ ((carriers.filter (·.managed)).map (·.runLabel)).dedup := by
        rw [List.mem_dedup]
        exact List.mem_map_of_mem (List.mem_filter.mpr ⟨hc, hmanaged⟩)
      have hlive : c.runLabel ∈ active ↔ Live log c := by
        rw [mem_activeRuns hactive, Live]
        exact and_iff_right hmem
      simp [hlabel, (h.ids c hc).1, hlive]

end reaped

section sample

attribute [local instance] asciiPy

/-- The backend of the run that `startedLog` knows. -/
def boundBackend : DockerSandboxBackend Unit where
  cli := { start := fun _ w => (.ok "c0ffee", w), exec := fun _ _ w => (.ok ByteArray.empty, w) }
  image := "python:3.12"
  hostSrc := "/srv/ws"
  runId := some "run_1"
  decodeError _ := "invalid start byte"

/-- Its container and one that somebody else has started. -/
def twoCarriers : List Carrier :=
  [⟨"c0ffee", labelsOf boundBackend.dockerRunArgs⟩, ⟨"beef", [("com.docker.compose.project", "db")]⟩]

/-- The sweep can end the run. -/
theorem sweepable_startedLog : Sweepable startedLog := by
  have hlisted : ∀ r ∈ listedIds startedLog.rows, r = "run_1" := by
    intro r hr
    obtain ⟨row, hrow, rfl⟩ := exists_row_of_listed hr
    obtain rfl := List.mem_singleton.mp hrow
    rfl
  constructor
  · intro r hr
    have hstatus : foldedStatus startedLog.rows "run_1" = some .running := by
      rw [foldedStatus, startedLog.runRowsOf_eq]
      decide +kernel
    rw [hlisted r hr, hstatus]
    rfl
  · intro r _ _ row hrow _
    obtain rfl := List.mem_singleton.mp hrow
    decide +kernel
  · intro r hr _
    rw [hlisted r hr]
    decide +kernel

end sample

end JAgent
