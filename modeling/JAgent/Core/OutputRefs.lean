import JAgent.Core.DagTypes

/-! # Step-output references

`$step` and `$step.field` inside a step input.  One pattern serves the static validator and
the resolver, so a text is cut into pieces once (`pieces`): literal characters and references.
`collectRefs` walks an input the way the validator does; `parseOutputRefs` checks what it
finds. -/

namespace JAgent

section pattern
variable [Py]

/-- One piece of a text: a literal character or a reference. -/
inductive Piece where
  | lit (c : Char)
  | ref (name : List Char) (path : Option (List Char))
deriving DecidableEq

/-- The text a piece was cut from. -/
def Piece.text : Piece → List Char
  | .lit c => [c]
  | .ref name none => '$' :: name
  | .ref name (some path) => '$' :: name ++ '.' :: path

/-- `[A-Za-z_]`. -/
def isNameStart (c : Char) : Bool := c.isAlpha || c == '_'

/-- `[\w-]`. -/
def isNameChar (c : Char) : Bool := isWordChar c || c == '-'

/-- `[\w.]`. -/
def isPathChar (c : Char) : Bool := isWordChar c || c == '.'

/-- The optional `\.([\w.]+)` after a name. -/
def matchPath : List Char → Option (List Char) × List Char
  | '.' :: c :: rest =>
    if isPathChar c then (some (c :: rest.takeWhile isPathChar), rest.dropWhile isPathChar)
    else (none, '.' :: c :: rest)
  | cs => (none, cs)

/-- `\$([A-Za-z_][\w-]*)(?:\.([\w.]+))?` at the start of a text: name, path and rest. -/
def matchRef : List Char → Option (List Char × Option (List Char) × List Char)
  | '$' :: c :: rest =>
    if isNameStart c then
      let r := matchPath (rest.dropWhile isNameChar)
      some (c :: rest.takeWhile isNameChar, r.1, r.2)
    else none
  | _ => none

/-- Cut a text into pieces from left to right; `fuel` is at least its length. -/
def cut : ℕ → List Char → List Piece
  | 0, cs => cs.map .lit
  | _ + 1, [] => []
  | fuel + 1, c :: cs => match matchRef (c :: cs) with
    | some (name, path, rest) => .ref name path :: cut fuel rest
    | none => .lit c :: cut fuel cs

/-- The pieces of a text. -/
def pieces (s : String) : List Piece := cut s.toList.length s.toList

/-- The whole text is one reference, up to a final newline. -/
def matchPure (s : String) : Option (List Char × Option (List Char)) :=
  match matchRef s.toList with
  | some (name, path, []) => some (name, path)
  | some (name, path, ['\n']) => some (name, path)
  | _ => none

/-- All-numeric names are never step ids. -/
def isPlausibleStepId (sid : List Char) : Bool := !sid.isEmpty && !sid.all Char.isDigit

/-! ### Collecting references -/

/-- A collected reference: the top-level input field it sits in, its target, and whether it is
the whole value. -/
structure CollectedRef where
  topField : String
  ref : OutputRef
  isPure : Bool
deriving DecidableEq

def outputRef (name : List Char) (path : Option (List Char)) : OutputRef :=
  ⟨String.ofList name, String.ofList (path.getD [])⟩

/-- The references inside a text that is not one reference as a whole. -/
def inlineRefs (topField : String) : List Piece → List CollectedRef
  | [] => []
  | .lit _ :: ps => inlineRefs topField ps
  | .ref name path :: ps =>
    if isPlausibleStepId name then
      ⟨topField, outputRef name path, false⟩ :: inlineRefs topField ps
    else inlineRefs topField ps

/-- The references of one text. -/
def collectText (topField : String) (s : String) : List CollectedRef :=
  match matchPure s with
  | some (name, path) =>
    if isPlausibleStepId name then [⟨topField, outputRef name path, true⟩]
    else inlineRefs topField (pieces s)
  | none => inlineRefs topField (pieces s)

mutual
/-- `_collect_refs`. -/
def collectRefs : Value → Option String → List CollectedRef
  | .obj kvs, top => collectRefsObj kvs top
  | .arr xs, top => collectRefsList xs top
  | .str s, top => collectText (top.getD "") s
  | _, _ => []
def collectRefsObj : List (String × Value) → Option String → List CollectedRef
  | [], _ => []
  | (k, v) :: kvs, top => collectRefs v (some (top.getD k)) ++ collectRefsObj kvs top
def collectRefsList : List Value → Option String → List CollectedRef
  | [], _ => []
  | v :: vs, top => collectRefs v top ++ collectRefsList vs top
end

/-- The references of a step's input. -/
def stepRefs (step : DagStep) : List CollectedRef := collectRefs (.obj step.input) none

/-- The ids a step's input refers to. -/
def refIds (step : DagStep) : List String := (stepRefs step).map fun r => r.ref.stepId

end pattern

/-! ### Every reference of a text is collected -/

theorem isPlausibleStepId_cons {c : Char} (cs : List Char) (h : isNameStart c = true) :
    isPlausibleStepId (c :: cs) = true := by
  have hd : c.isDigit = false := by
    unfold isNameStart at h
    rw [Bool.or_eq_true, beq_iff_eq] at h
    rcases h with h | rfl
    · have h9 : '9'.val.toNat = 57 := rfl
      have hA : 'A'.val.toNat = 65 := rfl
      have ha : 'a'.val.toNat = 97 := rfl
      have halpha : c.isAlpha = (c.isUpper || c.isLower) := rfl
      have hupper : c.isUpper = decide (c.val ≥ 'A'.val ∧ c.val ≤ 'Z'.val) := rfl
      have hlower : c.isLower = (decide (c.val ≥ 'a'.val) && decide (c.val ≤ 'z'.val)) := rfl
      simp only [halpha, hupper, hlower, Char.isDigit, Bool.or_eq_true,
        Bool.and_eq_true, decide_eq_true_eq, Bool.and_eq_false_iff, decide_eq_false_iff_not,
        UInt32.le_iff_toNat_le, ge_iff_le] at h ⊢
      omega
    · decide
  simp [isPlausibleStepId, hd]

theorem mem_inlineRefs {top : String} {name : List Char} {path : Option (List Char)}
    (hp : isPlausibleStepId name = true) :
    ∀ {ps : List Piece}, .ref name path ∈ ps → ⟨top, outputRef name path, false⟩ ∈ inlineRefs top ps
  | .lit c :: ps, h => by
      rcases List.mem_cons.mp h with h | h
      · cases h
      · rw [inlineRefs]
        exact mem_inlineRefs hp h
  | .ref name' path' :: ps, h => by
      unfold inlineRefs
      rcases List.mem_cons.mp h with h | h
      · cases h
        rw [if_pos hp]
        exact List.mem_cons_self
      · split_ifs
        · exact List.mem_cons_of_mem _ (mem_inlineRefs hp h)
        · exact mem_inlineRefs hp h

section pattern
variable [Py]

theorem plausible_of_matchRef {cs name rest : List Char} {path : Option (List Char)}
    (h : matchRef cs = some (name, path, rest)) : isPlausibleStepId name = true := by
  unfold matchRef at h
  split at h
  · split_ifs at h with hc
    simp only [Option.some.injEq, Prod.mk.injEq] at h
    rw [← h.1]
    exact isPlausibleStepId_cons _ hc
  · simp at h

theorem plausible_of_mem_cut {name : List Char} {path : Option (List Char)} :
    ∀ (fuel : ℕ) (cs : List Char), .ref name path ∈ cut fuel cs → isPlausibleStepId name = true
  | 0, cs, h => by simp [cut] at h
  | _ + 1, [], h => by simp [cut] at h
  | fuel + 1, c :: cs, h => by
      unfold cut at h
      split at h
      next name' path' rest hm =>
        rcases List.mem_cons.mp h with h | h
        · cases h
          exact plausible_of_matchRef hm
        · exact plausible_of_mem_cut fuel rest h
      next =>
        rcases List.mem_cons.mp h with h | h
        · cases h
        · exact plausible_of_mem_cut fuel cs h

/-- A text that is one reference has no other reference in it. -/
theorem mem_pieces_of_matchPure {s : String} {name name' : List Char}
    {path path' : Option (List Char)} (h : matchPure s = some (name, path))
    (hm : .ref name' path' ∈ pieces s) : name' = name ∧ path' = path := by
  unfold matchPure at h
  unfold pieces at hm
  cases hcs : s.toList with
  | nil => simp [hcs, cut] at hm
  | cons c cs =>
      rw [hcs] at h hm
      simp only [List.length_cons, cut] at hm
      split at h
      next n p heq =>
        rw [heq] at hm
        cases h
        rcases List.mem_cons.mp hm with hm | hm
        · cases hm
          exact ⟨rfl, rfl⟩
        · cases hl : cs.length <;> simp [hl, cut] at hm
      next n p heq =>
        rw [heq] at hm
        cases h
        rcases List.mem_cons.mp hm with hm | hm
        · cases hm
          exact ⟨rfl, rfl⟩
        · cases hl : cs.length with
          | zero => simp [hl, cut] at hm
          | succ n =>
              rw [hl] at hm
              cases n <;> simp [cut, matchRef] at hm
      next => cases h

/-- Every reference inside a text is collected. -/
theorem exists_collectText {s : String} (top : String) {name : List Char} {path : Option (List Char)}
    (hm : .ref name path ∈ pieces s) :
    ∃ r ∈ collectText top s, r.ref = outputRef name path := by
  have hp : isPlausibleStepId name = true := plausible_of_mem_cut _ _ hm
  unfold collectText
  split
  next n p hpure =>
    obtain ⟨rfl, rfl⟩ := mem_pieces_of_matchPure hpure hm
    rw [if_pos hp]
    exact ⟨_, List.mem_singleton.mpr rfl, rfl⟩
  next => exact ⟨_, mem_inlineRefs hp hm, rfl⟩

end pattern

/-! ### Static validation -/

/-- `key in props`. -/
def propsContain (props : Value) (key : String) : Bool :=
  match props with
  | .obj kvs => (Obj.get? kvs key).isSome
  | .arr xs => xs.contains (.str key)
  | _ => false

/-- Shallow, lenient check that a schema knows the first segment of a field path. -/
def schemaHasField (schema : Obj) (fieldPath : String) : Bool :=
  if ((Obj.get? schema "additionalProperties").getD .null).truthy then true
  else
    let props := (Obj.get? schema "properties").getD .null
    if !props.truthy then true
    else if propsContain props "*" then true
    else if fieldPath = "" then true
    else propsContain props (String.ofList (fieldPath.toList.takeWhile (· ≠ '.')))

section validation
variable (registry : Registry)

/-- The check of one collected reference. -/
def refErrors (smap : Lib.Dict String DagStep) (validSteps : List String) (step : DagStep)
    (r : CollectedRef) : List PlanError :=
  if !validSteps.contains r.ref.stepId then [.unknownReference step.id r.ref.stepId]
  else if (match registry.getToolDef step.tool with
      | some td => !td.refAllowed r.topField
      | none => false) then [.refNotAllowed step.id r.topField]
  else if r.isPure && r.ref.fieldPath ≠ "" then
    match smap.get? r.ref.stepId with
    | some src => match registry.getToolDef src.tool with
      | some srcDef =>
        let op := srcDef.resolveOperation src.input
        let schema := match op with
          | some op => op.outputSchema
          | none => srcDef.outputSchema
        if schemaHasField schema r.ref.fieldPath then []
        else
          let label := match op with
            | some op => "'" ++ op.operation ++ "'"
            | none => "tool '" ++ srcDef.name ++ "'"
          [.refFieldMissing step.id r.ref.stepId r.ref.fieldPath label]
      | none => []
    | none => []
  else []

/-- `parse_output_refs`. -/
def parseOutputRefs [Py] (plan : DagPlan) (completed available : List String) : List PlanError :=
  let smap := stepMap plan.steps
  let validSteps := smap.keys ++ completed ++ available
  plan.steps.flatMap fun step => (stepRefs step).flatMap (refErrors registry smap validSteps step)

/-! ### What an accepted plan guarantees -/

variable {registry} {plan : DagPlan} {completed available : List String}

/-- The verdict on a known reference does not depend on how it became known. -/
theorem refErrors_congr {smap : Lib.Dict String DagStep} {V W : List String} {step : DagStep}
    {r : CollectedRef} (hv : r.ref.stepId ∈ V) (hw : r.ref.stepId ∈ W) :
    refErrors registry smap V step r = refErrors registry smap W step r := by
  unfold refErrors
  simp [hv, hw]

theorem mem_of_refErrors_eq_nil {smap : Lib.Dict String DagStep} {V : List String} {step : DagStep}
    {r : CollectedRef} (h : refErrors registry smap V step r = []) : r.ref.stepId ∈ V := by
  by_contra hv
  unfold refErrors at h
  simp [hv] at h

/-- A reference that passed sits in a field that allows references. -/
theorem allowed_of_refErrors {smap : Lib.Dict String DagStep} {V : List String} {step : DagStep}
    {r : CollectedRef} (h : refErrors registry smap V step r = []) :
    (match registry.getToolDef step.tool with
      | some td => !td.refAllowed r.topField
      | none => false) = false := by
  have hv : r.ref.stepId ∈ V := mem_of_refErrors_eq_nil h
  unfold refErrors at h
  rw [if_neg (by simpa using hv)] at h
  by_contra hc
  rw [Bool.not_eq_false] at hc
  rw [if_pos hc] at h
  cases h

/-- A known reference to a step outside the plan is checked for its field's role only. -/
theorem refErrors_external {smap : Lib.Dict String DagStep} {V : List String} {step : DagStep}
    {r : CollectedRef} (hv : r.ref.stepId ∈ V) (hout : smap.get? r.ref.stepId = none)
    (hallow : (match registry.getToolDef step.tool with
      | some td => !td.refAllowed r.topField
      | none => false) = false) : refErrors registry smap V step r = [] := by
  unfold refErrors
  rw [if_neg (by simpa using hv), if_neg (by rw [hallow]; exact Bool.false_ne_true), hout]
  split_ifs <;> rfl

/-- The check of a reference reads only the tool and the input of its target. -/
theorem refErrors_target {smap : Lib.Dict String DagStep} {V : List String} {step q q' : DagStep}
    {r : CollectedRef} (hv : r.ref.stepId ∈ V) (hget : smap.get? r.ref.stepId = some q')
    (hid : r.ref.stepId = q.id) (htool : q'.tool = q.tool) (hinput : q'.input = q.input) :
    refErrors registry smap V step r = refErrors registry (stepMap [q]) [q.id] step r := by
  have hsingle : (stepMap [q]).get? r.ref.stepId = some q := by
    rw [hid]
    exact get?_stepMap (by simp [stepIds]) List.mem_cons_self
  have hV : (!V.contains r.ref.stepId) = false := by simpa using hv
  have hQ : (!([q.id].contains r.ref.stepId)) = false := by simp [hid]
  unfold refErrors
  simp only [hV, hQ, hget, hsingle, htool, hinput]

theorem parseOutputRefs_eq_nil_iff [Py] :
    parseOutputRefs registry plan completed available = [] ↔
      ∀ step ∈ plan.steps, ∀ r ∈ stepRefs step,
        refErrors registry (stepMap plan.steps)
          ((stepMap plan.steps).keys ++ completed ++ available) step r = [] := by
  unfold parseOutputRefs
  simp only [List.flatMap_eq_nil_iff]

/-- **References of an accepted plan target known steps.** -/
theorem ref_of_valid [Py] (h : parseOutputRefs registry plan completed available = [])
    {step : DagStep} (hs : step ∈ plan.steps) {sid : String} (hsid : sid ∈ refIds step) :
    sid ∈ stepIds plan.steps ∨ sid ∈ completed ∨ sid ∈ available := by
  obtain ⟨r, hr, rfl⟩ := List.mem_map.mp hsid
  have := mem_of_refErrors_eq_nil (parseOutputRefs_eq_nil_iff.mp h step hs r hr)
  simp only [List.mem_append, mem_keys_stepMap] at this
  tauto

end validation
end JAgent
