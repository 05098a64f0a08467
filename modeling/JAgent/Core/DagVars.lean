import JAgent.Core.OutputRefs

/-! # Resolving references in a step input

The resolver of the executor.  A whole-value reference becomes the referenced value; inside
other text a reference becomes its `str`; a name that is not in the upstream map is kept as
text; a missing field is an error.  Arrays are resolved one level deep only.

`replaced` says that an input was fully resolved against the outputs of the referenced steps;
`resolveVariablesInInput_replaced` gives the condition under which the resolver achieves it. -/

namespace JAgent

/-- `VariableResolutionError`. -/
structure VarError where
  varName : String
  path : String
  availableKeys : List String
deriving DecidableEq

def VarError.message [Py] (e : VarError) : String :=
  "Cannot resolve '$" ++ e.varName ++ "." ++ e.path ++ "' — step '" ++ e.varName ++
    "' output has no field '" ++ e.path ++ "'" ++
    (if e.availableKeys.isEmpty then ""
      else ". Available fields: " ++ reprStrs (e.availableKeys.insertionSort (· ≤ ·)))

/-- `path.split(".")`. -/
def splitDots : List Char → List (List Char)
  | [] => [[]]
  | c :: cs => if c = '.' then [] :: splitDots cs else match splitDots cs with
    | [] => [[c]]
    | p :: ps => (c :: p) :: ps

/-- Top-level keys and one level of dotted keys, for the error text. -/
def collectKeys : Value → List String
  | .obj kvs => kvs.foldl (fun keys kv =>
      let keys := keys ++ [kv.1]
      match kv.2 with
      | .obj sub => sub.foldl (fun keys nk =>
          let dotted := kv.1 ++ "." ++ nk.1
          if keys.contains dotted then keys else keys ++ [dotted]) keys
      | _ => keys) []
  | _ => []

section resolution
variable [Py]

/-- A value read as an object: an object itself, or text that decodes to one. -/
def asDict : Value → Option Obj
  | .obj kvs => some kvs
  | .str s => (Py.loads s).bind Value.asObj?
  | _ => none

/-- Follow a path; `none` when a field is missing. -/
def traverse : List String → Value → Option Value
  | [], v => some v
  | part :: parts, v => match asDict v with
    | some kvs => match Obj.get? kvs part with
      | some w => traverse parts w
      | none => none
    | none => none

/-- Follow a path through objects only. -/
def walkDict : List String → Value → Option Value
  | [], v => some v
  | part :: parts, .obj kvs => match Obj.get? kvs part with
    | some w => walkDict parts w
    | none => none
  | _ :: _, _ => none

/-- The loop of `deep_resolve` over the values of one object. -/
def deepLoop (deep : Obj → Value) (parts : List String) : Obj → Value
  | [] => .null
  | (_, v) :: rest => match asDict v with
    | some kvs => match walkDict parts (.obj kvs) with
      | some w => w
      | none => if deep kvs = .null then deepLoop deep parts rest else deep kvs
    | none => deepLoop deep parts rest

/-- `deep_resolve` with `fuel` levels left. -/
def deepResolve : ℕ → List String → Obj → Value
  | 0, _, _ => .null
  | fuel + 1, parts, output => deepLoop (deepResolve fuel parts) parts output

/-- The part of `_resolve_ref` that works on the referenced output. -/
def resolvePath (varName : String) (value : Value) (path : Option (List Char)) :
    Except VarError Value :=
  match value, path with
  | .null, _ => .ok .null
  | value, none => .ok value
  | value, some path =>
    let parts := (splitDots path).map String.ofList
    match traverse parts value with
    | some w => .ok w
    | none =>
      let found := match value with
        | .obj kvs => deepResolve 6 parts kvs
        | _ => .null
      if found = .null then .error ⟨varName, String.ofList path, collectKeys value⟩ else .ok found

/-- `_resolve_ref`; `none` stands for the sentinel "not a key of upstream". -/
def resolveRef (varName : List Char) (path : Option (List Char)) (upstream : Lib.Dict String Value) :
    Except VarError (Option Value) :=
  match upstream.get? (String.ofList varName) with
  | none => .ok none
  | some value => match resolvePath (String.ofList varName) value path with
    | .ok w => .ok (some w)
    | .error e => .error e

/-- The text a resolved value is replaced by inside other text. -/
def inlineText (v : Value) : List Char := if v = .null then "null".toList else (pyStr v).toList

/-- The loop of `substitute_vars` over the matches of the pattern. -/
def substitutePieces (upstream : Lib.Dict String Value) : List Piece → Except VarError (List Char)
  | [] => .ok []
  | .lit c :: ps => match substitutePieces upstream ps with
    | .ok t => .ok (c :: t)
    | .error e => .error e
  | .ref name path :: ps => match resolveRef name path upstream with
    | .error e => .error e
    | .ok r => match substitutePieces upstream ps with
      | .ok t => .ok ((match r with
          | some v => inlineText v
          | none => (Piece.ref name path).text) ++ t)
      | .error e => .error e

/-- `substitute_vars`. -/
def substituteVars (text : String) (upstream : Lib.Dict String Value) : Except VarError Value :=
  match substitutePieces upstream (pieces text) with
  | .ok t => .ok (.str (String.ofList t))
  | .error e => .error e

/-- A string value of the input. -/
def resolveText (upstream : Lib.Dict String Value) (s : String) : Except VarError Value :=
  match matchPure s with
  | some (name, path) => match resolveRef name path upstream with
    | .ok (some v) => .ok v
    | .ok none => substituteVars s upstream
    | .error e => .error e
  | none => substituteVars s upstream

mutual
/-- One value of an input object. -/
def resolveField (upstream : Lib.Dict String Value) : Value → Except VarError Value
  | .str s => resolveText upstream s
  | .obj kvs => match resolveVariablesInInput upstream kvs with
    | .ok kvs' => .ok (.obj kvs')
    | .error e => .error e
  | .arr xs => match resolveItems upstream xs with
    | .ok xs' => .ok (.arr xs')
    | .error e => .error e
  | v => .ok v
/-- `resolve_variables_in_input`. -/
def resolveVariablesInInput (upstream : Lib.Dict String Value) :
    List (String × Value) → Except VarError (List (String × Value))
  | [] => .ok []
  | (k, v) :: kvs => match resolveField upstream v with
    | .error e => .error e
    | .ok v' => match resolveVariablesInInput upstream kvs with
      | .error e => .error e
      | .ok kvs' => .ok ((k, v') :: kvs')
/-- One item of an array: text and objects are resolved, nested arrays are not. -/
def resolveItem (upstream : Lib.Dict String Value) : Value → Except VarError Value
  | .str s => substituteVars s upstream
  | .obj kvs => match resolveVariablesInInput upstream kvs with
    | .ok kvs' => .ok (.obj kvs')
    | .error e => .error e
  | v => .ok v
def resolveItems (upstream : Lib.Dict String Value) : List Value → Except VarError (List Value)
  | [] => .ok []
  | x :: xs => match resolveItem upstream x with
    | .error e => .error e
    | .ok x' => match resolveItems upstream xs with
      | .error e => .error e
      | .ok xs' => .ok (x' :: xs')
end

/-- `truncate_output` with its default limit. -/
def truncateOutput (output : Value) : String :=
  match output with
  | .null => ""
  | .str s => String.ofList (s.toList.take 200)
  | v =>
    let text := (dumps ⟨false, false, ", ", ": "⟩ v).toList
    if 200 < text.length then String.ofList (text.take 200 ++ ['.', '.', '.'])
    else String.ofList text

/-! ### A fully resolved input -/

/-- The value a reference stands for, given the output of every step. -/
def lookupRef (out : String → Option Value) (name : List Char) (path : Option (List Char)) :
    Option Value :=
  match out (String.ofList name) with
  | some o => (resolvePath (String.ofList name) o path).toOption
  | none => none

/-- The text with every reference replaced. -/
def replacedPieces (out : String → Option Value) : List Piece → Option (List Char)
  | [] => some []
  | .lit c :: ps => (replacedPieces out ps).map (c :: ·)
  | .ref name path :: ps => match lookupRef out name path with
    | some v => (replacedPieces out ps).map (inlineText v ++ ·)
    | none => none

/-- `w` is the text `s` with every reference replaced: the whole value when `s` is one
reference, or its text. -/
def replacedText (out : String → Option Value) (s : String) (w : Value) : Bool :=
  (match matchPure s with
    | some (name, path) => lookupRef out name path = some w
    | none => false) ||
  (match replacedPieces out (pieces s) with
    | some t => w = .str (String.ofList t)
    | none => false)

mutual
/-- The second value is the first one with every reference replaced by a value taken from the
output of the referenced step. -/
def replaced (out : String → Option Value) : Value → Value → Bool
  | .str s, w => replacedText out s w
  | .arr xs, .arr ys => replacedList out xs ys
  | .obj a, .obj b => replacedObj out a b
  | .arr _, _ => false
  | .obj _, _ => false
  | v, w => v = w
def replacedList (out : String → Option Value) : List Value → List Value → Bool
  | [], [] => true
  | v :: vs, w :: ws => replaced out v w && replacedList out vs ws
  | _, _ => false
def replacedObj (out : String → Option Value) :
    List (String × Value) → List (String × Value) → Bool
  | [], [] => true
  | (k, v) :: a, (l, w) :: b => k = l && replaced out v w && replacedObj out a b
  | _, _ => false
end

mutual
/-- No reference sits in an array that is directly inside an array. -/
def flatRefs : Value → Bool
  | .obj kvs => flatRefsObj kvs
  | .arr xs => flatRefsList xs
  | _ => true
def flatRefsObj : List (String × Value) → Bool
  | [] => true
  | (_, v) :: kvs => flatRefs v && flatRefsObj kvs
def flatRefsItem : Value → Bool
  | .obj kvs => flatRefsObj kvs
  | .arr ys => (collectRefsList ys none).isEmpty
  | _ => true
def flatRefsList : List Value → Bool
  | [] => true
  | x :: xs => flatRefsItem x && flatRefsList xs
end

/-! ### The resolver reaches every reference that is not nested too deep -/

/-- The upstream map holds the output of every step the references name. -/
def Known (upstream : Lib.Dict String Value) (out : String → Option Value)
    (refs : List CollectedRef) : Prop :=
  ∀ r ∈ refs, ∃ o, upstream.get? r.ref.stepId = some o ∧ out r.ref.stepId = some o

variable {upstream : Lib.Dict String Value} {out : String → Option Value}

theorem lookupRef_of_resolveRef {name : List Char} {path : Option (List Char)} {o : Value}
    (hu : upstream.get? (String.ofList name) = some o) (ho : out (String.ofList name) = some o)
    {r : Option Value} (h : resolveRef name path upstream = .ok r) :
    ∃ v, r = some v ∧ lookupRef out name path = some v := by
  unfold resolveRef at h
  rw [hu] at h
  simp only at h
  split at h
  next w hw =>
    refine ⟨w, by simpa using h.symm, ?_⟩
    rw [lookupRef, ho]
    simp [hw, Except.toOption]
  next => cases h

theorem substitutePieces_replaced : ∀ {ps : List Piece} {t : List Char},
    substitutePieces upstream ps = .ok t →
    (∀ name path, .ref name path ∈ ps → ∃ o, upstream.get? (String.ofList name) = some o ∧
      out (String.ofList name) = some o) →
    replacedPieces out ps = some t
  | [], t, h, _ => by
      simp only [substitutePieces, Except.ok.injEq] at h
      simp [replacedPieces, h]
  | .lit c :: ps, t, h, hk => by
      unfold substitutePieces at h
      split at h
      next t' ht =>
        cases h
        have ih := substitutePieces_replaced ht fun n p hm => hk n p (List.mem_cons_of_mem _ hm)
        simp [replacedPieces, ih]
      next => cases h
  | .ref name path :: ps, t, h, hk => by
      unfold substitutePieces at h
      split at h
      next => cases h
      next r hr =>
        obtain ⟨o, hu, ho⟩ := hk name path List.mem_cons_self
        obtain ⟨v, rfl, hv⟩ := lookupRef_of_resolveRef hu ho hr
        split at h
        next t' ht =>
          cases h
          have ih := substitutePieces_replaced ht fun n p hm => hk n p (List.mem_cons_of_mem _ hm)
          simp [replacedPieces, hv, ih]
        next => cases h

theorem substituteVars_replaced {s top : String} {w : Value}
    (h : substituteVars s upstream = .ok w) (hk : Known upstream out (collectText top s)) :
    replacedText out s w = true := by
  unfold substituteVars at h
  split at h
  next t ht =>
    cases h
    have hr : replacedPieces out (pieces s) = some t := substitutePieces_replaced ht fun name path hm => by
      obtain ⟨r, hr, hid⟩ := exists_collectText top hm
      obtain ⟨o, hu, ho⟩ := hk r hr
      rw [hid] at hu ho
      exact ⟨o, hu, ho⟩
    simp [replacedText, hr]
  next => cases h

theorem resolveText_replaced {s top : String} {w : Value}
    (h : resolveText upstream s = .ok w) (hk : Known upstream out (collectText top s)) :
    replacedText out s w = true := by
  unfold resolveText at h
  split at h
  next name path hpure =>
    have hp : isPlausibleStepId name = true := by
      unfold matchPure at hpure
      split at hpure
      next heq => cases hpure; exact plausible_of_matchRef heq
      next heq => cases hpure; exact plausible_of_matchRef heq
      next => cases hpure
    have hc : collectText top s = [⟨top, outputRef name path, true⟩] := by
      simp [collectText, hpure, hp]
    obtain ⟨o, hu, ho⟩ := hk ⟨top, outputRef name path, true⟩ (by simp [hc])
    split at h
    next v hr =>
      cases h
      obtain ⟨v', hv', hl⟩ := lookupRef_of_resolveRef hu ho hr
      cases hv'
      simp [replacedText, hpure, hl]
    next hr =>
      obtain ⟨v', hv', _⟩ := lookupRef_of_resolveRef hu ho hr
      cases hv'
    next => cases h
  next => exact substituteVars_replaced h hk

/-- Cutting a text without references gives it back. -/
theorem replacedPieces_cut (out : String → Option Value) : ∀ (fuel : ℕ) (cs : List Char),
    (∀ name path, .ref name path ∉ cut fuel cs) → replacedPieces out (cut fuel cs) = some cs
  | 0, cs, _ => by
      induction cs with
      | nil => rfl
      | cons c cs ih =>
          have h : replacedPieces out (cs.map .lit) = some cs := ih (by simp [cut])
          simp [cut, replacedPieces, h]
  | _ + 1, [], _ => rfl
  | fuel + 1, c :: cs, h => by
      unfold cut at h ⊢
      split at h
      next name path rest hm => exact absurd List.mem_cons_self (h name path)
      next =>
        have ih := replacedPieces_cut out fuel cs fun n p hm => h n p (List.mem_cons_of_mem _ hm)
        simp [replacedPieces, ih]

theorem replacedText_self (out : String → Option Value) {s top : String}
    (h : collectText top s = []) : replacedText out s (.str s) = true := by
  have hn : ∀ name path, .ref name path ∉ pieces s := by
    intro name path hm
    obtain ⟨r, hr, _⟩ := exists_collectText top hm
    simp [h] at hr
  have hc := replacedPieces_cut out _ _ hn
  unfold replacedText pieces
  simp [hc]

mutual
/-- A value without references is its own resolution. -/
theorem replaced_self (out : String → Option Value) : ∀ (v : Value) (top : Option String),
    collectRefs v top = [] → replaced out v v = true
  | .null, _, _ | .bool _, _, _ | .int _, _, _ | .float _, _, _ => by simp [replaced]
  | .str s, top, h => by
      rw [collectRefs] at h
      rw [replaced]
      exact replacedText_self out h
  | .arr xs, top, h => by
      rw [collectRefs] at h
      rw [replaced]
      exact replacedList_self out xs top h
  | .obj kvs, top, h => by
      rw [collectRefs] at h
      rw [replaced]
      exact replacedObj_self out kvs top h
theorem replacedList_self (out : String → Option Value) : ∀ (xs : List Value) (top : Option String),
    collectRefsList xs top = [] → replacedList out xs xs = true
  | [], _, _ => by simp [replacedList]
  | x :: xs, top, h => by
      rw [collectRefsList, List.append_eq_nil_iff] at h
      rw [replacedList, replaced_self out x top h.1, replacedList_self out xs top h.2]
      rfl
theorem replacedObj_self (out : String → Option Value) :
    ∀ (kvs : List (String × Value)) (top : Option String),
    collectRefsObj kvs top = [] → replacedObj out kvs kvs = true
  | [], _, _ => by simp [replacedObj]
  | (k, v) :: kvs, top, h => by
      rw [collectRefsObj, List.append_eq_nil_iff] at h
      rw [replacedObj, replaced_self out v _ h.1, replacedObj_self out kvs top h.2]
      simp
end

mutual
theorem resolveField_replaced : ∀ (v : Value) (top : Option String) (w : Value),
    resolveField upstream v = .ok w → flatRefs v = true → Known upstream out (collectRefs v top) →
    replaced out v w = true
  | .null, _, w, h, _, _ | .bool _, _, w, h, _, _ | .int _, _, w, h, _, _
  | .float _, _, w, h, _, _ => by
      simp only [resolveField, Except.ok.injEq] at h
      simp [replaced, h]
  | .str s, top, w, h, _, hk => by
      rw [resolveField] at h
      rw [replaced]
      exact resolveText_replaced h hk
  | .arr xs, top, w, h, hf, hk => by
      unfold resolveField at h
      split at h
      next ys hys =>
        cases h
        rw [replaced]
        exact resolveItems_replaced xs top ys hys hf hk
      next => cases h
  | .obj kvs, top, w, h, hf, hk => by
      unfold resolveField at h
      split at h
      next ys hys =>
        cases h
        rw [replaced]
        exact resolveVariablesInInput_replaced kvs top ys hys hf hk
      next => cases h
/-- **The resolver replaces every reference** whose step is known, when no array is nested
directly in an array. -/
theorem resolveVariablesInInput_replaced :
    ∀ (kvs : List (String × Value)) (top : Option String) (kvs' : List (String × Value)),
    resolveVariablesInInput upstream kvs = .ok kvs' → flatRefsObj kvs = true →
    Known upstream out (collectRefsObj kvs top) → replacedObj out kvs kvs' = true
  | [], _, kvs', h, _, _ => by
      simp only [resolveVariablesInInput, Except.ok.injEq] at h
      simp [← h, replacedObj]
  | (k, v) :: kvs, top, kvs', h, hf, hk => by
      unfold resolveVariablesInInput at h
      split at h
      next => cases h
      next v' hv =>
        split at h
        next => cases h
        next rest hrest =>
          cases h
          rw [flatRefsObj, Bool.and_eq_true] at hf
          rw [collectRefsObj] at hk
          have h1 := resolveField_replaced v _ v' hv hf.1
            fun r hr => hk r (List.mem_append_left _ hr)
          have h2 := resolveVariablesInInput_replaced kvs top rest hrest hf.2
            fun r hr => hk r (List.mem_append_right _ hr)
          simp [replacedObj, h1, h2]
theorem resolveItem_replaced : ∀ (v : Value) (top : Option String) (w : Value),
    resolveItem upstream v = .ok w → flatRefsItem v = true → Known upstream out (collectRefs v top) →
    replaced out v w = true
  | .null, _, w, h, _, _ | .bool _, _, w, h, _, _ | .int _, _, w, h, _, _
  | .float _, _, w, h, _, _ => by
      simp only [resolveItem, Except.ok.injEq] at h
      simp [replaced, h]
  | .str s, top, w, h, _, hk => by
      rw [resolveItem] at h
      rw [replaced]
      exact substituteVars_replaced h hk
  | .arr xs, _, w, h, hf, _ => by
      simp only [resolveItem, Except.ok.injEq] at h
      rw [flatRefsItem, List.isEmpty_iff] at hf
      rw [← h, replaced]
      exact replacedList_self out xs none hf
  | .obj kvs, top, w, h, hf, hk => by
      unfold resolveItem at h
      split at h
      next ys hys =>
        cases h
        rw [replaced]
        exact resolveVariablesInInput_replaced kvs top ys hys hf hk
      next => cases h
theorem resolveItems_replaced : ∀ (xs : List Value) (top : Option String) (ys : List Value),
    resolveItems upstream xs = .ok ys → flatRefsList xs = true →
    Known upstream out (collectRefsList xs top) → replacedList out xs ys = true
  | [], _, ys, h, _, _ => by
      simp only [resolveItems, Except.ok.injEq] at h
      simp [← h, replacedList]
  | x :: xs, top, ys, h, hf, hk => by
      unfold resolveItems at h
      split at h
      next => cases h
      next x' hx' =>
        split at h
        next => cases h
        next rest hrest =>
          cases h
          rw [flatRefsList, Bool.and_eq_true] at hf
          rw [collectRefsList] at hk
          have h1 := resolveItem_replaced x top x' hx' hf.1
            fun r hr => hk r (List.mem_append_left _ hr)
          have h2 := resolveItems_replaced xs top rest hrest hf.2
            fun r hr => hk r (List.mem_append_right _ hr)
          simp [replacedList, h1, h2]
end

end resolution
end JAgent
