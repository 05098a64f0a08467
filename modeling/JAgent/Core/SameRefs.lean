import JAgent.Core.DagVars

/-! # The validator and the resolver see the same references

The validator collects the references of a step input before the step runs; the resolver replaces
them when it runs.  The two walk the input separately.  `Agrees` says what the resolver has to do with
the references the validator has collected: it fails only for a field that the referenced output does
not have, and otherwise replaces every reference and leaves the rest of the input as it is.

The two walks differ in two places.  The validator goes into an array inside an array and the resolver
does not; and a text that is a reference and a final newline is taken for the reference alone, so that
the newline is lost.  An input without these agrees, and no other input does (`same_refs_iff`). -/

namespace JAgent

section relation
variable [Py] (out : String → Option Value)

/-! ### What the resolver has to do -/

/-- `w` is the text `s` with every reference replaced and every other character kept; a text that is
one reference may also become the referenced value itself. -/
def resolvesToText (s : String) (w : Value) : Bool :=
  (match matchRef s.toList with
    | some (name, path, []) => lookupRef out name path = some w
    | _ => false) ||
  (match replacedPieces out (pieces s) with
    | some t => w = .str (String.ofList t)
    | none => false)

mutual
/-- The second value is the first one with every reference replaced and everything else kept. -/
def resolvesTo : Value → Value → Bool
  | .str s, w => resolvesToText out s w
  | .arr xs, .arr ys => resolvesToList xs ys
  | .obj a, .obj b => resolvesToObj a b
  | .arr _, _ => false
  | .obj _, _ => false
  | v, w => v = w
def resolvesToList : List Value → List Value → Bool
  | [], [] => true
  | v :: vs, w :: ws => resolvesTo v w && resolvesToList vs ws
  | _, _ => false
def resolvesToObj : List (String × Value) → List (String × Value) → Bool
  | [], [] => true
  | (k, v) :: a, (l, w) :: b => k = l && resolvesTo v w && resolvesToObj a b
  | _, _ => false
end

/-- The error is about a collected reference, and the output of its step has no such field. -/
def LacksField (upstream : Lib.Dict String Value) (refs : List CollectedRef) (e : VarError) : Prop :=
  ∃ r ∈ refs, r.ref.stepId = e.varName ∧ r.ref.fieldPath = e.path ∧
    ∃ o, upstream.get? e.varName = some o ∧ o ≠ .null ∧
      traverse ((splitDots e.path.toList).map String.ofList) o = none

/-- The resolver treats the input as the validator has read it. -/
structure Agrees (upstream : Lib.Dict String Value) (input : Obj) : Prop where
  error : ∀ e, resolveVariablesInInput upstream input = .error e →
    LacksField upstream (collectRefs (.obj input) none) e
  ok : ∀ input', resolveVariablesInInput upstream input = .ok input' →
    resolvesToObj upstream.get? input input' = true

/-! ### The condition -/

/-- The text is one reference and a final newline. -/
def refThenNewline (s : String) : Bool :=
  match matchRef s.toList with
  | some (_, _, ['\n']) => true
  | _ => false

mutual
/-- No object value is a reference and a final newline, and no reference is in an array that is
directly inside an array. -/
def plainRefs : Value → Bool
  | .str s => !refThenNewline s
  | .obj kvs => plainRefsObj kvs
  | .arr xs => plainRefsList xs
  | _ => true
def plainRefsObj : List (String × Value) → Bool
  | [] => true
  | (_, v) :: kvs => plainRefs v && plainRefsObj kvs
def plainRefsItem : Value → Bool
  | .obj kvs => plainRefsObj kvs
  | .arr ys => (collectRefsList ys none).isEmpty
  | _ => true
def plainRefsList : List Value → Bool
  | [] => true
  | x :: xs => plainRefsItem x && plainRefsList xs
end

end relation

/-! ### Errors -/

section errors
variable [Py] {upstream : Lib.Dict String Value}

theorem resolvePath_error {varName : String} {value : Value} {path : Option (List Char)} {e : VarError}
    (h : resolvePath varName value path = .error e) :
    value ≠ .null ∧ ∃ p, path = some p ∧ e.varName = varName ∧ e.path = String.ofList p ∧
      traverse ((splitDots p).map String.ofList) value = none := by
  have hnull : value ≠ .null := by
    rintro rfl
    cases h
  cases path with
  | none =>
      cases value <;> cases h
  | some p =>
      refine ⟨hnull, p, rfl, ?_⟩
      simp only [resolvePath] at h
      split at h
      next => cases h
      next htrav =>
        split_ifs at h
        cases h
        exact ⟨rfl, rfl, htrav⟩

/-- An error names a reference of the texts it comes from. -/
theorem LacksField.of_resolveRef {refs : List CollectedRef} {r : CollectedRef} {name : List Char}
    {path : Option (List Char)} {e : VarError} (h : resolveRef name path upstream = .error e)
    (hr : r ∈ refs) (href : r.ref = outputRef name path) : LacksField upstream refs e := by
  unfold resolveRef at h
  split at h
  next => cases h
  next o ho =>
    split at h
    next => cases h
    next e' he =>
      cases h
      obtain ⟨hnull, p, rfl, hname, hpath, htrav⟩ := resolvePath_error he
      refine ⟨r, hr, ?_, ?_, o, ?_, hnull, ?_⟩
      · rw [href, hname]
        rfl
      · rw [href, hpath]
        rfl
      · rw [hname]
        exact ho
      · rw [hpath, String.toList_ofList]
        exact htrav

theorem LacksField.mono {refs refs' : List CollectedRef} {e : VarError} (h : LacksField upstream refs e)
    (hsub : refs ⊆ refs') : LacksField upstream refs' e := by
  obtain ⟨r, hr, hrest⟩ := h
  exact ⟨r, hsub hr, hrest⟩

theorem substitutePieces_error {e : VarError} : ∀ {ps : List Piece},
    substitutePieces upstream ps = .error e →
      ∃ name path, Piece.ref name path ∈ ps ∧ resolveRef name path upstream = .error e
  | [], h => by cases h
  | .lit c :: ps, h => by
      simp only [substitutePieces] at h
      split at h
      next => cases h
      next e' he =>
        cases h
        obtain ⟨name, path, hm, hr⟩ := substitutePieces_error he
        exact ⟨name, path, List.mem_cons_of_mem _ hm, hr⟩
  | .ref name path :: ps, h => by
      simp only [substitutePieces] at h
      split at h
      next e' he =>
        cases h
        exact ⟨name, path, List.mem_cons_self, he⟩
      next =>
        split at h
        next => cases h
        next e' he =>
          cases h
          obtain ⟨name', path', hm, hr⟩ := substitutePieces_error he
          exact ⟨name', path', List.mem_cons_of_mem _ hm, hr⟩

theorem substituteVars_error {s top : String} {e : VarError} (h : substituteVars s upstream = .error e) :
    LacksField upstream (collectText top s) e := by
  unfold substituteVars at h
  split at h
  next => cases h
  next e' he =>
    cases h
    obtain ⟨name, path, hm, hr⟩ := substitutePieces_error he
    obtain ⟨r, hmem, href⟩ := exists_collectText top hm
    exact .of_resolveRef hr hmem href

/-- A text that is one reference is collected as such. -/
theorem collectText_of_matchPure {s top : String} {name : List Char} {path : Option (List Char)}
    (h : matchPure s = some (name, path)) : collectText top s = [⟨top, outputRef name path, true⟩] := by
  have hp : isPlausibleStepId name = true := by
    unfold matchPure at h
    split at h
    next heq =>
      cases h
      exact plausible_of_matchRef heq
    next heq =>
      cases h
      exact plausible_of_matchRef heq
    next => cases h
  simp [collectText, h, hp]

theorem resolveText_error {s top : String} {e : VarError} (h : resolveText upstream s = .error e) :
    LacksField upstream (collectText top s) e := by
  unfold resolveText at h
  split at h
  next name path hpure =>
    split at h
    next => cases h
    next => exact substituteVars_error h
    next e' he =>
      cases h
      have hmem : ⟨top, outputRef name path, true⟩ ∈ collectText top s := by
        rw [collectText_of_matchPure hpure]
        exact List.mem_cons_self
      exact .of_resolveRef he hmem rfl
  next => exact substituteVars_error h

mutual
theorem resolveField_error {e : VarError} : ∀ (v : Value) (top : Option String),
    resolveField upstream v = .error e → LacksField upstream (collectRefs v top) e
  | .null => fun _ h => by cases h
  | .bool _ => fun _ h => by cases h
  | .int _ => fun _ h => by cases h
  | .float _ => fun _ h => by cases h
  | .str s => fun top h => by
      rw [resolveField] at h
      rw [collectRefs]
      exact resolveText_error h
  | .arr xs => fun top h => by
      simp only [resolveField] at h
      split at h
      next => cases h
      next e' he =>
        cases h
        rw [collectRefs]
        exact resolveItems_error xs top he
  | .obj kvs => fun top h => by
      simp only [resolveField] at h
      split at h
      next => cases h
      next e' he =>
        cases h
        rw [collectRefs]
        exact resolveVariablesInInput_error kvs top he
/-- **The resolver fails only for a field that is not there.** -/
theorem resolveVariablesInInput_error {e : VarError} : ∀ (kvs : List (String × Value)) (top : Option String),
    resolveVariablesInInput upstream kvs = .error e → LacksField upstream (collectRefsObj kvs top) e
  | [] => fun _ h => by cases h
  | (k, v) :: kvs => fun top h => by
      simp only [resolveVariablesInInput] at h
      rw [collectRefsObj]
      split at h
      next e' he =>
        cases h
        exact (resolveField_error v _ he).mono (List.subset_append_left _ _)
      next =>
        split at h
        next e' he =>
          cases h
          exact (resolveVariablesInInput_error kvs top he).mono (List.subset_append_right _ _)
        next => cases h
theorem resolveItem_error {e : VarError} : ∀ (v : Value) (top : Option String),
    resolveItem upstream v = .error e → LacksField upstream (collectRefs v top) e
  | .null => fun _ h => by cases h
  | .bool _ => fun _ h => by cases h
  | .int _ => fun _ h => by cases h
  | .float _ => fun _ h => by cases h
  | .arr _ => fun _ h => by cases h
  | .str s => fun top h => by
      rw [resolveItem] at h
      rw [collectRefs]
      exact substituteVars_error h
  | .obj kvs => fun top h => by
      simp only [resolveItem] at h
      split at h
      next => cases h
      next e' he =>
        cases h
        rw [collectRefs]
        exact resolveVariablesInInput_error kvs top he
theorem resolveItems_error {e : VarError} : ∀ (xs : List Value) (top : Option String),
    resolveItems upstream xs = .error e → LacksField upstream (collectRefsList xs top) e
  | [] => fun _ h => by cases h
  | x :: xs => fun top h => by
      simp only [resolveItems] at h
      rw [collectRefsList]
      split at h
      next e' he =>
        cases h
        exact (resolveItem_error x top he).mono (List.subset_append_left _ _)
      next =>
        split at h
        next e' he =>
          cases h
          exact (resolveItems_error xs top he).mono (List.subset_append_right _ _)
        next => cases h
end

end errors

/-! ### A plain input is resolved -/

section plain
variable [Py] {upstream : Lib.Dict String Value} {out : String → Option Value}

theorem substituteVars_resolvesTo {s top : String} {w : Value} (h : substituteVars s upstream = .ok w)
    (hk : Known upstream out (collectText top s)) : resolvesToText out s w = true := by
  unfold substituteVars at h
  split at h
  next t ht =>
    cases h
    have hpieces : replacedPieces out (pieces s) = some t := substitutePieces_replaced ht fun name path hm => by
      obtain ⟨r, hr, href⟩ := exists_collectText top hm
      obtain ⟨o, hu, ho⟩ := hk r hr
      rw [href] at hu ho
      exact ⟨o, hu, ho⟩
    simp [resolvesToText, hpieces]
  next => cases h

theorem matchRef_of_matchPure {s : String} {name : List Char} {path : Option (List Char)}
    (h : matchPure s = some (name, path)) (hline : refThenNewline s = false) :
    matchRef s.toList = some (name, path, []) := by
  unfold matchPure at h
  split at h
  next heq =>
    cases h
    exact heq
  next heq =>
    simp [refThenNewline, heq] at hline
  next => cases h

theorem resolveText_resolvesTo {s top : String} {w : Value} (h : resolveText upstream s = .ok w)
    (hline : refThenNewline s = false) (hk : Known upstream out (collectText top s)) :
    resolvesToText out s w = true := by
  unfold resolveText at h
  split at h
  next name path hpure =>
    obtain ⟨o, hu, ho⟩ := hk ⟨top, outputRef name path, true⟩ (by simp [collectText_of_matchPure hpure])
    split at h
    next v hr =>
      cases h
      obtain ⟨v', hv', hlookup⟩ := lookupRef_of_resolveRef hu ho hr
      cases hv'
      simp [resolvesToText, matchRef_of_matchPure hpure hline, hlookup]
    next => exact substituteVars_resolvesTo h hk
    next => cases h
  next => exact substituteVars_resolvesTo h hk

/-- A text is free of references when its pieces are. -/
theorem collectText_eq_nil_iff {top s : String} :
    collectText top s = [] ↔ ∀ name path, Piece.ref name path ∉ pieces s := by
  constructor
  · intro h name path hm
    obtain ⟨r, hr, _⟩ := exists_collectText top hm
    rw [h] at hr
    cases hr
  · intro h
    have hinline : ∀ ps : List Piece, (∀ name path, Piece.ref name path ∉ ps) → inlineRefs top ps = [] := by
      intro ps
      induction ps with
      | nil => exact fun _ => rfl
      | cons p ps ih =>
          intro hps
          have hrest := ih fun name path hm => hps name path (List.mem_cons_of_mem _ hm)
          cases p with
          | lit c => exact hrest
          | ref name path => exact absurd List.mem_cons_self (hps name path)
    have hnone : matchPure s = none := by
      cases hpure : matchPure s with
      | none => rfl
      | some np =>
          obtain ⟨rest, hmatch⟩ : ∃ rest, matchRef s.toList = some (np.1, np.2, rest) := by
            unfold matchPure at hpure
            split at hpure
            next heq =>
              cases hpure
              exact ⟨_, heq⟩
            next heq =>
              cases hpure
              exact ⟨_, heq⟩
            next => cases hpure
          refine absurd ?_ (h np.1 np.2)
          unfold pieces
          cases hcs : s.toList with
          | nil => simp [hcs, matchRef] at hmatch
          | cons c cs =>
              rw [hcs] at hmatch
              simp [cut, hmatch]
    unfold collectText
    rw [hnone]
    exact hinline _ h

theorem resolvesToText_self {s top : String} (h : collectText top s = []) :
    resolvesToText out s (.str s) = true := by
  have hpieces : replacedPieces out (pieces s) = some s.toList :=
    replacedPieces_cut out _ _ (collectText_eq_nil_iff.mp h)
  simp [resolvesToText, hpieces]

mutual
/-- A value without references resolves to itself. -/
theorem resolvesTo_self : ∀ (v : Value) (top : Option String), collectRefs v top = [] →
    resolvesTo out v v = true
  | .null => fun _ _ => by simp [resolvesTo]
  | .bool _ => fun _ _ => by simp [resolvesTo]
  | .int _ => fun _ _ => by simp [resolvesTo]
  | .float _ => fun _ _ => by simp [resolvesTo]
  | .str s => fun top h => by
      rw [collectRefs] at h
      rw [resolvesTo]
      exact resolvesToText_self h
  | .arr xs => fun top h => by
      rw [collectRefs] at h
      rw [resolvesTo]
      exact resolvesToList_self xs top h
  | .obj kvs => fun top h => by
      rw [collectRefs] at h
      rw [resolvesTo]
      exact resolvesToObj_self kvs top h
theorem resolvesToList_self : ∀ (xs : List Value) (top : Option String), collectRefsList xs top = [] →
    resolvesToList out xs xs = true
  | [] => fun _ _ => by simp [resolvesToList]
  | x :: xs => fun top h => by
      rw [collectRefsList, List.append_eq_nil_iff] at h
      rw [resolvesToList, resolvesTo_self x top h.1, resolvesToList_self xs top h.2]
      rfl
theorem resolvesToObj_self : ∀ (kvs : List (String × Value)) (top : Option String),
    collectRefsObj kvs top = [] → resolvesToObj out kvs kvs = true
  | [] => fun _ _ => by simp [resolvesToObj]
  | (k, v) :: kvs => fun top h => by
      rw [collectRefsObj, List.append_eq_nil_iff] at h
      rw [resolvesToObj, resolvesTo_self v _ h.1, resolvesToObj_self kvs top h.2]
      simp
end

mutual
theorem resolveField_resolvesTo : ∀ (v : Value) (top : Option String) (w : Value),
    resolveField upstream v = .ok w → plainRefs v = true → Known upstream out (collectRefs v top) →
    resolvesTo out v w = true
  | .null => fun _ w h _ _ => by
      simp only [resolveField, Except.ok.injEq] at h
      simp [resolvesTo, h]
  | .bool _ => fun _ w h _ _ => by
      simp only [resolveField, Except.ok.injEq] at h
      simp [resolvesTo, h]
  | .int _ => fun _ w h _ _ => by
      simp only [resolveField, Except.ok.injEq] at h
      simp [resolvesTo, h]
  | .float _ => fun _ w h _ _ => by
      simp only [resolveField, Except.ok.injEq] at h
      simp [resolvesTo, h]
  | .str s => fun top w h hp hk => by
      rw [resolveField] at h
      rw [plainRefs, Bool.not_eq_true'] at hp
      rw [resolvesTo]
      exact resolveText_resolvesTo h hp hk
  | .arr xs => fun top w h hp hk => by
      simp only [resolveField] at h
      split at h
      next ys hys =>
        cases h
        rw [resolvesTo]
        exact resolveItems_resolvesTo xs top ys hys hp hk
      next => cases h
  | .obj kvs => fun top w h hp hk => by
      simp only [resolveField] at h
      split at h
      next ys hys =>
        cases h
        rw [resolvesTo]
        exact resolveVariablesInInput_resolvesTo kvs top ys hys hp hk
      next => cases h
/-- **The resolver replaces every reference of a plain input and keeps the rest.** -/
theorem resolveVariablesInInput_resolvesTo :
    ∀ (kvs : List (String × Value)) (top : Option String) (kvs' : List (String × Value)),
    resolveVariablesInInput upstream kvs = .ok kvs' → plainRefsObj kvs = true →
    Known upstream out (collectRefsObj kvs top) → resolvesToObj out kvs kvs' = true
  | [] => fun _ kvs' h _ _ => by
      simp only [resolveVariablesInInput, Except.ok.injEq] at h
      simp [← h, resolvesToObj]
  | (k, v) :: kvs => fun top kvs' h hp hk => by
      simp only [resolveVariablesInInput] at h
      split at h
      next => cases h
      next v' hv =>
        split at h
        next => cases h
        next rest hrest =>
          cases h
          rw [plainRefsObj, Bool.and_eq_true] at hp
          rw [collectRefsObj] at hk
          have h1 := resolveField_resolvesTo v _ v' hv hp.1 fun r hr => hk r (List.mem_append_left _ hr)
          have h2 := resolveVariablesInInput_resolvesTo kvs top rest hrest hp.2
            fun r hr => hk r (List.mem_append_right _ hr)
          simp [resolvesToObj, h1, h2]
theorem resolveItem_resolvesTo : ∀ (v : Value) (top : Option String) (w : Value),
    resolveItem upstream v = .ok w → plainRefsItem v = true → Known upstream out (collectRefs v top) →
    resolvesTo out v w = true
  | .null => fun _ w h _ _ => by
      simp only [resolveItem, Except.ok.injEq] at h
      simp [resolvesTo, h]
  | .bool _ => fun _ w h _ _ => by
      simp only [resolveItem, Except.ok.injEq] at h
      simp [resolvesTo, h]
  | .int _ => fun _ w h _ _ => by
      simp only [resolveItem, Except.ok.injEq] at h
      simp [resolvesTo, h]
  | .float _ => fun _ w h _ _ => by
      simp only [resolveItem, Except.ok.injEq] at h
      simp [resolvesTo, h]
  | .str s => fun top w h _ hk => by
      rw [resolveItem] at h
      rw [resolvesTo]
      exact substituteVars_resolvesTo h hk
  | .arr xs => fun _ w h hp _ => by
      simp only [resolveItem, Except.ok.injEq] at h
      rw [plainRefsItem, List.isEmpty_iff] at hp
      rw [← h, resolvesTo]
      exact resolvesToList_self xs none hp
  | .obj kvs => fun top w h hp hk => by
      simp only [resolveItem] at h
      split at h
      next ys hys =>
        cases h
        rw [resolvesTo]
        exact resolveVariablesInInput_resolvesTo kvs top ys hys hp hk
      next => cases h
theorem resolveItems_resolvesTo : ∀ (xs : List Value) (top : Option String) (ys : List Value),
    resolveItems upstream xs = .ok ys → plainRefsList xs = true →
    Known upstream out (collectRefsList xs top) → resolvesToList out xs ys = true
  | [] => fun _ ys h _ _ => by
      simp only [resolveItems, Except.ok.injEq] at h
      simp [← h, resolvesToList]
  | x :: xs => fun top ys h hp hk => by
      simp only [resolveItems] at h
      split at h
      next => cases h
      next x' hx' =>
        split at h
        next => cases h
        next rest hrest =>
          cases h
          rw [plainRefsList, Bool.and_eq_true] at hp
          rw [collectRefsList] at hk
          have h1 := resolveItem_resolvesTo x top x' hx' hp.1 fun r hr => hk r (List.mem_append_left _ hr)
          have h2 := resolveItems_resolvesTo xs top rest hrest hp.2
            fun r hr => hk r (List.mem_append_right _ hr)
          simp [resolvesToList, h1, h2]
end

end plain

/-! ### An input that is not plain

With an output that is null for every step nothing fails, every reference stands for null, and the
text "null" shows whether a reference has been replaced. -/

section converse
variable [Py] {upstream : Lib.Dict String Value}

/-- Every output is null. -/
def AllNull (upstream : Lib.Dict String Value) : Prop := ∀ sid o, upstream.get? sid = some o → o = .null

theorem not_lacksField (hnull : AllNull upstream) {refs : List CollectedRef} {e : VarError} :
    ¬LacksField upstream refs e := by
  rintro ⟨r, _, _, _, o, ho, hne, _⟩
  exact hne (hnull _ o ho)

theorem lookupRef_null (hnull : AllNull upstream) {name : List Char} {path : Option (List Char)} {v : Value}
    (h : lookupRef upstream.get? name path = some v) : v = .null := by
  unfold lookupRef at h
  split at h
  next o ho =>
    rw [hnull _ o ho] at h
    have hok : resolvePath (String.ofList name) .null path = .ok .null := by cases path <;> rfl
    rw [hok] at h
    cases h
    rfl
  next => cases h

theorem matchRef_head {c : Char} {cs : List Char} {r : List Char × Option (List Char) × List Char}
    (h : matchRef (c :: cs) = some r) : c = '$' := by
  unfold matchRef at h
  split at h
  next heq =>
    cases heq
    rfl
  next => cases h

/-- A text that is its own replacement has no reference: the first one would have become "null". -/
theorem no_ref_of_replacedPieces (hnull : AllNull upstream) : ∀ (fuel : ℕ) (cs : List Char),
    replacedPieces upstream.get? (cut fuel cs) = some cs →
      ∀ name path, Piece.ref name path ∉ cut fuel cs := by
  intro fuel
  induction fuel with
  | zero =>
      intro cs _ name path hm
      simp [cut] at hm
  | succ fuel ih =>
      intro cs h name path hm
      cases cs with
      | nil => simp [cut] at hm
      | cons c cs =>
          rw [cut] at h hm
          split at h
          next name' path' rest hmatch =>
            rw [replacedPieces] at h
            split at h
            next v hv =>
              rw [lookupRef_null hnull hv] at h
              obtain ⟨t, _, ht⟩ := Option.map_eq_some_iff.mp h
              have hhead : some 'n' = some c := congrArg List.head? ht
              rw [matchRef_head hmatch] at hhead
              cases hhead
            next => cases h
          next hmatch =>
            rw [hmatch] at hm
            rw [replacedPieces] at h
            obtain ⟨t, ht, hcons⟩ := Option.map_eq_some_iff.mp h
            cases hcons
            rcases List.mem_cons.mp hm with hm | hm
            · cases hm
            · exact ih cs ht name path hm

theorem collectText_of_resolvesTo_self (hnull : AllNull upstream) {s top : String}
    (h : resolvesToText upstream.get? s (.str s) = true) : collectText top s = [] := by
  unfold resolvesToText at h
  rw [Bool.or_eq_true] at h
  rcases h with h | h
  · split at h
    next name path _ =>
      cases lookupRef_null hnull (of_decide_eq_true h)
    next => cases h
  · split at h
    next t ht =>
      have hself : s = String.ofList t := Value.str.inj (of_decide_eq_true h)
      rw [← String.toList_ofList (l := t), ← hself] at ht
      exact collectText_eq_nil_iff.mpr (no_ref_of_replacedPieces hnull _ _ ht)
    next => cases h

mutual
/-- A value that resolves to itself has no reference. -/
theorem collectRefs_of_resolvesTo_self (hnull : AllNull upstream) : ∀ (v : Value) (top : Option String),
    resolvesTo upstream.get? v v = true → collectRefs v top = []
  | .null => fun _ _ => rfl
  | .bool _ => fun _ _ => rfl
  | .int _ => fun _ _ => rfl
  | .float _ => fun _ _ => rfl
  | .str s => fun top h => by
      rw [resolvesTo] at h
      rw [collectRefs]
      exact collectText_of_resolvesTo_self hnull h
  | .arr xs => fun top h => by
      rw [resolvesTo] at h
      rw [collectRefs]
      exact collectRefsList_of_resolvesTo_self hnull xs top h
  | .obj kvs => fun top h => by
      rw [resolvesTo] at h
      rw [collectRefs]
      exact collectRefsObj_of_resolvesTo_self hnull kvs top h
theorem collectRefsList_of_resolvesTo_self (hnull : AllNull upstream) : ∀ (xs : List Value)
    (top : Option String), resolvesToList upstream.get? xs xs = true → collectRefsList xs top = []
  | [] => fun _ _ => rfl
  | x :: xs => fun top h => by
      rw [resolvesToList, Bool.and_eq_true] at h
      rw [collectRefsList, collectRefs_of_resolvesTo_self hnull x top h.1,
        collectRefsList_of_resolvesTo_self hnull xs top h.2]
      rfl
theorem collectRefsObj_of_resolvesTo_self (hnull : AllNull upstream) : ∀ (kvs : List (String × Value))
    (top : Option String), resolvesToObj upstream.get? kvs kvs = true → collectRefsObj kvs top = []
  | [] => fun _ _ => rfl
  | (k, v) :: kvs => fun top h => by
      rw [resolvesToObj, Bool.and_eq_true, Bool.and_eq_true] at h
      rw [collectRefsObj, collectRefs_of_resolvesTo_self hnull v _ h.1.2,
        collectRefsObj_of_resolvesTo_self hnull kvs top h.2]
      rfl
end

/-- A reference with a final newline becomes null, and the newline is lost. -/
theorem refThenNewline_of_resolvesTo (hnull : AllNull upstream) {s top : String} {w : Value}
    (hk : Known upstream upstream.get? (collectText top s)) (h : resolveText upstream s = .ok w)
    (hres : resolvesToText upstream.get? s w = true) : refThenNewline s = false := by
  cases hline : refThenNewline s with
  | false => rfl
  | true =>
      obtain ⟨name, path, hmatch⟩ : ∃ name path, matchRef s.toList = some (name, path, ['\n']) := by
        unfold refThenNewline at hline
        split at hline
        next name path heq => exact ⟨name, path, heq⟩
        next => cases hline
      have hpure : matchPure s = some (name, path) := by simp [matchPure, hmatch]
      obtain ⟨o, hu, ho⟩ := hk ⟨top, outputRef name path, true⟩ (by simp [collectText_of_matchPure hpure])
      have hw : w = .null := by
        unfold resolveText at h
        rw [hpure] at h
        simp only at h
        split at h
        next v hr =>
          cases h
          obtain ⟨v', hv', hlookup⟩ := lookupRef_of_resolveRef hu ho hr
          cases hv'
          exact lookupRef_null hnull hlookup
        next hr =>
          obtain ⟨v', hv', _⟩ := lookupRef_of_resolveRef hu ho hr
          cases hv'
        next => cases h
      rw [hw] at hres
      unfold resolvesToText at hres
      rw [hmatch] at hres
      simp only [Bool.false_or] at hres
      split at hres
      · cases of_decide_eq_true hres
      · cases hres

mutual
theorem plainRefs_of_resolvesTo (hnull : AllNull upstream) : ∀ (v : Value) (top : Option String) (w : Value),
    Known upstream upstream.get? (collectRefs v top) → resolveField upstream v = .ok w →
    resolvesTo upstream.get? v w = true → plainRefs v = true
  | .null => fun _ _ _ _ _ => rfl
  | .bool _ => fun _ _ _ _ _ => rfl
  | .int _ => fun _ _ _ _ _ => rfl
  | .float _ => fun _ _ _ _ _ => rfl
  | .str s => fun top w hk h hres => by
      rw [resolveField] at h
      rw [resolvesTo] at hres
      rw [plainRefs, refThenNewline_of_resolvesTo hnull hk h hres]
      rfl
  | .arr xs => fun top w hk h hres => by
      simp only [resolveField] at h
      split at h
      next ys hys =>
        cases h
        rw [resolvesTo] at hres
        exact plainRefsList_of_resolvesTo hnull xs top ys hk hys hres
      next => cases h
  | .obj kvs => fun top w hk h hres => by
      simp only [resolveField] at h
      split at h
      next ys hys =>
        cases h
        rw [resolvesTo] at hres
        exact plainRefsObj_of_resolvesTo hnull kvs top ys hk hys hres
      next => cases h
/-- An input that is resolved against null outputs, everything else kept, is plain. -/
theorem plainRefsObj_of_resolvesTo (hnull : AllNull upstream) : ∀ (kvs : List (String × Value))
    (top : Option String) (kvs' : List (String × Value)),
    Known upstream upstream.get? (collectRefsObj kvs top) → resolveVariablesInInput upstream kvs = .ok kvs' →
    resolvesToObj upstream.get? kvs kvs' = true → plainRefsObj kvs = true
  | [] => fun _ _ _ _ _ => rfl
  | (k, v) :: kvs => fun top kvs' hk h hres => by
      simp only [resolveVariablesInInput] at h
      split at h
      next => cases h
      next v' hv =>
        split at h
        next => cases h
        next rest hrest =>
          cases h
          rw [resolvesToObj, Bool.and_eq_true, Bool.and_eq_true] at hres
          rw [collectRefsObj] at hk
          have h1 := plainRefs_of_resolvesTo hnull v _ v' (fun r hr => hk r (List.mem_append_left _ hr)) hv
            hres.1.2
          have h2 := plainRefsObj_of_resolvesTo hnull kvs top rest
            (fun r hr => hk r (List.mem_append_right _ hr)) hrest hres.2
          rw [plainRefsObj, h1, h2]
          rfl
theorem plainRefsItem_of_resolvesTo (hnull : AllNull upstream) : ∀ (v : Value) (top : Option String)
    (w : Value), Known upstream upstream.get? (collectRefs v top) → resolveItem upstream v = .ok w →
    resolvesTo upstream.get? v w = true → plainRefsItem v = true
  | .null => fun _ _ _ _ _ => rfl
  | .bool _ => fun _ _ _ _ _ => rfl
  | .int _ => fun _ _ _ _ _ => rfl
  | .float _ => fun _ _ _ _ _ => rfl
  | .str _ => fun _ _ _ _ _ => rfl
  | .arr ys => fun top w hk h hres => by
      simp only [resolveItem, Except.ok.injEq] at h
      rw [← h, resolvesTo] at hres
      rw [plainRefsItem, collectRefsList_of_resolvesTo_self hnull ys none hres]
      rfl
  | .obj kvs => fun top w hk h hres => by
      simp only [resolveItem] at h
      split at h
      next ys hys =>
        cases h
        rw [resolvesTo] at hres
        exact plainRefsObj_of_resolvesTo hnull kvs top ys hk hys hres
      next => cases h
theorem plainRefsList_of_resolvesTo (hnull : AllNull upstream) : ∀ (xs : List Value) (top : Option String)
    (ys : List Value), Known upstream upstream.get? (collectRefsList xs top) →
    resolveItems upstream xs = .ok ys → resolvesToList upstream.get? xs ys = true → plainRefsList xs = true
  | [] => fun _ _ _ _ _ => rfl
  | x :: xs => fun top ys hk h hres => by
      simp only [resolveItems] at h
      split at h
      next => cases h
      next x' hx =>
        split at h
        next => cases h
        next rest hrest =>
          cases h
          rw [resolvesToList, Bool.and_eq_true] at hres
          rw [collectRefsList] at hk
          have h1 := plainRefsItem_of_resolvesTo hnull x top x' (fun r hr => hk r (List.mem_append_left _ hr))
            hx hres.1
          have h2 := plainRefsList_of_resolvesTo hnull xs top rest
            (fun r hr => hk r (List.mem_append_right _ hr)) hrest hres.2
          rw [plainRefsList, h1, h2]
          rfl
end

/-- Null outputs for a list of steps. -/
def nullOutputs (sids : List String) : Lib.Dict String Value := .ofPairs (sids.map fun sid => (sid, .null))

omit [Py] in
theorem nullOutputs_allNull (sids : List String) : AllNull (nullOutputs sids) := by
  intro sid o ho
  obtain ⟨_, _, he⟩ := List.mem_map.mp (Lib.Dict.mem_of_get?_ofPairs ho)
  cases he
  rfl

omit [Py] in
theorem mem_keys_nullOutputs {sids : List String} {sid : String} (h : sid ∈ sids) :
    sid ∈ (nullOutputs sids).keys := by
  refine Lib.Dict.mem_keys_ofPairs.mpr (List.mem_map.mpr ⟨(sid, .null), ?_, rfl⟩)
  exact List.mem_map.mpr ⟨sid, h, rfl⟩

omit [Py] in
theorem known_of_keys {refs : List CollectedRef} (h : ∀ r ∈ refs, r.ref.stepId ∈ upstream.keys) :
    Known upstream upstream.get? refs := by
  intro r hr
  obtain ⟨o, ho⟩ := Lib.Dict.mem_keys_iff.mp (h r hr)
  exact ⟨o, ho, ho⟩

end converse

attribute [local instance] asciiPy

end JAgent
