import JAgent.JsonRoundTrip
import JAgent.Lib.Spans
import JAgent.Tools.Addresses

/-! # JSON in the answers of a model

A language model wraps the object it was asked for in a code fence or in prose.  `parseLenientJson` takes
the fence off, decodes what is left, and where this fails decodes the span from the first opening brace to
the last closing one.

`Presents` lists the ways in which an answer may present an object.  An object that is presented in one of
them is read back as it was written (`parseLenientJson_presents`). -/

namespace JAgent

/-- `LenientJsonError`: no span of an object, or one that does not decode. -/
inductive LenientJsonError where
  | noObject
  | invalid (span : String)
deriving DecidableEq

/-- The mark of a code fence. -/
def fenceMark : List Char := [Char.ofNat 96, Char.ofNat 96, Char.ofNat 96]

section parsing
variable [Py]

/-- `strip_code_fence`. -/
def stripCodeFence (text : String) : List Char :=
  let stripped := strip text.toList
  if fenceMark.isPrefixOf stripped then
    let body := match partition '\n' stripped with
      | (_, some rest) => rest
      | (_, none) => stripped
    strip ((Lib.beforeLast fenceMark body).getD body)
  else stripped

variable (parseFloat : String → Option Dyadic)

/-- `parse_lenient_json`. -/
def parseLenientJson (text : String) : Except LenientJsonError Value :=
  let stripped := stripCodeFence text
  match jsonLoads parseFloat (String.ofList stripped) with
  | some v => .ok v
  | none => match Lib.outermost '\x7b' '\x7d' stripped with
    | none => .error .noObject
    | some span => match jsonLoads parseFloat (String.ofList span) with
      | some v => .ok v
      | none => .error (.invalid (String.ofList span))

/-- The answer presents the text of an object: between spaces, in a code fence, or in prose that has no
opening brace before it and no closing brace behind it and is not JSON as a whole. -/
inductive Presents (body : List Char) : String → Prop
  | alone {front back : List Char} (hfront : ∀ c ∈ front, isSpaceChar c = true)
      (hback : ∀ c ∈ back, isSpaceChar c = true) : Presents body (String.ofList (front ++ body ++ back))
  | fenced {front info before behind back : List Char} (hfront : ∀ c ∈ front, isSpaceChar c = true)
      (hinfo : '\n' ∉ info) (hbefore : ∀ c ∈ before, isSpaceChar c = true)
      (hbehind : ∀ c ∈ behind, isSpaceChar c = true) (hback : Char.ofNat 96 ∉ back) :
      Presents body (String.ofList (front ++ fenceMark ++ info ++ '\n' :: before ++ body ++ behind ++
        fenceMark ++ back))
  | inProse {front back : List Char} (hfront : '\x7b' ∉ front) (hback : '\x7d' ∉ back)
      (hfence : fenceMark.isPrefixOf (strip (front ++ body ++ back)) = false)
      (hwhole : jsonLoads parseFloat (String.ofList (strip (front ++ body ++ back))) = none) :
      Presents body (String.ofList (front ++ body ++ back))

end parsing

/-! ### An object is read back -/

section presented
variable [Py] {parseFloat : String → Option Dyadic} {mid : List Char}

theorem strip_eq_trim (text : List Char) : strip text = Lib.trim isSpaceChar text := rfl

theorem isSpaceChar_brace : isSpaceChar '\x7b' = false ∧ isSpaceChar '\x7d' = false ∧
    isSpaceChar (Char.ofNat 96) = false := by
  refine ⟨?_, ?_, ?_⟩
  · rw [isSpaceChar, if_pos (by decide)]
    decide
  · rw [isSpaceChar, if_pos (by decide)]
    decide
  · rw [isSpaceChar, if_pos (by decide)]
    decide

/-- Spaces around an object are stripped. -/
theorem strip_braces {front back : List Char} (hfront : ∀ c ∈ front, isSpaceChar c = true)
    (hback : ∀ c ∈ back, isSpaceChar c = true) :
    strip (front ++ ('\x7b' :: (mid ++ ['\x7d'])) ++ back) = '\x7b' :: (mid ++ ['\x7d']) := by
  have hassoc : front ++ ('\x7b' :: (mid ++ ['\x7d'])) ++ back =
      front ++ '\x7b' :: (mid ++ '\x7d' :: back) := by
    rw [List.append_assoc, List.cons_append, List.append_assoc]
    rfl
  rw [hassoc, strip_eq_trim, Lib.trim_append isSpaceChar_brace.1 isSpaceChar_brace.2.1,
    List.dropWhile_eq_nil_iff.mpr hfront, List.rdropWhile_eq_nil_iff.mpr hback]
  rfl

/-- The body of a code fence is what stands between its marks. -/
theorem stripCodeFence_fenced {front info before behind back body : List Char}
    (hfront : ∀ c ∈ front, isSpaceChar c = true) (hinfo : '\n' ∉ info) (hback : Char.ofNat 96 ∉ back)
    (hbody : strip (before ++ body ++ behind) = body) :
    stripCodeFence (String.ofList (front ++ fenceMark ++ info ++ '\n' :: before ++ body ++ behind ++
      fenceMark ++ back)) = body := by
  have hb := isSpaceChar_brace.2.2
  have htext : front ++ fenceMark ++ info ++ '\n' :: before ++ body ++ behind ++ fenceMark ++ back =
      front ++ Char.ofNat 96 :: ((Char.ofNat 96 :: Char.ofNat 96 :: (info ++ '\n' :: (before ++ body ++ behind ++
        [Char.ofNat 96, Char.ofNat 96]))) ++ Char.ofNat 96 :: back) := by
    simp only [fenceMark, List.append_assoc, List.cons_append, List.nil_append]
  -- what strip leaves begins with the first mark and ends with the second and what follows it
  have hstrip : strip (front ++ fenceMark ++ info ++ '\n' :: before ++ body ++ behind ++ fenceMark ++ back) =
      (fenceMark ++ info) ++ '\n' :: ((before ++ body ++ behind) ++
        (fenceMark ++ back.rdropWhile isSpaceChar)) := by
    rw [htext, strip_eq_trim, Lib.trim_append hb hb, List.dropWhile_eq_nil_iff.mpr hfront]
    simp only [fenceMark, List.append_assoc, List.cons_append, List.nil_append]
  have hnewline : '\n' ∉ fenceMark ++ info := by
    rw [List.mem_append, not_or]
    exact ⟨by decide, hinfo⟩
  have hmark : ¬fenceMark <:+: [Char.ofNat 96, Char.ofNat 96] ++ back.rdropWhile isSpaceChar := by
    intro hinfix
    have hcount := hinfix.sublist.count_le (Char.ofNat 96)
    have hnone : Char.ofNat 96 ∉ back.rdropWhile isSpaceChar := fun hmem =>
      hback ((List.rdropWhile_prefix _ _).subset hmem)
    rw [List.count_append, List.count_eq_zero_of_not_mem hnone] at hcount
    exact absurd hcount (by decide)
  unfold stripCodeFence
  rw [String.toList_ofList]
  simp only [hstrip]
  rw [if_pos (by rfl), partition_append hnewline]
  simp only [Lib.beforeLast_append (show fenceMark = Char.ofNat 96 :: [Char.ofNat 96, Char.ofNat 96] from rfl)
    hmark, Option.getD_some]
  exact hbody

theorem stripCodeFence_of_no_fence {text : List Char} (h : fenceMark.isPrefixOf (strip text) = false) :
    stripCodeFence (String.ofList text) = strip text := by
  unfold stripCodeFence
  rw [String.toList_ofList]
  simp only [h]
  rfl

/-- An answer whose text is JSON once the fence is off. -/
theorem parseLenientJson_of_whole {text : String} {v : Value}
    (h : jsonLoads parseFloat (String.ofList (stripCodeFence text)) = some v) :
    parseLenientJson parseFloat text = .ok v := by
  unfold parseLenientJson
  simp only [h]

/-- **An object that is presented is read back.** -/
theorem parseLenientJson_presents {text : String} {v : Value}
    (hbody : jsonLoads parseFloat (String.ofList ('\x7b' :: (mid ++ ['\x7d']))) = some v)
    (h : Presents parseFloat ('\x7b' :: (mid ++ ['\x7d'])) text) : parseLenientJson parseFloat text = .ok v := by
  cases h with
  | alone hfront hback =>
      apply parseLenientJson_of_whole
      rw [stripCodeFence_of_no_fence]
      · rw [strip_braces hfront hback]
        exact hbody
      · rw [strip_braces hfront hback]
        rfl
  | fenced hfront hinfo hbefore hbehind hback =>
      apply parseLenientJson_of_whole
      rw [stripCodeFence_fenced hfront hinfo hback (strip_braces hbefore hbehind)]
      exact hbody
  | @inProse front back hfront hback hfence hwhole =>
      have hassoc : front ++ ('\x7b' :: (mid ++ ['\x7d'])) ++ back =
          front ++ '\x7b' :: (mid ++ '\x7d' :: back) := by
        rw [List.append_assoc, List.cons_append, List.append_assoc]
        rfl
      have hspan : Lib.outermost '\x7b' '\x7d' (strip (front ++ ('\x7b' :: (mid ++ ['\x7d'])) ++ back)) =
          some ('\x7b' :: (mid ++ ['\x7d'])) := by
        rw [hassoc, strip_eq_trim, Lib.trim_append isSpaceChar_brace.1 isSpaceChar_brace.2.1]
        apply Lib.outermost_append
        · exact fun hmem => hfront ((List.dropWhile_suffix _).subset hmem)
        · exact fun hmem => hback ((List.rdropWhile_prefix _ _).subset hmem)
      unfold parseLenientJson
      rw [stripCodeFence_of_no_fence hfence]
      simp only [hwhole, hspan, hbody]

end presented

end JAgent
