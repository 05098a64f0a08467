import JAgent.JsonSorted
import JAgent.Execution.PosixPath
import JAgent.Tools.Skills

/-! # The store of large outputs

A large output is written to a file named by the digest of its text, and the event stream keeps the name
of the file, its reference.  `fetch` takes a reference back, after checking that it looks like one.

The file of an output is never overwritten by another text: the name is the digest.  So a reference
keeps its meaning whatever is stored later (`fetch_store`), for every backend that remembers what was
written (`Remembers`).  What comes back has its keys sorted, which makes no difference to the host
language.

The pattern for references ends in `$`, and `$` also matches before a line feed at the end of the
text.  So one more string is accepted for each reference, the reference with a line feed
(`isValidBlobRef_iff`).  It names no blob, but it is still the name of a file in the directory of the
blobs. -/

namespace JAgent

/-! ### References -/

/-- `BLOB_NAMESPACE`. -/
def blobNamespace : String := ".harness_outputs"

/-- `[0-9a-f]`. -/
def isRefDigit (c : Char) : Bool := c.isDigit || ('a' ≤ c && c ≤ 'f')

/-- 64 lower-case hexadecimal digits, and then the tail. -/
def HexThen (tail : List Char) (ref : String) : Prop :=
  ∃ digits : List Char, digits.length = 64 ∧ (∀ c ∈ digits, isRefDigit c = true) ∧
    ref.toList = digits ++ tail

/-- 64 lower-case hexadecimal digits and `.json`. -/
def IsBlobRef (ref : String) : Prop := HexThen ['.', 'j', 's', 'o', 'n'] ref

/-- A reference with a line feed after it. -/
def EndsInLineFeed (ref : String) : Prop := ∃ r, IsBlobRef r ∧ ref = r ++ "\n"

/-- A text is 64 digits and the tail. -/
theorem hexThen_split {tail cs : List Char} :
    (cs.length = 64 + tail.length ∧ (∀ c ∈ cs.take 64, isRefDigit c = true) ∧ cs.drop 64 = tail) ↔
      ∃ digits : List Char, digits.length = 64 ∧ (∀ c ∈ digits, isRefDigit c = true) ∧
        cs = digits ++ tail := by
  constructor
  · rintro ⟨hlen, hdigits, rfl⟩
    refine ⟨cs.take 64, ?_, hdigits, (List.take_append_drop 64 cs).symm⟩
    rw [List.length_take, hlen]
    omega
  · rintro ⟨digits, hlen, hdigits, rfl⟩
    rw [← hlen, List.take_left, List.drop_left, List.length_append]
    exact ⟨rfl, hdigits, rfl⟩

theorem endsInLineFeed_iff {ref : String} :
    EndsInLineFeed ref ↔ HexThen ['.', 'j', 's', 'o', 'n', '\n'] ref := by
  constructor
  · rintro ⟨r, ⟨digits, hlen, hdigits, hr⟩, rfl⟩
    refine ⟨digits, hlen, hdigits, ?_⟩
    rw [String.toList_append, hr, List.append_assoc]
    rfl
  · rintro ⟨digits, hlen, hdigits, href⟩
    refine ⟨String.ofList (digits ++ ['.', 'j', 's', 'o', 'n']), ⟨digits, hlen, hdigits, ?_⟩, ?_⟩
    · rw [String.toList_ofList]
    · rw [← String.toList_inj, href, String.toList_append, String.toList_ofList, List.append_assoc]
      rfl

/-- **What is accepted**: the references, and each with a line feed after it. -/
theorem isValidBlobRef_iff {ref : String} :
    isValidBlobRef ref = true ↔ IsBlobRef ref ∨ EndsInLineFeed ref := by
  have hbody : ∀ body : List Char,
      (decide (body.length = 69) && (body.take 64).all (fun c => c.isDigit || ('a' ≤ c && c ≤ 'f')) &&
        decide (body.drop 64 = ".json".toList)) = true ↔
      ∃ digits : List Char, digits.length = 64 ∧ (∀ c ∈ digits, isRefDigit c = true) ∧
        body = digits ++ ['.', 'j', 's', 'o', 'n'] := by
    intro body
    have hjson : ".json".toList = ['.', 'j', 's', 'o', 'n'] := by decide
    rw [Bool.and_eq_true, Bool.and_eq_true, decide_eq_true_eq, decide_eq_true_eq, List.all_eq_true,
      and_assoc, hjson]
    exact @hexThen_split ['.', 'j', 's', 'o', 'n'] body
  rw [endsInLineFeed_iff]
  by_cases hlast : ref.toList.getLast? = some '\n'
  · obtain ⟨front, hfront⟩ := List.getLast?_eq_some_iff.mp hlast
    have hvalid := hbody front
    rw [isValidBlobRef, if_pos hlast, hfront, List.dropLast_concat]
    refine hvalid.trans ⟨?_, ?_⟩
    · rintro ⟨digits, hlen, hdigits, rfl⟩
      refine .inr ⟨digits, hlen, hdigits, ?_⟩
      rw [hfront, List.append_assoc]
      rfl
    · rintro (⟨digits, -, -, href⟩ | ⟨digits, hlen, hdigits, href⟩)
      · rw [href, List.getLast?_append] at hlast
        exact absurd (Option.some.inj hlast) (by decide)
      · refine ⟨digits, hlen, hdigits, ?_⟩
        have heq : front ++ ['\n'] = (digits ++ ['.', 'j', 's', 'o', 'n']) ++ ['\n'] := by
          rw [← hfront, href, List.append_assoc]
          rfl
        exact (List.append_inj' heq rfl).1
  · rw [isValidBlobRef, if_neg hlast]
    refine (hbody ref.toList).trans ⟨.inl, ?_⟩
    rintro (h | ⟨digits, -, -, href⟩)
    · exact h
    · rw [href, List.getLast?_append] at hlast
      exact absurd rfl hlast

theorem length_of_isBlobRef {ref : String} (h : IsBlobRef ref) : ref.toList.length = 69 := by
  obtain ⟨digits, hlen, -, hcs⟩ := h
  rw [hcs, List.length_append, hlen]
  rfl

/-- **The references alone are accepted unless one has a line feed after it.** -/
theorem isValidBlobRef_exact_iff {ref : String} :
    (isValidBlobRef ref = true ↔ IsBlobRef ref) ↔ ¬EndsInLineFeed ref := by
  rw [isValidBlobRef_iff]
  constructor
  · rintro h ⟨r, hr, rfl⟩
    have hlen := length_of_isBlobRef (h.mp (.inr ⟨r, hr, rfl⟩))
    rw [String.toList_append, List.length_append, length_of_isBlobRef hr] at hlen
    exact absurd hlen (by decide)
  · intro h
    exact or_iff_left h

/-- The tail of what is accepted. -/
theorem hexThen_of_isValidBlobRef {ref : String} (h : isValidBlobRef ref = true) :
    ∃ tail, '/' ∉ tail ∧ HexThen ('.' :: tail) ref := by
  obtain h | h := isValidBlobRef_iff.mp h
  · exact ⟨['j', 's', 'o', 'n'], by decide, h⟩
  · exact ⟨['j', 's', 'o', 'n', '\n'], by decide, endsInLineFeed_iff.mp h⟩

theorem slash_not_mem_of_isValidBlobRef {ref : String} (h : isValidBlobRef ref = true) :
    '/' ∉ ref.toList := by
  obtain ⟨tail, htail, digits, -, hdigits, href⟩ := hexThen_of_isValidBlobRef h
  rw [href, List.mem_append, List.mem_cons]
  rintro (hmem | heq | hmem)
  · exact absurd (hdigits '/' hmem) (by decide)
  · exact absurd heq (by decide)
  · exact htail hmem

/-- **What is accepted names a file in the directory of the blobs.** -/
theorem inside_of_isValidBlobRef {ref : String} (h : isValidBlobRef ref = true) :
    Inside blobNamespace.toList (blobNamespace ++ "/" ++ ref).toList := by
  have hpath : (blobNamespace ++ "/" ++ ref).toList = blobNamespace.toList ++ '/' :: ref.toList := by
    rw [String.toList_append, String.toList_append, List.append_assoc]
    rfl
  have hup : parent ∉ components ref.toList := by
    intro hmem
    rw [components, List.splitOn_eq_singleton (slash_not_mem_of_isValidBlobRef h)] at hmem
    have heq := List.mem_singleton.mp (List.mem_filter.mp hmem).1
    obtain ⟨tail, -, digits, hlen, -, href⟩ := hexThen_of_isValidBlobRef h
    have hlong := congrArg List.length (heq.trans href)
    rw [List.length_append, hlen, parent, List.length_cons, List.length_singleton] at hlong
    omega
  rw [hpath]
  refine ⟨rfl, ?_⟩
  unfold lexical
  rw [components_append_slash]
  have hrel : isAbsolute (blobNamespace.toList ++ '/' :: ref.toList) = false := rfl
  rw [hrel, Lib.Path.within_resolve_iff]
  exact ⟨_, _, rfl, rfl, Lib.Path.stays_of_not_mem hup⟩

/-! ### Storing and fetching -/

/-- `OutputBlobStore`, with what it takes from the host language: the digest of a text, the numbers a
decimal form denotes, and the message for a text that is no JSON. -/
structure OutputBlobStore (W : Type) where
  backend : Option (ExecutionBackend W)
  inlineMaxChars : ℕ
  digest : String → String
  parseFloat : String → Option Dyadic
  decodeError : String → String

/-- What a call of `store` is given. -/
structure OffloadCall where
  output : Value
  toolCallId : String
  toolName : String
  stepId : Option String
  workspaceId : Option String

namespace OutputBlobStore
variable {W : Type} [Py] (s : OutputBlobStore W)

/-- The record `store` returns. -/
def blob (c : OffloadCall) : OutputBlobStoredPayload :=
  storedBlob s.digest s.inlineMaxChars c.output c.toolCallId c.toolName c.stepId c.workspaceId

/-- `store`. -/
def store (c : OffloadCall) (w : W) : Except Raised (Option OutputBlobStoredPayload) × W :=
  match s.backend with
  | none => (.ok none, w)
  | some b =>
      if (serialize c.output).length ≤ s.inlineMaxChars then (.ok none, w)
      else
        let r := b.write (blobPath s.digest c.output) (serialize c.output) w
        (r.1.map fun _ => some (s.blob c), r.2)

/-- `json.loads`. -/
def loads : Value → Answer
  | .str text => match jsonLoads s.parseFloat text with
    | some v => .ok v
    | none => .error (.error "JSONDecodeError" (s.decodeError text))
  | v => .error (.error "TypeError" ("the JSON object must be str, bytes or bytearray, not " ++ v.typeName))

/-- `result.get("content") if isinstance(result, dict) else None`. -/
def content : Value → Value
  | .obj o => (Obj.get? o "content").getD .null
  | _ => .null

/-- What `fetch` makes of the answer of a read. -/
def received (ref : String) (result : Value) : Answer :=
  if content result = .null then .error (.error "ValueError" ("blob not found: " ++ ref))
  else s.loads (content result)

/-- `fetch`. -/
def fetch (ref : String) (w : W) : Answer × W :=
  if isValidBlobRef ref then
    match s.backend with
    | none => (.error (.error "ValueError" "output blob store has no backend configured"), w)
    | some b =>
        let r := b.read (blobNamespace ++ "/" ++ ref) w
        (r.1.bind (s.received ref), r.2)
  else (.error (.error "ValueError" ("invalid output blob ref: " ++ reprStr ref)), w)

/-- Store one output after the other. -/
def storeAll (cs : List OffloadCall) (w : W) : W := cs.foldl (fun w c => (s.store c w).2) w

end OutputBlobStore

/-- The backend remembers: `written w p` is what was last written to `p`, and it is what a read gives. -/
structure Remembers {W : Type} (b : ExecutionBackend W) (written : W → String → Option String) : Prop where
  write : ∀ {p c w a w'}, b.write p c w = (.ok a, w') →
    ∀ q, written w' q = if q = p then some c else written w q
  refused : ∀ {p c w e w'}, b.write p c w = (.error e, w') → written w' = written w
  read : ∀ {p c w}, written w p = some c →
    ∃ o w', b.read p w = (.ok (.obj o), w') ∧ Obj.get? o "content" = some (.str c)

namespace OutputBlobStore
variable {W : Type} [Py] {s : OutputBlobStore W} {b : ExecutionBackend W}
  {written : W → String → Option String}

omit [Py] in
theorem append_inj_middle {a b x y : String} (h : a ++ x ++ b = a ++ y ++ b) : x = y := by
  have hlist := congrArg String.toList h
  simp only [String.toList_append, List.append_assoc] at hlist
  exact String.toList_inj.mp (List.append_cancel_right (List.append_cancel_left hlist))

theorem blobPath_eq (digest : String → String) (v : Value) :
    blobNamespace ++ "/" ++ (digest (serialize v) ++ ".json") = blobPath digest v := by
  have hspace : blobNamespace ++ "/" = ".harness_outputs/" := by decide
  rw [hspace]
  exact (@String.append_assoc ".harness_outputs/" (digest (serialize v)) ".json").symm

/-- What a call with a large output does. -/
theorem store_of_long (hs : s.backend = some b) {c : OffloadCall}
    (hlong : s.inlineMaxChars < (serialize c.output).length) (w : W) :
    s.store c w =
      ((b.write (blobPath s.digest c.output) (serialize c.output) w).1.map fun _ => some (s.blob c),
        (b.write (blobPath s.digest c.output) (serialize c.output) w).2) := by
  rw [store, hs]
  exact if_neg (by omega)

theorem store_of_short (hs : s.backend = some b) {c : OffloadCall}
    (hshort : (serialize c.output).length ≤ s.inlineMaxChars) (w : W) : s.store c w = (.ok none, w) := by
  rw [store, hs]
  exact if_pos hshort

/-- A file with another digest, or with the same text, stays as it is. -/
theorem written_store (hs : s.backend = some b) (hb : Remembers b written) {v : Value} {c : OffloadCall}
    (hinj : s.digest (serialize c.output) = s.digest (serialize v) → serialize c.output = serialize v)
    {w : W} (hw : written w (blobPath s.digest v) = some (serialize v)) :
    written (s.store c w).2 (blobPath s.digest v) = some (serialize v) := by
  rcases Nat.lt_or_ge s.inlineMaxChars (serialize c.output).length with hlong | hshort
  · rw [store_of_long hs hlong]
    show written (b.write (blobPath s.digest c.output) (serialize c.output) w).2 _ = _
    cases hwrite : b.write (blobPath s.digest c.output) (serialize c.output) w with
    | mk r w' =>
        cases r with
        | error e =>
            rw [hb.refused hwrite]
            exact hw
        | ok a =>
            rw [hb.write hwrite]
            split_ifs with hpath
            · rw [hinj (append_inj_middle hpath).symm]
            · exact hw
  · rw [store_of_short hs hshort]
    exact hw

theorem written_storeAll (hs : s.backend = some b) (hb : Remembers b written) {v : Value}
    {cs : List OffloadCall}
    (hinj : ∀ c ∈ cs, s.digest (serialize c.output) = s.digest (serialize v) →
      serialize c.output = serialize v) {w : W}
    (hw : written w (blobPath s.digest v) = some (serialize v)) :
    written (s.storeAll cs w) (blobPath s.digest v) = some (serialize v) := by
  induction cs generalizing w with
  | nil => exact hw
  | cons c cs ih =>
      rw [List.forall_mem_cons] at hinj
      exact ih hinj.2 (written_store hs hb hinj.1 hw)

/-- A file with the text of an output is fetched as that output. -/
theorem fetch_of_written (hs : s.backend = some b) (hb : Remembers b written) {v : Value}
    (hd : v.distinct = true) (hf : ∀ d ∈ v.floats, FloatReadable s.parseFloat d)
    (hhex : IsBlobRef (s.digest (serialize v) ++ ".json")) {w : W}
    (hw : written w (blobPath s.digest v) = some (serialize v)) :
    (s.fetch (s.digest (serialize v) ++ ".json") w).1 = .ok v.sortKeys := by
  obtain ⟨o, w', hread, hcontent⟩ := hb.read hw
  have hvalid : isValidBlobRef (s.digest (serialize v) ++ ".json") = true := isValidBlobRef_iff.mpr (.inl hhex)
  have htext : content (.obj o) = .str (serialize v) := by
    rw [content, hcontent]
    rfl
  have hloads : s.loads (.str (serialize v)) = .ok v.sortKeys := by
    rw [loads, serialize, jsonLoads_sortedDumps s.parseFloat false hd hf]
  have hreceived : s.received (s.digest (serialize v) ++ ".json") (.obj o) = .ok v.sortKeys := by
    rw [received, htext, if_neg (fun h => by cases h), hloads]
  rw [fetch, if_pos hvalid, hs]
  show (b.read (blobNamespace ++ "/" ++ (s.digest (serialize v) ++ ".json")) w).1.bind _ = _
  rw [blobPath_eq, hread]
  exact hreceived

/-- `fetch` reads nothing outside the directory of the blobs. -/
theorem fetch_congr {s' : OutputBlobStore W} {b' : ExecutionBackend W} (hs : s.backend = some b)
    (hs' : s' = { s with backend := some b' })
    (hread : ∀ path : String, Inside blobNamespace.toList path.toList → b.read path = b'.read path)
    (ref : String) (w : W) : s.fetch ref w = s'.fetch ref w := by
  subst hs'
  rw [fetch, fetch, hs]
  by_cases hvalid : isValidBlobRef ref = true
  · rw [if_pos hvalid, if_pos hvalid]
    show ((b.read (blobNamespace ++ "/" ++ ref) w).1.bind _, (b.read (blobNamespace ++ "/" ++ ref) w).2) = _
    rw [hread _ (inside_of_isValidBlobRef hvalid)]
    rfl
  · rw [if_neg hvalid, if_neg hvalid]

omit [Py] in
/-- A digest with `.json` after it is a reference. -/
theorem isBlobRef_digest {digest : String → String} {text : String}
    (hlen : (digest text).toList.length = 64) (hhex : ∀ c ∈ (digest text).toList, isRefDigit c = true) :
    IsBlobRef (digest text ++ ".json") := by
  refine ⟨(digest text).toList, hlen, hhex, ?_⟩
  rw [String.toList_append]
  rfl

/-- **An output that is stored is fetched**, whatever is stored in between. -/
theorem fetch_store (hs : s.backend = some b) (hb : Remembers b written)
    (hdigest : ∀ text, (s.digest text).toList.length = 64 ∧
      ∀ c ∈ (s.digest text).toList, isRefDigit c = true)
    {c : OffloadCall} (hd : c.output.distinct = true)
    (hf : ∀ d ∈ c.output.floats, FloatReadable s.parseFloat d)
    (hlong : s.inlineMaxChars < (serialize c.output).length) {w : W}
    (hwrite : ∀ e, (b.write (blobPath s.digest c.output) (serialize c.output) w).1 ≠ .error e) :
    ∃ w', s.store c w = (.ok (some (s.blob c)), w') ∧ ∀ others : List OffloadCall,
      (∀ c' ∈ others, s.digest (serialize c'.output) = s.digest (serialize c.output) →
        serialize c'.output = serialize c.output) →
      (s.fetch (s.blob c).ref (s.storeAll others w')).1 = .ok c.output.sortKeys := by
  rw [store_of_long hs hlong]
  cases hr : b.write (blobPath s.digest c.output) (serialize c.output) w with
  | mk r w' =>
      cases r with
      | error e =>
          rw [hr] at hwrite
          exact absurd rfl (hwrite e)
      | ok a =>
          have hw : written w' (blobPath s.digest c.output) = some (serialize c.output) := by
            rw [hb.write hr, if_pos rfl]
          have href := isBlobRef_digest (hdigest (serialize c.output)).1 (hdigest (serialize c.output)).2
          refine ⟨w', rfl, fun others hinj => ?_⟩
          exact fetch_of_written hs hb hd hf href (written_storeAll hs hb hinj hw)

end OutputBlobStore

/-- **Round trip, containment and the references**: an output that is stored is fetched as an equal
value whatever is stored in between, `fetch` reads nothing outside the directory of the blobs, and
exactly the references are accepted unless the string is one with a line feed after it. -/
theorem output_blob_store_exact_iff {W : Type} [Py] (s : OutputBlobStore W) (b : ExecutionBackend W)
    (hs : s.backend = some b) (written : W → String → Option String) (hb : Remembers b written)
    (hdigest : ∀ text, (s.digest text).toList.length = 64 ∧
      ∀ c ∈ (s.digest text).toList, isRefDigit c = true)
    (ref : String) :
    (∀ (c : OffloadCall) (w : W), c.output.distinct = true →
      (∀ d ∈ c.output.floats, FloatReadable s.parseFloat d) →
      s.inlineMaxChars < (serialize c.output).length →
      (∀ e, (b.write (blobPath s.digest c.output) (serialize c.output) w).1 ≠ .error e) →
      ∃ blob w', s.store c w = (.ok (some blob), w') ∧ ∀ others : List OffloadCall,
        (∀ c' ∈ others, s.digest (serialize c'.output) = s.digest (serialize c.output) →
          serialize c'.output = serialize c.output) →
        ∃ v, (s.fetch blob.ref (s.storeAll others w')).1 = .ok v ∧ v.pyEq c.output = true) ∧
      (∀ (b' : ExecutionBackend W) (w : W),
        (∀ path : String, Inside blobNamespace.toList path.toList → b.read path = b'.read path) →
          s.fetch ref w = ({ s with backend := some b' } : OutputBlobStore W).fetch ref w) ∧
      ((isValidBlobRef ref = true ↔ IsBlobRef ref) ↔ ¬EndsInLineFeed ref) := by
  refine ⟨fun c w hd hf hlong hwrite => ?_, fun b' w hread => ?_, isValidBlobRef_exact_iff⟩
  · obtain ⟨w', hstore, hfetch⟩ := OutputBlobStore.fetch_store hs hb hdigest hd hf hlong hwrite
    refine ⟨s.blob c, w', hstore, fun others hinj => ?_⟩
    exact ⟨c.output.sortKeys, hfetch others hinj, c.output.pyEq_sortKeys hd⟩
  · exact OutputBlobStore.fetch_congr hs rfl hread ref w

/-! ### A report and a log -/

section sample

attribute [local instance] asciiPy

/-- Files by path. -/
def tableBackend : ExecutionBackend (Lib.Dict String String) where
  resolve path := .ok path
  read path w := (.ok (match w.get? path with
    | some c => readAnswer path c
    | none => missingAnswer "File" path), w)
  write path c w := (.ok (sizeAnswer path c.length), w.set path c)
  append path c w := (.ok (sizeAnswer path c.length), w.set path ((w.get? path).getD "" ++ c))
  delete path w := (.ok (doneAnswer path), w)
  list path w := (.ok (doneAnswer path), w)

theorem tableBackend_remembers : Remembers tableBackend fun w p => w.get? p where
  write h q := by
    obtain ⟨-, rfl⟩ := Prod.mk.inj h
    rw [Lib.Dict.get?_set]
    simp only [eq_comm]
  refused h := by cases (Prod.mk.inj h).1
  read {p c w} h := by
    refine ⟨[("success", .bool true), ("path", .str p), ("content", .str c), ("size", .int c.length)],
      w, ?_, rfl⟩
    show (Except.ok (match w.get? p with
      | some c => readAnswer p c
      | none => missingAnswer "File" p), w) = _
    rw [h]
    rfl

def report : OffloadCall :=
  ⟨.obj [("name", .str "report"), ("lines", .arr [.int 1, .int 2])], "t1", "file_op", none, none⟩

def logOutput : OffloadCall := ⟨.obj [("name", .str "log")], "t2", "file_op", none, none⟩

/-- The digests of the two texts. -/
def reportDigest (text : String) : String :=
  String.ofList (hexDigits 64
    (if text = "\x7b\"lines\": [1, 2], \"name\": \"report\"\x7d" then
      0x28f4107f5a4414b0008340c4db6b02f5ff24c315429fa3bd755f111a74be18a0
    else 0xbc6d61003aaa17765dd1a7735a1e7cad43cfe769dfd039fcde5eb855b08f0138))

theorem isRefDigit_digitChar : ∀ d, d < 16 → isRefDigit (Nat.digitChar d) = true := by decide

theorem length_hexDigits (k n : ℕ) : (hexDigits k n).length = k := by
  induction k generalizing n with
  | zero => rfl
  | succ k ih => rw [hexDigits, List.length_append, ih, List.length_singleton]

theorem isRefDigit_of_mem_hexDigits {c : Char} {k n : ℕ} (h : c ∈ hexDigits k n) : isRefDigit c = true := by
  induction k generalizing n with
  | zero => cases h
  | succ k ih =>
      rw [hexDigits, List.mem_append, List.mem_singleton] at h
      obtain h | rfl := h
      · exact ih h
      · exact isRefDigit_digitChar _ (Nat.mod_lt _ (by decide))

def sampleStore : OutputBlobStore (Lib.Dict String String) where
  backend := some tableBackend
  inlineMaxChars := 10
  digest := reportDigest
  parseFloat _ := none
  decodeError _ := ""

/-- The report is fetched after the log was stored. -/
theorem report_fetched :
    ∃ blob w', sampleStore.store report .empty = (.ok (some blob), w') ∧
      ∃ v, (sampleStore.fetch blob.ref (sampleStore.storeAll [logOutput] w')).1 = .ok v ∧
        v.pyEq report.output = true := by
  have hdigest : ∀ text, (sampleStore.digest text).toList.length = 64 ∧
      ∀ c ∈ (sampleStore.digest text).toList, isRefDigit c = true := by
    intro text
    show (reportDigest text).toList.length = 64 ∧ ∀ c ∈ (reportDigest text).toList, isRefDigit c = true
    rw [reportDigest, String.toList_ofList]
    exact ⟨length_hexDigits 64 _, fun c hc => isRefDigit_of_mem_hexDigits hc⟩
  have hfloats : report.output.floats = [] := by decide
  have hall := output_blob_store_exact_iff sampleStore tableBackend rfl _ tableBackend_remembers hdigest ""
  obtain ⟨blob, w', hstore, hfetch⟩ := hall.1 report .empty (by decide)
    (by rw [hfloats]; exact fun d hd => absurd hd List.not_mem_nil) (by decide +kernel) (fun e h => by cases h)
  exact ⟨blob, w', hstore, hfetch [logOutput] (by decide +kernel)⟩

/-- A reference with a line feed after it. -/
def lineFeedRef : String := "28f4107f5a4414b0008340c4db6b02f5ff24c315429fa3bd755f111a74be18a0.json\n"

/-- **A reference with a line feed after it is accepted.** -/
theorem line_feed_ref_accepted : isValidBlobRef lineFeedRef = true ∧ ¬IsBlobRef lineFeedRef := by
  refine ⟨by decide +kernel, fun h => ?_⟩
  exact absurd (length_of_isBlobRef h) (by decide)

end sample

end JAgent
