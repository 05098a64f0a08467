import Mathlib
import JAgent.Value

/-! # Execution backends

`ExecutionBackend` is the interface through which tools touch files: every operation is a
function of the files that answers or raises and gives the files back.

`LocalDirectory` is the backend of a directory on the local disk.  Its files are a table from
paths below the root to nodes; the field `closed` of `FileSystem` says that whatever exists lies
in an existing directory, so that a file never stands above another node.  What the operating
system makes of a path (symbolic links, names it refuses) is the parameter `realpath` of the
directory: no operation of a backend creates or removes a link, so it does not change in a run.

The last section says of each operation when it leaves every file as it is. -/

namespace JAgent

/-! ### Exceptions -/

/-- An exception: a time-out, a nested request for confirmation, or any other exception with
its class name and text. -/
inductive Raised where
  | timeout
  | confirmationNeeded (toolName confirmationId : String)
  | error (kind text : String)
deriving DecidableEq

/-- `str(exc)`. -/
def Raised.text : Raised → String
  | .timeout => ""
  | .confirmationNeeded t c => "Tool '" ++ t ++ "' requires confirmation (id=" ++ c ++ ")"
  | .error _ text => text

/-- `type(exc).__name__`. -/
def Raised.kind : Raised → String
  | .timeout => "TimeoutError"
  | .confirmationNeeded _ _ => "ConfirmationNeededError"
  | .error kind _ => kind

/-- What a call gives: a value, or an exception. -/
abbrev Answer := Except Raised Value

/-- The interface of a backend over the files `W`. -/
structure ExecutionBackend (W : Type) where
  resolve : String → Except Raised String
  read : String → W → Answer × W
  write : String → String → W → Answer × W
  append : String → String → W → Answer × W
  delete : String → W → Answer × W
  list : String → W → Answer × W

/-! ### The files of a directory -/

/-- A path below the root, as its components. -/
abbrev RelPath := List String

inductive Node where
  | file (bytes : ByteArray)
  | dir
deriving DecidableEq

/-- The node at a path; the root itself is always a directory. -/
def nodeAt (nodes : Lib.Dict RelPath Node) (p : RelPath) : Option Node :=
  if p = [] then some .dir else nodes.get? p

/-- The nodes below the root; each lies in a directory. -/
structure FileSystem where
  nodes : Lib.Dict RelPath Node
  closed : ∀ p, nodes.get? p ≠ none → nodeAt nodes p.dropLast = some .dir

namespace FileSystem
variable {fs fs' : FileSystem} {p q : RelPath} {n : Node}

def node? (fs : FileSystem) (p : RelPath) : Option Node := nodeAt fs.nodes p

/-- Both hold the same nodes. -/
def Same (fs fs' : FileSystem) : Prop := ∀ p, fs.node? p = fs'.node? p

@[simp] theorem node?_nil : fs.node? [] = some .dir := by simp [node?, nodeAt]

theorem node?_of_ne (h : p ≠ []) : fs.node? p = fs.nodes.get? p := by simp [node?, nodeAt, h]

theorem ext_nodes (h : fs.nodes = fs'.nodes) : fs = fs' := by
  cases fs
  cases fs'
  simp_all

theorem dir_dropLast (h : fs.node? p ≠ none) : fs.node? p.dropLast = some .dir := by
  by_cases hp : p = []
  · simp [hp]
  · rw [node?_of_ne hp] at h
    exact fs.closed p h

/-- Everything above an existing node is a directory. -/
theorem dir_of_append : ∀ (rest : List String) {p : RelPath},
    fs.node? (p ++ rest) = some .dir → fs.node? p = some .dir := by
  intro rest
  induction rest using List.reverseRecOn with
  | nil =>
      intro p h
      simpa using h
  | append_singleton rest x ih =>
      intro p h
      have habove := fs.dir_dropLast (p := p ++ (rest ++ [x])) (by simp [h])
      rw [← List.append_assoc, List.dropLast_concat] at habove
      exact ih habove

/-- Replacing a node that is not a directory, below a directory, keeps the table closed. -/
theorem closed_set (hp : fs.node? p.dropLast = some .dir) (hn : fs.node? p ≠ some .dir) (n : Node)
    (q : RelPath) (hq : (fs.nodes.set p n).get? q ≠ none) :
    nodeAt (fs.nodes.set p n) q.dropLast = some .dir := by
  have hold : fs.node? q.dropLast = some .dir := by
    by_cases hqp : p = q
    · exact hqp ▸ hp
    · rw [Lib.Dict.get?_set, if_neg hqp] at hq
      exact fs.closed q hq
  have hdiff : p ≠ q.dropLast := by
    intro h
    rw [h] at hn
    exact hn hold
  unfold node? nodeAt at hold
  unfold nodeAt
  rw [Lib.Dict.get?_set, if_neg hdiff]
  exact hold

/-- Store a node below a directory; a directory is never overwritten. -/
def put (fs : FileSystem) (p : RelPath) (n : Node) : FileSystem :=
  if h : fs.node? p.dropLast = some .dir ∧ fs.node? p ≠ some .dir then
    ⟨fs.nodes.set p n, closed_set h.1 h.2 n⟩
  else fs

theorem node?_put (hp : fs.node? p.dropLast = some .dir) (hn : fs.node? p ≠ some .dir)
    (q : RelPath) : (fs.put p n).node? q = if p = q then some n else fs.node? q := by
  have hne : p ≠ [] := by
    rintro rfl
    exact hn node?_nil
  unfold put
  rw [dif_pos ⟨hp, hn⟩]
  unfold node? nodeAt
  rw [Lib.Dict.get?_set]
  by_cases hq : p = q
  · subst hq
    simp [hne]
  · simp [hq]

/-- Storing the node that is there changes nothing. -/
theorem put_self {bytes : ByteArray} (h : fs.node? p = some (.file bytes)) :
    fs.put p (.file bytes) = fs := by
  have hne : p ≠ [] := by
    rintro rfl
    rw [node?_nil] at h
    cases h
  rw [node?_of_ne hne] at h
  unfold put
  split
  · apply ext_nodes
    exact Lib.Dict.set_eq_self h
  · rfl

/-- Removing a node that is not a directory keeps the table closed. -/
theorem closed_pop (hn : fs.node? p ≠ some .dir) (q : RelPath)
    (hq : (fs.nodes.pop p).get? q ≠ none) : nodeAt (fs.nodes.pop p) q.dropLast = some .dir := by
  have hqp : p ≠ q := by
    rintro rfl
    simp at hq
  rw [Lib.Dict.get?_pop, if_neg hqp] at hq
  have hold : fs.node? q.dropLast = some .dir := fs.closed q hq
  have hdiff : p ≠ q.dropLast := by
    rintro rfl
    exact hn hold
  unfold node? nodeAt at hold
  unfold nodeAt
  rw [Lib.Dict.get?_pop, if_neg hdiff]
  exact hold

/-- Remove a file; a directory is never removed. -/
def remove (fs : FileSystem) (p : RelPath) : FileSystem :=
  if h : fs.node? p ≠ some .dir then ⟨fs.nodes.pop p, closed_pop h⟩ else fs

theorem node?_remove_self (hn : fs.node? p ≠ some .dir) : (fs.remove p).node? p = none := by
  have hne : p ≠ [] := by
    rintro rfl
    exact hn node?_nil
  unfold remove
  rw [dif_pos hn, node?_of_ne hne]
  simp

/-- `path.mkdir(parents=True, exist_ok=True)` for the directory `rest` below `p`: create what is
missing; `none` when a file stands in the way. -/
def addDirs : List String → RelPath → FileSystem → Option FileSystem
  | [], _, fs => some fs
  | x :: rest, p, fs => match fs.node? (p ++ [x]) with
    | some (.file _) => none
    | some .dir => addDirs rest (p ++ [x]) fs
    | none => addDirs rest (p ++ [x]) (fs.put (p ++ [x]) .dir)

/-- An existing directory is left alone. -/
theorem addDirs_of_dir : ∀ (rest : List String) {p : RelPath},
    fs.node? (p ++ rest) = some .dir → addDirs rest p fs = some fs
  | [], _, _ => rfl
  | x :: rest, p, h => by
      have h' : fs.node? (p ++ [x] ++ rest) = some .dir := by simpa using h
      unfold addDirs
      rw [dir_of_append rest h']
      exact addDirs_of_dir rest h'

/-- The directory is there afterwards, and nothing below it has changed. -/
theorem addDirs_spec : ∀ (rest : List String) {p : RelPath} {fs fs' : FileSystem},
    fs.node? p = some .dir → addDirs rest p fs = some fs' →
      fs'.node? (p ++ rest) = some .dir ∧
        ∀ q, (p ++ rest).length < q.length → fs'.node? q = fs.node? q
  | [], p, fs, fs', hp, h => by
      obtain rfl : fs = fs' := by simpa [addDirs] using h
      exact ⟨by simpa using hp, fun _ _ => rfl⟩
  | x :: rest, p, fs, fs', hp, h => by
      have hsplit : p ++ x :: rest = p ++ [x] ++ rest := by simp
      rw [hsplit]
      unfold addDirs at h
      split at h
      · cases h
      · next hdir => exact addDirs_spec rest hdir h
      · next hnone =>
          have hput : ∀ q, (fs.put (p ++ [x]) .dir).node? q =
              if p ++ [x] = q then some .dir else fs.node? q := by
            apply node?_put
            · rw [List.dropLast_concat]
              exact hp
            · simp [hnone]
          obtain ⟨hdir, hkeep⟩ := addDirs_spec rest (by simp [hput]) h
          refine ⟨hdir, fun q hq => ?_⟩
          have hne : p ++ [x] ≠ q := by
            rintro rfl
            simp at hq
          rw [hkeep q hq, hput, if_neg hne]

end FileSystem

/-! ### The local directory -/

/-- The components of a relative path: empty components and `.` are dropped, `..` is kept. -/
def pathParts (path : String) : List String :=
  ((path.toList.splitOn '/').filter fun part => part ≠ [] && part ≠ ['.']).map String.ofList

/-- A directory of the local disk. -/
structure LocalDirectory where
  /-- The components of the resolved root. -/
  root : List String
  /-- `Path(…).resolve(strict=False)` on the components of an absolute path. -/
  realpath : List String → Except Raised (List String)
  /-- The text of the error that decoding these bytes raises. -/
  decodeError : ByteArray → String

/-- Universal newlines: how text mode reads line ends. -/
def universalNewlines : List Char → List Char
  | [] => []
  | '\r' :: '\n' :: cs => '\n' :: universalNewlines cs
  | '\r' :: cs => '\n' :: universalNewlines cs
  | c :: cs => c :: universalNewlines cs

/-- `path.read_text(encoding="utf-8")`; `none` when the bytes do not decode. -/
def readText (bytes : ByteArray) : Option String :=
  (String.fromUTF8? bytes).map fun s => String.ofList (universalNewlines s.toList)

/-- The answer of a read. -/
def readAnswer (path content : String) : Value :=
  .obj [("success", .bool true), ("path", .str path), ("content", .str content),
    ("size", .int content.length)]

/-- The answer of a write or an append. -/
def sizeAnswer (path : String) (size : ℕ) : Value :=
  .obj [("success", .bool true), ("path", .str path), ("size", .int size)]

/-- The answer of a delete. -/
def doneAnswer (path : String) : Value := .obj [("success", .bool true), ("path", .str path)]

/-- The answer of an operation whose target is missing. -/
def missingAnswer (what path : String) : Value :=
  .obj [("success", .bool false), ("path", .str path),
    ("error", .str (what ++ " not found: " ++ path))]

/-- Give the files back with the answer; an exception leaves them as they are. -/
def answering {W : Type} (r : Except Raised (Value × W)) (w : W) : Answer × W :=
  match r with
  | .ok (v, w') => (.ok v, w')
  | .error e => (.error e, w)

namespace LocalDirectory
variable [Py] (d : LocalDirectory) (fs : FileSystem) (path : String)

/-- `resolve`: the target of a path, below the root. -/
def target : Except Raised RelPath :=
  if path = "" then .error (.error "PermissionError" "path must be a non-empty string")
  else if path.toList.head? = some '/' then
    .error (.error "PermissionError" "absolute paths are not allowed")
  else match d.realpath (d.root ++ pathParts path) with
    | .error e => .error e
    | .ok t =>
      if d.root.isPrefixOf t then .ok (t.drop d.root.length)
      else .error (.error "PermissionError"
        ("Path '" ++ path ++ "' is outside the sandbox workspace root"))

/-- The text of an absolute path. -/
def absolute (p : RelPath) : String := "/" ++ join "/" (d.root ++ p)

/-- An operating system error about a path. -/
def osError (kind : String) (errno : ℕ) (reason : String) (p : RelPath) : Raised :=
  .error kind ("[Errno " ++ toString errno ++ "] " ++ reason ++ ": " ++ reprStr (d.absolute p))

/-- Create the directory above `p`, then open `p` for writing and store what `edit` makes of the
bytes that are there. -/
def store (p : RelPath) (edit : ByteArray → ByteArray) : Except Raised FileSystem :=
  match FileSystem.addDirs p.dropLast [] fs with
  | none => .error (match fs.node? p.dropLast with
    | some (.file _) => d.osError "FileExistsError" 17 "File exists" p.dropLast
    | _ => d.osError "NotADirectoryError" 20 "Not a directory" p.dropLast)
  | some fs' => match fs'.node? p with
    | some .dir => .error (d.osError "IsADirectoryError" 21 "Is a directory" p)
    | some (.file bytes) => .ok (fs'.put p (.file (edit bytes)))
    | none => .ok (fs'.put p (.file (edit .empty)))

/-- The size of the file at `p`. -/
def sizeAt (p : RelPath) : ℕ :=
  match fs.node? p with
  | some (.file bytes) => bytes.size
  | _ => 0

def read : Except Raised (Value × FileSystem) :=
  match d.target path with
  | .error e => .error e
  | .ok p => match fs.node? p with
    | some (.file bytes) => match readText bytes with
      | some content => .ok (readAnswer path content, fs)
      | none => .error (.error "UnicodeDecodeError" (d.decodeError bytes))
    | _ => .ok (missingAnswer "File" path, fs)

def write (content : String) : Except Raised (Value × FileSystem) :=
  match d.target path with
  | .error e => .error e
  | .ok p => match d.store fs p fun _ => content.toByteArray with
    | .error e => .error e
    | .ok fs' => .ok (sizeAnswer path content.length, fs')

def append (content : String) : Except Raised (Value × FileSystem) :=
  match d.target path with
  | .error e => .error e
  | .ok p => match d.store fs p (· ++ content.toByteArray) with
    | .error e => .error e
    | .ok fs' => .ok (sizeAnswer path (sizeAt fs' p), fs')

def delete : Except Raised (Value × FileSystem) :=
  match d.target path with
  | .error e => .error e
  | .ok p => match fs.node? p with
    | some (.file _) => .ok (doneAnswer path, fs.remove p)
    | _ => .ok (missingAnswer "File" path, fs)

/-- The entries of a directory, as texts relative to the root. -/
def entries (p : RelPath) : List String :=
  ((fs.nodes.keys.filter fun q => q ≠ [] && q.dropLast = p).map fun q =>
    String.ofList ((join "/" q).toList.map fun c => if c = '\\' then '/' else c)).insertionSort
      (· ≤ ·)

def list : Except Raised (Value × FileSystem) :=
  match d.target path with
  | .error e => .error e
  | .ok p => match fs.node? p with
    | none => .ok (missingAnswer "Path" path, fs)
    | some (.file bytes) => .ok (.obj [("success", .bool true), ("path", .str path),
        ("content", .str path), ("size", .int bytes.size)], fs)
    | some .dir => .ok (.obj [("success", .bool true), ("path", .str path),
        ("content", .str (join "\n" (entries fs p))), ("size", .int (entries fs p).length)], fs)

/-- The directory as a backend. -/
def backend : ExecutionBackend FileSystem where
  resolve path := (d.target path).map d.absolute
  read path fs := answering (d.read fs path) fs
  write path content fs := answering (d.write fs path content) fs
  append path content fs := answering (d.append fs path content) fs
  delete path fs := answering (d.delete fs path) fs
  list path fs := answering (d.list fs path) fs

end LocalDirectory

/-! ### What an operation leaves as it is -/

theorem append_bytes_self {bytes : ByteArray} {content : String} :
    bytes ++ content.toByteArray = bytes ↔ content = "" := by
  constructor
  · intro h
    have hsize := congrArg ByteArray.size h
    rw [ByteArray.size_append] at hsize
    have hzero : content.toByteArray.size = 0 := by omega
    rw [ByteArray.size_eq_zero_iff] at hzero
    apply String.toByteArray_inj.mp
    rw [hzero]
    rfl
  · rintro rfl
    simp

namespace LocalDirectory
variable [Py] {d : LocalDirectory} {fs fs' : FileSystem} {p : RelPath} {path : String}
  {edit : ByteArray → ByteArray} {v : Value}

/-- The file is there after a store. -/
theorem node?_store (h : d.store fs p edit = .ok fs') :
    ∃ bytes, fs'.node? p = some (.file (edit bytes)) ∧
      ∀ old, fs.node? p = some (.file old) → bytes = old := by
  unfold store at h
  split at h
  · cases h
  next fs₁ hdirs =>
    by_cases hp : p = []
    · subst hp
      simp at h
    have hlt : ([] ++ p.dropLast).length < p.length := by
      have := List.length_pos_iff.mpr hp
      simp
      omega
    obtain ⟨hparent, hkeep⟩ := FileSystem.addDirs_spec _ FileSystem.node?_nil hdirs
    rw [List.nil_append] at hparent
    have hold := hkeep p hlt
    split at h
    · cases h
    · next bytes hnode =>
        obtain rfl := Except.ok.inj h
        refine ⟨bytes, ?_, ?_⟩
        · rw [FileSystem.node?_put hparent (by simp [hnode]), if_pos rfl]
        · intro old ho
          rw [hold, ho] at hnode
          simpa using hnode.symm
    · next hnode =>
        obtain rfl := Except.ok.inj h
        refine ⟨.empty, ?_, ?_⟩
        · rw [FileSystem.node?_put hparent (by simp [hnode]), if_pos rfl]
        · intro old ho
          rw [hold, ho] at hnode
          cases hnode

/-- A store to an existing file replaces its bytes and nothing else. -/
theorem store_of_file {bytes : ByteArray} (h : fs.node? p = some (.file bytes)) :
    d.store fs p edit = .ok (fs.put p (.file (edit bytes))) := by
  have hparent : fs.node? ([] ++ p.dropLast) = some .dir := fs.dir_dropLast (by simp [h])
  unfold store
  rw [FileSystem.addDirs_of_dir _ hparent]
  simp [h]

/-- A store leaves every file as it is exactly when the file exists and the edit keeps it. -/
theorem store_same_iff (h : d.store fs p edit = .ok fs') :
    fs'.Same fs ↔ ∃ bytes, fs.node? p = some (.file bytes) ∧ edit bytes = bytes := by
  constructor
  · intro hsame
    obtain ⟨bytes, hnode, hold⟩ := node?_store h
    rw [hsame p] at hnode
    have hb : bytes = edit bytes := hold _ hnode
    exact ⟨bytes, hb ▸ hnode, hb.symm⟩
  · rintro ⟨bytes, hnode, hedit⟩ q
    rw [store_of_file hnode, hedit, FileSystem.put_self hnode] at h
    rw [Except.ok.inj h]

/-- A store that keeps the bytes of an existing file changes nothing. -/
theorem store_self {bytes : ByteArray} (h : fs.node? p = some (.file bytes))
    (hedit : edit bytes = bytes) : d.store fs p edit = .ok fs := by
  rw [store_of_file h, hedit, FileSystem.put_self h]

end LocalDirectory
end JAgent
