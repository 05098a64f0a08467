import JAgent.Lib.Base64
import JAgent.Lib.Shell
import JAgent.Core.Tenant
import JAgent.Execution.Carriers
import JAgent.Tools.FileOp

/-! # The Docker backend

`DockerSandboxBackend` works on files it never sees: every operation is a command run in a container.
A read is `cat`, a delete is `rm -f`; a write or an append hands a command line to `sh -c` in which the
path is quoted and the content is base64.  The docker command line itself is the parameter `DockerCli`.

First, no text reaches the shell as syntax: whatever the path and the content are, the command line has
the words it is meant to have (`store_command_words`).  Then `PosixFiles` states what the commands do to the
files of the container, for operands that are absolute paths.  Paths may be aliases of each other; `place`
is where a path leads.  Over a run of calls `settle` keeps what is known of each place, and
`docker_reads_what_was_stored` says that this is what a read gives. -/

namespace JAgent
open Lib.Shell

/-! ### The backend -/

/-- The docker command line: start a container, run a command in one.  A command gives its standard
output, or its standard error when the exit code is not zero. -/
structure DockerCli (W : Type) where
  start : List String → W → Except String String × W
  exec : String → List String → W → Except String ByteArray × W

/-- `DockerSandboxBackend`, with the message for bytes that are no UTF-8. -/
structure DockerSandboxBackend (W : Type) where
  cli : DockerCli W
  image : String
  hostSrc : String
  mount : String := "/workspace"
  runId : Option String := none
  tenantId : Option String := none
  decodeError : ByteArray → String

/-- The container of the backend, once it is started, and the world. -/
structure DockerState (W : Type) where
  containerId : Option String := none
  world : W

/-- How `_exec` ends. -/
inductive ExecOutcome where
  | output (bytes : ByteArray)
  | commandFailed (text : String)
  | unavailable (text : String)

/-- `_sanitize_label_value`. -/
def sanitizeLabelValue (value : String) : String :=
  let safe := (value.toList.map fun c => if isDirChar c then c else '_').take 63
  if safe = [] then "unknown" else String.ofList safe

/-- `target.rsplit("/", 1)[0]`. -/
def directoryOf (target : List Char) : List Char :=
  if '/' ∈ target then ((target.reverse.dropWhile fun c => c ≠ '/').drop 1).reverse else target

/-- The command line that decodes the content into the target; `arrow` is `>` or `>>`. -/
def storeCommand (arrow : List Char) (target content : String) : List Char :=
  "mkdir -p ".toList ++ (quote (directoryOf target.toList) ++ (" && echo ".toList ++
    (Lib.Base64.encode content.toByteArray.data.toList ++ (" | base64 -d ".toList ++
      (arrow ++ [' '] ++ quote target.toList)))))

/-- The answer of an operation whose command failed. -/
def failedAnswer (what path text : String) : Value :=
  .obj [("success", .bool false), ("path", .str path), ("error", .str (what ++ " failed: " ++ text))]

/-- The characters at which `splitlines` ends a line. -/
def lineEnds : List Char :=
  ['\n', '\r', '\x0b', '\x0c', '\x1c', '\x1d', '\x1e', '\u0085', '\u2028', '\u2029']

/-- `text.splitlines()`, with the line that is open. -/
def splitLines (cur : List Char) : List Char → List (List Char)
  | [] => if cur = [] then [] else [cur]
  | '\r' :: '\n' :: cs => cur :: splitLines [] cs
  | c :: cs => if c ∈ lineEnds then cur :: splitLines [] cs else splitLines (cur ++ [c]) cs

namespace DockerSandboxBackend
variable {W : Type} [Py] (b : DockerSandboxBackend W)

omit [Py] in
/-- `_docker_run_args`. -/
def dockerRunArgs : List String :=
  ["-d", "--rm", "-v", b.hostSrc ++ ":" ++ b.mount] ++
    (match b.runId with
    | none => []
    | some runId => ["--label", "harness.managed=1", "--label",
        "harness.run_id=" ++ sanitizeLabelValue runId] ++
        match b.tenantId with
        | none => []
        | some tenantId => ["--label", "harness.tenant_id=" ++ sanitizeLabelValue tenantId]) ++
    [b.image, "sleep", "infinity"]

/-- `text.strip() or fallback`. -/
def stripOr (text fallback : String) : String :=
  if strip text.toList = [] then fallback else String.ofList (strip text.toList)

/-- `_ensure_container`. -/
def ensureContainer (s : DockerState W) : Except String String × DockerState W :=
  if s.containerId.getD "" ≠ "" then (.ok (s.containerId.getD ""), s)
  else match b.cli.start b.dockerRunArgs s.world with
    | (.ok out, w) =>
        let id := String.ofList (strip out.toList)
        (.ok id, { containerId := some id, world := w })
    | (.error err, w) => (.error (stripOr err "docker run failed"), { s with world := w })

/-- `_exec`. -/
def exec (args : List String) (s : DockerState W) : ExecOutcome × DockerState W :=
  match b.ensureContainer s with
  | (.error text, s') => (.unavailable text, s')
  | (.ok id, s') => match b.cli.exec id args s'.world with
    | (.ok out, w) => (.output out, { s' with world := w })
    | (.error err, w) => (.commandFailed (stripOr err "docker exec failed"), { s' with world := w })

omit [Py] in
/-- What an operation makes of the end of its command. -/
def answer (what path : String) (received : ByteArray → Answer) : ExecOutcome → Answer
  | .output bytes => received bytes
  | .commandFailed text => .ok (failedAnswer what path text)
  | .unavailable text => .error (.error "SandboxUnavailableError" text)

/-- Resolve the path and run a command on the target. -/
def command (what path : String) (args : String → List String) (received : ByteArray → Answer)
    (s : DockerState W) : Answer × DockerState W :=
  match dockerResolve b.mount path with
  | .error e => (.error e, s)
  | .ok target => ((answer what path received (b.exec (args target) s).1), (b.exec (args target) s).2)

/-- `content.decode("utf-8")`. -/
def decode (bytes : ByteArray) : Except Raised String :=
  match String.fromUTF8? bytes with
  | some text => .ok text
  | none => .error (.error "UnicodeDecodeError" (b.decodeError bytes))

def read (path : String) : DockerState W → Answer × DockerState W :=
  b.command "Read" path (fun target => ["cat", target])
    fun bytes => (b.decode bytes).map (readAnswer path)

/-- The command of a write or an append. -/
def storeArgs (arrow : List Char) (content target : String) : List String :=
  ["sh", "-c", String.ofList (storeCommand arrow target content)]

def write (path content : String) : DockerState W → Answer × DockerState W :=
  b.command "Write" path (storeArgs ['>'] content) fun _ => .ok (sizeAnswer path content.length)

def append (path content : String) : DockerState W → Answer × DockerState W :=
  b.command "Append" path (storeArgs ['>', '>'] content) fun _ => .ok (sizeAnswer path content.length)

def delete (path : String) : DockerState W → Answer × DockerState W :=
  b.command "Delete" path (fun target => ["rm", "-f", target]) fun _ => .ok (doneAnswer path)

def list (path : String) : DockerState W → Answer × DockerState W :=
  b.command "List" path
    (fun target => ["find", target, "-mindepth", "1", "-maxdepth", "1", "-printf", "%f\n"])
    fun bytes => (b.decode bytes).map fun text =>
      let entries := (splitLines [] text.toList).map String.ofList
      .obj [("success", .bool true), ("path", .str path),
        ("content", .str (join "\n" (entries.insertionSort (· ≤ ·)))), ("size", .int entries.length)]

/-- The backend. -/
def backend : ExecutionBackend (DockerState W) where
  resolve := dockerResolve b.mount
  read := b.read
  write := b.write
  append := b.append
  delete := b.delete
  list := b.list

end DockerSandboxBackend

/-! ### The words of the command line -/

/-- The tokens of the command line that stores encoded bytes; `echo` has no operand when there are none. -/
def storeTokens (dir encoded arrow target : List Char) : List Token :=
  let operands : List Token := if encoded = [] then [] else [Token.word encoded]
  Token.word "mkdir".toList :: Token.word "-p".toList :: Token.word dir :: Token.op "&&".toList ::
    Token.word "echo".toList :: operands ++
    [Token.op ['|'], Token.word "base64".toList, Token.word "-d".toList, Token.op arrow, Token.word target]

theorem run_mkdir : run (.plain none) "mkdir -p ".toList =
    some ([.word "mkdir".toList, .word "-p".toList], .plain none) := by decide

theorem run_echo (dir : List Char) : run (.plain (some dir)) " && echo ".toList =
    some ([.word dir, .op "&&".toList, .word "echo".toList], .plain none) := by rfl

theorem run_base64 (cur : Option (List Char)) : run (.plain cur) " | base64 -d ".toList =
    some (closed cur ++ [.op ['|'], .word "base64".toList, .word "-d".toList], .plain none) := by
  cases cur with
  | none => rfl
  | some text => rfl

theorem run_arrow {arrow : List Char} (h : arrow = ['>'] ∨ arrow = ['>', '>']) :
    run (.plain none) (arrow ++ [' ']) = some ([.op arrow], .plain none) := by
  obtain rfl | rfl := h
  · rfl
  · rfl

theorem letter_not_special {c : Char} (h : Lib.Base64.IsLetter c) : c ∉ specialChars := by
  have hall : ∀ n, n < 64 → Lib.Base64.letter n ∉ specialChars := by decide
  obtain rfl | ⟨n, hn, rfl⟩ := h
  · decide
  · exact hall n hn

/-- The encoded bytes are one word, or none. -/
theorem run_encoded (bytes : List UInt8) : run (.plain none) (Lib.Base64.encode bytes) = some ([],
    .plain (if Lib.Base64.encode bytes = [] then none else some (Lib.Base64.encode bytes))) := by
  split_ifs with hnil
  · rw [hnil]
    rfl
  · rw [run_word hnil fun c hc => letter_not_special (Lib.Base64.isLetter_of_mem_encode bytes hc)]
    rfl

theorem tokens_storeCommand {arrow : List Char} (h : arrow = ['>'] ∨ arrow = ['>', '>'])
    (target content : String) : tokens (storeCommand arrow target content) = some
      (storeTokens (directoryOf target.toList) (Lib.Base64.encode content.toByteArray.data.toList) arrow
        target.toList) := by
  have harrow := run_append_of_eq (run_arrow h) (run_quote none target.toList)
  have hencoded := run_append_of_eq (run_encoded content.toByteArray.data.toList)
    (run_append_of_eq (run_base64 _) harrow)
  have hecho := run_append_of_eq (run_echo (directoryOf target.toList)) hencoded
  have hdir := run_append_of_eq (run_quote none (directoryOf target.toList)) hecho
  have hall := run_append_of_eq run_mkdir hdir
  have hlast : finish (.plain (some ((none : Option (List Char)).getD [] ++ target.toList))) =
      some [.word target.toList] := rfl
  have htokens : tokens (storeCommand arrow target content) = _ := tokens_of_run hall hlast
  refine htokens.trans ?_
  by_cases hnil : Lib.Base64.encode content.toByteArray.data.toList = []
  · simp only [storeTokens, if_pos hnil, closed, List.nil_append, List.cons_append]
  · simp only [storeTokens, if_neg hnil, closed, List.nil_append, List.cons_append]

/-- **No text reaches the shell as syntax**: whatever path is accepted and whatever the content is, the
command line of a write or an append is read as the words it is meant to have; the target is a path in the
mount, and the operand of `echo` decodes to the bytes of the content. -/
theorem store_command_words (mount path target content : String) (habs : isAbsolute mount.toList = true)
    (htarget : dockerResolve mount path = .ok target) (arrow : List Char)
    (harrow : arrow = ['>'] ∨ arrow = ['>', '>']) :
    ∃ encoded, tokens (storeCommand arrow target content) =
        some (storeTokens (directoryOf target.toList) encoded arrow target.toList) ∧
      Lib.Base64.decodeLines (encoded ++ ['\n']) = some content.toByteArray.data.toList ∧
      Inside mount.toList target.toList :=
  ⟨_, tokens_storeCommand harrow target content, Lib.Base64.decodeLines_encode _,
    inside_of_carrierResolve habs htarget⟩

/-- A quoted path and a content that looks like a command. -/
theorem quoted_words : ∃ encoded, tokens (storeCommand ['>'] "/workspace/a'b" "; rm -rf /") =
      some (storeTokens (directoryOf "/workspace/a'b".toList) encoded ['>'] "/workspace/a'b".toList) ∧
    Lib.Base64.decodeLines (encoded ++ ['\n']) = some "; rm -rf /".toByteArray.data.toList ∧
    Inside "/workspace".toList "/workspace/a'b".toList :=
  store_command_words "/workspace" "a'b" "/workspace/a'b" "; rm -rf /" (by decide +kernel)
    (by decide +kernel) ['>'] (.inl rfl)

/-! ### What the commands do -/

/-- What the commands do to the files of the container, for operands that are absolute paths.  A path
leads to a place; no operation makes a link, so it leads there throughout. -/
structure PosixFiles {W P : Type} (cli : DockerCli W) (place : String → P)
    (bytes : W → P → Option ByteArray) : Prop where
  start : ∀ {args w r w'}, cli.start args w = (r, w') → bytes w' = bytes w
  cat : ∀ {id t w r w'}, isAbsolute t.toList = true → cli.exec id ["cat", t] w = (r, w') →
    bytes w' = bytes w ∧ ∀ out, r = .ok out → bytes w (place t) = some out
  find : ∀ {id t w r w'}, isAbsolute t.toList = true →
    cli.exec id ["find", t, "-mindepth", "1", "-maxdepth", "1", "-printf", "%f\n"] w = (r, w') →
    bytes w' = bytes w
  remove : ∀ {id t w r w'}, isAbsolute t.toList = true → cli.exec id ["rm", "-f", t] w = (r, w') →
    (∀ q, q ≠ place t → bytes w' q = bytes w q) ∧ ∀ out, r = .ok out → bytes w' (place t) = none
  /-- A store that fails may leave anything in its target. -/
  store : ∀ {id command dir encoded arrow t w r w'}, isAbsolute t.toList = true →
    tokens command = some (storeTokens dir encoded arrow t.toList) →
    cli.exec id ["sh", "-c", String.ofList command] w = (r, w') →
    (∀ q, q ≠ place t → bytes w' q = bytes w q) ∧ ∀ out, r = .ok out →
      ∃ data, Lib.Base64.decodeLines (encoded ++ ['\n']) = some data ∧
        (arrow = ['>'] → bytes w' (place t) = some ⟨data.toArray⟩) ∧
        (arrow = ['>', '>'] →
          bytes w' (place t) = some ((bytes w (place t)).getD .empty ++ ⟨data.toArray⟩))

/-- What is known of a place: nothing, or the text of the file there, if there is one. -/
inductive Belief where
  | unknown
  | known (text : Option String)
deriving DecidableEq

/-- The belief after a text is appended. -/
def Belief.append (text : String) : Belief → Belief
  | .unknown => .unknown
  | .known old => .known (some (old.getD "" ++ text))

/-- The answer says success. -/
def Answer.succeeded : Answer → Bool
  | .ok (.obj o) => Obj.get? o "success" = some (.bool true)
  | _ => false

namespace DockerSandboxBackend
variable {W P : Type} [Py] [DecidableEq P] (b : DockerSandboxBackend W) (place : String → P)

omit [Py] in
/-- What is known after a call: a store or a delete that succeeds settles its target, one that fails
leaves it open. -/
def settle (c : FileCall) (a : Answer) (β : P → Belief) : P → Belief :=
  match dockerResolve b.mount c.path with
  | .error _ => β
  | .ok target => match c.operation with
    | .read => β
    | .list => β
    | .write => Function.update β (place target) (if a.succeeded then .known (some c.text) else .unknown)
    | .append => Function.update β (place target)
        (if a.succeeded then (β (place target)).append c.text else .unknown)
    | .delete => Function.update β (place target) (if a.succeeded then .known none else .unknown)

/-- One call. -/
def call (r : (P → Belief) × DockerState W) (c : FileCall) : (P → Belief) × DockerState W :=
  let done := c.run b.backend r.2
  (b.settle place c done.1 r.1, done.2)

/-- Calls one after the other, by a backend of whose files nothing is known. -/
def runCalls (calls : List FileCall) (s : DockerState W) : (P → Belief) × DockerState W :=
  calls.foldl (b.call place) (fun _ => .unknown, s)

variable {b place} {bytes : W → P → Option ByteArray} {s : DockerState W} {β : P → Belief}

/-- What is known is so. -/
def Holds (bytes : W → P → Option ByteArray) (β : P → Belief) (w : W) : Prop :=
  ∀ p text, β p = .known text → bytes w p = text.map String.toByteArray

omit [Py] [DecidableEq P] in
theorem Holds.congr {w w' : W} (h : Holds bytes β w) (hw : bytes w' = bytes w) : Holds bytes β w' := by
  intro p text hp
  rw [hw]
  exact h p text hp

omit [Py] in
/-- A place is settled, the others are as they were. -/
theorem Holds.update {w w' : W} {q : P} {belief : Belief} (h : Holds bytes β w)
    (hframe : ∀ p, p ≠ q → bytes w' p = bytes w p)
    (hq : ∀ text, belief = .known text → bytes w' q = text.map String.toByteArray) :
    Holds bytes (Function.update β q belief) w' := by
  intro p text hp
  by_cases hpq : p = q
  · subst hpq
    rw [Function.update_self] at hp
    exact hq text hp
  · rw [Function.update_of_ne hpq] at hp
    rw [hframe p hpq]
    exact h p text hp

omit [DecidableEq P] in
theorem ensureContainer_bytes (hposix : PosixFiles b.cli place bytes) (s : DockerState W) :
    bytes (b.ensureContainer s).2.world = bytes s.world := by
  unfold ensureContainer
  split_ifs with hid
  · rfl
  · cases hstart : b.cli.start b.dockerRunArgs s.world with
    | mk r w =>
        cases r with
        | ok out => exact hposix.start hstart
        | error err => exact hposix.start hstart

omit [DecidableEq P] in
/-- A command is not run at all, or it is run on the files as they are. -/
theorem exec_cases (hposix : PosixFiles b.cli place bytes) (args : List String) (s : DockerState W) :
    ((∃ text, (b.exec args s).1 = .unavailable text) ∧ bytes (b.exec args s).2.world = bytes s.world) ∨
      ∃ id w r, bytes w = bytes s.world ∧ b.cli.exec id args w = (r, (b.exec args s).2.world) ∧
        ((∃ out, r = .ok out ∧ (b.exec args s).1 = .output out) ∨
          ∃ err text, r = .error err ∧ (b.exec args s).1 = .commandFailed text) := by
  have hbytes := ensureContainer_bytes hposix s
  cases hensure : b.ensureContainer s with
  | mk r s' =>
      rw [hensure] at hbytes
      cases r with
      | error text =>
          have hexec : b.exec args s = (.unavailable text, s') := by simp only [exec, hensure]
          rw [hexec]
          exact .inl ⟨⟨text, rfl⟩, hbytes⟩
      | ok id =>
          right
          cases hcli : b.cli.exec id args s'.world with
          | mk r w =>
              cases r with
              | ok out =>
                  have hexec : b.exec args s = (.output out, { s' with world := w }) := by
                    simp only [exec, hensure, hcli]
                  rw [hexec]
                  exact ⟨id, s'.world, .ok out, hbytes, hcli, .inl ⟨out, rfl, rfl⟩⟩
              | error err =>
                  have hexec : b.exec args s = (.commandFailed (stripOr err "docker exec failed"),
                      { s' with world := w }) := by
                    simp only [exec, hensure, hcli]
                  rw [hexec]
                  exact ⟨id, s'.world, .error err, hbytes, hcli, .inr ⟨err, _, rfl, rfl⟩⟩

omit [DecidableEq P] in
theorem command_of_target {what path target : String} (htarget : dockerResolve b.mount path = .ok target)
    (args : String → List String) (received : ByteArray → Answer) (s : DockerState W) :
    b.command what path args received s =
      (answer what path received (b.exec (args target) s).1, (b.exec (args target) s).2) := by
  rw [command, htarget]

omit [Py] in
theorem isAbsolute_target {mount path target : String} (habs : isAbsolute mount.toList = true)
    (htarget : dockerResolve mount path = .ok target) : isAbsolute target.toList = true := by
  have hinside := (inside_of_carrierResolve habs htarget).1
  rw [← hinside]
  exact habs

omit [Py] in
/-- Only a command that was run answers with success. -/
theorem output_of_succeeded {what path : String} {received : ByteArray → Answer} {o : ExecOutcome}
    (h : (answer what path received o).succeeded = true) : ∃ out, o = .output out := by
  cases o with
  | output out => exact ⟨out, rfl⟩
  | commandFailed text => cases h
  | unavailable text => cases h

omit [DecidableEq P] in
/-- What the command line of a write or an append does. -/
theorem store_exec (hposix : PosixFiles b.cli place bytes) {target : String}
    (habs : isAbsolute target.toList = true) {arrow : List Char}
    (harrow : arrow = ['>'] ∨ arrow = ['>', '>']) (content : String) (s : DockerState W) :
    (∀ q, q ≠ place target →
        bytes (b.exec (storeArgs arrow content target) s).2.world q = bytes s.world q) ∧
      ∀ out, (b.exec (storeArgs arrow content target) s).1 = .output out →
        (arrow = ['>'] →
          bytes (b.exec (storeArgs arrow content target) s).2.world (place target) = some content.toByteArray) ∧
        (arrow = ['>', '>'] →
          bytes (b.exec (storeArgs arrow content target) s).2.world (place target) =
            some ((bytes s.world (place target)).getD .empty ++ content.toByteArray)) := by
  have hbytes : (⟨content.toByteArray.data.toList.toArray⟩ : ByteArray) = content.toByteArray := by
    rw [Array.toArray_toList]
  obtain ⟨⟨text, hout⟩, hsame⟩ | ⟨id, w, r, hsame, hexec, hend⟩ :=
    exec_cases hposix (storeArgs arrow content target) s
  · refine ⟨fun q _ => by rw [hsame], fun out h => ?_⟩
    rw [hout] at h
    cases h
  · obtain ⟨hframe, hstored⟩ := hposix.store habs (tokens_storeCommand harrow target content) hexec
    refine ⟨fun q hq => by rw [hframe q hq, hsame], fun out h => ?_⟩
    obtain ⟨out', rfl, -⟩ | ⟨err, text, -, hfailed⟩ := hend
    · obtain ⟨data, hdata, hwritten, happended⟩ := hstored out' rfl
      rw [Lib.Base64.decodeLines_encode, Option.some.injEq] at hdata
      subst hdata
      rw [hbytes] at hwritten happended
      rw [hsame] at happended
      exact ⟨hwritten, happended⟩
    · rw [hfailed] at h
      cases h

omit [DecidableEq P] in
theorem remove_exec (hposix : PosixFiles b.cli place bytes) {target : String}
    (habs : isAbsolute target.toList = true) (s : DockerState W) :
    (∀ q, q ≠ place target → bytes (b.exec ["rm", "-f", target] s).2.world q = bytes s.world q) ∧
      ∀ out, (b.exec ["rm", "-f", target] s).1 = .output out →
        bytes (b.exec ["rm", "-f", target] s).2.world (place target) = none := by
  obtain ⟨⟨text, hout⟩, hsame⟩ | ⟨id, w, r, hsame, hexec, hend⟩ := exec_cases hposix ["rm", "-f", target] s
  · refine ⟨fun q _ => by rw [hsame], fun out h => ?_⟩
    rw [hout] at h
    cases h
  · obtain ⟨hframe, hgone⟩ := hposix.remove habs hexec
    refine ⟨fun q hq => by rw [hframe q hq, hsame], fun out h => ?_⟩
    obtain ⟨out', rfl, -⟩ | ⟨err, text, -, hfailed⟩ := hend
    · exact hgone out' rfl
    · rw [hfailed] at h
      cases h

omit [DecidableEq P] in
/-- What a read finds: the bytes of its file, unless the command is not run or fails. -/
theorem cat_exec (hposix : PosixFiles b.cli place bytes) {target : String}
    (habs : isAbsolute target.toList = true) (s : DockerState W) :
    bytes (b.exec ["cat", target] s).2.world = bytes s.world ∧
      ∀ out, (b.exec ["cat", target] s).1 = .output out → bytes s.world (place target) = some out := by
  obtain ⟨⟨text, hout⟩, hsame⟩ | ⟨id, w, r, hsame, hexec, hend⟩ := exec_cases hposix ["cat", target] s
  · refine ⟨hsame, fun out h => ?_⟩
    rw [hout] at h
    cases h
  · obtain ⟨hframe, hread⟩ := hposix.cat habs hexec
    refine ⟨hframe.trans hsame, fun out h => ?_⟩
    obtain ⟨out', rfl, houtput⟩ | ⟨err, text, -, hfailed⟩ := hend
    · rw [houtput, ExecOutcome.output.injEq] at h
      rw [← h, ← hsame]
      exact hread out' rfl
    · rw [hfailed] at h
      cases h

omit [DecidableEq P] in
theorem find_exec (hposix : PosixFiles b.cli place bytes) {target : String}
    (habs : isAbsolute target.toList = true) (s : DockerState W) :
    bytes (b.exec ["find", target, "-mindepth", "1", "-maxdepth", "1", "-printf", "%f\n"] s).2.world =
      bytes s.world := by
  obtain ⟨-, hsame⟩ | ⟨id, w, r, hsame, hexec, -⟩ :=
    exec_cases hposix ["find", target, "-mindepth", "1", "-maxdepth", "1", "-printf", "%f\n"] s
  · exact hsame
  · exact (hposix.find habs hexec).trans hsame

/-- **One call keeps what is known true.** -/
theorem Holds.call (hposix : PosixFiles b.cli place bytes) (habs : isAbsolute b.mount.toList = true)
    {r : (P → Belief) × DockerState W} (h : Holds bytes r.1 r.2.world) (c : FileCall) :
    Holds bytes (b.call place r c).1 (b.call place r c).2.world := by
  unfold DockerSandboxBackend.call settle
  cases htarget : dockerResolve b.mount c.path with
  | error e =>
      have hsame : (c.run b.backend r.2).2 = r.2 := by
        unfold FileCall.run
        cases c.operation <;> simp only [backend, read, write, append, delete, list, command, htarget]
      simp only [hsame]
      exact h
  | ok target =>
      have htabs := isAbsolute_target habs htarget
      unfold FileCall.run
      cases hop : c.operation with
      | read =>
          simp only [backend, read, command_of_target htarget]
          exact h.congr (cat_exec hposix htabs r.2).1
      | list =>
          simp only [backend, list, command_of_target htarget]
          exact h.congr (find_exec hposix htabs r.2)
      | write =>
          simp only [backend, write, command_of_target htarget]
          obtain ⟨hframe, hstored⟩ := store_exec hposix htabs (.inl rfl) c.text r.2
          refine h.update hframe fun text htext => ?_
          split_ifs at htext with hdone
          obtain ⟨out, hout⟩ := output_of_succeeded hdone
          cases htext
          exact (hstored out hout).1 rfl
      | append =>
          simp only [backend, append, command_of_target htarget]
          obtain ⟨hframe, hstored⟩ := store_exec hposix htabs (.inr rfl) c.text r.2
          refine h.update hframe fun text htext => ?_
          split_ifs at htext with hdone
          obtain ⟨out, hout⟩ := output_of_succeeded hdone
          cases hold : r.1 (place target) with
          | unknown =>
              rw [hold] at htext
              cases htext
          | known old =>
              rw [hold] at htext
              cases htext
              rw [(hstored out hout).2 rfl, h _ _ hold, Option.map_some, String.toByteArray_append]
              cases old with
              | none => rfl
              | some old => rfl
      | delete =>
          simp only [backend, delete, command_of_target htarget]
          obtain ⟨hframe, hgone⟩ := remove_exec hposix htabs r.2
          refine h.update hframe fun text htext => ?_
          split_ifs at htext with hdone
          obtain ⟨out, hout⟩ := output_of_succeeded hdone
          cases htext
          exact hgone out hout

/-- What is known after a run of calls is so. -/
theorem holds_runCalls (hposix : PosixFiles b.cli place bytes) (habs : isAbsolute b.mount.toList = true)
    (calls : List FileCall) (s : DockerState W) :
    Holds bytes (b.runCalls place calls s).1 (b.runCalls place calls s).2.world := by
  have hrun : ∀ r : (P → Belief) × DockerState W, Holds bytes r.1 r.2.world →
      Holds bytes (calls.foldl (b.call place) r).1 (calls.foldl (b.call place) r).2.world := by
    induction calls with
    | nil => exact fun _ h => h
    | cons c cs ih => exact fun r h => ih _ (h.call hposix habs c)
  apply hrun
  intro p text hp
  cases hp

end DockerSandboxBackend

/-- **A read gives what was stored**: after any calls, if the text of a file is known from the calls
before, a read of the file answers with this text, or its command failed, or there is no container. -/
theorem docker_reads_what_was_stored {W P : Type} [Py] [DecidableEq P] (b : DockerSandboxBackend W)
    (habs : isAbsolute b.mount.toList = true) (place : String → P) (bytes : W → P → Option ByteArray)
    (hposix : PosixFiles b.cli place bytes) (calls : List FileCall) (s : DockerState W) (path target : String)
    (htarget : dockerResolve b.mount path = .ok target) (known : Option String)
    (hknown : (b.runCalls place calls s).1 (place target) = .known known) :
    (∃ text, known = some text ∧
        (b.read path (b.runCalls place calls s).2).1 = .ok (readAnswer path text)) ∨
      (∃ why, (b.read path (b.runCalls place calls s).2).1 = .ok (failedAnswer "Read" path why)) ∨
      ∃ why, (b.read path (b.runCalls place calls s).2).1 =
        .error (.error "SandboxUnavailableError" why) := by
  have hholds := DockerSandboxBackend.holds_runCalls hposix habs calls s
  have hcat := DockerSandboxBackend.cat_exec hposix
    (DockerSandboxBackend.isAbsolute_target habs htarget) (b.runCalls place calls s).2
  rw [DockerSandboxBackend.read, DockerSandboxBackend.command_of_target htarget]
  cases hout : (b.exec ["cat", target] (b.runCalls place calls s).2).1 with
  | commandFailed why => exact .inr (.inl ⟨why, rfl⟩)
  | unavailable why => exact .inr (.inr ⟨why, rfl⟩)
  | output out =>
      left
      have hbytes := hcat.2 out hout
      rw [hholds _ _ hknown] at hbytes
      cases known with
      | none => cases hbytes
      | some text =>
          refine ⟨text, rfl, ?_⟩
          cases hbytes
          have hdecode : b.decode text.toByteArray = .ok text := by
            rw [DockerSandboxBackend.decode, String.fromUTF8?, dif_pos text.isValidUTF8]
            rfl
          show (b.decode text.toByteArray).map (readAnswer path) = _
          rw [hdecode]
          rfl

/-! ### A note in a container -/

section sample

attribute [local instance] asciiPy

/-- The operand of `echo`, the arrow and the target of a command line that stores. -/
def redirection : List Token → Option (List Char × List Char × List Char)
  | [.word _, .word _, .word _, .op _, .word _, .op _, .word _, .word _, .op arrow, .word target] =>
      some ([], arrow, target)
  | [.word _, .word _, .word _, .op _, .word _, .word encoded, .op _, .word _, .word _, .op arrow,
      .word target] => some (encoded, arrow, target)
  | _ => none

theorem redirection_storeTokens (dir encoded arrow target : List Char) :
    redirection (storeTokens dir encoded arrow target) = some (encoded, arrow, target) := by
  by_cases hnil : encoded = []
  · subst hnil
    rfl
  · simp only [storeTokens, if_neg hnil, List.cons_append, List.nil_append, redirection]

/-- Files by path. -/
abbrev PathFiles := String → Option ByteArray

/-- What the command line makes of the files. -/
def shellStore (command : String) (w : PathFiles) : Except String ByteArray × PathFiles :=
  match (tokens command.toList).bind redirection with
  | none => (.error "syntax error", w)
  | some (encoded, arrow, target) =>
    match Lib.Base64.decodeLines (encoded ++ ['\n']) with
    | none => (.error "base64: invalid input", w)
    | some data => (.ok .empty, Function.update w (String.ofList target) (some
        (if arrow = ['>'] then ⟨data.toArray⟩
          else (w (String.ofList target)).getD .empty ++ ⟨data.toArray⟩)))

/-- A container whose files are a table. -/
def tableCli : DockerCli PathFiles where
  start _ w := (.ok "c1\n", w)
  exec _ args w :=
    match args with
    | ["cat", t] => (match w t with
        | some bytes => .ok bytes
        | none => .error "cat: no such file", w)
    | ["rm", "-f", t] => (.ok .empty, Function.update w t none)
    | ["sh", "-c", command] => shellStore command w
    | _ => (.ok .empty, w)

theorem shellStore_tokens {command dir encoded arrow : List Char} {t : String} {w w' : PathFiles}
    {r : Except String ByteArray} (htokens : tokens command = some (storeTokens dir encoded arrow t.toList))
    (h : shellStore (String.ofList command) w = (r, w')) :
    (∀ q, q ≠ t → w' q = w q) ∧ ∀ out, r = .ok out →
      ∃ data, Lib.Base64.decodeLines (encoded ++ ['\n']) = some data ∧
        (arrow = ['>'] → w' t = some ⟨data.toArray⟩) ∧
        (arrow = ['>', '>'] → w' t = some ((w t).getD .empty ++ ⟨data.toArray⟩)) := by
  have hread : (tokens (String.ofList command).toList).bind redirection =
      some (encoded, arrow, t.toList) := by
    rw [String.toList_ofList, htokens]
    exact redirection_storeTokens dir encoded arrow t.toList
  simp only [shellStore, hread, String.ofList_toList] at h
  cases hdata : Lib.Base64.decodeLines (encoded ++ ['\n']) with
  | none =>
      rw [hdata] at h
      obtain ⟨rfl, rfl⟩ := Prod.mk.inj h
      refine ⟨fun _ _ => rfl, fun out hout => ?_⟩
      cases hout
  | some data =>
      rw [hdata] at h
      obtain ⟨rfl, rfl⟩ := Prod.mk.inj h
      refine ⟨fun q hq => Function.update_of_ne hq _ _, fun out _ => ⟨data, rfl, ?_, ?_⟩⟩
      · rintro rfl
        rw [Function.update_self, if_pos rfl]
      · rintro rfl
        rw [Function.update_self, if_neg (by decide)]

theorem tableCli_posix : PosixFiles tableCli (fun t => t) fun w => w where
  start h := (Prod.mk.inj h).2.symm
  cat {id t w r w'} _ h := by
    obtain ⟨hr, rfl⟩ := Prod.mk.inj h
    refine ⟨rfl, fun out hout => ?_⟩
    cases hfile : w t with
    | none =>
        rw [hfile, hout] at hr
        cases hr
    | some bytes =>
        rw [hfile, hout] at hr
        cases hr
        rfl
  find _ h := (Prod.mk.inj h).2.symm
  remove {id t w r w'} _ h := by
    obtain ⟨rfl, rfl⟩ := Prod.mk.inj h
    exact ⟨fun q hq => Function.update_of_ne hq _ _, fun _ _ => Function.update_self _ _ _⟩
  store _ htokens h := shellStore_tokens htokens h

/-- A backend of the container. -/
def tableSandbox : DockerSandboxBackend PathFiles where
  cli := tableCli
  image := "python:3.12"
  hostSrc := "/srv/ws"
  decodeError _ := "invalid start byte"

/-- A note is written and more is appended to it. -/
def noteCalls : List FileCall :=
  [{ operation := .write, path := "it's.txt", content := some "a; rm" },
    { operation := .append, path := "it's.txt", content := some " b" }]

theorem note_read_back : (∃ text, some "a; rm b" = some text ∧
      (tableSandbox.read "it's.txt"
        (tableSandbox.runCalls (fun t => t) noteCalls ⟨none, fun _ => none⟩).2).1 =
          .ok (readAnswer "it's.txt" text)) ∨
      (∃ why, (tableSandbox.read "it's.txt"
        (tableSandbox.runCalls (fun t => t) noteCalls ⟨none, fun _ => none⟩).2).1 =
          .ok (failedAnswer "Read" "it's.txt" why)) ∨
      ∃ why, (tableSandbox.read "it's.txt"
        (tableSandbox.runCalls (fun t => t) noteCalls ⟨none, fun _ => none⟩).2).1 =
          .error (.error "SandboxUnavailableError" why) :=
  docker_reads_what_was_stored tableSandbox (by decide +kernel) (fun t => t) (fun w => w) tableCli_posix
    noteCalls ⟨none, fun _ => none⟩ "it's.txt" "/workspace/it's.txt" (by decide +kernel)
    (some "a; rm b") (by decide +kernel)

end sample

end JAgent
