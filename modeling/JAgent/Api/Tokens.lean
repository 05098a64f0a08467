import JAgent.Core.Principal
import JAgent.Tools.Addresses

/-! # Verified tokens

Where a request carries its token (`extractRequestToken`), how the provider is set up from the environment
(`JwtAuthProvider.fromEnv`) and what `verify_token` accepts.  The library that reads and checks the token is the
parameter `Jwt`; it is called with the algorithms of the settings, and the settings are never those with a
symmetric algorithm or none (`fromEnv_algorithms`).

`Vouched` says what stands behind a principal: a token whose header names an allowed algorithm and a known key,
claims that the library decoded with this key, and a valid tenant id, a subject, roles and a lifetime in them.
Every principal the provider returns is vouched for (`vouched_of_authenticate`). -/

namespace JAgent
open Lib

/-- Texts are compared letter by letter. -/
theorem lawfulBEq_chars : LawfulBEq (List Char) := inferInstance

attribute [local instance] lawfulBEq_chars

/-! ### The credential of a request -/

/-- The scope of an ASGI call, as far as the middleware reads it.  Header bytes are given by the characters that
latin-1 decodes them to. -/
structure AsgiScope where
  type : String
  path : Option (List Char) := none
  method : Option (List Char) := none
  headers : List (List Char × List Char) := []
deriving DecidableEq

/-- `header_value`, with the name in lower case; `bytes.lower` changes ASCII letters only. -/
def headerValue (scope : AsgiScope) (wanted : String) : Option (List Char) :=
  (scope.headers.find? fun header => header.1.map Char.toLower = wanted.toList).map Prod.snd

section token
variable [Py]

/-- The value of a bearer scheme. -/
def bearerToken (authorization : List Char) : Option (List Char) :=
  let (scheme, value) := partition ' ' authorization
  if lower scheme = "bearer".toList && !(strip (value.getD [])).isEmpty then some (strip (value.getD [])) else none

/-- The token among the offered subprotocols. -/
def protocolToken (protocols : List Char) : Option (List Char) :=
  (protocols.splitOn ',').findSome? fun raw =>
    ("jagent.token.".toList.isPrefixOf? (strip raw)).bind fun rest =>
      if (strip rest).isEmpty then none else some (strip rest)

/-- `extract_request_token`. -/
def extractRequestToken (scope : AsgiScope) : Option (List Char) :=
  (((headerValue scope "authorization").filter (!·.isEmpty)).bind bearerToken).or
    (((headerValue scope "sec-websocket-protocol").filter (!·.isEmpty)).bind protocolToken)

/-- `ws_accept_subprotocol`. -/
def wsAcceptSubprotocol (scope : AsgiScope) : Option String :=
  ((headerValue scope "sec-websocket-protocol").filter (!·.isEmpty)).bind fun protocols =>
    if "jagent.jwt".toList ∈ (protocols.splitOn ',').map strip then some "jagent.jwt" else none

end token

/-! ### The settings -/

/-- `JwtSettings`, without the addresses of key servers, which `from_env` refuses. -/
structure JwtSettings where
  issuer : List Char
  audience : List Char
  algorithms : List (List Char)
  publicKeysDir : List Char
  leewaySeconds : ℕ := 30
  maxTtlSeconds : ℕ := 43200
  tenantClaim : String := "tenant_id"
  rolesClaim : String := "roles"

/-- What ends the start of the server. -/
inductive SetupError where
  | valueError (message : String)
  | notImplemented (message : String)
deriving DecidableEq

/-- What the setup reads of the host: the environment, `int(text)`, `Path.expanduser`, `Path.is_dir` and the stems
and bytes of the files `*.pem` of a directory, in order. -/
structure Host where
  environ : String → Option (List Char)
  parseInt : List Char → Option ℤ
  expanduser : List Char → List Char
  isDir : List Char → Bool
  pemFiles : List Char → List (String × List UInt8)

/-- `_FORBIDDEN_ALGORITHMS`, sorted. -/
def forbiddenAlgorithms : List String := ["HS256", "HS384", "HS512", "none"]

/-- `if not …: raise error`. -/
def demand {ε : Type} (holds : Bool) (error : ε) : Except ε Unit := if holds then .ok () else .error error

theorem demand_eq_ok {ε : Type} {holds : Bool} {error : ε} {u : Unit} (h : demand holds error = .ok u) :
    holds = true := by
  cases holds with
  | true => rfl
  | false => cases h

/-- What ended well has passed its first step. -/
theorem of_bind_eq_ok {ε α β : Type} {x : Except ε α} {f : α → Except ε β} {b : β} (h : x >>= f = .ok b) :
    ∃ a, x = .ok a ∧ f a = .ok b := by
  cases x with
  | error e => cases h
  | ok a => exact ⟨a, rfl, h⟩

section setup
variable [Py]

/-- `_int_env`. -/
def intEnv (host : Host) (name : String) (default : ℕ) : Except SetupError ℕ :=
  match host.environ name with
  | none => .ok default
  | some raw =>
      if (strip raw).isEmpty then .ok default
      else match host.parseInt raw with
        | none => .error (.valueError (name ++ " must be an integer"))
        | some value =>
            if value < 0 then .error (.valueError (name ++ " must be >= 0")) else .ok value.toNat

/-- `os.environ.get(name, default).strip()`. -/
def envText (host : Host) (name default : String) : List Char :=
  strip ((host.environ name).getD default.toList)

/-- `text or default`. -/
def orDefault (text : List Char) (default : String) : String :=
  if text.isEmpty then default else String.ofList text

/-- The algorithms that the environment lists. -/
def envAlgorithms (host : Host) : List (List Char) :=
  ((((host.environ "JAGENT_JWT_ALGORITHMS").getD "RS256,ES256".toList).splitOn ',').map strip).filter (!·.isEmpty)

/-- `JwtSettings.from_env`. -/
def JwtSettings.fromEnv (host : Host) : Except SetupError JwtSettings := do
  let mode := lower (envText host "JAGENT_AUTH_MODE" "jwt")
  demand (mode = "jwt".toList) (.valueError (join "" ["JAGENT_AUTH_MODE=", reprStr (String.ofList mode),
    " is not supported by this build; expected 'jwt'"]))
  let issuer := envText host "JAGENT_JWT_ISSUER" ""
  let audience := envText host "JAGENT_JWT_AUDIENCE" ""
  demand (!issuer.isEmpty && !audience.isEmpty)
    (.valueError "JAGENT_JWT_ISSUER and JAGENT_JWT_AUDIENCE are required")
  let algorithms := envAlgorithms host
  demand (!algorithms.isEmpty) (.valueError "JAGENT_JWT_ALGORITHMS must not be empty")
  let forbidden := forbiddenAlgorithms.filter fun name => decide (name.toList ∈ algorithms)
  demand forbidden.isEmpty (.valueError ("forbidden JWT algorithms: " ++ reprStrs forbidden))
  let keysDirRaw := envText host "JAGENT_JWT_PUBLIC_KEYS_DIR" ""
  let jwksUrl := envText host "JAGENT_JWT_JWKS_URL" ""
  demand (keysDirRaw.isEmpty != jwksUrl.isEmpty)
    (.valueError "configure exactly one of JAGENT_JWT_PUBLIC_KEYS_DIR or JAGENT_JWT_JWKS_URL")
  demand jwksUrl.isEmpty
    (.notImplemented "JWKS verification is not implemented in this phase; use JAGENT_JWT_PUBLIC_KEYS_DIR")
  let keysDir := host.expanduser keysDirRaw
  demand (host.isDir keysDir)
    (.valueError ("JAGENT_JWT_PUBLIC_KEYS_DIR does not exist: " ++ String.ofList keysDir))
  let leeway ← intEnv host "JAGENT_JWT_LEEWAY_SECONDS" 30
  let maxTtl ← intEnv host "JAGENT_JWT_MAX_TTL_SECONDS" 43200
  return {
    issuer, audience, algorithms
    publicKeysDir := keysDir
    leewaySeconds := leeway
    maxTtlSeconds := maxTtl
    tenantClaim := orDefault (envText host "JAGENT_JWT_TENANT_CLAIM" "tenant_id") "tenant_id"
    rolesClaim := orDefault (envText host "JAGENT_JWT_ROLES_CLAIM" "roles") "roles" }

/-- A provider: its settings, and its public keys by their ids. -/
structure JwtAuthProvider where
  settings : JwtSettings
  keys : List (String × List UInt8)

/-- `JwtAuthProvider.from_env`, with `_load_public_keys`. -/
def JwtAuthProvider.fromEnv (host : Host) : Except SetupError JwtAuthProvider := do
  let settings ← JwtSettings.fromEnv host
  let keys := host.pemFiles settings.publicKeysDir
  demand (!keys.isEmpty) (.valueError ("no public keys found in " ++ String.ofList settings.publicKeysDir))
  return ⟨settings, keys⟩

/-- **A provider from the environment allows some algorithms, and none that is symmetric or signs nothing.** -/
theorem fromEnv_algorithms {host : Host} {provider : JwtAuthProvider}
    (h : JwtAuthProvider.fromEnv host = .ok provider) :
    provider.settings.algorithms ≠ [] ∧ ∀ name ∈ forbiddenAlgorithms, name.toList ∉ provider.settings.algorithms := by
  obtain ⟨settings, hsettings, h⟩ := of_bind_eq_ok h
  obtain ⟨-, -, h⟩ := of_bind_eq_ok h
  cases h
  show settings.algorithms ≠ [] ∧ _
  obtain ⟨-, -, h⟩ := of_bind_eq_ok hsettings
  obtain ⟨-, -, h⟩ := of_bind_eq_ok h
  obtain ⟨_, hsome, h⟩ := of_bind_eq_ok h
  obtain ⟨_, hnone, h⟩ := of_bind_eq_ok h
  -- the rest of the setup keeps the algorithms
  obtain ⟨-, -, h⟩ := of_bind_eq_ok h
  obtain ⟨-, -, h⟩ := of_bind_eq_ok h
  obtain ⟨-, -, h⟩ := of_bind_eq_ok h
  obtain ⟨leeway, -, h⟩ := of_bind_eq_ok h
  obtain ⟨maxTtl, -, h⟩ := of_bind_eq_ok h
  cases h
  refine ⟨?_, ?_⟩
  · intro hnil
    have hnonempty := demand_eq_ok hsome
    have hread : envAlgorithms host = [] := hnil
    rw [hread] at hnonempty
    exact absurd hnonempty (by decide)
  · intro name hname hmem
    have hempty := List.isEmpty_iff.mp (demand_eq_ok hnone)
    exact List.not_mem_nil (hempty ▸ List.mem_filter.mpr ⟨hname, decide_eq_true hmem⟩)

end setup

/-! ### Verifying a token -/

/-- How a call of the library fails: with an error of its own, or with another exception. -/
inductive JwtFailure where
  | pyJwtError (text : String)
  | raised
deriving DecidableEq

/-- The arguments of `jwt.decode`. -/
structure DecodeCall where
  token : List Char
  key : List UInt8
  algorithms : List (List Char)
  audience : List Char
  issuer : List Char
  leeway : ℕ
  require : List String := ["exp", "iat", "iss", "aud", "sub", "jti"]
  verifySignature : Bool := true

/-- The library `jwt`. -/
class Jwt where
  getUnverifiedHeader : List Char → Except JwtFailure Obj
  decode : DecodeCall → Except JwtFailure Obj

/-- What `verify_token` raises. -/
inductive TokenError where
  | invalidToken (message : String)
  | raised
deriving DecidableEq

/-- `_MAX_TOKEN_BYTES`, `_MAX_SUBJECT_LEN` and `_MAX_ROLES`. -/
def maxTokenBytes : ℕ := 8192
def maxSubjectLen : ℕ := 256
def maxRoles : ℕ := 8

/-- `isinstance(v, int)`, which a boolean is too. -/
def Value.asInt? : Value → Option ℤ
  | .int n => some n
  | .bool b => some (if b then 1 else 0)
  | _ => none

/-- A field `str | None` of a model, from `claims.get(…)`; `none` when the model refuses the value. -/
def textOrNone : Option Value → Option (Option String)
  | none => some none
  | some .null => some none
  | some (.str s) => some (some s)
  | some _ => none

/-- `frozenset(Role(item) for item in roles_claim)`; `none` when an item is no role. -/
def readRoles : List Value → Option (Finset Role)
  | [] => some ∅
  | item :: rest => do
      let text ← item.asStr?
      let role ← Role.ofValue text
      let roles ← readRoles rest
      return insert role roles

/-- `try: … except jwt.PyJWTError`. -/
def translated {α : Type} (before : String) : Except JwtFailure α → Except TokenError α
  | .ok a => .ok a
  | .error (.pyJwtError text) => .error (.invalidToken (before ++ text))
  | .error .raised => .error .raised

/-- `if not …: raise InvalidTokenError(message)`. -/
def orInvalid {α : Type} (found : Option α) (message : String) : Except TokenError α :=
  found.elim (.error (.invalidToken message)) .ok

theorem translated_eq_ok {α : Type} {before : String} {r : Except JwtFailure α} {a : α}
    (h : translated before r = .ok a) : r = .ok a := by
  match r, h with
  | .ok a', h =>
      cases h
      rfl

theorem orInvalid_eq_ok {α : Type} {found : Option α} {message : String} {a : α}
    (h : orInvalid found message = .ok a) : found = some a := by
  cases found with
  | none => cases h
  | some a' =>
      cases h
      rfl

/-- What the claims say about the caller, with the time the token lives. -/
structure Claimed where
  tenantId : String
  subject : String
  roles : Finset Role
  issuedAt : ℤ
  expiresAt : ℤ

section verify
variable [Py]

/-- The key that the header of a token names. -/
def keyOf (provider : JwtAuthProvider) (header : Obj) : Except TokenError (List UInt8) := do
  let algorithm := (header.get? "alg").getD .null
  let _ ← orInvalid (algorithm.asStr?.filter fun name => decide (name.toList ∈ provider.settings.algorithms))
    ("algorithm not allowed: " ++ pyRepr algorithm)
  let kid ← orInvalid (((header.get? "kid").bind Value.asStr?).filter (· ≠ "")) "token header must contain a kid"
  orInvalid (assoc kid provider.keys) ("unknown kid: " ++ kid)

/-- The arguments with which a provider decodes a token. -/
def decodeCall (provider : JwtAuthProvider) (token : List Char) (key : List UInt8) : DecodeCall where
  token := token
  key := key
  algorithms := provider.settings.algorithms
  audience := provider.settings.audience
  issuer := provider.settings.issuer
  leeway := provider.settings.leewaySeconds

/-- What is read from the claims, each claim checked.  An unknown role is named in the log only. -/
def readClaims (settings : JwtSettings) (claims : Obj) : Except TokenError Claimed := do
  let tenantId ← orInvalid (((claims.get? settings.tenantClaim).bind Value.asStr?).filter (isTenantId ·.toList))
    "tenant_id claim is missing or malformed"
  let subject ← orInvalid
    (((claims.get? "sub").bind Value.asStr?).filter fun s => s ≠ "" && s.toList.length ≤ maxSubjectLen)
    "sub claim is missing or malformed"
  let items ← orInvalid (match claims.get? settings.rolesClaim with
    | some (.arr (item :: rest)) => some (item :: rest)
    | _ => none) "roles claim must be a non-empty array"
  demand (items.length ≤ maxRoles) (.invalidToken "too many roles")
  let roles ← orInvalid (readRoles items) "unknown role"
  let (issuedAt, expiresAt) ← orInvalid (((claims.get? "iat").bind Value.asInt?).bind fun issuedAt =>
    ((claims.get? "exp").bind Value.asInt?).map fun expiresAt => (issuedAt, expiresAt))
    "iat/exp claims must be integers"
  let ttl := expiresAt - issuedAt
  demand (0 < ttl && ttl ≤ settings.maxTtlSeconds) (.invalidToken "token TTL is outside the allowed range")
  demand (match claims.get? "token_use" with
    | none | some .null => true
    | some use => decide (use.asStr? = some "access")) (.invalidToken "token_use must be 'access'")
  return ⟨tenantId, subject, roles, issuedAt, expiresAt⟩

variable [Jwt]

/-- `verify_token`. -/
def verifyToken (provider : JwtAuthProvider) (token : List Char) : Except TokenError Principal := do
  demand (!token.isEmpty) (.invalidToken "missing token")
  demand ((String.ofList token).utf8ByteSize ≤ maxTokenBytes) (.invalidToken "token too large")
  let header ← translated "malformed token header: " (Jwt.getUnverifiedHeader token)
  let key ← keyOf provider header
  let claims ← translated "invalid token: " (Jwt.decode (decodeCall provider token key))
  let claimed ← readClaims provider.settings claims
  -- the model refuses an issuer or an id that is no text
  match textOrNone (claims.get? "iss"), textOrNone (claims.get? "jti") with
  | some issuer, some jwtId => return {
      subject := claimed.subject
      tenantId := claimed.tenantId
      roles := claimed.roles
      issuer
      jwtId
      expiresAt := some claimed.expiresAt }
  | _, _ => throw .raised

/-- `authenticate`: what the provider returns, or that it raises. -/
def JwtAuthProvider.authenticate (provider : JwtAuthProvider) (scope : AsgiScope) : Except Unit (Option Principal) :=
  match extractRequestToken scope with
  | none => .ok none
  | some token => match verifyToken provider token with
    | .ok p => .ok (some p)
    | .error (.invalidToken _) => .ok none
    | .error .raised => .error ()

/-! ### What stands behind a principal -/

/-- The token vouches for the principal. -/
structure Vouched (provider : JwtAuthProvider) (token : List Char) (p : Principal) : Prop where
  size : (String.ofList token).utf8ByteSize ≤ maxTokenBytes
  decoded : ∃ header algorithm kid key claims,
    Jwt.getUnverifiedHeader token = .ok header ∧
    header.get? "alg" = some (.str algorithm) ∧ algorithm.toList ∈ provider.settings.algorithms ∧
    header.get? "kid" = some (.str kid) ∧ assoc kid provider.keys = some key ∧
    Jwt.decode (decodeCall provider token key) = .ok claims ∧
    claims.get? provider.settings.tenantClaim = some (.str p.tenantId) ∧
    claims.get? "sub" = some (.str p.subject) ∧
    (∃ items, claims.get? provider.settings.rolesClaim = some (.arr items) ∧ readRoles items = some p.roles) ∧
    ∃ issuedAt expiresAt, p.expiresAt = some expiresAt ∧
      (claims.get? "iat").bind Value.asInt? = some issuedAt ∧ (claims.get? "exp").bind Value.asInt? = some expiresAt ∧
      issuedAt < expiresAt ∧ expiresAt - issuedAt ≤ provider.settings.maxTtlSeconds
  tenant : isTenantId p.tenantId.toList = true
  subject : p.subject ≠ "" ∧ p.subject.toList.length ≤ maxSubjectLen
  roles : p.roles ≠ ∅

omit [Py] [Jwt] in
theorem roles_of_readRoles {items : List Value} {roles : Finset Role} (hne : items ≠ [])
    (h : readRoles items = some roles) : roles ≠ ∅ := by
  cases items with
  | nil => exact absurd rfl hne
  | cons item rest =>
      obtain ⟨text, -, h⟩ := Option.bind_eq_some_iff.mp h
      obtain ⟨role, -, h⟩ := Option.bind_eq_some_iff.mp h
      obtain ⟨others, -, h⟩ := Option.bind_eq_some_iff.mp h
      obtain rfl := Option.some.inj h
      exact Finset.insert_ne_empty role others

omit [Py] [Jwt] in
/-- What the checks of the claims leave. -/
theorem readClaims_ok {settings : JwtSettings} {claims : Obj} {c : Claimed} (h : readClaims settings claims = .ok c) :
    claims.get? settings.tenantClaim = some (.str c.tenantId) ∧ isTenantId c.tenantId.toList = true ∧
      claims.get? "sub" = some (.str c.subject) ∧ (c.subject ≠ "" ∧ c.subject.toList.length ≤ maxSubjectLen) ∧
      (∃ items, claims.get? settings.rolesClaim = some (.arr items) ∧ readRoles items = some c.roles) ∧ c.roles ≠ ∅ ∧
      (claims.get? "iat").bind Value.asInt? = some c.issuedAt ∧
      (claims.get? "exp").bind Value.asInt? = some c.expiresAt ∧ c.issuedAt < c.expiresAt ∧
      c.expiresAt - c.issuedAt ≤ settings.maxTtlSeconds := by
  have htext : ∀ {v : Option Value} {s : String}, v.bind Value.asStr? = some s → v = some (.str s) := by
    intro v s hv
    obtain ⟨w, rfl, hw⟩ := Option.bind_eq_some_iff.mp hv
    cases w <;> cases hw
    rfl
  obtain ⟨tenantId, htenant, h⟩ := of_bind_eq_ok h
  obtain ⟨subject, hsubject, h⟩ := of_bind_eq_ok h
  obtain ⟨items, hitems, h⟩ := of_bind_eq_ok h
  obtain ⟨-, -, h⟩ := of_bind_eq_ok h
  obtain ⟨roles, hroles, h⟩ := of_bind_eq_ok h
  obtain ⟨⟨issuedAt, expiresAt⟩, htimes, h⟩ := of_bind_eq_ok h
  obtain ⟨_, httl, h⟩ := of_bind_eq_ok h
  obtain ⟨-, -, h⟩ := of_bind_eq_ok h
  cases h
  obtain ⟨htenant, hvalid⟩ := Option.filter_eq_some_iff.mp (orInvalid_eq_ok htenant)
  obtain ⟨hsubject, hshort⟩ := Option.filter_eq_some_iff.mp (orInvalid_eq_ok hsubject)
  obtain ⟨issued, hissued, htimes⟩ := Option.bind_eq_some_iff.mp (orInvalid_eq_ok htimes)
  obtain ⟨expires, hexpires, heq⟩ := Option.map_eq_some_iff.mp htimes
  obtain ⟨rfl, rfl⟩ := Prod.mk.inj heq
  have hrange := demand_eq_ok httl
  rw [Bool.and_eq_true, decide_eq_true_iff, decide_eq_true_iff] at hrange
  have hread : claims.get? settings.rolesClaim = some (.arr items) ∧ items ≠ [] := by
    have hitems := orInvalid_eq_ok hitems
    split at hitems
    · rename_i item rest harr
      cases hitems
      exact ⟨harr, List.cons_ne_nil item rest⟩
    · cases hitems
  refine ⟨htext htenant, hvalid, htext hsubject, by simpa using hshort, ⟨items, hread.1, orInvalid_eq_ok hroles⟩,
    roles_of_readRoles hread.2 (orInvalid_eq_ok hroles), hissued, hexpires, ?_, hrange.2⟩
  show issued < expires
  omega

omit [Jwt] in
theorem keyOf_ok {provider : JwtAuthProvider} {header : Obj} {key : List UInt8} (h : keyOf provider header = .ok key) :
    ∃ algorithm kid, header.get? "alg" = some (.str algorithm) ∧ algorithm.toList ∈ provider.settings.algorithms ∧
      header.get? "kid" = some (.str kid) ∧ assoc kid provider.keys = some key := by
  obtain ⟨algorithm, halgorithm, h⟩ := of_bind_eq_ok h
  obtain ⟨kid, hkid, h⟩ := of_bind_eq_ok h
  obtain ⟨halgorithm, hallowed⟩ := Option.filter_eq_some_iff.mp (orInvalid_eq_ok halgorithm)
  obtain ⟨hkid, -⟩ := Option.filter_eq_some_iff.mp (orInvalid_eq_ok hkid)
  obtain ⟨named, hnamed, hstr⟩ := Option.bind_eq_some_iff.mp hkid
  refine ⟨algorithm, kid, ?_, of_decide_eq_true hallowed, ?_, orInvalid_eq_ok h⟩
  · cases halg : header.get? "alg" with
    | none =>
        rw [halg] at halgorithm
        cases halgorithm
    | some v =>
        rw [halg] at halgorithm
        cases v <;> cases halgorithm
        rfl
  · rw [hnamed]
    cases named <;> cases hstr
    rfl

theorem vouched_of_verifyToken {provider : JwtAuthProvider} {token : List Char} {p : Principal}
    (h : verifyToken provider token = .ok p) : Vouched provider token p := by
  obtain ⟨-, -, h⟩ := of_bind_eq_ok h
  obtain ⟨_, hsize, h⟩ := of_bind_eq_ok h
  obtain ⟨header, hheader, h⟩ := of_bind_eq_ok h
  obtain ⟨key, hkey, h⟩ := of_bind_eq_ok h
  obtain ⟨claims, hclaims, h⟩ := of_bind_eq_ok h
  obtain ⟨claimed, hclaimed, h⟩ := of_bind_eq_ok h
  obtain ⟨algorithm, kid, halgorithm, hallowed, hkid, hknown⟩ := keyOf_ok hkey
  obtain ⟨htenant, hvalid, hsubject, hshort, hitems, hroles, hissued, hexpires, hlt, hle⟩ := readClaims_ok hclaimed
  split at h
  · cases h
    exact {
      size := of_decide_eq_true (demand_eq_ok hsize)
      decoded := ⟨header, algorithm, kid, key, claims, translated_eq_ok hheader, halgorithm, hallowed, hkid, hknown,
        translated_eq_ok hclaims, htenant, hsubject, hitems, claimed.issuedAt, claimed.expiresAt, rfl, hissued, hexpires,
        hlt, hle⟩
      tenant := hvalid
      subject := hshort
      roles := hroles }
  · cases h

/-- **A token vouches for every principal that the provider returns.** -/
theorem vouched_of_authenticate {provider : JwtAuthProvider} {scope : AsgiScope} {p : Principal}
    (h : provider.authenticate scope = .ok (some p)) :
    ∃ token, extractRequestToken scope = some token ∧ Vouched provider token p := by
  rw [JwtAuthProvider.authenticate] at h
  split at h
  · cases h
  · rename_i token htoken
    split at h
    · rename_i p' hverified
      cases h
      exact ⟨token, htoken, vouched_of_verifyToken hverified⟩
    · cases h
    · cases h

end verify

end JAgent
