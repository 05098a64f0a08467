import JAgent.Api.Access
import JAgent.Lib.System

/-! # The tenant of a task

`current_principal` is a context variable: a task reads it in its own context, which is a copy of the context of
the task that created it.  The middleware sets it before it calls the application and resets it afterwards, while
the tasks that the application has started (schedulers, the writing of an assistant's message) go on.

The server here takes calls, starts tasks, hands out stores (`HarnessAPI.store`) and ends tasks in any order.  What
a running task reads is what the middleware decided about the call it descends from (`Server.Reads`), and the run
theorem says of every store what stands behind it: a token of this call, verified with an allowed algorithm, whose
roles suffice for the call. -/

namespace JAgent
open Lib

/-- A task: the call that it descends from, `current_principal` in its context, and for the task of the call itself
the value to which the middleware resets it. -/
structure ServerTask where
  origin : AsgiScope
  context : Option Principal
  running : Bool := true
  saved : Option (Option Principal) := none
deriving DecidableEq

/-- The tasks in the order of their creation, and the stores that were handed out: to which task, and of which
tenant, where none stands for the `RuntimeError`. -/
structure Server where
  tasks : List ServerTask := []
  handed : List (ℕ × Option String) := []
deriving DecidableEq

/-- What happens next. -/
inductive ServerAct where
  | call (scope : AsgiScope)
  | spawn (task : ℕ)
  | store (task : ℕ)
  | finish (task : ℕ)

namespace ServerTask

/-- The task of a call, when the middleware has decided. -/
def ofCall (scope : AsgiScope) : Admission → ServerTask
  | .passed => { origin := scope, context := none }
  | .admitted p => { origin := scope, context := some p, saved := some none }
  | .refused _ _ => { origin := scope, context := none, running := false }

/-- `asyncio.create_task` in a task. -/
def child (task : ServerTask) : ServerTask := { origin := task.origin, context := task.context }

/-- The task has ended; the middleware has reset the variable if it had set it. -/
def ended (task : ServerTask) : ServerTask :=
  { task with running := false, context := task.saved.getD task.context }

end ServerTask

/-- One step of the server. -/
def serverStep (rules : List PolicyRule) (provider : Option AuthProvider) (s : Server) : ServerAct → Option Server
  | .call scope => some { s with tasks := s.tasks ++ [.ofCall scope (admission rules provider scope)] }
  | .spawn t => (s.tasks[t]?.filter (·.running)).map fun task => { s with tasks := s.tasks ++ [task.child] }
  | .store t => (s.tasks[t]?.filter (·.running)).map fun task =>
      { s with handed := s.handed ++ [(t, task.context.map Principal.tenantId)] }
  | .finish t => (s.tasks[t]?.filter (·.running)).map fun task => { s with tasks := s.tasks.set t task.ended }

section reads
variable {rules : List PolicyRule} {provider : Option AuthProvider}

/-- The principal that the middleware lets a call act for. -/
def Admission.principal : Admission → Option Principal
  | .admitted p => some p
  | _ => none

/-- The call goes through, and acts for the principal or for nobody. -/
def ActsFor (rules : List PolicyRule) (provider : Option AuthProvider) (scope : AsgiScope)
    (who : Option Principal) : Prop :=
  (∀ status reason, admission rules provider scope ≠ .refused status reason) ∧
    (admission rules provider scope).principal = who

/-- Every running task reads what the middleware decided about the call it descends from. -/
structure Server.Reads (rules : List PolicyRule) (provider : Option AuthProvider) (s : Server) : Prop where
  context : ∀ task ∈ s.tasks, task.running = true → ActsFor rules provider task.origin task.context
  handed : ∀ t tenant, (t, tenant) ∈ s.handed → ∃ task who, s.tasks[t]? = some task ∧
    ActsFor rules provider task.origin who ∧ tenant = who.map Principal.tenantId

/-- What one step of the server can do. -/
theorem serverStep_cases {s s' : Server} {act : ServerAct} (h : serverStep rules provider s act = some s') :
    (∃ scope, s' = { s with tasks := s.tasks ++ [.ofCall scope (admission rules provider scope)] }) ∨
      ∃ t task, s.tasks[t]? = some task ∧ task.running = true ∧
        (s' = { s with tasks := s.tasks ++ [task.child] } ∨
          s' = { s with handed := s.handed ++ [(t, task.context.map Principal.tenantId)] } ∨
          s' = { s with tasks := s.tasks.set t task.ended }) := by
  have hrunning : ∀ {t : ℕ} {f : ServerTask → Server}, (s.tasks[t]?.filter (·.running)).map f = some s' →
      ∃ task, s.tasks[t]? = some task ∧ task.running = true ∧ s' = f task := by
    intro t f hf
    obtain ⟨task, htask, heq⟩ := Option.map_eq_some_iff.mp hf
    obtain ⟨htask, hrun⟩ := Option.filter_eq_some_iff.mp htask
    exact ⟨task, htask, hrun, heq.symm⟩
  cases act with
  | call scope => exact .inl ⟨scope, (Option.some.inj h).symm⟩
  | spawn t =>
      obtain ⟨task, htask, hrun, rfl⟩ := hrunning h
      exact .inr ⟨t, task, htask, hrun, .inl rfl⟩
  | store t =>
      obtain ⟨task, htask, hrun, rfl⟩ := hrunning h
      exact .inr ⟨t, task, htask, hrun, .inr (.inl rfl)⟩
  | finish t =>
      obtain ⟨task, htask, hrun, rfl⟩ := hrunning h
      exact .inr ⟨t, task, htask, hrun, .inr (.inr rfl)⟩

theorem actsFor_ofCall {scope : AsgiScope}
    (hrun : (ServerTask.ofCall scope (admission rules provider scope)).running = true) :
    ActsFor rules provider (ServerTask.ofCall scope (admission rules provider scope)).origin
      (ServerTask.ofCall scope (admission rules provider scope)).context := by
  cases hadmission : admission rules provider scope with
  | passed => exact ⟨by simp [ServerTask.ofCall, hadmission], by simp [ServerTask.ofCall, hadmission, Admission.principal]⟩
  | admitted p =>
      exact ⟨by simp [ServerTask.ofCall, hadmission], by simp [ServerTask.ofCall, hadmission, Admission.principal]⟩
  | refused status reason =>
      rw [hadmission] at hrun
      exact absurd hrun Bool.false_ne_true

/-- **Every step keeps what tasks read.** -/
theorem Server.Reads.step {s s' : Server} {act : ServerAct} (h : s.Reads rules provider)
    (hstep : serverStep rules provider s act = some s') : s'.Reads rules provider := by
  -- a task that is appended leaves the entries about the others as they are
  have hlater : ∀ (task : ServerTask) (t : ℕ) (found : ServerTask), s.tasks[t]? = some found →
      (s.tasks ++ [task])[t]? = some found := by
    intro task t found hfound
    rw [List.getElem?_append_left (List.getElem?_eq_some_iff.mp hfound).1]
    exact hfound
  obtain ⟨scope, rfl⟩ | ⟨t, task, htask, hrun, rfl | rfl | rfl⟩ := serverStep_cases hstep
  · refine ⟨?_, ?_⟩
    · intro task htask hrun
      obtain htask | htask := List.mem_append.mp htask
      · exact h.context task htask hrun
      · obtain rfl := List.mem_singleton.mp htask
        exact actsFor_ofCall hrun
    · intro t tenant hmem
      obtain ⟨task, who, htask, hacts, heq⟩ := h.handed t tenant hmem
      exact ⟨task, who, hlater _ t task htask, hacts, heq⟩
  · refine ⟨?_, ?_⟩
    · intro task' htask' hrun'
      obtain htask' | htask' := List.mem_append.mp htask'
      · exact h.context task' htask' hrun'
      · obtain rfl := List.mem_singleton.mp htask'
        exact h.context task (List.mem_of_getElem? htask) hrun
    · intro t' tenant hmem
      obtain ⟨task', who, htask', hacts, heq⟩ := h.handed t' tenant hmem
      exact ⟨task', who, hlater _ t' task' htask', hacts, heq⟩
  · refine ⟨h.context, ?_⟩
    intro t' tenant hmem
    obtain hmem | hmem := List.mem_append.mp hmem
    · exact h.handed t' tenant hmem
    · obtain ⟨rfl, rfl⟩ := Prod.mk.inj (List.mem_singleton.mp hmem)
      exact ⟨task, task.context, htask, h.context task (List.mem_of_getElem? htask) hrun, rfl⟩
  · refine ⟨?_, ?_⟩
    · intro task' htask' hrun'
      obtain htask' | rfl := List.mem_or_eq_of_mem_set htask'
      · exact h.context task' htask' hrun'
      · exact absurd hrun' Bool.false_ne_true
    · -- an ended task keeps the call that it descends from
      intro t' tenant hmem
      obtain ⟨task', who, htask', hacts, heq⟩ := h.handed t' tenant hmem
      by_cases htt : t = t'
      · subst htt
        obtain rfl := Option.some.inj (htask.symm.trans htask')
        refine ⟨task.ended, who, ?_, hacts, heq⟩
        exact List.getElem?_set_self (List.getElem?_eq_some_iff.mp htask).1
      · exact ⟨task', who, by rw [List.getElem?_set_ne htt]; exact htask', hacts, heq⟩

/-- **In every run every task reads what the middleware decided about the call it descends from.** -/
theorem Server.reads_of_reaches {s : Server} (h : Reaches (serverStep rules provider) {} s) :
    s.Reads rules provider := by
  refine h.invariant ⟨?_, ?_⟩ (fun t u act _ ht hstep => ht.step hstep)
  · intro task htask
    exact absurd htask List.not_mem_nil
  · intro t tenant hmem
    exact absurd hmem List.not_mem_nil

end reads

/-- Every write needs at least an operator. -/
theorem operator_of_write {method path : List Char} {p : Principal} (hwrite : normalizedMethod method ≠ "GET".toList)
    (h : policyAllows defaultPolicy method path p = true) : p.hasRole .operator = true := by
  have hroles : defaultPolicy.all (fun rule => decide (rule.method.toList = "GET".toList) ||
      decide (Role.operator.level ≤ rule.role.level)) = true := by decide +kernel
  rw [policyAllows, requiredRole] at h
  cases hfind : defaultPolicy.find? (·.applies (normalizedMethod method) path) with
  | none => simp [hfind] at h
  | some rule =>
      rw [hfind, Option.map_some] at h
      have happlies := List.find?_some hfind
      rw [PolicyRule.applies, Bool.and_eq_true] at happlies
      have hrule := List.all_eq_true.mp hroles rule (List.mem_of_find?_eq_some hfind)
      rw [Bool.or_eq_true] at hrule
      obtain hget | hlevel := hrule
      · exact absurd ((of_decide_eq_true happlies.1).symm.trans (of_decide_eq_true hget)) hwrite
      · exact Principal.hasRole_of_le (of_decide_eq_true hlevel) h

section jwt
variable [Py] [Jwt]

/-- The call carries a token that vouches for the principal, signed with an allowed algorithm, and the roles of
the principal suffice for the call. -/
structure Authorized (provider : JwtAuthProvider) (scope : AsgiScope) (p : Principal) : Prop where
  vouched : ∃ token header, extractRequestToken scope = some token ∧ Vouched provider token p ∧
    Jwt.getUnverifiedHeader token = .ok header ∧ ∀ name ∈ forbiddenAlgorithms, header.get? "alg" ≠ some (.str name)
  allowed : policyAllows defaultPolicy scope.policyMethod (scope.path.getD []) p = true
  write : normalizedMethod scope.policyMethod ≠ "GET".toList → p.hasRole .operator = true

theorem authorized_of_admission {host : Host} {provider : JwtAuthProvider} {scope : AsgiScope} {p : Principal}
    (hsetup : JwtAuthProvider.fromEnv host = .ok provider)
    (h : admission defaultPolicy (some provider.authenticate) scope = .admitted p) : Authorized provider scope p := by
  obtain ⟨authenticate, hprovider, hauth, hallowed⟩ := admission_eq_admitted h
  obtain rfl := Option.some.inj hprovider
  obtain ⟨token, htoken, hvouched⟩ := vouched_of_authenticate hauth
  obtain ⟨header, algorithm, -, -, -, hheader, halg, hallowedAlg, -⟩ := hvouched.decoded
  refine ⟨⟨token, header, htoken, hvouched, hheader, ?_⟩, hallowed, fun hwrite => operator_of_write hwrite hallowed⟩
  intro name hname hforbidden
  obtain rfl := Value.str.inj (Option.some.inj (halg.symm.trans hforbidden))
  exact (fromEnv_algorithms hsetup).2 _ hname hallowedAlg

/-- **Every store is of the caller's tenant**: in every run of a server whose provider comes from the environment,
a store was handed out to a task only for the tenant of a principal who is authorized for the call the task
descends from; a task of a call that went through without an identity got none. -/
theorem store_of_caller {host : Host} {provider : JwtAuthProvider} (hsetup : JwtAuthProvider.fromEnv host = .ok provider)
    {s : Server} (h : Reaches (serverStep defaultPolicy (some provider.authenticate)) {} s)
    {t : ℕ} {tenant : Option String} (hmem : (t, tenant) ∈ s.handed) :
    ∃ task, s.tasks[t]? = some task ∧
      ((tenant = none ∧ admission defaultPolicy (some provider.authenticate) task.origin = .passed) ∨
        ∃ p, Authorized provider task.origin p ∧ tenant = some p.tenantId) := by
  obtain ⟨task, who, htask, ⟨hthrough, hwho⟩, rfl⟩ := (Server.reads_of_reaches h).handed t tenant hmem
  refine ⟨task, htask, ?_⟩
  cases hadmission : admission defaultPolicy (some provider.authenticate) task.origin with
  | passed =>
      rw [hadmission] at hwho
      obtain rfl := hwho
      exact .inl ⟨rfl, rfl⟩
  | admitted p =>
      rw [hadmission] at hwho
      obtain rfl := hwho
      exact .inr ⟨p, authorized_of_admission hsetup hadmission, rfl⟩
  | refused status reason => exact absurd hadmission (hthrough status reason)

end jwt

/-! ### A background task -/

section scenario
attribute [local instance] asciiPy

/-- A library that knows one token. -/
@[reducible] def oneToken : Jwt where
  getUnverifiedHeader token :=
    if token = "t".toList then .ok [("alg", .str "RS256"), ("kid", .str "k1")] else .error (.pyJwtError "bad token")
  decode call :=
    if call.token = "t".toList ∧ call.key = [1] then
      .ok [("tenant_id", .str "acme"), ("sub", .str "ann"), ("roles", .arr [.str "operator"]), ("iat", .int 0),
        ("exp", .int 60), ("iss", .str "idp"), ("jti", .str "j1")]
    else .error (.pyJwtError "bad signature")

attribute [local instance] oneToken

/-- The environment of the server. -/
def sampleHost : Host where
  environ name :=
    if name = "JAGENT_JWT_ISSUER" then some "idp".toList
    else if name = "JAGENT_JWT_AUDIENCE" then some "jagent".toList
    else if name = "JAGENT_JWT_PUBLIC_KEYS_DIR" then some "/keys".toList
    else none
  parseInt _ := none
  expanduser := id
  isDir _ := true
  pemFiles _ := [("k1", [1])]

/-- The provider of this environment. -/
def sampleProvider : JwtAuthProvider where
  settings := {
    issuer := "idp".toList
    audience := "jagent".toList
    algorithms := ["RS256".toList, "ES256".toList]
    publicKeysDir := "/keys".toList }
  keys := [("k1", [1])]

/-- A call that starts a run. -/
def startCall : AsgiScope :=
  { type := "http", path := some "/api/v1/runs".toList, method := some "POST".toList,
    headers := [("Authorization".toList, "Bearer t".toList)] }

/-- The call starts a task and ends; then the task reads the store. -/
def backgroundRead : List ServerAct := [.call startCall, .spawn 0, .finish 0, .store 1]

/-- A task in the background has the store of the tenant whose call has started it. -/
theorem background_store_of_caller :
    ∃ s, Lib.run (serverStep defaultPolicy (some sampleProvider.authenticate)) backgroundRead {} = some s ∧
      (1, some "acme") ∈ s.handed ∧ ∃ p, Authorized sampleProvider startCall p ∧ p.tenantId = "acme" := by
  have hrun : ∃ s, Lib.run (serverStep defaultPolicy (some sampleProvider.authenticate)) backgroundRead {} = some s ∧
      s.handed = [(1, some "acme")] ∧ s.tasks.map ServerTask.origin = [startCall, startCall] := by
    have hany : (Lib.run (serverStep defaultPolicy (some sampleProvider.authenticate)) backgroundRead {}).any (fun s =>
        decide (s.handed = [(1, some "acme")] ∧ s.tasks.map ServerTask.origin = [startCall, startCall])) = true := by
      decide +kernel
    obtain ⟨s, hs, hp⟩ := (Option.any_eq_true _ _).mp hany
    exact ⟨s, hs, of_decide_eq_true hp⟩
  obtain ⟨s, hs, hhanded, horigins⟩ := hrun
  have hmem : (1, some "acme") ∈ s.handed := by rw [hhanded]; exact List.mem_cons_self
  refine ⟨s, hs, hmem, ?_⟩
  have hsetup : JwtAuthProvider.fromEnv sampleHost = .ok sampleProvider := rfl
  obtain ⟨task, htask, ⟨hnone, -⟩ | ⟨p, hauthorized, htenant⟩⟩ := store_of_caller hsetup (reaches_of_run hs) hmem
  · cases hnone
  · have horigin : some task.origin = some startCall := by
      have hat := congrArg (·[1]?) horigins
      simpa [htask] using hat
    rw [Option.some.inj horigin] at hauthorized
    exact ⟨p, hauthorized, (Option.some.inj htenant).symm⟩

end scenario

end JAgent
