import JAgent.Tools.Addresses

/-! # The egress policy

`validate_egress_url` decides whether the server may send a request to a URL: `http` or `https`, no
credentials, and a host that is a literal address outside the blocked networks or resolves to such addresses
only.

It refuses by raising `EgressBlockedError`.  `EgressGuardrail` promises that it is fail-closed; the function
lets a target pass when the resolver finds no such name, when the answer is empty, or when it leaves out what
it cannot parse, and exceptions of the parsers and of the resolver get through it.
`egress_fail_closed_iff` lists all of these (`FailsOpen`) and says that there are no others. -/

namespace JAgent

/-- What the resolver does: `getaddrinfo` gives the first component of each socket address, with `none` for
an entry without one; or it raises. -/
inductive Resolution where
  | infos (addresses : List (Option (List Char)))
  | gaierror
  | timeoutError
  | osError
  | raised (e : Raised)

/-- How `validate_egress_url` ends. -/
inductive EgressOutcome where
  | returned
  | blocked (text : List Char)
  | escaped (e : Raised)
deriving DecidableEq

section policy
variable [Py] (nfkc : List Char → List Char) (resolver : List Char → ℕ → Resolution)

/-- `int(host, 0)` for a host that `_NUMERIC_HOST_RE` matches. -/
def numericHost (host : List Char) : Option ℕ :=
  match if host.getLast? = some '\n' then host.dropLast else host with
  | '0' :: x :: c :: rest =>
    if x = 'x' || x = 'X' then if (c :: rest).all isHexDigit then some (ofDigits 16 (c :: rest)) else none
    else if (x :: c :: rest).all (· = '0') then some 0 else none
  | digits =>
    if digits.isEmpty || !digits.all Char.isDigit then none
    else if digits.head? = some '0' && digits.any (· ≠ '0') then none
    else some (ofDigits 10 digits)

/-- `_literal_ip`. -/
def literalIp (host : List Char) : Except Raised (Option IpAddress) :=
  match IpAddress.parse host with
  | some ip => .ok (some ip)
  | none =>
    match numericHost host with
    | some n =>
      if n < 2 ^ 32 then .ok (some (.ofNat n))
      else (inetAton host).map fun ip => ip.map IpAddress.ofNat
    | none => (inetAton host).map fun ip => ip.map IpAddress.ofNat

/-- The address of an entry of the resolver's answer, without its zone. -/
def parseInfo (info : Option (List Char)) : Option IpAddress :=
  info.bind fun raw => IpAddress.parse (partition '%' raw).1

/-- The addresses that `_resolve_ips` keeps. -/
def resolvedIps (infos : List (Option (List Char))) : List IpAddress := (infos.filterMap parseInfo).dedup

/-- `parts.port or (443 if parts.scheme == "https" else 80)`; `none` is its `ValueError`. -/
def requestPort (parts : SplitResult) : Option ℕ :=
  parts.port.map fun port =>
    if port.getD 0 = 0 then if parts.scheme = "https".toList then 443 else 80 else port.getD 0

/-- The host and the port that are to be checked, or the text of the refusal. -/
def egressTarget (parts : SplitResult) : Except (List Char) (List Char × ℕ) :=
  if parts.scheme ≠ "http".toList && parts.scheme ≠ "https".toList then
    let shown := if parts.scheme.isEmpty then "(missing)".toList else parts.scheme
    .error ("Egress target scheme '".toList ++ shown ++ "' is not allowed".toList)
  else if (parts.username.getD []) ≠ [] || (parts.password.getD []) ≠ [] then
    .error "Egress target must not embed credentials".toList
  else match parts.hostname with
    | none => .error "Egress target is missing a hostname".toList
    | some host => match requestPort parts with
      | none => .error "Egress target has an invalid port".toList
      | some port => .ok (host, port)

/-- `sorted(texts)[0]`. -/
def firstText (texts : List (List Char)) : List Char :=
  texts.tail.foldl (fun first text => if String.ofList text < String.ofList first then text else first)
    (texts.headD [])

/-- What follows once the host has resolved to these addresses. -/
def judgeAddresses (host : List Char) (addresses : List IpAddress) : EgressOutcome :=
  let blocked := addresses.filter IpAddress.isBlocked
  if addresses.isEmpty || blocked.isEmpty then .returned
  else .blocked ("Egress target '".toList ++ host ++ "' resolves to a disallowed address: ".toList ++
    firstText (blocked.map IpAddress.text))

/-- What follows once the resolver has answered. -/
def judgeResolution (host : List Char) : Resolution → EgressOutcome
  | .gaierror => .returned
  | .timeoutError => .blocked ("Egress target '".toList ++ host ++ "' DNS resolution timed out".toList)
  | .osError => .blocked ("Egress target '".toList ++ host ++ "' could not be resolved".toList)
  | .raised e => .escaped e
  | .infos infos => judgeAddresses host (resolvedIps infos)

/-- `validate_egress_url`. -/
def validateEgressUrl (url : List Char) : EgressOutcome :=
  match urlsplit nfkc url with
  | .error e => .escaped e
  | .ok parts => match egressTarget parts with
    | .error text => .blocked text
    | .ok (host, port) => match literalIp host with
      | .error e => .escaped e
      | .ok (some literal) =>
        if literal.isBlocked then
          .blocked ("Egress target address ".toList ++ literal.text ++ " is not allowed".toList)
        else .returned
      | .ok none => judgeResolution host (resolver host port)

/-! ### What fail-closed means -/

/-- The answer is a list of addresses, not empty, each of which parses and is not blocked. -/
def Resolution.Safe (r : Resolution) : Prop :=
  ∃ infos, r = .infos infos ∧ infos ≠ [] ∧
    ∀ info ∈ infos, ∃ ip, parseInfo info = some ip ∧ ip.isBlocked = false

/-- The target may be requested. -/
def EgressAllowed (url : List Char) : Prop :=
  ∃ parts host, urlsplit nfkc url = .ok parts ∧
    (parts.scheme = "http".toList ∨ parts.scheme = "https".toList) ∧
    parts.username.getD [] = [] ∧ parts.password.getD [] = [] ∧ parts.hostname = some host ∧
    ((∃ ip, literalIp host = .ok (some ip) ∧ ip.isBlocked = false) ∨
      ∃ port, requestPort parts = some port ∧ (resolver host port).Safe)

/-- The function returns only for such a target, refuses every other one, and raises nothing else. -/
def FailClosed (url : List Char) : Prop :=
  (validateEgressUrl nfkc resolver url = .returned → EgressAllowed nfkc resolver url) ∧
    (¬EgressAllowed nfkc resolver url → ∃ text, validateEgressUrl nfkc resolver url = .blocked text) ∧
    ∀ e, validateEgressUrl nfkc resolver url ≠ .escaped e

/-- Answers that are not refused though they show no safe target: the name is unknown, an exception that is
not expected, or no blocked address and nothing at all or something that does not parse. -/
def Resolution.leavesOpen : Resolution → Bool
  | .gaierror | .raised _ => true
  | .timeoutError | .osError => false
  | .infos entries =>
    (resolvedIps entries).all (fun ip => !ip.isBlocked) &&
      (entries.isEmpty || entries.any fun entry => (parseInfo entry).isNone)

/-- The URL does not split, the host cannot be read as a literal without an exception, or the resolver is
asked and its answer leaves the target open. -/
def FailsOpen (url : List Char) : Prop :=
  (∃ e, urlsplit nfkc url = .error e) ∨
    ∃ parts host port, urlsplit nfkc url = .ok parts ∧ egressTarget parts = .ok (host, port) ∧
      ((∃ e, literalIp host = .error e) ∨
        literalIp host = .ok none ∧ (resolver host port).leavesOpen = true)

/-! ### The answers of the resolver -/

omit [Py] in
theorem mem_resolvedIps {infos : List (Option (List Char))} {ip : IpAddress} :
    ip ∈ resolvedIps infos ↔ ∃ info ∈ infos, parseInfo info = some ip := by
  unfold resolvedIps
  rw [List.mem_dedup, List.mem_filterMap]

omit [Py] in
theorem judgeAddresses_cases (host : List Char) (addresses : List IpAddress) :
    (judgeAddresses host addresses = .returned ∧ addresses.all (fun ip => !ip.isBlocked) = true) ∨
      (∃ text, judgeAddresses host addresses = .blocked text) ∧
        addresses.all (fun ip => !ip.isBlocked) = false := by
  unfold judgeAddresses
  dsimp only
  cases hall : addresses.all (fun ip => !ip.isBlocked) with
  | true =>
      have hnone : addresses.filter IpAddress.isBlocked = [] := by
        rw [List.filter_eq_nil_iff]
        intro ip hip hblocked
        have hfree := List.all_eq_true.mp hall ip hip
        rw [hblocked] at hfree
        cases hfree
      rw [hnone]
      exact .inl ⟨by simp, rfl⟩
  | false =>
      obtain ⟨ip, hip, hblocked⟩ := List.all_eq_false.mp hall
      have hmem : ip ∈ addresses.filter IpAddress.isBlocked := List.mem_filter.mpr ⟨hip, by simpa using hblocked⟩
      have hsome : addresses.isEmpty = false := by
        cases addresses with
        | nil => cases hip
        | cons _ _ => rfl
      have hblocks : (addresses.filter IpAddress.isBlocked).isEmpty = false := by
        cases hlist : addresses.filter IpAddress.isBlocked with
        | nil => rw [hlist] at hmem; cases hmem
        | cons _ _ => rfl
      rw [hsome, hblocks]
      exact .inr ⟨⟨_, rfl⟩, rfl⟩

omit [Py] in
/-- A list without a blocked address is safe exactly when it is not empty and each entry parses. -/
theorem safe_iff {infos : List (Option (List Char))}
    (hfree : (resolvedIps infos).all (fun ip => !ip.isBlocked) = true) :
    (Resolution.infos infos).Safe ↔ (Resolution.infos infos).leavesOpen = false := by
  rw [Resolution.leavesOpen, hfree, Bool.true_and, Bool.or_eq_false_iff, List.any_eq_false]
  constructor
  · rintro ⟨infos', heq, hne, hall⟩
    obtain rfl := Resolution.infos.inj heq
    refine ⟨by simpa using hne, fun info hinfo => ?_⟩
    obtain ⟨ip, hip, -⟩ := hall info hinfo
    rw [hip]
    exact Bool.false_ne_true
  · rintro ⟨hne, hall⟩
    refine ⟨infos, rfl, by simpa using hne, fun info hinfo => ?_⟩
    cases hip : parseInfo info with
    | none => exact absurd (by rw [hip]; rfl) (hall info hinfo)
    | some ip =>
        have hfree' := List.all_eq_true.mp hfree ip (mem_resolvedIps.mpr ⟨info, hinfo, hip⟩)
        exact ⟨ip, rfl, by simpa using hfree'⟩

omit [Py] in
/-- What the function makes of an answer is fail-closed exactly when the answer leaves nothing open. -/
theorem judgeResolution_iff (host : List Char) (r : Resolution) :
    ((judgeResolution host r = .returned → r.Safe) ∧
        (¬r.Safe → ∃ text, judgeResolution host r = .blocked text) ∧
        ∀ e, judgeResolution host r ≠ .escaped e) ↔ r.leavesOpen = false := by
  have hopen : ∀ {r : Resolution}, (∀ infos, r ≠ .infos infos) → ¬r.Safe := by
    rintro r hne ⟨infos, heq, -⟩
    exact hne infos heq
  cases r with
  | gaierror =>
      exact ⟨(fun h => absurd (h.1 rfl) (hopen (fun _ heq => by cases heq))), (fun h => by cases h)⟩
  | timeoutError =>
      refine ⟨fun _ => rfl, fun _ => ?_⟩
      exact ⟨(fun h => by cases h), (fun _ => ⟨_, rfl⟩), (fun e h => by cases h)⟩
  | osError =>
      refine ⟨fun _ => rfl, fun _ => ?_⟩
      exact ⟨(fun h => by cases h), (fun _ => ⟨_, rfl⟩), (fun e h => by cases h)⟩
  | raised e => exact ⟨(fun h => absurd rfl (h.2.2 e)), (fun h => by cases h)⟩
  | infos infos =>
      show (judgeAddresses host (resolvedIps infos) = _ → _) ∧ (_ → ∃ _, judgeAddresses host _ = _) ∧
        (∀ e, judgeAddresses host _ ≠ _) ↔ _
      rcases judgeAddresses_cases host (resolvedIps infos) with ⟨hreturned, hfree⟩ | ⟨⟨text, hblocked⟩, hsome⟩
      · rw [hreturned, ← safe_iff hfree]
        exact ⟨(fun h => h.1 rfl),
          (fun h => ⟨(fun _ => h), (fun hnot => absurd h hnot), (fun e heq => by cases heq)⟩)⟩
      · have hclosed : (Resolution.infos infos).leavesOpen = false := by
          rw [Resolution.leavesOpen, hsome, Bool.false_and]
        rw [hblocked]
        refine ⟨fun _ => hclosed, fun _ => ?_⟩
        exact ⟨(fun h => by cases h), (fun _ => ⟨text, rfl⟩), (fun e h => by cases h)⟩

/-! ### The whole check -/

variable {nfkc resolver}

theorem egressTarget_ok {parts : SplitResult} {host : List Char} {port : ℕ}
    (h : egressTarget parts = .ok (host, port)) :
    (parts.scheme = "http".toList ∨ parts.scheme = "https".toList) ∧
      parts.username.getD [] = [] ∧ parts.password.getD [] = [] ∧ parts.hostname = some host ∧
      requestPort parts = some port := by
  unfold egressTarget at h
  split_ifs at h with hscheme hcredentials
  rw [Bool.and_eq_true, not_and_or, decide_eq_true_iff, decide_eq_true_iff, not_not, not_not] at hscheme
  rw [Bool.or_eq_true, not_or, decide_eq_true_iff, decide_eq_true_iff, not_not, not_not] at hcredentials
  refine ⟨hscheme, hcredentials.1, hcredentials.2, ?_⟩
  cases hhost : parts.hostname with
  | none => rw [hhost] at h; cases h
  | some name =>
      rw [hhost] at h
      cases hport : requestPort parts with
      | none => rw [hport] at h; cases h
      | some number =>
          rw [hport] at h
          obtain ⟨rfl, rfl⟩ := Prod.mk.inj (Except.ok.inj h)
          exact ⟨rfl, rfl⟩

/-- A target that reaches the host is allowed by the host alone. -/
theorem egressAllowed_iff {url : List Char} {parts : SplitResult} {host : List Char} {port : ℕ}
    (hsplit : urlsplit nfkc url = .ok parts) (htarget : egressTarget parts = .ok (host, port)) :
    EgressAllowed nfkc resolver url ↔
      (∃ ip, literalIp host = .ok (some ip) ∧ ip.isBlocked = false) ∨ (resolver host port).Safe := by
  obtain ⟨hscheme, huser, hpassword, hhost, hport⟩ := egressTarget_ok htarget
  constructor
  · rintro ⟨parts', host', hsplit', -, -, -, hhost', hcase⟩
    obtain rfl := Except.ok.inj (hsplit.symm.trans hsplit')
    obtain rfl := Option.some.inj (hhost.symm.trans hhost')
    refine hcase.imp_right ?_
    rintro ⟨port', hport', hsafe⟩
    obtain rfl := Option.some.inj (hport.symm.trans hport')
    exact hsafe
  · intro hcase
    refine ⟨parts, host, hsplit, hscheme, huser, hpassword, hhost, hcase.imp_right ?_⟩
    exact fun hsafe => ⟨port, hport, hsafe⟩

/-- It fails open by the host alone, too. -/
theorem failsOpen_iff {url : List Char} {parts : SplitResult} {host : List Char} {port : ℕ}
    (hsplit : urlsplit nfkc url = .ok parts) (htarget : egressTarget parts = .ok (host, port)) :
    FailsOpen nfkc resolver url ↔ (∃ e, literalIp host = .error e) ∨
      literalIp host = .ok none ∧ (resolver host port).leavesOpen = true := by
  constructor
  · rintro (⟨e, herror⟩ | ⟨parts', host', port', hsplit', htarget', hcase⟩)
    · rw [hsplit] at herror
      cases herror
    · obtain rfl := Except.ok.inj (hsplit.symm.trans hsplit')
      obtain ⟨rfl, rfl⟩ := Prod.mk.inj (Except.ok.inj (htarget.symm.trans htarget'))
      exact hcase
  · intro hcase
    exact .inr ⟨parts, host, port, hsplit, htarget, hcase⟩

theorem failClosed_of_blocked {url text : List Char}
    (h : validateEgressUrl nfkc resolver url = .blocked text) : FailClosed nfkc resolver url := by
  unfold FailClosed
  rw [h]
  exact ⟨(fun heq => by cases heq), (fun _ => ⟨text, rfl⟩), (fun e heq => by cases heq)⟩

theorem not_failClosed_of_escaped {url : List Char} {e : Raised}
    (h : validateEgressUrl nfkc resolver url = .escaped e) : ¬FailClosed nfkc resolver url :=
  fun hclosed => hclosed.2.2 e h

/-- A target with an IP address is judged by the address alone. -/
theorem failClosed_of_literal {url : List Char} {parts : SplitResult} {host : List Char} {port : ℕ} {ip : IpAddress}
    (hsplit : urlsplit nfkc url = .ok parts) (htarget : egressTarget parts = .ok (host, port))
    (hliteral : literalIp host = .ok (some ip)) : FailClosed nfkc resolver url := by
  cases hblocked : ip.isBlocked with
  | true =>
      have hvalue : ∃ text, validateEgressUrl nfkc resolver url = .blocked text := by
        simp only [validateEgressUrl, hsplit, htarget, hliteral, hblocked, if_true]
        exact ⟨_, rfl⟩
      exact failClosed_of_blocked hvalue.choose_spec
  | false =>
      have hallowed : EgressAllowed nfkc resolver url :=
        (egressAllowed_iff hsplit htarget).mpr (.inl ⟨ip, hliteral, hblocked⟩)
      have hvalue : validateEgressUrl nfkc resolver url = .returned := by
        simp only [validateEgressUrl, hsplit, htarget, hliteral, hblocked, Bool.false_eq_true, if_false]
      unfold FailClosed
      rw [hvalue]
      exact ⟨(fun _ => hallowed), (fun h => absurd hallowed h), (fun e heq => by cases heq)⟩

/-- A target with a name is judged by what it resolves to. -/
theorem failClosed_iff_of_name {url : List Char} {parts : SplitResult} {host : List Char} {port : ℕ}
    (hsplit : urlsplit nfkc url = .ok parts) (htarget : egressTarget parts = .ok (host, port))
    (hliteral : literalIp host = .ok none) :
    FailClosed nfkc resolver url ↔ (resolver host port).leavesOpen = false := by
  have hvalue : validateEgressUrl nfkc resolver url = judgeResolution host (resolver host port) := by
    simp only [validateEgressUrl, hsplit, htarget, hliteral]
  have hallowed : EgressAllowed nfkc resolver url ↔ (resolver host port).Safe := by
    rw [egressAllowed_iff hsplit htarget, hliteral]
    exact ⟨(fun h => h.resolve_left (by rintro ⟨ip, hip, -⟩; cases hip)), .inr⟩
  unfold FailClosed
  rw [hvalue, hallowed]
  exact judgeResolution_iff host (resolver host port)

variable (nfkc resolver)

/-- **When the egress check is fail-closed**: for every URL and every behaviour of the resolver, exactly when
it does not fail open in one of the listed ways. -/
theorem egress_fail_closed_iff (url : List Char) :
    FailClosed nfkc resolver url ↔ ¬FailsOpen nfkc resolver url := by
  cases hsplit : urlsplit nfkc url with
  | error e =>
      have hvalue : validateEgressUrl nfkc resolver url = .escaped e := by simp only [validateEgressUrl, hsplit]
      exact ⟨fun h => absurd h (not_failClosed_of_escaped hvalue), fun h => absurd (.inl ⟨e, hsplit⟩) h⟩
  | ok parts =>
      cases htarget : egressTarget parts with
      | error text =>
          have hvalue : validateEgressUrl nfkc resolver url = .blocked text := by
            simp only [validateEgressUrl, hsplit, htarget]
          refine ⟨fun _ => ?_, fun _ => failClosed_of_blocked hvalue⟩
          rintro (⟨e, herror⟩ | ⟨parts', host, port, hsplit', htarget', -⟩)
          · rw [hsplit] at herror
            cases herror
          · obtain rfl := Except.ok.inj (hsplit.symm.trans hsplit')
            rw [htarget] at htarget'
            cases htarget'
      | ok target =>
          obtain ⟨host, port⟩ := target
          rw [failsOpen_iff hsplit htarget]
          cases hliteral : literalIp host with
          | error e =>
              have hvalue : validateEgressUrl nfkc resolver url = .escaped e := by
                simp only [validateEgressUrl, hsplit, htarget, hliteral]
              exact ⟨fun h => absurd h (not_failClosed_of_escaped hvalue), fun h => absurd (.inl ⟨e, rfl⟩) h⟩
          | ok literal =>
              cases literal with
              | some ip =>
                  refine ⟨fun _ => ?_, fun _ => failClosed_of_literal hsplit htarget hliteral⟩
                  rintro (⟨e, herror⟩ | ⟨hnone, -⟩)
                  · cases herror
                  · cases hnone
              | none =>
                  rw [failClosed_iff_of_name hsplit htarget hliteral, ← Bool.not_eq_true]
                  refine not_congr ⟨fun h => .inr ⟨rfl, h⟩, ?_⟩
                  rintro (⟨e, herror⟩ | ⟨-, h⟩)
                  · cases herror
                  · exact h

end policy

section failures
attribute [local instance] asciiPy

/-- **Targets for which it is not**: a URL that does not split raises `ValueError`, and a name that the resolver
does not find is let through. -/
theorem unsplit_and_unknown_not_closed :
    validateEgressUrl id (fun _ _ => .gaierror) "http://[::1".toList =
        .escaped (.error "ValueError" "Invalid IPv6 URL") ∧
      validateEgressUrl id (fun _ _ => .gaierror) "http://unknown.example/".toList = .returned ∧
      ¬FailClosed id (fun _ _ => .gaierror) "http://[::1".toList ∧
      ¬FailClosed id (fun _ _ => .gaierror) "http://unknown.example/".toList := by
  have hunsplit : validateEgressUrl id (fun _ _ => .gaierror) "http://[::1".toList =
      .escaped (.error "ValueError" "Invalid IPv6 URL") := by decide +kernel
  refine ⟨hunsplit, by decide +kernel, not_failClosed_of_escaped hunsplit, fun hclosed => ?_⟩
  obtain ⟨parts, host, hsplit, -, -, -, hhost, hcase⟩ := hclosed.1 (by decide +kernel)
  have hparts : urlsplit id "http://unknown.example/".toList = .ok ⟨"http".toList, "unknown.example".toList⟩ := by
    decide +kernel
  obtain rfl := Except.ok.inj (hparts.symm.trans hsplit)
  have hname : (SplitResult.mk "http".toList "unknown.example".toList).hostname =
      some "unknown.example".toList := by decide +kernel
  obtain rfl := Option.some.inj (hname.symm.trans hhost)
  rcases hcase with ⟨ip, hliteral, -⟩ | ⟨port, -, infos, hgai, -⟩
  · have hnone : literalIp "unknown.example".toList = .ok none := by decide +kernel
    rw [hnone] at hliteral
    cases hliteral
  · cases hgai

end failures

end JAgent
