import JAgent.Execution.Local

/-! # Addresses and URLs of the standard library

What the egress policy reads a target with: `ipaddress.ip_address` and the classes of addresses it asks for,
`socket.inet_aton`, and `urllib.parse.urlsplit` with the parts of its result.

Texts are lists of characters.  Compatibility normalization is a parameter of `urlsplit`; it matters only for
hosts outside ASCII. -/

namespace JAgent

/-! ### Numbers in texts -/

/-- The value of a digit in any base up to 16. -/
def digitValue (c : Char) : ℕ :=
  if c.isDigit then c.toNat - 48 else if 'a' ≤ c ∧ c ≤ 'f' then c.toNat - 87 else c.toNat - 55

def isHexDigit (c : Char) : Bool := c.isDigit || ('a' ≤ c && c ≤ 'f') || ('A' ≤ c && c ≤ 'F')

def ofDigits (base : ℕ) (digits : List Char) : ℕ := digits.foldl (fun n c => base * n + digitValue c) 0

/-- `text.partition(c)`: what stands before the first `c`, and what follows it if there is one. -/
def partition (c : Char) (text : List Char) : List Char × Option (List Char) :=
  match text.dropWhile (· ≠ c) with
  | [] => (text, none)
  | _ :: rest => (text.takeWhile (· ≠ c), some rest)

theorem partition_append {d : Char} {front : List Char} (h : d ∉ front) (rest : List Char) :
    partition d (front ++ d :: rest) = (front, some rest) := by
  have hall : ∀ e ∈ front, decide (e ≠ d) = true := by
    intro e he
    apply decide_eq_true
    rintro rfl
    exact h he
  rw [partition, List.dropWhile_append_of_pos hall, List.takeWhile_append_of_pos hall,
    List.dropWhile_cons_of_neg (by simp), List.takeWhile_cons_of_neg (by simp), List.append_nil]

/-- `text.rpartition(c)`: what stands before the last `c` if there is one, and what follows it. -/
def rpartition (c : Char) (text : List Char) : Option (List Char) × List Char :=
  match partition c text.reverse with
  | (_, none) => (none, text)
  | (back, some front) => (some front.reverse, back.reverse)

/-! ### `ipaddress` -/

inductive IpAddress where
  | v4 (ip : Fin (2 ^ 32))
  | v6 (ip : Fin (2 ^ 128)) (scopeId : Option (List Char))
deriving DecidableEq

namespace IpAddress

/-- `_parse_octet`. -/
def parseOctet (text : List Char) : Option ℕ :=
  if text.isEmpty || !text.all Char.isDigit || 3 < text.length || (text ≠ ['0'] && text.head? = some '0') then none
  else if 255 < ofDigits 10 text then none
  else some (ofDigits 10 text)

/-- `IPv4Address(text)`. -/
def parseV4 (text : List Char) : Option (Fin (2 ^ 32)) :=
  if text.contains '/' then none
  else match (text.splitOn '.').mapM parseOctet with
    | some [a, b, c, d] => some (Fin.ofNat _ (((a * 256 + b) * 256 + c) * 256 + d))
    | _ => none

/-- `IPv4Address(n)`. -/
def ofNat (n : ℕ) : IpAddress := .v4 (Fin.ofNat _ n)

/-- `_parse_hextet`. -/
def parseHextet (text : List Char) : Option ℕ :=
  if text.isEmpty || !text.all isHexDigit || 4 < text.length then none else some (ofDigits 16 text)

/-- `_split_scope_id`. -/
def splitScopeId (text : List Char) : Option (List Char × Option (List Char)) :=
  match partition '%' text with
  | (_, none) => some (text, none)
  | (address, some scopeId) =>
    if scopeId.isEmpty || scopeId.contains '%' then none else some (address, some scopeId)

/-- The parts between the colons, an IPv4 ending turned into two of them. -/
def hextetParts (text : List Char) : Option (List (List Char)) :=
  let parts := text.splitOn ':'
  if parts.length < 3 then none
  else if (parts.getLast?.getD []).contains '.' then
    (parseV4 (parts.getLast?.getD [])).map fun ip =>
      parts.dropLast ++ [Nat.toDigits 16 (ip.val / 65536), Nat.toDigits 16 (ip.val % 65536)]
  else some parts

/-- The hextets of an address, `::` filled up with zeros. -/
def hextets (parts : List (List Char)) : Option (List ℕ) :=
  let isGap := fun i => 0 < i && i + 1 < parts.length && parts[i]? = some []
  match (List.range parts.length).filter isGap with
  | [] => if parts.length ≠ 8 then none else parts.mapM parseHextet
  | [gap] =>
    let opens := parts.head? = some []
    let closes := parts.getLast? = some []
    if (opens && gap ≠ 1) || (closes && gap + 2 ≠ parts.length) then none
    else
      let front := if opens then [] else parts.take gap
      let back := if closes then [] else parts.drop (gap + 1)
      if 8 ≤ front.length + back.length then none
      else match front.mapM parseHextet, back.mapM parseHextet with
        | some front, some back => some (front ++ List.replicate (8 - (front.length + back.length)) 0 ++ back)
        | _, _ => none
  | _ => none

/-- `IPv6Address(text)`. -/
def parseV6 (text : List Char) : Option (Fin (2 ^ 128) × Option (List Char)) :=
  if text.contains '/' then none
  else match splitScopeId text with
    | none => none
    | some (address, scopeId) => match hextetParts address with
      | none => none
      | some parts =>
        if 9 < parts.length then none
        else (hextets parts).map fun values =>
          (Fin.ofNat _ (values.foldl (fun n value => 65536 * n + value) 0), scopeId)

/-- `ipaddress.ip_address(text)`; `none` is its `ValueError`. -/
def parse (text : List Char) : Option IpAddress :=
  match parseV4 text with
  | some ip => some (.v4 ip)
  | none => (parseV6 text).map fun (ip, scopeId) => .v6 ip scopeId

/-- The dotted form. -/
def dotted (ip : ℕ) : List Char :=
  let octet := fun i => Nat.toDigits 10 (ip / 256 ^ i % 256)
  octet 3 ++ '.' :: octet 2 ++ '.' :: octet 1 ++ '.' :: octet 0

/-- The start and the length of the longest run of zeros, the first of them. -/
def longestGap (values : List ℕ) : ℕ × ℕ :=
  (List.range values.length).foldl (fun best i =>
    let run := ((values.drop i).takeWhile (· = 0)).length
    if best.2 < run then (i, run) else best) (0, 0)

/-- `_string_from_ip_int` with `_compress_hextets`. -/
def colons (ip : ℕ) : List Char :=
  let values := (List.range 8).reverse.map fun i => ip / 65536 ^ i % 65536
  let write := fun vs : List ℕ => List.intercalate [':'] (vs.map (Nat.toDigits 16))
  let (start, length) := longestGap values
  if 1 < length then write (values.take start) ++ ':' :: ':' :: write (values.drop (start + length))
  else write values

/-- `str(ip)`. -/
def text : IpAddress → List Char
  | .v4 ip => dotted ip.val
  | .v6 ip none => colons ip.val
  | .v6 ip (some scopeId) => colons ip.val ++ '%' :: scopeId

/-- A network: its address and the length of its mask, out of `bits`. -/
def within (bits ip : ℕ) (network : ℕ × ℕ) : Bool :=
  ip / 2 ^ (bits - network.2) = network.1 / 2 ^ (bits - network.2)

/-- `a.b.c.d/length`. -/
def net4 (a b c d length : ℕ) : ℕ × ℕ := (((a * 256 + b) * 256 + c) * 256 + d, length)

/-- An IPv6 network by its first hextets. -/
def net6 (front : List ℕ) (length : ℕ) : ℕ × ℕ :=
  ((front ++ List.replicate (8 - front.length) 0).foldl (fun n value => 65536 * n + value) 0, length)

/-- `_private_networks` of `_IPv4Constants`. -/
def privateNetworks4 : List (ℕ × ℕ) :=
  [net4 0 0 0 0 8, net4 10 0 0 0 8, net4 127 0 0 0 8, net4 169 254 0 0 16, net4 172 16 0 0 12, net4 192 0 0 0 24,
    net4 192 0 0 170 31, net4 192 0 2 0 24, net4 192 168 0 0 16, net4 198 18 0 0 15, net4 198 51 100 0 24,
    net4 203 0 113 0 24, net4 240 0 0 0 4, net4 255 255 255 255 32]

def privateExceptions4 : List (ℕ × ℕ) := [net4 192 0 0 9 32, net4 192 0 0 10 32]

/-- `_private_networks` of `_IPv6Constants`. -/
def privateNetworks6 : List (ℕ × ℕ) :=
  [net6 [0, 0, 0, 0, 0, 0, 0, 1] 128, net6 [] 128, net6 [0, 0, 0, 0, 0, 0xffff] 96, net6 [0x64, 0xff9b, 1] 48,
    net6 [0x100] 64, net6 [0x2001] 23, net6 [0x2001, 0xdb8] 32, net6 [0x2002] 16, net6 [0xfc00] 7,
    net6 [0xfe80] 10]

def privateExceptions6 : List (ℕ × ℕ) :=
  [net6 [0x2001, 1, 0, 0, 0, 0, 0, 1] 128, net6 [0x2001, 1, 0, 0, 0, 0, 0, 2] 128, net6 [0x2001, 3] 32,
    net6 [0x2001, 4, 0x112] 48, net6 [0x2001, 0x20] 28, net6 [0x2001, 0x30] 28]

def reservedNetworks6 : List (ℕ × ℕ) :=
  [net6 [] 8, net6 [0x100] 8, net6 [0x200] 7, net6 [0x400] 6, net6 [0x800] 5, net6 [0x1000] 4, net6 [0x4000] 3,
    net6 [0x6000] 3, net6 [0x8000] 3, net6 [0xa000] 3, net6 [0xc000] 3, net6 [0xe000] 4, net6 [0xf000] 5,
    net6 [0xf800] 6, net6 [0xfe00] 9]

/-- `is_private` of an address that is in no IPv4-mapped form. -/
def isPrivate (bits ip : ℕ) (networks exceptions : List (ℕ × ℕ)) : Bool :=
  networks.any (within bits ip) && exceptions.all fun network => !within bits ip network

/-- `is_blocked_ip` of an IPv4 address: multicast, reserved, unspecified or not global. -/
def isBlocked4 (ip : ℕ) : Bool :=
  within 32 ip (net4 224 0 0 0 4) || within 32 ip (net4 240 0 0 0 4) || ip = 0 ||
    !(!within 32 ip (net4 100 64 0 0 10) && !isPrivate 32 ip privateNetworks4 privateExceptions4)

/-- `is_blocked_ip`; an IPv4-mapped address is what it maps. -/
def isBlocked : IpAddress → Bool
  | .v4 ip => isBlocked4 ip.val
  | .v6 ip _ =>
    if ip.val / 2 ^ 32 = 0xffff then isBlocked4 (ip.val % 2 ^ 32)
    else within 128 ip.val (net6 [0xff00] 8) || reservedNetworks6.any (within 128 ip.val) || ip.val = 0 ||
      isPrivate 128 ip.val privateNetworks6 privateExceptions6

end IpAddress

/-! ### `socket.inet_aton` -/

/-- `strtoul` with base 0 on a text that starts with a digit: the value, and what follows. -/
def strtoul : List Char → ℕ × List Char
  | '0' :: x :: c :: rest =>
    if (x = 'x' || x = 'X') && isHexDigit c then
      (ofDigits 16 ((c :: rest).takeWhile isHexDigit), (c :: rest).dropWhile isHexDigit)
    else
      let isOctal := fun c : Char => '0' ≤ c && c ≤ '7'
      (ofDigits 8 ((x :: c :: rest).takeWhile isOctal), (x :: c :: rest).dropWhile isOctal)
  | text =>
    let isDigit := if text.head? = some '0' then fun c : Char => '0' ≤ c && c ≤ '7' else Char.isDigit
    (ofDigits (if text.head? = some '0' then 8 else 10) (text.takeWhile isDigit), text.dropWhile isDigit)

/-- White space of the C locale. -/
def isCSpace (c : Char) : Bool := c = ' ' || ('\t' ≤ c && c ≤ '\r')

/-- The numbers of an address, when `left` more may follow this one. -/
def inetAtonFrom : ℕ → ℕ → List Char → Option ℕ
  | left, acc, text =>
    if !(text.head?.any Char.isDigit) then none
    else match left, (strtoul text).2 with
      | 0, '.' :: _ => none
      | left + 1, '.' :: rest =>
        if 255 < (strtoul text).1 then none else inetAtonFrom left (acc * 256 + (strtoul text).1) rest
      | left, rest =>
        if (rest.isEmpty || rest.head?.any isCSpace) && (strtoul text).1 < 256 ^ (left + 1) then
          some (acc * 256 ^ (left + 1) + (strtoul text).1)
        else none

/-- `socket.inet_aton(host)`; `none` is its `OSError`. -/
def inetAton (host : List Char) : Except Raised (Option ℕ) :=
  if host.contains (Char.ofNat 0) then .error (.error "ValueError" "embedded null character")
  else .ok (inetAtonFrom 3 0 host)

/-! ### `urllib.parse.urlsplit` -/

/-- What a policy reads of a `SplitResult`. -/
structure SplitResult where
  scheme : List Char
  netloc : List Char
deriving DecidableEq

def valueError (text : String) : Raised := .error "ValueError" text

section urls
variable [Py]

/-- `_check_bracketed_host`. -/
def checkBracketedHost (hostname : List Char) : Except Raised Unit :=
  if hostname.head? = some 'v' then
    let digits := hostname.tail.takeWhile isHexDigit
    match hostname.tail.dropWhile isHexDigit with
    | '.' :: _ :: _ =>
      if digits.isEmpty then .error (valueError "IPvFuture address is invalid") else .ok ()
    | _ => .error (valueError "IPvFuture address is invalid")
  else match IpAddress.parse hostname with
    | none => .error (valueError
        (reprStr (String.ofList hostname) ++ " does not appear to be an IPv4 or IPv6 address"))
    | some (.v4 _) => .error (valueError "An IPv4 address cannot be in brackets")
    | some (.v6 _ _) => .ok ()

/-- `_checknetloc`, with `unicodedata.normalize("NFKC", ·)`. -/
def checkNetloc (nfkc : List Char → List Char) (netloc : List Char) : Except Raised Unit :=
  let plain := netloc.filter fun c => c ≠ '@' && c ≠ ':' && c ≠ '#' && c ≠ '?'
  if netloc.all (fun c => c.toNat < 128) || nfkc plain = plain then .ok ()
  else if ['/', '?', '#', '@', ':'].any (nfkc plain).contains then
    .error (valueError ("netloc '" ++ String.ofList netloc ++ "' contains invalid " ++
      "characters under NFKC normalization"))
  else .ok ()

def isSchemeChar (c : Char) : Bool := c.isAlphanum || c = '+' || c = '-' || c = '.'

/-- The scheme of a URL and what follows it. -/
def splitScheme (url : List Char) : List Char × List Char :=
  match partition ':' url with
  | (front, some rest) =>
    if front.head?.any Char.isAlpha && front.all isSchemeChar then (lower front, rest) else ([], url)
  | (_, none) => ([], url)

/-- The brackets of a `netloc` are paired and hold an address. -/
def checkBrackets (netloc : List Char) : Except Raised Unit :=
  if netloc.contains '[' ≠ netloc.contains ']' then .error (valueError "Invalid IPv6 URL")
  else if netloc.contains '[' then
    checkBracketedHost (partition ']' ((partition '[' netloc).2.getD [])).1
  else .ok ()

/-- `urlsplit(url)`. -/
def urlsplit (nfkc : List Char → List Char) (url : List Char) : Except Raised SplitResult :=
  let cleaned := (url.dropWhile fun c => c.toNat ≤ 32).filter fun c => c ≠ '\t' && c ≠ '\r' && c ≠ '\n'
  let (scheme, rest) := splitScheme cleaned
  let netloc := match rest with
    | '/' :: '/' :: rest => rest.takeWhile fun c => c ≠ '/' && c ≠ '?' && c ≠ '#'
    | _ => []
  match checkBrackets netloc with
  | .error e => .error e
  | .ok () => match checkNetloc nfkc netloc with
    | .error e => .error e
    | .ok () => .ok ⟨scheme, netloc⟩

namespace SplitResult
variable (parts : SplitResult)

/-- `username`. -/
def username : Option (List Char) := (rpartition '@' parts.netloc).1.map fun userinfo => (partition ':' userinfo).1

/-- `password`. -/
def password : Option (List Char) := (rpartition '@' parts.netloc).1.bind fun userinfo => (partition ':' userinfo).2

/-- `_hostinfo`. -/
def hostinfo : List Char × List Char :=
  let hostinfo := (rpartition '@' parts.netloc).2
  match partition '[' hostinfo with
  | (_, some bracketed) =>
    let (hostname, port) := partition ']' bracketed
    (hostname, (partition ':' (port.getD [])).2.getD [])
  | (_, none) =>
    let (hostname, port) := partition ':' hostinfo
    (hostname, port.getD [])

/-- `hostname`. -/
def hostname : Option (List Char) :=
  let hostname := parts.hostinfo.1
  if hostname.isEmpty then none
  else match partition '%' hostname with
    | (_, none) => some (lower hostname)
    | (address, some zone) => some (lower address ++ '%' :: zone)

/-- `port`; the outer `none` is its `ValueError`. -/
def port : Option (Option ℕ) :=
  let port := parts.hostinfo.2
  if port.isEmpty then some none
  else if port.all Char.isDigit && ofDigits 10 port ≤ 65535 then some (some (ofDigits 10 port))
  else none

end SplitResult

end urls

end JAgent
