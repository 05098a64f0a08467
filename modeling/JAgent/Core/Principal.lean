import Mathlib
import JAgent.Core.Tenant
import JAgent.Lib.Pattern

/-! # Identities

The roles with their order, the principal of a request, and the syntax of tenant ids.  A valid id needs no
cleaning, so it is the name of its own directory (`safeTenantDirComponent_of_tenantId`): the directories of two
valid ids differ whatever the digest does. -/

namespace JAgent
open Lib

/-- `Role`. -/
inductive Role where
  | viewer | operator | admin
deriving DecidableEq

/-- The value of the enumeration. -/
def Role.value : Role → String
  | .viewer => "viewer"
  | .operator => "operator"
  | .admin => "admin"

/-- `Role(text)`; `none` when it raises. -/
def Role.ofValue (text : String) : Option Role := [Role.viewer, .operator, .admin].find? (·.value = text)

/-- `_ROLE_LEVEL`. -/
def Role.level : Role → ℕ
  | .viewer => 1
  | .operator => 2
  | .admin => 3

/-- `auth_method`. -/
inductive AuthMethod where
  | jwt | gateway | test
deriving DecidableEq

/-- `Principal`. -/
structure Principal where
  subject : String
  tenantId : String
  roles : Finset Role
  authMethod : AuthMethod := .jwt
  issuer : Option String := none
  jwtId : Option String := none
  expiresAt : Option ℤ := none
deriving DecidableEq

/-- `has_role`. -/
def Principal.hasRole (p : Principal) (required : Role) : Bool :=
  if p.roles = ∅ then false else decide (required.level ≤ p.roles.sup Role.level)

/-- A principal has a role iff one of its own is as high. -/
theorem Principal.hasRole_iff {p : Principal} {required : Role} :
    p.hasRole required = true ↔ ∃ r ∈ p.roles, required.level ≤ r.level := by
  have hpos : 0 < required.level := by cases required <;> decide
  rw [Principal.hasRole]
  split_ifs with hempty
  · simp [hempty]
  · rw [decide_eq_true_iff, Finset.le_sup_iff (by simpa using hpos)]

/-- Who has a role has every lower one. -/
theorem Principal.hasRole_of_le {p : Principal} {low high : Role} (hle : low.level ≤ high.level)
    (h : p.hasRole high = true) : p.hasRole low = true := by
  obtain ⟨r, hr, hlevel⟩ := Principal.hasRole_iff.mp h
  exact Principal.hasRole_iff.mpr ⟨r, hr, le_trans hle hlevel⟩

/-! ### Tenant ids -/

/-- `TENANT_ID_RE`: `[A-Za-z0-9](?:[A-Za-z0-9_.-]{0,62}[A-Za-z0-9])?`. -/
def tenantIdRe : Pattern Char :=
  .seq (.one Char.isAlphanum)
    (.either .empty (.seq (.atMost isDirChar 62) (.one Char.isAlphanum)))

/-- `TENANT_ID_RE.fullmatch(tenant_id)`. -/
def isTenantId (tenantId : List Char) : Bool := tenantIdRe.accepts tenantId

theorem isDirChar_of_isAlphanum {c : Char} (h : c.isAlphanum = true) : isDirChar c = true := by
  simp [isDirChar, h]

/-- A valid id has at most sixty-four characters of a directory name, the first and the last of them
alphanumeric. -/
theorem tenantId_shape {tenantId : List Char} (h : isTenantId tenantId = true) :
    tenantId.length ≤ 64 ∧ (∀ c ∈ tenantId, isDirChar c = true) ∧
      (∃ c, tenantId.head? = some c ∧ c.isAlphanum = true) ∧ ∃ c, tenantId.getLast? = some c ∧ c.isAlphanum = true := by
  have hspells := (Pattern.accepts_iff tenantIdRe tenantId).mp h
  obtain ⟨front, back, rfl, hfront, hback⟩ := Pattern.spells_seq.mp hspells
  obtain ⟨c, hc, rfl⟩ := Pattern.spells_one.mp hfront
  have hcdir := isDirChar_of_isAlphanum hc
  obtain hback | hback := Pattern.spells_either.mp hback
  · rw [Pattern.spells_empty.mp hback, List.append_nil]
    exact ⟨by simp, List.forall_mem_singleton.mpr hcdir, ⟨c, rfl, hc⟩, ⟨c, rfl, hc⟩⟩
  · obtain ⟨mid, last, rfl, hmid, hlast⟩ := Pattern.spells_seq.mp hback
    obtain ⟨d, hd, rfl⟩ := Pattern.spells_one.mp hlast
    obtain ⟨hlength, hall⟩ := Pattern.spells_atMost.mp hmid
    refine ⟨?_, ?_, ⟨c, rfl, hc⟩, ⟨d, ?_, hd⟩⟩
    · simp only [List.length_append, List.length_singleton]
      omega
    · intro e he
      rw [List.singleton_append, List.mem_cons, List.mem_append, List.mem_singleton] at he
      obtain rfl | he | rfl := he
      · exact hcdir
      · exact hall e he
      · exact isDirChar_of_isAlphanum hd
    · rw [← List.append_assoc, List.getLast?_concat]

/-- Nothing is stripped from a text whose ends are no dots. -/
theorem stripDots_eq_self {value : List Char} (hhead : value.head? ≠ some '.') (hlast : value.getLast? ≠ some '.') :
    stripDots value = value := by
  have hkeep : ∀ l : List Char, l.head? ≠ some '.' → l.dropWhile (· = '.') = l := by
    intro l hl
    cases l with
    | nil => rfl
    | cons c rest =>
        apply List.dropWhile_cons_of_neg
        intro hc
        apply hl
        rw [of_decide_eq_true hc]
        rfl
  have hrev : value.reverse.dropWhile (· == '.') = value.reverse := hkeep value.reverse (by rwa [List.head?_reverse])
  rw [stripDots, hkeep value hhead, rstrip, hrev, List.reverse_reverse]

/-- **A valid id is the name of its directory.** -/
theorem safeTenantDirComponent_of_tenantId (hash : ShortDigest) {tenantId : List Char}
    (h : isTenantId tenantId = true) : safeTenantDirComponent hash tenantId = tenantId := by
  obtain ⟨hlength, hdir, ⟨c, hhead, hc⟩, ⟨d, hlast, hd⟩⟩ := tenantId_shape h
  have hdot : ∀ e : Char, e.isAlphanum = true → some e ≠ some '.' := by
    intro e he heq
    rw [Option.some.inj heq] at he
    exact absurd he (by decide)
  have hmap : (tenantId.map fun c => if isDirChar c then c else '_') = tenantId := by
    have hid : tenantId.map (fun c => if isDirChar c then c else '_') = tenantId.map id :=
      List.map_congr_left fun e he => if_pos (hdir e he)
    rw [hid, List.map_id]
  have hstrip : stripDots tenantId = tenantId :=
    stripDots_eq_self (by rw [hhead]; exact hdot c hc) (by rw [hlast]; exact hdot d hd)
  have hor : orTenant tenantId = tenantId := by
    rw [orTenant, if_neg]
    intro hempty
    rw [List.isEmpty_iff.mp hempty] at hhead
    exact absurd hhead (by simp)
  apply safeTenantDirComponent_kept hash
  rw [cleaned, hmap, hstrip, List.take_of_length_le hlength, hor, hstrip, hor]

end JAgent
