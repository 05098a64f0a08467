import JAgent.Execution.PosixPath

/-! # Directory names of tenants

`safe_tenant_dir_component` keeps a name that needs no cleaning and marks every other one with a digest of the
original.  Its docstring promises that two distinct ids never share a directory.

Two marked names differ in their digests, two kept names in themselves; but a kept name can be the marked
name of another id (`tenant_dirs_distinct_iff`). -/

namespace JAgent

/-- A digit of `hexdigest()`. -/
def isLowerHex (c : Char) : Bool := c.isDigit || ('a' ≤ c && c ≤ 'f')

/-- The first twelve hexadecimal digits of `hashlib.sha256(raw.encode("utf-8"))`. -/
structure ShortDigest where
  digest : List Char → List Char
  length_digest : ∀ raw, (digest raw).length = 12
  hex_digest : ∀ raw, ∀ c ∈ digest raw, isLowerHex c = true

/-- `[A-Za-z0-9_.-]`. -/
def isDirChar (c : Char) : Bool := c.isAlphanum || c = '_' || c = '.' || c = '-'

/-- `value.strip(".")`. -/
def stripDots (value : List Char) : List Char := rstrip '.' (value.dropWhile (· = '.'))

/-- `value or "tenant"`. -/
def orTenant (value : List Char) : List Char := if value.isEmpty then "tenant".toList else value

/-- The value before it is compared with the original. -/
def cleaned (raw : List Char) : List Char :=
  let value := stripDots (raw.map fun c => if isDirChar c then c else '_')
  orTenant (stripDots (orTenant (value.take 64)))

/-- The value with the digest of the original. -/
def marked (hash : ShortDigest) (raw : List Char) : List Char :=
  (cleaned raw).take 48 ++ '_' :: hash.digest raw

/-- `safe_tenant_dir_component`. -/
def safeTenantDirComponent (hash : ShortDigest) (tenantId : List Char) : List Char :=
  if cleaned tenantId ≠ tenantId then marked hash tenantId else cleaned tenantId

/-- The name is a single component of a path, neither `.` nor `..`. -/
def IsComponent (name : List Char) : Prop := components name = [name] ∧ name ≠ parent

/-! ### Every name is a component -/

theorem mem_of_mem_stripDots {value : List Char} {c : Char} (h : c ∈ stripDots value) : c ∈ value := by
  unfold stripDots rstrip at h
  rw [List.mem_reverse] at h
  have hdrop := (List.dropWhile_sublist _).subset h
  rw [List.mem_reverse] at hdrop
  exact (List.dropWhile_sublist _).subset hdrop

theorem mem_of_mem_orTenant {value : List Char} {c : Char} (h : c ∈ orTenant value) :
    c ∈ value ∨ c ∈ "tenant".toList := by
  unfold orTenant at h
  split_ifs at h
  · exact .inr h
  · exact .inl h

theorem isDirChar_of_mem_cleaned {raw : List Char} {c : Char} (h : c ∈ cleaned raw) : isDirChar c = true := by
  have hall : "tenant".toList.all isDirChar = true := rfl
  have htenant := List.all_eq_true.mp hall
  rcases mem_of_mem_orTenant h with h | h
  · rcases mem_of_mem_orTenant (mem_of_mem_stripDots h) with h | h
    · obtain ⟨d, -, rfl⟩ := List.mem_map.mp (mem_of_mem_stripDots (List.mem_of_mem_take h))
      split_ifs with hd
      · exact hd
      · rfl
    · exact htenant c h
  · exact htenant c h

/-- What `strip` leaves does not end with a dot. -/
theorem getLast?_stripDots (value : List Char) : (stripDots value).getLast? ≠ some '.' := by
  unfold stripDots rstrip
  rw [List.getLast?_reverse]
  intro h
  have hfirst := List.head?_dropWhile_not (· == '.') (value.dropWhile (· = '.')).reverse
  rw [h] at hfirst
  exact absurd hfirst (by decide)

theorem getLast?_cleaned (raw : List Char) : (cleaned raw).getLast? ≠ some '.' := by
  have hlast : ∀ value, (orTenant (stripDots value)).getLast? ≠ some '.' := by
    intro value
    unfold orTenant
    split_ifs
    · decide +kernel
    · exact getLast?_stripDots value
  exact hlast _

theorem cleaned_ne_nil (raw : List Char) : cleaned raw ≠ [] := by
  have hsome : ∀ value, orTenant value ≠ [] := by
    intro value
    unfold orTenant
    split_ifs with hempty
    · decide +kernel
    · exact fun h => hempty (by rw [h]; rfl)
  exact hsome _

/-- A text without slashes that is neither empty nor a dot is its own component. -/
theorem components_eq_self {name : List Char} (hslash : '/' ∉ name) (hne : name ≠ []) (hdot : name ≠ ['.']) :
    components name = [name] := by
  unfold components
  rw [List.splitOn_eq_singleton hslash, List.filter_singleton, decide_eq_true hne, decide_eq_true hdot]
  rfl

/-- **Every name is a single component**, neither `.` nor `..`. -/
theorem isComponent_safeTenantDirComponent (hash : ShortDigest) (tenantId : List Char) :
    IsComponent (safeTenantDirComponent hash tenantId) := by
  have hclean : '/' ∉ cleaned tenantId := fun h => absurd (isDirChar_of_mem_cleaned h) (by decide)
  unfold safeTenantDirComponent
  split_ifs with hsame
  · have hmark : '_' ∈ marked hash tenantId := List.mem_append_right _ List.mem_cons_self
    have hslash : '/' ∉ marked hash tenantId := by
      intro h
      rcases List.mem_append.mp h with h | h
      · exact hclean (List.mem_of_mem_take h)
      · rcases List.mem_cons.mp h with h | h
        · exact absurd h (by decide)
        · exact absurd (hash.hex_digest tenantId _ h) (by decide)
    have hother : ∀ name : List Char, '_' ∉ name → marked hash tenantId ≠ name := by
      rintro name hname rfl
      exact hname hmark
    exact ⟨components_eq_self hslash (hother _ (by decide)) (hother _ (by decide)), hother _ (by decide)⟩
  · have hother : ∀ name : List Char, name.getLast? = some '.' → cleaned tenantId ≠ name := by
      rintro name hname rfl
      exact getLast?_cleaned tenantId hname
    exact ⟨components_eq_self hclean (cleaned_ne_nil _) (hother _ (by decide)), hother _ (by decide)⟩

/-! ### Which ids share a name -/

theorem safeTenantDirComponent_kept (hash : ShortDigest) {a : List Char} (h : cleaned a = a) :
    safeTenantDirComponent hash a = a := by
  unfold safeTenantDirComponent
  rw [if_neg (not_not.mpr h), h]

theorem safeTenantDirComponent_changed (hash : ShortDigest) {a : List Char} (h : cleaned a ≠ a) :
    safeTenantDirComponent hash a = marked hash a := by
  unfold safeTenantDirComponent
  rw [if_pos h]

/-- Two names with different digests of one length differ. -/
theorem marked_ne {hash : ShortDigest} {a b : List Char} (h : hash.digest a ≠ hash.digest b) :
    marked hash a ≠ marked hash b := by
  intro heq
  have hlength : ('_' :: hash.digest a).length = ('_' :: hash.digest b).length := by
    rw [List.length_cons, List.length_cons, hash.length_digest, hash.length_digest]
  exact h (List.cons.inj (List.append_inj' heq hlength).2).2

/-- The first id is kept and is the marked name of the second, which is changed. -/
def Collides (hash : ShortDigest) (a b : List Char) : Prop :=
  cleaned a = a ∧ cleaned b ≠ b ∧ a = (cleaned b).take 48 ++ '_' :: hash.digest b

/-- **When tenants' directories are apart**: for two ids with different digests, exactly when neither of them
is the marked name of the other.  Either way each name is a component. -/
theorem tenant_dirs_distinct_iff (hash : ShortDigest) {a b : List Char} (hne : a ≠ b)
    (hdigest : hash.digest a ≠ hash.digest b) :
    (safeTenantDirComponent hash a ≠ safeTenantDirComponent hash b ∧
        IsComponent (safeTenantDirComponent hash a) ∧ IsComponent (safeTenantDirComponent hash b)) ↔
      ¬Collides hash a b ∧ ¬Collides hash b a := by
  have hcomponents :=
    And.intro (isComponent_safeTenantDirComponent hash a) (isComponent_safeTenantDirComponent hash b)
  rw [and_iff_left hcomponents]
  by_cases ha : cleaned a = a
  · rw [safeTenantDirComponent_kept hash ha]
    by_cases hb : cleaned b = b
    · rw [safeTenantDirComponent_kept hash hb]
      exact ⟨fun _ => ⟨fun h => h.2.1 hb, fun h => h.2.1 ha⟩, fun _ => hne⟩
    · rw [safeTenantDirComponent_changed hash hb]
      exact ⟨fun h => ⟨fun hc => h hc.2.2, fun hc => hb hc.1⟩, fun h heq => h.1 ⟨ha, hb, heq⟩⟩
  · rw [safeTenantDirComponent_changed hash ha]
    by_cases hb : cleaned b = b
    · rw [safeTenantDirComponent_kept hash hb]
      exact ⟨fun h => ⟨fun hc => ha hc.1, fun hc => h hc.2.2.symm⟩, fun h heq => h.2 ⟨hb, ha, heq.symm⟩⟩
    · rw [safeTenantDirComponent_changed hash hb]
      exact ⟨fun _ => ⟨fun h => ha h.1, fun h => hb h.1⟩, fun _ => marked_ne hdigest⟩

/-- The digests of `a b`, of its marked name and of `acme` as SHA-256 gives them. -/
def sampleDigest : ShortDigest where
  digest raw := if raw = "a b".toList then "c8687a08aa5d".toList else
    if raw = "a_b_c8687a08aa5d".toList then "1c3e855468e3".toList else "822b33ad87c1".toList
  length_digest raw := by split_ifs <;> rfl
  hex_digest raw := by split_ifs <;> exact List.all_eq_true.mp rfl

/-- A kept id and a changed one, apart. -/
theorem acme_apart_from_spaced :
    safeTenantDirComponent sampleDigest "acme".toList ≠ safeTenantDirComponent sampleDigest "a b".toList ∧
      IsComponent (safeTenantDirComponent sampleDigest "acme".toList) ∧
      IsComponent (safeTenantDirComponent sampleDigest "a b".toList) :=
  (tenant_dirs_distinct_iff sampleDigest (by decide +kernel) (by decide +kernel)).mpr
    ⟨fun h => absurd h.2.2 (by decide +kernel), fun h => absurd h.1 (by decide +kernel)⟩

/-- **Two ids with one directory**: a valid id is the marked name of another. -/
theorem marked_name_taken :
    "a_b_c8687a08aa5d".toList ≠ "a b".toList ∧
      sampleDigest.digest "a_b_c8687a08aa5d".toList ≠ sampleDigest.digest "a b".toList ∧
      safeTenantDirComponent sampleDigest "a_b_c8687a08aa5d".toList =
        safeTenantDirComponent sampleDigest "a b".toList := by
  refine ⟨by decide +kernel, by decide +kernel, by decide +kernel⟩

end JAgent
