import JAgent.Json

/-! # Validated models

The validation library as the payload classes use it.  An annotation is a `Codec`: the values of the
annotated type, how `model_dump(mode="json")` writes one and how validation reads one, with the round
trip carried along.  A class body is a `Schema`: its fields in order, each with an annotation and
perhaps a default.

A validator takes a value of its own type as it is.  What it makes of a value of another type (the
lax conversions) is a parameter, `Lax`; strings, literals and enumerations have none. -/

namespace JAgent

/-- The lax conversions of the validation library. -/
class Lax where
  toBool : Value → Option Bool
  toInt : Value → Option ℤ
  toFloat : Value → Option Dyadic

/-- An annotation: its values, how they are dumped and how they are validated. -/
structure Codec where
  Carrier : Type
  dump : Carrier → Value
  validate : Value → Option Carrier
  distinct_dump : ∀ x, (dump x).distinct = true
  validate_dump : ∀ x, validate (dump x) = some x

namespace Codec

/-! ### Scalars -/

def validateStr : Value → Option String
  | .str s => some s
  | _ => none

/-- `str`. -/
def str : Codec where
  Carrier := String
  dump := .str
  validate := validateStr
  distinct_dump _ := by simp [Value.distinct]
  validate_dump _ := rfl

def validateBool [Lax] : Value → Option Bool
  | .bool b => some b
  | v => Lax.toBool v

/-- `bool`. -/
def bool [Lax] : Codec where
  Carrier := Bool
  dump := .bool
  validate := validateBool
  distinct_dump _ := by simp [Value.distinct]
  validate_dump _ := rfl

def validateInt [Lax] : Value → Option ℤ
  | .int n => some n
  | v => Lax.toInt v

/-- `int`. -/
def int [Lax] : Codec where
  Carrier := ℤ
  dump := .int
  validate := validateInt
  distinct_dump _ := by simp [Value.distinct]
  validate_dump _ := rfl

def validateFloat [Lax] : Value → Option Dyadic
  | .float d => some d
  | v => Lax.toFloat v

/-- `float`. -/
def float [Lax] : Codec where
  Carrier := Dyadic
  dump := .float
  validate := validateFloat
  distinct_dump _ := by simp [Value.distinct]
  validate_dump _ := rfl

/-- `Any`, for a field that holds a JSON value. -/
def any : Codec where
  Carrier := { v : Value // v.distinct = true }
  dump v := v.1
  validate v := if h : v.distinct = true then some ⟨v, h⟩ else none
  distinct_dump v := v.2
  validate_dump v := dif_pos v.2

/-- `Literal[…]` over strings. -/
def literal (options : List String) : Codec where
  Carrier := { s : String // s ∈ options }
  dump s := .str s.1
  validate v := (validateStr v).bind fun s => if h : s ∈ options then some ⟨s, h⟩ else none
  distinct_dump _ := by simp [Value.distinct]
  validate_dump s := by simp [validateStr, s.2]

/-- A `str` enumeration, by the value of each member. -/
def enum {α : Type} (value : α → String) (ofValue : String → Option α)
    (h : ∀ a, ofValue (value a) = some a) : Codec where
  Carrier := α
  dump a := .str (value a)
  validate v := (validateStr v).bind ofValue
  distinct_dump _ := by simp [Value.distinct]
  validate_dump a := by simp [validateStr, h]

/-! ### Containers -/

section
variable (c : Codec)

def dumpOption : Option c.Carrier → Value
  | none => .null
  | some x => c.dump x

/-- `T | None`. -/
def optional (h : ∀ x, c.dump x ≠ .null) : Codec where
  Carrier := Option c.Carrier
  dump := c.dumpOption
  validate v := if v = .null then some none else (c.validate v).map some
  distinct_dump x := by
    cases x with
    | none => simp [dumpOption, Value.distinct]
    | some x => exact c.distinct_dump x
  validate_dump x := by
    cases x with
    | none => rfl
    | some x => simp [dumpOption, h, c.validate_dump]

def validateList : List Value → Option (List c.Carrier)
  | [] => some []
  | v :: vs => (c.validate v).bind fun x => (validateList vs).map (x :: ·)

def validateArr : Value → Option (List c.Carrier)
  | .arr vs => c.validateList vs
  | _ => none

theorem validateList_dump (xs : List c.Carrier) : c.validateList (xs.map c.dump) = some xs := by
  induction xs with
  | nil => rfl
  | cons x xs ih => simp [validateList, c.validate_dump, ih]

/-- `list[T]`. -/
def list : Codec where
  Carrier := List c.Carrier
  dump xs := .arr (xs.map c.dump)
  validate := c.validateArr
  distinct_dump xs := by
    rw [Value.distinct_arr, Value.distinctList_iff]
    intro v hv
    obtain ⟨x, -, rfl⟩ := List.mem_map.mp hv
    exact c.distinct_dump x
  validate_dump := c.validateList_dump

def validateEntries : Obj → Option (List (String × c.Carrier))
  | [] => some []
  | (k, v) :: o => (c.validate v).bind fun x => (validateEntries o).map ((k, x) :: ·)

def validateDict : Value → Option (Lib.Dict String c.Carrier)
  | .obj o => (c.validateEntries o).map Lib.Dict.ofPairs
  | _ => none

/-- The entries of a `dict`, dumped. -/
def dumpEntries (d : Lib.Dict String c.Carrier) : Obj := d.items.map fun p => (p.1, c.dump p.2)

theorem validateEntries_dump (kvs : List (String × c.Carrier)) :
    c.validateEntries (kvs.map fun p => (p.1, c.dump p.2)) = some kvs := by
  induction kvs with
  | nil => rfl
  | cons p kvs ih => simp [validateEntries, c.validate_dump, ih]

/-- A `dict` is rebuilt from its entries. -/
theorem ofPairs_items (d : Lib.Dict String c.Carrier) : Lib.Dict.ofPairs d.items = d := by
  have h := Lib.Dict.items_ofPairs d.nodup
  cases d with
  | mk items nodup =>
      cases hd : Lib.Dict.ofPairs items with
      | mk items' nodup' =>
          rw [hd] at h
          subst h
          rfl

theorem map_fst_dumpEntries (d : Lib.Dict String c.Carrier) :
    (c.dumpEntries d).map Prod.fst = d.keys := by
  simp [dumpEntries, Lib.Dict.keys]

/-- `dict[str, T]`. -/
def dict : Codec where
  Carrier := Lib.Dict String c.Carrier
  dump d := .obj (c.dumpEntries d)
  validate := c.validateDict
  distinct_dump d := by
    rw [Value.distinct_obj, Bool.and_eq_true, decide_eq_true_eq, map_fst_dumpEntries,
      Value.distinctObj_iff]
    refine ⟨d.nodup, fun p hp => ?_⟩
    obtain ⟨q, -, rfl⟩ := List.mem_map.mp hp
    exact c.distinct_dump q.2
  validate_dump d := by
    show (c.validateEntries (c.dumpEntries d)).map Lib.Dict.ofPairs = some d
    rw [dumpEntries, validateEntries_dump, Option.map_some, Option.some.injEq]
    exact c.ofPairs_items d

end

def validatePair (c d : Codec) : Value → Option (c.Carrier × d.Carrier)
  | .arr [v, w] => (c.validate v).bind fun x => (d.validate w).map fun y => (x, y)
  | _ => none

/-- `tuple[S, T]`: dumped as an array of two. -/
def pair (c d : Codec) : Codec where
  Carrier := c.Carrier × d.Carrier
  dump p := .arr [c.dump p.1, d.dump p.2]
  validate := validatePair c d
  distinct_dump p := by
    simp [Value.distinctList, c.distinct_dump, d.distinct_dump]
  validate_dump p := by
    simp [validatePair, c.validate_dump, d.validate_dump]

/-- A class whose `model_validator(mode="after")` is `post`: its instances are what `post` leaves as
they are. -/
def after (c : Codec) (post : c.Carrier → c.Carrier) (h : ∀ x, post (post x) = post x) : Codec where
  Carrier := { x : c.Carrier // post x = x }
  dump x := c.dump x.1
  validate v := (c.validate v).map fun x => ⟨post x, h x⟩
  distinct_dump x := c.distinct_dump x.1
  validate_dump x := by
    rw [c.validate_dump, Option.map_some, Option.some.injEq]
    exact Subtype.ext x.2

end Codec

/-! ### Class bodies -/

/-- The fields of a class, in order. -/
structure Schema where
  Carrier : Type
  names : List String
  dump : Carrier → Obj
  /-- The instance, from what the input has under each name. -/
  read : (String → Option Value) → Option Carrier
  keys_dump : ∀ x, (dump x).map Prod.fst = names
  distinct_dump : ∀ x, ∀ p ∈ dump x, p.2.distinct = true
  read_dump : ∀ x get, (∀ p ∈ dump x, get p.1 = some p.2) → read get = some x

namespace Schema

/-- No field. -/
def nil : Schema where
  Carrier := Unit
  names := []
  dump _ := []
  read _ := some ()
  keys_dump _ := rfl
  distinct_dump _ p hp := by simp at hp
  read_dump _ _ _ := rfl

/-- What a field takes from the input: the validated value, or the default when there is none. -/
def readField (name : String) (c : Codec) (default : Option c.Carrier) (get : String → Option Value) :
    Option c.Carrier :=
  match get name with
  | some v => c.validate v
  | none => default

/-- One more field. -/
def cons (name : String) (c : Codec) (default : Option c.Carrier) (s : Schema) : Schema where
  Carrier := c.Carrier × s.Carrier
  names := name :: s.names
  dump x := (name, c.dump x.1) :: s.dump x.2
  read get := (readField name c default get).bind fun x => (s.read get).map fun y => (x, y)
  keys_dump x := by simp [s.keys_dump]
  distinct_dump x p hp := by
    rcases List.mem_cons.mp hp with rfl | hp
    · exact c.distinct_dump x.1
    · exact s.distinct_dump x.2 p hp
  read_dump x get hget := by
    have hfield : get name = some (c.dump x.1) := hget (name, c.dump x.1) List.mem_cons_self
    have hrest := s.read_dump x.2 get fun p hp => hget p (List.mem_cons_of_mem _ hp)
    simp [readField, hfield, c.validate_dump, hrest]

/-- A field without a default. -/
def required (name : String) (c : Codec) (s : Schema) : Schema := cons name c none s

/-- A field with a default. -/
def field (name : String) (c : Codec) (default : c.Carrier) (s : Schema) : Schema :=
  cons name c (some default) s

end Schema

namespace Codec

def validateModel (forbid : Bool) (s : Schema) : Value → Option s.Carrier
  | .obj o => if forbid && o.any (fun p => !s.names.contains p.1) then none else s.read (Obj.get? o)
  | _ => none

/-- A dumped instance has each field under its name. -/
theorem get?_dump {s : Schema} (hs : s.names.Nodup) (x : s.Carrier) {p : String × Value}
    (hp : p ∈ s.dump x) : Obj.get? (s.dump x) p.1 = some p.2 := by
  apply Lib.assoc_of_mem_nodup _ hp
  rw [s.keys_dump]
  exact hs

/-- A class; `forbid` is `extra="forbid"`, without it unknown keys are ignored. -/
def model (forbid : Bool) (s : Schema) (hs : s.names.Nodup) : Codec where
  Carrier := s.Carrier
  dump x := .obj (s.dump x)
  validate := validateModel forbid s
  distinct_dump x := by
    rw [Value.distinct_obj, Bool.and_eq_true, decide_eq_true_eq, s.keys_dump, Value.distinctObj_iff]
    exact ⟨hs, s.distinct_dump x⟩
  validate_dump x := by
    have hkeys : (s.dump x).any (fun p => !s.names.contains p.1) = false := by
      rw [List.any_eq_false]
      intro p hp
      have hmem : p.1 ∈ s.names := by
        rw [← s.keys_dump x]
        exact List.mem_map_of_mem hp
      simp [hmem]
    show (if forbid && (s.dump x).any (fun p => !s.names.contains p.1) then none
      else s.read (Obj.get? (s.dump x))) = some x
    rw [hkeys, Bool.and_false, if_neg (by simp)]
    exact s.read_dump x _ fun p hp => get?_dump hs x hp

end Codec

end JAgent
