import JAgent.Json
import Mathlib.Data.List.TakeWhile

/-! # JSON text is read back

The round trip of the JSON encoder and decoder (`jsonLoads_dumps`): the text `json.dumps` writes
for a value whose objects have distinct keys is read back as that value, escaped or not.  Of the
decimal forms it needs that each one is a number literal with a fraction or an exponent and denotes
the number it was written for (`FloatReadable`).

The proof goes up from characters over string literals and numbers to values; the scanners of
values, elements and members are taken together, by induction on the value. -/

namespace JAgent

/-! ### Reading back a string literal -/

theorem hexValue_digitChar : ∀ d, d < 16 → hexValue (Nat.digitChar d) = some d := by decide

/-- The digits `hexDigits` writes are the ones `scanHex` reads, whatever was read before. -/
theorem scanHex_hexDigits (j k acc n : ℕ) (rest : List Char) :
    scanHex (j + k) acc (hexDigits j n ++ rest) = scanHex k (acc * 16 ^ j + n % 16 ^ j) rest := by
  induction j generalizing k n rest with
  | zero => simp [hexDigits, Nat.mod_one]
  | succ j ih =>
      have hd := hexValue_digitChar (n % 16) (Nat.mod_lt _ (by decide))
      have hstep : (acc * 16 ^ j + n / 16 % 16 ^ j) * 16 + n % 16 =
          acc * 16 ^ (j + 1) + n % 16 ^ (j + 1) := by
        have hmod : n % 16 ^ (j + 1) = n % 16 + 16 * (n / 16 % 16 ^ j) := by
          rw [Nat.pow_succ', Nat.mod_mul]
        rw [hmod, Nat.pow_succ]
        ring
      rw [show j + 1 + k = j + (k + 1) by omega]
      simp only [hexDigits, List.append_assoc, List.cons_append, List.nil_append]
      rw [ih, scanHex, hd, Option.bind_some, hstep]

theorem scanHex_four {n : ℕ} (hn : n < 65536) (rest : List Char) :
    scanHex 4 0 (hexDigits 4 n ++ rest) = some (n, rest) := by
  have h := scanHex_hexDigits 4 0 0 n rest
  have hmod : n % 16 ^ 4 = n := Nat.mod_eq_of_lt (by omega)
  rw [hmod, Nat.zero_mul, Nat.zero_add] at h
  exact h

theorem chr_toNat (c : Char) : chr c.toNat = some c := by
  have hv : c.toNat.isValidChar := c.valid
  simp [chr, hv, Char.ofNat_toNat]

/-- No character is a surrogate. -/
theorem toNat_not_surrogate (c : Char) : c.toNat < 0xd800 ∨ 0xdfff < c.toNat := by
  have hv : c.toNat.isValidChar := c.valid
  rcases hv with h | h
  · exact Or.inl h
  · exact Or.inr h.1

theorem toNat_lt (c : Char) : c.toNat < 0x110000 := by
  have hv : c.toNat.isValidChar := c.valid
  rcases hv with h | h
  · omega
  · exact h.2

theorem scanUnicode_hexDigits {c : Char} (hc : c.toNat < 65536) (rest : List Char) :
    scanUnicode (hexDigits 4 c.toNat ++ rest) = some (c, rest) := by
  have hs := toNat_not_surrogate c
  have hn : ¬(0xd800 ≤ c.toNat ∧ c.toNat ≤ 0xdbff) := by omega
  rw [scanUnicode, scanHex_four hc, Option.bind_some]
  show (if 0xd800 ≤ c.toNat ∧ c.toNat ≤ 0xdbff then _ else _) = _
  rw [if_neg hn, chr_toNat, Option.map_some]

/-- A surrogate pair is read as the character it stands for. -/
theorem scanUnicode_pair {c : Char} (hc : 65536 ≤ c.toNat) (rest : List Char) :
    scanUnicode (hexDigits 4 (55296 + (c.toNat - 65536) / 1024) ++
      '\\' :: 'u' :: hexDigits 4 (56320 + (c.toNat - 65536) % 1024) ++ rest) = some (c, rest) := by
  have hlt := toNat_lt c
  generalize hh : 55296 + (c.toNat - 65536) / 1024 = high
  generalize hl : 56320 + (c.toNat - 65536) % 1024 = low
  have hhigh : 0xd800 ≤ high ∧ high ≤ 0xdbff := by omega
  have hlow : 0xdc00 ≤ low ∧ low ≤ 0xdfff := by omega
  have hsum : 0x10000 + (high - 0xd800) * 1024 + (low - 0xdc00) = c.toNat := by omega
  rw [scanUnicode, List.append_assoc, scanHex_four (by omega), Option.bind_some]
  show (if 0xd800 ≤ high ∧ high ≤ 0xdbff then _ else _) = _
  rw [if_pos hhigh, List.cons_append, expect_cons_self, Option.bind_some, List.cons_append,
    expect_cons_self, Option.bind_some, scanHex_four (by omega), Option.bind_some]
  show (if 0xdc00 ≤ low ∧ low ≤ 0xdfff then _ else _) = _
  rw [if_pos hlow, hsum, chr_toNat, Option.map_some]

/-- A character is written as itself, or as an escape that is read back. -/
theorem dumpChar_cases (ascii : Bool) (c : Char) :
    (dumpChar ascii c = [c] ∧ c ≠ '\\' ∧ c.toNat ≠ 34 ∧ ¬c.toNat < 32) ∨
      ∃ e, dumpChar ascii c = '\\' :: e ∧ ∀ rest, scanEscape (e ++ rest) = some (c, rest) := by
  unfold dumpChar
  by_cases h1 : (decide (c = '\\') || decide (c.toNat = 34)) = true
  · rw [if_pos h1]
    refine Or.inr ⟨[c], rfl, fun rest => ?_⟩
    simp only [Bool.or_eq_true, decide_eq_true_eq] at h1
    rcases h1 with rfl | h34
    · simp [scanEscape]
    · have hu : c ≠ 'u' := by
        rintro rfl
        simp at h34
      simp [scanEscape, hu, h34]
  rw [if_neg h1]
  by_cases h2 : c = '\n'
  · rw [if_pos h2]
    exact Or.inr ⟨['n'], rfl, fun rest => by simp [scanEscape, h2]⟩
  rw [if_neg h2]
  by_cases h3 : c = '\r'
  · rw [if_pos h3]
    exact Or.inr ⟨['r'], rfl, fun rest => by simp [scanEscape, h3]⟩
  rw [if_neg h3]
  by_cases h4 : c = '\t'
  · rw [if_pos h4]
    exact Or.inr ⟨['t'], rfl, fun rest => by simp [scanEscape, h4]⟩
  rw [if_neg h4]
  by_cases h5 : c.toNat = 8
  · rw [if_pos h5]
    have hc : c = Char.ofNat 8 := by rw [← h5, Char.ofNat_toNat]
    exact Or.inr ⟨['b'], rfl, fun rest => by simp [scanEscape, hc]⟩
  rw [if_neg h5]
  by_cases h6 : c.toNat = 12
  · rw [if_pos h6]
    have hc : c = Char.ofNat 12 := by rw [← h6, Char.ofNat_toNat]
    exact Or.inr ⟨['f'], rfl, fun rest => by simp [scanEscape, hc]⟩
  rw [if_neg h6]
  by_cases h7 : c.toNat < 32
  · rw [if_pos h7]
    exact Or.inr ⟨'u' :: hexDigits 4 c.toNat, rfl, scanUnicode_hexDigits (by omega)⟩
  rw [if_neg h7]
  by_cases h8 : (!ascii || decide (c.toNat < 127)) = true
  · rw [if_pos h8]
    simp only [Bool.or_eq_true, decide_eq_true_eq, not_or] at h1
    exact Or.inl ⟨rfl, h1.1, h1.2, h7⟩
  rw [if_neg h8]
  by_cases h9 : c.toNat < 65536
  · rw [if_pos h9]
    exact Or.inr ⟨'u' :: hexDigits 4 c.toNat, rfl, scanUnicode_hexDigits h9⟩
  rw [if_neg h9]
  refine Or.inr ⟨_, rfl, fun rest => ?_⟩
  exact scanUnicode_pair (by omega) rest

/-- **One written character is read back.** -/
theorem scanChar_dumpChar (ascii : Bool) (c : Char) (rest : List Char) :
    scanChar (dumpChar ascii c ++ rest) = some (c, rest) := by
  obtain ⟨hc, hb, -, h32⟩ | ⟨e, hc, he⟩ := dumpChar_cases ascii c
  · rw [hc, List.singleton_append, scanChar, if_neg hb, if_neg h32]
  · rw [hc, List.cons_append, scanChar, if_pos rfl, he]

/-- A written character does not look like the closing quote. -/
theorem expect_quote_dumpChar (ascii : Bool) (c : Char) (rest : List Char) :
    expect (Char.ofNat 34) (dumpChar ascii c ++ rest) = none := by
  obtain ⟨hc, -, h34, -⟩ | ⟨e, hc, -⟩ := dumpChar_cases ascii c
  · rw [hc]
    apply expect_cons_ne
    rintro rfl
    exact h34 rfl
  · rw [hc]
    exact expect_cons_ne (by decide) _

theorem dumpChar_ne_nil (ascii : Bool) (c : Char) : dumpChar ascii c ≠ [] := by
  obtain ⟨hc, -⟩ | ⟨e, hc, -⟩ := dumpChar_cases ascii c
  all_goals
    rw [hc]
    exact List.cons_ne_nil _ _

theorem length_le_dumpChars (ascii : Bool) (s : List Char) :
    s.length ≤ (s.flatMap (dumpChar ascii)).length := by
  induction s with
  | nil => simp
  | cons c s ih =>
      have hc := List.length_pos_of_ne_nil (dumpChar_ne_nil ascii c)
      simp only [List.flatMap_cons, List.length_append, List.length_cons]
      omega

/-- **A written string literal is read back.** -/
theorem scanString_dumpChars (ascii : Bool) (s : List Char) (n : ℕ) (hn : s.length < n)
    (rest : List Char) :
    scanString n (s.flatMap (dumpChar ascii) ++ Char.ofNat 34 :: rest) = some (s, rest) := by
  induction s generalizing n with
  | nil =>
      obtain ⟨m, rfl⟩ := Nat.exists_eq_succ_of_ne_zero (by omega : n ≠ 0)
      simp [scanString]
  | cons c s ih =>
      obtain ⟨m, rfl⟩ := Nat.exists_eq_succ_of_ne_zero (by omega : n ≠ 0)
      have hs := ih m (by simpa using hn)
      simp only [List.flatMap_cons, List.append_assoc, scanString, expect_quote_dumpChar,
        scanChar_dumpChar, Option.bind_some, hs, Option.map_some]

theorem toList_dumpStr (ascii : Bool) (s : String) :
    (dumpStr ascii s).toList = Char.ofNat 34 :: s.toList.flatMap (dumpChar ascii) ++ [Char.ofNat 34] := by
  simp [dumpStr]

/-- The literal of `s`, its opening quote read. -/
theorem scanString_dumpStr (ascii : Bool) (s : String) (rest : List Char) :
    let cs := s.toList.flatMap (dumpChar ascii) ++ Char.ofNat 34 :: rest
    scanString cs.length cs = some (s.toList, rest) := by
  intro cs
  have hlen := length_le_dumpChars ascii s.toList
  have hfuel : s.toList.length < cs.length := by
    simp only [cs, List.length_append, List.length_cons]
    omega
  exact scanString_dumpChars ascii s.toList _ hfuel rest

/-! ### Reading back a number -/

/-- What follows a value inside another one, or nothing. -/
def Stops (rest : List Char) : Prop :=
  ∀ c cs, rest = c :: cs → c = ',' ∨ c = ']' ∨ c = '\x7d'

theorem stops_nil : Stops [] := by
  intro c cs h
  cases h

theorem stops_comma (rest : List Char) : Stops (',' :: rest) := by
  intro c cs h
  cases h
  exact Or.inl rfl

theorem stops_bracket (rest : List Char) : Stops (']' :: rest) := by
  intro c cs h
  cases h
  exact Or.inr (Or.inl rfl)

theorem stops_brace (rest : List Char) : Stops ('\x7d' :: rest) := by
  intro c cs h
  cases h
  exact Or.inr (Or.inr rfl)

/-- Digits end where a value ends. -/
theorem spanDigits_append (cs : List Char) {rest : List Char} (hr : Stops rest) :
    spanDigits (cs ++ rest) = ((spanDigits cs).1, (spanDigits cs).2 ++ rest) := by
  induction cs with
  | nil =>
      cases rest with
      | nil => rfl
      | cons c cs =>
          have hc : c.isDigit = false := by
            rcases hr c cs rfl with rfl | rfl | rfl <;> decide
          simp [spanDigits, hc]
  | cons d ds ih =>
      simp only [spanDigits, Prod.mk.injEq] at ih
      by_cases hd : d.isDigit = true
      · simp [spanDigits, hd, ih]
      · simp [spanDigits, hd]

theorem spanDigits_of_digits {ds : List Char} (hd : ∀ c ∈ ds, c.isDigit = true) :
    spanDigits ds = (ds, []) := by
  simp only [spanDigits, Prod.mk.injEq]
  exact ⟨List.takeWhile_eq_self_iff.mpr hd, List.dropWhile_eq_nil_iff.mpr hd⟩

theorem matchFrac_of_stops {rest : List Char} (h : Stops rest) : matchFrac rest = ([], rest) := by
  cases rest with
  | nil => rfl
  | cons c cs =>
      have hc : c ≠ '.' := by
        rcases h c cs rfl with rfl | rfl | rfl <;> decide
      simp [matchFrac, hc]

theorem matchExp_of_stops {rest : List Char} (h : Stops rest) : matchExp rest = ([], rest) := by
  cases rest with
  | nil => rfl
  | cons c cs =>
      have hc : c ≠ 'e' ∧ c ≠ 'E' := by
        rcases h c cs rfl with rfl | rfl | rfl <;> decide
      simp [matchExp, hc.1, hc.2]

/-- A positive number is written without a leading zero. -/
theorem toDigits_head {n : ℕ} (hn : 0 < n) :
    ∃ c cs, Nat.toDigits 10 n = c :: cs ∧ c ≠ '0' ∧ c.isDigit = true := by
  induction n using Nat.strong_induction_on with
  | _ n ih =>
      by_cases h : n < 10
      · refine ⟨Nat.digitChar n, [], Nat.toDigits_of_lt_base h, ?_, ?_⟩
        · rw [Ne, Nat.digitChar_eq_zero]
          omega
        · rw [Nat.isDigit_digitChar, decide_eq_true h]
      · obtain ⟨c, cs, hcs, hc⟩ := ih (n / 10) (by omega) (by omega)
        refine ⟨c, cs ++ [Nat.digitChar (n % 10)], ?_, hc⟩
        rw [Nat.toDigits_of_base_le (by decide) (by omega), hcs]
        rfl

/-- The digits of a natural number are read back, leading zeros being excluded. -/
theorem matchInt_toDigits (n : ℕ) {rest : List Char} (hr : Stops rest) :
    matchInt (Nat.toDigits 10 n ++ rest) = some (Nat.toDigits 10 n, rest) := by
  have hall : ∀ c ∈ Nat.toDigits 10 n, c.isDigit = true := fun c hc =>
    Nat.isDigit_of_mem_toDigits (by decide) (by decide) hc
  rcases Nat.eq_zero_or_pos n with rfl | hn
  · simp [Nat.toDigits_zero, matchInt]
  · obtain ⟨c, cs, hcs, hne, hdig⟩ := toDigits_head hn
    rw [hcs] at hall ⊢
    have hspan := spanDigits_append cs hr
    rw [spanDigits_of_digits fun d hd => hall d (List.mem_cons_of_mem c hd)] at hspan
    simp [matchInt, hne, hdig, hspan]

theorem matchSign_toDigits (n : ℕ) (rest : List Char) :
    matchSign (Nat.toDigits 10 n ++ rest) = ([], Nat.toDigits 10 n ++ rest) := by
  have hall : ∀ c ∈ Nat.toDigits 10 n, c.isDigit = true := fun c hc =>
    Nat.isDigit_of_mem_toDigits (by decide) (by decide) hc
  cases h : Nat.toDigits 10 n with
  | nil => exact absurd h Nat.toDigits_ne_nil
  | cons c cs =>
      have hdig := hall c (by rw [h]; exact List.mem_cons_self)
      have hc : c ≠ '-' := by
        rintro rfl
        simp at hdig
      simp [matchSign, hc]

theorem toList_toString_int (n : ℤ) :
    (toString n).toList = (if n < 0 then ['-'] else []) ++ Nat.toDigits 10 n.natAbs := by
  cases n with
  | ofNat m =>
      have h : ¬(Int.ofNat m < 0) := by simp
      rw [if_neg h]
      show (Nat.repr m).toList = _
      rw [Nat.toList_repr]
      rfl
  | negSucc m =>
      rw [if_pos (Int.negSucc_lt_zero m)]
      show ("-" ++ Nat.repr (m + 1)).toList = _
      rw [String.toList_append, Nat.toList_repr]
      rfl

/-- **A written integer is read back.** -/
theorem scanNumber_int (parseFloat : String → Option Dyadic) (n : ℤ) {rest : List Char}
    (hr : Stops rest) :
    scanNumber parseFloat ((toString n).toList ++ rest) = some (.int n, rest) := by
  rw [toList_toString_int, List.append_assoc]
  by_cases hn : n < 0
  · obtain ⟨m, rfl⟩ : ∃ m : ℕ, n = -m := ⟨n.natAbs, by omega⟩
    have hint := matchInt_toDigits m hr
    have hsign : matchSign ('-' :: (Nat.toDigits 10 m ++ rest)) = (['-'], Nat.toDigits 10 m ++ rest) := by
      simp [matchSign]
    rw [if_pos hn, Int.natAbs_neg, Int.natAbs_natCast]
    simp [scanNumber, matchNumber, hsign, hint, matchFrac_of_stops hr, matchExp_of_stops hr,
      NumberMatch.isFloat, NumberMatch.int, Nat.ofDigitChars_ten_toDigits]
  · obtain ⟨m, rfl⟩ : ∃ m : ℕ, n = m := ⟨n.natAbs, by omega⟩
    have hint := matchInt_toDigits m hr
    rw [if_neg hn, Int.natAbs_natCast]
    simp [scanNumber, matchNumber, matchSign_toDigits, hint, matchFrac_of_stops hr,
      matchExp_of_stops hr, NumberMatch.isFloat, NumberMatch.int, Nat.ofDigitChars_ten_toDigits]

/-! ### Reading back a binary fraction -/

theorem matchInt_append {cs ds r : List Char} (h : matchInt cs = some (ds, r)) {rest : List Char}
    (hr : Stops rest) : matchInt (cs ++ rest) = some (ds, r ++ rest) := by
  cases cs with
  | nil => simp [matchInt] at h
  | cons c cs =>
      simp only [matchInt, List.cons_append] at h ⊢
      split_ifs at h ⊢ with h0 hd
      · simp only [Option.some.injEq, Prod.mk.injEq] at h ⊢
        exact ⟨h.1, by rw [h.2]⟩
      · rw [spanDigits_append cs hr]
        simp only [Option.some.injEq, Prod.mk.injEq] at h ⊢
        exact ⟨h.1, by rw [h.2]⟩

theorem matchFrac_append (cs : List Char) {rest : List Char} (hr : Stops rest) :
    matchFrac (cs ++ rest) = ((matchFrac cs).1, (matchFrac cs).2 ++ rest) := by
  cases cs with
  | nil => exact matchFrac_of_stops hr
  | cons c cs =>
      simp only [matchFrac, List.cons_append, spanDigits_append cs hr]
      split_ifs <;> rfl

theorem matchExpSign_append (cs : List Char) {rest : List Char} (hr : Stops rest) :
    matchExpSign (cs ++ rest) = ((matchExpSign cs).1, (matchExpSign cs).2 ++ rest) := by
  cases cs with
  | nil =>
      cases rest with
      | nil => rfl
      | cons c cs =>
          have hc : c ≠ '-' ∧ c ≠ '+' := by
            rcases hr c cs rfl with rfl | rfl | rfl <;> decide
          simp [matchExpSign, hc.1, hc.2]
  | cons c cs =>
      simp only [matchExpSign, List.cons_append]
      split_ifs <;> rfl

theorem matchExp_append (cs : List Char) {rest : List Char} (hr : Stops rest) :
    matchExp (cs ++ rest) = ((matchExp cs).1, (matchExp cs).2 ++ rest) := by
  cases cs with
  | nil => exact matchExp_of_stops hr
  | cons c cs =>
      simp only [matchExp, List.cons_append, matchExpSign_append cs hr, spanDigits_append _ hr]
      split_ifs <;> rfl

/-- A number literal ends where a value ends. -/
theorem matchNumber_append {cs : List Char} {m : NumberMatch} (h : matchNumber cs = some m)
    {rest : List Char} (hr : Stops rest) :
    matchNumber (cs ++ rest) = some { m with rest := m.rest ++ rest } := by
  have hsign : cs ≠ [] → matchSign (cs ++ rest) = ((matchSign cs).1, (matchSign cs).2 ++ rest) := by
    intro hne
    cases cs with
    | nil => exact absurd rfl hne
    | cons c cs =>
        simp only [matchSign, List.cons_append]
        split_ifs <;> rfl
  have hne : cs ≠ [] := by
    rintro rfl
    simp [matchNumber, matchSign, matchInt] at h
  simp only [matchNumber, Option.map_eq_some_iff] at h
  obtain ⟨⟨ds, r⟩, hint, rfl⟩ := h
  simp only [matchNumber, hsign hne, matchInt_append hint hr, Option.map_some, matchFrac_append r hr,
    matchExp_append _ hr]

theorem spanDigits_eq (cs : List Char) : (spanDigits cs).1 ++ (spanDigits cs).2 = cs :=
  List.takeWhile_append_dropWhile

theorem matchInt_eq {cs ds r : List Char} (h : matchInt cs = some (ds, r)) : ds ++ r = cs := by
  cases cs with
  | nil => simp [matchInt] at h
  | cons c cs =>
      simp only [matchInt] at h
      split_ifs at h with h0 hd
      · simp only [Option.some.injEq, Prod.mk.injEq] at h
        rw [← h.1, ← h.2, h0]
        rfl
      · simp only [Option.some.injEq, Prod.mk.injEq] at h
        rw [← h.1, ← h.2, List.cons_append, spanDigits_eq]

theorem matchSign_eq (cs : List Char) : (matchSign cs).1 ++ (matchSign cs).2 = cs := by
  cases cs with
  | nil => rfl
  | cons c cs =>
      simp only [matchSign]
      split_ifs with h
      · rw [h]
        rfl
      · rfl

theorem matchFrac_eq (cs : List Char) : (matchFrac cs).1 ++ (matchFrac cs).2 = cs := by
  cases cs with
  | nil => rfl
  | cons c cs =>
      simp only [matchFrac]
      split_ifs with h
      · simp only [Bool.and_eq_true, decide_eq_true_eq] at h
        rw [h.1, List.cons_append, spanDigits_eq]
      · rfl

theorem matchExpSign_eq (cs : List Char) : (matchExpSign cs).1 ++ (matchExpSign cs).2 = cs := by
  cases cs with
  | nil => rfl
  | cons c cs =>
      simp only [matchExpSign]
      split_ifs <;> rfl

theorem matchExp_eq (cs : List Char) : (matchExp cs).1 ++ (matchExp cs).2 = cs := by
  cases cs with
  | nil => rfl
  | cons c cs =>
      simp only [matchExp]
      split_ifs with h
      · rw [List.append_assoc, spanDigits_eq, List.cons_append, matchExpSign_eq]
      · rfl

/-- The groups of a match and the rest make up the text. -/
theorem NumberMatch.text_append {cs : List Char} {m : NumberMatch} (h : matchNumber cs = some m) :
    m.text ++ m.rest = cs := by
  simp only [matchNumber, Option.map_eq_some_iff] at h
  obtain ⟨⟨ds, r⟩, hint, rfl⟩ := h
  simp only [NumberMatch.text]
  rw [List.append_assoc, matchExp_eq, List.append_assoc, matchFrac_eq, List.append_assoc,
    matchInt_eq hint, matchSign_eq]

section readback
variable [Py] (parseFloat : String → Option Dyadic)

/-- The decimal form of `d` is a number literal with a fraction or an exponent, and it denotes
`d`. -/
structure FloatReadable (d : Dyadic) : Prop where
  literal : ∃ m, matchNumber (Py.floatRepr d).toList = some m ∧ m.rest = [] ∧ m.isFloat = true
  denotes : parseFloat (Py.floatRepr d) = some d

/-- **A written fraction is read back.** -/
theorem scanNumber_float {d : Dyadic} (hd : FloatReadable parseFloat d) {rest : List Char}
    (hr : Stops rest) :
    scanNumber parseFloat ((Py.floatRepr d).toList ++ rest) = some (.float d, rest) := by
  obtain ⟨m, hm, hrest, hfloat⟩ := hd.literal
  have htext := NumberMatch.text_append hm
  rw [hrest, List.append_nil] at htext
  rw [scanNumber, matchNumber_append hm hr, Option.bind_some]
  have hfloat' : NumberMatch.isFloat { m with rest := m.rest ++ rest } = true := hfloat
  have htext' : NumberMatch.text { m with rest := m.rest ++ rest } = (Py.floatRepr d).toList := htext
  rw [if_pos hfloat', htext', String.ofList_toList, hd.denotes, hrest]
  rfl

/-! ### Reading back a value -/

omit [Py] in
/-- What starts like a number is scanned as one. -/
theorem scanOnce_number {c : Char} {cs : List Char} (hc : c = '-' ∨ c.isDigit = true) (n : ℕ) :
    scanOnce parseFloat (n + 1) (c :: cs) = scanNumber parseFloat (c :: cs) := by
  have hne : c ≠ Char.ofNat 34 ∧ c ≠ '\x7b' ∧ c ≠ '[' ∧ c ≠ 'n' ∧ c ≠ 't' ∧ c ≠ 'f' := by
    refine ⟨?_, ?_, ?_, ?_, ?_, ?_⟩ <;>
      · rintro rfl
        rcases hc with h | h <;> simp at h
  obtain ⟨h1, h2, h3, h4, h5, h6⟩ := hne
  simp [scanOnce, h1, h2, h3, h4.symm, h5.symm, h6.symm]

omit [Py] in
theorem matchNumber_head {cs : List Char} {m : NumberMatch} (h : matchNumber cs = some m) :
    ∃ c ds, cs = c :: ds ∧ (c = '-' ∨ c.isDigit = true) := by
  cases cs with
  | nil => simp [matchNumber, matchSign, matchInt] at h
  | cons c ds =>
      refine ⟨c, ds, rfl, ?_⟩
      by_cases hc : c = '-'
      · exact Or.inl hc
      · right
        by_contra hd
        have h0 : c ≠ '0' := by
          rintro rfl
          exact hd (by decide)
        simp [matchNumber, matchSign, matchInt, hc, h0, hd] at h

omit [Py] in
theorem toString_int_head (n : ℤ) :
    ∃ c ds, (toString n).toList = c :: ds ∧ (c = '-' ∨ c.isDigit = true) := by
  rw [toList_toString_int]
  by_cases hn : n < 0
  · exact ⟨'-', Nat.toDigits 10 n.natAbs, by simp [hn], Or.inl rfl⟩
  · cases h : Nat.toDigits 10 n.natAbs with
    | nil => exact absurd h Nat.toDigits_ne_nil
    | cons c ds =>
        have hmem : c ∈ Nat.toDigits 10 n.natAbs := by
          rw [h]
          exact List.mem_cons_self
        exact ⟨c, ds, by simp [hn], Or.inr (Nat.isDigit_of_mem_toDigits (by decide) (by decide) hmem)⟩

/-- The options of `json.dumps` that keep the order of the keys. -/
def keepOrder (ascii : Bool) : DumpOpts := { ensureAscii := ascii, sortKeys := false }

/-- A written value starts neither with whitespace nor with a closing bracket. -/
theorem dumpText_head (ascii : Bool) {v : Value} (hv : ∀ d ∈ v.floats, FloatReadable parseFloat d) :
    ∃ c cs, (dumpText (keepOrder ascii) v).toList = c :: cs ∧ isJsonSpace c = false ∧ c ≠ ']' := by
  have hnum : ∀ {cs : List Char}, (∃ c ds, cs = c :: ds ∧ (c = '-' ∨ c.isDigit = true)) →
      ∃ c ds, cs = c :: ds ∧ isJsonSpace c = false ∧ c ≠ ']' := by
    rintro _ ⟨c, ds, rfl, hc⟩
    refine ⟨c, ds, rfl, ?_, ?_⟩
    · simp only [isJsonSpace, Bool.or_eq_false_iff, decide_eq_false_iff_not]
      refine ⟨⟨⟨?_, ?_⟩, ?_⟩, ?_⟩ <;>
        · rintro rfl
          rcases hc with h | h <;> simp at h
    · rintro rfl
      rcases hc with h | h <;> simp at h
  cases v with
  | null => exact ⟨'n', ['u', 'l', 'l'], by simp [dumpText], by decide, by decide⟩
  | bool b =>
      cases b with
      | true => exact ⟨'t', ['r', 'u', 'e'], by simp [dumpText], by decide, by decide⟩
      | false => exact ⟨'f', ['a', 'l', 's', 'e'], by simp [dumpText], by decide, by decide⟩
  | int n =>
      apply hnum
      simp only [dumpText]
      exact toString_int_head n
  | float d =>
      apply hnum
      obtain ⟨m, hm, -, -⟩ := (hv d (by simp [Value.floats])).literal
      simp only [dumpText]
      exact matchNumber_head hm
  | str s =>
      simp only [dumpText, toList_dumpStr]
      exact ⟨_, _, rfl, by decide, by decide⟩
  | arr xs =>
      refine ⟨'[', (join ", " (dumpTextList (keepOrder ascii) xs)).toList ++ [']'], ?_, by decide, by decide⟩
      simp [dumpText, keepOrder]
  | obj a =>
      refine ⟨'\x7b', (join ", " (dumpTextObj (keepOrder ascii) a)).toList ++ ['\x7d'], ?_, by decide,
        by decide⟩
      simp [dumpText, keepOrder]

theorem skipSpace_dumpText (ascii : Bool) {v : Value}
    (hv : ∀ d ∈ v.floats, FloatReadable parseFloat d) (rest : List Char) :
    skipSpace ((dumpText (keepOrder ascii) v).toList ++ rest) =
      (dumpText (keepOrder ascii) v).toList ++ rest := by
  obtain ⟨c, cs, hcs, hspace, -⟩ := dumpText_head parseFloat ascii hv
  rw [hcs, List.cons_append, skipSpace_cons hspace]

theorem expect_bracket_dumpText (ascii : Bool) {v : Value}
    (hv : ∀ d ∈ v.floats, FloatReadable parseFloat d) (rest : List Char) :
    expect ']' ((dumpText (keepOrder ascii) v).toList ++ rest) = none := by
  obtain ⟨c, cs, hcs, -, hc⟩ := dumpText_head parseFloat ascii hv
  rw [hcs, List.cons_append, expect_cons_ne hc]

omit [Py] in
theorem toList_join_cons (x y : String) (xs : List String) :
    (join ", " (x :: y :: xs)).toList = x.toList ++ ',' :: ' ' :: (join ", " (y :: xs)).toList := by
  simp [join]

/-- A written value takes fuel. -/
theorem fuel_of_dumpText (ascii : Bool) {v : Value} (hv : ∀ d ∈ v.floats, FloatReadable parseFloat d)
    {n : ℕ} (hn : (dumpText (keepOrder ascii) v).toList.length ≤ n) : ∃ m, n = m + 1 := by
  obtain ⟨c, cs, hcs, -, -⟩ := dumpText_head parseFloat ascii hv
  rw [hcs, List.length_cons] at hn
  exact Nat.exists_eq_succ_of_ne_zero (by omega)

/-- The text of the elements starts with that of the first one. -/
theorem join_dumpTextList (ascii : Bool) (v : Value) (vs : List Value) :
    ∃ tail, (join ", " (dumpTextList (keepOrder ascii) (v :: vs))).toList =
      (dumpText (keepOrder ascii) v).toList ++ tail := by
  cases vs with
  | nil => exact ⟨[], by simp [dumpTextList, join]⟩
  | cons w vs =>
      refine ⟨',' :: ' ' :: (join ", " (dumpTextList (keepOrder ascii) (w :: vs))).toList, ?_⟩
      simp only [dumpTextList, toList_join_cons]

/-- The text of the members starts with a key. -/
theorem join_dumpTextObj (ascii : Bool) (k : String) (v : Value) (a : Obj) :
    ∃ tail, (join ", " (dumpTextObj (keepOrder ascii) ((k, v) :: a))).toList = Char.ofNat 34 :: tail := by
  have hkey : ∃ tail, (dumpStr (keepOrder ascii).ensureAscii k).toList = Char.ofNat 34 :: tail :=
    ⟨_, toList_dumpStr _ k⟩
  obtain ⟨tail, htail⟩ := hkey
  cases a with
  | nil =>
      simp only [dumpTextObj, join, String.toList_append, htail, List.cons_append, List.cons.injEq,
        true_and, exists_eq']
  | cons p a =>
      obtain ⟨l, w⟩ := p
      simp only [dumpTextObj, toList_join_cons, String.toList_append, htail, List.cons_append,
        List.cons.injEq, true_and, exists_eq']

omit [Py] in
theorem skipSpace_space (rest : List Char) : skipSpace (' ' :: rest) = skipSpace rest := by
  simp [skipSpace, isJsonSpace]

omit [Py] in
theorem scanMore_close {α : Type} {close : Char} (hc : isJsonSpace close = false)
    (more : List Char → Option (List α × List Char)) (x : α) (rest : List Char) :
    scanMore close more x (close :: rest) = some ([x], rest) := by
  simp only [scanMore, skipSpace_cons hc, expect_cons_self]

omit [Py] in
theorem scanMore_comma {α : Type} {close : Char} (hc : close ≠ ',')
    {more : List Char → Option (List α × List Char)} {cs rest : List Char} {xs : List α}
    (hcs : skipSpace cs = cs) (hmore : more cs = some (xs, rest)) (x : α) :
    scanMore close more x (',' :: ' ' :: cs) = some (x :: xs, rest) := by
  have hcomma : skipSpace (',' :: ' ' :: cs) = ',' :: ' ' :: cs := skipSpace_cons (by decide) _
  simp only [scanMore, hcomma, expect_cons_ne hc.symm, expect_cons_self, Option.bind_some,
    skipSpace_space, hcs, hmore, Option.map_some]

/-- The text of one member is read up to the character that ends its value. -/
theorem scanMember {ascii : Bool} (k : String) {v : Value} {n : ℕ} {rest : List Char}
    (hf : ∀ d ∈ v.floats, FloatReadable parseFloat d)
    (hv : scanOnce parseFloat n ((dumpText (keepOrder ascii) v).toList ++ rest) = some (v, rest)) :
    scanMembers parseFloat (n + 1)
        ((dumpStr ascii k ++ ": " ++ dumpText (keepOrder ascii) v).toList ++ rest) =
      scanMore '\x7d' (scanMembers parseFloat n) (k, v) rest := by
  have hkey := scanString_dumpStr ascii k (':' :: ' ' :: ((dumpText (keepOrder ascii) v).toList ++ rest))
  have hcolon : (": " : String).toList = [':', ' '] := rfl
  have htext : (dumpStr ascii k ++ ": " ++ dumpText (keepOrder ascii) v).toList ++ rest =
      Char.ofNat 34 :: (k.toList.flatMap (dumpChar ascii) ++
        Char.ofNat 34 :: ':' :: ' ' :: ((dumpText (keepOrder ascii) v).toList ++ rest)) := by
    simp only [String.toList_append, toList_dumpStr, hcolon, List.cons_append, List.append_assoc,
      List.nil_append]
  rw [htext, scanMembers, expect_cons_self, Option.bind_some, hkey, Option.bind_some]
  have hskip : skipSpace (':' :: ' ' :: ((dumpText (keepOrder ascii) v).toList ++ rest)) =
      ':' :: ' ' :: ((dumpText (keepOrder ascii) v).toList ++ rest) := skipSpace_cons (by decide) _
  simp only [hskip, expect_cons_self, Option.bind_some, skipSpace_space,
    skipSpace_dumpText parseFloat ascii hf, hv, String.ofList_toList]

/-! Each constructor, given what its parts are read as. -/

theorem scanOnce_int (ascii : Bool) (i : ℤ) (n : ℕ) {rest : List Char} (hr : Stops rest) :
    scanOnce parseFloat (n + 1) ((dumpText (keepOrder ascii) (.int i)).toList ++ rest) =
      some (.int i, rest) := by
  obtain ⟨c, ds, hcs, hc⟩ := toString_int_head i
  have h := scanNumber_int parseFloat i hr
  rw [dumpText, hcs, List.cons_append] at *
  rw [scanOnce_number parseFloat hc, h]

theorem scanOnce_float (ascii : Bool) {d : Dyadic} (hd : FloatReadable parseFloat d) (n : ℕ)
    {rest : List Char} (hr : Stops rest) :
    scanOnce parseFloat (n + 1) ((dumpText (keepOrder ascii) (.float d)).toList ++ rest) =
      some (.float d, rest) := by
  obtain ⟨_, hm, -, -⟩ := hd.literal
  obtain ⟨c, ds, hcs, hc⟩ := matchNumber_head hm
  have h := scanNumber_float parseFloat hd hr
  rw [dumpText]
  rw [hcs, List.cons_append] at h ⊢
  rw [scanOnce_number parseFloat hc, h]

theorem scanOnce_str (ascii : Bool) (s : String) (n : ℕ) (rest : List Char) :
    scanOnce parseFloat (n + 1) ((dumpText (keepOrder ascii) (.str s)).toList ++ rest) =
      some (.str s, rest) := by
  have h := scanString_dumpStr ascii s rest
  have htext : (dumpText (keepOrder ascii) (.str s)).toList ++ rest =
      Char.ofNat 34 :: (s.toList.flatMap (dumpChar ascii) ++ Char.ofNat 34 :: rest) := by
    simp [dumpText, toList_dumpStr, keepOrder]
  rw [htext, scanOnce, if_pos rfl, h, Option.map_some]
  simp only [String.ofList_toList]

theorem toList_dumpText_arr (ascii : Bool) (xs : List Value) :
    (dumpText (keepOrder ascii) (.arr xs)).toList =
      '[' :: (join ", " (dumpTextList (keepOrder ascii) xs)).toList ++ [']'] := by
  simp [dumpText, keepOrder]

theorem toList_dumpText_obj (ascii : Bool) (a : Obj) :
    (dumpText (keepOrder ascii) (.obj a)).toList =
      '\x7b' :: (join ", " (dumpTextObj (keepOrder ascii) a)).toList ++ ['\x7d'] := by
  simp [dumpText, keepOrder]

theorem scanOnce_arr {ascii : Bool} {v : Value} {vs : List Value} {n : ℕ} {rest : List Char}
    (hf : ∀ d ∈ v.floats, FloatReadable parseFloat d)
    (h : scanElements parseFloat n ((join ", " (dumpTextList (keepOrder ascii) (v :: vs))).toList ++
      ']' :: rest) = some (v :: vs, rest)) :
    scanOnce parseFloat (n + 1) ((dumpText (keepOrder ascii) (.arr (v :: vs))).toList ++ rest) =
      some (.arr (v :: vs), rest) := by
  obtain ⟨tail, htail⟩ := join_dumpTextList ascii v vs
  rw [toList_dumpText_arr, List.cons_append, List.cons_append, List.append_assoc, List.singleton_append]
  rw [htail, List.append_assoc] at h ⊢
  simp [scanOnce, skipSpace_dumpText parseFloat ascii hf, expect_bracket_dumpText parseFloat ascii hf, h]

theorem scanOnce_obj {ascii : Bool} {k : String} {v : Value} {a : Obj} {n : ℕ} {rest : List Char}
    (hkeys : (((k, v) :: a).map Prod.fst).Nodup)
    (h : scanMembers parseFloat n ((join ", " (dumpTextObj (keepOrder ascii) ((k, v) :: a))).toList ++
      '\x7d' :: rest) = some ((k, v) :: a, rest)) :
    scanOnce parseFloat (n + 1) ((dumpText (keepOrder ascii) (.obj ((k, v) :: a))).toList ++ rest) =
      some (.obj ((k, v) :: a), rest) := by
  obtain ⟨tail, htail⟩ := join_dumpTextObj ascii k v a
  have hspace : skipSpace (Char.ofNat 34 :: (tail ++ '\x7d' :: rest)) =
      Char.ofNat 34 :: (tail ++ '\x7d' :: rest) := skipSpace_cons (by decide) _
  have hopen : expect '\x7d' (Char.ofNat 34 :: (tail ++ '\x7d' :: rest)) = none :=
    expect_cons_ne (by decide) _
  rw [toList_dumpText_obj, List.cons_append, List.cons_append, List.append_assoc, List.singleton_append]
  rw [htail, List.cons_append] at h ⊢
  simp [scanOnce, hspace, hopen, h, Lib.Dict.items_ofPairs hkeys]

theorem scanElements_cons {ascii : Bool} {v w : Value} {vs : List Value} {n : ℕ} {rest : List Char}
    (hf : ∀ d ∈ w.floats, FloatReadable parseFloat d)
    (hv : ∀ rest, Stops rest →
      scanOnce parseFloat n ((dumpText (keepOrder ascii) v).toList ++ rest) = some (v, rest))
    (hvs : scanElements parseFloat n ((join ", " (dumpTextList (keepOrder ascii) (w :: vs))).toList ++
      ']' :: rest) = some (w :: vs, rest)) :
    scanElements parseFloat (n + 1) ((join ", " (dumpTextList (keepOrder ascii) (v :: w :: vs))).toList ++
      ']' :: rest) = some (v :: w :: vs, rest) := by
  have htext : (join ", " (dumpTextList (keepOrder ascii) (v :: w :: vs))).toList =
      (dumpText (keepOrder ascii) v).toList ++
        ',' :: ' ' :: (join ", " (dumpTextList (keepOrder ascii) (w :: vs))).toList := by
    simp only [dumpTextList, toList_join_cons]
  obtain ⟨tail, htail⟩ := join_dumpTextList ascii w vs
  rw [htext, List.append_assoc, List.cons_append, List.cons_append, scanElements,
    hv _ (stops_comma _), Option.bind_some]
  apply scanMore_comma (by decide) _ hvs
  rw [htail, List.append_assoc, skipSpace_dumpText parseFloat ascii hf]

theorem scanMembers_cons {ascii : Bool} {k l : String} {v w : Value} {a : Obj} {n : ℕ}
    {rest : List Char} (hf : ∀ d ∈ v.floats, FloatReadable parseFloat d)
    (hv : ∀ rest, Stops rest →
      scanOnce parseFloat n ((dumpText (keepOrder ascii) v).toList ++ rest) = some (v, rest))
    (ha : scanMembers parseFloat n ((join ", " (dumpTextObj (keepOrder ascii) ((l, w) :: a))).toList ++
      '\x7d' :: rest) = some ((l, w) :: a, rest)) :
    scanMembers parseFloat (n + 1)
      ((join ", " (dumpTextObj (keepOrder ascii) ((k, v) :: (l, w) :: a))).toList ++ '\x7d' :: rest) =
        some ((k, v) :: (l, w) :: a, rest) := by
  have htext : (join ", " (dumpTextObj (keepOrder ascii) ((k, v) :: (l, w) :: a))).toList =
      (dumpStr ascii k ++ ": " ++ dumpText (keepOrder ascii) v).toList ++
        ',' :: ' ' :: (join ", " (dumpTextObj (keepOrder ascii) ((l, w) :: a))).toList := by
    simp only [dumpTextObj, toList_join_cons, keepOrder]
  obtain ⟨tail, htail⟩ := join_dumpTextObj ascii l w a
  rw [htext, List.append_assoc, List.cons_append, List.cons_append,
    scanMember parseFloat k hf (hv _ (stops_comma _))]
  apply scanMore_comma (by decide) _ ha
  rw [htail, List.cons_append]
  exact skipSpace_cons (by decide) _

omit [Py] in
/-- The text of the first element or member is shorter than that of all of them. -/
theorem length_join (x y : String) (xs : List String) :
    (join ", " (x :: y :: xs)).toList.length =
      x.toList.length + 2 + (join ", " (y :: xs)).toList.length := by
  rw [toList_join_cons]
  simp only [List.length_append, List.length_cons]
  omega

-- The fuel is bounded by the text: every call is on a text at least one character shorter.
mutual
theorem scanOnce_dumpText (ascii : Bool) : ∀ (v : Value), v.distinct = true →
    (∀ d ∈ v.floats, FloatReadable parseFloat d) → ∀ (n : ℕ),
    (dumpText (keepOrder ascii) v).toList.length ≤ n → ∀ rest, Stops rest →
      scanOnce parseFloat n ((dumpText (keepOrder ascii) v).toList ++ rest) = some (v, rest)
  | .null => by
      intro _ hf n hn rest _
      obtain ⟨m, rfl⟩ := fuel_of_dumpText parseFloat ascii hf hn
      simp [dumpText, scanOnce]
  | .bool b => by
      intro _ hf n hn rest _
      obtain ⟨m, rfl⟩ := fuel_of_dumpText parseFloat ascii hf hn
      cases b <;> simp [dumpText, scanOnce]
  | .int i => by
      intro _ hf n hn rest hr
      obtain ⟨m, rfl⟩ := fuel_of_dumpText parseFloat ascii hf hn
      exact scanOnce_int parseFloat ascii i m hr
  | .float d => by
      intro _ hf n hn rest hr
      obtain ⟨m, rfl⟩ := fuel_of_dumpText parseFloat ascii hf hn
      exact scanOnce_float parseFloat ascii (hf d (by simp [Value.floats])) m hr
  | .str s => by
      intro _ hf n hn rest _
      obtain ⟨m, rfl⟩ := fuel_of_dumpText parseFloat ascii hf hn
      exact scanOnce_str parseFloat ascii s m rest
  | .arr [] => by
      intro _ hf n hn rest _
      obtain ⟨m, rfl⟩ := fuel_of_dumpText parseFloat ascii hf hn
      simp [dumpText, dumpTextList, join, scanOnce, skipSpace, isJsonSpace]
  | .arr (v :: vs) => by
      intro hd hf n hn rest _
      obtain ⟨m, rfl⟩ := fuel_of_dumpText parseFloat ascii hf hn
      rw [toList_dumpText_arr] at hn
      simp only [List.length_append, List.length_cons, List.length_nil] at hn
      rw [Value.distinct_arr] at hd
      rw [Value.floats] at hf
      have h := scanElements_dumpText ascii (v :: vs) (List.cons_ne_nil v vs) hd hf m (by omega) rest
      exact scanOnce_arr parseFloat (fun d hd => hf d (List.mem_append_left _ hd)) h
  | .obj [] => by
      intro _ hf n hn rest _
      obtain ⟨m, rfl⟩ := fuel_of_dumpText parseFloat ascii hf hn
      simp [dumpText, dumpTextObj, join, scanOnce, skipSpace, isJsonSpace]
  | .obj ((k, v) :: a) => by
      intro hd hf n hn rest _
      obtain ⟨m, rfl⟩ := fuel_of_dumpText parseFloat ascii hf hn
      rw [toList_dumpText_obj] at hn
      simp only [List.length_append, List.length_cons, List.length_nil] at hn
      rw [Value.distinct_obj, Bool.and_eq_true, decide_eq_true_eq] at hd
      rw [Value.floats] at hf
      have h := scanMembers_dumpText ascii ((k, v) :: a) (List.cons_ne_nil (k, v) a) hd.2 hf m (by omega) rest
      exact scanOnce_obj parseFloat hd.1 h
theorem scanElements_dumpText (ascii : Bool) : ∀ (xs : List Value), xs ≠ [] →
    Value.distinctList xs = true → (∀ d ∈ Value.floatsList xs, FloatReadable parseFloat d) →
    ∀ (n : ℕ), (join ", " (dumpTextList (keepOrder ascii) xs)).toList.length < n → ∀ rest,
      scanElements parseFloat n ((join ", " (dumpTextList (keepOrder ascii) xs)).toList ++ ']' :: rest) =
        some (xs, rest)
  | [] => fun hne => absurd rfl hne
  | [v] => by
      intro _ hd hf n hn rest
      obtain ⟨m, rfl⟩ := Nat.exists_eq_succ_of_ne_zero (Nat.ne_zero_of_lt hn)
      simp only [dumpTextList, join] at hn ⊢
      have hv := scanOnce_dumpText ascii v (by simpa [Value.distinctList] using hd)
        (by simpa [Value.floatsList] using hf) m (by omega) (']' :: rest) (stops_bracket rest)
      rw [scanElements, hv, Option.bind_some]
      exact scanMore_close (by decide) _ v rest
  | v :: w :: vs => by
      intro _ hd hf n hn rest
      obtain ⟨m, rfl⟩ := Nat.exists_eq_succ_of_ne_zero (Nat.ne_zero_of_lt hn)
      rw [Value.distinctList, Bool.and_eq_true] at hd
      rw [Value.floatsList] at hf
      have hfs : ∀ d ∈ Value.floatsList (w :: vs), FloatReadable parseFloat d := fun d hd =>
        hf d (List.mem_append_right _ hd)
      rw [dumpTextList, dumpTextList, length_join] at hn
      have hv := scanOnce_dumpText ascii v hd.1 (fun d hd => hf d (List.mem_append_left _ hd)) m (by omega)
      have hvs := scanElements_dumpText ascii (w :: vs) (List.cons_ne_nil w vs) hd.2 hfs m
        (by rw [dumpTextList]; omega) rest
      rw [Value.floatsList] at hfs
      exact scanElements_cons parseFloat (fun d hd => hfs d (List.mem_append_left _ hd)) hv hvs
theorem scanMembers_dumpText (ascii : Bool) : ∀ (a : List (String × Value)), a ≠ [] →
    Value.distinctObj a = true → (∀ d ∈ Value.floatsObj a, FloatReadable parseFloat d) →
    ∀ (n : ℕ), (join ", " (dumpTextObj (keepOrder ascii) a)).toList.length < n → ∀ rest,
      scanMembers parseFloat n ((join ", " (dumpTextObj (keepOrder ascii) a)).toList ++ '\x7d' :: rest) =
        some (a, rest)
  | [] => fun hne => absurd rfl hne
  | [(k, v)] => by
      intro _ hd hf n hn rest
      obtain ⟨m, rfl⟩ := Nat.exists_eq_succ_of_ne_zero (Nat.ne_zero_of_lt hn)
      have htext : join ", " (dumpTextObj (keepOrder ascii) [(k, v)]) =
          dumpStr ascii k ++ ": " ++ dumpText (keepOrder ascii) v := by
        simp only [dumpTextObj, join, keepOrder]
      rw [htext] at hn ⊢
      simp only [String.toList_append, List.length_append] at hn
      have hfv : ∀ d ∈ v.floats, FloatReadable parseFloat d := by simpa [Value.floatsObj] using hf
      have hv := scanOnce_dumpText ascii v (by simpa [Value.distinctObj] using hd) hfv m (by omega)
      rw [scanMember parseFloat k hfv (hv _ (stops_brace rest))]
      exact scanMore_close (by decide) _ (k, v) rest
  | (k, v) :: (l, w) :: a => by
      intro _ hd hf n hn rest
      obtain ⟨m, rfl⟩ := Nat.exists_eq_succ_of_ne_zero (Nat.ne_zero_of_lt hn)
      rw [Value.distinctObj, Bool.and_eq_true] at hd
      rw [Value.floatsObj] at hf
      have hfv : ∀ d ∈ v.floats, FloatReadable parseFloat d := fun d hd =>
        hf d (List.mem_append_left _ hd)
      rw [dumpTextObj, dumpTextObj, length_join, String.toList_append, List.length_append] at hn
      have hv := scanOnce_dumpText ascii v hd.1 hfv m (by omega)
      have ha := scanMembers_dumpText ascii ((l, w) :: a) (List.cons_ne_nil (l, w) a) hd.2
        (fun d hd => hf d (List.mem_append_right _ hd)) m (by rw [dumpTextObj]; omega) rest
      exact scanMembers_cons parseFloat hfv hv ha
end

/-- **`json.loads` reads back what `json.dumps` writes.** -/
theorem jsonLoads_dumps (ascii : Bool) {v : Value} (hd : v.distinct = true)
    (hf : ∀ d ∈ v.floats, FloatReadable parseFloat d) :
    jsonLoads parseFloat (dumps (keepOrder ascii) v) = some v := by
  have hspace := skipSpace_dumpText parseFloat ascii hf []
  have hscan := scanOnce_dumpText parseFloat ascii v hd hf _ le_rfl [] stops_nil
  rw [List.append_nil] at hspace hscan
  have hdumps : dumps (keepOrder ascii) v = dumpText (keepOrder ascii) v := rfl
  rw [jsonLoads, hdumps, hspace, hscan]
  rfl

end readback

end JAgent
