import Mathlib.Data.List.Basic
import Mathlib.Tactic.IntervalCases

/-! # Base64

The encoding of bytes by the letters of the base64 alphabet, three bytes by four letters, the last
group padded with `=`.  Decoding reads four letters at a time; a letter that is not of the alphabet,
or a group that is not full, is refused.

`decode_encode` is the round trip, `isLetter_of_mem_encode` says which letters an encoded text has. -/

namespace Lib.Base64

/-- The letter of six bits. -/
def letter (n : ℕ) : Char :=
  if n < 26 then Char.ofNat (65 + n)
  else if n < 52 then Char.ofNat (97 + (n - 26))
  else if n < 62 then Char.ofNat (48 + (n - 52))
  else if n = 62 then '+' else '/'

/-- The six bits of a letter. -/
def sextet (c : Char) : Option ℕ :=
  let n := c.toNat
  if 65 ≤ n ∧ n ≤ 90 then some (n - 65)
  else if 97 ≤ n ∧ n ≤ 122 then some (n - 97 + 26)
  else if 48 ≤ n ∧ n ≤ 57 then some (n - 48 + 52)
  else if c = '+' then some 62
  else if c = '/' then some 63
  else none

/-- The letters of the alphabet and the padding. -/
def IsLetter (c : Char) : Prop := c = '=' ∨ ∃ n < 64, c = letter n

/-- Encode bytes. -/
def encode : List UInt8 → List Char
  | a :: b :: c :: rest =>
      letter (a.toNat / 4) :: letter (a.toNat % 4 * 16 + b.toNat / 16) ::
        letter (b.toNat % 16 * 4 + c.toNat / 64) :: letter (c.toNat % 64) :: encode rest
  | [a, b] =>
      [letter (a.toNat / 4), letter (a.toNat % 4 * 16 + b.toNat / 16), letter (b.toNat % 16 * 4), '=']
  | [a] => [letter (a.toNat / 4), letter (a.toNat % 4 * 16), '=', '=']
  | [] => []

/-- The bytes of a full group. -/
def group (w x y z : ℕ) : List UInt8 :=
  [UInt8.ofNat (w * 4 + x / 16), UInt8.ofNat (x % 16 * 16 + y / 4), UInt8.ofNat (y % 4 * 64 + z)]

/-- Decode groups of four letters; padding ends the text. -/
def decode : List Char → Option (List UInt8)
  | [] => some []
  | [a, b, '=', '='] => do
      let w ← sextet a
      let x ← sextet b
      return (group w x 0 0).take 1
  | [a, b, c, '='] => do
      let w ← sextet a
      let x ← sextet b
      let y ← sextet c
      return (group w x y 0).take 2
  | a :: b :: c :: d :: rest => do
      let w ← sextet a
      let x ← sextet b
      let y ← sextet c
      let z ← sextet d
      let bytes ← decode rest
      return group w x y z ++ bytes
  | _ => none

/-- Decode a text that may be broken into lines. -/
def decodeLines (text : List Char) : Option (List UInt8) := decode (text.filter (· ≠ '\n'))

/-! ### Letters -/

theorem sextet_letter {n : ℕ} (h : n < 64) : sextet (letter n) = some n := by
  have hall : ∀ m, m < 64 → sextet (letter m) = some m := by decide
  exact hall n h

/-- A letter is no character without six bits. -/
theorem letter_ne {n : ℕ} (h : n < 64) {c : Char} (hc : sextet c = none) : letter n ≠ c := by
  rintro rfl
  have hsextet := sextet_letter h
  rw [hc] at hsextet
  cases hsextet

theorem letter_ne_pad {n : ℕ} (h : n < 64) : letter n ≠ '=' := letter_ne h (by decide)

theorem IsLetter.ne_newline {c : Char} (h : IsLetter c) : c ≠ '\n' := by
  obtain rfl | ⟨n, hn, rfl⟩ := h
  · decide
  · exact letter_ne hn (by decide)

/-- Every letter of an encoded text is of the alphabet. -/
theorem isLetter_of_mem_encode {c : Char} (bs : List UInt8) (h : c ∈ encode bs) : IsLetter c := by
  have hbyte : ∀ a : UInt8, a.toNat < 256 := fun a => a.toNat_lt
  fun_induction encode bs with
  | case1 a b d rest ih =>
      have ha := hbyte a
      have hb := hbyte b
      have hd := hbyte d
      simp only [List.mem_cons] at h
      obtain rfl | rfl | rfl | rfl | h := h
      · exact .inr ⟨_, by omega, rfl⟩
      · exact .inr ⟨_, by omega, rfl⟩
      · exact .inr ⟨_, by omega, rfl⟩
      · exact .inr ⟨_, by omega, rfl⟩
      · exact ih h
  | case2 a b =>
      have ha := hbyte a
      have hb := hbyte b
      simp only [List.mem_cons, List.not_mem_nil, or_false] at h
      obtain rfl | rfl | rfl | rfl := h
      · exact .inr ⟨_, by omega, rfl⟩
      · exact .inr ⟨_, by omega, rfl⟩
      · exact .inr ⟨_, by omega, rfl⟩
      · exact .inl rfl
  | case3 a =>
      have ha := hbyte a
      simp only [List.mem_cons, List.not_mem_nil, or_false] at h
      obtain rfl | rfl | rfl | rfl := h
      · exact .inr ⟨_, by omega, rfl⟩
      · exact .inr ⟨_, by omega, rfl⟩
      · exact .inl rfl
      · exact .inl rfl
  | case4 => exact absurd h List.not_mem_nil

/-! ### The round trip -/

theorem group_bytes (a b c : UInt8) :
    group (a.toNat / 4) (a.toNat % 4 * 16 + b.toNat / 16) (b.toNat % 16 * 4 + c.toNat / 64) (c.toNat % 64) =
      [a, b, c] := by
  have ha := a.toNat_lt
  have hb := b.toNat_lt
  have hc := c.toNat_lt
  have hfirst : a.toNat / 4 * 4 + (a.toNat % 4 * 16 + b.toNat / 16) / 16 = a.toNat := by omega
  have hsecond : (a.toNat % 4 * 16 + b.toNat / 16) % 16 * 16 + (b.toNat % 16 * 4 + c.toNat / 64) / 4 =
      b.toNat := by omega
  have hthird : (b.toNat % 16 * 4 + c.toNat / 64) % 4 * 64 + c.toNat % 64 = c.toNat := by omega
  rw [group, hfirst, hsecond, hthird, UInt8.ofNat_toNat, UInt8.ofNat_toNat, UInt8.ofNat_toNat]

/-- Decoding a full group. -/
theorem decode_group {w x y z : ℕ} (hw : w < 64) (hx : x < 64) (hy : y < 64) (hz : z < 64)
    (rest : List Char) : decode (letter w :: letter x :: letter y :: letter z :: rest) =
      (decode rest).map (group w x y z ++ ·) := by
  rw [decode.eq_4 _ _ _ _ _ (fun hpad _ _ => letter_ne_pad hy hpad) fun hpad _ => letter_ne_pad hz hpad]
  rw [sextet_letter hw, sextet_letter hx, sextet_letter hy, sextet_letter hz]
  cases decode rest with
  | none => rfl
  | some bytes => rfl

/-- **Decoding gives the encoded bytes back.** -/
theorem decode_encode (bs : List UInt8) : decode (encode bs) = some bs := by
  fun_induction encode bs with
  | case1 a b c rest ih =>
      have ha := a.toNat_lt
      have hb := b.toNat_lt
      have hc := c.toNat_lt
      rw [decode_group (by omega) (by omega) (by omega) (by omega), ih, group_bytes]
      rfl
  | case2 a b =>
      have ha := a.toNat_lt
      have hb := b.toNat_lt
      rw [decode.eq_3 _ _ _ (letter_ne_pad (by omega)), sextet_letter (by omega),
        sextet_letter (by omega), sextet_letter (by omega)]
      have hbytes := group_bytes a b 0
      simp only [UInt8.toNat_zero, Nat.zero_div, Nat.zero_mod, Nat.add_zero] at hbytes
      show some ((group _ _ _ 0).take 2) = _
      rw [hbytes]
      rfl
  | case3 a =>
      have ha := a.toNat_lt
      rw [decode, sextet_letter (by omega), sextet_letter (by omega)]
      have hbytes := group_bytes a 0 0
      simp only [UInt8.toNat_zero, Nat.zero_div, Nat.zero_mod, Nat.add_zero, Nat.zero_mul] at hbytes
      show some ((group _ _ 0 0).take 1) = _
      rw [hbytes]
      rfl
  | case4 => rfl

/-- A line of encoded text, ended by a line feed, decodes to the bytes. -/
theorem decodeLines_encode (bs : List UInt8) : decodeLines (encode bs ++ ['\n']) = some bs := by
  have hkeep : (encode bs ++ ['\n']).filter (· ≠ '\n') = encode bs := by
    rw [List.filter_append, List.filter_eq_self.mpr fun c hc => decide_eq_true
      (isLetter_of_mem_encode bs hc).ne_newline]
    exact List.append_nil _
  rw [decodeLines, hkeep, decode_encode]

end Lib.Base64
