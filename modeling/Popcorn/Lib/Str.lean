import Mathlib

/-!
# Rust's `str` on bytes

A `&str` is a byte string that is valid UTF-8. `core::str::from_utf8` checks validity the way
`run_utf8_validation` does (`valid`): each character's first byte gives its width
(`utf8_char_width`, `charWidth`), the second byte's range depends on the first
(`secondOk`), and the other bytes are continuation bytes. Indexing a `&str` by a range
panics unless both ends are character boundaries (`isCharBoundary`): `slice` and
`sliceFrom` are that indexing, with `none` the panic. `fromStrRadix16` is
`usize::from_str_radix(_, 16)` on a 64-bit target.

A valid string's first byte is never a continuation byte (`isCont_head`), so the end of a
prefix in front of a valid string is a boundary (`isCharBoundary_append`). ASCII bytes in
front of a valid string keep it valid (`valid_ascii_append`), and sixteen hex digits parse
to their value (`fromStrRadix16_hex`).
-/

namespace Str

/-- The bytes of an ASCII string, which are its UTF-8 encoding. -/
def asciiBytes (s : String) : List UInt8 := s.toList.map fun c => c.toNat.toUInt8

/-! ## UTF-8 -/

/-- `utf8_char_width`. -/
def charWidth (b : UInt8) : ℕ :=
  if b < 0x80 then 1
  else if b < 0xC2 then 0
  else if b < 0xE0 then 2
  else if b < 0xF0 then 3
  else if b < 0xF5 then 4
  else 0

/-- A continuation byte: `(b as i8) < -64`. -/
def isCont (b : UInt8) : Bool := 0x80 ≤ b && b < 0xC0

/-- The range of the second byte of a three- or four-byte character, by its first byte. -/
def secondOk (first second : UInt8) : Bool :=
  if first = 0xE0 then 0xA0 ≤ second && second ≤ 0xBF
  else if first = 0xED then 0x80 ≤ second && second ≤ 0x9F
  else if first = 0xF0 then 0x90 ≤ second && second ≤ 0xBF
  else if first = 0xF4 then 0x80 ≤ second && second ≤ 0x8F
  else isCont second

/-- `run_utf8_validation` succeeds: `from_utf8` answers `Ok`. -/
def valid : List UInt8 → Bool
  | [] => true
  | b :: rest =>
    match charWidth b, rest with
    | 1, rest => valid rest
    | 2, c :: rest => isCont c && valid rest
    | 3, c₁ :: c₂ :: rest => secondOk b c₁ && isCont c₂ && valid rest
    | 4, c₁ :: c₂ :: c₃ :: rest => secondOk b c₁ && isCont c₂ && isCont c₃ && valid rest
    | _, _ => false

/-- `str::is_char_boundary`. -/
def isCharBoundary (s : List UInt8) (index : ℕ) : Bool :=
  if index = 0 then true
  else
    match s[index]? with
    | none => index = s.length
    | some b => !isCont b

/-- `&s[start..stop]` on a `&str`; `none` is the panic of `start > stop` or of an end that is
not a character boundary. -/
def slice (s : List UInt8) (start stop : ℕ) : Option (List UInt8) :=
  if start ≤ stop ∧ isCharBoundary s start ∧ isCharBoundary s stop then
    some ((s.take stop).drop start)
  else none

/-- `&s[start..]` on a `&str`; `none` is the panic of a start that is not a character
boundary. -/
def sliceFrom (s : List UInt8) (start : ℕ) : Option (List UInt8) :=
  if isCharBoundary s start then some (s.drop start) else none

theorem charWidth_of_lt {b : UInt8} (h : b < 0x80) : charWidth b = 1 := by
  simp [charWidth, h]

theorem charWidth_of_isCont {b : UInt8} (h : isCont b = true) : charWidth b = 0 := by
  simp only [isCont, Bool.and_eq_true, decide_eq_true_eq] at h
  simp only [charWidth, UInt8.lt_iff_toNat_lt, UInt8.le_iff_toNat_le] at h ⊢
  split_ifs <;> simp_all <;> omega

@[simp] theorem valid_cons_of_lt {b : UInt8} (h : b < 0x80) (s : List UInt8) :
    valid (b :: s) = valid s := by
  simp [valid, charWidth_of_lt h]

/-- ASCII bytes in front of a valid string keep it valid. -/
theorem valid_ascii_append {a s : List UInt8} (ha : ∀ b ∈ a, b < 0x80) (hs : valid s = true) :
    valid (a ++ s) = true := by
  induction a with
  | nil => exact hs
  | cons b a ih =>
    rw [List.cons_append, valid_cons_of_lt (ha b (by simp))]
    exact ih fun c hc => ha c (by simp [hc])

/-- A valid string does not start with a continuation byte. -/
theorem isCont_head {b : UInt8} {s : List UInt8} (h : valid (b :: s) = true) :
    isCont b = false := by
  by_contra hcont
  rw [Bool.not_eq_false] at hcont
  simp [valid, charWidth_of_isCont hcont] at h

/-- The end of a prefix in front of a valid string is a character boundary. -/
theorem isCharBoundary_append (a : List UInt8) {s : List UInt8} (hs : valid s = true) :
    isCharBoundary (a ++ s) a.length = true := by
  unfold isCharBoundary
  split_ifs with h0
  · rfl
  · cases s with
    | nil => simp
    | cons b s =>
      rw [List.getElem?_append_right le_rfl, Nat.sub_self, List.getElem?_cons_zero]
      simp [isCont_head hs]

/-- The edges of UTF-8: an overlong encoding and a surrogate are refused, a four-byte character
and the last one, U+10FFFF, are accepted, and one past it is refused. -/
example : valid [0xC0, 0x80] = false ∧ valid [0xE0, 0x80, 0x80] = false ∧
    valid [0xED, 0xA0, 0x80] = false ∧ valid [0xF0, 0x9F, 0x98, 0x80] = true ∧
    valid [0xF4, 0x8F, 0xBF, 0xBF] = true ∧ valid [0xF4, 0x90, 0x80, 0x80] = false := by
  decide

theorem isCharBoundary_zero (s : List UInt8) : isCharBoundary s 0 = true := rfl

/-- Slicing at the end of a prefix in front of a valid string. -/
theorem slice_append (a : List UInt8) {s : List UInt8} (hs : valid s = true) :
    slice (a ++ s) 0 a.length = some a := by
  simp [slice, isCharBoundary_zero, isCharBoundary_append a hs]

theorem sliceFrom_append (a : List UInt8) {s : List UInt8} (hs : valid s = true) :
    sliceFrom (a ++ s) a.length = some s := by
  simp [sliceFrom, isCharBoundary_append a hs]

/-! ## `from_str_radix` -/

/-- `char::to_digit(16)` on a byte: `0`–`9`, `a`–`f` and `A`–`F`. -/
def toDigit16 (c : UInt8) : Option ℕ :=
  if 0x30 ≤ c ∧ c ≤ 0x39 then some (c.toNat - 0x30)
  else if 0x61 ≤ c ∧ c ≤ 0x66 then some (c.toNat - 0x61 + 10)
  else if 0x41 ≤ c ∧ c ≤ 0x46 then some (c.toNat - 0x41 + 10)
  else none

/-- The digits' value, each digit shifting the value so far by one place. -/
def digitsValue (digits : List UInt8) : Option ℕ :=
  digits.foldlM (fun acc c => (toDigit16 c).map fun d => acc * 16 + d) 0

/-- `usize::from_str_radix(src, 16)` on a 64-bit target: an optional `+`, then hex digits,
with a value below `2^64` (`PosOverflow` else). A lone sign is `InvalidDigit`, and a `-` is a
digit error for an unsigned type. -/
def fromStrRadix16 (src : List UInt8) : Option ℕ :=
  let parse (digits : List UInt8) : Option ℕ :=
    (digitsValue digits).bind fun v => if v < 2 ^ 64 then some v else none
  match src with
  | [] => none
  | c :: rest =>
    if (c = 0x2B ∨ c = 0x2D) ∧ rest = [] then none
    else if c = 0x2B then parse rest
    else parse (c :: rest)

/-- The value of hex digits. -/
def hexValue (digits : List UInt8) : ℕ :=
  digits.foldl (fun acc c => acc * 16 + (toDigit16 c).getD 0) 0

theorem toDigit16_lt {c : UInt8} {d : ℕ} (h : toDigit16 c = some d) : d < 16 := by
  simp only [toDigit16, UInt8.le_iff_toNat_le] at h
  split_ifs at h <;> simp_all <;> omega

/-- The fold over hex digits from `acc` stays below `(acc + 1) * 16 ^ n`. -/
theorem foldlM_hex (digits : List UInt8) (hd : ∀ c ∈ digits, (toDigit16 c).isSome = true) :
    ∀ acc : ℕ, digits.foldlM (fun acc c => (toDigit16 c).map fun d => acc * 16 + d) acc =
        some (digits.foldl (fun acc c => acc * 16 + (toDigit16 c).getD 0) acc) ∧
      digits.foldl (fun acc c => acc * 16 + (toDigit16 c).getD 0) acc <
        (acc + 1) * 16 ^ digits.length := by
  induction digits with
  | nil => simp
  | cons c digits ih =>
    intro acc
    obtain ⟨d, hc⟩ := Option.isSome_iff_exists.mp (hd c (by simp))
    have hd16 := toDigit16_lt hc
    obtain ⟨hfold, hlt⟩ := ih (fun c' hc' => hd c' (by simp [hc'])) (acc * 16 + d)
    refine ⟨by simp [hc, hfold], ?_⟩
    -- one more digit multiplies the bound by `16`
    calc (c :: digits).foldl (fun acc c => acc * 16 + (toDigit16 c).getD 0) acc
        = digits.foldl (fun acc c => acc * 16 + (toDigit16 c).getD 0) (acc * 16 + d) := by
          simp [hc]
      _ < (acc * 16 + d + 1) * 16 ^ digits.length := hlt
      _ ≤ (acc + 1) * 16 * 16 ^ digits.length :=
          Nat.mul_le_mul_right _ (by omega)
      _ = (acc + 1) * 16 ^ (c :: digits).length := by
          rw [List.length_cons, pow_succ]
          ring

/-- Sixteen hex digits parse to their value. -/
theorem fromStrRadix16_hex {digits : List UInt8} (hlen : digits.length = 16)
    (hd : ∀ c ∈ digits, (toDigit16 c).isSome = true) :
    fromStrRadix16 digits = some (hexValue digits) := by
  obtain ⟨hfold, hlt⟩ := foldlM_hex digits hd 0
  have hval : digitsValue digits = some (hexValue digits) := hfold
  have hbound : hexValue digits < 2 ^ 64 := by
    have h64 : (0 + 1) * 16 ^ digits.length = 2 ^ 64 := by
      rw [hlen]
      norm_num
    exact h64 ▸ hlt
  cases digits with
  | nil => simp at hlen
  | cons c rest =>
    -- a hex digit is no sign
    have hsign : c ≠ 0x2B ∧ c ≠ 0x2D := by
      have := hd c (by simp)
      constructor <;> rintro rfl <;> simp [toDigit16] at this
    simp only [fromStrRadix16, hsign, or_self, false_and, if_false, hval, Option.bind_some]
    rw [if_pos hbound]

end Str
