import Mathlib

/-!
# Bits of a machine word

Lemmas about the few idioms that bitmap and flag code writes with a machine word
`BitVec w`: setting and clearing one bit (`x | 1 << i`, `x & !(1 << i)`), testing one bit
(`x & (1 << i) == 0`, `(x >> i) & 1 == 1`), the mask of the `n` low bits written
`(2 << (n - 1)) - 1`, windows of that mask slid along a word, and `trailing_zeros`
(`BitVec.ctz`). Each is stated through `getLsbD`, so that a proof about a word is a proof
about its bits. Last, the bit fields of an address or an entry, cut out with a mask of `k`
ones at bit `s` (`(x & mask) >> s`), the low bits cleared to align a value down, one bit
cleared, and a field written over the rest of a word. Last, rounding down and up to a multiple
as the greatest and the least multiple on either side (`isGreatest_div_mul`,
`isLeast_add_sub_one_div_mul`).
-/

namespace Word

variable {w : Nat}

/-! ## One bit -/

/-- Setting bit `i` (`x | 1 << i`) changes only bit `i`. -/
theorem getLsbD_or_shiftLeft_one (x : BitVec w) {i : Nat} (hi : i < w) (j : Nat) :
    (x ||| 1#w <<< i).getLsbD j = (x.getLsbD j || decide (j = i)) := by
  by_cases hj : j < w
  · by_cases hji : j = i
    · subst hji
      simp [hi]
    · have : j - i ≠ 0 ∨ j < i := by omega
      simp only [BitVec.getLsbD_or, BitVec.getLsbD_shiftLeft, BitVec.getLsbD_one, hji,
        decide_false, Bool.or_false]
      rcases this with h | h <;> simp [h]
  · have hji : j ≠ i := by omega
    simp [BitVec.getLsbD_of_ge x j (by omega), hji, hj]

/-- Clearing bit `i` (`x & !(1 << i)`) changes only bit `i`. -/
theorem getLsbD_and_not_shiftLeft_one (x : BitVec w) {i : Nat} (hi : i < w) (j : Nat) :
    (x &&& ~~~(1#w <<< i)).getLsbD j = (x.getLsbD j && !decide (j = i)) := by
  by_cases hj : j < w
  · by_cases hji : j = i
    · subst hji
      simp [hi]
    · have : j - i ≠ 0 ∨ j < i := by omega
      simp only [BitVec.getLsbD_and, BitVec.getLsbD_not, BitVec.getLsbD_shiftLeft,
        BitVec.getLsbD_one, hji, decide_false, Bool.not_false, Bool.and_true, hj,
        decide_true, Bool.true_and]
      rcases this with h | h <;> simp [h]
  · simp [BitVec.getLsbD_of_ge x j (by omega)]

/-- `x & (1 << i) == 0` says that bit `i` is clear. -/
theorem and_shiftLeft_one_eq_zero_iff (x : BitVec w) {i : Nat} (hi : i < w) :
    x &&& 1#w <<< i = 0 ↔ x.getLsbD i = false := by
  constructor
  · intro h
    have := congrArg (fun y => y.getLsbD i) h
    simpa [hi] using this
  · intro h
    apply BitVec.eq_of_getLsbD_eq
    intro j hj
    by_cases hji : j = i
    · subst hji
      simp [h]
    · have : j - i ≠ 0 ∨ j < i := by omega
      rcases this with h' | h' <;> simp [h']

/-- `(x >> i) & 1 == 1` says that bit `i` is set. -/
theorem ushiftRight_and_one_eq_one_iff (x : BitVec w) (hw : 0 < w) (i : Nat) :
    (x >>> i) &&& 1#w = 1#w ↔ x.getLsbD i = true := by
  constructor
  · intro h
    have := congrArg (fun y => y.getLsbD 0) h
    simpa [hw] using this
  · intro h
    apply BitVec.eq_of_getLsbD_eq
    intro j hj
    by_cases hj0 : j = 0
    · subst hj0
      simp [hw, h]
    · simp [hj0]

/-! ## Low masks and windows -/

/-- The mask of the `n` low bits, as a value. -/
def lowMask (w n : Nat) : BitVec w := BitVec.ofNat w (2 ^ n - 1)

theorem getLsbD_lowMask {n : Nat} (hn : n ≤ w) (j : Nat) :
    (lowMask w n).getLsbD j = decide (j < n) := by
  by_cases hj : j < w
  · rw [lowMask, BitVec.getLsbD_ofNat]
    simp [Nat.testBit_two_pow_sub_one, hj]
  · rw [BitVec.getLsbD_of_ge (lowMask w n) j (by omega)]
    simp only [false_eq_decide_iff, not_lt]
    omega

/-- `(2 << (n - 1)) - 1`, for `0 < n < w`, is the mask of the `n` low bits. -/
theorem two_shiftLeft_sub_one_eq_lowMask {n : Nat} (hn : 0 < n) (hnw : n < w) :
    (2#w <<< (n - 1)) - 1#w = lowMask w n := by
  have hpow : 2 ^ n < 2 ^ w := Nat.pow_lt_pow_right (by norm_num) hnw
  have hone : 1 < 2 ^ w := Nat.one_lt_two_pow (by omega)
  have htwo : 2 % 2 ^ w = 2 := Nat.mod_eq_of_lt (by
    have : 2 ^ 1 ≤ 2 ^ (n - 1 + 1) := Nat.pow_le_pow_right (by norm_num) (by omega)
    have h' : n - 1 + 1 = n := by omega
    rw [h'] at this
    omega)
  have hshift : (2#w <<< (n - 1)).toNat = 2 ^ n := by
    rw [BitVec.toNat_shiftLeft, BitVec.toNat_ofNat, htwo, Nat.shiftLeft_eq]
    have : 2 * 2 ^ (n - 1) = 2 ^ n := by
      rw [← Nat.pow_succ']
      congr 1
      omega
    rw [this, Nat.mod_eq_of_lt hpow]
  apply BitVec.eq_of_toNat_eq
  have hpos : 1 ≤ 2 ^ n := Nat.one_le_two_pow
  have hsum : 2 ^ w - 1 + 2 ^ n = (2 ^ n - 1) + 2 ^ w := by omega
  rw [BitVec.toNat_sub, hshift, lowMask, BitVec.toNat_ofNat, BitVec.toNat_ofNat,
    Nat.mod_eq_of_lt hone, hsum, Nat.add_mod_right]

/-- The window test `(x >> s) & m == m`, with `m` the `n` low bits, says that bits
`s .. s + n` of `x` are all set. -/
theorem ushiftRight_and_lowMask_eq_iff (x : BitVec w) (s : Nat) {n : Nat} (hn : n ≤ w) :
    (x >>> s) &&& lowMask w n = lowMask w n ↔ ∀ j < n, x.getLsbD (s + j) = true := by
  constructor
  · intro h j hj
    have := congrArg (fun y => y.getLsbD j) h
    simp only [BitVec.getLsbD_and, BitVec.getLsbD_ushiftRight, getLsbD_lowMask hn,
      hj, decide_true, Bool.and_true] at this
    exact this
  · intro h
    apply BitVec.eq_of_getLsbD_eq
    intro j hj
    simp only [BitVec.getLsbD_and, BitVec.getLsbD_ushiftRight, getLsbD_lowMask hn]
    by_cases hjn : j < n
    · simp [hjn, h j hjn]
    · simp [hjn]

/-- Clearing the window of `n` bits at `s` (`x & !(m << s)`) changes only those bits. -/
theorem getLsbD_and_not_lowMask_shiftLeft (x : BitVec w) (s : Nat) {n : Nat} (hn : n ≤ w)
    (j : Nat) :
    (x &&& ~~~(lowMask w n <<< s)).getLsbD j = (x.getLsbD j && !decide (s ≤ j ∧ j < s + n)) := by
  by_cases hj : j < w
  · simp only [BitVec.getLsbD_and, BitVec.getLsbD_not, BitVec.getLsbD_shiftLeft,
      getLsbD_lowMask hn, hj, decide_true, Bool.true_and]
    by_cases hjs : j < s
    · simp [hjs, show ¬ s ≤ j by omega]
    · by_cases hjn : j < s + n
      · simp [hjs, show s ≤ j by omega, hjn, show j - s < n by omega]
      · simp [hjs, hjn, show ¬ j - s < n by omega]
  · simp [BitVec.getLsbD_of_ge x j (by omega)]

/-! ## `trailing_zeros` -/

private theorem toNat_natCast_self : (w : BitVec w).toNat = w := by
  simp [Nat.mod_eq_of_lt Nat.lt_two_pow_self]

/-- `trailing_zeros` is the width exactly for the zero word. -/
theorem ctz_toNat_eq_iff (x : BitVec w) : x.ctz.toNat = w ↔ x = 0#w := by
  constructor
  · intro h
    by_contra hx
    have hlt := BitVec.ctz_lt_iff_ne_zero.mpr hx
    rw [BitVec.lt_def, h, toNat_natCast_self] at hlt
    omega
  · rintro rfl
    have h0 : (0#w).reverse = 0#w := by
      apply BitVec.eq_of_getLsbD_eq
      intro i hi
      simp [BitVec.getLsbD_reverse]
    rw [BitVec.ctz_eq_reverse_clz, h0, BitVec.clz_eq_iff_eq_zero.mpr rfl, toNat_natCast_self]

/-- A non-zero word has its lowest set bit at `trailing_zeros`, below the width. -/
theorem ctz_toNat_lt (x : BitVec w) (hx : x ≠ 0#w) : x.ctz.toNat < w := by
  have hlt := BitVec.ctz_lt_iff_ne_zero.mpr hx
  rwa [BitVec.lt_def, toNat_natCast_self] at hlt

/-! ## Bit fields -/

/-- The field of `k` bits at bit `s` of `x`, kept in place by its mask. -/
theorem and_field_eq (x k s : Nat) : x &&& (2 ^ k - 1) * 2 ^ s = x / 2 ^ s % 2 ^ k * 2 ^ s := by
  apply Nat.eq_of_testBit_eq
  intro i
  simp only [Nat.testBit_and, Nat.testBit_mul_two_pow, Nat.testBit_two_pow_sub_one,
    Nat.testBit_mod_two_pow, Nat.testBit_div_two_pow]
  by_cases hi : s ≤ i
  · have hidx : i - s + s = i := by omega
    simp [hi, hidx, Bool.and_comm]
  · simp [hi]

/-- The field of `k` bits at bit `s` of `x`, shifted down (`(x & mask) >> s`). -/
theorem and_field_shiftRight (x k s : Nat) :
    (x &&& (2 ^ k - 1) * 2 ^ s) >>> s = x / 2 ^ s % 2 ^ k := by
  rw [and_field_eq, Nat.shiftRight_eq_div_pow, Nat.mul_div_cancel _ (Nat.two_pow_pos s)]

/-- A value already inside the field is kept whole by its mask. -/
theorem mul_two_pow_and_field {n k s : Nat} (hn : n < 2 ^ k) :
    n * 2 ^ s &&& (2 ^ k - 1) * 2 ^ s = n * 2 ^ s := by
  rw [and_field_eq, Nat.mul_div_cancel _ (Nat.two_pow_pos s), Nat.mod_eq_of_lt hn]

/-- Clearing the `s` low bits of a `w`-bit value (`x & !(2^s - 1)`) rounds it down to a
multiple of `2 ^ s`. -/
theorem and_not_lowBits_eq {x s : Nat} (hs : s ≤ w) (hx : x < 2 ^ w) :
    x &&& (2 ^ w - 1 - (2 ^ s - 1)) = x / 2 ^ s * 2 ^ s := by
  -- the mask is the field of the `w - s` bits from bit `s`
  have hpow : 2 ^ w = 2 ^ (w - s) * 2 ^ s := by rw [← Nat.pow_add, Nat.sub_add_cancel hs]
  have hmask : 2 ^ w - 1 - (2 ^ s - 1) = (2 ^ (w - s) - 1) * 2 ^ s := by
    have hone : 1 ≤ 2 ^ s := Nat.one_le_two_pow
    have hle : 2 ^ s ≤ 2 ^ w := Nat.pow_le_pow_right (by decide) hs
    rw [Nat.sub_one_mul, ← hpow]
    omega
  have hq : x / 2 ^ s < 2 ^ (w - s) := by
    rw [Nat.div_lt_iff_lt_mul (Nat.two_pow_pos s), ← hpow]
    exact hx
  rw [hmask, and_field_eq, Nat.mod_eq_of_lt hq]

/-- Clearing bit `s` of a `w`-bit value (`x & !(1 << s)`) keeps the bits above it and the
bits below it. -/
theorem and_not_two_pow_eq {x s : Nat} (hs : s < w) (hx : x < 2 ^ w) :
    x &&& (2 ^ w - 1 - 2 ^ s) = x / 2 ^ (s + 1) * 2 ^ (s + 1) + x % 2 ^ s := by
  -- the mask is the `w - s - 1` bits from bit `s + 1` on, and the `s` bits below bit `s`
  have hpow : 2 ^ w = 2 ^ (w - (s + 1)) * 2 ^ (s + 1) := by
    rw [← Nat.pow_add, Nat.sub_add_cancel hs]
  have hmask : 2 ^ w - 1 - 2 ^ s = (2 ^ (w - (s + 1)) - 1) * 2 ^ (s + 1) + (2 ^ s - 1) := by
    have hs1 : 2 ^ (s + 1) = 2 * 2 ^ s := by rw [Nat.pow_succ, Nat.mul_comm]
    have hone : 1 ≤ 2 ^ s := Nat.one_le_two_pow
    have hle : 2 ^ (s + 1) ≤ 2 ^ w := Nat.pow_le_pow_right (by decide) hs
    rw [Nat.sub_one_mul, ← hpow]
    omega
  have hlow : 2 ^ s - 1 < 2 ^ (s + 1) := by
    have := Nat.pow_lt_pow_right (a := 2) (by decide) (Nat.lt_succ_self s)
    omega
  have hdiv : (2 ^ w - 1 - 2 ^ s) / 2 ^ (s + 1) = 2 ^ (w - (s + 1)) - 1 := by
    rw [hmask, Nat.add_comm, Nat.add_mul_div_right _ _ (Nat.two_pow_pos _),
      Nat.div_eq_of_lt hlow, Nat.zero_add]
  have hmod : (2 ^ w - 1 - 2 ^ s) % 2 ^ (s + 1) = 2 ^ s - 1 := by
    rw [hmask, Nat.add_comm, Nat.add_mul_mod_self_right, Nat.mod_eq_of_lt hlow]
  have hq : x / 2 ^ (s + 1) < 2 ^ (w - (s + 1)) := by
    rw [Nat.div_lt_iff_lt_mul (Nat.two_pow_pos _), ← hpow]
    exact hx
  calc x &&& (2 ^ w - 1 - 2 ^ s)
      = (x &&& (2 ^ w - 1 - 2 ^ s)) / 2 ^ (s + 1) * 2 ^ (s + 1) +
          (x &&& (2 ^ w - 1 - 2 ^ s)) % 2 ^ (s + 1) := (Nat.div_add_mod' _ _).symm
    _ = x / 2 ^ (s + 1) * 2 ^ (s + 1) + x % 2 ^ s := by
      rw [Nat.and_div_two_pow, hdiv, Nat.and_two_pow_sub_one_of_lt_two_pow hq,
        Nat.and_mod_two_pow, hmod, Nat.and_two_pow_sub_one_eq_mod,
        Nat.mod_mod_of_dvd _ (Nat.pow_dvd_pow 2 (Nat.le_succ s))]

/-- Writing a field over a word (`(x & !mask) | (y & mask) | flags`, with flags outside the
field) leaves in the field what was written. -/
theorem or_and_not_and_eq {x y m c : BitVec w} (hc : c &&& m = 0#w) :
    ((x &&& ~~~m) ||| (y &&& m) ||| c) &&& m = y &&& m := by
  rw [BitVec.and_or_distrib_right, BitVec.and_or_distrib_right, hc, BitVec.and_assoc,
    BitVec.not_and_self, BitVec.and_assoc, BitVec.and_self]
  simp

/-! ## Rounding to a multiple -/

/-- `x / n * n` is the greatest multiple of `n` at most `x`. -/
theorem isGreatest_div_mul (x : Nat) {n : Nat} (hn : 0 < n) :
    IsGreatest {m | n ∣ m ∧ m ≤ x} (x / n * n) := by
  refine ⟨⟨Nat.dvd_mul_left n _, Nat.div_mul_le_self x n⟩, ?_⟩
  rintro m ⟨⟨c, rfl⟩, hm⟩
  -- `c` multiples of `n` fit below `x`, so `c ≤ x / n`
  have hc : c ≤ x / n := (Nat.le_div_iff_mul_le hn).mpr (by rwa [Nat.mul_comm] at hm)
  calc n * c = c * n := Nat.mul_comm n c
    _ ≤ x / n * n := Nat.mul_le_mul_right n hc

/-- `(x + n - 1) / n * n` is the least multiple of `n` at least `x`. -/
theorem isLeast_add_sub_one_div_mul (x : Nat) {n : Nat} (hn : 0 < n) :
    IsLeast {m | n ∣ m ∧ x ≤ m} ((x + n - 1) / n * n) := by
  refine ⟨⟨Nat.dvd_mul_left n _, ?_⟩, ?_⟩
  · have := Nat.lt_div_mul_add (a := x + n - 1) hn
    omega
  · rintro m ⟨⟨c, rfl⟩, hm⟩
    -- `x + n - 1` lies below `c + 1` multiples of `n`, so its quotient is at most `c`
    have hc : (x + n - 1) / n ≤ c := by
      rw [Nat.div_le_iff_le_mul_add_pred hn]
      omega
    calc (x + n - 1) / n * n ≤ c * n := Nat.mul_le_mul_right n hc
      _ = n * c := Nat.mul_comm c n

end Word
