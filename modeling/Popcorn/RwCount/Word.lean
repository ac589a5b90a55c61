import Mathlib
import Popcorn.RwCount.Basic

/-!
# The fields of the lock word

`pack w u r` is the word with write bit `w`, upgradeable bit `u` and reader count `r`. The
three masks are packs, `&&&` and `|||` of packs act field by field, and the count takes
`+ 1` and `- 1` as a number while it stays inside its 62 bits. With these lemmas each pass
of the lock is arithmetic on the three fields (`tryLockSharedPass_pack` and the others).
-/

namespace Popcorn.RwCount

/-- The word with write bit `w`, upgradeable bit `u` and reader count `r`. -/
def pack (w u : Bool) (r : Nat) : BitVec 64 :=
  BitVec.ofNat 64 (2 ^ 62 * (2 * w.toNat + u.toNat) + r)

section Pack

variable {w u x y : Bool} {r s : Nat}

theorem toNat_pack (hr : r < 2 ^ 62) :
    (pack w u r).toNat = w.toNat * 2 ^ 63 + u.toNat * 2 ^ 62 + r := by
  have hw := Bool.toNat_le w
  have hu := Bool.toNat_le u
  rw [pack, BitVec.toNat_ofNat, Nat.mod_eq_of_lt (by omega)]
  omega

theorem getLsbD_pack (hr : r < 2 ^ 62) (i : Nat) :
    (pack w u r).getLsbD i =
      if i < 62 then r.testBit i else if i = 62 then u else if i = 63 then w else false := by
  rw [pack, BitVec.getLsbD_ofNat, Nat.testBit_two_pow_mul_add _ hr]
  by_cases h62 : i < 62
  · simp [h62, show i < 64 by omega]
  · by_cases h63 : i = 62
    · subst h63
      cases w <;> cases u <;> simp
    · by_cases h64 : i = 63
      · subst h64
        cases w <;> cases u <;> simp <;> decide
      · -- above the write bit the word is zero
        have htop : 2 * w.toNat + u.toNat < 2 ^ (i - 62) := by
          have : 2 ^ 2 ≤ 2 ^ (i - 62) := Nat.pow_le_pow_right (by norm_num) (by omega)
          cases w <;> cases u <;> simp <;> omega
        simp [h62, h63, h64, Nat.testBit_lt_two_pow htop]

theorem pack_and (hr : r < 2 ^ 62) (hs : s < 2 ^ 62) :
    pack w u r &&& pack x y s = pack (w && x) (u && y) (r &&& s) := by
  have hand : r &&& s < 2 ^ 62 := Nat.and_lt_two_pow r hs
  apply BitVec.eq_of_getLsbD_eq
  intro i _
  rw [BitVec.getLsbD_and, getLsbD_pack hr, getLsbD_pack hs, getLsbD_pack hand]
  split_ifs <;> simp [Nat.testBit_and]

theorem pack_or (hr : r < 2 ^ 62) (hs : s < 2 ^ 62) :
    pack w u r ||| pack x y s = pack (w || x) (u || y) (r ||| s) := by
  have hor : r ||| s < 2 ^ 62 := Nat.or_lt_two_pow hr hs
  apply BitVec.eq_of_getLsbD_eq
  intro i _
  rw [BitVec.getLsbD_or, getLsbD_pack hr, getLsbD_pack hs, getLsbD_pack hor]
  split_ifs <;> simp [Nat.testBit_or]

theorem pack_inj (hr : r < 2 ^ 62) (hs : s < 2 ^ 62) :
    pack w u r = pack x y s ↔ w = x ∧ u = y ∧ r = s := by
  constructor
  · intro h
    have h' := congrArg BitVec.toNat h
    rw [toNat_pack hr, toNat_pack hs] at h'
    cases w <;> cases u <;> cases x <;> cases y <;> simp at h' ⊢ <;> omega
  · rintro ⟨rfl, rfl, rfl⟩
    rfl

/-- The count takes one more reader as a number. -/
theorem pack_add_one (hr : r + 1 < 2 ^ 62) : pack false false r + 1 = pack false false (r + 1) := by
  have hone : (1 : BitVec 64).toNat = 1 := rfl
  apply BitVec.eq_of_toNat_eq
  rw [BitVec.toNat_add, toNat_pack (by omega), toNat_pack hr, hone]
  simp only [Bool.toNat_false, zero_mul, zero_add]
  omega

/-- The count takes one reader less as a number. -/
theorem pack_sub_one (hr : 1 ≤ r) (hr' : r < 2 ^ 62) :
    pack false false r - 1 = pack false false (r - 1) := by
  have hone : (1 : BitVec 64).toNat = 1 := rfl
  apply BitVec.eq_of_toNat_eq
  rw [BitVec.toNat_sub, toNat_pack hr', toNat_pack (by omega), hone]
  simp only [Bool.toNat_false, zero_mul, zero_add]
  omega

end Pack

/-! ## The constants of `RwCount` -/

theorem writeBitMask_eq : writeBitMask = pack true false 0 := by decide

theorem upgradeableBitMask_eq : upgradeableBitMask = pack false true 0 := by decide

theorem readCountMask_eq : readCountMask = pack false false (2 ^ 62 - 1) := by decide

theorem not_upgradeableBitMask_eq : ~~~upgradeableBitMask = pack true false (2 ^ 62 - 1) := by
  decide

theorem zero_eq_pack : (0 : BitVec 64) = pack false false 0 := by decide

theorem one_eq_pack : (1 : BitVec 64) = pack false false 1 := by decide

/-! ## Each pass on a packed word -/

section Passes

variable {w u : Bool} {r : Nat}

/-- The count field of a word, kept in place (`old & READ_COUNT_MASK`). -/
theorem pack_and_readCountMask (hr : r < 2 ^ 62) :
    pack w u r &&& readCountMask = pack false false r := by
  rw [readCountMask_eq, pack_and hr (by norm_num), Nat.and_two_pow_sub_one_eq_mod,
    Nat.mod_eq_of_lt hr]
  simp

theorem pack_and_writeBitMask (hr : r < 2 ^ 62) :
    pack w u r &&& writeBitMask = pack w false 0 := by
  rw [writeBitMask_eq, pack_and hr (by norm_num)]
  simp

theorem pack_and_upgradeableBitMask (hr : r < 2 ^ 62) :
    pack w u r &&& upgradeableBitMask = pack false u 0 := by
  rw [upgradeableBitMask_eq, pack_and hr (by norm_num)]
  simp

theorem pack_and_not_upgradeableBitMask (hr : r < 2 ^ 62) :
    pack w u r &&& ~~~upgradeableBitMask = pack w false r := by
  rw [not_upgradeableBitMask_eq, pack_and hr (by norm_num), Nat.and_two_pow_sub_one_eq_mod,
    Nat.mod_eq_of_lt hr]
  simp

theorem pack_eq_zero_iff (hr : r < 2 ^ 62) :
    pack w u r = 0 ↔ w = false ∧ u = false ∧ r = 0 := by
  rw [zero_eq_pack, pack_inj hr (by norm_num)]

theorem tryLockSharedPass_pack (hr : r < 2 ^ 62) :
    tryLockSharedPass (pack w u r) =
      if r = 2 ^ 62 - 1 then .panic else if w then .done else .cas (pack false u (r + 1)) := by
  unfold tryLockSharedPass
  dsimp only
  rw [pack_and_readCountMask hr, pack_and_writeBitMask hr, pack_and_upgradeableBitMask hr]
  simp only [readCountMask_eq, pack_inj hr (by norm_num : 2 ^ 62 - 1 < 2 ^ 62), ne_eq,
    pack_eq_zero_iff (by norm_num : 0 < 2 ^ 62), true_and, and_true, Bool.not_eq_false]
  by_cases hfull : r = 2 ^ 62 - 1
  · simp [hfull]
  · cases w
    · -- no writer: one reader more, the upgradeable bit kept
      rw [pack_add_one (r := r) (by omega), pack_or (r := r + 1) (s := 0) (by omega) (by norm_num)]
      simp
    · simp

theorem unlockSharedPass_pack (d : Bool) (hr : 1 ≤ r) (hr' : r < 2 ^ 62) :
    unlockSharedPass d (pack false u r) = .cas (pack false u (r - 1)) := by
  unfold unlockSharedPass
  dsimp only
  rw [pack_and_writeBitMask hr', pack_and_not_upgradeableBitMask hr',
    pack_and_upgradeableBitMask hr', pack_sub_one hr hr',
    pack_or (r := r - 1) (s := 0) (by omega) (by norm_num)]
  simp only [ne_eq, pack_eq_zero_iff (by norm_num : 0 < 2 ^ 62), pack_eq_zero_iff hr']
  have hr0 : r ≠ 0 := by omega
  simp [hr0]

theorem tryLockUpgradablePass_pack (hr : r < 2 ^ 62) :
    tryLockUpgradablePass (pack w u r) = if w || u then .done else .cas (pack false true r) := by
  unfold tryLockUpgradablePass
  rw [pack_and_writeBitMask hr, pack_and_upgradeableBitMask hr, upgradeableBitMask_eq,
    pack_or (s := 0) hr (by norm_num)]
  simp only [ne_eq, pack_eq_zero_iff (by norm_num : 0 < 2 ^ 62)]
  cases w <;> cases u <;> simp

theorem unlockUpgradablePass_pack (d : Bool) (hr : r < 2 ^ 62) :
    unlockUpgradablePass d (pack false u r) = .cas (pack false false r) := by
  unfold unlockUpgradablePass
  rw [pack_and_writeBitMask hr, pack_and_not_upgradeableBitMask hr]
  simp only [ne_eq, pack_eq_zero_iff (by norm_num : 0 < 2 ^ 62)]
  simp

theorem downgradeUpgradablePass_pack (d : Bool) (hr : r < 2 ^ 62) :
    downgradeUpgradablePass d (pack false u r) =
      if r = 2 ^ 62 - 1 then .panic else .cas (pack false false (r + 1)) := by
  unfold downgradeUpgradablePass
  dsimp only
  rw [pack_and_writeBitMask hr, pack_and_readCountMask hr]
  simp only [readCountMask_eq, pack_inj hr (by norm_num : 2 ^ 62 - 1 < 2 ^ 62), ne_eq,
    pack_eq_zero_iff (by norm_num : 0 < 2 ^ 62), true_and]
  by_cases hfull : r = 2 ^ 62 - 1
  · simp [hfull]
  · rw [pack_add_one (r := r) (by omega)]
    simp

end Passes

end Popcorn.RwCount
