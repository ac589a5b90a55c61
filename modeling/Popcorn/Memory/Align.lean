import Popcorn.Acpi.Handler
import Popcorn.DefaultHeap.Theorems

/-!
# Aligning addresses

`PhysicalAddress` and `VirtualAddress` each round an address down to a multiple of an
alignment, `addr & !(align - 1)`, and up, `(addr + align - 1) & !(align - 1)`; the
alignment is a const generic in `align_down` and `align_up` and an argument in
`align_down_runtime` and `align_up_runtime`. The eight functions are two computations:
`DefaultHeap.alignDownRuntime` and `DefaultHeap.alignUpRuntime`, first modelled where the
heap and the ACPI handler call them, whose sum `addr + align` panics (`none`) when it
overflows a `usize`. The members the earlier modules did not need are added here.

For a power-of-two alignment `2 ^ k` the mask rounds down to the greatest multiple at most
the address (`alignDownRuntime_isGreatest`), and up to the least multiple at least it
wherever `addr + 2 ^ k` fits (`alignUpRuntime_isLeast`); an aligned address is kept
(`alignDownRuntime_of_dvd`, `alignUpRuntime_of_dvd`), so both are idempotent. Rust adds
`addr + align` before it subtracts `1`, so the sum overflows one address too early: the top
multiple of the alignment, `2^64 - 2^k`, whose rounding up is itself, panics
(`alignUp_panics_at_top`).
-/

namespace Popcorn

/-- `PhysicalAddress::align_down_runtime`. -/
def PhysicalAddress.alignDownRuntime (addr newAlignment : ℕ) : ℕ :=
  DefaultHeap.alignDownRuntime addr newAlignment

/-- `PhysicalAddress::align_up_runtime`: `addr + new_alignment - 1`, whose first sum panics on
overflow, rounded down as by `align_down_runtime`. -/
def PhysicalAddress.alignUpRuntime (addr newAlignment : ℕ) : Option ℕ :=
  DefaultHeap.alignUpRuntime addr newAlignment

/-- `VirtualAddress::align_up::<NEW_ALIGN>`. -/
def VirtualAddress.alignUp (addr newAlign : ℕ) : Option ℕ :=
  DefaultHeap.alignUpRuntime addr newAlign

namespace DefaultHeap

variable {x k : ℕ}

/-- `align_up_runtime` panics exactly where `addr + new_alignment` overflows. -/
theorem alignUpRuntime_eq_none_iff {n : ℕ} : alignUpRuntime x n = none ↔ 2 ^ 64 ≤ x + n := by
  rw [alignUpRuntime, ite_eq_left_iff]
  simp only [reduceCtorEq, imp_false, not_not]

/-- `align_down` to `2 ^ k` is the greatest multiple of `2 ^ k` at most the address. -/
theorem alignDownRuntime_isGreatest (hk : k ≤ 64) (hx : x < 2 ^ 64) :
    IsGreatest {m | 2 ^ k ∣ m ∧ m ≤ x} (alignDownRuntime x (2 ^ k)) := by
  rw [alignDownRuntime_two_pow hk hx]
  exact Word.isGreatest_div_mul x (Nat.two_pow_pos k)

/-- `align_up` to `2 ^ k`, wherever `addr + 2 ^ k` fits in a `usize`, is the least multiple of
`2 ^ k` at least the address. -/
theorem alignUpRuntime_isLeast (hk : k ≤ 64) (hfit : x + 2 ^ k < 2 ^ 64) :
    ∃ m, alignUpRuntime x (2 ^ k) = some m ∧ IsLeast {m | 2 ^ k ∣ m ∧ x ≤ m} m :=
  ⟨_, alignUpRuntime_two_pow hk hfit, Word.isLeast_add_sub_one_div_mul x (Nat.two_pow_pos k)⟩

/-- An address already aligned is its own rounding down; so rounding down is idempotent. -/
theorem alignDownRuntime_of_dvd (hk : k ≤ 64) (hx : x < 2 ^ 64) (hdvd : 2 ^ k ∣ x) :
    alignDownRuntime x (2 ^ k) = x := by
  rw [alignDownRuntime_two_pow hk hx, Nat.div_mul_cancel hdvd]

/-- An address already aligned, below the top multiple, is its own rounding up; so rounding
up is idempotent wherever it does not panic. -/
theorem alignUpRuntime_of_dvd (hk : k ≤ 64) (hfit : x + 2 ^ k < 2 ^ 64) (hdvd : 2 ^ k ∣ x) :
    alignUpRuntime x (2 ^ k) = some x := by
  obtain ⟨m, hm, hleast⟩ := alignUpRuntime_isLeast hk hfit
  rw [hm, Option.some_inj]
  -- `x` is a multiple at least `x`, and `m` one at most it
  exact le_antisymm (hleast.2 ⟨hdvd, le_rfl⟩) hleast.1.2

end DefaultHeap

/-- `align_up` to `2 ^ k` of the top multiple of `2 ^ k` in a `usize`, `2^64 - 2^k`, which
`addr + 2^k - 1 ≤ usize::MAX` admits and which is its own rounding up, panics in all four
forms: `addr + 2 ^ k` overflows before the `- 1`. -/
theorem alignUp_panics_at_top (k : ℕ) (hk : k < 64) :
    2 ^ 64 - 2 ^ k + 2 ^ k - 1 ≤ 2 ^ 64 - 1 ∧ 2 ^ k ∣ 2 ^ 64 - 2 ^ k ∧
      Acpi.PhysicalAddress.alignUp (2 ^ 64 - 2 ^ k) (2 ^ k) = none ∧
      PhysicalAddress.alignUpRuntime (2 ^ 64 - 2 ^ k) (2 ^ k) = none ∧
      VirtualAddress.alignUp (2 ^ 64 - 2 ^ k) (2 ^ k) = none ∧
      DefaultHeap.alignUpRuntime (2 ^ 64 - 2 ^ k) (2 ^ k) = none := by
  have hle : 2 ^ k ≤ 2 ^ 64 := Nat.pow_le_pow_right (by decide) hk.le
  have hpanic : DefaultHeap.alignUpRuntime (2 ^ 64 - 2 ^ k) (2 ^ k) = none :=
    DefaultHeap.alignUpRuntime_eq_none_iff.mpr (by omega)
  refine ⟨by omega, Nat.dvd_sub (Nat.pow_dvd_pow 2 hk.le) dvd_rfl, hpanic, hpanic, hpanic, hpanic⟩

theorem alignUp_panics_at_top_page :
    (12 < 64) ∧ (2 ^ 64 - 2 ^ 12 + 2 ^ 12 - 1 ≤ 2 ^ 64 - 1 ∧ 2 ^ 12 ∣ 2 ^ 64 - 2 ^ 12 ∧
      Acpi.PhysicalAddress.alignUp (2 ^ 64 - 2 ^ 12) (2 ^ 12) = none ∧
      PhysicalAddress.alignUpRuntime (2 ^ 64 - 2 ^ 12) (2 ^ 12) = none ∧
      VirtualAddress.alignUp (2 ^ 64 - 2 ^ 12) (2 ^ 12) = none ∧
      DefaultHeap.alignUpRuntime (2 ^ 64 - 2 ^ 12) (2 ^ 12) = none) :=
  ⟨by decide, alignUp_panics_at_top 12 (by decide)⟩

end Popcorn
