import Popcorn.Memory.Frame
import Popcorn.Lib.Checked
import Popcorn.RangedBtreeAllocator.Basic

/-!
# Frame and page arithmetic on `usize` addresses

`kernel_api::memory::type_ops` gives `Frame` and `Page` their arithmetic on the `usize`
address of their base: `Add<usize>` moves a base `rhs * PAGE_SIZE` bytes on, `Sub` divides
the difference of two bases by `PAGE_SIZE`, and the `Step` impls that `Range<Frame>` and
`Range<Page>` iterate with do the same with `checked_mul`, `checked_add` and `checked_sub`.
`Frame::checked_sub` subtracts `rhs * PAGE_SIZE` from the base with `checked_sub`, but forms
the product with a plain `*`.

`Frame.lean` models a frame by its number, with no bound; here the operations are the
source's on the base's address `start`, with every `usize` sum, difference and product
checked: `none` is the `None` of a checked operation, and the panic of a plain one. Each is
one of three computations on an address (`PageAddr`), applied to a frame's or a page's base,
and the frame or page it builds (`PhysicalAddress::<1>::new(base).align_unchecked()`) is
the one of that address (`Frame.ofBase`); `Page - Page` is the B-tree allocator's `Page.sub`,
which divides the same difference (`Page.sub_eq_stepsBetween`). Each comes back to `Frame.lean`'s arithmetic
(`Frame.forwardChecked_eq`, `Frame.backwardChecked_eq`, `Frame.stepsBetween_eq`): on frames
below `2^64` the three `Step` functions agree with one another, with `+` and with `-`. So
does `checked_sub` wherever `rhs * PAGE_SIZE` fits in a `usize` (`Frame.checkedSubAddr_eq`);
from `2^52` pages on, the product overflows and `checked_sub` panics where
`backward_checked` answers `None`.
-/

namespace Popcorn

/-! ## Addresses -/

namespace PageAddr

/-- `base + count * PAGE_SIZE` on `usize`s: the product, then the sum, `none` when either
overflows. -/
def up (base count : ℕ) : Option ℕ :=
  (Checked.mul 64 count pageSize).bind fun addrOffset => Checked.add 64 base addrOffset

/-- `base - count * PAGE_SIZE` on `usize`s: the product, `none` when it overflows, then the
difference, `none` below zero. -/
def down (base count : ℕ) : Option ℕ :=
  (Checked.mul 64 count pageSize).bind fun addrOffset => Checked.sub base addrOffset

/-- `(stop - start) / PAGE_SIZE` on `usize`s, `none` below zero. -/
def pagesBetween (start stop : ℕ) : Option ℕ :=
  (Checked.sub stop start).map (· / pageSize)

theorem up_mul (i n : ℕ) :
    up (i * pageSize) n =
      if (i + n) * pageSize < 2 ^ 64 then some ((i + n) * pageSize) else none := by
  have hsum : i * pageSize + n * pageSize = (i + n) * pageSize := (Nat.add_mul i n pageSize).symm
  by_cases hfit : (i + n) * pageSize < 2 ^ 64
  · -- the product is at most the sum, so neither overflows
    have hmul : n * pageSize < 2 ^ 64 := by omega
    rw [if_pos hfit, up, Checked.mul, if_pos hmul, Option.bind_some, Checked.add, hsum,
      if_pos hfit]
  · rw [if_neg hfit, up, Option.bind_eq_none_iff]
    intro addrOffset hmul
    obtain ⟨-, rfl⟩ := Checked.mul_eq_some_iff.mp hmul
    rw [Checked.add_eq_none_iff, hsum]
    omega

theorem down_mul {i : ℕ} (hi : i * pageSize < 2 ^ 64) (n : ℕ) :
    down (i * pageSize) n = if n ≤ i then some ((i - n) * pageSize) else none := by
  by_cases hle : n ≤ i
  · -- `n` pages are no more bytes than `i` pages
    have hsub : n * pageSize ≤ i * pageSize := Nat.mul_le_mul_right pageSize hle
    have hmul : n * pageSize < 2 ^ 64 := lt_of_le_of_lt hsub hi
    rw [if_pos hle, down, Checked.mul, if_pos hmul, Option.bind_some, Checked.sub, if_pos hsub,
      Nat.sub_mul]
  · rw [if_neg hle, down, Option.bind_eq_none_iff]
    intro addrOffset hmul
    obtain ⟨-, rfl⟩ := Checked.mul_eq_some_iff.mp hmul
    rw [Checked.sub_eq_none_iff]
    unfold pageSize
    omega

theorem pagesBetween_mul (i j : ℕ) :
    pagesBetween (i * pageSize) (j * pageSize) = if i ≤ j then some (j - i) else none := by
  unfold pagesBetween Checked.sub
  by_cases hle : i ≤ j
  · have hsub : i * pageSize ≤ j * pageSize := Nat.mul_le_mul_right pageSize hle
    have hpos : 0 < pageSize := by unfold pageSize; omega
    rw [if_pos hsub, if_pos hle, Option.map_some, ← Nat.sub_mul, Nat.mul_div_cancel _ hpos]
  · have hsub : ¬ i * pageSize ≤ j * pageSize := by unfold pageSize; omega
    rw [if_neg hsub, if_neg hle, Option.map_none]

end PageAddr

/-! ## Frames -/

namespace Frame

/-- The frame whose base is the address `base`: `PhysicalAddress::<1>::new(base)` (which
never panics at alignment `1`), made a `PhysicalAddress<PAGE_SIZE>` by `align_unchecked`. -/
def ofBase (base : ℕ) : Frame := ⟨base / pageSize⟩

/-- `<Frame as Step>::steps_between`. -/
def stepsBetween (start stop : Frame) : Option ℕ := PageAddr.pagesBetween start.start stop.start

/-- `<Frame as Step>::forward_checked`. -/
def forwardChecked (start : Frame) (count : ℕ) : Option Frame :=
  (PageAddr.up start.start count).map ofBase

/-- `<Frame as Step>::backward_checked`. -/
def backwardChecked (start : Frame) (count : ℕ) : Option Frame :=
  (PageAddr.down start.start count).map ofBase

/-- `impl Add<usize> for Frame`: `self.base + rhs * PAGE_SIZE`, a panic when the product or
the sum overflows. -/
def add (self : Frame) (rhs : ℕ) : Option Frame := (PageAddr.up self.start rhs).map ofBase

/-- `impl Sub<Frame> for Frame`: `(self.base.addr - rhs.base.addr) / PAGE_SIZE`, a panic
below zero. -/
def sub (self rhs : Frame) : Option ℕ := PageAddr.pagesBetween rhs.start self.start

/-- `Frame::checked_sub` as the source computes it on the base's address:
`self.base.addr.checked_sub(rhs * PAGE_SIZE)`, whose product is a plain `usize` product and
panics (the outer `none`) when it overflows; the inner `none` is the `None` of the
`checked_sub`. -/
def checkedSubAddr (self : Frame) (rhs : ℕ) : Option (Option Frame) :=
  (Checked.mul 64 rhs pageSize).map fun addrOffset =>
    (Checked.sub self.start addrOffset).map fun addr => ofBase addr

@[simp] theorem ofBase_mul (i : ℕ) : ofBase (i * pageSize) = ⟨i⟩ := by
  simp [ofBase, pageSize]

variable {a b : Frame} {n : ℕ}

/-- `forward_checked` is `+` wherever the frame it reaches lies below `2^64`. -/
theorem forwardChecked_eq (a : Frame) (n : ℕ) :
    a.forwardChecked n = if (a + n).start < 2 ^ 64 then some (a + n) else none := by
  have hstart : (a + n).start = (a.number + n) * pageSize := rfl
  rw [forwardChecked, start, PageAddr.up_mul, hstart]
  split_ifs
  · rw [Option.map_some, ofBase_mul]
    rfl
  · rfl

/-- `backward_checked` from a frame below `2^64` is `Frame.lean`'s `checked_sub`. -/
theorem backwardChecked_eq (ha : a.start < 2 ^ 64) (n : ℕ) :
    a.backwardChecked n = a.checkedSub n := by
  rw [backwardChecked, start, PageAddr.down_mul ha, checkedSub]
  split_ifs <;> simp

/-- `steps_between` is the difference of the frame numbers, where it is not negative. -/
theorem stepsBetween_eq (a b : Frame) :
    a.stepsBetween b = if a ≤ b then some (b - a) else none := by
  rw [stepsBetween, start, start, PageAddr.pagesBetween_mul]
  rfl

/-- `checked_sub` is `backward_checked` wherever `rhs * PAGE_SIZE` fits in a `usize`, and a
panic from there on. -/
theorem checkedSubAddr_eq (ha : a.start < 2 ^ 64) (n : ℕ) :
    a.checkedSubAddr n = if n * pageSize < 2 ^ 64 then some (a.backwardChecked n) else none := by
  by_cases hmul : n * pageSize < 2 ^ 64
  · rw [if_pos hmul, checkedSubAddr, Checked.mul, if_pos hmul, Option.map_some,
      backwardChecked, start, PageAddr.down_mul ha, Option.some_inj, Checked.sub]
    unfold start at ha
    split_ifs with hsub hle hle
    · rw [Option.map_some, Option.map_some, ← Nat.sub_mul, ofBase_mul]
    · exact absurd (Nat.le_of_mul_le_mul_right hsub (by unfold pageSize; omega)) hle
    · exact absurd (Nat.mul_le_mul_right pageSize hle) hsub
    · rfl
  · rw [if_neg hmul, checkedSubAddr, Checked.mul, if_neg hmul, Option.map_none]

/-- On every count below `2^52` pages `checked_sub` is `Frame.lean`'s, the one the watermark
allocator's model calls. -/
theorem checkedSubAddr_eq_checkedSub (ha : a.start < 2 ^ 64) (hmul : n * pageSize < 2 ^ 64) :
    a.checkedSubAddr n = some (a.checkedSub n) := by
  rw [checkedSubAddr_eq ha, if_pos hmul, backwardChecked_eq ha]

/-! ### The `Step` laws -/

/-- `steps_between(a, b) = Some(n)` exactly when `forward_checked(a, n) = Some(b)`. -/
theorem stepsBetween_eq_some_iff (hb : b.start < 2 ^ 64) :
    a.stepsBetween b = some n ↔ a.forwardChecked n = some b := by
  rw [stepsBetween_eq, forwardChecked_eq]
  constructor
  · intro h
    split_ifs at h with hle
    obtain rfl : b.number - a.number = n := Option.some_inj.mp h
    have hab : a + (b.number - a.number) = b := by
      rw [le_iff] at hle
      rw [eq_iff, number_add]
      omega
    rw [hab, if_pos hb]
  · intro h
    split_ifs at h with hfit
    obtain rfl := Option.some_inj.mp h
    rw [if_pos (by simp), sub_eq, number_add, Nat.add_sub_cancel_left]

/-- `forward_checked(a, n) = Some(b)` exactly when `backward_checked(b, n) = Some(a)`. -/
theorem forwardChecked_eq_some_iff (hb : b.start < 2 ^ 64) :
    a.forwardChecked n = some b ↔ b.backwardChecked n = some a := by
  rw [forwardChecked_eq, backwardChecked_eq hb, checkedSub_eq_some]
  constructor
  · intro h
    split_ifs at h with hfit
    obtain rfl := Option.some_inj.mp h
    simp
  · rintro ⟨hle, ha⟩
    have hab : a + n = b := by
      rw [eq_iff, number_add]
      omega
    rw [hab, if_pos hb]

/-- `Add<usize>` is `+` wherever the sum lies below `2^64`, and panics where
`forward_checked` answers `None`. -/
theorem add_eq (a : Frame) (n : ℕ) :
    a.add n = if (a + n).start < 2 ^ 64 then some (a + n) else none :=
  forwardChecked_eq a n

/-- Where `forward_checked(a, n)` reaches `b`, `b - a` is `n`. -/
theorem sub_of_forwardChecked (h : a.forwardChecked n = some b) : b.sub a = some n := by
  rw [forwardChecked_eq] at h
  split_ifs at h with hfit
  cases h
  rw [sub, start, start, PageAddr.pagesBetween_mul, if_pos (by simp)]
  simp

/-- From `2^52` pages on, `rhs * PAGE_SIZE` overflows a `usize`: `backward_checked` answers
`None`, and `checked_sub` panics. -/
theorem checkedSub_panics_on_large_count (a : Frame) (hover : 2 ^ 64 ≤ n * pageSize) :
    a.backwardChecked n = none ∧ a.checkedSubAddr n = none := by
  have hmul : Checked.mul 64 n pageSize = none := Checked.mul_eq_none_iff.mpr hover
  constructor
  · rw [backwardChecked, PageAddr.down, hmul, Option.bind_none, Option.map_none]
  · rw [checkedSubAddr, hmul, Option.map_none]

theorem checkedSub_panics_on_large_count_five :
    2 ^ 64 ≤ 2 ^ 52 * pageSize ∧
      Frame.backwardChecked ⟨5⟩ (2 ^ 52) = none ∧ Frame.checkedSubAddr ⟨5⟩ (2 ^ 52) = none :=
  ⟨by unfold pageSize; norm_num,
    checkedSub_panics_on_large_count ⟨5⟩ (by unfold pageSize; norm_num)⟩

end Frame

/-! ## Pages -/

namespace Page

/-- The page whose base is the address `base`: `VirtualAddress::<1>::new(base)`, made a
`VirtualAddress<PAGE_SIZE>` by `align_unchecked`. -/
def ofBase (base : ℕ) : Page := ⟨base / pageSize⟩

/-- `<Page as Step>::steps_between`. -/
def stepsBetween (start stop : Page) : Option ℕ := PageAddr.pagesBetween start.start stop.start

/-- `<Page as Step>::forward_checked`. -/
def forwardChecked (start : Page) (count : ℕ) : Option Page :=
  (PageAddr.up start.start count).map ofBase

/-- `<Page as Step>::backward_checked`. -/
def backwardChecked (start : Page) (count : ℕ) : Option Page :=
  (PageAddr.down start.start count).map ofBase

/-- `impl Add<usize> for Page`: `self.base + rhs * PAGE_SIZE`, a panic when the product or
the sum overflows. -/
def add (self : Page) (rhs : ℕ) : Option Page := (PageAddr.up self.start rhs).map ofBase

@[simp] theorem ofBase_mul (i : ℕ) : ofBase (i * pageSize) = ⟨i⟩ := by
  simp [ofBase, pageSize]

variable {p q : Page} {n : ℕ}

theorem forwardChecked_eq (p : Page) (n : ℕ) :
    p.forwardChecked n = if (p + n).start < 2 ^ 64 then some (p + n) else none := by
  have hstart : (p + n).start = (p.number + n) * pageSize := rfl
  rw [forwardChecked, start, PageAddr.up_mul, hstart]
  split_ifs
  · rw [Option.map_some, ofBase_mul]
    rfl
  · rfl

theorem backwardChecked_eq (hp : p.start < 2 ^ 64) (n : ℕ) :
    p.backwardChecked n = if n ≤ p.number then some ⟨p.number - n⟩ else none := by
  rw [backwardChecked, start, PageAddr.down_mul hp]
  split_ifs <;> simp

theorem stepsBetween_eq (p q : Page) :
    p.stepsBetween q = if p ≤ q then some (q.number - p.number) else none := by
  rw [stepsBetween, start, start, PageAddr.pagesBetween_mul]
  rfl

theorem add_eq (p : Page) (n : ℕ) :
    p.add n = if (p + n).start < 2 ^ 64 then some (p + n) else none :=
  forwardChecked_eq p n

theorem stepsBetween_eq_some_iff (hq : q.start < 2 ^ 64) :
    p.stepsBetween q = some n ↔ p.forwardChecked n = some q := by
  rw [stepsBetween_eq, forwardChecked_eq]
  constructor
  · intro h
    split_ifs at h with hle
    obtain rfl : q.number - p.number = n := Option.some_inj.mp h
    have hpq : p + (q.number - p.number) = q := by
      rw [le_iff] at hle
      rw [eq_iff, number_add]
      omega
    rw [hpq, if_pos hq]
  · intro h
    split_ifs at h with hfit
    obtain rfl := Option.some_inj.mp h
    rw [if_pos (by simp), number_add, Nat.add_sub_cancel_left]

theorem forwardChecked_eq_some_iff (hq : q.start < 2 ^ 64) :
    p.forwardChecked n = some q ↔ q.backwardChecked n = some p := by
  rw [forwardChecked_eq, backwardChecked_eq hq]
  constructor
  · intro h
    split_ifs at h with hfit
    obtain rfl := Option.some_inj.mp h
    simp
  · intro h
    split_ifs at h with hle
    obtain rfl := Option.some_inj.mp h
    have hpq : (⟨q.number - n⟩ : Page) + n = q := by
      rw [eq_iff, number_add]
      show q.number - n + n = q.number
      omega
    rw [hpq, if_pos hq]

/-- `Sub<Page>` (`Page.sub`, of the B-tree allocator's model) is `steps_between` the other way
round: it divides the same difference of the bases. -/
theorem sub_eq_stepsBetween (p q : Page) : p.sub q = q.stepsBetween p := by
  rw [stepsBetween_eq, Page.sub]

theorem sub_of_forwardChecked (h : p.forwardChecked n = some q) : q.sub p = some n := by
  rw [sub_eq_stepsBetween, stepsBetween_eq_some_iff]
  · exact h
  · rw [forwardChecked_eq] at h
    split_ifs at h with hfit
    cases h
    exact hfit

end Page

end Popcorn
