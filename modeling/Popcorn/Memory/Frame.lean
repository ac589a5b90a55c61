import Mathlib

/-!
# Frames, pages and ranges of them

`kernel_api::memory` wraps page-aligned addresses as `Frame` (physical) and `Page`
(virtual). Every value of either type is aligned to `PAGE_SIZE`, so it is determined by
its number, the address divided by `PAGE_SIZE`, and that is how both are modelled here:
`Frame + n` (`impl Add<usize>`) and `Frame - Frame` (`impl Sub<Frame>`) become arithmetic
on frame numbers. Two things of the source are left out. The `usize` bound on addresses:
the allocators modelled here only form frames inside the memory they manage. And the
underflow of `Frame - Frame`: every caller modelled here subtracts a frame from one at
least as large, after checking it; code whose subtraction can underflow (the ranged
B-tree allocator) models its `Page - Page` with the panic.

`Range<Frame>` is a pair of frames, iterated from `start` up to, not including, `stop`
(Rust's `end`).
-/

namespace Popcorn

/-- `kernel_api::memory::PAGE_SIZE`. -/
def pageSize : Nat := 4096

/-- The error an allocation returns when it fails (`kernel_api::memory::AllocError`). -/
structure AllocError where
  deriving DecidableEq, Repr

/-- A physical frame (`kernel_api::memory::Frame`), by its frame number. -/
structure Frame where
  number : Nat
  deriving DecidableEq, Repr

namespace Frame

/-- `Frame::start`: the first physical address of the frame. -/
def start (f : Frame) : Nat := f.number * pageSize

/-- `Frame::zero`. -/
def zero : Frame := ⟨0⟩

instance : LT Frame := ⟨fun a b => a.number < b.number⟩
instance : LE Frame := ⟨fun a b => a.number ≤ b.number⟩

instance (a b : Frame) : Decidable (a < b) := inferInstanceAs (Decidable (a.number < b.number))
instance (a b : Frame) : Decidable (a ≤ b) := inferInstanceAs (Decidable (a.number ≤ b.number))

/-- `impl Add<usize> for Frame`: the frame `n` frames further on. -/
instance : HAdd Frame Nat Frame := ⟨fun f n => ⟨f.number + n⟩⟩

/-- `impl Sub<Frame> for Frame`: the number of frames from `b` up to `a`. -/
instance : HSub Frame Frame Nat := ⟨fun a b => a.number - b.number⟩

/-- `Frame::checked_sub`: the frame `n` frames back, or `None` below address zero. -/
def checkedSub (f : Frame) (n : Nat) : Option Frame :=
  if n ≤ f.number then some ⟨f.number - n⟩ else none

@[simp] theorem lt_iff (a b : Frame) : a < b ↔ a.number < b.number := Iff.rfl

@[simp] theorem le_iff (a b : Frame) : a ≤ b ↔ a.number ≤ b.number := Iff.rfl

@[simp] theorem number_add (f : Frame) (n : Nat) : (f + n).number = f.number + n := rfl

@[simp] theorem sub_eq (a b : Frame) : a - b = a.number - b.number := rfl

@[simp] theorem number_zero : zero.number = 0 := rfl

theorem eq_iff (a b : Frame) : a = b ↔ a.number = b.number := by
  cases a
  cases b
  simp

theorem checkedSub_eq_some {f g : Frame} {n : Nat} :
    f.checkedSub n = some g ↔ n ≤ f.number ∧ g.number = f.number - n := by
  unfold checkedSub
  split
  · rename_i h
    simp only [Option.some.injEq, h, true_and]
    rw [eq_iff]
    exact eq_comm
  · simp_all

theorem checkedSub_eq_none {f : Frame} {n : Nat} : f.checkedSub n = none ↔ f.number < n := by
  unfold checkedSub
  split <;> simp_all

end Frame

/-- A virtual page (`kernel_api::memory::Page`), by its page number. -/
structure Page where
  number : Nat
  deriving DecidableEq, Repr

namespace Page

/-- `Page::start`: the first virtual address of the page. -/
def start (p : Page) : Nat := p.number * pageSize

instance : LT Page := ⟨fun a b => a.number < b.number⟩
instance : LE Page := ⟨fun a b => a.number ≤ b.number⟩

instance (a b : Page) : Decidable (a < b) := inferInstanceAs (Decidable (a.number < b.number))
instance (a b : Page) : Decidable (a ≤ b) := inferInstanceAs (Decidable (a.number ≤ b.number))

/-- `impl Add<usize> for Page`: the page `n` pages further on. -/
instance : HAdd Page Nat Page := ⟨fun p n => ⟨p.number + n⟩⟩

@[simp] theorem lt_iff (a b : Page) : a < b ↔ a.number < b.number := Iff.rfl

@[simp] theorem le_iff (a b : Page) : a ≤ b ↔ a.number ≤ b.number := Iff.rfl

@[simp] theorem number_add (p : Page) (n : Nat) : (p + n).number = p.number + n := rfl

theorem eq_iff (a b : Page) : a = b ↔ a.number = b.number := by
  cases a
  cases b
  simp

end Page

/-- `core::ops::Range`: from `start` up to, not including, `stop` (Rust's `end`). -/
structure Range (α : Type) where
  start : α
  stop : α
  deriving DecidableEq, Repr

namespace Range

/-- The frames a `Range<Frame>` iterates over, in order. -/
def frames (r : Range Frame) : List Frame :=
  (List.range (r.stop - r.start)).map (r.start + ·)

/-- `Range::contains`. -/
def contains {α : Type} [LE α] [LT α] (r : Range α) (x : α) : Prop :=
  r.start ≤ x ∧ x < r.stop

instance {α : Type} [LE α] [LT α] [DecidableLE α] [DecidableLT α] (r : Range α) (x : α) :
    Decidable (r.contains x) :=
  inferInstanceAs (Decidable (_ ∧ _))

/-- Two ranges with no element in common. -/
def Disjoint {α : Type} [LE α] [LT α] (a b : Range α) : Prop :=
  ∀ x, a.contains x → ¬ b.contains x

theorem Disjoint.symm {α : Type} [LE α] [LT α] {a b : Range α} (h : a.Disjoint b) :
    b.Disjoint a :=
  fun x hb ha => h x ha hb

@[simp] theorem contains_frame_iff {r : Range Frame} {f : Frame} :
    r.contains f ↔ r.start.number ≤ f.number ∧ f.number < r.stop.number := Iff.rfl

theorem mem_frames {r : Range Frame} {f : Frame} : f ∈ r.frames ↔ r.start ≤ f ∧ f < r.stop := by
  simp only [frames, List.mem_map, List.mem_range, Frame.sub_eq, Frame.eq_iff,
    Frame.number_add, Frame.le_iff, Frame.lt_iff]
  constructor
  · rintro ⟨i, hi, hf⟩
    omega
  · intro h
    exact ⟨f.number - r.start.number, by omega, by omega⟩

end Range

end Popcorn
