import Mathlib
import Popcorn.RangedBTree.Basic

/-!
# The ranged B-tree virtual allocator

`ranged_btree_allocator::RangedBtreeAllocator` hands out runs of pages from a range `R` and
records every run in use, and every reserved range added by `add_allocations`, in a
`RangedBTreeMap<Page, Meta>`. The `Mutex` around the map is left out: each call runs under
it.

`allocate_contiguous` tries three places: the start of `R` when the map is empty, the gap
between `R`'s start and the first stored range, and the space after the last stored range.
The second and third compare `len` with the gap through `Page - Page`, which panics below
zero in a debug build (`Page.sub`). When neither gap is large enough it reaches `todo!()`.
A panic is `none`.
-/

namespace Popcorn

/-- Pages are ordered by number, as `Page`'s derived `Ord` orders them. -/
instance : LinearOrder Page := LinearOrder.lift' Page.number fun a b h => (Page.eq_iff a b).mpr h

/-- `impl Sub<Page> for Page` with a debug build's overflow check: the number of pages from
`b` up to `a`, or `none`, the overflow panic, when `a` is below `b`. -/
def Page.sub (a b : Page) : Option Nat :=
  if b ≤ a then some (a.number - b.number) else none

theorem Page.sub_eq_some {a b : Page} {n : Nat} :
    a.sub b = some n ↔ b ≤ a ∧ n = a.number - b.number := by
  unfold Page.sub
  split <;> simp_all [eq_comm]

theorem Page.sub_eq_none {a b : Page} : a.sub b = none ↔ a < b := by
  unfold Page.sub
  split <;> simp_all

open RangedBTree

/-- `Meta`: the length recorded with each stored range. -/
structure RangedBtreeAllocator.Meta where
  len : Nat
  deriving DecidableEq, Repr

/-- `RangedBtreeAllocator`: the range it allocates from and the map of ranges in use. -/
structure RangedBtreeAllocator where
  range : Range Page
  map : RangedBTreeMap Page RangedBtreeAllocator.Meta
  deriving DecidableEq, Repr

namespace RangedBtreeAllocator

/-- `RangedBtreeAllocator::new`. -/
def new (range : Range Page) : RangedBtreeAllocator := ⟨range, .new⟩

/-- One iteration of `add_allocations`: an allocation that meets the range is stored whole,
with the length of the part inside the range; the result of the insert is ignored. -/
def addAllocation (a : RangedBtreeAllocator) (allocation : Range Page) : RangedBtreeAllocator :=
  let isect : Range Page :=
    ⟨max allocation.start a.range.start, min allocation.stop a.range.stop⟩
  -- `!isect.is_empty()`; the subtraction below cannot overflow
  if isect.start < isect.stop then
    { a with map := (a.map.insert allocation ⟨isect.stop.number - isect.start.number⟩).2 }
  else a

/-- `RangedBtreeAllocator::add_allocations`. -/
def addAllocations (a : RangedBtreeAllocator) (allocations : List (Range Page)) :
    RangedBtreeAllocator :=
  allocations.foldl addAllocation a

/-- `guard.insert(range, Meta { len }).expect(..)`: the allocator with the range stored, or
`none`, the panic of the `expect`, when the insert is refused. -/
def insertExpect (a : RangedBtreeAllocator) (range : Range Page) (len : Nat) :
    Option RangedBtreeAllocator :=
  match a.map.insert range ⟨len⟩ with
  | (.ok (), map) => some { a with map }
  | (.error (), _) => none

/-- `VirtualAllocator::allocate_contiguous`. -/
def allocateContiguous (a : RangedBtreeAllocator) (len : Nat) :
    Option (Except AllocError Page × RangedBtreeAllocator) :=
  match a.map.firstKey with
  | none => none
  -- an empty map: `len` is not compared with the size of the range
  | some none =>
    (a.insertExpect ⟨a.range.start, a.range.start + len⟩ len).map (.ok a.range.start, ·)
  | some (some first) =>
    match first.sub a.range.start with
    | none => none
    | some gap =>
      if gap ≥ len then
        (a.insertExpect ⟨a.range.start, a.range.start + len⟩ len).map (.ok a.range.start, ·)
      else
        match a.map.lastKey with
        | some (some lastUsed) =>
          match a.range.stop.sub lastUsed with
          | none => none
          | some room =>
            if room ≥ len then
              (a.insertExpect ⟨lastUsed, lastUsed + len⟩ len).map (.ok lastUsed, ·)
            -- `todo!()`
            else none
        -- the `unreachable!()` of `last_key`, or its `expect`
        | _ => none

/-- `VirtualAllocator::allocate_contiguous_at`. -/
def allocateContiguousAt (a : RangedBtreeAllocator) (atPage : Page) (len : Nat) :
    Except AllocError Page × RangedBtreeAllocator :=
  match a.map.insert ⟨atPage, atPage + len⟩ ⟨len⟩ with
  | (.ok (), map) => (.ok atPage, { a with map })
  | (.error (), _) => (.error ⟨⟩, a)

/-- `VirtualAllocator::deallocate_contiguous`: `none` at the `unreachable!()` of a base that
starts no stored range, and, in a build with debug assertions, at the `debug_assert_eq!` of
a length other than the recorded one. -/
def deallocateContiguous (debugAssertions : Bool) (a : RangedBtreeAllocator) (base : Page)
    (len : Nat) : Option RangedBtreeAllocator :=
  match a.map.remove base with
  | (some entry, map) => if debugAssertions && entry.len != len then none else some { a with map }
  | (none, _) => none

/-- A call of the `VirtualAllocator` interface. -/
inductive Call where
  | allocateContiguous (len : Nat)
  | allocateContiguousAt (atPage : Page) (len : Nat)
  | deallocateContiguous (base : Page) (len : Nat)
  deriving DecidableEq, Repr

/-- The length a call names. -/
def Call.len : Call → Nat
  | .allocateContiguous len => len
  | .allocateContiguousAt _ len => len
  | .deallocateContiguous _ len => len

/-- What a call returns. -/
inductive Answer where
  | allocated (result : Except AllocError Page)
  | deallocated
  deriving DecidableEq, Repr

/-- One call on the allocator; `none` is a panic. -/
def step (debugAssertions : Bool) (a : RangedBtreeAllocator) :
    Call → Option (Answer × RangedBtreeAllocator)
  | .allocateContiguous len => (a.allocateContiguous len).map fun r => (.allocated r.1, r.2)
  | .allocateContiguousAt atPage len =>
    some (.allocated (a.allocateContiguousAt atPage len).1, (a.allocateContiguousAt atPage len).2)
  | .deallocateContiguous base len =>
    (a.deallocateContiguous debugAssertions base len).map (.deallocated, ·)

/-- The allocators the kernel starts from: `new` over a range, then `add_allocations`. -/
def Initial (a : RangedBtreeAllocator) : Prop :=
  ∃ range allocations, a = (new range).addAllocations allocations

end RangedBtreeAllocator

end Popcorn
