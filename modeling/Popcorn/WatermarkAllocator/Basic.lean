import Popcorn.Lib.Run
import Popcorn.Memory.Frame

/-!
# The early-boot watermark allocator

`kernel::memory::watermark_allocator` hands out frames downwards from the top of one free
region at a time, and never takes any back. `Inner` holds the iterator of free regions it
has not entered yet, the start of the region it is in (`last_in_current_region`), the
lowest frame it handed out (`prev_frame`), and the end of the first region (`top`).

The region iterator is a `DoubleEndedIterator` over a slice: it is modelled as the list of
regions it has left, `next` taking the first and `next_back` the last. The `Mutex` of
`WatermarkAllocator` serialises the calls, each of which is one step of the model. A
`todo!`, `unimplemented!` or `expect` that fires is `none`.
-/

namespace Popcorn
namespace WatermarkAllocator

/-- `watermark_allocator::Inner`. -/
structure Inner where
  freeRegions : List (Range Frame)
  lastInCurrentRegion : Frame
  prevFrame : Frame
  top : Frame
  deriving DecidableEq, Repr

namespace Inner

/-- `Inner::new`: the region `next_back` yields, the last one, is allocated from first; an
empty iterator panics ("Unable to find any free memory"). -/
def new (freeRegions : List (Range Frame)) : Option Inner :=
  match freeRegions.getLast? with
  | none => none
  | some lastFreeSection =>
    some ⟨freeRegions.dropLast, lastFreeSection.start, lastFreeSection.stop,
      lastFreeSection.stop⟩

/-- The `loop` of `Inner::allocate_contiguous`, from `test_frame`: while the candidate lies
below the current region, enter the next region and try its top `pageCount` frames. It
returns the answer with what the loop leaves in `last_in_current_region` and in the
iterator, which the early `return`s and `?`s keep as well. -/
def allocateLoop (pageCount : Nat) (testFrame lastInCurrentRegion : Frame) :
    List (Range Frame) → Except AllocError Frame × Frame × List (Range Frame)
  | [] =>
    if lastInCurrentRegion ≤ testFrame then (.ok testFrame, lastInCurrentRegion, [])
    else (.error ⟨⟩, lastInCurrentRegion, [])
  | newRegion :: rest =>
    if lastInCurrentRegion ≤ testFrame then
      (.ok testFrame, lastInCurrentRegion, newRegion :: rest)
    else
      match newRegion.stop.checkedSub pageCount with
      | none => (.error ⟨⟩, newRegion.start, rest)
      | some testFrame' => allocateLoop pageCount testFrame' newRegion.start rest

/-- `Inner::allocate_contiguous`. A failed `checked_sub` of `prev_frame` returns before any
mutation; every other outcome stores the loop's `last_in_current_region` and iterator, and
success moves `prev_frame` down to the frames handed out. -/
def allocateContiguous (s : Inner) (pageCount : ℕ+) (alignmentLog2 : Nat) :
    Option (Except AllocError Frame × Inner) :=
  if alignmentLog2 ≠ 0 then none
  else
    match s.prevFrame.checkedSub pageCount with
    | none => some (.error ⟨⟩, s)
    | some testFrame =>
      match allocateLoop pageCount testFrame s.lastInCurrentRegion s.freeRegions with
      | (.ok frame, last, regions) =>
        some (.ok frame,
          { s with
            freeRegions := regions
            lastInCurrentRegion := last
            prevFrame := frame })
      | (.error e, last, regions) =>
        some (.error e, { s with freeRegions := regions, lastInCurrentRegion := last })

/-- One call of the early-boot sequence on `Inner`: `allocate_contiguous(count, 0)`. -/
def step (s : Inner) (count : ℕ+) : Option (Except AllocError Frame × Inner) :=
  s.allocateContiguous count 0

end Inner

end WatermarkAllocator

/-- `watermark_allocator::WatermarkAllocator`. -/
structure WatermarkAllocator where
  inner : WatermarkAllocator.Inner
  deriving DecidableEq, Repr

namespace WatermarkAllocator

/-- `WatermarkAllocator::new`. -/
def new (freeRegions : List (Range Frame)) : Option WatermarkAllocator :=
  (Inner.new freeRegions).map (⟨·⟩)

/-- `<WatermarkAllocator as BackingAllocator>::allocate_contiguous`: no frames asked for
answers frame zero without taking the lock. -/
def allocateContiguous (w : WatermarkAllocator) (frameCount : Nat) :
    Option (Except AllocError Frame × WatermarkAllocator) :=
  if h : frameCount = 0 then some (.ok Frame.zero, w)
  else
    (w.inner.allocateContiguous ⟨frameCount, Nat.pos_of_ne_zero h⟩ 0).map
      fun (r, inner) => (r, ⟨inner⟩)

/-- The region `drain_into` pushes to the successor allocator: `prev_frame..top`. -/
def drainRegion (w : WatermarkAllocator) : Range Frame :=
  ⟨w.inner.prevFrame, w.inner.top⟩

end WatermarkAllocator

end Popcorn
