import Popcorn.Memory.Frame
import Popcorn.Lib.Word
import Popcorn.Lib.Run

/-!
# `bitmap_allocator`: the model

The bitmap frame allocator keeps one bit per frame, set for a free frame, in a boxed
slice of `usize` words. `frame_to_indices` places frame `first_frame + k` at bit
`k % size_of::<usize>()` of word `k / size_of::<usize>()`: on amd64 a word is 64 bits wide
but only its low 8 bits are ever addressed, and `BitmapAllocator::new` sizes the slice to
`frame_count / 8` words.

A word is a `BitVec 64`. Each `&mut self` method returns its result together with the new
allocator, and a method that can panic (`assert!`, `expect`, `todo!`) returns `none` there.
The two word loops of `allocate_one` and `allocate_multiple_fast` differ only in what they
look for in a word and how they claim it, and are one definition, `claimFirst`; the
slow path's two nested loops with their `break 'outer` are a fold over the words of a fold
over the bits of each, which does nothing more once `found` is set.
-/

namespace Popcorn

/-- `mem::size_of::<usize>()` on amd64. -/
def sizeOfUsize : Nat := 8

/-- A `usize` word of the bitmap. -/
abbrev Word := BitVec 64

/-- `bitmap_allocator::BitmapAllocator`. -/
structure BitmapAllocator where
  firstFrame : Frame
  bitmap : List Word
  deriving DecidableEq, Repr

namespace BitmapAllocator

/-- `bitmap_allocator::FrameState`. -/
inductive FrameState
  | allocated
  | free
  deriving DecidableEq, Repr

/-- `bitmap_allocator::OutOfRangeError`. -/
structure OutOfRangeError where
  deriving DecidableEq, Repr

/-- `last_frame`: one past the last frame the bitmap tracks. -/
def lastFrame (a : BitmapAllocator) : Frame :=
  a.firstFrame + a.bitmap.length * sizeOfUsize

/-- `frame_to_indices`: the word and the bit of a frame. Its `assert!(frame >= first_frame)`
holds at each call, since both callers return `OutOfRangeError` below `first_frame` first. -/
def frameToIndices (a : BitmapAllocator) (frame : Frame) : Nat × Nat :=
  let numberInBitmap := frame - a.firstFrame
  (numberInBitmap / sizeOfUsize, numberInBitmap % sizeOfUsize)

/-- `set_frame`. The word index is in bounds whenever the range check passes. -/
def setFrame (a : BitmapAllocator) (frame : Frame) (state : FrameState) :
    Except OutOfRangeError BitmapAllocator :=
  if frame < a.firstFrame ∨ frame ≥ a.lastFrame then .error ⟨⟩
  else
    let (bitmapIndex, bitIndex) := a.frameToIndices frame
    match state with
    | .allocated => .ok { a with bitmap := a.bitmap.modify bitmapIndex (· &&& ~~~(1#64 <<< bitIndex)) }
    | .free => .ok { a with bitmap := a.bitmap.modify bitmapIndex (· ||| 1#64 <<< bitIndex) }

/-- `get_frame`. -/
def getFrame (a : BitmapAllocator) (frame : Frame) : Except OutOfRangeError FrameState :=
  if frame < a.firstFrame ∨ frame ≥ a.lastFrame then .error ⟨⟩
  else
    let (bitmapIndex, bitIndex) := a.frameToIndices frame
    if a.bitmap.getD bitmapIndex 0 &&& 1#64 <<< bitIndex = 0 then .ok .allocated
    else .ok .free

/-- `BitmapAllocator::new`: every tracked frame starts allocated. -/
def new (firstFrame : Frame) (frameCount : Nat) : BitmapAllocator :=
  { firstFrame, bitmap := List.replicate (frameCount / sizeOfUsize) 0 }

/-- `set_frame` on each frame of a list in turn, stopping at the first frame out of range
(where the callers `expect` or `unwrap`, and so panic). -/
def setFrames (a : BitmapAllocator) (frames : List Frame) (state : FrameState) :
    Except OutOfRangeError BitmapAllocator :=
  frames.foldlM (fun a frame => a.setFrame frame state) a

/-! ## The word loop of `allocate_one` and `allocate_multiple_fast` -/

/-- Walking `self.bitmap.iter_mut().enumerate()` from word `i`: the first word in which
`pick` finds a bit is replaced by `claim entry bit`. Answers that word's index, the bit and
the new bitmap; `none` when no word has one. -/
def claimFirst (pick : Word → Option Nat) (claim : Word → Nat → Word) :
    Nat → List Word → Option (Nat × Nat × List Word)
  | _, [] => none
  | i, entry :: rest =>
    match pick entry with
    | some bit => some (i, bit, claim entry bit :: rest)
    | none => (claimFirst pick claim (i + 1) rest).map fun (j, bit, rest') => (j, bit, entry :: rest')

/-- What `allocate_one` looks for in a word: its lowest set bit, by `trailing_zeros`. -/
def pickOne (entry : Word) : Option Nat :=
  let firstSetBit := entry.ctz.toNat
  if firstSetBit ≠ sizeOfUsize * 8 then some firstSetBit else none

/-- `allocate_one`. -/
def allocateOne (a : BitmapAllocator) : Except AllocError Frame × BitmapAllocator :=
  match claimFirst pickOne (fun entry bit => entry &&& ~~~(1#64 <<< bit)) 0 a.bitmap with
  | some (i, firstSetBit, bitmap) =>
    (.ok (a.firstFrame + i * sizeOfUsize + firstSetBit), { a with bitmap })
  | none => (.error ⟨⟩, a)

/-- The mask of `frame_count` contiguous bits, `(2 << (frame_count - 1)) - 1`. -/
def fastMask (frameCount : Nat) : Word := (2#64 <<< (frameCount - 1)) - 1#64

/-- What `allocate_multiple_fast` looks for in a word: the first `slide` of
`first_set_bit..(size_of::<usize>() - frame_count)` whose window is all set. -/
def pickFast (frameCount : Nat) (mask entry : Word) : Option Nat :=
  let firstSetBit := entry.ctz.toNat
  (List.range' firstSetBit (sizeOfUsize - frameCount - firstSetBit)).find? fun slide =>
    (entry >>> slide) &&& mask == mask

/-- `allocate_multiple_fast`. -/
def allocateMultipleFast (a : BitmapAllocator) (frameCount : Nat) :
    Option (Except AllocError Frame × BitmapAllocator) :=
  if ¬ frameCount > 1 then none
  else if frameCount > sizeOfUsize then some (.error ⟨⟩, a)
  else
    let mask := fastMask frameCount
    match claimFirst (pickFast frameCount mask) (fun entry slide => entry &&& ~~~(mask <<< slide))
        0 a.bitmap with
    | some (i, slide, bitmap) => some (.ok (a.firstFrame + i * sizeOfUsize + slide), { a with bitmap })
    | none => some (.error ⟨⟩, a)

/-! ## The slow path -/

/-- The variables of `allocate_multiple_slow`'s loops. -/
structure SlowScan where
  foundContiguousFrames : Nat
  contiguousFramesStart : Option (Nat × Nat)
  found : Bool
  deriving DecidableEq, Repr

/-- One iteration of the inner loop, at bit `bitIdx` of word `wordIdx`. -/
def slowStep (frameCount wordIdx : Nat) (entry : Word) (s : SlowScan) (bitIdx : Nat) :
    SlowScan :=
  -- after `found = true` the source leaves both loops (`break 'outer`)
  if s.found then s
  else if (entry >>> bitIdx) &&& 1#64 = 1#64 then
    let start := if s.foundContiguousFrames = 0 then some (wordIdx, bitIdx)
      else s.contiguousFramesStart
    let count := s.foundContiguousFrames + 1
    { foundContiguousFrames := count, contiguousFramesStart := start,
      found := decide (count = frameCount) }
  else { foundContiguousFrames := 0, contiguousFramesStart := none, found := false }

/-- The inner loop over the bits of word `wordIdx`. -/
def slowWord (frameCount : Nat) (s : SlowScan) (word : Word × Nat) : SlowScan :=
  (List.range sizeOfUsize).foldl (slowStep frameCount word.2 word.1) s

/-- Both loops, over `self.bitmap.iter_mut().enumerate()`. -/
def slowScan (frameCount : Nat) (bitmap : List Word) : SlowScan :=
  bitmap.zipIdx.foldl (slowWord frameCount) ⟨0, none, false⟩

/-- `allocate_multiple_slow`. -/
def allocateMultipleSlow (a : BitmapAllocator) (frameCount : Nat) :
    Option (Except AllocError Frame × BitmapAllocator) :=
  if ¬ frameCount > 1 then none
  else
    let s := slowScan frameCount a.bitmap
    if !s.found then some (.error ⟨⟩, a)
    else
      match s.contiguousFramesStart with
      | none => none
      | some (wordIdx, bitIdx) =>
        let start := a.firstFrame + wordIdx * sizeOfUsize + bitIdx
        match a.setFrames (Range.frames ⟨start, start + frameCount⟩) .allocated with
        | .ok a' => some (.ok start, a')
        | .error _ => none

/-- The closure `allocate_at` tests each frame with: free, and tracked by the bitmap. -/
def isFree (a : BitmapAllocator) (f : Frame) : Bool :=
  match a.getFrame f with
  | .ok state => state == .free
  | .error _ => false

/-! ## `Wrapped`, the `BackingAllocator` -/

/-- `kernel_api::memory::allocator::SpecificLocation`. -/
inductive SpecificLocation
  /-- `Aligned(n)`. -/
  | aligned (frames : Nat)
  /-- `At(frame)`. -/
  | atFrame (frame : Frame)
  /-- `Below { location, with_alignment }`. -/
  | below (location : Frame) (withAlignment : Nat)
  deriving DecidableEq, Repr

/-- `kernel_api::memory::allocator::Config`, with the iterator of free regions as a list. -/
structure Config where
  allocationRange : Range Frame
  regions : List (Range Frame)
  deriving DecidableEq, Repr

/-- `bitmap_allocator::Wrapped`. Its `Mutex` serialises the calls, each of which is one step
of the model. -/
structure Wrapped where
  inner : BitmapAllocator
  deriving DecidableEq, Repr

namespace Wrapped

/-- `<Wrapped as SizedBackingAllocator>::new`: every frame of every region is set free,
and an out-of-range one panics (`unwrap`). -/
def new (config : Config) : Option Wrapped :=
  let allocator := BitmapAllocator.new config.allocationRange.start
    (config.allocationRange.stop - config.allocationRange.start)
  match config.regions.foldlM (fun a region => a.setFrames region.frames .free) allocator with
  | .ok a => some ⟨a⟩
  | .error _ => none

/-- `allocate_contiguous`: the slow path runs when the fast one fails. -/
def allocateContiguous (w : Wrapped) (frameCount : Nat) :
    Option (Except AllocError Frame × Wrapped) :=
  if frameCount = 0 then some (.ok Frame.zero, w)
  else if frameCount = 1 then
    let (r, a) := w.inner.allocateOne
    some (r, ⟨a⟩)
  else
    match w.inner.allocateMultipleFast frameCount with
    | none => none
    | some (.ok start, a) => some (.ok start, ⟨a⟩)
    | some (.error _, a) => (a.allocateMultipleSlow frameCount).map fun (r, a') => (r, ⟨a'⟩)

/-- `deallocate_contiguous`: panics (`expect`) on a frame out of range. -/
def deallocateContiguous (w : Wrapped) (base : Frame) (frameCount : Nat) : Option Wrapped :=
  match w.inner.setFrames (Range.frames ⟨base, base + frameCount⟩) .free with
  | .ok a => some ⟨a⟩
  | .error _ => none

/-- `push`: the frames of the region in range are set allocated, the others ignored. -/
def push (w : Wrapped) (region : Range Frame) : Wrapped :=
  ⟨region.frames.foldl (fun a frame =>
    match a.setFrame frame .allocated with
    | .ok a' => a'
    | .error _ => a) w.inner⟩

/-- `allocate_at`: only `At` is implemented, the other locations are `todo!()`. -/
def allocateAt (w : Wrapped) (frameCount : Nat) (location : SpecificLocation) :
    Option (Except AllocError Frame × Wrapped) :=
  if frameCount = 0 then some (.ok Frame.zero, w)
  else
    match location with
    | .aligned _ => none
    | .below _ _ => none
    | .atFrame addr =>
      let frames := Range.frames ⟨addr, addr + frameCount⟩
      let free := frames.all w.inner.isFree
      if !free then some (.error ⟨⟩, w)
      else
        match w.inner.setFrames frames .allocated with
        | .ok a => some (.ok addr, ⟨a⟩)
        | .error _ => none

/-- The calls the kernel makes on a `Wrapped` after creating it. -/
inductive Call
  | allocateContiguous (frameCount : Nat)
  | allocateAt (frameCount : Nat) (location : SpecificLocation)
  | deallocateContiguous (base : Frame) (frameCount : Nat)
  | push (region : Range Frame)
  deriving DecidableEq, Repr

/-- What a call answers: an allocation's result, or nothing. -/
inductive Answer
  | allocation (result : Except AllocError Frame)
  | done
  deriving DecidableEq, Repr

/-- One call; `none` when it panics. -/
def step (w : Wrapped) : Call → Option (Answer × Wrapped)
  | .allocateContiguous n => (w.allocateContiguous n).map fun (r, w') => (.allocation r, w')
  | .allocateAt n location => (w.allocateAt n location).map fun (r, w') => (.allocation r, w')
  | .deallocateContiguous base n => (w.deallocateContiguous base n).map fun w' => (.done, w')
  | .push region => some (.done, w.push region)

/-- The allocators `new` builds from some `Config`. -/
def Initial (w : Wrapped) : Prop := ∃ config, new config = some w

/-- The allocators reachable from `new` by calls that do not panic. -/
def Reachable : Wrapped → Prop := Transition.Reachable Initial (Transition.Answers step)

end Wrapped

end BitmapAllocator

end Popcorn
