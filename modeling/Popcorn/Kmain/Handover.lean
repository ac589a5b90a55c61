import Popcorn.WatermarkAllocator.Theorems
import Popcorn.BitmapAllocator.Theorems

/-!
# The hand-over from the watermark allocator to the bitmap allocator

`kmain` builds the bitmap allocator while the watermark allocator serves as the physical
allocator (`with_highmem_as`), and then drains the watermark allocator into it: the region
`prev_frame..top` is pushed, so that every frame the watermark allocator handed out during
bootstrap should read allocated in the bitmap allocator.

The usable memory is modelled as the list of frame ranges `spaces`, each a memory-map entry
with its start aligned up and its end aligned down, in the map's (ascending) order.
-/

namespace Popcorn

namespace WatermarkAllocator

/-- `WatermarkAllocator::drain_into`, with the bitmap allocator as the successor, as `kmain`
calls it. -/
def drainInto (w : WatermarkAllocator) (into : BitmapAllocator.Wrapped) :
    BitmapAllocator.Wrapped :=
  into.push w.drainRegion

end WatermarkAllocator

namespace Kmain

open BitmapAllocator WatermarkAllocator

/-- The `Config` `kmain` gives the bitmap allocator: the frames from zero up to the end of
the highest usable region, the usable regions free. `none` is the panic of `expect` when
there is no usable memory. -/
def bitmapConfig (spaces : List (Range Frame)) : Option Config :=
  (spaces.map (·.stop.number)).max?.map fun stop => ⟨⟨Frame.zero, ⟨stop⟩⟩, spaces⟩

/-- The hand-over: the watermark allocator, built on `spaces`, answers the allocations
`bootCalls` made while the bitmap allocator is built, and is then drained into it. Answers
the watermark allocator's answers and the bitmap allocator that takes over. -/
def handover (spaces : List (Range Frame)) (bootCalls : List ℕ+) :
    Option (List (Except AllocError Frame) × Wrapped) := do
  let w ← WatermarkAllocator.new spaces
  let (answers, last) ← Transition.exec Inner.step w.inner bootCalls
  let config ← bitmapConfig spaces
  let bitmap ← Wrapped.new config
  pure (answers, drainInto ⟨last⟩ bitmap)

/-- On the ascending free regions `1..2`, `3..4` and `7..8` (frame numbers), three
one-frame allocations hand out frames `7`, `1` and `3`: the allocator moves from the top
region to the lowest one and then up. `drain_into` pushes only `3..8`, and frame `1` is
left free in the bitmap allocator. -/
theorem handover_leaves_handed_frame_free :
    ([⟨⟨1⟩, ⟨2⟩⟩, ⟨⟨3⟩, ⟨4⟩⟩, ⟨⟨7⟩, ⟨8⟩⟩] : List (Range Frame)).Pairwise
      (fun a b => a.stop ≤ b.start) ∧
    handover [⟨⟨1⟩, ⟨2⟩⟩, ⟨⟨3⟩, ⟨4⟩⟩, ⟨⟨7⟩, ⟨8⟩⟩] [1, 1, 1] =
      some ([.ok ⟨7⟩, .ok ⟨1⟩, .ok ⟨3⟩], ⟨⟨⟨0⟩, [0x02#64]⟩⟩) ∧
    (BitmapAllocator.mk ⟨0⟩ [0x02#64]).getFrame ⟨1⟩ = .ok .free := by
  refine ⟨by decide, by decide +kernel, by decide⟩

end Kmain

end Popcorn
