import Popcorn.Mapping.Raw
import Popcorn.Lib.Run

/-!
# The kernel's default heap

`kernel_default_heap::SyncHeap` is a bump allocator behind a mutex: `BadHeap` keeps a
watermark, the next free address, and an `OldMapping`, `len` mapped pages from `base`.
`allocate(layout)` aligns the watermark up to `layout.align()`, and when the allocation would
end past the mapping, grows the mapping in place by the pages it lacks
(`OldMapping::resize_in_place`): frames from the physical allocator, the pages right after
the mapping from the virtual allocator (`allocate_contiguous_at`), then the map loop. Only on
success does the watermark move to the end of the allocation. `deallocate` frees nothing.

The allocators and the page table are those of `Mapping` (`BackingAllocator`,
`VirtualAllocator`, the kernel table). Addresses are `ℕ`; an addition that overflows a
`usize` panics, as does a failed `expect` or `unwrap` (the `NonNull` of a null start among
them), and a panic is `none`.
-/

namespace Popcorn
namespace DefaultHeap

open Mapping (BackingAllocator VirtualAllocator World mapPages)

/-- `OldMapping<Highmem>`: `len` pages from `base`. -/
structure OldMapping where
  base : Page
  len : ℕ
  deriving DecidableEq, Repr

/-- `OldMapping::end`: the page after the mapping. -/
def OldMapping.end (m : OldMapping) : Page := m.base + m.len

/-- `core::alloc::Layout`: a size and a power-of-two alignment, with the size rounded up to
the alignment at most `isize::MAX`. -/
structure Layout where
  size : ℕ
  align : ℕ
  align_pow : ∃ k, align = 2 ^ k
  size_le : size + (align - 1) < 2 ^ 63

/-- `BadHeap`: the next free address, and the mapping the heap grows. -/
structure BadHeap where
  watermark : ℕ
  mapping : OldMapping
  deriving DecidableEq, Repr

/-- `!x` on a `usize`. -/
def usizeNot (x : ℕ) : ℕ := 2 ^ 64 - 1 - x

/-- `VirtualAddress::align_down_runtime`. -/
def alignDownRuntime (addr newAlignment : ℕ) : ℕ := addr &&& usizeNot (newAlignment - 1)

/-- `VirtualAddress::align_up_runtime`: `addr + new_alignment - 1` panics when the sum
overflows. -/
def alignUpRuntime (addr newAlignment : ℕ) : Option ℕ :=
  if 2 ^ 64 ≤ addr + newAlignment then none
  else some (alignDownRuntime (addr + newAlignment - 1) newAlignment)

section Calls

variable {σp σv : Type} (P : BackingAllocator σp) (V : VirtualAllocator σv)

/-- `OldMapping::new_with(len, physical_allocator)`: the frames, then the pages (the frames
leak when the pages fail), then the map loop with its `expect`. -/
def OldMapping.newWith (len : ℕ) (w : World σp σv) :
    Option (Except AllocError OldMapping × World σp σv) :=
  match P.allocateContiguous w.physical len with
  | (.error e, physical) => some (.error e, { w with physical })
  | (.ok physicalMem, physical) =>
    match V.allocateContiguous w.virtual len with
    | (.error e, virtual) => some (.error e, { w with physical, virtual })
    | (.ok virtualMem, virtual) =>
      (mapPages w.ktable w.machine virtualMem physicalMem len).map fun machine =>
        (.ok ⟨virtualMem, len⟩, ⟨physical, virtual, w.ktable, machine⟩)

/-- `OldMapping::resize_inner(new_len)`: the mapping after the call and the world. -/
def OldMapping.resizeInner (m : OldMapping) (newLen : ℕ) (w : World σp σv) :
    Option (Except (Option Frame) Unit × OldMapping × World σp σv) :=
  if newLen = m.len then some (.ok (), m, w)
  -- shrinking neither frees nor unmaps
  else if newLen < m.len then some (.ok (), { m with len := newLen }, w)
  else
    let extraLen := newLen - m.len
    match P.allocateContiguous w.physical extraLen with
    | (.error _, physical) => some (.error none, m, { w with physical })
    | (.ok extraPhysicalMem, physical) =>
      -- the page `allocate_contiguous_at` answers is not read
      match V.allocateContiguousAt w.virtual m.end extraLen with
      | (.error _, virtual) =>
        some (.error (some extraPhysicalMem), m, { w with physical, virtual })
      | (.ok _, virtual) =>
        (mapPages w.ktable w.machine m.end extraPhysicalMem extraLen).map fun machine =>
          (.ok (), { m with len := newLen }, ⟨physical, virtual, w.ktable, machine⟩)

/-- `OldMapping::resize_in_place(new_len)`. -/
def OldMapping.resizeInPlace (m : OldMapping) (newLen : ℕ) (w : World σp σv) :
    Option (Except AllocError Unit × OldMapping × World σp σv) :=
  (m.resizeInner P V newLen w).map fun (r, m, w) => (r.mapError fun _ => ⟨⟩, m, w)

/-- `SyncHeap::new`: `OldMapping::new(0).unwrap()`, with the watermark at its end (the
`align_down` to an alignment of 1 keeps it). -/
def SyncHeap.new (w : World σp σv) : Option (BadHeap × World σp σv) :=
  (OldMapping.newWith P V 0 w).bind fun (r, w) =>
    match r with
    | .ok mapping => some (⟨mapping.end.start, mapping⟩, w)
    | .error _ => none

/-- `SyncHeap::allocate(layout)`, on the heap behind the lock. -/
def SyncHeap.allocate (layout : Layout) (h : BadHeap) (w : World σp σv) :
    Option (Except AllocError ℕ × BadHeap × World σp σv) :=
  (alignUpRuntime h.watermark layout.align).bind fun start =>
    -- `start + layout.size()` panics on overflow
    if 2 ^ 64 ≤ start + layout.size then none
    else
      let end_ := start + layout.size
      let maxAddr := h.mapping.end.start
      if maxAddr < end_ then
        -- `isize::try_from(end - max_addr)` fails past `isize::MAX`
        if 2 ^ 63 ≤ end_ - maxAddr then some (.error ⟨⟩, h, w)
        else
          -- `increment.div_ceil(4096)`
          let increment := (end_ - maxAddr + pageSize - 1) / pageSize
          -- `guard.mapping.len() + increment` panics on overflow
          if 2 ^ 64 ≤ h.mapping.len + increment then none
          else
            (h.mapping.resizeInPlace P V (h.mapping.len + increment) w).bind fun (r, mapping, w) =>
              match r with
              | .error e => some (.error e, { h with mapping }, w)
              -- `NonNull::new(start.as_ptr()).unwrap()` panics on a null `start`
              | .ok () => if start = 0 then none else some (.ok start, ⟨end_, mapping⟩, w)
      else if start = 0 then none
      else some (.ok start, { h with watermark := end_ }, w)

/-- `__popcorn_kernel_heap_allocate(layout)`: one call of `allocate` on `KERNEL_HEAP`, the heap
with the world it acts on. -/
def kernelHeapAllocate (s : BadHeap × World σp σv) (layout : Layout) :
    Option (Except AllocError ℕ × BadHeap × World σp σv) :=
  SyncHeap.allocate P V layout s.1 s.2

end Calls

end DefaultHeap
end Popcorn
