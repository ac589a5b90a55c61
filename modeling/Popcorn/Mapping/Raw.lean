import Popcorn.BitmapAllocator.Basic
import Popcorn.Amd64.KernelSpace

/-!
# Raw memory mappings

`kernel_api::memory::mapping::RawMapping<R, A>` owns `n` physical frames `F .. F + n` and
`v = R::physical_length_to_virtual_length(n)` virtual pages `V .. V + v`, and maps page
`V + off + i` to frame `F + i` for each `i < n`, where `off` is
`R::physical_start_offset_from_virtual()`. A plain mapping (`RawMmap`) uses every page; a
stack (`RawStack`) has one page more, at its bottom, and leaves it unmapped.

`RawMapping::new` allocates the frames (`OwnedFrames::xnew`), then the pages
(`OwnedPages::new_with`), then maps the pages one by one with an `expect`. `Drop` unmaps them,
gives the pages back to the virtual allocator (the `OwnedPages` it rebuilds is dropped at the
end of `drop`) and then the frames to the physical allocator (the field `inner.physical`).

The allocators are traits, so the model takes each as a record of its methods over a state of
its own (`BackingAllocator`, `VirtualAllocator`): whatever they answer, the theorems say which
calls `RawMapping` makes of them. The page table is the kernel's, `Amd64KTable`, which
`__popcorn_paging_get_ktable()` hands out and `__popcorn_paging_ktable_map_page` and
`unmap_page` act on: its tables in physical memory, with the frames its own allocator will
hand out for new tables (`Amd64.Machine`). Page and frame arithmetic is on page numbers in
`ℕ`. An `expect` that fails, the kernel table's panics and the overflow of the stack's
`checked_add(1)` are panics, `none`.
-/

namespace Popcorn
namespace Mapping

open BitmapAllocator (SpecificLocation)

/-- `allocator::Location`. -/
inductive AllocatorLocation where
  | any
  | specific (location : SpecificLocation)
  deriving DecidableEq, Repr

/-- `mapping::Location<A>`. -/
inductive Location (α : Type) where
  | any
  | aligned (n : ℕ)
  | at_ (a : α)
  | below (location : α) (withAlignment : ℕ)
  deriving DecidableEq, Repr

/-- `impl From<Location<Frame>> for allocator::Location`. -/
def Location.into : Location Frame → AllocatorLocation
  | .any => .any
  | .aligned a => .specific (.aligned a)
  | .at_ f => .specific (.atFrame f)
  | .below location withAlignment => .specific (.below location withAlignment)

/-- The methods of a `BackingAllocator`, over the allocator's state. -/
structure BackingAllocator (σ : Type) where
  allocateContiguous : σ → ℕ → Except AllocError Frame × σ
  allocateAt : σ → ℕ → SpecificLocation → Except AllocError Frame × σ
  deallocateContiguous : σ → Frame → ℕ → σ

/-- The methods of a `VirtualAllocator`, over the allocator's state. -/
structure VirtualAllocator (σ : Type) where
  allocateContiguous : σ → ℕ → Except AllocError Page × σ
  allocateContiguousAt : σ → Page → ℕ → Except AllocError Page × σ
  deallocateContiguous : σ → Page → ℕ → σ

/-- `OwnedFrames`: `len` frames from `base`, owned. -/
structure OwnedFrames where
  base : Frame
  len : ℕ+
  deriving DecidableEq, Repr

/-- `OwnedPages`: `len` pages from `base`, owned. -/
structure OwnedPages where
  base : Page
  len : ℕ+
  deriving DecidableEq, Repr

/-- What a mapping acts on: the state of the physical allocator, the state of the virtual
allocator, and the kernel's page table with the machine its tables lie in. -/
structure World (σp σv : Type) where
  physical : σp
  virtual : σv
  ktable : Amd64.Amd64KTable
  machine : Amd64.Machine

/-- The two kinds of `Mappable`. -/
inductive Mappable where
  | rawMmap
  | rawStack
  deriving DecidableEq, Repr

namespace Mappable

/-- `physical_length_to_virtual_length`: the stack's `checked_add(1).expect(..)` panics at
`usize::MAX`. -/
def physicalLengthToVirtualLength : Mappable → ℕ+ → Option ℕ+
  | .rawMmap, n => some n
  | .rawStack, n => if (n : ℕ) + 1 < 2 ^ 64 then some (n + 1) else none

/-- `physical_start_offset_from_virtual`. -/
def physicalStartOffsetFromVirtual : Mappable → ℕ
  | .rawMmap => 0
  | .rawStack => 1

end Mappable

/-- `RawMapping<R, A>`: its frames and the first page it maps (`virtual_valid_start`), which
lies `R`'s offset past the first page it owns. -/
structure RawMapping (R : Mappable) where
  physical : OwnedFrames
  virtualValidStart : Page
  offset_le : R.physicalStartOffsetFromVirtual ≤ virtualValidStart.number

section Calls

variable {σp σv : Type} (P : BackingAllocator σp) (V : VirtualAllocator σv)

/-- `OwnedFrames::new_with(count, allocator)`. -/
def OwnedFrames.newWith (count : ℕ+) (s : σp) : Except AllocError OwnedFrames × σp :=
  match P.allocateContiguous s count with
  | (.ok base, s) => (.ok ⟨base, count⟩, s)
  | (.error e, s) => (.error e, s)

/-- `OwnedFrames::xnew(count, allocator, location)`. -/
def OwnedFrames.xnew (count : ℕ+) (location : AllocatorLocation) (s : σp) :
    Except AllocError OwnedFrames × σp :=
  match location with
  | .any => OwnedFrames.newWith P count s
  | .specific loc =>
    match P.allocateAt s count loc with
    | (.ok base, s) => (.ok ⟨base, count⟩, s)
    | (.error e, s) => (.error e, s)

/-- `Drop for OwnedFrames`. -/
def OwnedFrames.drop (frames : OwnedFrames) (s : σp) : σp :=
  P.deallocateContiguous s frames.base frames.len

/-- `OwnedPages::new_with(len, allocator)`. -/
def OwnedPages.newWith (len : ℕ+) (s : σv) : Except AllocError OwnedPages × σv :=
  match V.allocateContiguous s len with
  | (.ok base, s) => (.ok ⟨base, len⟩, s)
  | (.error e, s) => (.error e, s)

/-- `Drop for OwnedPages`. -/
def OwnedPages.drop (pages : OwnedPages) (s : σv) : σv :=
  V.deallocateContiguous s pages.base pages.len

/-- The loop of `RawMapping::new`: `__popcorn_paging_ktable_map_page(&mut page_table,
offset_base + i, physical_base + i).expect(..)` for `i` in `0 .. n`. -/
def mapPages (k : Amd64.Amd64KTable) (m : Amd64.Machine) (pageBase : Page) (frameBase : Frame) :
    ℕ → Option Amd64.Machine
  | 0 => some m
  | i + 1 => (mapPages k m pageBase frameBase i).bind fun m =>
      match k.mapPage (pageBase + i) (frameBase + i) m with
      | none => none
      | some (.error _, _) => none
      | some (.ok (), m) => some m

/-- The loop of `Drop for RawMapping`: `__popcorn_paging_ktable_unmap_page(&mut page_table,
virtual_valid_start + i).expect(..)` for `i` in `0 .. n`. -/
def unmapPages (k : Amd64.Amd64KTable) (m : Amd64.Machine) (pageBase : Page) :
    ℕ → Option Amd64.Machine
  | 0 => some m
  | i + 1 => (unmapPages k m pageBase i).bind fun m =>
      match k.unmapPage (pageBase + i) m with
      | none => none
      | some (.error (), _) => none
      | some (.ok (), m) => some m

namespace RawMapping

/-- `RawMapping::new(config)`, with the config's length, physical location and allocators
(the world's). -/
def new (R : Mappable) (length : ℕ+) (physicalLocation : Location Frame) (w : World σp σv) :
    Option (Except AllocError (RawMapping R) × World σp σv) :=
  (R.physicalLengthToVirtualLength length).bind fun virtualLen =>
    match OwnedFrames.xnew P length physicalLocation.into w.physical with
    | (.error e, physical) => some (.error e, { w with physical })
    | (.ok physicalMem, physical) =>
      match OwnedPages.newWith V virtualLen w.virtual with
      | (.error e, virtual) =>
        -- the `?` drops `physical_mem`, which gives its frames back
        some (.error e, { w with physical := physicalMem.drop P physical, virtual })
      | (.ok virtualMem, virtual) =>
        let offsetBase := virtualMem.base + R.physicalStartOffsetFromVirtual
        (mapPages w.ktable w.machine offsetBase physicalMem.base length).map fun machine =>
          (.ok ⟨physicalMem, offsetBase, Nat.le_add_left _ _⟩,
            ⟨physical, virtual, w.ktable, machine⟩)

variable {R : Mappable}

/-- `physical_len`. -/
def physicalLen (m : RawMapping R) : ℕ+ := m.physical.len

/-- `physical_start`. -/
def physicalStart (m : RawMapping R) : Frame := m.physical.base

/-- `physical_end`. -/
def physicalEnd (m : RawMapping R) : Frame := m.physicalStart + (m.physicalLen : ℕ)

/-- `virtual_len`. -/
def virtualLen (m : RawMapping R) : Option ℕ+ := R.physicalLengthToVirtualLength m.physicalLen

/-- `virtual_start`: `virtual_valid_start - offset`, a `Page - isize`. -/
def virtualStart (m : RawMapping R) : Page :=
  ⟨m.virtualValidStart.number - R.physicalStartOffsetFromVirtual⟩

/-- `virtual_end`. -/
def virtualEnd (m : RawMapping R) : Option Page :=
  m.virtualLen.map fun len : ℕ+ => m.virtualStart + (len : ℕ)

/-- `into_raw_parts`: the frames, and the pages rebuilt from `virtual_start` and
`virtual_len`. -/
def intoRawParts (m : RawMapping R) : Option (OwnedFrames × OwnedPages) :=
  m.virtualLen.map fun len => (m.physical, ⟨m.virtualStart, len⟩)

/-- `from_raw_parts(frames, pages)`, with its `debug_assert_eq!` on the pages' length. -/
def fromRawParts (R : Mappable) (frames : OwnedFrames) (pages : OwnedPages) :
    Option (RawMapping R) :=
  (R.physicalLengthToVirtualLength frames.len).bind fun correctVlen =>
    if pages.len ≠ correctVlen then none
    else some ⟨frames, pages.base + R.physicalStartOffsetFromVirtual, Nat.le_add_left _ _⟩

/-- `Drop for RawMapping`: unmap the pages, drop the `OwnedPages` rebuilt from
`virtual_start` and `virtual_len`, then the field `inner.physical`. -/
def drop (m : RawMapping R) (w : World σp σv) : Option (World σp σv) :=
  (unmapPages w.ktable w.machine m.virtualValidStart m.physicalLen).bind fun machine =>
    m.virtualLen.map fun len =>
      let pages : OwnedPages := ⟨m.virtualStart, len⟩
      ⟨m.physical.drop P w.physical, pages.drop V w.virtual, w.ktable, machine⟩

end RawMapping

end Calls

end Mapping
end Popcorn
