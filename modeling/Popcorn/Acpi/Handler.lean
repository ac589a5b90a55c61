import Popcorn.DefaultHeap.Heap

/-!
# Mapping the ACPI tables

The `acpi` crate reads the firmware's tables through `hal::acpi::Handler`, which maps the
physical region the crate asks for and hands back a `PhysicalMapping`. `Handler::map_region`
widens the region `physical_address .. physical_address + size` to whole frames, from
`align_down(physical_address)` up to `align_up(physical_address + size)`, maps that many
frames at the first of them (`Location::At`) with a `Mapping`, takes the mapping apart into
its raw parts and records where in the first page the region starts.
`unmap_physical_region` rebuilds the frames and pages from that record, makes them a
`Mapping` again and drops it, which unmaps the pages and gives both runs back.

The handler's allocator is the model's `BackingAllocator` parameter; the kernel's is
`NullAllocator`. Addresses are `ℕ`, pointers included. A `usize` sum or product that
overflows, the `expect` and `unwrap` on an empty region or a failed mapping and the
`assert_eq!` of the two lengths are panics, `none`; so is `NonZeroUsize::new_unchecked(0)`,
undefined behaviour. The two subtractions never underflow: the lower address is at most the
address, which is at most the upper one. The `acpi` crate's `PhysicalMapping` stores the
fields it is built from and answers them back, and `XPhysicalMapping` holds the same fields,
so one record stands for both; the handler either holds is the allocator parameter.
-/

namespace Popcorn
namespace Acpi

open Mapping (BackingAllocator VirtualAllocator World OwnedFrames OwnedPages RawMapping)

/-! ## Addresses -/

/-- `PhysicalAddress::align_down::<NEW_ALIGN>`: `addr & !(NEW_ALIGN - 1)`, the mask of
`align_down_runtime`. -/
def PhysicalAddress.alignDown (addr newAlign : ℕ) : ℕ :=
  DefaultHeap.alignDownRuntime addr newAlign

/-- `PhysicalAddress::align_up::<NEW_ALIGN>`: `addr + NEW_ALIGN - 1`, whose first sum panics
on overflow, rounded down as by `align_down`. -/
def PhysicalAddress.alignUp (addr newAlign : ℕ) : Option ℕ :=
  DefaultHeap.alignUpRuntime addr newAlign

/-- `VirtualAddress::align_down::<NEW_ALIGN>`. -/
def VirtualAddress.alignDown (addr newAlign : ℕ) : ℕ :=
  DefaultHeap.alignDownRuntime addr newAlign

/-- `usize::div_ceil`. -/
def divCeil (n rhs : ℕ) : ℕ :=
  let d := n / rhs
  if n % rhs > 0 then d + 1 else d

/-! ## The handler -/

/-- `NullAllocator`, the kernel's allocator for the handler: `allocate_at` hands out the frame
`At(frame)` names, and `deallocate_contiguous` does nothing. Its `allocate_contiguous` and its
other two arms of `allocate_at` are `unimplemented!()`, a panic a record of methods cannot
give: the model answers them with an error, and no call modelled here makes them. -/
def nullAllocator : BackingAllocator Unit where
  allocateContiguous s _ := (.error ⟨⟩, s)
  allocateAt s _ location :=
    match location with
    | .atFrame f => (.ok f, s)
    | .aligned _ => (.error ⟨⟩, s)
    | .below _ _ => (.error ⟨⟩, s)
  deallocateContiguous s _ _ := s

/-- The `acpi` crate's `PhysicalMapping`, and `XPhysicalMapping`: where the region starts in
physical memory, the address it is mapped at, its length, and the length mapped. -/
structure PhysicalMapping where
  physicalStart : ℕ
  virtualStart : ℕ
  regionLength : ℕ
  mappedLength : ℕ
  deriving DecidableEq, Repr

/-- The first lines of `map_region`: the address of the first frame of the region's cover,
the region's offset into that frame, and the cover's number of frames. -/
def regionCover (physicalAddress size : ℕ) : Option (ℕ × ℕ × ℕ+) := do
  let lowerAddr := PhysicalAddress.alignDown physicalAddress 4096
  let offset := physicalAddress - lowerAddr
  -- `physical_address + size`, then `align_up`
  let upperAddr ← if 2 ^ 64 ≤ physicalAddress + size then none
    else PhysicalAddress.alignUp (physicalAddress + size) 4096
  -- `NonZeroUsize::new(upper_addr - lower_addr).expect("Cannot map zero size physical region")`
  let actualSize ← if upperAddr - lowerAddr = 0 then none else some (upperAddr - lowerAddr)
  -- `NonZeroUsize::new_unchecked(actual_size.get().div_ceil(4096))`
  let pageCount ← if h : 0 < divCeil actualSize 4096 then some ⟨divCeil actualSize 4096, h⟩
    else none
  pure (lowerAddr, offset, pageCount)

section Handler

variable {σp σv : Type} (P : BackingAllocator σp) (V : VirtualAllocator σv)

/-- `Handler::map_region(physical_address, size, ())`: the cover mapped at its own frames with
`Mapping::new`, taken apart by `into_raw_parts`, and the region's place in it. -/
def mapRegion (physicalAddress size : ℕ) (w : World σp σv) :
    Option (PhysicalMapping × World σp σv) :=
  (regionCover physicalAddress size).bind fun (lowerAddr, offset, pageCount) =>
    match RawMapping.new P V .rawMmap pageCount (.at_ ⟨lowerAddr / pageSize⟩) w with
    | none => none
    -- `.expect("Unable to create physical mapping")`
    | some (.error _, _) => none
    | some (.ok mapping, w) =>
      mapping.intoRawParts.bind fun (frames, pages) =>
        -- `assert_eq!(phys_len, virt_len)`
        if frames.len ≠ pages.len then none
        -- `first_frame.start().addr + offset` and `phys_len.get() * 4096`
        else if 2 ^ 64 ≤ frames.base.start + offset ∨ 2 ^ 64 ≤ (frames.len : ℕ) * 4096 then none
        else some (⟨frames.base.start + offset, pages.base.start + offset, size,
          (frames.len : ℕ) * 4096⟩, w)

/-- `<Handler as AcpiHandler>::map_physical_region`: the fields of `map_region`'s result, moved
into a `PhysicalMapping`. -/
def mapPhysicalRegion (physicalAddress size : ℕ) (w : World σp σv) :
    Option (PhysicalMapping × World σp σv) :=
  mapRegion P V physicalAddress size w

/-- The first lines of `unmap_physical_region`: the first frame, the length and the first page
rebuilt from the region, as the `OwnedFrames` and `OwnedPages` they make. -/
def rawParts (region : PhysicalMapping) : Option (OwnedFrames × OwnedPages) :=
  let firstFrame : Frame := ⟨PhysicalAddress.alignDown region.physicalStart 4096 / pageSize⟩
  -- `NonZeroUsize::new(region.mapped_length() / 4096).unwrap()`
  if h : region.mappedLength / 4096 = 0 then none
  else
    let len : ℕ+ := ⟨region.mappedLength / 4096, Nat.pos_of_ne_zero h⟩
    let firstPage : Page := ⟨VirtualAddress.alignDown region.virtualStart 4096 / pageSize⟩
    some (⟨firstFrame, len⟩, ⟨firstPage, len⟩)

/-- `<Handler as AcpiHandler>::unmap_physical_region`: the `Mapping` rebuilt by
`from_raw_parts`, dropped at the end of its block. -/
def unmapPhysicalRegion (region : PhysicalMapping) (w : World σp σv) : Option (World σp σv) :=
  (rawParts region).bind fun (frames, pages) =>
    (RawMapping.fromRawParts .rawMmap frames pages).bind fun mapping => mapping.drop P V w

end Handler

end Acpi
end Popcorn
