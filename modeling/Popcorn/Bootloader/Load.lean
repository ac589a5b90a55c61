import Popcorn.Elf.File
import Popcorn.Bootloader.Paging

/-!
# Loading the kernel

`bootloader::elf::load_kernel` parses the kernel with `File::try_new`, builds a page table
(`PageTable::try_new`), and then, for each `LOAD` or `TLS` segment, `load_segment` allocates
`ceil(memory_size / 4096)` pages of physical memory, copies the segment's `file_size` bytes
of the file to the start of the allocation and zeroes the `memory_size - file_size` bytes
after them; `try_map_range` then maps the page holding `vaddr`, and the pages after it, to
the allocation's frames, with an `unwrap`.

The allocator is the closure `allocator(count, type)`, over a state of its own. Physical
memory is a map from byte addresses to bytes. The page table is what its walk computes: the
tables that exist, by the indices leading to them from the `Level4` table, and the frame each
page maps to; the tables' own pages, which the allocator hands out fresh, are not part of the
memory modelled. A page is the bits 12 to 47 of its address, the four indices `l4_index` to
`l1_index` read, so an address's low 12 bits never reach the table. A panic (`todo!`, a failed
`unwrap`, `expect` or `assert!`, the slice of the file out of range, an overflowing
subtraction) is `none`.
-/

namespace Popcorn
namespace Bootloader

/-- `uefi::table::boot::AllocateType`. -/
inductive AllocateType where
  | anyPages
  | maxAddress (addr : ℕ)
  | address (addr : ℕ)
  deriving DecidableEq, Repr

/-- The closure `allocator(count, type)`, over its state: the address of `count` pages. -/
abbrev Allocator (σ ε : Type) := σ → ℕ → AllocateType → Except ε ℕ × σ

/-- Physical memory, byte by byte. -/
abbrev PhysMem := ℕ → UInt8

/-- `ptr::copy_nonoverlapping` and `ptr::write_bytes`: the bytes written from `dst` on. -/
def writeBytes (mem : PhysMem) (dst : ℕ) (bytes : List UInt8) : PhysMem := fun a =>
  if dst ≤ a ∧ a < dst + bytes.length then bytes.getD (a - dst) 0 else mem a

/-- The page an address lies in, as the table's walk reads it: `(addr & L4_MASK) >> L4_SHIFT`
down to `(addr & L1_MASK) >> L1_SHIFT`, bits 12 to 47. -/
def pageIndex (addr : ℕ) : ℕ := addr / pageSize % 2 ^ 36

/-- The indices `l4_index`, `l3_index`, `l2_index` of the tables above a page's entry. -/
def tablePath (addr : ℕ) : List (List ℕ) :=
  let i := pageIndex addr
  [[i / 2 ^ 27], [i / 2 ^ 27, i / 2 ^ 18 % 2 ^ 9], [i / 2 ^ 27, i / 2 ^ 18 % 2 ^ 9, i / 2 ^ 9 % 2 ^ 9]]

/-- `paging::MapError`; the table's walk is abstract, so the allocation of a missing table
cannot fail here other than through the allocator. -/
inductive MapError (ε : Type) where
  | alreadyMapped
  | allocationError (e : ε)

/-- `paging::PageTable`, as what its walk computes: the child tables that exist, by the
indices that lead to them, and the frame address each page maps to. -/
structure PageTable where
  tables : List (List ℕ)
  pages : ℕ → Option ℕ

namespace PageTable

/-- `PageTable::try_new`, as what its walk computes: the calls of `allocate` that
`Bootloader.tryNew` makes, and then the 256 `Level3` tables of the kernel's half, with no page
mapped. -/
def tryNew {σ ε : Type} (allocate : σ → ℕ → Except ε ℕ × σ) (s : σ) :
    Option (Except ε PageTable × σ) :=
  (tryNewAllocations allocate s).map fun (r, s) =>
    (r.map fun _ => ⟨(List.range 256).map fun i => [i + 256], fun _ => none⟩, s)

/-- The address bits of an entry: `set_pointed_frame` keeps `frame & 0x000f_ffff_ffff_f000`. -/
def frameMask : ℕ := 0x000f_ffff_ffff_f000

/-- `PageTable::translate_page`. -/
def translatePage (t : PageTable) (virt : ℕ) : Option ℕ := t.pages (pageIndex virt)

/-- Where a virtual byte lands: its page's frame, at its offset in the page. -/
def translate (t : PageTable) (vaddr : ℕ) : Option ℕ :=
  (t.translatePage vaddr).map (· + vaddr % pageSize)

/-- `try_get_or_create_child_table` along the path: a missing table is allocated, behind its
`assert!` that the pointer is aligned and not null. -/
def createTables {σ ε : Type} (allocate : σ → Except ε ℕ × σ) :
    List (List ℕ) → List (List ℕ) → σ → Option (Except ε (List (List ℕ)) × σ)
  | tables, [], s => some (.ok tables, s)
  | tables, p :: ps, s =>
    if p ∈ tables then createTables allocate tables ps s
    else
      match allocate s with
      | (.error e, s) => some (.error e, s)
      | (.ok tablePtr, s) =>
        if tablePtr % 8 ≠ 0 ∨ tablePtr = 0 then none
        else createTables allocate (tables ++ [p]) ps s

/-- `PageTable::try_map_page_with`: the tables above the page, then its entry, which
`set_pointed_frame` refuses when it is present. -/
def tryMapPageWith {σ ε : Type} (allocate : σ → Except ε ℕ × σ) (t : PageTable)
    (page frame : ℕ) (s : σ) : Option (Except (MapError ε) PageTable × σ) :=
  (createTables allocate t.tables (tablePath page) s).map fun (r, s) =>
    match r with
    | .error e => (.error (.allocationError e), s)
    | .ok tables =>
      match t.pages (pageIndex page) with
      | some _ => (.error .alreadyMapped, s)
      | none =>
        (.ok ⟨tables, Function.update t.pages (pageIndex page) (some (frame &&& frameMask))⟩, s)

/-- `PageTable::try_map_range_with`: pages `page_start + i * 4096` to frames
`frame_start + i * 4096`, for `i` in `0 .. page_count`, with `?`; each sum panics when it
overflows a `u64`. -/
def tryMapRangeWith {σ ε : Type} (allocate : σ → Except ε ℕ × σ) (t : PageTable)
    (pageStart frameStart : ℕ) : ℕ → σ → Option (Except (MapError ε) PageTable × σ)
  | 0, s => some (.ok t, s)
  | i + 1, s =>
    (tryMapRangeWith allocate t pageStart frameStart i s).bind fun (r, s) =>
      match r with
      | .error e => some (.error e, s)
      | .ok t =>
        if 2 ^ 64 ≤ pageStart + i * pageSize ∨ 2 ^ 64 ≤ frameStart + i * pageSize then none
        else tryMapPageWith allocate t (pageStart + i * pageSize) (frameStart + i * pageSize) s

end PageTable

/-- `LoadedSegment`. -/
structure LoadedSegment where
  physicalAddr : ℕ
  virtualAddr : ℕ
  pageCount : ℕ
  deriving DecidableEq, Repr

/-- `SegmentFlags::LowMem`. -/
def lowMem : ℕ := 0x10000

/-- `SegmentType::LOAD`. -/
def segmentTypeLoad : ℕ := 1

/-- `SegmentType::TLS`. -/
def segmentTypeTls : ℕ := 7

section Loader

variable {σ ε : Type} (allocator : Allocator σ ε)

/-- `load_segment(kernel, segment, allocator)`: the pages for `memory_size` bytes, the file's
bytes copied to their start, and zeroes after them. -/
def loadSegment (kernel : Elf.File) (segment : Elf.ProgramHeaderEntry64) (s : σ)
    (mem : PhysMem) : Option (LoadedSegment × σ × PhysMem) :=
  let allocationType :=
    if segment.segmentFlags &&& lowMem ≠ 0 then AllocateType.maxAddress 0x10_0000
    else .anyPages
  -- `memory_size.div_ceil(PAGE_SIZE)`
  let pageCount := (segment.memorySize + pageSize - 1) / pageSize
  match allocator s pageCount allocationType with
  | (.error _, _) => none
  | (.ok allocation, s) =>
    -- `file_offset + file_size` panics on overflow, `kernel[segment.file_location()]` past
    -- the end of the file
    if 2 ^ 64 ≤ segment.fileOffset + segment.fileSize ∨
        kernel.data.length < segment.fileOffset + segment.fileSize then none
    -- `allocation + segment.file_size` panics on overflow
    else if 2 ^ 64 ≤ allocation + segment.fileSize then none
    -- `segment.memory_size - segment.file_size` panics below zero
    else if segment.memorySize < segment.fileSize then none
    else
      let mem := writeBytes mem allocation
        ((kernel.data.drop segment.fileOffset).take segment.fileSize)
      let mem := writeBytes mem (allocation + segment.fileSize)
        (List.replicate (segment.memorySize - segment.fileSize) 0)
      some (⟨allocation, segment.vaddr, pageCount⟩, s, mem)

/-- The state of `load_kernel`'s loop over the segments. -/
structure LoadState (σ : Type) where
  pageTable : PageTable
  kernelFirstPage : ℕ
  kernelLastPage : ℕ
  tlsStart : Option ℕ
  tlsEnd : Option ℕ
  alloc : σ
  mem : PhysMem

/-- One pass of `load_kernel`'s `try_for_each`: load the segment, widen the address range,
note a `TLS` segment, and map the segment's pages with an `unwrap`. -/
def loadStep (kernel : Elf.File) (st : LoadState σ) (segmentMeta : Elf.ProgramHeaderEntry64) :
    Option (LoadState σ) :=
  (loadSegment allocator kernel segmentMeta st.alloc st.mem).bind fun (segment, s, mem) =>
    let kernelFirstPage :=
      if segment.virtualAddr < st.kernelFirstPage then segment.virtualAddr else st.kernelFirstPage
    let lastPage := segment.virtualAddr + segment.pageCount * pageSize
    -- `VirtualAddress + usize` panics on overflow
    if 2 ^ 64 ≤ lastPage then none
    else
      let kernelLastPage := if st.kernelLastPage < lastPage then lastPage else st.kernelLastPage
      if segmentMeta.segmentType = segmentTypeTls ∧
          2 ^ 64 ≤ segment.virtualAddr + segmentMeta.memorySize then none
      else
        let tls := if segmentMeta.segmentType = segmentTypeTls then
            (some segment.virtualAddr, some (segment.virtualAddr + segmentMeta.memorySize))
          else (st.tlsStart, st.tlsEnd)
        (st.pageTable.tryMapRangeWith (fun s => allocator s 1 .anyPages) segment.virtualAddr
            segment.physicalAddr segment.pageCount s).bind fun (r, s) =>
          match r with
          | .error _ => none
          | .ok pageTable =>
            some ⟨pageTable, kernelFirstPage, kernelLastPage, tls.1, tls.2, s, mem⟩

/-- `KernelLoadInfo`. -/
structure KernelLoadInfo where
  kernel : Elf.File
  pageTable : PageTable
  addressRange : ℕ × ℕ
  tls : ℕ × ℕ

/-- `load_kernel(from, allocator)`, on the buffer `fromBytes` at address `addr`. -/
def loadKernel (addr : ℕ) (fromBytes : List UInt8) (s : σ) (mem : PhysMem) :
    Option (Except Unit KernelLoadInfo × σ × PhysMem) :=
  match Elf.File.tryNew addr fromBytes with
  | none => none
  | some (.error _) => some (.error (), s, mem)
  | some (.ok kernel) =>
    match PageTable.tryNew (fun s count => allocator s count .anyPages) s with
    | none => none
    | some (.error _, s) => some (.error (), s, mem)
    | some (.ok pageTable, s) =>
      kernel.segments.bind fun segments =>
        let segments := segments.filter fun segment =>
          segment.segmentType = segmentTypeLoad ∨ segment.segmentType = segmentTypeTls
        (segments.foldlM (loadStep allocator kernel) ⟨pageTable, 2 ^ 64 - 1, 0, none, none, s, mem⟩).bind
          fun st =>
            -- `tls_start.map(|start| start..tls_end.unwrap()).unwrap_or(0..0)`
            let tls := match st.tlsStart, st.tlsEnd with
              | none, _ => some (0, 0)
              | some start, some stop => some (start, stop)
              | some _, none => none
            tls.map fun tls =>
              (.ok ⟨kernel, st.pageTable, (st.kernelFirstPage, st.kernelLastPage), tls⟩,
                st.alloc, st.mem)

end Loader

end Bootloader
end Popcorn
