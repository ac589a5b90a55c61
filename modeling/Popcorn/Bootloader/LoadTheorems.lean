import Popcorn.Bootloader.Load
import Popcorn.Elf.Theorems
import Popcorn.Lib.Run
import Popcorn.Lib.Word

/-!
# What loading the kernel maps

`load_segment` puts the segment's image, its file bytes and then zeroes, at the start of its
allocation (`loadSegment_eq_some`). `try_map_range` maps the page that holds `vaddr` to the
allocation's first frame, so the byte `vaddr + k` translates to the allocation's byte
`vaddr % 4096 + k`, which holds the image's byte `vaddr % 4096 + k`, not its byte `k`
(`loadStep_loads`): the two agree only when `vaddr` is page-aligned. A later segment never
changes a page mapped before it, since `set_pointed_frame` refuses a present entry, and only
widens the address range (`loadStep_grows`), so the table `load_kernel` returns translates
every segment the same way and its range covers every segment (`loadKernel_maps_segments`).

The allocator is taken to answer page-aligned memory below the 52 address bits an entry
keeps, as UEFI's `allocate_pages` does.
-/

namespace Popcorn
namespace Bootloader

/-- The byte of a segment's image at offset `j`: the file's within `file_size`, zero after. -/
def segmentByte (data : List UInt8) (segment : Elf.ProgramHeaderEntry64) (j : ℕ) : UInt8 :=
  if j < segment.fileSize then data.getD (segment.fileOffset + j) 0 else 0

/-- The allocator answers page-aligned memory whose pages end below `2 ^ 52`. -/
def Allocator.PageAligned {σ ε : Type} (allocator : Allocator σ ε) : Prop :=
  ∀ s count type a s', allocator s count type = (.ok a, s') →
    a % pageSize = 0 ∧ a + count * pageSize ≤ 2 ^ 52

/-! ## Physical memory -/

theorem writeBytes_apply_add (mem : PhysMem) (dst : ℕ) {bytes : List UInt8} {j : ℕ}
    (hj : j < bytes.length) : writeBytes mem dst bytes (dst + j) = bytes.getD j 0 := by
  simp [writeBytes, hj]

theorem writeBytes_apply_of_not_mem (mem : PhysMem) (bytes : List UInt8) {dst a : ℕ}
    (ha : a < dst ∨ dst + bytes.length ≤ a) : writeBytes mem dst bytes a = mem a := by
  unfold writeBytes
  rw [if_neg (by omega)]

/-! ## The page table -/

namespace PageTable

variable {σ ε : Type} {allocate : σ → Except ε ℕ × σ}

/-- A page mapped without error was free, and now points at the frame's address bits. -/
theorem tryMapPageWith_eq_ok {t t' : PageTable} {page frame : ℕ} {s s' : σ}
    (h : t.tryMapPageWith allocate page frame s = some (.ok t', s')) :
    t.pages (pageIndex page) = none ∧
      t'.pages = Function.update t.pages (pageIndex page) (some (frame &&& frameMask)) := by
  unfold tryMapPageWith at h
  obtain ⟨⟨r, s₁⟩, -, h⟩ := Option.map_eq_some_iff.mp h
  cases r with
  | error e => cases h
  | ok tables =>
    dsimp only at h
    cases hp : t.pages (pageIndex page) with
    | some f =>
      rw [hp] at h
      cases h
    | none =>
      rw [hp] at h
      cases h
      exact ⟨rfl, rfl⟩

/-- A range mapped without error maps each of its pages to its frame's address bits, and keeps
every page mapped before it. -/
theorem tryMapRangeWith_eq_ok {t : PageTable} {pageStart frameStart : ℕ} :
    ∀ {n : ℕ} {t' : PageTable} {s s' : σ},
      t.tryMapRangeWith allocate pageStart frameStart n s = some (.ok t', s') →
      (∀ i < n, t'.pages (pageIndex (pageStart + i * pageSize)) =
          some ((frameStart + i * pageSize) &&& frameMask)) ∧
        ∀ p f, t.pages p = some f → t'.pages p = some f := by
  intro n
  induction n with
  | zero =>
    intro t' s s' h
    rw [tryMapRangeWith] at h
    cases h
    exact ⟨fun i hi => (Nat.not_lt_zero i hi).elim, fun p f hp => hp⟩
  | succ n ih =>
    intro t' s s' h
    rw [tryMapRangeWith] at h
    obtain ⟨⟨r, s₁⟩, hfirst, h⟩ := Option.bind_eq_some_iff.mp h
    cases r with
    | error e => cases h
    | ok t₁ =>
      dsimp only at h
      split_ifs at h
      obtain ⟨hfree, hpages⟩ := tryMapPageWith_eq_ok h
      obtain ⟨hmapped, hkeep⟩ := ih hfirst
      -- the page mapped last was free, so it is none of the pages mapped before it
      have hne : ∀ p f, t₁.pages p = some f → p ≠ pageIndex (pageStart + n * pageSize) := by
        rintro p f hp rfl
        rw [hp] at hfree
        cases hfree
      refine ⟨fun i hi => ?_, fun p f hp => ?_⟩
      · rw [hpages]
        rcases Nat.lt_succ_iff_lt_or_eq.mp hi with hi | rfl
        · rw [Function.update_of_ne (hne _ _ (hmapped i hi))]
          exact hmapped i hi
        · exact Function.update_self ..
      · rw [hpages, Function.update_of_ne (hne _ _ (hkeep p f hp))]
        exact hkeep p f hp

/-- A page-aligned address below `2 ^ 52` is all address bits. -/
theorem and_frameMask {x : ℕ} (hx : x % pageSize = 0) (hlt : x < 2 ^ 52) :
    x &&& frameMask = x := by
  have hmask : frameMask = 2 ^ 52 - 1 - (2 ^ 12 - 1) := by
    unfold frameMask
    norm_num
  rw [hmask, Word.and_not_lowBits_eq (s := 12) (by norm_num) hlt]
  exact Nat.div_mul_cancel (Nat.dvd_of_mod_eq_zero hx)

/-- In a range of pages mapped to consecutive frames, the byte `k` past `pageStart` translates
to the byte `pageStart % 4096 + k` past `frameStart`. -/
theorem translate_of_mapped {t : PageTable} {pageStart frameStart n k : ℕ}
    (hmap : ∀ i < n,
      t.pages (pageIndex (pageStart + i * pageSize)) = some (frameStart + i * pageSize))
    (hk : pageStart % pageSize + k < n * pageSize) :
    t.translate (pageStart + k) = some (frameStart + pageStart % pageSize + k) := by
  -- the byte lies in the page `(pageStart % 4096 + k) / 4096` of the range
  have hin : (pageStart % pageSize + k) / pageSize < n := by
    rw [pageSize] at hk ⊢
    omega
  have hidx : pageIndex (pageStart + k) =
      pageIndex (pageStart + (pageStart % pageSize + k) / pageSize * pageSize) := by
    unfold pageIndex
    rw [pageSize]
    congr 1
    omega
  rw [translate, translatePage, hidx, hmap _ hin, Option.map_some]
  congr 1
  rw [pageSize]
  omega

end PageTable

/-! ## One segment -/

section Loader

variable {σ ε : Type} (allocator : Allocator σ ε)

/-- A loaded segment: an allocation of `ceil(memory_size / 4096)` pages, which holds the
segment's image from its start, and memory outside it unchanged. -/
theorem loadSegment_eq_some {kernel : Elf.File} {segment : Elf.ProgramHeaderEntry64} {s : σ}
    {mem : PhysMem} {r : LoadedSegment × σ × PhysMem}
    (h : loadSegment allocator kernel segment s mem = some r) :
    ∃ allocation type,
      allocator s ((segment.memorySize + pageSize - 1) / pageSize) type = (.ok allocation, r.2.1) ∧
      r.1 = ⟨allocation, segment.vaddr, (segment.memorySize + pageSize - 1) / pageSize⟩ ∧
      (∀ j < segment.memorySize, r.2.2 (allocation + j) = segmentByte kernel.data segment j) ∧
      ∀ a, a < allocation ∨ allocation + segment.memorySize ≤ a → r.2.2 a = mem a := by
  unfold loadSegment at h
  dsimp only at h
  split at h
  · cases h
  · rename_i allocation s' halloc
    split_ifs at h with hfile hover hsize
    cases h
    have hlen : ((kernel.data.drop segment.fileOffset).take segment.fileSize).length =
        segment.fileSize := by
      simp only [List.length_take, List.length_drop]
      omega
    refine ⟨allocation, _, halloc, rfl, fun j hj => ?_, fun a ha => ?_⟩ <;> dsimp only
    · unfold segmentByte
      by_cases hfj : j < segment.fileSize
      · -- a file byte, which the zeroes after the file bytes leave alone
        rw [if_pos hfj, writeBytes_apply_of_not_mem _ _ (by omega),
          writeBytes_apply_add _ _ (by rwa [hlen])]
        simp [List.getD_eq_getElem?_getD, hfj, List.getElem?_drop]
      · rw [if_neg hfj, show allocation + j = allocation + segment.fileSize + (j - segment.fileSize)
          by omega, writeBytes_apply_add _ _ (by simp; omega)]
        simp [List.getD_eq_getElem?_getD]
    · rw [writeBytes_apply_of_not_mem _ _ (by simp; omega),
        writeBytes_apply_of_not_mem _ _ (by omega)]

/-- One pass of the loop, taken apart: the segment loaded, the address range widened to its
pages, and its pages mapped without error. -/
theorem loadStep_eq_some {kernel : Elf.File} {st st' : LoadState σ}
    {segmentMeta : Elf.ProgramHeaderEntry64}
    (h : loadStep allocator kernel st segmentMeta = some st') :
    ∃ segment s, loadSegment allocator kernel segmentMeta st.alloc st.mem = some (segment, s, st'.mem) ∧
      min segment.virtualAddr st.kernelFirstPage = st'.kernelFirstPage ∧
      max (segment.virtualAddr + segment.pageCount * pageSize) st.kernelLastPage =
        st'.kernelLastPage ∧
      st.pageTable.tryMapRangeWith (fun s => allocator s 1 .anyPages) segment.virtualAddr
        segment.physicalAddr segment.pageCount s = some (.ok st'.pageTable, st'.alloc) := by
  unfold loadStep at h
  obtain ⟨⟨segment, s, mem⟩, hload, h⟩ := Option.bind_eq_some_iff.mp h
  dsimp only at h
  -- past the two panics, the cases of the range's ends and of a `TLS` segment go alike
  split_ifs at h <;>
  · obtain ⟨⟨r, s'⟩, hmap, h⟩ := Option.bind_eq_some_iff.mp h
    cases r with
    | error e => cases h
    | ok t =>
      cases h
      exact ⟨segment, s, hload, by dsimp only; omega, by dsimp only; omega, hmap⟩

/-- The loop only adds mappings and widens the address range. -/
structure LoadState.Grows {σ : Type} (st st' : LoadState σ) : Prop where
  pages : ∀ p f, st.pageTable.pages p = some f → st'.pageTable.pages p = some f
  first : st'.kernelFirstPage ≤ st.kernelFirstPage
  last : st.kernelLastPage ≤ st'.kernelLastPage

instance {σ : Type} : Std.Refl (@LoadState.Grows σ) :=
  ⟨fun _ => ⟨fun _ _ h => h, le_rfl, le_rfl⟩⟩

instance {σ : Type} : IsTrans (LoadState σ) LoadState.Grows :=
  ⟨fun _ _ _ h₁ h₂ =>
    ⟨fun p f h => h₂.pages p f (h₁.pages p f h), h₂.first.trans h₁.first, h₁.last.trans h₂.last⟩⟩

theorem LoadState.Grows.translate {st st' : LoadState σ} (h : st.Grows st') {v a : ℕ}
    (hv : st.pageTable.translate v = some a) : st'.pageTable.translate v = some a := by
  unfold PageTable.translate PageTable.translatePage at hv ⊢
  obtain ⟨f, hf, rfl⟩ := Option.map_eq_some_iff.mp hv
  exact Option.map_eq_some_iff.mpr ⟨f, h.pages _ f hf, rfl⟩

/-- The step lemma of the loop's frame: a pass keeps every mapping and only widens the range. -/
theorem loadStep_grows {kernel : Elf.File} {st st' : LoadState σ}
    {segmentMeta : Elf.ProgramHeaderEntry64}
    (h : loadStep allocator kernel st segmentMeta = some st') : st.Grows st' := by
  obtain ⟨segment, s, -, hfirst, hlast, hmap⟩ := loadStep_eq_some allocator h
  exact ⟨(PageTable.tryMapRangeWith_eq_ok hmap).2, by omega, by omega⟩

/-- The segment one pass loads: the byte `vaddr + k`, up to the end of the pages mapped from
the page of `vaddr`, translates to the byte `vaddr % 4096 + k` of the allocation, which holds
the image's byte `vaddr % 4096 + k`; and the range covers the segment. -/
theorem loadStep_loads (halign : allocator.PageAligned) {kernel : Elf.File}
    {st st' : LoadState σ} {segmentMeta : Elf.ProgramHeaderEntry64}
    (h : loadStep allocator kernel st segmentMeta = some st') :
    ∃ allocation,
      (∀ k, segmentMeta.vaddr % pageSize + k <
          (segmentMeta.memorySize + pageSize - 1) / pageSize * pageSize →
        st'.pageTable.translate (segmentMeta.vaddr + k) =
          some (allocation + segmentMeta.vaddr % pageSize + k)) ∧
      (∀ j < segmentMeta.memorySize,
        st'.mem (allocation + j) = segmentByte kernel.data segmentMeta j) ∧
      st'.kernelFirstPage ≤ segmentMeta.vaddr ∧
      segmentMeta.vaddr + segmentMeta.memorySize ≤ st'.kernelLastPage := by
  obtain ⟨segment, s, hload, hfirst, hlast, hmap⟩ := loadStep_eq_some allocator h
  obtain ⟨allocation, type, halloc, rfl, hmem, -⟩ := loadSegment_eq_some allocator hload
  obtain ⟨haligned, hbelow⟩ := halign _ _ _ _ _ halloc
  obtain ⟨hpages, -⟩ := PageTable.tryMapRangeWith_eq_ok hmap
  dsimp only at hpages
  -- the allocation's frames are aligned and below `2 ^ 52`, so the mask keeps them
  have hframes : ∀ i < (segmentMeta.memorySize + pageSize - 1) / pageSize,
      st'.pageTable.pages (pageIndex (segmentMeta.vaddr + i * pageSize)) =
        some (allocation + i * pageSize) := by
    intro i hi
    rw [hpages i hi, PageTable.and_frameMask (by rw [Nat.add_mul_mod_self_right]; exact haligned)]
    rw [pageSize] at hbelow hi ⊢
    omega
  have hpages_cover : segmentMeta.memorySize ≤
      (segmentMeta.memorySize + pageSize - 1) / pageSize * pageSize := by
    rw [pageSize]
    omega
  exact ⟨allocation, fun k hk => PageTable.translate_of_mapped hframes hk, hmem,
    by dsimp only at hfirst; omega, by dsimp only at hlast; omega⟩

/-! ## The whole loop -/

/-- The table `load_kernel` returns: every `LOAD` or `TLS` segment is translated as its pass
left it, shifted by `vaddr % 4096` into its allocation, and the address range covers every
byte of every segment. -/
theorem loadKernel_maps_segments (halign : allocator.PageAligned) {addr : ℕ}
    {fromBytes : List UInt8} {s s' : σ} {mem mem' : PhysMem} {info : KernelLoadInfo}
    (h : loadKernel allocator addr fromBytes s mem = some (.ok info, s', mem')) :
    ∃ segments, info.kernel.segments = some segments ∧
      ∀ segment ∈ segments,
        segment.segmentType = segmentTypeLoad ∨ segment.segmentType = segmentTypeTls →
        ∃ allocation,
          (∀ k, segment.vaddr % pageSize + k <
              (segment.memorySize + pageSize - 1) / pageSize * pageSize →
            info.pageTable.translate (segment.vaddr + k) =
              some (allocation + segment.vaddr % pageSize + k)) ∧
          ∀ k < segment.memorySize,
            info.addressRange.1 ≤ segment.vaddr + k ∧ segment.vaddr + k < info.addressRange.2 := by
  unfold loadKernel at h
  split at h
  · cases h
  · cases h
  · rename_i kernel _
    split at h
    · cases h
    · cases h
    · obtain ⟨segments, hsegs, h⟩ := Option.bind_eq_some_iff.mp h
      obtain ⟨st, hfold, h⟩ := Option.bind_eq_some_iff.mp h
      obtain ⟨tls, -, h⟩ := Option.map_eq_some_iff.mp h
      cases h
      refine ⟨segments, hsegs, fun segment hseg htype => ?_⟩
      have hloaded : segment ∈ segments.filter fun segment =>
          segment.segmentType = segmentTypeLoad ∨ segment.segmentType = segmentTypeTls :=
        List.mem_filter.mpr ⟨hseg, decide_eq_true htype⟩
      -- the segment's own pass, and the passes after it, which keep what it mapped
      obtain ⟨u, v, hstep, hgrows⟩ := Transition.foldlM_step_of_mem (R := LoadState.Grows)
        (fun _ _ _ _ h => loadStep_grows allocator h) hfold hloaded
      obtain ⟨allocation, hbytes, -, hfirst, hlast⟩ := loadStep_loads allocator halign hstep
      refine ⟨allocation, fun k hk => hgrows.translate (hbytes k hk), fun k hk => ?_⟩
      have h₁ := hgrows.first
      have h₂ := hgrows.last
      dsimp only
      omega

end Loader

/-! ## A segment that does not start on a page -/

/-- A bump allocator over pages: `count` pages from page `s`, while they end below `2 ^ 52`. -/
def bumpAllocator : Allocator ℕ Unit := fun s count _ =>
  if (s + count) * pageSize ≤ 2 ^ 52 then (.ok (s * pageSize), s + count) else (.error (), s)

/-- A kernel with one `LOAD` segment of two bytes, `0xAA 0xBB` at file offset `0x78`, to be
loaded at `0x1078`: offset and address agree modulo the alignment `0x1000`, as linkers lay
them out. -/
def unalignedKernel : List UInt8 :=
  Elf.elfHeaderOnly ++
    [1, 0, 0, 0, 5, 0, 0, 0,  0x78, 0, 0, 0, 0, 0, 0, 0,
     0x78, 0x10, 0, 0, 0, 0, 0, 0,  0, 0, 0, 0, 0, 0, 0, 0,
     2, 0, 0, 0, 0, 0, 0, 0,  2, 0, 0, 0, 0, 0, 0, 0,
     0, 0x10, 0, 0, 0, 0, 0, 0] ++
    [0xAA, 0xBB]

set_option maxRecDepth 8000 in
/-- `load_kernel` accepts `unalignedKernel`, whose segment's first byte is the file's byte
`0xAA`. The segment is copied to the start of its allocation `0x20_1000`, after the page
table's 257 pages, but the table maps the segment's first address `0x1078` to `0x20_1078`,
which holds zero. -/
theorem loadKernel_misplaces_unaligned_segment :
    ((Elf.File.tryNew 0 unalignedKernel).bind fun r => r.toOption.bind Elf.File.segments) =
        some [⟨1, 5, 0x78, 0x1078, 0, 2, 2, 0x1000⟩] ∧
      unalignedKernel.getD 0x78 0 = 0xAA ∧
      ((loadKernel bumpAllocator 0 unalignedKernel 0x100 fun _ => 0).bind fun (r, _, mem) =>
        r.toOption.map fun info =>
          (info.pageTable.translate 0x1078, mem 0x20_1078, mem 0x20_1000)) =
        some (some 0x20_1078, 0, 0xAA) := by
  decide

end Bootloader
end Popcorn
