import Popcorn.Acpi.Handler
import Popcorn.DefaultHeap.Theorems

/-!
# What the ACPI handler maps and gives back

For a region `a .. a + s` of at least one byte that ends more than a page below the top of
the address space, `map_region` covers it with the frames from `a / 4096` up to
`⌈(a + s) / 4096⌉` (`regionCover_eq_some`). With an allocator that hands out the frame
`At(frame)` names, as `NullAllocator` does, the result starts at physical `a`, its mapped
length is the cover's, and each byte `a + i` of the region is reached at
`virtual_start + i` through the kernel table `map_region` leaves (`mapRegion_spec`).
`unmap_physical_region` rebuilds from the result the very mapping `Mapping::new` made, and
dropping it gives the pages and frames back and leaves the kernel table standing for the map
it stood for before (`unmap_mapRegion`). Both hold where the virtual allocator hands out pages
within the address space and the region lies below `2^60`, where a table entry can point.

One region whose cover fits below the top of the address space is not mapped: one that ends exactly a page below the
top, `a + s + 4095 = usize::MAX`. There `align_up` adds `4096` before it subtracts `1`, and the
sum overflows (`mapRegion_panics_at_top`).
-/

namespace Popcorn
namespace Acpi

open Mapping (BackingAllocator VirtualAllocator World OwnedFrames OwnedPages RawMapping mapRun)

/-! ## The masks as arithmetic -/

/-- Clearing the twelve low bits of a `usize` rounds it down to a multiple of `4096`. -/
theorem alignDownRuntime_pageSize {x : ℕ} (hx : x < 2 ^ 64) :
    DefaultHeap.alignDownRuntime x 4096 = x / 4096 * 4096 := by
  rw [show (4096 : ℕ) = 2 ^ 12 by norm_num]
  exact DefaultHeap.alignDownRuntime_two_pow (by norm_num) hx

theorem alignUpRuntime_pageSize {x : ℕ} (hx : x + 4096 < 2 ^ 64) :
    DefaultHeap.alignUpRuntime x 4096 = some ((x + 4095) / 4096 * 4096) := by
  rw [DefaultHeap.alignUpRuntime, if_neg (by omega), show x + 4096 - 1 = x + 4095 by omega,
    alignDownRuntime_pageSize (by omega)]

/-- `align_up` panics wherever `addr + 4096` overflows, even where the address it rounds to
exists. -/
theorem alignUpRuntime_pageSize_eq_none {x : ℕ} (hx : 2 ^ 64 ≤ x + 4096) :
    DefaultHeap.alignUpRuntime x 4096 = none := by
  rw [DefaultHeap.alignUpRuntime, if_pos hx]

theorem divCeil_mul_self (k : ℕ) : divCeil (k * 4096) 4096 = k := by
  simp [divCeil]

/-! ## The cover -/

/-- The cover of a region of at least one byte that ends more than a page below the top: the
frame of `a`, the offset of `a` into it, and the frames up to the one past `a + s - 1`. -/
theorem regionCover_eq_some {a s : ℕ} (hs : 0 < s) (hfit : a + s + 4096 < 2 ^ 64) :
    ∃ n : ℕ+, regionCover a s = some (a / 4096 * 4096, a % 4096, n) ∧
      (n : ℕ) = (a + s + 4095) / 4096 - a / 4096 := by
  have hlower : PhysicalAddress.alignDown a 4096 = a / 4096 * 4096 :=
    alignDownRuntime_pageSize (by omega)
  have hupper : PhysicalAddress.alignUp (a + s) 4096 = some ((a + s + 4095) / 4096 * 4096) :=
    alignUpRuntime_pageSize hfit
  -- the cover holds at least the frame of `a`
  have hcover : a / 4096 < (a + s + 4095) / 4096 := by omega
  have hsize : (a + s + 4095) / 4096 * 4096 - a / 4096 * 4096 =
      ((a + s + 4095) / 4096 - a / 4096) * 4096 := (Nat.sub_mul _ _ _).symm
  refine ⟨⟨(a + s + 4095) / 4096 - a / 4096, by omega⟩, ?_, rfl⟩
  unfold regionCover
  simp only [hlower, if_neg (show ¬2 ^ 64 ≤ a + s by omega), hupper, Option.bind_eq_bind,
    Option.bind_some, hsize, if_neg (show ((a + s + 4095) / 4096 - a / 4096) * 4096 ≠ 0 by omega),
    divCeil_mul_self, dif_pos (show 0 < (a + s + 4095) / 4096 - a / 4096 by omega),
    Option.pure_def]
  rw [show a - a / 4096 * 4096 = a % 4096 by omega]
  rfl

/-- A region that ends exactly a page below the top has no cover: `align_up` adds `4096` to
its end first, and that sum overflows. -/
theorem regionCover_eq_none_at_top {a s : ℕ} (h : a + s + 4095 = 2 ^ 64 - 1) :
    regionCover a s = none := by
  have hupper : PhysicalAddress.alignUp (a + s) 4096 = none :=
    alignUpRuntime_pageSize_eq_none (by omega)
  unfold regionCover
  simp only [if_neg (show ¬2 ^ 64 ≤ a + s by omega), hupper, Option.bind_eq_bind, Option.bind_none]

/-! ## The mapping -/

section Handler

variable {σp σv : Type} (P : BackingAllocator σp) (V : VirtualAllocator σv)

/-- A plain mapping is taken apart into its frames and the pages it maps, as many as its
frames. -/
theorem intoRawParts_rawMmap (m : RawMapping .rawMmap) :
    m.intoRawParts = some (m.physical, ⟨m.virtualStart, m.physical.len⟩) := rfl

/-- `Mapping::new` at a frame, with an allocator that hands out the frame `At(frame)` names:
the mapping holds that frame and as many after it as asked. -/
theorem new_at_frame (hP : ∀ s n f, (P.allocateAt s n (.atFrame f)).1 = .ok f) {n : ℕ+}
    {f : Frame} {w w' : World σp σv} {m : RawMapping .rawMmap}
    (h : RawMapping.new P V .rawMmap n (.at_ f) w = some (.ok m, w')) :
    m.physicalStart = f ∧ m.physicalLen = n := by
  obtain ⟨v, -, hx, -, -⟩ := RawMapping.new_eq_ok P V h
  obtain ⟨hlen, halloc⟩ := Mapping.OwnedFrames.xnew_eq_ok P hx
  have hbase := congrArg Prod.fst halloc
  rw [hP] at hbase
  exact ⟨(Except.ok.inj hbase).symm, hlen⟩

/-- What `map_region` answers: the cover mapped by `Mapping::new`, and the region's place in
the mapping. -/
theorem mapRegion_eq_some {a s : ℕ} {w w' : World σp σv} {x : PhysicalMapping}
    (h : mapRegion P V a s w = some (x, w')) :
    ∃ lowerAddr offset n m, regionCover a s = some (lowerAddr, offset, n) ∧
      RawMapping.new P V .rawMmap n (.at_ ⟨lowerAddr / pageSize⟩) w = some (.ok m, w') ∧
      x = ⟨m.physicalStart.start + offset, m.virtualStart.start + offset, s,
        (m.physicalLen : ℕ) * 4096⟩ := by
  unfold mapRegion at h
  obtain ⟨⟨lowerAddr, offset, n⟩, hcover, h⟩ := Option.bind_eq_some_iff.mp h
  dsimp only at h
  rcases hnew : RawMapping.new P V .rawMmap n (.at_ ⟨lowerAddr / pageSize⟩) w with
    _ | ⟨_ | m, w₁⟩ <;> rw [hnew] at h
  · cases h
  · cases h
  · dsimp only at h
    rw [intoRawParts_rawMmap, Option.bind_some] at h
    dsimp only at h
    rw [if_neg (not_not.mpr rfl)] at h
    split_ifs at h
    cases h
    exact ⟨lowerAddr, offset, n, m, hcover, hnew, rfl⟩

section Cover

variable {a s : ℕ} (hP : ∀ s n f, (P.allocateAt s n (.atFrame f)).1 = .ok f) (hs : 0 < s)
  (hfit : a + s + 4096 < 2 ^ 64)
  (hV : ∀ s n p s', V.allocateContiguous s n = (.ok p, s') → p.number + n ≤ 2 ^ 52)

include hP hs hfit in
/-- With an allocator that hands out the frame `At(frame)` names, the mapping `map_region`
makes holds the cover's frames from the frame of `a` on, and its answer starts at physical
`a` and maps the whole cover. -/
theorem mapRegion_new {w w' : World σp σv} {x : PhysicalMapping}
    (h : mapRegion P V a s w = some (x, w')) :
    ∃ (n : ℕ+) (m : RawMapping .rawMmap), (n : ℕ) = (a + s + 4095) / 4096 - a / 4096 ∧
      RawMapping.new P V .rawMmap n (.at_ ⟨a / 4096⟩) w = some (.ok m, w') ∧
      m.physicalStart = ⟨a / 4096⟩ ∧ m.physicalLen = n ∧
      x = ⟨a, m.virtualStart.start + a % 4096, s, (n : ℕ) * 4096⟩ := by
  obtain ⟨lowerAddr, offset, n, m, hcover, hnew, rfl⟩ := mapRegion_eq_some P V h
  obtain ⟨n', hcover', hn'⟩ := regionCover_eq_some hs hfit
  rw [hcover'] at hcover
  obtain ⟨rfl, rfl, rfl⟩ : a / 4096 * 4096 = lowerAddr ∧ a % 4096 = offset ∧ n' = n := by
    simpa using hcover
  have hframe : (⟨a / 4096 * 4096 / pageSize⟩ : Frame) = ⟨a / 4096⟩ := by
    simp [pageSize]
  rw [hframe] at hnew
  obtain ⟨hstart, hlen⟩ := new_at_frame P V hP hnew
  refine ⟨n', m, hn', hnew, hstart, hlen, ?_⟩
  rw [hstart, hlen, Frame.start, pageSize]
  congr 1
  dsimp only
  omega

include hV in
/-- The pages of a plain mapping lie within the address space. -/
theorem new_pages_within {n : ℕ+} {location : Mapping.Location Frame} {w w' : World σp σv}
    {m : RawMapping .rawMmap} (h : RawMapping.new P V .rawMmap n location w = some (.ok m, w')) :
    m.virtualStart.number + n ≤ 2 ^ 52 := by
  obtain ⟨v, hv, -, hpages, -⟩ := RawMapping.new_eq_ok P V h
  obtain rfl : n = v := Option.some.inj hv
  exact hV _ _ _ _ ((Mapping.OwnedPages.newWith_eq_ok V).mp hpages).1

include hV in
/-- The pages and frames of the plain mapping of the cover of a region below `2^60` are
within what the kernel table addresses. -/
theorem new_addressable {n : ℕ+} {w w' : World σp σv} {m : RawMapping .rawMmap}
    (hphys : a + s ≤ 2 ^ 60) (hn : (n : ℕ) = (a + s + 4095) / 4096 - a / 4096)
    (hnew : RawMapping.new P V .rawMmap n (.at_ ⟨a / 4096⟩) w = some (.ok m, w'))
    (hstart : m.physicalStart = ⟨a / 4096⟩) :
    ∀ i < (n : ℕ),
      (m.virtualValidStart + i).number < 2 ^ 52 ∧ (m.physicalStart + i).number < 2 ^ 48 := by
  have hwithin := new_pages_within P V hV hnew
  -- a plain mapping maps its pages from the first it owns
  have hvalid : m.virtualValidStart = m.virtualStart := (RawMapping.virtualStart_add_offset m).symm
  intro i hi
  rw [hvalid, hstart]
  simp only [Page.number_add, Frame.number_add]
  omega

include hP hs hfit hV in
/-- The kernel table after `map_region` of a region below `2^60` stands for the map with the
cover's pages, unmapped pages of the upper half before, mapped to the cover's frames. -/
theorem mapRegion_refines {w w' : World σp σv} {x : PhysicalMapping} {M : Amd64.PageMap}
    (href : w.ktable.Refines w.machine M) (hphys : a + s ≤ 2 ^ 60)
    (h : mapRegion P V a s w = some (x, w')) :
    ∃ (n : ℕ+) (m : RawMapping .rawMmap), (n : ℕ) = (a + s + 4095) / 4096 - a / 4096 ∧
      RawMapping.new P V .rawMmap n (.at_ ⟨a / 4096⟩) w = some (.ok m, w') ∧
      m.physicalStart = ⟨a / 4096⟩ ∧ m.physicalLen = n ∧
      x = ⟨a, m.virtualStart.start + a % 4096, s, (n : ℕ) * 4096⟩ ∧ w'.ktable = w.ktable ∧
      (∀ i < (n : ℕ), (m.virtualStart + i).IsUpper ∧ M (m.virtualStart + i) = none) ∧
      w.ktable.Refines w'.machine (mapRun M m.virtualStart ⟨a / 4096⟩ n) := by
  obtain ⟨n, m, hn, hnew, hstart, hlen, rfl⟩ := mapRegion_new P V hP hs hfit h
  -- a plain mapping maps its pages from the first it owns
  have hvalid : m.virtualValidStart = m.virtualStart := (RawMapping.virtualStart_add_offset m).symm
  obtain ⟨hk, hfree, href'⟩ :=
    RawMapping.new_refines P V href (new_addressable P V hV hphys hn hnew hstart) hnew
  rw [hvalid] at hfree
  rw [hvalid, hstart] at href'
  exact ⟨n, m, hn, hnew, hstart, hlen, rfl, hk, hfree, href'⟩

include hP hs hfit hV in
/-- `map_region` maps the whole region: its answer starts at physical `a`, its mapped length
is the cover's, the offset of `a` into its page is kept, the region fits in the length mapped,
and byte `a + i` is reached at `virtual_start + i` through the kernel table it leaves. -/
theorem mapRegion_spec {w w' : World σp σv} {x : PhysicalMapping} {M : Amd64.PageMap}
    (href : w.ktable.Refines w.machine M) (hphys : a + s ≤ 2 ^ 60)
    (h : mapRegion P V a s w = some (x, w')) :
    x.physicalStart = a ∧ x.regionLength = s ∧
      x.mappedLength = ((a + s + 4095) / 4096 - a / 4096) * 4096 ∧
      x.virtualStart % 4096 = a % 4096 ∧ a % 4096 + s ≤ x.mappedLength ∧
      ∀ i < s, w'.ktable.view w'.machine.mem ⟨(x.virtualStart + i) / 4096⟩ =
        some ⟨(a + i) / 4096⟩ := by
  obtain ⟨n, m, hn, -, -, -, rfl, hk, hfree, href'⟩ :=
    mapRegion_refines P V hP hs hfit hV href hphys h
  have hvs : m.virtualStart.start = m.virtualStart.number * 4096 := rfl
  refine ⟨rfl, rfl, by rw [hn], by dsimp only; omega, by dsimp only; omega, fun i hi => ?_⟩
  -- byte `a + i` lies in page `(a % 4096 + i) / 4096` of the cover
  have hin : (a % 4096 + i) / 4096 < n := by omega
  have hpage : (⟨(m.virtualStart.start + a % 4096 + i) / 4096⟩ : Page) =
      m.virtualStart + (a % 4096 + i) / 4096 := by
    rw [Page.eq_iff, Page.number_add]
    dsimp only
    omega
  dsimp only
  rw [hk, hpage, href'.view_eq _ (hfree _ hin).1, mapRun, if_pos (by simp only [Page.number_add]; omega),
    Option.some.injEq, Frame.eq_iff, Frame.number_add, Page.number_add, Nat.add_sub_cancel_left]
  dsimp only
  omega

include hP hs hfit hV in
/-- `unmap_physical_region` of what `map_region` answered rebuilds the mapping `Mapping::new`
made, with its first frame, first page and length, and dropping it gives back those frames
and pages and leaves the kernel table standing for the map it stood for before the map. -/
theorem unmap_mapRegion {w w' : World σp σv} {x : PhysicalMapping} {M : Amd64.PageMap}
    (href : w.ktable.Refines w.machine M) (hphys : a + s ≤ 2 ^ 60)
    (h : mapRegion P V a s w = some (x, w')) :
    ∃ (n : ℕ+) (m : RawMapping .rawMmap) (machine : Amd64.Machine),
      RawMapping.new P V .rawMmap n (.at_ ⟨a / 4096⟩) w = some (.ok m, w') ∧
      rawParts x = some (⟨⟨a / 4096⟩, n⟩, ⟨m.virtualStart, n⟩) ∧
      (rawParts x).bind (fun parts => RawMapping.fromRawParts .rawMmap parts.1 parts.2) = some m ∧
      unmapPhysicalRegion P V x w' = some ⟨P.deallocateContiguous w'.physical ⟨a / 4096⟩ n,
        V.deallocateContiguous w'.virtual m.virtualStart n, w.ktable, machine⟩ ∧
      w.ktable.Refines machine M ∧ machine.free = w'.machine.free := by
  obtain ⟨n, m, hn, hnew, hstart, hlen, rfl⟩ := mapRegion_new P V hP hs hfit h
  -- the mapping's first page is a `usize` address
  have hwithin := new_pages_within P V hV hnew
  have hvs' : m.virtualStart.start = m.virtualStart.number * 4096 := rfl
  have hvs : m.virtualStart.start < 2 ^ 64 := by
    have := n.pos
    omega
  have hphys' : m.physical = ⟨⟨a / 4096⟩, n⟩ := by
    rw [← hstart, ← hlen]
    rfl
  have hparts : rawParts ⟨a, m.virtualStart.start + a % 4096, s, (n : ℕ) * 4096⟩ =
      some (⟨⟨a / 4096⟩, n⟩, ⟨m.virtualStart, n⟩) := by
    have hlower : PhysicalAddress.alignDown a 4096 / pageSize = a / 4096 := by
      rw [PhysicalAddress.alignDown, alignDownRuntime_pageSize (by omega), pageSize,
        Nat.mul_div_cancel _ (by norm_num)]
    have hpage : VirtualAddress.alignDown (m.virtualStart.start + a % 4096) 4096 / pageSize =
        m.virtualStart.number := by
      rw [VirtualAddress.alignDown, alignDownRuntime_pageSize (by omega), pageSize]
      omega
    have hcount : (n : ℕ) * 4096 / 4096 = n := Nat.mul_div_cancel _ (by norm_num)
    unfold rawParts
    dsimp only
    rw [dif_neg (by rw [hcount]; exact n.ne_zero)]
    simp only [hlower, hpage, hcount]
    rfl
  -- `from_raw_parts` gives back the mapping `new` made
  have hfrom : RawMapping.fromRawParts .rawMmap m.physical ⟨m.virtualStart, n⟩ = some m := by
    have hround := RawMapping.fromRawParts_intoRawParts m (v := m.physical.len) rfl
    have hlen' : m.physical.len = n := hlen
    rw [intoRawParts_rawMmap, Option.bind_some, hlen'] at hround
    exact hround
  obtain ⟨v', machine, hv', hdrop, href', hfree⟩ :=
    RawMapping.drop_new P V href (new_addressable P V hV hphys hn hnew hstart) hnew
  have hvn : v' = n := by
    rw [← hlen]
    exact (Option.some.inj hv').symm
  rw [hvn] at hdrop
  refine ⟨n, m, machine, hnew, hparts, ?_, ?_, href', hfree⟩
  · rw [hparts, Option.bind_some, ← hphys', hfrom]
  · rw [unmapPhysicalRegion, hparts, Option.bind_some]
    dsimp only
    rw [← hphys', hfrom, Option.bind_some, hdrop, hstart, hlen]

include hP hs hfit in
/-- `map_region` returns wherever the virtual allocator hands out pages for the cover that are
unmapped pages of the upper half, the region lies below `2^60` and the kernel table's allocator
has two frames a page: it maps the pages to the cover's frames. -/
theorem mapRegion_of_free_pages {w : World σp σv} {M : Amd64.PageMap}
    (href : w.ktable.Refines w.machine M) (hphys : a + s ≤ 2 ^ 60) {n : ℕ+} {p : Page}
    {virtual : σv} (hn : (n : ℕ) = (a + s + 4095) / 4096 - a / 4096)
    (hpages : V.allocateContiguous w.virtual n = (.ok p, virtual))
    (hfree : ∀ i < (n : ℕ), (p + i).IsUpper ∧ M (p + i) = none)
    (htables : 2 * (n : ℕ) ≤ w.machine.free.length) :
    ∃ physical machine, mapRegion P V a s w = some (⟨a, p.start + a % 4096, s, (n : ℕ) * 4096⟩,
      ⟨physical, virtual, w.ktable, machine⟩) ∧
      w.ktable.Refines machine (mapRun M p ⟨a / 4096⟩ n) := by
  obtain ⟨n', hcover, hn'⟩ := regionCover_eq_some hs hfit
  obtain rfl : n' = n := PNat.eq (hn'.trans hn.symm)
  -- the allocator hands out the cover's first frame
  obtain ⟨physical, hat⟩ : ∃ physical, P.allocateAt w.physical n' (.atFrame ⟨a / 4096⟩) =
      (.ok ⟨a / 4096⟩, physical) := ⟨_, Prod.ext (hP _ _ _) rfl⟩
  have hx : OwnedFrames.xnew P n' (Mapping.Location.at_ ⟨a / 4096⟩).into w.physical =
      (.ok ⟨⟨a / 4096⟩, n'⟩, physical) := by
    simp [OwnedFrames.xnew, Mapping.Location.into, hat]
  -- a plain mapping's pages and frames, where the kernel table can map them
  have hmappable : ∀ i < (n' : ℕ),
      (p + Mapping.Mappable.rawMmap.physicalStartOffsetFromVirtual + i).IsUpper ∧
      ((⟨a / 4096⟩ : Frame) + i).number < 2 ^ 48 ∧
      M (p + Mapping.Mappable.rawMmap.physicalStartOffsetFromVirtual + i) = none := by
    intro i hi
    obtain ⟨hup, hnone⟩ := hfree i hi
    refine ⟨hup, by simp only [Frame.number_add]; omega, hnone⟩
  obtain ⟨m, machine, hnew, href', hphys', hvs⟩ :=
    RawMapping.new_of_allocations P V (R := .rawMmap) href rfl hx hpages hmappable htables
  have hframe : (⟨a / 4096 * 4096 / pageSize⟩ : Frame) = ⟨a / 4096⟩ := by
    simp [pageSize]
  refine ⟨physical, machine, ?_, href'⟩
  unfold mapRegion
  rw [hcover, Option.bind_some]
  dsimp only
  rw [hframe, hnew]
  dsimp only
  rw [intoRawParts_rawMmap, Option.bind_some]
  dsimp only
  -- the region's start and the mapped length are `usize`s
  rw [if_neg (not_not.mpr rfl), hphys', hvs,
    if_neg (by simp only [Frame.start, pageSize]; omega), Frame.start, pageSize,
    Nat.div_add_mod']

end Cover

/-- A region that ends exactly a page below the top of the address space,
`a + s + 4095 = usize::MAX`, is not mapped: `map_region` panics in `align_up`, before it asks
either allocator for anything. -/
theorem mapRegion_panics_at_top {a s : ℕ} (h : a + s + 4095 = 2 ^ 64 - 1) (w : World σp σv) :
    mapRegion P V a s w = none := by
  rw [mapRegion, regionCover_eq_none_at_top h, Option.bind_none]

end Handler

/-- The kernel's `PDPT`s from frame `1000` over empty memory, with two frames for new tables,
and pages from the first of the upper half. -/
def nullWorld : World Unit ℕ :=
  ⟨(), 0xffff_8000_0000_0, ⟨⟨1000⟩⟩, ⟨fun _ _ => 0, [⟨2000⟩, ⟨2001⟩]⟩⟩

-- a region of `0x20` bytes that straddles a page boundary is mapped with the two frames it
-- touches, from the first page the virtual allocator hands out
example : (mapRegion nullAllocator Mapping.bumpPages 0x1ff0 0x20 nullWorld).map Prod.fst =
    some ⟨0x1ff0, 0xffff_8000_0000_0 * 4096 + 0xff0, 0x20, 2 * 4096⟩ := by
  decide

/-- The last byte below the top page, `0xffff_ffff_ffff_efff`, as a region of one byte: the
kernel's handler panics on it. -/
theorem mapRegion_panics_below_top_page :
    0xffff_ffff_ffff_efff + 1 + 4095 = 2 ^ 64 - 1 ∧
      mapRegion nullAllocator Mapping.bumpPages 0xffff_ffff_ffff_efff 1 nullWorld = none :=
  ⟨by norm_num, mapRegion_panics_at_top _ _ (by norm_num) _⟩

end Acpi
end Popcorn
