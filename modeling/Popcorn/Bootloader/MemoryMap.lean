import Popcorn.Lib.Coalesce
import Popcorn.Memory.Frame

/-!
# The kernel's memory map

Before it hands over to the kernel, the bootloader turns the firmware's memory map into the
kernel's. `memory_map.sort()` orders the UEFI descriptors, `descriptor_to_entry` makes each
an entry over `phys_start .. phys_start + page_count * 4096` with a type of the hand-off's
`MemoryType`, and a `reduce` grows the entry it holds over the next one when both have one
type and the first ends where the next starts, and pushes it to `kernel_mem_map` otherwise;
the entry `reduce` returns is pushed last. That pass is `Coalesce.reduce`.

The uefi crate's `MemoryMap::sort` is a parameter: the theorems ask of it that it permute
the descriptors and order them by `phys_start`. A descriptor is the three fields the code
reads, and a UEFI memory type is its number. The `assert_lt!` on the number of descriptors
and the `u64` product and sum of an entry's end, which panic on overflow, are the panics,
`none`; `try_into` from `u64` to `usize` and `PhysicalAddress::new` at alignment 1 never fail
on the bootloader's 64-bit target. The hand-off's `Range(start, end)` is a `Range`.
-/

namespace Popcorn

namespace Handoff

/-- `handoff::MemoryType`. -/
inductive MemoryType where
  | reserved
  | free
  | bootloaderCode
  | bootloaderData
  | kernelCode
  | kernelData
  | kernelStack
  | kernelPageTable
  | moduleCode
  | moduleData
  | acpiPreserve
  | acpiReclaim
  | runtimeCode
  | runtimeData
  deriving DecidableEq, Repr

/-- `handoff::MemoryMapEntry`: the addresses an entry covers, and their type. -/
structure MemoryMapEntry where
  coverage : Range ℕ
  ty : MemoryType
  deriving DecidableEq, Repr

end Handoff

namespace Bootloader

open Handoff

/-! ## The firmware's map -/

-- `uefi::table::boot::MemoryType`, by the numbers the UEFI specification gives them
namespace UefiMemoryType

def loaderCode : ℕ := 1
def loaderData : ℕ := 2
def bootServicesCode : ℕ := 3
def bootServicesData : ℕ := 4
def runtimeServicesCode : ℕ := 5
def runtimeServicesData : ℕ := 6
def conventional : ℕ := 7
def acpiReclaim : ℕ := 9
def acpiNonVolatile : ℕ := 10
def persistentMemory : ℕ := 14

end UefiMemoryType

-- the bootloader's own `memory_types`, custom UEFI memory types
namespace MemoryTypes

def kernelCode : ℕ := 0x8000_0000
def moduleCode : ℕ := 0x8000_0001
def pageTable : ℕ := 0x8000_0002
def kernelStack : ℕ := 0x8000_0004

end MemoryTypes

/-- `uefi::table::boot::MemoryDescriptor`, with the fields the memory map reads. -/
structure MemoryDescriptor where
  ty : ℕ
  physStart : ℕ
  pageCount : ℕ
  deriving DecidableEq, Repr

open UefiMemoryType in
/-- The `match` of `descriptor_to_entry`: the hand-off type of a UEFI memory type. -/
def handoffType (ty : ℕ) : MemoryType :=
  if ty = conventional ∨ ty = bootServicesCode ∨ ty = bootServicesData ∨ ty = persistentMemory
  then .free
  else if ty = loaderCode then .bootloaderCode
  else if ty = loaderData then .bootloaderData
  else if ty = MemoryTypes.kernelCode then .kernelCode
  else if ty = MemoryTypes.pageTable then .kernelPageTable
  else if ty = MemoryTypes.moduleCode then .moduleCode
  else if ty = acpiNonVolatile then .acpiPreserve
  else if ty = acpiReclaim then .acpiReclaim
  else if ty = MemoryTypes.kernelStack then .kernelStack
  else if ty = runtimeServicesCode then .runtimeCode
  else if ty = runtimeServicesData then .runtimeData
  else .reserved

/-- The entry `descriptor_to_entry` builds for a descriptor. -/
def MemoryDescriptor.entry (descriptor : MemoryDescriptor) : MemoryMapEntry :=
  ⟨⟨descriptor.physStart, descriptor.physStart + descriptor.pageCount * 4096⟩,
    handoffType descriptor.ty⟩

/-- `descriptor_to_entry`: the `u64` product `page_count * 4096` and the sum of the end
address panic on overflow. -/
def descriptorToEntry (descriptor : MemoryDescriptor) : Option MemoryMapEntry :=
  if 2 ^ 64 ≤ descriptor.pageCount * 4096 ∨
      2 ^ 64 ≤ descriptor.physStart + descriptor.pageCount * 4096 then none
  else some descriptor.entry

/-! ## The merge -/

/-- The test of the `reduce`'s closure: the old item has the new one's type and ends where it
starts. -/
def canMerge (oldItem newItem : MemoryMapEntry) : Prop :=
  oldItem.ty = newItem.ty ∧ oldItem.coverage.stop = newItem.coverage.start

instance : DecidableRel canMerge := fun _ _ => inferInstanceAs (Decidable (_ ∧ _))

/-- The item the closure returns when the two meet: the old one, grown to the new one's end. -/
def merge (oldItem newItem : MemoryMapEntry) : MemoryMapEntry :=
  ⟨⟨oldItem.coverage.start, newItem.coverage.stop⟩, oldItem.ty⟩

/-- The block that builds `kernel_mem_map` from the firmware's map, with the uefi crate's
`sort` and the capacity the bootloader reserved for the map. -/
def kernelMemMap (sort : List MemoryDescriptor → List MemoryDescriptor) (capacity : ℕ)
    (memoryMap : List MemoryDescriptor) : Option (List MemoryMapEntry) :=
  let memoryMap := sort memoryMap
  -- `assert_lt!(mem_map_data.len(), kernel_mem_map.capacity())`
  if capacity ≤ memoryMap.length then none
  else (memoryMap.mapM descriptorToEntry).map (Coalesce.reduce canMerge merge)

/-! ## What the merge keeps -/

/-- The entry `e` has type `t` and covers the address `addr`. -/
def Covers (t : MemoryType) (addr : ℕ) (e : MemoryMapEntry) : Prop :=
  e.ty = t ∧ e.coverage.start ≤ addr ∧ addr < e.coverage.stop

instance (t : MemoryType) (addr : ℕ) (e : MemoryMapEntry) : Decidable (Covers t addr e) :=
  inferInstanceAs (Decidable (_ ∧ _))

/-- Merging onto an entry keeps what could merge with it from the left: the merged entry has
the old one's type and start. -/
theorem canMerge_of_canMerge_merge {p x y : MemoryMapEntry} (hp : canMerge p (merge x y)) :
    canMerge p x := hp

/-- Two entries that merge cover, between them, each address the merged entry covers, once. -/
theorem covers_merge {x y : MemoryMapEntry} (hxy : canMerge x y)
    (hx : x.coverage.start ≤ x.coverage.stop) (hy : y.coverage.start ≤ y.coverage.stop)
    (t : MemoryType) (addr : ℕ) :
    (if Covers t addr (merge x y) then 1 else 0) =
      (if Covers t addr x then 1 else 0) + (if Covers t addr y then 1 else 0) := by
  obtain ⟨hty, hmeet⟩ := hxy
  -- the merged range is the two ranges end to end, which do not overlap
  have hdisj : ¬(Covers t addr x ∧ Covers t addr y) := by
    rintro ⟨⟨-, -, hlt⟩, ⟨-, hle, -⟩⟩
    omega
  have hiff : Covers t addr (merge x y) ↔ Covers t addr x ∨ Covers t addr y := by
    unfold Covers merge
    dsimp only
    rw [← hty]
    constructor
    · rintro ⟨ht, hs, he⟩
      by_cases hmid : addr < x.coverage.stop
      · exact .inl ⟨ht, hs, hmid⟩
      · exact .inr ⟨ht, by omega, he⟩
    · rintro (⟨ht, hs, he⟩ | ⟨ht, hs, he⟩)
      · exact ⟨ht, hs, by omega⟩
      · exact ⟨ht, by omega, he⟩
  by_cases hcx : Covers t addr x <;> by_cases hcy : Covers t addr y
  · exact absurd ⟨hcx, hcy⟩ hdisj
  · rw [if_pos (hiff.mpr (.inl hcx)), if_pos hcx, if_neg hcy]
  · rw [if_pos (hiff.mpr (.inr hcy)), if_neg hcx, if_pos hcy]
  · rw [if_neg fun h => (hiff.mp h).elim hcx hcy, if_neg hcx, if_neg hcy]

/-- The pass keeps the order of the entries' starts. -/
theorem pairwise_start_reduce (l : List MemoryMapEntry)
    (hl : l.Pairwise fun e f => e.coverage.start ≤ f.coverage.start) :
    (Coalesce.reduce canMerge merge l).Pairwise fun e f => e.coverage.start ≤ f.coverage.start := by
  -- a merged entry starts where the old one does
  refine Coalesce.pairwise_reduce _ ?_ ?_ l hl
  · intro x y b _ h
    exact h
  · intro a x y _ h _
    exact h

/-- Each address is covered by as many entries of each type after the pass as before. -/
theorem countP_covers_reduce (l : List MemoryMapEntry)
    (hl : ∀ e ∈ l, e.coverage.start ≤ e.coverage.stop) (t : MemoryType) (addr : ℕ) :
    (Coalesce.reduce canMerge merge l).countP (Covers t addr) =
      l.countP (Covers t addr) := by
  rw [Coalesce.countP_eq_sum_map, Coalesce.countP_eq_sum_map]
  refine Coalesce.sum_map_reduce (fun e => e.coverage.start ≤ e.coverage.stop) _
    (fun x y hxy hx hy => ?_) (fun x y hxy hx hy => ?_) l hl
  · obtain ⟨-, hmeet⟩ := hxy
    show x.coverage.start ≤ y.coverage.stop
    omega
  · simpa using covers_merge hxy hx hy t addr

/-! ## The map the bootloader builds -/

theorem descriptorToEntry_eq_some {d : MemoryDescriptor} {e : MemoryMapEntry} :
    descriptorToEntry d = some e ↔ d.physStart + d.pageCount * 4096 < 2 ^ 64 ∧ e = d.entry := by
  unfold descriptorToEntry
  split_ifs with hover
  · simp only [false_iff, not_and]
    omega
  · simp only [Option.some.injEq]
    constructor
    · rintro rfl
      exact ⟨by omega, rfl⟩
    · rintro ⟨-, rfl⟩
      rfl

/-- The entries of the descriptors, where none of their ends overflows. -/
theorem mapM_descriptorToEntry_eq_some {l : List MemoryDescriptor} {es : List MemoryMapEntry} :
    l.mapM descriptorToEntry = some es ↔
      (∀ d ∈ l, d.physStart + d.pageCount * 4096 < 2 ^ 64) ∧ es = l.map MemoryDescriptor.entry := by
  induction l generalizing es with
  | nil => simp [eq_comm]
  | cons d l ih =>
    simp only [List.mapM_cons, Option.bind_eq_bind, Option.bind_eq_some_iff,
      Option.pure_def, Option.some.injEq, descriptorToEntry_eq_some, ih, List.forall_mem_cons,
      List.map_cons]
    constructor
    · rintro ⟨e, ⟨hfit, rfl⟩, es', ⟨hfits, rfl⟩, rfl⟩
      exact ⟨⟨hfit, hfits⟩, rfl⟩
    · rintro ⟨⟨hfit, hfits⟩, rfl⟩
      exact ⟨_, ⟨hfit, rfl⟩, _, ⟨hfits, rfl⟩, rfl⟩

/-- What `kernel_mem_map` is when the block returns: the pass over the entries of the sorted
descriptors. -/
theorem kernelMemMap_eq_some {sort : List MemoryDescriptor → List MemoryDescriptor}
    {capacity : ℕ} {memoryMap : List MemoryDescriptor} {map : List MemoryMapEntry} :
    kernelMemMap sort capacity memoryMap = some map ↔
      (sort memoryMap).length < capacity ∧
        (∀ d ∈ sort memoryMap, d.physStart + d.pageCount * 4096 < 2 ^ 64) ∧
        map = Coalesce.reduce canMerge merge ((sort memoryMap).map MemoryDescriptor.entry) := by
  unfold kernelMemMap
  dsimp only
  split_ifs with hcap
  · simp only [false_iff, not_and]
    omega
  · rw [Option.map_eq_some_iff]
    constructor
    · rintro ⟨es, hes, rfl⟩
      obtain ⟨hfits, rfl⟩ := mapM_descriptorToEntry_eq_some.mp hes
      exact ⟨by omega, hfits, rfl⟩
    · rintro ⟨-, hfits, rfl⟩
      exact ⟨_, mapM_descriptorToEntry_eq_some.mpr ⟨hfits, rfl⟩, rfl⟩

/-- For any firmware map, with a `sort` that permutes the descriptors into the order of their
`phys_start`: the block returns when the `assert_lt!` holds and no descriptor's end overflows,
and the map it returns is sorted by start address, has no two neighbours of one type where the
first ends at the second's start, and covers each address with as many entries of each type
as the descriptors of that type cover it, so the same set of addresses. -/
theorem kernelMemMap_merges_neighbours (sort : List MemoryDescriptor → List MemoryDescriptor)
    (capacity : ℕ) (memoryMap : List MemoryDescriptor) (hperm : (sort memoryMap).Perm memoryMap)
    (hsorted : (sort memoryMap).Pairwise fun d d' => d.physStart ≤ d'.physStart) :
    (memoryMap.length < capacity →
        (∀ d ∈ memoryMap, d.physStart + d.pageCount * 4096 < 2 ^ 64) →
        (kernelMemMap sort capacity memoryMap).isSome) ∧
      ∀ map, kernelMemMap sort capacity memoryMap = some map →
        map.Pairwise (fun e f => e.coverage.start ≤ f.coverage.start) ∧
        map.IsChain (fun e f => ¬(e.ty = f.ty ∧ e.coverage.stop = f.coverage.start)) ∧
        ∀ t addr,
          map.countP (fun e => e.ty = t ∧ e.coverage.start ≤ addr ∧ addr < e.coverage.stop) =
            memoryMap.countP (fun d => handoffType d.ty = t ∧ d.physStart ≤ addr ∧
              addr < d.physStart + d.pageCount * 4096) ∧
          ((∃ e ∈ map, e.ty = t ∧ e.coverage.start ≤ addr ∧ addr < e.coverage.stop) ↔
            ∃ d ∈ memoryMap, handoffType d.ty = t ∧ d.physStart ≤ addr ∧
              addr < d.physStart + d.pageCount * 4096) := by
  refine ⟨fun hcap hfits => ?_, fun map hmap => ?_⟩
  · obtain ⟨map, hmap⟩ : ∃ map, kernelMemMap sort capacity memoryMap = some map :=
      ⟨_, kernelMemMap_eq_some.mpr ⟨hperm.length_eq ▸ hcap,
        fun d hd => hfits d (hperm.subset hd), rfl⟩⟩
    rw [hmap]
    rfl
  obtain ⟨-, -, rfl⟩ := kernelMemMap_eq_some.mp hmap
  -- the entries of the sorted descriptors, each over `start .. start + count * 4096`
  have hwf : ∀ e ∈ (sort memoryMap).map MemoryDescriptor.entry,
      e.coverage.start ≤ e.coverage.stop := by
    simp only [List.mem_map]
    rintro e ⟨d, -, rfl⟩
    exact Nat.le_add_right _ _
  have hcount : ∀ t addr,
      (Coalesce.reduce canMerge merge ((sort memoryMap).map MemoryDescriptor.entry)).countP
          (Covers t addr) =
        memoryMap.countP (fun d => handoffType d.ty = t ∧ d.physStart ≤ addr ∧
          addr < d.physStart + d.pageCount * 4096) := by
    intro t addr
    rw [countP_covers_reduce _ hwf, List.countP_map, hperm.countP_eq]
    rfl
  refine ⟨pairwise_start_reduce _ (List.pairwise_map.mpr hsorted), ?_,
    fun t addr => ⟨hcount t addr, ?_⟩⟩
  · exact @Coalesce.isChain_reduce _ canMerge _ merge
      (fun _ _ _ _ hp => canMerge_of_canMerge_merge hp) ((sort memoryMap).map MemoryDescriptor.entry)
  -- an address is covered where it is covered at least once
  · have hpos := congrArg (0 < ·) (hcount t addr)
    simp only [List.countP_pos_iff, decide_eq_true_eq, eq_iff_iff] at hpos
    simpa only [Covers] using hpos


-- conventional memory and boot services data are both free: the three pages from `0` merge,
-- and the loader's code after them is an entry of its own
example : kernelMemMap id 8 [⟨7, 0, 1⟩, ⟨7, 0x1000, 1⟩, ⟨4, 0x2000, 1⟩, ⟨1, 0x3000, 2⟩] =
    some [⟨⟨0, 0x3000⟩, .free⟩, ⟨⟨0x3000, 0x5000⟩, .bootloaderCode⟩] := by
  decide

/-- `MemoryMap::sort` as a merge sort by `phys_start`. -/
def sortByPhysStart (memoryMap : List MemoryDescriptor) : List MemoryDescriptor :=
  memoryMap.mergeSort fun d d' => decide (d.physStart ≤ d'.physStart)

theorem sortByPhysStart_sorted (memoryMap : List MemoryDescriptor) :
    (sortByPhysStart memoryMap).Pairwise fun d d' => d.physStart ≤ d'.physStart := by
  have h := @List.pairwise_mergeSort _ (fun d d' : MemoryDescriptor =>
    decide (d.physStart ≤ d'.physStart))
    (fun a b c hab hbc => by simp only [decide_eq_true_eq] at *; omega)
    (fun a b => by simp only [Bool.or_eq_true, decide_eq_true_eq]; omega) memoryMap
  exact h.imp fun hab => by simpa using hab

/-- A firmware map out of order: boot services data at `0x2000`, then conventional memory at
`0` and at `0x1000`, a page each. -/
def firmwareMap : List MemoryDescriptor := [⟨4, 0x2000, 1⟩, ⟨7, 0, 1⟩, ⟨7, 0x1000, 1⟩]

theorem kernelMemMap_firmwareMap :
    (sortByPhysStart firmwareMap).Perm firmwareMap ∧
      (sortByPhysStart firmwareMap).Pairwise (fun d d' => d.physStart ≤ d'.physStart) ∧
      (kernelMemMap sortByPhysStart 8 firmwareMap).isSome :=
  ⟨List.mergeSort_perm _ _, sortByPhysStart_sorted _,
    (kernelMemMap_merges_neighbours sortByPhysStart 8 firmwareMap (List.mergeSort_perm _ _)
      (sortByPhysStart_sorted _)).1 (by decide) (by decide)⟩

end Bootloader
end Popcorn
