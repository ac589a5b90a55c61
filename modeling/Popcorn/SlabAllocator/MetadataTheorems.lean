import Popcorn.SlabAllocator.Metadata
import Popcorn.SlabAllocator.LinkedListTheorems
import Popcorn.Lib.Word

/-!
# Where the slab's blocks and metadata go

The loop of `SlabMetadata::new` threads the blocks it writes into a chain that visits them
last first (`writeBlocks_chain`), and `chunks_exact_mut` cuts the slab's data into whole
blocks in increasing order (`chunksExact_pairwise`), each inside the data
(`chunksExact_add_le`). So the free list enumerates every block once, in descending address
order.

The metadata's address `(end - METADATA_SIZE) & !(METADATA_ALIGN)` clears bit `3` of
`end - METADATA_SIZE` only (`metadataStart_eq`, from `Word.and_not_two_pow_eq`): it keeps
the address's three low bits, and moves it down by `8` at most. On an allocation aligned to
its blocks of `2 ^ k ≥ 8` bytes with eight blocks or more (`Fits`), the metadata lies inside
the allocation after the last block. Its address is aligned for `Node<SlabMetadata>` when the
allocation's length is a multiple of `8`, and `new` lays the slab out (`new_layout`); on any
other length the address keeps the length's low bits, so it is misaligned, and the reference
`new` takes to the storage there is undefined behaviour (`new_misaligns_metadata`). The usual
mask, `!(METADATA_ALIGN - 1)`, would clear the three low bits.
-/

namespace Popcorn
namespace SlabAllocator

open NodeHeap

/-! ## The blocks -/

section Blocks

variable {start len size : ℕ}

theorem mem_chunksExact {c : ℕ} :
    c ∈ chunksExact start len size ↔ ∃ i < len / size, start + i * size = c := by
  simp [chunksExact]

theorem length_chunksExact : (chunksExact start len size).length = len / size := by
  simp [chunksExact]

/-- Each chunk lies inside the bytes it was cut from. -/
theorem chunksExact_add_le (hsize : 0 < size) {c : ℕ} (hc : c ∈ chunksExact start len size) :
    start ≤ c ∧ c + size ≤ start + len := by
  obtain ⟨i, hi, rfl⟩ := mem_chunksExact.mp hc
  -- `i + 1` chunks fit in `len` bytes
  have hfit : (i + 1) * size ≤ len := (Nat.le_div_iff_mul_le hsize).mp hi
  rw [Nat.add_one_mul] at hfit
  omega

/-- The chunks come in increasing order of address, one block apart. -/
theorem chunksExact_pairwise :
    (chunksExact start len size).Pairwise fun c d => c + size ≤ d := by
  apply List.Pairwise.map _ _ (List.pairwise_lt_range (n := len / size))
  intro i j hij
  have : (i + 1) * size ≤ j * size := Nat.mul_le_mul_right size hij
  rw [Nat.add_one_mul] at this
  omega

theorem chunksExact_nodup (hsize : 0 < size) : (chunksExact start len size).Nodup :=
  chunksExact_pairwise.imp fun hcd => by omega

end Blocks

/-- The loop threads the blocks it writes, the last first, in front of the chain
`previous_block` starts. -/
theorem writeBlocks_chain {h : Heap Unit} {prev : Option ℕ} {as : List ℕ} {s : List Unit}
    (hc : Holds h prev as s) {blocks : List ℕ} (hnodup : blocks.Nodup)
    (hdisj : ∀ b ∈ blocks, b ∉ as) :
    Holds (writeBlocks h prev blocks).1 (writeBlocks h prev blocks).2 (blocks.reverse ++ as)
      (List.replicate blocks.length () ++ s) := by
  induction blocks generalizing h prev as s with
  | nil => exact hc
  | cons b blocks ih =>
    obtain ⟨hb, hnodup'⟩ := List.nodup_cons.mp hnodup
    -- the block written links to the chain so far, which the write leaves as it was
    have hc' : Holds (h.write b ⟨prev, ()⟩) (some b) (b :: as) (() :: s) :=
      .cons (Heap.write_nodes_self h b _) (hc.write_of_not_mem (hdisj b (by simp)) _)
    have hdisj' : ∀ c ∈ blocks, c ∉ b :: as := by
      intro c hcm hmem
      rcases List.mem_cons.mp hmem with rfl | has
      · exact hb hcm
      · exact hdisj c (List.mem_cons_of_mem _ hcm) has
    have hrest := ih hc' hnodup' hdisj'
    rw [writeBlocks, List.reverse_cons, List.append_assoc, List.length_cons,
      List.replicate_succ', List.append_assoc]
    exact hrest

/-- The free list the loop builds from nothing visits the blocks, the last first. -/
theorem writeBlocks_free_list (h : Heap Unit) {blocks : List ℕ} (hnodup : blocks.Nodup) :
    Holds (writeBlocks h none blocks).1 (writeBlocks h none blocks).2 blocks.reverse
      (List.replicate blocks.length ()) := by
  have := writeBlocks_chain (h := h) .nil hnodup fun _ _ hnil => List.not_mem_nil hnil
  rwa [List.append_nil, List.append_nil] at this

/-! ## The metadata's address -/

section Address

variable (a : Allocation)

/-- `& !(METADATA_ALIGN)` clears bit `3` of `end - METADATA_SIZE` and keeps the rest. -/
theorem metadataStart_eq :
    metadataStart a =
      (a.ptr + a.len - metadataSize) / 16 * 16 + (a.ptr + a.len - metadataSize) % 8 := by
  have hlt : a.ptr + a.len - metadataSize < 2 ^ 64 := by
    have := a.end_lt
    omega
  have hclear := Word.and_not_two_pow_eq (w := 64) (s := 3) (by norm_num) hlt
  rw [metadataStart, DefaultHeap.usizeNot, metadataAlign]
  exact hclear

/-- The address keeps the three low bits of `end - METADATA_SIZE`. -/
theorem metadataStart_mod : metadataStart a % 8 = (a.ptr + a.len - metadataSize) % 8 := by
  rw [metadataStart_eq]
  omega

/-- The address is at most `end - METADATA_SIZE`, and at least `8` below it. -/
theorem metadataStart_le :
    metadataStart a ≤ a.ptr + a.len - metadataSize ∧
      a.ptr + a.len - metadataSize ≤ metadataStart a + 8 := by
  rw [metadataStart_eq]
  omega

end Address

/-! ## The layout -/

/-- The allocations of `new`'s small-block path: aligned to blocks of `2 ^ k ≥ size_of::<EmptyBlock>()` bytes, of
which they hold eight or more. -/
structure Fits (a : Allocation) (k : ℕ) : Prop where
  block_ge : emptyBlockSize ≤ 2 ^ k
  aligned : a.ptr % 2 ^ k = 0
  count_ge : 8 ≤ a.len / 2 ^ k

/-- The blocks of the slab's data, before the metadata. -/
def slabBlocks (a : Allocation) (k : ℕ) : List ℕ :=
  chunksExact a.ptr (metadataStart a - a.ptr) (2 ^ k)

namespace Fits

variable {a : Allocation} {k : ℕ} (hf : Fits a k)
include hf

theorem lt_sixtyFour : k < 64 := by
  by_contra hk
  -- a block of `2 ^ 64` bytes or more does not fit in the allocation
  have hpow : 2 ^ 64 ≤ 2 ^ k := Nat.pow_le_pow_right (by decide) (by omega)
  have hzero : a.len / 2 ^ k = 0 := Nat.div_eq_of_lt (by have := a.end_lt; omega)
  have := hf.count_ge
  omega

theorem len_ge : 64 ≤ a.len := by
  have hmul : 8 * 2 ^ k ≤ a.len := (Nat.le_div_iff_mul_le (Nat.two_pow_pos k)).mp hf.count_ge
  have := hf.block_ge
  unfold emptyBlockSize at this
  omega

/-- The allocation's address is a multiple of `8`, as a block's size is. -/
theorem ptr_mod_eight : a.ptr % 8 = 0 := by
  have hk : 3 ≤ k := by
    by_contra hk
    have : 2 ^ k ≤ 2 ^ 2 := Nat.pow_le_pow_right (by decide) (by omega)
    have := hf.block_ge
    unfold emptyBlockSize at this
    omega
  have hdvd : 2 ^ 3 ∣ a.ptr :=
    Nat.dvd_trans (Nat.pow_dvd_pow 2 hk) (Nat.dvd_of_mod_eq_zero hf.aligned)
  exact Nat.mod_eq_zero_of_dvd hdvd

/-- The metadata lies inside the allocation, after the start. -/
theorem metadataStart_inside :
    a.ptr ≤ metadataStart a ∧ metadataStart a + metadataSize ≤ a.ptr + a.len := by
  have hlen := hf.len_ge
  have hle := metadataStart_le a
  unfold metadataSize at hle ⊢
  omega

/-- The address keeps the length's three low bits. -/
theorem metadataStart_mod_eight : metadataStart a % 8 = a.len % 8 := by
  have hptr := hf.ptr_mod_eight
  have hlen := hf.len_ge
  rw [metadataStart_mod]
  unfold metadataSize
  omega

/-- Each block lies in the slab's data, before the metadata. -/
theorem slabBlocks_add_le {b : ℕ} (hb : b ∈ slabBlocks a k) :
    a.ptr ≤ b ∧ b + 2 ^ k ≤ metadataStart a := by
  have hinside := hf.metadataStart_inside
  have := chunksExact_add_le (Nat.two_pow_pos k) hb
  omega

/-- The small-block path of `new`: its checks pass, and the metadata goes at `metadataStart`
unless that is misaligned. -/
theorem new_eq (h : Heap Unit) :
    SlabMetadata.new h a k =
      if metadataStart a % metadataAlign ≠ 0 then none
      else some (metadataStart a,
        ⟨none, ⟨⟨(writeBlocks h none (slabBlocks a k)).2⟩, (a.ptr, metadataStart a - a.ptr)⟩⟩,
        (writeBlocks h none (slabBlocks a k)).1) := by
  have hk := hf.lt_sixtyFour
  have hchecks : ¬ (2 ^ k < emptyBlockSize ∨ a.ptr % 2 ^ k ≠ 0) := by
    have := hf.block_ge
    have := hf.aligned
    omega
  have hinside := hf.metadataStart_inside
  -- the slab's data ends where the metadata starts
  have hslab : a.len - (a.ptr + a.len - metadataStart a) = metadataStart a - a.ptr := by
    omega
  rw [SlabMetadata.new, if_neg (by omega), if_neg hchecks, if_neg (by have := hf.count_ge; omega),
    if_neg (by omega)]
  simp only [hslab, slabBlocks]

end Fits

/-- What the small-block path lays out: the metadata node, aligned, inside the allocation and
after every block, and a free list that visits each of the blocks of the data before it
once, in descending address order. -/
structure Layout (a : Allocation) (k start : ℕ) (node : Node SlabMetadata) (h : Heap Unit) :
    Prop where
  aligned : start % metadataAlign = 0
  inside : a.ptr ≤ start ∧ start + metadataSize ≤ a.ptr + a.len
  after_blocks : ∀ b ∈ slabBlocks a k, a.ptr ≤ b ∧ b + 2 ^ k ≤ start
  count : (slabBlocks a k).length = (a.len - (a.ptr + a.len - start)) / 2 ^ k
  free_list : Holds h node.data.blockFreeList.first (slabBlocks a k).reverse
    (List.replicate (slabBlocks a k).length ())
  descending : (slabBlocks a k).reverse.Pairwise (· > ·)

/-- On an allocation whose length is a multiple of `8`, `new` lays the slab out. -/
theorem new_layout (h : Heap Unit) {a : Allocation} {k : ℕ} (hf : Fits a k)
    (hlen : a.len % metadataAlign = 0) :
    ∃ start node h', SlabMetadata.new h a k = some (start, node, h') ∧
      Layout a k start node h' := by
  have halign : metadataStart a % metadataAlign = 0 := by
    rw [metadataAlign, hf.metadataStart_mod_eight]
    exact hlen
  have hinside := hf.metadataStart_inside
  refine ⟨_, _, _, by rw [hf.new_eq h, if_neg (not_not.mpr halign)], ?_⟩
  have hpair : (slabBlocks a k).Pairwise fun c d => c + 2 ^ k ≤ d := chunksExact_pairwise
  refine ⟨halign, hinside, fun b hb => hf.slabBlocks_add_le hb, ?_, ?_, ?_⟩
  · -- the blocks are the whole blocks of the data, which ends at the metadata
    rw [slabBlocks, length_chunksExact]
    congr 1
    omega
  · exact writeBlocks_free_list h (chunksExact_nodup (Nat.two_pow_pos k))
  · rw [List.pairwise_reverse]
    exact hpair.imp fun hcd => by have := Nat.two_pow_pos k; omega

/-- The test `just_enough_space`: `64` bytes at a page, in blocks of `8`; the metadata takes
the last `32`, and the list starts at the fourth block. -/
example : (SlabMetadata.new Heap.empty ⟨0x1000, 64, by norm_num⟩ 3).map
    (fun r => (r.1, r.2.1.data)) = some (0x1020, ⟨⟨some 0x1018⟩, (0x1000, 32)⟩) := by
  decide

/-- The test `foo`: a page in blocks of `256`; the metadata takes the last `32` bytes, and the
fifteen blocks before it the rest. -/
example : (SlabMetadata.new Heap.empty ⟨0x1000, 4096, by norm_num⟩ 8).map
    (fun r => (r.1, r.2.1.data)) = some (0x1FE0, ⟨⟨some 0x1E00⟩, (0x1000, 4064)⟩) := by
  decide

/-- On an allocation whose length is not a multiple of `8`, the metadata's address keeps the
length's low bits: it is not aligned for `Node<SlabMetadata>`, and the reference `new` takes
to the storage there is undefined behaviour. -/
theorem new_misaligns_metadata (h : Heap Unit) {a : Allocation} {k : ℕ} (hf : Fits a k)
    (hlen : a.len % metadataAlign ≠ 0) :
    metadataStart a % metadataAlign = a.len % metadataAlign ∧ SlabMetadata.new h a k = none := by
  have hmod : metadataStart a % metadataAlign = a.len % metadataAlign := by
    rw [metadataAlign]
    exact hf.metadataStart_mod_eight
  refine ⟨hmod, ?_⟩
  rw [hf.new_eq h, if_pos (by rw [hmod]; exact hlen)]

/-- A page at `0x1000` cut to `67` bytes, in blocks of `8`: the metadata would go at
`0x1023`. -/
theorem new_misaligns_metadata_sixty_seven :
    Fits ⟨0x1000, 67, by norm_num⟩ 3 ∧ (67 % metadataAlign ≠ 0) ∧
      (metadataStart ⟨0x1000, 67, by norm_num⟩ % metadataAlign = 67 % metadataAlign ∧
        SlabMetadata.new Heap.empty ⟨0x1000, 67, by norm_num⟩ 3 = none) :=
  ⟨⟨by decide, by decide, by decide⟩, by decide,
    new_misaligns_metadata Heap.empty ⟨by decide, by decide, by decide⟩ (by decide)⟩

end SlabAllocator
end Popcorn
