import Popcorn.SlabAllocator.LinkedList
import Popcorn.DefaultHeap.Heap

/-!
# A slab's layout

`SlabMetadata::new(allocation, block_size_log2)` cuts the memory of `allocation` into blocks
of `block_size = 1 << block_size_log2` bytes and threads them into a free list: the `for`
loop over `chunks_exact_mut(block_size)` writes an `EmptyBlock`, a `Node<()>`, at each block,
linked to the block before it, so that the list starts at the last block. With fewer than
eight blocks the metadata would be stored outside (`todo!()`). With eight or more it is stored
in the allocation's tail: the `Node<SlabMetadata>` goes at `(end - METADATA_SIZE) &
!(METADATA_ALIGN)`, the slab's data is the memory before that address, and the blocks are
the whole blocks of the data.

Memory is the slab allocator's heap of nodes by address (`Heap`), into which the loop writes
the blocks; the metadata node, of another type, is returned with its address. The allocation
is an address and a length whose end lies in the address space. Sizes are x86-64's. A failed
`assert`, the overflow of `1 << block_size_log2` and the `todo!()` are panics; a reference to
the metadata's storage at an address not aligned for `Node<SlabMetadata>` is undefined
behaviour (a debug build checks the alignment and panics); all are `none`. The `_phantom`
field the source's literal sets is not a field of its `SlabMetadata`, and is left out.
-/

namespace Popcorn
namespace SlabAllocator

/-- `size_of::<EmptyBlock>()`: an `EmptyBlock`, a `Node<()>`, is its `next` pointer. -/
def emptyBlockSize : ℕ := 8

/-- `METADATA_SIZE`, `size_of::<Node<SlabMetadata>>()`: the node's `next` pointer, the free
list's `first` pointer, and the slab's `NonNull<[u8]>`, an address and a length. -/
def metadataSize : ℕ := 32

/-- `METADATA_ALIGN`, `align_of::<Node<SlabMetadata>>()`: that of a pointer. -/
def metadataAlign : ℕ := 8

/-- A `NonNull<[u8]>` to memory: its address and its length; one past its end is an
address. -/
structure Allocation where
  ptr : ℕ
  len : ℕ
  end_lt : ptr + len < 2 ^ 64

/-- `SlabMetadata`: the free list of the slab's blocks, and the slab's data as a
`NonNull<[u8]>`, its address and length. -/
structure SlabMetadata where
  blockFreeList : LinkedList
  slab : ℕ × ℕ
  deriving DecidableEq, Repr

/-- The addresses of the chunks `chunks_exact_mut(size)` yields from `len` bytes at `start`:
every whole chunk, in order. -/
def chunksExact (start len size : ℕ) : List ℕ :=
  (List.range (len / size)).map fun i => start + i * size

/-- The `for` loop over the blocks: `Node::new((), previous_block)` written at each, which then
becomes `previous_block`. -/
def writeBlocks (h : Heap Unit) (previousBlock : Option ℕ) : List ℕ → Heap Unit × Option ℕ
  | [] => (h, previousBlock)
  | block :: blocks => writeBlocks (h.write block ⟨previousBlock, ()⟩) (some block) blocks

/-- `metadata_start_pointer`: `(allocation_end_ptr - METADATA_SIZE).addr() & !(METADATA_ALIGN)`. -/
def metadataStart (allocation : Allocation) : ℕ :=
  (allocation.ptr + allocation.len - metadataSize) &&& DefaultHeap.usizeNot metadataAlign

/-- `SlabMetadata::new(allocation, block_size_log2)`: the address of the metadata node, the
node, and the heap with the blocks written. -/
def SlabMetadata.new (h : Heap Unit) (allocation : Allocation) (blockSizeLog2 : ℕ) :
    Option (ℕ × Node SlabMetadata × Heap Unit) :=
  -- `1 << block_size_log2` overflows a `usize` from `64` on
  if 64 ≤ blockSizeLog2 then none
  else
    let blockSize := 2 ^ blockSizeLog2
    -- `assert_ge!(block_size, size_of::<EmptyBlock>())`, `assert!(..is_aligned_to(block_size))`
    if blockSize < emptyBlockSize ∨ allocation.ptr % blockSize ≠ 0 then none
    else
      let blockCount := allocation.len / blockSize
      -- large blocks: the blocks are written, then the metadata is `todo!()`
      if blockCount < 8 then none
      else
        let allocationEndPtr := allocation.ptr + allocation.len
        let aligned := metadataStart allocation
        -- `assert_ge!(aligned, allocation.as_mut_ptr().addr())`
        if aligned < allocation.ptr then none
        else
          let difference := allocationEndPtr - aligned
          -- `split_at_mut(allocation.len() - difference)`: the slab's data, then the storage
          let slabLen := allocation.len - difference
          let (h, previousBlock) :=
            writeBlocks h none (chunksExact allocation.ptr slabLen blockSize)
          let metadata : SlabMetadata := ⟨⟨previousBlock⟩, (allocation.ptr, slabLen)⟩
          -- `&mut *(metadata_storage.as_mut_ptr() as *mut MaybeUninit<Node<SlabMetadata>>)`
          if aligned % metadataAlign ≠ 0 then none
          else some (aligned, ⟨none, metadata⟩, h)

end SlabAllocator
end Popcorn
