import Popcorn.Amd64.Table

/-!
# The bootloader's page table

`bootloader::paging` builds the table the kernel starts on. Its `Frame` is a physical
address (`u64`), and its `TableEntry` reads the address field with the mask
`0x000f_ffff_ffff_f000`, bits 12 to 51, where the kernel's `Amd64Entry` reads bits 12 to 59.
Memory is the same physical memory as the kernel's (`Amd64.Memory`): the table at a
page-aligned address lies in the frame of that address.

`PageTable::try_new` allocates the `Level4` table and, in one piece, the 256 `Level3` tables
of the kernel's half, and points entry `256 + i` at the `i`-th of them.
-/

namespace Popcorn
namespace Bootloader

open Amd64

/-- `bootloader::paging::TableEntry`. -/
structure TableEntry where
  bits : BitVec 64
  deriving DecidableEq, Repr

namespace TableEntryFlags

/-- `TableEntryFlags::PRESENT`. -/
def present : BitVec 64 := 1#64 <<< 0

/-- `TableEntryFlags::WRITABLE`. -/
def writable : BitVec 64 := 1#64 <<< 1

/-- `TableEntryFlags::USER_ACCESSIBLE`. -/
def userAccessible : BitVec 64 := 1#64 <<< 2

/-- `TableEntryFlags::PERMISSIVE`. -/
def permissive : BitVec 64 := writable ||| userAccessible

end TableEntryFlags

namespace TableEntry

/-- The address field of an entry, as the bootloader masks it. -/
def addressMask : BitVec 64 := 0x000f_ffff_ffff_f000#64

/-- `TableEntry::new`: writable, not present. -/
def new : TableEntry := ⟨TableEntryFlags.writable⟩

/-- `flags().contains(PRESENT)`; `from_bits_truncate` keeps bit 0, a known flag. -/
def isPresent (e : TableEntry) : Bool :=
  e.bits &&& TableEntryFlags.present == TableEntryFlags.present

/-- `TableEntry::pointed_frame`, as a physical address. -/
def pointedFrame (e : TableEntry) : Option Nat :=
  if e.isPresent then some (e.bits &&& addressMask).toNat else none

/-- `TableEntry::set_pointed_frame_unchecked`. -/
def setPointedFrameUnchecked (e : TableEntry) (frame : Nat) (flags : BitVec 64) : TableEntry :=
  ⟨(e.bits &&& ~~~addressMask) ||| (BitVec.ofNat 64 frame &&& addressMask) |||
    (flags ||| TableEntryFlags.present)⟩

/-- `TableEntry::set_pointed_frame`: refuses an entry already present, answering its frame. -/
def setPointedFrame (e : TableEntry) (frame : Nat) (flags : BitVec 64) : Except Nat TableEntry :=
  match e.pointedFrame with
  | none => .ok (e.setPointedFrameUnchecked frame flags)
  | some f => .error f

end TableEntry

/-- The frame holding the table at a page-aligned physical address. -/
def frameOf (addr : Nat) : Frame := ⟨addr / pageSize⟩

/-- One iteration of the loop of `PageTable::try_new`: the `i`-th kernel `Level3` table
written empty, and entry `i + 256` of the `Level4` table pointed at it. The `unwrap`
panics on an entry already present. -/
def initKernelTable (table l3KernelTables : Nat) (mem : Option Memory) (i : Nat) :
    Option Memory :=
  mem.bind fun mem =>
    -- `l3_kernel_tables.cast::<Table<Level3>>().add(i)`: tables are 4096 bytes
    let tab := l3KernelTables + i * pageSize
    let mem := TableWalk.fill mem (frameOf tab) TableEntry.new.bits
    match (TableEntry.mk (mem (frameOf table) (i + 256))).setPointedFrame tab
        TableEntryFlags.permissive with
    | .error _ => none
    | .ok e => some (TableWalk.write mem (frameOf table) (i + 256) e.bits)

/-- The two calls of the closure `allocate` in `PageTable::try_new`: `allocate(1)` for the
`Level4` table, behind the `debug_assert!` that the pointer is aligned (to the 8 bytes of a
`Table`) and not null, then `allocate(256)` for the kernel's `Level3` tables. The closure is
`FnMut`, and runs over a state of its own. -/
def tryNewAllocations {σ ε : Type} (allocate : σ → Nat → Except ε Nat × σ) (s : σ) :
    Option (Except ε (Nat × Nat) × σ) :=
  match allocate s 1 with
  | (.error e, s) => some (.error e, s)
  | (.ok tablePtr, s) =>
    if tablePtr % 8 ≠ 0 ∨ tablePtr = 0 then none
    else
      match allocate s 256 with
      | (.error e, s) => some (.error e, s)
      | (.ok l3KernelTables, s) => some (.ok (tablePtr, l3KernelTables), s)

/-- Both calls answer, and the first pointer passes the `debug_assert!`. -/
theorem tryNewAllocations_eq_ok {σ ε : Type} {allocate : σ → Nat → Except ε Nat × σ}
    {s s₁ s₂ : σ} {A B : Nat} (h1 : allocate s 1 = (.ok A, s₁)) (hA : A % 8 = 0) (hA0 : 0 < A)
    (h256 : allocate s₁ 256 = (.ok B, s₂)) :
    tryNewAllocations allocate s = some (.ok (A, B), s₂) := by
  rw [tryNewAllocations, h1]
  dsimp only
  rw [if_neg (by omega), h256]

/-- `PageTable::try_new`, answering the address of the `Level4` table. The closure
`allocate` is modelled by its answers to the calls with `1` and with `256`. The source writes
the empty `Level4` table between the two calls, which do not read memory. -/
def tryNew {ε : Type} (allocate : Nat → Except ε Nat) (mem : Memory) :
    Option (Except ε (Nat × Memory)) :=
  (tryNewAllocations (fun (s : Unit) n => (allocate n, s)) ()).bind fun (r, _) =>
    match r with
    | .error e => some (.error e)
    | .ok (tablePtr, l3KernelTables) =>
      -- `table.write(Table::new())`
      let mem := TableWalk.fill mem (frameOf tablePtr) TableEntry.new.bits
      ((List.range 256).foldl (initKernelTable tablePtr l3KernelTables) (some mem)).map
        fun mem => .ok (tablePtr, mem)

end Bootloader
end Popcorn
