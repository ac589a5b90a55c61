import Popcorn.Lib.Descriptor

/-!
# The GDT, the TSS and the IDT

`early_init` builds the GDT with flat ring-0 and ring-3 code and data segments and a
descriptor of the TSS, loads it (`lgdt`, a far return into the kernel code segment, and the
kernel data segment in `ds`, `es` and `ss`) and loads the task register. `init_idt` then
points the gate of each vector `n` at the stub `amd64_irq_handler_n` in the kernel code
segment (selector 8): `#BP` may be raised from ring 3, and `#DF` switches to the first IST
stack, the top of `DOUBLE_FAULT_STACK`.

A descriptor is built by or-ing its fields into a word (`X86.packFields`), one line of the
source each; an IDT entry is a `repr(C)` struct whose sixteen bytes the processor reads as a
gate. The addresses of the stubs, of the TSS and of `DOUBLE_FAULT_STACK` are fixed by the
linker, and are parameters here.
-/

namespace Popcorn.Amd64

open X86

/-! ## `gdt` -/

/-- `gdt::Privilege`. -/
inductive Privilege where
  | ring0
  | ring3
  deriving DecidableEq, Repr

/-- `Privilege::const_into`. -/
def Privilege.constInto : Privilege → BitVec 64
  | .ring0 => 0
  | .ring3 => 3

/-- `gdt::Entry`: an eight-byte segment descriptor. -/
structure Gdt.Entry where
  data : BitVec 64
  deriving DecidableEq, Repr

/-- `gdt::SystemEntry`: a sixteen-byte system descriptor. -/
structure Gdt.SystemEntry where
  low : BitVec 64
  high : BitVec 64
  deriving DecidableEq, Repr

/-- `Entry::default`. -/
def Gdt.Entry.default : Gdt.Entry := ⟨0⟩

/-- `SystemEntry::default`. -/
def Gdt.SystemEntry.default : Gdt.SystemEntry := ⟨0, 0⟩

/-- `Entry::new`: a flat segment, base `0` and limit `0xFFFFF` pages. -/
def Gdt.Entry.new (dpl : Privilege) (executable longMode : Bool) : Gdt.Entry :=
  let addr : BitVec 64 := 0
  let limit : BitVec 64 := 0xFFFFF
  let accessByteDefault : BitVec 64 := 0b1001_0010
  let accessByte := accessByteDefault ||| (dpl.constInto <<< 5) ||| ((if executable then 1 else 0) <<< 3)
  ⟨packFields [(limit &&& 0xFFFF, 0), ((addr &&& 0xFFFF), 16), (((addr >>> 16) &&& 0xFF), 32),
    ((accessByte &&& 0xFF), 40), (((limit >>> 16) &&& 0xF), 48), ((if longMode then 1 else 0), 53),
    -- granularity
    (1, 55), (((addr >>> 24) &&& 0xFF), 56)]⟩

/-- `tss::Tss`, `repr(C, packed(4))`: the fields `Tss::new` sets. -/
structure Tss where
  privilegeStackTable : List (BitVec 64)
  interruptStackTable : List (BitVec 64)
  ioMapBase : BitVec 16
  deriving DecidableEq, Repr

/-- `size_of::<Tss>()`: a `u32`, three and seven addresses, two `u64`s and two `u16`s. -/
def Tss.size : ℕ := 4 + 3 * 8 + 8 + 7 * 8 + 8 + 2 + 2

/-- `size_of::<StaticStack>()`, the size of `DOUBLE_FAULT_STACK`. -/
def doubleFaultStackSize : ℕ := 3 * 4096

/-- `Tss::new`, where `DOUBLE_FAULT_STACK` is at `doubleFaultStack`: the first IST stack is its
top, `.add(1)` past the `StaticStack`. -/
def Tss.new (doubleFaultStack : BitVec 64) : Tss where
  privilegeStackTable := List.replicate 3 0
  interruptStackTable :=
    (doubleFaultStack + BitVec.ofNat 64 doubleFaultStackSize) :: List.replicate 6 0
  ioMapBase := BitVec.ofNat 16 Tss.size

/-- `SystemEntry::new_from_tss`, for the TSS at `tss`. -/
def Gdt.SystemEntry.newFromTss (tss : BitVec 64) : Gdt.SystemEntry :=
  let addr := tss
  -- `u64::try_from(size_of_val(tss)).unwrap() - 1`
  let limit : BitVec 64 := BitVec.ofNat 64 Tss.size - 1
  let accessByteDefault : BitVec 64 := 0b1000_1001
  ⟨packFields [(limit &&& 0xFFFF, 0), ((addr &&& 0xFFFF), 16), (((addr >>> 16) &&& 0xFF), 32),
    ((accessByteDefault &&& 0xFF), 40), (((limit >>> 16) &&& 0xF), 48),
    -- long mode
    (1, 53), (((addr >>> 24) &&& 0xFF), 56)],
   tss >>> 32⟩

/-- `gdt::Gdt`, `repr(C, align(8))`. -/
structure Gdt where
  null : Gdt.Entry
  kernelCode : Gdt.Entry
  kernelData : Gdt.Entry
  userCompatCode : Gdt.Entry
  userData : Gdt.Entry
  userLongCode : Gdt.Entry
  tss : Gdt.SystemEntry
  deriving DecidableEq, Repr

/-- `Gdt::new`. -/
def Gdt.new : Gdt := ⟨.default, .default, .default, .default, .default, .default, .default⟩

/-- `gdt::EntryTy`. -/
inductive EntryTy where
  | kernelCode
  | kernelData
  | userCompatCode
  | userData
  | userLongCode
  deriving DecidableEq, Repr

/-- `Gdt::add_entry`. -/
def Gdt.addEntry (g : Gdt) (ty : EntryTy) (entry : Gdt.Entry) : Gdt :=
  match ty with
  | .kernelCode => { g with kernelCode := entry }
  | .kernelData => { g with kernelData := entry }
  | .userCompatCode => { g with userCompatCode := entry }
  | .userData => { g with userData := entry }
  | .userLongCode => { g with userLongCode := entry }

/-- `Gdt::add_tss`, for the TSS at `tss`. -/
def Gdt.addTss (g : Gdt) (tss : BitVec 64) : Gdt := { g with tss := .newFromTss tss }

/-- The eight-byte words of the table in memory, the field order of `repr(C)`. -/
def Gdt.words (g : Gdt) : List (BitVec 64) :=
  [g.null.data, g.kernelCode.data, g.kernelData.data, g.userCompatCode.data, g.userData.data,
    g.userLongCode.data, g.tss.low, g.tss.high]

/-- `size_of_val(self)`. -/
def Gdt.size : ℕ := 6 * 8 + 16

/-- `offset_of!(Gdt, kernel_code)`. -/
def Gdt.offsetOfKernelCode : ℕ := 8

/-- `offset_of!(Gdt, kernel_data)`. -/
def Gdt.offsetOfKernelData : ℕ := 16

/-- `offset_of!(Gdt, tss)`. -/
def Gdt.offsetOfTss : ℕ := 48

/-- What `Gdt::load` loads: the GDTR's limit, `cs` by the far return, and `ds`, `es` and
`ss`. -/
structure SegmentRegs where
  gdtrLimit : BitVec 16
  cs : BitVec 16
  ds : BitVec 16
  es : BitVec 16
  ss : BitVec 16
  deriving DecidableEq, Repr

/-- `Gdt::load`; `none` is the panic of `expect("GDT too big")`, or of the subtraction. -/
def Gdt.load : Option SegmentRegs :=
  if Gdt.size < 2 ^ 16 ∧ 0 < Gdt.size then
    some ⟨BitVec.ofNat 16 Gdt.size - 1, BitVec.ofNat 16 Gdt.offsetOfKernelCode,
      BitVec.ofNat 16 Gdt.offsetOfKernelData, BitVec.ofNat 16 Gdt.offsetOfKernelData,
      BitVec.ofNat 16 Gdt.offsetOfKernelData⟩
  else none

/-- `Gdt::load_tss`: the selector `ltr` loads; `none` is the panic of its `assert_ne!`. -/
def Gdt.loadTss (g : Gdt) : Option (BitVec 16) :=
  if g.tss = .default then none else some (BitVec.ofNat 16 Gdt.offsetOfTss)

/-- The GDT `early_init` builds, with the TSS at `tss`. -/
def earlyInitGdt (tss : BitVec 64) : Gdt :=
  let gdt := Gdt.new
  let gdt := gdt.addEntry .kernelCode (.new .ring0 true true)
  let gdt := gdt.addEntry .kernelData (.new .ring0 false true)
  let gdt := gdt.addEntry .userLongCode (.new .ring3 true true)
  let gdt := gdt.addEntry .userData (.new .ring3 false true)
  gdt.addTss tss

/-! ## `idt` -/

/-- `idt::entry::Type`. -/
inductive GateType where
  | interruptGate
  | interruptTrap
  deriving DecidableEq, Repr

/-- `Type::const_u8`. -/
def GateType.constU8 : GateType → BitVec 8
  | .interruptTrap => 0xF
  | .interruptGate => 0xE

/-- `Attributes::new`. -/
def Attributes.new (ty : GateType) (dpl : BitVec 8) : BitVec 8 :=
  ty.constU8 ||| (dpl <<< 5) ||| (1 <<< 7)

/-- `Attributes::empty`. -/
def Attributes.empty : BitVec 8 := 0

/-- `NonZeroU8`. -/
abbrev NonZeroU8 := {n : BitVec 8 // n ≠ 0}

/-- `idt::entry::Entry`, `repr(C)`. -/
structure Idt.Entry where
  pointerLow : BitVec 16
  segmentSelector : BitVec 16
  ist : Option NonZeroU8
  attributes : BitVec 8
  pointerMiddle : BitVec 16
  pointerHigh : BitVec 32
  reserved : BitVec 32
  deriving DecidableEq, Repr

/-- `Entry::empty`. -/
def Idt.Entry.empty : Idt.Entry := ⟨0, 0, none, Attributes.empty, 0, 0, 0⟩

/-- The byte of an `Option<NonZeroU8>`: `0` for `None`. -/
def Idt.Entry.istByte (e : Idt.Entry) : BitVec 8 :=
  match e.ist with
  | none => 0
  | some n => n.val

/-- The sixteen bytes of an entry in the order `repr(C)` lays them out, read little-endian. -/
def Idt.Entry.bits (e : Idt.Entry) : BitVec 128 :=
  e.reserved ++ e.pointerHigh ++ e.pointerMiddle ++ e.attributes ++ e.istByte ++
    e.segmentSelector ++ e.pointerLow

/-- `Entry::new_ptr`, for a function at `f`; `none` is the panic of its `assert!`. -/
def Idt.Entry.newPtr (f : BitVec 64) (istIdx : Option NonZeroU8) (dpl : BitVec 8)
    (ty : GateType) : Option Idt.Entry :=
  -- `assert!(ist.get() <= 7, "Only 7 IST stacks")`
  if istIdx.any (fun ist => decide (7 < ist.val)) then none
  else
    let addr := f
    some { pointerLow := addr.setWidth 16, segmentSelector := 8, ist := istIdx,
           attributes := Attributes.new ty dpl, pointerMiddle := (addr >>> 16).setWidth 16,
           pointerHigh := (addr >>> 32).setWidth 32, reserved := 0 }

/-- `idt::Idt`: its 256 entries. -/
structure Idt where
  entries : List Idt.Entry
  deriving DecidableEq, Repr

/-- `Idt::new`. -/
def Idt.new : Idt := ⟨List.replicate 256 .empty⟩

/-- `table[n] = entry`. -/
def Idt.set (table : Idt) (n : ℕ) (entry : Idt.Entry) : Idt := ⟨table.entries.set n entry⟩

/-- The IST stack `init_idt` gives vector `n`: the first for `#DF`. -/
def idtIst (n : ℕ) : Option NonZeroU8 := if n = 8 then some ⟨1, by decide⟩ else none

/-- The privilege `init_idt` gives vector `n`'s gate: 3 for `#BP`, so that `int3` works from
ring 3. -/
def idtDpl (n : ℕ) : BitVec 8 := if n = 3 then 3 else 0

/-- `idt_entry!(table, n)`, or the lines for vectors 3 and 8: vector `n`'s entry points at
`amd64_irq_handler_n`, at `stub n`. -/
def idtEntry (stub : ℕ → BitVec 64) (table : Idt) (n : ℕ) : Option Idt :=
  (Idt.Entry.newPtr (stub n) (idtIst n) (idtDpl n) .interruptGate).map (table.set n)

/-- The table `init_idt` builds: the entries of the vectors 0 to 255, in order. -/
def initIdt (stub : ℕ → BitVec 64) : Option Idt :=
  (List.range 256).foldlM (idtEntry stub) Idt.new

end Popcorn.Amd64
