import Popcorn.Lib.Bytes

/-!
# ELF files

`elf::File::try_new` takes the first `size_of::<FileHeader>()` = 64 bytes of a buffer, lets
`FileHeader::try_new` check them, and then finds the program header table and the section
header table from the offsets, entry sizes and entry counts of the header. The two tables
are kept as raw slices of the buffer (a start and an entry count), built without comparing
them with the buffer's length. `File::segments` reads the entries of the program header
table as `ProgramHeaderEntry64`s.

The header's fields past `elf_version` live in a union, laid out by the width the header
announces (`FileHeaderBit<u32>` or `FileHeaderBit<u64>`, from byte 24). The buffer lies at
address `addr`, which the alignment checks read. Integers are `ℕ` with the overflow of a
`usize` addition, which panics, made explicit; a panic is `none`, and so is a read of the
program header table past the buffer, undefined behaviour behind the raw slice. The entry
point, the flags, the header size and the string table index are read by nothing here.
-/

namespace Popcorn.Elf

/-- `header::file::Error`. -/
inductive Error where
  | noHeader
  | incorrectAlign
  | wrongMagic
  | invalidWidth (value : ℕ)
  | invalidEndianness (value : ℕ)
  | invalidAbi (value : ℕ)
  | invalidType (value : ℕ)
  | invalidIsa (value : ℕ)
  deriving DecidableEq, Repr

/-- `header::file::Width`. -/
inductive Width where
  | w32
  | w64
  deriving DecidableEq, Repr

/-- A `TryFromPrimitive` conversion of a field into one of the enum's variants, with the
error that names the field and the value read. -/
def tryFromPrimitive (variants : List ℕ) (invalid : ℕ → Error) (value : ℕ) : Except Error Unit :=
  if value ∈ variants then .ok () else .error (invalid value)

/-- `Width::try_from`. -/
def Width.tryFrom (value : ℕ) : Except Error Unit :=
  tryFromPrimitive [1, 2] .invalidWidth value

/-- `Endianness::try_from`. -/
def Endianness.tryFrom (value : ℕ) : Except Error Unit :=
  tryFromPrimitive [1, 2] .invalidEndianness value

/-- `Abi::try_from`. -/
def Abi.tryFrom (value : ℕ) : Except Error Unit :=
  tryFromPrimitive [0] .invalidAbi value

/-- `Type::try_from`. -/
def FileType.tryFrom (value : ℕ) : Except Error Unit :=
  tryFromPrimitive [1, 2, 3, 4] .invalidType value

/-- `Isa::try_from`. -/
def Isa.tryFrom (value : ℕ) : Except Error Unit :=
  tryFromPrimitive [0, 2, 3, 8, 0x14, 0x28, 0x2a, 0x32, 0x3e, 0xb7, 0xf3] .invalidIsa value

/-- A `usize` sum, which panics on overflow. -/
def usizeAdd (a b : ℕ) : Option ℕ := if a + b < 2 ^ 64 then some (a + b) else none

/-- A `usize` quotient, which panics on a zero divisor. -/
def usizeDiv (a b : ℕ) : Option ℕ := if b = 0 then none else some (a / b)

/-- `FileHeader`: the header's bytes, and the width its union is read at. -/
structure FileHeader where
  bytes : List UInt8
  width : Width
  deriving DecidableEq, Repr

namespace FileHeader

/-- `size_of::<FileHeader>()`, also `size_of::<FileHeaderRaw>()`. -/
def size : ℕ := 64

/-- `align_of::<FileHeaderRaw>()`: its `padding` is a `u64`. -/
def align : ℕ := 8

/-- A field of the union: at `off32` for `Width::_32`, at `off64` for `Width::_64`. -/
def extraField (h : FileHeader) (off32 len32 off64 len64 : ℕ) : ℕ :=
  match h.width with
  | .w32 => Bytes.field h.bytes off32 len32
  | .w64 => Bytes.field h.bytes off64 len64

def programHeaderOffset (h : FileHeader) : ℕ := h.extraField 28 4 32 8

def sectionHeaderOffset (h : FileHeader) : ℕ := h.extraField 32 4 40 8

def programHeaderEntrySize (h : FileHeader) : ℕ := h.extraField 42 2 54 2

def programHeaderEntryCount (h : FileHeader) : ℕ := h.extraField 44 2 56 2

def sectionHeaderEntrySize (h : FileHeader) : ℕ := h.extraField 46 2 58 2

def sectionHeaderEntryCount (h : FileHeader) : ℕ := h.extraField 48 2 60 2

/-- `FileHeader::program_header`, as its start and end. -/
def programHeader (h : FileHeader) : Option (ℕ × ℕ) :=
  let start := h.programHeaderOffset
  let size := h.programHeaderEntrySize * h.programHeaderEntryCount
  (usizeAdd start size).map fun end_ => (start, end_)

/-- `FileHeader::section_header`, as its start and end. -/
def sectionHeader (h : FileHeader) : Option (ℕ × ℕ) :=
  let start := h.sectionHeaderOffset
  let size := h.sectionHeaderEntrySize * h.sectionHeaderEntryCount
  (usizeAdd start size).map fun end_ => (start, end_)

/-- The checks of `TryFrom<&FileHeaderRaw>`: each enum field's `try_from(..)?` in turn. -/
def checkFields (data : List UInt8) : Except Error Unit := do
  Width.tryFrom (data.getD 4 0).toNat
  Endianness.tryFrom (data.getD 5 0).toNat
  Abi.tryFrom (data.getD 7 0).toNat
  FileType.tryFrom (Bytes.field data 16 2)
  Isa.tryFrom (Bytes.field data 18 2)

/-- `FileHeader::try_new` on the bytes `data` at address `addr`. -/
def tryNew (addr : ℕ) (data : List UInt8) : Except Error FileHeader :=
  if data.length < size then .error .noHeader
  else if addr % align ≠ 0 then .error .incorrectAlign
  else
    match checkFields data with
    | .error e => .error e
    | .ok () =>
      if data.take 4 ≠ [0x7f, 0x45, 0x4c, 0x46] then .error .wrongMagic
      else .ok ⟨data, if data.getD 4 0 = 1 then .w32 else .w64⟩

end FileHeader

/-- `File`, with each table as its start in the buffer and its count of entries. -/
structure File where
  base : ℕ
  header : FileHeader
  programHeader : ℕ × ℕ
  sectionHeader : ℕ × ℕ
  data : List UInt8
  deriving DecidableEq, Repr

/-- `align_of::<ProgramHeaderEntry64>()`. -/
def programHeaderEntryAlign : ℕ := 8

/-- One table of `File::try_new`: its start and the count `(end - start) / entry_size`, after
the `assert!` that its first entry is aligned. -/
def headerTable (addr : ℕ) (range : Option (ℕ × ℕ)) (entrySize entryAlign : ℕ) :
    Option (ℕ × ℕ) :=
  range.bind fun (start, end_) =>
    (usizeDiv (end_ - start) entrySize).bind fun count =>
      if (addr + start) % entryAlign ≠ 0 then none else some (start, count)

/-- `File::try_new` on the buffer `elfData` at address `addr`. -/
def File.tryNew (addr : ℕ) (elfData : List UInt8) : Option (Except Error File) :=
  -- `&elf_data[..size_of::<FileHeader>()]` panics on a shorter buffer
  if elfData.length < FileHeader.size then none
  else
    match FileHeader.tryNew addr (elfData.take FileHeader.size) with
    | .error e => some (.error e)
    | .ok header =>
      (headerTable addr header.programHeader header.programHeaderEntrySize
          programHeaderEntryAlign).bind fun programHeader =>
        -- the section header table is a slice of bytes, so its alignment always holds
        (headerTable addr header.sectionHeader header.sectionHeaderEntrySize 1).map
          fun sectionHeader => .ok ⟨0, header, programHeader, sectionHeader, elfData⟩

/-- `ProgramHeaderEntry64`. -/
structure ProgramHeaderEntry64 where
  segmentType : ℕ
  segmentFlags : ℕ
  fileOffset : ℕ
  vaddr : ℕ
  paddr : ℕ
  fileSize : ℕ
  memorySize : ℕ
  alignment : ℕ
  deriving DecidableEq, Repr

namespace ProgramHeaderEntry64

/-- `size_of::<ProgramHeaderEntry64>()`. -/
def size : ℕ := 56

/-- The entry laid over the bytes at `off`. -/
def ofBytes (data : List UInt8) (off : ℕ) : ProgramHeaderEntry64 where
  segmentType := Bytes.field data off 4
  segmentFlags := Bytes.field data (off + 4) 4
  fileOffset := Bytes.field data (off + 8) 8
  vaddr := Bytes.field data (off + 16) 8
  paddr := Bytes.field data (off + 24) 8
  fileSize := Bytes.field data (off + 32) 8
  memorySize := Bytes.field data (off + 40) 8
  alignment := Bytes.field data (off + 48) 8

end ProgramHeaderEntry64

/-- `File::segments`: the entries of the program header table, `size_of` apart, each with
`vaddr` moved by the base. -/
def File.segments (f : File) : Option (List ProgramHeaderEntry64) :=
  (List.range f.programHeader.2).mapM fun i =>
    let off := f.programHeader.1 + i * ProgramHeaderEntry64.size
    if off + ProgramHeaderEntry64.size ≤ f.data.length then
      let entry := ProgramHeaderEntry64.ofBytes f.data off
      some { entry with vaddr := entry.vaddr + f.base }
    else none

end Popcorn.Elf
