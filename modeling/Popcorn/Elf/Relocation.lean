import Popcorn.Elf.Address
import Popcorn.Elf.SymbolTable
import Popcorn.Lib.Iter

/-!
# Relocation and linking

`File::relocate(base)` applies the file's dynamic relocations for the base `base`. It first
reads every entry of the `DT_REL` and `DT_RELA` tables (`relocations`, collected into a
`Vec`). Then it takes the entries in turn. For each one it finds where the entry's address
lies in the buffer, through `data_at_unrel_address_mut` at the file's current base. An
`R_X86_64_RELATIVE` entry stores the `u64` `base + addend` there; a jump slot is left for
`link`. Last it records the base.

`File::link` walks the PLT relocation table (`jumptable_relocations`). For each entry it reads
the entry's symbol in the dynamic symbol table and that symbol's name in the dynamic string
table, and looks the name up in a `SymbolMap`. A name the map lacks ends the loop with
`LinkError(name)`. Otherwise the symbol's value is stored at the entry's address, through the
`*const u8` that `data_at_unrel_address` answers, cast to `*mut u8`. That pointer comes from a
shared reference to the buffer, so the store is undefined behaviour under Rust's aliasing
rules, and the model says so.

A table is read through a raw pointer to its place in the buffer. A reference to its entries
must be aligned and lie inside the buffer (`File.access`). The entries are `#[repr(C)]` and
read little-endian at their offsets. An `unwrap`, `expect`, `unreachable!` or `todo!` that
fails is a panic; like undefined behaviour, it is `none`.
-/

namespace Popcorn.Elf

/-- `Relocation`. -/
structure Relocation where
  offset : ExecutableAddressUnrelocated
  info : ℕ
  deriving DecidableEq, Repr

/-- `RelocationWithAddend`. -/
structure RelocationWithAddend where
  offset : ExecutableAddressUnrelocated
  info : ℕ
  addend : ℤ
  deriving DecidableEq, Repr

/-- `RelocationTableEntry`. -/
inductive RelocationTableEntry where
  | rel (r : Relocation)
  | rela (r : RelocationWithAddend)
  deriving DecidableEq, Repr

/-- `RelocationType`. -/
inductive RelocationType where
  | x8664Relative
  | x8664JumpSlot
  deriving DecidableEq, Repr

/-- `RelocationType::try_from`, which `TryFromPrimitive` derives from the discriminants
`X86_64_Relative = 8` and `X86_64_JumpSlot = 7`. -/
def RelocationType.tryFrom (value : ℕ) : Option RelocationType :=
  if value = 8 then some .x8664Relative
  else if value = 7 then some .x8664JumpSlot
  else none

/-- `RelocationEntryType`. -/
inductive RelocationEntryType where
  | rel
  | rela
  deriving DecidableEq, Repr

namespace RelocationTableEntry

def info : RelocationTableEntry → ℕ
  | .rel r => r.info
  | .rela r => r.info

/-- `(self.info() >> 32) as u32`. -/
def symbolTableIndex (e : RelocationTableEntry) : ℕ := e.info >>> 32

/-- `RelocationTableEntry::symbol_table_type`: `none` where its `expect` panics. -/
def symbolTableType (e : RelocationTableEntry) : Option RelocationType :=
  RelocationType.tryFrom (e.info &&& 0xffffffff)

end RelocationTableEntry

/-- `size_of::<Relocation>()`. -/
def Relocation.size : ℕ := 16

/-- The `Relocation` laid over the bytes at `off`. -/
def Relocation.ofBytes (data : List UInt8) (off : ℕ) : Relocation :=
  ⟨⟨Bytes.field data off 8⟩, Bytes.field data (off + 8) 8⟩

/-- `size_of::<RelocationWithAddend>()`. -/
def RelocationWithAddend.size : ℕ := 24

/-- The `RelocationWithAddend` laid over the bytes at `off`. -/
def RelocationWithAddend.ofBytes (data : List UInt8) (off : ℕ) : RelocationWithAddend :=
  ⟨⟨Bytes.field data off 8⟩, Bytes.field data (off + 8) 8, toI64 (Bytes.field data (off + 16) 8)⟩

/-- `size_of::<SymbolTableEntry>()`. -/
def symbolTableEntrySize : ℕ := 24

/-- The `SymbolTableEntry` laid over the bytes at `off`. -/
def SymbolTableEntry.ofBytes (data : List UInt8) (off : ℕ) : SymbolTableEntry where
  name := Bytes.field data off 4
  info := ⟨data.getD (off + 4) 0⟩
  sectionTableIndex := Bytes.field data (off + 6) 2
  value := ⟨Bytes.field data (off + 8) 8⟩
  size := Bytes.field data (off + 16) 8

/-- `&*slice_from_raw_parts(ptr.cast::<T>(), count)` for a pointer at `place` in the buffer of a
file at `addr`, for a `T` of `size` bytes aligned to 8: its entries, read by `ofBytes`. -/
def File.readTable {T : Type} (f : File) (addr : ℕ) (ofBytes : List UInt8 → ℕ → T) (size place count : ℕ) :
    Option (List T) := do
  f.access addr 8 place (count * size)
  pure ((List.range count).map fun i => ofBytes f.data (place + i * size))

/-- One table of `relocations`: `length` bytes of entries at the address `start`. -/
def File.relocationTable {T : Type} (f : File) (addr : ℕ) (ofBytes : List UInt8 → ℕ → T)
    (size : ℕ) (table : ExecutableAddressRelocated × ℕ) : Option (List T) := do
  -- `self.data_at_address(start).unwrap()`
  let some place ← f.dataAtAddress table.1 | none
  f.readTable addr ofBytes size place (table.2 / size)

/-- `File::relocations` on a file at `addr`: the entries of the `DT_REL` tables, then those of
the `DT_RELA` tables, the `k`-th address of each kind paired with its `k`-th length. -/
def File.relocations (f : File) (addr : ℕ) : Option (List RelocationTableEntry) := do
  -- a `zip` runs one of its two `filter_map`s over the whole dynamic table
  let entries ← (← f.dynamicTable addr).mapM id
  let relTables := (entries.filterMap fun | .relTableAddress a => some a | _ => none).zip
    (entries.filterMap fun | .relTableSize n => some n | _ => none)
  let relaTables := (entries.filterMap fun | .relaTableAddress a => some a | _ => none).zip
    (entries.filterMap fun | .relaTableSize n => some n | _ => none)
  let rels ← relTables.mapM (f.relocationTable addr Relocation.ofBytes Relocation.size)
  let relas ← relaTables.mapM
    (f.relocationTable addr RelocationWithAddend.ofBytes RelocationWithAddend.size)
  pure (rels.flatten.map .rel ++ relas.flatten.map .rela)

/-- `File::jumptable_relocations` on a file at `addr`: the kind of the entries of the PLT
relocation table, where they lie in the buffer, and how many there are. It is `none` inside
where the dynamic table lacks one of the three entries the searches look for. -/
def File.jumptableRelocations (f : File) (addr : ℕ) :
    Option (Option (RelocationEntryType × ℕ × ℕ)) := do
  let entries ← f.dynamicTable addr
  let some tableAddress ← Iter.findMap (fun | .jumptableRelocations a => some a | _ => none)
      entries
    | pure none
  let some tableLength ← Iter.findMap (fun | .pltRelocationTableSize n => some n | _ => none)
      entries
    | pure none
  let some tableEntryType ← Iter.findMap
      (fun | .pltRelType 7 => some .rela | .pltRelType 17 => some .rel | _ => none) entries
    | pure none
  -- `self.data_at_address(table_address).unwrap()`
  let some place ← f.dataAtAddress tableAddress | none
  let size :=
    match tableEntryType with
    | .rel => Relocation.size
    | .rela => RelocationWithAddend.size
  let count := tableLength / size
  -- the slice of the kind's entries
  f.access addr 8 place (count * size)
  pure (some (tableEntryType, place, count))

/-- `File::dynamic_symbol_table` on a file at `addr`: where the table lies in the buffer, and
its count of entries `nchain`, the second `u32` of the hash table. -/
def File.dynamicSymbolTable (f : File) (addr : ℕ) : Option (Option (ℕ × ℕ)) := do
  let entries ← f.dynamicTable addr
  let some symbolTableAddr ← Iter.findMap (fun | .symbolTable a => some a | _ => none) entries
    | pure none
  let some hashTableAddr ← Iter.findMap (fun | .hashTable a => some a | _ => none) entries
    | pure none
  -- `*self.data_at_address(hash_table_addr).unwrap().cast::<u32>().offset(1)`
  let some hashTable ← f.dataAtAddress hashTableAddr | none
  f.access addr 4 (hashTable + 4) 4
  let hashtableLength := Bytes.field f.data (hashTable + 4) 4
  let some symbolTable ← f.dataAtAddress symbolTableAddr | none
  f.access addr 8 symbolTable (hashtableLength * symbolTableEntrySize)
  pure (some (symbolTable, hashtableLength))

/-- `File::dynamic_string_table` on a file at `addr`. -/
def File.dynamicStringTable (f : File) (addr : ℕ) : Option (Option StringTable) := do
  let entries ← f.dynamicTable addr
  let some stringTableAddr ← Iter.findMap (fun | .stringTable a => some a | _ => none) entries
    | pure none
  let some stringTableLength ← Iter.findMap (fun | .stringTableSize n => some n | _ => none)
      entries
    | pure none
  let some place ← f.dataAtAddress stringTableAddr | none
  f.access addr 1 place stringTableLength
  pure (some ⟨(f.data.drop place).take stringTableLength⟩)

/-! ## Relocation -/

/-- `base.wrapping_add_signed(addend)` on `u64`s. -/
def wrappingAddSigned (base : ℕ) (addend : ℤ) : ℕ := ((base + addend) % 2 ^ 64).toNat

/-- What one turn of the loop of `File::relocate(base)` stores, and where: nothing for a jump
slot, the `u64` `base + addend` at the target of a relative relocation. -/
def File.relocationStore (f : File) (base : ℕ) :
    RelocationTableEntry → Option (Option (ℕ × List UInt8))
  -- `unreachable!("amd64 only supports Rela")`
  | .rel _ => none
  | .rela r => do
    -- `self.data_at_unrel_address_mut(addr).unwrap()`
    let some target ← f.dataAtUnrelAddressMut r.offset | none
    match ← (RelocationTableEntry.rela r).symbolTableType with
    | .x8664Relative => pure (some (target, Bytes.toLE (wrappingAddSigned base r.addend) 8))
    -- `_ => continue`
    | .x8664JumpSlot => pure none

/-- One turn of the loop of `File::relocate(base)` on a file at `addr`. -/
def File.relocateOne (addr base : ℕ) (f : File) (reloc : RelocationTableEntry) : Option File := do
  match ← f.relocationStore base reloc with
  | none => pure f
  -- `*ptr.cast::<u64>() = ..`
  | some (target, bytes) => f.store addr 8 target bytes

/-- `File::relocate(base)` on a file at `addr`. -/
def File.relocate (f : File) (addr base : ℕ) : Option File := do
  -- `self.relocations().collect()`: every entry is read before the first store
  let relocs ← f.relocations addr
  let f ← relocs.foldlM (File.relocateOne addr base) f
  pure { f with base := base }

/-! ## Linking -/

/-- One turn of the loop of `File::link`, on the `i`-th entry of the PLT relocation table at
`plt`: `none` where it panics or has undefined behaviour, else whether it carries on or ends
with the name it did not find. -/
def File.linkOne (f : File) (symbolMap : SymbolMap (List UInt8)) (symbolTable : ℕ × ℕ)
    (stringTable : StringTable) (kind : RelocationEntryType) (plt i : ℕ) :
    Option (Except (List UInt8) Unit) :=
  match kind with
  -- `todo!("Only Rela table type supported")`
  | .rel => none
  | .rela => do
    let entry := RelocationWithAddend.ofBytes f.data (plt + i * RelocationWithAddend.size)
    let idx := (RelocationTableEntry.rela entry).symbolTableIndex
    -- `symbol_table[idx]`, whose bound is checked
    if symbolTable.2 ≤ idx then none else
    let symbol := SymbolTableEntry.ofBytes f.data (symbolTable.1 + idx * symbolTableEntrySize)
    -- `.name.unwrap()`
    if symbol.name = 0 then none else
    let name ← stringTable.getString symbol.name
    match symbolMap.get name with
    -- `.ok_or(LinkError(name))?`
    | none => pure (.error name)
    | some _address =>
      let some _target ← f.dataAtUnrelAddress entry.offset | none
      match ← (RelocationTableEntry.rela entry).symbolTableType with
      -- `*ptr.cast::<u64>() = address.value.0` through a pointer that comes from a shared
      -- reference to the buffer
      | .x8664JumpSlot => none
      -- `todo!("Only x86_64 supported")`
      | .x8664Relative => none

/-- The `for` loop of `File::link`, whose `?` ends it at the first name not found. -/
def linkLoop (turn : ℕ → Option (Except (List UInt8) Unit)) :
    List ℕ → Option (Except (List UInt8) Unit)
  | [] => some (.ok ())
  | i :: rest =>
    (turn i).bind fun r =>
      match r with
      | .error name => some (.error name)
      | .ok () => linkLoop turn rest

/-- `File::link(symbol_map)` on a file at `addr`: `Ok(())`, or the `LinkError` of a name. -/
def File.link (f : File) (addr : ℕ) (symbolMap : SymbolMap (List UInt8)) :
    Option (Except (List UInt8) Unit) := do
  -- the three `unwrap`s
  let some symbolTable ← f.dynamicSymbolTable addr | none
  let some stringTable ← f.dynamicStringTable addr | none
  let some (kind, plt, count) ← f.jumptableRelocations addr | none
  linkLoop (f.linkOne symbolMap symbolTable stringTable kind plt) (List.range count)

end Popcorn.Elf
