import Popcorn.Elf.File

/-!
# The dynamic table

`dynamic_table!` declares one `#[repr(C, i64)]` enum twice, over two address types: the
entries as the file holds them (`DynamicTableEntryUnrel`, addresses before relocation) and as
`File::dynamic_table` hands them out (`DynamicTableEntry`). `DynamicTableIter` lays the bytes
of the `DYNAMIC` segment out as `(i64, u64)` pairs, `len / 16` of them, and reads each pair
whose tag is below `TAG_COUNT` as an entry by `mem::transmute`; `File::dynamic_table` drops
the `Err` items and relocates the rest by the file's base.

The iterator is lazy, so its items are kept as a list with `none` where a call of `next` has
no defined result: a `transmute` to a discriminant that no variant has, which is undefined
behaviour, or a relocation whose `u64` sum overflows, which panics. What happens before such
a step still happens.
-/

namespace Popcorn.Elf

/-- `ExecutableAddressUnrelocated`. -/
structure ExecutableAddressUnrelocated where
  val : ℕ
  deriving DecidableEq, Repr

/-- `ExecutableAddressRelocated`. -/
structure ExecutableAddressRelocated where
  val : ℕ
  deriving DecidableEq, Repr

/-- `ExecutableAddressUnrelocated::relocate`: the `u64` sum with the base. -/
def ExecutableAddressUnrelocated.relocate (a : ExecutableAddressUnrelocated) (base : ℕ) :
    Option ExecutableAddressRelocated :=
  (usizeAdd a.val base).map fun val => ⟨val⟩

/-- The enum `dynamic_table!` declares, over the type of its addresses. -/
inductive DynamicTable (α : Type) where
  | null
  | neededLibrary (v : ℕ)
  | pltRelocationTableSize (v : ℕ)
  | pltGot (a : α)
  | hashTable (a : α)
  | stringTable (a : α)
  | symbolTable (a : α)
  | relaTableAddress (a : α)
  | relaTableSize (v : ℕ)
  | relaTableEntrySize (v : ℕ)
  | stringTableSize (v : ℕ)
  | symbolTableEntrySize (v : ℕ)
  | initFunction (a : α)
  | terminateFunction (a : α)
  | objectName (v : ℕ)
  | rPath (v : ℕ)
  | symbolic
  | relTableAddress (a : α)
  | relTableSize (v : ℕ)
  | relTableEntrySize (v : ℕ)
  | pltRelType (v : ℕ)
  | debug
  | textRelocations
  | jumptableRelocations (a : α)
  deriving DecidableEq, Repr

/-- `DynamicTableEntryUnrel`. -/
abbrev DynamicTableEntryUnrel := DynamicTable ExecutableAddressUnrelocated

/-- `DynamicTableEntry`. -/
abbrev DynamicTableEntry := DynamicTable ExecutableAddressRelocated

namespace DynamicTable

/-- The variant of discriminant `tag` with the payload `value`, as `mem::transmute` reads a
`(tag, value)` pair; `none` where no variant has that discriminant. -/
def transmute (tag : ℤ) (value : ℕ) : Option DynamicTableEntryUnrel :=
  if tag < 0 then none
  else
    match tag.toNat with
    | 0 => some .null
    | 1 => some (.neededLibrary value)
    | 2 => some (.pltRelocationTableSize value)
    | 3 => some (.pltGot ⟨value⟩)
    | 4 => some (.hashTable ⟨value⟩)
    | 5 => some (.stringTable ⟨value⟩)
    | 6 => some (.symbolTable ⟨value⟩)
    | 7 => some (.relaTableAddress ⟨value⟩)
    | 8 => some (.relaTableSize value)
    | 9 => some (.relaTableEntrySize value)
    | 10 => some (.stringTableSize value)
    | 11 => some (.symbolTableEntrySize value)
    | 12 => some (.initFunction ⟨value⟩)
    | 13 => some (.terminateFunction ⟨value⟩)
    | 14 => some (.objectName value)
    | 15 => some (.rPath value)
    | 16 => some .symbolic
    | 17 => some (.relTableAddress ⟨value⟩)
    | 18 => some (.relTableSize value)
    | 19 => some (.relTableEntrySize value)
    | 20 => some (.pltRelType value)
    | 21 => some .debug
    | 22 => some .textRelocations
    | 23 => some (.jumptableRelocations ⟨value⟩)
    | _ => none

end DynamicTable

/-- `DynamicTableEntryUnrel::relocate`. -/
def DynamicTableEntryUnrel.relocate (e : DynamicTableEntryUnrel) (base : ℕ) :
    Option DynamicTableEntry :=
  match e with
  | .null => some .null
  | .neededLibrary v => some (.neededLibrary v)
  | .pltRelocationTableSize v => some (.pltRelocationTableSize v)
  | .pltGot v => (v.relocate base).map .pltGot
  | .hashTable v => (v.relocate base).map .hashTable
  | .stringTable v => (v.relocate base).map .stringTable
  | .symbolTable v => (v.relocate base).map .symbolTable
  | .relaTableAddress v => (v.relocate base).map .relaTableAddress
  | .relaTableSize v => some (.relaTableSize v)
  | .relaTableEntrySize v => some (.relaTableEntrySize v)
  | .stringTableSize v => some (.stringTableSize v)
  | .symbolTableEntrySize v => some (.symbolTableEntrySize v)
  | .initFunction v => (v.relocate base).map .initFunction
  | .terminateFunction v => (v.relocate base).map .terminateFunction
  | .objectName v => some (.objectName v)
  | .rPath v => some (.rPath v)
  | .symbolic => some .symbolic
  | .relTableAddress v => (v.relocate base).map .relTableAddress
  | .relTableSize v => some (.relTableSize v)
  | .relTableEntrySize v => some (.relTableEntrySize v)
  | .pltRelType v => some (.pltRelType v)
  | .debug => some .debug
  | .textRelocations => some .textRelocations
  | .jumptableRelocations v => (v.relocate base).map .jumptableRelocations

/-- `TAG_COUNT`. -/
def tagCount : ℤ := 24

/-- Eight little-endian bytes read as an `i64`. -/
def toI64 (bits : ℕ) : ℤ := if bits < 2 ^ 63 then bits else bits - 2 ^ 64

/-- `DynamicTableIter::new` on the bytes `dynamicTable` at address `addr`: after the check that
they are aligned for `(i64, u64)`, the `len / 16` pairs the slice iterator walks. -/
def DynamicTableIter.new (addr : ℕ) (dynamicTable : List UInt8) : Option (List (ℤ × ℕ)) :=
  -- `panic!("Dynamic table not aligned")`
  if addr % 8 ≠ 0 then none
  else
    some ((List.range (dynamicTable.length / 16)).map fun i =>
      (toI64 (Bytes.field dynamicTable (16 * i) 8), Bytes.field dynamicTable (16 * i + 8) 8))

/-- `DynamicTableIter::next` past the slice iterator's `next()?`, on the pair it yields. -/
def DynamicTableIter.next (tag : ℤ × ℕ) : Option (Except Unit DynamicTableEntryUnrel) :=
  if tag.1 < tagCount then (DynamicTable.transmute tag.1 tag.2).map .ok
  else some (.error ())

/-- `SegmentType::DYNAMIC`. -/
def segmentTypeDynamic : ℕ := 2

/-- `ProgramHeaderEntry64::file_location`, whose end is a `u64` sum. -/
def ProgramHeaderEntry64.fileLocation (e : ProgramHeaderEntry64) : Option (ℕ × ℕ) :=
  (usizeAdd e.fileOffset e.fileSize).map fun end_ => (e.fileOffset, end_)

/-- `File::index_data`: the slice `data[start..end]`, which panics unless
`start ≤ end ≤ len`. -/
def File.indexData (f : File) (location : ℕ × ℕ) : Option (List UInt8) :=
  if location.1 ≤ location.2 ∧ location.2 ≤ f.data.length then
    some ((f.data.drop location.1).take (location.2 - location.1))
  else none

/-- `File::dynamic_table` on a file at address `addr`: the items of the iterator it returns. -/
def File.dynamicTable (f : File) (addr : ℕ) : Option (List (Option DynamicTableEntry)) := do
  let segments ← f.segments
  -- `panic!("can't find _DYNAMIC")`
  let dynamicSegment ← segments.find? fun segment => segment.segmentType = segmentTypeDynamic
  let location ← dynamicSegment.fileLocation
  let dynamicTable ← f.indexData location
  let pairs ← DynamicTableIter.new (addr + location.1) dynamicTable
  -- `.filter_map(Result::ok).map(|entry| entry.relocate(self.base))`
  pure ((pairs.map DynamicTableIter.next).filterMap fun item =>
    match item with
    | none => some none
    | some (.error ()) => none
    | some (.ok entry) => some (entry.relocate f.base))

/-! ### What the decoder and the relocation do -/

namespace DynamicTable

variable {α β : Type}

/-- The discriminant `dynamic_table!` gives each variant. -/
def discriminant : DynamicTable α → ℤ
  | .null => 0
  | .neededLibrary _ => 1
  | .pltRelocationTableSize _ => 2
  | .pltGot _ => 3
  | .hashTable _ => 4
  | .stringTable _ => 5
  | .symbolTable _ => 6
  | .relaTableAddress _ => 7
  | .relaTableSize _ => 8
  | .relaTableEntrySize _ => 9
  | .stringTableSize _ => 10
  | .symbolTableEntrySize _ => 11
  | .initFunction _ => 12
  | .terminateFunction _ => 13
  | .objectName _ => 14
  | .rPath _ => 15
  | .symbolic => 16
  | .relTableAddress _ => 17
  | .relTableSize _ => 18
  | .relTableEntrySize _ => 19
  | .pltRelType _ => 20
  | .debug => 21
  | .textRelocations => 22
  | .jumptableRelocations _ => 23

/-- The same variant with its address, if it carries one, sent through `f`, and every other
payload kept. -/
def traverse (f : α → Option β) : DynamicTable α → Option (DynamicTable β)
  | .null => some .null
  | .neededLibrary v => some (.neededLibrary v)
  | .pltRelocationTableSize v => some (.pltRelocationTableSize v)
  | .pltGot a => (f a).map .pltGot
  | .hashTable a => (f a).map .hashTable
  | .stringTable a => (f a).map .stringTable
  | .symbolTable a => (f a).map .symbolTable
  | .relaTableAddress a => (f a).map .relaTableAddress
  | .relaTableSize v => some (.relaTableSize v)
  | .relaTableEntrySize v => some (.relaTableEntrySize v)
  | .stringTableSize v => some (.stringTableSize v)
  | .symbolTableEntrySize v => some (.symbolTableEntrySize v)
  | .initFunction a => (f a).map .initFunction
  | .terminateFunction a => (f a).map .terminateFunction
  | .objectName v => some (.objectName v)
  | .rPath v => some (.rPath v)
  | .symbolic => some .symbolic
  | .relTableAddress a => (f a).map .relTableAddress
  | .relTableSize v => some (.relTableSize v)
  | .relTableEntrySize v => some (.relTableEntrySize v)
  | .pltRelType v => some (.pltRelType v)
  | .debug => some .debug
  | .textRelocations => some .textRelocations
  | .jumptableRelocations a => (f a).map .jumptableRelocations

/-- A tag below zero or from `TAG_COUNT` on is the discriminant of no variant. -/
theorem transmute_eq_none_iff {tag : ℤ} {value : ℕ} :
    transmute tag value = none ↔ tag < 0 ∨ tagCount ≤ tag := by
  unfold transmute tagCount
  by_cases hneg : tag < 0
  · simp [hneg]
  · rw [if_neg hneg]
    obtain ⟨n, rfl⟩ := Int.eq_ofNat_of_zero_le (not_lt.mp hneg)
    simp only [Int.toNat_natCast, Nat.cast_nonneg, not_lt.mpr, false_or, Nat.ofNat_le_cast]
    match n with
    | 0 | 1 | 2 | 3 | 4 | 5 | 6 | 7 | 8 | 9 | 10 | 11 | 12 | 13 | 14 | 15 | 16 | 17 | 18 | 19
    | 20 | 21 | 22 | 23 => simp
    | n + 24 => simp

/-- `transmute` reads a tag it accepts as the variant of that discriminant. -/
theorem discriminant_of_transmute {tag : ℤ} {value : ℕ} {e : DynamicTableEntryUnrel}
    (h : transmute tag value = some e) : e.discriminant = tag := by
  unfold transmute at h
  split_ifs at h with hneg
  obtain ⟨n, rfl⟩ := Int.eq_ofNat_of_zero_le (not_lt.mp hneg)
  simp only [Int.toNat_natCast] at h
  split at h <;> cases h <;> rfl

end DynamicTable

/-- `DynamicTableIter::new` on an aligned table walks `len / 16` pairs, the `i`-th read from
bytes `16 * i` and `16 * i + 8`. -/
theorem DynamicTableIter.new_of_aligned {addr : ℕ} (dynamicTable : List UInt8)
    (haligned : addr % 8 = 0) :
    ∃ pairs, DynamicTableIter.new addr dynamicTable = some pairs ∧
      pairs.length = dynamicTable.length / 16 ∧
      ∀ i (hi : i < pairs.length), pairs[i] =
        (toI64 (Bytes.field dynamicTable (16 * i) 8), Bytes.field dynamicTable (16 * i + 8) 8) := by
  refine ⟨_, if_neg (by omega), by simp, fun i hi => ?_⟩
  simp

/-- `next` answers `Ok` exactly for the tags of the enum's variants, reading the variant of
that discriminant; `Err(())` for a tag from `TAG_COUNT` on; and for a negative tag, which
passes the check `tag < TAG_COUNT`, a `transmute` to no variant at all. -/
theorem DynamicTableIter.next_cases (tag : ℤ × ℕ) :
    (tag.1 < 0 ∧ DynamicTableIter.next tag = none) ∨
    (0 ≤ tag.1 ∧ tag.1 < tagCount ∧
      ∃ e, DynamicTableIter.next tag = some (.ok e) ∧ e.discriminant = tag.1) ∨
    (tagCount ≤ tag.1 ∧ DynamicTableIter.next tag = some (.error ())) := by
  unfold DynamicTableIter.next
  by_cases hlt : tag.1 < tagCount
  · rw [if_pos hlt]
    cases he : DynamicTable.transmute tag.1 tag.2 with
    | none =>
      have := DynamicTable.transmute_eq_none_iff.mp he
      exact .inl ⟨by omega, rfl⟩
    | some e =>
      have hnonneg : 0 ≤ tag.1 := by
        by_contra hneg
        rw [DynamicTable.transmute_eq_none_iff.mpr (.inl (by omega))] at he
        cases he
      exact .inr (.inl ⟨hnonneg, hlt, e, rfl, DynamicTable.discriminant_of_transmute he⟩)
  · rw [if_neg hlt]
    exact .inr (.inr ⟨by omega, rfl⟩)

/-- `relocate` moves by the base exactly the addresses an entry carries, and keeps every other
payload and the variant. -/
theorem DynamicTableEntryUnrel.relocate_eq_traverse (e : DynamicTableEntryUnrel) (base : ℕ) :
    e.relocate base = e.traverse fun a => a.relocate base := by
  cases e <;> rfl

/-- A table of one pair whose tag is `-1` (eight `ff` bytes, then eight zeros), at an aligned
address: the tag passes `tag < TAG_COUNT`, and `next` transmutes it to no variant. -/
theorem dynamicTableIter_transmutes_negative_tag :
    (DynamicTableIter.new 0 (List.replicate 8 0xff ++ List.replicate 8 0)).map
      (List.map DynamicTableIter.next) = some [none] := by
  decide

end Popcorn.Elf
