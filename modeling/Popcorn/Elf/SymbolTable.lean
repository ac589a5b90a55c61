import Popcorn.Elf.DynamicTable

/-!
# Exported symbols

`File::exported_symbols` walks the dynamic symbol table and inserts each symbol that is
defined (`section_table_index != 0`) and not local into a `SymbolMap`, under its name in the
dynamic string table, as a weak symbol if its binding is weak and as a strong one otherwise,
at its value relocated by the file's base. `SymbolMap::insert` sets out, in its comments, to
keep the first strong definition of a name over any weak one. It asks hashbrown's
`try_insert`, whose `OccupiedError` carries both the entry already in the map and `value`,
the value that was not inserted; `insert` reads the latter.

The tables are those `dynamic_symbol_table` and `dynamic_string_table` answer. A name is a C
string, compared by its bytes; `get_string` reads the bytes from its index to the first NUL,
and the model stops at the end of the table where `CStr::from_ptr` would read on. A panic
(the `unwrap` of a missing name or string table, the assert of `get_string`, a relocation
that overflows) is `none`.
-/

namespace Popcorn.Elf

/-- `SymbolInfo`: a symbol's binding in the low nibble, its type in the high one. -/
structure SymbolInfo where
  raw : UInt8
  deriving DecidableEq, Repr

namespace SymbolInfo

/-- `SymbolInfo::LOCAL`. -/
def bindingLocal : UInt8 := 0

/-- `SymbolInfo::GLOBAL`. -/
def bindingGlobal : UInt8 := 1

/-- `SymbolInfo::WEAK`. -/
def bindingWeak : UInt8 := 2

def getBinding (info : SymbolInfo) : UInt8 := info.raw &&& 0xf

def isLocal (info : SymbolInfo) : Bool := info.getBinding == bindingLocal

def isWeak (info : SymbolInfo) : Bool := info.getBinding == bindingWeak

end SymbolInfo

/-- `SymbolTableEntry`, with the fields `exported_symbols` reads: `name` is the `u32` of an
`Option<StringIndex>`, where `0` is `None`. -/
structure SymbolTableEntry where
  name : ℕ
  info : SymbolInfo
  sectionTableIndex : ℕ
  value : ExecutableAddressUnrelocated
  size : ℕ
  deriving DecidableEq, Repr

/-- `ExportedSymbolTy`. -/
inductive ExportedSymbolTy where
  | strong
  | weak
  deriving DecidableEq, Repr

/-- `ExportedSymbol`. -/
structure ExportedSymbol where
  ty : ExportedSymbolTy
  value : ExecutableAddressRelocated
  size : ℕ
  deriving DecidableEq, Repr

namespace ExportedSymbol

def newStrong (value : ExecutableAddressRelocated) (size : ℕ) : ExportedSymbol :=
  ⟨.strong, value, size⟩

def newWeak (value : ExecutableAddressRelocated) (size : ℕ) : ExportedSymbol :=
  ⟨.weak, value, size⟩

def isStrong (s : ExportedSymbol) : Bool :=
  match s.ty with
  | .strong => true
  | .weak => false

def isWeak (s : ExportedSymbol) : Bool := !s.isStrong

end ExportedSymbol

/-- hashbrown's `OccupiedError`: the value of the entry that was already occupied, and
`value`, the value which was not inserted. -/
structure OccupiedError (α : Type) where
  entry : α
  value : α

/-- hashbrown's `HashMap::try_insert` on the map's lookup function: the map with `value` under
`key` if the key is vacant, else the map unchanged and an `OccupiedError`. -/
def tryInsert {κ α : Type} [DecidableEq κ] (map : κ → Option α) (key : κ) (value : α) :
    Except (OccupiedError α) (κ → Option α) :=
  match map key with
  | some entry => .error ⟨entry, value⟩
  | none => .ok (Function.update map key (some value))

/-- `SymbolMap`: a `HashMap` from names to exported symbols. -/
structure SymbolMap (κ : Type) where
  map : κ → Option ExportedSymbol

namespace SymbolMap

variable {κ : Type} [DecidableEq κ]

def new : SymbolMap κ := ⟨fun _ => none⟩

def get (m : SymbolMap κ) (name : κ) : Option ExportedSymbol := m.map name

/-- `SymbolMap::insert`. -/
def insert (m : SymbolMap κ) (name : κ) (addr : ExportedSymbol) : SymbolMap κ :=
  if addr.isWeak then
    -- `let _ = self.0.try_insert(name, addr)`
    match tryInsert m.map name addr with
    | .ok map => ⟨map⟩
    | .error _ => m
  else
    match tryInsert m.map name addr with
    | .ok map => ⟨map⟩
    | .error e => if e.value.isWeak then ⟨Function.update m.map name (some addr)⟩ else m

end SymbolMap

/-- `StringTable`: the bytes of the dynamic string table. -/
structure StringTable where
  bytes : List UInt8
  deriving DecidableEq, Repr

/-- `StringTable::get_string`: after the assert that `index` lies in the table, the C string
there, up to its NUL. -/
def StringTable.getString (t : StringTable) (index : ℕ) : Option (List UInt8) :=
  if index < t.bytes.length then some ((t.bytes.drop index).takeWhile (· ≠ 0)) else none

/-- One pass of the loop of `File::exported_symbols`. -/
def exportSymbol (base : ℕ) (stringTable : StringTable) (map : SymbolMap (List UInt8))
    (symbol : SymbolTableEntry) : Option (SymbolMap (List UInt8)) :=
  if symbol.sectionTableIndex ≠ 0 ∧ !symbol.info.isLocal then do
    -- `symbol.name.unwrap()`
    let index ← if symbol.name = 0 then none else some symbol.name
    let name ← stringTable.getString index
    let value ← symbol.value.relocate base
    let symbol :=
      if symbol.info.isWeak then ExportedSymbol.newWeak value symbol.size
      else ExportedSymbol.newStrong value symbol.size
    pure (map.insert name symbol)
  else pure map

/-- `File::exported_symbols`, on the symbol table and the string table the file answers. -/
def exportedSymbols (base : ℕ) (symbolTable : Option (List SymbolTableEntry))
    (stringTable : Option StringTable) : Option (SymbolMap (List UInt8)) :=
  match symbolTable with
  | none => some .new
  | some symbolTable =>
    -- `self.dynamic_string_table().unwrap()`
    stringTable.bind fun stringTable => symbolTable.foldlM (exportSymbol base stringTable) .new

namespace SymbolMap

variable {κ : Type} [DecidableEq κ]

/-- `insert` keeps the symbol a name already has, strong or weak: its strong branch asks
whether `OccupiedError::value`, the strong symbol it failed to insert, is weak. -/
theorem get_insert (m : SymbolMap κ) (name k : κ) (addr : ExportedSymbol) :
    (m.insert name addr).get k = if k = name then (m.get k).or (some addr) else m.get k := by
  unfold insert get
  cases hm : m.map name with
  | none =>
    -- a vacant name takes the symbol, on either branch
    have hinsert : tryInsert m.map name addr = .ok (Function.update m.map name (some addr)) := by
      simp [tryInsert, hm]
    by_cases hk : k = name
    · subst hk
      rw [if_pos rfl, hm]
      split_ifs <;> simp [hinsert]
    · rw [if_neg hk]
      split_ifs <;> simp [hinsert, hk]
  | some entry =>
    -- an occupied name keeps its symbol: the strong branch tests the rejected `addr`
    have hinsert : tryInsert m.map name addr = .error ⟨entry, addr⟩ := by
      simp [tryInsert, hm]
    by_cases hk : k = name
    · subst hk
      rw [if_pos rfl, hm]
      split_ifs with hweak <;> simp [hinsert, hweak, hm]
    · rw [if_neg hk]
      split_ifs with hweak <;> simp [hinsert, hweak]

/-- After a run of inserts, a name holds the first symbol inserted under it, whether strong or
weak. -/
theorem get_foldl_insert (xs : List (κ × ExportedSymbol)) (m : SymbolMap κ) (k : κ) :
    (xs.foldl (fun m p => m.insert p.1 p.2) m).get k =
      (m.get k).or ((xs.find? fun p => p.1 = k).map Prod.snd) := by
  induction xs generalizing m with
  | nil => simp
  | cons p xs ih =>
    rw [List.foldl_cons, ih, get_insert]
    by_cases hk : k = p.1
    · subst hk
      cases m.get p.1 <;> simp
    · simp [hk, Ne.symm hk]

end SymbolMap

/-- A symbol table that defines `f` twice, weak at `0x10` and then global at `0x20`, both
functions (type 2 in the high nibble of `info`), over the string table `"\0f\0"`. -/
def weakThenStrong : List SymbolTableEntry :=
  [⟨1, ⟨0x22⟩, 1, ⟨0x10⟩, 0⟩, ⟨1, ⟨0x12⟩, 1, ⟨0x20⟩, 0⟩]

/-- On `weakThenStrong`, `get("f")` answers the weak definition at `0x10`, not the strong one
at `0x20`. -/
theorem exportedSymbols_keeps_weak_over_strong :
    (exportedSymbols 0 (some weakThenStrong) (some ⟨[0, 0x66, 0]⟩)).map (·.get [0x66]) =
      some (some ⟨.weak, ⟨0x10⟩, 0⟩) := by
  decide

end Popcorn.Elf
