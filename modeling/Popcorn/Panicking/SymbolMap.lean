import Popcorn.Lib.Str

/-!
# Symbol names for the stack trace

`panicking::get_symbol_name(ip)` looks `ip` up in `SYMBOL_MAP`, the kernel's symbol map if
one is installed (`kernel-X.map`: `nm`'s BSD format, sorted by address). `SymbolMapIterator`
walks it line by line, and the lookup keeps the name of the last line whose address is not
zero, until a line's address passes `ip`.

`SymbolMapIterator::next` on the map `str` from `index` answers `None` at the end of the map.
Otherwise it takes the line up to the next `\n`, which must be UTF-8 (else `None`); the
line's address is the hex number in its bytes `0..16` (else `None`), its name the bytes from
`19` on, and the iterator moves past the `\n`. Panics are `none`: the `while` loop's
`self.str[idx]` past the last byte, and the slicing of a line shorter than `16` or `19` bytes
or cut inside a character. The `for` loop of `get_symbol_name` is given as many turns as the
map has bytes and one more; each turn moves the iterator past at least one byte.

Names are byte strings: the text of a line, or one of the literals `"<no symbols>"` and
`"<unknown>"`. The read lock on `SYMBOL_MAP` only reads its value, which is the argument
`symbolMap`.
-/

namespace Popcorn.Panicking

open Str

/-- `"<no symbols>"`. -/
def noSymbols : List UInt8 := asciiBytes "<no symbols>"

/-- `"<unknown>"`. -/
def unknown : List UInt8 := asciiBytes "<unknown>"

/-- `SymbolMapIterator::next` on the map `str` with the iterator at `index`: `none` is a
panic, `some none` the end of the iteration, and `some (some ((addr, name), index))` a line's
address and name with the index after the line. -/
def SymbolMapIterator.next (str : List UInt8) (index : ℕ) :
    Option (Option ((ℕ × List UInt8) × ℕ)) :=
  let originalIdx := index
  if originalIdx = str.length then some none
  else
    -- `while self.str[idx] != b'\n' { idx += 1; }`: out of bounds past the last byte
    match (str.drop originalIdx).findIdx? (fun b => b == 10) with
    | none => none
    | some k =>
      let idx := originalIdx + k
      let data := (str.take idx).drop originalIdx
      -- `core::str::from_utf8(..).ok()?`
      if !valid data then some none
      else
        (slice data 0 16).bind fun addr =>
          (sliceFrom data 19).map fun name =>
            -- `usize::from_str_radix(addr, 16).ok()?`
            (fromStrRadix16 addr).map fun addr => ((addr, name), idx + 1)

/-- The `for` loop of `get_symbol_name` over the iterator at `index`, with the name kept so
far, for `fuel` turns at most. -/
def symbolLoop (ip : ℕ) (str : List UInt8) : ℕ → ℕ → List UInt8 → Option (List UInt8)
  | 0, _, _ => none
  | fuel + 1, index, symName =>
    (SymbolMapIterator.next str index).bind fun item =>
      match item with
      | none => some symName
      | some ((symAddr, name), index) =>
        if symAddr > ip then some symName
        else if symAddr ≠ 0 then symbolLoop ip str fuel index name
        else symbolLoop ip str fuel index symName

/-- `get_symbol_name(ip)`, with `symbolMap` the value of `SYMBOL_MAP`. -/
def getSymbolName (symbolMap : Option (List UInt8)) (ip : ℕ) : Option (List UInt8) :=
  match symbolMap with
  | none => some noSymbols
  | some map => symbolLoop ip map (map.length + 1) 0 unknown

end Popcorn.Panicking
