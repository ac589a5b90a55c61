import Popcorn.Lib.Bytes
import Popcorn.Lib.Iter
import Popcorn.Acpi.Handler

/-!
# The boot logo as a BMP

`bmp::from_bgrt` maps the BMP header at the image address the ACPI BGRT table gives
(`BmpHeader`, `repr(C, packed)`, 34 bytes), accepts an image with a DIB header of at least 40
bytes, 24 or 32 bits per pixel, one colour plane and no compression, and maps
`size - pixel_offset` bytes of pixels from `pixel_offset` on. Its iterator walks the image
row by row from the top, reading the rows bottom-up from the pixel array, each row
`stride` bytes long, the row's pixel bytes rounded up to a multiple of 4.

The header is mapped with the handler's `map_physical_region` and the pixels with its
`map_region` (`Acpi`), whose panics stay panics; the header's mapping goes out of scope on
every return, which unmaps it. A mapping shows physical memory (`mem`) from its
`physical_start` on, as the kernel table it leaves maps it (`Acpi.mapRegion_spec`). The
mapping of the pixels is a slice of `pixels_size` bytes, whose index panics past its end. The
`i32` arithmetic of the stride panics on overflow, and so does the `u32` subtraction of the
pixel offset and the `u64` sum of the address and the offset. A panic is `none`. The header's
magic and reserved bytes are read by nothing.
-/

set_option linter.dupNamespace false

namespace Popcorn.Bmp

/-- `size_of::<BmpHeader>()`. -/
def headerSize : ℕ := 34

/-- `BmpHeader`, with the fields `from_bgrt` reads. -/
structure BmpHeader where
  size : ℕ
  pixelOffset : ℕ
  dibHeaderSize : ℕ
  width : ℤ
  height : ℤ
  colorPlaneCount : ℕ
  bpp : ℕ
  compression : ℕ
  deriving DecidableEq, Repr

/-- Four little-endian bytes read as an `i32`. -/
def toI32 (bits : ℕ) : ℤ := if bits < 2 ^ 31 then bits else bits - 2 ^ 32

/-- The header at `addr` in physical memory, the fields at their offsets in the packed record,
little-endian. -/
def BmpHeader.read (mem : ℕ → UInt8) (addr : ℕ) : BmpHeader :=
  let data := (List.range headerSize).map fun i => mem (addr + i)
  { size := Bytes.field data 2 4
    pixelOffset := Bytes.field data 10 4
    dibHeaderSize := Bytes.field data 14 4
    width := toI32 (Bytes.field data 18 4)
    height := toI32 (Bytes.field data 22 4)
    colorPlaneCount := Bytes.field data 26 2
    bpp := Bytes.field data 28 2
    compression := Bytes.field data 30 4 }

/-- `Bmp`: the header's size and depth, and the mapped pixel array. -/
structure Bmp where
  width : ℤ
  height : ℤ
  bpp : ℕ
  mapping : List UInt8
  deriving DecidableEq, Repr

section Handler

open Mapping (BackingAllocator VirtualAllocator World)

variable {σp σv : Type} (P : BackingAllocator σp) (V : VirtualAllocator σv)

/-- The body of `from_bgrt` once the header is mapped and read: its checks, and the pixels
mapped with `map_region`. The inner `none` is its `None`. -/
def fromHeader (mem : ℕ → UInt8) (imageAddress : ℕ) (header : BmpHeader) (w : World σp σv) :
    Option (Option Bmp × World σp σv) :=
  if header.dibHeaderSize < 40 then some (none, w)
  else if header.bpp ≠ 24 ∧ header.bpp ≠ 32 then some (none, w)
  else if header.colorPlaneCount ≠ 1 then some (none, w)
  else if header.compression ≠ 0 then some (none, w)
  -- `header.size - header.pixel_offset` on `u32`s
  else if header.size < header.pixelOffset then none
  else
    let pixelsSize := header.size - header.pixelOffset
    -- `addr + u64::from(header.pixel_offset)`
    if 2 ^ 64 ≤ imageAddress + header.pixelOffset then none
    else
      let bmpPixels := imageAddress + header.pixelOffset
      (Acpi.mapRegion P V bmpPixels pixelsSize w).map fun (pixels, w) =>
        (some ⟨header.width, header.height, header.bpp,
          (List.range pixelsSize).map fun i => mem (pixels.physicalStart + i)⟩, w)

/-- `from_bgrt` on the image at `imageAddress`, through a handler whose allocator is `P`: the
header mapped and read, the body, and the header's mapping dropped on the way out,
`unmap_physical_region`. -/
def fromBgrt (mem : ℕ → UInt8) (imageAddress : ℕ) (w : World σp σv) :
    Option (Option Bmp × World σp σv) :=
  (Acpi.mapPhysicalRegion P V imageAddress headerSize w).bind fun (header, w) =>
    (fromHeader P V mem imageAddress (BmpHeader.read mem header.physicalStart) w).bind
      fun (bmp, w) => (Acpi.unmapPhysicalRegion P V header w).map fun w => (bmp, w)

end Handler

/-- An `i32` result, which panics out of range. -/
def i32 (v : ℤ) : Option ℤ := if -2 ^ 31 ≤ v ∧ v < 2 ^ 31 then some v else none

/-- `v as usize` for an `i32` `v`. -/
def asUsize (v : ℤ) : ℕ := (v % 2 ^ 64).toNat

/-- `BmpIterator`. -/
structure BmpIterator where
  bmp : Bmp
  x : ℕ
  y : ℕ

/-- `into_iter`. -/
def Bmp.intoIter (bmp : Bmp) : BmpIterator := ⟨bmp, 0, 0⟩

/-- `((r as u32) << 16) | ((g as u32) << 8) | b as u32`. -/
def pixel (r g b : UInt8) : UInt32 := (r.toUInt32 <<< 16) ||| (g.toUInt32 <<< 8) ||| b.toUInt32

/-- `BmpIterator::next`; the inner `none` is the end of the iteration. -/
def BmpIterator.next (it : BmpIterator) : Option (Option (UInt32 × BmpIterator)) :=
  if asUsize it.bmp.height ≤ it.y then some none
  else
    let bytesPerPixel := it.bmp.bpp / 8
    -- `((bytes_per_pixel as i32) * self.bmp.width + 3) / 4 * 4`
    (i32 (bytesPerPixel * it.bmp.width)).bind fun rowBytes =>
    (i32 (rowBytes + 3)).bind fun padded =>
      let stride := padded.tdiv 4 * 4
      let coordY := asUsize it.bmp.height - it.y - 1
      let coord := it.x * bytesPerPixel + coordY * asUsize stride
      let read := fun i => it.bmp.mapping[i]?
      let ret : Option UInt32 :=
        match bytesPerPixel with
        | 3 => do
          let b ← read coord
          let g ← read (coord + 1)
          let r ← read (coord + 2)
          pure (pixel r g b)
        | 4 => do
          let b ← read (coord + 1)
          let g ← read (coord + 2)
          let r ← read (coord + 3)
          pure (pixel r g b)
        -- `unimplemented!()`
        | _ => none
      ret.map fun ret =>
        let x := it.x + 1
        let it := if asUsize it.bmp.width ≤ x then { it with y := it.y + 1, x := 0 }
          else { it with x }
        some (ret, it)

end Popcorn.Bmp
