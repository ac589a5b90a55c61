import Popcorn.Lib.Bytes

/-!
# PSF fonts

`psf::try_parse` lays a PSF 1 header (`Psf1`, 4 bytes) or else a PSF 2 header (`Psf2`,
32 bytes) over a font buffer and checks that the buffer holds exactly the glyphs the header
announces. The font is then used through the trait `PsfFont`, whose `locate_char` finds the
glyph of a character from five methods each format answers: the glyph's width, height,
count and row stride, and the header's size.

A `PsfChar` holds its glyph as a raw slice of the font buffer, built by
`slice::from_raw_parts` with no bounds check: here the slice's offset from the start of the
buffer and its length; `is_set` reads a pixel's bit from it with Rust's bounds check on the
slice. A panic (a `todo!`, the division by a zero glyph height, an index past the slice) is
`none`.
The `version` and `header_size` fields of a PSF 2 header are read by nothing here.
-/

namespace Popcorn.Psf

/-- `ParseError`. -/
inductive ParseError where
  | incorrectAlign
  | incorrectMagic
  | incorrectDataLength (expected found : ℕ)
  | noHeader
  deriving DecidableEq, Repr

/-- `LookupError`. -/
inductive LookupError where
  | unicodeChar
  | extendedGlyph
  deriving DecidableEq, Repr

/-- `PsfChar`: the glyph's size in pixels, the bytes of one row, and its bitmap as a slice of
the font buffer. -/
structure PsfChar where
  width : ℕ
  height : ℕ
  stride : ℕ
  dataOffset : ℕ
  dataLength : ℕ
  deriving DecidableEq, Repr

/-- `PsfChar::is_set`, over the memory its slice lies in (`mem i` is byte `i` from the start
of the font): `self.data[x_byte + y * self.stride]` panics past the slice's end. -/
def PsfChar.isSet (ch : PsfChar) (mem : ℕ → UInt8) (x y : ℕ) : Option Bool :=
  if x > ch.width ∨ y > ch.height then some false
  else
    let (xByte, xBit) := (x / 8, x % 8)
    if xByte + y * ch.stride < ch.dataLength then
      let data := mem (ch.dataOffset + (xByte + y * ch.stride))
      some (data &&& (1 <<< (7 - xBit).toUInt8) ≠ 0)
    else none

/-- `Psf1`. -/
structure Psf1 where
  magic : List UInt8
  mode : UInt8
  charSize : UInt8
  deriving DecidableEq, Repr

/-- `Psf2`, with the fields the font reads. -/
structure Psf2 where
  magic : List UInt8
  flags : ℕ
  glyphCount : ℕ
  charSize : ℕ
  glyphHeight : ℕ
  glyphWidth : ℕ
  deriving DecidableEq, Repr

namespace Psf1

/-- The header laid over the start of a buffer. -/
def ofBytes (data : List UInt8) : Psf1 where
  magic := data.take 2
  mode := data.getD 2 0
  charSize := data.getD 3 0

/-- `size_of::<Psf1>()`. -/
def size : ℕ := 4

/-- `FontMode::_512`. -/
def mode512 : UInt8 := 1

/-- `FontMode::HashTable`. -/
def modeHashTable : UInt8 := 2

/-- `FontMode::Seq`. -/
def modeSeq : UInt8 := 4

def charWidth (_ : Psf1) : ℕ := 8

def charHeight (f : Psf1) : ℕ := f.charSize.toNat

def charCount (f : Psf1) : ℕ := if f.mode &&& mode512 = mode512 then 512 else 256

def charStride (_ : Psf1) : ℕ := 8

def headerSize (_ : Psf1) : ℕ := size

/-- `Psf1::try_new`. Its alignment check is against `align_of::<Psf1>()`, which is 1. -/
def tryNew (rawFontData : List UInt8) : Option (Except ParseError Psf1) :=
  if rawFontData.length < size then some (.error .noHeader)
  else
    let fontData := ofBytes rawFontData
    if fontData.magic ≠ [0x36, 0x04] then some (.error .incorrectMagic)
    -- `todo!("Font uses a currently unsupported Unicode table")`
    else if fontData.mode &&& modeSeq = modeSeq ∨ fontData.mode &&& modeHashTable = modeHashTable
    then none
    else
      let expectedBytes := size + fontData.charCount * fontData.charSize.toNat
      if expectedBytes ≠ rawFontData.length then
        some (.error (.incorrectDataLength expectedBytes rawFontData.length))
      else some (.ok fontData)

end Psf1

namespace Psf2

/-- The header laid over the start of a buffer, the `u32`s little-endian. -/
def ofBytes (data : List UInt8) : Psf2 where
  magic := data.take 4
  flags := Bytes.field data 12 4
  glyphCount := Bytes.field data 16 4
  charSize := Bytes.field data 20 4
  glyphHeight := Bytes.field data 24 4
  glyphWidth := Bytes.field data 28 4

/-- `size_of::<Psf2>()`. -/
def size : ℕ := 32

/-- `align_of::<Psf2>()`. -/
def align : ℕ := 4

/-- `FontFlags::UnicodeTable`. -/
def flagUnicodeTable : ℕ := 1

def charWidth (f : Psf2) : ℕ := f.glyphWidth

def charHeight (f : Psf2) : ℕ := f.glyphHeight

def charCount (f : Psf2) : ℕ := f.glyphCount

/-- `char_size / glyph_height`, which panics on a zero height. -/
def charStride (f : Psf2) : Option ℕ :=
  if f.glyphHeight = 0 then none else some (f.charSize / f.glyphHeight)

def headerSize (_ : Psf2) : ℕ := size

/-- `Psf2::try_new` on a buffer at address `addr`. -/
def tryNew (addr : ℕ) (rawFontData : List UInt8) : Option (Except ParseError Psf2) :=
  if rawFontData.length < size then some (.error .noHeader)
  else if addr % align ≠ 0 then some (.error .incorrectAlign)
  else
    let fontData := ofBytes rawFontData
    if fontData.magic ≠ [0x72, 0xb5, 0x4a, 0x86] then some (.error .incorrectMagic)
    -- `todo!("Font uses a currently unsupported Unicode table")`
    else if fontData.flags &&& flagUnicodeTable = flagUnicodeTable then none
    else
      let expectedBytes := size + fontData.charCount * fontData.charSize
      if expectedBytes ≠ rawFontData.length then
        some (.error (.incorrectDataLength expectedBytes rawFontData.length))
      else some (.ok fontData)

end Psf2

/-- A `&dyn PsfFont`: a PSF 1 or a PSF 2 font. -/
inductive Font where
  | psf1 (f : Psf1)
  | psf2 (f : Psf2)
  deriving DecidableEq, Repr

namespace Font

def charWidth : Font → ℕ
  | .psf1 f => f.charWidth
  | .psf2 f => f.charWidth

def charHeight : Font → ℕ
  | .psf1 f => f.charHeight
  | .psf2 f => f.charHeight

def charCount : Font → ℕ
  | .psf1 f => f.charCount
  | .psf2 f => f.charCount

def charStride : Font → Option ℕ
  | .psf1 f => some f.charStride
  | .psf2 f => f.charStride

def headerSize : Font → ℕ
  | .psf1 f => f.headerSize
  | .psf2 f => f.headerSize

/-- `PsfFont::locate_char`. -/
def locateChar (font : Font) (theChar : Char) : Option (Except LookupError PsfChar) :=
  let theChar := theChar.toNat
  if 512 < theChar then some (.error .unicodeChar)
  else if font.charCount < theChar then some (.error .extendedGlyph)
  else
    font.charStride.map fun stride =>
      let charByteOffset := font.headerSize + font.charHeight * stride * theChar
      let charSize := font.charHeight * stride
      .ok ⟨font.charWidth, font.charHeight, stride, charByteOffset, charSize⟩

end Font

/-- `psf::try_parse`: a PSF 1 font, or a PSF 2 font where the PSF 1 magic is wrong. -/
def tryParse (addr : ℕ) (data : List UInt8) : Option (Except ParseError Font) :=
  match Psf1.tryNew data with
  | none => none
  | some (.ok font) => some (.ok (.psf1 font))
  | some (.error .incorrectMagic) => (Psf2.tryNew addr data).map fun r => r.map .psf2
  | some (.error e) => some (.error e)

end Popcorn.Psf
