import Popcorn.Lib.Bytes

/-!
# Targa images

`targa::Image::try_new` reads the 18-byte header at the start of a buffer (`header::Header`,
`repr(C, packed)`), accepts uncompressed true-colour images of 24 or 32 bits per pixel
without a colour map, and keeps the bytes after the header as the pixel data.
`Image::get_pixel` finds the pixel `(x, y)` in them, after the flips the header's image
descriptor asks for, and the iterator of `&Image` walks the pixels row by row.

The header's other fields (the colour map specification, the origin, and the length of the
image ID in byte 0) are read by nothing here. Data is a list of bytes; a read past the pixel
data, undefined behaviour behind `get_unchecked`, is `none`, as is a panic.
-/

namespace Popcorn.Targa

/-- `PixelFormat`. -/
inductive PixelFormat where
  | rgb555
  | rgba5551
  | rgb888
  | rgba8888
  deriving DecidableEq, Repr

/-- `PixelFormat::bytes_per_pixel`. -/
def PixelFormat.bytesPerPixel : PixelFormat → ℕ
  | .rgb555 | .rgba5551 => 2
  | .rgb888 => 3
  | .rgba8888 => 4

/-- `PixelOrderVertical`. -/
inductive PixelOrderVertical where
  | topToBottom
  | bottomToTop
  deriving DecidableEq, Repr

/-- `PixelOrderHorizontal`. -/
inductive PixelOrderHorizontal where
  | leftToRight
  | rightToLeft
  deriving DecidableEq, Repr

/-- `Pixel`. -/
structure Pixel where
  r : UInt8
  g : UInt8
  b : UInt8
  a : UInt8
  deriving DecidableEq, Repr

/-- `errors::ParsingError`. -/
inductive ParsingError where
  | noHeader
  | notEnoughData
  | unsupported
  deriving DecidableEq, Repr

/-- `Image`. -/
structure Image where
  pixelData : List UInt8
  width : ℕ
  height : ℕ
  colorFormat : PixelFormat
  ordering : PixelOrderVertical × PixelOrderHorizontal

/-- `mem::size_of::<header::Header>()`. -/
def headerSize : ℕ := 18

/-- `header::Header`, with the fields the decoder reads. -/
structure Header where
  colorMap : UInt8
  imageType : UInt8
  width : ℕ
  height : ℕ
  colorDepth : UInt8
  imageDescriptor : UInt8

/-- The header laid over the start of a buffer: the fields at their offsets in the packed
record, the `u16`s little-endian. -/
def Header.ofBytes (data : List UInt8) : Header where
  colorMap := data.getD 1 0
  imageType := data.getD 2 0
  width := Bytes.field data 12 2
  height := Bytes.field data 14 2
  colorDepth := data.getD 16 0
  imageDescriptor := data.getD 17 0

namespace Header

/-- `Header::color_format`. -/
def colorFormat (h : Header) : Except ParsingError PixelFormat :=
  match h.colorDepth with
  | 32 => .ok .rgba8888
  | 24 => .ok .rgb888
  | _ => .error .unsupported

/-- `Header::pixel_ordering`: bit 5 of the descriptor is top-to-bottom, bit 4 right-to-left. -/
def pixelOrdering (h : Header) : PixelOrderVertical × PixelOrderHorizontal :=
  (if h.imageDescriptor &&& ((1 : UInt8) <<< 5) = 0 then .bottomToTop else .topToBottom,
   if h.imageDescriptor &&& ((1 : UInt8) <<< 4) = 0 then .leftToRight else .rightToLeft)

/-- `Header::has_color_map`. -/
def hasColorMap (h : Header) : Bool := h.colorMap != 0

/-- `header::Type::UncompressedTrueColor`. -/
def uncompressedTrueColor : UInt8 := 2

end Header

/-- `Image::try_new`. -/
def Image.tryNew (dataRaw : List UInt8) : Except ParsingError Image :=
  if dataRaw.length < headerSize then .error .noHeader
  else
    let data := Header.ofBytes dataRaw
    if data.hasColorMap then .error .unsupported
    else if data.imageType ≠ Header.uncompressedTrueColor then .error .unsupported
    else
      match data.colorFormat with
      | .error e => .error e
      | .ok format =>
        let expectedDataSize := format.bytesPerPixel * data.width * data.height
        if dataRaw.length < expectedDataSize + headerSize then .error .notEnoughData
        else .ok ⟨dataRaw.drop headerSize, data.width, data.height, format, data.pixelOrdering⟩

/-- The row `get_pixel` reads for `y`. -/
def PixelOrderVertical.row : PixelOrderVertical → ℕ → ℕ → ℕ
  | .topToBottom, _, y => y
  | .bottomToTop, height, y => height - y - 1

/-- The column `get_pixel` reads for `x`. -/
def PixelOrderHorizontal.column : PixelOrderHorizontal → ℕ → ℕ → ℕ
  | .leftToRight, _, x => x
  | .rightToLeft, width, x => width - x - 1

/-- The match of `get_pixel` on the format, over the pixel's bytes: blue, green, red, then
alpha. The 16-bit formats are a `todo!`, and an index past the bytes panics. -/
def PixelFormat.decode : PixelFormat → List UInt8 → Option Pixel
  | .rgb888, b :: g :: r :: _ => some ⟨r, g, b, 255⟩
  | .rgba8888, b :: g :: r :: a :: _ => some ⟨r, g, b, a⟩
  | _, _ => none

namespace Image

/-- `byte_offset` in `get_pixel`: the pixel's place in row-major order, in bytes. -/
def byteOffset (img : Image) (x y : ℕ) : ℕ :=
  (img.ordering.1.row img.height y * img.width + img.ordering.2.column img.width x) *
    img.colorFormat.bytesPerPixel

/-- `Image::get_pixel`. -/
def getPixel (img : Image) (x y : ℕ) : Option (Option Pixel) :=
  if img.width ≤ x ∨ img.height ≤ y then some none
  else
    (Bytes.window img.pixelData (img.byteOffset x y) img.colorFormat.bytesPerPixel).bind
      fun rawData => (img.colorFormat.decode rawData).map some

end Image

/-- `PixelIterator`. -/
structure PixelIterator where
  position : ℕ × ℕ
  image : Image

/-- `into_iter` of `&Image`. -/
def Image.iter (img : Image) : PixelIterator := ⟨(0, 0), img⟩

/-- `PixelIterator::next`; the inner `none` is the end of the iteration. -/
def PixelIterator.next (it : PixelIterator) :
    Option (Option (((ℕ × ℕ) × Pixel) × PixelIterator)) :=
  if it.image.height ≤ it.position.2 then some none
  else
    match it.image.getPixel it.position.1 it.position.2 with
    | none => none
    -- the `?`: the iteration ends where `get_pixel` answers `None`
    | some none => some none
    | some (some pixel) =>
      let x := it.position.1 + 1
      let position := if it.image.width ≤ x then (0, it.position.2 + 1) else (x, it.position.2)
      some (some ((it.position, pixel), { it with position }))

/-- The items of an iteration run to its end, in at most `fuel` calls of `next`. -/
def PixelIterator.toList : ℕ → PixelIterator → Option (List ((ℕ × ℕ) × Pixel))
  | 0, _ => none
  | fuel + 1, it =>
    match it.next with
    | none => none
    | some none => some []
    | some (some (item, it)) => (toList fuel it).map (item :: ·)

end Popcorn.Targa
