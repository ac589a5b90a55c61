import Popcorn.Bmp.Image
import Popcorn.Acpi.Theorems

/-!
# What the BMP iterator yields

For an image of positive width and height whose row bytes fit an `i32` and whose mapped
pixel array holds its `height` rows, the iterator yields `width * height` pixels in row-major
order (`toList_intoIter`). Pixel `(x, y)` is read from the bytes at
`x * Bpp + (height - 1 - y) * stride`, `stride` the row's bytes rounded up to 4, and no read
leaves the array (`next_inside`). At 24 bits the blue, green and red bytes are the pixel's
first three; at 32 bits the code reads them one byte further on (`channelShift`).

`from_bgrt` reads the image through the handler's mappings; with an allocator that hands out
the frame `At(frame)` names, as `NullAllocator` does, it reads the header at the image address
and the pixel array from `pixel_offset` bytes after it (`fromBgrt_reads`).
-/

set_option linter.dupNamespace false

namespace Popcorn.Bmp

/-- The bytes of a row: the row's pixel bytes, rounded up to a multiple of 4. -/
def rowStride (bytesPerPixel width : ℕ) : ℕ := (bytesPerPixel * width + 3) / 4 * 4

/-- How far into its pixel the code reads the blue byte: at the pixel at 3 bytes a pixel, one
byte in at 4. -/
def channelShift (bytesPerPixel : ℕ) : ℕ := if bytesPerPixel = 4 then 1 else 0

/-- Pixel `(x, y)` of a `width` by `height` image, its blue, green and red bytes read `shift`
bytes into the pixel's place. -/
def pixelAt (mapping : List UInt8) (bytesPerPixel width height shift : ℕ) (q : ℕ × ℕ) :
    UInt32 :=
  let o := q.1 * bytesPerPixel + (height - 1 - q.2) * rowStride bytesPerPixel width + shift
  pixel (mapping.getD (o + 2) 0) (mapping.getD (o + 1) 0) (mapping.getD o 0)

theorem asUsize_natCast {n : ℕ} (hn : n < 2 ^ 64) : asUsize n = n := by
  unfold asUsize
  rw [Int.emod_eq_of_lt (by omega) (by omega), Int.toNat_natCast]

theorem i32_natCast {n : ℕ} (hn : n < 2 ^ 31) : i32 n = some (n : ℤ) := by
  unfold i32
  rw [if_pos ⟨by omega, by omega⟩]

theorem getElem?_eq_some_getD {l : List UInt8} {i : ℕ} (hi : i < l.length) :
    l[i]? = some (l.getD i 0) := by
  rw [List.getD_eq_getElem?_getD, List.getElem?_eq_getElem hi, Option.getD_some]

/-- The row holds its pixels: `stride ≥ Bpp * width`. -/
theorem mul_le_rowStride (bytesPerPixel width : ℕ) :
    bytesPerPixel * width ≤ rowStride bytesPerPixel width := by
  unfold rowStride
  omega

/-- The `Bpp` bytes of pixel `(x, y)`, from `x * Bpp + (height - 1 - y) * stride` on, lie in
the image's `height` rows. -/
theorem pixel_bytes_le {B w h x y : ℕ} (hx : x < w) (hy : y < h) :
    x * B + (h - y - 1) * rowStride B w + B ≤ h * rowStride B w := by
  have hrow : x * B + B ≤ rowStride B w := by
    have h1 : (x + 1) * B ≤ w * B := Nat.mul_le_mul_right B hx
    have h2 := mul_le_rowStride B w
    rw [Nat.add_mul, Nat.one_mul, Nat.mul_comm w B] at h1
    omega
  have hcol : (h - y - 1) * rowStride B w + rowStride B w ≤ h * rowStride B w := by
    have h1 := Nat.mul_le_mul_right (rowStride B w) (show h - y - 1 + 1 ≤ h by omega)
    rwa [Nat.add_mul, Nat.one_mul] at h1
  omega

section Iterate

variable {bmp : Bmp} {w h : ℕ} (hw : bmp.width = w) (hh : bmp.height = h)
  (hbpp : bmp.bpp = 24 ∨ bmp.bpp = 32) (hfit : bmp.bpp / 8 * w + 3 < 2 ^ 31) (hh31 : h < 2 ^ 31)
  (hlen : h * rowStride (bmp.bpp / 8) w ≤ bmp.mapping.length)

include hw hh hbpp hfit hh31 hlen in
/-- One call of `next` inside the image yields pixel `(x, y)` and moves right, or to the start
of the next row. -/
theorem next_inside {x y : ℕ} (hx : x < w) (hy : y < h) :
    (⟨bmp, x, y⟩ : BmpIterator).next =
      some (some (pixelAt bmp.mapping (bmp.bpp / 8) w h (channelShift (bmp.bpp / 8)) (x, y),
        if w ≤ x + 1 then ⟨bmp, 0, y + 1⟩ else ⟨bmp, x + 1, y⟩)) := by
  have hB34 : bmp.bpp / 8 = 3 ∨ bmp.bpp / 8 = 4 := by omega
  have hw31 : w < 2 ^ 31 := by
    have : w ≤ bmp.bpp / 8 * w := Nat.le_mul_of_pos_left w (by omega)
    omega
  have hheight : asUsize bmp.height = h := by rw [hh]; exact asUsize_natCast (by omega)
  have hwidth : asUsize bmp.width = w := by rw [hw]; exact asUsize_natCast (by omega)
  -- the `i32` arithmetic of the stride does not overflow
  have hrow : i32 (↑(bmp.bpp / 8) * bmp.width) = some ↑(bmp.bpp / 8 * w) := by
    rw [hw, ← Nat.cast_mul]
    exact i32_natCast (by omega)
  have hpad : i32 (↑(bmp.bpp / 8 * w) + 3) = some ↑(bmp.bpp / 8 * w + 3) := by
    rw [show (↑(bmp.bpp / 8 * w) + 3 : ℤ) = ↑(bmp.bpp / 8 * w + 3) by push_cast; ring]
    exact i32_natCast hfit
  have hstride : asUsize ((↑(bmp.bpp / 8 * w + 3) : ℤ).tdiv 4 * 4) =
      rowStride (bmp.bpp / 8) w := by
    rw [Int.tdiv_eq_ediv_of_nonneg (by omega),
      show (↑(bmp.bpp / 8 * w + 3) : ℤ) / 4 * 4 = ↑(rowStride (bmp.bpp / 8) w) by
        rw [rowStride]; push_cast; rfl]
    exact asUsize_natCast (by unfold rowStride; omega)
  have hread := pixel_bytes_le (B := bmp.bpp / 8) hx hy
  have hcoord : h - 1 - y = h - y - 1 := by omega
  unfold BmpIterator.next
  dsimp only
  simp only [hheight, if_neg (Nat.not_le.mpr hy)]
  rw [hrow, Option.bind_some, hpad, Option.bind_some, hstride, hwidth]
  rcases hB34 with hB | hB
  · -- 24 bits: blue, green and red are the pixel's three bytes
    rw [hB] at hread hlen ⊢
    simp (disch := omega) only [getElem?_eq_some_getD]
    simp [pixelAt, channelShift, hcoord]
  · -- 32 bits: the reads start one byte into the pixel
    rw [hB] at hread hlen ⊢
    simp (disch := omega) only [getElem?_eq_some_getD]
    simp [pixelAt, channelShift, hcoord, Nat.add_assoc]

include hh hh31 in
/-- At row `height` the iteration ends. -/
theorem next_at_end : (⟨bmp, 0, h⟩ : BmpIterator).next = some none := by
  unfold BmpIterator.next
  rw [if_pos (by rw [hh, asUsize_natCast (by omega)])]

include hw hh hbpp hfit hh31 hlen in
/-- The iteration yields the `width * height` pixels in row-major order, and then ends. -/
theorem toList_intoIter (hwpos : 0 < w) :
    Iter.toList BmpIterator.next (w * h + 1) bmp.intoIter =
      some ((Iter.rowMajor w h).map
        (pixelAt bmp.mapping (bmp.bpp / 8) w h (channelShift (bmp.bpp / 8)))) :=
  Iter.toList_grid (fun q => (⟨bmp, q.1, q.2⟩ : BmpIterator))
    (fun x hx y hy => by
      rw [next_inside hw hh hbpp hfit hh31 hlen hx hy]
      split_ifs <;> rfl)
    (next_at_end hh hh31) hwpos

end Iterate

theorem toI32_lt {bits : ℕ} (hbits : bits < 256 ^ 4) : toI32 bits < 2 ^ 31 := by
  unfold toI32
  split_ifs <;> omega

/-- The width and the height read from a header are `i32`s, from four bytes each. -/
theorem BmpHeader.read_dims_lt (mem : ℕ → UInt8) (addr : ℕ) :
    (BmpHeader.read mem addr).width < 2 ^ 31 ∧ (BmpHeader.read mem addr).height < 2 ^ 31 :=
  ⟨toI32_lt (Bytes.field_lt _ _ _), toI32_lt (Bytes.field_lt _ _ _)⟩

section Handler

open Mapping (BackingAllocator VirtualAllocator World)

variable {σp σv : Type} (P : BackingAllocator σp) (V : VirtualAllocator σv)

/-- What the body accepts: 24 or 32 bits a pixel, and the image of the header, with as the
pixel array the `size - pixel_offset` bytes from where `map_region` maps the pixels. -/
theorem fromHeader_eq_some {mem : ℕ → UInt8} {addr : ℕ} {header : BmpHeader}
    {w w' : World σp σv} {bmp : Bmp} (h : fromHeader P V mem addr header w = some (some bmp, w')) :
    (header.bpp = 24 ∨ header.bpp = 32) ∧
      ∃ pixels w₁, Acpi.mapRegion P V (addr + header.pixelOffset)
          (header.size - header.pixelOffset) w = some (pixels, w₁) ∧
        bmp = ⟨header.width, header.height, header.bpp,
          (List.range (header.size - header.pixelOffset)).map
            fun i => mem (pixels.physicalStart + i)⟩ := by
  unfold fromHeader at h
  split_ifs at h with h40 hbpp hplanes hcomp hsub hover <;>
    simp only [Option.some.injEq, Option.map_eq_some_iff, Prod.mk.injEq, Prod.exists,
      reduceCtorEq, false_and] at h
  obtain ⟨pixels, w₁, hmap, rfl, -⟩ := h
  exact ⟨by omega, pixels, w₁, hmap, rfl⟩

/-- `from_bgrt` answers an image only where its header was mapped and the body accepted it. -/
theorem fromBgrt_eq_some_iff {mem : ℕ → UInt8} {addr : ℕ} {w w' : World σp σv} {bmp : Bmp} :
    fromBgrt P V mem addr w = some (some bmp, w') ↔
      ∃ header w₁ w₂, Acpi.mapPhysicalRegion P V addr headerSize w = some (header, w₁) ∧
        fromHeader P V mem addr (BmpHeader.read mem header.physicalStart) w₁ =
          some (some bmp, w₂) ∧
        Acpi.unmapPhysicalRegion P V header w₂ = some w' := by
  simp only [fromBgrt, Option.bind_eq_some_iff, Option.map_eq_some_iff, Prod.exists,
    Prod.mk.injEq]
  constructor
  · rintro ⟨header, w₁, hmap, r, w₂, hbody, w₃, hunmap, rfl, rfl⟩
    exact ⟨header, w₁, w₂, hmap, hbody, hunmap⟩
  · rintro ⟨header, w₁, w₂, hmap, hbody, hunmap⟩
    exact ⟨header, w₁, hmap, some bmp, w₂, hbody, w', hunmap, rfl, rfl⟩

/-- What `from_bgrt` accepts: 24 or 32 bits a pixel, an `i32` width and height. -/
theorem fromBgrt_eq_some {mem : ℕ → UInt8} {addr : ℕ} {w w' : World σp σv} {bmp : Bmp}
    (h : fromBgrt P V mem addr w = some (some bmp, w')) :
    (bmp.bpp = 24 ∨ bmp.bpp = 32) ∧ bmp.width < 2 ^ 31 ∧ bmp.height < 2 ^ 31 := by
  obtain ⟨header, _, _, -, hbody, -⟩ := (fromBgrt_eq_some_iff P V).mp h
  obtain ⟨hbpp, -, -, -, rfl⟩ := fromHeader_eq_some P V hbody
  exact ⟨hbpp, BmpHeader.read_dims_lt mem header.physicalStart⟩

/-- With an allocator that hands out the frame `At(frame)` names, as `NullAllocator` does,
and an image below the top of the address space, `from_bgrt` reads the header at the image
address and the pixel array from `pixel_offset` bytes after it. -/
theorem fromBgrt_reads (hP : ∀ s n f, (P.allocateAt s n (.atFrame f)).1 = .ok f)
    {mem : ℕ → UInt8} {addr : ℕ} (haddr : addr + 2 ^ 32 + 4096 < 2 ^ 64) {w w' : World σp σv}
    {bmp : Bmp} (h : fromBgrt P V mem addr w = some (some bmp, w')) :
    let header := BmpHeader.read mem addr
    bmp = ⟨header.width, header.height, header.bpp,
      (List.range (header.size - header.pixelOffset)).map
        fun i => mem (addr + header.pixelOffset + i)⟩ := by
  obtain ⟨header, w₁, w₂, hmap, hbody, -⟩ := (fromBgrt_eq_some_iff P V).mp h
  -- the header's mapping starts at the image address
  obtain ⟨_, _, -, -, -, -, rfl⟩ :=
    Acpi.mapRegion_new P V hP (by decide : 0 < headerSize) (by rw [headerSize]; omega) hmap
  dsimp only at hbody
  obtain ⟨-, pixels, w₃, hpixels, rfl⟩ := fromHeader_eq_some P V hbody
  have hsize : (BmpHeader.read mem addr).size < 256 ^ 4 := Bytes.field_lt _ _ _
  -- the pixels' mapping starts `pixel_offset` bytes after it, where there are pixels at all
  have hstart : ∀ i < (BmpHeader.read mem addr).size - (BmpHeader.read mem addr).pixelOffset,
      pixels.physicalStart + i = addr + (BmpHeader.read mem addr).pixelOffset + i := by
    intro i hi
    obtain ⟨_, _, -, -, -, -, rfl⟩ := Acpi.mapRegion_new P V hP (by omega) (by omega) hpixels
    rfl
  dsimp only
  congr 1
  exact List.map_congr_left fun i hi => by rw [hstart i (List.mem_range.mp hi)]

/-- On an image `from_bgrt` accepts, of positive width and height, with row bytes that fit an
`i32` and a pixel array of at least `height * stride` bytes, the iterator yields the
`width * height` pixels in row-major order, pixel `(x, y)` read at
`x * Bpp + (height - 1 - y) * stride`, one byte further on at 32 bits, and then ends. -/
theorem fromBgrt_iterates {mem : ℕ → UInt8} {addr : ℕ} {w₀ w' : World σp σv} {bmp : Bmp}
    {w h : ℕ} (hbmp : fromBgrt P V mem addr w₀ = some (some bmp, w')) (hw : bmp.width = w)
    (hh : bmp.height = h) (hwpos : 0 < w) (hfit : bmp.bpp / 8 * w + 3 < 2 ^ 31)
    (hlen : h * rowStride (bmp.bpp / 8) w ≤ bmp.mapping.length) :
    Iter.toList BmpIterator.next (w * h + 1) bmp.intoIter =
      some ((Iter.rowMajor w h).map
        (pixelAt bmp.mapping (bmp.bpp / 8) w h (channelShift (bmp.bpp / 8)))) := by
  obtain ⟨hbpp, -, hh31⟩ := fromBgrt_eq_some P V hbmp
  exact toList_intoIter hw hh hbpp hfit (by omega) hlen hwpos

end Handler

/-- A 1 by 1 logo at 32 bits a pixel: the BMP and DIB headers (`size` 58, `pixel_offset` 54,
`dib_header_size` 40, one plane, no compression), then the pixel's bytes blue `0x11`, green
`0x22`, red `0x33` and alpha `0x44`. -/
def logo32 : List UInt8 :=
  [0x42, 0x4D, 0x3A, 0, 0, 0, 0, 0, 0, 0, 0x36, 0, 0, 0, 0x28, 0, 0, 0, 1, 0, 0, 0, 1, 0, 0, 0,
    1, 0, 0x20, 0, 0, 0, 0, 0] ++ List.replicate 20 0 ++ [0x11, 0x22, 0x33, 0x44]

/-- On `logo32` the iterator yields one pixel, `0x00443322`: red from the alpha byte, green
from the red one, blue from the green one. -/
theorem fromBgrt_shifts_32bit_channels :
    (fromBgrt Acpi.nullAllocator Mapping.bumpPages (fun i => logo32.getD i 0) 0
        Acpi.nullWorld).map (fun r => r.1.map fun bmp =>
          Iter.toList BmpIterator.next 2 bmp.intoIter) =
      some (some (some [0x00443322])) := by
  decide

end Popcorn.Bmp
