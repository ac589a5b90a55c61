import Popcorn.Targa.Image
import Popcorn.Lib.Iter

/-!
# What the Targa decoder reads

An image that `Image::try_new` accepts is `Valid`: its format is one of the two it decodes,
and its pixel data holds `bytes_per_pixel * width * height` bytes. On a valid image
`get_pixel` answers every pixel inside the image and reads inside the pixel data
(`getPixel_of_valid`), and the iterator, which walks the image as a grid, yields the pixels
in row-major order (`toList_iter`, from `Iter.toList_grid`).

The pixel data is the buffer from byte 18 on, so pixel `(x, y)` is read at byte
`18 + byte_offset` of the buffer (`tryNew_decodes`), whatever the header says about an image
ID. A file whose image ID is not empty is decoded shifted by its length
(`getPixel_reads_image_id`).
-/

namespace Popcorn.Targa

/-- What `try_new` guarantees of an image. -/
structure Image.Valid (img : Image) : Prop where
  format : img.colorFormat = .rgb888 ∨ img.colorFormat = .rgba8888
  size : img.colorFormat.bytesPerPixel * img.width * img.height ≤ img.pixelData.length

theorem Header.colorFormat_eq_ok {h : Header} {f : PixelFormat} (hf : h.colorFormat = .ok f) :
    f = .rgb888 ∨ f = .rgba8888 := by
  unfold Header.colorFormat at hf
  split at hf
  · exact .inr (Except.ok.inj hf).symm
  · exact .inl (Except.ok.inj hf).symm
  · cases hf

/-- Inversion of `try_new`: the buffer holds a header, the pixel data is the rest of it, and
the image is valid. -/
theorem tryNew_eq_ok {b : List UInt8} {img : Image} (h : Image.tryNew b = .ok img) :
    headerSize ≤ b.length ∧ img.pixelData = b.drop headerSize ∧ img.Valid := by
  unfold Image.tryNew at h
  dsimp only at h
  split_ifs at h with hshort
  split at h
  · cases h
  · rename_i format hformat
    split_ifs at h with hdata
    cases h
    refine ⟨by omega, rfl, Header.colorFormat_eq_ok hformat, ?_⟩
    dsimp only
    rw [List.length_drop]
    omega

theorem PixelOrderVertical.row_lt (o : PixelOrderVertical) {height y : ℕ} (hy : y < height) :
    o.row height y < height := by
  cases o <;> simp only [PixelOrderVertical.row] <;> omega

theorem PixelOrderHorizontal.column_lt (o : PixelOrderHorizontal) {width x : ℕ}
    (hx : x < width) : o.column width x < width := by
  cases o <;> simp only [PixelOrderHorizontal.column] <;> omega

/-- The pixel's bytes end inside the first `bytes_per_pixel * width * height` bytes. -/
theorem Image.byteOffset_add_le (img : Image) {x y : ℕ} (hx : x < img.width)
    (hy : y < img.height) :
    img.byteOffset x y + img.colorFormat.bytesPerPixel ≤
      img.colorFormat.bytesPerPixel * img.width * img.height := by
  have hrow := img.ordering.1.row_lt hy
  have hcol := img.ordering.2.column_lt hx
  set r := img.ordering.1.row img.height y
  set c := img.ordering.2.column img.width x
  -- the pixel's index in row-major order is below `width * height`
  have hidx : r * img.width + c + 1 ≤ img.height * img.width :=
    calc r * img.width + c + 1 ≤ r * img.width + img.width := by omega
      _ = (r + 1) * img.width := by ring
      _ ≤ img.height * img.width := Nat.mul_le_mul_right _ hrow
  calc img.byteOffset x y + img.colorFormat.bytesPerPixel
      = (r * img.width + c + 1) * img.colorFormat.bytesPerPixel := by
        unfold Image.byteOffset
        ring
    _ ≤ img.height * img.width * img.colorFormat.bytesPerPixel := Nat.mul_le_mul_right _ hidx
    _ = img.colorFormat.bytesPerPixel * img.width * img.height := by ring

/-- The two decoded formats decode every cell of their size. -/
theorem PixelFormat.decode_isSome {f : PixelFormat} (hf : f = .rgb888 ∨ f = .rgba8888)
    {raw : List UInt8} (hraw : raw.length = f.bytesPerPixel) : ∃ p, f.decode raw = some p := by
  rcases hf with rfl | rfl
  · match raw, hraw with
    | [b, g, r], _ => exact ⟨_, rfl⟩
  · match raw, hraw with
    | [b, g, r, a], _ => exact ⟨_, rfl⟩

/-- On a valid image, every pixel inside the image is read from the pixel data and decoded. -/
theorem getPixel_of_valid {img : Image} (hv : img.Valid) {x y : ℕ} (hx : x < img.width)
    (hy : y < img.height) :
    ∃ raw p, Bytes.window img.pixelData (img.byteOffset x y) img.colorFormat.bytesPerPixel =
        some raw ∧ img.colorFormat.decode raw = some p ∧ img.getPixel x y = some (some p) := by
  have hin : img.byteOffset x y + img.colorFormat.bytesPerPixel ≤ img.pixelData.length :=
    (img.byteOffset_add_le hx hy).trans hv.size
  obtain ⟨raw, hraw⟩ : ∃ raw, Bytes.window img.pixelData (img.byteOffset x y)
      img.colorFormat.bytesPerPixel = some raw :=
    Option.ne_none_iff_exists'.mp fun h => by
      have := Bytes.window_eq_none_iff.mp h
      omega
  obtain ⟨p, hp⟩ := PixelFormat.decode_isSome hv.format (Bytes.length_of_window hraw)
  refine ⟨raw, p, hraw, hp, ?_⟩
  unfold Image.getPixel
  rw [if_neg (by omega), hraw, Option.bind_some, hp, Option.map_some]

theorem getPixel_of_outside {img : Image} {x y : ℕ} (h : img.width ≤ x ∨ img.height ≤ y) :
    img.getPixel x y = some none := by
  unfold Image.getPixel
  rw [if_pos h]

/-! ## The iterator -/

/-- The pixels of a `width` by `height` image, row by row. -/
def rowMajor (width height : ℕ) : List (ℕ × ℕ) :=
  (List.range height).flatMap fun y => (List.range width).map fun x => (x, y)

/-- `PixelIterator`'s own `toList` is the run of its `next`. -/
theorem PixelIterator.toList_eq (fuel : ℕ) (it : PixelIterator) :
    it.toList fuel = Iter.toList PixelIterator.next fuel it := by
  induction fuel generalizing it with
  | zero => rfl
  | succ fuel ih =>
    simp only [PixelIterator.toList, Iter.toList, ih]
    -- the two `match`es on `next` are the same, arm by arm
    rcases it.next with _ | _ | ⟨item, it'⟩ <;> rfl

theorem rowMajor_eq : rowMajor = Iter.rowMajor := rfl

section Iterate

variable {img : Image} {f : ℕ × ℕ → Pixel}
  (hf : ∀ x < img.width, ∀ y < img.height, img.getPixel x y = some (some (f (x, y))))
include hf

/-- One call of `next` inside the image yields the pixel and moves right, or to the start of
the next row. -/
theorem next_inside {x y : ℕ} (hx : x < img.width) (hy : y < img.height) :
    (⟨(x, y), img⟩ : PixelIterator).next = some (some (((x, y), f (x, y)),
      ⟨if img.width ≤ x + 1 then (0, y + 1) else (x + 1, y), img⟩)) := by
  unfold PixelIterator.next
  simp only [if_neg (Nat.not_le.mpr hy), hf x hx y hy]

/-- The iteration yields every pixel, row by row, within `width * height + 1` calls: it walks
the image as a grid (`Iter.toList_grid`). -/
theorem toList_iter :
    img.iter.toList (img.width * img.height + 1) =
      some ((rowMajor img.width img.height).map fun q => (q, f q)) := by
  rw [PixelIterator.toList_eq, rowMajor_eq]
  rcases Nat.eq_zero_or_pos img.width with hw | hw
  · -- an image of no columns ends at once: `get_pixel(0, 0)` is `None`
    have hend : img.iter.next = some none := by
      unfold PixelIterator.next Image.iter
      split_ifs
      · rfl
      · rw [getPixel_of_outside (.inl (by dsimp only; omega))]
    rw [Iter.toList_succ_of_end hend, hw]
    simp [Iter.rowMajor]
  · have hend : (⟨(0, img.height), img⟩ : PixelIterator).next = some none := by
      unfold PixelIterator.next
      rw [if_pos le_rfl]
    exact Iter.toList_grid (fun q => (⟨q, img⟩ : PixelIterator))
      (fun x hx y hy => next_inside hf hx hy) hend hw

end Iterate

/-- What `try_new` and `get_pixel` do with a buffer: pixel `(x, y)` is decoded from the
`bytes_per_pixel` bytes at `18 + byte_offset`, right after the header; a position outside the
image answers `None`; and the iteration yields every pixel in row-major order. -/
theorem tryNew_decodes {b : List UInt8} {img : Image} (h : Image.tryNew b = .ok img) :
    (∀ x < img.width, ∀ y < img.height, ∃ raw p,
      Bytes.window b (headerSize + img.byteOffset x y) img.colorFormat.bytesPerPixel = some raw ∧
        img.colorFormat.decode raw = some p ∧ img.getPixel x y = some (some p)) ∧
    (∀ x y, img.width ≤ x ∨ img.height ≤ y → img.getPixel x y = some none) ∧
    ∃ items, img.iter.toList (img.width * img.height + 1) = some items ∧
      items.map Prod.fst = rowMajor img.width img.height ∧
      ∀ q ∈ items, img.getPixel q.1.1 q.1.2 = some (some q.2) := by
  obtain ⟨hlen, hdata, hv⟩ := tryNew_eq_ok h
  have hpixel : ∀ x < img.width, ∀ y < img.height, ∃ raw p,
      Bytes.window b (headerSize + img.byteOffset x y) img.colorFormat.bytesPerPixel =
        some raw ∧ img.colorFormat.decode raw = some p ∧ img.getPixel x y = some (some p) := by
    intro x hx y hy
    obtain ⟨raw, p, hraw, hp, hget⟩ := getPixel_of_valid hv hx hy
    rw [hdata, Bytes.window_drop hlen] at hraw
    exact ⟨raw, p, hraw, hp, hget⟩
  refine ⟨hpixel, fun x y => getPixel_of_outside, ?_⟩
  -- the pixel function the iteration yields
  let f : ℕ × ℕ → Pixel := fun q =>
    if hq : q.1 < img.width ∧ q.2 < img.height then (hpixel _ hq.1 _ hq.2).choose_spec.choose
    else ⟨0, 0, 0, 0⟩
  have hf : ∀ x < img.width, ∀ y < img.height, img.getPixel x y = some (some (f (x, y))) := by
    intro x hx y hy
    simp only [f, dif_pos (And.intro hx hy)]
    exact (hpixel x hx y hy).choose_spec.choose_spec.2.2
  refine ⟨_, toList_iter hf, by simp [Function.comp_def], ?_⟩
  intro q hq
  obtain ⟨p, hp, rfl⟩ := List.mem_map.mp hq
  have hin : p.1 < img.width ∧ p.2 < img.height := by
    obtain ⟨y, hy, hmem⟩ := List.mem_flatMap.mp hp
    obtain ⟨x, hx, rfl⟩ := List.mem_map.mp hmem
    exact ⟨List.mem_range.mp hx, List.mem_range.mp hy⟩
  exact hf p.1 hin.1 p.2 hin.2

/-- A 1 by 1 true-colour image, 24 bits per pixel, top to bottom, with an image ID of one byte
(`0xaa`) before its pixel (blue `0x01`, green `0x02`, red `0x03`). -/
def imageWithId : List UInt8 :=
  [1, 0, 2, 0, 0, 0, 0, 0, 0, 0, 0, 0, 1, 0, 1, 0, 24, 0x20, 0xaa, 0x01, 0x02, 0x03]

/-- On `imageWithId`, `get_pixel(0, 0)` decodes the image ID byte and the first two bytes of
the pixel, where the pixel the file holds, after the 18-byte header and the one-byte ID, has
red `0x03`, green `0x02` and blue `0x01`. -/
theorem getPixel_reads_image_id :
    (Image.tryNew imageWithId).map (fun img => img.getPixel 0 0) =
        .ok (some (some ⟨0x02, 0x01, 0xaa, 0xff⟩)) ∧
      PixelFormat.rgb888.decode (imageWithId.drop (headerSize + (imageWithId.getD 0 0).toNat)) =
        some ⟨0x03, 0x02, 0x01, 0xff⟩ := by
  decide

end Popcorn.Targa
