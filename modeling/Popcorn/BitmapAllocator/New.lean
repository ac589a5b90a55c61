import Popcorn.BitmapAllocator.Bits

/-!
# `bitmap_allocator`: what `Wrapped::new` builds

`BitmapAllocator::new(start, end - start)` sizes its bitmap to `(end - start) / 8` words,
rounding down, so it tracks the frames `start .. start + (end - start) / 8 * 8` only
(`new_tracks`). `Wrapped::new` then sets every frame of every free region free, with an
`unwrap` on each `set_frame`.

It panics exactly when a free frame lies outside the tracked frames (`new_eq_none_iff`),
which a region inside the allocation range does as soon as it reaches its last
`(end - start) % 8` frames. When it does not panic, `get_frame` answers `Free` on the frames
of the regions, `Allocated` on the other tracked frames, and `Err(OutOfRangeError)` on the
rest (`new_getFrame`), the untracked tail of the allocation range included
(`new_panics_on_untracked_tail`).
-/

namespace Popcorn
namespace BitmapAllocator

/-- The frames a new bitmap tracks: `frame_count / 8` words of 8 frames each. -/
theorem new_tracks (firstFrame : Frame) (frameCount : Nat) (g : Frame) :
    (new firstFrame frameCount).Tracks g ↔ firstFrame.number ≤ g.number ∧
      g.number < firstFrame.number + frameCount / sizeOfUsize * sizeOfUsize := by
  simp only [Tracks, new, List.length_replicate]

/-- A new bitmap reads every tracked frame `Allocated`. -/
theorem new_getFrame_of_tracks {firstFrame : Frame} {frameCount : Nat} {g : Frame}
    (htr : (new firstFrame frameCount).Tracks g) :
    (new firstFrame frameCount).getFrame g = .ok .allocated := by
  rw [getFrame_eq, if_pos htr, bitAt]
  simp [new]

/-- Freeing the frames of each region in turn: the frames of the regions read `Free`, and
every other frame as before; a frame the bitmap does not track stops the fold. -/
theorem foldlM_setFrames_free :
    ∀ {regions : List (Range Frame)} {a a' : BitmapAllocator},
      regions.foldlM (fun a region => a.setFrames region.frames .free) a = .ok a' →
      ∀ g, a'.getFrame g = if ∃ r ∈ regions, g ∈ r.frames then .ok .free else a.getFrame g := by
  intro regions
  induction regions with
  | nil =>
    intro a a' h g
    cases h
    simp
  | cons r rs ih =>
    intro a a' h g
    rw [List.foldlM_cons] at h
    cases hr : a.setFrames r.frames .free with
    | error e => rw [hr] at h; cases h
    | ok a₁ =>
      rw [hr] at h
      rw [ih h g, getFrame_of_setFrames hr g]
      by_cases hg : g ∈ r.frames
      · simp [hg]
      · simp [hg]

/-- A `set_frame` over a list that succeeds found every frame of the list tracked. -/
theorem tracks_of_setFrames {a a' : BitmapAllocator} {fs : List Frame} {st : FrameState}
    (h : a.setFrames fs st = .ok a') {f : Frame} (hf : f ∈ fs) : a.Tracks f := by
  have hget := getFrame_of_setFrames h f
  rw [if_pos hf, getFrame_eq] at hget
  split_ifs at hget with htr
  exact (setFrames_tracks h f).mp htr

/-- Freeing the regions fails exactly on a frame of a region the bitmap does not track. -/
theorem foldlM_setFrames_free_eq_error_iff :
    ∀ {regions : List (Range Frame)} {a : BitmapAllocator},
      (∃ e, regions.foldlM (fun a region => a.setFrames region.frames .free) a = .error e) ↔
        ∃ r ∈ regions, ∃ f ∈ r.frames, ¬ a.Tracks f := by
  intro regions
  induction regions with
  | nil =>
    intro a
    constructor
    · rintro ⟨e, he⟩
      cases he
    · simp
  | cons r rs ih =>
    intro a
    rw [List.foldlM_cons]
    cases hr : a.setFrames r.frames .free with
    | error e =>
      obtain ⟨f, hf, htr⟩ := setFrames_eq_error hr
      exact ⟨fun _ => ⟨r, List.mem_cons_self, f, hf, htr⟩, fun _ => ⟨e, rfl⟩⟩
    | ok a₁ =>
      show (∃ e, rs.foldlM (fun a region => a.setFrames region.frames .free) a₁ =
        Except.error e) ↔ _
      rw [ih]
      constructor
      · rintro ⟨r', hr', f, hf, htr⟩
        exact ⟨r', List.mem_cons_of_mem r hr', f, hf, fun h => htr ((setFrames_tracks hr f).mpr h)⟩
      · rintro ⟨r', hr', f, hf, htr⟩
        rcases List.mem_cons.mp hr' with rfl | hr'
        · exact absurd (tracks_of_setFrames hr hf) htr
        · exact ⟨r', hr', f, hf, fun h => htr ((setFrames_tracks hr f).mp h)⟩

/-- Freeing the regions succeeds only on tracked frames. -/
theorem tracks_of_foldlM_setFrames_free {regions : List (Range Frame)} {a a' : BitmapAllocator}
    (h : regions.foldlM (fun a region => a.setFrames region.frames .free) a = .ok a')
    {r : Range Frame} (hr : r ∈ regions) {g : Frame} (hg : g ∈ r.frames) : a.Tracks g := by
  by_contra htr
  obtain ⟨e, he⟩ := foldlM_setFrames_free_eq_error_iff.mpr ⟨r, hr, g, hg, htr⟩
  rw [h] at he
  cases he

namespace Wrapped

/-- `Wrapped::new` panics exactly when a frame of a free region lies outside the frames the
truncated bitmap tracks. -/
theorem new_eq_none_iff (config : Config) :
    new config = none ↔ ∃ r ∈ config.regions, ∃ f ∈ r.frames,
      ¬ (BitmapAllocator.new config.allocationRange.start
        (config.allocationRange.stop - config.allocationRange.start)).Tracks f := by
  rw [← foldlM_setFrames_free_eq_error_iff]
  unfold new
  dsimp only
  split
  · rename_i a ha
    constructor
    · intro h
      cases h
    · rintro ⟨e, he⟩
      rw [ha] at he
      cases he
  · rename_i e he
    exact ⟨fun _ => ⟨e, he⟩, fun _ => rfl⟩

/-- What `get_frame` answers on the allocator `Wrapped::new` builds: `Free` on the frames of
the regions, `Allocated` on the other tracked frames, an error past the tracked frames. -/
theorem new_getFrame {config : Config} {w : Wrapped} (h : new config = some w) (g : Frame) :
    w.inner.getFrame g =
      if (BitmapAllocator.new config.allocationRange.start
          (config.allocationRange.stop - config.allocationRange.start)).Tracks g then
        (if ∃ r ∈ config.regions, g ∈ r.frames then .ok .free else .ok .allocated)
      else .error ⟨⟩ := by
  unfold new at h
  dsimp only at h
  split at h
  · rename_i a ha
    cases h
    rw [foldlM_setFrames_free ha g]
    by_cases hfree : ∃ r ∈ config.regions, g ∈ r.frames
    · -- a frame of a region is tracked, since freeing it succeeded
      obtain ⟨r, hr, hg⟩ := hfree
      rw [if_pos ⟨r, hr, hg⟩, if_pos (tracks_of_foldlM_setFrames_free ha hr hg),
        if_pos ⟨r, hr, hg⟩]
    · rw [if_neg hfree]
      by_cases htr : (BitmapAllocator.new config.allocationRange.start
          (config.allocationRange.stop - config.allocationRange.start)).Tracks g
      · rw [if_pos htr, if_neg hfree, new_getFrame_of_tracks htr]
      · rw [if_neg htr, getFrame_eq, if_neg htr]
  · cases h

/-- The allocation range `0..9`, nine frames, with its last frame, frame 8, free. -/
def lastFrameFree : Config := ⟨⟨⟨0⟩, ⟨9⟩⟩, [⟨⟨8⟩, ⟨9⟩⟩]⟩

/-- `Wrapped::new` panics on `lastFrameFree`: its bitmap has `9 / 8 = 1` word and tracks
frames `0..8` only. With no free region it does not panic, and `get_frame` answers an error
on frame 8 of the allocation range. -/
theorem new_panics_on_untracked_tail :
    new lastFrameFree = none ∧
      (new ⟨lastFrameFree.allocationRange, []⟩).map (fun w => w.inner.getFrame ⟨8⟩) =
        some (.error ⟨⟩) := by
  decide

end Wrapped

end BitmapAllocator
end Popcorn
