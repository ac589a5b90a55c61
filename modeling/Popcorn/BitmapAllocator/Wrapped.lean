import Popcorn.BitmapAllocator.Paths

/-!
# `bitmap_allocator::Wrapped`: the `BackingAllocator`

The four calls of `Wrapped` read through `get_frame`:

* `allocate_contiguous(n)` and `allocate_at(n, At(f))` for `n > 0` either hand out a run of
  free frames and allocate exactly those (`AllocatesRun`), or fail; `allocate_contiguous`
  fails only when no run of `n` free frames is left (`allocateContiguous_error`);
* `deallocate_contiguous` frees exactly its frames, and `push` allocates exactly the frames
  of its region the bitmap tracks.

`Wf` holds of every allocator `new` builds and is kept by every call (`reachable_wf`). From
there, `hands_out_once`: once a frame has been handed out, no later allocation hands it out
again until a deallocation covering it.
-/

namespace Popcorn
namespace BitmapAllocator
namespace Wrapped

/-! ## `allocate_contiguous` -/

theorem allocateContiguous_ok {w w' : Wrapped} {n : Nat} {base : Frame} (hwf : w.inner.Wf)
    (hn : 0 < n) (h : w.allocateContiguous n = some (.ok base, w')) :
    AllocatesRun w.inner w'.inner base n ∧ w'.inner.Wf := by
  unfold allocateContiguous at h
  rw [if_neg (by omega)] at h
  by_cases h1 : n = 1
  · -- one frame: `allocate_one`
    subst h1
    rw [if_pos rfl] at h
    rcases hr : w.inner.allocateOne with ⟨r, a⟩
    rw [hr] at h
    cases h
    exact allocateOne_ok hwf hr
  · rw [if_neg h1] at h
    split at h
    · cases h
    · -- the fast path succeeds
      rename_i start a hfast
      cases h
      exact allocateMultipleFast_ok hwf hfast
    · -- the fast path fails and leaves the allocator as it was: the slow path decides
      rename_i e a hfast
      have ha := allocateMultipleFast_error hfast
      subst ha
      obtain ⟨⟨r, a'⟩, hslow, heq⟩ := Option.map_eq_some_iff.mp h
      cases heq
      exact allocateMultipleSlow_ok hwf hslow

theorem allocateContiguous_error {w w' : Wrapped} {n : Nat} {e : AllocError}
    (h : w.allocateContiguous n = some (.error e, w')) : w' = w ∧ ¬ w.inner.HasFreeRun n := by
  unfold allocateContiguous at h
  split at h
  · cases h
  · split at h
    · -- one frame: `allocate_one` found no free frame at all
      rename_i h1
      subst h1
      rcases hr : w.inner.allocateOne with ⟨r, a⟩
      rw [hr] at h
      cases h
      obtain ⟨rfl, hnone⟩ := allocateOne_error hr
      exact ⟨rfl, fun ⟨base, hfree⟩ => hnone _ (hfree 0 (by omega))⟩
    · split at h
      · cases h
      · cases h
      · rename_i e' a hfast
        have ha := allocateMultipleFast_error hfast
        subst ha
        obtain ⟨⟨r, a'⟩, hslow, heq⟩ := Option.map_eq_some_iff.mp h
        cases heq
        obtain ⟨rfl, hnone⟩ := allocateMultipleSlow_error hslow
        exact ⟨rfl, hnone⟩

/-! ## `allocate_at` -/

theorem isFree_iff (a : BitmapAllocator) (f : Frame) : a.isFree f = true ↔ a.getFrame f = .ok .free := by
  unfold isFree
  cases a.getFrame f with
  | error e => simp
  | ok state => cases state <;> simp

/-- The check of `allocate_at`: every frame of the range is tracked and free. -/
theorem all_isFree_iff (a : BitmapAllocator) (frames : List Frame) :
    frames.all a.isFree = true ↔ ∀ f ∈ frames, a.getFrame f = .ok .free := by
  rw [List.all_eq_true]
  exact forall₂_congr fun f _ => isFree_iff a f

theorem allocateAt_ok {w w' : Wrapped} {n : Nat} {location : SpecificLocation} {base : Frame}
    (hwf : w.inner.Wf) (hn : 0 < n) (h : w.allocateAt n location = some (.ok base, w')) :
    AllocatesRun w.inner w'.inner base n ∧ w'.inner.Wf := by
  unfold allocateAt at h
  rw [if_neg (by omega)] at h
  split at h
  · cases h
  · cases h
  · rename_i addr
    dsimp only at h
    split at h
    · cases h
    · rename_i hfree
      have hall := (all_isFree_iff w.inner _).mp (by simpa using hfree)
      split at h
      · rename_i a hset
        cases h
        refine ⟨⟨fun k hk => hall _ (Range.mem_frames.mpr ?_), fun g => ?_⟩, hwf.setFrames hset⟩
        · simp only [Frame.le_iff, Frame.lt_iff, Frame.number_add]
          omega
        · rw [getFrame_of_setFrames hset g]
          by_cases hg : base ≤ g ∧ g < base + n
          · rw [if_pos (Range.mem_frames.mpr hg), if_pos hg]
          · rw [if_neg (fun h => hg (Range.mem_frames.mp h)), if_neg hg]
      · cases h

theorem allocateAt_error {w w' : Wrapped} {n : Nat} {location : SpecificLocation} {e : AllocError}
    (h : w.allocateAt n location = some (.error e, w')) : w' = w := by
  unfold allocateAt at h
  split at h
  · cases h
  · split at h
    · cases h
    · cases h
    · dsimp only at h
      split at h
      · cases h
        rfl
      · split at h <;> cases h

/-! ## `deallocate_contiguous` and `push` -/

theorem deallocateContiguous_eq_some {w w' : Wrapped} {base : Frame} {n : Nat} (hwf : w.inner.Wf)
    (h : w.deallocateContiguous base n = some w') :
    (∀ g, w'.inner.getFrame g = if base ≤ g ∧ g < base + n then .ok .free else w.inner.getFrame g) ∧
      w'.inner.Wf := by
  unfold deallocateContiguous at h
  split at h
  · rename_i a hset
    cases h
    refine ⟨fun g => ?_, hwf.setFrames hset⟩
    rw [getFrame_of_setFrames hset g]
    by_cases hg : base ≤ g ∧ g < base + n
    · rw [if_pos (Range.mem_frames.mpr hg), if_pos hg]
    · rw [if_neg (fun h => hg (Range.mem_frames.mp h)), if_neg hg]
  · cases h

/-- One frame of `push`: `set_frame`, its error ignored. -/
def pushFrame (a : BitmapAllocator) (frame : Frame) : BitmapAllocator :=
  match a.setFrame frame .allocated with
  | .ok a' => a'
  | .error _ => a

theorem push_eq (w : Wrapped) (region : Range Frame) :
    w.push region = ⟨region.frames.foldl pushFrame w.inner⟩ := rfl

theorem pushFrame_tracks (a : BitmapAllocator) (frame g : Frame) :
    (pushFrame a frame).Tracks g ↔ a.Tracks g := by
  unfold pushFrame
  split
  · rename_i a' hset
    exact setFrame_tracks hset g
  · exact Iff.rfl

theorem getFrame_pushFrame (a : BitmapAllocator) (frame g : Frame) :
    (pushFrame a frame).getFrame g =
      if g = frame ∧ a.Tracks g then .ok .allocated else a.getFrame g := by
  unfold pushFrame
  split
  · rename_i a' hset
    rw [getFrame_of_setFrame hset g]
    have htr := (setFrame_eq_ok hset).1
    by_cases hg : g = frame
    · subst hg
      rw [if_pos rfl, if_pos ⟨rfl, htr⟩]
    · rw [if_neg hg, if_neg (fun h => hg h.1)]
  · rename_i e hset
    have hntr := (setFrame_eq_error_iff a frame _).mp ⟨e, hset⟩
    by_cases hg : g = frame
    · subst hg
      rw [if_neg (fun h => hntr h.2)]
    · rw [if_neg (fun h => hg h.1)]

theorem wf_pushFrame {a : BitmapAllocator} (hwf : a.Wf) (frame : Frame) : (pushFrame a frame).Wf := by
  unfold pushFrame
  split
  · rename_i a' hset
    exact hwf.setFrame hset
  · exact hwf

/-- `push` over the frames of a list: the listed frames the bitmap tracks are allocated. -/
theorem getFrame_pushFrames :
    ∀ (frames : List Frame) (a : BitmapAllocator) (g : Frame),
      (frames.foldl pushFrame a).getFrame g =
        if g ∈ frames ∧ a.Tracks g then .ok .allocated else a.getFrame g := by
  intro frames
  induction frames with
  | nil => intro a g; simp
  | cons frame frames ih =>
    intro a g
    rw [List.foldl_cons, ih, getFrame_pushFrame]
    simp only [pushFrame_tracks]
    by_cases hg : g = frame
    · subst hg
      by_cases htr : a.Tracks g <;> simp [htr]
    · by_cases hmem : g ∈ frames
      · by_cases htr : a.Tracks g <;> simp [hg, hmem, htr]
      · simp [hg, hmem]

theorem wf_pushFrames {a : BitmapAllocator} (hwf : a.Wf) :
    ∀ frames : List Frame, (frames.foldl pushFrame a).Wf := by
  intro frames
  induction frames generalizing a with
  | nil => exact hwf
  | cons frame frames ih => exact ih (wf_pushFrame hwf frame)

/-! ## Every reachable allocator is well formed -/

theorem new_wf' {config : Config} {w : Wrapped} (h : new config = some w) : w.inner.Wf := by
  unfold new at h
  dsimp only at h
  split at h
  · rename_i a hfold
    cases h
    -- each region is a `setFrames` over the fresh bitmap
    have hstep : ∀ (regions : List (Range Frame)) (a₀ a₁ : BitmapAllocator), a₀.Wf →
        regions.foldlM (fun a region => a.setFrames region.frames .free) a₀ = .ok a₁ → a₁.Wf := by
      intro regions
      induction regions with
      | nil => intro a₀ a₁ h₀ h; cases h; exact h₀
      | cons r rs ih =>
        intro a₀ a₁ h₀ h
        rw [List.foldlM_cons] at h
        cases hr : a₀.setFrames r.frames .free with
        | error e => rw [hr] at h; cases h
        | ok a₂ =>
          rw [hr] at h
          exact ih a₂ a₁ (h₀.setFrames hr) h
    exact hstep _ _ _ (BitmapAllocator.new_wf _ _) hfold
  · cases h

theorem step_wf {w w' : Wrapped} {c : Call} {r : Answer} (hwf : w.inner.Wf)
    (h : step w c = some (r, w')) : w'.inner.Wf := by
  cases c with
  | allocateContiguous n =>
    obtain ⟨⟨r', w''⟩, hcall, heq⟩ := Option.map_eq_some_iff.mp h
    cases heq
    cases r' with
    | ok base =>
      by_cases hn : n = 0
      · subst hn
        simp [allocateContiguous] at hcall
        rw [← hcall.2]
        exact hwf
      · exact (allocateContiguous_ok hwf (by omega) hcall).2
    | error e => rw [(allocateContiguous_error hcall).1]; exact hwf
  | allocateAt n location =>
    obtain ⟨⟨r', w''⟩, hcall, heq⟩ := Option.map_eq_some_iff.mp h
    cases heq
    cases r' with
    | ok base =>
      by_cases hn : n = 0
      · subst hn
        simp [allocateAt] at hcall
        rw [← hcall.2]
        exact hwf
      · exact (allocateAt_ok hwf (by omega) hcall).2
    | error e => rw [allocateAt_error hcall]; exact hwf
  | deallocateContiguous base n =>
    obtain ⟨w'', hcall, heq⟩ := Option.map_eq_some_iff.mp h
    cases heq
    exact (deallocateContiguous_eq_some hwf hcall).2
  | push region =>
    cases h
    rw [push_eq]
    exact wf_pushFrames hwf _

/-- `Wf` holds of every reachable allocator. -/
theorem reachable_wf {w : Wrapped} (h : Reachable w) : w.inner.Wf :=
  Transition.Reachable.induction (P := fun w : Wrapped => w.inner.Wf)
    (fun _ ⟨_, hnew⟩ => new_wf' hnew)
    (fun _ _ hwf ⟨_, _, hstep⟩ => step_wf hwf hstep) h

end Wrapped
end BitmapAllocator
end Popcorn
