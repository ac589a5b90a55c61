import Popcorn.BitmapAllocator.Paths

/-!
# `bitmap_allocator`: what the fast path finds

`allocate_multiple_fast` slides a window of `frame_count` bits along each word, over the
slides `first_set_bit .. size_of::<usize>() - frame_count`. The bound is exclusive, so the
last window of a word, which ends at its top bit, is never tried. What the fast path does
find is every window that ends below the top bit: it succeeds as soon as some word holds one,
at that window or before it (`allocateMultipleFast_of_window`), and every run it hands out
ends below the top bit of its word (`allocateMultipleFast_ok_below_top`). A request for
`size_of::<usize>()` frames has no such window and always fails
(`allocateMultipleFast_full_word_fails`); a word whose only free run is at its top is missed
(`allocateMultipleFast_misses_top_window`).
-/

namespace Popcorn
namespace BitmapAllocator

/-- A window of `n` set bits at `slide` in a word, ending below the word's top bit. -/
def FastWindow (n : Nat) (e : Word) (slide : Nat) : Prop :=
  slide + n < sizeOfUsize ∧ ∀ j < n, e.getLsbD (slide + j) = true

/-- The fast path finds a window that ends below the top bit, or one before it. -/
theorem pickFast_of_window {fc : Nat} {e : Word} {slide : Nat} (hfc0 : 0 < fc)
    (hfc : fc ≤ sizeOfUsize) (hw : FastWindow fc e slide) :
    ∃ s, pickFast fc (Word.lowMask 64 fc) e = some s ∧ s ≤ slide := by
  have hfc64 : fc ≤ 64 := by simp only [sizeOfUsize] at hfc; omega
  have htest : ∀ s, FastWindow fc e s → ((e >>> s) &&& Word.lowMask 64 fc == Word.lowMask 64 fc) = true := by
    intro s hs
    simpa using (Word.ushiftRight_and_lowMask_eq_iff e s hfc64).mpr hs.2
  -- the bit at `slide` is set, so the scan starts at or below it
  have hctz : e.ctz.toNat ≤ slide := by
    by_contra hlt
    have hbit := hw.2 0 hfc0
    rw [Nat.add_zero, BitVec.getLsbD_false_of_lt_ctz (by omega)] at hbit
    cases hbit
  have hmem : slide ∈ List.range' e.ctz.toNat (sizeOfUsize - fc - e.ctz.toNat) := by
    rw [List.mem_range']
    refine ⟨slide - e.ctz.toNat, ?_, by omega⟩
    have := hw.1
    omega
  have hsome : (pickFast fc (Word.lowMask 64 fc) e).isSome := by
    unfold pickFast
    exact List.find?_isSome.mpr ⟨slide, hmem, htest slide hw⟩
  obtain ⟨s, hs⟩ := Option.isSome_iff_exists.mp hsome
  refine ⟨s, hs, ?_⟩
  unfold pickFast at hs
  dsimp only at hs
  obtain ⟨-, -, hbefore⟩ := List.find?_range'_eq_some.mp hs
  by_contra hlt
  have hnot := hbefore slide hctz (by omega)
  rw [htest slide hw] at hnot
  cases hnot

/-- The fast path succeeds whenever a word holds a window of `frame_count` free frames that
ends below its top bit, and hands out that window or one before it. -/
theorem allocateMultipleFast_of_window (a : BitmapAllocator) {fc : Nat} (h1 : 1 < fc)
    (h8 : fc ≤ sizeOfUsize) {i slide : Nat} (hi : i < a.bitmap.length)
    (hw : FastWindow fc (a.bitmap.getD i 0) slide) :
    ∃ f a', a.allocateMultipleFast fc = some (.ok f, a') ∧
      f ≤ a.firstFrame + i * sizeOfUsize + slide := by
  obtain ⟨s, hs, -⟩ := pickFast_of_window (by omega) h8 hw
  have hfound : claimFirst (pickFast fc (Word.lowMask 64 fc))
      (fun entry slide => entry &&& ~~~(Word.lowMask 64 fc <<< slide)) 0 a.bitmap ≠ none := by
    intro hnone
    rw [claimFirst_eq_none hnone _ (getD_mem hi)] at hs
    cases hs
  obtain ⟨⟨j, s', bitmap⟩, hclaim⟩ := Option.ne_none_iff_exists'.mp hfound
  obtain ⟨k, rfl, -, hpick, hfirst, -⟩ := claimFirst_eq_some hclaim
  -- the word claimed is word `i` or one before it
  have hki : k ≤ i := by
    by_contra hlt
    rw [hfirst i (by omega)] at hs
    cases hs
  have hs' : s' + fc < sizeOfUsize := (pickFast_eq_some h8 hpick).1
  refine ⟨a.firstFrame + (0 + k) * sizeOfUsize + s', { a with bitmap }, ?_, ?_⟩
  · unfold allocateMultipleFast
    rw [if_neg (by omega), if_neg (by omega)]
    dsimp only
    rw [fastMask_eq h1 h8, hclaim]
  · simp only [Frame.le_iff, Frame.number_add, Nat.zero_add]
    rcases Nat.lt_or_eq_of_le hki with hlt | rfl
    · have : k * sizeOfUsize + sizeOfUsize ≤ i * sizeOfUsize := by
        rw [← Nat.succ_mul]
        exact Nat.mul_le_mul_right _ (by omega)
      omega
    · obtain ⟨s'', hs'', hle⟩ := pickFast_of_window (by omega) h8 hw
      rw [hpick] at hs''
      cases hs''
      omega

/-- Every run the fast path hands out ends below the top bit of its word. -/
theorem allocateMultipleFast_ok_below_top {a a' : BitmapAllocator} {fc : Nat} {f : Frame}
    (h : a.allocateMultipleFast fc = some (.ok f, a')) :
    ∃ i slide, f = a.firstFrame + i * sizeOfUsize + slide ∧ slide + fc < sizeOfUsize := by
  unfold allocateMultipleFast at h
  split at h
  · cases h
  · split at h
    · cases h
    · rename_i h1 h8
      dsimp only at h
      rw [fastMask_eq (by omega) (by omega)] at h
      split at h
      · rename_i i slide bitmap hclaim
        obtain ⟨k, rfl, -, hpick, -, -⟩ := claimFirst_eq_some hclaim
        cases h
        exact ⟨0 + k, slide, rfl, (pickFast_eq_some (by omega) hpick).1⟩
      · cases h

/-- A request for a whole word of frames never succeeds on the fast path. -/
theorem allocateMultipleFast_full_word_fails (a : BitmapAllocator) :
    a.allocateMultipleFast sizeOfUsize = some (.error ⟨⟩, a) := by
  cases h : a.allocateMultipleFast sizeOfUsize with
  | none => exact absurd ((allocateMultipleFast_eq_none_iff a _).mp h) (by decide)
  | some r =>
    obtain ⟨res, a'⟩ := r
    cases res with
    | ok f =>
      obtain ⟨i, slide, -, hlt⟩ := allocateMultipleFast_ok_below_top h
      omega
    | error e => rw [allocateMultipleFast_error h]

/-- One word whose frames 6 and 7, its top two, are free. -/
def topPairFree : BitmapAllocator := ⟨⟨0⟩, [0xc0#64]⟩

set_option maxRecDepth 20000 in
/-- On `topPairFree`, a request for two frames fails on the fast path although frames 6 and 7
of the word are free. -/
theorem allocateMultipleFast_misses_top_window :
    topPairFree.getFrame ⟨6⟩ = .ok .free ∧ topPairFree.getFrame ⟨7⟩ = .ok .free ∧
      topPairFree.allocateMultipleFast 2 = some (.error ⟨⟩, topPairFree) := by
  decide

end BitmapAllocator
end Popcorn
