import Popcorn.BitmapAllocator.Basic

/-!
# `bitmap_allocator`: frames as bits

`get_frame` reads frame `first_frame + p` off bit `p % 8` of word `p / 8`. This file names
that bit, `bitAt bitmap p`, proves `get_frame` and `set_frame` against it, and gives the
invariant the allocation paths need, `Wf`: bits `8..63` of every word are clear. Every
later proof about the allocator goes through `getFrame_eq` and `getFrame_of_setFrame(s)`
and never unfolds `get_frame` or `set_frame` again.
-/

namespace Popcorn
namespace BitmapAllocator

/-! ## The bit of a position -/

/-- Bit `p` of the bitmap: set when frame `first_frame + p` is free. -/
def bitAt (bitmap : List Word) (p : Nat) : Bool :=
  (bitmap.getD (p / sizeOfUsize) 0).getLsbD (p % sizeOfUsize)

/-- The state `get_frame` reports for a bit. -/
def FrameState.ofBit : Bool → FrameState
  | true => .free
  | false => .allocated

@[simp] theorem FrameState.ofBit_eq_free (b : Bool) : FrameState.ofBit b = .free ↔ b = true := by
  cases b <;> simp [FrameState.ofBit]

@[simp] theorem FrameState.ofBit_eq_allocated (b : Bool) :
    FrameState.ofBit b = .allocated ↔ b = false := by
  cases b <;> simp [FrameState.ofBit]

/-- The frames the bitmap tracks, `first_frame..last_frame`. -/
def Tracks (a : BitmapAllocator) (f : Frame) : Prop :=
  a.firstFrame.number ≤ f.number ∧ f.number < a.firstFrame.number + a.bitmap.length * sizeOfUsize

instance (a : BitmapAllocator) (f : Frame) : Decidable (a.Tracks f) :=
  inferInstanceAs (Decidable (_ ∧ _))

/-- Tracking depends only on `first_frame` and the number of words. -/
theorem tracks_with_bitmap (a : BitmapAllocator) {bitmap : List Word}
    (h : bitmap.length = a.bitmap.length) (g : Frame) :
    ({ a with bitmap } : BitmapAllocator).Tracks g ↔ a.Tracks g := by
  simp only [Tracks, h]

theorem out_of_range_iff (a : BitmapAllocator) (f : Frame) :
    (f < a.firstFrame ∨ f ≥ a.lastFrame) ↔ ¬ a.Tracks f := by
  simp only [Tracks, lastFrame, Frame.lt_iff, ge_iff_le, Frame.le_iff, Frame.number_add]
  omega

theorem not_out_of_range {a : BitmapAllocator} {f : Frame} (h : a.Tracks f) :
    ¬ (f < a.firstFrame ∨ f ≥ a.lastFrame) :=
  (out_of_range_iff a f).not.mpr (not_not.mpr h)

theorem out_of_range {a : BitmapAllocator} {f : Frame} (h : ¬ a.Tracks f) :
    f < a.firstFrame ∨ f ≥ a.lastFrame :=
  (out_of_range_iff a f).mpr h

theorem mod_sizeOfUsize_lt (p : Nat) : p % sizeOfUsize < 64 := by
  have : p % sizeOfUsize < sizeOfUsize := Nat.mod_lt _ (by decide)
  simp only [sizeOfUsize] at this ⊢
  omega

/-- `get_frame` is the bit of the frame's position, on the frames the bitmap tracks. -/
theorem getFrame_eq (a : BitmapAllocator) (f : Frame) :
    a.getFrame f = if a.Tracks f then .ok (.ofBit (bitAt a.bitmap (f.number - a.firstFrame.number)))
      else .error ⟨⟩ := by
  unfold getFrame
  by_cases htr : a.Tracks f
  · rw [if_neg (not_out_of_range htr), if_pos htr]
    -- the word test `entry & (1 << bit) == 0` reads the bit
    simp only [frameToIndices, Frame.sub_eq, bitAt,
      Word.and_shiftLeft_one_eq_zero_iff _ (mod_sizeOfUsize_lt _)]
    cases (a.bitmap.getD ((f.number - a.firstFrame.number) / sizeOfUsize) 0).getLsbD
        ((f.number - a.firstFrame.number) % sizeOfUsize) <;> rfl
  · rw [if_pos (out_of_range htr), if_neg htr]

theorem getFrame_eq_free_iff (a : BitmapAllocator) (f : Frame) :
    a.getFrame f = .ok .free ↔ a.Tracks f ∧ bitAt a.bitmap (f.number - a.firstFrame.number) = true := by
  rw [getFrame_eq]
  split <;> simp_all [Except.ok.injEq]

theorem getFrame_eq_allocated_iff (a : BitmapAllocator) (f : Frame) :
    a.getFrame f = .ok .allocated ↔
      a.Tracks f ∧ bitAt a.bitmap (f.number - a.firstFrame.number) = false := by
  rw [getFrame_eq]
  split <;> simp_all [Except.ok.injEq]

/-- Changing one word changes only the bits of that word. -/
theorem bitAt_modify (bitmap : List Word) (i : Nat) (g : Word → Word) (p : Nat) :
    bitAt (bitmap.modify i g) p =
      if p / sizeOfUsize = i ∧ i < bitmap.length then
        (g (bitmap.getD i 0)).getLsbD (p % sizeOfUsize)
      else bitAt bitmap p := by
  unfold bitAt
  simp only [List.getD_eq_getElem?_getD, List.getElem?_modify]
  by_cases hi : p / sizeOfUsize = i
  · subst hi
    by_cases hlen : p / sizeOfUsize < bitmap.length
    · simp [hlen]
    · simp [hlen]
  · have hne : i ≠ p / sizeOfUsize := fun h => hi h.symm
    simp [hi, hne]

/-! ## The invariant -/

/-- Bits `8..63` of every word are clear: `frame_to_indices` never addresses them, and
`allocate_one` relies on their being clear, since it takes the lowest set bit of a word
for a frame of that word. -/
structure Wf (a : BitmapAllocator) : Prop where
  high_clear : ∀ w ∈ a.bitmap, ∀ j, sizeOfUsize ≤ j → w.getLsbD j = false

/-- A word change that clears only bits, or sets one below `8`, keeps `Wf`. -/
theorem Wf.modify {a : BitmapAllocator} (h : a.Wf) (i : Nat) (g : Word → Word)
    (hg : ∀ w ∈ a.bitmap, (∀ j, sizeOfUsize ≤ j → w.getLsbD j = false) →
      ∀ j, sizeOfUsize ≤ j → (g w).getLsbD j = false) :
    Wf { a with bitmap := a.bitmap.modify i g } := by
  constructor
  intro w hw j hj
  obtain ⟨k, hk, rfl⟩ := List.getElem_of_mem hw
  simp only [List.getElem_modify]
  have hk' : k < a.bitmap.length := by simpa using hk
  split
  · exact hg _ (List.getElem_mem hk') (h.high_clear _ (List.getElem_mem hk')) j hj
  · exact h.high_clear _ (List.getElem_mem hk') j hj

/-- The allocator `new` returns: every word clear. -/
theorem new_wf (firstFrame : Frame) (frameCount : Nat) : (new firstFrame frameCount).Wf := by
  constructor
  intro w hw j _
  rw [new, List.mem_replicate] at hw
  rw [hw.2]
  simp

/-! ## `set_frame` -/

theorem setFrame_eq_error_iff (a : BitmapAllocator) (f : Frame) (st : FrameState) :
    (∃ e, a.setFrame f st = .error e) ↔ ¬ a.Tracks f := by
  unfold setFrame
  by_cases htr : a.Tracks f
  · rw [if_neg (not_out_of_range htr)]
    cases st <;> simp [htr]
  · rw [if_pos (out_of_range htr)]
    exact ⟨fun _ => htr, fun _ => ⟨⟨⟩, rfl⟩⟩

theorem setFrame_eq_ok_of_tracks {a : BitmapAllocator} {f : Frame} (st : FrameState)
    (h : a.Tracks f) : ∃ a', a.setFrame f st = .ok a' := by
  cases hset : a.setFrame f st with
  | error e => exact absurd h ((setFrame_eq_error_iff a f st).mp ⟨e, hset⟩)
  | ok a' => exact ⟨a', rfl⟩

/-- The word update `set_frame` makes for a state at a bit. -/
def writeBit (st : FrameState) (bit : Nat) (w : Word) : Word :=
  match st with
  | .allocated => w &&& ~~~(1#64 <<< bit)
  | .free => w ||| 1#64 <<< bit

theorem getLsbD_writeBit (st : FrameState) {bit : Nat} (hbit : bit < 64) (w : Word) (j : Nat) :
    (writeBit st bit w).getLsbD j = if j = bit then decide (st = .free) else w.getLsbD j := by
  cases st
  · simp only [writeBit, Word.getLsbD_and_not_shiftLeft_one _ hbit]
    by_cases hj : j = bit <;> simp [hj]
  · simp only [writeBit, Word.getLsbD_or_shiftLeft_one _ hbit]
    by_cases hj : j = bit <;> simp [hj]

/-- What `set_frame` writes: the frame's bit, in the word of its position. -/
theorem setFrame_eq_ok {a a' : BitmapAllocator} {f : Frame} {st : FrameState}
    (h : a.setFrame f st = .ok a') :
    a.Tracks f ∧
      a' = { a with bitmap := a.bitmap.modify ((f.number - a.firstFrame.number) / sizeOfUsize)
                                (writeBit st ((f.number - a.firstFrame.number) % sizeOfUsize)) } := by
  unfold setFrame at h
  by_cases htr : a.Tracks f
  · rw [if_neg (not_out_of_range htr)] at h
    refine ⟨htr, ?_⟩
    cases st <;> (cases h; rfl)
  · rw [if_pos (out_of_range htr)] at h
    cases h

/-- Bit `p` after `set_frame`: the frame's own bit is the new state, every other bit is
unchanged. -/
theorem bitAt_setFrame {a a' : BitmapAllocator} {f : Frame} {st : FrameState}
    (h : a.setFrame f st = .ok a') (p : Nat) :
    bitAt a'.bitmap p =
      if p = f.number - a.firstFrame.number then decide (st = .free) else bitAt a.bitmap p := by
  obtain ⟨htr, rfl⟩ := setFrame_eq_ok h
  obtain ⟨hlo, hhi⟩ := htr
  set q := f.number - a.firstFrame.number with hq
  have hqlen : q / sizeOfUsize < a.bitmap.length := by
    simp only [sizeOfUsize] at hhi ⊢
    omega
  rw [bitAt_modify, getLsbD_writeBit st (mod_sizeOfUsize_lt q)]
  by_cases hpq : p = q
  · subst hpq
    simp [hqlen]
  · rw [if_neg hpq]
    by_cases hw : p / sizeOfUsize = q / sizeOfUsize
    · -- same word, another bit: the bit index differs
      have hb : p % sizeOfUsize ≠ q % sizeOfUsize := by
        intro hb
        apply hpq
        rw [← Nat.div_add_mod p sizeOfUsize, ← Nat.div_add_mod q sizeOfUsize, hw, hb]
      rw [if_pos ⟨hw, hqlen⟩, if_neg hb, bitAt, hw]
    · rw [if_neg (fun h => hw h.1)]

theorem setFrame_firstFrame {a a' : BitmapAllocator} {f : Frame} {st : FrameState}
    (h : a.setFrame f st = .ok a') : a'.firstFrame = a.firstFrame := by
  obtain ⟨-, rfl⟩ := setFrame_eq_ok h
  rfl

theorem setFrame_length {a a' : BitmapAllocator} {f : Frame} {st : FrameState}
    (h : a.setFrame f st = .ok a') : a'.bitmap.length = a.bitmap.length := by
  obtain ⟨-, rfl⟩ := setFrame_eq_ok h
  simp

theorem setFrame_tracks {a a' : BitmapAllocator} {f : Frame} {st : FrameState}
    (h : a.setFrame f st = .ok a') (g : Frame) : a'.Tracks g ↔ a.Tracks g := by
  simp only [Tracks, setFrame_firstFrame h, setFrame_length h]

/-- `get_frame` after `set_frame`. -/
theorem getFrame_of_setFrame {a a' : BitmapAllocator} {f : Frame} {st : FrameState}
    (h : a.setFrame f st = .ok a') (g : Frame) :
    a'.getFrame g = if g = f then .ok st else a.getFrame g := by
  have htr : a.Tracks f := (setFrame_eq_ok h).1
  rw [getFrame_eq, getFrame_eq]
  simp only [setFrame_tracks h, setFrame_firstFrame h, bitAt_setFrame h]
  by_cases hg : g = f
  · subst hg
    cases st <;> simp [htr, FrameState.ofBit]
  · have hne : g.number - a.firstFrame.number ≠ f.number - a.firstFrame.number ∨ ¬ a.Tracks g := by
      by_cases hgt : a.Tracks g
      · left
        intro heq
        apply hg
        rw [Frame.eq_iff]
        unfold Tracks at htr hgt
        omega
      · exact Or.inr hgt
    rw [if_neg hg]
    rcases hne with hne | hne
    · rw [if_neg hne]
    · simp [hne]

theorem Wf.setFrame {a a' : BitmapAllocator} {f : Frame} {st : FrameState} (hwf : a.Wf)
    (h : a.setFrame f st = .ok a') : a'.Wf := by
  obtain ⟨-, rfl⟩ := setFrame_eq_ok h
  apply hwf.modify
  intro w _ hhigh j hj
  have hlt : (f.number - a.firstFrame.number) % sizeOfUsize < sizeOfUsize :=
    Nat.mod_lt _ (by decide)
  rw [getLsbD_writeBit st (mod_sizeOfUsize_lt _), if_neg (by omega)]
  exact hhigh j hj

/-! ## `set_frame` over a list of frames -/

theorem setFrames_nil (a : BitmapAllocator) (st : FrameState) : a.setFrames [] st = .ok a := rfl

theorem setFrames_cons (a : BitmapAllocator) (f : Frame) (fs : List Frame) (st : FrameState) :
    a.setFrames (f :: fs) st = (a.setFrame f st >>= fun a' => a'.setFrames fs st) := by
  simp [setFrames, List.foldlM_cons]

/-- Everything `set_frame` keeps, `setFrames` keeps. -/
theorem setFrames_induction {P : BitmapAllocator → Prop} {st : FrameState}
    (hstep : ∀ a a' f, P a → a.setFrame f st = .ok a' → P a') :
    ∀ {fs : List Frame} {a a' : BitmapAllocator}, a.setFrames fs st = .ok a' → P a → P a' := by
  intro fs
  induction fs with
  | nil =>
    intro a a' h ha
    cases h
    exact ha
  | cons f fs ih =>
    intro a a' h ha
    rw [setFrames_cons] at h
    cases hset : a.setFrame f st with
    | error e => simp [hset] at h; cases h
    | ok a₁ =>
      rw [hset] at h
      exact ih h (hstep a a₁ f ha hset)

theorem setFrames_firstFrame {a a' : BitmapAllocator} {fs : List Frame} {st : FrameState}
    (h : a.setFrames fs st = .ok a') : a'.firstFrame = a.firstFrame :=
  setFrames_induction (P := fun b => b.firstFrame = a.firstFrame)
    (fun _ _ _ hb hset => (setFrame_firstFrame hset).trans hb) h rfl

theorem setFrames_length {a a' : BitmapAllocator} {fs : List Frame} {st : FrameState}
    (h : a.setFrames fs st = .ok a') : a'.bitmap.length = a.bitmap.length :=
  setFrames_induction (P := fun b => b.bitmap.length = a.bitmap.length)
    (fun _ _ _ hb hset => (setFrame_length hset).trans hb) h rfl

theorem setFrames_tracks {a a' : BitmapAllocator} {fs : List Frame} {st : FrameState}
    (h : a.setFrames fs st = .ok a') (g : Frame) : a'.Tracks g ↔ a.Tracks g := by
  simp only [Tracks, setFrames_firstFrame h, setFrames_length h]

theorem Wf.setFrames {a a' : BitmapAllocator} {fs : List Frame} {st : FrameState} (hwf : a.Wf)
    (h : a.setFrames fs st = .ok a') : a'.Wf :=
  setFrames_induction (fun _ _ _ hb hset => hb.setFrame hset) h hwf

/-- `get_frame` after `set_frame` over a list: the listed frames have the new state. -/
theorem getFrame_of_setFrames {st : FrameState} :
    ∀ {fs : List Frame} {a a' : BitmapAllocator}, a.setFrames fs st = .ok a' →
      ∀ g, a'.getFrame g = if g ∈ fs then .ok st else a.getFrame g := by
  intro fs
  induction fs with
  | nil =>
    intro a a' h g
    cases h
    simp
  | cons f fs ih =>
    intro a a' h g
    rw [setFrames_cons] at h
    cases hset : a.setFrame f st with
    | error e => simp [hset] at h; cases h
    | ok a₁ =>
      rw [hset] at h
      rw [ih h g, getFrame_of_setFrame hset g]
      by_cases hgf : g = f
      · simp [hgf]
      · simp [hgf]

/-- `setFrames` succeeds when the bitmap tracks every listed frame. -/
theorem setFrames_eq_ok_of_tracks (st : FrameState) :
    ∀ {fs : List Frame} {a : BitmapAllocator}, (∀ f ∈ fs, a.Tracks f) →
      ∃ a', a.setFrames fs st = .ok a' := by
  intro fs
  induction fs with
  | nil => exact fun {a} _ => ⟨a, rfl⟩
  | cons f fs ih =>
    intro a htr
    obtain ⟨a₁, hset⟩ := setFrame_eq_ok_of_tracks st (htr f (by simp))
    have htr₁ : ∀ g ∈ fs, a₁.Tracks g := fun g hg =>
      (setFrame_tracks hset g).mpr (htr g (by simp [hg]))
    obtain ⟨a', h'⟩ := ih htr₁
    exact ⟨a', by rw [setFrames_cons, hset]; exact h'⟩

/-- `setFrames` fails only on a frame the bitmap does not track. -/
theorem setFrames_eq_error {st : FrameState} :
    ∀ {fs : List Frame} {a : BitmapAllocator} {e : OutOfRangeError},
      a.setFrames fs st = .error e → ∃ f ∈ fs, ¬ a.Tracks f := by
  intro fs a e h
  by_contra hall
  push Not at hall
  obtain ⟨a', h'⟩ := setFrames_eq_ok_of_tracks st hall
  rw [h] at h'
  cases h'

end BitmapAllocator
end Popcorn
