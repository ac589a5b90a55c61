import Popcorn.BitmapAllocator.Bits

/-!
# `bitmap_allocator`: the three allocation paths

`allocate_one`, `allocate_multiple_fast` and `allocate_multiple_slow` each either fail and
leave the allocator as it was, or hand out a run of frames that were all free, mark exactly
those allocated, and keep `Wf`. That is `AllocatesRun`; this file proves it of each path,
and proves of each failure what it says about the bitmap:

* `allocate_one` fails only when no frame is free;
* `allocate_multiple_fast` may fail with free runs left (it never looks across a word, and
  stops its slide one bit short of the word's top), which is why `Wrapped` falls back on
  the slow path;
* `allocate_multiple_slow` fails only when the bitmap has no run of the requested length.

The first two claim a window of bits in one word, and share `getFrame_claimWindow`. The slow
path's loop is proved by the invariant `ScanInv`, over the positions scanned so far.
-/

namespace Popcorn
namespace BitmapAllocator

/-- An allocation of `n` frames at `base` taking `a` to `a'`: the frames were all free, they
are now allocated, and every other frame reads as before. -/
def AllocatesRun (a a' : BitmapAllocator) (base : Frame) (n : Nat) : Prop :=
  (∀ k < n, a.getFrame (base + k) = .ok .free) ∧
    ∀ g, a'.getFrame g = if base ≤ g ∧ g < base + n then .ok .allocated else a.getFrame g

/-- A run of `n` free frames somewhere in the bitmap. -/
def HasFreeRun (a : BitmapAllocator) (n : Nat) : Prop :=
  ∃ base : Frame, ∀ k < n, a.getFrame (base + k) = .ok .free

/-! ## The word loop -/

theorem getD_mem {ws : List Word} {k : Nat} (hk : k < ws.length) : ws.getD k 0 ∈ ws := by
  rw [List.getD_eq_getElem _ _ hk]
  exact List.getElem_mem hk

/-- What `claimFirst` returns: the first word with a pick, claimed. -/
theorem claimFirst_eq_some {pick : Word → Option Nat} {claim : Word → Nat → Word} :
    ∀ {ws : List Word} {i j bit : Nat} {ws' : List Word},
      claimFirst pick claim i ws = some (j, bit, ws') →
      ∃ k, j = i + k ∧ k < ws.length ∧ pick (ws.getD k 0) = some bit ∧
        (∀ l < k, pick (ws.getD l 0) = none) ∧ ws' = ws.modify k (fun e => claim e bit) := by
  intro ws
  induction ws with
  | nil => intro i j bit ws' h; cases h
  | cons entry rest ih =>
    intro i j bit ws' h
    unfold claimFirst at h
    split at h
    · rename_i b hpick
      cases h
      refine ⟨0, rfl, by simp, by simpa using hpick, fun l hl => absurd hl (by omega), ?_⟩
      rw [List.modify_zero_cons]
    · rename_i hpick
      obtain ⟨⟨j', b', rest'⟩, hrest, heq⟩ := Option.map_eq_some_iff.mp h
      cases heq
      obtain ⟨k, rfl, hk, hpk, hfirst, rfl⟩ := ih hrest
      refine ⟨k + 1, by omega, by simp [hk], by simpa using hpk, ?_, ?_⟩
      · intro l hl
        cases l with
        | zero => simpa using hpick
        | succ l => simpa using hfirst l (by omega)
      · rw [List.modify_succ_cons]

/-- `claimFirst` finds nothing only when no word has a pick. -/
theorem claimFirst_eq_none {pick : Word → Option Nat} {claim : Word → Nat → Word} :
    ∀ {ws : List Word} {i : Nat}, claimFirst pick claim i ws = none → ∀ w ∈ ws, pick w = none := by
  intro ws
  induction ws with
  | nil => intro i _ w hw; cases hw
  | cons entry rest ih =>
    intro i h w hw
    unfold claimFirst at h
    split at h
    · cases h
    · rename_i hpick
      rcases List.mem_cons.mp hw with rfl | hw
      · exact hpick
      · exact ih (Option.map_eq_none_iff.mp h) w hw

/-! ## Claiming a window of one word -/

/-- The position `i * 64 + bit` is bit `bit` of word `i`. -/
theorem word_div_mod {i bit : Nat} (hbit : bit < sizeOfUsize) :
    (i * sizeOfUsize + bit) / sizeOfUsize = i ∧ (i * sizeOfUsize + bit) % sizeOfUsize = bit := by
  simp only [sizeOfUsize] at hbit ⊢
  omega

/-- The position of bit `bit` of word `i`. -/
theorem bitAt_word {bitmap : List Word} {i bit : Nat} (hbit : bit < sizeOfUsize) :
    bitAt bitmap (i * sizeOfUsize + bit) = (bitmap.getD i 0).getLsbD bit := by
  obtain ⟨hdiv, hmod⟩ := word_div_mod (i := i) hbit
  rw [bitAt, hdiv, hmod]

/-- Claiming bits `slide .. slide + n` of word `i` allocates the frames of those bits and no
other. -/
theorem getFrame_claimWindow (a : BitmapAllocator) {i slide n : Nat}
    (hi : i < a.bitmap.length) (hwin : slide + n ≤ sizeOfUsize) (g : Frame) :
    ({ a with bitmap := a.bitmap.modify i (· &&& ~~~(Word.lowMask 64 n <<< slide)) } :
        BitmapAllocator).getFrame g =
      if a.firstFrame + i * sizeOfUsize + slide ≤ g ∧ g < a.firstFrame + i * sizeOfUsize + slide + n
      then .ok .allocated else a.getFrame g := by
  have hn : n ≤ 64 := by simp only [sizeOfUsize] at hwin; omega
  have htr' := tracks_with_bitmap a (List.length_modify
    (· &&& ~~~(Word.lowMask 64 n <<< slide)) a.bitmap i) g
  rw [getFrame_eq, getFrame_eq]
  by_cases htr : a.Tracks g
  · rw [if_pos (htr'.mpr htr), if_pos htr]
    dsimp only
    rw [bitAt_modify]
    unfold Tracks at htr
    by_cases hwin' : a.firstFrame + i * sizeOfUsize + slide ≤ g ∧
        g < a.firstFrame + i * sizeOfUsize + slide + n
    · -- a frame of the window: its bit is cleared
      rw [if_pos hwin']
      simp only [Frame.le_iff, Frame.lt_iff, Frame.number_add] at hwin'
      have hpos : g.number - a.firstFrame.number =
          i * sizeOfUsize + (g.number - a.firstFrame.number - i * sizeOfUsize) := by omega
      have hbit : g.number - a.firstFrame.number - i * sizeOfUsize < sizeOfUsize := by omega
      obtain ⟨hdiv, hmod⟩ := word_div_mod (i := i) hbit
      rw [← hpos] at hdiv hmod
      have hin : slide ≤ g.number - a.firstFrame.number - i * sizeOfUsize ∧
          g.number - a.firstFrame.number - i * sizeOfUsize < slide + n := by omega
      rw [if_pos ⟨hdiv, hi⟩, hmod, Word.getLsbD_and_not_lowMask_shiftLeft _ _ hn]
      simp [hin, FrameState.ofBit]
    · rw [if_neg hwin']
      simp only [Frame.le_iff, Frame.lt_iff, Frame.number_add] at hwin'
      by_cases hw : (g.number - a.firstFrame.number) / sizeOfUsize = i
      · -- the claimed word, outside the window: the bit is unchanged
        rw [if_pos ⟨hw, hi⟩, Word.getLsbD_and_not_lowMask_shiftLeft _ _ hn]
        have hdm := Nat.div_add_mod (g.number - a.firstFrame.number) sizeOfUsize
        rw [hw] at hdm
        have hout : ¬ (slide ≤ (g.number - a.firstFrame.number) % sizeOfUsize ∧
            (g.number - a.firstFrame.number) % sizeOfUsize < slide + n) := by
          intro h
          apply hwin'
          simp only [sizeOfUsize] at hdm h htr ⊢
          omega
        simp only [hout, decide_false, Bool.not_false, Bool.and_true]
        rw [bitAt, hw]
      · rw [if_neg (fun h => hw h.1)]
  · rw [if_neg (mt htr'.mp htr), if_neg htr, if_neg]
    -- the window lies in the tracked frames
    intro hwin'
    apply htr
    simp only [Frame.le_iff, Frame.lt_iff, Frame.number_add] at hwin'
    have hlen : (i + 1) * sizeOfUsize ≤ a.bitmap.length * sizeOfUsize :=
      Nat.mul_le_mul_right _ (by omega)
    unfold Tracks
    constructor <;> nlinarith

/-- The frames of a window were free when its bits were all set. -/
theorem getFrame_window_free (a : BitmapAllocator) {i slide n : Nat} (hi : i < a.bitmap.length)
    (hwin : slide + n ≤ sizeOfUsize) (hset : ∀ j < n, (a.bitmap.getD i 0).getLsbD (slide + j) = true)
    (k : Nat) (hk : k < n) :
    a.getFrame (a.firstFrame + i * sizeOfUsize + slide + k) = .ok .free := by
  rw [getFrame_eq_free_iff]
  have hlen : (i + 1) * sizeOfUsize ≤ a.bitmap.length * sizeOfUsize :=
    Nat.mul_le_mul_right _ (by omega)
  constructor
  · unfold Tracks
    simp only [Frame.number_add]
    constructor <;> nlinarith
  have hpos : (a.firstFrame + i * sizeOfUsize + slide + k).number - a.firstFrame.number =
      i * sizeOfUsize + (slide + k) := by
    simp
    omega
  rw [hpos, bitAt_word (by omega)]
  exact hset k hk

/-- Clearing bits keeps `Wf`. -/
theorem Wf.clearWindow {a : BitmapAllocator} (hwf : a.Wf) (i : Nat) (m : Word) :
    Wf { a with bitmap := a.bitmap.modify i (· &&& ~~~m) } := by
  apply hwf.modify
  intro w _ hhigh j hj
  simp [hhigh j hj]

/-- A claimed window is an `AllocatesRun`. -/
theorem allocatesRun_claimWindow (a : BitmapAllocator) {i slide n : Nat}
    (hi : i < a.bitmap.length) (hwin : slide + n ≤ sizeOfUsize)
    (hset : ∀ j < n, (a.bitmap.getD i 0).getLsbD (slide + j) = true) :
    AllocatesRun a { a with bitmap := a.bitmap.modify i (· &&& ~~~(Word.lowMask 64 n <<< slide)) }
      (a.firstFrame + i * sizeOfUsize + slide) n :=
  ⟨getFrame_window_free a hi hwin hset, getFrame_claimWindow a hi hwin⟩

/-! ## `allocate_one` -/

theorem lowMask_one : Word.lowMask 64 1 = 1#64 := by decide

/-- Under `Wf`, what `allocate_one` picks in a word is a set bit among the low eight. -/
theorem pickOne_eq_some {e : Word} {bit : Nat} (hhigh : ∀ j, sizeOfUsize ≤ j → e.getLsbD j = false)
    (h : pickOne e = some bit) : bit < sizeOfUsize ∧ e.getLsbD bit = true := by
  unfold pickOne at h
  dsimp only at h
  split at h
  · rename_i hne
    cases h
    have hnz : e ≠ 0#64 := fun h0 => hne ((Word.ctz_toNat_eq_iff e).mpr h0)
    have hset := BitVec.getLsbD_true_ctz_of_ne_zero hnz
    refine ⟨?_, hset⟩
    by_contra hge
    rw [hhigh _ (by omega)] at hset
    cases hset
  · cases h

theorem pickOne_eq_none {e : Word} (h : pickOne e = none) : e = 0#64 := by
  unfold pickOne at h
  dsimp only at h
  split at h
  · cases h
  · rename_i heq
    exact (Word.ctz_toNat_eq_iff e).mp (by simpa [sizeOfUsize] using heq)

/-- `allocate_one` hands out one free frame. -/
theorem allocateOne_ok {a a' : BitmapAllocator} {f : Frame} (hwf : a.Wf)
    (h : a.allocateOne = (.ok f, a')) : AllocatesRun a a' f 1 ∧ a'.Wf := by
  unfold allocateOne at h
  split at h
  · rename_i i bit bitmap hclaim
    obtain ⟨k, rfl, hk, hpick, -, rfl⟩ := claimFirst_eq_some hclaim
    cases h
    have hhigh := hwf.high_clear _ (getD_mem hk)
    obtain ⟨hbit, hset⟩ := pickOne_eq_some hhigh hpick
    have hmask : (fun e => e &&& ~~~(1#64 <<< bit)) =
        (· &&& ~~~(Word.lowMask 64 1 <<< bit)) := by rw [lowMask_one]
    rw [Nat.zero_add, hmask]
    refine ⟨allocatesRun_claimWindow a hk (by omega) ?_, hwf.clearWindow _ _⟩
    intro j hj
    rw [show bit + j = bit by omega]
    exact hset
  · cases h

/-- `allocate_one` fails only when no frame is free, and then changes nothing. -/
theorem allocateOne_error {a a' : BitmapAllocator} {e : AllocError}
    (h : a.allocateOne = (.error e, a')) : a' = a ∧ ∀ g, a.getFrame g ≠ .ok .free := by
  unfold allocateOne at h
  split at h
  · cases h
  · rename_i hnone
    cases h
    refine ⟨rfl, fun g hg => ?_⟩
    obtain ⟨htr, hbit⟩ := (getFrame_eq_free_iff a g).mp hg
    have hlen : (g.number - a.firstFrame.number) / sizeOfUsize < a.bitmap.length := by
      unfold Tracks at htr
      simp only [sizeOfUsize] at htr ⊢
      omega
    have hzero := pickOne_eq_none (claimFirst_eq_none hnone _ (getD_mem hlen))
    rw [bitAt, hzero] at hbit
    simp at hbit

/-! ## `allocate_multiple_fast` -/

/-- For `frame_count ≤ 8` the mask is the `frame_count` low bits. -/
theorem fastMask_eq {fc : Nat} (h1 : 1 < fc) (h8 : fc ≤ sizeOfUsize) :
    fastMask fc = Word.lowMask 64 fc := by
  unfold fastMask
  simp only [sizeOfUsize] at h8
  exact Word.two_shiftLeft_sub_one_eq_lowMask (by omega) (by omega)

/-- What the fast path picks in a word: a slide whose window of `frame_count` bits is all
set and ends below bit 7 of the word. -/
theorem pickFast_eq_some {fc : Nat} {e : Word} {slide : Nat} (hfc : fc ≤ sizeOfUsize)
    (h : pickFast fc (Word.lowMask 64 fc) e = some slide) :
    slide + fc < sizeOfUsize ∧ ∀ j < fc, e.getLsbD (slide + j) = true := by
  unfold pickFast at h
  dsimp only at h
  obtain ⟨htest, hmem, -⟩ := List.find?_range'_eq_some.mp h
  obtain ⟨k, hk, rfl⟩ := List.mem_range'.mp hmem
  refine ⟨by omega, ?_⟩
  have hfc64 : fc ≤ 64 := by simp only [sizeOfUsize] at hfc; omega
  exact (Word.ushiftRight_and_lowMask_eq_iff e _ hfc64).mp (by simpa using htest)

/-- The fast path asserts `frame_count > 1`, and panics only there. -/
theorem allocateMultipleFast_eq_none_iff (a : BitmapAllocator) (fc : Nat) :
    a.allocateMultipleFast fc = none ↔ ¬ fc > 1 := by
  unfold allocateMultipleFast
  by_cases h1 : fc > 1
  · rw [if_neg (not_not.mpr h1)]
    split
    · simp [h1]
    · dsimp only
      split <;> simp [h1]
  · simp [h1]

/-- The fast path hands out a free run. -/
theorem allocateMultipleFast_ok {a a' : BitmapAllocator} {fc : Nat} {f : Frame} (hwf : a.Wf)
    (h : a.allocateMultipleFast fc = some (.ok f, a')) : AllocatesRun a a' f fc ∧ a'.Wf := by
  unfold allocateMultipleFast at h
  split at h
  · cases h
  · rename_i h1
    split at h
    · cases h
    · rename_i h8
      have h1' : 1 < fc := by omega
      have h8' : fc ≤ sizeOfUsize := by omega
      dsimp only at h
      rw [fastMask_eq h1' h8'] at h
      split at h
      · rename_i i slide bitmap hclaim
        obtain ⟨k, rfl, hk, hpick, -, rfl⟩ := claimFirst_eq_some hclaim
        cases h
        obtain ⟨hwin, hset⟩ := pickFast_eq_some h8' hpick
        rw [Nat.zero_add]
        exact ⟨allocatesRun_claimWindow a hk (by omega) hset, hwf.clearWindow _ _⟩
      · cases h

/-- A failed fast path changes nothing. -/
theorem allocateMultipleFast_error {a a' : BitmapAllocator} {fc : Nat} {e : AllocError}
    (h : a.allocateMultipleFast fc = some (.error e, a')) : a' = a := by
  unfold allocateMultipleFast at h
  split at h
  · cases h
  · split at h
    · cases h
      rfl
    · dsimp only at h
      split at h
      · cases h
      · cases h
        rfl

/-! ## `allocate_multiple_slow` -/

/-- The number of set bits just below position `p`: the length of the run of free frames
the slow path's counter has seen when it reaches `p`. -/
def runLen (bitmap : List Word) : Nat → Nat
  | 0 => 0
  | p + 1 => if bitAt bitmap p then runLen bitmap p + 1 else 0

/-- The bits a run length counts are all set. -/
theorem bitAt_of_lt_runLen (bitmap : List Word) :
    ∀ (p k : Nat), k < runLen bitmap p → bitAt bitmap (p - 1 - k) = true := by
  intro p
  induction p with
  | zero => intro k hk; simp [runLen] at hk
  | succ p ih =>
    intro k hk
    unfold runLen at hk
    split at hk
    · rename_i hb
      cases k with
      | zero => simpa using hb
      | succ k =>
        have := ih k (by omega)
        rwa [show p + 1 - 1 - (k + 1) = p - 1 - k by omega]
    · simp at hk

/-- A run of `n` set bits from `p` is counted in full at `p + n`. -/
theorem le_runLen_of_run (bitmap : List Word) (p : Nat) :
    ∀ n, (∀ k < n, bitAt bitmap (p + k) = true) → n ≤ runLen bitmap (p + n) := by
  intro n
  induction n with
  | zero => intro _; exact Nat.zero_le _
  | succ n ih =>
    intro hrun
    have hlast : bitAt bitmap (p + n) = true := hrun n (by omega)
    have hprev := ih (fun k hk => hrun k (by omega))
    rw [show p + (n + 1) = (p + n) + 1 by omega, runLen, if_pos hlast]
    omega

theorem runLen_le (bitmap : List Word) : ∀ p, runLen bitmap p ≤ p := by
  intro p
  induction p with
  | zero => simp [runLen]
  | succ p ih =>
    unfold runLen
    split <;> omega

/-- The `(word, bit)` pair of a position. -/
def splitPos (p : Nat) : Nat × Nat := (p / sizeOfUsize, p % sizeOfUsize)

/-- The invariant of the slow path's loops once the first `P` positions are scanned. Before
`found` the counter is the run length at `P`, no run seen so far reached `frame_count`, and
the recorded start is where the current run began; after it, the recorded start begins a
run of `frame_count` set bits below `P`. -/
def ScanInv (fc : Nat) (bitmap : List Word) (P : Nat) (s : SlowScan) : Prop :=
  (s.found = false →
    s.foundContiguousFrames = runLen bitmap P ∧ (∀ P' ≤ P, runLen bitmap P' < fc) ∧
      s.contiguousFramesStart =
        if runLen bitmap P = 0 then none else some (splitPos (P - runLen bitmap P))) ∧
  (s.found = true →
    ∃ p, s.contiguousFramesStart = some (splitPos p) ∧ p + fc ≤ P ∧
      ∀ k < fc, bitAt bitmap (p + k) = true)

theorem scanInv_zero {fc : Nat} (hfc : 1 < fc) (bitmap : List Word) :
    ScanInv fc bitmap 0 ⟨0, none, false⟩ := by
  unfold ScanInv
  constructor
  · intro _
    refine ⟨rfl, fun P' hP' => ?_, rfl⟩
    rw [Nat.le_zero.mp hP', runLen]
    omega
  · intro h
    exact absurd h (by decide)

/-- One iteration of the inner loop keeps `ScanInv`, one position further on. -/
theorem scanInv_slowStep {fc : Nat} (hfc : 1 < fc) {bitmap : List Word} {P : Nat} {s : SlowScan}
    (hinv : ScanInv fc bitmap P s) :
    ScanInv fc bitmap (P + 1)
      (slowStep fc (P / sizeOfUsize) (bitmap.getD (P / sizeOfUsize) 0) s (P % sizeOfUsize)) := by
  unfold slowStep
  by_cases hf : s.found = true
  · -- the loops are over: nothing changes
    rw [if_pos hf]
    obtain ⟨p, hstart, hp, hrun⟩ := hinv.2 hf
    refine ⟨fun h => ?_, fun _ => ⟨p, hstart, by omega, hrun⟩⟩
    rw [hf] at h
    cases h
  · have hf' : s.found = false := by simpa using hf
    rw [if_neg hf]
    obtain ⟨hcount, hall, hstart⟩ := hinv.1 hf'
    have htest := Word.ushiftRight_and_one_eq_one_iff (bitmap.getD (P / sizeOfUsize) 0)
      (by decide) (P % sizeOfUsize)
    by_cases hb : bitAt bitmap P = true
    · -- a free frame: the run grows by one
      rw [if_pos (htest.mpr hb)]
      have hlen : runLen bitmap (P + 1) = runLen bitmap P + 1 := by rw [runLen, if_pos hb]
      have hlt := hall P le_rfl
      have hstart' : (if s.foundContiguousFrames = 0 then some (P / sizeOfUsize, P % sizeOfUsize)
          else s.contiguousFramesStart) = some (splitPos (P - runLen bitmap P)) := by
        rw [hcount]
        split
        · rename_i h0
          rw [h0, Nat.sub_zero]
          rfl
        · rename_i h0
          rw [hstart, if_neg h0]
      by_cases hdone : s.foundContiguousFrames + 1 = fc
      · refine ⟨fun h => by simp [hdone] at h, fun _ => ⟨P - runLen bitmap P, hstart', ?_, ?_⟩⟩
        · have := runLen_le bitmap P
          omega
        · intro k hk
          have hpos := bitAt_of_lt_runLen bitmap (P + 1) (fc - 1 - k) (by omega)
          rwa [show P + 1 - 1 - (fc - 1 - k) = P - runLen bitmap P + k by
            have := runLen_le bitmap P
            omega] at hpos
      · refine ⟨fun _ => ⟨by rw [hlen, hcount], ?_, ?_⟩, fun h => by simp [hdone] at h⟩
        · intro P' hP'
          rcases Nat.lt_or_eq_of_le hP' with hP' | rfl
          · exact hall P' (by omega)
          · omega
        · rw [hstart', if_neg (by omega), hlen, show P + 1 - (runLen bitmap P + 1) =
            P - runLen bitmap P by omega]
    · -- an allocated frame: the run is broken
      have hb' : bitAt bitmap P = false := by simpa using hb
      rw [if_neg (fun h => hb (htest.mp h))]
      have hlen : runLen bitmap (P + 1) = 0 := by rw [runLen, if_neg hb]
      refine ⟨fun _ => ⟨hlen.symm, ?_, by rw [hlen, if_pos rfl]⟩, fun h => by cases h⟩
      intro P' hP'
      rcases Nat.lt_or_eq_of_le hP' with hP' | rfl
      · exact hall P' (by omega)
      · omega

/-- The inner loop over the bits of word `i` keeps `ScanInv`, eight positions further on. -/
theorem scanInv_slowWord {fc : Nat} (hfc : 1 < fc) {bitmap : List Word} {i : Nat} {s : SlowScan}
    (hinv : ScanInv fc bitmap (i * sizeOfUsize) s) :
    ScanInv fc bitmap (i * sizeOfUsize + sizeOfUsize) (slowWord fc s (bitmap.getD i 0, i)) := by
  unfold slowWord
  dsimp only
  -- induction on the bits done so far
  have hbits : ∀ m ≤ sizeOfUsize, ScanInv fc bitmap (i * sizeOfUsize + m)
      ((List.range m).foldl (slowStep fc i (bitmap.getD i 0)) s) := by
    intro m
    induction m with
    | zero => intro _; simpa using hinv
    | succ m ih =>
      intro hm
      rw [List.range_succ, List.foldl_append, List.foldl_cons, List.foldl_nil]
      obtain ⟨hdiv, hmod⟩ := word_div_mod (i := i) (show m < sizeOfUsize by omega)
      have := scanInv_slowStep hfc (ih (by omega))
      rw [hdiv, hmod] at this
      rwa [← Nat.add_assoc]
  exact hbits sizeOfUsize le_rfl

/-- The outer loop, from word `i` on. -/
theorem scanInv_fold {fc : Nat} (hfc : 1 < fc) (bitmap : List Word) :
    ∀ (ws : List Word) (i : Nat) (s : SlowScan), bitmap.drop i = ws → i ≤ bitmap.length →
      ScanInv fc bitmap (i * sizeOfUsize) s →
      ScanInv fc bitmap (bitmap.length * sizeOfUsize) ((ws.zipIdx i).foldl (slowWord fc) s) := by
  intro ws
  induction ws with
  | nil =>
    intro i s hdrop hi hinv
    have : i = bitmap.length := by
      have := List.drop_eq_nil_iff.mp hdrop
      omega
    subst this
    exact hinv
  | cons e ws ih =>
    intro i s hdrop hi hinv
    have hlt : i < bitmap.length := by
      by_contra hge
      rw [List.drop_eq_nil_of_le (by omega)] at hdrop
      cases hdrop
    rw [List.drop_eq_getElem_cons hlt] at hdrop
    obtain ⟨he, hrest⟩ := List.cons.inj hdrop
    have hget : bitmap.getD i 0 = e := by rw [List.getD_eq_getElem _ _ hlt, he]
    rw [List.zipIdx_cons, List.foldl_cons]
    have hword := scanInv_slowWord hfc hinv
    rw [hget] at hword
    exact ih (i + 1) _ hrest (by omega) (by rwa [Nat.succ_mul])

/-- `ScanInv` holds when both loops are done. -/
theorem scanInv_slowScan {fc : Nat} (hfc : 1 < fc) (bitmap : List Word) :
    ScanInv fc bitmap (bitmap.length * sizeOfUsize) (slowScan fc bitmap) :=
  scanInv_fold hfc bitmap bitmap 0 _ (List.drop_zero) (Nat.zero_le _)
    (by simpa using scanInv_zero hfc bitmap)

/-- A free run seen by `get_frame` is a run of set bits of the bitmap. -/
theorem run_of_hasFreeRun {a : BitmapAllocator} {n : Nat} (hn : 0 < n) (h : a.HasFreeRun n) :
    ∃ p, p + n ≤ a.bitmap.length * sizeOfUsize ∧ ∀ k < n, bitAt a.bitmap (p + k) = true := by
  obtain ⟨base, hfree⟩ := h
  have hfirst := (getFrame_eq_free_iff a (base + 0)).mp (hfree 0 hn)
  have hlast := (getFrame_eq_free_iff a (base + (n - 1))).mp (hfree (n - 1) (by omega))
  unfold Tracks at hfirst hlast
  simp only [Frame.number_add] at hfirst hlast
  refine ⟨base.number - a.firstFrame.number, by omega, fun k hk => ?_⟩
  have hk' := ((getFrame_eq_free_iff a (base + k)).mp (hfree k hk))
  simp only [Frame.number_add] at hk'
  rw [show base.number - a.firstFrame.number + k = base.number + k - a.firstFrame.number by
    omega]
  exact hk'.2

/-- The slow path hands out a free run. -/
theorem allocateMultipleSlow_ok {a a' : BitmapAllocator} {fc : Nat} {f : Frame} (hwf : a.Wf)
    (h : a.allocateMultipleSlow fc = some (.ok f, a')) : AllocatesRun a a' f fc ∧ a'.Wf := by
  unfold allocateMultipleSlow at h
  split at h
  · cases h
  · rename_i hfc
    have hfc' : 1 < fc := by omega
    dsimp only at h
    split at h
    · cases h
    · rename_i hfound
      have hfound' : (slowScan fc a.bitmap).found = true := by simpa using hfound
      obtain ⟨p, hstart, hp, hrun⟩ := (scanInv_slowScan hfc' a.bitmap).2 hfound'
      rw [hstart] at h
      dsimp only [splitPos] at h
      -- the start frame is the frame of position `p`
      have hframe : a.firstFrame + p / sizeOfUsize * sizeOfUsize + p % sizeOfUsize =
          a.firstFrame + p := by
        rw [Frame.eq_iff]
        simp only [Frame.number_add]
        have := Nat.div_add_mod p sizeOfUsize
        rw [Nat.mul_comm] at this
        omega
      rw [hframe] at h
      split at h
      · rename_i a₁ hset
        cases h
        have hfree : ∀ k < fc, a.getFrame (a.firstFrame + p + k) = .ok .free := by
          intro k hk
          rw [getFrame_eq_free_iff]
          constructor
          · unfold Tracks
            simp only [Frame.number_add]
            omega
          · simpa [Nat.add_assoc] using hrun k hk
        refine ⟨⟨hfree, fun g => ?_⟩, hwf.setFrames hset⟩
        rw [getFrame_of_setFrames hset g]
        by_cases hg : a.firstFrame + p ≤ g ∧ g < a.firstFrame + p + fc
        · rw [if_pos (Range.mem_frames.mpr hg), if_pos hg]
        · rw [if_neg (fun h => hg (Range.mem_frames.mp h)), if_neg hg]
      · cases h

/-- The slow path fails only when the bitmap has no free run of the length, and then
changes nothing. -/
theorem allocateMultipleSlow_error {a a' : BitmapAllocator} {fc : Nat} {e : AllocError}
    (h : a.allocateMultipleSlow fc = some (.error e, a')) : a' = a ∧ ¬ a.HasFreeRun fc := by
  unfold allocateMultipleSlow at h
  split at h
  · cases h
  · rename_i hfc
    have hfc' : 1 < fc := by omega
    dsimp only at h
    split at h
    · rename_i hnot
      cases h
      refine ⟨rfl, fun hrun => ?_⟩
      have hnot' : (slowScan fc a.bitmap).found = false := by simpa using hnot
      obtain ⟨-, hall, -⟩ := (scanInv_slowScan hfc' a.bitmap).1 hnot'
      obtain ⟨p, hp, hbits⟩ := run_of_hasFreeRun (by omega) hrun
      have hcount := le_runLen_of_run a.bitmap p fc hbits
      have := hall (p + fc) hp
      omega
    · split at h
      · cases h
      · split at h <;> cases h

end BitmapAllocator
end Popcorn
