import Popcorn.WatermarkAllocator.Basic

/-!
# What the watermark allocator hands out

Over a run of `allocate_contiguous` calls on `Inner` built from pairwise-disjoint free
regions, the frames handed out are tracked against `Available`, the frames the allocator
may still hand out: the rest of its current region below `prev_frame`, and the regions its
iterator has left. The invariant `Inv` says that `Available` lies inside the free regions,
in one region for the current one, and shares nothing with what was handed out. Every
successful call keeps it (`inv_step_ok`), and so does a call that fails before the loop;
hence over a run of successful calls every answer is a run of frames inside one free region
and fresh (`allocations_fresh`).

A call that fails inside the loop is the exception: it has already entered new regions, and
keeps the new `last_in_current_region` while `prev_frame` stays in the old region, so that
`Available` stretches over whatever lies between the two.
-/

namespace Popcorn
namespace WatermarkAllocator
namespace Inner

/-! ## The loop -/

/-- The loop succeeds either at once, with the candidate it started from, or in a region of
the iterator, on the top `pageCount` frames of it. -/
theorem allocateLoop_ok {c : Nat} {t last last' f : Frame} {regions regions' : List (Range Frame)}
    (h : allocateLoop c t last regions = (.ok f, last', regions')) :
    (f = t ∧ last' = last ∧ regions' = regions ∧ last ≤ t) ∨
    (∃ pre R, regions = pre ++ R :: regions' ∧ last' = R.start ∧ R.start ≤ f ∧
      f.number + c = R.stop.number) := by
  induction regions generalizing t last with
  | nil =>
    simp only [allocateLoop] at h
    split at h
    · cases h
      exact Or.inl ⟨rfl, rfl, rfl, by assumption⟩
    · cases h
  | cons R rest ih =>
    simp only [allocateLoop] at h
    split at h
    · cases h
      exact Or.inl ⟨rfl, rfl, rfl, by assumption⟩
    · split at h
      · cases h
      · rename_i t' ht'
        rcases ih h with ⟨rfl, rfl, rfl, hle⟩ | ⟨pre, R', rfl, rfl, hle, hstop⟩
        · -- the first region entered is the one allocated from
          obtain ⟨hc, ht'⟩ := Frame.checkedSub_eq_some.mp ht'
          exact Or.inr ⟨[], R, rfl, rfl, hle, by omega⟩
        · exact Or.inr ⟨R :: pre, R', rfl, rfl, hle, hstop⟩

/-- Every successful step, in one of its two shapes: below `prev_frame` in the current
region, or at the top of a region the iterator yields after skipping `pre`. -/
theorem step_ok_cases {s s' : Inner} {c : ℕ+} {f : Frame}
    (h : s.step c = some (.ok f, s')) :
    (s.lastInCurrentRegion ≤ f ∧ f.number + c = s.prevFrame.number ∧
      s' = { s with prevFrame := f }) ∨
    (∃ pre R rest, s.freeRegions = pre ++ R :: rest ∧ R.start ≤ f ∧
      f.number + c = R.stop.number ∧
      s' = { s with freeRegions := rest, lastInCurrentRegion := R.start, prevFrame := f }) := by
  simp only [step, allocateContiguous, ne_eq, not_true_eq_false, if_false] at h
  split at h
  · cases h
  · rename_i t ht
    obtain ⟨hc, ht⟩ := Frame.checkedSub_eq_some.mp ht
    split at h
    · rename_i frame last regions hloop
      simp only [Option.some.injEq, Prod.mk.injEq, Except.ok.injEq] at h
      obtain ⟨rfl, rfl⟩ := h
      rcases allocateLoop_ok hloop with ⟨rfl, rfl, rfl, hle⟩ | ⟨pre, R, hregions, rfl, hle, hstop⟩
      · exact Or.inl ⟨hle, by omega, rfl⟩
      · exact Or.inr ⟨pre, R, regions, hregions, hle, hstop, rfl⟩
    · simp at h

/-! ## The invariant -/

/-- The frames `count` frames from `frame` on, as an answer `Ok(frame)` hands them out. -/
def handedRange (frame : Frame) (count : ℕ+) : Range Frame :=
  ⟨frame, frame + (count : Nat)⟩

/-- The frames the successful answers of a history of calls handed out. -/
def Handed (hist : List (ℕ+ × Except AllocError Frame)) (g : Frame) : Prop :=
  ∃ c f, (c, .ok f) ∈ hist ∧ (handedRange f c).contains g

/-- The part of the current region left to hand out: `last_in_current_region..prev_frame`. -/
def current (s : Inner) : Range Frame :=
  ⟨s.lastInCurrentRegion, s.prevFrame⟩

/-- The frames `s` may still hand out. -/
def Available (s : Inner) (g : Frame) : Prop :=
  s.current.contains g ∨ ∃ r ∈ s.freeRegions, r.contains g

@[simp] theorem handed_nil (g : Frame) : ¬ Handed [] g := by
  simp [Handed]

theorem handed_append_ok {hist : List (ℕ+ × Except AllocError Frame)} {c : ℕ+} {f g : Frame} :
    Handed (hist ++ [(c, .ok f)]) g ↔ Handed hist g ∨ (handedRange f c).contains g := by
  simp only [Handed, List.mem_append, List.mem_singleton, Prod.mk.injEq, Except.ok.injEq]
  constructor
  · rintro ⟨c', f', hmem | ⟨rfl, rfl⟩, hg⟩
    · exact Or.inl ⟨c', f', hmem, hg⟩
    · exact Or.inr hg
  · rintro (⟨c', f', hmem, hg⟩ | hg)
    · exact ⟨c', f', Or.inl hmem, hg⟩
    · exact ⟨c, f, Or.inr ⟨rfl, rfl⟩, hg⟩

/-- What a successful call keeps fresh: what is available after it was available before,
and the frames it hands out are not available after it. -/
theorem fresh_append_ok {hist : List (ℕ+ × Except AllocError Frame)} {s s' : Inner} {c : ℕ+}
    {f : Frame} (hfresh : ∀ g, Handed hist g → ¬ Available s g)
    (hsub : ∀ g, Available s' g → Available s g)
    (hnew : ∀ g, (handedRange f c).contains g → ¬ Available s' g) :
    ∀ g, Handed (hist ++ [(c, .ok f)]) g → ¬ Available s' g := by
  intro g hg havail
  rcases handed_append_ok.mp hg with hold | hhanded
  · exact hfresh g hold (hsub g havail)
  · exact hnew g hhanded havail

/-- The invariant of a run of `Inner` on the free regions `regions`, after the calls of
`hist`. -/
structure Inv (regions : List (Range Frame)) (hist : List (ℕ+ × Except AllocError Frame))
    (s : Inner) : Prop where
  /-- What is left of the current region lies in one free region. -/
  current_sub : ∃ r ∈ regions, ∀ g, s.current.contains g → r.contains g
  /-- The iterator yields free regions, -/
  left_sub : ∀ r ∈ s.freeRegions, r ∈ regions
  /-- pairwise disjoint, -/
  left_pairwise : s.freeRegions.Pairwise Range.Disjoint
  /-- and disjoint from the current region. -/
  left_disjoint : ∀ r ∈ s.freeRegions, s.current.Disjoint r
  /-- Nothing handed out is available again. -/
  fresh : ∀ g, Handed hist g → ¬ Available s g

variable {regions : List (Range Frame)} {hist : List (ℕ+ × Except AllocError Frame)}
  {s s' : Inner} {c : ℕ+} {f : Frame}

/-- `new` starts the invariant, with the last region as the current one. -/
theorem inv_new (hdisjoint : regions.Pairwise Range.Disjoint) (h : new regions = some s) :
    Inv regions [] s := by
  unfold new at h
  split at h
  · cases h
  · rename_i top hlast
    cases h
    have hsplit : regions = regions.dropLast ++ [top] :=
      (List.dropLast_append_getLast? top hlast).symm
    have hpair := hdisjoint
    rw [hsplit, List.pairwise_append] at hpair
    refine ⟨⟨top, List.mem_of_getLast? hlast, fun g hg => hg⟩,
      fun r hr => (List.dropLast_sublist regions).subset hr, hpair.1,
      fun r hr => (hpair.2.2 r hr top (by simp)).symm, fun g hg => (handed_nil g hg).elim⟩

/-- A successful call hands out a run inside one free region, none of it handed out before,
and keeps the invariant. -/
theorem inv_step_ok (hinv : Inv regions hist s) (h : s.step c = some (.ok f, s')) :
    (∃ r ∈ regions, ∀ g, (handedRange f c).contains g → r.contains g) ∧
    (∀ g, (handedRange f c).contains g → ¬ Handed hist g) ∧
    Inv regions (hist ++ [(c, .ok f)]) s' := by
  rcases step_ok_cases h with ⟨hle, hprev, rfl⟩ | ⟨pre, R, rest, hsplit, hle, hstop, rfl⟩
  · -- below `prev_frame` in the current region: the run is the top of `current`
    have hin : ∀ g, (handedRange f c).contains g → s.current.contains g := by
      intro g hg
      simp only [handedRange, current, Range.contains_frame_iff, Frame.number_add,
        Frame.le_iff] at hg hle ⊢
      omega
    obtain ⟨r, hr, hsub⟩ := hinv.current_sub
    refine ⟨⟨r, hr, fun g hg => hsub g (hin g hg)⟩,
      fun g hg hhanded => hinv.fresh g hhanded (Or.inl (hin g hg)), ?_⟩
    -- the new current region is the old one cut at `f`
    have hshrink : ∀ g, (current { s with prevFrame := f }).contains g → s.current.contains g := by
      intro g hg
      simp only [current, Range.contains_frame_iff] at hg ⊢
      omega
    refine ⟨⟨r, hr, fun g hg => hsub g (hshrink g hg)⟩, hinv.left_sub, hinv.left_pairwise,
      fun r' hr' g hg => hinv.left_disjoint r' hr' g (hshrink g hg),
      fresh_append_ok hinv.fresh (fun g => Or.imp (hshrink g) id) fun g hnew havail => ?_⟩
    rcases havail with hcur | ⟨r', hr', hg'⟩
    · simp only [handedRange, current, Range.contains_frame_iff, Frame.number_add] at hnew hcur
      omega
    · exact hinv.left_disjoint r' hr' g (hin g hnew) hg'
  · -- at the top of the region `R` the iterator yields
    have hR : R ∈ s.freeRegions := by simp [hsplit]
    have hin : ∀ g, (handedRange f c).contains g → R.contains g := by
      intro g hg
      simp only [handedRange, Range.contains_frame_iff, Frame.number_add,
        Frame.le_iff] at hg hle ⊢
      omega
    -- the new current region is `R.start..f`
    have hcurR : ∀ g, (⟨R.start, f⟩ : Range Frame).contains g → R.contains g := by
      intro g hg
      simp only [Range.contains_frame_iff, Frame.le_iff] at hg hle ⊢
      omega
    have hrest : ∀ r ∈ rest, r ∈ s.freeRegions := by
      intro r hr
      simp [hsplit, hr]
    have hpair := hinv.left_pairwise
    rw [hsplit, List.pairwise_append, List.pairwise_cons] at hpair
    obtain ⟨-, ⟨hRrest, hrestpair⟩, -⟩ := hpair
    refine ⟨⟨R, hinv.left_sub R hR, hin⟩,
      fun g hg hhanded => hinv.fresh g hhanded (Or.inr ⟨R, hR, hin g hg⟩), ?_⟩
    -- what is available afterwards lies in `R` or in the regions after it
    refine ⟨⟨R, hinv.left_sub R hR, hcurR⟩, fun r hr => hinv.left_sub r (hrest r hr), hrestpair,
      fun r hr g hg => hRrest r hr g (hcurR g hg),
      fresh_append_ok hinv.fresh ?_ fun g hnew havail => ?_⟩
    · rintro g (hcur | ⟨r, hr, hgr⟩)
      · exact Or.inr ⟨R, hR, hcurR g hcur⟩
      · exact Or.inr ⟨r, hrest r hr, hgr⟩
    · rcases havail with hcur | ⟨r, hr, hgr⟩
      · simp only [handedRange, current, Range.contains_frame_iff, Frame.number_add] at hnew hcur
        omega
      · exact hRrest r hr g (hin g hnew) hgr

/-- Over any run from `new` on pairwise-disjoint free regions in which every call succeeds,
the next successful call hands out a run of frames inside one free region that shares no
frame with any run handed out before. -/
theorem allocations_fresh {s₀ : Inner} {cs : List ℕ+} {rs : List (Except AllocError Frame)}
    (hdisjoint : regions.Pairwise Range.Disjoint) (hnew : new regions = some s₀)
    (hrun : Transition.exec step s₀ cs = some (rs, s)) (hok : ∀ r ∈ rs, r.isOk)
    (h : s.step c = some (.ok f, s')) :
    (∃ r ∈ regions, ∀ g, (handedRange f c).contains g → r.contains g) ∧
    (∀ g, (handedRange f c).contains g → ¬ Handed (cs.zip rs) g) := by
  have hinv : Inv regions ([] ++ cs.zip rs) s :=
    Transition.exec_history_induction (P := Inv regions)
      (fun hist s c r s' hgood hinv hstep => by
        cases r with
        | ok f => exact (inv_step_ok hinv hstep).2.2
        | error e => simp [Except.isOk, Except.toBool] at hgood)
      hrun hok (inv_new hdisjoint hnew)
  rw [List.nil_append] at hinv
  exact ⟨(inv_step_ok hinv h).1, (inv_step_ok hinv h).2.1⟩

/-- A call that fails inside the loop breaks `allocations_fresh`. On the free regions `0..1`
and `10..12` (frame numbers), asking for five frames enters `0..1`, fails there and keeps
`last_in_current_region = 0` with `prev_frame = 12`; asking for three then hands out
`9..12`, and frame `9` lies in no free region. -/
theorem allocate_after_failure_outside_regions :
    ([⟨⟨0⟩, ⟨1⟩⟩, ⟨⟨10⟩, ⟨12⟩⟩] : List (Range Frame)).Pairwise Range.Disjoint ∧
    new [⟨⟨0⟩, ⟨1⟩⟩, ⟨⟨10⟩, ⟨12⟩⟩] = some ⟨[⟨⟨0⟩, ⟨1⟩⟩], ⟨10⟩, ⟨12⟩, ⟨12⟩⟩ ∧
    Transition.exec step ⟨[⟨⟨0⟩, ⟨1⟩⟩], ⟨10⟩, ⟨12⟩, ⟨12⟩⟩ [5, 3] =
      some ([.error ⟨⟩, .ok ⟨9⟩], ⟨[], ⟨0⟩, ⟨9⟩, ⟨12⟩⟩) ∧
    ∀ r ∈ ([⟨⟨0⟩, ⟨1⟩⟩, ⟨⟨10⟩, ⟨12⟩⟩] : List (Range Frame)), ¬ r.contains ⟨9⟩ := by
  refine ⟨?_, by decide, by decide, by decide⟩
  simp only [List.pairwise_cons, List.mem_singleton, forall_eq, List.not_mem_nil,
    IsEmpty.forall_iff, implies_true, List.Pairwise.nil, and_true]
  intro g hg
  simp only [Range.contains_frame_iff] at hg ⊢
  omega

end Inner
end WatermarkAllocator
end Popcorn
