import Popcorn.BitmapAllocator.Wrapped

/-!
# `bitmap_allocator`: frames are handed out once

Over any run of calls on an allocator `new` built, every successful allocation of `n > 0`
frames hands out a run that was free, allocates exactly it, and `allocate_contiguous` fails
only when no free run of the requested length is left. The consequence over whole runs is
`hands_out_once`: between two allocations that hand out the same frame there is a
deallocation of it. Its invariant is the frame's reading `Allocated`, kept by every call
that does not free it (`step_keeps_allocated`), alongside `Wf`.
-/

namespace Popcorn
namespace BitmapAllocator
namespace Wrapped

/-- An allocation call answered `base` hands out frame `f`. -/
def Call.Hands : Call → Frame → Frame → Prop
  | .allocateContiguous n, base, f => 0 < n ∧ base ≤ f ∧ f < base + n
  | .allocateAt n _, base, f => 0 < n ∧ base ≤ f ∧ f < base + n
  | _, _, _ => False

/-- A call frees frame `f`. -/
def Call.Frees : Call → Frame → Prop
  | .deallocateContiguous base n, f => base ≤ f ∧ f < base + n
  | _, _ => False

/-- An allocation of at least one frame, read at one frame inside the run. -/
theorem allocatesRun_at {a a' : BitmapAllocator} {base f : Frame} {n : Nat}
    (h : AllocatesRun a a' base n) (hf : base ≤ f ∧ f < base + n) :
    a.getFrame f = .ok .free ∧ a'.getFrame f = .ok .allocated := by
  have hk : f = base + (f.number - base.number) := by
    rw [Frame.eq_iff, Frame.number_add]
    simp only [Frame.le_iff] at hf
    omega
  refine ⟨?_, by rw [h.2 f, if_pos hf]⟩
  rw [hk]
  apply h.1
  simp only [Frame.le_iff, Frame.lt_iff, Frame.number_add] at hf
  omega

/-- An allocation call that hands out `f` found it free and leaves it allocated. -/
theorem step_hands {w w' : Wrapped} {c : Call} {base f : Frame} (hwf : w.inner.Wf)
    (h : step w c = some (.allocation (.ok base), w')) (hf : c.Hands base f) :
    w.inner.getFrame f = .ok .free ∧ w'.inner.getFrame f = .ok .allocated := by
  cases c with
  | allocateContiguous n =>
    obtain ⟨hn, hrange⟩ := hf
    obtain ⟨⟨r, w''⟩, hcall, heq⟩ := Option.map_eq_some_iff.mp h
    cases heq
    exact allocatesRun_at (allocateContiguous_ok hwf hn hcall).1 hrange
  | allocateAt n location =>
    obtain ⟨hn, hrange⟩ := hf
    obtain ⟨⟨r, w''⟩, hcall, heq⟩ := Option.map_eq_some_iff.mp h
    cases heq
    exact allocatesRun_at (allocateAt_ok hwf hn hcall).1 hrange
  | deallocateContiguous base' n => exact hf.elim
  | push region => exact hf.elim

/-- Allocation calls only ever allocate: every frame reads allocated or as before. -/
theorem allocation_getFrame {w w' : Wrapped} {n : Nat} {r : Except AllocError Frame}
    (hwf : w.inner.Wf) (hcall : w.allocateContiguous n = some (r, w') ∨
      ∃ location, w.allocateAt n location = some (r, w')) (g : Frame) :
    w'.inner.getFrame g = .ok .allocated ∨ w'.inner.getFrame g = w.inner.getFrame g := by
  by_cases hn : n = 0
  · -- nothing to allocate: the allocator is returned as it is
    subst hn
    rcases hcall with hcall | ⟨location, hcall⟩
    · simp only [allocateContiguous, if_pos, Option.some.injEq, Prod.mk.injEq] at hcall
      rw [← hcall.2]
      exact Or.inr rfl
    · simp only [allocateAt, if_pos, Option.some.injEq, Prod.mk.injEq] at hcall
      rw [← hcall.2]
      exact Or.inr rfl
  · cases r with
    | ok base =>
      have hrun : AllocatesRun w.inner w'.inner base n := by
        rcases hcall with hcall | ⟨location, hcall⟩
        · exact (allocateContiguous_ok hwf (by omega) hcall).1
        · exact (allocateAt_ok hwf (by omega) hcall).1
      rw [hrun.2 g]
      split
      · exact Or.inl rfl
      · exact Or.inr rfl
    | error e =>
      right
      rcases hcall with hcall | ⟨location, hcall⟩
      · rw [(allocateContiguous_error hcall).1]
      · rw [allocateAt_error hcall]

/-- A frame that reads allocated stays allocated through any call that does not free it. -/
theorem step_keeps_allocated {w w' : Wrapped} {c : Call} {r : Answer} {f : Frame}
    (hwf : w.inner.Wf) (hfree : ¬ c.Frees f) (halloc : w.inner.getFrame f = .ok .allocated)
    (h : step w c = some (r, w')) : w'.inner.getFrame f = .ok .allocated := by
  cases c with
  | allocateContiguous n =>
    obtain ⟨⟨r', w''⟩, hcall, heq⟩ := Option.map_eq_some_iff.mp h
    cases heq
    rcases allocation_getFrame hwf (Or.inl hcall) f with h' | h'
    · exact h'
    · rw [h', halloc]
  | allocateAt n location =>
    obtain ⟨⟨r', w''⟩, hcall, heq⟩ := Option.map_eq_some_iff.mp h
    cases heq
    rcases allocation_getFrame hwf (Or.inr ⟨location, hcall⟩) f with h' | h'
    · exact h'
    · rw [h', halloc]
  | deallocateContiguous base n =>
    obtain ⟨w'', hcall, heq⟩ := Option.map_eq_some_iff.mp h
    cases heq
    have hout : ¬ (base ≤ f ∧ f < base + n) := hfree
    rw [(deallocateContiguous_eq_some hwf hcall).1 f, if_neg hout, halloc]
  | push region =>
    cases h
    rw [push_eq, getFrame_pushFrames]
    split
    · rfl
    · exact halloc

/-- Between two allocations that hand out the same frame, some call frees it. -/
theorem hands_out_once {w w₁ w₂ w₃ : Wrapped} {c₁ c₂ : Call} {base₁ base₂ f : Frame}
    {cs : List Call} {rs : List Answer} (hreach : Reachable w)
    (h₁ : step w c₁ = some (.allocation (.ok base₁), w₁)) (hf₁ : c₁.Hands base₁ f)
    (hrun : Transition.exec step w₁ cs = some (rs, w₂)) (hkeep : ∀ c ∈ cs, ¬ c.Frees f)
    (h₂ : step w₂ c₂ = some (.allocation (.ok base₂), w₃)) : ¬ c₂.Hands base₂ f := by
  intro hf₂
  have hwf := reachable_wf hreach
  -- after the first allocation `f` reads allocated, and every call of the run keeps it so
  have hstart : w₁.inner.Wf ∧ w₁.inner.getFrame f = .ok .allocated :=
    ⟨step_wf hwf h₁, (step_hands hwf h₁ hf₁).2⟩
  have hmid : w₂.inner.Wf ∧ w₂.inner.getFrame f = .ok .allocated :=
    Transition.exec_induction (P := fun w => w.inner.Wf ∧ w.inner.getFrame f = .ok .allocated)
      (fun c hc _ _ _ ⟨hwf', halloc⟩ hstep =>
        ⟨step_wf hwf' hstep, step_keeps_allocated hwf' (hkeep c hc) halloc hstep⟩) hrun hstart
  -- but the second allocation found it free
  have hfree := (step_hands hmid.1 h₂ hf₂).1
  rw [hmid.2] at hfree
  cases hfree

/-- The contract of the bitmap frame allocator over any run from any `Config`: every
successful allocation of `n > 0` frames hands out a run of free frames and allocates
exactly it, `allocate_contiguous` fails only when no free run of `n` frames is left, and a
frame handed out is not handed out again before a deallocation of it. -/
theorem wrapped_allocations_sound :
    (∀ (w w' : Wrapped) (n : Nat) (base : Frame), Reachable w → 0 < n →
        w.allocateContiguous n = some (.ok base, w') → AllocatesRun w.inner w'.inner base n) ∧
    (∀ (w w' : Wrapped) (n : Nat) (target base : Frame), Reachable w → 0 < n →
        w.allocateAt n (.atFrame target) = some (.ok base, w') →
        AllocatesRun w.inner w'.inner base n) ∧
    (∀ (w w' : Wrapped) (n : Nat) (e : AllocError), Reachable w →
        w.allocateContiguous n = some (.error e, w') → ¬ w.inner.HasFreeRun n) ∧
    (∀ (w w₁ w₂ w₃ : Wrapped) (c₁ c₂ : Call) (base₁ base₂ f : Frame) (cs : List Call)
        (rs : List Answer), Reachable w →
        step w c₁ = some (.allocation (.ok base₁), w₁) → c₁.Hands base₁ f →
        Transition.exec step w₁ cs = some (rs, w₂) → (∀ c ∈ cs, ¬ c.Frees f) →
        step w₂ c₂ = some (.allocation (.ok base₂), w₃) → ¬ c₂.Hands base₂ f) := by
  refine ⟨?_, ?_, ?_, ?_⟩
  · intro w w' n base hreach hn h
    exact (allocateContiguous_ok (reachable_wf hreach) hn h).1
  · intro w w' n target base hreach hn h
    exact (allocateAt_ok (reachable_wf hreach) hn h).1
  · intro w w' n e _ h
    exact (allocateContiguous_error h).2
  · intro w w₁ w₂ w₃ c₁ c₂ base₁ base₂ f cs rs hreach h₁ hf₁ hrun hkeep h₂
    exact hands_out_once hreach h₁ hf₁ hrun hkeep h₂

/-- The contract at a fresh allocator of eight free frames: its first allocation of two
frames hands out frames `0` and `1`. -/
theorem wrapped_allocations_sound_fresh :
    AllocatesRun ⟨⟨0⟩, [0xff#64]⟩ ⟨⟨0⟩, [0xfc#64]⟩ ⟨0⟩ 2 :=
  wrapped_allocations_sound.1 ⟨⟨⟨0⟩, [0xff#64]⟩⟩ ⟨⟨⟨0⟩, [0xfc#64]⟩⟩ 2 ⟨0⟩
    (Transition.Reachable.of_init ⟨⟨⟨⟨0⟩, ⟨8⟩⟩, [⟨⟨0⟩, ⟨8⟩⟩]⟩, by decide +kernel⟩) (by decide)
    (by decide +kernel)

end Wrapped
end BitmapAllocator
end Popcorn
