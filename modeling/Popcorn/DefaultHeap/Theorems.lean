import Popcorn.DefaultHeap.Heap
import Popcorn.Mapping.Theorems

/-!
# What the default heap hands out

`align_down_runtime` and `align_up_runtime` to a power of two round down and up to a multiple
of it (`alignDownRuntime_two_pow`, `alignUpRuntime_two_pow`, from `Word.and_not_lowBits_eq`). A call of `allocate` that
answers `Ok(p)` hands out `p .. p + size` aligned, at or past the watermark, and ends inside
the mapping it leaves, whose base it keeps (`allocate_eq_ok`); one that answers `Err` leaves
the heap as it was (`allocate_eq_error`). So the watermark stays inside the mapping
(`BadHeap.Inv`), and over a run the blocks handed out follow one another
(`Fits`), which is `syncHeap_allocate_sound`.
-/

namespace Popcorn
namespace DefaultHeap

open Mapping (BackingAllocator VirtualAllocator World)

/-! ## Alignment -/

/-- A layout's alignment is a power of two no larger than `2 ^ 63`. -/
theorem Layout.align_eq (layout : Layout) : ∃ k ≤ 63, layout.align = 2 ^ k := by
  obtain ⟨k, hk⟩ := layout.align_pow
  refine ⟨k, ?_, hk⟩
  by_contra hlt
  have hpow : 2 ^ 64 ≤ 2 ^ k := Nat.pow_le_pow_right (by decide) (by omega)
  have := layout.size_le
  omega

/-- Clearing the `k` low bits of a `usize` rounds it down to a multiple of `2 ^ k`. -/
theorem alignDownRuntime_two_pow {x k : ℕ} (hk : k ≤ 64) (hx : x < 2 ^ 64) :
    alignDownRuntime x (2 ^ k) = x / 2 ^ k * 2 ^ k := by
  rw [alignDownRuntime, usizeNot]
  exact Word.and_not_lowBits_eq hk hx

theorem alignUpRuntime_two_pow {x k : ℕ} (hk : k ≤ 64) (hfit : x + 2 ^ k < 2 ^ 64) :
    alignUpRuntime x (2 ^ k) = some ((x + 2 ^ k - 1) / 2 ^ k * 2 ^ k) := by
  rw [alignUpRuntime, if_neg (by omega), alignDownRuntime_two_pow hk (by omega)]

/-- `align_up_runtime` to a power of two rounds up to a multiple of it. -/
theorem alignUpRuntime_eq_some {addr k start : ℕ} (hk : k ≤ 64)
    (h : alignUpRuntime addr (2 ^ k) = some start) :
    start = (addr + 2 ^ k - 1) / 2 ^ k * 2 ^ k := by
  have hfit : addr + 2 ^ k < 2 ^ 64 := by
    by_contra hover
    rw [alignUpRuntime, if_pos (by omega)] at h
    cases h
  rw [alignUpRuntime_two_pow hk hfit] at h
  exact (Option.some_inj.mp h).symm

/-- The start `allocate` picks: a multiple of the alignment, at or past the watermark. -/
theorem alignUpRuntime_align {layout : Layout} {addr start : ℕ}
    (h : alignUpRuntime addr layout.align = some start) :
    start % layout.align = 0 ∧ addr ≤ start := by
  obtain ⟨k, hk, ha⟩ := layout.align_eq
  rw [ha] at h ⊢
  rw [alignUpRuntime_eq_some (by omega) h]
  refine ⟨Nat.mul_mod_left _ _, ?_⟩
  have := Nat.lt_div_mul_add (a := addr + 2 ^ k - 1) (Nat.two_pow_pos k)
  omega

/-! ## The mapping -/

section Calls

variable {σp σv : Type} (P : BackingAllocator σp) (V : VirtualAllocator σv)

theorem OldMapping.newWith_eq_ok {len : ℕ} {w w' : World σp σv} {m : OldMapping}
    (h : OldMapping.newWith P V len w = some (.ok m, w')) : m.len = len := by
  unfold OldMapping.newWith at h
  rcases hc : P.allocateContiguous w.physical len with ⟨_ | f, physical⟩ <;> rw [hc] at h
  · cases h
  dsimp only at h
  rcases hv : V.allocateContiguous w.virtual len with ⟨_ | p, virtual⟩ <;> rw [hv] at h
  · cases h
  obtain ⟨_, -, hok⟩ := Option.map_eq_some_iff.mp (by exact h)
  cases hok
  rfl

/-- A resize that succeeds leaves the mapping at its new length, from the same base. -/
theorem OldMapping.resizeInner_eq_ok {m m' : OldMapping} {newLen : ℕ} {w w' : World σp σv}
    (h : m.resizeInner P V newLen w = some (.ok (), m', w')) : m' = { m with len := newLen } := by
  unfold OldMapping.resizeInner at h
  split_ifs at h with heq hlt
  · cases h
    rw [heq]
  · cases h
    rfl
  dsimp only at h
  rcases hc : P.allocateContiguous w.physical (newLen - m.len) with ⟨_ | f, physical⟩ <;>
    rw [hc] at h
  · cases h
  dsimp only at h
  rcases hv : V.allocateContiguousAt w.virtual m.end (newLen - m.len) with ⟨_ | p, virtual⟩ <;>
    rw [hv] at h
  · cases h
  obtain ⟨_, -, hok⟩ := Option.map_eq_some_iff.mp (by exact h)
  cases hok
  rfl

/-- A resize that fails leaves the mapping as it was. -/
theorem OldMapping.resizeInner_eq_error {m m' : OldMapping} {newLen : ℕ} {w w' : World σp σv}
    {e : Option Frame} (h : m.resizeInner P V newLen w = some (.error e, m', w')) : m' = m := by
  unfold OldMapping.resizeInner at h
  split_ifs at h with heq hlt
  · cases h
  · cases h
  dsimp only at h
  rcases hc : P.allocateContiguous w.physical (newLen - m.len) with ⟨_ | f, physical⟩ <;>
    rw [hc] at h
  · cases h
    rfl
  dsimp only at h
  rcases hv : V.allocateContiguousAt w.virtual m.end (newLen - m.len) with ⟨_ | p, virtual⟩ <;>
    rw [hv] at h
  · cases h
    rfl
  obtain ⟨_, -, hok⟩ := Option.map_eq_some_iff.mp (by exact h)
  cases hok

theorem OldMapping.resizeInPlace_eq_some {m m' : OldMapping} {newLen : ℕ} {w w' : World σp σv}
    {r : Except AllocError Unit} (h : m.resizeInPlace P V newLen w = some (r, m', w')) :
    (r = .ok () → m' = { m with len := newLen }) ∧ (∀ e, r = .error e → m' = m) := by
  obtain ⟨⟨r', m₁, w₁⟩, hres, heq⟩ := Option.map_eq_some_iff.mp h
  simp only [Prod.mk.injEq] at heq
  obtain ⟨rfl, rfl, rfl⟩ := heq
  cases r' with
  | ok u => exact ⟨fun _ => OldMapping.resizeInner_eq_ok P V hres, fun e he => (by cases he)⟩
  | error e' =>
    exact ⟨fun he => (by cases he), fun _ _ => OldMapping.resizeInner_eq_error P V hres⟩

/-! ## One call -/

/-- What `allocate` hands out: `p .. p + size`, aligned, at or past the watermark, ending
inside the mapping it leaves, which keeps its base and does not shrink; the watermark moves
to its end. -/
theorem allocate_eq_ok {layout : Layout} {h h' : BadHeap} {w w' : World σp σv} {p : ℕ}
    (hcall : SyncHeap.allocate P V layout h w = some (.ok p, h', w')) :
    p % layout.align = 0 ∧ h.watermark ≤ p ∧ h'.watermark = p + layout.size ∧
      h'.mapping.base = h.mapping.base ∧ h.mapping.len ≤ h'.mapping.len ∧
      p + layout.size ≤ h'.mapping.end.start := by
  unfold SyncHeap.allocate at hcall
  obtain ⟨start, hstart, hcall⟩ := Option.bind_eq_some_iff.mp hcall
  obtain ⟨halign, hwm⟩ := alignUpRuntime_align hstart
  dsimp only at hcall
  -- the panicking branches close themselves: their none is not a some
  split_ifs at hcall with hover hgrow hisize hlen hnull hnull'
  · cases hcall
  · -- a null start panics in the unwrap once the mapping has grown
    obtain ⟨⟨r, mapping, w₁⟩, -, heq⟩ := Option.bind_eq_some_iff.mp hcall
    cases r <;> cases heq
  · -- the mapping grows by the pages the allocation lacks
    obtain ⟨⟨r, mapping, w₁⟩, hres, heq⟩ := Option.bind_eq_some_iff.mp hcall
    cases r with
    | error e => cases heq
    | ok u =>
      simp only [Option.some.injEq, Prod.mk.injEq, Except.ok.injEq] at heq
      obtain ⟨rfl, rfl, rfl⟩ := heq
      obtain rfl := (OldMapping.resizeInPlace_eq_some P V hres).1 rfl
      refine ⟨halign, hwm, rfl, rfl, Nat.le_add_right _ _, ?_⟩
      simp only [OldMapping.end, Page.start, Page.number_add, pageSize] at hgrow ⊢
      omega
  · -- the allocation ends inside the mapping as it is
    cases hcall
    refine ⟨halign, hwm, rfl, rfl, le_rfl, ?_⟩
    show p + layout.size ≤ h.mapping.end.start
    omega

/-- An `allocate` that fails leaves the heap as it was. -/
theorem allocate_eq_error {layout : Layout} {h h' : BadHeap} {w w' : World σp σv}
    {e : AllocError} (hcall : SyncHeap.allocate P V layout h w = some (.error e, h', w')) :
    h' = h := by
  unfold SyncHeap.allocate at hcall
  obtain ⟨start, -, hcall⟩ := Option.bind_eq_some_iff.mp hcall
  dsimp only at hcall
  split_ifs at hcall with hover hgrow hisize hlen hnull hnull'
  · cases hcall
    rfl
  rotate_left 2
  · cases hcall
  -- after a grow the error path keeps the mapping as it was, whatever the start
  all_goals
    obtain ⟨⟨r, mapping, w₁⟩, hres, heq⟩ := Option.bind_eq_some_iff.mp hcall
    cases r with
    | ok u => cases heq
    | error e' =>
      simp only [Option.some.injEq, Prod.mk.injEq] at heq
      obtain ⟨-, rfl, rfl⟩ := heq
      obtain rfl := (OldMapping.resizeInPlace_eq_some P V hres).2 e' rfl
      rfl

/-! ## Runs of calls -/

/-- The heap's invariant: the watermark lies in the mapping, between its first address and
its end. -/
structure BadHeap.Inv (h : BadHeap) : Prop where
  above : h.mapping.base.start ≤ h.watermark
  below : h.watermark ≤ h.mapping.end.start

/-- `SyncHeap::new` starts with the watermark at the start of an empty mapping. -/
theorem inv_new {w₀ w : World σp σv} {h₀ : BadHeap} (hnew : SyncHeap.new P V w₀ = some (h₀, w)) :
    h₀.Inv := by
  obtain ⟨⟨r, w₁⟩, hmapping, hh⟩ := Option.bind_eq_some_iff.mp hnew
  cases r with
  | error e => cases hh
  | ok mapping =>
    cases hh
    have hlen := OldMapping.newWith_eq_ok P V hmapping
    constructor
    · show mapping.base.start ≤ mapping.end.start
      simp [OldMapping.end, Page.start, hlen]
    · exact le_rfl

theorem Inv.allocate {layout : Layout} {h h' : BadHeap} {w w' : World σp σv}
    {r : Except AllocError ℕ} (hinv : h.Inv) (hcall : SyncHeap.allocate P V layout h w = some (r, h', w')) :
    h'.Inv := by
  cases r with
  | error e =>
    rw [allocate_eq_error P V hcall]
    exact hinv
  | ok p =>
    obtain ⟨-, hwm, hwm', hbase, -, hend⟩ := allocate_eq_ok P V hcall
    have habove := hinv.above
    rw [← hbase] at habove
    exact ⟨by omega, by omega⟩

theorem inv_of_reachable {w₀ w : World σp σv} {h₀ : BadHeap}
    (hnew : SyncHeap.new P V w₀ = some (h₀, w)) {s : BadHeap × World σp σv}
    (hs : Transition.Reachable (· = (h₀, w)) (Transition.Answers (kernelHeapAllocate P V)) s) :
    s.1.Inv :=
  Transition.Reachable.induction (P := fun s : BadHeap × World σp σv => s.1.Inv)
    (fun _ h => by subst h; exact inv_new P V hnew)
    (fun _ _ hinv ⟨_, _, hcall⟩ => Inv.allocate P V hinv hcall) hs

end Calls

/-- The blocks a run of `allocate` calls handed out: each `Ok(p)`, with its layout's size. -/
def allocations (hist : List (Layout × Except AllocError ℕ)) : List (ℕ × ℕ) :=
  hist.filterMap fun call =>
    match call.2 with
    | .ok p => some (p, call.1.size)
    | .error _ => none

/-- What the blocks handed out keep with the heap: each ends at or below the watermark, and
each ends at or before the start of every later one. -/
structure Fits (hist : List (Layout × Except AllocError ℕ)) (h : BadHeap) : Prop where
  below : ∀ a ∈ allocations hist, a.1 + a.2 ≤ h.watermark
  ordered : (allocations hist).Pairwise fun a b => a.1 + a.2 ≤ b.1

section Calls

variable {σp σv : Type} (P : BackingAllocator σp) (V : VirtualAllocator σv)

/-- One call keeps `Fits`: a new block starts at or past the watermark and moves it to the
block's end. -/
theorem Fits.allocate {hist : List (Layout × Except AllocError ℕ)} {layout : Layout}
    {h h' : BadHeap} {w w' : World σp σv} {r : Except AllocError ℕ} (hfits : Fits hist h)
    (hcall : SyncHeap.allocate P V layout h w = some (r, h', w')) :
    Fits (hist ++ [(layout, r)]) h' := by
  cases r with
  | error e =>
    have hnew : allocations (hist ++ [(layout, .error e)]) = allocations hist := by
      simp [allocations]
    rw [allocate_eq_error P V hcall]
    constructor
    · rw [hnew]
      exact hfits.below
    · rw [hnew]
      exact hfits.ordered
  | ok p =>
    obtain ⟨-, hwm, hwm', -, -, -⟩ := allocate_eq_ok P V hcall
    have hnew : allocations (hist ++ [(layout, .ok p)]) = allocations hist ++ [(p, layout.size)] := by
      simp [allocations]
    constructor
    · rw [hnew]
      intro a ha
      rcases List.mem_append.mp ha with ha | ha
      · have := hfits.below a ha
        omega
      · rw [List.mem_singleton.mp ha]
        omega
    · rw [hnew]
      refine List.pairwise_append.mpr ⟨hfits.ordered, List.pairwise_singleton _ _, ?_⟩
      intro a ha b hb
      rw [List.mem_singleton.mp hb]
      have := hfits.below a ha
      omega

theorem syncHeap_allocate_sound (w₀ w : World σp σv) (h₀ : BadHeap)
    (hnew : SyncHeap.new P V w₀ = some (h₀, w)) :
    -- each call from a heap that calls reach
    (∀ s layout r s',
      Transition.Reachable (· = (h₀, w)) (Transition.Answers (kernelHeapAllocate P V)) s →
      kernelHeapAllocate P V s layout = some (r, s') →
        (∀ p, r = .ok p → p % layout.align = 0 ∧ s'.1.mapping.base.start ≤ p ∧
          p + layout.size ≤ s'.1.mapping.end.start ∧ s.1.watermark ≤ s'.1.watermark) ∧
        (∀ e, r = .error e →
          s'.1.watermark = s.1.watermark ∧ s'.1.mapping.len = s.1.mapping.len)) ∧
    -- the blocks a run hands out, in order
    ∀ layouts rs t, Transition.exec (kernelHeapAllocate P V) (h₀, w) layouts = some (rs, t) →
      (allocations (layouts.zip rs)).Pairwise fun a b => a.1 + a.2 ≤ b.1 := by
  refine ⟨fun s layout r s' hs hcall => ⟨fun p hp => ?_, fun e he => ?_⟩, fun layouts rs t hrun => ?_⟩
  · subst hp
    have hinv := inv_of_reachable P V hnew hs
    obtain ⟨halign, hwm, hwm', hbase, -, hend⟩ := allocate_eq_ok P V hcall
    refine ⟨halign, ?_, hend, by omega⟩
    rw [hbase]
    exact hinv.above.trans hwm
  · subst he
    rw [allocate_eq_error P V hcall]
    exact ⟨rfl, rfl⟩
  · -- `Fits` holds of the empty history, and each call keeps it
    have hstep : ∀ hist (s : BadHeap × World σp σv) c r s', True → Fits hist s.1 →
        kernelHeapAllocate P V s c = some (r, s') → Fits (hist ++ [(c, r)]) s'.1 :=
      fun _ _ _ _ _ _ hfits hcall => hfits.allocate P V hcall
    have hempty : Fits [] (h₀, w).1 := ⟨fun a ha => by simp [allocations] at ha, List.Pairwise.nil⟩
    have hfits := Transition.exec_history_induction (P := fun hist s => Fits hist s.1) hstep
      hrun (fun _ _ => trivial) hempty
    exact hfits.ordered

end Calls

/-- The physical and virtual bump allocators over the kernel table of `bumpWorld`:
`SyncHeap::new` maps no page and puts the watermark at the first page of the upper half. -/
theorem syncHeap_new_on_bump :
    SyncHeap.new Mapping.bumpFrames Mapping.bumpPages Mapping.bumpWorld =
        some (⟨0xffff_8000_0000_0 * 4096, ⟨⟨0xffff_8000_0000_0⟩, 0⟩⟩, Mapping.bumpWorld) ∧
      (∀ s layout r s', Transition.Reachable
          (· = (⟨0xffff_8000_0000_0 * 4096, ⟨⟨0xffff_8000_0000_0⟩, 0⟩⟩, Mapping.bumpWorld))
          (Transition.Answers (kernelHeapAllocate Mapping.bumpFrames Mapping.bumpPages)) s →
        kernelHeapAllocate Mapping.bumpFrames Mapping.bumpPages s layout = some (r, s') →
          (∀ p, r = .ok p → p % layout.align = 0 ∧ s'.1.mapping.base.start ≤ p ∧
            p + layout.size ≤ s'.1.mapping.end.start ∧ s.1.watermark ≤ s'.1.watermark) ∧
          (∀ e, r = .error e →
            s'.1.watermark = s.1.watermark ∧ s'.1.mapping.len = s.1.mapping.len)) ∧
      ∀ layouts rs t, Transition.exec (kernelHeapAllocate Mapping.bumpFrames Mapping.bumpPages)
          (⟨0xffff_8000_0000_0 * 4096, ⟨⟨0xffff_8000_0000_0⟩, 0⟩⟩, Mapping.bumpWorld) layouts =
            some (rs, t) →
        (allocations (layouts.zip rs)).Pairwise fun a b => a.1 + a.2 ≤ b.1 :=
  ⟨rfl, syncHeap_allocate_sound Mapping.bumpFrames Mapping.bumpPages Mapping.bumpWorld
    Mapping.bumpWorld ⟨0xffff_8000_0000_0 * 4096, ⟨⟨0xffff_8000_0000_0⟩, 0⟩⟩ rfl⟩

end DefaultHeap
end Popcorn
