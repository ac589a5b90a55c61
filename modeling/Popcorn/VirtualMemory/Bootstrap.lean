import Popcorn.Memory.Frame
import Popcorn.Lib.Interleave
import Popcorn.Lib.Run

/-!
# The bootstrap virtual allocator

`kernel::memory::virtual::Bootstrap` hands out pages from the region the linker script
reserves after the kernel image (`__popcorn_vmem_bootstrap_start`, page-aligned, and
`__popcorn_vmem_bootstrap_end`, 1 MiB after it) by bumping an `AtomicPtr`, `start`.
`allocate_contiguous(len)` is one atomic step, a `fetch_byte_add` (a `load` for a zero
length), after which it compares the old pointer with the end of the region.
`allocate_contiguous_at(at, len)` is two: a `load`, checked against `at` and the end, then
a `compare_exchange` that moves the pointer on.

Threads run these calls in any interleaving (`Step`). Beside the pointer the model keeps
ghost state: the successful results with their lengths, in the order they were returned,
and whether the pointer ever wrapped. Addresses are `ℕ`; the pointer's arithmetic wraps at
`2 ^ 64` as `fetch_byte_add` does, `len * 4096` panics on overflow, and so does
`VirtualAddress::new` on an address that is not page-aligned. A panic is a step that does
not exist.

While the pointer has not wrapped, every result lies in the region and the results are
pairwise disjoint, each ending where a later one may start (`granted_inside_disjoint`). But
only the old pointer is compared with the end, so an allocation may run past it
(`allocateContiguous_overruns_region`), and nothing stops the pointer from wrapping, after
which results repeat (`allocateContiguous_repeats_after_wrap`).
-/

namespace Popcorn
namespace VirtualMemory

/-- The linker script's region: a page-aligned start (`. = ALIGN(4K)`) that leaves room for
the 1 MiB below `2 ^ 64`. -/
structure Region where
  start : ℕ
  start_aligned : start % pageSize = 0
  end_lt : start + 0x10_0000 < 2 ^ 64

/-- `__popcorn_vmem_bootstrap_end`, after `. += 1M`. -/
def Region.end (r : Region) : ℕ := r.start + 0x10_0000

/-- A pointer moved on by `x` bytes, wrapping past `usize::MAX`. -/
def byteAdd (p x : ℕ) : ℕ := (p + x) % 2 ^ 64

/-- `Bootstrap::allocate_contiguous(len)` on the pointer `start`: its result, and the new
value of the pointer. -/
def allocateContiguous (r : Region) (start len : ℕ) : Option (Except AllocError ℕ × ℕ) :=
  -- `len * 4096` in the `1..` arm panics on overflow
  if 2 ^ 64 ≤ len * pageSize then none
  else
    let old := start
    let start := if len = 0 then start else byteAdd start (len * pageSize)
    if r.end < old then some (.error ⟨⟩, start)
    -- `Page::new(VirtualAddress::new(old))` panics on an address that is not page-aligned
    else if old % pageSize ≠ 0 then none
    else some (.ok old, start)

/-- The checks of `allocate_contiguous_at(at, len)` on the pointer it loaded: it goes on only
when the pointer is `at` and not past the end. -/
def allocateContiguousAtLoad (r : Region) (currentEnd at_ : ℕ) : Bool :=
  currentEnd == at_ && currentEnd ≤ r.end

/-- The `compare_exchange(current_end, current_end.byte_add(len * 4096))` of
`allocate_contiguous_at(at, len)` on the pointer `start`: the result, and the new pointer. -/
def allocateContiguousAtSwap (start currentEnd at_ len : ℕ) :
    Option (Except AllocError ℕ × ℕ) :=
  if 2 ^ 64 ≤ len * pageSize then none
  else if start = currentEnd then some (.ok at_, byteAdd currentEnd (len * pageSize))
  else some (.error ⟨⟩, start)

/-- The pointer, with the ghost state: the results returned so far with their lengths, and
whether the pointer has wrapped. -/
structure Shared where
  start : ℕ
  granted : List (ℕ × ℕ)
  wrapped : Bool

/-- The shared state after a call answered `result` for `len` pages and left the pointer at
`start`. -/
def Shared.record (g : Shared) (result : Except AllocError ℕ) (len start : ℕ) : Shared where
  start := start
  granted :=
    match result with
    | .ok p => g.granted ++ [(p, len)]
    | .error _ => g.granted
  wrapped := g.wrapped || decide (start < g.start)

/-- Where a thread is: between calls, or inside `allocate_contiguous_at(at, len)` after its
`load` read `current_end`. -/
inductive Pc where
  | idle
  | loadedAt (at_ len currentEnd : ℕ)

/-- One atomic step of a thread. -/
inductive Move (r : Region) : Shared → Pc → Shared → Pc → Prop
  | allocateContiguous {g : Shared} {len start : ℕ} {result : Except AllocError ℕ}
      (h : allocateContiguous r g.start len = some (result, start)) :
      Move r g .idle (g.record result len start) .idle
  | loadAt {g : Shared} (at_ len : ℕ) (h : allocateContiguousAtLoad r g.start at_ = true) :
      Move r g .idle g (.loadedAt at_ len g.start)
  | loadAtFails {g : Shared} (at_ : ℕ) (h : allocateContiguousAtLoad r g.start at_ = false) :
      Move r g .idle g .idle
  | swapAt {g : Shared} {at_ len currentEnd start : ℕ} {result : Except AllocError ℕ}
      (h : allocateContiguousAtSwap g.start currentEnd at_ len = some (result, start)) :
      Move r g (.loadedAt at_ len currentEnd) (g.record result len start) .idle

/-- The allocator and the threads calling it. -/
abbrev State (ι : Type) := Interleave.Sys Shared Pc ι

variable {ι : Type} [DecidableEq ι]

/-- One atomic step of one thread. -/
def Step (r : Region) : State ι → State ι → Prop := Interleave.Step (Move r)

/-- `BOOTSTRAP`, with every thread between calls. -/
def initial (r : Region) : State ι := ⟨⟨r.start, [], false⟩, fun _ => .idle⟩

/-! ## One call -/

theorem byteAdd_lt (p x : ℕ) : byteAdd p x < 2 ^ 64 := Nat.mod_lt _ (by positivity)

/-- A pointer that did not go down did not wrap. -/
theorem byteAdd_of_le {p x : ℕ} (hp : p < 2 ^ 64) (hx : x < 2 ^ 64) (hle : p ≤ byteAdd p x) :
    byteAdd p x = p + x := by
  unfold byteAdd at *
  omega

theorem allocateContiguous_eq_some {r : Region} {start len start' : ℕ}
    {result : Except AllocError ℕ} (h : allocateContiguous r start len = some (result, start')) :
    len * pageSize < 2 ^ 64 ∧
      start' = (if len = 0 then start else byteAdd start (len * pageSize)) ∧
      ∀ p, result = .ok p → p = start ∧ start ≤ r.end := by
  unfold allocateContiguous at h
  dsimp only at h
  -- the new pointer is the same on every path; only the checks of the old one branch
  generalize hnew : (if len = 0 then start else byteAdd start (len * pageSize)) = new at h
  split_ifs at h with hover hend halign <;> simp only [Option.some.injEq, Prod.mk.injEq] at h
  · obtain ⟨rfl, rfl⟩ := h
    exact ⟨by omega, rfl, fun p hp => by cases hp⟩
  · obtain ⟨rfl, rfl⟩ := h
    refine ⟨by omega, rfl, fun p hp => ?_⟩
    cases hp
    exact ⟨rfl, by omega⟩

/-- `allocate_contiguous(len)` of a nonzero length from an aligned pointer not past the end
hands out that pointer. -/
theorem allocateContiguous_of_le (r : Region) {start len : ℕ} (hle : start ≤ r.end)
    (halign : start % pageSize = 0) (hx : len * pageSize < 2 ^ 64) (hlen : len ≠ 0) :
    allocateContiguous r start len = some (.ok start, byteAdd start (len * pageSize)) := by
  unfold allocateContiguous
  rw [if_neg (by omega)]
  dsimp only
  rw [if_neg hlen, if_neg (by omega), if_neg (by omega)]

theorem allocateContiguousAtLoad_eq_true {r : Region} {currentEnd at_ : ℕ} :
    allocateContiguousAtLoad r currentEnd at_ = true ↔ currentEnd = at_ ∧ currentEnd ≤ r.end := by
  simp [allocateContiguousAtLoad]

theorem allocateContiguousAtSwap_eq_some {start currentEnd at_ len start' : ℕ}
    {result : Except AllocError ℕ}
    (h : allocateContiguousAtSwap start currentEnd at_ len = some (result, start')) :
    len * pageSize < 2 ^ 64 ∧
      (start = currentEnd ∧ result = .ok at_ ∧ start' = byteAdd currentEnd (len * pageSize) ∨
        result = .error ⟨⟩ ∧ start' = start) := by
  unfold allocateContiguousAtSwap at h
  split_ifs at h with hover hswap <;> simp only [Option.some.injEq, Prod.mk.injEq] at h
  · obtain ⟨rfl, rfl⟩ := h
    exact ⟨by omega, .inl ⟨hswap, rfl, rfl⟩⟩
  · obtain ⟨rfl, rfl⟩ := h
    exact ⟨by omega, .inr ⟨rfl, rfl⟩⟩

/-! ## The results handed out -/

section Record

variable {g : Shared} {result : Except AllocError ℕ} {len start : ℕ}

@[simp] theorem Shared.record_start : (g.record result len start).start = start := rfl

theorem Shared.record_wrapped_eq_false :
    (g.record result len start).wrapped = false ↔ g.wrapped = false ∧ g.start ≤ start := by
  simp [Shared.record]

/-- What the pointer and the results keep while the pointer has not wrapped: the pointer at
or above the region's start, every result in the region and below the pointer, and the
results in order, each ending at or before the next one starts. -/
structure Good (r : Region) (g : Shared) : Prop where
  above : r.start ≤ g.start
  inside : ∀ q ∈ g.granted, r.start ≤ q.1 ∧ q.1 ≤ r.end
  below : ∀ q ∈ g.granted, q.1 + q.2 * pageSize ≤ g.start
  ordered : g.granted.Pairwise fun q q' => q.1 + q.2 * pageSize ≤ q'.1

/-- A call that moves the pointer up, and whose result, if any, is the old pointer inside the
region with its pages below the new pointer, keeps `Good`. -/
theorem Good.record {r : Region} (hg : Good r g) (hle : g.start ≤ start)
    (hres : ∀ p, result = .ok p → p = g.start ∧ p ≤ r.end ∧ p + len * pageSize ≤ start) :
    Good r (g.record result len start) := by
  cases result with
  | error e =>
    exact ⟨hg.above.trans hle, hg.inside, fun q hq => (hg.below q hq).trans hle, hg.ordered⟩
  | ok p =>
    obtain ⟨rfl, hend, hlen⟩ := hres p rfl
    show Good r ⟨start, g.granted ++ [(g.start, len)], _⟩
    refine ⟨hg.above.trans hle, fun q hq => ?_, fun q hq => ?_, ?_⟩
    · rcases List.mem_append.mp hq with hq | hq
      · exact hg.inside q hq
      · rw [List.mem_singleton.mp hq]
        exact ⟨hg.above, hend⟩
    · rcases List.mem_append.mp hq with hq | hq
      · exact (hg.below q hq).trans hle
      · rw [List.mem_singleton.mp hq]
        exact hlen
    · -- the new range starts at the old pointer, above every range before it
      refine List.pairwise_append.mpr ⟨hg.ordered, List.pairwise_singleton _ _, ?_⟩
      intro q hq q' hq'
      rw [List.mem_singleton.mp hq']
      exact hg.below q hq

end Record

/-! ## Every interleaving -/

/-- What a thread inside `allocate_contiguous_at` knows of the pointer it loaded: it passed
the checks. -/
def Pc.Checked (r : Region) : Pc → Prop
  | .idle => True
  | .loadedAt at_ _ currentEnd => currentEnd = at_ ∧ currentEnd ≤ r.end

/-- The invariant of the allocator: the pointer is a `usize`, it keeps `Good` until it wraps,
and every thread's loaded pointer passed the checks. -/
structure Inv (r : Region) (s : State ι) : Prop where
  start_lt : s.shared.start < 2 ^ 64
  good : s.shared.wrapped = false → Good r s.shared
  checked : ∀ i, (s.threads i).Checked r

/-- One move keeps the pointer a `usize`, keeps `Good` until the pointer wraps, and leaves its
thread with a checked pointer. -/
theorem Move.preserves {r : Region} {g g' : Shared} {t t' : Pc} (hm : Move r g t g' t')
    (hlt : g.start < 2 ^ 64) (hgood : g.wrapped = false → Good r g) (ht : t.Checked r) :
    g'.start < 2 ^ 64 ∧ (g'.wrapped = false → Good r g') ∧ t'.Checked r := by
  cases hm with
  | allocateContiguous h =>
    obtain ⟨hx, rfl, hres⟩ := allocateContiguous_eq_some h
    refine ⟨?_, fun hw => ?_, trivial⟩
    · split_ifs
      · exact hlt
      · exact byteAdd_lt _ _
    obtain ⟨hw, hle⟩ := Shared.record_wrapped_eq_false.mp hw
    refine (hgood hw).record hle fun p hp => ?_
    obtain ⟨rfl, hend⟩ := hres p hp
    refine ⟨rfl, hend, ?_⟩
    -- a zero length leaves the pointer; any other moves it up without a wrap
    split_ifs at hle ⊢ with hlen
    · simp [hlen]
    · rw [byteAdd_of_le hlt hx hle]
  | loadAt at_ len h => exact ⟨hlt, hgood, allocateContiguousAtLoad_eq_true.mp h⟩
  | loadAtFails at_ h => exact ⟨hlt, hgood, trivial⟩
  | swapAt h =>
    obtain ⟨rfl, hend⟩ := ht
    obtain ⟨hx, ⟨rfl, rfl, rfl⟩ | ⟨rfl, rfl⟩⟩ := allocateContiguousAtSwap_eq_some h
    · refine ⟨byteAdd_lt _ _, fun hw => ?_, trivial⟩
      obtain ⟨hw, hle⟩ := Shared.record_wrapped_eq_false.mp hw
      refine (hgood hw).record hle fun p hp => ?_
      cases hp
      exact ⟨rfl, hend, (byteAdd_of_le hlt hx hle).ge⟩
    · refine ⟨hlt, fun hw => ?_, trivial⟩
      obtain ⟨hw, hle⟩ := Shared.record_wrapped_eq_false.mp hw
      exact (hgood hw).record hle fun p hp => by cases hp

section Run

variable {r : Region} {s s' : State ι}

omit [DecidableEq ι] in
theorem inv_initial (r : Region) : Inv r (initial r : State ι) where
  start_lt := by
    have := r.end_lt
    show r.start < 2 ^ 64
    omega
  good _ := ⟨le_rfl, fun _ hq => (List.not_mem_nil hq).elim,
    fun _ hq => (List.not_mem_nil hq).elim, List.Pairwise.nil⟩
  checked _ := trivial

theorem Inv.step (hs : Inv r s) (hstep : Step r s s') : Inv r s' := by
  obtain ⟨i, g', t', hmove, rfl⟩ := hstep
  obtain ⟨hlt, hgood, hchecked⟩ := hmove.preserves hs.start_lt hs.good (hs.checked i)
  refine ⟨hlt, hgood, fun j => ?_⟩
  by_cases hj : j = i
  · subst hj
    rw [Interleave.Sys.update_threads_self]
    exact hchecked
  · rw [Interleave.Sys.update_threads_of_ne hj]
    exact hs.checked j

theorem inv_of_reachable (h : Transition.Reachable (· = initial r) (Step r) s) : Inv r s :=
  h.induction (fun _ h₀ => h₀ ▸ inv_initial r) (fun _ _ hs hstep => hs.step hstep)

/-- Over any interleaving, while the pointer has not wrapped, every result handed out starts
inside the region, and the page ranges handed out are pairwise disjoint: each ends at or
before the start of every later one. -/
theorem granted_inside_disjoint (h : Transition.Reachable (· = initial r) (Step r) s)
    (hw : s.shared.wrapped = false) :
    (∀ q ∈ s.shared.granted, r.start ≤ q.1 ∧ q.1 ≤ r.end) ∧
      s.shared.granted.Pairwise fun q q' => q.1 + q.2 * pageSize ≤ q'.1 :=
  ⟨((inv_of_reachable h).good hw).inside, ((inv_of_reachable h).good hw).ordered⟩

/-- A thread between calls can always call `allocate_contiguous`. -/
theorem Step.allocateContiguous (i : ι) (hi : s.threads i = .idle) {len start : ℕ}
    {result : Except AllocError ℕ}
    (h : VirtualMemory.allocateContiguous r s.shared.start len = some (result, start)) :
    Step r s (s.update i (s.shared.record result len start) .idle) := by
  refine ⟨i, _, _, ?_, rfl⟩
  rw [hi]
  exact .allocateContiguous h

/-- Only the old pointer is compared with the end: from `BOOTSTRAP`, in every region, one
`allocate_contiguous(257)` hands out the region's start, and its 257 pages end past the
region's 256. -/
theorem allocateContiguous_overruns_region (r : Region) (i : ι) :
    ∃ s : State ι, Step r (initial r) s ∧ (r.start, 257) ∈ s.shared.granted ∧
      r.end < r.start + 257 * pageSize := by
  have hend := r.end_lt
  have hcall := allocateContiguous_of_le r (Nat.le_add_right r.start _) r.start_aligned
    (by unfold pageSize; omega) (by decide : 257 ≠ 0)
  refine ⟨_, Step.allocateContiguous i rfl hcall, ?_, ?_⟩
  · show (r.start, 257) ∈ [] ++ [(r.start, 257)]
    simp
  · simp [Region.end, pageSize]

/-- Past a wrap the results repeat: from `BOOTSTRAP`, `allocate_contiguous(1)`, then
`allocate_contiguous(2 ^ 52 - 1)`, whose `fetch_byte_add` wraps the pointer back to the
region's start, then `allocate_contiguous(1)` again hand out the region's start twice. -/
theorem allocateContiguous_repeats_after_wrap (r : Region) (i : ι) :
    ∃ s : State ι, Transition.Reachable (· = initial r) (Step r) s ∧
      s.shared.granted = [(r.start, 1), (r.start + pageSize, 2 ^ 52 - 1), (r.start, 1)] := by
  have hend := r.end_lt
  have halign := r.start_aligned
  have hfirst : allocateContiguous r r.start 1 = some (.ok r.start, r.start + pageSize) := by
    have hnext : byteAdd r.start (1 * pageSize) = r.start + pageSize := by
      unfold byteAdd pageSize
      omega
    rw [← hnext]
    exact allocateContiguous_of_le r (Nat.le_add_right r.start _) halign (by decide) (by decide)
  -- the second call's `fetch_byte_add` adds `2 ^ 64 - 4096` to `start + 4096`
  have hwrap : allocateContiguous r (r.start + pageSize) (2 ^ 52 - 1) =
      some (.ok (r.start + pageSize), r.start) := by
    have hnext : byteAdd (r.start + pageSize) ((2 ^ 52 - 1) * pageSize) = r.start := by
      unfold byteAdd pageSize
      omega
    have hle : r.start + pageSize ≤ r.end := by
      unfold Region.end pageSize
      omega
    have haligned : (r.start + pageSize) % pageSize = 0 := by
      unfold pageSize at halign ⊢
      omega
    rw [allocateContiguous_of_le r hle haligned (by unfold pageSize; omega) (by decide), hnext]
  have h₀ : Transition.Reachable (· = initial r) (Step r) (initial r : State ι) := .of_init rfl
  have h₁ := h₀.tail (Step.allocateContiguous i rfl hfirst)
  have h₂ := h₁.tail (Step.allocateContiguous i Interleave.Sys.update_threads_self hwrap)
  have h₃ := h₂.tail (Step.allocateContiguous i Interleave.Sys.update_threads_self hfirst)
  exact ⟨_, h₃, rfl⟩

end Run

end VirtualMemory
end Popcorn
