import Mathlib
import Popcorn.Lib.Run
import Popcorn.RangedBTree.Theorems
import Popcorn.RangedBtreeAllocator.Basic

/-!
# What the ranged B-tree allocator hands out

Two facts hold of every run. The map keeps its invariant (`RangedBTreeMap.Inv`): every
stored range is non-empty and the stored ranges are disjoint, whatever the reserved ranges
and the calls. And every run an allocation call returns is disjoint from every range stored
before the call, and is stored after it.

That a run lies inside the range `R` holds only while every stored range does (`Within`)
and, when the map is empty, `len` is no more than `R` holds: the branch for an empty map
takes `R.start..R.start + len` without comparing `len` with `R`
(`allocate_contiguous_overruns_range`). Reserved ranges are stored whole, also where they
stick out of `R`, and a stored range below `R.start` makes the `Page` subtraction of the
second branch overflow. Over calls that keep to `R` (`Call.Fits`) both hold at every step,
and `allocate_contiguous` then panics only at its `todo!()`, when neither gap is large
enough.
-/

namespace Popcorn.RangedBtreeAllocator

open RangedBTree RangedBTreeMap

variable {a a' : RangedBtreeAllocator} {len : Nat}

theorem lt_add_of_pos {p : Page} (h : 0 < len) : p < p + len := by
  show p.number < p.number + len
  omega

/-! ## The insertions the allocator makes -/

theorem insertExpect_eq_some {r : Range Page} :
    a.insertExpect r len = some a' ↔
      (a.map.insert r ⟨len⟩).1 = .ok () ∧ a' = { a with map := (a.map.insert r ⟨len⟩).2 } := by
  unfold insertExpect
  generalize a.map.insert r ⟨len⟩ = res
  rcases res with ⟨⟨⟩ | ⟨⟩, map⟩ <;> simp [eq_comm]

/-- An insertion the `expect` lets through stores a range disjoint from every stored one,
and keeps the invariant. -/
theorem insertExpect_spec (h : a.map.Inv) {r : Range Page} (hr : r.start < r.stop)
    (he : a.insertExpect r len = some a') :
    a'.range = a.range ∧ a'.map.Inv ∧ (∀ e ∈ a.map.ranges, r.Disjoint e.1) ∧
      a'.map.ranges.Perm ((r, ⟨len⟩) :: a.map.ranges) := by
  obtain ⟨hok, rfl⟩ := insertExpect_eq_some.mp he
  have hfree : ∀ e ∈ a.map.ranges, r.Disjoint e.1 := by
    intro e he
    by_contra hov
    have herr := (h.insert_eq_error_iff (v := ⟨len⟩) hr).mpr ⟨e, he, hov⟩
    rw [hok] at herr
    cases herr
  exact ⟨rfl, h.insert hr, hfree, h.insert_ranges_perm hr hok⟩

/-- An insertion of a range disjoint from every stored one gets through the `expect`. -/
theorem insertExpect_ne_none (h : a.map.Inv) {r : Range Page} (hr : r.start < r.stop)
    (hfree : ∀ e ∈ a.map.ranges, r.Disjoint e.1) : a.insertExpect r len ≠ none := by
  intro hnone
  have hok : (a.map.insert r ⟨len⟩).1 ≠ .error () := by
    rw [ne_eq, h.insert_eq_error_iff hr]
    rintro ⟨e, he, hov⟩
    exact hov (hfree e he)
  unfold insertExpect at hnone
  generalize a.map.insert r ⟨len⟩ = res at hnone hok
  rcases res with ⟨⟨⟩ | ⟨⟩, map⟩
  · exact hok rfl
  · cases hnone

/-! ## The three branches of `allocate_contiguous` -/

theorem map_insertExpect_eq_some {r : Range Page} {p : Page} {res : Except AllocError Page} :
    (a.insertExpect r len).map (.ok p, ·) = some (res, a') ↔
      res = .ok p ∧ a.insertExpect r len = some a' := by
  rw [Option.map_eq_some_iff]
  constructor
  · rintro ⟨a'', he, hres⟩
    cases hres
    exact ⟨rfl, he⟩
  · rintro ⟨rfl, he⟩
    exact ⟨a', he, rfl⟩

/-- Every way `allocate_contiguous` returns: always `Ok`, with the run stored by an insert
the `expect` lets through, at `R.start` when the map is empty or the gap before the first
stored range is large enough, and otherwise at the end of the last stored range when the
space after it is large enough. -/
theorem allocateContiguous_eq_some {res : Except AllocError Page}
    (h : a.allocateContiguous len = some (res, a')) :
    ∃ p, res = .ok p ∧ a.insertExpect ⟨p, p + len⟩ len = some a' ∧
      ((a.map.firstKey = some none ∧ p = a.range.start) ∨
        (∃ first, a.map.firstKey = some (some first) ∧
          a.range.start.number + len ≤ first.number ∧ p = a.range.start) ∨
        ∃ first, a.map.firstKey = some (some first) ∧ a.range.start ≤ first ∧
          first.number < a.range.start.number + len ∧ a.map.lastKey = some (some p) ∧
          p.number + len ≤ a.range.stop.number) := by
  unfold allocateContiguous at h
  split at h
  · cases h
  · -- the map is empty
    rename_i hfirst
    obtain ⟨rfl, he⟩ := map_insertExpect_eq_some.mp h
    exact ⟨_, rfl, he, .inl ⟨hfirst, rfl⟩⟩
  · rename_i first hfirst
    split at h
    · cases h
    · rename_i gap hgap
      obtain ⟨hle, rfl⟩ := Page.sub_eq_some.mp hgap
      have hle' : a.range.start.number ≤ first.number := hle
      split_ifs at h with hfits
      · -- the gap before the first stored range
        obtain ⟨rfl, he⟩ := map_insertExpect_eq_some.mp h
        exact ⟨_, rfl, he, .inr (.inl ⟨first, hfirst, by omega, rfl⟩)⟩
      · -- the space after the last stored range
        split at h
        · rename_i lastUsed hlast
          split at h
          · cases h
          · rename_i room hroom
            obtain ⟨hle₂, rfl⟩ := Page.sub_eq_some.mp hroom
            have hle₂' : lastUsed.number ≤ a.range.stop.number := hle₂
            split_ifs at h with hfits₂
            · obtain ⟨rfl, he⟩ := map_insertExpect_eq_some.mp h
              exact ⟨_, rfl, he, .inr (.inr ⟨first, hfirst, hle, by omega, hlast, by omega⟩)⟩
        · cases h

/-- A run `allocate_contiguous` returns is disjoint from every range stored before the call,
and stored after it. -/
theorem allocateContiguous_ok (h : a.map.Inv) (hlen : 0 < len) {res : Except AllocError Page}
    (hres : a.allocateContiguous len = some (res, a')) :
    ∃ p, res = .ok p ∧ a'.range = a.range ∧ a'.map.Inv ∧
      (∀ e ∈ a.map.ranges, (⟨p, p + len⟩ : Range Page).Disjoint e.1) ∧
      a'.map.ranges.Perm ((⟨p, p + len⟩, ⟨len⟩) :: a.map.ranges) := by
  obtain ⟨p, rfl, he, -⟩ := allocateContiguous_eq_some hres
  exact ⟨p, rfl, insertExpect_spec h (lt_add_of_pos hlen) he⟩

theorem allocateContiguousAt_eq_error {atPage : Page} {e : AllocError}
    (h : (a.allocateContiguousAt atPage len).1 = .error e) : (a.allocateContiguousAt atPage len).2 = a := by
  unfold allocateContiguousAt at h ⊢
  generalize a.map.insert ⟨atPage, atPage + len⟩ ⟨len⟩ = res at h ⊢
  rcases res with ⟨⟨⟩ | ⟨⟩, map⟩
  · rfl
  · cases h

/-- `allocate_contiguous_at` is an `insert`: on `Ok` the run is disjoint from every stored
range and stored. -/
theorem allocateContiguousAt_spec (h : a.map.Inv) (hlen : 0 < len) (atPage : Page) :
    (a.allocateContiguousAt atPage len).2.range = a.range ∧
      (a.allocateContiguousAt atPage len).2.map.Inv ∧
      ∀ p, (a.allocateContiguousAt atPage len).1 = .ok p → p = atPage ∧
        (∀ e ∈ a.map.ranges, (⟨p, p + len⟩ : Range Page).Disjoint e.1) ∧
        (a.allocateContiguousAt atPage len).2.map.ranges.Perm
          ((⟨p, p + len⟩, ⟨len⟩) :: a.map.ranges) := by
  have hins : a.insertExpect ⟨atPage, atPage + len⟩ len = none ∨
      ∃ a', a.insertExpect ⟨atPage, atPage + len⟩ len = some a' ∧
        a.allocateContiguousAt atPage len = (.ok atPage, a') := by
    unfold insertExpect allocateContiguousAt
    generalize a.map.insert ⟨atPage, atPage + len⟩ ⟨len⟩ = res
    rcases res with ⟨⟨⟩ | ⟨⟩, map⟩ <;> simp
  rcases hins with hnone | ⟨a', he, hat⟩
  · -- a refused insert: the allocator is unchanged
    have herr : a.allocateContiguousAt atPage len = (.error ⟨⟩, a) := by
      unfold insertExpect at hnone
      unfold allocateContiguousAt
      generalize a.map.insert ⟨atPage, atPage + len⟩ ⟨len⟩ = res at hnone ⊢
      rcases res with ⟨⟨⟩ | ⟨⟩, map⟩
      · rfl
      · cases hnone
    rw [herr]
    refine ⟨rfl, h, fun p hp => ?_⟩
    cases hp
  · obtain ⟨hrange, hinv, hfree, hperm⟩ := insertExpect_spec h (lt_add_of_pos hlen) he
    rw [hat]
    refine ⟨hrange, hinv, fun p hp => ?_⟩
    cases hp
    exact ⟨rfl, hfree, hperm⟩

theorem deallocateContiguous_eq_some {dbg : Bool} {base : Page}
    (h : a.deallocateContiguous dbg base len = some a') :
    a'.range = a.range ∧ a'.map = (a.map.remove base).2 := by
  unfold deallocateContiguous at h
  generalize a.map.remove base = res at h
  rcases res with ⟨_ | entry, map⟩
  · cases h
  · dsimp only at h
    split_ifs at h
    cases h
    exact ⟨rfl, rfl⟩

theorem addAllocation_inv (h : a.map.Inv) (allocation : Range Page) :
    (a.addAllocation allocation).range = a.range ∧ (a.addAllocation allocation).map.Inv := by
  unfold addAllocation
  dsimp only
  split_ifs with hne
  · -- an allocation that meets the range is non-empty
    have hstart : allocation.start ≤ max allocation.start a.range.start := le_max_left _ _
    have hstop : min allocation.stop a.range.stop ≤ allocation.stop := min_le_left _ _
    exact ⟨rfl, h.insert (lt_of_le_of_lt hstart (lt_of_lt_of_le hne hstop))⟩
  · exact ⟨rfl, h⟩

theorem addAllocations_inv : ∀ {a : RangedBtreeAllocator} (allocations : List (Range Page)),
    a.map.Inv →
      (a.addAllocations allocations).range = a.range ∧ (a.addAllocations allocations).map.Inv
  | _, [], h => ⟨rfl, h⟩
  | a, x :: xs, h => by
    show ((a.addAllocation x).addAllocations xs).range = a.range ∧
      ((a.addAllocation x).addAllocations xs).map.Inv
    obtain ⟨hrange, hinv⟩ := addAllocation_inv h x
    obtain ⟨hrange', hinv'⟩ := addAllocations_inv xs hinv
    exact ⟨hrange'.trans hrange, hinv'⟩

/-! ## Every run -/

/-- One call of at least one page. -/
def Calls (dbg : Bool) (a a' : RangedBtreeAllocator) : Prop :=
  ∃ c r, 0 < c.len ∧ step dbg a c = some (r, a')

theorem step_inv {dbg : Bool} {c : Call} {r : Answer} (h : a.map.Inv) (hlen : 0 < c.len)
    (hstep : step dbg a c = some (r, a')) : a'.range = a.range ∧ a'.map.Inv := by
  cases c with
  | allocateContiguous len =>
    obtain ⟨⟨res, a''⟩, hres, hr⟩ := Option.map_eq_some_iff.mp hstep
    cases hr
    obtain ⟨p, -, hrange, hinv, -⟩ := allocateContiguous_ok h hlen hres
    exact ⟨hrange, hinv⟩
  | allocateContiguousAt atPage len =>
    simp only [RangedBtreeAllocator.step, Option.some.injEq, Prod.mk.injEq] at hstep
    obtain ⟨-, rfl⟩ := hstep
    exact ⟨(allocateContiguousAt_spec h hlen atPage).1, (allocateContiguousAt_spec h hlen atPage).2.1⟩
  | deallocateContiguous base len =>
    obtain ⟨a'', he, hr⟩ := Option.map_eq_some_iff.mp hstep
    cases hr
    obtain ⟨hrange, hmap⟩ := deallocateContiguous_eq_some he
    exact ⟨hrange, hmap ▸ h.remove base⟩

theorem inv_of_reachable {dbg : Bool} (hreach : Transition.Reachable Initial (Calls dbg) a) :
    a.map.Inv := by
  refine Transition.Reachable.induction (P := fun a => a.map.Inv) ?_ ?_ hreach
  · rintro _ ⟨range, allocations, rfl⟩
    exact (addAllocations_inv (a := new range) allocations inv_new).2
  · rintro s s' hs ⟨c, r, hlen, hstep⟩
    exact (step_inv hs hlen hstep).2

/-- Whatever the reserved ranges and the calls, an allocation either call returns is
disjoint from every range stored before it. -/
theorem allocation_disjoint {dbg : Bool} (hreach : Transition.Reachable Initial (Calls dbg) a)
    {c : Call} (hlen : 0 < c.len) {p : Page} (hstep : step dbg a c = some (.allocated (.ok p), a')) :
    (∀ e ∈ a.map.ranges, (⟨p, p + c.len⟩ : Range Page).Disjoint e.1) ∧
      a'.map.ranges.Perm ((⟨p, p + c.len⟩, ⟨c.len⟩) :: a.map.ranges) := by
  have h := inv_of_reachable hreach
  cases c with
  | allocateContiguous len =>
    obtain ⟨⟨res, a''⟩, hres, hr⟩ := Option.map_eq_some_iff.mp hstep
    simp only [Prod.mk.injEq, Answer.allocated.injEq] at hr
    obtain ⟨rfl, rfl⟩ := hr
    obtain ⟨q, hq, -, -, hfree, hperm⟩ := allocateContiguous_ok h hlen hres
    cases hq
    exact ⟨hfree, hperm⟩
  | allocateContiguousAt atPage len =>
    simp only [RangedBtreeAllocator.step, Option.some.injEq, Prod.mk.injEq,
      Answer.allocated.injEq] at hstep
    obtain ⟨hres, rfl⟩ := hstep
    obtain ⟨-, hfree, hperm⟩ := (allocateContiguousAt_spec h hlen atPage).2.2 p hres
    exact ⟨hfree, hperm⟩
  | deallocateContiguous base len =>
    obtain ⟨a'', -, hr⟩ := Option.map_eq_some_iff.mp hstep
    cases hr

/-! ## Keeping to the range -/

/-- Every stored range lies inside the range the allocator hands out. -/
def Within (a : RangedBtreeAllocator) : Prop :=
  ∀ e ∈ a.map.ranges, a.range.start ≤ e.1.start ∧ e.1.stop ≤ a.range.stop

/-- While every stored range lies inside `R`, a run `allocate_contiguous` returns lies
inside `R`, except from an empty map with `len` larger than `R`. -/
theorem allocateContiguous_within (h : a.map.Inv) (hw : Within a)
    (hfit : a.map.ranges = [] → a.range.start.number + len ≤ a.range.stop.number) {p : Page}
    (hres : a.allocateContiguous len = some (.ok p, a')) :
    a.range.start ≤ p ∧ p.number + len ≤ a.range.stop.number := by
  obtain ⟨q, hq, -, hbranch⟩ := allocateContiguous_eq_some hres
  cases hq
  rcases hbranch with ⟨hf, rfl⟩ | ⟨first, hf, hgap, rfl⟩ | ⟨first, hf, -, -, hl, hroom⟩
  · exact ⟨le_rfl, hfit (h.ranges_eq_nil_of_firstKey hf)⟩
  · -- the first stored range starts inside `R`
    obtain ⟨e, he, rfl, -⟩ := h.exists_of_firstKey hf
    have hin : e.1.stop.number ≤ a.range.stop.number := (hw e he).2
    have hlt : e.1.start.number < e.1.stop.number := h.start_lt_stop he
    exact ⟨le_rfl, by omega⟩
  · -- the last stored range ends inside `R`
    obtain ⟨e, he, rfl, -⟩ := h.exists_of_lastKey hl
    have hin : a.range.start.number ≤ e.1.start.number := (hw e he).1
    have hlt : e.1.start.number < e.1.stop.number := h.start_lt_stop he
    exact ⟨show a.range.start.number ≤ e.1.stop.number by omega, hroom⟩

/-- While every stored range lies inside `R`, `allocate_contiguous` of at least one page
panics only at its `todo!()`: the map is not empty, and neither the gap before the first
stored range nor the space after the last one holds `len` pages. No `Page` subtraction
overflows and no `expect` fails. -/
theorem allocateContiguous_eq_none (h : a.map.Inv) (hw : Within a) (hlen : 0 < len)
    (hnone : a.allocateContiguous len = none) :
    ∃ first lastUsed, a.map.firstKey = some (some first) ∧
      a.map.lastKey = some (some lastUsed) ∧
      first.number < a.range.start.number + len ∧
      a.range.stop.number < lastUsed.number + len := by
  have hfirst := h.firstKey_eq
  unfold allocateContiguous at hnone
  rw [hfirst] at hnone
  cases hlow : a.map.lowestStart with
  | none =>
    -- an empty map takes any insert
    rw [hlow] at hnone hfirst
    have hnil := h.ranges_eq_nil_of_firstKey hfirst
    have hfree : ∀ e ∈ a.map.ranges, (⟨a.range.start, a.range.start + len⟩ : Range Page).Disjoint e.1 := by
      simp [hnil]
    exact absurd (Option.map_eq_none_iff.mp hnone) (insertExpect_ne_none h (lt_add_of_pos hlen) hfree)
  | some first =>
    rw [hlow] at hnone hfirst
    obtain ⟨e, he, rfl, hmin⟩ := h.exists_of_firstKey hfirst
    have hgap : e.1.start.sub a.range.start = some (e.1.start.number - a.range.start.number) :=
      Page.sub_eq_some.mpr ⟨(hw e he).1, rfl⟩
    have hstart : a.range.start.number ≤ e.1.start.number := (hw e he).1
    simp only [hgap] at hnone
    split_ifs at hnone with hfits
    · -- the gap before the first stored range holds the run
      have hfree : ∀ e' ∈ a.map.ranges,
          (⟨a.range.start, a.range.start + len⟩ : Range Page).Disjoint e'.1 := by
        intro e' he'
        apply Range.disjoint_of_stop_le
        show a.range.start.number + len ≤ e'.1.start.number
        have := hmin e' he'
        have : e.1.start.number ≤ e'.1.start.number := this
        omega
      exact absurd (Option.map_eq_none_iff.mp hnone)
        (insertExpect_ne_none h (lt_add_of_pos hlen) hfree)
    · have hne : a.map.ranges ≠ [] := List.ne_nil_of_mem he
      have hlast := h.lastKey_eq
      cases hhigh : a.map.highestEnd with
      | none =>
        rw [highestEnd, List.max?_eq_none_iff, List.map_eq_nil_iff] at hhigh
        exact absurd hhigh hne
      | some lastUsed =>
        rw [hhigh] at hlast
        rw [hlast] at hnone
        obtain ⟨e₂, he₂, rfl, hmax⟩ := h.exists_of_lastKey hlast
        have hroom : a.range.stop.sub e₂.1.stop =
            some (a.range.stop.number - e₂.1.stop.number) :=
          Page.sub_eq_some.mpr ⟨(hw e₂ he₂).2, rfl⟩
        have hstop : e₂.1.stop.number ≤ a.range.stop.number := (hw e₂ he₂).2
        simp only [hroom] at hnone
        split_ifs at hnone with hfits₂
        · -- the space after the last stored range holds the run
          have hfree : ∀ e' ∈ a.map.ranges,
              (⟨e₂.1.stop, e₂.1.stop + len⟩ : Range Page).Disjoint e'.1 :=
            fun e' he' => (Range.disjoint_of_stop_le (hmax e' he')).symm
          exact absurd (Option.map_eq_none_iff.mp hnone)
            (insertExpect_ne_none h (lt_add_of_pos hlen) hfree)
        · exact ⟨e.1.start, e₂.1.stop, hfirst, hlast, by omega, by omega⟩

/-- A call that keeps to the range: an allocation of at least one page and no more than the
range holds, a placed allocation inside the range, or a deallocation. -/
def Call.Fits (range : Range Page) : Call → Prop
  | .allocateContiguous len => 0 < len ∧ range.start.number + len ≤ range.stop.number
  | .allocateContiguousAt atPage len =>
    0 < len ∧ range.start ≤ atPage ∧ atPage.number + len ≤ range.stop.number
  | .deallocateContiguous _ _ => True

/-- The allocator keeps its map's invariant and every stored range inside its range. -/
structure Safe (a : RangedBtreeAllocator) : Prop where
  inv : a.map.Inv
  within : Within a

theorem within_of_perm {r : Range Page} {v : Meta} (hw : Within a) (hrange : a'.range = a.range)
    (hperm : a'.map.ranges.Perm ((r, v) :: a.map.ranges))
    (hr : a.range.start ≤ r.start ∧ r.stop ≤ a.range.stop) : Within a' := by
  intro e he
  rw [hrange]
  rcases List.mem_cons.mp (hperm.subset he) with rfl | he
  · exact hr
  · exact hw e he

theorem Safe.step {dbg : Bool} {c : Call} {r : Answer} (hs : Safe a) (hc : c.Fits a.range)
    (hstep : step dbg a c = some (r, a')) : Safe a' := by
  cases c with
  | allocateContiguous len =>
    obtain ⟨⟨res, a''⟩, hres, hr⟩ := Option.map_eq_some_iff.mp hstep
    cases hr
    obtain ⟨p, rfl, hrange, hinv, -, hperm⟩ := allocateContiguous_ok hs.inv hc.1 hres
    obtain ⟨hp, hpend⟩ := allocateContiguous_within hs.inv hs.within (fun _ => hc.2) hres
    exact ⟨hinv, within_of_perm hs.within hrange hperm ⟨hp, hpend⟩⟩
  | allocateContiguousAt atPage len =>
    simp only [RangedBtreeAllocator.step, Option.some.injEq, Prod.mk.injEq] at hstep
    obtain ⟨hres, rfl⟩ := hstep
    obtain ⟨hrange, hinv, hok⟩ := allocateContiguousAt_spec hs.inv hc.1 atPage
    refine ⟨hinv, ?_⟩
    cases hat : (a.allocateContiguousAt atPage len).1 with
    | error e =>
      rw [allocateContiguousAt_eq_error hat]
      exact hs.within
    | ok p =>
      obtain ⟨rfl, -, hperm⟩ := hok p hat
      exact within_of_perm hs.within hrange hperm ⟨hc.2.1, hc.2.2⟩
  | deallocateContiguous base len =>
    obtain ⟨a'', he, hr⟩ := Option.map_eq_some_iff.mp hstep
    cases hr
    obtain ⟨hrange, hmap⟩ := deallocateContiguous_eq_some he
    refine ⟨hmap ▸ hs.inv.remove base, fun e he' => ?_⟩
    rw [hmap] at he'
    rw [hrange]
    exact hs.within e (hs.inv.mem_remove_ranges.mp he').1

theorem Safe.addAllocation {allocation : Range Page} (hs : Safe a)
    (hin : a.range.start ≤ allocation.start ∧ allocation.stop ≤ a.range.stop) :
    Safe (a.addAllocation allocation) := by
  obtain ⟨hrange, hinv⟩ := addAllocation_inv hs.inv allocation
  refine ⟨hinv, ?_⟩
  unfold RangedBtreeAllocator.addAllocation at hrange hinv ⊢
  dsimp only at hrange hinv ⊢
  split_ifs with hne
  · -- the allocation is stored whole, and it lies inside the range
    have hlt : allocation.start < allocation.stop :=
      lt_of_le_of_lt (le_max_left _ _) (lt_of_lt_of_le hne (min_le_left _ _))
    cases hins : (a.map.insert allocation ⟨_⟩).1 with
    | error u =>
      intro e he
      rw [insert_eq_self_of_error hins] at he
      exact hs.within e he
    | ok u => exact within_of_perm hs.within rfl (hs.inv.insert_ranges_perm hlt hins) hin
  · exact hs.within

/-- Reserved ranges inside `R`, then calls that keep to `R`. -/
def FittingRun (dbg : Bool) : RangedBtreeAllocator → Prop :=
  Transition.Reachable
    (fun a => ∃ range allocations,
      (∀ x ∈ allocations, range.start ≤ x.start ∧ x.stop ≤ range.stop) ∧
        a = (new range).addAllocations allocations)
    (fun a a' => ∃ c r, c.Fits a.range ∧ step dbg a c = some (r, a'))

theorem safe_addAllocations {range : Range Page} :
    ∀ {allocations : List (Range Page)} {a : RangedBtreeAllocator}, Safe a → a.range = range →
      (∀ x ∈ allocations, range.start ≤ x.start ∧ x.stop ≤ range.stop) →
      Safe (a.addAllocations allocations)
  | [], _, hs, _, _ => hs
  | x :: xs, a, hs, hrange, hin => by
    show Safe ((a.addAllocation x).addAllocations xs)
    have hx := hin x List.mem_cons_self
    have hs' : Safe (a.addAllocation x) := hs.addAllocation (hrange ▸ hx)
    have hrange' : (a.addAllocation x).range = range :=
      (addAllocation_inv hs.inv x).1.trans hrange
    exact safe_addAllocations hs' hrange' fun y hy => hin y (List.mem_cons_of_mem _ hy)

theorem safe_of_fittingRun {dbg : Bool} (hrun : FittingRun dbg a) : Safe a := by
  refine Transition.Reachable.induction (P := Safe) ?_ ?_ hrun
  · rintro _ ⟨range, allocations, hin, rfl⟩
    exact safe_addAllocations ⟨inv_new, by simp [Within, new, ranges]⟩ rfl hin
  · rintro s s' hs ⟨c, r, hc, hstep⟩
    exact hs.step hc hstep

/-- Over reserved ranges inside `R` and calls that keep to `R`, every allocation
`allocate_contiguous` returns lies inside `R`, and it panics only at its `todo!()`. -/
theorem fitting_allocation_within {dbg : Bool} (hrun : FittingRun dbg a) (hlen : 0 < len)
    (hfit : a.range.start.number + len ≤ a.range.stop.number) :
    (∀ p, a.allocateContiguous len = some (.ok p, a') →
      a.range.start ≤ p ∧ p.number + len ≤ a.range.stop.number) ∧
    (a.allocateContiguous len = none →
      ∃ first lastUsed, a.map.firstKey = some (some first) ∧
        a.map.lastKey = some (some lastUsed) ∧
        first.number < a.range.start.number + len ∧
        a.range.stop.number < lastUsed.number + len) := by
  have hs := safe_of_fittingRun hrun
  exact ⟨fun _ hres => allocateContiguous_within hs.inv hs.within (fun _ => hfit) hres,
    allocateContiguous_eq_none hs.inv hs.within hlen⟩

/-- The range of the crate's tests, pages `0x10` to `0x100`, with nothing reserved: four pages
are allocated at its start, inside it. -/
theorem fitting_allocation_within_new :
    (∀ p, (new ⟨⟨0x10⟩, ⟨0x100⟩⟩).allocateContiguous 4 =
        some (.ok p, ⟨⟨⟨0x10⟩, ⟨0x100⟩⟩, ⟨[(.range ⟨⟨0x10⟩, (⟨0x10⟩ : Page) + 4⟩, ⟨4⟩)]⟩⟩) →
      (new ⟨⟨0x10⟩, ⟨0x100⟩⟩).range.start ≤ p ∧
        p.number + 4 ≤ (new ⟨⟨0x10⟩, ⟨0x100⟩⟩).range.stop.number) ∧
    ((new ⟨⟨0x10⟩, ⟨0x100⟩⟩).allocateContiguous 4 = none →
      ∃ first lastUsed, (new ⟨⟨0x10⟩, ⟨0x100⟩⟩).map.firstKey = some (some first) ∧
        (new ⟨⟨0x10⟩, ⟨0x100⟩⟩).map.lastKey = some (some lastUsed) ∧
        first.number < (new ⟨⟨0x10⟩, ⟨0x100⟩⟩).range.start.number + 4 ∧
        (new ⟨⟨0x10⟩, ⟨0x100⟩⟩).range.stop.number < lastUsed.number + 4) :=
  fitting_allocation_within
    (show FittingRun true (new ⟨⟨0x10⟩, ⟨0x100⟩⟩) from
      Transition.Reachable.of_init ⟨⟨⟨0x10⟩, ⟨0x100⟩⟩, [], by simp, rfl⟩)
    (by decide) (by decide)

/-! ## Past the free range -/

/-- From an empty map `allocate_contiguous(len)` returns `R.start` and stores
`R.start..R.start + len` for every `len`, also one larger than `R`; and a reserved range
that starts below `R` makes the next `allocate_contiguous` panic on the `Page` subtraction
`first - R.start`. -/
theorem allocate_contiguous_overruns_range :
    (∀ (range : Range Page) (len : Nat), (new range).allocateContiguous len =
        some (.ok range.start, ⟨range, ⟨[(.range ⟨range.start, range.start + len⟩, ⟨len⟩)]⟩⟩)) ∧
      ((new ⟨⟨0x10⟩, ⟨0x100⟩⟩).addAllocations [⟨⟨0x8⟩, ⟨0x20⟩⟩]).map.firstKey =
        some (some ⟨0x8⟩) ∧
      Page.sub ⟨0x8⟩ ⟨0x10⟩ = none ∧
      ((new ⟨⟨0x10⟩, ⟨0x100⟩⟩).addAllocations [⟨⟨0x8⟩, ⟨0x20⟩⟩]).allocateContiguous 1 = none :=
  ⟨fun _ _ => rfl, by decide, by decide, by decide⟩

end Popcorn.RangedBtreeAllocator
