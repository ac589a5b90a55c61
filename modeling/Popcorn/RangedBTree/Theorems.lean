import Mathlib
import Popcorn.Lib.Run
import Popcorn.RangedBTree.Basic

/-!
# What the ranged B-tree map keeps and answers

The map keeps one invariant, `Inv`: every key of the inner map is a non-empty range, in
order, each ending at or before the next one starts. Under it the comparison with any probe
the map searches with (a point, or a non-empty range) is banded along the keys, so the
search of `SortedMap` finds what a scan would: `get_entry_at_point` finds the one range
containing the point, `insert` is refused exactly on an overlap, and `remove` takes out the
one range containing the point. `Contract` collects what a caller may rely on at a state,
and `ranged_map_contract` shows it at every state a sequence of inserts of non-empty ranges
and removes reaches.
-/

namespace Popcorn.RangedBTree

variable {K V : Type} [LinearOrder K]

/-- A key that is a non-empty range. -/
def KeyType.NonEmpty : KeyType K → Prop
  | .range r => r.start < r.stop
  | .point _ => False

/-- Key `a` is a range that ends at or before range `b` starts. -/
def KeyType.Before : KeyType K → KeyType K → Prop
  | .range a, .range b => a.stop ≤ b.start
  | _, _ => False

namespace RangedBTreeMap

variable {m : RangedBTreeMap K V}

/-- The invariant of the inner map: non-empty range keys, in order and disjoint. -/
structure Inv (m : RangedBTreeMap K V) : Prop where
  nonEmpty : ∀ e ∈ m.inner, e.1.NonEmpty
  sorted : m.inner.Pairwise fun a b => a.1.Before b.1

theorem inv_new : Inv (new : RangedBTreeMap K V) :=
  ⟨by simp, by simp⟩

theorem Inv.exists_range (h : Inv m) {k : KeyType K} {v : V} (hm : (k, v) ∈ m.inner) :
    ∃ r, k = .range r ∧ r.start < r.stop := by
  have hne := h.nonEmpty _ hm
  cases k with
  | range r => exact ⟨r, rfl, hne⟩
  | point p => simp [KeyType.NonEmpty] at hne

/-- A property of every ordered pair of stored ranges holds along the inner map. -/
theorem Inv.pairwise (h : Inv m) {S : KeyType K × V → KeyType K × V → Prop}
    (hS : ∀ ra rb va vb, ra.start < ra.stop → rb.start < rb.stop → ra.stop ≤ rb.start →
      S (.range ra, va) (.range rb, vb)) :
    m.inner.Pairwise S := by
  refine h.sorted.imp_of_mem fun {a b} ha hb hab => ?_
  obtain ⟨ka, va⟩ := a
  obtain ⟨kb, vb⟩ := b
  obtain ⟨ra, rfl, hra⟩ := h.exists_range ha
  obtain ⟨rb, rfl, hrb⟩ := h.exists_range hb
  exact hS ra rb va vb hra hrb hab

/-! ## The comparison is banded along the keys -/

theorem Inv.banded_point (h : Inv m) (p : K) :
    SortedMap.Banded KeyType.cmp (.point p) m.inner :=
  h.pairwise fun ra rb _ _ hra _ hab => by
    simp only [cmp_point_range_lt_iff]
    -- the point is below `ra`, which ends before `rb` starts
    intro hp
    order

theorem Inv.unique_point (h : Inv m) (p : K) :
    SortedMap.Unique KeyType.cmp (.point p) m.inner :=
  h.pairwise fun ra rb _ _ _ _ hab => by
    simp only [cmp_point_range_eq_iff]
    rintro ⟨ha, hb⟩
    exact Range.disjoint_of_stop_le hab p ha hb

theorem Inv.banded_range (h : Inv m) {r : Range K} (hr : r.start < r.stop) :
    SortedMap.Banded KeyType.cmp (.range r) m.inner :=
  h.pairwise fun ra rb _ _ hra hrb hab => by
    simp only [cmp_range_range_lt_iff]
    -- the new range ends before `ra` starts, so before `rb` starts
    intro hlt
    constructor <;> order

/-! ## Lookup -/

theorem Inv.getEntryAtPoint_eq_some_iff (h : Inv m) {p : K} {v : V} :
    m.getEntryAtPoint p = some v ↔ ∃ r, (r, v) ∈ m.ranges ∧ r.contains p := by
  rw [getEntryAtPoint, SortedMap.get_eq_some_iff (h.banded_point p) (h.unique_point p)]
  constructor
  · rintro ⟨k, hm, heq⟩
    obtain ⟨r, rfl, -⟩ := h.exists_range hm
    exact ⟨r, mem_ranges.mpr hm, cmp_point_range_eq_iff.mp heq⟩
  · rintro ⟨r, hm, hp⟩
    exact ⟨.range r, mem_ranges.mp hm, cmp_point_range_eq_iff.mpr hp⟩

/-! ## Insertion -/

/-- Under the invariant a non-empty range compares equal to a stored key exactly when it
overlaps a stored range. -/
theorem Inv.exists_eq_iff (h : Inv m) {r : Range K} (hr : r.start < r.stop) :
    (∃ e ∈ m.inner, KeyType.cmp (.range r) e.1 = .eq) ↔ ∃ e ∈ m.ranges, ¬ r.Disjoint e.1 := by
  constructor
  · rintro ⟨⟨k, v⟩, hm, heq⟩
    obtain ⟨r', rfl, hr'⟩ := h.exists_range hm
    exact ⟨(r', v), mem_ranges.mpr hm, (cmp_range_range_eq_iff hr hr').mp heq⟩
  · rintro ⟨⟨r', v⟩, hm, hov⟩
    obtain ⟨_, heq, hr'⟩ := h.exists_range (mem_ranges.mp hm)
    cases heq
    exact ⟨_, mem_ranges.mp hm, (cmp_range_range_eq_iff hr hr').mpr hov⟩

theorem Inv.insert_eq_error_iff (h : Inv m) {r : Range K} {v : V} (hr : r.start < r.stop) :
    (m.insert r v).1 = .error () ↔ ∃ e ∈ m.ranges, ¬ r.Disjoint e.1 := by
  rw [← h.exists_eq_iff hr, ← SortedMap.tryInsert_eq_none_iff (h.banded_range hr)]
  cases ht : SortedMap.tryInsert KeyType.cmp (.range r) v m.inner <;> simp [insert, ht]

/-- A refused insertion leaves the map as it was. -/
theorem insert_eq_self_of_error {r : Range K} {v : V} (he : (m.insert r v).1 = .error ()) :
    (m.insert r v).2 = m := by
  cases ht : SortedMap.tryInsert KeyType.cmp (.range r) v m.inner <;> simp_all [insert]

/-- Where an accepted insertion puts the new range: after the ranges below it and before
the ranges above it. -/
theorem Inv.insert_eq_ok (h : Inv m) {r : Range K} {v : V} (hr : r.start < r.stop)
    (hok : (m.insert r v).1 = .ok ()) :
    ∃ below above, m.inner = below ++ above ∧
      (m.insert r v).2.inner = below ++ (.range r, v) :: above ∧
      (∀ e ∈ below, KeyType.cmp (.range r) e.1 = .gt) ∧
      ∀ e ∈ above, KeyType.cmp (.range r) e.1 = .lt := by
  cases ht : SortedMap.tryInsert KeyType.cmp (.range r) v m.inner with
  | none => simp [insert, ht] at hok
  | some l' =>
    obtain ⟨below, above, hl, hl', hgt, hlt⟩ := SortedMap.tryInsert_eq_some (h.banded_range hr) ht
    exact ⟨below, above, hl, by simp [insert, ht, hl'], hgt, hlt⟩

theorem Inv.insert_ranges_perm (h : Inv m) {r : Range K} {v : V} (hr : r.start < r.stop)
    (hok : (m.insert r v).1 = .ok ()) :
    (m.insert r v).2.ranges.Perm ((r, v) :: m.ranges) := by
  obtain ⟨below, above, hl, hl', -, -⟩ := h.insert_eq_ok hr hok
  have hperm : (m.insert r v).2.inner.Perm ((.range r, v) :: m.inner) := by
    rw [hl', hl]
    exact List.perm_middle
  exact hperm.filterMap _

theorem Inv.insert (h : Inv m) {r : Range K} {v : V} (hr : r.start < r.stop) :
    Inv (m.insert r v).2 := by
  cases hres : (m.insert r v).1 with
  | error u =>
    rw [insert_eq_self_of_error (by rw [hres])]
    exact h
  | ok u =>
    obtain ⟨below, above, hl, hl', hgt, hlt⟩ := h.insert_eq_ok hr hres
    have hsorted := h.sorted
    rw [hl, List.pairwise_append] at hsorted
    constructor
    · rw [hl']
      intro e he
      simp only [List.mem_append, List.mem_cons] at he
      rcases he with he | rfl | he
      · exact h.nonEmpty e (hl ▸ List.mem_append_left _ he)
      · exact hr
      · exact h.nonEmpty e (hl ▸ List.mem_append_right _ he)
    · rw [hl', List.pairwise_append, List.pairwise_cons]
      -- the new range ends before every range above it and starts after every one below
      have habove : ∀ b ∈ above, (KeyType.range r).Before b.1 := by
        intro b hb
        obtain ⟨rb, hrb, -⟩ := h.exists_range (hl ▸ List.mem_append_right below hb)
        have := hlt b hb
        rw [hrb, cmp_range_range_lt_iff] at this
        rw [hrb]
        exact this.2
      have hbelow : ∀ a ∈ below, a.1.Before (.range r) := by
        intro a ha
        obtain ⟨ra, hra, -⟩ := h.exists_range (hl ▸ List.mem_append_left above ha)
        have := hgt a ha
        rw [hra, cmp_range_range_gt_iff] at this
        rw [hra]
        exact this
      refine ⟨hsorted.1, ⟨habove, hsorted.2.1⟩, fun a ha b hb => ?_⟩
      rcases List.mem_cons.mp hb with rfl | hb
      · exact hbelow a ha
      · exact hsorted.2.2 a ha b hb

/-! ## Removal -/

theorem remove_fst_eq (p : K) : (m.remove p).1 = m.getEntryAtPoint p :=
  SortedMap.remove_fst

theorem Inv.remove_inner (h : Inv m) (p : K) :
    (m.remove p).2.inner = m.inner.filter fun e => KeyType.cmp (.point p) e.1 != .eq :=
  SortedMap.remove_snd (h.banded_point p) (h.unique_point p)

theorem Inv.mem_remove_ranges (h : Inv m) {p : K} {r : Range K} {v : V} :
    (r, v) ∈ (m.remove p).2.ranges ↔ (r, v) ∈ m.ranges ∧ ¬ r.contains p := by
  simp [h.remove_inner p, cmp_point_range_eq_iff]

theorem Inv.remove (h : Inv m) (p : K) : Inv (m.remove p).2 := by
  have hsub : (m.remove p).2.inner.Sublist m.inner := by
    rw [h.remove_inner p]
    exact List.filter_sublist
  exact ⟨fun e he => h.nonEmpty e (hsub.subset he), h.sorted.sublist hsub⟩

/-! ## The ends of the map -/

theorem Inv.firstKey_eq (h : Inv m) : m.firstKey = some m.lowestStart := by
  cases hl : m.inner with
  | nil => simp [firstKey, lowestStart, ranges, hl]
  | cons e l =>
    obtain ⟨k, v⟩ := e
    obtain ⟨r, rfl, hr⟩ := h.exists_range (hl ▸ List.mem_cons_self)
    have hsorted := h.sorted
    rw [hl, List.pairwise_cons] at hsorted
    -- the first range starts before every later one
    have hle : ∀ b ∈ (m.ranges.map (·.1.start)), r.start ≤ b := by
      simp only [List.mem_map, Prod.exists, mem_ranges, hl, List.mem_cons]
      rintro b ⟨r', v', hm | hm, rfl⟩
      · cases hm
        exact le_rfl
      · have hb : r.stop ≤ r'.start := hsorted.1 _ hm
        exact le_of_lt (lt_of_lt_of_le hr hb)
    have hmem : r.start ∈ m.ranges.map (·.1.start) :=
      List.mem_map.mpr ⟨(r, v), mem_ranges.mpr (hl ▸ List.mem_cons_self), rfl⟩
    simp only [firstKey, hl, List.head?_cons, lowestStart, Option.some.injEq]
    exact (List.min?_eq_some_iff.mpr ⟨hmem, hle⟩).symm

theorem Inv.lastKey_eq (h : Inv m) : m.lastKey = some m.highestEnd := by
  rcases List.eq_nil_or_concat m.inner with hl | ⟨l, ⟨k, v⟩, hl⟩
  · simp [lastKey, highestEnd, ranges, hl]
  · rw [List.concat_eq_append] at hl
    have hlast : (k, v) ∈ m.inner := by simp [hl]
    obtain ⟨r, rfl, hr⟩ := h.exists_range hlast
    have hsorted := h.sorted
    rw [hl, List.pairwise_append] at hsorted
    -- the last range ends after every earlier one
    have hle : ∀ b ∈ (m.ranges.map (·.1.stop)), b ≤ r.stop := by
      simp only [List.mem_map, Prod.exists, mem_ranges, hl, List.mem_append, List.mem_singleton]
      rintro b ⟨r', v', hm | hm, rfl⟩
      · have hb : r'.stop ≤ r.start := hsorted.2.2 _ hm _ (List.mem_singleton_self _)
        exact le_of_lt (lt_of_le_of_lt hb hr)
      · cases hm
        exact le_rfl
    have hmem : r.stop ∈ m.ranges.map (·.1.stop) :=
      List.mem_map.mpr ⟨(r, v), mem_ranges.mpr hlast, rfl⟩
    simp only [lastKey, hl, List.getLast?_append, List.getLast?_singleton, Option.some_or,
      highestEnd, Option.some.injEq]
    exact (List.max?_eq_some_iff.mpr ⟨hmem, hle⟩).symm

theorem Inv.start_lt_stop (h : Inv m) {e : Range K × V} (he : e ∈ m.ranges) :
    e.1.start < e.1.stop := by
  obtain ⟨r, hr, hlt⟩ := h.exists_range (mem_ranges.mp he)
  cases hr
  exact hlt

theorem Inv.ranges_eq_nil_of_firstKey (h : Inv m) (hf : m.firstKey = some none) :
    m.ranges = [] := by
  rw [h.firstKey_eq, Option.some.injEq, lowestStart, List.min?_eq_none_iff,
    List.map_eq_nil_iff] at hf
  exact hf

/-- The key `first_key` returns is the start of a stored range, and no stored range starts
below it. -/
theorem Inv.exists_of_firstKey (h : Inv m) {first : K} (hf : m.firstKey = some (some first)) :
    ∃ e ∈ m.ranges, e.1.start = first ∧ ∀ e' ∈ m.ranges, first ≤ e'.1.start := by
  rw [h.firstKey_eq, Option.some.injEq, lowestStart, List.min?_eq_some_iff] at hf
  obtain ⟨hmem, hle⟩ := hf
  obtain ⟨e, he, rfl⟩ := List.mem_map.mp hmem
  exact ⟨e, he, rfl, fun e' he' => hle _ (List.mem_map_of_mem he')⟩

/-- The key `last_key` returns is the end of a stored range, and no stored range ends above
it. -/
theorem Inv.exists_of_lastKey (h : Inv m) {last : K} (hl : m.lastKey = some (some last)) :
    ∃ e ∈ m.ranges, e.1.stop = last ∧ ∀ e' ∈ m.ranges, e'.1.stop ≤ last := by
  rw [h.lastKey_eq, Option.some.injEq, highestEnd, List.max?_eq_some_iff] at hl
  obtain ⟨hmem, hle⟩ := hl
  obtain ⟨e, he, rfl⟩ := List.mem_map.mp hmem
  exact ⟨e, he, rfl, fun e' he' => hle _ (List.mem_map_of_mem he')⟩

/-- `used_regions` never reaches its `unreachable!()`: it lists the stored ranges. -/
theorem Inv.usedRegions_eq (h : Inv m) : m.usedRegions = some (m.ranges.map Prod.fst) := by
  obtain ⟨inner⟩ := m
  have hne : ∀ e ∈ inner, e.1.NonEmpty := h.nonEmpty
  simp only [usedRegions, ranges]
  clear h
  induction inner with
  | nil => rfl
  | cons e l ih =>
    obtain ⟨k, v⟩ := e
    have hl := ih fun e he => hne e (List.mem_cons_of_mem _ he)
    cases k with
    | range r => simp [List.mapM_cons, hl]
    | point p => simpa [KeyType.NonEmpty] using hne _ List.mem_cons_self

/-- Stored ranges are pairwise disjoint. -/
theorem Inv.ranges_disjoint (h : Inv m) : m.ranges.Pairwise fun a b => a.1.Disjoint b.1 := by
  rw [ranges, List.pairwise_filterMap]
  refine h.pairwise fun ra rb va vb _ _ hab => ?_
  rintro ⟨r, v⟩ hr ⟨r', v'⟩ hr'
  simp only [Option.some.injEq, Prod.mk.injEq] at hr hr'
  obtain ⟨rfl, rfl⟩ := hr
  obtain ⟨rfl, rfl⟩ := hr'
  exact Range.disjoint_of_stop_le hab

/-! ## Every state a run reaches -/

/-- One operation of a run: an insert of a non-empty range, or a remove. -/
def Op (m m' : RangedBTreeMap K V) : Prop :=
  (∃ range value, range.start < range.stop ∧ (m.insert range value).2 = m') ∨
    ∃ point, (m.remove point).2 = m'

theorem Inv.op {m' : RangedBTreeMap K V} (h : Inv m) (hop : Op m m') : Inv m' := by
  rcases hop with ⟨r, v, hr, rfl⟩ | ⟨p, rfl⟩
  · exact h.insert hr
  · exact h.remove p

theorem inv_of_reachable (hm : Transition.Reachable (· = new) Op m) : Inv m :=
  Transition.Reachable.induction (fun _ h₀ => h₀ ▸ inv_new) (fun _ _ h hop => h.op hop) hm

/-- What a caller of the map may rely on at a state. -/
structure Contract (m : RangedBTreeMap K V) : Prop where
  disjoint : m.ranges.Pairwise fun a b => a.1.Disjoint b.1
  insert_error_iff : ∀ (r : Range K) (v : V), r.start < r.stop →
    ((m.insert r v).1 = .error () ↔ ∃ e ∈ m.ranges, ¬ r.Disjoint e.1)
  insert_error_unchanged : ∀ (r : Range K) (v : V), (m.insert r v).1 = .error () →
    (m.insert r v).2 = m
  insert_ok_ranges : ∀ (r : Range K) (v : V), r.start < r.stop → (m.insert r v).1 = .ok () →
    (m.insert r v).2.ranges.Perm ((r, v) :: m.ranges)
  getEntryAtPoint_iff : ∀ (p : K) (v : V),
    m.getEntryAtPoint p = some v ↔ ∃ r, (r, v) ∈ m.ranges ∧ r.contains p
  remove_value : ∀ p : K, (m.remove p).1 = m.getEntryAtPoint p
  remove_ranges : ∀ (p : K) (r : Range K) (v : V),
    (r, v) ∈ (m.remove p).2.ranges ↔ (r, v) ∈ m.ranges ∧ ¬ r.contains p
  firstKey_eq : m.firstKey = some m.lowestStart
  lastKey_eq : m.lastKey = some m.highestEnd

theorem Inv.contract (h : Inv m) : Contract m where
  disjoint := h.ranges_disjoint
  insert_error_iff _ _ hr := h.insert_eq_error_iff hr
  insert_error_unchanged _ _ he := insert_eq_self_of_error he
  insert_ok_ranges _ _ hr hok := h.insert_ranges_perm hr hok
  getEntryAtPoint_iff _ _ := h.getEntryAtPoint_eq_some_iff
  remove_value := remove_fst_eq
  remove_ranges _ _ _ := h.mem_remove_ranges
  firstKey_eq := h.firstKey_eq
  lastKey_eq := h.lastKey_eq

theorem ranged_map_contract (hm : Transition.Reachable (· = new) Op m) : Contract m :=
  (inv_of_reachable hm).contract

/-- The map of the source's test `add_and_retrieve`, after `0..5` and `5..255`. -/
theorem ranged_map_contract_add_and_retrieve :
    Contract (⟨[(.range ⟨0, 5⟩, 0), (.range ⟨5, 255⟩, 1)]⟩ : RangedBTreeMap Nat Nat) :=
  ranged_map_contract ⟨new, rfl, .tail (.single (.inl ⟨⟨0, 5⟩, 0, by decide, rfl⟩))
    (.inl ⟨⟨5, 255⟩, 1, by decide, rfl⟩)⟩

end RangedBTreeMap

end Popcorn.RangedBTree
