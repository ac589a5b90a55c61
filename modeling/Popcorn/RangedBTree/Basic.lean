import Mathlib
import Popcorn.Lib.SortedMap
import Popcorn.Memory.Frame

/-!
# The ranged B-tree map

`ranged_btree::RangedBTreeMap<K, V>` stores values under disjoint ranges of keys in an
`alloc::collections::BTreeMap<KeyType<K>, V>`. A key is either a range or a point, and
`KeyType::cmp` makes two overlapping ranges, or a point and a range containing it, compare
`Equal`; that is not a total order, and the map works only because the ranges it stores
stay disjoint. The `BTreeMap` is modelled by `SortedMap`: its entries in order, searched
from the lowest key up with `KeyType::cmp`.

`first_key`, `last_key` and `used_regions` have an `unreachable!()` arm for a stored point
key: they return `none` there, the panic.
-/

namespace Popcorn.Range

/-- A range that ends at or before another one starts shares no key with it. -/
theorem disjoint_of_stop_le {K : Type} [LinearOrder K] {a b : Range K} (h : a.stop ≤ b.start) :
    a.Disjoint b :=
  fun _ ha hb => absurd (lt_of_lt_of_le ha.2 h) (not_lt.mpr hb.1)

end Popcorn.Range

namespace Popcorn.RangedBTree

/-- `KeyType<T>`: what the inner `BTreeMap` is keyed by. -/
inductive KeyType (T : Type) where
  | range (r : Range T)
  | point (p : T)
  deriving DecidableEq, Repr

variable {K V : Type} [LinearOrder K]

/-- The arm of `KeyType::cmp` for a point against a range; the range-against-point arm is
its reverse (`other.cmp(self).reverse()`). -/
def cmpPointRange (a : K) (b : Range K) : Ordering :=
  if b.start > a then .lt
  else if b.stop ≤ a then .gt
  else .eq

/-- `impl Ord for KeyType`. -/
def KeyType.cmp : KeyType K → KeyType K → Ordering
  | .point a, .point b => compare a b
  | .point a, .range b => cmpPointRange a b
  | .range a, .point b => (cmpPointRange b a).swap
  | .range a, .range b =>
    if a.start ≥ b.stop then .gt
    else if a.stop ≤ b.start then .lt
    else .eq

/-- `RangedBTreeMap<K, V>`: the entries of the inner `BTreeMap`, in key order. -/
structure RangedBTreeMap (K V : Type) where
  inner : List (KeyType K × V)
  deriving DecidableEq, Repr

namespace RangedBTreeMap

/-- `RangedBTreeMap::new`. -/
def new : RangedBTreeMap K V := ⟨[]⟩

/-- `RangedBTreeMap::insert`: `try_insert` under the range key. On the error the map is
the one it was called on. -/
def insert (m : RangedBTreeMap K V) (range : Range K) (value : V) :
    Except Unit Unit × RangedBTreeMap K V :=
  match SortedMap.tryInsert KeyType.cmp (.range range) value m.inner with
  | some inner => (.ok (), ⟨inner⟩)
  | none => (.error (), m)

/-- `RangedBTreeMap::get_entry_at_point`. -/
def getEntryAtPoint (m : RangedBTreeMap K V) (point : K) : Option V :=
  SortedMap.get KeyType.cmp (.point point) m.inner

/-- `RangedBTreeMap::first_key`: the start of the first key; the outer `none` is the
`unreachable!()` of a point key. -/
def firstKey (m : RangedBTreeMap K V) : Option (Option K) :=
  match m.inner.head? with
  | none => some none
  | some (.range r, _) => some (some r.start)
  | some (.point _, _) => none

/-- `RangedBTreeMap::last_key`: the end of the last key; the outer `none` is the
`unreachable!()` of a point key. -/
def lastKey (m : RangedBTreeMap K V) : Option (Option K) :=
  match m.inner.getLast? with
  | none => some none
  | some (.range r, _) => some (some r.stop)
  | some (.point _, _) => none

/-- `RangedBTreeMap::used_regions`: the keys in order, or `none` at the `unreachable!()` of
a point key. -/
def usedRegions (m : RangedBTreeMap K V) : Option (List (Range K)) :=
  m.inner.mapM fun e =>
    match e.1 with
    | .range r => some r
    | .point _ => none

/-- `RangedBTreeMap::remove`. -/
def remove (m : RangedBTreeMap K V) (point : K) : Option V × RangedBTreeMap K V :=
  ((SortedMap.remove KeyType.cmp (.point point) m.inner).1,
    ⟨(SortedMap.remove KeyType.cmp (.point point) m.inner).2⟩)

/-- The stored ranges with their values: the map as its users see it. -/
def ranges (m : RangedBTreeMap K V) : List (Range K × V) :=
  m.inner.filterMap fun e =>
    match e.1 with
    | .range r => some (r, e.2)
    | .point _ => none

/-- The start of the lowest stored range. -/
def lowestStart (m : RangedBTreeMap K V) : Option K :=
  (m.ranges.map (·.1.start)).min?

/-- The end of the highest stored range. -/
def highestEnd (m : RangedBTreeMap K V) : Option K :=
  (m.ranges.map (·.1.stop)).max?

omit [LinearOrder K] in
@[simp] theorem mem_ranges {m : RangedBTreeMap K V} {r : Range K} {v : V} :
    (r, v) ∈ m.ranges ↔ (.range r, v) ∈ m.inner := by
  simp only [ranges, List.mem_filterMap]
  constructor
  · rintro ⟨⟨k, v'⟩, hm, hk⟩
    cases k with
    | range r' => simp_all
    | point p => simp at hk
  · intro hm
    exact ⟨_, hm, rfl⟩

omit [LinearOrder K] in
@[simp] theorem inner_new : (new : RangedBTreeMap K V).inner = [] := rfl

end RangedBTreeMap

/-! ## The comparison, arm by arm -/

section Cmp

variable {p : K} {a b : Range K}

theorem cmp_point_range_eq_iff : KeyType.cmp (.point p) (.range b) = .eq ↔ b.contains p := by
  simp only [KeyType.cmp, cmpPointRange, Range.contains]
  split_ifs <;> simp_all

theorem cmp_point_range_lt_iff : KeyType.cmp (.point p) (.range b) = .lt ↔ p < b.start := by
  simp only [KeyType.cmp, cmpPointRange]
  split_ifs <;> simp_all

theorem cmp_range_range_gt_iff : KeyType.cmp (.range a) (.range b) = .gt ↔ b.stop ≤ a.start := by
  simp only [KeyType.cmp]
  split_ifs <;> simp_all

theorem cmp_range_range_lt_iff :
    KeyType.cmp (.range a) (.range b) = .lt ↔ a.start < b.stop ∧ a.stop ≤ b.start := by
  simp only [KeyType.cmp]
  split_ifs <;> simp_all

/-- Two non-empty ranges compare equal exactly when they share a key. -/
theorem cmp_range_range_eq_iff (ha : a.start < a.stop) (hb : b.start < b.stop) :
    KeyType.cmp (.range a) (.range b) = .eq ↔ ¬ a.Disjoint b := by
  simp only [KeyType.cmp]
  split_ifs with h₁ h₂
  · simp only [false_iff, not_not]
    exact (Range.disjoint_of_stop_le h₁).symm
  · simp only [false_iff, not_not]
    exact Range.disjoint_of_stop_le h₂
  · -- the later of the two starts lies in both
    simp only [true_iff]
    intro hdis
    apply hdis (max a.start b.start) ⟨le_max_left _ _, max_lt ha (lt_of_not_ge h₂)⟩
    exact ⟨le_max_right _ _, max_lt (lt_of_not_ge h₁) hb⟩

theorem cmp_point_point_eq_iff {q : K} : KeyType.cmp (.point p) (.point q) = .eq ↔ p = q := by
  simp [KeyType.cmp]

end Cmp

end Popcorn.RangedBTree
