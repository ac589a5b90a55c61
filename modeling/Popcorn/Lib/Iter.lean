import Mathlib

/-!
# Iterators

An iterator is a state and a `next` that panics (`none`), ends (`some none`) or yields an item
and a new state. `Iter.toList next fuel s` runs it to its end in at most `fuel` calls.

An image decoder walks a `width` by `height` grid row by row: from `(x, y)` its next call
yields the item at `(x, y)` and moves to `(x + 1, y)`, or to `(0, y + 1)` at the end of the
row, and at row `height` it ends. Whatever else its state holds, such an iterator yields the
items of the grid in row-major order (`toList_grid`), position `(k % width, k / width)` in
the `k`-th place (`getElem_rowMajor`).

An iterator whose items are computed lazily, some of them by a step that panics, is also kept
as the list of its items with `none` for such a step; a search over it (`findMap`) panics only
if it reaches one before it finds what it looks for.
-/

namespace Iter

variable {σ α : Type*}

/-- The items of a run of `next` to its end, in at most `fuel` calls. -/
def toList (next : σ → Option (Option (α × σ))) : ℕ → σ → Option (List α)
  | 0, _ => none
  | fuel + 1, s =>
    match next s with
    | none => none
    | some none => some []
    | some (some (a, s)) => (toList next fuel s).map (a :: ·)

theorem toList_succ_of_next {next : σ → Option (Option (α × σ))} {s s' : σ} {a : α}
    (h : next s = some (some (a, s'))) (fuel : ℕ) :
    toList next (fuel + 1) s = (toList next fuel s').map (a :: ·) := by
  simp only [toList, h]

theorem toList_succ_of_end {next : σ → Option (Option (α × σ))} {s : σ}
    (h : next s = some none) (fuel : ℕ) : toList next (fuel + 1) s = some [] := by
  simp only [toList, h]

/-- The positions of a `width` by `height` grid, row by row. -/
def rowMajor (width height : ℕ) : List (ℕ × ℕ) :=
  (List.range height).flatMap fun y => (List.range width).map fun x => (x, y)

theorem length_rowMajor (width height : ℕ) : (rowMajor width height).length = width * height := by
  simp [rowMajor, List.length_flatMap, Nat.mul_comm]

/-- The `k`-th position of the grid is column `k % width` of row `k / width`. -/
theorem getElem_rowMajor {width height k : ℕ} (hk : k < (rowMajor width height).length) :
    (rowMajor width height)[k] = (k % width, k / width) := by
  induction height generalizing k with
  | zero => simp [rowMajor] at hk
  | succ height ih =>
    have hsplit : rowMajor width (height + 1) =
        rowMajor width height ++ (List.range width).map fun x => (x, height) := by
      simp [rowMajor, List.range_succ, List.flatMap_append]
    have hlen := length_rowMajor width height
    simp only [hsplit, List.length_append, List.length_map, List.length_range] at hk ⊢
    by_cases hlt : k < width * height
    · rw [List.getElem_append_left (by omega), ih (by omega)]
    · -- the last row: `k = width * height + x`
      have hw : 0 < width := by
        rcases Nat.eq_zero_or_pos width with hw | hw
        · subst hw; omega
        · exact hw
      rw [List.getElem_append_right (by omega), List.getElem_map, List.getElem_range]
      obtain ⟨x, rfl⟩ : ∃ x, k = width * height + x := ⟨k - width * height, by omega⟩
      have hx : x < width := by omega
      simp only [hlen, Nat.add_sub_cancel_left, Prod.mk.injEq]
      refine ⟨?_, ?_⟩
      · rw [Nat.mul_add_mod, Nat.mod_eq_of_lt hx]
      · rw [Nat.mul_add_div hw, Nat.div_eq_of_lt hx, Nat.add_zero]

section Grid

variable {next : σ → Option (Option (α × σ))} (at_ : ℕ × ℕ → σ) {width height : ℕ}
  {f : ℕ × ℕ → α}
  (hinside : ∀ x < width, ∀ y < height, next (at_ (x, y)) =
    some (some (f (x, y), at_ (if width ≤ x + 1 then (0, y + 1) else (x + 1, y)))))
  (hend : next (at_ (0, height)) = some none)

include hinside in
/-- The rest of a row: from column `x`, `k` more calls yield the row's items and reach the
start of the next row. -/
theorem toList_row {y : ℕ} (hy : y < height) (fuel : ℕ) :
    ∀ k x, x + k = width → 0 < k →
      toList next (fuel + k) (at_ (x, y)) =
        (toList next fuel (at_ (0, y + 1))).map
          (((List.range' x k).map fun x => f (x, y)) ++ ·) := by
  intro k
  induction k with
  | zero => intro x _ hk; omega
  | succ k ih =>
    intro x hxk _
    have hnext := hinside x (by omega) y hy
    rw [← Nat.add_assoc, toList_succ_of_next hnext, List.range'_succ, List.map_cons]
    rcases Nat.eq_zero_or_pos k with rfl | hk
    · -- the last column: the iterator moves to the next row
      rw [if_pos (by omega)]
      simp
    · rw [if_neg (by omega), ih (x + 1) (by omega) hk, Option.map_map]
      rfl

include hinside hend in
/-- The rows from `y` on: `j * width + 1` calls yield them and then the end. -/
theorem toList_rows (hw : 0 < width) :
    ∀ j y, y + j = height →
      toList next (j * width + 1) (at_ (0, y)) =
        some ((List.range' y j).flatMap fun y => (List.range' 0 width).map fun x => f (x, y)) := by
  intro j
  induction j with
  | zero =>
    intro y hy
    rw [Nat.zero_mul, Nat.add_zero] at *
    subst hy
    rw [toList_succ_of_end hend, List.range'_zero, List.flatMap_nil]
  | succ j ih =>
    intro y hy
    rw [show (j + 1) * width + 1 = (j * width + 1) + width by ring,
      toList_row at_ hinside (by omega) _ width 0 (by omega) hw, ih (y + 1) (by omega),
      Option.map_some, List.range'_succ, List.flatMap_cons]

include hinside hend in
/-- A grid of at least one column is walked in row-major order within `width * height + 1`
calls. -/
theorem toList_grid (hw : 0 < width) :
    toList next (width * height + 1) (at_ (0, 0)) = some ((rowMajor width height).map f) := by
  have hrows : (rowMajor width height).map f =
      (List.range' 0 height).flatMap fun y => (List.range' 0 width).map fun x => f (x, y) := by
    simp [rowMajor, List.range_eq_range', List.map_flatMap, Function.comp_def]
  rw [hrows, Nat.mul_comm]
  exact toList_rows at_ hinside hend hw height 0 (Nat.zero_add _)

end Grid

/-- `find_map(f)` over lazily computed items, where `none` is an item whose step panics. -/
def findMap {β : Type*} (f : α → Option β) : List (Option α) → Option (Option β)
  | [] => some none
  | none :: _ => none
  | some a :: items =>
    match f a with
    | some b => some (some b)
    | none => findMap f items

end Iter
