import Mathlib

/-!
# Ordered maps searched by a comparison

An ordered map such as a B-tree keeps its entries in key order and looks a probe up by
comparing it with the keys from the lowest one up: it goes past every key the probe is
greater than and stops at the first one it is not. The entry is found there when the
comparison says equal; otherwise a new entry belongs just before it. This module models
such a map by its entries in order, and the comparison `cmp` is any function, not assumed
to be a total order.

The lemmas say what the search finds under one condition on the probe, `Banded`: once the
probe is below a key it is below every later key. Under it the search finds an equal key
exactly when there is one; with `Unique` (at most one key equal to the probe) it finds
exactly that entry, and `remove` removes exactly that entry.
-/

namespace SortedMap

variable {κ ν : Type*} (cmp : κ → κ → Ordering)

/-- The entry the search stops at, when the probe compares equal to its key. -/
def search (probe : κ) : List (κ × ν) → Option (κ × ν)
  | [] => none
  | e :: l =>
    match cmp probe e.1 with
    | .gt => search probe l
    | .eq => some e
    | .lt => none

/-- The value stored under a key equal to the probe (`BTreeMap::get`). -/
def get (probe : κ) (l : List (κ × ν)) : Option ν :=
  (search cmp probe l).map Prod.snd

/-- `BTreeMap::try_insert`: the entry goes where the search stops, and `none` (the
occupied error, with the map unchanged) when the search finds an equal key there. -/
def tryInsert (k : κ) (v : ν) : List (κ × ν) → Option (List (κ × ν))
  | [] => some [(k, v)]
  | e :: l =>
    match cmp k e.1 with
    | .gt => (tryInsert k v l).map (e :: ·)
    | .eq => none
    | .lt => some ((k, v) :: e :: l)

/-- `BTreeMap::remove`: the value of the entry the search finds, and the entries without
it. -/
def remove (probe : κ) : List (κ × ν) → Option ν × List (κ × ν)
  | [] => (none, [])
  | e :: l =>
    match cmp probe e.1 with
    | .gt => ((remove probe l).1, e :: (remove probe l).2)
    | .eq => (some e.2, l)
    | .lt => (none, e :: l)

/-- Once the probe is below a key it is below every later one: the comparison with the
probe goes greater, then equal, then less along the entries. -/
def Banded (probe : κ) (l : List (κ × ν)) : Prop :=
  l.Pairwise fun a b => cmp probe a.1 = .lt → cmp probe b.1 = .lt

/-- At most one entry has a key equal to the probe. -/
def Unique (probe : κ) (l : List (κ × ν)) : Prop :=
  l.Pairwise fun a b => ¬ (cmp probe a.1 = .eq ∧ cmp probe b.1 = .eq)

variable {cmp}

theorem Banded.cons_iff {probe : κ} {e : κ × ν} {l : List (κ × ν)} :
    Banded cmp probe (e :: l) ↔
      (∀ b ∈ l, cmp probe e.1 = .lt → cmp probe b.1 = .lt) ∧ Banded cmp probe l :=
  List.pairwise_cons

theorem Unique.cons_iff {probe : κ} {e : κ × ν} {l : List (κ × ν)} :
    Unique cmp probe (e :: l) ↔
      (∀ b ∈ l, ¬ (cmp probe e.1 = .eq ∧ cmp probe b.1 = .eq)) ∧ Unique cmp probe l :=
  List.pairwise_cons

/-- Past a key the probe is below, no key is equal to it. -/
theorem ne_eq_of_lt {probe : κ} {e : κ × ν} {l : List (κ × ν)}
    (hb : Banded cmp probe (e :: l)) (h : cmp probe e.1 = .lt) : ∀ b ∈ l, cmp probe b.1 ≠ .eq := by
  intro b hb'
  rw [Banded.cons_iff.mp hb |>.1 b hb' h]
  decide

/-! ## Search -/

/-- What the search finds is an entry with a key equal to the probe. -/
theorem search_eq_some {probe : κ} {e : κ × ν} :
    ∀ {l : List (κ × ν)}, search cmp probe l = some e → e ∈ l ∧ cmp probe e.1 = .eq
  | [], h => by simp [search] at h
  | e' :: l, h => by
    cases hc : cmp probe e'.1 with
    | gt =>
      simp only [search, hc] at h
      exact ⟨List.mem_cons_of_mem _ (search_eq_some h).1, (search_eq_some h).2⟩
    | eq =>
      simp only [search, hc, Option.some.injEq] at h
      subst h
      exact ⟨List.mem_cons_self, hc⟩
    | lt => simp [search, hc] at h

theorem search_eq_none_iff {probe : κ} {l : List (κ × ν)} (hb : Banded cmp probe l) :
    search cmp probe l = none ↔ ∀ e ∈ l, cmp probe e.1 ≠ .eq := by
  induction l with
  | nil => simp [search]
  | cons e l ih =>
    cases hc : cmp probe e.1 with
    | gt => simp [search, hc, ih (Banded.cons_iff.mp hb).2]
    | eq => simp [search, hc]
    | lt =>
      simp only [search, hc, true_iff, List.mem_cons]
      rintro b (rfl | hm)
      · simp [hc]
      · exact ne_eq_of_lt hb hc b hm

theorem search_eq_some_iff {probe : κ} {e : κ × ν} {l : List (κ × ν)}
    (hb : Banded cmp probe l) (hu : Unique cmp probe l) :
    search cmp probe l = some e ↔ e ∈ l ∧ cmp probe e.1 = .eq := by
  induction l with
  | nil => simp [search]
  | cons e' l ih =>
    have hrest := ih (Banded.cons_iff.mp hb).2 (Unique.cons_iff.mp hu).2
    cases hc : cmp probe e'.1 with
    | gt =>
      rw [search, hc, hrest, List.mem_cons]
      constructor
      · exact fun h => ⟨.inr h.1, h.2⟩
      · rintro ⟨rfl | hm, heq⟩
        · -- the probe is above this key, so it is not the equal one
          simp [hc] at heq
        · exact ⟨hm, heq⟩
    | eq =>
      -- the entry found is the only one equal to the probe
      have honly := (Unique.cons_iff.mp hu).1
      simp only [search, hc, Option.some.injEq, List.mem_cons]
      constructor
      · rintro rfl
        exact ⟨.inl rfl, hc⟩
      · rintro ⟨rfl | hm, heq⟩
        · rfl
        · exact absurd ⟨hc, heq⟩ (honly e hm)
    | lt =>
      simp only [search, hc, reduceCtorEq, false_iff, not_and, List.mem_cons]
      rintro (rfl | hm)
      · simp [hc]
      · exact ne_eq_of_lt hb hc e hm

theorem get_eq_some_iff {probe : κ} {v : ν} {l : List (κ × ν)}
    (hb : Banded cmp probe l) (hu : Unique cmp probe l) :
    get cmp probe l = some v ↔ ∃ k, (k, v) ∈ l ∧ cmp probe k = .eq := by
  simp only [get, Option.map_eq_some_iff, search_eq_some_iff hb hu]
  constructor
  · rintro ⟨⟨k, v'⟩, ⟨hm, heq⟩, rfl⟩
    exact ⟨k, hm, heq⟩
  · rintro ⟨k, hm, heq⟩
    exact ⟨(k, v), ⟨hm, heq⟩, rfl⟩

/-! ## Insertion -/

/-- An insertion is refused exactly when the search finds an equal key. -/
theorem tryInsert_eq_none_iff {k : κ} {v : ν} {l : List (κ × ν)} (hb : Banded cmp k l) :
    tryInsert cmp k v l = none ↔ ∃ e ∈ l, cmp k e.1 = .eq := by
  induction l with
  | nil => simp [tryInsert]
  | cons e l ih =>
    cases hc : cmp k e.1 with
    | gt => simp [tryInsert, hc, ih (Banded.cons_iff.mp hb).2]
    | eq => simp only [tryInsert, hc, true_iff]; exact ⟨e, List.mem_cons_self, hc⟩
    | lt =>
      simp only [tryInsert, hc, reduceCtorEq, false_iff, not_exists, not_and, List.mem_cons]
      rintro b (rfl | hm)
      · simp [hc]
      · exact ne_eq_of_lt hb hc b hm

/-- An accepted insertion puts the entry between the keys the new key is greater than and
those it is less than. -/
theorem tryInsert_eq_some {k : κ} {v : ν} {l l' : List (κ × ν)} (hb : Banded cmp k l)
    (h : tryInsert cmp k v l = some l') :
    ∃ below above, l = below ++ above ∧ l' = below ++ (k, v) :: above ∧
      (∀ e ∈ below, cmp k e.1 = .gt) ∧ ∀ e ∈ above, cmp k e.1 = .lt := by
  induction l generalizing l' with
  | nil =>
    simp only [tryInsert, Option.some.injEq] at h
    exact ⟨[], [], rfl, h.symm, by simp, by simp⟩
  | cons e l ih =>
    cases hc : cmp k e.1 with
    | gt =>
      simp only [tryInsert, hc, Option.map_eq_some_iff] at h
      obtain ⟨l'', hl'', rfl⟩ := h
      obtain ⟨below, above, rfl, rfl, hgt, hlt⟩ := ih (Banded.cons_iff.mp hb).2 hl''
      refine ⟨e :: below, above, rfl, rfl, ?_, hlt⟩
      rintro b (_ | ⟨_, hm⟩)
      · exact hc
      · exact hgt b hm
    | eq => simp [tryInsert, hc] at h
    | lt =>
      simp only [tryInsert, hc, Option.some.injEq] at h
      refine ⟨[], e :: l, rfl, h.symm, by simp, ?_⟩
      rintro b (_ | ⟨_, hm⟩)
      · exact hc
      · exact (Banded.cons_iff.mp hb).1 b hm hc

/-! ## Removal -/

theorem remove_fst {probe : κ} : ∀ {l : List (κ × ν)}, (remove cmp probe l).1 = get cmp probe l
  | [] => rfl
  | e :: l => by
    cases hc : cmp probe e.1 with
    | gt => simp only [remove, hc, get, search]; exact remove_fst
    | eq => simp [remove, get, search, hc]
    | lt => simp [remove, get, search, hc]

/-- Removal drops exactly the entries with a key equal to the probe. -/
theorem remove_snd {probe : κ} {l : List (κ × ν)} (hb : Banded cmp probe l)
    (hu : Unique cmp probe l) :
    (remove cmp probe l).2 = l.filter fun e => cmp probe e.1 != .eq := by
  induction l with
  | nil => rfl
  | cons e l ih =>
    cases hc : cmp probe e.1 with
    | gt => simp [remove, hc, ih (Banded.cons_iff.mp hb).2 (Unique.cons_iff.mp hu).2]
    | eq =>
      -- no later key is equal to the probe, so the filter keeps all of them
      have hkeep : ∀ b ∈ l, cmp probe b.1 ≠ .eq := fun b hm heq =>
        (Unique.cons_iff.mp hu).1 b hm ⟨hc, heq⟩
      simp only [remove, hc, List.filter_cons, bne_self_eq_false, Bool.false_eq_true, ↓reduceIte]
      exact (List.filter_eq_self.mpr fun b hm => by simpa using hkeep b hm).symm
    | lt =>
      have hkeep := ne_eq_of_lt hb hc
      simp only [remove, hc, List.filter_cons]
      simp only [bne_iff_ne, ne_eq, reduceCtorEq, not_false_eq_true, ↓reduceIte,
        List.cons.injEq, true_and]
      exact (List.filter_eq_self.mpr fun b hm => by simpa using hkeep b hm).symm

end SortedMap
