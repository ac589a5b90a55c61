import Mathlib

/-!
# Coalescing neighbours

A list is coalesced by a pass that keeps the item it is building, grows it over the next item
when the two can be merged, and otherwise pushes it to the output and goes on from the next
item; the item being built is pushed at the end. `Iterator::reduce` with a closure that pushes
to an output vector, followed by a push of what `reduce` returns, is such a pass.

The pass follows a recursion on its first two items (`reduce_cons_cons`). From it: a property
that every merge keeps holds of every item pushed (`forall_mem_reduce`); the first item pushed
grows from the list's first item (`head_reduce`); a relation that merging keeps holds
pairwise of the output when it does of the list (`pairwise_reduce`); no two neighbours of the
output can be merged, when merging keeps what the item on the left could merge with
(`isChain_reduce`); and a measure that adds up over each merge has the same sum over the
output as over the list (`sum_map_reduce`).
-/

namespace Coalesce

variable {α : Type*} (canMerge : α → α → Prop) [DecidableRel canMerge] (merge : α → α → α)

/-- One item of the pass: grow the item being built over `x`, or push it and start from `x`. -/
def step (acc : List α × α) (x : α) : List α × α :=
  if canMerge acc.2 x then (acc.1, merge acc.2 x) else (acc.1 ++ [acc.2], x)

/-- The pass over a list: the first item is the first one built, and the last one built is
pushed at the end. -/
def reduce : List α → List α
  | [] => []
  | x :: xs =>
    let r := xs.foldl (step canMerge merge) ([], x)
    r.1 ++ [r.2]

variable {canMerge merge}

/-- What is already pushed stays in front of what the rest of the pass pushes. -/
theorem foldl_step_append (pushed : List α) (x : α) (xs : List α) :
    xs.foldl (step canMerge merge) (pushed, x) =
      (pushed ++ (xs.foldl (step canMerge merge) ([], x)).1,
        (xs.foldl (step canMerge merge) ([], x)).2) := by
  induction xs generalizing pushed x with
  | nil => simp
  | cons y xs ih =>
    simp only [List.foldl_cons, step]
    split_ifs
    · exact ih pushed (merge x y)
    · rw [ih (pushed ++ [x]) y, ih ([] ++ [x]) y, List.nil_append, List.append_assoc]

@[simp] theorem reduce_nil : reduce canMerge merge [] = [] := rfl

@[simp] theorem reduce_singleton (x : α) : reduce canMerge merge [x] = [x] := rfl

/-- The pass on its first two items: they merge into one, or the first is pushed. -/
theorem reduce_cons_cons (x y : α) (xs : List α) :
    reduce canMerge merge (x :: y :: xs) =
      if canMerge x y then reduce canMerge merge (merge x y :: xs)
      else x :: reduce canMerge merge (y :: xs) := by
  simp only [reduce, List.foldl_cons, step]
  split_ifs
  · rfl
  · rw [List.nil_append, foldl_step_append, List.cons_append]
    rfl

/-- A property that every merge keeps holds of every item the pass pushes. -/
theorem forall_mem_reduce (Q : α → Prop) (hQ : ∀ x y, canMerge x y → Q x → Q y → Q (merge x y))
    (l : List α) (hl : ∀ a ∈ l, Q a) : ∀ b ∈ reduce canMerge merge l, Q b := by
  cases l with
  | nil => simp
  | cons x xs =>
    induction xs generalizing x with
    | nil => simpa using hl
    | cons y xs ih =>
      rw [reduce_cons_cons]
      split_ifs with hxy
      · -- the merged item stands first in what is left
        refine ih (merge x y) fun a ha => ?_
        rcases List.mem_cons.mp ha with rfl | ha
        · exact hQ x y hxy (hl x (by simp)) (hl y (by simp))
        · exact hl a (by simp [ha])
      · intro b hb
        rcases List.mem_cons.mp hb with rfl | hb
        · exact hl b (by simp)
        · exact ih y (fun a ha => hl a (List.mem_cons_of_mem x ha)) b hb

/-- The first item the pass pushes grows from the list's first item by merges: a property
that merging anything onto the right keeps holds of it. -/
theorem head_reduce (Q : α → Prop) (hQ : ∀ x y, canMerge x y → Q x → Q (merge x y)) (x : α)
    (xs : List α) (hx : Q x) : ∃ h t, reduce canMerge merge (x :: xs) = h :: t ∧ Q h := by
  induction xs generalizing x with
  | nil => exact ⟨x, [], rfl, hx⟩
  | cons y xs ih =>
    rw [reduce_cons_cons]
    split_ifs with hxy
    · exact ih (merge x y) (hQ x y hxy hx)
    · exact ⟨x, _, rfl, hx⟩

/-- A relation that merging keeps, on either side, holds pairwise of the items the pass
pushes when it holds pairwise of the list. -/
theorem pairwise_reduce (R : α → α → Prop)
    (hleft : ∀ x y b, canMerge x y → R x b → R (merge x y) b)
    (hright : ∀ a x y, canMerge x y → R a x → R a y → R a (merge x y))
    (l : List α) (hl : l.Pairwise R) : (reduce canMerge merge l).Pairwise R := by
  cases l with
  | nil => simp
  | cons x xs =>
    induction xs generalizing x with
    | nil => simp
    | cons y xs ih =>
      obtain ⟨hx, hy⟩ := List.pairwise_cons.mp hl
      rw [reduce_cons_cons]
      split_ifs with hxy
      · refine ih (merge x y) (List.pairwise_cons.mpr ⟨fun b hb => ?_, hy.of_cons⟩)
        exact hleft x y b hxy (hx b (List.mem_cons_of_mem y hb))
      · -- `x` is related to every item pushed after it, all merged from items after it
        refine List.pairwise_cons.mpr ⟨?_, ih y hy⟩
        exact forall_mem_reduce (R x) (fun a c hac hxa hxc => hright x a c hac hxa hxc)
          (y :: xs) hx

/-- No two neighbours the pass pushes can be merged, when merging onto an item keeps what
could merge with it from the left. -/
theorem isChain_reduce (hleft : ∀ p x y, canMerge x y → canMerge p (merge x y) → canMerge p x)
    (l : List α) : (reduce canMerge merge l).IsChain fun a b => ¬canMerge a b := by
  cases l with
  | nil => exact .nil
  | cons x xs =>
    induction xs generalizing x with
    | nil => exact .singleton x
    | cons y xs ih =>
      rw [reduce_cons_cons]
      split_ifs with hxy
      · exact ih (merge x y)
      · -- `x` cannot merge with the first item pushed after it, which grows from `y`
        obtain ⟨h, t, heq, hh⟩ := head_reduce (fun h => ¬canMerge x h)
          (fun a c hac hna hm => hna (hleft x a c hac hm)) y xs hxy
        have hchain := ih y
        rw [heq] at hchain ⊢
        exact .cons_cons hh hchain

/-- A measure that adds up over each merge, on items of a kind that merging keeps, has the
same sum over the items the pass pushes as over the list. -/
theorem sum_map_reduce {M : Type*} [AddCommMonoid M] (P : α → Prop) (μ : α → M)
    (hP : ∀ x y, canMerge x y → P x → P y → P (merge x y))
    (hμ : ∀ x y, canMerge x y → P x → P y → μ (merge x y) = μ x + μ y)
    (l : List α) (hl : ∀ a ∈ l, P a) : ((reduce canMerge merge l).map μ).sum = (l.map μ).sum := by
  cases l with
  | nil => rfl
  | cons x xs =>
    induction xs generalizing x with
    | nil => rfl
    | cons y xs ih =>
      have hx := hl x (by simp)
      have hy := hl y (by simp)
      have hxs : ∀ a ∈ xs, P a := fun a ha => hl a (by simp [ha])
      rw [reduce_cons_cons]
      split_ifs with hxy
      · rw [ih (merge x y) (List.forall_mem_cons.mpr ⟨hP x y hxy hx hy, hxs⟩)]
        simp only [List.map_cons, List.sum_cons, hμ x y hxy hx hy, add_assoc]
      · rw [List.map_cons, List.sum_cons,
          ih y (List.forall_mem_cons.mpr ⟨hy, hxs⟩)]
        simp

/-- `countP` counts by the indicator of its predicate. -/
theorem countP_eq_sum_map (p : α → Bool) (l : List α) :
    l.countP p = (l.map fun a => if p a then 1 else 0).sum := by
  induction l with
  | nil => rfl
  | cons a l ih =>
    rw [List.countP_cons, ih, List.map_cons, List.sum_cons, add_comm]

end Coalesce
