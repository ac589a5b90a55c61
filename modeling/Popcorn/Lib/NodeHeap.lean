import Mathlib

/-!
# Chains of nodes in a heap

A heap maps addresses to nodes, each of which holds a value and maybe the address of the
next node. `Chain next val H p as s` says that following the links from `p` visits the
nodes at the addresses `as`, in order, holding the values `s`, and ends in `none`: a finite,
`none`-terminated chain.

A chain is determined by where it starts (`Chain.unique`), every suffix of it is the chain
from its first address (`Chain.suffix`), and so it visits no node twice (`Chain.nodup`): it
has no cycle, and it is no longer than the heap's addresses in use (`Chain.length_le`). Its
last node links to nothing (`Chain.getLast_next`). A heap that agrees on the chain's nodes
holds the same chain (`Chain.frame`), and one whose last node is linked to a new node holds the
chain grown by that node (`Chain.append_last`).
-/

namespace NodeHeap

variable {β α : Type*} (next : β → Option ℕ) (val : β → α)

/-- `p` starts a chain through the nodes at `as`, holding `s`, that ends in `none`. -/
inductive Chain (H : ℕ → Option β) : Option ℕ → List ℕ → List α → Prop
  | nil : Chain H none [] []
  | cons {a : ℕ} {b : β} {as : List ℕ} {s : List α} :
      H a = some b → Chain H (next b) as s → Chain H (some a) (a :: as) (val b :: s)

variable {next val} {H H' : ℕ → Option β}

/-- A chain is determined by its start. -/
theorem Chain.unique {p : Option ℕ} {as as' : List ℕ} {s s' : List α}
    (h : Chain next val H p as s) (h' : Chain next val H p as' s') : as = as' ∧ s = s' := by
  induction h generalizing as' s' with
  | nil =>
    cases h'
    exact ⟨rfl, rfl⟩
  | cons hb _ ih =>
    cases h' with
    | cons hb' hrest' =>
      -- the node at the start is the same node
      obtain rfl := Option.some.inj (hb.symm.trans hb')
      obtain ⟨rfl, rfl⟩ := ih hrest'
      exact ⟨rfl, rfl⟩

theorem Chain.length_eq {p : Option ℕ} {as : List ℕ} {s : List α}
    (h : Chain next val H p as s) : as.length = s.length := by
  induction h with
  | nil => rfl
  | cons _ _ ih => simp [ih]

/-- An empty chain starts at `none`. -/
theorem Chain.eq_none_of_nil {p : Option ℕ} {s : List α} (h : Chain next val H p [] s) :
    p = none ∧ s = [] := by
  cases h
  exact ⟨rfl, rfl⟩

/-- Every node of a chain is in the heap. -/
theorem Chain.isSome {p : Option ℕ} {as : List ℕ} {s : List α}
    (h : Chain next val H p as s) : ∀ a ∈ as, (H a).isSome := by
  induction h with
  | nil => simp
  | cons hb _ ih =>
    intro a ha
    rcases List.mem_cons.mp ha with rfl | ha
    · simp [hb]
    · exact ih a ha

/-- A suffix of a chain is the chain from its first address. -/
theorem Chain.suffix {p : Option ℕ} {as : List ℕ} {s : List α}
    (h : Chain next val H p as s) :
    ∀ {pre rest : List ℕ} {a : ℕ}, as = pre ++ a :: rest →
      ∃ s', Chain next val H (some a) (a :: rest) s' := by
  induction h with
  | nil =>
    intro pre rest a heq
    simp at heq
  | cons hb hrest ih =>
    intro pre rest a heq
    cases pre with
    | nil =>
      obtain ⟨rfl, rfl⟩ := List.cons.inj heq
      exact ⟨_, .cons hb hrest⟩
    | cons a' pre => exact ih (List.cons.inj heq).2

/-- A chain visits no node twice: it has no cycle. -/
theorem Chain.nodup {p : Option ℕ} {as : List ℕ} {s : List α}
    (h : Chain next val H p as s) : as.Nodup := by
  induction h with
  | nil => exact List.nodup_nil
  | @cons a b as s hb hrest ih =>
    refine List.nodup_cons.mpr ⟨fun ha => ?_, ih⟩
    -- from its second visit to `a` on, the chain would be the whole chain from `a` again
    obtain ⟨pre, rest, rfl⟩ := List.append_of_mem ha
    obtain ⟨s', hs'⟩ := hrest.suffix rfl
    have hlen := congrArg List.length (Chain.unique (.cons hb hrest) hs').1
    simp only [List.length_cons, List.length_append] at hlen
    omega

/-- A chain is no longer than the addresses in use below a bound of the heap. -/
theorem Chain.length_le {p : Option ℕ} {as : List ℕ} {s : List α} {bound : ℕ}
    (h : Chain next val H p as s) (hbound : ∀ a, bound ≤ a → H a = none) : as.length ≤ bound := by
  have hsub : as.toFinset ⊆ Finset.range bound := by
    intro a ha
    rw [List.mem_toFinset] at ha
    rw [Finset.mem_range]
    by_contra hge
    have := h.isSome a ha
    rw [hbound a (Nat.le_of_not_lt hge)] at this
    cases this
  calc as.length = as.toFinset.card := (List.toFinset_card_of_nodup h.nodup).symm
    _ ≤ (Finset.range bound).card := Finset.card_le_card hsub
    _ = bound := Finset.card_range bound

/-- The last node of a chain links to nothing. -/
theorem Chain.getLast_next {p : Option ℕ} {as : List ℕ} {s : List α}
    (h : Chain next val H p as s) (hne : as ≠ []) :
    ∃ b, H (as.getLast hne) = some b ∧ next b = none := by
  induction h with
  | nil => exact absurd rfl hne
  | @cons a b as s hb hrest ih =>
    cases as with
    | nil => exact ⟨b, by rwa [List.getLast_singleton], hrest.eq_none_of_nil.1⟩
    | cons a' as =>
      rw [List.getLast_cons (List.cons_ne_nil _ _)]
      exact ih (List.cons_ne_nil _ _)

/-- A heap that agrees on the nodes of a chain holds the same chain. -/
theorem Chain.frame {p : Option ℕ} {as : List ℕ} {s : List α}
    (h : Chain next val H p as s) (hagree : ∀ a ∈ as, H' a = H a) : Chain next val H' p as s := by
  induction h with
  | nil => exact .nil
  | cons hb _ ih =>
    refine .cons ((hagree _ (by simp)).trans hb) (ih fun a ha => hagree a (by simp [ha]))

/-- A chain whose last node links, in the new heap, to a chain of one more node `c`, with the
other nodes as they were, grows by `c`. -/
theorem Chain.append_last {p : Option ℕ} {as : List ℕ} {s : List α} {c : ℕ} {x : α}
    (h : Chain next val H p as s) (hne : as ≠ [])
    (hother : ∀ a ∈ as, a ≠ as.getLast hne → H' a = H a)
    (hlast : ∀ b, H (as.getLast hne) = some b →
      ∃ b', H' (as.getLast hne) = some b' ∧ next b' = some c ∧ val b' = val b)
    (hc : Chain next val H' (some c) [c] [x]) :
    Chain next val H' p (as ++ [c]) (s ++ [x]) := by
  induction h with
  | nil => exact absurd rfl hne
  | @cons a b as s hb hrest ih =>
    cases as with
    | nil =>
      -- `a` is the last node: it now links to `c`
      obtain ⟨b', hb', hnext, hval⟩ := hlast b hb
      obtain rfl : s = [] := List.eq_nil_of_length_eq_zero hrest.length_eq.symm
      rw [List.getLast_singleton] at hb'
      rw [List.cons_append, List.nil_append, List.cons_append, List.nil_append, ← hval]
      exact .cons hb' (hnext ▸ hc)
    | cons a' as =>
      -- `a` comes before the last node, so it is not the last node and keeps its node
      have hnodup := (Chain.cons hb hrest).nodup
      have hlast_mem : (a' :: as).getLast (List.cons_ne_nil _ _) ∈ a' :: as := List.getLast_mem _
      have hne_last : a ≠ (a :: a' :: as).getLast hne := by
        rw [List.getLast_cons (List.cons_ne_nil _ _)]
        rintro rfl
        exact (List.nodup_cons.mp hnodup).1 hlast_mem
      have hrest' := ih (List.cons_ne_nil _ _)
        (fun a'' ha'' hne'' => hother a'' (List.mem_cons_of_mem _ ha'')
          (by rwa [List.getLast_cons (List.cons_ne_nil _ _)]))
        (fun b'' hb'' => hlast b'' (by rwa [List.getLast_cons (List.cons_ne_nil _ _)]))
      exact .cons ((hother a (by simp) hne_last).trans hb) hrest'

end NodeHeap
