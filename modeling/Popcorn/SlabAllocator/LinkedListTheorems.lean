import Popcorn.SlabAllocator.LinkedList

/-!
# The linked list holds a chain

A list holds the sequence `s` when its first pointer starts a chain of nodes holding `s`
(`NodeHeap.Chain`): finite, without a cycle, ending in `None`. Each operation keeps that and
changes the sequence as the list's documentation says (`Op.spec`): `push_front(x)` gives
`x :: s`, `pop_front` returns the head and leaves the tail, `extend(xs)` gives `s ++ xs` and
`from_iter(xs)` gives `xs`, the old list's nodes freed and the new list's left whole
(`step_spec`). So over any run of operations (`run_spec`), from a new list on any heap
(`run_new_holds_runSpec`), and iterating the list yields its sequence in order
(`toList_iterNext`).

On the way: a node boxed at a free address leaves every chain (`Holds.write_fresh`);
`last` finds the last node within its turns, since a chain is no longer than the heap's
addresses in use (`last_of_chain`); `insert_after` on the last node grows the chain by the new
node (`insertAfter_spec`), and `extend` touches no node in use outside its own chain
(`extend_spec`, its stages composed by `fresh_frame_trans`), which is what keeps the old list whole until `from_iter`'s assignment drops
it (`drop_spec`).
-/

namespace Popcorn
namespace SlabAllocator

open NodeHeap

variable {α : Type}

/-! ## The heap -/

namespace Heap

@[simp] theorem write_nodes_self (h : Heap α) (a : ℕ) (node : Node α) :
    (h.write a node).nodes a = some node := Function.update_self _ _ _

@[simp] theorem write_nodes_of_ne (h : Heap α) {a b : ℕ} (node : Node α) (hba : b ≠ a) :
    (h.write a node).nodes b = h.nodes b := Function.update_of_ne hba _ _

@[simp] theorem free_nodes_self (h : Heap α) (a : ℕ) : (h.free a).nodes a = none :=
  Function.update_self _ _ _

@[simp] theorem free_nodes_of_ne (h : Heap α) {a b : ℕ} (hba : b ≠ a) :
    (h.free a).nodes b = h.nodes b := Function.update_of_ne hba _ _

end Heap

/-- The list from `p` in the heap `h` is the chain through the nodes at `as`, holding `s`. -/
abbrev Holds (h : Heap α) (p : Option ℕ) (as : List ℕ) (s : List α) : Prop :=
  Chain Node.next Node.data h.nodes p as s

/-- A node of a chain is not at a free address. -/
theorem Holds.ne_of_free {h : Heap α} {p : Option ℕ} {as : List ℕ} {s : List α}
    (hc : Holds h p as s) {c : ℕ} (hfree : h.nodes c = none) : ∀ a ∈ as, a ≠ c := by
  intro a ha hac
  have := hc.isSome a ha
  rw [hac, hfree] at this
  cases this

/-- A node written at a free address leaves every chain as it was. -/
theorem Holds.write_fresh {h : Heap α} {p : Option ℕ} {as : List ℕ} {s : List α}
    (hc : Holds h p as s) {c : ℕ} (hfree : h.nodes c = none) (node : Node α) :
    Holds (h.write c node) p as s :=
  hc.frame fun a ha => Heap.write_nodes_of_ne h node (hc.ne_of_free hfree a ha)

/-- A node written off a chain leaves the chain as it was. -/
theorem Holds.write_of_not_mem {h : Heap α} {p : Option ℕ} {as : List ℕ} {s : List α}
    (hc : Holds h p as s) {c : ℕ} (hc' : c ∉ as) (node : Node α) :
    Holds (h.write c node) p as s :=
  hc.frame fun _ ha => Heap.write_nodes_of_ne h node fun hac => hc' (hac ▸ ha)

/-- A box freed off a chain leaves the chain as it was. -/
theorem Holds.free_of_not_mem {h : Heap α} {p : Option ℕ} {as : List ℕ} {s : List α}
    (hc : Holds h p as s) {c : ℕ} (hc' : c ∉ as) : Holds (h.free c) p as s :=
  hc.frame fun _ ha => Heap.free_nodes_of_ne h fun hac => hc' (hac ▸ ha)

/-! ## `push_front` and `pop_front` -/

section Operations

variable (A : BoxAllocator α)

/-- `push_front_impl` boxes the new node at the allocator's address, in front of the chain. -/
theorem pushFrontImpl_spec {h : Heap α} {l : LinkedList} {as : List ℕ} {s : List α}
    (hc : Holds h l.first as s) (x : α) :
    LinkedList.pushFrontImpl A h l x =
        (h.write (A.alloc h) ⟨l.first, x⟩, ⟨some (A.alloc h)⟩, A.alloc h) ∧
      Holds (h.write (A.alloc h) ⟨l.first, x⟩) (some (A.alloc h)) (A.alloc h :: as) (x :: s) :=
  ⟨rfl, .cons (Heap.write_nodes_self _ _ _) (hc.write_fresh (A.fresh h) _)⟩

/-- `pop_front` on an empty list returns `None`; on a chain it returns the first node's data,
frees its box, and leaves the rest of the chain. -/
theorem popFront_spec {h : Heap α} {l : LinkedList} {as : List ℕ} {s : List α}
    (hc : Holds h l.first as s) :
    (as = [] ∧ s = [] ∧ LinkedList.popFront h l = some (none, h, l)) ∨
      ∃ a as' x s' next, as = a :: as' ∧ s = x :: s' ∧
        LinkedList.popFront h l = some (some x, h.free a, ⟨next⟩) ∧
        Holds (h.free a) next as' s' := by
  obtain ⟨first⟩ := l
  cases hc with
  | nil => exact .inl ⟨rfl, rfl, rfl⟩
  | @cons a node as' s' hnode hrest =>
    -- the first node is not on the rest of the chain
    have ha : a ∉ as' := (List.nodup_cons.mp (Chain.cons hnode hrest).nodup).1
    refine .inr ⟨a, as', node.data, s', node.next, rfl, rfl, ?_, Holds.free_of_not_mem hrest ha⟩
    simp [LinkedList.popFront, LinkedList.popFrontInPlace, hnode]

/-! ## `last` -/

/-- The loop of `last`, started on a chain with as many turns as its nodes, ends on its last
node. -/
theorem lastLoop_of_chain {nodes : ℕ → Option (Node α)} {p : Option ℕ} {as : List ℕ}
    {s : List α} (hc : Chain Node.next Node.data nodes p as s) (hne : as ≠ []) :
    ∀ fuel, as.length ≤ fuel → ∀ a, p = some a → lastLoop nodes fuel a = some (as.getLast hne) := by
  induction hc with
  | nil => exact absurd rfl hne
  | @cons a node as s hnode hrest ih =>
    intro fuel hfuel a' ha'
    obtain rfl := Option.some.inj ha'.symm
    obtain ⟨fuel, rfl⟩ : ∃ fuel', fuel = fuel' + 1 := ⟨fuel - 1, by simp at hfuel; omega⟩
    rw [lastLoop, hnode, Option.bind_some]
    cases as with
    | nil =>
      -- the first node is the last: it links to nothing
      rw [hrest.eq_none_of_nil.1, List.getLast_singleton]
    | cons a'' as =>
      -- the rest of the chain starts at the node this one links to
      cases hnext : node.next with
      | none =>
        rw [hnext] at hrest
        cases hrest
      | some nextNode =>
        dsimp only
        rw [List.getLast_cons (List.cons_ne_nil _ _)]
        exact ih (List.cons_ne_nil _ _) fuel (by simp at hfuel ⊢; omega) nextNode hnext

/-- `last` on a list holding a chain answers its last node, and `None` on an empty list: the
loop has as many turns as the heap has addresses in use, and the chain no more nodes. -/
theorem last_of_chain {h : Heap α} {l : LinkedList} {as : List ℕ} {s : List α}
    (hc : Holds h l.first as s) : LinkedList.last h l = some as.getLast? := by
  obtain ⟨first⟩ := l
  cases first with
  | none =>
    cases hc
    rfl
  | some a =>
    have hne : as ≠ [] := by
      rintro rfl
      cases hc.eq_none_of_nil.1
    have hlen := hc.length_le h.free_of_bound
    rw [LinkedList.last]
    dsimp only
    rw [lastLoop_of_chain hc hne (h.bound + 1) (by omega) a rfl, List.getLast?_eq_some_getLast hne]
    rfl

/-! ## `extend` and `from_iter` -/

/-- `insert_after` on the last node of a chain boxes the new node at the allocator's address
and links it from there: the chain grows by it, and no other node changes. -/
theorem insertAfter_spec {h : Heap α} {p : Option ℕ} {as : List ℕ} {s : List α}
    (hc : Holds h p as s) (hne : as ≠ []) (x : α) :
    ∃ h', Node.insertAfter A h (as.getLast hne) x = some (h', A.alloc h) ∧
      Holds h' p (as ++ [A.alloc h]) (s ++ [x]) ∧
      ∀ a, a ≠ as.getLast hne → a ≠ A.alloc h → h'.nodes a = h.nodes a := by
  obtain ⟨node, hnode, hnext⟩ := hc.getLast_next hne
  -- the new node's address is free, so it is not the last node's
  have hfresh := A.fresh h
  have hnew : A.alloc h ≠ as.getLast hne :=
    (hc.ne_of_free hfresh _ (List.getLast_mem hne)).symm
  refine ⟨(h.write (A.alloc h) ⟨node.next, x⟩).write (as.getLast hne)
    { node with next := some (A.alloc h) }, ?_, ?_, fun a hlast hc' => ?_⟩
  · simp only [Node.insertAfter, hnode, Option.map_some, Node.newBoxed]
  · have hcnode : ((h.write (A.alloc h) ⟨node.next, x⟩).write (as.getLast hne)
        { node with next := some (A.alloc h) }).nodes (A.alloc h) = some ⟨none, x⟩ := by
      rw [Heap.write_nodes_of_ne _ _ hnew, Heap.write_nodes_self, hnext]
    refine hc.append_last hne (fun a ha hlast => ?_) (fun b hb => ?_) (.cons hcnode .nil)
    · rw [Heap.write_nodes_of_ne _ _ hlast,
        Heap.write_nodes_of_ne _ _ (hc.ne_of_free hfresh a ha)]
    · obtain rfl := Option.some.inj (hnode.symm.trans hb)
      exact ⟨_, Heap.write_nodes_self _ _ _, rfl, rfl⟩
  · rw [Heap.write_nodes_of_ne _ _ hlast, Heap.write_nodes_of_ne _ _ hc']

/-- A chain grown in two stages: first its own nodes rewritten and the node `c` added, free
before; then the nodes `as'` added, free after the first stage, with no node in use off the
chain and `c` touched. The nodes added are free before both, and no node in use off the
chain changes. -/
theorem fresh_frame_trans {h h₁ h' : Heap α} {as as' : List ℕ} {c : ℕ}
    (hc : h.nodes c = none) (hc₁ : (h₁.nodes c).isSome)
    (hframe₁ : ∀ a, a ∉ as → a ≠ c → h₁.nodes a = h.nodes a)
    (has₁ : ∀ a ∈ as, (h₁.nodes a).isSome)
    (hfresh' : ∀ a ∈ as', h₁.nodes a = none)
    (hframe' : ∀ a, (h₁.nodes a).isSome → a ∉ as → a ≠ c → h'.nodes a = h₁.nodes a) :
    (∀ a ∈ c :: as', h.nodes a = none) ∧
      ∀ a, (h.nodes a).isSome → a ∉ as → h'.nodes a = h.nodes a := by
  refine ⟨fun a ha => ?_, fun a ha hnot => ?_⟩
  · rcases List.mem_cons.mp ha with rfl | ha
    · exact hc
    · -- free after the first stage, so neither on the chain nor `c`
      have hfree₁ := hfresh' a ha
      have hnot : a ∉ as := fun has => by simpa [hfree₁] using has₁ a has
      have hne : a ≠ c := by
        rintro rfl
        simp [hfree₁] at hc₁
      rw [← hframe₁ a hnot hne, hfree₁]
  · have hne : a ≠ c := by
      rintro rfl
      simp [hc] at ha
    rw [← hframe₁ a hnot hne] at ha ⊢
    exact hframe' a ha hnot hne

/-- The loop of `extend`, from the last node of a chain, grows the chain by the items, at
addresses free before, and changes no node in use off the chain. -/
theorem extendLoop_spec (xs : List α) : ∀ {h : Heap α} {p : Option ℕ} {as : List ℕ}
    {s : List α}, Holds h p as s → ∀ hne : as ≠ [],
    ∃ h' as', extendLoop A h (as.getLast hne) xs = some h' ∧
      Holds h' p (as ++ as') (s ++ xs) ∧ (∀ a ∈ as', h.nodes a = none) ∧
      ∀ a, (h.nodes a).isSome → a ∉ as → h'.nodes a = h.nodes a := by
  induction xs with
  | nil =>
    intro h p as s hc hne
    exact ⟨h, [], rfl, by simpa using hc, by simp, fun _ _ _ => rfl⟩
  | cons x xs ih =>
    intro h p as s hc hne
    obtain ⟨h₁, hins, hc₁, hframe₁⟩ := insertAfter_spec A hc hne x
    obtain ⟨h', as', hloop, hc', hfresh', hframe'⟩ := ih hc₁ (by simp)
    rw [List.getLast_append_singleton] at hloop
    -- the insert touches only the last node and the new one
    obtain ⟨hfresh, hframe⟩ := fresh_frame_trans (A.fresh h) (hc₁.isSome _ (by simp))
      (fun a hnot hne₂ => hframe₁ a (fun h' => hnot (h' ▸ List.getLast_mem hne)) hne₂)
      (fun a ha => hc₁.isSome a (List.mem_append_left _ ha)) hfresh'
      (fun a ha hnot hne₂ => hframe' a ha (by simp [hnot, hne₂]))
    refine ⟨h', A.alloc h :: as', ?_, by simpa using hc', hfresh, hframe⟩
    rw [extendLoop, hins, Option.bind_some]
    exact hloop

/-- `extend(xs)` on a list holding a chain: the list holds the chain grown by `xs`, at
addresses free before, and no node in use off the chain changes. -/
theorem extend_spec {h : Heap α} {l : LinkedList} {as : List ℕ} {s : List α}
    (hc : Holds h l.first as s) (xs : List α) :
    ∃ h' l' as', LinkedList.extend A h l xs = some (h', l') ∧
      Holds h' l'.first (as ++ as') (s ++ xs) ∧ (∀ a ∈ as', h.nodes a = none) ∧
      ∀ a, (h.nodes a).isSome → a ∉ as → h'.nodes a = h.nodes a := by
  rw [LinkedList.extend, last_of_chain hc, Option.bind_some]
  cases xs with
  | nil => exact ⟨h, l, [], rfl, by simpa using hc, by simp, fun _ _ _ => rfl⟩
  | cons x xs =>
    cases as with
    | nil =>
      -- an empty list: the first item is pushed in front, and the rest after it
      obtain ⟨hpush, hc₁⟩ := pushFrontImpl_spec A hc x
      obtain ⟨h', as', hloop, hc', hfresh', hframe'⟩ := extendLoop_spec A xs hc₁ (by simp)
      obtain ⟨-, rfl⟩ := hc.eq_none_of_nil
      -- the push touches only the new node
      obtain ⟨hfresh, hframe⟩ := fresh_frame_trans (A.fresh h) (hc₁.isSome _ (by simp))
        (fun a _ hne₁ => Heap.write_nodes_of_ne _ _ hne₁)
        (fun a (ha : a ∈ ([] : List ℕ)) => by simp at ha) hfresh'
        (fun a ha _ hne₁ => hframe' a ha (by simp [hne₁]))
      refine ⟨h', ⟨some (A.alloc h)⟩, A.alloc h :: as', ?_, by simpa using hc', hfresh, hframe⟩
      rw [List.getLast_singleton] at hloop
      simp only [List.getLast?_nil, hpush, hloop]
      rfl
    | cons a as =>
      -- the first item is inserted after the last node and the rest after it: the loop of
      -- `extend` over all the items
      obtain ⟨h₁, hins, -⟩ := insertAfter_spec A hc (List.cons_ne_nil a as) x
      obtain ⟨h', as', hloop, hc', hfresh', hframe'⟩ :=
        extendLoop_spec A (x :: xs) hc (List.cons_ne_nil a as)
      rw [extendLoop, hins, Option.bind_some] at hloop
      dsimp only at hloop
      refine ⟨h', l, as', ?_, hc', hfresh', hframe'⟩
      simp only [List.getLast?_eq_some_getLast (List.cons_ne_nil a as), hins, Option.bind_some]
      rw [hloop]
      rfl

/-! ## `Drop` and the iterators -/

/-- The loop of `Drop`, with more turns than the chain has nodes, frees the chain's nodes and
no other. -/
theorem dropLoop_spec {as : List ℕ} : ∀ {h : Heap α} {l : LinkedList} {s : List α},
    Holds h l.first as s → ∀ fuel, as.length < fuel →
      ∃ h', dropLoop h l fuel = some h' ∧
        ∀ a, h'.nodes a = if a ∈ as then none else h.nodes a := by
  induction as with
  | nil =>
    intro h l s hc fuel hfuel
    obtain ⟨fuel, rfl⟩ : ∃ f, fuel = f + 1 := ⟨fuel - 1, by simp at hfuel; omega⟩
    rcases popFront_spec hc with ⟨-, -, hpop⟩ | ⟨a, as', x, s', next, heq, -⟩
    · exact ⟨h, by rw [dropLoop, hpop]; rfl, by simp⟩
    · cases heq
  | cons a as ih =>
    intro h l s hc fuel hfuel
    obtain ⟨fuel, rfl⟩ : ∃ f, fuel = f + 1 := ⟨fuel - 1, by simp at hfuel; omega⟩
    rcases popFront_spec hc with ⟨hnil, -⟩ | ⟨a', as', x, s', next, heq, -, hpop, hrest⟩
    · cases hnil
    · obtain ⟨rfl, rfl⟩ := List.cons.inj heq
      -- the first node is popped and freed, and the loop goes on down the rest of the chain
      obtain ⟨h', hloop, hnodes⟩ := ih hrest fuel (by simp at hfuel; omega)
      refine ⟨h', by rw [dropLoop, hpop, Option.bind_some]; exact hloop, fun b => ?_⟩
      have ha : a ∉ as := (List.nodup_cons.mp hc.nodup).1
      rw [hnodes b]
      by_cases hba : b = a
      · subst hba
        simp [ha]
      · simp [hba]

/-- `Drop` on a list holding a chain frees the chain's nodes and no other. -/
theorem drop_spec {h : Heap α} {l : LinkedList} {as : List ℕ} {s : List α}
    (hc : Holds h l.first as s) :
    ∃ h', LinkedList.drop h l = some h' ∧ ∀ a, h'.nodes a = if a ∈ as then none else h.nodes a :=
  dropLoop_spec hc (h.bound + 1) (Nat.lt_succ_of_le (hc.length_le h.free_of_bound))

/-- `Iter` and `IterMut` on a list holding a chain yield its sequence in order, then end. -/
theorem toList_iterNext {h : Heap α} {p : Option ℕ} {as : List ℕ} {s : List α}
    (hc : Holds h p as s) : Iter.toList (iterNext h.nodes) (s.length + 1) p = some s := by
  induction hc with
  | nil => exact Iter.toList_succ_of_end rfl 0
  | @cons a node as s hnode _ ih =>
    have hnext : iterNext h.nodes (some a) = some (some (node.data, node.next)) := by
      simp [iterNext, hnode]
    rw [List.length_cons, Iter.toList_succ_of_next hnext, ih]
    rfl

end Operations

/-! ## Runs -/

/-- What an operation does to the sequence a list holds, as the list's documentation says:
what it returns, and the sequence after it. -/
def Op.spec : Op α → List α → Option α × List α
  | .pushFront x, s => (none, x :: s)
  | .popFront, s => (s.head?, s.tail)
  | .extend xs, s => (none, s ++ xs)
  | .fromIter xs, _ => (none, xs)

/-- A run of operations on the sequence: what each returns, and the sequence at the end. -/
def Op.runSpec : List α → List (Op α) → List (Option α) × List α
  | s, [] => ([], s)
  | s, op :: ops =>
    let r := Op.runSpec (op.spec s).2 ops
    ((op.spec s).1 :: r.1, r.2)

section Run

variable (A : BoxAllocator α)

/-- One operation on a list holding a chain returns what `Op.spec` says, and leaves a list
holding, as a chain, the sequence `Op.spec` says. -/
theorem step_spec {h : Heap α} {l : LinkedList} {as : List ℕ} {s : List α}
    (hc : Holds h l.first as s) (op : Op α) :
    ∃ h' l' as', step A (h, l) op = some ((op.spec s).1, h', l') ∧
      Holds h' l'.first as' (op.spec s).2 := by
  cases op with
  | pushFront x =>
    obtain ⟨hpush, hc'⟩ := pushFrontImpl_spec A hc x
    exact ⟨_, _, _, by simp only [step, LinkedList.pushFront, hpush]; rfl, hc'⟩
  | popFront =>
    rcases popFront_spec hc with ⟨rfl, rfl, hpop⟩ | ⟨a, as', x, s', next, rfl, rfl, hpop, hrest⟩
    · exact ⟨h, l, [], hpop, hc⟩
    · exact ⟨h.free a, ⟨next⟩, as', hpop, hrest⟩
  | extend xs =>
    obtain ⟨h', l', as', hext, hc', -⟩ := extend_spec A hc xs
    exact ⟨h', l', as ++ as', by simp [step, hext, Op.spec], hc'⟩
  | fromIter xs =>
    -- the new list is built beside the old one, on nodes that were free
    obtain ⟨h₁, l₁, as₁, hext, hc₁, hfresh₁, hframe₁⟩ :=
      extend_spec A (Chain.nil : Holds h LinkedList.new.first [] []) xs
    rw [List.nil_append, List.nil_append] at hc₁
    -- so the old list is still whole, and dropping it frees none of the new one's nodes
    have hold : Holds h₁ l.first as s :=
      hc.frame fun a ha => hframe₁ a (hc.isSome a ha) (by simp)
    obtain ⟨h₂, hdrop, hnodes⟩ := drop_spec hold
    have hnew : Holds h₂ l₁.first as₁ xs := by
      refine hc₁.frame fun a ha => ?_
      rw [hnodes a, if_neg]
      intro has
      exact hc.ne_of_free (hfresh₁ a ha) a has rfl
    refine ⟨h₂, l₁, as₁, ?_, hnew⟩
    simp only [step, LinkedList.fromIter, LinkedList.new, hext, Option.bind_some, hdrop,
      Option.map_some, Op.spec]

/-- A run of operations on a list holding a chain returns what `Op.runSpec` says, and ends on a
list holding, as a chain, the sequence `Op.runSpec` says. -/
theorem run_spec (ops : List (Op α)) : ∀ {h : Heap α} {l : LinkedList} {as : List ℕ}
    {s : List α}, Holds h l.first as s →
    ∃ h' l' as', run A (h, l) ops = some ((Op.runSpec s ops).1, h', l') ∧
      Holds h' l'.first as' (Op.runSpec s ops).2 := by
  induction ops with
  | nil =>
    intro h l as s hc
    exact ⟨h, l, as, rfl, hc⟩
  | cons op ops ih =>
    intro h l as s hc
    obtain ⟨h₁, l₁, as₁, hstep, hc₁⟩ := step_spec A hc op
    obtain ⟨h', l', as', hrun, hc'⟩ := ih hc₁
    refine ⟨h', l', as', ?_, hc'⟩
    rw [run, hstep, Option.bind_some]
    dsimp only
    rw [hrun]
    rfl

theorem run_new_holds_runSpec (h : Heap α) (ops : List (Op α)) :
    ∃ h' l' as, run A (h, LinkedList.new) ops = some ((Op.runSpec [] ops).1, h', l') ∧
      Holds h' l'.first as (Op.runSpec [] ops).2 ∧ as.Nodup ∧
      Iter.toList (iterNext h'.nodes) ((Op.runSpec [] ops).2.length + 1) l'.first =
        some (Op.runSpec [] ops).2 := by
  obtain ⟨h', l', as, hrun, hc⟩ := run_spec A ops (Chain.nil : Holds h LinkedList.new.first [] [])
  exact ⟨h', l', as, hrun, hc, hc.nodup, toList_iterNext hc⟩

example : (run (bumpAllocator ℕ) (Heap.empty, LinkedList.new)
    [.pushFront 1, .pushFront 2, .popFront, .extend [3, 4], .popFront, .fromIter [5]]).map
      Prod.fst = some [none, none, some 2, none, some 1, none] := by
  decide

end Run

end SlabAllocator
end Popcorn
