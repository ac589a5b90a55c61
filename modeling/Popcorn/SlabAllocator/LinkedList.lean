import Popcorn.Lib.NodeHeap
import Popcorn.Lib.Iter

/-!
# The slab allocator's linked list

`slab_allocator::linked_list::LinkedList<T>` owns a singly linked chain of boxed nodes: the
list holds a pointer to its first node, and each `Node` its data and a pointer to the next.
`push_front` boxes a node in front, `pop_front` unboxes the first, `last` follows the links to
the end, `extend` appends after the last node with `insert_after`, `from_iter` extends an
empty list, and `Drop` pops until the list is empty. `Iter` and `IterMut` follow the links
and yield the data.

The heap is the boxed nodes by address (`Heap`), with a bound from which on no address is in
use. `Box::new` is the allocator's choice of an address not in use (`BoxAllocator`), and
dropping a box frees its address. The `while` loops of `last` and `Drop` are given as many
turns as the heap has addresses in use and one more: a loop that has not ended by then never
ends, and is `none`, as is the dereference of a pointer to no node. `Iter` and `IterMut` read
the same nodes and yield the same data, one by shared and one by mutable reference: one
`iterNext` stands for both.
-/

namespace Popcorn
namespace SlabAllocator

/-- `Node<T>`. -/
structure Node (α : Type) where
  next : Option ℕ
  data : α
  deriving DecidableEq, Repr

/-- The boxed nodes, by address, and a bound from which on no address is in use. -/
structure Heap (α : Type) where
  nodes : ℕ → Option (Node α)
  bound : ℕ
  free_of_bound : ∀ a, bound ≤ a → nodes a = none

namespace Heap

variable {α : Type}

/-- The heap with no node in it. -/
def empty : Heap α := ⟨fun _ => none, 0, fun _ _ => rfl⟩

/-- A node written at `a`, as `Box::into_raw` leaves it or a write through the pointer does. -/
def write (h : Heap α) (a : ℕ) (node : Node α) : Heap α where
  nodes := Function.update h.nodes a (some node)
  bound := max h.bound (a + 1)
  free_of_bound b hb := by
    rw [Function.update_of_ne (by omega), h.free_of_bound b (by omega)]

/-- The box at `a` dropped: its address is free again. -/
def free (h : Heap α) (a : ℕ) : Heap α where
  nodes := Function.update h.nodes a none
  bound := h.bound
  free_of_bound b hb := by
    by_cases hba : b = a
    · rw [hba, Function.update_self]
    · rw [Function.update_of_ne hba, h.free_of_bound b hb]

end Heap

/-- The global allocator behind `Box::new`: an address not in use. -/
structure BoxAllocator (α : Type) where
  alloc : Heap α → ℕ
  fresh : ∀ h : Heap α, h.nodes (alloc h) = none

/-- An allocator that hands out the heap's bound. -/
def bumpAllocator (α : Type) : BoxAllocator α :=
  ⟨fun h => h.bound, fun h => h.free_of_bound _ le_rfl⟩

/-- `LinkedList<T>`: the pointer to its first node. -/
structure LinkedList where
  first : Option ℕ
  deriving DecidableEq, Repr

section Operations

variable {α : Type} (A : BoxAllocator α)

/-- `LinkedList::new`. -/
def LinkedList.new : LinkedList := ⟨none⟩

/-- `Node::new_boxed(data, next)`: the new node and its address. -/
def Node.newBoxed (h : Heap α) (data : α) (next : Option ℕ) : Heap α × ℕ :=
  let a := A.alloc h
  (h.write a ⟨next, data⟩, a)

/-- `push_front_impl`: a node boxed in front of the first, which it becomes. -/
def LinkedList.pushFrontImpl (h : Heap α) (l : LinkedList) (val : α) :
    Heap α × LinkedList × ℕ :=
  -- `Node::new_boxed(val, self.first.take())`
  let (h, node) := Node.newBoxed A h val l.first
  (h, ⟨some node⟩, node)

/-- `push_front`. -/
def LinkedList.pushFront (h : Heap α) (l : LinkedList) (val : α) : Heap α × LinkedList :=
  let (h, l, _) := LinkedList.pushFrontImpl A h l val
  (h, l)

/-- `pop_front_in_place`: the first node, which the list no longer holds. -/
def LinkedList.popFrontInPlace (h : Heap α) (l : LinkedList) :
    Option (Option ℕ × LinkedList) :=
  match l.first with
  | none => some (none, l)
  | some element => (h.nodes element).map fun node => (some element, ⟨node.next⟩)

/-- `pop_front`: the first node moved out of its box, which is dropped, and its data. -/
def LinkedList.popFront (h : Heap α) (l : LinkedList) : Option (Option α × Heap α × LinkedList) :=
  (LinkedList.popFrontInPlace h l).bind fun (element, l) =>
    match element with
    | none => some (none, h, l)
    | some element => (h.nodes element).map fun node => (some node.data, h.free element, l)

/-- The `while let` loop of `last`, for `fuel` turns at most. -/
def lastLoop (nodes : ℕ → Option (Node α)) : ℕ → ℕ → Option ℕ
  | 0, _ => none
  | fuel + 1, node =>
    (nodes node).bind fun n =>
      match n.next with
      | none => some node
      | some nextNode => lastLoop nodes fuel nextNode

/-- `last`: the address of the last node, if there is one. -/
def LinkedList.last (h : Heap α) (l : LinkedList) : Option (Option ℕ) :=
  match l.first with
  | none => some none
  | some node => (lastLoop h.nodes (h.bound + 1) node).map some

/-- `insert_after` on the node at `a`: a node boxed after it, linked from it. -/
def Node.insertAfter (h : Heap α) (a : ℕ) (data : α) : Option (Heap α × ℕ) :=
  (h.nodes a).map fun self =>
    -- `Node::new_boxed(data, self.next)`, then `self.next = Some(node)`
    let (h, node) := Node.newBoxed A h data self.next
    (h.write a { self with next := some node }, node)

/-- The `for` loop of `extend`: each item inserted after the last node, which it becomes. -/
def extendLoop (h : Heap α) (lastNode : ℕ) : List α → Option (Heap α)
  | [] => some h
  | item :: iter =>
    (Node.insertAfter A h lastNode item).bind fun (h, lastNode) => extendLoop h lastNode iter

/-- `extend(iter)`: `iter.next()` and `self.last()`, then the first item pushed in front of an
empty list or inserted after the last node, and the rest after it. -/
def LinkedList.extend (h : Heap α) (l : LinkedList) (iter : List α) :
    Option (Heap α × LinkedList) :=
  (LinkedList.last h l).bind fun lastNode =>
    match iter, lastNode with
    | [], _ => some (h, l)
    | item :: iter, none =>
      -- no items in the list yet, so pushing to the front is pushing to the back
      let (h, l, lastNode) := LinkedList.pushFrontImpl A h l item
      (extendLoop A h lastNode iter).map (·, l)
    | item :: iter, some lastNode =>
      (Node.insertAfter A h lastNode item).bind fun (h, lastNode) =>
        (extendLoop A h lastNode iter).map (·, l)

/-- `from_iter(iter)`: a new list, extended. -/
def LinkedList.fromIter (h : Heap α) (iter : List α) : Option (Heap α × LinkedList) :=
  LinkedList.extend A h LinkedList.new iter

/-- The loop of `Drop`: `pop_front` until it returns `None`, for `fuel` turns at most. -/
def dropLoop (h : Heap α) (l : LinkedList) : ℕ → Option (Heap α)
  | 0 => none
  | fuel + 1 =>
    (LinkedList.popFront h l).bind fun (item, h, l) =>
      match item with
      | none => some h
      | some _ => dropLoop h l fuel

/-- `Drop for LinkedList`. -/
def LinkedList.drop (h : Heap α) (l : LinkedList) : Option (Heap α) :=
  dropLoop h l (h.bound + 1)

/-- `Iter::next` and `IterMut::next`: the data of the current node, and the next node. -/
def iterNext (nodes : ℕ → Option (Node α)) (current : Option ℕ) :
    Option (Option (α × Option ℕ)) :=
  match current with
  | none => some none
  | some elem => (nodes elem).map fun elem => some (elem.data, elem.next)

end Operations

/-! ## Runs of operations -/

/-- The operations on a list. -/
inductive Op (α : Type) where
  | pushFront (x : α)
  | popFront
  | extend (xs : List α)
  | fromIter (xs : List α)
  deriving DecidableEq, Repr

section Run

variable {α : Type} (A : BoxAllocator α)

/-- One operation: what it returns (the item of `pop_front`), and the heap and the list after
it. `fromIter` is `list = LinkedList::from_iter(xs)`: the new list is built, then the old one
dropped. -/
def step (st : Heap α × LinkedList) : Op α → Option (Option α × Heap α × LinkedList)
  | .pushFront x => some (none, LinkedList.pushFront A st.1 st.2 x)
  | .popFront => LinkedList.popFront st.1 st.2
  | .extend xs => (LinkedList.extend A st.1 st.2 xs).map (none, ·)
  | .fromIter xs =>
    (LinkedList.fromIter A st.1 xs).bind fun (h, list) =>
      (LinkedList.drop h st.2).map fun h => (none, h, list)

/-- A run of operations: what each returns, and the final heap and list. -/
def run (st : Heap α × LinkedList) : List (Op α) →
    Option (List (Option α) × Heap α × LinkedList)
  | [] => some ([], st)
  | op :: ops =>
    (step A st op).bind fun (out, st) => (run st ops).map fun (outs, st) => (out :: outs, st)

end Run

end SlabAllocator
end Popcorn
