import Mathlib

/-!
# Round-robin order

What a round-robin scheduler is for: its tasks stand in a cycle of distinct entries, the
first one runs and the others wait in turn. `next` passes the processor on, so the one that
ran goes to the back; `add` puts a new task at the back. The order carries its distinctness,
so no value of the type has a task waiting twice or waiting while it runs.

After `i` turns the task at position `i` (counted round the cycle) runs
(`running_iterate_next`): every waiting task gets the processor within as many turns as there
are tasks.
-/

/-- A cycle of distinct tasks; the first runs. -/
@[ext]
structure RoundRobin (α : Type*) where
  order : List α
  nodup : order.Nodup
  ne_nil : order ≠ []

namespace RoundRobin

variable {α : Type*} (r : RoundRobin α)

/-- The task that runs. -/
def running : α := r.order.head r.ne_nil

/-- The tasks that wait, in their turn. -/
def waiting : List α := r.order.tail

/-- The next turn: the task that ran goes to the back. -/
def next : RoundRobin α :=
  ⟨r.order.rotate 1, List.nodup_rotate.mpr r.nodup, by simpa using r.ne_nil⟩

/-- A new task, at the back. -/
def add (x : α) (hx : x ∉ r.order) : RoundRobin α :=
  ⟨r.order ++ [x], List.concat_eq_append ▸ r.nodup.concat hx, by simp⟩

theorem order_eq : r.order = r.running :: r.waiting :=
  (List.cons_head_tail r.ne_nil).symm

theorem running_not_mem_waiting : r.running ∉ r.waiting := by
  have h := r.nodup
  rw [order_eq] at h
  exact (List.nodup_cons.mp h).1

theorem waiting_nodup : r.waiting.Nodup := by
  have h := r.nodup
  rw [order_eq] at h
  exact (List.nodup_cons.mp h).2

theorem mem_order_iff {x : α} : x ∈ r.order ↔ x = r.running ∨ x ∈ r.waiting := by
  rw [order_eq]
  exact List.mem_cons

variable {r}

/-- With tasks waiting, the first of them runs next, and the one that ran waits last. -/
theorem next_of_waiting_eq_cons {t : α} {rest : List α} (h : r.waiting = t :: rest) :
    r.next.running = t ∧ r.next.waiting = rest ++ [r.running] := by
  have horder : r.next.order = t :: (rest ++ [r.running]) := by
    show r.order.rotate 1 = _
    rw [order_eq, h, List.rotate_cons_succ, List.rotate_zero, List.cons_append]
  rw [order_eq] at horder
  exact List.cons_eq_cons.mp horder

/-- With no task waiting, the one that runs goes on. -/
theorem next_order_of_waiting_eq_nil (h : r.waiting = []) : r.next.order = r.order := by
  show r.order.rotate 1 = r.order
  rw [order_eq, h, List.rotate_singleton]

theorem mem_next {x : α} : x ∈ r.next.order ↔ x ∈ r.order :=
  List.mem_rotate

theorem add_running {x : α} (hx : x ∉ r.order) : (r.add x hx).running = r.running := by
  show (r.order ++ [x]).head _ = r.order.head _
  exact List.head_append_of_ne_nil r.ne_nil

theorem add_waiting {x : α} (hx : x ∉ r.order) : (r.add x hx).waiting = r.waiting ++ [x] := by
  show (r.order ++ [x]).tail = r.order.tail ++ [x]
  exact List.tail_append_of_ne_nil r.ne_nil

theorem iterate_next_order (i : ℕ) : (next^[i] r).order = r.order.rotate i := by
  induction i generalizing r with
  | zero => exact (List.rotate_zero _).symm
  | succ i ih =>
    rw [Function.iterate_succ_apply, ih]
    show (r.order.rotate 1).rotate i = r.order.rotate (i + 1)
    rw [List.rotate_rotate, Nat.add_comm]

/-- Fairness: after `i` turns the task `i` places on round the cycle runs. -/
theorem running_iterate_next (i : ℕ) :
    (next^[i] r).running =
      r.order.get ⟨i % r.order.length, Nat.mod_lt _ (List.length_pos_of_ne_nil r.ne_nil)⟩ := by
  have hlen : 0 < (r.order.rotate i).length := by
    rw [List.length_rotate]
    exact List.length_pos_of_ne_nil r.ne_nil
  have hhead : (next^[i] r).running = (r.order.rotate i).get ⟨0, hlen⟩ := by
    show (next^[i] r).order.head _ = _
    simp only [iterate_next_order, List.head_eq_getElem, List.get_eq_getElem]
  rw [hhead, List.get_eq_getElem, List.getElem_rotate, Nat.zero_add, List.get_eq_getElem]

end RoundRobin
