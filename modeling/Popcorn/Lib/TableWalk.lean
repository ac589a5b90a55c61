import Mathlib

/-!
# Walks down trees of tables kept in memory

A radix tree stored in memory: each node is a table of entries, and an entry either names
the table one level down or ends the walk. Memory is a function from a table and an index
to the entry stored there.

* `walk decode mem t path` follows the entries at the indices of `path` from table `t`,
  decoding each into the next table;
* `reads` lists the entries a walk reads; a write to any other entry, or the filling of a
  table the walk does not read, leaves the walk as it was (`walk_write_of_not_mem`,
  `walk_fill_of_not_mem`), and a write to the entry a walk reaches redirects it there
  (`walk_write_append`);
* `TreeOn mem t S`: the paths of `S` lead from `t` to distinct tables, so that a table is
  read on behalf of one path of `S` only (`eq_of_mem_reads`).
-/

namespace TableWalk

variable {α ι β : Type*} (decode : β → Option α)

/-- Follow the entries at the indices of `path` down from table `t`. -/
def walk (mem : α → ι → β) : α → List ι → Option α
  | t, [] => some t
  | t, i :: path => (decode (mem t i)).bind fun t' => walk mem t' path

/-- The entries, as table and index, that `walk mem t path` reads, in order. -/
def reads (mem : α → ι → β) : α → List ι → List (α × ι)
  | _, [] => []
  | t, i :: path =>
    (t, i) :: match decode (mem t i) with
      | none => []
      | some t' => reads mem t' path

/-- The paths of `S` lead from `t` to distinct tables. -/
def TreeOn (mem : α → ι → β) (t : α) (S : Set (List ι)) : Prop :=
  ∀ p ∈ S, ∀ q ∈ S, ∀ u, walk decode mem t p = some u → walk decode mem t q = some u → p = q

/-- Memory with entry `i` of table `t` replaced by `e`. -/
def write [DecidableEq α] [DecidableEq ι] (mem : α → ι → β) (t : α) (i : ι) (e : β) :
    α → ι → β :=
  Function.update mem t (Function.update (mem t) i e)

/-- Memory with every entry of table `t` set to `e`. -/
def fill [DecidableEq α] (mem : α → ι → β) (t : α) (e : β) : α → ι → β :=
  Function.update mem t fun _ => e

variable {decode} {mem : α → ι → β}

@[simp] theorem walk_nil (t : α) : walk decode mem t [] = some t := rfl

@[simp] theorem walk_cons (t : α) (i : ι) (path : List ι) :
    walk decode mem t (i :: path) = (decode (mem t i)).bind fun t' => walk decode mem t' path :=
  rfl

theorem walk_append (t : α) (p q : List ι) :
    walk decode mem t (p ++ q) = (walk decode mem t p).bind fun u => walk decode mem u q := by
  induction p generalizing t with
  | nil => rfl
  | cons i p ih =>
    simp only [List.cons_append, walk_cons]
    cases decode (mem t i) with
    | none => rfl
    | some t' => exact ih t'

/-- The walk reads entry `j` of `u` exactly when `u` is where a prefix of the path leads and
`j` the next index. -/
theorem mem_reads_iff {t u : α} {j : ι} {path : List ι} :
    (u, j) ∈ reads decode mem t path ↔ ∃ p q, path = p ++ j :: q ∧ walk decode mem t p = some u := by
  induction path generalizing t with
  | nil => simp [reads]
  | cons i path ih =>
    simp only [reads, List.mem_cons, Prod.mk.injEq]
    constructor
    · rintro (⟨rfl, rfl⟩ | hmem)
      · exact ⟨[], path, rfl, rfl⟩
      · split at hmem
        · simp at hmem
        · rename_i t' ht'
          obtain ⟨p, q, rfl, hp⟩ := ih.mp hmem
          exact ⟨i :: p, q, rfl, by simp [ht', hp]⟩
    · rintro ⟨p, q, hpath, hp⟩
      cases p with
      | nil =>
        simp only [List.nil_append, List.cons.injEq] at hpath
        obtain ⟨rfl, rfl⟩ := hpath
        cases hp
        exact Or.inl ⟨rfl, rfl⟩
      | cons i' p =>
        simp only [List.cons_append, List.cons.injEq] at hpath
        obtain ⟨rfl, rfl⟩ := hpath
        right
        simp only [walk_cons] at hp
        split
        · rename_i hnone
          simp [hnone] at hp
        · rename_i t' ht'
          simp only [ht', Option.bind_some] at hp
          exact ih.mpr ⟨p, q, rfl, hp⟩

section Update

variable [DecidableEq α] [DecidableEq ι]

@[simp] theorem write_apply (t : α) (i : ι) (e : β) (u : α) (j : ι) :
    write mem t i e u j = if u = t ∧ j = i then e else mem u j := by
  unfold write
  by_cases hu : u = t
  · subst hu
    by_cases hj : j = i
    · simp [hj]
    · simp [hj]
  · simp [hu]

omit [DecidableEq ι] in
@[simp] theorem fill_apply (t : α) (e : β) (u : α) (j : ι) :
    fill mem t e u j = if u = t then e else mem u j := by
  unfold fill
  by_cases hu : u = t
  · simp [hu]
  · simp [hu]

/-- A walk that does not read entry `j` of `u` does not see a write there. -/
theorem walk_write_of_not_mem {t u : α} {j : ι} {e : β} {path : List ι}
    (h : (u, j) ∉ reads decode mem t path) :
    walk decode (write mem u j e) t path = walk decode mem t path := by
  induction path generalizing t with
  | nil => rfl
  | cons i path ih =>
    simp only [reads, List.mem_cons, Prod.mk.injEq, not_or] at h
    obtain ⟨hne, hrest⟩ := h
    have hread : write mem u j e t i = mem t i := by
      rw [write_apply, if_neg (fun h' => hne ⟨h'.1.symm, h'.2.symm⟩)]
    simp only [walk_cons, hread]
    split at hrest
    · rename_i hnone
      simp [hnone]
    · rename_i t' ht'
      simp only [ht', Option.bind_some]
      exact ih hrest

omit [DecidableEq ι] in
/-- A walk that reads no entry of `u` does not see `u` filled. -/
theorem walk_fill_of_not_mem {t u : α} {e : β} {path : List ι}
    (h : ∀ j, (u, j) ∉ reads decode mem t path) :
    walk decode (fill mem u e) t path = walk decode mem t path := by
  induction path generalizing t with
  | nil => rfl
  | cons i path ih =>
    have hne : t ≠ u := fun htu => h i (by simp [reads, htu])
    have hread : fill mem u e t i = mem t i := by rw [fill_apply, if_neg hne]
    simp only [walk_cons, hread]
    cases ht' : decode (mem t i) with
    | none => rfl
    | some t' =>
      simp only [Option.bind_some]
      refine ih fun j hj => h j ?_
      simp [reads, ht', hj]

/-- Writing the entry a walk reaches, and does not read on its way, redirects the walk
there to what the new entry decodes to. -/
theorem walk_write_append {t u : α} {j : ι} {e : β} {p : List ι} (q : List ι)
    (hp : walk decode mem t p = some u) (hnot : (u, j) ∉ reads decode mem t p) :
    walk decode (write mem u j e) t (p ++ j :: q) =
      (decode e).bind fun u' => walk decode (write mem u j e) u' q := by
  rw [walk_append, walk_write_of_not_mem hnot, hp, Option.bind_some, walk_cons, write_apply,
    if_pos ⟨rfl, rfl⟩]

end Update

/-! ## Trees -/

/-- The paths all of whose entries are read in tables that paths of `S` lead to: every
strict prefix lies in `S`. -/
def Along (S : Set (List ι)) (q : List ι) : Prop :=
  ∀ p j q', q = p ++ j :: q' → p ∈ S

/-- In a tree, a walk along `S` reads an entry of the table at `p ∈ S` only if it goes on
from `p`. -/
theorem eq_of_mem_reads {t u : α} {S : Set (List ι)} {p path : List ι} {j : ι}
    (htree : TreeOn decode mem t S) (hp : p ∈ S) (hu : walk decode mem t p = some u)
    (halong : Along S path) (hread : (u, j) ∈ reads decode mem t path) :
    ∃ q, path = p ++ j :: q := by
  obtain ⟨p', q', hpath, hp'⟩ := mem_reads_iff.mp hread
  have hpp' : p' = p := htree p' (halong p' j q' hpath) p hp u hp' hu
  exact ⟨q', hpp' ▸ hpath⟩

/-- A walk along `S` reads only tables that paths of `S` lead to. -/
theorem exists_of_mem_reads {t u : α} {S : Set (List ι)} {path : List ι} {j : ι}
    (halong : Along S path) (hread : (u, j) ∈ reads decode mem t path) :
    ∃ p ∈ S, walk decode mem t p = some u := by
  obtain ⟨p', q', hpath, hp'⟩ := mem_reads_iff.mp hread
  exact ⟨p', halong p' j q' hpath, hp'⟩

theorem Along.of_mem {S : Set (List ι)} (hS : ∀ p j q, p ++ j :: q ∈ S → p ∈ S) {q : List ι}
    (hq : q ∈ S) : Along S q := by
  rintro p j q' rfl
  exact hS p j q' hq

section Tree

variable [DecidableEq α] [DecidableEq ι] {S : Set (List ι)} {t u a : α} {i : ι} {e z : β}
  {p q : List ι}

omit [DecidableEq ι] in
/-- Filling a table no path of `S` leads to changes no walk along `S`. -/
theorem walk_fill_of_fresh (hfresh : ∀ p ∈ S, walk decode mem t p ≠ some a) (hq : Along S q) :
    walk decode (fill mem a z) t q = walk decode mem t q := by
  apply walk_fill_of_not_mem
  intro j hread
  obtain ⟨p, hp, ha⟩ := exists_of_mem_reads hq hread
  exact hfresh p hp ha

/-- In a tree, a write to entry `i` of the table at `p ∈ S` changes no walk along `S` but
those going on from `p` through `i`. -/
theorem walk_write_off_path (htree : TreeOn decode mem t S) (hp : p ∈ S)
    (hu : walk decode mem t p = some u) (hq : Along S q) (hne : ¬ ∃ q', q = p ++ i :: q') :
    walk decode (write mem u i e) t q = walk decode mem t q :=
  walk_write_of_not_mem fun hread => hne (eq_of_mem_reads htree hp hu hq hread)

/-- In a tree, a write to entry `i` of the table at `p ∈ S` redirects the walks going on
from `p` through `i`. -/
theorem walk_write_on_path (htree : TreeOn decode mem t S) (hp : p ∈ S)
    (hu : walk decode mem t p = some u) (hpS : Along S p) (q' : List ι) :
    walk decode (write mem u i e) t (p ++ i :: q') =
      (decode e).bind fun u' => walk decode (write mem u i e) u' q' := by
  apply walk_write_append q' hu
  intro hread
  obtain ⟨q'', hself⟩ := eq_of_mem_reads htree hp hu hpS hread
  have hlen := congrArg List.length hself
  simp at hlen

/-- A write that no path of `S` goes through keeps the tree. -/
theorem treeOn_write (hS : ∀ p j q, p ++ j :: q ∈ S → p ∈ S) (htree : TreeOn decode mem t S)
    (hp : p ∈ S) (hu : walk decode mem t p = some u) (hne : ∀ q ∈ S, ¬ ∃ q', q = p ++ i :: q') :
    TreeOn decode (write mem u i e) t S := by
  intro p₁ hp₁ p₂ hp₂ v h₁ h₂
  rw [walk_write_off_path htree hp hu (Along.of_mem hS hp₁) (hne p₁ hp₁)] at h₁
  rw [walk_write_off_path htree hp hu (Along.of_mem hS hp₂) (hne p₂ hp₂)] at h₂
  exact htree p₁ hp₁ p₂ hp₂ v h₁ h₂

variable (hS : ∀ p j q, p ++ j :: q ∈ S → p ∈ S) (htree : TreeOn decode mem t S) (hp : p ∈ S)
  (hu : walk decode mem t p = some u) (habsent : decode (mem u i) = none)
  (hfresh : ∀ p' ∈ S, walk decode mem t p' ≠ some a) (hz : decode z = none)
  (he : decode e = some a)
include hS htree hp hu habsent hfresh hz he

/-- Grafting: a fresh table `a`, filled with entries that lead nowhere, hung under the
absent entry `i` of the table at `p ∈ S`. A walk along `S` is as before, except the walk of
`p ++ [i]`, which now ends at `a`. -/
theorem walk_graft (hq : Along S q) :
    walk decode (write (fill mem a z) u i e) t q =
      if q = p ++ [i] then some a else walk decode mem t q := by
  -- the fill is invisible along `S`, so the tree and the table at `p` are as before
  have hfill : ∀ q, Along S q → walk decode (fill mem a z) t q = walk decode mem t q :=
    fun q hq => walk_fill_of_fresh hfresh hq
  have htree' : TreeOn decode (fill mem a z) t S := by
    intro p₁ hp₁ p₂ hp₂ v h₁ h₂
    rw [hfill p₁ (Along.of_mem hS hp₁)] at h₁
    rw [hfill p₂ (Along.of_mem hS hp₂)] at h₂
    exact htree p₁ hp₁ p₂ hp₂ v h₁ h₂
  have hpS : Along S p := Along.of_mem hS hp
  have hu' : walk decode (fill mem a z) t p = some u := by rw [hfill p hpS, hu]
  have hau : a ≠ u := fun hau => hfresh p hp (hau ▸ hu)
  by_cases hpre : ∃ q', q = p ++ i :: q'
  · obtain ⟨q', rfl⟩ := hpre
    rw [walk_write_on_path htree' hp hu' hpS q', he, Option.bind_some]
    cases q' with
    | nil => simp
    | cons j rest =>
      -- below the new table every entry leads nowhere, as the absent entry did before
      have hne : p ++ i :: j :: rest ≠ p ++ [i] := by simp
      have hold : walk decode mem t (p ++ i :: j :: rest) = none := by
        rw [walk_append, hu, Option.bind_some, walk_cons, habsent, Option.bind_none]
      rw [if_neg hne, hold, walk_cons, write_apply, if_neg (fun h => hau h.1), fill_apply,
        if_pos rfl, hz, Option.bind_none]
  · have hne : q ≠ p ++ [i] := fun h => hpre ⟨[], by simp [h]⟩
    rw [if_neg hne, walk_write_off_path htree' hp hu' hq hpre, hfill q hq]

/-- Grafting keeps the tree. -/
theorem treeOn_graft : TreeOn decode (write (fill mem a z) u i e) t S := by
  intro p₁ hp₁ p₂ hp₂ v h₁ h₂
  rw [walk_graft hS htree hp hu habsent hfresh hz he (Along.of_mem hS hp₁)] at h₁
  rw [walk_graft hS htree hp hu habsent hfresh hz he (Along.of_mem hS hp₂)] at h₂
  by_cases hq₁ : p₁ = p ++ [i]
  · by_cases hq₂ : p₂ = p ++ [i]
    · rw [hq₁, hq₂]
    · -- the other path would lead to the fresh table already
      rw [if_pos hq₁] at h₁
      rw [if_neg hq₂, ← h₁] at h₂
      exact absurd h₂ (hfresh p₂ hp₂)
  · rw [if_neg hq₁] at h₁
    by_cases hq₂ : p₂ = p ++ [i]
    · rw [if_pos hq₂] at h₂
      rw [← h₂] at h₁
      exact absurd h₁ (hfresh p₁ hp₁)
    · rw [if_neg hq₂] at h₂
      exact htree p₁ hp₁ p₂ hp₂ v h₁ h₂

end Tree

/-! ## Forests -/

section Forest

variable (decode) (roots : ι → α)

/-- A forest of trees of tables, the `i`-th under the table `roots i`, as one tree: under a
root that is no table (`none`), whose entry `i` leads to `roots i`, the tables as they are,
each entry lifted to the table it decodes to. -/
def rooted (mem : α → ι → β) : Option α → ι → Option (Option α)
  | none, i => some (some (roots i))
  | some t, i => (decode (mem t i)).map some

variable {decode roots}

/-- Below a table, the lifted walk is the walk. -/
theorem walk_rooted_some (t : α) (p : List ι) :
    walk id (rooted decode roots mem) (some t) p = (walk decode mem t p).map some := by
  induction p generalizing t with
  | nil => rfl
  | cons i p ih =>
    simp only [walk_cons, rooted, id]
    cases decode (mem t i) with
    | none => rfl
    | some t' => exact ih t'

/-- From the root, the first index picks the tree. -/
theorem walk_rooted_none (i : ι) (p : List ι) :
    walk id (rooted decode roots mem) none (i :: p) = (walk decode mem (roots i) p).map some := by
  simp only [walk_cons, rooted, id, Option.bind_some]
  exact walk_rooted_some (roots i) p

theorem rooted_write [DecidableEq α] [DecidableEq ι] (u : α) (j : ι) (e : β) :
    rooted decode roots (write mem u j e) =
      write (rooted decode roots mem) (some u) j ((decode e).map some) := by
  funext t i
  cases t with
  | none => simp [rooted]
  | some t =>
    simp only [rooted, write_apply, Option.some.injEq]
    split_ifs <;> rfl

theorem rooted_fill [DecidableEq α] (a : α) (z : β) :
    rooted decode roots (fill mem a z) = fill (rooted decode roots mem) (some a) ((decode z).map some) := by
  funext t i
  cases t with
  | none => simp [rooted]
  | some t =>
    simp only [rooted, fill_apply, Option.some.injEq]
    split_ifs <;> rfl

end Forest

end TableWalk
