import Popcorn.Amd64.Table

/-!
# The tables under a root

`child_table_or_new` and the last lines of `map_page` and `unmap_page` act on one tree of
tables: an address space's lower half under its `PML4`, or the kernel's half under its 256
`PDPT`s. In the memory `TableWalk.rooted` lifts, both are one tree: under the `PML4`
(`some pml4`), or under a root that is no table (`none`) whose entry `i` leads to the
kernel's `i`-th `PDPT`.

`TreeInv` is what the calls need of the tree: the paths of a set `S`, closed under prefixes,
lead to distinct tables, and the frames the allocator will hand out are none of them. Then
`child_table_or_new` grafts a fresh table under an absent entry and changes no walk but the
one to it (`childTableOrNew_tree`, `childTablesOrNew_tree`), and a write to an entry below
which `S` has no table changes only the walks through that entry (`leaf_write_tree`).
-/

namespace Popcorn
namespace Amd64

open TableWalk (rooted Along)

section Tree

variable (roots : Nat → Frame) (r : Option Frame) (S : Set (List Nat))

/-- What the calls need of the tables under `r`: the paths of `S` lead to distinct tables,
and the frames the allocator will hand out are none of them, distinct, and fit an entry's
address field. -/
structure TreeInv (m : Machine) : Prop where
  tree : TableWalk.TreeOn id (rooted decode roots m.mem) r S
  fresh : ∀ a ∈ m.free, ∀ p ∈ S,
    TableWalk.walk id (rooted decode roots m.mem) r p ≠ some (some a)
  nodup : m.free.Nodup
  free_lt : ∀ a ∈ m.free, a.number < 2 ^ 48

variable {roots r S} {m : Machine}

/-- A walk one entry further, from the table a path leads to. -/
theorem walk_rooted_append_single {mem : Memory} {p : List Nat} {u : Frame} (i : Nat)
    (hu : TableWalk.walk id (rooted decode roots mem) r p = some (some u)) :
    TableWalk.walk id (rooted decode roots mem) r (p ++ [i]) = (childTable mem u i).map some := by
  rw [TableWalk.walk_append, hu, Option.bind_some, TableWalk.walk_rooted_some]
  simp [childTable, entryAt, decode]

variable (hS : ∀ p j q, p ++ j :: q ∈ S → p ∈ S)
include hS

/-- A set closed under taking off the last index is closed under prefixes. -/
theorem mem_of_append_mem {p q : List Nat} (h : p ++ q ∈ S) : p ∈ S := by
  cases q with
  | nil => simpa using h
  | cons j q => exact hS p j q h

/-- A walk one entry past a table of `S` reads only tables of `S`. -/
theorem along_append_single {t : List Nat} (ht : t ∈ S) (x : Nat) : Along S (t ++ [x]) := by
  intro p j q h
  rcases List.append_eq_append_iff.mp h.symm with ⟨a', rfl, -⟩ | ⟨c', rfl, hc'⟩
  · exact mem_of_append_mem hS ht
  · -- `p` reaches past `t`: then it is `t` itself
    cases c' with
    | nil => simpa using ht
    | cons y c' =>
      have hlen := congrArg List.length hc'
      simp at hlen

/-- `child_table_or_new` at a table of the tree keeps the invariant and every walk along `S`
that does not end at a table of `S`; when it answers, the walk one entry further leads to the
table it answers, and it fails only when the allocator has no frame left. -/
theorem childTableOrNew_tree (hinv : TreeInv roots r S m) {p : List Nat} {i : Nat} {u : Frame}
    (hpi : p ++ [i] ∈ S) (hu : TableWalk.walk id (rooted decode roots m.mem) r p = some (some u)) :
    ∃ res m', childTableOrNew u i m = some (res, m') ∧ TreeInv roots r S m' ∧
      (∀ q, Along S q → q ∉ S → TableWalk.walk id (rooted decode roots m'.mem) r q =
        TableWalk.walk id (rooted decode roots m.mem) r q) ∧
      (∀ c, res = .ok c →
        TableWalk.walk id (rooted decode roots m'.mem) r (p ++ [i]) = some (some c)) ∧
      (∀ e, res = .error e → m.free = []) ∧
      ∃ used, m.free = used ++ m'.free ∧ used.length ≤ 1 := by
  have hp : p ∈ S := hS p i [] hpi
  cases hc : childTable m.mem u i with
  | some c =>
    refine ⟨.ok c, m, childTableOrNew_of_present hc, hinv, fun _ _ _ => rfl, ?_, by simp,
      [], by simp⟩
    rintro c' ⟨⟩
    rw [walk_rooted_append_single i hu, hc]
    rfl
  | none =>
    cases hfree : m.free with
    | nil =>
      exact ⟨.error ⟨⟩, m, childTableOrNew_of_absent_nil hc hfree, hinv, fun _ _ _ => rfl,
        by simp, fun _ _ => rfl, [], by simp [hfree]⟩
    | cons a rest =>
      have hmem : a ∈ m.free := by simp [hfree]
      have hfresh := hinv.fresh a hmem
      have hau : a ≠ u := fun h => hfresh p hp (h ▸ hu)
      obtain ⟨e, he, hcall⟩ := childTableOrNew_of_absent_cons hc hfree hau (hinv.free_lt a hmem)
      have hz : decode 0 = none := Amd64Entry.pointedFrame_empty
      -- in the lifted memory the call grafts the new table under the absent entry
      have hlift : rooted decode roots (TableWalk.write (TableWalk.fill m.mem a 0) u i e) =
          TableWalk.write (TableWalk.fill (rooted decode roots m.mem) (some a) none) (some u) i
            (some (some a)) := by
        rw [TableWalk.rooted_write, TableWalk.rooted_fill, he, hz]
        rfl
      have habsent : id (rooted decode roots m.mem (some u) i) = none := by
        show (childTable m.mem u i).map some = none
        rw [hc]
        rfl
      have hgraft := fun q (hq : Along S q) =>
        TableWalk.walk_graft hS hinv.tree hp hu habsent hfresh rfl rfl hq
      have hnodup := hfree ▸ hinv.nodup
      refine ⟨.ok a, ⟨_, rest⟩, hcall, ⟨?_, ?_, (List.nodup_cons.mp hnodup).2, ?_⟩, ?_, ?_,
        by simp, [a], by simp⟩
      · rw [hlift]
        exact TableWalk.treeOn_graft hS hinv.tree hp hu habsent hfresh rfl rfl
      · intro b hb q hq hwalk
        rw [hlift, hgraft q (Along.of_mem hS hq)] at hwalk
        split at hwalk
        · -- only `a` is new, and the allocator hands it out once
          cases hwalk
          exact (List.nodup_cons.mp hnodup).1 hb
        · exact hinv.fresh b (by simp [hfree, hb]) q hq hwalk
      · exact fun b hb => hinv.free_lt b (by simp [hfree, hb])
      · intro q hq hqS
        have hne : q ≠ p ++ [i] := fun h => hqS (h ▸ hpi)
        rw [hlift, hgraft q hq, if_neg hne]
      · rintro c ⟨⟩
        rw [hlift, hgraft _ (Along.of_mem hS hpi), if_pos rfl]

/-- The chain of `child_table_or_new(..)?` calls down `path` from a table of the tree, as
`child_table_or_new`: it keeps the invariant and the walks that end below `S`, answers the
table at the end of the path, and fails only when the allocator runs out. -/
theorem childTablesOrNew_tree (hinv : TreeInv roots r S m) {p path : List Nat} {u : Frame}
    (hpath : p ++ path ∈ S)
    (hu : TableWalk.walk id (rooted decode roots m.mem) r p = some (some u)) :
    ∃ res m', childTablesOrNew u path m = some (res, m') ∧ TreeInv roots r S m' ∧
      (∀ q, Along S q → q ∉ S → TableWalk.walk id (rooted decode roots m'.mem) r q =
        TableWalk.walk id (rooted decode roots m.mem) r q) ∧
      (∀ c, res = .ok c →
        TableWalk.walk id (rooted decode roots m'.mem) r (p ++ path) = some (some c)) ∧
      (∀ e, res = .error e → m.free.length < path.length) ∧
      ∃ used, m.free = used ++ m'.free ∧ used.length ≤ path.length := by
  induction path generalizing p u m with
  | nil =>
    refine ⟨.ok u, m, rfl, hinv, fun _ _ _ => rfl, ?_, by simp, [], by simp⟩
    rintro c ⟨⟩
    simpa using hu
  | cons i path ih =>
    have hpi : p ++ [i] ∈ S := mem_of_append_mem hS (q := path) (by simpa using hpath)
    obtain ⟨r₁, m₁, hcall₁, hinv₁, hwalks₁, hwalk₁, herr₁, used₁, hused₁, hlen₁⟩ :=
      childTableOrNew_tree hS hinv hpi hu
    cases r₁ with
    | error e =>
      refine ⟨.error e, m₁, by simp [childTablesOrNew, hcall₁], hinv₁, hwalks₁, by simp, ?_,
        used₁, hused₁, by simp; omega⟩
      intro _ _
      simp [herr₁ e rfl]
    | ok c =>
      -- the rest of the chain goes on from the table one entry further
      have hpath' : (p ++ [i]) ++ path ∈ S := by simpa using hpath
      obtain ⟨res, m', hcall, hinv', hwalks', hwalk', herr', used₂, hused₂, hlen₂⟩ :=
        ih hinv₁ hpath' (hwalk₁ c rfl)
      refine ⟨res, m', by simp [childTablesOrNew, hcall₁, hcall], hinv', ?_, ?_, ?_,
        used₁ ++ used₂, by simp [hused₁, hused₂], by simp; omega⟩
      · intro q hq hqS
        rw [hwalks' q hq hqS, hwalks₁ q hq hqS]
      · intro c' hc'
        simpa using hwalk' c' hc'
      · intro e he
        have := herr' e he
        have hsplit := congrArg List.length hused₁
        simp only [List.length_append] at hsplit
        simp only [List.length_cons]
        omega

/-- A write to entry `idx` of the table at `p ∈ S`, below which `S` has no table, keeps the
invariant, redirects the walk one entry further to what the new entry decodes to, and changes
no walk along `S` that does not go through the entry. -/
theorem leaf_write_tree (hinv : TreeInv roots r S m) {p : List Nat} {idx : Nat} {pt : Frame}
    (hp : p ∈ S) (hpt : TableWalk.walk id (rooted decode roots m.mem) r p = some (some pt))
    (hbelow : ∀ q ∈ S, ¬ ∃ q', q = p ++ idx :: q') (w : BitVec 64) :
    TreeInv roots r S { m with mem := TableWalk.write m.mem pt idx w } ∧
      TableWalk.walk id (rooted decode roots (TableWalk.write m.mem pt idx w)) r (p ++ [idx]) =
        (decode w).map some ∧
      ∀ q, Along S q → (¬ ∃ q', q = p ++ idx :: q') →
        TableWalk.walk id (rooted decode roots (TableWalk.write m.mem pt idx w)) r q =
          TableWalk.walk id (rooted decode roots m.mem) r q := by
  have hlift : rooted decode roots (TableWalk.write m.mem pt idx w) =
      TableWalk.write (rooted decode roots m.mem) (some pt) idx ((decode w).map some) :=
    TableWalk.rooted_write pt idx w
  have hoff : ∀ q, Along S q → (¬ ∃ q', q = p ++ idx :: q') →
      TableWalk.walk id (rooted decode roots (TableWalk.write m.mem pt idx w)) r q =
        TableWalk.walk id (rooted decode roots m.mem) r q := by
    intro q hq hne
    rw [hlift]
    exact TableWalk.walk_write_off_path hinv.tree hp hpt hq hne
  refine ⟨⟨?_, ?_, hinv.nodup, hinv.free_lt⟩, ?_, hoff⟩
  · show TableWalk.TreeOn id (rooted decode roots (TableWalk.write m.mem pt idx w)) r S
    rw [hlift]
    exact TableWalk.treeOn_write hS hinv.tree hp hpt hbelow
  · intro a ha q hq
    show TableWalk.walk id (rooted decode roots (TableWalk.write m.mem pt idx w)) r q ≠ _
    rw [hoff q (Along.of_mem hS hq) (hbelow q hq)]
    exact hinv.fresh a ha q hq
  · rw [hlift, TableWalk.walk_write_on_path hinv.tree hp hpt (Along.of_mem hS hp) []]
    simp

end Tree

end Amd64
end Popcorn
