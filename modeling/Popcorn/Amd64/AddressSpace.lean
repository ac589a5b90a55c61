import Popcorn.Amd64.Table
import Popcorn.Lib.Run

/-!
# An address space's lower half is a map from pages to frames

What `Amd64TTable` is for, on the canonical lower half (addresses below `2 ^ 47`): a finite
partial map from pages to frames, which `map_page` extends by a page not yet mapped and
`unmap_page` shrinks by a page that is. `PageMap` states that abstract map and its two
operations; `Refines t m M` says that the tables of `t` in `m` stand for `M`.

The tables stand for a map as long as the lower half is a tree (`Inv`): no two paths from the
`PML4` lead to one table, and the allocator's frames are none of the tables. A new table is
then grafted under an absent entry (`TableWalk.walk_graft`) and changes no translation,
and a write to a `PT` entry changes the translation of its one page only.
-/

namespace Popcorn

/-- A page of the canonical lower half, below address `2 ^ 47`. -/
def Page.IsLower (page : Page) : Prop := page.number < 2 ^ 35

namespace Amd64

/-! ## The abstract map -/

/-- A finite partial map from pages to frames: what an address space maps. -/
abbrev PageMap := Page → Option Frame

namespace PageMap

/-- `map_page` on the map: a page not yet mapped is mapped, a mapped one refused. -/
def mapPage (M : PageMap) (page : Page) (frame : Frame) : Except MapPageError Unit × PageMap :=
  match M page with
  | none => (.ok (), Function.update M page (some frame))
  | some _ => (.error .alreadyMapped, M)

/-- `unmap_page` on the map: a mapped page is removed, an unmapped one refused. -/
def unmapPage (M : PageMap) (page : Page) : Except Unit Unit × PageMap :=
  match M page with
  | some _ => (.ok (), Function.update M page none)
  | none => (.error (), M)

end PageMap

/-! ## The lower half as a tree -/

/-- The paths from the `PML4` to the tables of the lower half: at most three indices, the
first among the `PML4`'s first 256 entries. -/
def lowerNodes : Set (List Nat) :=
  {p | p.length ≤ 3 ∧ (∀ i ∈ p, i < 512) ∧ ∀ i ∈ p.head?, i < 256}

theorem lowerNodes_of_append {p q : List Nat} (h : p ++ q ∈ lowerNodes) : p ∈ lowerNodes := by
  obtain ⟨hlen, hidx, hhead⟩ := h
  refine ⟨by simp at hlen; omega, fun i hi => hidx i (by simp [hi]), ?_⟩
  intro i hi
  cases p with
  | nil => simp at hi
  | cons k p => exact hhead i (by simpa using hi)

theorem lowerNodes_closed (p : List Nat) (j : Nat) (q : List Nat)
    (h : p ++ j :: q ∈ lowerNodes) : p ∈ lowerNodes :=
  lowerNodes_of_append h

/-- The invariant of an address space's lower half: its tables form a tree, and the frames
the allocator will hand out are none of them, distinct, and fit an entry's address field. -/
structure Inv (t : Amd64TTable) (m : Machine) : Prop where
  tree : TableWalk.TreeOn decode m.mem t.pml4 lowerNodes
  fresh : ∀ a ∈ m.free, ∀ p ∈ lowerNodes, TableWalk.walk decode m.mem t.pml4 p ≠ some a
  nodup : m.free.Nodup
  free_lt : ∀ a ∈ m.free, a.number < 2 ^ 48

/-- The walk of a page's four indices: the frame the tables map it to. -/
def view (t : Amd64TTable) (mem : Memory) (page : Page) : Option Frame :=
  TableWalk.walk decode mem t.pml4 page.indices

/-- The tables of `t` in `m` stand for the map `M` on the lower half. -/
structure Refines (t : Amd64TTable) (m : Machine) (M : PageMap) : Prop where
  inv : Inv t m
  view_eq : ∀ page, page.IsLower → view t m.mem page = M page

/-! ## Lower pages -/

theorem isLower_start_lt {page : Page} (h : page.IsLower) : page.start < upperHalfStart := by
  unfold Page.IsLower at h
  simp only [Page.start, pageSize, upperHalfStart]
  omega

theorem isLower_pml4Index_lt {page : Page} (h : page.IsLower) : page.pml4Index < 256 := by
  unfold Page.IsLower at h
  rw [Page.pml4Index, Page.index_eq, Level.pageShift]
  omega

theorem indices_eq (page : Page) :
    page.indices = [page.pml4Index, page.pdptIndex, page.pdIndex] ++ [page.ptIndex] := rfl

/-- The tables a lower page's walk reads lie in the lower half. -/
theorem isLower_table_mem {page : Page} (h : page.IsLower) :
    [page.pml4Index, page.pdptIndex, page.pdIndex] ∈ lowerNodes := by
  refine ⟨by simp, ?_, by simpa using isLower_pml4Index_lt h⟩
  intro i hi
  simp only [List.mem_cons, List.not_mem_nil, or_false] at hi
  rcases hi with rfl | rfl | rfl <;> exact Page.index_lt _ _

theorem isLower_along {page : Page} (h : page.IsLower) :
    TableWalk.Along lowerNodes page.indices := by
  intro p j q hpq
  rw [indices_eq] at hpq
  -- `p` is a prefix of the table path of length at most three
  have hnode := isLower_table_mem h
  rcases p with _ | ⟨a, _ | ⟨b, _ | ⟨c, _ | ⟨d, p⟩⟩⟩⟩
  · exact lowerNodes_closed [] _ [_, _] hnode
  · simp only [List.cons_append, List.nil_append, List.cons.injEq] at hpq
    obtain ⟨rfl, -⟩ := hpq
    exact lowerNodes_closed [_] _ [_] hnode
  · simp only [List.cons_append, List.nil_append, List.cons.injEq] at hpq
    obtain ⟨rfl, rfl, -⟩ := hpq
    exact lowerNodes_closed [_, _] _ [] hnode
  · simp only [List.cons_append, List.nil_append, List.cons.injEq] at hpq
    obtain ⟨rfl, rfl, rfl, -⟩ := hpq
    exact hnode
  · simp at hpq

/-- On a lower page, `translate_page` does not panic and answers the walk of its indices. -/
theorem translatePage_eq_view {t : Amd64TTable} {mem : Memory} {page : Page}
    (h : page.IsLower) : t.translatePage mem page = some (view t mem page) := by
  rw [Amd64TTable.translatePage, if_pos (isLower_start_lt h), view, indices_eq, TableWalk.walk_append]
  simp [childTable, decode, entryAt]

/-- A walk one entry further: the table the last entry points to. -/
theorem walk_append_single (mem : Memory) (root : Frame) (p : List Nat) (i : Nat) :
    TableWalk.walk decode mem root (p ++ [i]) =
      (TableWalk.walk decode mem root p).bind fun u => childTable mem u i := by
  rw [TableWalk.walk_append]
  simp [childTable, decode, entryAt]

/-! ## One call at a time -/

section Steps

variable {t : Amd64TTable} {m : Machine}

/-- `child_table_or_new` at a table of the lower half keeps the invariant and every
translation, and when it succeeds the walk one entry further leads to the table it answers. -/
theorem childTableOrNew_spec (hinv : Inv t m) {p : List Nat} {i : Nat} {u : Frame}
    (hpi : p ++ [i] ∈ lowerNodes) (hu : TableWalk.walk decode m.mem t.pml4 p = some u) :
    ∃ r m', childTableOrNew u i m = some (r, m') ∧ Inv t m' ∧
      (∀ page, page.IsLower → view t m'.mem page = view t m.mem page) ∧
      (∀ c, r = .ok c → TableWalk.walk decode m'.mem t.pml4 (p ++ [i]) = some c) ∧
      (∀ e, r = .error e → m.free = []) ∧
      ∃ used, m.free = used ++ m'.free ∧ used.length ≤ 1 := by
  have hp : p ∈ lowerNodes := lowerNodes_of_append hpi
  cases hc : childTable m.mem u i with
  | some c =>
    refine ⟨.ok c, m, childTableOrNew_of_present hc, hinv, fun _ _ => rfl, ?_, by simp,
      [], by simp⟩
    rintro c' ⟨⟩
    rw [walk_append_single, hu, Option.bind_some, hc]
  | none =>
    cases hfree : m.free with
    | nil =>
      exact ⟨.error ⟨⟩, m, childTableOrNew_of_absent_nil hc hfree, hinv, fun _ _ => rfl,
        by simp, fun _ _ => rfl, [], by simp [hfree]⟩
    | cons a rest =>
      have hmem : a ∈ m.free := by simp [hfree]
      have hfresh := hinv.fresh a hmem
      have hau : a ≠ u := fun h => hfresh p hp (h ▸ hu)
      obtain ⟨e, he, hcall⟩ := childTableOrNew_of_absent_cons hc hfree hau (hinv.free_lt a hmem)
      have hz : decode 0 = none := Amd64Entry.pointedFrame_empty
      -- the new table is grafted under the absent entry
      have hgraft := fun q (hq : TableWalk.Along lowerNodes q) =>
        TableWalk.walk_graft lowerNodes_closed hinv.tree hp hu hc hfresh hz he hq
      have hnodup := hfree ▸ hinv.nodup
      refine ⟨.ok a, ⟨_, rest⟩, hcall, ⟨?_, ?_, (List.nodup_cons.mp hnodup).2, ?_⟩, ?_, ?_,
        by simp, [a], by simp⟩
      · exact TableWalk.treeOn_graft lowerNodes_closed hinv.tree hp hu hc hfresh hz he
      · intro b hb q hq hwalk
        rw [hgraft q (TableWalk.Along.of_mem lowerNodes_closed hq)] at hwalk
        split at hwalk
        · -- only `a` is new, and the allocator hands it out once
          cases hwalk
          exact (List.nodup_cons.mp hnodup).1 hb
        · exact hinv.fresh b (by simp [hfree, hb]) q hq hwalk
      · exact fun b hb => hinv.free_lt b (by simp [hfree, hb])
      · intro page hpage
        have hne : page.indices ≠ p ++ [i] := by
          intro h
          have hlen := congrArg List.length h
          have hle := hpi.1
          simp only [List.length_append, List.length_singleton] at hlen hle
          rw [show page.indices.length = 4 from rfl] at hlen
          omega
        rw [view, hgraft _ (isLower_along hpage), if_neg hne]
        rfl
      · rintro c ⟨⟩
        rw [hgraft _ (TableWalk.Along.of_mem lowerNodes_closed hpi), if_pos rfl]

/-- The chain of `child_table_or_new` calls down the lower half, as `child_table_or_new`:
it keeps the invariant and every translation, answers the table at the end of the path, and
fails only when the allocator runs out. -/
theorem childTablesOrNew_spec (hinv : Inv t m) {p path : List Nat} {u : Frame}
    (hpath : p ++ path ∈ lowerNodes) (hu : TableWalk.walk decode m.mem t.pml4 p = some u) :
    ∃ r m', childTablesOrNew u path m = some (r, m') ∧ Inv t m' ∧
      (∀ page, page.IsLower → view t m'.mem page = view t m.mem page) ∧
      (∀ c, r = .ok c → TableWalk.walk decode m'.mem t.pml4 (p ++ path) = some c) ∧
      (∀ e, r = .error e → m.free.length < path.length) ∧
      ∃ used, m.free = used ++ m'.free ∧ used.length ≤ path.length := by
  induction path generalizing p u m with
  | nil =>
    refine ⟨.ok u, m, rfl, hinv, fun _ _ => rfl, ?_, by simp, [], by simp⟩
    rintro c ⟨⟩
    simpa using hu
  | cons i path ih =>
    have hpi : p ++ [i] ∈ lowerNodes := lowerNodes_of_append (q := path) (by simpa using hpath)
    obtain ⟨r₁, m₁, hcall₁, hinv₁, hview₁, hwalk₁, herr₁, used₁, hused₁, hlen₁⟩ :=
      childTableOrNew_spec hinv hpi hu
    cases r₁ with
    | error e =>
      refine ⟨.error e, m₁, by simp [childTablesOrNew, hcall₁], hinv₁, hview₁, by simp, ?_,
        used₁, hused₁, by simp; omega⟩
      intro _ _
      simp [herr₁ e rfl]
    | ok c =>
      -- the rest of the chain goes on from the table one entry further
      have hpath' : (p ++ [i]) ++ path ∈ lowerNodes := by simpa using hpath
      obtain ⟨r, m', hcall, hinv', hview', hwalk', herr', used₂, hused₂, hlen₂⟩ :=
        ih hinv₁ hpath' (hwalk₁ c rfl)
      refine ⟨r, m', by simp [childTablesOrNew, hcall₁, hcall], hinv', ?_, ?_, ?_,
        used₁ ++ used₂, by simp [hused₁, hused₂], by simp; omega⟩
      · intro page hpage
        rw [hview' page hpage, hview₁ page hpage]
      · intro c' hc'
        simpa using hwalk' c' hc'
      · intro e he
        have := herr' e he
        have hsplit := congrArg List.length hused₁
        simp only [List.length_append] at hsplit
        simp only [List.length_cons]
        omega

/-- A write to the `PT` entry of a lower page keeps the invariant and changes the translation
of that page only, to what the new entry decodes to. -/
theorem leaf_write (hinv : Inv t m) {page : Page} (hp : page.IsLower) {pt : Frame}
    (hpt : TableWalk.walk decode m.mem t.pml4 [page.pml4Index, page.pdptIndex, page.pdIndex] =
      some pt)
    (w : BitVec 64) :
    Inv t { m with mem := TableWalk.write m.mem pt page.ptIndex w } ∧
      ∀ q, q.IsLower → view t (TableWalk.write m.mem pt page.ptIndex w) q =
        if q = page then decode w else view t m.mem q := by
  have hnode := isLower_table_mem hp
  have htable := TableWalk.Along.of_mem lowerNodes_closed hnode
  -- no table of the lower half lies below a `PT` entry
  have hbelow : ∀ q ∈ lowerNodes,
      ¬ ∃ q', q = [page.pml4Index, page.pdptIndex, page.pdIndex] ++ page.ptIndex :: q' := by
    rintro q hq ⟨q', rfl⟩
    have hle := hq.1
    simp at hle
    omega
  have hnodes : ∀ q ∈ lowerNodes, TableWalk.walk decode (TableWalk.write m.mem pt page.ptIndex w)
      t.pml4 q = TableWalk.walk decode m.mem t.pml4 q := fun q hq =>
    TableWalk.walk_write_off_path hinv.tree hnode hpt
      (TableWalk.Along.of_mem lowerNodes_closed hq) (hbelow q hq)
  refine ⟨⟨TableWalk.treeOn_write lowerNodes_closed hinv.tree hnode hpt hbelow, ?_,
    hinv.nodup, hinv.free_lt⟩, ?_⟩
  · intro a ha q hq
    rw [hnodes q hq]
    exact hinv.fresh a ha q hq
  · intro q hq
    by_cases hqp : q = page
    · subst hqp
      rw [if_pos rfl, view, indices_eq, TableWalk.walk_write_on_path hinv.tree hnode hpt htable]
      simp
    · rw [if_neg hqp, view, view]
      apply TableWalk.walk_write_off_path hinv.tree hnode hpt (isLower_along hq)
      -- a lower page whose walk goes through the entry is the page itself
      rintro ⟨q', hq'⟩
      have hlen := congrArg List.length hq'
      rw [show q.indices.length = 4 from rfl] at hlen
      simp only [List.length_append, List.length_cons] at hlen
      have hnil : q' = [] := List.eq_nil_of_length_eq_zero (by simp at hlen; omega)
      subst hnil
      exact hqp (Page.eq_of_indices_eq (by unfold Page.IsLower at hq; omega)
        (by unfold Page.IsLower at hp; omega) (by rw [hq', indices_eq]))

/-- The translation of a lower page is the `PT` entry's frame, once its table is found. -/
theorem view_of_table {mem : Memory} {page : Page} {pt : Frame}
    (hpt : TableWalk.walk decode mem t.pml4 [page.pml4Index, page.pdptIndex, page.pdIndex] =
      some pt) :
    view t mem page = childTable mem pt page.ptIndex := by
  rw [view, indices_eq, walk_append_single, hpt, Option.bind_some]

/-- `map_page` on a lower page does not panic, and takes at most three frames. When the
allocator has the frames it needs it answers and acts as `PageMap.mapPage`; otherwise it
fails with `AllocError` and maps what it mapped before. -/
theorem mapPage_refines {M : PageMap} (href : Refines t m M) {page : Page} {frame : Frame}
    (hp : page.IsLower) (hframe : frame.number < 2 ^ 48) :
    ∃ r m', t.mapPage page frame m = some (r, m') ∧
      ((r = (M.mapPage page frame).1 ∧ Refines t m' (M.mapPage page frame).2) ∨
        (r = .error .allocError ∧ m.free.length < 3 ∧ Refines t m' M)) ∧
      ∃ used, m.free = used ++ m'.free ∧ used.length ≤ 3 := by
  obtain ⟨r₁, m₁, hcall, hinv₁, hview₁, hwalk₁, herr₁, used, hused, hlen⟩ :=
    childTablesOrNew_spec href.inv (p := []) (isLower_table_mem hp) rfl
  have hM : ∀ q, q.IsLower → view t m₁.mem q = M q := fun q hq => by
    rw [hview₁ q hq, href.view_eq q hq]
  rw [Amd64TTable.mapPage, if_pos (isLower_start_lt hp), hcall]
  cases r₁ with
  | error e =>
    exact ⟨_, _, rfl, Or.inr ⟨rfl, by simpa using herr₁ e rfl, hinv₁, hM⟩, used, hused, hlen⟩
  | ok pt =>
    have hpt : TableWalk.walk decode m₁.mem t.pml4 [page.pml4Index, page.pdptIndex,
        page.pdIndex] = some pt := by simpa using hwalk₁ pt rfl
    have hentry : M page = (entryAt m₁.mem pt page.ptIndex).pointedFrame := by
      rw [← hM page hp, view_of_table hpt]
      rfl
    simp only [pointEntry]
    cases hpe : (entryAt m₁.mem pt page.ptIndex).pointToFrame frame with
    | error u =>
      -- the entry is present: the page was mapped
      have hpres := Amd64Entry.pointToFrame_eq_error_iff.mp ⟨u, hpe⟩
      obtain ⟨g, hg⟩ : ∃ g, M page = some g := by
        rw [hentry, Amd64Entry.pointedFrame_eq_some hpres]
        exact ⟨_, rfl⟩
      refine ⟨_, _, rfl, Or.inl ⟨by simp [PageMap.mapPage, hg], ?_⟩, used, hused, hlen⟩
      simp only [PageMap.mapPage, hg]
      exact ⟨hinv₁, hM⟩
    | ok e =>
      have hnone : M page = none := by
        rw [hentry, Amd64Entry.pointedFrame_eq_none_iff]
        exact (Amd64Entry.pointToFrame_eq_ok hpe).1
      obtain ⟨hinv₂, hview₂⟩ := leaf_write hinv₁ hp hpt e.bits
      refine ⟨_, _, rfl, Or.inl ⟨by simp [PageMap.mapPage, hnone], ?_⟩, used, hused, hlen⟩
      simp only [PageMap.mapPage, hnone]
      refine ⟨hinv₂, fun q hq => ?_⟩
      rw [hview₂ q hq]
      by_cases hqp : q = page
      · subst hqp
        rw [if_pos rfl, Function.update_self]
        exact Amd64Entry.pointedFrame_of_pointToFrame hpe hframe
      · rw [if_neg hqp, Function.update_of_ne hqp, hM q hq]

/-- `unmap_page` on a lower page does not panic, takes no frame, and answers and acts as
`PageMap.unmapPage`. -/
theorem unmapPage_refines {M : PageMap} (href : Refines t m M) {page : Page}
    (hp : page.IsLower) :
    ∃ r m', t.unmapPage page m = some (r, m') ∧ r = (M.unmapPage page).1 ∧
      Refines t m' (M.unmapPage page).2 ∧ m'.free = m.free := by
  rw [Amd64TTable.unmapPage, if_pos (isLower_start_lt hp)]
  cases hpt : TableWalk.walk decode m.mem t.pml4 [page.pml4Index, page.pdptIndex,
      page.pdIndex] with
  | none =>
    -- no `PT`: the page is not mapped
    have hnone : M page = none := by
      rw [← href.view_eq page hp, view, indices_eq, TableWalk.walk_append, hpt]
      rfl
    refine ⟨_, _, rfl, by simp [PageMap.unmapPage, hnone], ?_, rfl⟩
    simp only [PageMap.unmapPage, hnone]
    exact href
  | some pt =>
    have hentry : M page = (entryAt m.mem pt page.ptIndex).pointedFrame := by
      rw [← href.view_eq page hp, view_of_table hpt]
      rfl
    simp only [clearEntry, Amd64Entry.isUsed]
    cases hpres : (entryAt m.mem pt page.ptIndex).isPresent with
    | true =>
      obtain ⟨g, hg⟩ : ∃ g, M page = some g := by
        rw [hentry, Amd64Entry.pointedFrame_eq_some hpres]
        exact ⟨_, rfl⟩
      obtain ⟨hinv', hview'⟩ := leaf_write href.inv hp hpt Amd64Entry.empty.bits
      refine ⟨_, _, rfl, by simp [PageMap.unmapPage, hg], ?_, rfl⟩
      simp only [PageMap.unmapPage, hg]
      refine ⟨hinv', fun q hq => ?_⟩
      rw [hview' q hq]
      by_cases hqp : q = page
      · subst hqp
        rw [if_pos rfl, Function.update_self]
        exact Amd64Entry.pointedFrame_empty
      · rw [if_neg hqp, Function.update_of_ne hqp, href.view_eq q hq]
    | false =>
      have hnone : M page = none := by
        rw [hentry, Amd64Entry.pointedFrame_eq_none_iff]
        exact hpres
      refine ⟨_, _, rfl, by simp [PageMap.unmapPage, hnone], ?_, rfl⟩
      simp only [PageMap.unmapPage, hnone]
      exact href

end Steps

/-- `TTable::new` starts an address space whose lower half maps nothing, with the invariant,
from an allocator whose frames are distinct and fit an entry. -/
theorem new_refines {k : Amd64KTable} {m m' : Machine} {t : Amd64TTable} (hnodup : m.free.Nodup)
    (hlt : ∀ a ∈ m.free, a.number < 2 ^ 48) (h : Amd64TTable.new k m = some (.ok t, m')) :
    Refines t m' (fun _ => none) ∧ m.free = t.pml4 :: m'.free := by
  cases hfree : m.free with
  | nil => simp [Amd64TTable.new_of_nil hfree] at h
  | cons a rest =>
    obtain ⟨mem, hnew, hkeep, -⟩ := Amd64TTable.new_of_cons k hfree
    rw [hnew, Option.some.injEq, Prod.mk.injEq, Except.ok.injEq] at h
    obtain ⟨rfl, rfl⟩ := h
    -- the lower entries of the new `PML4` are those of the empty table
    have hlower : ∀ i < 256, mem a i = 0 := by
      intro i hi
      rw [hkeep a i (fun _ => Or.inl hi)]
      simp
    -- so every walk of the lower half stops at the `PML4`
    have hwalk : ∀ p ∈ lowerNodes, p ≠ [] → TableWalk.walk decode mem a p = none := by
      intro p hp hne
      cases p with
      | nil => exact absurd rfl hne
      | cons i p =>
        have hi : i < 256 := hp.2.2 i (by simp)
        have hz : decode 0 = none := Amd64Entry.pointedFrame_empty
        simp only [TableWalk.walk_cons, hlower i hi, hz, Option.bind_none]
    have hnodup' := hfree ▸ hnodup
    refine ⟨⟨⟨?_, ?_, (List.nodup_cons.mp hnodup').2, fun b hb => hlt b (by simp [hfree, hb])⟩,
      ?_⟩, rfl⟩
    · intro p hp q hq v hpv hqv
      by_cases hpn : p = []
      · by_cases hqn : q = []
        · rw [hpn, hqn]
        · rw [hwalk q hq hqn] at hqv
          cases hqv
      · rw [hwalk p hp hpn] at hpv
        cases hpv
    · intro b hb p hp hpb
      by_cases hpn : p = []
      · subst hpn
        cases hpb
        exact (List.nodup_cons.mp hnodup').1 hb
      · rw [hwalk p hp hpn] at hpb
        cases hpb
    · intro page hpage
      have hne : [page.pml4Index] ≠ [] := by simp
      have hstop := hwalk [page.pml4Index] ⟨by simp, by simp [Page.index_lt, Page.pml4Index],
        by simpa using isLower_pml4Index_lt hpage⟩ hne
      rw [view, show page.indices = [page.pml4Index] ++ [page.pdptIndex, page.pdIndex,
        page.ptIndex] from rfl, TableWalk.walk_append, hstop]
      rfl

/-! ## Runs of calls -/

/-- A call on an address space. -/
inductive Call
  | mapPage (page : Page) (frame : Frame)
  | unmapPage (page : Page)

/-- The answer to a call. -/
inductive Answer
  | mapped (result : Except MapPageError Unit)
  | unmapped (result : Except Unit Unit)

/-- A call on a page of the lower half, mapping it to a frame below physical address
`2 ^ 52`. -/
def Call.Valid : Call → Prop
  | .mapPage page frame => page.IsLower ∧ frame.number < 2 ^ 40
  | .unmapPage page => page.IsLower

/-- One call on the tables of `t`. -/
def step (t : Amd64TTable) (m : Machine) : Call → Option (Answer × Machine)
  | .mapPage page frame => (t.mapPage page frame m).map fun (r, m') => (.mapped r, m')
  | .unmapPage page => (t.unmapPage page m).map fun (r, m') => (.unmapped r, m')

/-- One call on the abstract map. -/
def PageMap.step (M : PageMap) : Call → Option (Answer × PageMap)
  | .mapPage page frame => some (.mapped (M.mapPage page frame).1, (M.mapPage page frame).2)
  | .unmapPage page => some (.unmapped (M.unmapPage page).1, (M.unmapPage page).2)

/-- A run of valid calls, with three frames for each in the allocator, answers as the
abstract map does and keeps the tables standing for it. -/
theorem exec_refines {t : Amd64TTable} :
    ∀ {cs : List Call} {m : Machine} {M : PageMap}, Refines t m M → (∀ c ∈ cs, c.Valid) →
      3 * cs.length ≤ m.free.length →
      ∃ rs m' M', Transition.exec (step t) m cs = some (rs, m') ∧
        Transition.exec PageMap.step M cs = some (rs, M') ∧ Refines t m' M' := by
  intro cs
  induction cs with
  | nil => exact fun href _ _ => ⟨[], _, _, rfl, rfl, href⟩
  | cons c cs ih =>
    intro m M href hvalid hfree
    have hrest : ∀ c ∈ cs, c.Valid := fun c' hc' => hvalid c' (by simp [hc'])
    cases c with
    | mapPage page frame =>
      obtain ⟨hp, hframe⟩ := hvalid (.mapPage page frame) (by simp)
      obtain ⟨r, m₁, hcall, hres, used, hused, hlen⟩ :=
        mapPage_refines href hp (show frame.number < 2 ^ 48 by omega)
      -- with three frames at hand the allocation does not fail
      have hfree' : m.free.length = used.length + m₁.free.length := by
        rw [hused, List.length_append]
      rcases hres with ⟨rfl, href₁⟩ | ⟨-, hshort, -⟩
      · obtain ⟨rs, m', M', hrun, habs, href'⟩ := ih href₁ hrest
          (by simp only [List.length_cons] at hfree; omega)
        exact ⟨.mapped (M.mapPage page frame).1 :: rs, m', M',
          by simp [Transition.exec, step, hcall, hrun],
          by simp [Transition.exec, PageMap.step, habs], href'⟩
      · simp only [List.length_cons] at hfree
        omega
    | unmapPage page =>
      have hp : page.IsLower := hvalid (.unmapPage page) (by simp)
      obtain ⟨r, m₁, hcall, rfl, href₁, hfree₁⟩ := unmapPage_refines href hp
      obtain ⟨rs, m', M', hrun, habs, href'⟩ := ih href₁ hrest
        (by rw [hfree₁]; simp only [List.length_cons] at hfree; omega)
      exact ⟨.unmapped (M.unmapPage page).1 :: rs, m', M',
        by simp [Transition.exec, step, hcall, hrun],
        by simp [Transition.exec, PageMap.step, habs], href'⟩

/-- An address space's lower half behaves as a finite partial map from pages to frames.
`TTable::new`, given an allocator of distinct frames below physical address `2 ^ 52`,
builds one that maps nothing; and from any tables standing for a map `M` (a tree, with an
allocator of fresh frames), a run of `map_page` and `unmap_page` calls on lower pages, with
frames below `2 ^ 52` and three allocator frames for each call, answers each call as `M`
does, `Ok` exactly when the page is unmapped (for `map_page`) or mapped (for
`unmap_page`), and ends with `translate_page` answering the resulting map on every lower
page. -/
theorem ttable_translates_as_page_map :
    (∀ (k : Amd64KTable) (m m' : Machine) (t : Amd64TTable), m.free.Nodup →
        (∀ a ∈ m.free, a.number < 2 ^ 40) → Amd64TTable.new k m = some (.ok t, m') →
        Refines t m' (fun _ => none)) ∧
    (∀ (t : Amd64TTable) (m : Machine) (M : PageMap) (cs : List Call), Refines t m M →
        (∀ c ∈ cs, c.Valid) → 3 * cs.length ≤ m.free.length →
        ∃ rs m' M', Transition.exec (step t) m cs = some (rs, m') ∧
          Transition.exec PageMap.step M cs = some (rs, M') ∧
          ∀ page, page.IsLower → t.translatePage m'.mem page = some (M' page)) := by
  refine ⟨?_, ?_⟩
  · intro k m m' t hnodup hlt h
    exact (new_refines hnodup (fun a ha => by have := hlt a ha; omega) h).1
  · intro t m M cs href hvalid hfree
    obtain ⟨rs, m', M', hrun, habs, href'⟩ := exec_refines href hvalid hfree
    refine ⟨rs, m', M', hrun, habs, fun page hp => ?_⟩
    rw [translatePage_eq_view hp, href'.view_eq page hp]

/-- The kernel's `translations_after_mapping` test through the theorem: a fresh address space
maps page `0xcafebabe000` to frame `0x347e40000`, and translates it so. -/
theorem ttable_translates_mapped_page :
    ∃ t m m' rs, Amd64TTable.new ⟨⟨1000⟩⟩ ⟨fun _ _ => 0, [⟨100⟩, ⟨101⟩, ⟨102⟩, ⟨103⟩]⟩ =
        some (.ok t, m) ∧
      Transition.exec (step t) m [.mapPage ⟨0xcafebabe⟩ ⟨0x347e40⟩] = some (rs, m') ∧
      t.translatePage m'.mem ⟨0xcafebabe⟩ = some (some ⟨0x347e40⟩) := by
  obtain ⟨mem, hnew, -, -⟩ := Amd64TTable.new_of_cons ⟨⟨1000⟩⟩
    (m := ⟨fun _ _ => 0, [⟨100⟩, ⟨101⟩, ⟨102⟩, ⟨103⟩]⟩) rfl
  generalize (⟨⟨100⟩⟩ : Amd64TTable) = t at hnew
  generalize (⟨mem, [⟨101⟩, ⟨102⟩, ⟨103⟩]⟩ : Machine) = m at hnew
  have hnodup : [(⟨100⟩ : Frame), ⟨101⟩, ⟨102⟩, ⟨103⟩].Nodup := by decide
  have hfree := (new_refines hnodup (by decide) hnew).2
  have href := ttable_translates_as_page_map.1 _ _ _ _ hnodup (by decide) hnew
  have hlen : m.free.length = 3 := by
    have := congrArg List.length hfree
    simp at this
    omega
  obtain ⟨rs, m', M', hrun, habs, htranslate⟩ := ttable_translates_as_page_map.2 t m _
    [.mapPage ⟨0xcafebabe⟩ ⟨0x347e40⟩] href
    (by simp [Call.Valid, Page.IsLower]) (by simp [hlen])
  refine ⟨t, m, m', rs, hnew, hrun, ?_⟩
  -- the abstract run maps the page
  simp only [Transition.exec, PageMap.step, PageMap.mapPage, Option.map_some, Option.some.injEq,
    Prod.mk.injEq] at habs
  rw [htranslate ⟨0xcafebabe⟩ (by simp [Page.IsLower]), ← habs.2]
  simp

end Amd64
end Popcorn
