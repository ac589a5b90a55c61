import Popcorn.Amd64.TableTree
import Popcorn.Amd64.AddressSpace
import Popcorn.Amd64.KernelTable

/-!
# The kernel half is a map from pages to frames

What `Amd64KTable` is for: on the upper half, the kernel's, a finite partial map from pages
to frames, which `map_page` extends by a page not yet mapped and `unmap_page` shrinks by a
page that is, the same `PageMap` an address space's lower half stands for.

The kernel table keeps no `PML4` of its own: its 256 `PDPT`s are the roots of a forest, one
tree in the memory `TableWalk.rooted` lifts, under a root whose entry `i` leads to the `i`-th
`PDPT`. Its tables lie at the same paths under that root as the lower half's under a `PML4`
(`lowerNodes`), an upper page's at `tablePath`. `Amd64KTable.Refines k m M` says the tables
stand for `M` on the upper half; `view` is the walk from a page's `PDPT`, which the processor
follows from every `PML4` whose kernel entries point at the `PDPT`s.

Where the map always answers, the kernel table does not: `map_page` answers `AllocError` once
the allocator runs out of frames for a new `PD` or `PT` (`mapPage_refines`), and both calls
panic on a page of the lower half (`upper_of_mapPage`).
-/

namespace Popcorn

/-- A page of the upper half: from `upperHalfStart` to the top of the address space. -/
def Page.IsUpper (page : Page) : Prop := 2 ^ 52 - 2 ^ 35 ≤ page.number ∧ page.number < 2 ^ 52

namespace Amd64

open TableWalk (rooted Along)

theorem isUpper_start {page : Page} (h : page.IsUpper) : upperHalfStart ≤ page.start := by
  unfold Page.IsUpper at h
  simp only [Page.start, pageSize, upperHalfStart]
  omega

/-- An upper page's `PML4` index is one of the kernel's 256. -/
theorem isUpper_pml4Index {page : Page} (h : page.IsUpper) :
    256 ≤ page.pml4Index ∧ page.pml4Index - 256 < 256 := by
  unfold Page.IsUpper at h
  rw [Page.pml4Index, Page.index_eq, Level.pageShift]
  omega

/-- The tables above an upper page's entry, under the kernel table's root. -/
def tablePath (page : Page) : List Nat := [page.pml4Index - 256, page.pdptIndex, page.pdIndex]

theorem tablePath_mem {page : Page} (hp : page.IsUpper) : tablePath page ∈ lowerNodes := by
  obtain ⟨-, hi⟩ := isUpper_pml4Index hp
  refine ⟨by simp [tablePath], ?_, by simpa [tablePath] using hi⟩
  intro i hi'
  simp only [tablePath, List.mem_cons, List.not_mem_nil, or_false] at hi'
  rcases hi' with h | h | h <;> rw [h]
  · omega
  · exact Page.index_lt _ _
  · exact Page.index_lt _ _

/-- No table of the tree lies at or below an entry of a `PT`. -/
theorem not_mem_below_tablePath (page : Page) (q : List Nat) (j : Nat) (q' : List Nat) :
    q = tablePath page ++ j :: q' → q ∉ lowerNodes := by
  rintro rfl hq
  have hle := hq.1
  simp [tablePath] at hle
  omega

/-- Two upper pages with the same path to their entry are one page. -/
theorem eq_of_tablePath_eq {p q : Page} (hp : p.IsUpper) (hq : q.IsUpper)
    (h : tablePath p ++ [p.ptIndex] = tablePath q ++ [q.ptIndex]) : p = q := by
  have hp4 := (isUpper_pml4Index hp).1
  have hq4 := (isUpper_pml4Index hq).1
  simp only [tablePath, List.cons_append, List.nil_append, List.cons.injEq, and_true] at h
  obtain ⟨h1, h2, h3, h4⟩ := h
  have hpml4 : p.pml4Index = q.pml4Index := by omega
  unfold Page.IsUpper at hp hq
  exact @Page.eq_of_indices_eq_of_window p q (2 ^ 52 - 2 ^ 35) hp.1 (by omega) hq.1
    (by omega) (by simp [Page.indices, hpml4, h2, h3, h4])

namespace Amd64KTable

variable (k : Amd64KTable)

/-- The roots of the kernel's tables: `tables()[i]`, in frame `tables + i`. -/
def roots (i : Nat) : Frame := k.tables + i

/-- The frame the kernel's tables map an upper page to: the walk from the page's `PDPT`. -/
def view (mem : Memory) (page : Page) : Option Frame :=
  TableWalk.walk decode mem (k.tables + (page.pml4Index - 256))
    [page.pdptIndex, page.pdIndex, page.ptIndex]

/-- The tables of the kernel half stand for the map `M` on the upper half. -/
structure Refines (m : Machine) (M : PageMap) : Prop where
  inv : TreeInv k.roots none lowerNodes m
  view_eq : ∀ page, page.IsUpper → k.view m.mem page = M page

/-- The view is the lifted walk of the page's path. -/
theorem walk_tablePath (mem : Memory) (page : Page) :
    TableWalk.walk id (rooted decode k.roots mem) none (tablePath page ++ [page.ptIndex]) =
      (k.view mem page).map some :=
  TableWalk.walk_rooted_none _ _

/-- A change of memory that keeps every walk ending below the tables keeps the view. -/
theorem view_congr {mem mem' : Memory}
    (h : ∀ q, Along lowerNodes q → q ∉ lowerNodes →
      TableWalk.walk id (rooted decode k.roots mem') none q =
        TableWalk.walk id (rooted decode k.roots mem) none q)
    {page : Page} (hp : page.IsUpper) : k.view mem' page = k.view mem page := by
  have hwalk := h _ (along_append_single lowerNodes_closed (tablePath_mem hp) page.ptIndex)
    (not_mem_below_tablePath page _ _ [] rfl)
  rw [walk_tablePath, walk_tablePath] at hwalk
  exact Option.map_injective (Option.some_injective _) hwalk

/-- The view of an upper page is its `PT` entry's frame, once its table is found. -/
theorem view_of_table {mem : Memory} {page : Page} {pt : Frame}
    (hpt : TableWalk.walk id (rooted decode k.roots mem) none (tablePath page) = some (some pt)) :
    k.view mem page = childTable mem pt page.ptIndex := by
  have hwalk := walk_rooted_append_single page.ptIndex hpt
  rw [walk_tablePath] at hwalk
  exact Option.map_injective (Option.some_injective _) hwalk

variable {k} {m : Machine}

/-- A write to the `PT` entry of an upper page keeps the invariant and changes the view of
that page only, to what the new entry decodes to. -/
theorem leaf_write (hinv : TreeInv k.roots none lowerNodes m) {page : Page} (hp : page.IsUpper)
    {pt : Frame}
    (hpt : TableWalk.walk id (rooted decode k.roots m.mem) none (tablePath page) = some (some pt))
    (w : BitVec 64) :
    TreeInv k.roots none lowerNodes { m with mem := TableWalk.write m.mem pt page.ptIndex w } ∧
      ∀ q, q.IsUpper → k.view (TableWalk.write m.mem pt page.ptIndex w) q =
        if q = page then decode w else k.view m.mem q := by
  have hbelow : ∀ q ∈ lowerNodes, ¬ ∃ q', q = tablePath page ++ page.ptIndex :: q' := by
    rintro q hq ⟨q', hq'⟩
    exact not_mem_below_tablePath page q _ q' hq' hq
  obtain ⟨hinv', hon, hoff⟩ := leaf_write_tree lowerNodes_closed hinv (tablePath_mem hp) hpt
    hbelow w
  refine ⟨hinv', fun q hq => ?_⟩
  by_cases hqp : q = page
  · subst hqp
    rw [if_pos rfl]
    rw [walk_tablePath] at hon
    exact Option.map_injective (Option.some_injective _) hon
  · rw [if_neg hqp]
    -- the walk of another page does not go through the entry
    have hne : ¬ ∃ q', tablePath q ++ [q.ptIndex] = tablePath page ++ page.ptIndex :: q' := by
      rintro ⟨q', hq'⟩
      have hlen := congrArg List.length hq'
      simp only [tablePath, List.length_append, List.length_cons, List.length_nil] at hlen
      obtain rfl : q' = [] := List.eq_nil_of_length_eq_zero (by omega)
      exact hqp (eq_of_tablePath_eq hq hp hq')
    have hwalk := hoff _ (along_append_single lowerNodes_closed (tablePath_mem hq) q.ptIndex) hne
    rw [walk_tablePath, walk_tablePath] at hwalk
    exact Option.map_injective (Option.some_injective _) hwalk

/-- The lifted walk to an upper page's `PDPT`. -/
theorem walk_pdpt (mem : Memory) (page : Page) :
    TableWalk.walk id (rooted decode k.roots mem) none [page.pml4Index - 256] =
      some (some (k.tables + (page.pml4Index - 256))) :=
  TableWalk.walk_rooted_none _ _

/-- `map_page` on an upper page does not panic, and takes at most two frames. When the
allocator has the frames it needs it answers and acts as `PageMap.mapPage`; otherwise it
fails with `AllocError` and maps what it mapped before. -/
theorem mapPage_refines {M : PageMap} (href : k.Refines m M) {page : Page} {frame : Frame}
    (hp : page.IsUpper) (hframe : frame.number < 2 ^ 48) :
    ∃ r m', k.mapPage page frame m = some (r, m') ∧
      ((r = (M.mapPage page frame).1 ∧ k.Refines m' (M.mapPage page frame).2) ∨
        (r = .error .allocError ∧ m.free.length < 2 ∧ k.Refines m' M)) ∧
      ∃ used, m.free = used ++ m'.free ∧ used.length ≤ 2 := by
  obtain ⟨-, hidx⟩ := isUpper_pml4Index hp
  obtain ⟨r₁, m₁, hcall, hinv₁, hwalks₁, hwalk₁, herr₁, used, hused, hlen⟩ :=
    childTablesOrNew_tree lowerNodes_closed href.inv
      (show [page.pml4Index - 256] ++ [page.pdptIndex, page.pdIndex] ∈ _ from tablePath_mem hp)
      (walk_pdpt m.mem page)
  have hM : ∀ q, q.IsUpper → k.view m₁.mem q = M q := fun q hq => by
    rw [k.view_congr hwalks₁ hq, href.view_eq q hq]
  rw [Amd64KTable.mapPage, if_pos (isUpper_start hp), pdptAt, if_pos hidx]
  dsimp only
  rw [hcall]
  cases r₁ with
  | error e =>
    exact ⟨_, _, rfl, Or.inr ⟨rfl, by simpa using herr₁ e rfl, hinv₁, hM⟩, used, hused, hlen⟩
  | ok pt =>
    have hpt : TableWalk.walk id (rooted decode k.roots m₁.mem) none (tablePath page) =
        some (some pt) := hwalk₁ pt rfl
    have hentry : M page = (entryAt m₁.mem pt page.ptIndex).pointedFrame := by
      rw [← hM page hp, k.view_of_table hpt]
      rfl
    simp only [pointEntry]
    cases hpe : (entryAt m₁.mem pt page.ptIndex).pointToFrame frame with
    | error u =>
      -- the entry is present: the page was mapped
      have hpres := Amd64Entry.pointToFrame_eq_error_iff.mp ⟨u, hpe⟩
      obtain ⟨g, hg⟩ : ∃ g, M page = some g := by
        rw [hentry, Amd64Entry.pointedFrame_eq_some hpres]
        exact ⟨_, rfl⟩
      refine ⟨_, _, rfl, Or.inl ⟨by simp [PageMap.mapPage, hg], ?_⟩, used, hused, hlen⟩
      simp only [PageMap.mapPage, hg]
      exact ⟨hinv₁, hM⟩
    | ok e =>
      have hnone : M page = none := by
        rw [hentry, Amd64Entry.pointedFrame_eq_none_iff]
        exact (Amd64Entry.pointToFrame_eq_ok hpe).1
      obtain ⟨hinv₂, hview₂⟩ := leaf_write hinv₁ hp hpt e.bits
      refine ⟨_, _, rfl, Or.inl ⟨by simp [PageMap.mapPage, hnone], ?_⟩, used, hused, hlen⟩
      simp only [PageMap.mapPage, hnone]
      refine ⟨hinv₂, fun q hq => ?_⟩
      rw [hview₂ q hq]
      by_cases hqp : q = page
      · subst hqp
        rw [if_pos rfl, Function.update_self]
        exact Amd64Entry.pointedFrame_of_pointToFrame hpe hframe
      · rw [if_neg hqp, Function.update_of_ne hqp, hM q hq]

/-- `unmap_page` on an upper page does not panic, takes no frame, and answers and acts as
`PageMap.unmapPage`. -/
theorem unmapPage_refines {M : PageMap} (href : k.Refines m M) {page : Page}
    (hp : page.IsUpper) :
    ∃ r m', k.unmapPage page m = some (r, m') ∧ r = (M.unmapPage page).1 ∧
      k.Refines m' (M.unmapPage page).2 ∧ m'.free = m.free := by
  obtain ⟨-, hidx⟩ := isUpper_pml4Index hp
  rw [Amd64KTable.unmapPage, if_pos (isUpper_start hp), pdptAt, if_pos hidx]
  dsimp only
  -- the walk to the `PT` from the page's `PDPT` is the lifted walk of its path
  have hlift : TableWalk.walk id (rooted decode k.roots m.mem) none (tablePath page) =
      (TableWalk.walk decode m.mem (k.tables + (page.pml4Index - 256))
        [page.pdptIndex, page.pdIndex]).map some :=
    TableWalk.walk_rooted_none _ _
  cases hpt : TableWalk.walk decode m.mem (k.tables + (page.pml4Index - 256))
      [page.pdptIndex, page.pdIndex] with
  | none =>
    -- no `PT`: the page is not mapped
    have hnone : M page = none := by
      rw [← href.view_eq page hp, view,
        show [page.pdptIndex, page.pdIndex, page.ptIndex] = [page.pdptIndex, page.pdIndex] ++
          [page.ptIndex] from rfl, TableWalk.walk_append, hpt]
      rfl
    refine ⟨_, _, rfl, by simp [PageMap.unmapPage, hnone], ?_, rfl⟩
    simp only [PageMap.unmapPage, hnone]
    exact href
  | some pt =>
    have hpt' : TableWalk.walk id (rooted decode k.roots m.mem) none (tablePath page) =
        some (some pt) := by
      rw [hlift, hpt]
      rfl
    have hentry : M page = (entryAt m.mem pt page.ptIndex).pointedFrame := by
      rw [← href.view_eq page hp, k.view_of_table hpt']
      rfl
    simp only [clearEntry, Amd64Entry.isUsed]
    cases hpres : (entryAt m.mem pt page.ptIndex).isPresent with
    | true =>
      obtain ⟨g, hg⟩ : ∃ g, M page = some g := by
        rw [hentry, Amd64Entry.pointedFrame_eq_some hpres]
        exact ⟨_, rfl⟩
      obtain ⟨hinv', hview'⟩ := leaf_write href.inv hp hpt' Amd64Entry.empty.bits
      refine ⟨_, _, rfl, by simp [PageMap.unmapPage, hg], ?_, rfl⟩
      simp only [PageMap.unmapPage, hg]
      refine ⟨hinv', fun q hq => ?_⟩
      rw [hview' q hq]
      by_cases hqp : q = page
      · subst hqp
        rw [if_pos rfl, Function.update_self]
        exact Amd64Entry.pointedFrame_empty
      · rw [if_neg hqp, Function.update_of_ne hqp, href.view_eq q hq]
    | false =>
      have hnone : M page = none := by
        rw [hentry, Amd64Entry.pointedFrame_eq_none_iff]
        exact hpres
      refine ⟨_, _, rfl, by simp [PageMap.unmapPage, hnone], ?_, rfl⟩
      simp only [PageMap.unmapPage, hnone]
      exact href

/-- A `map_page` that does not panic, of a page below the top of the address space, was of a
page of the upper half: the kernel table asserts it. -/
theorem isUpper_of_mapPage {page : Page} {frame : Frame} {r : Except MapPageError Unit}
    {m' : Machine} (h : k.mapPage page frame m = some (r, m')) (hbound : page.number < 2 ^ 52) :
    page.IsUpper := by
  have hstart := upper_of_mapPage h
  simp only [Page.start, pageSize, upperHalfStart] at hstart
  exact ⟨by omega, hbound⟩

/-- A `map_page` that answers `Ok` mapped a page that was not mapped. -/
theorem mapPage_ok {M : PageMap} (href : k.Refines m M) {page : Page} {frame : Frame}
    {m' : Machine} (hp : page.IsUpper) (hframe : frame.number < 2 ^ 48)
    (h : k.mapPage page frame m = some (.ok (), m')) :
    M page = none ∧ k.Refines m' (Function.update M page (some frame)) := by
  obtain ⟨r, m₁, hcall, hcases, -⟩ := mapPage_refines href hp hframe
  rw [h, Option.some.injEq, Prod.mk.injEq] at hcall
  obtain ⟨rfl, rfl⟩ := hcall
  rcases hcases with ⟨hr, href'⟩ | ⟨hr, -⟩
  · cases hM : M page with
    | none =>
      simp only [PageMap.mapPage, hM] at href'
      exact ⟨rfl, href'⟩
    | some g => simp [PageMap.mapPage, hM] at hr
  · cases hr

/-- `map_page` of an unmapped upper page answers `Ok` when the allocator has the two frames a
new `PD` and a new `PT` may take. -/
theorem mapPage_of_free {M : PageMap} (href : k.Refines m M) {page : Page} {frame : Frame}
    (hp : page.IsUpper) (hframe : frame.number < 2 ^ 48) (hnone : M page = none)
    (hfree : 2 ≤ m.free.length) :
    ∃ m', k.mapPage page frame m = some (.ok (), m') ∧
      k.Refines m' (Function.update M page (some frame)) ∧ m.free.length ≤ m'.free.length + 2 := by
  obtain ⟨r, m', hcall, hcases, used, hused, hlen⟩ := mapPage_refines href hp hframe
  rcases hcases with ⟨hr, href'⟩ | ⟨-, hlt, -⟩
  · simp only [PageMap.mapPage, hnone] at hr href'
    subst hr
    refine ⟨m', hcall, href', ?_⟩
    rw [hused, List.length_append]
    omega
  · omega

/-- `unmap_page` of a mapped upper page answers `Ok` and takes no frame. -/
theorem unmapPage_of_mapped {M : PageMap} (href : k.Refines m M) {page : Page}
    (hp : page.IsUpper) (hmapped : (M page).isSome) :
    ∃ m', k.unmapPage page m = some (.ok (), m') ∧ k.Refines m' (Function.update M page none) ∧
      m'.free = m.free := by
  obtain ⟨r, m', hcall, hr, href', hfree⟩ := unmapPage_refines href hp
  obtain ⟨g, hg⟩ := Option.isSome_iff_exists.mp hmapped
  simp only [PageMap.unmapPage, hg] at hr href'
  subst hr
  exact ⟨m', hcall, href', hfree⟩

/-- Tables over empty memory stand for the empty map, with an allocator of distinct frames
that fit an entry and are none of the kernel's `PDPT`s. -/
theorem refines_empty (k : Amd64KTable) {free : List Frame} (hnodup : free.Nodup)
    (hlt : ∀ a ∈ free, a.number < 2 ^ 48) (hroots : ∀ a ∈ free, ∀ i < 256, a ≠ k.tables + i) :
    k.Refines ⟨fun _ _ => 0, free⟩ (fun _ => none) := by
  have hz : decode 0 = none := Amd64Entry.pointedFrame_empty
  -- in empty memory a walk stops at the `PDPT` it starts from
  have hdeep : ∀ i j q, TableWalk.walk id (rooted decode k.roots fun _ _ => 0) none
      (i :: j :: q) = none := by
    intro i j q
    rw [TableWalk.walk_rooted_none, TableWalk.walk_cons, hz]
    rfl
  have hpdpt : ∀ i, TableWalk.walk id (rooted decode k.roots fun _ _ => 0) none [i] =
      some (some (k.tables + i)) := fun i => TableWalk.walk_rooted_none _ _
  have hview : ∀ page, k.view (fun _ _ => 0) page = none := by
    intro page
    rw [view, TableWalk.walk_cons, hz]
    rfl
  refine ⟨⟨?_, ?_, hnodup, hlt⟩, fun page _ => hview page⟩
  · intro p _ q _ u hpu hqu
    rcases p with _ | ⟨i, _ | ⟨j, p⟩⟩ <;> rcases q with _ | ⟨i', _ | ⟨j', q⟩⟩ <;>
      simp only [TableWalk.walk_nil, hpdpt, hdeep, reduceCtorEq] at hpu hqu
    · rfl
    · rw [← hpu] at hqu
      cases hqu
    · rw [← hpu] at hqu
      cases hqu
    · -- two `PDPT`s are one only at one index
      rw [← hpu, Option.some.injEq, Option.some.injEq, Frame.eq_iff] at hqu
      simp only [Frame.number_add] at hqu
      rw [show i' = i by omega]
  · intro a ha p hp hwalk
    rcases p with _ | ⟨i, _ | ⟨j, p⟩⟩
    · cases hwalk
    · rw [hpdpt, Option.some.injEq, Option.some.injEq] at hwalk
      exact hroots a ha i (by simpa using hp.2.2 i) hwalk.symm
    · rw [hdeep] at hwalk
      cases hwalk

end Amd64KTable

end Amd64
end Popcorn
