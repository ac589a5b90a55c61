import Popcorn.Amd64.Table

/-!
# The kernel table's lookups

`Amd64KTable::map_page` and `unmap_page` accept only upper-half pages, but its
`translate_page` asserts the lower-half condition of `Amd64TTable` before it subtracts 256
from the `PML4` index. A lookup of a page the kernel table maps therefore always panics, and
so does `translate_address` of every address in it.
-/

namespace Popcorn
namespace Amd64

namespace Amd64KTable

/-- `translate_page` panics on every upper-half page. -/
theorem translatePage_upper (k : Amd64KTable) (mem : Memory) {page : Page}
    (h : upperHalfStart ≤ page.start) : k.translatePage mem page = none := by
  rw [translatePage, if_neg (Nat.not_lt.mpr h)]

/-- `map_page` answers only on upper-half pages. -/
theorem upper_of_mapPage {k : Amd64KTable} {page : Page} {frame : Frame} {m : Machine}
    {r : Except MapPageError Unit} {m' : Machine} (h : k.mapPage page frame m = some (r, m')) :
    upperHalfStart ≤ page.start := by
  unfold mapPage at h
  by_contra hlt
  rw [if_neg hlt] at h
  cases h

end Amd64KTable

/-- `translate_address` of an address in a page is `translate_page` of that page, with the
offset carried over. -/
theorem translateAddress_page (translatePage : Page → Option (Option Frame)) (page : Page)
    {offset : Nat} (hoffset : offset < pageSize) :
    translateAddress translatePage (page.start + offset) =
      (translatePage page).map fun physical => physical.map fun frame => frame.start + offset := by
  have hdiv : (page.start + offset) / pageSize = page.number := by
    simp only [Page.start]
    rw [Nat.add_comm, Nat.add_mul_div_right _ _ (by decide : 0 < pageSize),
      Nat.div_eq_of_lt hoffset, Nat.zero_add]
  have hpage : (⟨page.number * pageSize / pageSize⟩ : Page) = page := by
    rw [Nat.mul_div_cancel _ (by decide : 0 < pageSize)]
  simp only [translateAddress, hdiv, hpage]
  congr 2
  funext physical
  congr 1
  funext frame
  simp only [Page.start]
  omega

/-- Once `map_page` has mapped a page of the kernel table, looking it up panics:
`translate_page` of the page, and `translate_address` of every address in it. -/
theorem ktable_lookup_panics_after_map (k : Amd64KTable) (m m' : Machine) (page : Page)
    (frame : Frame) (h : k.mapPage page frame m = some (.ok (), m')) :
    k.translatePage m'.mem page = none ∧
      ∀ offset < pageSize, translateAddress (k.translatePage m'.mem) (page.start + offset) = none := by
  have hupper := Amd64KTable.upper_of_mapPage h
  have hpanic := Amd64KTable.translatePage_upper k m'.mem hupper
  refine ⟨hpanic, fun offset hoffset => ?_⟩
  rw [translateAddress_page _ page hoffset, hpanic]
  rfl

/-- The first page of the upper half, mapped through a kernel table whose `PDPT`s start at
frame `1000` with two frames for new tables: `map_page` answers `Ok`, and the lookup of the
page then panics. -/
theorem ktable_lookup_panics_at_upper_half_start :
    ∃ m', Amd64KTable.mapPage ⟨⟨1000⟩⟩ ⟨0xffff_8000_0000_0⟩ ⟨0x5⟩ ⟨fun _ _ => 0, [⟨200⟩, ⟨201⟩]⟩ =
        some (.ok (), m') ∧
      Amd64KTable.translatePage ⟨⟨1000⟩⟩ m'.mem ⟨0xffff_8000_0000_0⟩ = none := by
  obtain ⟨m', hmap⟩ : ∃ m', Amd64KTable.mapPage ⟨⟨1000⟩⟩ ⟨0xffff_8000_0000_0⟩ ⟨0x5⟩
      ⟨fun _ _ => 0, [⟨200⟩, ⟨201⟩]⟩ = some (.ok (), m') := ⟨_, rfl⟩
  exact ⟨m', hmap, (ktable_lookup_panics_after_map _ _ _ _ _ hmap).1⟩

end Amd64
end Popcorn
