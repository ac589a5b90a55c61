import Popcorn.Mapping.Raw

/-!
# What a raw mapping owns and maps

The loops of `RawMapping::new` and of its `Drop` map and unmap a run of pages through the
kernel table. Where the table stands for a map (`Amd64KTable.Refines`), `mapRun` and
`unmapRun` say what it stands for after them: a mapping loop that does not panic ran over
unmapped pages of the upper half (`mapPages_sound`), and it does not panic over such pages
while the table's allocator has frames for new tables (`mapPages_of_free`); an unmapping loop
over mapped pages does not panic and takes no frame (`unmapPages_of_mapped`).

From the inversion of `new` (`new_eq_ok`, `new_eq_error`), a mapping owns `n` frames and `v`
pages, maps its pages inside the pages it owns, survives `into_raw_parts` then
`from_raw_parts` unchanged, and gives back on `drop` exactly what it took
(`rawMapping_lifecycle`); a `drop` right after `new` leaves the kernel table standing for the
map it stood for before (`drop_new`). A failed `new` gives back what it had allocated.
-/

namespace Popcorn
namespace Mapping

/-! ## Runs of pages -/

/-- The table with the `n` pages from `pageBase` mapped to the `n` frames from `frameBase`. -/
def mapRun (table : Amd64.PageMap) (pageBase : Page) (frameBase : Frame) (n : ℕ) :
    Amd64.PageMap := fun p =>
  if pageBase.number ≤ p.number ∧ p.number < pageBase.number + n then
    some (frameBase + (p.number - pageBase.number))
  else table p

/-- The table with the `n` pages from `pageBase` unmapped. -/
def unmapRun (table : Amd64.PageMap) (pageBase : Page) (n : ℕ) : Amd64.PageMap := fun p =>
  if pageBase.number ≤ p.number ∧ p.number < pageBase.number + n then none else table p

/-- A page of the run is `pageBase` moved by its index in the run. -/
theorem eq_add_of_mem_run {pageBase p : Page} {n : ℕ}
    (h : pageBase.number ≤ p.number ∧ p.number < pageBase.number + n) :
    ∃ i < n, p = pageBase + i :=
  ⟨p.number - pageBase.number, by omega, (Page.eq_iff _ _).mpr (by simp; omega)⟩

theorem mapRun_zero (table : Amd64.PageMap) (pageBase : Page) (frameBase : Frame) :
    mapRun table pageBase frameBase 0 = table := by
  funext p
  simp [mapRun]

/-- The run grows by its next page. -/
theorem mapRun_succ (table : Amd64.PageMap) (pageBase : Page) (frameBase : Frame) (n : ℕ) :
    mapRun table pageBase frameBase (n + 1) =
      Function.update (mapRun table pageBase frameBase n) (pageBase + n) (some (frameBase + n)) := by
  funext p
  by_cases hp : p = pageBase + n
  · subst hp
    simp [mapRun]
  · have hne : p.number ≠ pageBase.number + n := fun h => hp ((Page.eq_iff _ _).mpr h)
    rw [Function.update_of_ne hp]
    unfold mapRun
    by_cases hin : pageBase.number ≤ p.number ∧ p.number < pageBase.number + n
    · rw [if_pos (by omega), if_pos hin]
    · rw [if_neg (by omega), if_neg hin]

/-- Past the run, the table is as it was. -/
theorem mapRun_of_not_mem {table : Amd64.PageMap} {pageBase p : Page} {frameBase : Frame}
    {n : ℕ} (h : ¬(pageBase.number ≤ p.number ∧ p.number < pageBase.number + n)) :
    mapRun table pageBase frameBase n p = table p := by
  rw [mapRun, if_neg h]

/-- The next page of the run is not yet touched by the loop. -/
theorem mapRun_next (table : Amd64.PageMap) (pageBase : Page) (frameBase : Frame) (n : ℕ) :
    mapRun table pageBase frameBase n (pageBase + n) = table (pageBase + n) :=
  mapRun_of_not_mem (by simp)

theorem unmapRun_zero (table : Amd64.PageMap) (pageBase : Page) :
    unmapRun table pageBase 0 = table := by
  funext p
  simp [unmapRun]

theorem unmapRun_succ (table : Amd64.PageMap) (pageBase : Page) (n : ℕ) :
    unmapRun table pageBase (n + 1) =
      Function.update (unmapRun table pageBase n) (pageBase + n) none := by
  funext p
  by_cases hp : p = pageBase + n
  · subst hp
    simp [unmapRun]
  · have hne : p.number ≠ pageBase.number + n := fun h => hp ((Page.eq_iff _ _).mpr h)
    rw [Function.update_of_ne hp]
    unfold unmapRun
    by_cases hin : pageBase.number ≤ p.number ∧ p.number < pageBase.number + n
    · rw [if_pos (by omega), if_pos hin]
    · rw [if_neg (by omega), if_neg hin]

theorem unmapRun_next (table : Amd64.PageMap) (pageBase : Page) (n : ℕ) :
    unmapRun table pageBase n (pageBase + n) = table (pageBase + n) := by
  rw [unmapRun, if_neg (by simp)]

/-- Unmapping a run just mapped over unmapped pages gives the table back. -/
theorem unmapRun_mapRun {table : Amd64.PageMap} {pageBase : Page} {frameBase : Frame} {n : ℕ}
    (hfree : ∀ i < n, table (pageBase + i) = none) :
    unmapRun (mapRun table pageBase frameBase n) pageBase n = table := by
  funext p
  unfold unmapRun
  split_ifs with hin
  · obtain ⟨i, hi, rfl⟩ := eq_add_of_mem_run hin
    exact (hfree i hi).symm
  · exact mapRun_of_not_mem hin

/-! ## The loops on the kernel table

The kernel table stands for a `PageMap` on the upper half (`Amd64KTable.Refines`); each turn of
a loop acts on it as `PageMap.mapPage` or `unmapPage` does (`Amd64KTable.mapPage_ok`,
`unmapPage_of_mapped`), so a whole loop maps or unmaps its run. -/

section Loops

variable {k : Amd64.Amd64KTable} {M : Amd64.PageMap} {pageBase : Page} {frameBase : Frame}

theorem mapPages_succ {m m' : Amd64.Machine} {n : ℕ} :
    mapPages k m pageBase frameBase (n + 1) = some m' ↔
      ∃ m₁, mapPages k m pageBase frameBase n = some m₁ ∧
        k.mapPage (pageBase + n) (frameBase + n) m₁ = some (.ok (), m') := by
  rw [mapPages, Option.bind_eq_some_iff]
  refine exists_congr fun m₁ => and_congr_right fun _ => ?_
  rcases k.mapPage (pageBase + n) (frameBase + n) m₁ with _ | ⟨_ | ⟨⟩, m₂⟩ <;> simp

/-- A mapping loop that does not panic ran over unmapped pages of the upper half, where its
pages lie below the top of the address space and its frames fit an entry; the kernel table
then stands for the map with the run mapped. -/
theorem mapPages_sound {m : Amd64.Machine} (href : k.Refines m M) {n : ℕ}
    (hbound : ∀ i < n, (pageBase + i).number < 2 ^ 52 ∧ (frameBase + i).number < 2 ^ 48)
    {m' : Amd64.Machine} (h : mapPages k m pageBase frameBase n = some m') :
    (∀ i < n, (pageBase + i).IsUpper ∧ M (pageBase + i) = none) ∧
      k.Refines m' (mapRun M pageBase frameBase n) := by
  induction n generalizing m' with
  | zero =>
    rw [mapPages, Option.some.injEq] at h
    subst h
    exact ⟨fun i hi => absurd hi (Nat.not_lt_zero i), by rwa [mapRun_zero]⟩
  | succ n ih =>
    obtain ⟨m₁, h₁, hstep⟩ := mapPages_succ.mp h
    obtain ⟨hprev, href₁⟩ := ih (fun i hi => hbound i (by omega)) h₁
    obtain ⟨hpage, hframe⟩ := hbound n (by omega)
    have hup := Amd64.Amd64KTable.isUpper_of_mapPage hstep hpage
    obtain ⟨hnone, href'⟩ := Amd64.Amd64KTable.mapPage_ok href₁ hup hframe hstep
    refine ⟨fun i hi => ?_, by rwa [mapRun_succ]⟩
    rcases Nat.lt_succ_iff_lt_or_eq.mp hi with hi | rfl
    · exact hprev i hi
    · exact ⟨hup, by rwa [← mapRun_next M pageBase frameBase i]⟩

/-- The mapping loop does not panic over unmapped pages of the upper half when the allocator
has two frames for each page, for a new `PD` and a new `PT`. -/
theorem mapPages_of_free {m : Amd64.Machine} (href : k.Refines m M) {n : ℕ}
    (hpages : ∀ i < n, (pageBase + i).IsUpper ∧ (frameBase + i).number < 2 ^ 48 ∧
      M (pageBase + i) = none)
    (hfree : 2 * n ≤ m.free.length) :
    ∃ m', mapPages k m pageBase frameBase n = some m' ∧
      k.Refines m' (mapRun M pageBase frameBase n) ∧ m.free.length ≤ m'.free.length + 2 * n := by
  induction n with
  | zero => exact ⟨m, rfl, by rwa [mapRun_zero], by omega⟩
  | succ n ih =>
    obtain ⟨m₁, h₁, href₁, hlen₁⟩ := ih (fun i hi => hpages i (by omega)) (by omega)
    obtain ⟨hup, hframe, hnone⟩ := hpages n (by omega)
    obtain ⟨m', hstep, href', hlen'⟩ := Amd64.Amd64KTable.mapPage_of_free href₁ hup hframe
      (by rwa [mapRun_next]) (by omega)
    exact ⟨m', mapPages_succ.mpr ⟨m₁, h₁, hstep⟩, by rwa [mapRun_succ], by omega⟩

theorem unmapPages_succ {m m' : Amd64.Machine} {n : ℕ} :
    unmapPages k m pageBase (n + 1) = some m' ↔
      ∃ m₁, unmapPages k m pageBase n = some m₁ ∧
        k.unmapPage (pageBase + n) m₁ = some (.ok (), m') := by
  rw [unmapPages, Option.bind_eq_some_iff]
  refine exists_congr fun m₁ => and_congr_right fun _ => ?_
  rcases k.unmapPage (pageBase + n) m₁ with _ | ⟨_ | ⟨⟩, m₂⟩ <;> simp

/-- The unmapping loop does not panic over mapped pages of the upper half, takes no frame,
and the kernel table then stands for the map with the run unmapped. -/
theorem unmapPages_of_mapped {m : Amd64.Machine} (href : k.Refines m M) {n : ℕ}
    (hpages : ∀ i < n, (pageBase + i).IsUpper ∧ (M (pageBase + i)).isSome) :
    ∃ m', unmapPages k m pageBase n = some m' ∧ k.Refines m' (unmapRun M pageBase n) ∧
      m'.free = m.free := by
  induction n with
  | zero => exact ⟨m, rfl, by rwa [unmapRun_zero], rfl⟩
  | succ n ih =>
    obtain ⟨m₁, h₁, href₁, hfree₁⟩ := ih fun i hi => hpages i (by omega)
    obtain ⟨hup, hmapped⟩ := hpages n (by omega)
    obtain ⟨m', hstep, href', hfree'⟩ := Amd64.Amd64KTable.unmapPage_of_mapped href₁ hup
      (by rwa [unmapRun_next])
    exact ⟨m', unmapPages_succ.mpr ⟨m₁, h₁, hstep⟩, by rwa [unmapRun_succ], hfree'.trans hfree₁⟩

end Loops

/-! ## The calls to the allocators -/

section Calls

variable {σp σv : Type} (P : BackingAllocator σp) (V : VirtualAllocator σv)

theorem OwnedFrames.newWith_eq_ok {count : ℕ+} {s s' : σp} {frames : OwnedFrames} :
    OwnedFrames.newWith P count s = (.ok frames, s') ↔
      P.allocateContiguous s count = (.ok frames.base, s') ∧ frames.len = count := by
  unfold OwnedFrames.newWith
  rcases P.allocateContiguous s count with ⟨_ | base, s₁⟩
  · simp
  · cases frames
    simp only [Prod.mk.injEq, Except.ok.injEq, OwnedFrames.mk.injEq]
    constructor
    · rintro ⟨⟨rfl, rfl⟩, rfl⟩
      exact ⟨⟨rfl, rfl⟩, rfl⟩
    · rintro ⟨⟨rfl, rfl⟩, rfl⟩
      exact ⟨⟨rfl, rfl⟩, rfl⟩

/-- `OwnedFrames::xnew` holds the frames the allocator's call gave, as many as asked:
`allocate_contiguous` for `Location::Any`, `allocate_at` for a specific location. -/
theorem OwnedFrames.xnew_eq_ok {count : ℕ+} {location : AllocatorLocation} {s s' : σp}
    {frames : OwnedFrames} (h : OwnedFrames.xnew P count location s = (.ok frames, s')) :
    frames.len = count ∧
      match location with
      | .any => P.allocateContiguous s count = (.ok frames.base, s')
      | .specific loc => P.allocateAt s count loc = (.ok frames.base, s') := by
  cases location with
  | any => exact (OwnedFrames.newWith_eq_ok P).mp h |>.symm
  | specific loc =>
    unfold OwnedFrames.xnew at h
    dsimp only at h
    rcases hc : P.allocateAt s count loc with ⟨_ | base, s₁⟩ <;> rw [hc] at h
    · cases h
    · cases h
      exact ⟨rfl, hc⟩

theorem OwnedPages.newWith_eq_ok {len : ℕ+} {s s' : σv} {pages : OwnedPages} :
    OwnedPages.newWith V len s = (.ok pages, s') ↔
      V.allocateContiguous s len = (.ok pages.base, s') ∧ pages.len = len := by
  unfold OwnedPages.newWith
  rcases V.allocateContiguous s len with ⟨_ | base, s₁⟩
  · simp
  · cases pages
    simp only [Prod.mk.injEq, Except.ok.injEq, OwnedPages.mk.injEq]
    constructor
    · rintro ⟨⟨rfl, rfl⟩, rfl⟩
      exact ⟨⟨rfl, rfl⟩, rfl⟩
    · rintro ⟨⟨rfl, rfl⟩, rfl⟩
      exact ⟨⟨rfl, rfl⟩, rfl⟩

/-! ## `RawMapping::new` -/

namespace RawMapping

variable {R : Mappable}

/-- The first page a mapping owns lies `R`'s offset before the first page it maps. -/
theorem virtualStart_add_offset (m : RawMapping R) :
    m.virtualStart + R.physicalStartOffsetFromVirtual = m.virtualValidStart := by
  have := m.offset_le
  rw [Page.eq_iff]
  simp only [Page.number_add, virtualStart]
  omega

/-- The pages a mapping maps lie inside the pages it owns: `off + n ≤ v`. -/
theorem offset_add_le {n v : ℕ+} (h : R.physicalLengthToVirtualLength n = some v) :
    R.physicalStartOffsetFromVirtual + n ≤ v := by
  cases R with
  | rawMmap =>
    cases h
    simp [Mappable.physicalStartOffsetFromVirtual]
  | rawStack =>
    simp only [Mappable.physicalLengthToVirtualLength] at h
    split_ifs at h
    cases h
    simp [Mappable.physicalStartOffsetFromVirtual, add_comm]

theorem new_eq_ok {length : ℕ+} {location : Location Frame} {w w' : World σp σv}
    {m : RawMapping R} (h : new P V R length location w = some (.ok m, w')) :
    ∃ v : ℕ+, R.physicalLengthToVirtualLength length = some v ∧
      OwnedFrames.xnew P length location.into w.physical = (.ok m.physical, w'.physical) ∧
      OwnedPages.newWith V v w.virtual = (.ok ⟨m.virtualStart, v⟩, w'.virtual) ∧
      w'.ktable = w.ktable ∧
      mapPages w.ktable w.machine m.virtualValidStart m.physicalStart length = some w'.machine := by
  unfold new at h
  obtain ⟨v, hv, h⟩ := Option.bind_eq_some_iff.mp h
  refine ⟨v, hv, ?_⟩
  rcases hx : OwnedFrames.xnew P length location.into w.physical with ⟨_ | frames, physical⟩ <;>
    rw [hx] at h
  · cases h
  dsimp only at h
  rcases hp : OwnedPages.newWith V v w.virtual with ⟨_ | pages, virtual⟩ <;> rw [hp] at h
  · cases h
  dsimp only at h
  obtain ⟨machine, hmachine, hok⟩ := Option.map_eq_some_iff.mp h
  cases hok
  -- the pages hold `v` pages from the first page the mapping owns
  have hpages : pages = ⟨RawMapping.virtualStart (R := R)
      ⟨frames, pages.base + R.physicalStartOffsetFromVirtual, Nat.le_add_left _ _⟩, v⟩ := by
    obtain ⟨-, hlen⟩ := (OwnedPages.newWith_eq_ok V).mp hp
    cases pages
    subst hlen
    simp [RawMapping.virtualStart]
  rw [← hpages]
  exact ⟨rfl, rfl, rfl, hmachine⟩

/-- A failed `new` failed on the frames, having allocated nothing, or on the pages, having
given the frames back. The kernel table is untouched. -/
theorem new_eq_error {length : ℕ+} {location : Location Frame} {w w' : World σp σv}
    {e : AllocError} (h : new P V R length location w = some (.error e, w')) :
    (∃ physical, OwnedFrames.xnew P length location.into w.physical = (.error e, physical) ∧
        w' = { w with physical }) ∨
      ∃ v frames physical virtual, R.physicalLengthToVirtualLength length = some v ∧
        OwnedFrames.xnew P length location.into w.physical = (.ok frames, physical) ∧
        OwnedPages.newWith V v w.virtual = (.error e, virtual) ∧
        w' = ⟨frames.drop P physical, virtual, w.ktable, w.machine⟩ := by
  unfold new at h
  obtain ⟨v, hv, h⟩ := Option.bind_eq_some_iff.mp h
  rcases hx : OwnedFrames.xnew P length location.into w.physical with ⟨e' | frames, physical⟩ <;>
    rw [hx] at h
  · cases h
    exact .inl ⟨physical, rfl, rfl⟩
  dsimp only at h
  rcases hp : OwnedPages.newWith V v w.virtual with ⟨e' | pages, virtual⟩ <;> rw [hp] at h
  · cases h
    exact .inr ⟨v, frames, physical, virtual, hv, rfl, hp, rfl⟩
  · dsimp only at h
    obtain ⟨machine, -, hok⟩ := Option.map_eq_some_iff.mp h
    cases hok

/-- `new` succeeds where both allocators do, the pages to map are unmapped pages of the upper
half, the frames fit an entry and the kernel table's allocator has two frames a page: it maps
the pages to the frames. -/
theorem new_of_allocations {length v : ℕ+} {location : Location Frame} {w : World σp σv}
    {M : Amd64.PageMap} (href : w.ktable.Refines w.machine M) {frames : OwnedFrames}
    {physical : σp} {base : Page} {virtual : σv}
    (hv : R.physicalLengthToVirtualLength length = some v)
    (hx : OwnedFrames.xnew P length location.into w.physical = (.ok frames, physical))
    (hp : V.allocateContiguous w.virtual v = (.ok base, virtual))
    (hpages : ∀ i < (length : ℕ), (base + R.physicalStartOffsetFromVirtual + i).IsUpper ∧
      (frames.base + i).number < 2 ^ 48 ∧ M (base + R.physicalStartOffsetFromVirtual + i) = none)
    (hfree : 2 * (length : ℕ) ≤ w.machine.free.length) :
    ∃ (m : RawMapping R) (machine : Amd64.Machine),
      new P V R length location w = some (.ok m, ⟨physical, virtual, w.ktable, machine⟩) ∧
      w.ktable.Refines machine
        (mapRun M (base + R.physicalStartOffsetFromVirtual) frames.base length) ∧
      m.physical = frames ∧ m.virtualStart = base := by
  obtain ⟨machine, hmap, href', -⟩ := mapPages_of_free href hpages hfree
  unfold new
  rw [hv, Option.bind_some]
  dsimp only
  rw [hx]
  dsimp only
  rw [OwnedPages.newWith, hp]
  dsimp only
  rw [hmap, Option.map_some]
  refine ⟨_, machine, rfl, href', rfl, ?_⟩
  rw [Page.eq_iff]
  simp [virtualStart]

theorem virtualEnd_eq (m : RawMapping R) {v : ℕ+} (hv : m.virtualLen = some v) :
    m.virtualEnd = some (m.virtualStart + (v : ℕ)) := by
  rw [virtualEnd, hv, Option.map_some]

/-- `from_raw_parts(into_raw_parts(m))` is `m`. -/
theorem fromRawParts_intoRawParts (m : RawMapping R) {v : ℕ+} (hv : m.virtualLen = some v) :
    m.intoRawParts.bind (fun parts => fromRawParts R parts.1 parts.2) = some m := by
  rw [intoRawParts, hv, Option.map_some, Option.bind_some]
  have hv' : R.physicalLengthToVirtualLength m.physical.len = some v := hv
  rw [fromRawParts, hv', Option.bind_some, if_neg (not_not.mpr rfl), Option.some.injEq]
  -- the page rebuilt from `virtual_start` is `virtual_valid_start` again
  have hvalid := virtualStart_add_offset m
  cases m
  congr

/-- `drop`, where the mapping's pages are mapped pages of the upper half: it unmaps them,
takes no frame for tables, and gives the pages and the frames back. -/
theorem drop_eq_some (m : RawMapping R) {v : ℕ+} (hv : m.virtualLen = some v) (w : World σp σv)
    {M : Amd64.PageMap} (href : w.ktable.Refines w.machine M)
    (hmapped : ∀ i < (m.physicalLen : ℕ),
      (m.virtualValidStart + i).IsUpper ∧ (M (m.virtualValidStart + i)).isSome) :
    ∃ machine, m.drop P V w = some ⟨P.deallocateContiguous w.physical m.physicalStart
        m.physicalLen, V.deallocateContiguous w.virtual m.virtualStart v, w.ktable, machine⟩ ∧
      w.ktable.Refines machine (unmapRun M m.virtualValidStart m.physicalLen) ∧
      machine.free = w.machine.free := by
  obtain ⟨machine, hunmap, href', hfree⟩ := unmapPages_of_mapped href hmapped
  refine ⟨machine, ?_, href', hfree⟩
  rw [drop, hunmap, Option.bind_some, hv, Option.map_some]
  rfl

/-- After `new`, with pages below the top of the address space and frames that fit an entry,
the kernel table stands for the map with the mapping's pages mapped to its frames: pages that
were unmapped pages of the upper half. -/
theorem new_refines {length : ℕ+} {location : Location Frame} {w w' : World σp σv}
    {m : RawMapping R} {M : Amd64.PageMap} (href : w.ktable.Refines w.machine M)
    (hbound : ∀ i < (length : ℕ),
      (m.virtualValidStart + i).number < 2 ^ 52 ∧ (m.physicalStart + i).number < 2 ^ 48)
    (h : new P V R length location w = some (.ok m, w')) :
    w'.ktable = w.ktable ∧
      (∀ i < (length : ℕ),
        (m.virtualValidStart + i).IsUpper ∧ M (m.virtualValidStart + i) = none) ∧
      w.ktable.Refines w'.machine (mapRun M m.virtualValidStart m.physicalStart length) := by
  obtain ⟨-, -, -, -, hk, hmap⟩ := new_eq_ok P V h
  exact ⟨hk, mapPages_sound href hbound hmap⟩

/-- `drop` right after `new` does not panic, gives back both runs, and leaves the kernel table
standing for the map it stood for before `new`; the frames its new tables took stay taken. -/
theorem drop_new {length : ℕ+} {location : Location Frame} {w w' : World σp σv}
    {m : RawMapping R} {M : Amd64.PageMap} (href : w.ktable.Refines w.machine M)
    (hbound : ∀ i < (length : ℕ),
      (m.virtualValidStart + i).number < 2 ^ 52 ∧ (m.physicalStart + i).number < 2 ^ 48)
    (h : new P V R length location w = some (.ok m, w')) :
    ∃ (v : ℕ+) (machine : Amd64.Machine), m.virtualLen = some v ∧
      m.drop P V w' = some ⟨P.deallocateContiguous w'.physical m.physicalStart m.physicalLen,
        V.deallocateContiguous w'.virtual m.virtualStart v, w.ktable, machine⟩ ∧
      w.ktable.Refines machine M ∧ machine.free = w'.machine.free := by
  obtain ⟨v, hv, hx, -⟩ := new_eq_ok P V h
  obtain rfl : m.physicalLen = length := (OwnedFrames.xnew_eq_ok P hx).1
  have hvl : m.virtualLen = some v := hv
  obtain ⟨hk, hfree, href'⟩ := new_refines P V href hbound h
  -- the pages `new` mapped are mapped when `drop` unmaps them
  have hmapped : ∀ i < (m.physicalLen : ℕ), (m.virtualValidStart + i).IsUpper ∧
      (mapRun M m.virtualValidStart m.physicalStart m.physicalLen
        (m.virtualValidStart + i)).isSome := by
    intro i hi
    refine ⟨(hfree i hi).1, ?_⟩
    rw [mapRun, if_pos (by simp only [Page.number_add]; omega)]
    rfl
  rw [← hk] at href'
  obtain ⟨machine, hdrop, href'', hfree'⟩ := drop_eq_some P V m hvl w' href' hmapped
  rw [unmapRun_mapRun fun i hi => (hfree i hi).2, hk] at href''
  refine ⟨v, machine, hvl, ?_, href'', hfree'⟩
  rw [hdrop, hk]

end RawMapping

open RawMapping in
theorem rawMapping_lifecycle (R : Mappable) (length : ℕ+) (location : Location Frame)
    (w w' : World σp σv) (M : Amd64.PageMap) (href : w.ktable.Refines w.machine M) :
    (∀ m : RawMapping R, new P V R length location w = some (.ok m, w') →
      ∃ v : ℕ+, R.physicalLengthToVirtualLength length = some v ∧
        -- the frames `F .. F + n` and the pages `V .. V + v`, one call to each allocator
        OwnedFrames.xnew P length location.into w.physical =
          (.ok ⟨m.physicalStart, length⟩, w'.physical) ∧
        OwnedPages.newWith V v w.virtual = (.ok ⟨m.virtualStart, v⟩, w'.virtual) ∧
        -- the pages `V + off + i` were unmapped pages of the upper half, the kernel table's
        -- assert panics on others, and now map to the frames `F + i`: no other page touched
        w'.ktable = w.ktable ∧
        ((∀ i < (length : ℕ), (m.virtualStart + R.physicalStartOffsetFromVirtual + i).number <
              2 ^ 52 ∧ (m.physicalStart + i).number < 2 ^ 48) →
          (∀ i < (length : ℕ), (m.virtualStart + R.physicalStartOffsetFromVirtual + i).IsUpper ∧
              M (m.virtualStart + R.physicalStartOffsetFromVirtual + i) = none) ∧
            w.ktable.Refines w'.machine
              (mapRun M (m.virtualStart + R.physicalStartOffsetFromVirtual) m.physicalStart
                length)) ∧
        -- every page mapped lies in `virtual_start() .. virtual_end()`
        m.virtualEnd = some (m.virtualStart + (v : ℕ)) ∧
        (∀ i < (length : ℕ),
          m.virtualStart ≤ m.virtualStart + R.physicalStartOffsetFromVirtual + i ∧
            m.virtualStart + R.physicalStartOffsetFromVirtual + i < m.virtualStart + (v : ℕ)) ∧
        m.intoRawParts.bind (fun parts => fromRawParts R parts.1 parts.2) = some m ∧
        -- `drop`, wherever its pages are mapped pages of the upper half
        ∀ (w'' : World σp σv) (M'' : Amd64.PageMap), w''.ktable.Refines w''.machine M'' →
          (∀ i < (length : ℕ), (m.virtualStart + R.physicalStartOffsetFromVirtual + i).IsUpper ∧
            (M'' (m.virtualStart + R.physicalStartOffsetFromVirtual + i)).isSome) →
          ∃ machine, m.drop P V w'' = some ⟨P.deallocateContiguous w''.physical m.physicalStart
              length, V.deallocateContiguous w''.virtual m.virtualStart v, w''.ktable, machine⟩ ∧
            w''.ktable.Refines machine
              (unmapRun M'' (m.virtualStart + R.physicalStartOffsetFromVirtual) length) ∧
            machine.free = w''.machine.free) ∧
    (∀ e, new P V R length location w = some (.error e, w') →
      (∃ physical, OwnedFrames.xnew P length location.into w.physical = (.error e, physical) ∧
          w' = { w with physical }) ∨
        ∃ v frames physical virtual, R.physicalLengthToVirtualLength length = some v ∧
          OwnedFrames.xnew P length location.into w.physical = (.ok frames, physical) ∧
          OwnedPages.newWith V v w.virtual = (.error e, virtual) ∧
          w' = ⟨frames.drop P physical, virtual, w.ktable, w.machine⟩) := by
  refine ⟨fun m h => ?_, fun e h => new_eq_error P V h⟩
  obtain ⟨v, hv, hx, hp, hk, hmap⟩ := new_eq_ok P V h
  -- the mapping holds as many frames as asked for
  obtain rfl : m.physical.len = length := (OwnedFrames.xnew_eq_ok P hx).1
  have hvl : m.virtualLen = some v := hv
  have hle := offset_add_le hv
  rw [virtualStart_add_offset m]
  refine ⟨v, hv, hx, hp, hk, fun hbound => mapPages_sound href hbound hmap,
    virtualEnd_eq m hvl, fun i hi => ?_, fromRawParts_intoRawParts m hvl,
    fun w'' M'' href'' hmapped => drop_eq_some P V m hvl w'' href'' hmapped⟩
  rw [← virtualStart_add_offset m]
  simp only [Page.le_iff, Page.lt_iff, Page.number_add]
  omega

end Calls

/-- Allocators that hand out frames and pages from a counter and take nothing back. -/
def bumpFrames : BackingAllocator ℕ :=
  ⟨fun s n => (.ok ⟨s⟩, s + n), fun s _ _ => (.error ⟨⟩, s), fun s _ _ => s⟩

/-- See `bumpFrames`. -/
def bumpPages : VirtualAllocator ℕ :=
  ⟨fun s n => (.ok ⟨s⟩, s + n),
    fun s p n => if p.number = s then (.ok p, s + n) else (.error ⟨⟩, s), fun s _ _ => s⟩

/-- The kernel's `PDPT`s from frame `1000` over empty memory, with four frames for new tables;
the bump allocators hand out frames from `0` and pages from the first of the upper half. -/
def bumpWorld : World ℕ ℕ :=
  ⟨0, 0xffff_8000_0000_0, ⟨⟨1000⟩⟩, ⟨fun _ _ => 0, [⟨2000⟩, ⟨2001⟩, ⟨2002⟩, ⟨2003⟩]⟩⟩

/-- A stack of two frames in the upper half, through a kernel table over empty memory: `new`
succeeds and maps the two pages after the guard page to frames `0` and `1`, and `drop` then
gives the empty map back. -/
theorem rawMapping_lifecycle_on_bump :
    ∃ m w', RawMapping.new bumpFrames bumpPages .rawStack 2 .any bumpWorld = some (.ok m, w') ∧
      bumpWorld.ktable.Refines w'.machine (mapRun (fun _ => none) ⟨0xffff_8000_0000_1⟩ ⟨0⟩ 2) ∧
      ∃ machine, m.drop bumpFrames bumpPages w' =
          some ⟨w'.physical, w'.virtual, bumpWorld.ktable, machine⟩ ∧
        bumpWorld.ktable.Refines machine (fun _ => none) := by
  have href : bumpWorld.ktable.Refines bumpWorld.machine fun _ => none := by
    refine Amd64.Amd64KTable.refines_empty _ (by decide) (by decide) ?_
    intro a ha i hi
    simp only [List.mem_cons, List.not_mem_nil, or_false] at ha
    rcases ha with rfl | rfl | rfl | rfl <;> simp [Frame.eq_iff, bumpWorld] <;> omega
  obtain ⟨m, machine, hnew, -, hphys, hvirt⟩ := RawMapping.new_of_allocations bumpFrames bumpPages
    href
    (show Mappable.rawStack.physicalLengthToVirtualLength 2 = some 3 from rfl)
    (show OwnedFrames.xnew bumpFrames 2 (Location.any : Location Frame).into 0 =
      (.ok ⟨⟨0⟩, 2⟩, 2) from rfl) rfl
    (fun i hi => by
      simp only [PNat.val_ofNat] at hi
      refine ⟨?_, by simp; omega, rfl⟩
      simp [Page.IsUpper, bumpWorld, Mappable.physicalStartOffsetFromVirtual]
      omega) (by decide)
  obtain ⟨hok, -⟩ := rawMapping_lifecycle bumpFrames bumpPages .rawStack 2 .any bumpWorld _
    (fun _ => none) href
  obtain ⟨v, -, -, -, -, hmap, -, -, -, hdrop⟩ := hok m hnew
  -- the stack's pages are the two after the guard page, its frames `0` and `1`
  have hstart : m.virtualStart + Mappable.rawStack.physicalStartOffsetFromVirtual =
      ⟨0xffff_8000_0000_1⟩ := by
    rw [hvirt]
    rfl
  have hframes : m.physicalStart = ⟨0⟩ := by
    rw [RawMapping.physicalStart, hphys]
  rw [hstart, hframes] at hmap hdrop
  obtain ⟨hfree, href'⟩ := hmap fun i hi => by
    simp only [PNat.val_ofNat] at hi
    simp
    omega
  obtain ⟨machine', hdrop', href'', -⟩ := hdrop ⟨2, bumpWorld.virtual + 3, bumpWorld.ktable, machine⟩ _ href' fun i hi => by
    refine ⟨(hfree i hi).1, ?_⟩
    simp only [PNat.val_ofNat] at hi
    rw [mapRun, if_pos (by simp; omega)]
    rfl
  rw [unmapRun_mapRun fun i hi => rfl] at href''
  exact ⟨m, _, hnew, href', machine', hdrop', href''⟩
end Mapping
end Popcorn
