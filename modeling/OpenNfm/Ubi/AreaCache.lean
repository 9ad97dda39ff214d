import OpenNfm.Ubi.Mapping
import OpenNfm.Ubi.Area

/-!
# The cached area table

One area table at a time is in memory.  The lemmas here say what the functions
of `ubi_area.c` find in it, whichever area was in use before, and that the
flash does not change before `AREA_Update` writes.
-/

namespace OpenNfm

open OpenNfm.Program

variable {g : Geometry} {D : Type}

/-- The static variables know which table of the area is the newest. -/
def OffsetsKnown (g : Geometry) (ram : UbiRam D) (view : UbiView) (known : Nat → Prop) : Prop :=
  ∀ area, known area → area < g.areaCount ∧ ram.areaOffsetTable area = view.next area - 1

/-- The block of each area ends with its newest table. -/
def AreasLogged (g : Geometry) (nand : Nand (UbiBuffer D)) (table : IndexTable)
    (view : UbiView) : Prop :=
  ∀ area < g.areaCount,
    TableLog g nand (table.areaIndex area).block (view.next area) (.area (view.tables area))

/-- The table in memory is the newest one of its area. -/
def CacheFits (ram : UbiRam D) (view : UbiView) (known : Nat → Prop) : Prop :=
  ram.cachedAreaNumber ≠ invalidArea →
    known ram.cachedAreaNumber ∧ ram.cachedAreaTable = view.tables ram.cachedAreaNumber

/-- The static variables after an area table is read. -/
def UbiRam.cache (ram : UbiRam D) (area : Nat) (table : AreaTable) : UbiRam D :=
  { ram with cachedAreaTable := table, cachedAreaNumber := area }

theorem area_proper (supported : g.Supported) {area : Nat} (isArea : area < g.areaCount) :
    area ≠ invalidArea := by
  have small := supported.blocksSmall
  have pos := supported.entries
  have le : g.areaCount ≤ g.cfgLogBlockCount := by
    unfold Geometry.areaCount
    apply Nat.div_le_of_le_mul
    obtain ⟨n, count⟩ := Nat.exists_eq_succ_of_ne_zero pos.ne'
    rw [count]
    have : g.cfgLogBlockCount + n ≤ g.cfgLogBlockCount + n * g.cfgLogBlockCount := by
      have : n * 1 ≤ n * g.cfgLogBlockCount := by
        apply Nat.mul_le_mul_left
        have := supported.reserve
        omega
      omega
    rw [Nat.succ_mul]
    omega
  rw [invalidArea]
  omega

theorem UbiRam.cache_self {ram : UbiRam D} {area : Nat} (cached : ram.cachedAreaNumber = area) :
    ram.cache area ram.cachedAreaTable = ram := by
  subst cached
  rfl

section Specs

variable {crash : Ideal (UbiBuffer D) → Prop} {ram : UbiRam D} {state : Ideal (UbiBuffer D)}
  {view : UbiView} {known : Nat → Prop}

/-- Reading an area that is not in memory. -/
theorem wp_areaRead_load {area : Nat} {post : Status → UbiRam D → Ideal (UbiBuffer D) → Prop}
    (supported : g.Supported) (isArea : area < g.areaCount)
    (log : TableLog g state.nand (ram.indexTable.areaIndex area).block (view.next area)
      (.area (view.tables area)))
    (other : area ≠ ram.cachedAreaNumber)
    (offset : ram.areaOffsetTable area = invalidPage ∨
      ram.areaOffsetTable area = view.next area - 1)
    (safe : crash state)
    (meets : post .success
      { ram.cache area (view.tables area) with
        areaOffsetTable := Function.update ram.areaOffsetTable area (view.next area - 1) }
      state) :
    Code.wp (idealMachine g) crash (areaRead g area) post ram state := by
  simp only [areaRead, Code.wp_bind, Code.wp_get, ne_eq, other, not_false_eq_true, if_true,
    Code.wp_assert, area_proper supported isArea]
  refine ⟨safe, trivial, safe, wp_tableRead log offset safe ?_⟩
  simp only [loadArea, Code.wp_pure, Code.wp_modify, if_true]
  exact ⟨safe, safe, safe, safe, safe, meets⟩

/-- Reading the area that is in memory. -/
theorem wp_areaRead_cached {area : Nat}
    {post : Status → UbiRam D → Ideal (UbiBuffer D) → Prop}
    (cached : ram.cachedAreaNumber = area) (safe : crash state)
    (meets : post .success ram state) :
    Code.wp (idealMachine g) crash (areaRead g area) post ram state := by
  subst cached
  simp only [areaRead, Code.wp_bind, Code.wp_get, ne_eq, not_true_eq_false, if_false,
    Code.wp_pure, if_true, Code.wp_modify]
  exact ⟨safe, safe, safe, safe, meets⟩

/-- Reading an area brings its newest table to memory, unless another version of it
is there already. -/
theorem wp_areaRead {area : Nat} {post : Status → UbiRam D → Ideal (UbiBuffer D) → Prop}
    (supported : g.Supported) (isArea : area < g.areaCount)
    (log : TableLog g state.nand (ram.indexTable.areaIndex area).block (view.next area)
      (.area (view.tables area)))
    (offset : ram.areaOffsetTable area = view.next area - 1)
    (safe : crash state)
    (meets : ∀ cached, (ram.cachedAreaNumber = area ∧ cached = ram.cachedAreaTable ∨
        ram.cachedAreaNumber ≠ area ∧ cached = view.tables area) →
      post .success (ram.cache area cached) state) :
    Code.wp (idealMachine g) crash (areaRead g area) post ram state := by
  by_cases same : ram.cachedAreaNumber = area
  · refine wp_areaRead_cached same safe ?_
    have := meets ram.cachedAreaTable (.inl ⟨same, rfl⟩)
    rwa [UbiRam.cache_self same] at this
  · refine wp_areaRead_load supported isArea log (Ne.symm same) (.inr offset) safe ?_
    rw [← offset, Function.update_eq_self]
    exact meets (view.tables area) (.inr ⟨same, rfl⟩)

/-- Reading an area when what is in memory is up to date. -/
theorem wp_areaRead_fits {area : Nat} {post : Status → UbiRam D → Ideal (UbiBuffer D) → Prop}
    (supported : g.Supported)
    (areas : AreasLogged g state.nand ram.indexTable view)
    (offsets : OffsetsKnown g ram view known) (fits : CacheFits ram view known)
    (isKnown : known area) (safe : crash state)
    (meets : post .success (ram.cache area (view.tables area)) state) :
    Code.wp (idealMachine g) crash (areaRead g area) post ram state := by
  obtain ⟨isArea, offset⟩ := offsets area isKnown
  refine wp_areaRead supported isArea (areas area isArea) offset safe ?_
  rintro cached (⟨same, rfl⟩ | ⟨-, rfl⟩)
  · have := (fits (same ▸ area_proper supported isArea)).2
    rw [this, same]
    exact meets
  · exact meets

theorem wp_areaGetBlock {block : Nat} {post : Nat → UbiRam D → Ideal (UbiBuffer D) → Prop}
    (supported : g.Supported)
    (areas : AreasLogged g state.nand ram.indexTable view)
    (offsets : OffsetsKnown g ram view known) (fits : CacheFits ram view known)
    (isKnown : known (g.areaIndex block)) (safe : crash state)
    (meets : post (rawEntry g view block).block
      (ram.cache (g.areaIndex block) (view.tables (g.areaIndex block))) state) :
    Code.wp (idealMachine g) crash (areaGetBlock g block) post ram state := by
  simp only [areaGetBlock, Code.wp_bind]
  refine wp_areaRead_fits supported areas offsets fits isKnown safe ?_
  simp only [if_true, Code.wp_get, Code.wp_pure]
  exact ⟨safe, safe, meets⟩

theorem wp_areaGetEc {block : Nat} {post : EraseCount → UbiRam D → Ideal (UbiBuffer D) → Prop}
    (supported : g.Supported)
    (areas : AreasLogged g state.nand ram.indexTable view)
    (offsets : OffsetsKnown g ram view known) (fits : CacheFits ram view known)
    (isKnown : known (g.areaIndex block)) (safe : crash state)
    (meets : post (rawEntry g view block).ec
      (ram.cache (g.areaIndex block) (view.tables (g.areaIndex block))) state) :
    Code.wp (idealMachine g) crash (areaGetEc g block) post ram state := by
  simp only [areaGetEc, Code.wp_bind]
  refine wp_areaRead_fits supported areas offsets fits isKnown safe ?_
  simp only [if_true, Code.wp_get, Code.wp_pure]
  exact ⟨safe, safe, meets⟩

/-- What is in memory stays up to date when the area in memory changes. -/
theorem OffsetsKnown.cache (offsets : OffsetsKnown g ram view known) (area : Nat)
    (cached : AreaTable) : OffsetsKnown g (ram.cache area cached) view known :=
  offsets

theorem cacheFits_cache {area : Nat} (isKnown : known area) :
    CacheFits (ram.cache area (view.tables area)) view known :=
  fun _ => ⟨isKnown, rfl⟩

theorem wp_areaIsFull {block : Nat} {post : Bool → UbiRam D → Ideal (UbiBuffer D) → Prop}
    (supported : g.Supported) (isArea : g.areaIndex block < g.areaCount)
    (log : TableLog g state.nand (ram.indexTable.areaIndex (g.areaIndex block)).block
      (view.next (g.areaIndex block)) (.area (view.tables (g.areaIndex block))))
    (offset : ram.areaOffsetTable (g.areaIndex block) = view.next (g.areaIndex block) - 1)
    (safe : crash state)
    (meets : ∀ cached,
      (ram.cachedAreaNumber = g.areaIndex block ∧ cached = ram.cachedAreaTable ∨
        ram.cachedAreaNumber ≠ g.areaIndex block ∧
          cached = view.tables (g.areaIndex block)) →
      post (decide (view.next (g.areaIndex block) = g.pagePerPhyBlock))
        (ram.cache (g.areaIndex block) cached) state) :
    Code.wp (idealMachine g) crash (areaIsFull g block) post ram state := by
  simp only [areaIsFull, Code.wp_bind]
  refine wp_areaRead supported isArea log offset safe fun cached isCached => ?_
  rw [Code.wp_get]
  refine ⟨safe, ?_⟩
  rw [Code.wp_pure]
  refine ⟨safe, ?_⟩
  have offset' : (ram.cache (g.areaIndex block) cached).areaOffsetTable (g.areaIndex block) =
      view.next (g.areaIndex block) - 1 := offset
  have same : view.next (g.areaIndex block) - 1 = g.pagePerPhyBlock - 1 ↔
      view.next (g.areaIndex block) = g.pagePerPhyBlock := by
    have pos := log.pos
    have pagesPos := g.pagePerPhyBlock_pos
    omega
  simp only [true_and, offset', same]
  exact meets cached isCached

/-- `AREA_Update` on the area in memory writes its table with the new entry to
the next page. -/
theorem wp_areaUpdate {plr : AreaUpdatePlr} {post : Status → UbiRam D → Ideal (UbiBuffer D) → Prop}
    (cached : ram.cachedAreaNumber = g.areaIndex plr.logicalBlock)
    (fits : Function.update ram.cachedAreaTable (g.blockOffsetArea plr.logicalBlock) plr.entry =
      enteredTable g view plr)
    (proper : plr.physicalBlock ≠ invalidBlock) (supported : g.Supported)
    {page : Nat} (isPage : page =
      (ram.areaOffsetTable (g.areaIndex plr.logicalBlock) + 1) % g.pagePerPhyBlock)
    {block : Nat}
    (isBlock : block = (ram.indexTable.areaIndex (g.areaIndex plr.logicalBlock)).block)
    (inRange : block < g.cfgLogBlockCount) (blank : state.nand block page = none)
    (safe : crash state)
    (safeWritten : crash (state.program block page
      (tablePage (.area (enteredTable g view plr)))))
    (meets : post .success
      { ram with
        cachedAreaTable := enteredTable g view plr
        areaOffsetTable := Function.update ram.areaOffsetTable (g.areaIndex plr.logicalBlock)
          page }
      (state.program block page (tablePage (.area (enteredTable g view plr))))) :
    Code.wp (idealMachine g) crash
      (areaUpdate g plr.logicalBlock plr.physicalBlock plr.blockEc) post ram state := by
  have pageRange : page < g.pagePerPhyBlock := by
    rw [isPage]
    exact Nat.mod_lt _ g.pagePerPhyBlock_pos
  have pageProper : page ≠ invalidPage := (pageRange.trans supported.pagesSmall).ne
  simp only [areaUpdate, Code.wp_bind]
  refine wp_areaRead_cached cached safe ?_
  simp only [if_true, ne_eq, proper, not_false_eq_true, Code.wp_bind, Code.wp_modify,
    Code.wp_get, ← isPage, ← isBlock]
  rw [wp_tableWrite ⟨inRange, pageRange⟩ blank]
  have entered : Function.update ram.cachedAreaTable (g.blockOffsetArea plr.logicalBlock)
      ⟨plr.physicalBlock, plr.blockEc⟩ = enteredTable g view plr := fits
  simp only [Code.wp_pure, if_true, Code.wp_bind, Code.wp_assert, Code.wp_modify, entered,
    pageProper, not_false_eq_true]
  exact ⟨safe, safe, safe, safeWritten, safeWritten, trivial, safeWritten, safeWritten,
    safeWritten, meets⟩

end Specs

end OpenNfm
