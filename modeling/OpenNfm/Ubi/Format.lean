import OpenNfm.Ubi.Mount

/-!
# The format

`UBI_Format` on a device without anchors lays out the areas one behind the
other, then the index block and the free blocks, and last the anchor.  The
result is recoverable, with no page in any logical block.
-/

namespace OpenNfm

open OpenNfm.Program

variable {g : Geometry} {D : Type}

/-! ## The layout -/

namespace Geometry

/-- The first block of an area. -/
def areaStart (g : Geometry) (area : Nat) : Nat :=
  g.dataFirstBlock + area * (g.cfgPhyBlockPerArea + 1)

/-- The number of logical blocks in an area. -/
def areaBlocks (g : Geometry) (area : Nat) : Nat :=
  min (g.dataBlockCount - g.areaStart area) g.cfgPhyBlockPerArea

/-- The block that the table of an area is written to. -/
def areaTableBlock (g : Geometry) (area : Nat) : Nat :=
  g.areaStart area + g.areaBlocks area

/-- The first block behind the areas. -/
def layoutEnd (g : Geometry) : Nat :=
  g.areaTableBlock (g.areaCount - 1) + 1

/-- The table of an area after the format. -/
def formatTable (g : Geometry) (area : Nat) : AreaTable := fun i =>
  if i < g.areaBlocks area then ⟨g.areaStart area + i, (0 : Nat)⟩ else .invalid

theorem areaStart_succ (g : Geometry) (area : Nat) :
    g.areaStart (area + 1) = g.areaStart area + g.cfgPhyBlockPerArea + 1 := by
  unfold areaStart
  rw [Nat.succ_mul]
  omega

end Geometry

/-- The areas but the last one are full, and the last one is not empty. -/
theorem areaStart_lt (supported : g.Supported) {area : Nat} (isArea : area < g.areaCount) :
    g.areaStart area < g.dataBlockCount := by
  have areas := supported.areas
  have data := supported.data
  have whole := Nat.div_mul_le_self
    (g.dataBlockCount - g.dataFirstBlock + g.cfgPhyBlockPerArea) (g.cfgPhyBlockPerArea + 1)
  rw [areas] at whole
  have below : (area + 1) * (g.cfgPhyBlockPerArea + 1) ≤
      g.areaCount * (g.cfgPhyBlockPerArea + 1) := Nat.mul_le_mul_right _ isArea
  rw [Nat.succ_mul] at below
  unfold Geometry.areaStart
  omega

theorem dataBlockCount_le (supported : g.Supported) :
    g.dataBlockCount ≤ g.areaStart (g.areaCount - 1) + g.cfgPhyBlockPerArea + 1 := by
  have areas := supported.areas
  have data := supported.data
  have pos := supported.areaCount_pos
  have above := Nat.lt_mul_div_succ
    (g.dataBlockCount - g.dataFirstBlock + g.cfgPhyBlockPerArea)
    (Nat.succ_pos g.cfgPhyBlockPerArea)
  rw [Nat.succ_eq_add_one, areas] at above
  obtain ⟨n, count⟩ := Nat.exists_eq_succ_of_ne_zero pos.ne'
  have same : g.areaCount - 1 = n := by omega
  unfold Geometry.areaStart
  rw [same]
  rw [count, Nat.succ_eq_add_one, Nat.mul_comm, Nat.add_mul, Nat.add_mul] at above
  omega

theorem areaBlocks_eq (supported : g.Supported) {area : Nat} (notLast : area + 1 < g.areaCount) :
    g.areaBlocks area = g.cfgPhyBlockPerArea := by
  have := areaStart_lt supported notLast
  rw [g.areaStart_succ] at this
  unfold Geometry.areaBlocks
  omega

theorem areaBlocks_le (g : Geometry) (area : Nat) : g.areaBlocks area ≤ g.cfgPhyBlockPerArea :=
  Nat.min_le_right _ _

theorem areaBlocks_pos (supported : g.Supported) {area : Nat} (isArea : area < g.areaCount) :
    0 < g.areaBlocks area := by
  have := areaStart_lt supported isArea
  have := supported.entries
  unfold Geometry.areaBlocks
  omega

theorem layoutEnd_bounds (supported : g.Supported) :
    g.dataBlockCount ≤ g.layoutEnd ∧ g.layoutEnd ≤ g.dataBlockCount + 1 := by
  have pos := supported.areaCount_pos
  have start := areaStart_lt supported (show g.areaCount - 1 < g.areaCount by omega)
  have last := dataBlockCount_le supported
  unfold Geometry.layoutEnd Geometry.areaTableBlock Geometry.areaBlocks
  omega

/-- The offsets in use are those of the logical blocks. -/
theorem lt_areaBlocks_iff (supported : g.Supported) {block : Nat}
    (isArea : g.areaIndex block < g.areaCount) :
    g.blockOffsetArea block < g.areaBlocks (g.areaIndex block) ↔ block < g.ubiCapacity := by
  have entries := supported.entries
  have offset : g.blockOffsetArea block < g.cfgPhyBlockPerArea := Nat.mod_lt _ entries
  have split : g.cfgPhyBlockPerArea * g.areaIndex block + g.blockOffsetArea block = block :=
    Nat.div_add_mod _ _
  have pos := supported.areaCount_pos
  have last : g.lastAreaBlocks = g.areaBlocks (g.areaCount - 1) := rfl
  unfold Geometry.ubiCapacity
  rw [last]
  rw [Nat.mul_comm] at split
  by_cases isLast : g.areaIndex block = g.areaCount - 1
  · rw [isLast] at split ⊢
    omega
  · have full := areaBlocks_eq supported (show g.areaIndex block + 1 < g.areaCount by omega)
    have below : (g.areaIndex block + 1) * g.cfgPhyBlockPerArea ≤
        (g.areaCount - 1) * g.cfgPhyBlockPerArea :=
      Nat.mul_le_mul_right _ (by omega)
    rw [Nat.succ_mul] at below
    rw [full]
    omega

/-- A block is in the segment of one area only. -/
theorem area_ext {area other i j : Nat} (iLe : i ≤ g.cfgPhyBlockPerArea)
    (jLe : j ≤ g.cfgPhyBlockPerArea) (same : g.areaStart area + i = g.areaStart other + j) :
    area = other ∧ i = j := by
  have equal : area * (g.cfgPhyBlockPerArea + 1) + i =
      other * (g.cfgPhyBlockPerArea + 1) + j := by
    unfold Geometry.areaStart at same
    omega
  have areas : area = other := by
    have quotients := congrArg (· / (g.cfgPhyBlockPerArea + 1)) equal
    simp only [Nat.add_comm _ i, Nat.add_comm _ j] at quotients
    rwa [Nat.add_mul_div_right _ _ (Nat.succ_pos _), Nat.add_mul_div_right _ _ (Nat.succ_pos _),
      Nat.div_eq_of_lt (by omega), Nat.div_eq_of_lt (by omega), Nat.zero_add,
      Nat.zero_add] at quotients
  subst areas
  exact ⟨rfl, by omega⟩

theorem areaTableBlock_lt {area : Nat} (isArea : area < g.areaCount) :
    g.areaTableBlock area < g.layoutEnd := by
  have le := areaBlocks_le g area
  unfold Geometry.layoutEnd Geometry.areaTableBlock
  by_cases isLast : area = g.areaCount - 1
  · subst isLast
    omega
  · have later : (area + 1) * (g.cfgPhyBlockPerArea + 1) ≤
        (g.areaCount - 1) * (g.cfgPhyBlockPerArea + 1) := Nat.mul_le_mul_right _ (by omega)
    rw [Nat.succ_mul] at later
    unfold Geometry.areaStart
    omega

/-! ## Erasing and laying out -/

/-- The flash after the blocks from `first` up to `last` are erased. -/
def Nand.eraseRange {B : Type} (nand : Nand B) (first last : Nat) : Nand B := fun block =>
  if first ≤ block ∧ block < last then fun _ => none else nand block

theorem Nand.blank_eraseRange {B : Type} (nand : Nand B) {first last block : Nat}
    (lower : first ≤ block) (upper : block < last) : (nand.eraseRange first last).Blank block :=
  fun _ => congrFun (if_pos ⟨lower, upper⟩) _

theorem Nand.eraseRange_row {B : Type} (nand : Nand B) {first last block : Nat}
    (outside : block < first ∨ last ≤ block) : nand.eraseRange first last block = nand block :=
  if_neg (by omega)

theorem Nand.eraseRange_empty {B : Type} (nand : Nand B) (first : Nat) :
    nand.eraseRange first first = nand :=
  funext fun _ => nand.eraseRange_row (by omega)

/-- Erasing the block in front of a range makes the range longer. -/
theorem Nand.eraseRange_erase {B : Type} (nand : Nand B) {first last : Nat}
    (inside : first < last) :
    (nand.erase first).eraseRange (first + 1) last = nand.eraseRange first last := by
  funext block
  by_cases same : block = first
  · subst same
    rw [Nand.eraseRange_row _ (.inl (Nat.lt_succ_self block))]
    funext page
    rw [Nand.erase_same, nand.blank_eraseRange le_rfl inside]
  · unfold Nand.eraseRange
    rw [nand.erase_row same]
    have : (first + 1 ≤ block ∧ block < last) ↔ (first ≤ block ∧ block < last) := by omega
    simp only [this]

/-- Erasing the block behind a range makes the range longer. -/
theorem Nand.erase_eraseRange {B : Type} (nand : Nand B) {first last : Nat}
    (inside : first ≤ last) :
    (nand.eraseRange first last).erase last = nand.eraseRange first (last + 1) := by
  funext block
  by_cases same : block = last
  · subst same
    funext page
    rw [Nand.erase_same, nand.blank_eraseRange inside (Nat.lt_succ_self block)]
  · rw [Nand.erase_row _ same]
    unfold Nand.eraseRange
    have : (first ≤ block ∧ block < last) ↔ (first ≤ block ∧ block < last + 1) := by omega
    simp only [this]

section Specs

variable {crash : Ideal (UbiBuffer D) → Prop} {ram : UbiRam D} {state : Ideal (UbiBuffer D)}
  {fuel : Nat}

/-- The detection of bad blocks erases the device. -/
theorem wp_ubiDetectBadBlocks {first count : Nat}
    {post : Unit → UbiRam D → Ideal (UbiBuffer D) → Prop}
    (inRange : first + count ≤ g.cfgLogBlockCount) (safe : ∀ after, crash after)
    (meets : post () ram ⟨state.nand.eraseRange first (first + count), state.polls⟩) :
    Code.wp (idealMachine g) crash (ubiDetectBadBlocks g (List.range' first count)) post ram
      state := by
  induction count generalizing first state with
  | zero =>
      rw [Nat.add_zero, Nand.eraseRange_empty] at meets
      simp only [List.range'_zero, ubiDetectBadBlocks, Code.wp_pure]
      exact ⟨safe _, meets⟩
  | succ count ih =>
      have here : first < g.cfgLogBlockCount := by omega
      have next : first + 1 + count = first + (count + 1) := by omega
      simp only [List.range'_succ, ubiDetectBadBlocks, Code.wp_bind, wp_mtdCheckBlock here, if_true,
        wp_mtdErase here, ne_eq, not_true_eq_false, if_false]
      refine ⟨safe _, safe _, safe _, ih (by omega) ?_⟩
      rw [Ideal.erase_nand, next, Nand.eraseRange_erase _ (by omega)]
      exact meets

/-- `AREA_Format` fills the table with the blocks from `start` on. -/
theorem wp_areaFormatFill (start : Nat) {blockCount steps i : Nat} {table : AreaTable}
    {post : Status × Nat × AreaTable → UbiRam D → Ideal (UbiBuffer D) → Prop}
    (supported : g.Supported) (noBad : ram.anchorTable.NoBad)
    (enough : blockCount - i < steps) (le : i ≤ blockCount)
    (inRange : start + blockCount ≤ g.cfgLogBlockCount)
    (filled : table = fun j => if j < i then ⟨start + j, (0 : Nat)⟩ else .invalid)
    (safe : ∀ after, crash after)
    (meets : post (.success, start + blockCount,
      fun j => if j < blockCount then ⟨start + j, (0 : Nat)⟩ else .invalid) ram
        ⟨state.nand.eraseRange (start + i) (start + blockCount), state.polls⟩) :
    Code.wp (idealMachine g) crash
      (areaFormatFill g blockCount steps i (start + i) .success table) post ram state := by
  induction steps generalizing i table state with
  | zero => omega
  | succ steps ih =>
      unfold areaFormatFill
      by_cases more : i < blockCount
      · have here : start + i < g.cfgLogBlockCount := by omega
        simp only [more, if_true, here, Code.wp_bind, wp_anchorIsBadBlock noBad supported here,
          Bool.false_eq_true, if_false, wp_mtdErase here, ne_eq, not_true_eq_false, Code.wp_pure]
        refine ⟨safe _, safe _, safe _, safe _, ih (by omega) more ?_ ?_⟩
        · subst filled
          funext j
          by_cases same : j = i
          · subst same
            rw [Function.update_self, if_pos (Nat.lt_succ_self _)]
          · rw [Function.update_of_ne same]
            have : j < i ↔ j < i + 1 := by omega
            simp only [this]
        · rw [Ideal.erase_nand, ← Nat.add_assoc, Nand.eraseRange_erase _ (by omega)]
          exact meets
      · obtain rfl : i = blockCount := by omega
        rw [Nand.eraseRange_empty] at meets
        simp only [more, if_false, Code.wp_pure]
        subst filled
        exact ⟨safe _, meets⟩

/-- The memory after an area is laid out. -/
def areaFormatted (g : Geometry) (ram : UbiRam D) (area : Nat) : UbiRam D :=
  { ram with
    cachedAreaTable := g.formatTable area
    indexTable :=
      { ram.indexTable with
        areaIndex := Function.update ram.indexTable.areaIndex area
          ⟨g.areaTableBlock area, (0 : Nat)⟩ }
    areaOffsetTable := Function.update ram.areaOffsetTable area 0 }

/-- The flash after an area is laid out. -/
def Nand.formatArea (g : Geometry) (nand : Nand (UbiBuffer D)) (area : Nat) :
    Nand (UbiBuffer D) :=
  (nand.eraseRange (g.areaStart area) (g.areaTableBlock area + 1)).program
    (g.areaTableBlock area) 0 (tablePage (.area (g.formatTable area)))

/-- `AREA_Format` writes the first table of an area. -/
theorem wp_areaFormat {area : Nat} {post : Nat → UbiRam D → Ideal (UbiBuffer D) → Prop}
    (supported : g.Supported) (noBad : ram.anchorTable.NoBad) (isArea : area < g.areaCount)
    (safe : ∀ after, crash after)
    (meets : post (g.areaTableBlock area + 1) (areaFormatted g ram area)
      ⟨state.nand.formatArea g area, state.polls⟩) :
    Code.wp (idealMachine g) crash
      (areaFormat g (g.areaBlocks area) (g.areaStart area) area) post ram state := by
  have bounds := layoutEnd_bounds supported
  have reserve := supported.reserve
  have tableLt := areaTableBlock_lt isArea
  have tableRange : g.areaTableBlock area < g.cfgLogBlockCount := by omega
  have tableIs : g.areaStart area + g.areaBlocks area = g.areaTableBlock area := rfl
  have ordered : g.areaStart area ≤ g.areaTableBlock area := Nat.le_add_right _ _
  have whole : (fun j => if g.areaBlocks area ≤ j ∧ j < g.cfgPhyBlockPerArea then
      BlockEc.invalid else if j < g.areaBlocks area then ⟨g.areaStart area + j, (0 : Nat)⟩
        else .invalid) = g.formatTable area := by
    funext j
    unfold Geometry.formatTable
    by_cases used : j < g.areaBlocks area
    · rw [if_neg (by omega)]
    · rw [if_neg used]
      split <;> rfl
  simp only [areaFormat, Code.wp_bind, Code.wp_modify]
  refine ⟨safe _, ?_⟩
  refine wp_areaFormatFill (g.areaStart area) (i := 0) supported noBad (by omega) (Nat.zero_le _)
    (by omega) (by simp; rfl) safe ?_
  simp only [areaFormatSkip, Code.wp_bind, if_true, tableIs, Nat.add_zero]
  refine ⟨safe _, (wp_anchorIsBadBlock (by exact noBad) supported tableRange).mpr ⟨safe _, ?_⟩⟩
  simp only [Bool.false_eq_true, if_false, Code.wp_pure, wp_mtdErase tableRange, if_true]
  refine ⟨safe _, safe _, safe _, safe _, ?_⟩
  have blank : ((state.nand.eraseRange (g.areaStart area) (g.areaTableBlock area)).erase
      (g.areaTableBlock area)).Blank (g.areaTableBlock area) := Nand.blank_erase _ _
  rw [Code.wp_bind, wp_tableWrite ⟨tableRange, g.pagePerPhyBlock_pos⟩ (blank 0), whole]
  simp only [if_true, Code.wp_bind, Code.wp_modify, Code.wp_pure]
  refine ⟨safe _, safe _, safe _, safe _, ?_⟩
  unfold Nand.formatArea at meets
  rw [← Nand.erase_eraseRange _ ordered] at meets
  exact meets

/-- The first `count` areas are laid out. -/
structure LaidOut (g : Geometry) (nand : Nand (UbiBuffer D)) (ram : UbiRam D) (count : Nat) :
    Prop where
  logs : ∀ area < count,
    TableLog g nand (g.areaTableBlock area) 1 (.area (g.formatTable area))
  index : ∀ area < count, ram.indexTable.areaIndex area = ⟨g.areaTableBlock area, (0 : Nat)⟩
  blank : ∀ area < count, ∀ offset < g.areaBlocks area, nand.Blank (g.areaStart area + offset)

/-- The areas come one behind the other. -/
theorem areaTableBlock_lt_start {other area : Nat} (earlier : other < area) :
    g.areaTableBlock other < g.areaStart area := by
  have le := areaBlocks_le g other
  have later : (other + 1) * (g.cfgPhyBlockPerArea + 1) ≤ area * (g.cfgPhyBlockPerArea + 1) :=
    Nat.mul_le_mul_right _ earlier
  rw [Nat.succ_mul] at later
  unfold Geometry.areaTableBlock Geometry.areaStart
  omega

/-- One more area. -/
theorem LaidOut.step {nand : Nand (UbiBuffer D)} {area : Nat}
    (laidOut : LaidOut g nand ram area) (tableRange : g.areaTableBlock area < g.cfgLogBlockCount) :
    LaidOut g (nand.formatArea g area) (areaFormatted g ram area) (area + 1) := by
  have rows : ∀ block < g.areaStart area, nand.formatArea g area block = nand block := by
    intro block before
    have := Nat.le_add_right (g.areaStart area) (g.areaBlocks area)
    have different : block ≠ g.areaTableBlock area := by
      unfold Geometry.areaTableBlock
      omega
    unfold Nand.formatArea
    rw [Nand.program_row _ _ _ different, nand.eraseRange_row (.inl before)]
  have ordered : g.areaStart area ≤ g.areaTableBlock area := Nat.le_add_right _ _
  refine ⟨fun other inside => ?_, fun other inside => ?_, fun other inside offset used page => ?_⟩
  · rcases Nat.lt_succ_iff_lt_or_eq.mp inside with earlier | rfl
    · exact (laidOut.logs other earlier).frame (rows _ (areaTableBlock_lt_start earlier))
    · exact TableLog.start tableRange
        (nand.blank_eraseRange ordered (Nat.lt_succ_self _)) _
  · rcases Nat.lt_succ_iff_lt_or_eq.mp inside with earlier | rfl
    · simp only [areaFormatted, Function.update_of_ne earlier.ne]
      exact laidOut.index other earlier
    · simp only [areaFormatted, Function.update_self]
  · rcases Nat.lt_succ_iff_lt_or_eq.mp inside with earlier | rfl
    · have := areaTableBlock_lt_start (g := g) earlier
      unfold Geometry.areaTableBlock at this
      rw [rows _ (by omega)]
      exact laidOut.blank other earlier offset used page
    · unfold Nand.formatArea
      rw [Nand.program_row _ _ _ (by unfold Geometry.areaTableBlock; omega)]
      exact nand.blank_eraseRange (Nat.le_add_right _ _)
        (by unfold Geometry.areaTableBlock; omega) page

/-- Memory and flash after `count` areas are laid out from `area` on. -/
def layOut (g : Geometry) :
    Nat → Nat → UbiRam D × Nand (UbiBuffer D) → UbiRam D × Nand (UbiBuffer D)
  | 0, _, device => device
  | count + 1, area, device =>
      layOut g count (area + 1) (areaFormatted g device.1 area, device.2.formatArea g area)

theorem LaidOut.layOut (supported : g.Supported) (device : UbiRam D × Nand (UbiBuffer D))
    {area count : Nat} (laidOut : LaidOut g device.2 device.1 area)
    (areas : area + count ≤ g.areaCount) :
    LaidOut g (layOut g count area device).2 (OpenNfm.layOut g count area device).1
      (area + count) := by
  induction count generalizing area device with
  | zero => exact laidOut
  | succ count ih =>
      have tableLt := areaTableBlock_lt (show area < g.areaCount by omega)
      have bounds := layoutEnd_bounds supported
      have reserve := supported.reserve
      have step := laidOut.step (show g.areaTableBlock area < g.cfgLogBlockCount by omega)
      have rest := ih (areaFormatted g device.1 area, device.2.formatArea g area) step
        (by omega)
      rwa [Nat.add_assoc, Nat.add_comm 1 count] at rest

theorem layOut_kept (device : UbiRam D × Nand (UbiBuffer D)) (count area : Nat) :
    (layOut g count area device).1.anchorTable = device.1.anchorTable ∧
      (layOut g count area device).1.diceHold = device.1.diceHold := by
  induction count generalizing area device with
  | zero => exact ⟨rfl, rfl⟩
  | succ count ih => exact ih _ _

/-- The loop over the areas lays out all of them. -/
theorem wp_ubiFormatAreas {rounds area : Nat}
    {post : Nat × Nat → UbiRam D → Ideal (UbiBuffer D) → Prop} (supported : g.Supported)
    (noBad : ram.anchorTable.NoBad) (isArea : area < g.areaCount)
    (enough : g.areaCount - area ≤ rounds) (safe : ∀ after, crash after)
    (meets : post (g.layoutEnd, g.ubiCapacity)
      (layOut g (g.areaCount - area) area (ram, state.nand)).1
      ⟨(layOut g (g.areaCount - area) area (ram, state.nand)).2, state.polls⟩) :
    Code.wp (idealMachine g) crash
      (ubiFormatAreas g rounds (g.areaStart area) area (area * g.cfgPhyBlockPerArea)) post ram
      state := by
  induction rounds generalizing area ram state with
  | zero => omega
  | succ rounds ih =>
      have start := areaStart_lt supported isArea
      have bounds := layoutEnd_bounds supported
      have reserve := supported.reserve
      have tableLt := areaTableBlock_lt isArea
      have count : min (g.dataBlockCount - g.areaStart area) g.cfgPhyBlockPerArea =
          g.areaBlocks area := rfl
      have tableIs : g.areaTableBlock area = g.areaStart area + g.areaBlocks area := rfl
      have proper : g.areaTableBlock area + 1 ≠ invalidBlock := by
        have := supported.blocksSmall
        rw [invalidBlock]
        omega
      have remaining : g.areaCount - area = g.areaCount - (area + 1) + 1 := by omega
      rw [remaining] at meets
      simp only [ubiFormatAreas, Code.wp_bind, Code.wp_assert, count]
      refine ⟨start, safe _, wp_areaFormat supported noBad isArea safe ?_⟩
      simp only [ne_eq, proper, not_false_eq_true, if_true]
      by_cases isLast : area + 1 < g.areaCount
      · have full := areaBlocks_eq supported isLast
        have nextStart : g.areaTableBlock area + 1 = g.areaStart (area + 1) := by
          rw [g.areaStart_succ, tableIs, full]
        have total : area * g.cfgPhyBlockPerArea + g.areaBlocks area =
            (area + 1) * g.cfgPhyBlockPerArea := by
          rw [full, Nat.succ_mul]
        rw [if_pos (nextStart ▸ areaStart_lt supported isLast), nextStart, total]
        exact ih (by exact noBad) isLast (by omega) meets
      · obtain rfl : area = g.areaCount - 1 := by omega
        have isEnd : g.areaTableBlock (g.areaCount - 1) + 1 = g.layoutEnd := rfl
        have total : (g.areaCount - 1) * g.cfgPhyBlockPerArea + g.areaBlocks (g.areaCount - 1) =
            g.ubiCapacity := rfl
        have none : g.areaCount - (g.areaCount - 1 + 1) = 0 := by omega
        rw [none] at meets
        rw [isEnd, total, if_neg (by omega), Code.wp_pure]
        exact ⟨safe _, meets⟩

/-! ## The index and the free blocks -/

/-- The free blocks after the format. -/
def Geometry.formatFree (g : Geometry) : List BlockEc :=
  (List.range' (g.layoutEnd + 1) (g.cfgLogBlockCount - (g.layoutEnd + 1))).map
    fun block => ⟨block, (0 : Nat)⟩

/-- `INDEX_Format` enters the blocks behind the index block. -/
theorem wp_indexFormatFill {indexBlock first length count : Nat} {free : Nat → BlockEc}
    {post : Status × Nat × Nat × (Nat → BlockEc) → UbiRam D → Ideal (UbiBuffer D) → Prop}
    (supported : g.Supported) (noBad : ram.anchorTable.NoBad)
    (proper : indexBlock ≠ invalidBlock) (inRange : first + length ≤ g.cfgLogBlockCount)
    (fits : count + length ≤ g.freeBlockCount) (safe : ∀ after, crash after)
    (meets : post (.success, indexBlock, count + length, fun i =>
        if count ≤ i ∧ i < count + length then ⟨first + (i - count), (0 : Nat)⟩ else free i) ram
      ⟨state.nand.eraseRange first (first + length), state.polls⟩) :
    Code.wp (idealMachine g) crash
      (indexFormatFill g (List.range' first length) .success indexBlock count free) post ram
      state := by
  induction length generalizing first count free state with
  | zero =>
      have unchanged : (fun i => if count ≤ i ∧ i < count + 0 then
          (⟨first + (i - count), (0 : Nat)⟩ : BlockEc) else free i) = free :=
        funext fun i => if_neg (by omega)
      rw [unchanged, Nat.add_zero, Nat.add_zero, Nand.eraseRange_empty] at meets
      simp only [List.range'_zero, indexFormatFill, Code.wp_pure]
      exact ⟨safe _, meets⟩
  | succ length ih =>
      have here : first < g.cfgLogBlockCount := by omega
      have next : first + 1 + length = first + (length + 1) := by omega
      have total : count + 1 + length = count + (length + 1) := by omega
      simp only [List.range'_succ, indexFormatFill, Code.wp_bind,
        wp_anchorIsBadBlock noBad supported here, Bool.false_eq_true, if_false, wp_mtdErase here,
        ne_eq, not_true_eq_false, Code.wp_pure, if_true, proper, Code.wp_assert]
      refine ⟨safe _, safe _, safe _, safe _, by omega, safe _, ih (by omega) (by omega) ?_⟩
      have entered : (fun i => if count + 1 ≤ i ∧ i < count + (length + 1) then
            (⟨first + 1 + (i - (count + 1)), (0 : Nat)⟩ : BlockEc)
          else Function.update free count ⟨first, (0 : Nat)⟩ i) =
          fun i => if count ≤ i ∧ i < count + (length + 1) then
            ⟨first + (i - count), (0 : Nat)⟩ else free i := by
        funext i
        by_cases same : i = count
        · subst same
          rw [if_neg (by omega), if_pos (by omega), Function.update_self, Nat.sub_self]
          rfl
        · rw [Function.update_of_ne same]
          by_cases inside : count + 1 ≤ i ∧ i < count + (length + 1)
          · rw [if_pos inside, if_pos (by omega)]
            congr 1
            omega
          · rw [if_neg inside, if_neg (by omega)]
      rw [Ideal.erase_nand, next, total, Nand.eraseRange_erase _ (by omega), entered]
      exact meets

theorem freeList_format (supported : g.Supported) {free : Nat → BlockEc}
    (entries : ∀ i (inside : i < g.formatFree.length), free i = g.formatFree[i])
    (others : ∀ i < g.freeBlockCount, g.formatFree.length ≤ i → free i = .invalid) :
    FreeList g free g.formatFree where
  fits := by
    have := supported.freeFits
    have := supported.reserve
    have := layoutEnd_bounds supported
    simp only [Geometry.formatFree, List.length_map, List.length_range']
    omega
  entry i inTable := by
    by_cases inside : i < g.formatFree.length
    · rw [entries i inside, List.getElem?_eq_getElem inside]
      rfl
    · rw [others i inTable (Nat.le_of_not_lt inside), List.getElem?_eq_none (by omega)]
      rfl
  valid entry inside := by
    have := supported.blocksSmall
    obtain ⟨block, isBlock, rfl⟩ := List.mem_map.mp inside
    rw [List.mem_range'_1] at isBlock
    refine ⟨?_, WithTop.coe_ne_top⟩
    simp only [invalidBlock]
    omega

/-- The index table that the format writes. -/
def formatIndex (g : Geometry) (ram : UbiRam D) : IndexTable where
  areaIndex := ram.indexTable.areaIndex
  free i :=
    if i < g.cfgLogBlockCount - (g.layoutEnd + 1) then ⟨g.layoutEnd + 1 + i, (0 : Nat)⟩
    else if i < g.freeBlockCount then .invalid else ram.indexTable.free i
  areaUpdatePlr := ⟨invalidBlock, invalidBlock, invalidEc⟩

/-- The memory after `INDEX_Format`. -/
def indexFormatted (g : Geometry) (ram : UbiRam D) : UbiRam D :=
  { ram with
    indexTable := formatIndex g ram
    anchorTable :=
      { ram.anchorTable with
        indexNewBlock := g.layoutEnd
        indexNewEc := (0 : Nat)
        indexOldBlock := invalidBlock
        indexOldEc := invalidEc } }

/-- The flash after `INDEX_Format`. -/
def Nand.formatIndexBlock (g : Geometry) (ram : UbiRam D) (nand : Nand (UbiBuffer D)) :
    Nand (UbiBuffer D) :=
  (nand.eraseRange g.layoutEnd g.cfgLogBlockCount).program g.layoutEnd 0
    (tablePage (.index (formatIndex g ram)))

theorem freeList_formatIndex (supported : g.Supported) (ram : UbiRam D) :
    FreeList g (formatIndex g ram).free g.formatFree := by
  refine freeList_format supported (fun i inside => ?_) fun i inTable outside => ?_
  · simp only [Geometry.formatFree, List.length_map, List.length_range'] at inside
    simp only [formatIndex, inside, if_true, Geometry.formatFree, List.getElem_map,
      List.getElem_range', Nat.one_mul]
  · simp only [Geometry.formatFree, List.length_map, List.length_range'] at outside
    simp only [formatIndex, Nat.not_lt.mpr outside, if_false, inTable, if_true]

/-- `INDEX_Format` writes the index table and names its block in the anchor
table. -/
theorem wp_indexFormat {post : Nat → UbiRam D → Ideal (UbiBuffer D) → Prop}
    (supported : g.Supported) (noBad : ram.anchorTable.NoBad) (safe : ∀ after, crash after)
    (meets : post g.cfgLogBlockCount (indexFormatted g ram)
      ⟨state.nand.formatIndexBlock g ram, state.polls⟩) :
    Code.wp (idealMachine g) crash (indexFormat g g.cfgLogBlockCount g.layoutEnd) post ram
      state := by
  have bounds := layoutEnd_bounds supported
  have reserve := supported.reserve
  have freeFits := supported.freeFits
  have small := supported.blocksSmall
  have indexRange : g.layoutEnd < g.cfgLogBlockCount := by omega
  have proper : g.layoutEnd ≠ invalidBlock := (indexRange.trans small).ne
  have whole : g.layoutEnd + 1 + (g.cfgLogBlockCount - (g.layoutEnd + 1)) = g.cfgLogBlockCount := by
    omega
  have blocks : List.range' g.layoutEnd (g.cfgLogBlockCount - g.layoutEnd) =
      g.layoutEnd :: List.range' (g.layoutEnd + 1) (g.cfgLogBlockCount - (g.layoutEnd + 1)) := by
    rw [← List.range'_succ]
    congr 1
    omega
  have table : (⟨ram.indexTable.areaIndex, fun i =>
      if g.cfgLogBlockCount - (g.layoutEnd + 1) ≤ i ∧ i < g.freeBlockCount then .invalid
      else if 0 ≤ i ∧ i < g.cfgLogBlockCount - (g.layoutEnd + 1) then
        ⟨g.layoutEnd + 1 + (i - 0), (0 : Nat)⟩ else ram.indexTable.free i,
      ⟨invalidBlock, invalidBlock, invalidEc⟩⟩ : IndexTable) = formatIndex g ram := by
    unfold formatIndex
    congr 1
    funext i
    by_cases inside : i < g.cfgLogBlockCount - (g.layoutEnd + 1)
    · rw [if_neg (by omega), if_pos ⟨Nat.zero_le i, inside⟩, if_pos inside, Nat.sub_zero]
    · have unused : (g.cfgLogBlockCount - (g.layoutEnd + 1) ≤ i ∧ i < g.freeBlockCount) ↔
          i < g.freeBlockCount := by omega
      simp only [unused, inside, and_false, if_false]
  simp only [indexFormat, Code.wp_bind, Code.wp_modify, Code.wp_get, blocks, indexFormatFill,
    if_true]
  refine ⟨safe _, safe _, (wp_anchorIsBadBlock (by exact noBad) supported indexRange).mpr
    ⟨safe _, ?_⟩⟩
  simp only [Bool.false_eq_true, if_false, Code.wp_bind, wp_mtdErase indexRange, ne_eq,
    not_true_eq_false, Code.wp_pure, if_true]
  refine ⟨safe _, safe _, safe _, wp_indexFormatFill supported (by exact noBad) proper
    (by omega) (by omega) safe ?_⟩
  simp only [Nat.zero_add, proper, if_false, if_true, Code.wp_pure, Code.wp_bind]
  refine ⟨safe _, (wp_anchorIsBadBlock (by exact noBad) supported indexRange).mpr
    ⟨safe _, ?_⟩⟩
  simp only [Bool.false_eq_true, if_false, if_true, Code.wp_bind, wp_mtdErase indexRange,
    Code.wp_get]
  refine ⟨safe _, safe _, safe _, safe _, ?_⟩
  have erased : ((state.nand.erase g.layoutEnd).eraseRange (g.layoutEnd + 1)
      g.cfgLogBlockCount).erase g.layoutEnd =
        state.nand.eraseRange g.layoutEnd g.cfgLogBlockCount := by
    rw [Nand.eraseRange_erase _ indexRange]
    funext block page
    by_cases same : block = g.layoutEnd
    · rw [same, Nand.erase_same, Nand.blank_eraseRange _ le_rfl indexRange]
    · rw [Nand.erase_other _ _ same]
  have blank := state.nand.blank_eraseRange le_rfl indexRange
  simp only [Ideal.erase, whole, erased]
  rw [wp_tableWrite ⟨indexRange, g.pagePerPhyBlock_pos⟩ (blank 0), table]
  simp only [if_true, Code.wp_bind, Code.wp_modify, Code.wp_pure,
    max_eq_right indexRange.le]
  exact ⟨safe _, safe _, safe _, safe _, meets⟩

/-! ## The anchor -/

/-- `ANCHOR_Format` erases the ring. -/
theorem wp_anchorFormatErase {first count : Nat}
    {post : Unit → UbiRam D → Ideal (UbiBuffer D) → Prop}
    (supported : g.Supported) (noBad : ram.anchorTable.NoBad)
    (inRange : first + count ≤ g.cfgLogBlockCount) (safe : ∀ after, crash after)
    (meets : post () ram ⟨state.nand.eraseRange first (first + count), state.polls⟩) :
    Code.wp (idealMachine g) crash (anchorFormatErase g (List.range' first count)) post ram
      state := by
  induction count generalizing first state with
  | zero =>
      rw [Nat.add_zero, Nand.eraseRange_empty] at meets
      simp only [List.range'_zero, anchorFormatErase, Code.wp_pure]
      exact ⟨safe _, meets⟩
  | succ count ih =>
      have here : first < g.cfgLogBlockCount := by omega
      have next : first + 1 + count = first + (count + 1) := by omega
      simp only [List.range'_succ, anchorFormatErase, Code.wp_bind,
        wp_anchorIsBadBlock noBad supported here, if_true, wp_mtdErase here, ne_eq,
        not_true_eq_false, if_false]
      refine ⟨safe _, safe _, safe _, ih (by omega) ?_⟩
      rw [Ideal.erase_nand, next, Nand.eraseRange_erase _ (by omega)]
      exact meets

/-- The first anchor. -/
def formatAnchor (anchor : AnchorTable) (totalDataBlock : Nat) : AnchorTable :=
  { anchor with
    totalDataBlock := totalDataBlock
    previousAnchorBlock := invalidBlock
    swlCurrentArea := 0
    oath := anchorOath
    version := anchorVersion }

/-- The memory after `ANCHOR_Format`. -/
def anchorFormatted (ram : UbiRam D) (totalDataBlock : Nat) : UbiRam D :=
  { ram with
    anchorBlock := Geometry.anchorFirstBlock
    anchorNextPage := 1
    anchorTable := formatAnchor ram.anchorTable totalDataBlock }

/-- The flash after `ANCHOR_Format`. -/
def Nand.formatRing (g : Geometry) (anchor : AnchorTable) (nand : Nand (UbiBuffer D)) :
    Nand (UbiBuffer D) :=
  (nand.eraseRange Geometry.anchorFirstBlock
    (Geometry.anchorFirstBlock + g.anchorBlockCount)).program Geometry.anchorFirstBlock 0
    (tablePage (.anchor anchor))

theorem ringChanged_formatRing (anchor : AnchorTable) (nand : Nand (UbiBuffer D)) :
    RingChanged g nand (nand.formatRing g anchor) := by
  have erased : RingChanged g nand (nand.eraseRange Geometry.anchorFirstBlock
      (Geometry.anchorFirstBlock + g.anchorBlockCount)) := fun block outside =>
    nand.eraseRange_row (by rw [inRing_iff] at outside; omega)
  exact erased.trans (RingChanged.program _ 0 _ (inRing_first g))

theorem ringSingle_formatRing (supported : g.Supported) (anchor : AnchorTable)
    (nand : Nand (UbiBuffer D)) :
    RingSingle g (nand.formatRing g anchor) Geometry.anchorFirstBlock 1 anchor := by
  have inRing := inRing_first g
  have blank : ∀ block, g.InRing block → (nand.eraseRange Geometry.anchorFirstBlock
      (Geometry.anchorFirstBlock + g.anchorBlockCount)).Blank block := fun block isRing =>
    nand.blank_eraseRange isRing.1 (inRing_iff.mp isRing).2
  refine ⟨inRing, TableLog.start (inRing.lt_blocks supported) (blank _ inRing) _,
    fun other isOther different => ?_⟩
  rw [Nand.formatRing, Nand.program_row _ _ _ different]
  exact blank other isOther 0

/-- `ANCHOR_Format` writes the first anchor. -/
theorem wp_anchorFormat {totalDataBlock : Nat}
    {post : Status → UbiRam D → Ideal (UbiBuffer D) → Prop}
    (supported : g.Supported) (pos : 0 < fuel) (noBad : ram.anchorTable.NoBad)
    (safe : ∀ after, crash after)
    (meets : post .success (anchorFormatted ram totalDataBlock)
      ⟨state.nand.formatRing g (formatAnchor ram.anchorTable totalDataBlock), state.polls⟩) :
    Code.wp (idealMachine g) crash (anchorFormat g fuel totalDataBlock) post ram state := by
  obtain ⟨rounds, rfl⟩ := Nat.exists_eq_succ_of_ne_zero pos.ne'
  have inRing := inRing_first g
  have inRange := inRing.lt_blocks supported
  have notFull : 0 ≠ g.pagePerPhyBlock := g.pagePerPhyBlock_pos.ne
  have ringEnd : Geometry.anchorFirstBlock + g.anchorBlockCount ≤ g.cfgLogBlockCount := by
    have := supported.reserve
    unfold Geometry.anchorFirstBlock
    omega
  have blank := state.nand.blank_eraseRange (le_refl Geometry.anchorFirstBlock)
    (inRing_iff.mp inRing).2
  simp only [anchorFormat, Code.wp_bind, Code.wp_modify]
  refine ⟨safe _, wp_anchorFormatErase supported (by exact noBad) ringEnd safe ?_⟩
  simp only [anchorUpdate, anchorUpdateLoop, Code.wp_bind, Code.wp_get, notFull, if_false,
    Code.wp_pure, ne_eq, not_true_eq_false]
  refine ⟨safe _, safe _, safe _, ?_⟩
  rw [wp_tableWrite ⟨inRange, g.pagePerPhyBlock_pos⟩ (blank 0)]
  simp only [if_true, Bool.false_eq_true, if_false, Code.wp_modify, Code.wp_bind, Code.wp_pure]
  exact ⟨safe _, safe _, safe _, safe _, meets⟩

/-! ## The whole format -/

/-- The tables that the format writes. -/
def formatView (g : Geometry) : UbiView where
  free := g.formatFree
  tables := g.formatTable
  next _ := 1

theorem rawEntry_format (supported : g.Supported) {block : Nat} (isBlock : block < g.ubiCapacity) :
    rawEntry g (formatView g) block =
      ⟨g.areaStart (g.areaIndex block) + g.blockOffsetArea block, (0 : Nat)⟩ := by
  have inside := (lt_areaBlocks_iff supported (areaIndex_lt supported isBlock)).mpr isBlock
  exact if_pos inside

/-- The blocks of the layout, area by area, and the rest. -/
theorem owned_format (supported : g.Supported) {table : IndexTable}
    (index : ∀ area < g.areaCount, table.areaIndex area = ⟨g.areaTableBlock area, (0 : Nat)⟩)
    (plr : table.areaUpdatePlr.logicalBlock = invalidBlock) :
    Owned (Role.Valid g) (Usable g) (holder g table (formatView g) g.layoutEnd)
      (g.formatFree.map BlockEc.block) := by
  have bounds := layoutEnd_bounds supported
  have reserve := supported.reserve
  have data : ∀ block < g.ubiCapacity, holder g table (formatView g) g.layoutEnd (.data block) =
      g.areaStart (g.areaIndex block) + g.blockOffsetArea block := by
    intro block isBlock
    have proper := logBlock_proper supported isBlock
    simp only [holder, mapEntry, plr, if_neg proper.symm, rawEntry_format supported isBlock]
  have area : ∀ number < g.areaCount,
      holder g table (formatView g) g.layoutEnd (.area number) =
        g.areaStart number + g.areaBlocks number := by
    intro number isArea
    simp only [holder, index number isArea]
    rfl
  have inside : ∀ block < g.ubiCapacity,
      g.blockOffsetArea block < g.areaBlocks (g.areaIndex block) := fun block isBlock =>
    (lt_areaBlocks_iff supported (areaIndex_lt supported isBlock)).mpr isBlock
  have first : ∀ number, g.dataFirstBlock ≤ g.areaStart number := fun _ => Nat.le_add_right _ _
  -- every block of an area comes before the index block
  have below : ∀ role, Role.Valid g role → role ≠ .index →
      g.dataFirstBlock ≤ holder g table (formatView g) g.layoutEnd role ∧
        holder g table (formatView g) g.layoutEnd role < g.layoutEnd := by
    intro role isValid notIndex
    cases role with
    | data block =>
        have := areaTableBlock_lt (areaIndex_lt supported isValid)
        have := inside block isValid
        have := first (g.areaIndex block)
        rw [data block isValid]
        unfold Geometry.areaTableBlock at *
        omega
    | area number =>
        have := areaTableBlock_lt isValid
        have := first number
        rw [area number isValid]
        unfold Geometry.areaTableBlock at *
        omega
    | index => exact absurd rfl notIndex
  have isFree : ∀ block, block ∈ g.formatFree.map BlockEc.block ↔
      g.layoutEnd < block ∧ block < g.cfgLogBlockCount := by
    intro block
    simp only [Geometry.formatFree, List.map_map, List.mem_map, List.mem_range'_1,
      Function.comp_apply, exists_eq_right]
    omega
  have indexIs : holder g table (formatView g) g.layoutEnd .index = g.layoutEnd := rfl
  have firstLe : g.dataFirstBlock ≤ g.layoutEnd := by
    have := supported.data
    omega
  refine ⟨fun role isValid => ?_, fun block free => ?_,
    fun role other isValid otherValid same => ?_, fun role isValid free => ?_, ?_⟩
  · by_cases isIndex : role = .index
    · rw [isIndex, indexIs]
      exact ⟨firstLe, by omega⟩
    · obtain ⟨lower, upper⟩ := below role isValid isIndex
      exact ⟨lower, by omega⟩
  · have := (isFree block).mp free
    exact ⟨by omega, by omega⟩
  · by_cases isIndex : role = .index
    · by_cases otherIndex : other = .index
      · rw [isIndex, otherIndex]
      · have := (below other otherValid otherIndex).2
        rw [← same, isIndex, indexIs] at this
        omega
    · by_cases otherIndex : other = .index
      · have := (below role isValid isIndex).2
        rw [same, otherIndex, indexIs] at this
        omega
      · cases role with
        | data block =>
            have le := areaBlocks_le g (g.areaIndex block)
            have offset := inside block isValid
            cases other with
            | data block' =>
                have le' := areaBlocks_le g (g.areaIndex block')
                have offset' := inside block' otherValid
                rw [data block isValid, data block' otherValid] at same
                obtain ⟨areas, offsets⟩ := area_ext (by omega) (by omega) same
                rw [logBlock_ext areas offsets]
            | area number =>
                rw [data block isValid, area number otherValid] at same
                obtain ⟨areas, offsets⟩ := area_ext (by omega) (areaBlocks_le g number) same
                rw [areas] at offset
                omega
            | index => exact absurd rfl otherIndex
        | area number =>
            cases other with
            | data block' =>
                have le' := areaBlocks_le g (g.areaIndex block')
                have offset' := inside block' otherValid
                rw [area number isValid, data block' otherValid] at same
                obtain ⟨areas, offsets⟩ := area_ext (areaBlocks_le g number) (by omega) same
                rw [← areas] at offset'
                omega
            | area number' =>
                rw [area number isValid, area number' otherValid] at same
                rw [(area_ext (areaBlocks_le g number) (areaBlocks_le g number') same).1]
            | index => exact absurd rfl otherIndex
        | index => exact absurd rfl isIndex
  · have above := (isFree _).mp free
    by_cases isIndex : role = .index
    · rw [isIndex, indexIs] at above
      omega
    · have := (below role isValid isIndex).2
      omega
  · simp only [Geometry.formatFree, List.map_map]
    exact (List.nodup_range').map fun _ _ same => same

/-- The tables of the format map every logical block to a blank block. -/
theorem maps_format {nand : Nand (UbiBuffer D)} (supported : g.Supported)
    (laidOut : LaidOut g nand ram g.areaCount) :
    Maps g nand (formatIndex g ram) g.layoutEnd (formatView g) (fun _ _ => none) := by
  have plr : (formatIndex g ram).areaUpdatePlr.logicalBlock = invalidBlock := rfl
  have index : ∀ area < g.areaCount,
      (formatIndex g ram).areaIndex area = ⟨g.areaTableBlock area, (0 : Nat)⟩ := laidOut.index
  have owned := owned_format supported index plr
  have entries : ∀ block < g.ubiCapacity, mapEntry g (formatIndex g ram) (formatView g) block =
      rawEntry g (formatView g) block := by
    intro block isBlock
    exact if_neg fun same => logBlock_proper supported isBlock (same.symm.trans plr)
  have bounds := layoutEnd_bounds supported
  have reserve := supported.reserve
  refine
    { free := freeList_formatIndex supported ram
      many := ?_
      areas := fun area isArea => ?_
      areaEc := fun area isArea => ?_
      mapEc := fun block isBlock => ?_
      unused := fun block outside isArea => ?_
      owned := owned
      content := fun block isBlock page => ?_
      announced := .inl plr }
  · have two := g.two_le_anchorBlockCount
    simp only [formatView, Geometry.formatFree, List.length_map, List.length_range']
    omega
  · rw [index area isArea]
    exact laidOut.logs area isArea
  · rw [index area isArea]
    exact WithTop.coe_ne_top
  · rw [entries block isBlock, rawEntry_format supported isBlock]
    exact WithTop.coe_ne_top
  · have outer := (lt_areaBlocks_iff supported isArea).not.mpr (by omega)
    exact if_neg outer
  · have isArea := areaIndex_lt supported isBlock
    rw [entries block isBlock, rawEntry_format supported isBlock]
    exact laidOut.blank _ isArea _ ((lt_areaBlocks_iff supported isArea).mpr isBlock) page

/-- Memory and flash after the format. -/
def formatted (g : Geometry) (ram : UbiRam D) (nand : Nand (UbiBuffer D)) :
    UbiRam D × Nand (UbiBuffer D) :=
  let areas := layOut g g.areaCount 0 (ram, nand)
  let indexed := indexFormatted g areas.1
  (anchorFormatted indexed g.ubiCapacity,
    (areas.2.formatIndexBlock g areas.1).formatRing g
      (formatAnchor indexed.anchorTable g.ubiCapacity))

theorem formatted_diceHold (ram : UbiRam D) (nand : Nand (UbiBuffer D)) :
    (formatted g ram nand).1.diceHold = ram.diceHold :=
  (layOut_kept (g := g) (ram, nand) g.areaCount 0).2

/-- The format leaves an empty store for the mount. -/
theorem recoverable_formatted (supported : g.Supported) (noBad : ram.anchorTable.NoBad)
    (nand : Nand (UbiBuffer D)) :
    ∃ place, Recoverable g place (fun _ _ => none) (formatted g ram nand).2 := by
  have bounds := layoutEnd_bounds supported
  have reserve := supported.reserve
  have data := supported.data
  have indexRange : g.layoutEnd < g.cfgLogBlockCount := by omega
  have start : LaidOut g nand ram 0 :=
    ⟨fun _ impossible => by omega, fun _ impossible => by omega, fun _ impossible => by omega⟩
  have laidOut := LaidOut.layOut supported (ram, nand) start
    (show 0 + g.areaCount ≤ g.areaCount by omega)
  have kept := (layOut_kept (g := g) (ram, nand) g.areaCount 0).1
  simp only [Nat.zero_add] at laidOut
  unfold formatted
  generalize layOut g g.areaCount 0 (ram, nand) = areas at *
  have outside : ∀ block, g.dataFirstBlock ≤ block → ¬ g.InRing block := by
    intro block behind inRing
    have := inRing.lt_data
    omega
  have changed := ringChanged_formatRing (g := g)
    (formatAnchor (indexFormatted g areas.1).anchorTable g.ubiCapacity)
    (areas.2.formatIndexBlock g areas.1)
  have ring := ringSingle_formatRing supported
    (formatAnchor (indexFormatted g areas.1).anchorTable g.ubiCapacity)
    (areas.2.formatIndexBlock g areas.1)
  simp only at changed ring ⊢
  generalize (areas.2.formatIndexBlock g areas.1).formatRing g _ = nand' at *
  -- neither the index nor the anchor touches the areas
  have rows : ∀ block, g.dataFirstBlock ≤ block → block < g.layoutEnd →
      nand' block = areas.2 block := by
    intro block behind before
    rw [changed block (outside block behind), Nand.formatIndexBlock,
      Nand.program_row _ _ _ before.ne, Nand.eraseRange_row _ (.inl before)]
  have first : ∀ area, g.dataFirstBlock ≤ g.areaStart area := fun _ => Nat.le_add_right _ _
  have laidOut' : LaidOut g nand' areas.1 g.areaCount := by
    refine ⟨fun area isArea => ?_, laidOut.index, fun area isArea offset used page => ?_⟩
    · exact (laidOut.logs area isArea).frame (rows _
        ((first area).trans (Nat.le_add_right _ _)) (areaTableBlock_lt isArea))
    · have := areaTableBlock_lt isArea
      unfold Geometry.areaTableBlock at this
      rw [rows _ ((first area).trans (Nat.le_add_right _ _)) (by omega)]
      exact laidOut.blank area isArea offset used page
  have log : TableLog g (areas.2.formatIndexBlock g areas.1) g.layoutEnd 1
      (.index (formatIndex g areas.1)) :=
    TableLog.start indexRange (Nand.blank_eraseRange _ le_rfl indexRange) _
  refine ⟨_, g.layoutEnd, 1, formatIndex g areas.1, formatView g, ⟨?_, ?_⟩,
    maps_format supported laidOut', fun announced => absurd rfl announced, rfl⟩
  · exact log.frame (changed _ (outside _ (by omega)))
  · refine .single ⟨⟨rfl, supported.areaCount_pos, rfl, rfl, ?_⟩, .inl ⟨rfl, ?_⟩⟩ ring
    · change areas.1.anchorTable.NoBad
      rw [kept]
      exact noBad
    · exact WithTop.coe_ne_top

/-- The device holds no anchor, or one that leads to the tables of an earlier
format. -/
def Formattable (g : Geometry) (nand : Nand (UbiBuffer D)) : Prop :=
  (∀ block, g.InRing block → nand block 0 = none) ∨
    ∃ place store, Recoverable g place store nand

/-- `UBI_Format` behind the search for bad blocks. -/
theorem wp_ubiFormat_layout {post : Status → UbiRam D → Ideal (UbiBuffer D) → Prop}
    (supported : g.Supported) (pos : 0 < fuel) (noBad : ram.anchorTable.NoBad)
    (safe : ∀ after, crash after)
    (meets : post .success (formatted g ram state.nand).1
      ⟨(formatted g ram state.nand).2, state.polls⟩) :
    Code.wp (idealMachine g) crash
      (do
        let (fmtCurrentBlock, totalDataBlock) ←
          ubiFormatAreas g (g.dataBlockCount + 1) g.dataFirstBlock 0 0
        let fmtCurrentBlock ←
          if fmtCurrentBlock ≠ invalidBlock then
            indexFormat g g.cfgLogBlockCount fmtCurrentBlock
          else pure fmtCurrentBlock
        if fmtCurrentBlock ≠ invalidBlock then do
          Code.assert (fmtCurrentBlock = g.cfgLogBlockCount)
          anchorFormat g fuel totalDataBlock
        else do
          let _ ← anchorFormat g fuel invalidBlock
          pure .ubiFormatError) post ram state := by
  have bounds := layoutEnd_bounds supported
  have reserve := supported.reserve
  have data := supported.data
  have small := supported.blocksSmall
  have proper : g.layoutEnd ≠ invalidBlock := by rw [invalidBlock]; omega
  have properEnd : g.cfgLogBlockCount ≠ invalidBlock := small.ne
  have start : g.dataFirstBlock = g.areaStart 0 := by
    rw [Geometry.areaStart, Nat.zero_mul, Nat.add_zero]
  have none : (0 : Nat) = 0 * g.cfgPhyBlockPerArea := (Nat.zero_mul _).symm
  have areas : g.areaCount ≤ g.dataBlockCount + 1 := by
    have last := areaStart_lt supported (Nat.sub_lt supported.areaCount_pos Nat.one_pos)
    have := Nat.le_mul_of_pos_right (g.areaCount - 1)
      (show 0 < g.cfgPhyBlockPerArea + 1 by omega)
    unfold Geometry.areaStart at last
    omega
  have noBad₁ : (layOut g g.areaCount 0 (ram, state.nand)).1.anchorTable.NoBad := by
    rw [(layOut_kept (g := g) (ram, state.nand) g.areaCount 0).1]
    exact noBad
  rw [start, Code.wp_bind]
  nth_rewrite 3 [none]
  refine wp_ubiFormatAreas supported noBad supported.areaCount_pos (by omega) safe ?_
  simp only [proper, ne_eq, not_false_eq_true, if_true, Code.wp_bind, Nat.sub_zero]
  refine wp_indexFormat supported noBad₁ safe ?_
  simp only [properEnd, not_false_eq_true, if_true, Code.wp_bind, Code.wp_assert]
  exact ⟨trivial, safe _, wp_anchorFormat supported pos (by exact noBad₁) safe meets⟩

/-- `UBI_Format` leaves an empty store for the mount. -/
theorem wp_ubiFormat {post : Status → UbiRam D → Ideal (UbiBuffer D) → Prop}
    (supported : g.Supported) (pos : 0 < fuel) (formattable : Formattable g state.nand)
    (safe : ∀ after, crash after)
    (meets : ∀ nand ram', (∃ place, Recoverable g place (fun _ _ => none) nand) →
      ram'.diceHold = ram.diceHold → post .success ram' ⟨nand, state.polls⟩) :
    Code.wp (idealMachine g) crash (ubiFormat g fuel) post ram state := by
  simp only [ubiFormat]
  rw [Code.wp_bind]
  rcases formattable with blank | ⟨place, store, indexBlock, next, table, view, ⟨log, ring⟩, -⟩
  · refine wp_anchorInit_blank supported blank (safe _) ?_
    simp only [reduceCtorEq, ne_eq, not_false_eq_true, if_true]
    rw [Code.wp_bind, List.range_eq_range']
    exact wp_ubiDetectBadBlocks (by omega) safe
      (wp_ubiFormat_layout supported pos (fun _ => rfl) safe
        (meets _ _ (recoverable_formatted supported (fun _ => rfl) _)
          (formatted_diceHold _ _)))
  · have proper : g.ubiCapacity ≠ invalidBlock := by
      have := ubiCapacity_le supported
      have := supported.blocksSmall
      rw [invalidBlock]
      omega
    refine wp_anchorInit supported ring (fun anchor good => good.1) proper (fun _ _ _ => safe _) ?_
    intro nand block page held anchor _ _ _ good _
    simp only [ne_eq, not_true_eq_false, if_false]
    exact wp_ubiFormat_layout supported pos good.1.noBad safe
      (meets _ _ (recoverable_formatted supported good.1.noBad _) (formatted_diceHold _ _))

/-- `UBI_Format` of a device on which nothing is programmed. -/
theorem ubiFormat_blank (supported : g.Supported) (pos : 0 < fuel) (ram : UbiRam D)
    (polls : List Bool) :
    ((ubiFormat g fuel).run ram).exec (idealMachine g) ⟨fun _ _ => none, polls⟩ =
      .ok ((.success,
        (formatted g { ram with anchorTable := .blank, indexTable := .blank }
          fun _ _ => none).1),
        ⟨(formatted g { ram with anchorTable := .blank, indexTable := .blank }
          fun _ _ => none).2, polls⟩) := by
  have erased : Nand.eraseRange (fun _ _ => none : Nand (UbiBuffer D)) 0
      (0 + g.cfgLogBlockCount) = fun _ _ => none := by
    funext block page
    unfold Nand.eraseRange
    split <;> rfl
  have run : Code.wp (idealMachine g) (fun _ => True) (ubiFormat g fuel)
      (fun status ram' after =>
        status = .success ∧
        ram' = (formatted g { ram with anchorTable := .blank, indexTable := .blank }
          fun _ _ => none).1 ∧
        after = ⟨(formatted g { ram with anchorTable := .blank, indexTable := .blank }
          fun _ _ => none).2, polls⟩) ram ⟨fun _ _ => none, polls⟩ := by
    simp only [ubiFormat]
    rw [Code.wp_bind]
    refine wp_anchorInit_blank supported (fun _ _ => rfl) trivial ?_
    simp only [reduceCtorEq, ne_eq, not_false_eq_true, if_true]
    rw [Code.wp_bind, List.range_eq_range']
    refine wp_ubiDetectBadBlocks (by omega) (fun _ => trivial) ?_
    simp only [erased]
    exact wp_ubiFormat_layout supported pos (fun _ => rfl) (fun _ => trivial) ⟨rfl, rfl, rfl⟩
  obtain ⟨⟨status, ram'⟩, after, exec, isSuccess, isRam, isAfter⟩ := Prog.exec_of_wp run
  rw [exec]
  exact congrArg Except.ok (Prod.ext (Prod.ext isSuccess isRam) isAfter)

end Specs

end OpenNfm
