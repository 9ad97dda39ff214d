import OpenNfm.Ubi.FactoryBlocks

/-!
# The format and the marked blocks

No function that lays out the tables erases, programs or lists a block of the bad block
table, whatever the device answers.
-/

namespace OpenNfm

open OpenNfm.Program

/-! ## The parts of the format -/

section Parts

variable (g : Geometry) (fuel : Nat) {D : Type}

/-- The end of `AREA_Format`, behind the write of the first table. -/
def areaFormatEnd (area block : Nat) (ret : Status) : Ubi D Nat :=
  if ret = .success then do
    modify fun ram =>
      { ram with
        indexTable :=
          { ram.indexTable with
            areaIndex := Function.update ram.indexTable.areaIndex area ⟨block, (0 : Nat)⟩ }
        areaOffsetTable := Function.update ram.areaOffsetTable area 0 }
    pure (block + 1)
  else do
    anchorLogBadBlock g block
    pure invalidBlock

/-- `AREA_Format` from the choice of the area block on. -/
def areaFormatWrite (area : Nat) (table : AreaTable) (block : Nat) (ret : Status) : Ubi D Nat := do
  let (ret, block) ←
    if ret = .success then do
      let block ← areaFormatSkip g (g.anchorBadblockCount + 1) block
      let ret ← mtdErase block
      pure (ret, block)
    else pure (ret, block)
  let ret ← if ret = .success then tableWrite block 0 (.area table) else pure ret
  areaFormatEnd g area block ret

theorem areaFormat_eq (blockCount fmtCurrentBlock area : Nat) :
    (areaFormat g blockCount fmtCurrentBlock area : Ubi D Nat) = (do
      modify fun ram => { ram with cachedAreaTable := .blank }
      let (ret, fmtCurrentBlock, table) ←
        areaFormatFill g blockCount (g.cfgLogBlockCount + 1) 0 fmtCurrentBlock .success .blank
      let table : AreaTable := fun i =>
        if blockCount ≤ i ∧ i < g.cfgPhyBlockPerArea then .invalid else table i
      modify fun ram => { ram with cachedAreaTable := table }
      areaFormatWrite g area table fmtCurrentBlock ret) :=
  rfl

/-- The end of `INDEX_Format`, behind the write of the first table. -/
def indexFormatEnd (indexBlock next : Nat) (ret : Status) : Ubi D Nat :=
  if ret = .success then do
    modify fun ram =>
      { ram with anchorTable :=
        { ram.anchorTable with
          indexNewBlock := indexBlock
          indexNewEc := (0 : Nat)
          indexOldBlock := invalidBlock
          indexOldEc := invalidEc } }
    pure next
  else do
    anchorLogBadBlock g indexBlock
    pure invalidBlock

/-- `INDEX_Format` from the erase of the index block on. -/
def indexFormatWrite (indexBlock next : Nat) (ret : Status) : Ubi D Nat := do
  let ret ← if ret = .success then mtdErase indexBlock else pure ret
  let ram ← get
  let ret ← if ret = .success then tableWrite indexBlock 0 (.index ram.indexTable) else pure ret
  indexFormatEnd g indexBlock next ret

theorem indexFormat_eq (totalBlock fmtCurrentBlock : Nat) :
    (indexFormat g totalBlock fmtCurrentBlock : Ubi D Nat) = (do
      modify fun ram =>
        { ram with indexTable :=
          { ram.indexTable with areaUpdatePlr := ⟨invalidBlock, invalidBlock, invalidEc⟩ } }
      let ram ← get
      let (ret, indexBlock, count, free) ←
        indexFormatFill g (List.range' fmtCurrentBlock (totalBlock - fmtCurrentBlock)) .success
          invalidBlock 0 ram.indexTable.free
      let free : Nat → BlockEc := fun i =>
        if count ≤ i ∧ i < g.freeBlockCount then .invalid else free i
      modify fun ram => { ram with indexTable := { ram.indexTable with free := free } }
      if indexBlock = invalidBlock then Code.assert (ret ≠ .success)
      let ret ←
        if ret = .success then do
          let bad ← anchorIsBadBlock g indexBlock
          pure (if bad then .badblock else ret)
        else pure ret
      indexFormatWrite g indexBlock (max fmtCurrentBlock totalBlock) ret) :=
  rfl

/-- `UBI_Format` behind the search for bad blocks. -/
def ubiFormatLayout : Ubi D Status := do
  let (fmtCurrentBlock, totalDataBlock) ←
    ubiFormatAreas g (g.dataBlockCount + 1) g.dataFirstBlock 0 0
  let fmtCurrentBlock ←
    if fmtCurrentBlock ≠ invalidBlock then
      indexFormat g g.cfgLogBlockCount fmtCurrentBlock
    else pure fmtCurrentBlock
  if fmtCurrentBlock ≠ invalidBlock then do
    Code.assert (fmtCurrentBlock = g.cfgLogBlockCount)
    anchorFormat g fuel totalDataBlock
  else do
    let _ ← anchorFormat g fuel invalidBlock
    pure .ubiFormatError

theorem ubiFormat_eq : (ubiFormat g fuel : Ubi D Status) = (do
    let ret ← anchorInit g
    if ret ≠ .success then ubiDetectBadBlocks g (List.range g.cfgLogBlockCount)
    ubiFormatLayout g fuel) :=
  rfl

end Parts

/-! ## Tables that spare blocks -/

section Spares

variable {D : Type} (marked : Nat → Prop)

/-- No entry of the table names a marked block. -/
def AreaTable.Spares (table : AreaTable) : Prop :=
  ∀ i, ¬ marked (table i).block

/-- No area block and no free block is marked. -/
def IndexTable.Spares (table : IndexTable) : Prop :=
  (∀ area, ¬ marked (table.areaIndex area).block) ∧ ∀ i, ¬ marked (table.free i).block

/-- No marked block is in use by this page.  An anchor without data blocks only keeps the
bad block table. -/
def UbiBuffer.Spares : UbiBuffer D → Prop
  | .area table => table.Spares marked
  | .index table => table.Spares marked
  | .anchor table => table.totalDataBlock ≠ invalidBlock → ¬ marked table.indexNewBlock
  | _ => True

/-- The call neither erases nor programs a marked block, and programs no table that uses one. -/
def MtdOp.Spares : MtdOp (UbiBuffer D) → Prop
  | .erase block => ¬ marked block
  | .program block _ content _ => ¬ marked block ∧ content.Spares marked
  | _ => True

/-- All marked blocks but the code block are in the bad block table, and the index table spares
them. -/
structure Guarded (g : Geometry) (ram : UbiRam D) : Prop where
  listed : ∀ block, marked block → block ≠ 0 →
    isBadBlock g ram.anchorTable.badBlockTable block = true
  spared : ram.indexTable.Spares marked

end Spares

section Layout

variable {g : Geometry} {D : Type} {marked : Nat → Prop} {used : Prop} {ram : UbiRam D}

open Code

/-- Logging a block keeps the marked blocks in the table. -/
theorem Guarded.log (valid : ∀ block, marked block → block ≠ invalidBlock)
    (guarded : Guarded marked g ram) (block : Nat) :
    Guarded marked g { ram with anchorTable :=
      { ram.anchorTable with
        badBlockTable := logBadBlock g ram.anchorTable.badBlockTable block } } where
  listed other isMarked notCode :=
    isBadBlock_mono (valid other isMarked) (guarded.listed other isMarked notCode)
  spared := guarded.spared

/-- A table that spares the marked blocks gets an entry that is not marked. -/
theorem spares_update {table : Nat → BlockEc} {i : Nat} {entry : BlockEc}
    (unmarked : ¬ marked entry.block) (spared : ∀ j, ¬ marked (table j).block) (j : Nat) :
    ¬ marked (Function.update table i entry j).block := by
  by_cases here : j = i
  · subst here
    rwa [Function.update_self]
  · rw [Function.update_of_ne here]
    exact spared j

theorem everywhere_mtdErase {block : Nat} {post : Status → UbiRam D → Prop}
    (unmarked : ¬ marked block) (next : ∀ ret, post ret ram) :
    Everywhere (MtdOp.Spares marked) (mtdErase block : Ubi D Status) post ram :=
  Everywhere.perform.mpr ⟨unmarked, next⟩

theorem everywhere_tableWrite {block page : Nat} {buffer : UbiBuffer D}
    {post : Status → UbiRam D → Prop} (unmarked : ¬ marked block) (spared : buffer.Spares marked)
    (next : ∀ ret, post ret ram) :
    Everywhere (MtdOp.Spares marked) (tableWrite block page buffer) post ram := by
  unfold tableWrite
  rw [Everywhere.bind]
  refine Everywhere.perform.mpr ⟨⟨unmarked, spared⟩, fun ret => ?_⟩
  split
  · exact Everywhere.perform.mpr ⟨trivial, next⟩
  · exact Everywhere.pure.mpr (next ret)

/-- A block that is not in the bad block table is erased, and logged when that fails. -/
theorem everywhere_eraseGood {α : Type} {block : Nat} {rest : Status → Ubi D α}
    {post : α → UbiRam D → Prop} (valid : ∀ block, marked block → block ≠ invalidBlock)
    (guarded : Guarded marked g ram) (notCode : block ≠ 0)
    (good : isBadBlock g ram.anchorTable.badBlockTable block = false)
    (next : ∀ ret ram', Guarded marked g ram' → ¬ marked block →
      Everywhere (MtdOp.Spares marked) (rest ret) post ram') :
    Everywhere (MtdOp.Spares marked) (do
      let ret ← mtdErase block
      if ret ≠ .success then do
        anchorLogBadBlock g block
        rest ret
      else rest ret) post ram := by
  have unmarked : ¬ marked block := by
    intro isMarked
    rw [guarded.listed block isMarked notCode] at good
    exact Bool.noConfusion good
  rw [Everywhere.bind]
  refine everywhere_mtdErase unmarked fun ret => ?_
  split
  · rw [Everywhere.bind]
    exact Everywhere.modifies.mpr (next ret _ (guarded.log valid block) unmarked)
  · exact next ret ram guarded unmarked

theorem everywhere_areaFormatFill (valid : ∀ block, marked block → block ≠ invalidBlock)
    {blockCount steps i fmtCurrentBlock : Nat} {ret : Status} {table : AreaTable}
    (guarded : Guarded marked g ram) (notCode : 0 < fmtCurrentBlock)
    (spared : table.Spares marked) :
    Everywhere (MtdOp.Spares marked) (areaFormatFill g blockCount steps i fmtCurrentBlock ret table)
      (fun result ram' => Guarded marked g ram' ∧ 0 < result.2.1 ∧
        result.2.2.Spares marked) ram := by
  induction steps generalizing i fmtCurrentBlock ret table ram with
  | zero => exact Everywhere.halt
  | succ steps ih =>
      unfold areaFormatFill
      split
      · split
        · simp only [anchorIsBadBlock, Everywhere.bind, Everywhere.get, Everywhere.pure]
          split
          · exact ih guarded (Nat.succ_pos _) spared
          · rename_i good
            refine everywhere_eraseGood valid guarded notCode.ne' (by simpa using good)
              fun ret ram' guarded' unmarked => ?_
            rw [pure_bind]
            split
            · exact ih guarded' (Nat.succ_pos _) (spares_update unmarked spared)
            · exact ih guarded' (Nat.succ_pos _) spared
        · exact Everywhere.pure.mpr ⟨guarded, notCode, spared⟩
      · exact Everywhere.pure.mpr ⟨guarded, notCode, spared⟩

theorem everywhere_areaFormatSkip {steps block : Nat} {post : Nat → UbiRam D → Prop}
    (next : ∀ other, block ≤ other → isBadBlock g ram.anchorTable.badBlockTable other = false →
      post other ram) :
    Everywhere (MtdOp.Spares marked) (areaFormatSkip g steps block) post ram := by
  induction steps generalizing block with
  | zero => exact Everywhere.halt
  | succ steps ih =>
      unfold areaFormatSkip
      simp only [anchorIsBadBlock, Everywhere.bind, Everywhere.get, Everywhere.pure]
      split
      · exact ih fun other later => next other (by omega)
      · rename_i good
        exact next block le_rfl (by simpa using good)

theorem everywhere_areaFormatEnd (valid : ∀ block, marked block → block ≠ invalidBlock)
    {area block : Nat} (guarded : Guarded marked g ram) (ret : Status)
    (unmarked : ret = .success → ¬ marked block) :
    Everywhere (MtdOp.Spares marked) (areaFormatEnd g area block ret)
      (fun next ram' => Guarded marked g ram' ∧ 0 < next) ram := by
  unfold areaFormatEnd
  split
  · rename_i good
    rw [Everywhere.bind]
    exact Everywhere.modifies.mpr (Everywhere.pure.mpr
      ⟨⟨guarded.listed, spares_update (unmarked good) guarded.spared.1, guarded.spared.2⟩,
        Nat.succ_pos _⟩)
  · rw [Everywhere.bind]
    exact Everywhere.modifies.mpr (Everywhere.pure.mpr ⟨guarded.log valid block, by decide⟩)

theorem everywhere_areaFormatWrite (valid : ∀ block, marked block → block ≠ invalidBlock)
    {area block : Nat} {table : AreaTable} {ret : Status} (guarded : Guarded marked g ram)
    (notCode : 0 < block) (spared : table.Spares marked) :
    Everywhere (MtdOp.Spares marked) (areaFormatWrite g area table block ret)
      (fun next ram' => Guarded marked g ram' ∧ 0 < next) ram := by
  unfold areaFormatWrite
  split
  · simp only [Everywhere.bind]
    refine everywhere_areaFormatSkip fun other later good => ?_
    have unmarked : ¬ marked other := by
      intro isMarked
      rw [guarded.listed other isMarked (by omega)] at good
      exact Bool.noConfusion good
    refine everywhere_mtdErase unmarked fun ret => ?_
    simp only [Everywhere.pure]
    split
    · rw [Everywhere.bind]
      exact everywhere_tableWrite unmarked spared fun ret =>
        everywhere_areaFormatEnd valid guarded ret fun _ => unmarked
    · rw [pure_bind]
      exact everywhere_areaFormatEnd valid guarded ret fun _ => unmarked
  · rename_i wrong
    rw [pure_bind]
    dsimp only
    rw [if_neg wrong, pure_bind]
    exact everywhere_areaFormatEnd valid guarded ret fun good => absurd good wrong

theorem everywhere_areaFormat (valid : ∀ block, marked block → block ≠ invalidBlock)
    {blockCount fmtCurrentBlock area : Nat} (guarded : Guarded marked g ram)
    (notCode : 0 < fmtCurrentBlock) :
    Everywhere (MtdOp.Spares marked) (areaFormat g blockCount fmtCurrentBlock area)
      (fun next ram' => Guarded marked g ram' ∧ 0 < next) ram := by
  have noBlock : ¬ marked invalidBlock := fun isMarked => valid _ isMarked rfl
  rw [areaFormat_eq]
  simp only [Everywhere.bind, Everywhere.modifies]
  refine Everywhere.mono (everywhere_areaFormatFill valid ⟨guarded.listed, guarded.spared⟩ notCode
    fun _ => noBlock) ?_
  rintro ⟨ret, next, table⟩ ram' ⟨guarded', notCode', spared⟩
  refine everywhere_areaFormatWrite valid ⟨guarded'.listed, guarded'.spared⟩ notCode' fun i => ?_
  dsimp only
  split
  · exact noBlock
  · exact spared i

theorem everywhere_ubiFormatAreas (valid : ∀ block, marked block → block ≠ invalidBlock)
    {rounds fmtCurrentBlock area totalDataBlock : Nat} (guarded : Guarded marked g ram)
    (notCode : 0 < fmtCurrentBlock) :
    Everywhere (MtdOp.Spares marked)
      (ubiFormatAreas g rounds fmtCurrentBlock area totalDataBlock)
      (fun result ram' => Guarded marked g ram' ∧ 0 < result.1) ram := by
  induction rounds generalizing fmtCurrentBlock area totalDataBlock ram with
  | zero => exact Everywhere.halt
  | succ rounds ih =>
      unfold ubiFormatAreas
      rw [Everywhere.bind, Everywhere.assert]
      intro _
      rw [Everywhere.bind]
      refine (everywhere_areaFormat valid guarded notCode).mono ?_
      rintro next ram' ⟨guarded', notCode'⟩
      split
      · split
        · exact ih guarded' notCode'
        · exact Everywhere.pure.mpr ⟨guarded', notCode'⟩
      · exact Everywhere.pure.mpr ⟨guarded', notCode'⟩

/-- The index block is good, and so are the free blocks. -/
theorem everywhere_indexFormatFill (valid : ∀ block, marked block → block ≠ invalidBlock)
    {blocks : List Nat} {ret : Status} {indexBlock count : Nat} {free : Nat → BlockEc}
    (guarded : Guarded marked g ram) (notCode : ∀ block ∈ blocks, block ≠ 0)
    (unmarked : ¬ marked indexBlock) (spared : ∀ i, ¬ marked (free i).block) :
    Everywhere (MtdOp.Spares marked) (indexFormatFill g blocks ret indexBlock count free)
      (fun result ram' => Guarded marked g ram' ∧ ¬ marked result.2.1 ∧
        ∀ i, ¬ marked (result.2.2.2 i).block) ram := by
  induction blocks generalizing ret indexBlock count free ram with
  | nil => exact Everywhere.pure.mpr ⟨guarded, unmarked, spared⟩
  | cons block rest ih =>
      have notCodeRest : ∀ other ∈ rest, other ≠ 0 :=
        fun other inside => notCode other (List.mem_cons_of_mem _ inside)
      unfold indexFormatFill
      simp only [anchorIsBadBlock, Everywhere.bind, Everywhere.get, Everywhere.pure]
      split
      · exact ih guarded notCodeRest unmarked spared
      · rename_i good
        refine everywhere_eraseGood valid guarded (notCode block List.mem_cons_self)
          (by simpa using good) fun ret ram' guarded' unmarkedHere => ?_
        rw [pure_bind]
        split
        · split
          · exact ih guarded' notCodeRest unmarkedHere spared
          · rw [Everywhere.bind, Everywhere.assert]
            exact fun _ => ih guarded' notCodeRest unmarked (spares_update unmarkedHere spared)
        · exact ih guarded' notCodeRest unmarked spared

theorem everywhere_indexFormatEnd (valid : ∀ block, marked block → block ≠ invalidBlock)
    {indexBlock next : Nat} (guarded : Guarded marked g ram) (ret : Status)
    (unmarked : ¬ marked indexBlock) :
    Everywhere (MtdOp.Spares marked) (indexFormatEnd g indexBlock next ret)
      (fun next ram' => Guarded marked g ram' ∧
        (next ≠ invalidBlock → ¬ marked ram'.anchorTable.indexNewBlock)) ram := by
  unfold indexFormatEnd
  split
  · rw [Everywhere.bind]
    exact Everywhere.modifies.mpr
      (Everywhere.pure.mpr ⟨⟨guarded.listed, guarded.spared⟩, fun _ => unmarked⟩)
  · rw [Everywhere.bind]
    exact Everywhere.modifies.mpr
      (Everywhere.pure.mpr ⟨guarded.log valid indexBlock, fun wrong => absurd rfl wrong⟩)

theorem everywhere_indexFormatWrite (valid : ∀ block, marked block → block ≠ invalidBlock)
    {indexBlock next : Nat} (guarded : Guarded marked g ram) (ret : Status)
    (unmarked : ¬ marked indexBlock) :
    Everywhere (MtdOp.Spares marked) (indexFormatWrite g indexBlock next ret)
      (fun next ram' => Guarded marked g ram' ∧
        (next ≠ invalidBlock → ¬ marked ram'.anchorTable.indexNewBlock)) ram := by
  unfold indexFormatWrite
  have written : ∀ ret : Status, Everywhere (MtdOp.Spares marked) (do
      let ram ← get
      let ret ← if ret = .success then tableWrite indexBlock 0 (.index ram.indexTable) else pure ret
      indexFormatEnd g indexBlock next ret)
      (fun next ram' => Guarded marked g ram' ∧
        (next ≠ invalidBlock → ¬ marked ram'.anchorTable.indexNewBlock)) ram := by
    intro ret
    rw [Everywhere.bind, Everywhere.get]
    split
    · rw [Everywhere.bind]
      exact everywhere_tableWrite unmarked guarded.spared fun ret =>
        everywhere_indexFormatEnd valid guarded ret unmarked
    · rw [pure_bind]
      exact everywhere_indexFormatEnd valid guarded ret unmarked
  split
  · rw [Everywhere.bind]
    exact everywhere_mtdErase unmarked written
  · rw [pure_bind]
    exact written ret

theorem everywhere_indexFormat (valid : ∀ block, marked block → block ≠ invalidBlock)
    {totalBlock fmtCurrentBlock : Nat} (guarded : Guarded marked g ram)
    (notCode : 0 < fmtCurrentBlock) :
    Everywhere (MtdOp.Spares marked) (indexFormat g totalBlock fmtCurrentBlock)
      (fun next ram' => Guarded marked g ram' ∧
        (next ≠ invalidBlock → ¬ marked ram'.anchorTable.indexNewBlock)) ram := by
  have noBlock : ¬ marked invalidBlock := fun isMarked => valid _ isMarked rfl
  have later : ∀ block ∈ List.range' fmtCurrentBlock (totalBlock - fmtCurrentBlock),
      block ≠ 0 := by
    intro block inside
    rw [List.mem_range'_1] at inside
    omega
  rw [indexFormat_eq]
  simp only [Everywhere.bind, Everywhere.modifies, Everywhere.get]
  refine Everywhere.mono (everywhere_indexFormatFill valid ⟨guarded.listed, guarded.spared⟩ later
    noBlock guarded.spared.2) ?_
  rintro ⟨ret, indexBlock, count, free⟩ ram' ⟨guarded', unmarked, spared⟩
  have guardedAll : Guarded marked g { ram' with indexTable :=
      { ram'.indexTable with
        free := fun i => if count ≤ i ∧ i < g.freeBlockCount then .invalid else free i } } := by
    refine ⟨guarded'.listed, guarded'.spared.1, fun i => ?_⟩
    dsimp only
    split
    · exact noBlock
    · exact spared i
  have checked : ∀ ret : Status, Everywhere (MtdOp.Spares marked) (do
      let ret ←
        if ret = .success then do
          let bad ← anchorIsBadBlock g indexBlock
          pure (if bad then .badblock else ret)
        else pure ret
      indexFormatWrite g indexBlock (max fmtCurrentBlock totalBlock) ret)
      (fun next ram' => Guarded marked g ram' ∧
        (next ≠ invalidBlock → ¬ marked ram'.anchorTable.indexNewBlock))
      { ram' with indexTable :=
        { ram'.indexTable with
          free := fun i => if count ≤ i ∧ i < g.freeBlockCount then .invalid else free i } } := by
    intro ret
    split
    · simp only [anchorIsBadBlock, Everywhere.bind, Everywhere.get, Everywhere.pure]
      exact everywhere_indexFormatWrite valid guardedAll _ unmarked
    · rw [pure_bind]
      exact everywhere_indexFormatWrite valid guardedAll ret unmarked
  split
  · rw [Everywhere.bind, Everywhere.assert]
    exact fun _ => checked ret
  · exact checked ret

/-! ## The anchor -/

/-- While the anchor is written: it is in no marked block and replaces none, and if the index
block is in use that is not marked either. -/
structure AnchorGuarded (marked : Nat → Prop) (used : Prop) (g : Geometry) (ram : UbiRam D) : Prop
    extends Guarded marked g ram where
  block : ¬ marked ram.anchorBlock
  previous : ¬ marked ram.anchorTable.previousAnchorBlock
  index : used → ¬ marked ram.anchorTable.indexNewBlock
  inUse : ram.anchorTable.totalDataBlock ≠ invalidBlock → used

theorem AnchorGuarded.log (valid : ∀ block, marked block → block ≠ invalidBlock)
    (guarded : AnchorGuarded marked used g ram) (block : Nat) :
    AnchorGuarded marked used g { ram with anchorTable :=
      { ram.anchorTable with
        badBlockTable := logBadBlock g ram.anchorTable.badBlockTable block } } where
  toGuarded := guarded.toGuarded.log valid block
  block := guarded.block
  previous := guarded.previous
  index := guarded.index
  inUse := guarded.inUse

theorem AnchorGuarded.unmarked (guarded : AnchorGuarded marked used g ram) {block : Nat}
    (notCode : block ≠ 0) (good : ¬ isBadBlock g ram.anchorTable.badBlockTable block = true) :
    ¬ marked block :=
  fun isMarked => good (guarded.listed block isMarked notCode)

theorem everywhere_anchorFindLoop (valid : ∀ block, marked block → block ≠ invalidBlock)
    {current rounds block : Nat} (guarded : AnchorGuarded marked used g ram) :
    Everywhere (MtdOp.Spares marked) (anchorFindLoop g current rounds block)
      (fun result ram' => AnchorGuarded marked used g ram' ∧
        (result.1 = .success → ¬ marked result.2)) ram := by
  induction rounds generalizing block ram with
  | zero => exact Everywhere.halt
  | succ rounds ih =>
      unfold anchorFindLoop
      generalize isNext : (if block + 1 > g.anchorLastBlock then Geometry.anchorFirstBlock
        else block + 1) = next
      have notCode : next ≠ 0 := by
        rw [← isNext, Geometry.anchorFirstBlock]
        split <;> omega
      have goOn : ∀ (ret : Status) (ram : UbiRam D), AnchorGuarded marked used g ram →
          (ret = .success → ¬ marked next) →
          Everywhere (MtdOp.Spares marked)
            (if ret ≠ .success ∧ next ≠ current then anchorFindLoop g current rounds next
              else pure (ret, next))
            (fun result ram' => AnchorGuarded marked used g ram' ∧
              (result.1 = .success → ¬ marked result.2)) ram := by
        intro ret ram guarded unmarked
        split
        · exact ih guarded
        · exact Everywhere.pure.mpr ⟨guarded, unmarked⟩
      simp only [anchorIsBadBlock, Everywhere.bind, Everywhere.get, Everywhere.pure]
      split
      · exact goOn .badblock ram guarded fun wrong => absurd wrong (by decide)
      · rename_i good
        have unmarked := guarded.unmarked notCode good
        rw [Everywhere.bind]
        refine everywhere_mtdErase unmarked fun ret => ?_
        split
        · rw [Everywhere.bind]
          exact Everywhere.modifies.mpr (goOn ret _ (guarded.log valid next) fun _ => unmarked)
        · exact goOn ret _ guarded fun _ => unmarked

theorem everywhere_anchorFindNextBlock (valid : ∀ block, marked block → block ≠ invalidBlock)
    {current : Nat} (guarded : AnchorGuarded marked used g ram) :
    Everywhere (MtdOp.Spares marked) (anchorFindNextBlock g current)
      (fun result ram' => AnchorGuarded marked used g ram' ∧
        (result.1 = .success → ¬ marked result.2)) ram := by
  unfold anchorFindNextBlock
  rw [Everywhere.bind]
  refine (everywhere_anchorFindLoop valid guarded).mono ?_
  rintro ⟨ret, next⟩ ram' ⟨guarded', unmarked⟩
  dsimp only
  split
  · exact Everywhere.pure.mpr ⟨guarded', unmarked⟩
  · have failed : Status.failure ≠ .success := by decide
    exact Everywhere.pure.mpr ⟨guarded', fun good => absurd good failed⟩

theorem everywhere_anchorUpdateLoop (valid : ∀ block, marked block → block ≠ invalidBlock)
    {rounds : Nat} {anchorReclaimed : Bool} (guarded : AnchorGuarded marked used g ram) :
    Everywhere (MtdOp.Spares marked) (anchorUpdateLoop g rounds anchorReclaimed)
      (fun _ ram' => AnchorGuarded marked used g ram') ram := by
  induction rounds generalizing anchorReclaimed ram with
  | zero => exact Everywhere.halt
  | succ rounds ih =>
      have write : ∀ (anchorReclaimed : Bool) (ram : UbiRam D), AnchorGuarded marked used g ram →
          Everywhere (MtdOp.Spares marked) (anchorUpdateWrite g rounds anchorReclaimed)
            (fun _ ram' => AnchorGuarded marked used g ram') ram := by
        intro anchorReclaimed ram guarded
        have moved : ∀ page, AnchorGuarded marked used g { ram with anchorNextPage := page } :=
          fun page =>
            ⟨⟨guarded.listed, guarded.spared⟩, guarded.block, guarded.previous, guarded.index,
              guarded.inUse⟩
        unfold anchorUpdateWrite
        rw [Everywhere.bind, Everywhere.get, Everywhere.bind]
        refine everywhere_tableWrite guarded.block
          (fun total => guarded.index (guarded.inUse total)) fun ret => ?_
        split
        · split
          · rw [Everywhere.bind]
            refine everywhere_mtdErase guarded.previous fun _ => ?_
            rw [Everywhere.bind]
            exact Everywhere.modifies.mpr (Everywhere.pure.mpr (moved _))
          · rw [Everywhere.bind]
            exact Everywhere.modifies.mpr (Everywhere.pure.mpr (moved _))
        · split
          · rw [Everywhere.bind]
            exact Everywhere.modifies.mpr (ih (moved _))
          · exact ih guarded
      rw [anchorUpdateLoop_eq, Everywhere.bind, Everywhere.get]
      split
      · rw [Everywhere.bind, Everywhere.modifies, Everywhere.bind]
        have announced : AnchorGuarded marked used g { ram with anchorTable :=
            { ram.anchorTable with previousAnchorBlock := ram.anchorBlock } } :=
          ⟨⟨guarded.listed, guarded.spared⟩, guarded.block, guarded.block, guarded.index,
            guarded.inUse⟩
        refine (everywhere_anchorFindNextBlock valid announced).mono ?_
        rintro ⟨ret, next⟩ ram' ⟨guarded', unmarked⟩
        dsimp only at unmarked ⊢
        split
        · rename_i found
          rw [Everywhere.bind, Everywhere.modifies, pure_bind, if_neg (not_not.mpr found)]
          exact write true _ ⟨⟨guarded'.listed, guarded'.spared⟩, unmarked found,
            guarded'.previous, guarded'.index, guarded'.inUse⟩
        · rename_i wrong
          rw [pure_bind, if_pos wrong]
          exact Everywhere.pure.mpr guarded'
      · rw [pure_bind]
        exact write anchorReclaimed ram guarded

theorem everywhere_anchorFormatErase (valid : ∀ block, marked block → block ≠ invalidBlock)
    {blocks : List Nat} (notCode : ∀ block ∈ blocks, block ≠ 0)
    (guarded : AnchorGuarded marked used g ram) :
    Everywhere (MtdOp.Spares marked) (anchorFormatErase g blocks)
      (fun _ ram' => AnchorGuarded marked used g ram') ram := by
  induction blocks generalizing ram with
  | nil => exact Everywhere.pure.mpr guarded
  | cons block rest ih =>
      have notCodeRest : ∀ other ∈ rest, other ≠ 0 :=
        fun other inside => notCode other (List.mem_cons_of_mem _ inside)
      unfold anchorFormatErase
      simp only [anchorIsBadBlock, Everywhere.bind, Everywhere.get, Everywhere.pure]
      split
      · rename_i good
        have unmarked := guarded.unmarked (notCode block List.mem_cons_self) (by simp [good])
        rw [Everywhere.bind]
        refine everywhere_mtdErase unmarked fun ret => ?_
        split
        · rw [Everywhere.bind]
          exact Everywhere.modifies.mpr (ih notCodeRest (guarded.log valid block))
        · exact ih notCodeRest guarded
      · exact ih notCodeRest guarded

theorem everywhere_anchorFormat (valid : ∀ block, marked block → block ≠ invalidBlock)
    {fuel totalDataBlock : Nat} (firstBlock : ¬ marked Geometry.anchorFirstBlock)
    (guarded : Guarded marked g ram) (index : used → ¬ marked ram.anchorTable.indexNewBlock)
    (inUse : totalDataBlock ≠ invalidBlock → used) :
    Everywhere (MtdOp.Spares marked) (anchorFormat g fuel totalDataBlock)
      (fun _ ram' => AnchorGuarded marked used g ram') ram := by
  have notCode : ∀ block ∈ List.range' Geometry.anchorFirstBlock g.anchorBlockCount,
      block ≠ 0 := by
    intro block inside
    rw [List.mem_range'_1, Geometry.anchorFirstBlock] at inside
    omega
  unfold anchorFormat
  rw [Everywhere.bind, Everywhere.modifies, Everywhere.bind]
  refine Everywhere.mono (everywhere_anchorFormatErase valid notCode ?_) fun _ ram' guarded' =>
    everywhere_anchorUpdateLoop valid guarded'
  exact ⟨⟨guarded.listed, guarded.spared⟩, firstBlock, fun isMarked => valid _ isMarked rfl, index,
    inUse⟩

/-- What the format leaves in memory. -/
structure LeavesSpared (marked : Nat → Prop) (ret : Status) (ram : UbiRam D) : Prop where
  tables : ram.indexTable.Spares marked
  anchor : ¬ marked ram.anchorBlock
  index : ret = .success → ¬ marked ram.anchorTable.indexNewBlock

/-- The tables are laid out on blocks that are not marked. -/
theorem everywhere_ubiFormatLayout (valid : ∀ block, marked block → block ≠ invalidBlock)
    {fuel : Nat} (firstBlock : ¬ marked Geometry.anchorFirstBlock)
    (guarded : Guarded marked g ram) :
    Everywhere (MtdOp.Spares marked) (ubiFormatLayout g fuel) (LeavesSpared marked) ram := by
  have failed : Status.ubiFormatError ≠ .success := by decide
  have fail : ∀ ram : UbiRam D, Guarded marked g ram → Everywhere (MtdOp.Spares marked) (do
      let _ ← anchorFormat g fuel invalidBlock
      pure Status.ubiFormatError) (LeavesSpared marked) ram := by
    intro ram guarded
    have noIndex : False → ¬ marked ram.anchorTable.indexNewBlock := False.elim
    rw [Everywhere.bind]
    exact (everywhere_anchorFormat valid firstBlock guarded noIndex fun wrong => wrong rfl).mono
      fun _ _ guarded' => Everywhere.pure.mpr
        ⟨guarded'.spared, guarded'.block, fun good => absurd good failed⟩
  unfold ubiFormatLayout
  rw [Everywhere.bind]
  refine (everywhere_ubiFormatAreas valid guarded (by rw [g.dataFirstBlock_eq]; omega)).mono ?_
  rintro ⟨next, total⟩ ram' ⟨guarded', notCode⟩
  dsimp only at notCode ⊢
  split
  · rw [Everywhere.bind]
    refine (everywhere_indexFormat valid guarded' notCode).mono ?_
    rintro last ram' ⟨guarded', inUse⟩
    split
    · rename_i proper
      rw [Everywhere.bind, Everywhere.assert]
      exact fun _ => (everywhere_anchorFormat valid firstBlock guarded' (fun _ => inUse proper)
        fun _ => trivial).mono fun _ _ guarded'' =>
          ⟨guarded''.spared, guarded''.block, fun _ => guarded''.index trivial⟩
    · exact fail ram' guarded'
  · rename_i wrong
    rw [pure_bind, if_neg wrong]
    exact fail ram' guarded'

end Layout

end OpenNfm
