import OpenNfm.Ftl.Interface

/-!
# The logs of the FTL tables

`ftl_root.c`, `ftl_bdt.c` and `ftl_hdi.c`: the root table, the dirty counts of the blocks
and the hot data table.  Each is appended to one of two log blocks; when that one is full
the other one is erased and takes over.  The root names the current pages of the other
two tables.
-/

namespace OpenNfm.Ftl

open OpenNfm.Program

/-- The sizes that the FTL is compiled with: the geometry, `BDT_PAGE_COUNT`, the capacity
of the UBI layer, and the address of the node caches in memory. -/
structure Layout where
  g : Geometry
  bdtPageCount : Nat
  capacity : Nat
  nodeCaches : Nat

namespace Layout

variable (l : Layout)

/-- `PAGE_PER_PHY_BLOCK` -/
def pagePerPhyBlock : Nat := l.g.pagePerPhyBlock

/-- `JOURNAL_BLOCK_COUNT`, one journal of each kind for a die. -/
def journalBlockCount : Nat := l.g.totalDieCount

/-- `PM_PER_NODE`, the words in a page. -/
def pmPerNode : Nat := l.g.mppSize / 4

/-- `BDT_BLOCK0` -/
def bdtBlock0 : Nat := 0

/-- `ROOT_BLOCK0` -/
def rootBlock0 : Nat := 2

/-- `ROOT_BLOCK1` -/
def rootBlock1 : Nat := 3

/-- `HDI_BLOCK0` -/
def hdiBlock0 : Nat := 4

/-- `PMT_START_BLOCK` -/
def pmtStartBlock : Nat := 6

/-- `PMT_BLOCK_COUNT`, five blocks for a node of every block. -/
def pmtBlockCount : Nat := (l.g.cfgLogBlockCount + l.pmPerNode - 1) / l.pmPerNode * 5

/-- `DATA_START_BLOCK` -/
def dataStartBlock : Nat := pmtStartBlock + l.pmtBlockCount

/-- `MAX_DIRTY_PAGES`: the last page of a block holds its meta data. -/
def maxDirtyPages : Nat := l.pagePerPhyBlock - 1

/-- `MAX_PM_CLUSTERS`, the nodes that the root table has room for. -/
def maxPmClusters : Nat := l.g.mppSize / 4 - (l.journalBlockCount * 3 + 6)

/-- `FTL_Capacity`: what is left of the log blocks, without the last page of each. -/
def ftlCapacity : Nat :=
  let block := l.capacity - 3 * l.journalBlockCount - l.pmtBlockCount - 6
  (block - block / 100 * l.g.overProvisionRate) * (l.pagePerPhyBlock - 1)

end Layout

/-- The layout that `cfg.h` selects, with the node caches at the given address. -/
def simLayout (nodeCaches : Nat) : Layout where
  g := simNand
  bdtPageCount := (simNand.cfgLogBlockCount + simNand.mppSize - 1) / simNand.mppSize
  capacity := 989
  nodeCaches := nodeCaches

section LogFiles

variable (l : Layout) {D : Type}

/-- When the block of a log is full, erase the other one and go on there. -/
def turnLog (block page : Nat) (setCursor : Nat → Nat → FtlRam → FtlRam) : FtlCode D Status :=
  if page = l.pagePerPhyBlock then do
    let nextBlock := block ^^^ 1
    let ret ← ubiErase nextBlock nextBlock
    onSuccess ret do
      modify (setCursor nextBlock 0)
      pure ret
  else pure .success

/-! ## The root -/

/-- The next page of the root table. -/
def setRootCursor (block page : Nat) (ram : FtlRam) : FtlRam :=
  { ram with rootCurrentBlock := block, rootCurrentPage := page }

/-- The root table before it is written, with its place and its edition. -/
def sealRoot (ram : FtlRam) : FtlRam :=
  { ram with
    rootTable :=
      { ram.rootTable with
        rootCurrentJournal := PmNode.setBlockPage l.g ram.rootCurrentBlock ram.rootCurrentPage
        rootEdition := ram.rootEdition }
    rootEdition := (ram.rootEdition + 1) % 2 ^ 32 }

/-- `ROOT_Commit` -/
def rootCommit : FtlCode D Status := do
  let ram ← get
  let ret ← turnLog l ram.rootCurrentBlock ram.rootCurrentPage setRootCursor
  onSuccess ret do
    modify (sealRoot l)
    let ram ← get
    let ret ← ubiWrite ram.rootCurrentBlock ram.rootCurrentPage (.root ram.rootTable)
      (some ⟨0, 0⟩) false
    onSuccess ret do
      modify fun ram => { ram with rootCurrentPage := ram.rootCurrentPage + 1 }
      pure ret

/-- `ROOT_Format` -/
def rootFormat : FtlCode D Status := do
  modify fun ram => { setRootCursor Layout.rootBlock0 0 ram with rootEdition := 0 }
  let ret ← ubiErase Layout.rootBlock0 Layout.rootBlock0
  onSuccess ret (rootCommit l)

/-- Another root table. -/
def setRoot (table : Root) (ram : FtlRam) : FtlRam :=
  { ram with rootTable := table }

/-- Read a page into the root table. -/
def rootRead (block page : Nat) : FtlCode D (Status × Spare) := do
  let answer ← ubiRead block page
  let table ← loadRoot answer.main
  modify (setRoot table)
  pure (answer.status, answer.spare)

/-- The first page from `page` on that is not a root, within so many pages, and the status
of the last read. -/
def rootScan (block : Nat) : Nat → Nat → FtlCode D (Nat × Status)
  | 0, page => pure (page, .success)
  | rounds + 1, page => do
      let (ret, footprint) ← rootRead block page
      if ret ≠ .success ∨ footprint.first = allOnes then pure (page, ret)
      else rootScan block rounds (page + 1)

/-- The root block with the later edition in its first page. -/
def rootChoose : FtlCode D Unit := do
  let (ret, _) ← rootRead Layout.rootBlock0 0
  if ret = .success then do
    modify fun ram =>
      { ram with
        rootEdition := ram.rootTable.rootEdition
        rootCurrentBlock := Layout.rootBlock0 }
    let (ret, _) ← rootRead Layout.rootBlock1 0
    if ret = .success then
      modify fun ram =>
        { ram with
          rootCurrentBlock :=
            if ram.rootEdition > ram.rootTable.rootEdition then Layout.rootBlock0
            else Layout.rootBlock1 }
    else modify fun ram => { ram with rootCurrentBlock := Layout.rootBlock0 }
  else modify fun ram => { ram with rootCurrentBlock := Layout.rootBlock1 }

/-- The cursor is behind the last root. -/
def resumeRoot (page : Nat) (ram : FtlRam) : FtlRam :=
  { ram with
    rootCurrentPage := page
    rootEdition := (ram.rootTable.rootEdition + 1) % 2 ^ 32 }

/-- `ROOT_Init` -/
def rootInit : FtlCode D Status := do
  rootChoose
  let ram ← get
  let (page, ret) ← rootScan ram.rootCurrentBlock l.pagePerPhyBlock 0
  -- the scan has failed exactly if it has not reached the end of the block
  Code.assert (page = l.pagePerPhyBlock ↔ ret = .success)
  let (ret, _) ← rootRead ram.rootCurrentBlock ((page + allOnes) % 2 ^ 32)
  onSuccess ret do
    modify (resumeRoot page)
    -- skip one page for possible PLR issue
    let _ ← rootCommit l
    pure ret

/-! ## The dirty counts -/

/-- The part of the dirty counts that page `i` of the table holds. -/
def bdtPage (i : Nat) (counts : Nat → Nat) : Nat → Nat := fun k => counts (i * l.g.mppSize + k)

/-- Write the pages of the table from page `i` on. -/
def bdtWrite : Nat → Nat → FtlCode D Status
  | 0, _ => pure .success
  | rounds + 1, i => do
      let ram ← get
      let ret ← ubiWrite ram.bdtCurrentBlock (ram.bdtCurrentPage + i)
        (.dirtyCounts (bdtPage l i ram.blockDirtyTable)) none false
      onSuccess ret (bdtWrite rounds (i + 1))

/-- The next page of the block dirty table. -/
def setBdtCursor (block page : Nat) (ram : FtlRam) : FtlRam :=
  { ram with bdtCurrentBlock := block, bdtCurrentPage := page }

/-- The root names the table that has been written. -/
def nameBdt (ram : FtlRam) : FtlRam :=
  { ram with
    rootTable :=
      { ram.rootTable with
        bdtCurrentJournal := PmNode.setBlockPage l.g ram.bdtCurrentBlock ram.bdtCurrentPage }
    bdtCurrentPage := ram.bdtCurrentPage + l.bdtPageCount }

/-- `BDT_Commit` -/
def bdtCommit : FtlCode D Status := do
  let ram ← get
  let ret ← turnLog l ram.bdtCurrentBlock ram.bdtCurrentPage setBdtCursor
  onSuccess ret do
    let ret ← bdtWrite l l.bdtPageCount 0
    onSuccess ret do
      modify (nameBdt l)
      pure ret

/-- `BDT_Format` -/
def bdtFormat : FtlCode D Status := do
  modify (setBdtCursor Layout.bdtBlock0 0)
  let ret ← ubiErase Layout.bdtBlock0 Layout.bdtBlock0
  onSuccess ret (bdtCommit l)

/-- Read the pages of the table from page `i` on. -/
def bdtRead : Nat → Nat → FtlCode D Unit
  | 0, _ => pure ()
  | rounds + 1, i => do
      let ram ← get
      let answer ← ubiRead ram.bdtCurrentBlock (ram.bdtCurrentPage + i)
      let counts ← loadDirtyCounts answer.main
      modify fun ram =>
        { ram with
          blockDirtyTable := fun k =>
            if i * l.g.mppSize ≤ k ∧ k < (i + 1) * l.g.mppSize then counts (k - i * l.g.mppSize)
            else ram.blockDirtyTable k }
      Code.assert (answer.status = .success)
      bdtRead rounds (i + 1)

/-- The first page from `page` on, in steps, that is not programmed; the page behind the
block where the steps end if there is none. -/
def firstErased (block step : Nat) : Nat → Nat → FtlCode D Nat
  | 0, page => pure page
  | rounds + 1, page =>
      if page < l.pagePerPhyBlock then do
        let answer ← ubiRead block page
        if answer.status = .success then firstErased block step rounds (page + step)
        else pure page
      else pure page

/-- `BDT_Init` -/
def bdtInit : FtlCode D Status := do
  modify fun ram =>
    setBdtCursor (PmNode.block l.g ram.rootTable.bdtCurrentJournal)
      (PmNode.page l.g ram.rootTable.bdtCurrentJournal) ram
  bdtRead l l.bdtPageCount 0
  let ram ← get
  let page ← firstErased l ram.bdtCurrentBlock l.bdtPageCount l.pagePerPhyBlock
    (ram.bdtCurrentPage + l.bdtPageCount)
  if page ≤ l.pagePerPhyBlock then modify fun ram => { ram with bdtCurrentPage := page }
  -- skip one page for possible PLR issue
  let _ ← bdtCommit l
  pure .success

/-! ## The hot data table -/

/-- The next page of the hash table of the hot data. -/
def setHdiCursor (block page : Nat) (ram : FtlRam) : FtlRam :=
  { ram with hdiCurrentBlock := block, hdiCurrentPage := page }

/-- The root names the table that has been written. -/
def nameHdi (ram : FtlRam) : FtlRam :=
  { ram with
    rootTable :=
      { ram.rootTable with
        hdiCurrentJournal := PmNode.setBlockPage l.g ram.hdiCurrentBlock ram.hdiCurrentPage }
    hdiCurrentPage := ram.hdiCurrentPage + 1 }

/-- `HDI_Commit` -/
def hdiCommit : FtlCode D Status := do
  let ram ← get
  let ret ← turnLog l ram.hdiCurrentBlock ram.hdiCurrentPage setHdiCursor
  onSuccess ret do
    let ram ← get
    let ret ← ubiWrite ram.hdiCurrentBlock ram.hdiCurrentPage (.hotHash ram.hdiHashTable) none false
    onSuccess ret do
      modify (nameHdi l)
      pure ret

/-- `HDI_Format` -/
def hdiFormat : FtlCode D Status := do
  modify fun ram =>
    { ram with hdiHashTable := fun i => if i < l.g.mppSize then 0 else ram.hdiHashTable i }
  modify (setHdiCursor Layout.hdiBlock0 0)
  let ret ← ubiErase Layout.hdiBlock0 Layout.hdiBlock0
  onSuccess ret (hdiCommit l)

/-- `HDI_Init` -/
def hdiInit : FtlCode D Status := do
  modify fun ram =>
    setHdiCursor (PmNode.block l.g ram.rootTable.hdiCurrentJournal)
      (PmNode.page l.g ram.rootTable.hdiCurrentJournal) ram
  let ram ← get
  let answer ← ubiRead ram.hdiCurrentBlock ram.hdiCurrentPage
  let values ← loadHotHash answer.main
  modify fun ram => { ram with hdiHashTable := values }
  Code.assert (answer.status = .success)
  let page ← firstErased l ram.hdiCurrentBlock 1 l.pagePerPhyBlock (ram.hdiCurrentPage + 1)
  modify fun ram => { ram with hdiCurrentPage := page }
  -- the source commits the other table here
  let _ ← bdtCommit l
  pure .success

end LogFiles

end OpenNfm.Ftl
