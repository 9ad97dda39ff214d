import OpenNfm.Ftl.Pmt

/-!
# Data journals

`ftl_data.c` and `ftl_api.c`: data pages are appended to the journal blocks, one for each
die, and carry their address and the number of the write since the last commit.  A mount
replays the pages behind the journal pointers of the root in that order.  When all
journals are full the dirtiest blocks are reclaimed.
-/

namespace OpenNfm.Ftl

open OpenNfm.Program

section DataFile

variable (l : Layout) (fuel : Nat) {D : Type}

/-! ## The hot and the cold journals -/

/-- The journals of the root for hot or for cold data. -/
def journal (hot : Bool) (ram : FtlRam) : Nat → Nat :=
  if hot then ram.rootTable.hotJournal else ram.rootTable.coldJournal

/-- Another word for a hot or cold journal. -/
def setJournal (hot : Bool) (j word : Nat) (ram : FtlRam) : FtlRam :=
  { ram with
    rootTable :=
      if hot then
        { ram.rootTable with hotJournal := Function.update ram.rootTable.hotJournal j word }
      else
        { ram.rootTable with coldJournal := Function.update ram.rootTable.coldJournal j word } }

/-- `edition_in_hot_journal` or `edition_in_cold_journal` -/
def edition (hot : Bool) (ram : FtlRam) : Nat :=
  if hot then ram.editionInHotJournal else ram.editionInColdJournal

/-- Another edition for the hot or the cold journals. -/
def setEdition (hot : Bool) (value : Nat) (ram : FtlRam) : FtlRam :=
  if hot then { ram with editionInHotJournal := value }
  else { ram with editionInColdJournal := value }

/-- The spare areas of the pages of journal `j`. -/
def journalMeta (hot : Bool) (ram : FtlRam) (j : Nat) : Nat → Spare :=
  if hot then ram.hotMetaData j else ram.coldMetaData j

/-- Another row of the meta data of a hot or cold journal. -/
def setJournalMeta (hot : Bool) (j page : Nat) (spare : Spare) (ram : FtlRam) : FtlRam :=
  if hot then
    { ram with
      hotMetaData :=
        Function.update ram.hotMetaData j (Function.update (ram.hotMetaData j) page spare) }
  else
    { ram with
      coldMetaData :=
        Function.update ram.coldMetaData j (Function.update (ram.coldMetaData j) page spare) }

/-! ## Format and write -/

/-- Erase one block for each journal from `j` on, and hand back the next block. -/
def dataFormatBlocks (set : Nat → Nat → FtlRam → FtlRam) :
    Nat → Nat → Nat → Status → FtlCode D (Nat × Status)
  | 0, _, block, ret => pure (block, ret)
  | rounds + 1, j, block, ret => do
      let ret ← onSuccess ret (ubiErase block block)
      if ret = .success then do
        modify fun ram => setDirtyCount block 0 (set j (PmNode.setBlockPage l.g block 0) ram)
        dataFormatBlocks set rounds (j + 1) (block + 1) ret
      else dataFormatBlocks set rounds (j + 1) block ret

/-- Another word for a reclaim journal. -/
def setReclaimJournal (j word : Nat) (ram : FtlRam) : FtlRam :=
  { ram with
    rootTable :=
      { ram.rootTable with
        reclaimJournal := Function.update ram.rootTable.reclaimJournal j word } }

/-- `DATA_Format`, which returns a success whatever the erases have returned. -/
def dataFormat : FtlCode D Status := do
  modify fun ram =>
    { ram with
      blockDirtyTable := fun i =>
        if i < l.g.cfgLogBlockCount then l.maxDirtyPages else ram.blockDirtyTable i }
  let (block, ret) ← dataFormatBlocks l (setJournal true) l.journalBlockCount 0
    l.dataStartBlock .success
  let (block, ret) ← dataFormatBlocks l (setJournal false) l.journalBlockCount 0 block ret
  let _ ← dataFormatBlocks l setReclaimJournal l.journalBlockCount 0 block ret
  pure .success

/-- The first journal from `j` on that is not full and whose die is ready, and the status
of the last poll. -/
def dataFindReady (hot : Bool) : Nat → Nat → Status → FtlCode D (Option Nat × Status)
  | 0, _, ret => pure (none, ret)
  | rounds + 1, j, ret => do
      let ram ← get
      if PmNode.page l.g (journal hot ram j) < l.pagePerPhyBlock - 1 then do
        let ret ← ubiReadStatus (PmNode.block l.g (journal hot ram j))
        if ret = .success then pure (some j, ret) else dataFindReady hot rounds (j + 1) ret
      else dataFindReady hot rounds (j + 1) ret

/-- Poll the journals until the last poll is not busy.  If all journals are full, the
pointer stays at the first one. -/
def dataFindLoop (hot : Bool) : Nat → Status → FtlCode D (Nat × Status)
  | 0, _ => Code.halt .fuel
  | rounds + 1, ret => do
      let (found, ret) ← dataFindReady l hot l.journalBlockCount 0 ret
      if ret = .dieBusy then dataFindLoop hot rounds ret else pure (found.getD 0, ret)

/-- Write the spare areas to the last page of a full journal. -/
def dataWriteMeta (hot : Bool) (j block : Nat) : FtlCode D Status := do
  let ram ← get
  ubiWrite block (l.pagePerPhyBlock - 1) (.spares (journalMeta hot ram j)) none false

/-- Number the next page of journal `j`, and enter its spare area in the table. -/
def numberPage (hot : Bool) (j addr : Nat) (ram : FtlRam) : FtlRam :=
  let page := PmNode.page l.g (journal hot ram j)
  setEdition hot ((edition hot ram + 1) % 2 ^ 32)
    (setJournalMeta hot j page ⟨addr, edition hot ram⟩ ram)

/-- After the write of a page to journal `j`: update the page mapping, the journal, and the
last page of the journal if it is full. -/
def dataAppended (hot : Bool) (j addr block page : Nat) (ret : Status) : FtlCode D Status := do
  let ret ← onSuccess ret (pmtUpdate l (pmtReclaimBlocks l fuel) addr block page)
  let ret ← onSuccess ret do
    modify (setJournal hot j (PmNode.setBlockPage l.g block (page + 1)))
    pure ret
  let ram ← get
  if PmNode.page l.g (journal hot ram j) = l.pagePerPhyBlock - 1 then dataWriteMeta l hot j block
  else pure ret

/-- Append a page to journal `j`. -/
def dataAppend (hot : Bool) (j addr : Nat) (content : D) : FtlCode D Status := do
  let ram ← get
  let block := PmNode.block l.g (journal hot ram j)
  let page := PmNode.page l.g (journal hot ram j)
  modify (numberPage l hot j addr)
  let ret ← ubiWrite block page (.data content) (some ⟨addr, edition hot ram⟩) true
  dataAppended l fuel hot j addr block page ret

/-- Write a page, or trim it if there is no buffer. -/
def dataWrite (addr : Nat) (buffer : Option D) (hot : Bool) : FtlCode D Status := do
  let (j, ret) ← dataFindLoop l hot fuel .success
  Code.assert (ret = .success)
  match buffer with
  | some content => dataAppend l fuel hot j addr content
  | none => pmtUpdate l (pmtReclaimBlocks l fuel) addr invalidBlock invalidPage

/-- `DATA_IsFull`: no journal has room. -/
def dataIsFull (hot : Bool) (ram : FtlRam) : Bool :=
  (List.range l.journalBlockCount).all fun j =>
    decide (¬ PmNode.page l.g (journal hot ram j) < l.pagePerPhyBlock - 1)

/-! ## Reclaim -/

/-- The blocks with the target dirty count until there are enough, the valid pages in them,
and the next lower count.  The journals of the other kind are left out. -/
def dataFindDirty (hot : Bool) (ram : FtlRam) (target : Nat) :
    List Nat → List Nat × Nat → Nat → (List Nat × Nat) × Nat
  | [], found, nextCount => (found, nextCount)
  | i :: rest, (blocks, valid), nextCount =>
      if (List.range l.journalBlockCount).any fun j =>
          PmNode.block l.g (journal (!hot) ram j) = i then
        dataFindDirty hot ram target rest (blocks, valid) nextCount
      else if ram.blockDirtyTable i = target then
        let found := (blocks ++ [i], valid + (l.maxDirtyPages - ram.blockDirtyTable i))
        if found.1.length = l.journalBlockCount then (found, nextCount)
        else dataFindDirty hot ram target rest found nextCount
      else
        dataFindDirty hot ram target rest (blocks, valid)
          (if ram.blockDirtyTable i < target ∧ ram.blockDirtyTable i > nextCount then
            ram.blockDirtyTable i
          else nextCount)

/-- The loop of `DATA_Reclaim` over smaller and smaller counts of stale pages. -/
def dataFindDirtyLoop (hot : Bool) : Nat → Nat → List Nat × Nat → FtlCode D (List Nat × Nat)
  | 0, _, _ => Code.halt .fuel
  | rounds + 1, target, found => do
      if found.1.length = l.journalBlockCount then pure found
      else do
        let ram ← get
        let (found, nextCount) := dataFindDirty l hot ram target
          (List.range' l.dataStartBlock (l.capacity - l.dataStartBlock)) found 0
        dataFindDirtyLoop hot rounds nextCount found

/-- Copy a page of a dirty block to the block of reclaim journal `j`.  It is the copy with
number `total`. -/
def dataCopyPage (hot : Bool) (j dirtyBlock page reclaimBlock reclaimPage total addr : Nat) :
    FtlCode D Status := do
  let answer ← ubiRead dirtyBlock page
  -- logical page address is not changed
  let spare : Spare := ⟨answer.spare.first, total⟩
  let ret ← onSuccess answer.status
    (ubiWrite reclaimBlock reclaimPage answer.main (some spare) false)
  onSuccess ret do
    let ret ← pmtUpdate l (pmtReclaimBlocks l fuel) addr reclaimBlock reclaimPage
    Code.assert (spare.first = addr)
    modify (setJournalMeta hot j reclaimPage spare)
    onSuccess ret do
      modify (setReclaimJournal j (PmNode.setBlockPage l.g reclaimBlock (reclaimPage + 1)))
      pure ret

/-- Copy the valid pages of a dirty block, from `page` on.  Hands back the number of all
copies so far. -/
def dataCopyPages (hot : Bool) (j dirtyBlock reclaimBlock : Nat) (pages : Nat → Spare) :
    Nat → Nat → Nat → Nat → Status → FtlCode D (Nat × Status)
  | 0, _, _, total, ret => pure (total, ret)
  | rounds + 1, page, reclaimPage, total, ret =>
      if ret ≠ .success then
        dataCopyPages hot j dirtyBlock reclaimBlock pages rounds (page + 1) reclaimPage total ret
      else do
        let (ret, trueBlock, truePage) ← pmtSearch l (pmtReclaimBlocks l fuel) (pages page).first
        if ret = .success ∧ trueBlock = dirtyBlock ∧ truePage = page then do
          let ret ← dataCopyPage l fuel hot j dirtyBlock page reclaimBlock reclaimPage total
            (pages page).first
          let copies := if ret = .success then 1 else 0
          dataCopyPages hot j dirtyBlock reclaimBlock pages rounds (page + 1)
            (reclaimPage + copies) (total + copies) ret
        else
          dataCopyPages hot j dirtyBlock reclaimBlock pages rounds (page + 1) reclaimPage total ret

/-- Copy the valid pages of the `j`-th dirty block. -/
def dataCopyBlock (hot : Bool) (j dirtyBlock total : Nat) : FtlCode D (Nat × Status) := do
  let ram ← get
  let answer ← ubiRead dirtyBlock (l.pagePerPhyBlock - 1)
  if answer.status = .success then do
    let pages ← loadSpares answer.main
    dataCopyPages l fuel hot j dirtyBlock (PmNode.block l.g (ram.rootTable.reclaimJournal j)) pages
      (l.pagePerPhyBlock - 1) 0 0 total .success
  else pure (total, answer.status)

/-- Copy the dirty blocks from the `j`-th on. -/
def dataCopyBlocks (hot : Bool) : List Nat → Nat → Nat → Status → FtlCode D (Nat × Status)
  | [], _, total, ret => pure (total, ret)
  | dirtyBlock :: rest, j, total, _ => do
      let (total, ret) ← dataCopyBlock l fuel hot j dirtyBlock total
      dataCopyBlocks hot rest (j + 1) total ret

/-- The reclaim journal becomes the journal, and the dirty block the reclaim journal. -/
def switchJournal (hot : Bool) (j dirtyBlock : Nat) (ram : FtlRam) : FtlRam :=
  let ram := setJournal hot j (ram.rootTable.reclaimJournal j) ram
  let ram := setReclaimJournal j (PmNode.setBlockPage l.g dirtyBlock 0) ram
  { ram with
    blockDirtyTable :=
      Function.update (Function.update ram.blockDirtyTable dirtyBlock 0)
        (PmNode.block l.g (journal hot ram j)) 0 }

/-- The dirty block becomes the journal. -/
def restartJournal (hot : Bool) (j dirtyBlock : Nat) (ram : FtlRam) : FtlRam :=
  let ram := setJournal hot j (PmNode.setBlockPage l.g dirtyBlock 0) ram
  { ram with blockDirtyTable := Function.update ram.blockDirtyTable dirtyBlock 0 }

/-- Erase the dirty blocks from the `j`-th on, and update the journals. -/
def dataSwitchJournals (change : Nat → Nat → FtlRam → FtlRam) :
    List Nat → Nat → Status → FtlCode D Status
  | [], _, ret => pure ret
  | dirtyBlock :: rest, j, ret => do
      let ret ← onSuccess ret (ubiErase dirtyBlock j)
      let ret ← onSuccess ret do
        modify (change j dirtyBlock)
        pure ret
      dataSwitchJournals change rest (j + 1) ret

/-- Make room in the journals with the dirty blocks, which have so many valid pages. -/
def dataMoveBlocks (hot : Bool) (blocks : List Nat) (valid : Nat) : FtlCode D Status :=
  if valid ≠ 0 then do
    let (total, ret) ← dataCopyBlocks l fuel hot blocks 0 0 .success
    Code.assert (valid = total)
    dataSwitchJournals (switchJournal l hot) blocks 0 ret
  else dataSwitchJournals (restartJournal l hot) blocks 0 .success

/-- `DATA_Reclaim` -/
def dataReclaim (hot : Bool) : FtlCode D Status := do
  let ret ← ubiFlush
  onSuccess ret do
    let (blocks, valid) ← dataFindDirtyLoop l hot fuel l.maxDirtyPages ([], 0)
    let ret ← dataMoveBlocks l fuel hot blocks valid
    onSuccess ret do
      modify (setEdition hot valid)
      pure ret

/-! ## Replay -/

/-- Read the spare area of a page, after a success. -/
def readSpare (ret : Status) (block page : Nat) : FtlCode D (Status × Spare) :=
  if ret = .success then do
    let answer ← ubiRead block page
    pure (answer.status, answer.spare)
  else pure (ret, .ones)

/-- One pass over the journals from `j` on.  The pass ends at the page with the wanted
edition, which is replayed; an erased page makes the wanted edition the last one. -/
def dataReplayPass (hot : Bool) : Nat → Nat → Nat → Status → FtlCode D (Nat × Status)
  | 0, _, wanted, ret => pure (wanted, ret)
  | rounds + 1, j, wanted, ret => do
      let ram ← get
      let block := PmNode.block l.g (journal hot ram j)
      let page := PmNode.page l.g (journal hot ram j)
      let (ret, spare) ← readSpare ret block page
      if ret = .success ∧ spare.second ≠ wanted then
        dataReplayPass hot rounds (j + 1) wanted ret
      else do
        let ret ← onSuccess ret (pmtUpdate l (pmtReclaimBlocks l fuel) spare.first block page)
        if ret = .success then do
          modify (setJournal hot j (PmNode.setBlockPage l.g block (page + 1)))
          -- find next edition of journal
          pure ((wanted + 1) % 2 ^ 32, ret)
        else do
          modify (setEdition hot wanted)
          -- empty page in this journal block
          dataReplayPass hot rounds (j + 1) allOnes .success

/-- The loop of `DATA_Replay` over the passes. -/
def dataReplayLoop (hot : Bool) : Nat → Nat → Status → FtlCode D Status
  | 0, _, _ => Code.halt .fuel
  | rounds + 1, wanted, ret =>
      if wanted ≠ allOnes then do
        let (wanted, ret) ← dataReplayPass l fuel hot l.journalBlockCount 0 wanted ret
        dataReplayLoop hot rounds wanted ret
      else pure ret

/-- Build up the spare areas of journal `j` from `page` on. -/
def dataBuildMeta (hot : Bool) (j block : Nat) : Nat → Nat → Status → FtlCode D Status
  | 0, _, ret => pure ret
  | rounds + 1, page, ret => do
      let (ret, spare) ← readSpare ret block page
      if ret = .success then do
        modify (setJournalMeta hot j page spare)
        dataBuildMeta hot j block rounds (page + 1) ret
      else if page = l.pagePerPhyBlock - 1 then do
        let ret ← dataWriteMeta l hot j block
        dataBuildMeta hot j block rounds (page + 1) ret
      else pure .success

/-- The loop of `DATA_Replay` that reads the spares of the journals again. -/
def dataBuildMetas (hot : Bool) : Nat → Nat → Status → FtlCode D Status
  | 0, _, ret => pure ret
  | rounds + 1, j, ret => do
      let ram ← get
      let ret ← dataBuildMeta l hot j (PmNode.block l.g (journal hot ram j)) l.pagePerPhyBlock 0 ret
      dataBuildMetas hot rounds (j + 1) ret

/-- `DATA_Replay` -/
def dataReplay (hot : Bool) : FtlCode D Status := do
  let ret ← dataReplayLoop l fuel hot fuel 0 .success
  dataBuildMetas l hot l.journalBlockCount 0 ret

/-! ## The functions of the FTL -/

/-- `HDI_FUNCTION`: the slots of a logical page in the hot data table. -/
def hdiSlots (addr : Nat) : List Nat :=
  (List.range 4).map fun i => addr / 8 ^ i % l.g.mppSize

/-- Count the page in its slots, the largest count stays. -/
def hdiIsHotPage (addr : Nat) : FtlCode D Bool := do
  let ram ← get
  let step := fun (state : (Nat → Nat) × Bool) slot =>
    let value := if state.1 slot ≠ 0xff then state.1 slot + 1 else state.1 slot
    (Function.update state.1 slot value, state.2 && decide (¬ value < 0x60))
  let (table, hot) := (hdiSlots l addr).foldl step (ram.hdiHashTable, true)
  -- cold down the hash table
  if ram.hdiCount = 0x1000 then
    modify fun ram =>
      { ram with
        hdiHashTable := fun i => if i < l.g.mppSize then table i / 2 else table i
        hdiCount := 0 }
  else modify fun ram => { ram with hdiHashTable := table, hdiCount := ram.hdiCount + 1 }
  pure hot

/-- `FTL_Format` -/
def ftlFormat : FtlCode D Status := do
  let ret ← ubiFormat
  let ret ← onSuccess ret ubiInit
  let ret ← onSuccess ret (dataFormat l)
  let ret ← onSuccess ret (hdiFormat l)
  let ret ← onSuccess ret (pmtFormat l)
  let ret ← onSuccess ret (bdtFormat l)
  onSuccess ret (rootFormat l)

/-- Reclaim the journals of one kind if all of them are full. -/
def reclaimIfFull (hot : Bool) (ret : Status) : FtlCode D Status := do
  let ram ← get
  if dataIsFull l hot ram then do
    let ret ← dataReclaim l fuel hot
    onSuccess ret (dataCommit l (pmtReclaimBlocks l fuel))
  else pure ret

/-- Scan the tables on the device, and copy them to memory. -/
def ftlInitTables : FtlCode D Status := do
  let ret ← rootInit l
  let ret ← onSuccess ret (bdtInit l)
  let ret ← onSuccess ret (pmtInit l)
  onSuccess ret (hdiInit l)

/-- `FTL_Init` -/
def ftlInit : FtlCode D Status := do
  let ret ← ubiInit
  let ret ← onSuccess ret (ftlInitTables l)
  let ret ← onSuccess ret (dataReplay l fuel true)
  let ret ← onSuccess ret (dataReplay l fuel false)
  onSuccess ret do
    let ret ← reclaimIfFull l fuel true ret
    reclaimIfFull l fuel false ret

/-- `FTL_Write` -/
def ftlWrite (addr : Nat) (buffer : Option D) : FtlCode D Status := do
  let hot ← hdiIsHotPage l addr
  let ret ← dataWrite l fuel addr buffer hot
  onSuccess ret (reclaimIfFull l fuel hot ret)

/-- `FTL_Read` -/
def ftlRead (addr : Nat) : FtlCode D (Status × FtlPage D) := do
  let (ret, block, page) ← pmtSearch l (pmtReclaimBlocks l fuel) addr
  if ret = .success then do
    let answer ← ubiRead block page
    pure (answer.status, answer.main)
  else pure (ret, .ones)

/-- `FTL_Trim` of so many pages. -/
def ftlTrim : Nat → Nat → FtlCode D Status
  | 0, _ => pure .success
  | count + 1, addr => do
      let ret ← ftlWrite l fuel addr none
      onSuccess ret (ftlTrim count (addr + 1))

/-- `FTL_Flush` of a build with `SIM_TEST`.  In other builds `UBI_SWL` is not called, and a layer
below that answers the call with a success and does nothing stands for these. -/
def ftlFlush : FtlCode D Status := do
  let ret ← dataCommit l (pmtReclaimBlocks l fuel)
  let ret ← onSuccess ret ubiFlush
  onSuccess ret ubiSwl

end DataFile

end OpenNfm.Ftl
