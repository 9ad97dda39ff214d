import OpenNfm.Ftl.Logs

/-!
# The page mapping table

`ftl_pmt.c`: the root holds one word for each cluster of logical pages, and a node of the
cluster holds one word for each of its pages.  Nodes are loaded into a few cache slots;
`PMT_Commit` writes the dirty ones back and empties the cache.  A cluster whose node is
in memory has the address of its slot in the root, with a dirty bit.
-/

namespace OpenNfm.Ftl

open OpenNfm.Program

section Reclaim

variable (l : Layout) {D : Type}

/-- `CLUSTER_INDEX` -/
def clusterIndex (pageAddr : Nat) : Nat := pageAddr / l.pmPerNode

/-- `PAGE_IN_CLUSTER` -/
def pageInCluster (pageAddr : Nat) : Nat := pageAddr % l.pmPerNode

/-- `PMT_CACHE_COUNT` -/
def pmtCacheCount : Nat := l.g.pmtCacheCount

/-- `INVALID_CLUSTER`, the cluster of an unused slot. -/
def invalidCluster : Nat := allOnes

/-- The address of a cache slot. -/
def slotAddress (i : Nat) : Nat := l.nodeCaches + i * l.g.mppSize

/-- The slot at an address. -/
def slotAt (address : Nat) : Option Nat :=
  (List.range (pmtCacheCount l)).find? fun i => slotAddress l i = address

/-- The words of the root table for the clusters. -/
def setNode (ram : FtlRam) (cluster word : Nat) : FtlRam :=
  { ram with
    rootTable :=
      { ram.rootTable with
        pageMappingNodes := Function.update ram.rootTable.pageMappingNodes cluster word } }

/-- The word of a cluster in the root table. -/
def rootNode (cluster : Nat) : FtlCode D Nat := do
  let ram ← get
  if cluster < l.maxPmClusters then pure (ram.rootTable.pageMappingNodes cluster)
  else Code.halt .undefined

/-- Another count of stale pages for a block. -/
def setDirtyCount (block count : Nat) (ram : FtlRam) : FtlRam :=
  { ram with blockDirtyTable := Function.update ram.blockDirtyTable block count }

/-- One more dirty page in a block. -/
def addDirty (block : Nat) : FtlCode D Unit := do
  modify fun ram =>
    { ram with
      blockDirtyTable :=
        Function.update ram.blockDirtyTable block ((ram.blockDirtyTable block + 1) % 2 ^ 8) }
  let ram ← get
  Code.assert (ram.blockDirtyTable block ≤ l.maxDirtyPages)

/-! ## Format -/

/-- Write the node of a cluster without pages. -/
def pmtFormatNode (cluster block page : Nat) : FtlCode D Status := do
  let ret ← ubiWrite block page (.node fun _ => PmNode.invalid) (some ⟨cluster, 0⟩) false
  onSuccess ret do
    modify fun ram =>
      setNode { ram with metaData := Function.update ram.metaData page cluster } cluster
        (PmNode.setBlockPage l.g block page)
    pure ret

/-- Write the last page of a block, which is reserved for the meta data. -/
def pmtFormatMeta (block : Nat) : FtlCode D Status := do
  let ram ← get
  let ret ← ubiWrite block (l.pagePerPhyBlock - 1) (.clusters ram.metaData) none false
  onSuccess ret do
    modify (setDirtyCount block 0)
    pure ret

/-- Format the clusters from `cluster` on, and hand back the next block and page. -/
def pmtFormatClusters : Nat → Nat → Nat → Nat → FtlCode D (Status × Nat × Nat)
  | 0, _, block, page => pure (.success, block, page)
  | rounds + 1, cluster, block, page => do
      let ret ← pmtFormatNode l cluster block page
      let nextPage := if page < l.pagePerPhyBlock - 1 then page + 1 else page
      if ret ≠ .success then pure (ret, block, page)
      else if nextPage ≠ l.pagePerPhyBlock - 1 then
        pmtFormatClusters rounds (cluster + 1) block nextPage
      else do
        let ret ← pmtFormatMeta l block
        if ret ≠ .success then pure (ret, block, nextPage)
        else pmtFormatClusters rounds (cluster + 1) (block + 1) 0

/-- The clusters that the capacity needs. -/
def pmtClusterCount : Nat := (l.ftlCapacity + l.pmPerNode - 1) / l.pmPerNode

/-- The journal blocks after the format. -/
def startBlocks (block page : Nat) (ram : FtlRam) : FtlRam :=
  { ram with
    rootTable :=
      { ram.rootTable with
        pmtCurrentBlock := PmNode.setBlockPage l.g block page
        pmtReclaimBlock := PmNode.setBlockPage l.g (block + 1) 0 }
    blockDirtyTable := Function.update (Function.update ram.blockDirtyTable block 0) (block + 1) 0 }

/-- `PMT_Format` -/
def pmtFormat : FtlCode D Status := do
  Code.assert (pmtClusterCount l < l.maxPmClusters)
  let (ret, block, page) ← pmtFormatClusters l (pmtClusterCount l) 0 Layout.pmtStartBlock 0
  onSuccess ret do
    modify (startBlocks l block page)
    pure ret

/-- `PMT_Init` -/
def pmtInit : FtlCode D Status := do
  modify fun ram =>
    { ram with
      pmNodeCaches := fun i k => if i < pmtCacheCount l then 0 else ram.pmNodeCaches i k
      pmCacheOriginLocation := fun i =>
        if i < pmtCacheCount l then PmNode.invalid else ram.pmCacheOriginLocation i
      pmCacheCluster := fun i =>
        if i < pmtCacheCount l then invalidCluster else ram.pmCacheCluster i }
  pure .success

/-! ## Reclaim -/

/-- Look for a ready block with the target dirty count, and for the next lower count. -/
def pmtFindDirty (target : Nat) : List Nat → Nat → FtlCode D (Option Nat × Nat)
  | [], nextCount => pure (none, nextCount)
  | i :: rest, nextCount => do
      let ram ← get
      if ram.blockDirtyTable i = target then do
        let ret ← ubiReadStatus i
        if ret = .success then pure (some i, nextCount) else pmtFindDirty target rest nextCount
      else
        pmtFindDirty target rest
          (if ram.blockDirtyTable i < target ∧ ram.blockDirtyTable i > nextCount then
            ram.blockDirtyTable i
          else nextCount)

/-- The dirtiest block of the page mapping table that is ready.  The next lower count is
kept from round to round. -/
def pmtFindLoop : Nat → Nat → Nat → FtlCode D Nat
  | 0, _, _ => Code.halt .fuel
  | rounds + 1, target, nextCount => do
      let (found, nextCount) ← pmtFindDirty target
        (List.range' Layout.pmtStartBlock l.pmtBlockCount) nextCount
      match found with
      | some i => pure i
      | none => pmtFindLoop rounds nextCount nextCount

/-- The slot of a cluster. -/
def slotOfCluster (ram : FtlRam) (cluster : Nat) : Option Nat :=
  (List.range (pmtCacheCount l)).find? fun i => ram.pmCacheCluster i = cluster

/-- Where the node of a cluster is valid on the device, and the slot that is cleared if it
moves.  A dirty node will be written by the commit. -/
def pmtValidNode (cluster : Nat) : FtlCode D (Nat × Option Nat) := do
  let node ← rootNode l cluster
  if PmNode.isCached node then
    if PmNode.isDirty node then pure (PmNode.invalid, none)
    else
      let ram ← get
      match slotOfCluster l ram cluster with
      | some i => pure (ram.pmCacheOriginLocation i, some i)
      | none => Code.halt .assertion
  else pure (node, none)

/-- Empty one slot of the cache. -/
def clearSlot (i : Nat) (ram : FtlRam) : FtlRam :=
  { ram with
    pmNodeCaches := Function.update ram.pmNodeCaches i fun _ => 0
    pmCacheOriginLocation := Function.update ram.pmCacheOriginLocation i PmNode.invalid
    pmCacheCluster := Function.update ram.pmCacheCluster i invalidCluster }

/-- The node of a cluster has moved to a page of the reclaim block. -/
def moveNode (cluster word page : Nat) (cleared : Option Nat) (ram : FtlRam) : FtlRam :=
  let ram := setNode ram cluster word
  let ram := { ram with metaData := Function.update ram.metaData page cluster }
  cleared.elim ram fun i => clearSlot i ram

/-- Copy a valid page of the dirty block to the reclaim block. -/
def pmtCopyPage (cluster dirtyBlock page reclaimBlock reclaimPage : Nat) (cleared : Option Nat) :
    FtlCode D Status := do
  let answer ← ubiRead dirtyBlock page
  onSuccess answer.status do
    let ret ← ubiWrite reclaimBlock reclaimPage answer.main none false
    onSuccess ret do
      modify (moveNode cluster (PmNode.setBlockPage l.g reclaimBlock reclaimPage) reclaimPage
        cleared)
      pure ret

/-- Copy the valid pages of the dirty block, from `page` on. -/
def pmtCopyPages (clusters : Nat → Nat) (dirtyBlock reclaimBlock : Nat) :
    Nat → Nat → Nat → Status → FtlCode D (Nat × Status)
  | 0, _, reclaimPage, ret => pure (reclaimPage, ret)
  | rounds + 1, page, reclaimPage, ret => do
      let (node, cleared) ← pmtValidNode l (clusters page)
      if node ≠ PmNode.invalid ∧ PmNode.block l.g node = dirtyBlock ∧
          PmNode.page l.g node = page then do
        let ret ← pmtCopyPage l (clusters page) dirtyBlock page reclaimBlock reclaimPage cleared
        pmtCopyPages clusters dirtyBlock reclaimBlock rounds (page + 1)
          (if ret = .success then reclaimPage + 1 else reclaimPage) ret
      else pmtCopyPages clusters dirtyBlock reclaimBlock rounds (page + 1) reclaimPage ret

/-- Copy the valid pages of a block, and hand back the page behind the copies. -/
def pmtCopyBlock (dirtyBlock reclaimBlock : Nat) : FtlCode D (Nat × Status) := do
  let answer ← ubiRead dirtyBlock (l.pagePerPhyBlock - 1)
  if answer.status = .success then do
    let clusters ← loadClusters answer.main
    pmtCopyPages l clusters dirtyBlock reclaimBlock (l.pagePerPhyBlock - 1) 0 0 .success
  else pure (0, answer.status)

/-- The reclaim block becomes the current one, and the dirty block the reclaim block. -/
def switchBlocks (dirtyBlock reclaimBlock reclaimPage : Nat) (ram : FtlRam) : FtlRam :=
  { ram with
    rootTable :=
      { ram.rootTable with
        pmtCurrentBlock := PmNode.setBlockPage l.g reclaimBlock reclaimPage
        pmtReclaimBlock := PmNode.setBlockPage l.g dirtyBlock 0 }
    blockDirtyTable :=
      Function.update (Function.update ram.blockDirtyTable reclaimBlock 0) dirtyBlock 0 }

/-- The block without valid pages becomes the current one. -/
def restartBlock (block : Nat) (ram : FtlRam) : FtlRam :=
  { ram with
    rootTable := { ram.rootTable with pmtCurrentBlock := PmNode.setBlockPage l.g block 0 }
    blockDirtyTable := Function.update ram.blockDirtyTable block 0 }

/-- Erase the dirty block, and then update the journals. -/
def pmtErase (block : Nat) (change : FtlRam → FtlRam) : FtlCode D Status := do
  let ret ← ubiErase block block
  onSuccess ret do
    modify change
    pure ret

/-- Reclaim a block: move its valid pages to the reclaim block, or take it as it is if all
of its pages are dirty. -/
def pmtReclaimBlock (i : Nat) : FtlCode D Status := do
  let ram ← get
  if l.maxDirtyPages - ram.blockDirtyTable i ≠ 0 then do
    let reclaimBlock := PmNode.block l.g ram.rootTable.pmtReclaimBlock
    let (reclaimPage, ret) ← pmtCopyBlock l i reclaimBlock
    onSuccess ret (pmtErase i (switchBlocks l i reclaimBlock reclaimPage))
  else pmtErase i (restartBlock l i)

/-- `pmt_reclaim_blocks` -/
def pmtReclaimBlocks (fuel : Nat) : FtlCode D Status := do
  let i ← pmtFindLoop l fuel l.maxDirtyPages 0
  pmtReclaimBlock l i

end Reclaim

/-! ## Commit

The functions from here on take the code that reclaims a block as an argument, which is
`pmtReclaimBlocks` in the source. -/

section Commit

variable (l : Layout) {D : Type} (reclaim : FtlCode D Status)

/-- The block into which nodes are written. -/
def pmtCurrentBlock (ram : FtlRam) : Nat := PmNode.block l.g ram.rootTable.pmtCurrentBlock

/-- The next page of that block. -/
def pmtCurrentPage (ram : FtlRam) : Nat := PmNode.page l.g ram.rootTable.pmtCurrentBlock

/-- The node of a slot is on a page, and the journal behind it. -/
def storedNode (i block page : Nat) (ram : FtlRam) : FtlRam :=
  let cluster := ram.pmCacheCluster i
  let ram := setNode ram cluster (PmNode.setBlockPage l.g block page)
  { ram with
    rootTable :=
      { ram.rootTable with pmtCurrentBlock := PmNode.setBlockPage l.g block (page + 1) }
    metaData := Function.update ram.metaData page cluster }

/-- Write the node of a slot to the current page. -/
def pmtStoreNode (i : Nat) : FtlCode D Status := do
  let ram ← get
  let block := pmtCurrentBlock l ram
  let page := pmtCurrentPage l ram
  let ret ← ubiWrite block page (.node (ram.pmNodeCaches i)) (some ⟨ram.pmCacheCluster i, 0⟩) false
  onSuccess ret do
    modify (storedNode l i block page)
    addDirty l (PmNode.block l.g (ram.pmCacheOriginLocation i))
    pure ret

/-- Write the dirty node of a slot if the current page is in the block. -/
def pmtWriteSlot (i : Nat) (ret : Status) : FtlCode D Status := do
  let ram ← get
  if pmtCurrentPage l ram ≠ l.pagePerPhyBlock then do
    -- the last page is reserved
    Code.assert (pmtCurrentPage l ram ≠ l.pagePerPhyBlock - 1)
    onSuccess ret (pmtStoreNode l i)
  else pure ret

/-- Write the meta data to the last page of the block, and find another one. -/
def pmtFinishBlock : FtlCode D Status := do
  let ram ← get
  let ret ← ubiWrite (pmtCurrentBlock l ram) (pmtCurrentPage l ram) (.clusters ram.metaData) none
    false
  -- flush the pages in progress on all dice
  let ret ← onSuccess ret ubiFlush
  onSuccess ret reclaim

/-- A full block gets its page of meta data, and another one takes its place. -/
def pmtNextBlock (ret : Status) : FtlCode D Status := do
  let ram ← get
  if pmtCurrentPage l ram = l.pagePerPhyBlock - 1 then
    onSuccess ret (pmtFinishBlock l reclaim)
  else pure ret

/-- Write back the slots from `i` on. -/
def pmtCommitSlots : Nat → Nat → Status → FtlCode D Status
  | 0, _, ret => pure ret
  | rounds + 1, i, ret => do
      let ram ← get
      if ram.pmCacheCluster i = invalidCluster then pmtCommitSlots rounds (i + 1) ret
      else do
        let node := ram.rootTable.pageMappingNodes (ram.pmCacheCluster i)
        Code.assert (PmNode.isCached node = true)
        if PmNode.isDirty node = false then do
          modify fun ram =>
            setNode ram (ram.pmCacheCluster i) (ram.pmCacheOriginLocation i)
          pmtCommitSlots rounds (i + 1) ret
        else do
          let ret ← pmtWriteSlot l i ret
          let ret ← pmtNextBlock l reclaim ret
          pmtCommitSlots rounds (i + 1) ret

/-- `PMT_Commit` -/
def pmtCommit : FtlCode D Status := do
  let ret ← pmtCommitSlots l reclaim (pmtCacheCount l) 0 .success
  onSuccess ret (pmtInit l)

/-- `DATA_Commit` of `ftl_data.c`, which a full cache calls for. -/
def dataCommit : FtlCode D Status := do
  let ret ← hdiCommit l
  let ret ← onSuccess ret (pmtCommit l reclaim)
  let ret ← onSuccess ret (bdtCommit l)
  let ret ← onSuccess ret (rootCommit l)
  onSuccess ret do
    modify fun ram => { ram with editionInHotJournal := 0, editionInColdJournal := 0 }
    pure ret

/-! ## Lookups -/

/-- The first empty slot of the cache. -/
def freeSlot (ram : FtlRam) : Option Nat :=
  (List.range (pmtCacheCount l)).find? fun i => ram.pmCacheOriginLocation i = PmNode.invalid

/-- A slot for the node of a cluster, and where the node is.  If the cache is full, a commit
releases all slots and may move the node. -/
def pmtMakeRoom (block page cluster : Nat) : FtlCode D (Status × Nat × Nat × Nat) := do
  let ram ← get
  match freeSlot l ram with
  | some i => pure (.success, i, block, page)
  | none => do
      let ret ← dataCommit l reclaim
      let ram ← get
      let node := ram.rootTable.pageMappingNodes cluster
      if ret = .success then pure (ret, 0, PmNode.block l.g node, PmNode.page l.g node)
      else pure (ret, 0, block, page)

/-- The slot holds the node of a cluster. -/
def cacheNode (i block page cluster : Nat) (ram : FtlRam) : FtlRam :=
  let ram := setNode ram cluster (slotAddress l i)
  { ram with
    pmCacheOriginLocation :=
      Function.update ram.pmCacheOriginLocation i (PmNode.setBlockPage l.g block page)
    pmCacheCluster := Function.update ram.pmCacheCluster i cluster }

/-- Read a node into a slot. -/
def pmtFill (i block page cluster : Nat) : FtlCode D Status := do
  let answer ← ubiRead block page
  let words ← loadNode answer.main
  modify fun ram => { ram with pmNodeCaches := Function.update ram.pmNodeCaches i words }
  onSuccess answer.status do
    modify (cacheNode l i block page cluster)
    -- the page mapping is clean in memory
    Code.assert (slotAddress l i % 4 = 0)
    pure answer.status

/-- `PMT_Load` -/
def pmtLoad (block page cluster : Nat) : FtlCode D Status := do
  let (ret, i, block, page) ← pmtMakeRoom l reclaim block page cluster
  onSuccess ret (pmtFill l i block page cluster)

/-- Load the node of a cluster unless it is cached. -/
def pmtCached (cluster : Nat) : FtlCode D Status := do
  let node ← rootNode l cluster
  if PmNode.isCached node = false then
    pmtLoad l reclaim (PmNode.block l.g node) (PmNode.page l.g node) cluster
  else pure .success

/-- The slot that the root names for a cluster. -/
def pmtSlot (cluster : Nat) : FtlCode D Nat := do
  let node ← rootNode l cluster
  match slotAt l (PmNode.address node) with
  | some i => pure i
  | none => Code.halt .undefined

/-- The word of a logical page in a slot, when it is on a block or trimmed. -/
def pmtWord (block page : Nat) : FtlCode D Nat := do
  if block ≠ invalidBlock then do
    Code.assert (page ≠ invalidPage)
    pure (PmNode.setBlockPage l.g block page)
  else do
    Code.assert (page = invalidPage)
    pure PmNode.invalid

/-- Enter a word in a slot, and set the dirty bit of its cluster. -/
def enterWord (i pageAddr word : Nat) (ram : FtlRam) : FtlRam :=
  let cluster := clusterIndex l pageAddr
  let ram := setNode ram cluster (PmNode.setDirty (ram.rootTable.pageMappingNodes cluster))
  { ram with
    pmNodeCaches := Function.update ram.pmNodeCaches i
      (Function.update (ram.pmNodeCaches i) (pageInCluster l pageAddr) word) }

/-- The page that a slot has named so far becomes dirty. -/
def pmtDropPage (i pageAddr : Nat) : FtlCode D Unit := do
  let ram ← get
  let word := ram.pmNodeCaches i (pageInCluster l pageAddr)
  if word ≠ PmNode.invalid then addDirty l (PmNode.block l.g word) else pure ()

/-- `PMT_Update` -/
def pmtUpdate (pageAddr block page : Nat) : FtlCode D Status := do
  let ret ← pmtCached l reclaim (clusterIndex l pageAddr)
  onSuccess ret do
    let i ← pmtSlot l (clusterIndex l pageAddr)
    pmtDropPage l i pageAddr
    let word ← pmtWord l block page
    modify (enterWord l i pageAddr word)
    pure ret

/-- The block and page of a logical page. -/
def pmtSearch (pageAddr : Nat) : FtlCode D (Status × Nat × Nat) := do
  let cluster := clusterIndex l pageAddr
  let ret ← pmtCached l reclaim cluster
  if ret = .success then do
    let node ← rootNode l cluster
    Code.assert (node ≠ PmNode.invalid)
    Code.assert (PmNode.address node ≠ 0)
    let i ← pmtSlot l cluster
    let ram ← get
    let word := ram.pmNodeCaches i (pageInCluster l pageAddr)
    if word ≠ PmNode.invalid then pure (ret, PmNode.block l.g word, PmNode.page l.g word)
    else pure (ret, invalidBlock, invalidPage)
  else pure (ret, invalidBlock, invalidPage)

end Commit

end OpenNfm.Ftl
