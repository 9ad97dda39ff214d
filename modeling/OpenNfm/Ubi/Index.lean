import OpenNfm.Ubi.Area

/-!
# The index

`ubi_index.c` apart from the free block table: the index table is appended to
the index block, and one commit brings the area table, the index table and the
anchor up to date in the order that recovery relies on.
-/

namespace OpenNfm

open OpenNfm.Program

section IndexFile

variable (g : Geometry) (fuel : Nat) {D : Type}

/-! ## Writing the index -/

/-- Append the index table to the index block, which moves to a free block
first when it is full. -/
def indexUpdate : Ubi D Status := do
  let ram ← get
  let ret ←
    if ram.indexNextPage = g.pagePerPhyBlock then do
      let (ret, free) ← indexFreeBlockGet g fuel ram.indexBlock
      let ret ←
        if ret = .success then do
          anchorIndexReclaim ram.indexBlock ram.indexBlockEc free.block free.ec
          anchorUpdate g fuel
        else pure ret
      if ret = .success then do
        -- release the current index block
        indexFreeBlockPut g ram.indexBlock ram.indexBlockEc
        modify fun ram =>
          { ram with indexBlock := free.block, indexNextPage := 0, indexBlockEc := free.ec }
      pure ret
    else pure .success
  let ram ← get
  let ret ←
    if ret = .success then tableWrite ram.indexBlock ram.indexNextPage (.index ram.indexTable)
    else pure ret
  if ret = .success then
    modify fun ram => { ram with indexNextPage := ram.indexNextPage + 1 }
  else if ret = .badblock then
    modify fun ram =>
      { ram with indexNextPage := g.pagePerPhyBlock, indexBlockEc := invalidEc }
  pure ret

/-- Give the area a new block and release the one it had. -/
def indexUpdateAreaReclaim (area : Nat) (newBlock : Nat) (nec : EraseCount) : Ubi D Unit := do
  let ram ← get
  let old := ram.indexTable.areaIndex area
  indexFreeBlockPut g old.block old.ec
  modify fun ram =>
    { ram with indexTable :=
      { ram.indexTable with
        areaIndex := Function.update ram.indexTable.areaIndex area ⟨newBlock, nec⟩ } }

/-- Announce the update of an area table. -/
def indexUpdateAreaUpdate (logicalBlock physicalBlock : Nat) (blockEc : EraseCount) :
    Ubi D Unit := do
  Code.assert (physicalBlock ≠ invalidBlock ∧ blockEc ≠ invalidEc)
  modify fun ram =>
    { ram with
      indexTable :=
        { ram.indexTable with areaUpdatePlr := ⟨logicalBlock, physicalBlock, blockEc⟩ }
      isUpdatingArea := true }

/-- One round of `INDEX_Update_Commit`.  Hands back the status and whether the
area block has been reclaimed in this round or an earlier one. -/
def indexUpdateCommitRound (areaReclaim : Bool) : Ubi D (Status × Bool) := do
  let ram ← get
  if ram.isUpdatingArea then do
    let updating := ram.indexTable.areaUpdatePlr
    let full ← areaIsFull g updating.logicalBlock
    let (ret, areaReclaim) ←
      if full then do
        -- the new area block is valid once the index table names it
        let area := g.areaIndex updating.logicalBlock
        let ram ← get
        let (ret, new) ← indexFreeBlockGet g fuel (ram.indexTable.areaIndex area).block
        if ret = .success then do
          indexUpdateAreaReclaim g area new.block new.ec
          pure (ret, true)
        else pure (ret, areaReclaim)
      else do
        -- the index table announces the update of the area table
        let ret ← indexUpdate g fuel
        pure (ret, areaReclaim)
    let ret ←
      if ret = .success then do
        let ret ← areaUpdate g updating.logicalBlock updating.physicalBlock updating.blockEc
        if ret = .success ∧ areaReclaim then indexUpdate g fuel else pure ret
      else pure ret
    if ret = .success then modify fun ram => { ram with isUpdatingArea := false }
    pure (ret, areaReclaim)
  else do
    let ret ← indexUpdate g fuel
    pure (ret, areaReclaim)

/-- The loop of `INDEX_Update_Commit`, as often as a block is bad. -/
def indexUpdateCommitLoop : Nat → Bool → Ubi D Status
  | 0, _ => Code.halt .fuel
  | rounds + 1, areaReclaim => do
      let (ret, areaReclaim) ← indexUpdateCommitRound g fuel areaReclaim
      if ret = .badblock then indexUpdateCommitLoop rounds areaReclaim else pure ret

/-- `INDEX_Update_Commit` -/
def indexUpdateCommit : Ubi D Status :=
  indexUpdateCommitLoop g fuel fuel false

/-! ## Format and mount -/

/-- Distribute the blocks from `fmtCurrentBlock` on: the first good one is the
index block, the others are free.  Hands back the last status, the index block
and the free block table with the number of its entries. -/
def indexFormatFill :
    List Nat → Status → Nat → Nat → (Nat → BlockEc) →
      Ubi D (Status × Nat × Nat × (Nat → BlockEc))
  | [], ret, indexBlock, count, free => pure (ret, indexBlock, count, free)
  | block :: rest, _, indexBlock, count, free => do
      let bad ← anchorIsBadBlock g block
      let ret ←
        if bad then pure .badblock
        else do
          let ret ← mtdErase block
          if ret ≠ .success then anchorLogBadBlock g block
          pure ret
      if ret = .success then
        if indexBlock = invalidBlock then indexFormatFill rest ret block count free
        else do
          Code.assert (count < g.freeBlockCount)
          indexFormatFill rest ret indexBlock (count + 1)
            (Function.update free count ⟨block, (0 : Nat)⟩)
      else indexFormatFill rest ret indexBlock count free

/-- Lay out the index block and the free blocks and write the first index
table.  Hands back the block behind the last one, or `INVALID_BLOCK`. -/
def indexFormat (totalBlock fmtCurrentBlock : Nat) : Ubi D Nat := do
  modify fun ram =>
    { ram with indexTable :=
      { ram.indexTable with areaUpdatePlr := ⟨invalidBlock, invalidBlock, invalidEc⟩ } }
  let ram ← get
  let (ret, indexBlock, count, free) ←
    indexFormatFill g (List.range' fmtCurrentBlock (totalBlock - fmtCurrentBlock)) .success
      invalidBlock 0 ram.indexTable.free
  let free : Nat → BlockEc := fun i =>
    if count ≤ i ∧ i < g.freeBlockCount then .invalid else free i
  modify fun ram => { ram with indexTable := { ram.indexTable with free := free } }
  if indexBlock = invalidBlock then Code.assert (ret ≠ .success)
  let ret ←
    if ret = .success then do
      let bad ← anchorIsBadBlock g indexBlock
      pure (if bad then .badblock else ret)
    else pure ret
  let ret ← if ret = .success then mtdErase indexBlock else pure ret
  let ram ← get
  let ret ← if ret = .success then tableWrite indexBlock 0 (.index ram.indexTable) else pure ret
  if ret = .success then do
    modify fun ram =>
      { ram with anchorTable :=
        { ram.anchorTable with
          indexNewBlock := indexBlock
          indexNewEc := (0 : Nat)
          indexOldBlock := invalidBlock
          indexOldEc := invalidEc } }
    pure (max fmtCurrentBlock totalBlock)
  else do
    anchorLogBadBlock g indexBlock
    pure invalidBlock

/-- Load the index table from the block that the anchor names, or finish the
move of the index block that a power loss interrupted.  Hands back the status
and the update of an area table that the index announces. -/
def indexInit : Ubi D (Status × AreaUpdatePlr) := do
  modify fun ram => { ram with isUpdatingArea := false }
  let ram ← get
  Code.assert (ram.anchorTable.indexNewBlock ≠ invalidBlock)
  let (ret, page, buffer) ← tableRead g ram.anchorTable.indexNewBlock invalidPage
  let table ← loadIndex buffer
  modify fun ram => { ram with indexTable := table }
  let ret ←
    if ret = .success then do
      modify fun ram =>
        { ram with
          indexBlock := ram.anchorTable.indexNewBlock
          indexBlockEc := ram.anchorTable.indexNewEc
          indexNextPage := page + 1 }
      -- the status of this update is ignored
      let _ ← indexUpdate g fuel
      pure ret
    else do
      let ram ← get
      Code.assert (ram.anchorTable.indexOldBlock ≠ invalidBlock)
      let (ret, _, buffer) ← tableRead g ram.anchorTable.indexOldBlock invalidPage
      let table ← loadIndex buffer
      modify fun ram => { ram with indexTable := table }
      if ret = .success then do
        modify fun ram =>
          { ram with
            indexBlock := ram.anchorTable.indexOldBlock
            indexBlockEc := ram.anchorTable.indexOldEc
            indexNextPage := g.pagePerPhyBlock }
        indexUpdate g fuel
      else pure ret
  let ram ← get
  pure (ret, ram.indexTable.areaUpdatePlr)

end IndexFile

end OpenNfm
