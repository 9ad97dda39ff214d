import OpenNfm.Ubi.FreeTable

/-!
# The area tables

`ubi_area.c`: the map from logical to physical blocks, cut into areas.  Each
area has a block of its own to which new versions of its table are appended;
one area table at a time is cached.
-/

namespace OpenNfm

open OpenNfm.Program

section AreaFile

variable (g : Geometry) {D : Type}

/-- Make `area` the cached area. -/
def areaRead (area : Nat) : Ubi D Status := do
  let ram ← get
  let ret ←
    if area ≠ ram.cachedAreaNumber then do
      Code.assert (area ≠ invalidArea)
      let (ret, page, buffer) ←
        tableRead g (ram.indexTable.areaIndex area).block (ram.areaOffsetTable area)
      let table ← loadArea buffer
      modify fun ram =>
        { ram with
          areaOffsetTable := Function.update ram.areaOffsetTable area page
          cachedAreaTable := table }
      pure ret
    else pure .success
  modify fun ram =>
    { ram with cachedAreaNumber := if ret = .success then area else invalidArea }
  pure ret

/-- `AREA_Init` -/
def areaInit (area : Nat) : Ubi D Status := do
  modify fun ram =>
    { ram with
      cachedAreaNumber := invalidArea
      areaOffsetTable := Function.update ram.areaOffsetTable area invalidPage }
  areaRead g area

/-- Is the block of the area full? -/
def areaIsFull (logicalBlock : Nat) : Ubi D Bool := do
  let area := g.areaIndex logicalBlock
  let status ← areaRead g area
  let ram ← get
  pure (status = .success ∧ ram.areaOffsetTable area = g.pagePerPhyBlock - 1)

/-- Offset of the first entry of the table with the least erase count among
the first `n`. -/
def minEcOffset (table : AreaTable) (n : Nat) : Nat :=
  (List.range n).foldl (fun least i => if (table i).ec < (table least).ec then i else least) 0

/-- The block of the area with the least erase count and its offset; no block
when the area cannot be read. -/
def areaFindMinEcBlock (area : Nat) : Ubi D (Nat × Option BlockEc) := do
  let status ← areaRead g area
  if status = .success then do
    let ram ← get
    let least := minEcOffset ram.cachedAreaTable g.cfgPhyBlockPerArea
    pure (least, some (ram.cachedAreaTable least))
  else pure (0, none)

/-- Does the cached area table miss the announced update?  Then it is made
good in the cache. -/
def areaCheckUpdatePlr (logicalBlock originBlock : Nat) (blockEc : EraseCount) : Ubi D Bool := do
  let blockOffset := g.blockOffsetArea logicalBlock
  let ram ← get
  if ram.cachedAreaTable blockOffset = ⟨originBlock, blockEc⟩ then pure false
  else do
    modify fun ram =>
      { ram with cachedAreaTable :=
        Function.update ram.cachedAreaTable blockOffset ⟨originBlock, blockEc⟩ }
    pure true

/-- Enter a new mapping in the table of its area and append the table to the
block of the area. -/
def areaUpdate (logicalBlock newOriginBlock : Nat) (newOriginEc : EraseCount) : Ubi D Status := do
  let block := g.blockOffsetArea logicalBlock
  let area := g.areaIndex logicalBlock
  let ret ← areaRead g area
  let (ret, page) ←
    if ret = .success then do
      if newOriginBlock ≠ invalidBlock then
        modify fun ram =>
          { ram with cachedAreaTable :=
            Function.update ram.cachedAreaTable block ⟨newOriginBlock, newOriginEc⟩ }
      let ram ← get
      let page := (ram.areaOffsetTable area + 1) % g.pagePerPhyBlock
      let ret ← tableWrite (ram.indexTable.areaIndex area).block page (.area ram.cachedAreaTable)
      pure (ret, page)
    else pure (ret, invalidPage)
  if ret = .success then do
    Code.assert (page ≠ invalidPage)
    modify fun ram =>
      { ram with areaOffsetTable := Function.update ram.areaOffsetTable area page }
  else if ret = .badblock then
    -- let the next update move the table to another block
    modify fun ram =>
      { ram with
        areaOffsetTable := Function.update ram.areaOffsetTable area (g.pagePerPhyBlock - 1)
        indexTable :=
          { ram.indexTable with
            areaIndex := Function.update ram.indexTable.areaIndex area
              ⟨(ram.indexTable.areaIndex area).block, invalidEc⟩ } }
  pure ret

/-- `AREA_GetBlock` -/
def areaGetBlock (logicalBlock : Nat) : Ubi D Nat := do
  let status ← areaRead g (g.areaIndex logicalBlock)
  let ram ← get
  pure (if status = .success then (ram.cachedAreaTable (g.blockOffsetArea logicalBlock)).block
    else invalidBlock)

/-- `AREA_GetEC` -/
def areaGetEc (logicalBlock : Nat) : Ubi D EraseCount := do
  let status ← areaRead g (g.areaIndex logicalBlock)
  let ram ← get
  pure (if status = .success then (ram.cachedAreaTable (g.blockOffsetArea logicalBlock)).ec
    else invalidEc)

/-! ## Format -/

/-- Fill the table with the next good blocks: `steps` bounds the blocks left on
the device, `i` counts the entries made.  Hands back the last status, the
next block, and the table. -/
def areaFormatFill (blockCount : Nat) :
    Nat → Nat → Nat → Status → AreaTable → Ubi D (Status × Nat × AreaTable)
  | 0, _, _, _, _ => Code.halt .fuel
  | steps + 1, i, fmtCurrentBlock, ret, table =>
      if i < blockCount then
        if fmtCurrentBlock < g.cfgLogBlockCount then do
          let bad ← anchorIsBadBlock g fmtCurrentBlock
          let ret ←
            if bad then pure .badblock
            else do
              let ret ← mtdErase fmtCurrentBlock
              if ret ≠ .success then anchorLogBadBlock g fmtCurrentBlock
              pure ret
          if ret = .success then
            areaFormatFill blockCount steps (i + 1) (fmtCurrentBlock + 1) ret
              (Function.update table i ⟨fmtCurrentBlock, (0 : Nat)⟩)
          else areaFormatFill blockCount steps i (fmtCurrentBlock + 1) ret table
        else pure (ret, fmtCurrentBlock, table)
      else pure (ret, fmtCurrentBlock, table)

/-- The first block from `block` on that is not in the bad block table. -/
def areaFormatSkip : Nat → Nat → Ubi D Nat
  | 0, _ => Code.halt .fuel
  | steps + 1, block => do
      let bad ← anchorIsBadBlock g block
      if bad then areaFormatSkip steps (block + 1) else pure block

/-- Lay out one area and write its first table.  Hands back the next block, or
`INVALID_BLOCK`. -/
def areaFormat (blockCount fmtCurrentBlock area : Nat) : Ubi D Nat := do
  modify fun ram => { ram with cachedAreaTable := .blank }
  let (ret, fmtCurrentBlock, table) ←
    areaFormatFill g blockCount (g.cfgLogBlockCount + 1) 0 fmtCurrentBlock .success .blank
  let table : AreaTable := fun i =>
    if blockCount ≤ i ∧ i < g.cfgPhyBlockPerArea then .invalid else table i
  modify fun ram => { ram with cachedAreaTable := table }
  let (ret, fmtCurrentBlock) ←
    if ret = .success then do
      let block ← areaFormatSkip g (g.anchorBadblockCount + 1) fmtCurrentBlock
      let ret ← mtdErase block
      pure (ret, block)
    else pure (ret, fmtCurrentBlock)
  let ret ← if ret = .success then tableWrite fmtCurrentBlock 0 (.area table) else pure ret
  if ret = .success then do
    modify fun ram =>
      { ram with
        indexTable :=
          { ram.indexTable with
            areaIndex := Function.update ram.indexTable.areaIndex area
              ⟨fmtCurrentBlock, (0 : Nat)⟩ }
        areaOffsetTable := Function.update ram.areaOffsetTable area 0 }
    pure (fmtCurrentBlock + 1)
  else do
    anchorLogBadBlock g fmtCurrentBlock
    pure invalidBlock

end AreaFile

end OpenNfm
