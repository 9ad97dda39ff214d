import OpenNfm.Ubi.Index

/-!
# The functions of the UBI layer

`ubi_api.c`: format and mount, the operations on logical blocks, the recovery
from a failed program, and static wear levelling.
-/

namespace OpenNfm

open OpenNfm.Program

section ApiFile

variable (g : Geometry) (fuel : Nat) {D : Type}

/-! ## Format -/

/-- Build the bad block table of a device that holds no anchor. -/
def ubiDetectBadBlocks : List Nat → Ubi D Unit
  | [] => pure ()
  | block :: rest => do
      let ret ← mtdCheckBlock block
      let ret ← if ret = .success then mtdErase block else pure ret
      if ret ≠ .success then anchorLogBadBlock g block
      ubiDetectBadBlocks rest

/-- Lay out one area after another.  Hands back the next block or
`INVALID_BLOCK`, and the number of data blocks. -/
def ubiFormatAreas : Nat → Nat → Nat → Nat → Ubi D (Nat × Nat)
  | 0, _, _, _ => Code.halt .fuel
  | rounds + 1, fmtCurrentBlock, area, totalDataBlock => do
      Code.assert (fmtCurrentBlock < g.dataBlockCount)
      let blockCount := min (g.dataBlockCount - fmtCurrentBlock) g.cfgPhyBlockPerArea
      let fmtCurrentBlock ← areaFormat g blockCount fmtCurrentBlock area
      if fmtCurrentBlock ≠ invalidBlock then
        let totalDataBlock := totalDataBlock + blockCount
        if fmtCurrentBlock < g.dataBlockCount then
          ubiFormatAreas rounds fmtCurrentBlock (area + 1) totalDataBlock
        else pure (fmtCurrentBlock, totalDataBlock)
      else pure (fmtCurrentBlock, totalDataBlock)

/-- `UBI_Format` -/
def ubiFormat : Ubi D Status := do
  let ret ← anchorInit g
  if ret ≠ .success then ubiDetectBadBlocks g (List.range g.cfgLogBlockCount)
  let (fmtCurrentBlock, totalDataBlock) ←
    ubiFormatAreas g (g.dataBlockCount + 1) g.dataFirstBlock 0 0
  let fmtCurrentBlock ←
    if fmtCurrentBlock ≠ invalidBlock then
      indexFormat g g.cfgLogBlockCount fmtCurrentBlock
    else pure fmtCurrentBlock
  if fmtCurrentBlock ≠ invalidBlock then do
    Code.assert (fmtCurrentBlock = g.cfgLogBlockCount)
    anchorFormat g fuel totalDataBlock
  else do
    -- only the bad block table is of use
    let _ ← anchorFormat g fuel invalidBlock
    pure .ubiFormatError

/-! ## Mount -/

/-- Read the tables of all areas, and make good the announced update. -/
def ubiInitAreas (updating : AreaUpdatePlr) : List Nat → Status → Ubi D Status
  | [], ret => pure ret
  | area :: rest, _ => do
      let updatingArea :=
        if updating.logicalBlock ≠ invalidBlock then g.areaIndex updating.logicalBlock
        else invalidArea
      let ret ← areaInit g area
      if ret = .success then do
        let ret ←
          if area = updatingArea then do
            let missed ← areaCheckUpdatePlr g updating.logicalBlock updating.physicalBlock
              updating.blockEc
            if missed then do
              indexUpdateAreaUpdate updating.logicalBlock updating.physicalBlock updating.blockEc
              indexUpdateCommit g fuel
            else pure ret
          else pure ret
        -- the next area overwrites this status
        ubiInitAreas updating rest ret
      else pure ret

/-- `UBI_Init` -/
def ubiInit : Ubi D Status := do
  let ret ← anchorInit g
  let (ret, updating) ←
    if ret = .success then indexInit g fuel
    else pure (ret, ⟨invalidBlock, invalidBlock, invalidEc⟩)
  let ret ←
    if ret = .success then ubiInitAreas g fuel updating (List.range g.areaCount) ret
    else pure ret
  if ret = .success then
    modify fun ram =>
      { ram with diceHold := fun die =>
        if die < g.totalDieCount then { ram.diceHold die with phyBlock := invalidBlock }
        else ram.diceHold die }
  pure ret

/-! ## Reading and writing -/

/-- Read a page.  The page `INVALID_PAGE` of `INVALID_BLOCK` is all zeros, and
reading it leaves the spare area as it was. -/
def ubiRead [Zero D] (block page : Nat) : Ubi D (ReadAnswer (UbiBuffer D)) := do
  if block ≠ invalidBlock ∧ page ≠ invalidPage then do
    let phyBlock ← areaGetBlock g block
    Code.assert (phyBlock ≠ invalidBlock)
    mtdRead phyBlock page
  else do
    Code.assert (block = invalidBlock ∧ page = invalidPage)
    pure ⟨.success, .data 0, .ones⟩

/-- Copy the first pages of a block; a page that cannot be read is copied as
it is found. -/
def ubiCopyPages (source target : Nat) : List Nat → Ubi D Status
  | [] => pure .success
  | page :: rest => do
      let answer ← mtdRead source page
      let ret ← mtdProgram target page answer.main (some answer.spare)
      let ret ← if ret = .success then mtdWaitReady target else pure ret
      if ret = .success then ubiCopyPages source target rest else pure ret

/-- Give a logical block another physical block after a program failed, with
copies of the pages before the failed one.  The bad block goes back to the
free blocks with a higher erase count; it is dropped when its erase fails. -/
def ubiReclaimBadblock (logBlock phyBlock : Nat) (phyBlockEc : EraseCount) (badPage : Nat) :
    Ubi D (Status × BlockEc) := do
  let (ret, new) ← indexFreeBlockGet g fuel phyBlock
  let ret ←
    if ret = .success then ubiCopyPages phyBlock new.block (List.range badPage) else pure ret
  let ret ←
    if ret = .success then do
      indexFreeBlockPut g phyBlock (phyBlockEc.plus g.staticWlThreshold)
      indexUpdateAreaUpdate logBlock new.block new.ec
      indexUpdateCommit g fuel
    else pure ret
  pure (ret, if ret = .success then new else .invalid)

/-- The slot that holds a page whose block has the same high bits. -/
def ubiFindDieBuffer (block : Nat) : Ubi D Nat := do
  let ram ← get
  match (List.range g.totalDieCount).find? fun i =>
      (ram.diceHold i).phyBlock ≠ invalidBlock ∧
        (ram.diceHold i).phyBlock / 2 ^ g.blockPerPlaneShift =
          block / 2 ^ g.blockPerPlaneShift with
  | some i => pure i
  | none => Code.halt .assertion

/-- A change of the page that a die holds. -/
def setHold (slot : Nat) (change : DieHoldPage D → DieHoldPage D) : Ubi D Unit :=
  modify fun ram =>
    { ram with diceHold := Function.update ram.diceHold slot (change (ram.diceHold slot)) }

/-- The first loop of `UBI_Write`: recover the held page as long as the die
reports a failure.  Hands back the status and the slot. -/
def ubiWriteRecoverHeld (phyBlock : Nat) : Nat → Status → Nat → Ubi D (Status × Nat)
  | 0, _, _ => Code.halt .fuel
  | rounds + 1, ret, dieIndex =>
      if ret = .badblock then do
        let dieIndex ← ubiFindDieBuffer g phyBlock
        let ram ← get
        let held := ram.diceHold dieIndex
        Code.assert (held.phyBlock ≠ invalidBlock)
        let (ret, new) ←
          ubiReclaimBadblock g fuel held.logBlock held.phyBlock held.ec held.page
        let ret ←
          if ret = .success then do
            setHold dieIndex fun held => { held with phyBlock := new.block, ec := new.ec }
            match held.buffer with
            | some buffer =>
                mtdProgram new.block held.page buffer.content (some held.spare)
            | none => Code.halt .undefined
          else pure ret
        let ret ← if ret = .success then mtdWaitReady new.block else pure ret
        ubiWriteRecoverHeld phyBlock rounds ret dieIndex
      else pure (ret, dieIndex)

/-- The loop of `UBI_Write` that waits for the page itself. -/
def ubiWriteRecover (block phyBlock : Nat) (phyBlockEc : EraseCount) (page : Nat)
    (content : UbiBuffer D) (spare : Option Spare) : Nat → Status → Ubi D Status
  | 0, _ => Code.halt .fuel
  | rounds + 1, ret =>
      if ret = .badblock then do
        let (ret, new) ← ubiReclaimBadblock g fuel block phyBlock phyBlockEc page
        let ret ← if ret = .success then mtdProgram new.block page content spare else pure ret
        let ret ← if ret = .success then mtdWaitReady new.block else pure ret
        ubiWriteRecover block phyBlock phyBlockEc page content spare rounds ret
      else pure ret

/-- Release the buffer of the held page in a slot, if there is one. -/
def ubiReleaseHeld (dieIndex : Nat) : Ubi D Unit := do
  let ram ← get
  if (ram.diceHold dieIndex).phyBlock ≠ invalidBlock then
    match (ram.diceHold dieIndex).buffer with
    | some buffer => do
        bufFree buffer.address
        setHold dieIndex fun held => { held with buffer := none, phyBlock := invalidBlock }
    | none => Code.halt .assertion

/-- The tail of `UBI_Write`: program the page, and wait for it or hold it in the
slot. -/
def ubiWritePage (block phyBlock : Nat) (phyBlockEc : EraseCount) (page : Nat)
    (buffer : Option (Buffer D)) (spare : Option Spare) (async : Bool) (dieIndex : Nat) :
    Ubi D Status :=
  match buffer with
  | none => Code.halt .assertion
  | some buffer => do
      let ret ← mtdProgram phyBlock page buffer.content spare
      if ret = .success then
        if async then
          match spare with
          | none => Code.halt .undefined
          | some spare => do
              setHold dieIndex fun _ => ⟨block, phyBlock, phyBlockEc, page, some buffer, spare⟩
              pure ret
        else do
          let ret ← mtdWaitReady phyBlock
          let ret ←
            ubiWriteRecover g fuel block phyBlock phyBlockEc page buffer.content spare fuel ret
          Code.assert (ret = .success)
          bufFree buffer.address
          pure ret
      else pure ret

/-- Write a page, or only wait for the die when the page is `INVALID_PAGE`. -/
def ubiWrite (block page : Nat) (buffer : Option (Buffer D)) (spare : Option Spare)
    (async : Bool) : Ubi D Status := do
  let phyBlock ← areaGetBlock g block
  let phyBlockEc ← areaGetEc g block
  Code.assert (phyBlock ≠ invalidBlock)
  let ret ← mtdWaitReady phyBlock
  -- the slot stays zero unless a failure has to be recovered
  let (ret, dieIndex) ← ubiWriteRecoverHeld g fuel phyBlock fuel ret 0
  if ret = .success then ubiReleaseHeld dieIndex
  if ret = .success ∧ page ≠ invalidPage then
    ubiWritePage g fuel block phyBlock phyBlockEc page buffer spare async dieIndex
  else pure ret

/-- Wait for the held page of every slot. -/
def ubiFlushSlots : List Nat → Status → Ubi D Status
  | [], ret => pure ret
  | slot :: rest, ret =>
      if ret = .success then do
        let ram ← get
        let ret ← ubiWrite g fuel (ram.diceHold slot).logBlock invalidPage none none true
        ubiFlushSlots rest ret
      else ubiFlushSlots rest ret

/-- `UBI_Flush` -/
def ubiFlush : Ubi D Status :=
  ubiFlushSlots g fuel (List.range g.totalDieCount) .success

/-- Map a logical block to a free physical block of the die. -/
def ubiErase (block dieIndex : Nat) : Ubi D Status := do
  let die := dieIndex % g.totalDieCount
  let ram ← get
  let ret ← ubiWrite g fuel (ram.diceHold die).logBlock invalidPage none none true
  let (ret, new) ←
    if ret = .success then indexFreeBlockGet g fuel die else pure (ret, .invalid)
  if ret = .success then do
    Code.assert (block ≠ invalidBlock ∧ new.ec ≠ invalidEc)
    let oldEc ← areaGetEc g block
    let oldBlock ← areaGetBlock g block
    indexFreeBlockPut g oldBlock oldEc
    indexUpdateAreaUpdate block new.block new.ec
    indexUpdateCommit g fuel
  else pure ret

/-- `UBI_ReadStatus` -/
def ubiReadStatus (block : Nat) : Ubi D Status := do
  let phyBlock ← areaGetBlock g block
  Code.assert (phyBlock ≠ invalidBlock)
  mtdReadStatus phyBlock

/-! ## Static wear levelling -/

/-- Does the exchange of the two blocks pay off? -/
def swlRequired (min max : BlockEc) : Bool :=
  max.block ≠ min.block ∧ max.block ≠ invalidBlock ∧ min.block ≠ invalidBlock ∧
    max.ec ≠ invalidEc ∧ min.ec ≠ invalidEc ∧ ecExceeds max.ec min.ec g.staticWlThreshold

/-- Exchange the least worn block of an area with the most worn free block when
their erase counts are too far apart, or else turn to the next area. -/
def ubiSwl : Ubi D Status := do
  let ram ← get
  let area := ram.anchorTable.swlCurrentArea
  let (minOffset, min) ← areaFindMinEcBlock g area
  let max ← indexFreeBlockGetMaxEcBlock g
  match min, max with
  | some min, some max =>
      if swlRequired g min max then do
        let ret ← mtdErase max.block
        let ret ←
          if ret = .success then
            ubiCopyPages min.block max.block (List.range g.pagePerPhyBlock)
          else pure ret
        if ret = .success then do
          indexUpdateAreaUpdate (area * g.cfgPhyBlockPerArea + minOffset) max.block max.ec
          indexFreeBlockSwapMaxEcBlock g min.block min.ec
          indexUpdateCommit g fuel
        else pure ret
      else do
        modify fun ram =>
          { ram with anchorTable :=
            { ram.anchorTable with
              swlCurrentArea := (ram.anchorTable.swlCurrentArea + 1) % g.areaCount } }
        pure .success
  -- one of the two blocks is never assigned
  | _, _ => Code.halt .undefined

end ApiFile

end OpenNfm
