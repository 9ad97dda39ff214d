import OpenNfm.Buf.Buffers

/-!
# The functions of the sector layer

`onfm.c`: reads and writes of ranges of sectors.  A range that is exactly one
page goes to the FTL directly.  Every other range goes sector by sector, through
the write buffer or through a cache of the last page that was read.
-/

namespace OpenNfm

open OpenNfm.Program

section OnfmFile

variable (g : Geometry) {S : Type}

/-- `FTL_Write` releases buffers through `BUF_Free`. -/
def ftlWrite (page : Nat) (source : PageSource) (content : Nat → S) : Onfm S Status := do
  let (ret, released) ← Code.perform (FtlOp.write page source content)
  released.forM (Buf.free g)
  pure ret

/-- The static variables after a mount. -/
def onfmMount : Onfm S Unit := do
  modify fun ram => { ram with readBufferStartSector := invalidLsaddr }
  Buf.init g

/-! ## Reading -/

/-- `onfm_read_sector` -/
def onfmReadSector (sectorAddr : Nat) : Onfm S (Int × Option S) := do
  let ram ← get
  let ret ←
    if ram.readBufferStartSector ≤ sectorAddr ∧
        sectorAddr < g.behindPage ram.readBufferStartSector then
      pure .success
    else do
      let pageAddr := sectorAddr / g.sectorPerMpp
      let (ret, content) ← Buf.ftlRead g pageAddr
      modify fun ram => { ram with onfmReadBuffer := content }
      if ret = .success then
        modify fun ram => { ram with readBufferStartSector := pageAddr * g.sectorPerMpp }
      pure ret
  let ram ← get
  if ret = .success then
    pure (0, some (ram.onfmReadBuffer (sectorAddr - ram.readBufferStartSector)))
  else do
    modify fun ram => { ram with readBufferStartSector := invalidLsaddr }
    pure (-1, none)

/-- The loop of `ONFM_Read`. -/
def onfmReadSectors (sectorAddr : Nat) : List Nat → Int → (Nat → S) → Onfm S (Int × (Nat → S))
  | [], ret, sectorData => pure (ret, sectorData)
  | i :: rest, ret, sectorData =>
      if ret = 0 then do
        let (ret, sector) ← onfmReadSector g (sectorAddr + i)
        onfmReadSectors sectorAddr rest ret
          (match sector with
          | some sector => Function.update sectorData i sector
          | none => sectorData)
      else onfmReadSectors sectorAddr rest ret sectorData

/-- Read a range of sectors into `sectorData`. -/
def onfmRead (sectorAddr sectorCount : Nat) (sectorData : Nat → S) :
    Onfm S (Int × (Nat → S)) := do
  let (ret, sectorData) ←
    if sectorAddr % g.sectorPerMpp = 0 ∧ sectorCount = g.sectorPerMpp then do
      let (status, content) ← Buf.ftlRead g (sectorAddr / g.sectorPerMpp)
      pure (if status = .success then (0 : Int) else -1,
        fun i => if i < g.sectorPerMpp then content i else sectorData i)
    else onfmReadSectors g sectorAddr (List.range sectorCount) 0 sectorData
  Code.assert (ret = 0)
  pure (ret, sectorData)

/-! ## Writing -/

/-- Put a sector into the write buffer, or flush the buffer when there is no
sector. -/
def onfmWriteSector (sectorAddr : Nat) (sectorData : Option S) : Onfm S Int := do
  let ram ← get
  let start := Buf.startOf g sectorAddr
  let ret ←
    if ram.startingSector = invalidLsaddr then
      match sectorData with
      | some sector => do
          modify fun ram => { ram with startingSector := start }
          Buf.putSector g sectorAddr sector
          pure .success
      | none => pure .success
    else
      match sectorData, decide (ram.startingSector ≤ sectorAddr ∧
          sectorAddr < g.behindPage ram.startingSector) with
      | some sector, true => do
          Buf.putSector g sectorAddr sector
          pure .success
      | _, _ => do
          Code.assert (sectorData.isNone ∨ sectorAddr = g.behindPage ram.startingSector)
          let (pageAddr, buffer) ← Buf.getPage g
          match buffer with
          | none => Code.halt .undefined
          | some buffer => do
              let ram ← get
              let ret ← ftlWrite g pageAddr (.pool buffer) (ram.pbPool buffer)
              if ret = .success then
                match sectorData with
                | some sector => do
                    modify fun ram => { ram with startingSector := start }
                    Buf.putSector g sectorAddr sector
                | none => do
                    Code.assert (sectorAddr = invalidLsaddr)
                    modify fun ram => { ram with startingSector := invalidLsaddr }
              pure ret
  pure (if ret = .success then 0 else -1)

/-- The loop of `ONFM_Write`. -/
def onfmWriteSectors (sectorAddr : Nat) (sectorData : Nat → S) : List Nat → Onfm S Int
  | [] => pure 0
  | i :: rest => do
      let ret ← onfmWriteSector g (sectorAddr + i) (some (sectorData i))
      if ret = 0 then onfmWriteSectors sectorAddr sectorData rest else pure ret

/-- Write a range of sectors. -/
def onfmWrite (sectorAddr sectorCount : Nat) (sectorData : Nat → S) : Onfm S Int := do
  modify fun ram => { ram with readBufferStartSector := invalidLsaddr }
  if sectorAddr % g.sectorPerMpp = 0 ∧ sectorCount = g.sectorPerMpp then do
    let status ← ftlWrite g (sectorAddr / g.sectorPerMpp) .host sectorData
    pure (if status = .success then 0 else -1)
  else do
    let ret ← onfmWriteSectors g sectorAddr sectorData (List.range sectorCount)
    if ret = 0 then
      -- flush the write buffer
      onfmWriteSector g invalidLsaddr none
    else pure ret

end OnfmFile

end OpenNfm
