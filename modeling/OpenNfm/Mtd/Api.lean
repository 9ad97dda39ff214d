import OpenNfm.Mtd.Nand

/-!
# The functions of the MTD layer

`mtd_api.c` on the NAND driver, as it is built for the simulated device.  A block
number is rotated so that its die bits come first; plane and page are appended to
make a row, and other bits of the same number select the chip.
-/

namespace OpenNfm

open OpenNfm.Program

/-! ## Addresses -/

namespace Geometry

variable (g : Geometry)

/-- `TRANS_PHY_BLOCK`: the low bits of a block choose the die. -/
def transPhyBlock (block : Nat) : Nat :=
  ((block &&& (g.totalDieCount - 1)) <<< g.blockPerPlaneShift) ||| (block >>> g.totalDieShift)

/-- `MTD_REAL_BLOCK`, the block of one plane of a multi-plane block. -/
def mtdRealBlock (block plane : Nat) : Nat :=
  (g.transPhyBlock block <<< g.planePerDieShift) + plane

/-- A row number is a 32-bit word. -/
def mtdRowAddress (block plane page : Nat) : Nat :=
  ((g.mtdRealBlock block plane <<< g.pagePerBlockShift) + page) % 2 ^ 32

/-- `MTD_DIE_NUM`, the die of a block in its chip. -/
def mtdDieNum (block : Nat) : Nat :=
  block &&& (2 ^ g.diePerChipShift - 1)

/-- A chip number is a byte. -/
def mtdChipNum (block : Nat) : Nat :=
  ((block >>> g.diePerChipShift) &&& (g.chipCount - 1)) % 2 ^ 8

end Geometry

namespace Mtd

/-! ## The functions -/

/-- The test engine that injects failures. -/
inductive TestMode where
  | none
  | bbr
  | plr
  | ecc
  deriving DecidableEq, Repr

/-- The static variables of `mtd_api.c`. -/
structure MtdRam where
  simTestMode : TestMode
  simTestTarget : Nat
  simTestCurrent : Nat
  deriving DecidableEq, Repr

/-- The variables after `MTD_TestReset`. -/
def testReset : MtdRam := ⟨.none, 0, 1⟩

/-- `MTD_MAX_RETRY_TIMES` -/
def maxRetryTimes : Nat := 3

/-- The chip number that names no chip. -/
def invalidChip : Nat := 0xff

/-- Code of the MTD layer. -/
abbrev MtdApi (α : Type) := Code MtdRam NandOp NandAns α

/-! ### The driver -/

/-- `NAND_SelectChip` -/
def nandSelectChip (chip : Nat) : MtdApi Unit :=
  Code.perform (NandOp.selectChip chip)

/-- `NAND_SendCMD` -/
def nandSendCmd (cmd : NandCmd) : MtdApi Unit :=
  Code.perform (NandOp.sendCmd cmd)

/-- `NAND_SendAddr` -/
def nandSendAddr (col row : Nat) : MtdApi Unit :=
  Code.perform (NandOp.sendAddr col row)

/-- `NAND_SendData` -/
def nandSendData (buffer : Option Memory) (spare : Option Spare) : MtdApi Unit :=
  Code.perform (NandOp.sendData buffer spare)

/-- `NAND_ReceiveData`, a page with its spare. -/
def nandReceiveData : MtdApi (Status × Memory × Spare) :=
  Code.perform NandOp.receiveData

/-- `NAND_ReceiveBytes` -/
def nandReceiveBytes (len : Nat) : MtdApi Memory :=
  Code.perform (NandOp.receiveBytes len)

/-- `NAND_ECCStatus` -/
def nandEccStatus : MtdApi Bool :=
  Code.perform NandOp.eccStatus

/-- `NAND_WaitRB` -/
def nandWaitRb (chip : Nat) : MtdApi Unit :=
  Code.perform (NandOp.waitRb chip)

section ApiFile

variable (g : Geometry)

/-! ### The status of a die -/

/-- The command that asks for the status of the die of a block. -/
def dieStatus (block : Nat) : NandCmd :=
  if g.diePerChipShift = 0 then .readStatus
  else if g.mtdDieNum block = 0 then .readStatusDie1
  else .readStatusDie2

/-- The status byte of a die, after the test engine had its chance. -/
def readStatusByte (block : Nat) : MtdApi (Status × UInt8) := do
  let ram ← get
  if ram.simTestCurrent = ram.simTestTarget ∧
      (ram.simTestMode = .plr ∨ ram.simTestMode = .bbr) then do
    modify fun ram => { ram with simTestMode := .none }
    pure (if ram.simTestMode = .plr then .simulatedPowerLoss else .badblock, nandStatusReadyBit)
  else do
    if ram.simTestCurrent < ram.simTestTarget ∧
        (ram.simTestMode = .plr ∨ ram.simTestMode = .bbr) then
      modify fun ram => { ram with simTestCurrent := ram.simTestCurrent + 1 }
    nandSelectChip (g.mtdChipNum block)
    nandSendCmd (dieStatus g block)
    let bytes ← nandReceiveBytes 1
    pure (.success, bytes 0)

/-- `MTD_ReadStatus` -/
def readStatus (block : Nat) : MtdApi Status := do
  Code.assert (block < g.cfgLogBlockCount)
  let (ret, statusByte) ← readStatusByte g block
  if ret = .success then
    if statusByte &&& nandStatusReadyBit = 0 then pure .dieBusy
    else if statusByte &&& nandStatusFailBit = 1 then pure .badblock
    else pure .success
  else pure ret

/-- Poll until the die is not busy. -/
def waitReady : Nat → Nat → MtdApi Status
  | 0, _ => Code.halt .fuel
  | fuel + 1, block => do
      Code.assert (block < g.cfgLogBlockCount)
      let ret ← readStatus g block
      if ret = .dieBusy then waitReady fuel block else pure ret

/-! ### Reading -/

/-- The memory of the caller that a read fills, and the place of the next page in
it. -/
structure ReadBuffers where
  buffer : Option Memory
  offset : Nat
  spare : Option Spare

/-- The parts of a page that the caller asks for. -/
def ReadBuffers.receive (bufs : ReadBuffers) (mainData : Memory) (spareData : Spare) :
    ReadBuffers :=
  { bufs with
    buffer := bufs.buffer.map fun memory => memcpy memory bufs.offset mainData g.pageSize
    spare := bufs.spare.map fun _ => spareData }

/-- The place in the buffers behind the page of one plane. -/
def ReadBuffers.advance (bufs : ReadBuffers) : ReadBuffers :=
  { bufs with offset := bufs.offset + g.pageSize }

/-- The loop over the planes of a die. -/
def readPlanes (block page : Nat) : List Nat → ReadBuffers → MtdApi (Status × ReadBuffers)
  | [], bufs => pure (.success, bufs)
  | plane :: rest, bufs => do
      nandSelectChip (g.mtdChipNum block)
      nandSendCmd .read
      nandSendAddr 0 (g.mtdRowAddress block plane page)
      nandSendCmd .readCommit
      nandWaitRb (g.mtdChipNum block)
      let (ret, mainData, spareData) ← nandReceiveData
      let bufs := bufs.receive g mainData spareData
      if ret = .success then readPlanes block page rest (bufs.advance g)
      else do
        let corrected ← nandEccStatus
        if corrected then readPlanes block page rest (bufs.advance g)
        else pure (.failure, bufs)

/-- The attempts that are left. -/
def readAttempts (block page : Nat) : Nat → ReadBuffers → MtdApi (Status × ReadBuffers)
  | 0, bufs => pure (.success, bufs)
  | left + 1, bufs => do
      let (ret, bufs) ← readPlanes g block page (List.range g.planePerDie) bufs
      if ret = .failure ∧ left ≠ 0 then readAttempts block page left bufs
      else pure (ret, bufs)

/-- `MTD_Read` -/
def read (fuel block page : Nat) (buffer : Option Memory) (spare : Option Spare) :
    MtdApi (Status × Option Memory × Option Spare) := do
  let _ ← waitReady g fuel block
  let (ret, bufs) ← readAttempts g block page maxRetryTimes ⟨buffer, 0, spare⟩
  pure (ret, bufs.buffer, bufs.spare)

/-! ### Programming and erasing -/

/-- The loop of `MTD_Program` over the planes. -/
def programPlanes (block page : Nat) (buffer : Option Memory) (spare : Option Spare) :
    List Nat → MtdApi Unit
  | [] => pure ()
  | plane :: rest => do
      if plane = 0 then do
        nandSelectChip (g.mtdChipNum block)
        nandSendCmd .pageProgram
        nandSendAddr 0 (g.mtdRowAddress block plane page)
        nandSendData buffer spare
      else do
        Code.assert (g.planePerDie = 2)
        nandSendCmd .programFakeCommit
        nandSendCmd .pageFakeProgram
        nandSendAddr 0 (g.mtdRowAddress block plane page)
        match buffer with
        | some memory =>
            nandSendData (some fun i => memory (i + g.pageSize)) spare
        | none => Code.halt .undefined
      programPlanes block page buffer spare rest

/-- `MTD_Program` -/
def program (block page : Nat) (buffer : Option Memory) (spare : Option Spare) :
    MtdApi Status := do
  programPlanes g block page buffer spare (List.range g.planePerDie)
  nandSendCmd .pageProgramCommit
  pure .success

/-- The loop of `MTD_Erase` over the planes. -/
def erasePlanes (block : Nat) : List Nat → MtdApi Unit
  | [] => pure ()
  | plane :: rest => do
      if plane = 0 then
        nandSelectChip (g.mtdChipNum block)
      else
        Code.assert (g.planePerDie = 2)
      nandSendCmd .blockErase
      nandSendAddr 0 (g.mtdRowAddress block plane 0)
      erasePlanes block rest

/-- The attempts that are left. -/
def eraseAttempts (block : Nat) : Nat → Status → MtdApi Status
  | 0, ret => pure ret
  | left + 1, _ => do
      erasePlanes g block (List.range g.planePerDie)
      nandSendCmd .blockEraseCommit
      Code.assert (g.mtdChipNum block ≠ invalidChip)
      nandWaitRb (g.mtdChipNum block)
      let ret ← readStatus g block
      if ret = .success then pure ret else eraseAttempts block left ret

/-- `MTD_Erase` -/
def erase (block : Nat) : MtdApi Status :=
  eraseAttempts g block maxRetryTimes .success

end ApiFile

end Mtd

end OpenNfm
