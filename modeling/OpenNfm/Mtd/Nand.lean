import OpenNfm.Core.Cmn
import OpenNfm.Program.Code
import Mathlib.Logic.Function.Basic

/-!
# The NAND driver and the simulated device

`mtd_nand.h` is the interface between the MTD layer and a device: commands,
addresses and data on the bus.  `simMachine` is the device of `mtd_nand_sim.c`.
It keeps one column of bytes for each chip and row, remembers the last command
and the last address, and stops where the source asserts.
-/

namespace OpenNfm

open OpenNfm.Program

/-- Bytes behind a pointer. -/
abbrev Memory := Nat → UInt8

/-- Copy bytes to an offset. -/
def memcpy (target : Memory) (offset : Nat) (source : Memory) (count : Nat) : Memory :=
  fun i => if offset ≤ i ∧ i < offset + count then source (i - offset) else target i

namespace Geometry

variable (g : Geometry)

/-- Bytes in a page of one plane. -/
def pageSize : Nat := 2 ^ (g.sectorSizeShift + g.sectorPerPageShift)

/-- `PLANE_PER_DIE` -/
def planePerDie : Nat := 2 ^ g.planePerDieShift

/-- `CHIP_COUNT` -/
def chipCount : Nat := 2 ^ g.chipCountShift

/-- The shift of `CFG_PHY_BLOCK_COUNT`, the number of blocks of all planes. -/
def cfgPhyBlockCountShift : Nat :=
  g.blockPerPlaneShift + g.planePerDieShift + g.diePerChipShift + g.chipCountShift

/-- The rows of one simulated chip: a chip has rows for the blocks of all chips. -/
def cfgNandRowCount : Nat := 2 ^ g.cfgPhyBlockCountShift * g.pagePerPhyBlock

end Geometry

/-! ## The interface -/

/-- The command bytes. -/
inductive NandCmd where
  | read
  | readCommit
  | readId
  | reset
  | pageProgram
  | pageProgramCommit
  | programFakeCommit
  | pageFakeProgram
  | blockErase
  | blockEraseCommit
  | randomDataIn
  | randomDataOut
  | randomDataOutCommit
  | readStatus
  | readStatusDie1
  | readStatusDie2
  deriving DecidableEq, Repr

/-- The functions of the driver.  The simulated device does not look at the number
of address cycles. -/
inductive NandOp where
  | selectChip (chip : Nat)
  | sendCmd (cmd : NandCmd)
  | sendAddr (col row : Nat)
  | sendData (buffer : Option Memory) (spare : Option Spare)
  | receiveData
  | receiveBytes (len : Nat)
  | eccStatus
  | waitRb (chip : Nat)

/-- The answer to each call.  `NAND_ReceiveData` hands back a status, the bytes of
the page, and its spare area. -/
abbrev NandAns : NandOp → Type
  | .receiveData => Status × Memory × Spare
  | .receiveBytes _ => Memory
  | .eccStatus => Bool
  | _ => Unit

/-! ## The simulated device -/

/-- `SIM_NAND_STATE`, what a column of the simulated NAND holds. -/
inductive SimNandState where
  | programmed
  | erased
  deriving DecidableEq, Repr

/-- A row of a chip. -/
@[ext]
structure SimColumn where
  mainData : Memory
  spareData : Spare
  state : SimNandState

/-- The bytes of a row after `memset` with ones. -/
def SimColumn.blank : SimColumn := ⟨fun _ => 0xff, .ones, .erased⟩

/-- What the last command has selected. -/
inductive NandState where
  | read
  | program
  | erase
  | readId
  | readStatus
  | reset
  deriving DecidableEq, Repr

/-- The static variables of `mtd_nand_sim.c`. -/
structure SimNand where
  simNand : Nat → Nat → SimColumn
  state : NandState
  chip : Nat
  colAddr : Nat
  rowAddr : Nat

/-- `sim_nand_status` keeps its initial value. -/
def simNandStatus : UInt8 := 0

/-- `NAND_STATUS_READY_BIT` -/
def nandStatusReadyBit : UInt8 := 0x40

/-- `NAND_STATUS_FAIL_BIT` -/
def nandStatusFailBit : UInt8 := 0x01

/-- The identification that the simulated NAND sends. -/
def simNandId : List UInt8 := [0xff, 0xff, 0x55, 0x05, 0x08]

namespace SimNand

/-- The driver starts with all bytes at ones. -/
def init : SimNand where
  simNand := fun _ _ => .blank
  state := .read
  chip := 0
  colAddr := 0
  rowAddr := 0

/-- `NAND_SendCMD` of the simulator: a command sets the state of the chip. -/
def sendCmd (sim : SimNand) : NandCmd → SimNand
  | .read => { sim with state := .read }
  | .readCommit => { sim with state := .read }
  | .readId => { sim with state := .readId }
  | .reset => { sim with state := .reset, colAddr := 0, rowAddr := 0 }
  | .pageProgram => { sim with state := .program }
  | .pageProgramCommit => { sim with state := .program }
  | .programFakeCommit => { sim with state := .program }
  | .pageFakeProgram => { sim with state := .program }
  | .blockErase => { sim with state := .erase }
  | .blockEraseCommit => { sim with state := .erase }
  | .randomDataIn => sim
  | .randomDataOut => { sim with state := .read }
  | .randomDataOutCommit => { sim with state := .read }
  | .readStatus => { sim with state := .readStatus }
  | .readStatusDie1 => { sim with state := .readStatus }
  | .readStatusDie2 => { sim with state := .readStatus }

/-- Clear the rows of one chip from a row on. -/
def clear (columns : Nat → Nat → SimColumn) (chip first count : Nat) : Nat → Nat → SimColumn :=
  fun other row =>
    if other = chip ∧ first ≤ row ∧ row < first + count then .blank else columns other row

/-- Store the parts of a page that are given. -/
def store (g : Geometry) (column : SimColumn) (buffer : Option Memory) (spare : Option Spare) :
    SimColumn where
  mainData :=
    match buffer with
    | some data => memcpy column.mainData 0 data g.pageSize
    | none => column.mainData
  spareData := spare.getD column.spareData
  state := .programmed

/-- The simulated NAND with another column in the selected row. -/
def setColumn (sim : SimNand) (column : SimColumn) : SimNand :=
  { sim with
    simNand := Function.update sim.simNand sim.chip
      (Function.update (sim.simNand sim.chip) sim.rowAddr column) }

end SimNand

/-- The bound in the assertion of `NAND_SendData`, as 32-bit words multiply. -/
def Geometry.assertedRows (g : Geometry) : Nat :=
  g.cfgNandRowCount * g.chipCount % 2 ^ 32

/-- The simulated device.  An address outside of its arrays is undefined, and the
loop over the pages of a block never ends when its 8-bit counter cannot reach
their number. -/
def simMachine (g : Geometry) : Machine NandOp NandAns SimNand
  | sim, .selectChip chip => .ok ((), { sim with chip := chip })
  | sim, .sendCmd cmd => .ok ((), sim.sendCmd cmd)
  | sim, .sendAddr col row =>
      if sim.state = .erase then
        if 2 ^ 8 ≤ g.pagePerPhyBlock then .error .fuel
        else if sim.chip < g.chipCount ∧ row + g.pagePerPhyBlock ≤ g.cfgNandRowCount then
          .ok ((),
            { sim with
              simNand := SimNand.clear sim.simNand sim.chip row g.pagePerPhyBlock
              colAddr := col
              rowAddr := row })
        else .error .undefined
      else .ok ((), { sim with colAddr := col, rowAddr := row })
  | sim, .sendData buffer spare =>
      if sim.state = .program ∧ sim.rowAddr < g.assertedRows then
        if sim.chip < g.chipCount ∧ sim.rowAddr < g.cfgNandRowCount then
          if (sim.simNand sim.chip sim.rowAddr).state = .erased then
            .ok ((), sim.setColumn
              (SimNand.store g (sim.simNand sim.chip sim.rowAddr) buffer spare))
          else .error .assertion
        else .error .undefined
      else .error .assertion
  | sim, .receiveData =>
      if sim.state = .read ∨ sim.state = .readStatus then
        if sim.chip < g.chipCount ∧ sim.rowAddr < g.cfgNandRowCount then
          let column := sim.simNand sim.chip sim.rowAddr
          .ok ((if column.state = .erased then .failure else .success, column.mainData,
            column.spareData), { sim with state := .read })
        else .error .undefined
      else .error .assertion
  | sim, .receiveBytes len =>
      match sim.state with
      | .readId =>
          if len = simNandId.length then .ok (fun i => simNandId.getD i 0, sim)
          else .error .assertion
      | .readStatus =>
          if len = 1 then .ok (fun _ => simNandStatus ||| nandStatusReadyBit, sim)
          else .error .assertion
      | .read => if sim.colAddr = g.pageSize then .ok (fun _ => 0xff, sim) else .error .assertion
      | _ => .error .assertion
  | sim, .eccStatus => .ok (false, sim)
  | sim, .waitRb _ => .ok ((), sim)

end OpenNfm
