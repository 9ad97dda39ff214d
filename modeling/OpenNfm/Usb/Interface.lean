import OpenNfm.Core.Cmn
import OpenNfm.Program.Prog
import OpenNfm.Program.RingQueue
import Mathlib.Logic.Function.Basic

/-!
# The variables of the mass storage class

A host sends command block wrappers and gets command status wrappers, with data in between.  Each
endpoint has one descriptor: a transfer that was primed waits for the host there, with the memory
that it reads or writes.  The reads and writes of sectors are put into a list for the main loop.
-/

namespace OpenNfm

/-- `SECTOR_SIZE`, which is also the size of a block on the bus. -/
def Geometry.sectorSize (g : Geometry) : Nat := 2 ^ g.sectorSizeShift

theorem Geometry.sectorSize_pos (g : Geometry) : 0 < g.sectorSize :=
  Nat.two_pow_pos _

end OpenNfm

namespace OpenNfm.Usb

open OpenNfm.Program

/-! ## Words -/

/-- The difference of two 32-bit words. -/
def wordSub (a b : Nat) : Nat := (a + (2 ^ 32 - b % 2 ^ 32)) % 2 ^ 32

theorem wordSub_of_le {a b : Nat} (le : b ≤ a) (isWord : a < 2 ^ 32) : wordSub a b = a - b := by
  unfold wordSub
  omega

/-! ## Wrappers -/

/-- `MSC_CBW_Signature` -/
def mscCbwSignature : Nat := 0x43425355

/-- `MSC_CSW_Signature` -/
def mscCswSignature : Nat := 0x53425355

/-- `CSW_CMD_PASSED` -/
def cswCmdPassed : Nat := 0

/-- `CSW_CMD_FAILED` -/
def cswCmdFailed : Nat := 1

/-- `CSW_PHASE_ERROR` -/
def cswPhaseError : Nat := 2

/-- Bytes of a command block wrapper. -/
def cbwSize : Nat := 31

/-- Bytes of a command status wrapper. -/
def cswSize : Nat := 13

/-- `MSC_CBW`, the wrapper of a command. -/
structure MscCbw where
  dSignature : Nat
  dTag : Nat
  dDataLength : Nat
  bmFlags : Nat
  bLUN : Nat
  bCBLength : Nat
  cb : Nat → Nat

/-- `MSC_CSW`, the wrapper of a status. -/
structure MscCsw where
  dSignature : Nat
  dTag : Nat
  dDataResidue : Nat
  bStatus : Nat
  deriving DecidableEq

/-- The host waits for data of the device. -/
def MscCbw.dataIn (cbw : MscCbw) : Bool := cbw.bmFlags &&& 0x80 ≠ 0

/-! ### Commands -/

/-- `SCSI_TEST_UNIT_READY` -/
def scsiTestUnitReady : Nat := 0x00
/-- `SCSI_REQUEST_SENSE` -/
def scsiRequestSense : Nat := 0x03
/-- `SCSI_INQUIRY` -/
def scsiInquiry : Nat := 0x12
/-- `SCSI_MODE_SENSE6` -/
def scsiModeSense6 : Nat := 0x1A
/-- `SCSI_READ_FORMAT_CAPACITIES` -/
def scsiReadFormatCapacities : Nat := 0x23
/-- `SCSI_READ_CAPACITY` -/
def scsiReadCapacity : Nat := 0x25
/-- `SCSI_READ10` -/
def scsiRead10 : Nat := 0x28
/-- `SCSI_WRITE10` -/
def scsiWrite10 : Nat := 0x2A
/-- `SCSI_VERIFY10` -/
def scsiVerify10 : Nat := 0x2F
/-- `SCSI_MODE_SENSE10` -/
def scsiModeSense10 : Nat := 0x5A
/-- `SCSI_READ12` -/
def scsiRead12 : Nat := 0xA8
/-- `SCSI_WRITE12` -/
def scsiWrite12 : Nat := 0xAA

/-! ## Endpoints -/

/-- Both endpoints that carry commands and data. -/
inductive Endpoint where
  | mscEpOut
  | mscEpIn
  deriving DecidableEq

/-- The memory that a transfer to the device fills. -/
inductive OutTarget where
  | cbw
  | pool (buffer first : Nat)
  deriving DecidableEq

/-- The memory that a transfer to the host reads. -/
inductive InSource where
  | csw
  | readBulkBuf
  | cmdBulkBuf
  deriving DecidableEq

/-! ## The list of transactions -/

/-- `UT_TYPE`, the kind of a transaction. -/
inductive UtType where
  | read
  | write
  | merge
  | preread
  deriving DecidableEq

/-- The buffer of a transaction: that of the reads, or one of the pool. -/
inductive UtBuffer where
  | readBulkBuf
  | bulkBuf (buffer : Option Nat)
  deriving DecidableEq

/-- `USB_TRANSCATION`, what a handler leaves for the main loop. -/
structure UsbTransaction where
  type : UtType
  offset : Nat
  length : Nat
  buffer : UtBuffer
  deriving DecidableEq

/-- `UT_LIST_SIZE` -/
def utListSize (bufferCount : Nat) : Nat := bufferCount * 2

/-- `MERGE_STAGE` -/
inductive MergeStage where
  | none
  | start
  | finish
  deriving DecidableEq

/-- The stages `MSC_BS_CBW` to `MSC_BS_ERROR`. -/
inductive BulkStage where
  | cbw
  | dataOut
  | dataIn
  | dataInLast
  | dataInLastStall
  | csw
  | error
  deriving DecidableEq

/-! ## Variables -/

/-- The static variables of `mscuser.c`, the page buffers that it shares with the sector layer, and
the descriptors of the endpoints. -/
structure Msc (S : Type) where
  devStatusFS2HS : Bool
  offset : Nat
  length : Nat
  bulkBuf : Option Nat
  bulkLen : Nat
  mscBlockCount : Nat
  readBulkLen : Nat
  readBulkBuf : Nat → S
  cmdBulkBuf : Nat → Nat
  cbw : MscCbw
  csw : MscCsw
  bulkStage : BulkStage
  utList : Nat → UsbTransaction
  utPop : Nat
  utPush : Nat
  mergeStage : MergeStage
  mergeCount : Nat
  pbPool : Nat → Nat → S
  pbPoolUsed : Nat → Bool
  usbEndPointHalt : Endpoint → Bool
  usbEndPointStall : Endpoint → Bool
  stalled : Endpoint → Bool
  outRequest : Option (OutTarget × Nat)
  inRequest : Option (InSource × Nat)

/-- The transactions as a queue. -/
def Msc.queue {S : Type} (msc : Msc S) : RingQueue UsbTransaction :=
  ⟨msc.utList, msc.utPop, msc.utPush⟩

end OpenNfm.Usb
