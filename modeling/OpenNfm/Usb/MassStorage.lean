import OpenNfm.Buf.Buffers
import OpenNfm.Usb.Interface

/-!
# The functions of the mass storage class

`mscuser.c`: the handlers that the interrupt service routine calls when a transfer of an endpoint
is complete, or when the host has asked for one that is not primed.  They run from end to end in
front of the main loop.  A handler stops in a failed assertion, or where it follows a null pointer.
-/

namespace OpenNfm.Usb

open OpenNfm.Program

section MscFile

variable (g : Geometry) {S : Type}

/-! ## Endpoints -/

/-- `MSC_SetStallEP` -/
def mscSetStallEp (endpoint : Endpoint) (msc : Msc S) : Msc S :=
  { msc with
    stalled := Function.update msc.stalled endpoint true
    usbEndPointHalt := Function.update msc.usbEndPointHalt endpoint true }

/-- `USB_WriteEP` on the endpoint to the host -/
def usbWriteEp (source : InSource) (count : Nat) (msc : Msc S) : Msc S :=
  { msc with inRequest := some (source, count) }

/-- `USB_ReadReqEP` on the endpoint to the device -/
def usbReadReqEp (target : OutTarget) (length : Nat) (msc : Msc S) : Msc S :=
  { msc with outRequest := some (target, length) }

/-- `MSC_SetCSW` -/
def mscSetCsw (msc : Msc S) : Msc S :=
  { usbWriteEp .csw cswSize { msc with csw := { msc.csw with dSignature := mscCswSignature } } with
    bulkStage := .csw }

/-- A command ends with a status. -/
def mscEnd (status : Nat) (msc : Msc S) : Msc S :=
  mscSetCsw { msc with csw := { msc.csw with bStatus := status } }

/-- The endpoint that the flags of the command name is stalled. -/
def mscStallData (msc : Msc S) : Msc S :=
  mscSetStallEp (if msc.cbw.dataIn then .mscEpIn else .mscEpOut) msc

/-! ## Transactions -/

/-- A transaction goes to the end of the list, which should not be full. -/
def logTransaction (transaction : UsbTransaction) (msc : Msc S) : Except Halt (Msc S) :=
  let msc :=
    { msc with
      utList := Function.update msc.utList msc.utPush transaction
      utPush := (msc.utPush + 1) % utListSize g.bufferCount }
  if msc.utPush ≠ msc.utPop then .ok msc else .error .assertion

/-- `MSC_MemoryRead` -/
def mscMemoryRead (msc : Msc S) : Except Halt (Msc S) :=
  if msc.devStatusFS2HS then do
    let n := min (g.sectorPerMpp - msc.offset % g.sectorPerMpp) msc.length
    let behind := msc.mscBlockCount < (msc.offset + n) % 2 ^ 32
    let n := if behind then wordSub msc.mscBlockCount msc.offset else n
    let msc := { msc with bulkStage := if behind then .dataInLastStall else msc.bulkStage }
    let msc ← logTransaction g ⟨.read, msc.offset, n, .readBulkBuf⟩ msc
    pure
      { msc with
        readBulkLen := 0
        offset := (msc.offset + n) % 2 ^ 32
        length := wordSub msc.length n
        csw :=
          { msc.csw with dDataResidue := wordSub msc.csw.dDataResidue (n * g.sectorSize) } }
  else pure msc

/-- `MSC_MemoryWrite` -/
def mscMemoryWrite (msc : Msc S) : Except Halt (Msc S) :=
  if msc.bulkLen % g.sectorSize = 0 then do
    let n := msc.bulkLen / g.sectorSize
    let msc :=
      if msc.mscBlockCount < (msc.offset + n) % 2 ^ 32 then
        mscSetStallEp .mscEpOut
          { msc with
            bulkLen := wordSub msc.mscBlockCount msc.offset * g.sectorSize % 2 ^ 32
            bulkStage := .csw }
      else msc
    let msc ← logTransaction g
      ⟨.write, Buf.startOf g msc.offset, g.sectorPerMpp, .bulkBuf msc.bulkBuf⟩ msc
    let msc :=
      { msc with
        offset := (msc.offset + n) % 2 ^ 32
        length := wordSub msc.length n
        csw := { msc.csw with dDataResidue := wordSub msc.csw.dDataResidue msc.bulkLen } }
    if msc.length = 0 ∨ msc.bulkStage = .csw then pure (mscEnd cswCmdPassed msc) else pure msc
  else pure msc

/-- `MSC_MemoryVerify`, which compares nothing. -/
def mscMemoryVerify (msc : Msc S) : Msc S :=
  mscEnd cswCmdPassed
    { msc with
      offset := (msc.offset + msc.length) % 2 ^ 32
      length := 0
      csw := { msc.csw with dDataResidue := 0 } }

/-! ## Commands with data -/

/-- The logical block of a command. -/
def cbwOffset (cb : Nat → Nat) : Nat :=
  cb 2 <<< 24 ||| cb 3 <<< 16 ||| cb 4 <<< 8 ||| cb 5

/-- The number of blocks of a command. -/
def cbwCount (cb : Nat → Nat) : Nat :=
  if cb 0 = scsiRead12 ∨ cb 0 = scsiWrite12 then
    cb 6 <<< 24 ||| cb 7 <<< 16 ||| cb 8 <<< 8 ||| cb 9
  else cb 7 <<< 8 ||| cb 8

/-- `MSC_RWSetup` -/
def mscRwSetup (msc : Msc S) : Bool × Msc S :=
  let n := cbwCount msc.cbw.cb
  let msc := { msc with offset := cbwOffset msc.cbw.cb, length := n }
  if msc.cbw.dDataLength = 0 then (false, mscEnd cswCmdFailed msc)
  else if msc.cbw.dDataLength ≠ n * g.sectorSize % 2 ^ 32 then
    (false, mscEnd cswCmdFailed (mscStallData msc))
  else (true, msc)

/-! ## Commands that the device answers itself -/

/-- `MSC_TestUnitReady` -/
def mscTestUnitReady (msc : Msc S) : Msc S :=
  mscEnd cswCmdPassed (if msc.cbw.dDataLength ≠ 0 then mscStallData msc else msc)

/-- `DataIn_Format` -/
def dataInFormat (msc : Msc S) : Bool × Msc S :=
  if msc.cbw.dDataLength = 0 then (false, mscEnd cswPhaseError msc)
  else if ¬ msc.cbw.dataIn then
    (false, mscEnd cswPhaseError (mscSetStallEp .mscEpOut msc))
  else (true, msc)

/-- `DataIn_Transfer` -/
def dataInTransfer (msc : Msc S) : Msc S :=
  let length := min msc.bulkLen msc.cbw.dDataLength
  { usbWriteEp .cmdBulkBuf length msc with
    bulkLen := length
    bulkStage := .dataInLast
    csw := { msc.csw with dDataResidue := 0, bStatus := cswCmdPassed } }

/-- Bytes at the beginning of a buffer. -/
def putBytes (bytes : List Nat) (buffer : Nat → Nat) : Nat → Nat :=
  fun i => (bytes[i]?).getD (buffer i)

/-- The device answers with bytes. -/
def mscReply (bytes : List Nat) (msc : Msc S) : Msc S :=
  let (accepted, msc) := dataInFormat msc
  if accepted then
    dataInTransfer { msc with
      cmdBulkBuf := putBytes bytes msc.cmdBulkBuf
      bulkLen := bytes.length }
  else msc

/-- The bytes of a word, from the highest one on. -/
def wordBytes (word : Nat) : List Nat :=
  [word >>> 24 % 256, word >>> 16 % 256, word >>> 8 % 256, word % 256]

/-- The reply to `SCSI_REQUEST_SENSE`. -/
def requestSenseData : List Nat :=
  [0x70, 0x00, 0x02, 0x00, 0x00, 0x00, 0x00, 0x0A, 0x00, 0x00, 0x00, 0x00, 0x30, 0x01, 0x00, 0x00,
    0x00, 0x00]

/-- The reply to `SCSI_INQUIRY`. -/
def inquiryData : List Nat :=
  [0x00, 0x80, 0x00, 0x01, 36 - 4, 0x80, 0x00, 0x00] ++
    ("Crane544".toList ++ "Open NANDF Mgr  ".toList ++ "0.1 ".toList).map Char.toNat

/-- The reply to `SCSI_MODE_SENSE6`. -/
def modeSense6Data : List Nat :=
  [0x03, 0x00, 0x00, 0x00]

/-- The reply to `SCSI_MODE_SENSE10`. -/
def modeSense10Data : List Nat :=
  [0x00, 0x06, 0x00, 0x00, 0x00, 0x00, 0x00, 0x00]

/-- The last block and the size of a block. -/
def readCapacityData (blockCount : Nat) : List Nat :=
  wordBytes (wordSub blockCount 1) ++ wordBytes g.sectorSize

/-- The reply to `SCSI_READ_FORMAT_CAPACITIES`. -/
def readFormatCapacityData (blockCount : Nat) : List Nat :=
  [0x00, 0x00, 0x00, 0x08] ++ wordBytes blockCount ++ 0x02 :: (wordBytes g.sectorSize).tail

/-- `MSC_RequestSense` -/
def mscRequestSense : Msc S → Msc S := mscReply requestSenseData

/-- `MSC_Inquiry` -/
def mscInquiry : Msc S → Msc S := mscReply inquiryData

/-- `MSC_ModeSense6` -/
def mscModeSense6 : Msc S → Msc S := mscReply modeSense6Data

/-- `MSC_ModeSense10` -/
def mscModeSense10 : Msc S → Msc S := mscReply modeSense10Data

/-- `MSC_ReadCapacity` -/
def mscReadCapacity (msc : Msc S) : Msc S := mscReply (readCapacityData g msc.mscBlockCount) msc

/-- `MSC_ReadFormatCapacity` -/
def mscReadFormatCapacity (msc : Msc S) : Msc S :=
  mscReply (readFormatCapacityData g msc.mscBlockCount) msc

/-! ## Command block wrappers -/

/-- A read or a write whose data goes in the wrong direction. -/
def mscPhaseError (endpoint : Endpoint) (msc : Msc S) : Msc S :=
  mscEnd cswPhaseError (mscSetStallEp endpoint msc)

/-- `SCSI_READ10` and `SCSI_READ12` in `MSC_GetCBW` -/
def mscRead (msc : Msc S) : Except Halt (Msc S) :=
  let (accepted, msc) := mscRwSetup g msc
  if accepted then
    if msc.cbw.dataIn then mscMemoryRead g { msc with bulkStage := .dataIn }
    else pure (mscPhaseError .mscEpOut msc)
  else pure msc

/-- Writes, and verifications with data. -/
def mscWrite (msc : Msc S) : Msc S :=
  let (accepted, msc) := mscRwSetup g msc
  if accepted then
    if ¬ msc.cbw.dataIn then { msc with bulkStage := .dataOut }
    else mscPhaseError .mscEpIn msc
  else msc

/-- `SCSI_VERIFY10` in `MSC_GetCBW` -/
def mscVerify (msc : Msc S) : Msc S :=
  if msc.cbw.cb 1 &&& 0x02 = 0 then mscEnd cswCmdPassed msc else mscWrite g msc

/-- The switch over the command. -/
def mscCommand (msc : Msc S) : Except Halt (Msc S) :=
  let opcode := msc.cbw.cb 0
  if opcode = scsiTestUnitReady then pure (mscTestUnitReady msc)
  else if opcode = scsiRequestSense then pure (mscRequestSense msc)
  else if opcode = scsiInquiry then pure (mscInquiry msc)
  else if opcode = scsiModeSense6 then pure (mscModeSense6 msc)
  else if opcode = scsiModeSense10 then pure (mscModeSense10 msc)
  else if opcode = scsiReadFormatCapacities then pure (mscReadFormatCapacity g msc)
  else if opcode = scsiReadCapacity then pure (mscReadCapacity g msc)
  else if opcode = scsiRead10 ∨ opcode = scsiRead12 then mscRead g msc
  else if opcode = scsiWrite10 ∨ opcode = scsiWrite12 then pure (mscWrite g msc)
  else if opcode = scsiVerify10 then pure (mscVerify g msc)
  -- all other commands fail, among them the ones that format, stop, lock or set modes
  else pure (mscEnd cswCmdFailed msc)

/-- `MSC_GetCBW` -/
def mscGetCbw (msc : Msc S) : Except Halt (Msc S) :=
  if msc.bulkLen = cbwSize ∧ msc.cbw.dSignature = mscCbwSignature then
    let msc :=
      { msc with
        csw := { msc.csw with dTag := msc.cbw.dTag, dDataResidue := msc.cbw.dDataLength } }
    if msc.cbw.bLUN ≠ 0 ∨ msc.cbw.bCBLength < 1 ∨ 16 < msc.cbw.bCBLength then
      pure (mscEnd cswCmdFailed msc)
    else mscCommand g msc
  else
    let msc := mscSetStallEp .mscEpOut (mscSetStallEp .mscEpIn msc)
    pure { msc with usbEndPointStall := fun _ => true, bulkStage := .error }

/-! ## Events of the endpoints -/

/-- The host waits for data that is not primed. -/
def mscBulkInNak (msc : Msc S) : Msc S :=
  if msc.readBulkLen ≠ 0 then
    let msc := usbWriteEp .readBulkBuf msc.readBulkLen msc
    let msc := { msc with bulkStage := if msc.length = 0 then .dataInLast else msc.bulkStage }
    if msc.bulkStage ≠ .dataIn then
      { msc with csw := { msc.csw with bStatus := cswCmdPassed } }
    else msc
  else msc

/-- The host has taken what was primed. -/
def mscBulkIn (msc : Msc S) : Except Halt (Msc S) :=
  match msc.bulkStage with
  | .dataIn =>
      if msc.cbw.cb 0 = scsiRead10 ∨ msc.cbw.cb 0 = scsiRead12 then mscMemoryRead g msc
      else pure msc
  | .dataInLast => pure (mscSetCsw msc)
  | .dataInLastStall => pure (mscSetCsw (mscSetStallEp .mscEpIn msc))
  | .csw => pure { msc with bulkStage := .cbw }
  | _ => pure msc

/-- `BUF_Allocate` -/
def bufAllocate (msc : Msc S) : Option Nat × Msc S :=
  match Buf.allocateFrom g msc.pbPoolUsed (List.range (g.bufferCount / 2)) with
  | some buffer =>
      (some buffer, { msc with pbPoolUsed := Function.update msc.pbPoolUsed buffer true })
  | none => (none, msc)

/-- A buffer for the next page that the host writes.  A page that is not written whole is read
first. -/
def mscAllocateBulk (msc : Msc S) : Except Halt (Msc S) :=
  let (buffer, msc) := bufAllocate g msc
  let msc := { msc with bulkBuf := buffer }
  match buffer with
  | some buffer =>
      let n := min (g.sectorPerMpp - msc.offset % g.sectorPerMpp) msc.length
      if n ≠ g.sectorPerMpp then do
        let msc ← logTransaction g
          ⟨.merge, Buf.startOf g msc.offset, g.sectorPerMpp, .bulkBuf buffer⟩ msc
        pure { msc with mergeStage := .start, mergeCount := n }
      else pure (usbReadReqEp (.pool buffer 0) g.mppSize msc)
  -- the host asks again, when a buffer may have come back
  | none => pure msc

/-- The host has data that no transfer is primed for. -/
def mscBulkOutNak (msc : Msc S) : Except Halt (Msc S) :=
  if msc.devStatusFS2HS then
    match msc.bulkStage with
    | .dataOut =>
        match msc.mergeStage with
        | .start => pure msc
        | .finish =>
            match msc.bulkBuf with
            | some buffer =>
                pure
                  { usbReadReqEp (.pool buffer (msc.offset % g.sectorPerMpp))
                      (msc.mergeCount * g.sectorSize) msc with
                    mergeStage := .none
                    mergeCount := 0 }
            | none => .error .undefined
        | .none => mscAllocateBulk g msc
    | .cbw => pure (usbReadReqEp .cbw cbwSize msc)
    | _ => pure msc
  else pure msc

/-- Bytes have come from the host. -/
def mscBulkOut (received : Nat) (msc : Msc S) : Except Halt (Msc S) :=
  let msc := { msc with bulkLen := received }
  match msc.bulkStage with
  | .cbw => mscGetCbw g msc
  | .dataOut =>
      if msc.cbw.cb 0 = scsiWrite10 ∨ msc.cbw.cb 0 = scsiWrite12 then mscMemoryWrite g msc
      else if msc.cbw.cb 0 = scsiVerify10 then pure (mscMemoryVerify msc)
      else pure msc
  | .csw => pure msc
  | _ => pure (mscEnd cswPhaseError (mscSetStallEp .mscEpOut msc))

end MscFile

end OpenNfm.Usb
