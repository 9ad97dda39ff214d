import OpenNfm.Onfm.Refinement
import OpenNfm.Usb.MassStorage

/-!
# A host and the device

The handlers take turns with the main loop of `main.c`, which executes the transactions and may be
interrupted between any two accesses to what they share.  The controller latches a transfer when it
is complete, and a token of the host that finds no transfer primed.  `USB_ISR` hands to the handlers
what is latched, so the host, the main loop and other handlers may come in between.

The sector layer below is a flat array of sectors.  It returns the buffers of its writes when the
pages are programmed, and holds a buffer for each die and one of its own at most.
-/

namespace OpenNfm.Usb

open OpenNfm.Program

variable {S : Type}

/-! ## The main loop -/

/-- Where the main loop is: in front of a transaction, behind the read of one and in front of
telling the handlers, or behind a transaction. -/
inductive TaskPc where
  | top
  | read
  | merged
  | next
  deriving DecidableEq

/-- The device, with the sectors below and the pool buffers that are held there. -/
structure Device (S : Type) where
  msc : Msc S
  pc : TaskPc
  disk : Nat → S
  below : List Nat

namespace Device

/-- Buffers come back through `BUF_Free`. -/
def giveBack (returned offered : List Nat) (device : Device S) : Device S :=
  { device with
    msc :=
      { device.msc with
        pbPoolUsed := fun buffer =>
          device.msc.pbPoolUsed buffer && !decide (buffer ∈ offered ∧ buffer ∈ returned) }
    below := offered.filter fun buffer => buffer ∉ returned }

/-- `ONFM_Write` from a buffer, which the layers below take over. -/
def onfmWrite (returned : List Nat) (offset length : Nat) (buffer : Nat) (device : Device S) :
    Device S :=
  giveBack returned (buffer :: device.below)
    { device with disk := putSectors device.disk offset length (device.msc.pbPool buffer) }

/-- The transaction in turn is executed.  `returned` names the buffers that come back. -/
def runTask (returned : List Nat) (device : Device S) : Except Halt (Device S) :=
  let msc := device.msc
  let transaction := msc.utList msc.utPop
  match transaction.type with
  | .write =>
      match transaction.buffer with
      | .bulkBuf (some buffer) =>
          .ok { device.onfmWrite returned transaction.offset transaction.length buffer with
            pc := .next }
      | _ => .error .undefined
  | .read =>
      if msc.readBulkLen = 0 then
        match transaction.buffer with
        | .readBulkBuf =>
            .ok { device.giveBack returned device.below with
              msc :=
                { (device.giveBack returned device.below).msc with
                  readBulkBuf := takeSectors device.disk transaction.offset transaction.length
                    msc.readBulkBuf }
              pc := .read }
        | _ => .error .undefined
      else .ok { device with pc := .next }
  | .merge =>
      if msc.mergeStage = .start then
        match transaction.buffer with
        | .bulkBuf (some buffer) =>
            .ok { device.giveBack returned device.below with
              msc :=
                { (device.giveBack returned device.below).msc with
                  pbPool := Function.update msc.pbPool buffer (takeSectors device.disk
                    transaction.offset transaction.length (msc.pbPool buffer)) }
              pc := .merged }
        | _ => .error .undefined
      else .ok { device with pc := .next }
  | .preread => .error .assertion

/-- The handlers are told that the data of a read is there. -/
def tell (g : Geometry) (device : Device S) : Device S :=
  let msc := device.msc
  match device.pc with
  | .read =>
      { device with
        msc := { msc with readBulkLen := (msc.utList msc.utPop).length * g.sectorSize }
        pc := .next }
  | .merged => { device with msc := { msc with mergeStage := .finish }, pc := .next }
  | _ => device

/-- The main loop goes on to the next transaction. -/
def advance (g : Geometry) (device : Device S) : Device S :=
  { device with
    msc := { device.msc with utPop := (device.msc.utPop + 1) % utListSize g.bufferCount }
    pc := .top }

end Device

/-! ## The controller -/

/-- What the controller has latched: the transfers that are complete, with the bytes that came from
the host (`endptcomplete`), and the tokens that it has answered with a NAK (`endptnak`). -/
structure Controller where
  outComplete : Option Nat
  inComplete : Bool
  outNak : Bool
  inNak : Bool

namespace Controller

/-- Nothing is latched. -/
def quiet : Controller := ⟨none, false, false, false⟩

/-- No transfer that is complete waits for its handler. -/
def Handled (controller : Controller) : Prop :=
  controller.outComplete = none ∧ controller.inComplete = false

/-- The tokens in front of a transfer that is complete are forgotten. -/
def acknowledge (controller : Controller) : Controller :=
  { controller with
    outNak := controller.outNak && controller.outComplete.isNone
    inNak := controller.inNak && !controller.inComplete }

end Controller

/-- What the interrupt service routine calls a handler for. -/
inductive UsbEvent where
  | out (received : Nat)
  | inward
  | outNak
  | inNak

/-- The transfers that are complete. -/
def Controller.transfers (controller : Controller) : List UsbEvent :=
  (controller.outComplete.map UsbEvent.out).toList ++
    if controller.inComplete then [.inward] else []

/-- The tokens that found nothing primed. -/
def Controller.tokens (controller : Controller) : List UsbEvent :=
  (if controller.outNak then [.outNak] else []) ++ if controller.inNak then [.inNak] else []

section Isr

variable (g : Geometry)

/-- `USB_EndPoint1` -/
def usbEndPoint1 (msc : Msc S) : UsbEvent → Except Halt (Msc S)
  | .out received => mscBulkOut g received msc
  | .inward => mscBulkIn g msc
  | .outNak => mscBulkOutNak g msc
  | .inNak => pure (mscBulkInNak msc)

/-- `USB_ISR` for both endpoints, when nothing happens on the bus meanwhile.  `naki` is the status
of the NAKs, which is read first. -/
def usbIsr (naki : Bool) (msc : Msc S) (controller : Controller) :
    Except Halt (Msc S × Controller) := do
  let msc ← controller.transfers.foldlM (usbEndPoint1 g) msc
  let controller := { controller.acknowledge with outComplete := none, inComplete := false }
  if naki then
    let msc ← controller.tokens.foldlM (usbEndPoint1 g) msc
    pure (msc, .quiet)
  else pure (msc, controller)

end Isr

/-! ## The host -/

/-- The value of bytes, the highest one first. -/
def bigEndian (bytes : List Nat) : Nat :=
  bytes.foldl (fun value byte => value * 256 + byte) 0

namespace MscCbw

/-- The first block of a read or a write. -/
def addr (cbw : MscCbw) : Nat :=
  bigEndian [cbw.cb 2, cbw.cb 3, cbw.cb 4, cbw.cb 5]

/-- The number of its blocks. -/
def count (cbw : MscCbw) : Nat :=
  if cbw.cb 0 = scsiRead12 ∨ cbw.cb 0 = scsiWrite12 then
    bigEndian [cbw.cb 6, cbw.cb 7, cbw.cb 8, cbw.cb 9]
  else bigEndian [cbw.cb 7, cbw.cb 8]

end MscCbw

/-- The commands of a host.  The blocks are named in the wrapper. -/
inductive HostCall (S : Type) where
  | read (cbw : MscCbw)
  | write (cbw : MscCbw) (data : Nat → S)
  | inform (cbw : MscCbw)
  | plain (cbw : MscCbw)

/-- What the host gets for a command. -/
structure HostAnswer (S : Type) where
  sectors : List S
  bytes : List Nat
  csw : MscCsw

section Answers

variable (g : Geometry) (capacity : Nat)

/-- The bytes that a command asks the device for. -/
def informData (opcode : Nat) : Option (List Nat) :=
  if opcode = scsiRequestSense then some requestSenseData
  else if opcode = scsiInquiry then some inquiryData
  else if opcode = scsiModeSense6 then some modeSense6Data
  else if opcode = scsiModeSense10 then some modeSense10Data
  else if opcode = scsiReadFormatCapacities then some (readFormatCapacityData g capacity)
  else if opcode = scsiReadCapacity then some (readCapacityData g capacity)
  else none

/-- The status of a command without data. -/
def plainStatus (cbw : MscCbw) : Nat :=
  if cbw.bLUN ≠ 0 ∨ cbw.bCBLength < 1 ∨ 16 < cbw.bCBLength then cswCmdFailed
  else if cbw.cb 0 = scsiTestUnitReady then cswCmdPassed
  else if (informData g capacity (cbw.cb 0)).isSome then cswPhaseError
  else if cbw.cb 0 = scsiVerify10 ∧ cbw.cb 1 &&& 0x02 = 0 then cswCmdPassed
  else cswCmdFailed

/-- A wrapper that is meant for the device. -/
structure MscCbw.Valid (cbw : MscCbw) : Prop where
  signature : cbw.dSignature = mscCbwSignature
  unit : cbw.bLUN = 0
  cbLength : 1 ≤ cbw.bCBLength ∧ cbw.bCBLength ≤ 16
  bytes : ∀ i, cbw.cb i < 256

/-- A range inside the capacity, whose bytes the host expects to transfer. -/
structure MscCbw.InRange (cbw : MscCbw) : Prop extends cbw.Valid where
  positive : 0 < cbw.count
  fits : cbw.addr + cbw.count ≤ capacity
  length : cbw.dDataLength = cbw.count * g.sectorSize
  isWord : cbw.dDataLength < 2 ^ 32

namespace HostCall

/-- The wrapper that begins a call. -/
def cbw : HostCall S → MscCbw
  | .read cbw => cbw
  | .write cbw _ => cbw
  | .inform cbw => cbw
  | .plain cbw => cbw

/-- What a host may send. -/
def Conforms : HostCall S → Prop
  | .read cbw => cbw.InRange g capacity ∧ (cbw.cb 0 = scsiRead10 ∨ cbw.cb 0 = scsiRead12) ∧
      cbw.dataIn = true
  | .write cbw _ => cbw.InRange g capacity ∧ (cbw.cb 0 = scsiWrite10 ∨ cbw.cb 0 = scsiWrite12) ∧
      cbw.dataIn = false
  | .inform cbw => cbw.Valid ∧ (informData g capacity (cbw.cb 0)).isSome ∧
      0 < cbw.dDataLength ∧ cbw.dataIn = true
  | .plain cbw => cbw.dSignature = mscCbwSignature ∧ cbw.dDataLength = 0

/-- The sectors behind the command. -/
def image (call : HostCall S) (before : Nat → S) : Nat → S :=
  match call with
  | .write cbw data => putSectors before cbw.addr cbw.count data
  | _ => before

/-- The answer of a device with these sectors. -/
def answer (call : HostCall S) (image : Nat → S) : HostAnswer S :=
  match call with
  | .read cbw =>
      ⟨(List.range cbw.count).map fun i => image (cbw.addr + i), [],
        ⟨mscCswSignature, cbw.dTag, 0, cswCmdPassed⟩⟩
  | .write cbw _ => ⟨[], [], ⟨mscCswSignature, cbw.dTag, 0, cswCmdPassed⟩⟩
  | .inform cbw =>
      ⟨[], ((informData g capacity (cbw.cb 0)).getD []).take cbw.dDataLength,
        ⟨mscCswSignature, cbw.dTag, 0, cswCmdPassed⟩⟩
  | .plain cbw => ⟨[], [], ⟨mscCswSignature, cbw.dTag, 0, plainStatus g capacity cbw⟩⟩

end HostCall

end Answers

/-- What the host is about: it sends a wrapper or data, or waits for sectors, for bytes or for the
status. -/
inductive HostPhase (S : Type) where
  | idle
  | command (call : HostCall S)
  | dataOut (cbw : MscCbw) (data : Nat → S) (sent : Nat)
  | dataIn (cbw : MscCbw) (received : List S)
  | inform (cbw : MscCbw)
  | status (call : HostCall S) (sectors : List S) (bytes : List Nat)

namespace HostPhase

/-- The phase behind the wrapper. -/
def start : HostCall S → HostPhase S
  | .read cbw => .dataIn cbw []
  | .write cbw data => .dataOut cbw data 0
  | .inform cbw => .inform cbw
  | .plain cbw => .status (.plain cbw) [] []

/-- The phase behind more data. -/
def sent (cbw : MscCbw) (data : Nat → S) (count : Nat) : HostPhase S :=
  if count = cbw.count then .status (.write cbw data) [] [] else .dataOut cbw data count

/-- The phase of the host behind some sectors of a read. -/
def received (cbw : MscCbw) (sectors : List S) : HostPhase S :=
  if sectors.length = cbw.count then .status (.read cbw) sectors [] else .dataIn cbw sectors

/-- The host has something to send. -/
def Sends : HostPhase S → Prop
  | .command _ => True
  | .dataOut _ _ _ => True
  | _ => False

/-- The host waits for something. -/
def Waits : HostPhase S → Prop
  | .dataIn _ _ => True
  | .inform _ => True
  | .status _ _ _ => True
  | _ => False

end HostPhase

/-! ## Steps -/

/-- The device and the host, with the commands that are done, the last one first. -/
structure World (S : Type) where
  device : Device S
  controller : Controller
  phase : HostPhase S
  done : List (HostCall S × HostAnswer S)

/-- When the handler of a token is called: the endpoint of the token, and the world. -/
abbrev NakRule (S : Type) : Type := Endpoint → World S → Prop

/-- `USB_ISR` comes to the tokens behind the handlers of the transfers that are complete. -/
def Ordered : NakRule S :=
  fun _ world => world.controller.Handled

/-- Also, when the handler of a token of the host that waits finds something primed, no data of a
read is left over. -/
def Timely : NakRule S
  | .mscEpOut, world => world.controller.Handled
  | .mscEpIn, world => world.controller.Handled ∧
      (world.device.msc.inRequest = none ∨ world.device.msc.readBulkLen = 0)

section Steps

variable (g : Geometry) (capacity : Nat)

/-- The sectors in the read buffer. -/
def Msc.sectors (msc : Msc S) (length : Nat) : List S :=
  (List.range (length / g.sectorSize)).map msc.readBulkBuf

/-- The bytes in the buffer for commands. -/
def Msc.bytes (msc : Msc S) (length : Nat) : List Nat :=
  (List.range length).map msc.cmdBulkBuf

/-- The wrapper of the host is in the memory of the transfer. -/
def Msc.withCbw (msc : Msc S) (cbw : MscCbw) : Msc S :=
  { msc with cbw := cbw, outRequest := none }

/-- The data of the host is in the memory of the transfer. -/
def Msc.fill (msc : Msc S) (buffer first count : Nat) (data : Nat → S) : Msc S :=
  { msc with
    pbPool := Function.update msc.pbPool buffer (putSectors (msc.pbPool buffer) first count data)
    outRequest := none }

/-- The host has taken what was primed. -/
def Msc.taken (msc : Msc S) : Msc S :=
  { msc with inRequest := none }

/-- One step of the host, of a handler or of the main loop.  A token may still come between the
beginning of the interrupt service routine, which forgets the earlier tokens of an endpoint whose
transfer is complete, and the handler of that transfer: `late`. -/
inductive Step (rule : NakRule S) : World S → World S → Prop
  | starts {device : Device S} {controller : Controller} {done : List (HostCall S × HostAnswer S)}
      {call : HostCall S} (conforms : call.Conforms g capacity) :
      Step rule ⟨device, controller, .idle, done⟩ ⟨device, controller, .command call, done⟩
  | outToken {device : Device S} {controller : Controller} {phase : HostPhase S}
      {done : List (HostCall S × HostAnswer S)} (sends : phase.Sends)
      (notPrimed : device.msc.outRequest = none) :
      Step rule ⟨device, controller, phase, done⟩
        ⟨device, { controller with outNak := true }, phase, done⟩
  | inToken {device : Device S} {controller : Controller} {phase : HostPhase S}
      {done : List (HostCall S × HostAnswer S)} (waits : phase.Waits)
      (notPrimed : device.msc.inRequest = none) :
      Step rule ⟨device, controller, phase, done⟩
        ⟨device, { controller with inNak := true }, phase, done⟩
  | outCommand {device : Device S} {controller : Controller} {call : HostCall S}
      {done : List (HostCall S × HostAnswer S)}
      (primed : device.msc.outRequest = some (.cbw, cbwSize)) :
      Step rule ⟨device, controller, .command call, done⟩
        ⟨{ device with msc := device.msc.withCbw call.cbw },
          { controller with outComplete := some cbwSize }, .start call, done⟩
  | outData {device : Device S} {controller : Controller} {cbw : MscCbw} {data : Nat → S}
      {sent buffer first : Nat} {done : List (HostCall S × HostAnswer S)} (count : Nat)
      (primed : device.msc.outRequest = some (.pool buffer first, count * g.sectorSize))
      (left : sent + count ≤ cbw.count) :
      Step rule ⟨device, controller, .dataOut cbw data sent, done⟩
        ⟨{ device with msc := device.msc.fill buffer first count fun i => data (sent + i) },
          { controller with outComplete := some (count * g.sectorSize) },
          .sent cbw data (sent + count), done⟩
  | inSectors {device : Device S} {controller : Controller} {cbw : MscCbw} {received : List S}
      {length : Nat} {done : List (HostCall S × HostAnswer S)}
      (primed : device.msc.inRequest = some (.readBulkBuf, length)) :
      Step rule ⟨device, controller, .dataIn cbw received, done⟩
        ⟨{ device with msc := device.msc.taken }, { controller with inComplete := true },
          .received cbw (received ++ device.msc.sectors g length), done⟩
  | inBytes {device : Device S} {controller : Controller} {cbw : MscCbw} {length : Nat}
      {done : List (HostCall S × HostAnswer S)}
      (primed : device.msc.inRequest = some (.cmdBulkBuf, length)) :
      Step rule ⟨device, controller, .inform cbw, done⟩
        ⟨{ device with msc := device.msc.taken }, { controller with inComplete := true },
          .status (.inform cbw) [] (device.msc.bytes length), done⟩
  | inStatus {device : Device S} {controller : Controller} {call : HostCall S} {sectors : List S}
      {bytes : List Nat} {done : List (HostCall S × HostAnswer S)}
      (primed : device.msc.inRequest = some (.csw, cswSize)) :
      Step rule ⟨device, controller, .status call sectors bytes, done⟩
        ⟨{ device with msc := device.msc.taken }, { controller with inComplete := true }, .idle,
          (call, ⟨sectors, bytes, device.msc.csw⟩) :: done⟩
  | outDone {device : Device S} {controller : Controller} {phase : HostPhase S}
      {done : List (HostCall S × HostAnswer S)} {msc : Msc S} {received : Nat} (late : Bool)
      (complete : controller.outComplete = some received)
      (tokens : late = true → phase.Sends ∧ device.msc.outRequest = none)
      (handled : mscBulkOut g received device.msc = .ok msc) :
      Step rule ⟨device, controller, phase, done⟩
        ⟨{ device with msc := msc }, { controller with outComplete := none, outNak := late }, phase,
          done⟩
  | inDone {device : Device S} {controller : Controller} {phase : HostPhase S}
      {done : List (HostCall S × HostAnswer S)} {msc : Msc S} (late : Bool)
      (complete : controller.inComplete = true)
      (tokens : late = true → phase.Waits ∧ device.msc.inRequest = none)
      (handled : mscBulkIn g device.msc = .ok msc) :
      Step rule ⟨device, controller, phase, done⟩
        ⟨{ device with msc := msc }, { controller with inComplete := false, inNak := late }, phase,
          done⟩
  | outNak {device : Device S} {controller : Controller} {phase : HostPhase S}
      {done : List (HostCall S × HostAnswer S)} {msc : Msc S} (latched : controller.outNak = true)
      (allowed : rule .mscEpOut ⟨device, controller, phase, done⟩)
      (handled : mscBulkOutNak g device.msc = .ok msc) :
      Step rule ⟨device, controller, phase, done⟩
        ⟨{ device with msc := msc }, { controller with outNak := false }, phase, done⟩
  | inNak {device : Device S} {controller : Controller} {phase : HostPhase S}
      {done : List (HostCall S × HostAnswer S)} (latched : controller.inNak = true)
      (allowed : rule .mscEpIn ⟨device, controller, phase, done⟩) :
      Step rule ⟨device, controller, phase, done⟩
        ⟨{ device with msc := mscBulkInNak device.msc }, { controller with inNak := false }, phase,
          done⟩
  | task {device after : Device S} {controller : Controller} {phase : HostPhase S}
      {done : List (HostCall S × HostAnswer S)} (returned : List Nat) (top : device.pc = .top)
      (waiting : device.msc.utPop ≠ device.msc.utPush)
      (executed : device.runTask returned = .ok after)
      (few : after.below.length ≤ g.totalDieCount + 1) :
      Step rule ⟨device, controller, phase, done⟩ ⟨after, controller, phase, done⟩
  | tell {device : Device S} {controller : Controller} {phase : HostPhase S}
      {done : List (HostCall S × HostAnswer S)} (told : device.pc = .read ∨ device.pc = .merged) :
      Step rule ⟨device, controller, phase, done⟩ ⟨device.tell g, controller, phase, done⟩
  | advance {device : Device S} {controller : Controller} {phase : HostPhase S}
      {done : List (HostCall S × HostAnswer S)} (next : device.pc = .next) :
      Step rule ⟨device, controller, phase, done⟩ ⟨device.advance g, controller, phase, done⟩

/-- The device behind `MSC_Init`, in high speed.  The layers below have the buffers that are
used. -/
structure Started (device : Device S) : Prop where
  highSpeed : device.msc.devStatusFS2HS = true
  blockCount : device.msc.mscBlockCount = capacity
  stage : device.msc.bulkStage = .cbw
  readBulkLen : device.msc.readBulkLen = 0
  mergeStage : device.msc.mergeStage = .none
  empty : device.msc.utPop = 0 ∧ device.msc.utPush = 0
  idle : device.msc.outRequest = none ∧ device.msc.inRequest = none
  pc : device.pc = .top
  owners : device.below.Nodup ∧ (∀ buffer ∈ device.below, buffer < g.bufferCount) ∧
    ∀ buffer < g.bufferCount, device.msc.pbPoolUsed buffer = true ↔ buffer ∈ device.below
  few : device.below.length ≤ g.totalDieCount + 1

/-- The worlds that are reached from a device with these sectors. -/
inductive MscRun (rule : NakRule S) (image : Nat → S) : World S → Prop
  | start {device : Device S} (started : Started g capacity device) (same : device.disk = image) :
      MscRun rule image ⟨device, .quiet, .idle, []⟩
  | step {world after : World S} (run : MscRun rule image world)
      (step : Step g capacity rule world after) :
      MscRun rule image after

/-- The sectors behind the commands that are done. -/
def imageAfter (image : Nat → S) : List (HostCall S × HostAnswer S) → Nat → S
  | [] => image
  | (call, _) :: earlier => call.image (imageAfter image earlier)

/-- Each command got the answer of a flat array of sectors. -/
def Answered (image : Nat → S) : List (HostCall S × HostAnswer S) → Prop
  | [] => True
  | (call, answer) :: earlier =>
      answer = call.answer g capacity (imageAfter image earlier) ∧ Answered image earlier

end Steps

end OpenNfm.Usb
