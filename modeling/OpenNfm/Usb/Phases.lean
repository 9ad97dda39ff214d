import OpenNfm.Usb.Tasks

/-!
# What the variables say in each phase

The stage of the device, its descriptors and its buffers follow the phase of the host. While the
host writes, the device has nothing of the next page yet, or reads the page that the data is merged
into, or has a transfer primed for the data. While the host reads, the data has been logged as a
transaction, or is in the read buffer, or is primed. A transfer that is complete takes the host into
the next phase, and the device follows when the handler is called.
-/

namespace OpenNfm.Usb

open OpenNfm.Program

variable {S : Type} {g : Geometry} {capacity : Nat}

/-! ## Pages -/

/-- The sectors that are transferred next, inside one page. -/
def chunk (g : Geometry) (offset left : Nat) : Nat :=
  min (g.sectorPerMpp - offset % g.sectorPerMpp) left

theorem chunk_pos {offset left : Nat} (positive : 0 < left) : 0 < chunk g offset left := by
  have := Nat.mod_lt offset g.sectorPerMpp_pos
  unfold chunk
  omega

theorem chunk_le (g : Geometry) (offset left : Nat) : chunk g offset left ≤ left :=
  Nat.min_le_right _ _

theorem mod_add_chunk_le (g : Geometry) (offset left : Nat) :
    offset % g.sectorPerMpp + chunk g offset left ≤ g.sectorPerMpp := by
  have := Nat.mod_lt offset g.sectorPerMpp_pos
  unfold chunk
  omega

/-- The page of a sector in a capacity of whole pages. -/
theorem page_inRange {offset : Nat} (whole : g.sectorPerMpp ∣ capacity)
    (inRange : offset < capacity) :
    (offset / g.sectorPerMpp + 1) * g.sectorPerMpp ≤ capacity := by
  obtain ⟨pages, rfl⟩ := whole
  rw [Nat.mul_comm g.sectorPerMpp pages] at inRange ⊢
  exact Nat.mul_le_mul_right _ ((Nat.div_lt_iff_lt_mul g.sectorPerMpp_pos).mpr inRange)

/-- A page buffer that has the sectors of an array, but for the ones that come next. -/
def Loaded (g : Geometry) (content : Nat → S) (image : Nat → S) (offset count : Nat) : Prop :=
  ∀ i < g.sectorPerMpp, ¬ (offset % g.sectorPerMpp ≤ i ∧ i < offset % g.sectorPerMpp + count) →
    content i = image (offset / g.sectorPerMpp * g.sectorPerMpp + i)

/-- The page is complete when they have come. -/
theorem Loaded.put {content image data : Nat → S} {offset count : Nat}
    (loaded : Loaded g content image offset count)
    (inPage : offset % g.sectorPerMpp + count ≤ g.sectorPerMpp) :
    putSectors image (offset / g.sectorPerMpp * g.sectorPerMpp) g.sectorPerMpp
        (putSectors content (offset % g.sectorPerMpp) count data) =
      putSectors image offset count data := by
  funext sector
  have split := Nat.div_add_mod' offset g.sectorPerMpp
  unfold putSectors
  by_cases inside : offset ≤ sector ∧ sector < offset + count
  · have position : sector - offset / g.sectorPerMpp * g.sectorPerMpp - offset % g.sectorPerMpp =
        sector - offset := by omega
    rw [if_pos inside, if_pos (by omega), if_pos (by omega), position]
  · rw [if_neg inside]
    split
    · rename_i inPage'
      rw [if_neg (by omega), loaded _ (by omega) (by omega)]
      congr 1
      omega
    · rfl

/-! ## Phases -/

/-- The main loop is not between the data of a read and telling the handlers. -/
def Device.Calm (device : Device S) : Prop := device.pc = .top ∨ device.pc = .next

/-- No command is in the device. -/
structure Resting (device : Device S) (last : List UsbTransaction) (carried : Option Nat) :
    Prop where
  stage : device.msc.bulkStage = .cbw
  merge : device.msc.mergeStage = .none
  inRequest : device.msc.inRequest = none
  last : last = []
  carried : carried = none
  calm : device.Calm

/-- The transaction that reads the page of a sector. -/
def mergeTask (g : Geometry) (offset buffer : Nat) : UsbTransaction :=
  ⟨.merge, Buf.startOf g offset, g.sectorPerMpp, .bulkBuf (some buffer)⟩

/-- The page that the host fills next, up to the transfer of its data. -/
inductive Filling (g : Geometry) (device : Device S) (offset left : Nat) (image : Nat → S) :
    List UsbTransaction → Option Nat → Prop
  | free (stage : device.msc.mergeStage = .none) (request : device.msc.outRequest = none)
      (calm : device.Calm) : Filling g device offset left image [] none
  | merging {buffer : Nat} (stage : device.msc.mergeStage = .start)
      (request : device.msc.outRequest = none) (bulkBuf : device.msc.bulkBuf = some buffer)
      (count : device.msc.mergeCount = chunk g offset left) (calm : device.Calm) :
      Filling g device offset left image [mergeTask g offset buffer] (some buffer)
  | merged {buffer : Nat} (stage : device.msc.mergeStage = .start)
      (request : device.msc.outRequest = none) (bulkBuf : device.msc.bulkBuf = some buffer)
      (count : device.msc.mergeCount = chunk g offset left) (pc : device.pc = .merged)
      (loaded : Loaded g (device.msc.pbPool buffer) image offset (chunk g offset left)) :
      Filling g device offset left image [] (some buffer)
  | ready {buffer : Nat} (stage : device.msc.mergeStage = .finish)
      (request : device.msc.outRequest = none) (bulkBuf : device.msc.bulkBuf = some buffer)
      (count : device.msc.mergeCount = chunk g offset left) (calm : device.Calm)
      (loaded : Loaded g (device.msc.pbPool buffer) image offset (chunk g offset left)) :
      Filling g device offset left image [] (some buffer)
  | primed {buffer : Nat} (stage : device.msc.mergeStage = .none)
      (request : device.msc.outRequest = some (.pool buffer (offset % g.sectorPerMpp),
        chunk g offset left * g.sectorSize))
      (bulkBuf : device.msc.bulkBuf = some buffer) (calm : device.Calm)
      (loaded : Loaded g (device.msc.pbPool buffer) image offset (chunk g offset left)) :
      Filling g device offset left image [] (some buffer)

/-- A write of which some sectors have come. -/
structure Writing (g : Geometry) (capacity : Nat) (device : Device S) (cbw : MscCbw)
    (data : Nat → S) (sent : Nat) : Prop where
  conforms : (HostCall.write cbw data).Conforms g capacity
  wrapper : device.msc.cbw = cbw
  stage : device.msc.bulkStage = .dataOut
  inRequest : device.msc.inRequest = none
  more : sent < cbw.count
  offset : device.msc.offset = cbw.addr + sent
  length : device.msc.length = cbw.count - sent
  tag : device.msc.csw.dTag = cbw.dTag
  residue : device.msc.csw.dDataResidue = (cbw.count - sent) * g.sectorSize

/-- The transaction that reads sectors for the host. -/
def readTask (g : Geometry) (offset left : Nat) : UsbTransaction :=
  ⟨.read, offset, chunk g offset left, .readBulkBuf⟩

/-- The read buffer has the next sectors. -/
def ReadBulk (g : Geometry) (device : Device S) (offset left : Nat) (image : Nat → S) : Prop :=
  ∀ i < chunk g offset left, device.msc.readBulkBuf i = image (offset + i)

/-- The sectors that the host gets next. -/
inductive Fetching (g : Geometry) (device : Device S) (offset left : Nat) (image : Nat → S) :
    List UsbTransaction → List UsbTransaction → Prop
  | logged {heads : List UsbTransaction} (stage : device.msc.bulkStage = .dataIn)
      (request : device.msc.inRequest = none) (empty : device.msc.readBulkLen = 0)
      (calm : device.Calm) : Fetching g device offset left image heads [readTask g offset left]
  | read (stage : device.msc.bulkStage = .dataIn) (request : device.msc.inRequest = none)
      (empty : device.msc.readBulkLen = 0) (pc : device.pc = .read)
      (data : ReadBulk g device offset left image) :
      Fetching g device offset left image [readTask g offset left] []
  | ready {heads : List UsbTransaction} (stage : device.msc.bulkStage = .dataIn)
      (request : device.msc.inRequest = none)
      (length : device.msc.readBulkLen = chunk g offset left * g.sectorSize) (calm : device.Calm)
      (data : ReadBulk g device offset left image) : Fetching g device offset left image heads []
  | primed {heads : List UsbTransaction}
      (stage : device.msc.bulkStage = if left = chunk g offset left then .dataInLast else .dataIn)
      (request : device.msc.inRequest = some (.readBulkBuf, chunk g offset left * g.sectorSize))
      (status : left = chunk g offset left → device.msc.csw.bStatus = cswCmdPassed)
      (calm : device.Calm) (data : ReadBulk g device offset left image) :
      Fetching g device offset left image heads []

/-- A read of which the host has got some sectors. -/
structure Reading (g : Geometry) (capacity : Nat) (device : Device S) (cbw : MscCbw) (got : Nat) :
    Prop where
  conforms : (HostCall.read cbw : HostCall S).Conforms g capacity
  wrapper : device.msc.cbw = cbw
  merge : device.msc.mergeStage = .none
  outRequest : device.msc.outRequest = none
  more : got < cbw.count
  offset : device.msc.offset = cbw.addr + got + chunk g (cbw.addr + got) (cbw.count - got)
  length : device.msc.length = cbw.count - got - chunk g (cbw.addr + got) (cbw.count - got)
  tag : device.msc.csw.dTag = cbw.dTag
  residue : device.msc.csw.dDataResidue = device.msc.length * g.sectorSize

/-- The device answers, and waits for the host to take the answer. -/
structure Answering (device : Device S) (source : InSource) (length : Nat) (stage : BulkStage)
    (csw : MscCsw) : Prop where
  stage : device.msc.bulkStage = stage
  merge : device.msc.mergeStage = .none
  outRequest : device.msc.outRequest = none
  inRequest : device.msc.inRequest = some (source, length)
  csw : device.msc.csw = csw
  calm : device.Calm

/-- What the host has written, with the part of the command that is under way. -/
def phaseImage (base : Nat → S) : HostPhase S → Nat → S
  | .dataOut cbw data sent => putSectors base cbw.addr sent data
  | .status call _ _ => call.image base
  | _ => base

/-- The device is where the phase of the host says. -/
def InPhase (g : Geometry) (capacity : Nat) (base : Nat → S) (device : Device S)
    (heads last : List UsbTransaction) (carried : Option Nat) : HostPhase S → Prop
  | .idle => Resting device last carried ∧ device.msc.outRequest = none
  | .command call => call.Conforms g capacity ∧ Resting device last carried ∧
      (device.msc.outRequest = none ∨ device.msc.outRequest = some (.cbw, cbwSize))
  | .dataOut cbw data sent => Writing g capacity device cbw data sent ∧
      Filling g device (cbw.addr + sent) (cbw.count - sent)
        (putSectors base cbw.addr sent data) last carried
  | .dataIn cbw received => carried = none ∧ Reading g capacity device cbw received.length ∧
      received = (List.range received.length).map (fun i => base (cbw.addr + i)) ∧
      Fetching g device (cbw.addr + received.length) (cbw.count - received.length) base heads last
  | .inform cbw => last = [] ∧ carried = none ∧
      (HostCall.inform cbw : HostCall S).Conforms g capacity ∧
      ∃ csw length, Answering device .cmdBulkBuf length .dataInLast csw ∧
        { csw with dSignature := mscCswSignature } =
          ((HostCall.inform cbw : HostCall S).answer g capacity base).csw ∧
        device.msc.bytes length = ((HostCall.inform cbw : HostCall S).answer g capacity base).bytes
  | .status call sectors bytes => last = [] ∧ carried = none ∧
      Answering device .csw cswSize .csw (call.answer g capacity base).csw ∧
      sectors = (call.answer g capacity base).sectors ∧ bytes = (call.answer g capacity base).bytes

/-- The device is where the phase of the host says, when `base` is what the host had written before
the command. -/
def Holding (g : Geometry) (capacity : Nat) (base : Nat → S) (device : Device S)
    (phase : HostPhase S) : Prop :=
  ∃ heads writes last carried, InHand g capacity device heads writes last carried
    (phaseImage base phase) ∧ InPhase g capacity base device heads last carried phase

/-! ## Transfers that are complete -/

/-- A transfer is complete, and its handler is to come.  The host is in the next phase, with a
buffer that it has filled or none, and `image` is what it has written into other pages. -/
inductive Pending (g : Geometry) (capacity : Nat) (base : Nat → S) (device : Device S)
    (controller : Controller) : Option Nat → (Nat → S) → HostPhase S → Prop
  | command {call : HostCall S} {phase : HostPhase S} (out : controller.outComplete = some cbwSize)
      (inward : controller.inComplete = false) (conforms : call.Conforms g capacity)
      (resting : Resting device [] none) (request : device.msc.outRequest = none)
      (wrapper : device.msc.cbw = call.cbw) (here : phase = .start call) :
      Pending g capacity base device controller none base phase
  | data {cbw : MscCbw} {data : Nat → S} {sent count buffer : Nat} {phase : HostPhase S}
      (out : controller.outComplete = some (count * g.sectorSize))
      (inward : controller.inComplete = false) (writing : Writing g capacity device cbw data sent)
      (merge : device.msc.mergeStage = .none) (request : device.msc.outRequest = none)
      (calm : device.Calm) (bulkBuf : device.msc.bulkBuf = some buffer)
      (part : count ≤ cbw.count - sent)
      (filled : putSectors (putSectors base cbw.addr sent data)
        ((cbw.addr + sent) / g.sectorPerMpp * g.sectorPerMpp) g.sectorPerMpp
        (device.msc.pbPool buffer) = putSectors base cbw.addr (sent + count) data)
      (here : phase = .sent cbw data (sent + count)) :
      Pending g capacity base device controller (some buffer) (putSectors base cbw.addr sent data)
        phase
  | sectors {cbw : MscCbw} {got : Nat} {sectors : List S} {phase : HostPhase S}
      (out : controller.outComplete = none) (inward : controller.inComplete = true)
      (reading : Reading g capacity device cbw got)
      (stage : device.msc.bulkStage =
        if cbw.count - got = chunk g (cbw.addr + got) (cbw.count - got) then .dataInLast
          else .dataIn)
      (request : device.msc.inRequest = none)
      (status : cbw.count - got = chunk g (cbw.addr + got) (cbw.count - got) →
        device.msc.csw.bStatus = cswCmdPassed)
      (calm : device.Calm)
      (length : sectors.length = got + chunk g (cbw.addr + got) (cbw.count - got))
      (answered : sectors = (List.range sectors.length).map fun i => base (cbw.addr + i))
      (here : phase = .received cbw sectors) :
      Pending g capacity base device controller none base phase
  | bytes {cbw : MscCbw} {bytes : List Nat} (out : controller.outComplete = none)
      (inward : controller.inComplete = true) (stage : device.msc.bulkStage = .dataInLast)
      (merge : device.msc.mergeStage = .none)
      (requests : device.msc.outRequest = none ∧ device.msc.inRequest = none) (calm : device.Calm)
      (status : { device.msc.csw with dSignature := mscCswSignature } =
        ((HostCall.inform cbw : HostCall S).answer g capacity base).csw)
      (answered : bytes = ((HostCall.inform cbw : HostCall S).answer g capacity base).bytes) :
      Pending g capacity base device controller none base (.status (.inform cbw) [] bytes)
  | status {phase : HostPhase S} (out : controller.outComplete = none)
      (inward : controller.inComplete = true) (stage : device.msc.bulkStage = .csw)
      (merge : device.msc.mergeStage = .none)
      (requests : device.msc.outRequest = none ∧ device.msc.inRequest = none) (calm : device.Calm)
      (here : phase = .idle ∨ ∃ call, phase = .command call ∧ call.Conforms g capacity) :
      Pending g capacity base device controller none base phase

/-- Where the device is: at the phase of the host, or in front of the handler of a transfer. -/
inductive Held (g : Geometry) (capacity : Nat) (base : Nat → S) (device : Device S)
    (controller : Controller) (phase : HostPhase S) : Prop
  | settled (handled : controller.Handled) (holding : Holding g capacity base device phase)
  | pending {heads : List UsbTransaction} {writes : List PageWrite} {carried : Option Nat}
      {image : Nat → S} (hand : InHand g capacity device heads writes [] carried image)
      (pending : Pending g capacity base device controller carried image phase)

section Held

variable {base image : Nat → S} {device : Device S} {controller : Controller} {phase : HostPhase S}
  {carried : Option Nat}

/-- Nothing is primed in front of the handler of a transfer. -/
theorem Pending.notPrimed
    (pending : Pending g capacity base device controller carried image phase) :
    device.msc.outRequest = none ∧ device.msc.inRequest = none := by
  cases pending with
  | command out inward conforms resting request wrapper here => exact ⟨request, resting.inRequest⟩
  | data out inward writing merge request calm bulkBuf part filled here =>
      exact ⟨request, writing.inRequest⟩
  | sectors out inward reading stage request status calm length answered here =>
      exact ⟨reading.outRequest, request⟩
  | bytes out inward stage merge requests calm status answered => exact requests
  | status out inward stage merge requests calm here => exact requests

theorem Pending.notHandled
    (pending : Pending g capacity base device controller carried image phase) :
    ¬ controller.Handled := by
  rintro ⟨noOut, noIn⟩
  cases pending with
  | command out inward conforms resting request wrapper here => rw [noOut] at out; cases out
  | data out inward writing merge request calm bulkBuf part filled here =>
      rw [noOut] at out
      cases out
  | sectors out inward reading stage request status calm length answered here =>
      rw [noIn] at inward
      cases inward
  | bytes out inward stage merge requests calm status answered => rw [noIn] at inward; cases inward
  | status out inward stage merge requests calm here => rw [noIn] at inward; cases inward

/-- No data of a read is on its way to the handlers. -/
theorem Pending.calm
    (pending : Pending g capacity base device controller carried image phase) : device.Calm := by
  cases pending with
  | command out inward conforms resting request wrapper here => exact resting.calm
  | data out inward writing merge request calm bulkBuf part filled here => exact calm
  | sectors out inward reading stage request status calm length answered here => exact calm
  | bytes out inward stage merge requests calm status answered => exact calm
  | status out inward stage merge requests calm here => exact calm

/-- The tokens do not matter. -/
theorem Pending.relatch {controller' : Controller}
    (pending : Pending g capacity base device controller carried image phase)
    (sameOut : controller'.outComplete = controller.outComplete)
    (sameIn : controller'.inComplete = controller.inComplete) :
    Pending g capacity base device controller' carried image phase := by
  cases pending with
  | command out inward conforms resting request wrapper here =>
      exact .command (sameOut.trans out) (sameIn.trans inward) conforms resting request wrapper here
  | data out inward writing merge request calm bulkBuf part filled here =>
      exact .data (sameOut.trans out) (sameIn.trans inward) writing merge request calm bulkBuf part
        filled here
  | sectors out inward reading stage request status calm length answered here =>
      exact .sectors (sameOut.trans out) (sameIn.trans inward) reading stage request status calm
        length answered here
  | bytes out inward stage merge requests calm status answered =>
      exact .bytes (sameOut.trans out) (sameIn.trans inward) stage merge requests calm
        status answered
  | status out inward stage merge requests calm here =>
      exact .status (sameOut.trans out) (sameIn.trans inward) stage merge requests calm here

theorem Held.relatch {controller' : Controller}
    (held : Held g capacity base device controller phase)
    (sameOut : controller'.outComplete = controller.outComplete)
    (sameIn : controller'.inComplete = controller.inComplete) :
    Held g capacity base device controller' phase := by
  cases held with
  | settled handled holding =>
      exact .settled ⟨sameOut.trans handled.1, sameIn.trans handled.2⟩ holding
  | pending hand pending => exact .pending hand (pending.relatch sameOut sameIn)

/-- The handlers of all transfers have been called. -/
theorem Held.holding (held : Held g capacity base device controller phase)
    (handled : controller.Handled) : Holding g capacity base device phase := by
  cases held with
  | settled _ holding => exact holding
  | pending hand pending => exact absurd handled pending.notHandled

/-- Something is primed, so no transfer waits for its handler. -/
theorem Held.settled_of_primed (held : Held g capacity base device controller phase)
    (primed : device.msc.outRequest ≠ none ∨ device.msc.inRequest ≠ none) :
    controller.Handled ∧ Holding g capacity base device phase := by
  cases held with
  | settled handled holding => exact ⟨handled, holding⟩
  | pending hand pending =>
      obtain ⟨noOut, noIn⟩ := pending.notPrimed
      exact absurd primed (not_or.mpr ⟨not_not.mpr noOut, not_not.mpr noIn⟩)

end Held

end OpenNfm.Usb
