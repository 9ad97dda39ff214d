import OpenNfm.Usb.Phases

/-!
# What the handlers do

Each handler that is called in a phase of the host returns, and leaves the device where the next
phase says.
-/

namespace OpenNfm.Usb

open OpenNfm.Program

variable {S : Type} {g : Geometry} {capacity : Nat} {device : Device S}
  {heads last : List UsbTransaction} {writes : List PageWrite} {carried : Option Nat}
  {image base : Nat → S} {cbw : MscCbw}

/-! ## Wrappers -/

theorem shiftLeft_or {a b i : Nat} (small : b < 2 ^ i) : a <<< i ||| b = a * 2 ^ i + b := by
  rw [← Nat.shiftLeft_add_eq_or_of_lt small, Nat.shiftLeft_eq]

/-- Four bytes of a wrapper are a word. -/
theorem fourBytes_eq {a b c d : Nat} (isByte : b < 256 ∧ c < 256 ∧ d < 256) :
    (a <<< 24 ||| b <<< 16 ||| c <<< 8 ||| d) = bigEndian [a, b, c, d] := by
  obtain ⟨isB, isC, isD⟩ := isByte
  have small : c <<< 8 ||| d < 2 ^ 16 := by
    rw [shiftLeft_or isD]
    omega
  have small' : b <<< 16 ||| (c <<< 8 ||| d) < 2 ^ 24 := by
    rw [shiftLeft_or small, shiftLeft_or isD]
    omega
  rw [Nat.or_assoc, Nat.or_assoc, shiftLeft_or small', shiftLeft_or small, shiftLeft_or isD]
  simp only [bigEndian, List.foldl_cons, List.foldl_nil]
  omega

theorem cbwOffset_eq (bytes : ∀ i, cbw.cb i < 256) : cbwOffset cbw.cb = cbw.addr :=
  fourBytes_eq ⟨bytes 3, bytes 4, bytes 5⟩

theorem cbwCount_eq (bytes : ∀ i, cbw.cb i < 256) : cbwCount cbw.cb = cbw.count := by
  unfold cbwCount MscCbw.count
  split
  · exact fourBytes_eq ⟨bytes 7, bytes 8, bytes 9⟩
  · rw [shiftLeft_or (bytes 8)]
    simp only [bigEndian, List.foldl_cons, List.foldl_nil]
    omega

/-- A wrapper for a range inside the capacity is accepted. -/
theorem mscRwSetup_eq {msc : Msc S} (inRange : msc.cbw.InRange g capacity) :
    mscRwSetup g msc = (true, { msc with offset := msc.cbw.addr, length := msc.cbw.count }) := by
  have asked : msc.cbw.dDataLength ≠ 0 := by
    rw [inRange.length]
    exact Nat.mul_ne_zero (Nat.ne_of_gt inRange.positive) (Nat.ne_of_gt g.sectorSize_pos)
  have expected : msc.cbw.dDataLength = msc.cbw.count * g.sectorSize % 2 ^ 32 := by
    rw [← inRange.length, Nat.mod_eq_of_lt inRange.isWord]
  unfold mscRwSetup
  rw [cbwOffset_eq inRange.bytes, cbwCount_eq inRange.bytes]
  dsimp only
  rw [if_neg asked, if_neg (not_not.mpr expected)]

/-- The wrapper of a command that is meant for the device. -/
theorem mscGetCbw_eq {msc : Msc S} (length : msc.bulkLen = cbwSize) (valid : msc.cbw.Valid) :
    mscGetCbw g msc = mscCommand g
      { msc with
        csw := { msc.csw with dTag := msc.cbw.dTag, dDataResidue := msc.cbw.dDataLength } } := by
  have accepted : ¬ (msc.cbw.bLUN ≠ 0 ∨ msc.cbw.bCBLength < 1 ∨ 16 < msc.cbw.bCBLength) := by
    have := valid.unit
    have := valid.cbLength
    omega
  unfold mscGetCbw
  rw [if_pos ⟨length, valid.signature⟩]
  exact if_neg accepted

theorem mscCommand_read {msc : Msc S}
    (isRead : msc.cbw.cb 0 = scsiRead10 ∨ msc.cbw.cb 0 = scsiRead12) :
    mscCommand g msc = mscRead g msc := by
  unfold mscCommand
  rcases isRead with opcode | opcode <;> rw [opcode] <;> rfl

theorem mscCommand_write {msc : Msc S}
    (isWrite : msc.cbw.cb 0 = scsiWrite10 ∨ msc.cbw.cb 0 = scsiWrite12) :
    mscCommand g msc = .ok (mscWrite g msc) := by
  unfold mscCommand
  rcases isWrite with opcode | opcode <;> rw [opcode] <;> rfl

/-- The commands that the device answers itself. -/
theorem mscCommand_inform {msc : Msc S} {data : List Nat}
    (isInform : informData g msc.mscBlockCount (msc.cbw.cb 0) = some data) :
    mscCommand g msc = .ok (mscReply data msc) := by
  unfold informData at isInform
  unfold mscCommand
  by_cases sense : msc.cbw.cb 0 = scsiRequestSense
  · rw [if_pos sense] at isInform
    rw [sense, ← Option.some.inj isInform]
    rfl
  rw [if_neg sense] at isInform
  by_cases inquiry : msc.cbw.cb 0 = scsiInquiry
  · rw [if_pos inquiry] at isInform
    rw [inquiry, ← Option.some.inj isInform]
    rfl
  rw [if_neg inquiry] at isInform
  by_cases sense6 : msc.cbw.cb 0 = scsiModeSense6
  · rw [if_pos sense6] at isInform
    rw [sense6, ← Option.some.inj isInform]
    rfl
  rw [if_neg sense6] at isInform
  by_cases sense10 : msc.cbw.cb 0 = scsiModeSense10
  · rw [if_pos sense10] at isInform
    rw [sense10, ← Option.some.inj isInform]
    rfl
  rw [if_neg sense10] at isInform
  by_cases formats : msc.cbw.cb 0 = scsiReadFormatCapacities
  · rw [if_pos formats] at isInform
    rw [formats, ← Option.some.inj isInform]
    rfl
  rw [if_neg formats] at isInform
  by_cases capacities : msc.cbw.cb 0 = scsiReadCapacity
  · rw [if_pos capacities] at isInform
    rw [capacities, ← Option.some.inj isInform]
    rfl
  · rw [if_neg capacities] at isInform
    exact absurd isInform.symm (Option.some_ne_none data)

/-! ## The host sends a wrapper -/

theorem Holding.outNak_command {call : HostCall S}
    (holding : Holding g capacity base device (.command call)) :
    ∃ msc, mscBulkOutNak g device.msc = .ok msc ∧
      Holding g capacity base { device with msc := msc } (.command call) := by
  obtain ⟨heads, writes, last, carried, hand, conforms, resting, -⟩ := holding
  refine ⟨usbReadReqEp .cbw cbwSize device.msc, ?_, heads, writes, last, carried,
    hand.besides _ rfl rfl rfl rfl rfl, conforms, ?_, Or.inr rfl⟩
  · unfold mscBulkOutNak
    rw [if_pos hand.highSpeed, resting.stage]
    rfl
  · exact ⟨resting.stage, resting.merge, resting.inRequest, resting.last, resting.carried,
      resting.calm⟩

/-! ### Reads -/

/-- The next sectors of a read are logged. -/
theorem InHand.memoryRead (small : capacity < 2 ^ 32)
    (hand : InHand g capacity device heads writes [] carried image)
    (inRange : device.msc.offset + device.msc.length ≤ capacity) :
    mscMemoryRead g device.msc = .ok
      { device.msc.logged g (readTask g device.msc.offset device.msc.length) with
        readBulkLen := 0
        offset := device.msc.offset + chunk g device.msc.offset device.msc.length
        length := device.msc.length - chunk g device.msc.offset device.msc.length
        csw :=
          { device.msc.csw with
            dDataResidue := wordSub device.msc.csw.dDataResidue
              (chunk g device.msc.offset device.msc.length * g.sectorSize) } } := by
  have part := chunk_le g device.msc.offset device.msc.length
  have isWord : (device.msc.offset + chunk g device.msc.offset device.msc.length) % 2 ^ 32 =
      device.msc.offset + chunk g device.msc.offset device.msc.length :=
    Nat.mod_eq_of_lt (by omega)
  have inside : ¬ device.msc.mscBlockCount <
      (device.msc.offset + chunk g device.msc.offset device.msc.length) % 2 ^ 32 := by
    rw [hand.blockCount, isWord]
    omega
  have isLength : device.msc.length < 2 ^ 32 := by omega
  have parted := wordSub_of_le part isLength
  have logged := hand.logs (readTask g device.msc.offset device.msc.length)
  have defines : min (g.sectorPerMpp - device.msc.offset % g.sectorPerMpp) device.msc.length =
      chunk g device.msc.offset device.msc.length := rfl
  unfold mscMemoryRead
  rw [if_pos hand.highSpeed]
  dsimp only
  rw [defines]
  simp only [if_neg inside]
  show (logTransaction g (readTask g device.msc.offset device.msc.length) device.msc >>= _) = _
  rw [logged, ← isWord, ← parted]
  rfl

/-- A read whose next sectors are to be logged. -/
structure Fetches (g : Geometry) (capacity : Nat) (device : Device S) (cbw : MscCbw) (got : Nat) :
    Prop where
  conforms : (HostCall.read cbw : HostCall S).Conforms g capacity
  wrapper : device.msc.cbw = cbw
  stage : device.msc.bulkStage = .dataIn
  merge : device.msc.mergeStage = .none
  requests : device.msc.outRequest = none ∧ device.msc.inRequest = none
  calm : device.Calm
  more : got < cbw.count
  offset : device.msc.offset = cbw.addr + got
  length : device.msc.length = cbw.count - got
  tag : device.msc.csw.dTag = cbw.dTag
  residue : device.msc.csw.dDataResidue = (cbw.count - got) * g.sectorSize

variable (device) in
/-- The next sectors of a read are logged, and the device waits for them. -/
theorem Fetches.memoryRead {received : List S} (small : capacity < 2 ^ 32)
    (fetches : Fetches g capacity device cbw received.length)
    (hand : InHand g capacity device heads writes [] none base)
    (answered : received = (List.range received.length).map fun i => base (cbw.addr + i)) :
    ∃ msc, mscMemoryRead g device.msc = .ok msc ∧
      Holding g capacity base { device with msc := msc } (.dataIn cbw received) := by
  have inRange := fetches.conforms.1
  have fits := inRange.fits
  have more := fetches.more
  have inside : device.msc.offset + device.msc.length ≤ capacity := by
    rw [fetches.offset, fetches.length]
    omega
  refine ⟨_, hand.memoryRead small inside, heads, writes, _, none,
    (hand.logLast (readTask g device.msc.offset device.msc.length)).besides _ rfl rfl rfl rfl rfl,
    rfl, ?_, answered, ?_⟩
  · have part := chunk_le g (cbw.addr + received.length) (cbw.count - received.length)
    have isWord := inRange.isWord
    rw [inRange.length] at isWord
    refine
      { conforms := fetches.conforms
        wrapper := fetches.wrapper
        merge := fetches.merge
        outRequest := fetches.requests.1
        more := more
        offset := ?_
        length := ?_
        tag := fetches.tag
        residue := ?_ }
    · show device.msc.offset + chunk g device.msc.offset device.msc.length = _
      rw [fetches.offset, fetches.length]
    · show device.msc.length - chunk g device.msc.offset device.msc.length = _
      rw [fetches.offset, fetches.length]
    · show wordSub device.msc.csw.dDataResidue
        (chunk g device.msc.offset device.msc.length * g.sectorSize) =
          (device.msc.length - chunk g device.msc.offset device.msc.length) * g.sectorSize
      rw [fetches.residue, fetches.offset, fetches.length, Nat.sub_mul _ (chunk g _ _)]
      apply wordSub_of_le
      · exact Nat.mul_le_mul_right _ part
      · exact Nat.lt_of_le_of_lt (Nat.mul_le_mul_right _ (Nat.sub_le _ _)) isWord
  · rw [fetches.offset, fetches.length]
    exact .logged fetches.stage fetches.requests.2 rfl fetches.calm

/-! ### Commands -/

theorem mscBulkOut_cbw {msc : Msc S} (stage : msc.bulkStage = .cbw) :
    mscBulkOut g cbwSize msc = mscGetCbw g { msc with bulkLen := cbwSize } := by
  unfold mscBulkOut
  rw [stage]

/-- A wrapper has come that is meant for the device. -/
def Msc.accepted (msc : Msc S) (cbw : MscCbw) : Msc S :=
  { msc.withCbw cbw with
    bulkLen := cbwSize
    csw := { msc.csw with dTag := cbw.dTag, dDataResidue := cbw.dDataLength } }

theorem mscBulkOut_accepted {msc : Msc S} (stage : msc.bulkStage = .cbw) (valid : cbw.Valid) :
    mscBulkOut g cbwSize (msc.withCbw cbw) = mscCommand g (msc.accepted cbw) := by
  have stage' : (msc.withCbw cbw).bulkStage = .cbw := stage
  rw [mscBulkOut_cbw stage', mscGetCbw_eq rfl valid]
  rfl

theorem Resting.outCommand_read (small : capacity < 2 ^ 32) (resting : Resting device last carried)
    (hand : InHand g capacity device heads writes last carried base)
    (conforms : (HostCall.read cbw : HostCall S).Conforms g capacity) :
    ∃ msc, mscBulkOut g cbwSize (device.msc.withCbw cbw) = .ok msc ∧
      Holding g capacity base { device with msc := msc } (.dataIn cbw []) := by
  obtain ⟨inRange, isRead, isIn⟩ := conforms
  have run : mscBulkOut g cbwSize (device.msc.withCbw cbw) = mscMemoryRead g
      { device.msc.accepted cbw with
        offset := cbw.addr
        length := cbw.count
        bulkStage := .dataIn } := by
    rw [mscBulkOut_accepted resting.stage inRange.toValid, mscCommand_read isRead]
    unfold mscRead
    rw [mscRwSetup_eq inRange]
    exact if_pos isIn
  rw [run]
  obtain rfl := resting.last
  obtain rfl := resting.carried
  refine Fetches.memoryRead { device with msc := _ } small ?_
    (hand.besides _ rfl rfl rfl rfl rfl) rfl
  exact
    { conforms := ⟨inRange, isRead, isIn⟩
      wrapper := rfl
      stage := rfl
      merge := resting.merge
      requests := ⟨rfl, resting.inRequest⟩
      calm := resting.calm
      more := inRange.positive
      offset := (Nat.add_zero cbw.addr).symm
      length := (Nat.sub_zero cbw.count).symm
      tag := rfl
      residue := inRange.length.trans (congrArg (· * _) (Nat.sub_zero cbw.count).symm) }

theorem Resting.outCommand_write {data : Nat → S} (resting : Resting device last carried)
    (hand : InHand g capacity device heads writes last carried base)
    (conforms : (HostCall.write cbw data).Conforms g capacity) :
    ∃ msc, mscBulkOut g cbwSize (device.msc.withCbw cbw) = .ok msc ∧ msc.outRequest = none ∧
      Holding g capacity base { device with msc := msc } (.dataOut cbw data 0) := by
  obtain ⟨inRange, isWrite, isOut⟩ := conforms
  have run : mscBulkOut g cbwSize (device.msc.withCbw cbw) = .ok
      { device.msc.accepted cbw with
        offset := cbw.addr
        length := cbw.count
        bulkStage := .dataOut } := by
    rw [mscBulkOut_accepted resting.stage inRange.toValid, mscCommand_write isWrite]
    unfold mscWrite
    have isOut' : ¬ (device.msc.accepted cbw).cbw.dataIn = true := Bool.eq_false_iff.mp isOut
    rw [mscRwSetup_eq inRange]
    dsimp only
    rw [if_pos rfl, if_pos isOut']
    rfl
  refine ⟨_, run, rfl, heads, writes, last, carried, ?_, ?_, ?_⟩
  · show InHand g capacity _ heads writes last carried (putSectors base cbw.addr 0 data)
    rw [putSectors_zero]
    exact hand.besides _ rfl rfl rfl rfl rfl
  · exact
      { conforms := ⟨inRange, isWrite, isOut⟩
        wrapper := rfl
        stage := rfl
        inRequest := resting.inRequest
        more := inRange.positive
        offset := (Nat.add_zero cbw.addr).symm
        length := (Nat.sub_zero cbw.count).symm
        tag := rfl
        residue := inRange.length.trans (congrArg (· * _) (Nat.sub_zero cbw.count).symm) }
  · rw [resting.last, resting.carried]
    exact .free resting.merge rfl resting.calm

theorem Resting.outCommand_inform (resting : Resting device last carried)
    (hand : InHand g capacity device heads writes last carried base)
    (conforms : (HostCall.inform cbw : HostCall S).Conforms g capacity) :
    ∃ msc, mscBulkOut g cbwSize (device.msc.withCbw cbw) = .ok msc ∧
      Holding g capacity base { device with msc := msc } (.inform cbw) := by
  obtain ⟨valid, known, positive, isIn⟩ := conforms
  obtain ⟨data, isInform⟩ := Option.isSome_iff_exists.mp known
  have run : mscBulkOut g cbwSize (device.msc.withCbw cbw) = .ok (dataInTransfer
      { device.msc.accepted cbw with
        cmdBulkBuf := putBytes data device.msc.cmdBulkBuf
        bulkLen := data.length }) := by
    have isInform' : informData g (device.msc.accepted cbw).mscBlockCount
        ((device.msc.accepted cbw).cbw.cb 0) = some data := by
      show informData g device.msc.mscBlockCount (cbw.cb 0) = some data
      rw [hand.blockCount, isInform]
    have format : dataInFormat (device.msc.accepted cbw) = (true, device.msc.accepted cbw) := by
      have asked : (device.msc.accepted cbw).cbw.dDataLength ≠ 0 := Nat.ne_of_gt positive
      unfold dataInFormat
      rw [if_neg asked]
      exact if_neg (not_not.mpr isIn)
    rw [mscBulkOut_accepted resting.stage valid, mscCommand_inform isInform']
    unfold mscReply
    rw [format]
    rfl
  refine ⟨_, run, heads, writes, last, carried, hand.besides _ rfl rfl rfl rfl rfl, resting.last,
    resting.carried, ⟨valid, known, positive, isIn⟩, _, _,
    ⟨rfl, resting.merge, rfl, rfl, rfl, resting.calm⟩, rfl, ?_⟩
  show (List.range (min data.length cbw.dDataLength)).map (putBytes data device.msc.cmdBulkBuf) =
    ((informData g capacity (cbw.cb 0)).getD []).take cbw.dDataLength
  rw [isInform, Option.getD_some]
  apply List.ext_getElem?
  intro i
  rw [List.getElem?_map, List.getElem?_take]
  by_cases inside : i < min data.length cbw.dDataLength
  · have isByte : i < data.length := by omega
    rw [List.getElem?_range inside, if_pos (by omega), Option.map_some]
    unfold putBytes
    rw [List.getElem?_eq_getElem isByte, Option.getD_some]
  · rw [List.getElem?_eq_none (by rw [List.length_range]; omega)]
    split
    · rw [List.getElem?_eq_none (by omega)]
      rfl
    · rfl

theorem unknown_ne {opcode : Nat} (unknown : ¬ (informData g capacity opcode).isSome) :
    opcode ≠ scsiRequestSense ∧ opcode ≠ scsiInquiry ∧ opcode ≠ scsiModeSense6 ∧
      opcode ≠ scsiModeSense10 ∧ opcode ≠ scsiReadFormatCapacities ∧ opcode ≠ scsiReadCapacity := by
  refine ⟨?_, ?_, ?_, ?_, ?_, ?_⟩ <;>
    · rintro rfl
      exact unknown rfl

/-- A command without data is answered at once. -/
theorem mscCommand_plain (msc : Msc S) (noData : msc.cbw.dDataLength = 0)
    (unit : ¬ (msc.cbw.bLUN ≠ 0 ∨ msc.cbw.bCBLength < 1 ∨ 16 < msc.cbw.bCBLength)) :
    ∃ offset length, mscCommand g msc = .ok (mscEnd (plainStatus g msc.mscBlockCount msc.cbw)
      { msc with offset := offset, length := length }) := by
  have setup : mscRwSetup g msc = (false, mscEnd cswCmdFailed
      { msc with offset := cbwOffset msc.cbw.cb, length := cbwCount msc.cbw.cb }) := by
    unfold mscRwSetup
    dsimp only
    rw [if_pos noData]
  unfold plainStatus
  rw [if_neg unit]
  by_cases ready : msc.cbw.cb 0 = scsiTestUnitReady
  · refine ⟨msc.offset, msc.length, ?_⟩
    rw [if_pos ready]
    unfold mscCommand mscTestUnitReady
    dsimp only
    rw [if_pos ready, if_neg (not_not.mpr noData)]
    rfl
  rw [if_neg ready]
  by_cases known : (informData g msc.mscBlockCount (msc.cbw.cb 0)).isSome
  · obtain ⟨data, isInform⟩ := Option.isSome_iff_exists.mp known
    have format : dataInFormat msc = (false, mscEnd cswPhaseError msc) := if_pos noData
    refine ⟨msc.offset, msc.length, ?_⟩
    rw [if_pos known, mscCommand_inform isInform]
    unfold mscReply
    rw [format]
    rfl
  rw [if_neg known]
  by_cases verify : msc.cbw.cb 0 = scsiVerify10
  · have run : mscCommand g msc = .ok (mscVerify g msc) := by
      unfold mscCommand
      rw [verify]
      rfl
    rw [run]
    unfold mscVerify
    by_cases check : msc.cbw.cb 1 &&& 0x02 = 0
    · rw [if_pos check, if_pos ⟨verify, check⟩]
      exact ⟨msc.offset, msc.length, rfl⟩
    · rw [if_neg check, if_neg (fun both => check both.2)]
      unfold mscWrite
      rw [setup]
      exact ⟨_, _, rfl⟩
  rw [if_neg (fun both => verify both.1)]
  by_cases isRead : msc.cbw.cb 0 = scsiRead10 ∨ msc.cbw.cb 0 = scsiRead12
  · rw [mscCommand_read isRead]
    unfold mscRead
    rw [setup]
    exact ⟨_, _, rfl⟩
  by_cases isWrite : msc.cbw.cb 0 = scsiWrite10 ∨ msc.cbw.cb 0 = scsiWrite12
  · rw [mscCommand_write isWrite]
    unfold mscWrite
    rw [setup]
    exact ⟨_, _, rfl⟩
  refine ⟨msc.offset, msc.length, ?_⟩
  obtain ⟨sense, inquiry, sense6, sense10, formats, capacities⟩ := unknown_ne known
  unfold mscCommand
  dsimp only
  rw [if_neg ready, if_neg sense, if_neg inquiry, if_neg sense6, if_neg sense10, if_neg formats,
    if_neg capacities, if_neg isRead, if_neg isWrite, if_neg verify]
  rfl

/-- A command without data ends with its status. -/
theorem Resting.outCommand_plain (resting : Resting device last carried)
    (hand : InHand g capacity device heads writes last carried base)
    (conforms : (HostCall.plain cbw : HostCall S).Conforms g capacity) :
    ∃ msc, mscBulkOut g cbwSize (device.msc.withCbw cbw) = .ok msc ∧
      Holding g capacity base { device with msc := msc } (.status (.plain cbw) [] []) := by
  obtain ⟨signature, noData⟩ := conforms
  have run : ∃ offset length, mscBulkOut g cbwSize (device.msc.withCbw cbw) =
      .ok (mscEnd (plainStatus g capacity cbw)
        { device.msc.accepted cbw with offset := offset, length := length }) := by
    have stage : (device.msc.withCbw cbw).bulkStage = .cbw := resting.stage
    rw [mscBulkOut_cbw stage]
    unfold mscGetCbw
    rw [if_pos ⟨rfl, signature⟩]
    dsimp only
    by_cases unit : cbw.bLUN ≠ 0 ∨ cbw.bCBLength < 1 ∨ 16 < cbw.bCBLength
    · refine ⟨device.msc.offset, device.msc.length, (if_pos unit).trans ?_⟩
      unfold plainStatus
      rw [if_pos unit]
      rfl
    · obtain ⟨offset, length, same⟩ :=
        mscCommand_plain (g := g) (device.msc.accepted cbw) noData unit
      refine ⟨offset, length, (if_neg unit).trans ?_⟩
      rw [← hand.blockCount]
      exact same
  obtain ⟨offset, length, run⟩ := run
  refine ⟨_, run, heads, writes, last, carried, hand.besides _ rfl rfl rfl rfl rfl, resting.last,
    resting.carried, ⟨rfl, resting.merge, rfl, rfl, ?_, resting.calm⟩, rfl, rfl⟩
  show MscCsw.mk mscCswSignature cbw.dTag cbw.dDataLength (plainStatus g capacity cbw) = _
  rw [noData]
  rfl

/-- A wrapper is handled.  No transfer is primed for the data that the host may send next. -/
theorem Resting.outCommand {call : HostCall S} (small : capacity < 2 ^ 32)
    (resting : Resting device last carried)
    (hand : InHand g capacity device heads writes last carried base)
    (conforms : call.Conforms g capacity) :
    ∃ msc, mscBulkOut g cbwSize (device.msc.withCbw call.cbw) = .ok msc ∧
      ((HostPhase.start call).Sends → msc.outRequest = none) ∧
      Holding g capacity base { device with msc := msc } (.start call) := by
  cases call with
  | read cbw =>
      obtain ⟨msc, run, holding⟩ := resting.outCommand_read small hand conforms
      exact ⟨msc, run, fun sends => absurd sends not_false, holding⟩
  | write cbw data =>
      obtain ⟨msc, run, notPrimed, holding⟩ := resting.outCommand_write hand conforms
      exact ⟨msc, run, fun _ => notPrimed, holding⟩
  | inform cbw =>
      obtain ⟨msc, run, holding⟩ := resting.outCommand_inform hand conforms
      exact ⟨msc, run, fun sends => absurd sends not_false, holding⟩
  | plain cbw =>
      obtain ⟨msc, run, holding⟩ := resting.outCommand_plain hand conforms
      exact ⟨msc, run, fun sends => absurd sends not_false, holding⟩

/-! ## Wrappers that are complete -/

variable {controller : Controller}

theorem Msc.withCbw_self {msc : Msc S} (wrapper : msc.cbw = cbw) (request : msc.outRequest = none) :
    msc.withCbw cbw = msc := by
  unfold Msc.withCbw
  rw [← wrapper, ← request]

/-- The wrapper has come. -/
theorem Holding.outCommand {call : HostCall S}
    (holding : Holding g capacity base device (.command call)) (handled : controller.Handled) :
    Held g capacity base { device with msc := device.msc.withCbw call.cbw }
      { controller with outComplete := some cbwSize } (.start call) := by
  obtain ⟨heads, writes, last, carried, hand, conforms, resting, -⟩ := holding
  obtain rfl := resting.last
  obtain rfl := resting.carried
  refine .pending (hand.besides _ rfl rfl rfl rfl rfl)
    (.command rfl handled.2 conforms ?_ rfl rfl rfl)
  exact ⟨resting.stage, resting.merge, resting.inRequest, rfl, rfl, resting.calm⟩

end OpenNfm.Usb
