import OpenNfm.Usb.Handlers

/-!
# What the handlers do with data

The data of a write comes page by page, and the data of a read goes page by page.  The status of
the command follows.
-/

namespace OpenNfm.Usb

open OpenNfm.Program

variable {S : Type} {g : Geometry} {capacity : Nat} {device : Device S}
  {heads last : List UsbTransaction} {writes : List PageWrite} {carried : Option Nat}
  {image base : Nat → S} {cbw : MscCbw} {buffer : Nat} {controller : Controller}

/-! ## Pages that the host fills -/

/-- A buffer is found for the next page. -/
theorem InHand.allocate (hand : InHand g capacity device heads writes last none image)
    (found : Buf.allocateFrom g device.msc.pbPoolUsed (List.range (g.bufferCount / 2)) =
      some buffer)
    (msc : Msc S) (highSpeed : msc.devStatusFS2HS = device.msc.devStatusFS2HS)
    (blockCount : msc.mscBlockCount = device.msc.mscBlockCount)
    (queue : msc.queue = device.msc.queue)
    (used : msc.pbPoolUsed = Function.update device.msc.pbPoolUsed buffer true)
    (pool : msc.pbPool = device.msc.pbPool) :
    InHand g capacity { device with msc := msc } heads writes last (some buffer) image := by
  apply hand.rehand highSpeed blockCount queue
  · have moved : (owners device.below writes (some buffer)).Perm
        (buffer :: owners device.below writes none) := by
      unfold owners
      rw [Option.toList_none, List.append_nil, Option.toList_some, ← List.append_assoc]
      exact List.perm_append_singleton _ _
    rw [used]
    exact (hand.owned.allocate found).perm moved
  · rw [pool]
    exact hand.stored

/-- A whole page begins where a page of the sectors does. -/
theorem mod_eq_zero_of_chunk_eq {offset left : Nat} (whole : chunk g offset left = g.sectorPerMpp) :
    offset % g.sectorPerMpp = 0 := by
  have := mod_add_chunk_le g offset left
  omega

theorem mppSize_eq (g : Geometry) : g.mppSize = g.sectorPerMpp * g.sectorSize := by
  unfold Geometry.mppSize Geometry.mppSizeShift Geometry.sectorPerMpp Geometry.sectorSize
  rw [Nat.add_comm, Nat.pow_add]

/-- No sector of the page is outside. -/
theorem loaded_whole {content : Nat → S} {offset left : Nat}
    (whole : chunk g offset left = g.sectorPerMpp) :
    Loaded g content image offset (chunk g offset left) := by
  intro i inPage outside
  rw [whole, mod_eq_zero_of_chunk_eq whole, Nat.zero_add] at outside
  exact absurd ⟨Nat.zero_le i, inPage⟩ outside

section Writes

variable {data : Nat → S} {sent : Nat}

theorem Writing.besides (writing : Writing g capacity device cbw data sent) (msc : Msc S)
    (wrapper : msc.cbw = device.msc.cbw) (stage : msc.bulkStage = device.msc.bulkStage)
    (inRequest : msc.inRequest = device.msc.inRequest) (offset : msc.offset = device.msc.offset)
    (length : msc.length = device.msc.length) (csw : msc.csw = device.msc.csw) :
    Writing g capacity { device with msc := msc } cbw data sent where
  conforms := writing.conforms
  wrapper := wrapper.trans writing.wrapper
  stage := stage.trans writing.stage
  inRequest := inRequest.trans writing.inRequest
  more := writing.more
  offset := offset.trans writing.offset
  length := length.trans writing.length
  tag := (congrArg MscCsw.dTag csw).trans writing.tag
  residue := (congrArg MscCsw.dDataResidue csw).trans writing.residue

/-- A buffer for the next page is looked for. -/
theorem Writing.allocateBulk
    (writing : Writing g capacity device cbw data sent)
    (hand : InHand g capacity device heads writes [] none
      (phaseImage base (.dataOut cbw data sent)))
    (merge : device.msc.mergeStage = .none) (request : device.msc.outRequest = none)
    (calm : device.Calm) :
    ∃ msc, mscAllocateBulk g device.msc = .ok msc ∧
      Holding g capacity base { device with msc := msc } (.dataOut cbw data sent) := by
  have offset := writing.offset
  have length := writing.length
  unfold mscAllocateBulk bufAllocate
  cases found : Buf.allocateFrom g device.msc.pbPoolUsed (List.range (g.bufferCount / 2)) with
  | none =>
      refine ⟨_, rfl, heads, writes, [], none, hand.besides _ rfl rfl rfl rfl rfl,
        writing.besides _ rfl rfl rfl rfl rfl rfl, ?_⟩
      exact .free merge request calm
  | some buffer =>
      dsimp only
      by_cases whole : chunk g device.msc.offset device.msc.length = g.sectorPerMpp
      · refine ⟨_, if_neg (not_not.mpr whole), heads, writes, [], some buffer,
          hand.allocate found _ rfl rfl rfl rfl rfl, writing.besides _ rfl rfl rfl rfl rfl rfl, ?_⟩
        rw [offset, length] at whole
        refine .primed merge ?_ rfl calm (loaded_whole whole)
        rw [whole, mod_eq_zero_of_chunk_eq whole, ← mppSize_eq]
        rfl
      · have hand' := hand.allocate found
          { device.msc with
            bulkBuf := some buffer
            pbPoolUsed := Function.update device.msc.pbPoolUsed buffer true } rfl rfl rfl rfl rfl
        have logged := hand'.logs (mergeTask g device.msc.offset buffer)
        refine ⟨{ Msc.logged g (mergeTask g device.msc.offset buffer)
            { device.msc with
              bulkBuf := some buffer
              pbPoolUsed := Function.update device.msc.pbPoolUsed buffer true } with
            mergeStage := .start
            mergeCount := chunk g device.msc.offset device.msc.length }, ?_, heads, writes, _,
          some buffer, (hand'.logLast _).besides _ rfl rfl rfl rfl rfl,
          writing.besides _ rfl rfl rfl rfl rfl rfl, ?_⟩
        · refine (if_pos whole).trans ?_
          show (logTransaction g (mergeTask g device.msc.offset buffer) _ >>= _) = _
          rw [logged]
          rfl
        · rw [← offset]
          exact .merging rfl request rfl (by rw [← length]) calm

/-- The host waits with the data of a write. -/
theorem Holding.outNak_dataOut
    (holding : Holding g capacity base device (.dataOut cbw data sent))
    (notPrimed : device.msc.outRequest = none) :
    ∃ msc, mscBulkOutNak g device.msc = .ok msc ∧
      Holding g capacity base { device with msc := msc } (.dataOut cbw data sent) := by
  obtain ⟨heads, writes, last, carried, hand, writing, filling⟩ := holding
  unfold mscBulkOutNak
  rw [if_pos hand.highSpeed, writing.stage]
  dsimp only
  cases filling with
  | free stage request calm =>
      rw [stage]
      exact writing.allocateBulk hand stage request calm
  | merging stage request bulkBuf count calm =>
      rw [stage]
      exact ⟨_, rfl, heads, writes, _, _, hand, writing,
        .merging stage request bulkBuf count calm⟩
  | merged stage request bulkBuf count pc loaded =>
      rw [stage]
      exact ⟨_, rfl, heads, writes, _, _, hand, writing,
        .merged stage request bulkBuf count pc loaded⟩
  | ready stage request bulkBuf count calm loaded =>
      rw [stage, bulkBuf]
      refine ⟨_, rfl, heads, writes, _, _, hand.besides _ rfl rfl rfl rfl rfl,
        writing.besides _ rfl rfl rfl rfl rfl rfl, ?_⟩
      refine .primed rfl ?_ bulkBuf calm loaded
      show some (OutTarget.pool _ (device.msc.offset % g.sectorPerMpp),
        device.msc.mergeCount * g.sectorSize) = _
      rw [count, writing.offset]
  | primed stage request bulkBuf calm loaded =>
      rw [notPrimed] at request
      cases request

/-- Parts of a range that follow each other. -/
theorem putSectors_append (addr first count : Nat) :
    putSectors (putSectors image addr first data) (addr + first) count (fun i => data (first + i)) =
      putSectors image addr (first + count) data := by
  funext sector
  unfold putSectors
  by_cases behind : addr + first ≤ sector ∧ sector < addr + first + count
  · have position : first + (sector - (addr + first)) = sector - addr := by omega
    rw [if_pos behind, if_pos (by omega)]
    exact congrArg data position
  · rw [if_neg behind]
    by_cases before : addr ≤ sector ∧ sector < addr + first
    · rw [if_pos before, if_pos (by omega)]
    · rw [if_neg before, if_neg (by omega)]

/-- Sectors of a page have come, and the write of the page is logged. -/
def Msc.wrote (g : Geometry) (write : PageWrite) (count : Nat) (msc : Msc S) : Msc S :=
  { msc.logged g (write.task g) with
    offset := msc.offset + count
    length := msc.length - count
    csw := { msc.csw with dDataResidue := (msc.length - count) * g.sectorSize } }

theorem InHand.memoryWrite {count : Nat} (small : capacity < 2 ^ 32)
    (hand : InHand g capacity device heads writes [] (some buffer) image)
    (bulkBuf : device.msc.bulkBuf = some buffer)
    (bulkLen : device.msc.bulkLen = count * g.sectorSize) (part : count ≤ device.msc.length)
    (inRange : device.msc.offset + device.msc.length ≤ capacity)
    (stage : device.msc.bulkStage = .dataOut)
    (residue : device.msc.csw.dDataResidue = device.msc.length * g.sectorSize)
    (isWord : device.msc.length * g.sectorSize < 2 ^ 32) :
    mscMemoryWrite g device.msc = .ok
      (if device.msc.length - count = 0 then
        mscEnd cswCmdPassed
          (device.msc.wrote g ⟨device.msc.offset / g.sectorPerMpp, buffer⟩ count)
      else device.msc.wrote g ⟨device.msc.offset / g.sectorPerMpp, buffer⟩ count) := by
  have sectors : device.msc.bulkLen / g.sectorSize = count := by
    rw [bulkLen, Nat.mul_div_cancel _ g.sectorSize_pos]
  have aligned : device.msc.bulkLen % g.sectorSize = 0 := by
    rw [bulkLen, Nat.mul_mod_left]
  have isOffset : (device.msc.offset + count) % 2 ^ 32 = device.msc.offset + count :=
    Nat.mod_eq_of_lt (by omega)
  have inside : ¬ device.msc.mscBlockCount < (device.msc.offset + count) % 2 ^ 32 := by
    rw [hand.blockCount, isOffset]
    omega
  have left : wordSub device.msc.length count = device.msc.length - count :=
    wordSub_of_le part (by omega)
  have left' : wordSub device.msc.csw.dDataResidue device.msc.bulkLen =
      (device.msc.length - count) * g.sectorSize := by
    rw [residue, bulkLen, Nat.sub_mul]
    exact wordSub_of_le (Nat.mul_le_mul_right _ part) isWord
  have logged := hand.logs (PageWrite.task g ⟨device.msc.offset / g.sectorPerMpp, buffer⟩)
  have dataOut : device.msc.bulkStage ≠ .csw := by
    rw [stage]
    exact fun wrong => by cases wrong
  unfold mscMemoryWrite
  rw [if_pos aligned]
  dsimp only
  rw [sectors, if_neg inside, bulkBuf]
  show (logTransaction g (PageWrite.task g ⟨device.msc.offset / g.sectorPerMpp, buffer⟩)
    device.msc >>= _) = _
  rw [logged]
  have same :
      { device.msc.logged g (PageWrite.task g ⟨device.msc.offset / g.sectorPerMpp, buffer⟩) with
      offset := (device.msc.offset + count) % 2 ^ 32
      length := wordSub device.msc.length count
      csw :=
        { device.msc.csw with
          dDataResidue := wordSub device.msc.csw.dDataResidue device.msc.bulkLen } } =
      device.msc.wrote g ⟨device.msc.offset / g.sectorPerMpp, buffer⟩ count := by
    rw [isOffset, left, left']
    rfl
  by_cases done : device.msc.length - count = 0
  · refine (if_pos (Or.inl (left.trans done))).trans ?_
    rw [if_pos done, ← same]
    rfl
  · refine (if_neg ?_).trans ?_
    · exact not_or.mpr ⟨fun wrong => done (left.symm.trans wrong), dataOut⟩
    · rw [if_neg done, ← same]
      rfl

variable (device) in
/-- The page that the host has filled is logged, and the status follows the last one. -/
theorem Writing.memoryWrite {count : Nat} (whole : g.sectorPerMpp ∣ capacity)
    (small : capacity < 2 ^ 32) (writing : Writing g capacity device cbw data sent)
    (hand : InHand g capacity device heads writes [] (some buffer)
      (putSectors base cbw.addr sent data))
    (merge : device.msc.mergeStage = .none) (request : device.msc.outRequest = none)
    (calm : device.Calm) (bulkBuf : device.msc.bulkBuf = some buffer)
    (bulkLen : device.msc.bulkLen = count * g.sectorSize) (part : count ≤ cbw.count - sent)
    (filled : putSectors (putSectors base cbw.addr sent data)
        ((cbw.addr + sent) / g.sectorPerMpp * g.sectorPerMpp) g.sectorPerMpp
        (device.msc.pbPool buffer) = putSectors base cbw.addr (sent + count) data) :
    ∃ msc, mscMemoryWrite g device.msc = .ok msc ∧ msc.outRequest = none ∧
      Holding g capacity base { device with msc := msc } (.sent cbw data (sent + count)) := by
  have inRange := writing.conforms.1
  have fits := inRange.fits
  have more := writing.more
  have offset := writing.offset
  have length := writing.length
  have isWord := inRange.isWord
  rw [inRange.length] at isWord
  have run := hand.memoryWrite small bulkBuf bulkLen (by rw [length]; exact part)
    (by rw [offset, length]; omega) writing.stage (by rw [writing.residue, length])
    (by rw [length]; exact Nat.lt_of_le_of_lt (Nat.mul_le_mul_right _ (Nat.sub_le _ _)) isWord)
  have inside : cbw.addr + sent < capacity := by omega
  have logged := hand.logWrite (page_inRange whole inside)
  rw [filled, ← offset] at logged
  refine ⟨_, run, ?_⟩
  unfold HostPhase.sent
  by_cases done : sent + count = cbw.count
  · rw [if_pos (by rw [length]; omega), if_pos done]
    rw [done] at logged
    refine ⟨request, heads, _, [], none, logged.besides _ rfl rfl rfl rfl rfl, rfl, rfl,
      ⟨rfl, merge, request, rfl, ?_, calm⟩, rfl, rfl⟩
    show MscCsw.mk mscCswSignature device.msc.csw.dTag
      ((device.msc.length - count) * g.sectorSize) _ = _
    have noMore : device.msc.length - count = 0 := by omega
    rw [writing.tag, noMore, Nat.zero_mul]
    rfl
  · rw [if_neg (by rw [length]; omega), if_neg done]
    refine ⟨request, heads, _, [], none, logged.besides _ rfl rfl rfl rfl rfl, ?_,
      .free merge request calm⟩
    exact
      { conforms := writing.conforms
        wrapper := writing.wrapper
        stage := writing.stage
        inRequest := writing.inRequest
        more := by omega
        offset := by
          show device.msc.offset + count = _
          rw [offset, Nat.add_assoc]
        length := by
          show device.msc.length - count = _
          rw [length, Nat.sub_sub]
        tag := writing.tag
        residue := by
          show (device.msc.length - count) * g.sectorSize = _
          rw [length, Nat.sub_sub] }

/-- The data of a page has come. -/
theorem Holding.outData {first count : Nat}
    (holding : Holding g capacity base device (.dataOut cbw data sent))
    (handled : controller.Handled)
    (primed : device.msc.outRequest = some (.pool buffer first, count * g.sectorSize)) :
    sent + count ≤ cbw.count ∧
    Held g capacity base
      { device with msc := device.msc.fill buffer first count fun i => data (sent + i) }
      { controller with outComplete := some (count * g.sectorSize) }
      (.sent cbw data (sent + count)) := by
  obtain ⟨heads, writes, last, carried, hand, writing, filling⟩ := holding
  cases filling with
  | free stage request calm => rw [primed] at request; cases request
  | merging stage request bulkBuf count calm => rw [primed] at request; cases request
  | merged stage request bulkBuf count pc loaded => rw [primed] at request; cases request
  | ready stage request bulkBuf count calm loaded => rw [primed] at request; cases request
  | @primed buffer' stage request bulkBuf calm loaded =>
  have same := Option.some.inj (primed.symm.trans request)
  obtain ⟨rfl, rfl⟩ := OutTarget.pool.inj (congrArg Prod.fst same)
  have isChunk := Nat.eq_of_mul_eq_mul_right g.sectorSize_pos (congrArg Prod.snd same)
  have part : count ≤ cbw.count - sent := by
    rw [isChunk]
    exact chunk_le g _ _
  have inPage : (cbw.addr + sent) % g.sectorPerMpp + count ≤ g.sectorPerMpp := by
    rw [isChunk]
    exact mod_add_chunk_le g _ _
  rw [← isChunk] at loaded
  have more := writing.more
  refine ⟨by omega, .pending (hand.fill _ _ rfl rfl rfl rfl rfl) (.data rfl handled.2
    (writing.besides _ rfl rfl rfl rfl rfl rfl) stage rfl calm bulkBuf part ?_ rfl)⟩
  show putSectors _ _ _ (Function.update device.msc.pbPool buffer _ buffer) = _
  rw [Function.update_self, loaded.put inPage, putSectors_append]

/-- The data of a page is handled. -/
theorem Writing.outDone {count : Nat} (whole : g.sectorPerMpp ∣ capacity)
    (small : capacity < 2 ^ 32) (writing : Writing g capacity device cbw data sent)
    (hand : InHand g capacity device heads writes [] (some buffer)
      (putSectors base cbw.addr sent data))
    (merge : device.msc.mergeStage = .none) (request : device.msc.outRequest = none)
    (calm : device.Calm) (bulkBuf : device.msc.bulkBuf = some buffer)
    (part : count ≤ cbw.count - sent)
    (filled : putSectors (putSectors base cbw.addr sent data)
        ((cbw.addr + sent) / g.sectorPerMpp * g.sectorPerMpp) g.sectorPerMpp
        (device.msc.pbPool buffer) = putSectors base cbw.addr (sent + count) data) :
    ∃ msc, mscBulkOut g (count * g.sectorSize) device.msc = .ok msc ∧ msc.outRequest = none ∧
      Holding g capacity base { device with msc := msc } (.sent cbw data (sent + count)) := by
  have run : mscBulkOut g (count * g.sectorSize) device.msc =
      mscMemoryWrite g { device.msc with bulkLen := count * g.sectorSize } := by
    have isWrite := writing.conforms.2.1
    rw [← writing.wrapper] at isWrite
    unfold mscBulkOut
    dsimp only
    rw [writing.stage]
    exact if_pos isWrite
  rw [run]
  exact Writing.memoryWrite { device with msc := _ } whole small
    (writing.besides _ rfl rfl rfl rfl rfl rfl) (hand.besides _ rfl rfl rfl rfl rfl) merge request
    calm bulkBuf rfl part filled

end Writes

/-! ## Sectors that the host gets -/

section Reads

variable {received : List S}

theorem Reading.besides {got : Nat} (reading : Reading g capacity device cbw got) (msc : Msc S)
    (wrapper : msc.cbw = device.msc.cbw) (merge : msc.mergeStage = device.msc.mergeStage)
    (outRequest : msc.outRequest = device.msc.outRequest)
    (offset : msc.offset = device.msc.offset) (length : msc.length = device.msc.length)
    (tag : msc.csw.dTag = device.msc.csw.dTag)
    (residue : msc.csw.dDataResidue = device.msc.csw.dDataResidue) :
    Reading g capacity { device with msc := msc } cbw got where
  conforms := reading.conforms
  wrapper := wrapper.trans reading.wrapper
  merge := merge.trans reading.merge
  outRequest := outRequest.trans reading.outRequest
  more := reading.more
  offset := offset.trans reading.offset
  length := length.trans reading.length
  tag := tag.trans reading.tag
  residue := by
    show msc.csw.dDataResidue = msc.length * g.sectorSize
    rw [residue, length]
    exact reading.residue

/-- No sectors are left behind the last chunk only. -/
theorem Reading.length_eq_zero_iff {got : Nat} (reading : Reading g capacity device cbw got) :
    device.msc.length = 0 ↔ cbw.count - got = chunk g (cbw.addr + got) (cbw.count - got) := by
  have part := chunk_le g (cbw.addr + got) (cbw.count - got)
  rw [reading.length]
  omega

/-- The read buffer is primed when its data is there. -/
theorem mscBulkInNak_eq {msc : Msc S} (stage : msc.bulkStage = .dataIn)
    (ready : msc.readBulkLen ≠ 0) :
    mscBulkInNak msc =
      { usbWriteEp .readBulkBuf msc.readBulkLen msc with
        bulkStage := if msc.length = 0 then .dataInLast else .dataIn
        csw :=
          { msc.csw with
            bStatus := if msc.length = 0 then cswCmdPassed else msc.csw.bStatus } } := by
  unfold mscBulkInNak
  rw [if_pos ready]
  by_cases done : msc.length = 0
  · simp [usbWriteEp, done]
  · simp [usbWriteEp, done, stage]

/-- The host waits for sectors. -/
theorem Holding.inNak_dataIn (holding : Holding g capacity base device (.dataIn cbw received))
    (notPrimed : device.msc.inRequest = none) :
    Holding g capacity base { device with msc := mscBulkInNak device.msc }
      (.dataIn cbw received) := by
  obtain ⟨heads, writes, last, carried, hand, rfl, reading, answered, fetching⟩ := holding
  cases fetching with
  | logged stage request empty calm =>
      have same : mscBulkInNak device.msc = device.msc := if_neg (not_not.mpr empty)
      rw [same]
      exact ⟨heads, writes, _, none, hand, rfl, reading, answered,
        .logged stage request empty calm⟩
  | read stage request empty pc data =>
      have same : mscBulkInNak device.msc = device.msc := if_neg (not_not.mpr empty)
      rw [same]
      exact ⟨_, writes, _, none, hand, rfl, reading, answered, .read stage request empty pc data⟩
  | ready stage request length calm data =>
      have positive : device.msc.readBulkLen ≠ 0 := by
        have more := reading.more
        rw [length]
        exact Nat.mul_ne_zero (Nat.ne_of_gt (chunk_pos (by omega))) (Nat.ne_of_gt g.sectorSize_pos)
      have lastIff := reading.length_eq_zero_iff
      rw [mscBulkInNak_eq stage positive]
      refine ⟨heads, writes, [], none, hand.besides _ rfl rfl rfl rfl rfl, rfl,
        reading.besides _ rfl rfl rfl rfl rfl rfl rfl, answered, ?_⟩
      refine .primed ?_ ?_ (fun last => if_pos (lastIff.mpr last)) calm data
      · exact if_congr lastIff rfl rfl
      · show some (InSource.readBulkBuf, device.msc.readBulkLen) = _
        rw [length]
  | primed stage request status calm data =>
      rw [notPrimed] at request
      cases request

/-- The host waits, and no transfer is primed for it. -/
theorem Holding.inNak {phase : HostPhase S} (holding : Holding g capacity base device phase)
    (waits : phase.Waits) (notPrimed : device.msc.inRequest = none) :
    Holding g capacity base { device with msc := mscBulkInNak device.msc } phase := by
  cases phase with
  | idle => exact absurd waits not_false
  | command call => exact absurd waits not_false
  | dataOut cbw data sent => exact absurd waits not_false
  | dataIn cbw received => exact holding.inNak_dataIn notPrimed
  | inform cbw =>
      obtain ⟨heads, writes, last, carried, hand, noLast, noCarried, conforms, csw, length,
        answering, rest⟩ := holding
      have request := answering.inRequest
      rw [notPrimed] at request
      cases request
  | status call sectors bytes =>
      obtain ⟨heads, writes, last, carried, hand, noLast, noCarried, answering, rest⟩ := holding
      have request := answering.inRequest
      rw [notPrimed] at request
      cases request

/-- The sectors that come next follow the ones that have come. -/
theorem answered_append {addr n : Nat}
    (answered : received = (List.range received.length).map fun i => base (addr + i)) :
    received ++ (List.range n).map (fun i => base (addr + received.length + i)) =
      (List.range (received.length + n)).map fun i => base (addr + i) := by
  rw [List.range_add, List.map_append, List.map_map, ← answered]
  refine congrArg (received ++ ·) (List.map_congr_left fun i _ => ?_)
  exact congrArg base (Nat.add_assoc _ _ _)

/-- The sectors of a chunk in the read buffer. -/
theorem ReadBulk.sectors {offset left : Nat} (data : ReadBulk g device offset left base) :
    device.msc.sectors g (chunk g offset left * g.sectorSize) =
      (List.range (chunk g offset left)).map fun i => base (offset + i) := by
  unfold Msc.sectors
  rw [Nat.mul_div_cancel _ g.sectorSize_pos]
  exact List.map_congr_left fun i member => data i (List.mem_range.mp member)

/-- The host has taken some of the sectors, and more are to be logged. -/
theorem Reading.fetches {got : Nat} (reading : Reading g capacity device cbw got)
    (stage : device.msc.bulkStage = .dataIn) (request : device.msc.inRequest = none)
    (more : got + chunk g (cbw.addr + got) (cbw.count - got) < cbw.count) (calm : device.Calm) :
    Fetches g capacity device cbw (got + chunk g (cbw.addr + got) (cbw.count - got)) where
  conforms := reading.conforms
  wrapper := reading.wrapper
  stage := stage
  merge := reading.merge
  requests := ⟨reading.outRequest, request⟩
  calm := calm
  more := more
  offset := by
    rw [reading.offset, Nat.add_assoc]
  length := by
    rw [reading.length, Nat.sub_sub]
  tag := reading.tag
  residue := by
    rw [reading.residue, reading.length, Nat.sub_sub]

/-- The status behind the last sectors. -/
theorem Reading.passed {got : Nat} (reading : Reading g capacity device cbw got)
    (last : cbw.count - got = chunk g (cbw.addr + got) (cbw.count - got))
    (status : device.msc.csw.bStatus = cswCmdPassed) :
    { device.msc.csw with dSignature := mscCswSignature } =
      MscCsw.mk mscCswSignature cbw.dTag 0 cswCmdPassed := by
  have noMore : device.msc.csw.dDataResidue = 0 := by
    rw [reading.residue, reading.length_eq_zero_iff.mpr last, Nat.zero_mul]
  rw [← reading.tag, ← noMore, ← status]

/-- The host has taken sectors. -/
theorem Holding.inSectors {length : Nat}
    (holding : Holding g capacity base device (.dataIn cbw received))
    (handled : controller.Handled)
    (primed : device.msc.inRequest = some (.readBulkBuf, length)) :
    Held g capacity base { device with msc := device.msc.taken }
      { controller with inComplete := true }
      (.received cbw (received ++ device.msc.sectors g length)) := by
  obtain ⟨heads, writes, last, carried, hand, rfl, reading, answered, fetching⟩ := holding
  cases fetching with
  | logged stage request empty calm => rw [primed] at request; cases request
  | read stage request empty pc data => rw [primed] at request; cases request
  | ready stage request ready calm data => rw [primed] at request; cases request
  | primed stage request status calm data =>
  obtain rfl := congrArg Prod.snd (Option.some.inj (primed.symm.trans request))
  dsimp only
  rw [data.sectors]
  have next := answered_append
    (n := chunk g (cbw.addr + received.length) (cbw.count - received.length)) answered
  refine .pending (hand.besides _ rfl rfl rfl rfl rfl) (.sectors handled.1 rfl
    (reading.besides _ rfl rfl rfl rfl rfl rfl rfl) stage rfl status calm ?_ ?_ rfl)
  · rw [List.length_append, List.length_map, List.length_range]
  · rw [List.length_append, List.length_map, List.length_range]
    exact next

/-- The sectors that the host has taken are handled. -/
theorem Reading.inDone {got : Nat} (small : capacity < 2 ^ 32)
    (reading : Reading g capacity device cbw got)
    (hand : InHand g capacity device heads writes [] none base)
    (stage : device.msc.bulkStage =
      if cbw.count - got = chunk g (cbw.addr + got) (cbw.count - got) then .dataInLast else .dataIn)
    (request : device.msc.inRequest = none)
    (status : cbw.count - got = chunk g (cbw.addr + got) (cbw.count - got) →
      device.msc.csw.bStatus = cswCmdPassed)
    (calm : device.Calm)
    (length : received.length = got + chunk g (cbw.addr + got) (cbw.count - got))
    (answered : received = (List.range received.length).map fun i => base (cbw.addr + i)) :
    ∃ msc, mscBulkIn g device.msc = .ok msc ∧
      Holding g capacity base { device with msc := msc } (.received cbw received) := by
  have part := chunk_le g (cbw.addr + got) (cbw.count - got)
  have more := reading.more
  unfold HostPhase.received mscBulkIn
  by_cases last : cbw.count - got = chunk g (cbw.addr + got) (cbw.count - got)
  · have complete : received.length = cbw.count := by omega
    rw [if_pos last] at stage
    rw [stage, if_pos complete]
    rw [complete] at answered
    exact ⟨_, rfl, heads, writes, [], none, hand.besides _ rfl rfl rfl rfl rfl, rfl, rfl,
      ⟨rfl, reading.merge, reading.outRequest, rfl, reading.passed last (status last), calm⟩,
      answered, rfl⟩
  · have notComplete : ¬ received.length = cbw.count := by omega
    have isRead := reading.conforms.2.1
    rw [← reading.wrapper] at isRead
    rw [if_neg last] at stage
    rw [stage, if_neg notComplete]
    dsimp only
    rw [if_pos isRead]
    refine Fetches.memoryRead device small ?_ hand answered
    rw [length]
    exact reading.fetches stage request (by omega) calm

end Reads

/-! ## Answers that are bytes, and the status -/

/-- The host has taken bytes. -/
theorem Holding.inBytes {length : Nat} (holding : Holding g capacity base device (.inform cbw))
    (handled : controller.Handled)
    (primed : device.msc.inRequest = some (.cmdBulkBuf, length)) :
    Held g capacity base { device with msc := device.msc.taken }
      { controller with inComplete := true }
      (.status (.inform cbw) [] (device.msc.bytes length)) := by
  obtain ⟨heads, writes, last, carried, hand, rfl, rfl, conforms, csw, length', answering, status,
    bytes⟩ := holding
  obtain rfl := congrArg Prod.snd (Option.some.inj (primed.symm.trans answering.inRequest))
  refine .pending (hand.besides _ rfl rfl rfl rfl rfl) (.bytes handled.1 rfl answering.stage
    answering.merge ⟨answering.outRequest, rfl⟩ answering.calm ?_ bytes)
  rw [← status, ← answering.csw]
  rfl

/-- The host has taken the status. -/
theorem Holding.inStatus {call : HostCall S} {sectors : List S} {bytes : List Nat}
    (holding : Holding g capacity base device (.status call sectors bytes))
    (handled : controller.Handled) :
    Held g capacity (call.image base) { device with msc := device.msc.taken }
      { controller with inComplete := true } .idle ∧
    HostAnswer.mk sectors bytes device.msc.csw = call.answer g capacity base := by
  obtain ⟨heads, writes, last, carried, hand, rfl, rfl, answering, isSectors, isBytes⟩ := holding
  constructor
  · exact .pending (hand.besides _ rfl rfl rfl rfl rfl) (.status handled.1 rfl answering.stage
      answering.merge ⟨answering.outRequest, rfl⟩ answering.calm (.inl rfl))
  · rw [isSectors, isBytes, answering.csw]

/-! ## Handlers of the transfers that are complete -/

section Done

variable {phase : HostPhase S}

/-- `MSC_BulkOut` handles what has come from the host, and primes nothing for what it sends next. -/
theorem Held.outDone {received : Nat} (whole : g.sectorPerMpp ∣ capacity)
    (small : capacity < 2 ^ 32) (held : Held g capacity base device controller phase)
    (complete : controller.outComplete = some received) (late : Bool) :
    ∃ msc, mscBulkOut g received device.msc = .ok msc ∧ (phase.Sends → msc.outRequest = none) ∧
      Held g capacity base { device with msc := msc }
        { controller with outComplete := none, outNak := late } phase := by
  cases held with
  | settled handled holding => rw [handled.1] at complete; cases complete
  | pending hand pending =>
      cases pending with
      | command out inward conforms resting request wrapper here =>
          obtain rfl := Option.some.inj (out.symm.trans complete)
          obtain ⟨msc, run, notPrimed, holding⟩ := resting.outCommand small hand conforms
          rw [Msc.withCbw_self wrapper request] at run
          rw [here]
          exact ⟨msc, run, notPrimed, .settled ⟨rfl, inward⟩ holding⟩
      | data out inward writing merge request calm bulkBuf part filled here =>
          obtain rfl := Option.some.inj (out.symm.trans complete)
          obtain ⟨msc, run, notPrimed, holding⟩ :=
            writing.outDone whole small hand merge request calm bulkBuf part filled
          rw [here]
          exact ⟨msc, run, fun _ => notPrimed, .settled ⟨rfl, inward⟩ holding⟩
      | sectors out inward reading stage request status calm length answered here =>
          rw [out] at complete
          cases complete
      | bytes out inward stage merge requests calm status answered =>
          rw [out] at complete
          cases complete
      | status out inward stage merge requests calm here => rw [out] at complete; cases complete

/-- `MSC_BulkIn` goes on behind what the host has taken. -/
theorem Held.inDone (small : capacity < 2 ^ 32)
    (held : Held g capacity base device controller phase)
    (complete : controller.inComplete = true) (late : Bool) :
    ∃ msc, mscBulkIn g device.msc = .ok msc ∧
      (phase.Sends → msc.outRequest = device.msc.outRequest) ∧
        Held g capacity base { device with msc := msc }
        { controller with inComplete := false, inNak := late } phase := by
  cases held with
  | settled handled holding => rw [handled.2] at complete; cases complete
  | pending hand pending =>
      cases pending with
      | command out inward conforms resting request wrapper here =>
          rw [inward] at complete
          cases complete
      | data out inward writing merge request calm bulkBuf part filled here =>
          rw [inward] at complete
          cases complete
      | sectors out inward reading stage request status calm length answered here =>
          obtain ⟨msc, run, holding⟩ :=
            reading.inDone small hand stage request status calm length answered
          rw [here]
          refine ⟨msc, run, fun sends => ?_, .settled ⟨out, rfl⟩ holding⟩
          unfold HostPhase.received at sends
          split at sends <;> exact absurd sends not_false
      | bytes out inward stage merge requests calm status answered =>
          refine ⟨mscSetCsw device.msc, ?_, fun _ => rfl, .settled ⟨out, rfl⟩ ⟨_, _, [], none,
            hand.besides _ rfl rfl rfl rfl rfl, rfl, rfl,
            ⟨rfl, merge, requests.1, rfl, status, calm⟩, rfl, answered⟩⟩
          unfold mscBulkIn
          rw [stage]
          rfl
      | status out inward stage merge requests calm here =>
          have resting : Resting { device with msc := { device.msc with bulkStage := .cbw } } []
              none := ⟨rfl, merge, requests.2, rfl, rfl, calm⟩
          refine ⟨{ device.msc with bulkStage := .cbw }, ?_, fun _ => rfl, .settled ⟨out, rfl⟩ ?_⟩
          · unfold mscBulkIn
            rw [stage]
            rfl
          · rcases here with rfl | ⟨call, rfl, conforms⟩
            · exact ⟨_, _, [], none, hand.besides _ rfl rfl rfl rfl rfl, resting, requests.1⟩
            · exact ⟨_, _, [], none, hand.besides _ rfl rfl rfl rfl rfl, conforms, resting,
                .inl requests.1⟩

end Done

end OpenNfm.Usb
