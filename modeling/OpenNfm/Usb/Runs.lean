import OpenNfm.Usb.Transfers

/-!
# Runs of the host and the device

Each step of the main loop leaves the device where the phase of the host says, in whatever order it
takes turns with the handlers, also in front of the handler of a transfer that is complete.  So the
host gets the answers of a flat array of sectors.
-/

namespace OpenNfm.Usb

open OpenNfm.Program

variable {S : Type} {g : Geometry} {capacity : Nat} {device after : Device S}
  {heads last : List UsbTransaction} {writes : List PageWrite} {carried : Option Nat}
  {image base : Nat → S} {phase : HostPhase S} {controller : Controller}

/-! ## The main loop -/

/-- The phase does not depend on the buffers that are used, nor on the place in the list. -/
theorem InPhase.moves {heads' : List UsbTransaction} {used : Nat → Bool} {pop : Nat}
    (inPhase : InPhase g capacity base device heads last carried phase) (calm : device.Calm)
    (calm' : after.Calm) (same : after.msc = { device.msc with pbPoolUsed := used, utPop := pop }) :
    InPhase g capacity base after heads' last carried phase := by
  obtain ⟨msc, pc, disk, below⟩ := after
  dsimp only at same
  subst same
  cases phase with
  | idle =>
      obtain ⟨resting, request⟩ := inPhase
      exact ⟨⟨resting.stage, resting.merge, resting.inRequest, resting.last,
        resting.carried, calm'⟩, request⟩
  | command call =>
      obtain ⟨conforms, resting, request⟩ := inPhase
      exact ⟨conforms, ⟨resting.stage, resting.merge, resting.inRequest, resting.last,
        resting.carried, calm'⟩, request⟩
  | dataOut cbw data sent =>
      obtain ⟨writing, filling⟩ := inPhase
      refine ⟨⟨writing.conforms, writing.wrapper, writing.stage, writing.inRequest, writing.more,
        writing.offset, writing.length, writing.tag, writing.residue⟩, ?_⟩
      cases filling with
      | free stage request _ => exact .free stage request calm'
      | merging stage request bulkBuf count _ => exact .merging stage request bulkBuf count calm'
      | merged stage request bulkBuf count pc =>
          rcases calm with top | next
          · rw [pc] at top
            cases top
          · rw [pc] at next
            cases next
      | ready stage request bulkBuf count _ loaded =>
          exact .ready stage request bulkBuf count calm' loaded
      | primed stage request bulkBuf _ loaded => exact .primed stage request bulkBuf calm' loaded
  | dataIn cbw received =>
      obtain ⟨noCarried, reading, answered, fetching⟩ := inPhase
      refine ⟨noCarried, ⟨reading.conforms, reading.wrapper, reading.merge, reading.outRequest,
        reading.more, reading.offset, reading.length, reading.tag, reading.residue⟩, answered, ?_⟩
      cases fetching with
      | logged stage request empty _ => exact .logged stage request empty calm'
      | read stage request empty pc =>
          rcases calm with top | next
          · rw [pc] at top
            cases top
          · rw [pc] at next
            cases next
      | ready stage request length _ data => exact .ready stage request length calm' data
      | primed stage request status _ data => exact .primed stage request status calm' data
  | inform cbw =>
      obtain ⟨noLast, noCarried, conforms, csw, length, answering, rest⟩ := inPhase
      exact ⟨noLast, noCarried, conforms, csw, length, ⟨answering.stage, answering.merge,
        answering.outRequest, answering.inRequest, answering.csw, calm'⟩, rest⟩
  | status call sectors bytes =>
      obtain ⟨noLast, noCarried, answering, rest⟩ := inPhase
      exact ⟨noLast, noCarried, ⟨answering.stage, answering.merge, answering.outRequest,
        answering.inRequest, answering.csw, calm'⟩, rest⟩

/-- The page that the data is merged into is read. -/
theorem Writing.runMerge {cbw : MscCbw} {data : Nat → S} {sent buffer : Nat} (returned : List Nat)
    (writing : Writing g capacity device cbw data sent)
    (hand : InHand g capacity device heads [] [mergeTask g (cbw.addr + sent) buffer] (some buffer)
      (putSectors base cbw.addr sent data))
    (top : device.pc = .top) (stage : device.msc.mergeStage = .start)
    (request : device.msc.outRequest = none) (bulkBuf : device.msc.bulkBuf = some buffer)
    (count : device.msc.mergeCount = chunk g (cbw.addr + sent) (cbw.count - sent)) :
    ∃ after, device.runTask returned = .ok after ∧ (after.below.length ≤ g.totalDieCount + 1 →
      Holding g capacity base after (.dataOut cbw data sent)) := by
  have holds := hand.queued.holds
  rw [hand.queued.atTop top] at holds
  have first : device.msc.utList device.msc.utPop = mergeTask g (cbw.addr + sent) buffer :=
    holds.first
  have run : device.runTask returned = .ok { device.giveBack returned device.below with
      msc :=
        { (device.giveBack returned device.below).msc with
          pbPool := Function.update device.msc.pbPool buffer (takeSectors device.disk
            (Buf.startOf g (cbw.addr + sent)) g.sectorPerMpp (device.msc.pbPool buffer)) }
      pc := .merged } := by
    unfold Device.runTask
    dsimp only
    rw [first]
    exact if_pos stage
  refine ⟨_, run, fun few => ⟨_, [], [], some buffer,
    hand.runLast top (fun wrong => by cases wrong) few rfl rfl rfl rfl, ?_, ?_⟩⟩
  · exact ⟨writing.conforms, writing.wrapper, writing.stage, writing.inRequest, writing.more,
      writing.offset, writing.length, writing.tag, writing.residue⟩
  · refine .merged stage request bulkBuf count rfl fun i inPage _ => ?_
    have stored : device.disk = putSectors base cbw.addr sent data := hand.stored
    show Function.update device.msc.pbPool buffer _ buffer i = _
    rw [Function.update_self, takeSectors, if_pos inPage, stored]
    rfl

/-- The sectors of a read are read. -/
theorem Reading.runRead {cbw : MscCbw} {received : List S} (returned : List Nat)
    (reading : Reading g capacity device cbw received.length)
    (hand : InHand g capacity device heads []
      [readTask g (cbw.addr + received.length) (cbw.count - received.length)] none base)
    (answered : received = (List.range received.length).map fun i => base (cbw.addr + i))
    (top : device.pc = .top) (stage : device.msc.bulkStage = .dataIn)
    (request : device.msc.inRequest = none) (empty : device.msc.readBulkLen = 0) :
    ∃ after, device.runTask returned = .ok after ∧ (after.below.length ≤ g.totalDieCount + 1 →
      Holding g capacity base after (.dataIn cbw received)) := by
  have holds := hand.queued.holds
  rw [hand.queued.atTop top] at holds
  have first : device.msc.utList device.msc.utPop =
    readTask g (cbw.addr + received.length) (cbw.count - received.length) := holds.first
  have run : device.runTask returned = .ok { device.giveBack returned device.below with
      msc :=
        { (device.giveBack returned device.below).msc with
          readBulkBuf := takeSectors device.disk (cbw.addr + received.length)
            (chunk g (cbw.addr + received.length) (cbw.count - received.length))
            device.msc.readBulkBuf }
      pc := .read } := by
    unfold Device.runTask
    dsimp only
    rw [first]
    exact if_pos empty
  refine ⟨_, run, fun few => ⟨_, [], [], none,
    hand.runLast top (fun wrong => by cases wrong) few rfl rfl rfl rfl, rfl, ?_, answered, ?_⟩⟩
  · exact ⟨reading.conforms, reading.wrapper, reading.merge, reading.outRequest, reading.more,
      reading.offset, reading.length, reading.tag, reading.residue⟩
  · refine .read stage request empty rfl fun i inChunk => ?_
    have stored : device.disk = base := hand.stored
    show takeSectors device.disk _ _ _ i = _
    rw [takeSectors, if_pos inChunk, stored]

/-- The main loop executes the transaction in turn. -/
theorem Holding.runTask (returned : List Nat) (holding : Holding g capacity base device phase)
    (top : device.pc = .top) (waiting : device.msc.utPop ≠ device.msc.utPush) :
    ∃ after, device.runTask returned = .ok after ∧ (after.below.length ≤ g.totalDieCount + 1 →
      Holding g capacity base after phase) := by
  obtain ⟨heads, writes, last, carried, hand, inPhase⟩ := holding
  cases writes with
  | cons write rest =>
      obtain ⟨after, run, same, pc, moves⟩ := hand.runWrite returned top
      exact ⟨after, run, fun few => ⟨_, rest, last, carried, moves few,
        inPhase.moves (Or.inl top) (Or.inr pc) same⟩⟩
  | nil =>
      have notEmpty : last ≠ [] := by
        rintro rfl
        apply waiting
        refine hand.queued.holds.isEmpty_iff.mpr ?_
        rw [hand.queued.atTop top]
        rfl
      cases phase with
      | idle => exact absurd inPhase.1.last notEmpty
      | command call => exact absurd inPhase.2.1.last notEmpty
      | inform cbw => exact absurd inPhase.1 notEmpty
      | status call sectors bytes => exact absurd inPhase.1 notEmpty
      | dataOut cbw data sent =>
          obtain ⟨writing, filling⟩ := inPhase
          cases filling with
          | merging stage request bulkBuf count calm =>
              exact writing.runMerge returned hand top stage request bulkBuf count
          | free stage request calm => exact absurd rfl notEmpty
          | merged stage request bulkBuf count pc loaded => exact absurd rfl notEmpty
          | ready stage request bulkBuf count calm loaded => exact absurd rfl notEmpty
          | primed stage request bulkBuf calm loaded => exact absurd rfl notEmpty
      | dataIn cbw received =>
          obtain ⟨rfl, reading, answered, fetching⟩ := inPhase
          cases fetching with
          | logged stage request empty calm =>
              exact reading.runRead returned hand answered top stage request empty
          | read stage request empty pc data => exact absurd rfl notEmpty
          | ready stage request length calm data => exact absurd rfl notEmpty
          | primed stage request status calm data => exact absurd rfl notEmpty

/-- The main loop is behind the transaction that it has executed. -/
theorem InHand.told (hand : InHand g capacity device heads writes last carried image)
    (notTop : device.pc ≠ .top) (msc : Msc S)
    (highSpeed : msc.devStatusFS2HS = device.msc.devStatusFS2HS)
    (blockCount : msc.mscBlockCount = device.msc.mscBlockCount)
    (queue : msc.queue = device.msc.queue) (used : msc.pbPoolUsed = device.msc.pbPoolUsed)
    (pool : msc.pbPool = device.msc.pbPool) :
    InHand g capacity { device with msc := msc, pc := .next } heads writes last carried image := by
  have hand' := hand.besides msc highSpeed blockCount queue used pool
  exact
    { highSpeed := hand'.highSpeed
      blockCount := hand'.blockCount
      queued :=
        { holds := hand'.queued.holds
          atTop := fun wrong => by cases wrong
          atTask := fun _ => hand.queued.atTask notTop
          one := hand.queued.one }
      owned := hand'.owned
      few := hand'.few
      stored := hand'.stored
      inRange := hand'.inRange }

/-- The handlers are told of the data. -/
theorem Holding.tell (holding : Holding g capacity base device phase)
    (told : device.pc = .read ∨ device.pc = .merged) :
    Holding g capacity base (device.tell g) phase := by
  obtain ⟨heads, writes, last, carried, hand, inPhase⟩ := holding
  have notCalm : ¬ device.Calm := by
    rintro (top | next)
    · rcases told with pc | pc <;> · rw [pc] at top; cases top
    · rcases told with pc | pc <;> · rw [pc] at next; cases next
  cases phase with
  | idle => exact absurd inPhase.1.calm notCalm
  | command call => exact absurd inPhase.2.1.calm notCalm
  | inform cbw =>
      obtain ⟨noLast, noCarried, conforms, csw, length, answering, rest⟩ := inPhase
      exact absurd answering.calm notCalm
  | status call sectors bytes => exact absurd inPhase.2.2.1.calm notCalm
  | dataOut cbw data sent =>
      obtain ⟨writing, filling⟩ := inPhase
      cases filling with
      | free stage request calm => exact absurd calm notCalm
      | merging stage request bulkBuf count calm => exact absurd calm notCalm
      | ready stage request bulkBuf count calm loaded => exact absurd calm notCalm
      | primed stage request bulkBuf calm loaded => exact absurd calm notCalm
      | merged stage request bulkBuf count pc loaded =>
          have notTop : device.pc ≠ .top := fun top => notCalm (Or.inl top)
          unfold Device.tell
          rw [pc]
          refine ⟨heads, writes, [], _, hand.told notTop _ rfl rfl rfl rfl rfl, ?_,
            .ready rfl request bulkBuf count (Or.inr rfl) loaded⟩
          exact ⟨writing.conforms, writing.wrapper, writing.stage, writing.inRequest, writing.more,
            writing.offset, writing.length, writing.tag, writing.residue⟩
  | dataIn cbw received =>
      obtain ⟨rfl, reading, answered, fetching⟩ := inPhase
      cases fetching with
      | logged stage request empty calm => exact absurd calm notCalm
      | ready stage request length calm data => exact absurd calm notCalm
      | primed stage request status calm data => exact absurd calm notCalm
      | read stage request empty pc data =>
          have notTop : device.pc ≠ .top := fun top => notCalm (Or.inl top)
          have first : device.msc.utList device.msc.utPop =
            readTask g (cbw.addr + received.length) (cbw.count - received.length) :=
              hand.queued.holds.first
          unfold Device.tell
          rw [pc]
          refine ⟨_, writes, [], none, hand.told notTop _ rfl rfl rfl rfl rfl, rfl, ?_, answered,
            .ready stage request ?_ (Or.inr rfl) data⟩
          · exact ⟨reading.conforms, reading.wrapper, reading.merge, reading.outRequest,
              reading.more, reading.offset, reading.length, reading.tag, reading.residue⟩
          · show (device.msc.utList device.msc.utPop).length * g.sectorSize = _
            rw [first]
            rfl

/-- The main loop goes on. -/
theorem Holding.advance (holding : Holding g capacity base device phase)
    (next : device.pc = .next) :
    Holding g capacity base (device.advance g) phase := by
  obtain ⟨heads, writes, last, carried, hand, inPhase⟩ := holding
  exact ⟨[], writes, last, carried, hand.advance next,
    inPhase.moves (Or.inr next) (Or.inl rfl) rfl⟩

/-! ### In front of the handler of a transfer -/

/-- A transfer that is complete does not depend on the buffers that are used, nor on the place in
the list. -/
theorem Pending.moves {used : Nat → Bool} {pop : Nat}
    (pending : Pending g capacity base device controller carried image phase) (calm : after.Calm)
    (same : after.msc = { device.msc with pbPoolUsed := used, utPop := pop }) :
    Pending g capacity base after controller carried image phase := by
  obtain ⟨msc, pc, disk, below⟩ := after
  dsimp only at same
  subst same
  cases pending with
  | command out inward conforms resting request wrapper here =>
      exact .command out inward conforms ⟨resting.stage, resting.merge, resting.inRequest,
        resting.last, resting.carried, calm⟩ request wrapper here
  | data out inward writing merge request _ bulkBuf part filled here =>
      exact .data out inward ⟨writing.conforms, writing.wrapper, writing.stage, writing.inRequest,
        writing.more, writing.offset, writing.length, writing.tag, writing.residue⟩ merge request
        calm bulkBuf part filled here
  | sectors out inward reading stage request status _ length answered here =>
      exact .sectors out inward ⟨reading.conforms, reading.wrapper, reading.merge,
        reading.outRequest, reading.more, reading.offset, reading.length, reading.tag,
        reading.residue⟩ stage request status calm length answered here
  | bytes out inward stage merge requests _ status answered =>
      exact .bytes out inward stage merge requests calm status answered
  | status out inward stage merge requests _ here =>
      exact .status out inward stage merge requests calm here

/-- The main loop executes the transaction in turn, also in front of the handler of a transfer. -/
theorem Held.runTask (returned : List Nat) (held : Held g capacity base device controller phase)
    (top : device.pc = .top) (waiting : device.msc.utPop ≠ device.msc.utPush) :
    ∃ after, device.runTask returned = .ok after ∧ (after.below.length ≤ g.totalDieCount + 1 →
      Held g capacity base after controller phase) := by
  cases held with
  | settled handled holding =>
      obtain ⟨after, run, moved⟩ := holding.runTask returned top waiting
      exact ⟨after, run, fun few => .settled handled (moved few)⟩
  | @pending heads writes carried image hand pending =>
      cases writes with
      | cons write rest =>
          obtain ⟨after, run, same, pc, moves⟩ := hand.runWrite returned top
          exact ⟨after, run, fun few => .pending (moves few) (pending.moves (Or.inr pc) same)⟩
      | nil =>
          refine absurd (hand.queued.holds.isEmpty_iff.mpr ?_) waiting
          rw [hand.queued.atTop top]
          rfl

theorem Held.tell (held : Held g capacity base device controller phase)
    (told : device.pc = .read ∨ device.pc = .merged) :
    Held g capacity base (device.tell g) controller phase := by
  cases held with
  | settled handled holding => exact .settled handled (holding.tell told)
  | pending hand pending =>
      rcases pending.calm with pc | pc <;> rcases told with told | told <;>
        · rw [pc] at told
          cases told

theorem Held.advance (held : Held g capacity base device controller phase)
    (next : device.pc = .next) : Held g capacity base (device.advance g) controller phase := by
  cases held with
  | settled handled holding => exact .settled handled (holding.advance next)
  | pending hand pending => exact .pending (hand.advance next) (pending.moves (Or.inl rfl) rfl)

/-- The main loop primes nothing. -/
theorem Device.runTask_outRequest {returned : List Nat}
    (run : device.runTask returned = .ok after) :
    after.msc.outRequest = device.msc.outRequest := by
  unfold Device.runTask at run
  dsimp only at run
  split at run
  · split at run
    · cases run
      rfl
    · cases run
  · split at run
    · split at run
      · cases run
        rfl
      · cases run
    · cases run
      rfl
  · split at run
    · split at run
      · cases run
        rfl
      · cases run
    · cases run
      rfl
  · cases run

/-! ## The host and the tokens -/

theorem HostPhase.not_sends_of_waits {phase : HostPhase S} (waits : phase.Waits) :
    ¬ phase.Sends := by
  cases phase with
  | idle => exact absurd waits not_false
  | command call => exact absurd waits not_false
  | dataOut cbw data sent => exact absurd waits not_false
  | dataIn cbw received => exact not_false
  | inform cbw => exact not_false
  | status call sectors bytes => exact not_false

/-- A host without a command is in front of no transfer but that of a status. -/
theorem Pending.idle
    (pending : Pending g capacity base device controller carried image (.idle : HostPhase S)) :
    carried = none ∧ image = base ∧ ∀ call : HostCall S, call.Conforms g capacity →
      Pending g capacity base device controller none base (.command call) := by
  cases pending with
  | @command call _ out inward conforms resting request wrapper here => cases call <;> cases here
  | data out inward writing merge request calm bulkBuf part filled here =>
      unfold HostPhase.sent at here
      split at here <;> cases here
  | sectors out inward reading stage request status calm length answered here =>
      unfold HostPhase.received at here
      split at here <;> cases here
  | status out inward stage merge requests calm here =>
      exact ⟨rfl, rfl, fun call conforms =>
        .status out inward stage merge requests calm (.inr ⟨call, rfl, conforms⟩)⟩

/-- The host begins a command. -/
theorem Held.starts {call : HostCall S} (held : Held g capacity base device controller .idle)
    (conforms : call.Conforms g capacity) :
    Held g capacity base device controller (.command call) := by
  cases held with
  | settled handled holding =>
      obtain ⟨heads, writes, last, carried, hand, resting, request⟩ := holding
      exact .settled handled
        ⟨heads, writes, last, carried, hand, conforms, resting, Or.inl request⟩
  | pending hand pending =>
      obtain ⟨rfl, rfl, moved⟩ := pending.idle
      exact .pending hand (moved call conforms)

/-- The handler of a token of the host that sends. -/
theorem Holding.outNak (holding : Holding g capacity base device phase) (sends : phase.Sends)
    (notPrimed : device.msc.outRequest = none) :
    ∃ msc, mscBulkOutNak g device.msc = .ok msc ∧
      Holding g capacity base { device with msc := msc } phase := by
  cases phase with
  | command call => exact holding.outNak_command
  | dataOut cbw data sent => exact holding.outNak_dataOut notPrimed
  | idle => exact absurd sends not_false
  | dataIn cbw received => exact absurd sends not_false
  | inform cbw => exact absurd sends not_false
  | status call sectors bytes => exact absurd sends not_false

/-- The handler of a token of the host that waits, when nothing is primed or no data is left. -/
theorem Holding.inNak_timely (holding : Holding g capacity base device phase) (waits : phase.Waits)
    (timely : device.msc.inRequest = none ∨ device.msc.readBulkLen = 0) :
    Holding g capacity base { device with msc := mscBulkInNak device.msc } phase := by
  rcases timely with notPrimed | noData
  · exact holding.inNak waits notPrimed
  · have same : mscBulkInNak device.msc = device.msc := if_neg (not_not.mpr noData)
    rw [same]
    exact holding

/-! ## Runs -/

/-- What holds in each world that is reached. -/
structure Kept (g : Geometry) (capacity : Nat) (image : Nat → S) (world : World S) : Prop where
  held : Held g capacity (imageAfter image world.done) world.device world.controller world.phase
  answered : Answered g capacity image world.done
  outNak : world.controller.outNak = true →
    world.phase.Sends ∧ world.device.msc.outRequest = none
  inNak : world.controller.inNak = true → world.phase.Waits ∨ world.controller.inComplete = true

theorem Started.kept (started : Started g capacity device) :
    Kept g capacity device.disk ⟨device, .quiet, .idle, []⟩ where
  held := by
    have positive : 0 < utListSize g.bufferCount := by
      have := four_le_bufferCount g
      unfold utListSize
      omega
    have queue : device.msc.queue = ⟨device.msc.utList, 0, 0⟩ := by
      unfold Msc.queue
      rw [started.empty.1, started.empty.2]
    refine .settled ⟨rfl, rfl⟩ ⟨[], [], [], none, ?_, ⟨started.stage, started.mergeStage,
      started.idle.2, rfl, rfl, Or.inl started.pc⟩, started.idle.1⟩
    exact
      { highSpeed := started.highSpeed
        blockCount := started.blockCount
        queued :=
          { holds := by
              rw [queue]
              exact RingQueue.holds_nil positive _
            atTop := fun _ => rfl
            atTask := fun wrong => absurd started.pc wrong
            one := Nat.zero_le 1 }
        owned := by
          unfold Usb.owners
          rw [List.map_nil, List.nil_append, Option.toList_none, List.append_nil]
          exact ⟨started.owners.1, started.owners.2.1, started.owners.2.2⟩
        few := started.few
        stored := rfl
        inRange := fun write member => absurd member List.not_mem_nil }
  answered := trivial
  outNak latched := absurd latched Bool.false_ne_true
  inNak latched := absurd latched Bool.false_ne_true

section Steps

variable {done : List (HostCall S × HostAnswer S)} {cbw : MscCbw}

/-- No token of the endpoint to the device is latched while its transfer is primed. -/
theorem Kept.no_outNak {request : OutTarget × Nat}
    (kept : Kept g capacity image ⟨device, controller, phase, done⟩)
    (primed : device.msc.outRequest = some request) : ¬ controller.outNak = true := by
  intro latched
  have notPrimed := (kept.outNak latched).2
  rw [primed] at notPrimed
  cases notPrimed

/-- No token is latched that the host has sent before. -/
theorem Kept.no_inNak (kept : Kept g capacity image ⟨device, controller, phase, done⟩)
    (notWaits : ¬ phase.Waits) (handled : controller.Handled) : ¬ controller.inNak = true := by
  intro latched
  rcases kept.inNak latched with waits | complete
  · exact notWaits waits
  · rw [handled.2] at complete
    cases complete

/-- The host has sent a wrapper. -/
theorem Kept.outCommand {call : HostCall S}
    (kept : Kept g capacity image ⟨device, controller, .command call, done⟩)
    (primed : device.msc.outRequest = some (.cbw, cbwSize)) :
    Kept g capacity image ⟨{ device with msc := device.msc.withCbw call.cbw },
      { controller with outComplete := some cbwSize }, .start call, done⟩ := by
  obtain ⟨handled, holding⟩ :=
    kept.held.settled_of_primed (.inl (by rw [primed]; exact Option.some_ne_none _))
  exact ⟨holding.outCommand handled, kept.answered,
    fun latched => absurd latched (kept.no_outNak primed),
    fun latched => absurd latched (kept.no_inNak not_false handled)⟩

/-- The host has sent a part of its data. -/
theorem Kept.outData {data : Nat → S} {sent buffer first count : Nat}
    (kept : Kept g capacity image ⟨device, controller, .dataOut cbw data sent, done⟩)
    (primed : device.msc.outRequest = some (.pool buffer first, count * g.sectorSize)) :
    Kept g capacity image
      ⟨{ device with msc := device.msc.fill buffer first count fun i => data (sent + i) },
        { controller with outComplete := some (count * g.sectorSize) },
        .sent cbw data (sent + count), done⟩ := by
  obtain ⟨handled, holding⟩ :=
    kept.held.settled_of_primed (.inl (by rw [primed]; exact Option.some_ne_none _))
  exact ⟨(holding.outData handled primed).2, kept.answered,
    fun latched => absurd latched (kept.no_outNak primed),
    fun latched => absurd latched (kept.no_inNak not_false handled)⟩

/-- The host has taken sectors. -/
theorem Kept.inSectors {received : List S} {length : Nat}
    (kept : Kept g capacity image ⟨device, controller, .dataIn cbw received, done⟩)
    (primed : device.msc.inRequest = some (.readBulkBuf, length)) :
    Kept g capacity image ⟨{ device with msc := device.msc.taken },
      { controller with inComplete := true },
      .received cbw (received ++ device.msc.sectors g length), done⟩ := by
  obtain ⟨handled, holding⟩ :=
    kept.held.settled_of_primed (.inr (by rw [primed]; exact Option.some_ne_none _))
  exact ⟨holding.inSectors handled primed, kept.answered,
    fun latched => absurd (kept.outNak latched).1 not_false, fun _ => .inr rfl⟩

/-- The host has taken bytes. -/
theorem Kept.inBytes {length : Nat}
    (kept : Kept g capacity image ⟨device, controller, .inform cbw, done⟩)
    (primed : device.msc.inRequest = some (.cmdBulkBuf, length)) :
    Kept g capacity image ⟨{ device with msc := device.msc.taken },
      { controller with inComplete := true },
      .status (.inform cbw) [] (device.msc.bytes length), done⟩ := by
  obtain ⟨handled, holding⟩ :=
    kept.held.settled_of_primed (.inr (by rw [primed]; exact Option.some_ne_none _))
  exact ⟨holding.inBytes handled primed, kept.answered,
    fun latched => absurd (kept.outNak latched).1 not_false, fun _ => .inr rfl⟩

/-- The host has taken the status, and the command is done. -/
theorem Kept.inStatus {call : HostCall S} {sectors : List S} {bytes : List Nat}
    (kept : Kept g capacity image ⟨device, controller, .status call sectors bytes, done⟩)
    (primed : device.msc.inRequest = some (.csw, cswSize)) :
    Kept g capacity image ⟨{ device with msc := device.msc.taken },
      { controller with inComplete := true }, .idle,
      (call, ⟨sectors, bytes, device.msc.csw⟩) :: done⟩ := by
  obtain ⟨handled, holding⟩ :=
    kept.held.settled_of_primed (.inr (by rw [primed]; exact Option.some_ne_none _))
  obtain ⟨held, answer⟩ := holding.inStatus handled
  exact ⟨held, ⟨answer, kept.answered⟩, fun latched => absurd (kept.outNak latched).1 not_false,
    fun _ => .inr rfl⟩

end Steps

/-- One step of the host, of a handler or of the main loop. -/
theorem Kept.step {world after : World S} (whole : g.sectorPerMpp ∣ capacity)
    (small : capacity < 2 ^ 32) (kept : Kept g capacity image world)
    (step : Step g capacity Timely world after) : Kept g capacity image after := by
  cases step with
  | starts conforms =>
      exact ⟨kept.held.starts conforms, kept.answered,
        fun latched => absurd (kept.outNak latched).1 not_false,
        fun latched => .inr ((kept.inNak latched).resolve_left not_false)⟩
  | outToken sends notPrimed =>
      exact ⟨kept.held.relatch rfl rfl, kept.answered, fun _ => ⟨sends, notPrimed⟩, kept.inNak⟩
  | inToken waits notPrimed =>
      exact ⟨kept.held.relatch rfl rfl, kept.answered, kept.outNak, fun _ => .inl waits⟩
  | outCommand primed => exact kept.outCommand primed
  | outData count primed left => exact kept.outData primed
  | inSectors primed => exact kept.inSectors primed
  | inBytes primed => exact kept.inBytes primed
  | inStatus primed => exact kept.inStatus primed
  | outDone late complete tokens handled =>
      obtain ⟨msc, run, notPrimed, held⟩ := kept.held.outDone whole small complete late
      rw [handled] at run
      cases run
      exact ⟨held, kept.answered,
        fun latched => ⟨(tokens latched).1, notPrimed (tokens latched).1⟩, kept.inNak⟩
  | inDone late complete tokens handled =>
      obtain ⟨msc, run, same, held⟩ := kept.held.inDone small complete late
      rw [handled] at run
      cases run
      refine ⟨held, kept.answered, fun latched => ?_, fun latched => .inl (tokens latched).1⟩
      obtain ⟨sends, notPrimed⟩ := kept.outNak latched
      exact ⟨sends, (same sends).trans notPrimed⟩
  | outNak latched allowed handled =>
      obtain ⟨sends, notPrimed⟩ := kept.outNak latched
      obtain ⟨msc, run, holding⟩ := (kept.held.holding allowed).outNak sends notPrimed
      rw [handled] at run
      cases run
      exact ⟨.settled allowed holding, kept.answered,
        fun latched => absurd latched Bool.false_ne_true, kept.inNak⟩
  | inNak latched allowed =>
      obtain ⟨handled, timely⟩ := allowed
      have waits := (kept.inNak latched).resolve_right fun complete => by
        rw [handled.2] at complete
        cases complete
      refine ⟨.settled handled ((kept.held.holding handled).inNak_timely waits timely),
        kept.answered, fun outLatched => ?_, fun latched => absurd latched Bool.false_ne_true⟩
      exact absurd (kept.outNak outLatched).1 (HostPhase.not_sends_of_waits waits)
  | task returned top waiting executed few =>
      obtain ⟨after', run, moved⟩ := kept.held.runTask returned top waiting
      rw [executed] at run
      cases run
      refine ⟨moved few, kept.answered, fun latched => ?_, kept.inNak⟩
      obtain ⟨sends, notPrimed⟩ := kept.outNak latched
      exact ⟨sends, (Device.runTask_outRequest executed).trans notPrimed⟩
  | tell told =>
      refine ⟨kept.held.tell told, kept.answered, fun latched => ?_, kept.inNak⟩
      obtain ⟨sends, notPrimed⟩ := kept.outNak latched
      refine ⟨sends, ?_⟩
      rcases told with pc | pc <;>
        · unfold Device.tell
          dsimp only
          rw [pc]
          exact notPrimed
  | advance next =>
      exact ⟨kept.held.advance next, kept.answered, kept.outNak, kept.inNak⟩

theorem MscRun.kept {world : World S} (whole : g.sectorPerMpp ∣ capacity)
    (small : capacity < 2 ^ 32) (run : MscRun g capacity Timely image world) :
    Kept g capacity image world := by
  induction run with
  | start started same =>
      rw [← same]
      exact started.kept
  | step run step kept => exact kept.step whole small step

end OpenNfm.Usb
