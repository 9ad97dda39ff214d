import OpenNfm.Ubi.HeldPages
import OpenNfm.Usb.Runs

/-!
# The layers below

The flat array of sectors below the main loop is what the sector layer has, when it gets the calls
of the transactions one after the other: over a correct store of pages it hands back the same.  The
buffers that the layers below have are the write buffer and those in `dice_hold`, one for each die.
-/

namespace OpenNfm.Usb

open OpenNfm.Program

variable {S : Type} {g : Geometry} {capacity : Nat}

/-! ## Calls of the main loop -/

namespace Device

/-- The call of the sector layer that the transaction in turn makes. -/
def onfmCall (device : Device S) : Option (OnfmCall S) :=
  let msc := device.msc
  let transaction := msc.utList msc.utPop
  match transaction.type, transaction.buffer with
  | .write, .bulkBuf (some buffer) =>
      some (.write transaction.offset transaction.length (msc.pbPool buffer))
  | .read, .readBulkBuf =>
      if msc.readBulkLen = 0 then
        some (.read transaction.offset transaction.length msc.readBulkBuf)
      else none
  | .merge, .bulkBuf (some buffer) =>
      if msc.mergeStage = .start then
        some (.read transaction.offset transaction.length (msc.pbPool buffer))
      else none
  | _, _ => none

/-- What the call has handed back, when the transaction has been executed. -/
def onfmAnswer (device after : Device S) : OnfmAnswer S :=
  let transaction := device.msc.utList device.msc.utPop
  match transaction.type, transaction.buffer with
  | .merge, .bulkBuf (some buffer) => .filled 0 (after.msc.pbPool buffer)
  | .read, _ => .filled 0 after.msc.readBulkBuf
  | _, _ => .written 0

variable {device after : Device S} {returned : List Nat} {calls : List (OnfmCall S)}

/-- A transaction makes its call on the array that the calls before it have left. -/
theorem runTask_onfmCall [Zero S] (executed : device.runTask returned = .ok after)
    (same : device.disk = sectorArray calls) :
    after.disk = sectorArray (device.onfmCall.toList ++ calls) ∧
      ∀ call, device.onfmCall = some call → device.onfmAnswer after = call.answer calls := by
  unfold runTask at executed
  unfold onfmCall onfmAnswer
  dsimp only at executed ⊢
  split at executed
  · rename_i isWrite
    split at executed
    · rename_i buffer isBuffer
      obtain rfl := Except.ok.inj executed
      simp only [isWrite, isBuffer]
      refine ⟨?_, fun call isCall => ?_⟩
      · show putSectors device.disk _ _ _ = _
        rw [same]
        rfl
      · obtain rfl := Option.some.inj isCall
        rfl
    · cases executed
  · rename_i isRead
    split at executed
    · rename_i empty
      split at executed
      · rename_i isBuffer
        obtain rfl := Except.ok.inj executed
        simp only [isRead, isBuffer, empty, if_true]
        refine ⟨same, fun call isCall => ?_⟩
        obtain rfl := Option.some.inj isCall
        rw [OnfmCall.answer, ← same]
      · cases executed
    · rename_i filled
      obtain rfl := Except.ok.inj executed
      cases isBuffer : (device.msc.utList device.msc.utPop).buffer <;>
        simp [isRead, filled, same]
  · rename_i isMerge
    split at executed
    · rename_i start
      split at executed
      · rename_i buffer isBuffer
        obtain rfl := Except.ok.inj executed
        simp only [isMerge, isBuffer, start, if_true, Function.update_self]
        refine ⟨same, fun call isCall => ?_⟩
        obtain rfl := Option.some.inj isCall
        rw [OnfmCall.answer, ← same]
      · cases executed
    · rename_i finished
      obtain rfl := Except.ok.inj executed
      rcases isBuffer : (device.msc.utList device.msc.utPop).buffer with _ | (_ | buffer) <;>
        simp [isMerge, finished, same]
  · cases executed

end Device

section Fits

variable {base image : Nat → S} {device : Device S} {heads last : List UsbTransaction}
  {writes : List PageWrite} {carried : Option Nat} {controller : Controller} {phase : HostPhase S}
  {call : OnfmCall S}

/-- The call of a page write. -/
theorem InHand.write_fits {write : PageWrite}
    (hand : InHand g capacity device heads (write :: writes) last carried image)
    (top : device.pc = .top) (isCall : device.onfmCall = some call) : call.Fits capacity := by
  have queued := hand.queued
  obtain rfl := queued.atTop top
  have first : device.msc.utList device.msc.utPop = write.task g := queued.holds.first
  have inRange := hand.inRange write List.mem_cons_self
  unfold Device.onfmCall at isCall
  simp only [first, PageWrite.task] at isCall
  obtain rfl := Option.some.inj isCall
  rw [Nat.succ_mul] at inRange
  exact inRange

/-- The call of a merge reads a page that the host writes. -/
theorem Writing.merge_fits {cbw : MscCbw} {data : Nat → S} {sent buffer : Nat}
    (whole : g.sectorPerMpp ∣ capacity) (writing : Writing g capacity device cbw data sent)
    (first : device.msc.utList device.msc.utPop = mergeTask g (cbw.addr + sent) buffer)
    (isCall : device.onfmCall = some call) : call.Fits capacity := by
  have inCapacity := writing.conforms.1.fits
  have more := writing.more
  have page := page_inRange whole (show cbw.addr + sent < capacity by omega)
  unfold Device.onfmCall at isCall
  simp only [first, mergeTask] at isCall
  split at isCall
  · obtain rfl := Option.some.inj isCall
    rw [Nat.succ_mul] at page
    exact page
  · cases isCall

/-- The call of a read is for sectors that the host waits for. -/
theorem Reading.read_fits {cbw : MscCbw} {got : Nat} (reading : Reading g capacity device cbw got)
    (first : device.msc.utList device.msc.utPop = readTask g (cbw.addr + got) (cbw.count - got))
    (isCall : device.onfmCall = some call) : call.Fits capacity := by
  have inCapacity := reading.conforms.1.fits
  have more := reading.more
  have part := chunk_le g (cbw.addr + got) (cbw.count - got)
  unfold Device.onfmCall at isCall
  simp only [first, readTask] at isCall
  split at isCall
  · obtain rfl := Option.some.inj isCall
    show cbw.addr + got + chunk g (cbw.addr + got) (cbw.count - got) ≤ capacity
    omega
  · cases isCall

theorem Holding.onfmCall_fits (whole : g.sectorPerMpp ∣ capacity)
    (holding : Holding g capacity base device phase) (top : device.pc = .top)
    (waiting : device.msc.utPop ≠ device.msc.utPush) (isCall : device.onfmCall = some call) :
    call.Fits capacity := by
  obtain ⟨heads, writes, last, carried, hand, inPhase⟩ := holding
  cases writes with
  | cons write rest => exact hand.write_fits top isCall
  | nil =>
      have holds := hand.queued.holds
      rw [hand.queued.atTop top] at holds
      have notEmpty : last ≠ [] := by
        rintro rfl
        exact waiting (holds.isEmpty_iff.mpr rfl)
      cases phase with
      | idle => exact absurd inPhase.1.last notEmpty
      | command call => exact absurd inPhase.2.1.last notEmpty
      | inform cbw => exact absurd inPhase.1 notEmpty
      | status call sectors bytes => exact absurd inPhase.1 notEmpty
      | dataOut cbw data sent =>
          obtain ⟨writing, filling⟩ := inPhase
          cases filling with
          | merging => exact writing.merge_fits whole holds.first isCall
          | free => exact absurd rfl notEmpty
          | merged => exact absurd rfl notEmpty
          | ready => exact absurd rfl notEmpty
          | primed => exact absurd rfl notEmpty
      | dataIn cbw received =>
          obtain ⟨_, reading, _, fetching⟩ := inPhase
          cases fetching with
          | logged => exact reading.read_fits holds.first isCall
          | read => exact absurd rfl notEmpty
          | ready => exact absurd rfl notEmpty
          | primed => exact absurd rfl notEmpty

/-- In front of a transaction, its call is inside the capacity. -/
theorem Held.onfmCall_fits (whole : g.sectorPerMpp ∣ capacity)
    (held : Held g capacity base device controller phase) (top : device.pc = .top)
    (waiting : device.msc.utPop ≠ device.msc.utPush) (isCall : device.onfmCall = some call) :
    call.Fits capacity := by
  cases held with
  | settled handled holding => exact holding.onfmCall_fits whole top waiting isCall
  | @pending heads writes carried image hand pending =>
      cases writes with
      | cons write rest => exact hand.write_fits top isCall
      | nil =>
          refine absurd (hand.queued.holds.isEmpty_iff.mpr ?_) waiting
          rw [hand.queued.atTop top]
          rfl

end Fits

/-! ## Runs over the sector layer -/

/-- The call of a step of the main loop, with what it has handed back. -/
def World.asked (world after : World S) : List (OnfmCall S × OnfmAnswer S) :=
  if world.device.pc = .top ∧ after.device.pc ≠ .top then
    (world.device.onfmCall.map fun call => (call, world.device.onfmAnswer after.device)).toList
  else []

/-- The worlds that are reached from a device with these sectors, with the calls of the sector layer
on the way there, the last one first. -/
inductive LayerRun (g : Geometry) (capacity : Nat) (rule : NakRule S) (image : Nat → S) :
    World S → List (OnfmCall S × OnfmAnswer S) → Prop
  | start {device : Device S} (started : Started g capacity device) (same : device.disk = image) :
      LayerRun g capacity rule image ⟨device, .quiet, .idle, []⟩ []
  | step {world after : World S} {calls : List (OnfmCall S × OnfmAnswer S)}
      (run : LayerRun g capacity rule image world calls)
      (step : Step g capacity rule world after) :
      LayerRun g capacity rule image after (world.asked after ++ calls)

variable {rule : NakRule S} {image : Nat → S} {world after : World S}
  {calls : List (OnfmCall S × OnfmAnswer S)}

theorem LayerRun.mscRun (run : LayerRun g capacity rule image world calls) :
    MscRun g capacity rule image world := by
  induction run with
  | start started same => exact .start started same
  | step run step ih => exact ih.step step

theorem MscRun.layerRun (run : MscRun g capacity rule image world) :
    ∃ calls, LayerRun g capacity rule image world calls := by
  induction run with
  | start started same => exact ⟨[], .start started same⟩
  | step run step ih =>
      obtain ⟨calls, ih⟩ := ih
      exact ⟨_, ih.step step⟩

/-- Each call was answered by the array that the calls before it have left. -/
def ArrayAnswers [Zero S] : List (OnfmCall S × OnfmAnswer S) → Prop
  | [] => True
  | (call, answer) :: earlier =>
      answer = call.answer (earlier.map Prod.fst) ∧ ArrayAnswers earlier

/-- The sectors are those of the calls, which are inside the capacity. -/
structure CallsMade [Zero S] (capacity : Nat) (disk : Nat → S)
    (calls : List (OnfmCall S × OnfmAnswer S)) : Prop where
  disk : disk = sectorArray (calls.map Prod.fst)
  answers : ArrayAnswers calls
  fits : ∀ call ∈ calls.map Prod.fst, call.Fits capacity

theorem World.asked_of_same (same : after.device.pc = world.device.pc) :
    world.asked after = [] := by
  refine if_neg fun moved => ?_
  exact moved.2 (same.trans moved.1)

theorem World.asked_of_notTop (notTop : world.device.pc ≠ .top) : world.asked after = [] :=
  if_neg fun moved => notTop moved.1

theorem Device.runTask_pc {device after : Device S} {returned : List Nat}
    (executed : device.runTask returned = .ok after) : after.pc ≠ .top := by
  unfold Device.runTask at executed
  dsimp only at executed
  split at executed
  · split at executed
    · obtain rfl := Except.ok.inj executed
      exact TaskPc.noConfusion
    · cases executed
  · split at executed
    · split at executed
      · obtain rfl := Except.ok.inj executed
        exact TaskPc.noConfusion
      · cases executed
    · obtain rfl := Except.ok.inj executed
      exact TaskPc.noConfusion
  · split at executed
    · split at executed
      · obtain rfl := Except.ok.inj executed
        exact TaskPc.noConfusion
      · cases executed
    · obtain rfl := Except.ok.inj executed
      exact TaskPc.noConfusion
  · cases executed

theorem Device.tell_disk (g : Geometry) (device : Device S) :
    (device.tell g).disk = device.disk := by
  unfold Device.tell
  dsimp only
  split <;> rfl

section Calls

variable [Zero S]

/-- A step that is no transaction makes no call. -/
theorem CallsMade.same (made : CallsMade capacity world.device.disk calls)
    (samePc : after.device.pc = world.device.pc)
    (sameDisk : after.device.disk = world.device.disk) :
    CallsMade capacity after.device.disk (world.asked after ++ calls) := by
  rw [World.asked_of_same samePc, sameDisk]
  exact made

/-- Only a transaction makes a call, and its call is answered by the array. -/
theorem CallsMade.step (whole : g.sectorPerMpp ∣ capacity)
    (made : CallsMade capacity world.device.disk calls) (kept : Kept g capacity image world)
    (step : Step g capacity rule world after) :
    CallsMade capacity after.device.disk (world.asked after ++ calls) := by
  cases step with
  | task returned top waiting executed few =>
      rename_i device after' controller phase done
      obtain ⟨disk, answered⟩ := Device.runTask_onfmCall executed made.disk
      have asked : World.asked ⟨device, controller, phase, done⟩ ⟨after', controller, phase, done⟩ =
          (device.onfmCall.map fun call => (call, device.onfmAnswer after')).toList :=
        if_pos ⟨top, Device.runTask_pc executed⟩
      rw [asked]
      cases isCall : device.onfmCall with
      | none =>
          rw [isCall] at disk
          exact ⟨disk, made.answers, made.fits⟩
      | some call =>
          rw [isCall] at disk
          refine ⟨disk, ⟨answered call isCall, made.answers⟩, fun other listed => ?_⟩
          rcases List.mem_cons.mp listed with rfl | earlier
          · exact kept.held.onfmCall_fits whole top waiting isCall
          · exact made.fits other earlier
  | tell told =>
      rename_i device controller phase done
      have notTop : device.pc ≠ .top := by
        rcases told with pc | pc <;> rw [pc] <;> exact TaskPc.noConfusion
      rw [World.asked_of_notTop notTop]
      show CallsMade capacity (device.tell g).disk calls
      rw [Device.tell_disk]
      exact made
  | advance next =>
      rename_i device controller phase done
      have notTop : device.pc ≠ .top := by
        rw [next]
        exact TaskPc.noConfusion
      rw [World.asked_of_notTop notTop]
      exact made
  | starts | outToken | inToken | outCommand | outData | inSectors | inBytes | inStatus | outDone
  | inDone | outNak | inNak =>
      exact made.same rfl rfl

theorem LayerRun.callsMade (whole : g.sectorPerMpp ∣ capacity) (small : capacity < 2 ^ 32)
    (run : LayerRun g capacity Timely (fun _ => 0) world calls) :
    CallsMade capacity world.device.disk calls := by
  induction run with
  | start started same => exact ⟨same, trivial, fun call listed => absurd listed List.not_mem_nil⟩
  | step run step ih => exact ih.step whole (run.mscRun.kept whole small) step

/-- The answers of the array in the order of the calls. -/
theorem onfmAnswers_of_arrayAnswers (answers : ArrayAnswers calls) :
    onfmAnswers [] (calls.map Prod.fst).reverse = (calls.map Prod.snd).reverse := by
  induction calls with
  | nil => rfl
  | cons entry earlier ih =>
      obtain ⟨call, answer⟩ := entry
      obtain ⟨isAnswer, answers⟩ := answers
      rw [List.map_cons, List.map_cons, List.reverse_cons, List.reverse_cons, onfmAnswers_concat,
        ih answers, List.reverse_reverse, List.append_nil, isAnswer]

/-- Over a correct store of pages, the sector layer hands back what the main loop has got for the
same calls, and the store then has the sectors. -/
theorem layerRun_onStore {pageCount : Nat} {ram : OnfmRam S} {releases : List (List Nat)}
    (small : pageCount * g.sectorPerMpp ≤ allOnes) (starting : ram.startingSector = invalidLsaddr)
    (run : LayerRun g (pageCount * g.sectorPerMpp) Timely (fun _ => 0) world calls) :
    ∃ ram' store', ((onfmSession g (calls.map Prod.fst).reverse).run ram).exec
        (storeMachine g pageCount) ⟨fun _ _ => 0, [], releases⟩ =
          .ok (((calls.map Prod.snd).reverse, ram'), store') ∧
      ∀ sector, store'.pages (sector / g.sectorPerMpp) (sector % g.sectorPerMpp) =
        world.device.disk sector := by
  have isWord : pageCount * g.sectorPerMpp < 2 ^ 32 := by
    unfold allOnes at small
    omega
  have made := run.callsMade (Nat.dvd_mul_left _ _) isWord
  obtain ⟨ram', store', exec, ready⟩ := exec_onfmSession (calls.map Prod.fst).reverse starting small
    fun call listed => made.fits call (List.mem_reverse.mp listed)
  rw [onfmAnswers_of_arrayAnswers made.answers] at exec
  refine ⟨ram', store', exec, fun sector => ?_⟩
  rw [← ready.writes.image_eq sector, List.reverse_reverse, made.disk]

end Calls

/-! ## Buffers of the layers below -/

/-- The layers below have the write buffer and one buffer for each die at most. -/
theorem below_length_le {D : Type} (writeBuffer : Option Nat) (ubi : UbiRam D) :
    (writeBuffer.toList ++ heldBuffers g ubi).length ≤ g.totalDieCount + 1 := by
  have held : (heldBuffers g ubi).length ≤ g.totalDieCount := by
    calc (heldBuffers g ubi).length
        ≤ ((List.range g.totalDieCount).filterMap fun die =>
          (ubi.diceHold die).heldAddress).length :=
            List.length_filter_le _ _
      _ ≤ (List.range g.totalDieCount).length := List.length_filterMap_le _ _
      _ = g.totalDieCount := List.length_range
  have write : writeBuffer.toList.length ≤ 1 := by
    cases writeBuffer with
    | none => exact Nat.zero_le 1
    | some buffer => exact Nat.le_refl 1
  rw [List.length_append]
  omega

end OpenNfm.Usb
