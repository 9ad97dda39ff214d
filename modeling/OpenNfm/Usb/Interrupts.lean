import OpenNfm.Usb.Correctness

/-!
# The interrupt service routine

A call of `USB_ISR` that nothing interrupts takes the steps of the handlers that it calls, in an
order that the runs allow. It does not keep the rule that the handler of a token finds nothing
primed over the data of an earlier read.
-/

namespace OpenNfm.Usb

open OpenNfm.Program

variable {S : Type} {g : Geometry} {capacity : Nat} {image : Nat → S} {rule : NakRule S}
  {device : Device S} {controller controller' : Controller} {phase : HostPhase S}
  {done : List (HostCall S × HostAnswer S)} {msc : Msc S}

/-! ## Steps of the routine -/

theorem exists_of_bind_eq_ok {α β : Type} {first : Except Halt α} {rest : α → Except Halt β}
    {value : β} (run : (first >>= rest) = .ok value) :
    ∃ middle, first = .ok middle ∧ rest middle = .ok value := by
  cases first with
  | error halt => cases run
  | ok middle => exact ⟨middle, rfl, run⟩

/-- The handlers of the transfers that are complete take steps. -/
theorem MscRun.transfers
    (run : MscRun g capacity rule image ⟨device, controller, phase, done⟩)
    (isr : controller.transfers.foldlM (usbEndPoint1 g) device.msc = .ok msc) :
    MscRun g capacity rule image ⟨{ device with msc := msc },
      { controller.acknowledge with outComplete := none, inComplete := false }, phase, done⟩ := by
  have noToken : ∀ {P : Prop}, false = true → P := fun wrong => absurd wrong Bool.false_ne_true
  obtain ⟨out, inward, outNak, inNak⟩ := controller
  rw [Controller.transfers, List.foldlM_append] at isr
  obtain ⟨between, outRun, inRun⟩ := exists_of_bind_eq_ok isr
  have middle : MscRun g capacity rule image ⟨{ device with msc := between },
      ⟨none, inward, outNak && out.isNone, inNak⟩, phase, done⟩ := by
    cases out with
    | none =>
        cases outRun
        rw [Option.isNone_none, Bool.and_true]
        exact run
    | some received =>
        obtain ⟨after, outRun, same⟩ := exists_of_bind_eq_ok outRun
        cases same
        rw [Option.isNone_some, Bool.and_false]
        exact run.step (.outDone false rfl noToken outRun)
  dsimp only [Controller.acknowledge]
  cases inward with
  | false =>
      cases inRun
      rw [Bool.not_false, Bool.and_true]
      exact middle
  | true =>
      obtain ⟨after, inRun, same⟩ := exists_of_bind_eq_ok inRun
      cases same
      rw [Bool.not_true, Bool.and_false]
      exact middle.step (.inDone false rfl noToken inRun)

/-- The handlers of the tokens take steps. -/
theorem MscRun.tokens (run : MscRun g capacity Ordered image ⟨device, controller, phase, done⟩)
    (handled : controller.Handled)
    (isr : controller.tokens.foldlM (usbEndPoint1 g) device.msc = .ok msc) :
    MscRun g capacity Ordered image ⟨{ device with msc := msc }, .quiet, phase, done⟩ := by
  obtain ⟨out, inward, outNak, inNak⟩ := controller
  obtain ⟨rfl, rfl⟩ := handled
  rw [Controller.tokens, List.foldlM_append] at isr
  obtain ⟨between, outRun, inRun⟩ := exists_of_bind_eq_ok isr
  have middle : MscRun g capacity Ordered image ⟨{ device with msc := between },
      ⟨none, false, false, inNak⟩, phase, done⟩ := by
    cases outNak with
    | false =>
        cases outRun
        exact run
    | true =>
        obtain ⟨after, outRun, same⟩ := exists_of_bind_eq_ok outRun
        cases same
        exact run.step (.outNak rfl ⟨rfl, rfl⟩ outRun)
  cases inNak with
  | false =>
      cases inRun
      exact middle
  | true =>
      cases inRun
      exact middle.step (.inNak rfl ⟨rfl, rfl⟩)

/-- A call of `USB_ISR` that nothing interrupts takes steps, and comes to the tokens behind the
transfers that are complete. -/
theorem MscRun.usbIsr (run : MscRun g capacity Ordered image ⟨device, controller, phase, done⟩)
    (naki : Bool)
    (isr : usbIsr g naki device.msc controller = .ok (msc, controller')) :
    MscRun g capacity Ordered image ⟨{ device with msc := msc }, controller', phase, done⟩ := by
  obtain ⟨between, transfers, isr⟩ := exists_of_bind_eq_ok isr
  have run := run.transfers transfers
  cases naki with
  | false =>
      cases isr
      exact run
  | true =>
      obtain ⟨after, tokens, same⟩ := exists_of_bind_eq_ok isr
      cases same
      exact run.tokens ⟨rfl, rfl⟩ tokens


/-! ## Data in the place of a status -/

/-- A host that waits for the status is supplied with nothing else. -/
theorem Supplies.source_eq_csw {source : InSource} {length : Nat} {call : HostCall S}
    {sectors : List S} {bytes : List Nat} (supplies : Supplies g phase source length)
    (here : phase = .status call sectors bytes) : source = .csw := by
  cases supplies with
  | sectors positive inBuffer left => cases here
  | bytes asked => cases here
  | status => rfl

theorem readOneCbw_inRange : (blocksCbw scsiRead10 0x80 8 15 1).InRange simNand 64 :=
  ⟨⟨rfl, rfl, ⟨Nat.le_add_left 1 9, Nat.le_add_right 10 6⟩, blocksCbw_bytes (by decide)⟩, by decide,
    by decide, rfl, by decide⟩

/-- The rule is needed.  A sector is read, and then the host asks whether the device is ready.  It
waits for the status before the wrapper is handled, and so one call of `USB_ISR` primes the status
and then the sector of the earlier read. -/
theorem mscRun_overprimes : ∃ world : World Nat, MscRun simNand 64 Ordered (fun _ => 0) world ∧
    world.device.msc.inRequest = some (.readBulkBuf, 512) ∧ ¬ Served simNand world := by
  have read : (HostCall.read (blocksCbw scsiRead10 0x80 8 15 1) : HostCall Nat).Conforms
    simNand 64 := ⟨readOneCbw_inRange, .inl rfl, rfl⟩
  have asked : (HostCall.plain (blocksCbw scsiTestUnitReady 0x80 9 0 0) : HostCall Nat).Conforms
    simNand 64 := ⟨rfl, rfl⟩
  have run : MscRun simNand 64 Ordered (fun _ => 0) _ := .start (cold_started 64) rfl
  have run := run.step (.starts read)
  have run := (run.step (.outToken trivial rfl)).usbIsr true rfl
  have run := (run.step (.outCommand rfl)).usbIsr true rfl
  have run := run.step (.task [] rfl (by decide) rfl (by decide))
  have run := run.step (.tell (.inl rfl))
  have run := run.step (.advance rfl)
  have run := (run.step (.inToken trivial rfl)).usbIsr true rfl
  have run := (run.step (.inSectors rfl)).usbIsr true rfl
  have run := (run.step (.inStatus rfl)).usbIsr true rfl
  have run := run.step (.starts asked)
  have run := (run.step (.outToken trivial rfl)).usbIsr true rfl
  have run := run.step (.outCommand rfl)
  have run := (run.step (.inToken trivial rfl)).usbIsr true rfl
  refine ⟨_, run, rfl, fun served => ?_⟩
  cases (served.inward .readBulkBuf 512 rfl).source_eq_csw rfl

end OpenNfm.Usb
