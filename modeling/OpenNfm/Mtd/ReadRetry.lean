import OpenNfm.Mtd.Simulated

/-!
# Reading again after an error

`MTD_Read` on a device whose reads fail for a while.  Each plane of each attempt is read
right, or with an error that the code corrects, or with one that it cannot correct; in the
last case the memory of the caller gets other bytes and the attempt is given up.  The place
in that memory moves on with each plane that is read and is not set back for the next
attempt.
-/

namespace OpenNfm.Mtd

open OpenNfm.Program Geometry

/-- How a plane is read. -/
inductive ReadResult where
  | right
  | corrected
  | wrong (mainData : Memory) (spareData : Spare)

/-- The ECC can correct what the read gave. -/
def ReadResult.good : ReadResult → Bool
  | .wrong _ _ => false
  | _ => true

/-- The simulated device, the number of attempts that have begun, and whether the last error
was corrected. -/
structure Flaky where
  sim : SimNand
  attempts : Nat
  corrected : Bool

/-- What each plane of each attempt at a page is read as. -/
abbrev ReadErrors := Nat → Nat → ReadResult

/-- The device with read errors.  An attempt begins with the first plane. -/
def flakyMachine (g : Geometry) (errors : ReadErrors) : Machine NandOp NandAns Flaky
  | state, .receiveData =>
      match simMachine g state.sim .receiveData with
      | .error reason => .error reason
      | .ok ((status, mainData, spareData), sim) =>
          let plane := state.sim.rowAddr / g.pagePerPhyBlock % g.planePerDie
          let attempts := if plane = 0 then state.attempts + 1 else state.attempts
          match errors (attempts - 1) plane with
          | .right => .ok ((status, mainData, spareData), ⟨sim, attempts, false⟩)
          | .corrected => .ok ((.failure, mainData, spareData), ⟨sim, attempts, true⟩)
          | .wrong mainData spareData =>
              .ok ((.failure, mainData, spareData), ⟨sim, attempts, false⟩)
  | state, .eccStatus => .ok (state.corrected, state)
  | state, .selectChip chip => (simMachine g state.sim (.selectChip chip)).map fun result =>
      (result.1, { state with sim := result.2 })
  | state, .sendCmd cmd => (simMachine g state.sim (.sendCmd cmd)).map fun result =>
      (result.1, { state with sim := result.2 })
  | state, .sendAddr col row => (simMachine g state.sim (.sendAddr col row)).map fun result =>
      (result.1, { state with sim := result.2 })
  | state, .sendData buffer spare => (simMachine g state.sim (.sendData buffer spare)).map
      fun result => (result.1, { state with sim := result.2 })
  | state, .receiveBytes len => (simMachine g state.sim (.receiveBytes len)).map fun result =>
      (result.1, { state with sim := result.2 })
  | state, .waitRb chip => (simMachine g state.sim (.waitRb chip)).map fun result =>
      (result.1, { state with sim := result.2 })

/-! ## What the code does to the memory of the caller -/

section Effect

variable (g : Geometry) (content : Page Memory) (errors : ReadErrors)

/-- The bytes of one plane of a page. -/
def planeData (plane : Nat) : Memory :=
  fun i => content.main (plane * g.pageSize + i)

/-- One attempt. -/
def attemptEffect (attempt : Nat) : List Nat → ReadBuffers → Status × ReadBuffers
  | [], bufs => (.success, bufs)
  | plane :: rest, bufs =>
      match errors attempt plane with
      | .wrong mainData spareData => (.failure, bufs.receive g mainData spareData)
      | _ =>
          attemptEffect attempt rest
            ((bufs.receive g (planeData g content plane) content.spare).advance g)

/-- The attempts that are left, from one attempt on. -/
def attemptsEffect : Nat → Nat → ReadBuffers → Status × ReadBuffers
  | 0, _, bufs => (.success, bufs)
  | left + 1, attempt, bufs =>
      let result := attemptEffect g content errors attempt (List.range g.planePerDie) bufs
      if result.1 = .failure ∧ left ≠ 0 then attemptsEffect left (attempt + 1) result.2 else result

/-- The whole page, read to the place of the next page in memory. -/
def ReadBuffers.whole (bufs : ReadBuffers) : ReadBuffers where
  buffer := bufs.buffer.map fun memory => memcpy memory bufs.offset content.main g.mppSize
  offset := bufs.offset + g.mppSize
  spare := bufs.spare.map fun _ => content.spare

end Effect

/-! ## The device -/

section Bus

variable {g : Geometry} {errors : ReadErrors} {ram : MtdRam} {state : Flaky}

theorem flaky_selectChip {chip : Nat} {post : Unit → MtdRam → Flaky → Prop} :
    Code.wp (flakyMachine g errors) (fun _ => True) (nandSelectChip chip) post ram state ↔
      post () ram { state with sim := { state.sim with chip := chip } } := by
  refine (Code.wp_perform_of_step rfl).trans ?_
  simp only [true_and]

theorem flaky_sendCmd {cmd : NandCmd} {post : Unit → MtdRam → Flaky → Prop} :
    Code.wp (flakyMachine g errors) (fun _ => True) (nandSendCmd cmd) post ram state ↔
      post () ram { state with sim := state.sim.sendCmd cmd } := by
  refine (Code.wp_perform_of_step rfl).trans ?_
  simp only [true_and]

theorem flaky_waitRb {chip : Nat} {post : Unit → MtdRam → Flaky → Prop} :
    Code.wp (flakyMachine g errors) (fun _ => True) (nandWaitRb chip) post ram state ↔
      post () ram state := by
  refine (Code.wp_perform_of_step rfl).trans ?_
  simp only [true_and]

theorem flaky_eccStatus {post : Bool → MtdRam → Flaky → Prop} :
    Code.wp (flakyMachine g errors) (fun _ => True) nandEccStatus post ram state ↔
      post state.corrected ram state := by
  refine (Code.wp_perform_of_step rfl).trans ?_
  simp only [true_and]

theorem flaky_sendAddr {col row : Nat} {post : Unit → MtdRam → Flaky → Prop}
    (other : state.sim.state ≠ .erase) :
    Code.wp (flakyMachine g errors) (fun _ => True) (nandSendAddr col row) post ram state ↔
      post () ram { state with sim := { state.sim with colAddr := col, rowAddr := row } } := by
  have step : flakyMachine g errors state (.sendAddr col row) =
      .ok ((), { state with sim := { state.sim with colAddr := col, rowAddr := row } }) := by
    simp only [flakyMachine, simMachine, if_neg other, Except.map]
  refine (Code.wp_perform_of_step step).trans ?_
  simp only [true_and]

/-- A plane of a programmed page is received as the attempt has it. -/
theorem flaky_receiveData {column : SimColumn} {attempt plane : Nat}
    {post : Status × Memory × Spare → MtdRam → Flaky → Prop} (reading : state.sim.state = .read)
    (isChip : state.sim.chip < g.chipCount) (inRange : state.sim.rowAddr < g.cfgNandRowCount)
    (isColumn : state.sim.simNand state.sim.chip state.sim.rowAddr = column)
    (programmed : column.state = .programmed)
    (isPlane : state.sim.rowAddr / g.pagePerPhyBlock % g.planePerDie = plane)
    (begun : state.attempts = if plane = 0 then attempt else attempt + 1)
    (right : errors attempt plane = .right →
      post (.success, column.mainData, column.spareData) ram ⟨state.sim, attempt + 1, false⟩)
    (corrected : errors attempt plane = .corrected →
      post (.failure, column.mainData, column.spareData) ram ⟨state.sim, attempt + 1, true⟩)
    (wrong : ∀ mainData spareData, errors attempt plane = .wrong mainData spareData →
      post (.failure, mainData, spareData) ram ⟨state.sim, attempt + 1, false⟩) :
    Code.wp (flakyMachine g errors) (fun _ => True) nandReceiveData post ram state := by
  have device : simMachine g state.sim .receiveData =
      .ok ((.success, column.mainData, column.spareData), state.sim) := by
    simp only [simMachine, reading, isChip, inRange, isColumn, true_or, and_self, if_true,
      programmed, reduceCtorEq, if_false]
    rw [← reading]
  have count : (if plane = 0 then state.attempts + 1 else state.attempts) = attempt + 1 := by
    rw [begun]
    split <;> rfl
  cases result : errors attempt plane with
  | right =>
      have step : flakyMachine g errors state .receiveData =
          .ok ((.success, column.mainData, column.spareData), ⟨state.sim, attempt + 1, false⟩) := by
        simp only [flakyMachine, device, isPlane, count, Nat.add_sub_cancel, result]
      exact (Code.wp_perform_of_step step).mpr ⟨trivial, trivial, right result⟩
  | corrected =>
      have step : flakyMachine g errors state .receiveData =
          .ok ((.failure, column.mainData, column.spareData), ⟨state.sim, attempt + 1, true⟩) := by
        simp only [flakyMachine, device, isPlane, count, Nat.add_sub_cancel, result]
      exact (Code.wp_perform_of_step step).mpr ⟨trivial, trivial, corrected result⟩
  | wrong mainData spareData =>
      have step : flakyMachine g errors state .receiveData =
          .ok ((.failure, mainData, spareData), ⟨state.sim, attempt + 1, false⟩) := by
        simp only [flakyMachine, device, isPlane, count, Nat.add_sub_cancel, result]
      exact (Code.wp_perform_of_step step).mpr ⟨trivial, trivial, wrong _ _ result⟩

theorem row_plane {block plane page : Nat} (width : g.rowWidth < 32)
    (isBlock : block < g.cfgLogBlockCount) (isPlane : plane < g.planePerDie)
    (isPage : page < g.pagePerPhyBlock) :
    g.mtdRowAddress block plane page / g.pagePerPhyBlock % g.planePerDie = plane := by
  have pos := g.pagePerPhyBlock_pos
  have row : g.mtdRowAddress block plane page =
      g.pagePerPhyBlock * (g.planePerDie * g.transPhyBlock block + plane) + page := by
    rw [mtdRowAddress_eq width isBlock isPlane isPage, blockRow]
    ring
  rw [row, Nat.mul_add_div pos, Nat.div_eq_of_lt isPage, Nat.add_zero, Nat.mul_add_mod,
    Nat.mod_eq_of_lt isPlane]

theorem receive_congr {bufs : ReadBuffers} {first second : Memory} (spare : Spare)
    (same : ∀ i < g.pageSize, first i = second i) :
    bufs.receive g first spare = bufs.receive g second spare := by
  obtain ⟨buffer, offset, spare⟩ := bufs
  have copied : ∀ memory, memcpy memory offset first g.pageSize =
      memcpy memory offset second g.pageSize := by
    intro memory
    funext i
    unfold memcpy
    split
    · exact same _ (by omega)
    · rfl
  simp only [ReadBuffers.receive, copied]

end Bus

section Reading

variable {g : Geometry} {errors : ReadErrors} {ram : MtdRam} {state : Flaky} {block page : Nat}
  {content : Page Memory} {post : Status × ReadBuffers → MtdRam → Flaky → Prop}

/-- The columns hold the page. -/
def PageHolds (g : Geometry) (state : Flaky) (block page : Nat) (content : Page Memory) : Prop :=
  ∀ plane < g.planePerDie, ColumnHolds g plane
    (state.sim.simNand (g.mtdChipNum block) (g.mtdRowAddress block plane page)) (some content)

theorem wp_readPlanes_flaky (attempt : Nat) {plane count : Nat} {bufs : ReadBuffers}
    (width : g.rowWidth < 32) (isBlock : block < g.cfgLogBlockCount)
    (isPage : page < g.pagePerPhyBlock) (planes : plane + count = g.planePerDie)
    (holds : PageHolds g state block page content)
    (begun : state.attempts = if plane = 0 then attempt else attempt + 1)
    (meets : ∀ state', PageHolds g state' block page content →
      state'.attempts = attempt + 1 →
      post (attemptEffect g content errors attempt (List.range' plane count) bufs) ram state') :
    Code.wp (flakyMachine g errors) (fun _ => True)
      (readPlanes g block page (List.range' plane count) bufs) post ram state := by
  induction count generalizing plane bufs state with
  | zero =>
      have pos := g.planePerDie_pos
      rw [if_neg (by omega)] at begun
      exact ⟨trivial, meets state holds begun⟩
  | succ count ih =>
      have isPlane : plane < g.planePerDie := by omega
      obtain ⟨programmed, spare, main⟩ := holds plane isPlane
      have inRange := mtdRowAddress_lt width isBlock isPlane isPage
      have received : bufs.receive g (state.sim.simNand (g.mtdChipNum block)
            (g.mtdRowAddress block plane page)).mainData (state.sim.simNand (g.mtdChipNum block)
            (g.mtdRowAddress block plane page)).spareData =
          bufs.receive g (planeData g content plane) content.spare := by
        rw [spare]
        exact receive_congr content.spare main
      rw [List.range'_succ] at meets ⊢
      have next : attemptEffect g content errors attempt
            (plane :: List.range' (plane + 1) count) bufs =
          attemptEffect g content errors attempt (List.range' (plane + 1) count)
            ((bufs.receive g (planeData g content plane) content.spare).advance g) →
          ∀ corrected : Bool, Code.wp (flakyMachine g errors) (fun _ => True)
            (readPlanes g block page (List.range' (plane + 1) count)
              ((bufs.receive g (planeData g content plane) content.spare).advance g)) post ram
            ⟨{ state.sim with
              chip := g.mtdChipNum block, state := .read, colAddr := 0
              rowAddr := g.mtdRowAddress block plane page }, attempt + 1, corrected⟩ := by
        intro effect corrected
        refine ih (by omega) holds (if_neg (Nat.succ_ne_zero plane)).symm
          fun state' holds' count' => ?_
        rw [← effect]
        exact meets state' holds' count'
      simp only [readPlanes, Code.wp_bind, flaky_selectChip, flaky_sendCmd, SimNand.sendCmd]
      rw [flaky_sendAddr (by simp)]
      simp only [flaky_waitRb]
      refine flaky_receiveData rfl (g.mtdChipNum_lt block) inRange rfl programmed
        (row_plane width isBlock isPlane isPage) begun ?_ ?_ ?_
      · intro result
        simp only [if_true]
        rw [received]
        exact next (by simp only [attemptEffect, result]) false
      · intro result
        simp only [reduceCtorEq, if_false, Code.wp_bind, flaky_eccStatus, if_true]
        rw [received]
        exact next (by simp only [attemptEffect, result]) true
      · intro mainData spareData result
        simp only [reduceCtorEq, if_false, Code.wp_bind, flaky_eccStatus, Bool.false_eq_true]
        have effect : attemptEffect g content errors attempt
            (plane :: List.range' (plane + 1) count) bufs =
            (.failure, bufs.receive g mainData spareData) := by
          simp only [attemptEffect, result]
        rw [effect] at meets
        exact ⟨trivial, meets _ holds rfl⟩

/-- The attempts have the stated effect. -/
theorem wp_readAttempts_flaky {left attempt : Nat} {bufs : ReadBuffers}
    (width : g.rowWidth < 32) (isBlock : block < g.cfgLogBlockCount)
    (isPage : page < g.pagePerPhyBlock) (holds : PageHolds g state block page content)
    (begun : state.attempts = attempt)
    (meets : ∀ state', post (attemptsEffect g content errors left attempt bufs) ram state') :
    Code.wp (flakyMachine g errors) (fun _ => True) (readAttempts g block page left bufs) post ram
      state := by
  induction left generalizing attempt bufs state with
  | zero => exact ⟨trivial, meets state⟩
  | succ left ih =>
      rw [readAttempts, Code.wp_bind, List.range_eq_range']
      refine wp_readPlanes_flaky attempt width isBlock isPage (Nat.zero_add _) holds
        begun fun state' holds' count => ?_
      rw [attemptsEffect, List.range_eq_range'] at meets
      dsimp only at meets ⊢
      split
      · rename_i again
        rw [if_pos again] at meets
        exact ih holds' count meets
      · rename_i finished
        rw [if_neg finished] at meets
        exact ⟨trivial, meets state'⟩

/-- Without the test engine, the die is ready. -/
theorem flaky_waitReady {fuel : Nat} {post : Status → MtdRam → Flaky → Prop} (pos : 0 < fuel)
    (isBlock : block < g.cfgLogBlockCount)
    (meets : post .success testReset { state with sim :=
      { state.sim with chip := g.mtdChipNum block, state := .readStatus } }) :
    Code.wp (flakyMachine g errors) (fun _ => True) (waitReady g fuel block) post testReset
      state := by
  obtain ⟨fuel, rfl⟩ := Nat.exists_eq_succ_of_ne_zero pos.ne'
  have polled : { state.sim with chip := g.mtdChipNum block }.sendCmd (dieStatus g block) =
      { state.sim with chip := g.mtdChipNum block, state := .readStatus } := by
    unfold dieStatus
    split
    · rfl
    · split <;> rfl
  have answered : flakyMachine g errors { state with sim :=
        { state.sim with chip := g.mtdChipNum block, state := .readStatus } } (.receiveBytes 1) =
      .ok (fun _ => simNandStatus ||| nandStatusReadyBit, { state with sim :=
        { state.sim with chip := g.mtdChipNum block, state := .readStatus } }) := rfl
  have idle : ¬ (testReset.simTestCurrent = testReset.simTestTarget ∧
      (testReset.simTestMode = .plr ∨ testReset.simTestMode = .bbr)) := by decide
  have waiting : ¬ (testReset.simTestCurrent < testReset.simTestTarget ∧
      (testReset.simTestMode = .plr ∨ testReset.simTestMode = .bbr)) := by decide
  simp only [waitReady, readStatus, readStatusByte, Code.wp_bind, Code.wp_assert, Code.wp_get, idle,
    waiting, if_false, flaky_selectChip, flaky_sendCmd, polled]
  refine ⟨isBlock, trivial, isBlock, trivial, trivial, ?_⟩
  refine (Code.wp_perform_of_step answered).mpr ⟨trivial, trivial, trivial, trivial, ?_⟩
  exact ⟨trivial, meets⟩

/-- What `MTD_Read` hands back. -/
theorem wp_read_flaky {fuel : Nat} {buffer : Option Memory} {spare : Option Spare}
    {post : Status × Option Memory × Option Spare → MtdRam → Flaky → Prop}
    (width : g.rowWidth < 32) (pos : 0 < fuel) (isBlock : block < g.cfgLogBlockCount)
    (isPage : page < g.pagePerPhyBlock) (holds : PageHolds g state block page content)
    (begun : state.attempts = 0)
    (meets : ∀ state',
      let result := attemptsEffect g content errors maxRetryTimes 0 ⟨buffer, 0, spare⟩
      post (result.1, result.2.buffer, result.2.spare) testReset state') :
    Code.wp (flakyMachine g errors) (fun _ => True) (read g fuel block page buffer spare) post
      testReset state := by
  simp only [read, Code.wp_bind]
  refine flaky_waitReady pos isBlock ?_
  exact wp_readAttempts_flaky width isBlock isPage holds begun fun state' => ⟨trivial, meets state'⟩

end Reading

/-! ## When the page arrives -/

section Arrival

variable {g : Geometry} {content : Page Memory} {errors : ReadErrors}

/-- All planes of the attempt are read right. -/
def AttemptGood (g : Geometry) (errors : ReadErrors) (attempt : Nat) : Prop :=
  ∀ plane < g.planePerDie, (errors attempt plane).good = true

theorem attemptEffect_cons {attempt plane : Nat} {rest : List Nat} {bufs : ReadBuffers}
    (good : (errors attempt plane).good = true) :
    attemptEffect g content errors attempt (plane :: rest) bufs =
      attemptEffect g content errors attempt rest
        ((bufs.receive g (planeData g content plane) content.spare).advance g) := by
  cases result : errors attempt plane with
  | right => simp only [attemptEffect, result]
  | corrected => simp only [attemptEffect, result]
  | wrong mainData spareData =>
      rw [result] at good
      exact absurd good Bool.false_ne_true

/-- The planes of a good attempt arrive one behind the other. -/
theorem attemptEffect_planes {attempt plane count : Nat} {bufs : ReadBuffers}
    (good : ∀ other, plane ≤ other → other < plane + count → (errors attempt other).good = true) :
    attemptEffect g content errors attempt (List.range' plane count) bufs =
      (.success,
        { buffer := bufs.buffer.map fun memory => memcpy memory bufs.offset
            (fun i => content.main (plane * g.pageSize + i)) (count * g.pageSize)
          offset := bufs.offset + count * g.pageSize
          spare := bufs.spare.map fun spare => if count = 0 then spare else content.spare }) := by
  induction count generalizing plane bufs with
  | zero =>
      obtain ⟨buffer, offset, spare⟩ := bufs
      cases buffer <;> cases spare <;> simp [attemptEffect, memcpy_zero]
  | succ count ih =>
      rw [List.range'_succ, attemptEffect_cons (good plane le_rfl (by omega)),
        ih fun other first last => good other (by omega) (by omega)]
      obtain ⟨buffer, offset, spare⟩ := bufs
      have more : g.pageSize + count * g.pageSize = (count + 1) * g.pageSize := by
        rw [Nat.succ_mul, Nat.add_comm]
      have copied : ∀ memory : Memory,
          memcpy (memcpy memory offset (planeData g content plane) g.pageSize)
              (offset + g.pageSize) (fun i => content.main ((plane + 1) * g.pageSize + i))
              (count * g.pageSize) =
            memcpy memory offset (fun i => content.main (plane * g.pageSize + i))
              (g.pageSize + count * g.pageSize) := by
        intro memory
        refine memcpy_memcpy (fun i _ => rfl) fun i => ?_
        rw [Nat.succ_mul, Nat.add_assoc]
      cases buffer <;> cases spare <;>
        simp [ReadBuffers.receive, ReadBuffers.advance, copied, ← more, Nat.add_assoc]

/-- A good attempt reads the whole page. -/
theorem attemptEffect_whole {attempt : Nat} {bufs : ReadBuffers}
    (good : AttemptGood g errors attempt) :
    attemptEffect g content errors attempt (List.range g.planePerDie) bufs =
      (.success, bufs.whole g content) := by
  rw [List.range_eq_range', attemptEffect_planes fun other _ last => good other (by omega)]
  simp only [ReadBuffers.whole, mppSize_eq, Nat.zero_mul, Nat.zero_add, g.planePerDie_pos.ne',
    if_false]

/-- A bad attempt fails, and moves the place in memory on unless it fails in its first
plane. -/
theorem attemptEffect_bad (g : Geometry) (content : Page Memory) (bufs : ReadBuffers)
    {attempt plane count : Nat}
    (bad : ∃ other, plane ≤ other ∧ other < plane + count ∧ (errors attempt other).good = false) :
    (attemptEffect g content errors attempt (List.range' plane count) bufs).1 = .failure ∧
      bufs.offset ≤
        (attemptEffect g content errors attempt (List.range' plane count) bufs).2.offset := by
  induction count generalizing plane bufs with
  | zero =>
      obtain ⟨other, first, last, -⟩ := bad
      omega
  | succ count ih =>
      rw [List.range'_succ]
      cases good : (errors attempt plane).good with
      | true =>
          rw [attemptEffect_cons good]
          obtain ⟨other, first, last, wrong⟩ := bad
          have apart : other ≠ plane := by
            rintro rfl
            rw [good] at wrong
            exact absurd wrong.symm Bool.false_ne_true
          have later : ∃ other, plane + 1 ≤ other ∧ other < plane + 1 + count ∧
              (errors attempt other).good = false := ⟨other, by omega, by omega, wrong⟩
          obtain ⟨failed, further⟩ := ih
            ((bufs.receive g (planeData g content plane) content.spare).advance g) later
          exact ⟨failed, (Nat.le_add_right _ _).trans further⟩
      | false =>
          unfold attemptEffect
          cases result : errors attempt plane with
          | right =>
              rw [result] at good
              exact absurd good.symm Bool.false_ne_true
          | corrected =>
              rw [result] at good
              exact absurd good.symm Bool.false_ne_true
          | wrong mainData spareData => exact ⟨rfl, le_rfl⟩

theorem planes_eq (g : Geometry) :
    List.range g.planePerDie = 0 :: List.range' 1 (g.planePerDie - 1) := by
  obtain ⟨count, more⟩ := Nat.exists_eq_succ_of_ne_zero g.planePerDie_pos.ne'
  rw [more, List.range_eq_range', List.range'_succ, Nat.succ_sub_one]

theorem attemptEffect_first (content : Page Memory) (bufs : ReadBuffers) {attempt : Nat}
    (bad : (errors attempt 0).good = false) :
    ∃ mainData spareData, attemptEffect g content errors attempt (List.range g.planePerDie) bufs =
      (.failure, bufs.receive g mainData spareData) := by
  rw [planes_eq]
  cases result : errors attempt 0 with
  | right =>
      rw [result] at bad
      exact absurd bad.symm Bool.false_ne_true
  | corrected =>
      rw [result] at bad
      exact absurd bad.symm Bool.false_ne_true
  | wrong mainData spareData => exact ⟨mainData, spareData, by simp only [attemptEffect, result]⟩

/-- Every attempt before the first good one fails in its first plane. -/
def FailsAtFirst (g : Geometry) (errors : ReadErrors) (attempt : Nat) : Prop :=
  ∀ n, attempt ≤ n → (∀ m, attempt ≤ m → m ≤ n → ¬ AttemptGood g errors m) →
    (errors n 0).good = false

theorem failsAtFirst_of_good {attempt : Nat} (good : AttemptGood g errors attempt) :
    FailsAtFirst g errors attempt :=
  fun _ le bad => absurd good (bad attempt le_rfl le)

/-- Behind a bad attempt the condition is about this attempt and the later ones. -/
theorem failsAtFirst_succ {attempt : Nat} (bad : ¬ AttemptGood g errors attempt) :
    FailsAtFirst g errors attempt ↔
      (errors attempt 0).good = false ∧ FailsAtFirst g errors (attempt + 1) := by
  constructor
  · intro first
    refine ⟨first attempt le_rfl fun m le le' => ?_, fun n le bad' => first n (by omega) ?_⟩
    · rwa [Nat.le_antisymm le' le]
    · intro m le' before
      rcases Nat.eq_or_lt_of_le le' with rfl | later
      · exact bad
      · exact bad' m later before
  · rintro ⟨here, later⟩ _ le bad'
    rcases Nat.eq_or_lt_of_le le with rfl | after
    · exact here
    · exact later _ after fun m le' => bad' m (by omega)

theorem pageSize_le_mppSize : g.pageSize ≤ g.mppSize := by
  rw [mppSize_eq]
  exact Nat.le_mul_of_pos_left _ g.planePerDie_pos

/-- Reading the whole page overwrites what a failed plane has left. -/
theorem whole_receive (bufs : ReadBuffers) (mainData : Memory) (spareData : Spare) :
    (bufs.receive g mainData spareData).whole g content = bufs.whole g content := by
  have fits := pageSize_le_mppSize (g := g)
  obtain ⟨buffer, offset, spare⟩ := bufs
  have copied : ∀ memory : Memory,
      memcpy (memcpy memory offset mainData g.pageSize) offset content.main g.mppSize =
        memcpy memory offset content.main g.mppSize := by
    intro memory
    funext i
    unfold memcpy
    by_cases inside : offset ≤ i ∧ i < offset + g.mppSize
    · rw [if_pos inside, if_pos inside]
    · rw [if_neg inside, if_neg inside, if_neg (by omega)]
  cases buffer <;> cases spare <;> simp [ReadBuffers.receive, ReadBuffers.whole, copied]

theorem exists_bad {attempt : Nat} (bad : ¬ AttemptGood g errors attempt) :
    ∃ plane, 0 ≤ plane ∧ plane < 0 + g.planePerDie ∧ (errors attempt plane).good = false := by
  obtain ⟨plane, wrong⟩ := not_forall.mp bad
  obtain ⟨inside, notGood⟩ := Classical.not_imp.mp wrong
  exact ⟨plane, Nat.zero_le _, by omega, by simpa using notGood⟩

theorem attemptEffect_moves {attempt : Nat} {bufs : ReadBuffers}
    (bad : ¬ AttemptGood g errors attempt) (firstGood : (errors attempt 0).good = true) :
    bufs.offset <
      (attemptEffect g content errors attempt (List.range g.planePerDie) bufs).2.offset := by
  obtain ⟨plane, -, inside, wrong⟩ := exists_bad bad
  have apart : plane ≠ 0 := by
    rintro rfl
    rw [firstGood] at wrong
    exact absurd wrong.symm Bool.false_ne_true
  have pos : 0 < g.pageSize := Nat.two_pow_pos _
  rw [planes_eq, attemptEffect_cons firstGood]
  have later : ∃ other, 1 ≤ other ∧ other < 1 + (g.planePerDie - 1) ∧
      (errors attempt other).good = false := ⟨plane, by omega, by omega, wrong⟩
  have further := (attemptEffect_bad g content
    ((bufs.receive g (planeData g content 0) content.spare).advance g) later).2
  exact (Nat.lt_add_of_pos_right pos).trans_le further

/-- With a good attempt among those left the whole page arrives, at the place in memory where
the attempts before have left off. -/
theorem attemptsEffect_arrives (content : Page Memory) (bufs : ReadBuffers) {left attempt : Nat}
    (good : ∃ n, attempt ≤ n ∧ n < attempt + left ∧ AttemptGood g errors n) :
    ∃ last : ReadBuffers,
      attemptsEffect g content errors left attempt bufs = (.success, last.whole g content) ∧
      bufs.offset ≤ last.offset ∧
      (FailsAtFirst g errors attempt → last.whole g content = bufs.whole g content) ∧
      (¬ FailsAtFirst g errors attempt → bufs.offset < last.offset) := by
  induction left generalizing attempt bufs with
  | zero =>
      obtain ⟨n, first, last, -⟩ := good
      omega
  | succ left ih =>
      by_cases here : AttemptGood g errors attempt
      · refine ⟨bufs, ?_, le_rfl, fun _ => rfl,
          fun wrong => absurd (failsAtFirst_of_good here) wrong⟩
        simp only [attemptsEffect, attemptEffect_whole here, reduceCtorEq, false_and, if_false]
      · obtain ⟨n, first, last, isGood⟩ := good
        have apart : n ≠ attempt := by
          rintro rfl
          exact here isGood
        have again : ∃ n, attempt + 1 ≤ n ∧ n < attempt + 1 + left ∧ AttemptGood g errors n :=
          ⟨n, by omega, by omega, isGood⟩
        obtain ⟨failed, further⟩ := attemptEffect_bad g content bufs (exists_bad here)
        rw [← List.range_eq_range'] at failed further
        obtain ⟨final, arrives, le, same, moved⟩ := ih (attemptEffect g content errors
          attempt (List.range g.planePerDie) bufs).2 again
        refine ⟨final, ?_, further.trans le, ?_, ?_⟩
        · rw [attemptsEffect, if_pos ⟨failed, by omega⟩]
          exact arrives
        · intro atFirst
          obtain ⟨firstWrong, later⟩ := (failsAtFirst_succ here).mp atFirst
          obtain ⟨mainData, spareData, effect⟩ :=
            attemptEffect_first content bufs firstWrong
          rw [same later, effect, whole_receive]
        · intro notAtFirst
          cases firstGood : (errors attempt 0).good with
          | true => exact (attemptEffect_moves here firstGood).trans_le le
          | false =>
              exact further.trans_lt (moved fun later =>
                notAtFirst ((failsAtFirst_succ here).mpr ⟨firstGood, later⟩))

end Arrival

/-- What a read is meant to hand back, whatever the memory of the caller holds: the page and
its spare area, and nothing outside of the page. -/
def ReadTransparent (g : Geometry) (errors : ReadErrors) (fuel block page : Nat) (state : Flaky)
    (content : Page Memory) : Prop :=
  ∀ buffer spare, Code.wp (flakyMachine g errors) (fun _ => True)
    (read g fuel block page buffer spare)
    (fun answer _ _ => answer = readAnswer g (some content) buffer spare) testReset state

/-- With a good attempt, a read is transparent just when every attempt before it fails in the
first plane. -/
theorem readTransparent_iff {g : Geometry} {errors : ReadErrors} {fuel block page : Nat}
    {state : Flaky} {content : Page Memory} (width : g.rowWidth < 32) (pos : 0 < fuel)
    (isBlock : block < g.cfgLogBlockCount) (isPage : page < g.pagePerPhyBlock)
    (holds : PageHolds g state block page content) (begun : state.attempts = 0)
    (good : ∃ n < maxRetryTimes, AttemptGood g errors n) :
    ReadTransparent g errors fuel block page state content ↔ FailsAtFirst g errors 0 := by
  obtain ⟨n, few, isGood⟩ := good
  have good' : ∃ n, 0 ≤ n ∧ n < 0 + maxRetryTimes ∧ AttemptGood g errors n :=
    ⟨n, Nat.zero_le n, by omega, isGood⟩
  have arrives := fun bufs => attemptsEffect_arrives content bufs good'
  constructor
  · intro transparent
    by_contra notAtFirst
    -- memory that differs from the last byte of the page everywhere
    obtain ⟨last, effect, -, -, moved⟩ :=
      arrives ⟨some fun _ => content.main (g.mppSize - 1) + 1, 0, none⟩
    have beyond : 0 < last.offset := moved notAtFirst
    have read := @wp_read_flaky g errors state block page content fuel
      (some fun _ => content.main (g.mppSize - 1) + 1) none
      (fun answer _ _ => answer.2.1 = (last.whole g content).buffer) width pos isBlock isPage holds
      begun fun state' => by dsimp only; rw [effect]
    obtain ⟨result, after, run, arrived⟩ := Prog.exec_of_wp read
    obtain ⟨result', after', run', expected⟩ := Prog.exec_of_wp (transparent _ none)
    rw [run] at run'
    obtain ⟨rfl, -⟩ := Prod.mk.inj (Except.ok.inj run')
    rw [expected] at arrived
    cases buffer : last.buffer with
    | none => simp [readAnswer, ReadBuffers.whole, buffer] at arrived
    | some memory =>
        simp only [readAnswer, ReadBuffers.whole, buffer, Option.map_some, Option.some.injEq]
          at arrived
        have pos : 0 < g.mppSize := Nat.two_pow_pos _
        have byte := congrFun arrived (last.offset + g.mppSize - 1)
        have place : last.offset + g.mppSize - 1 - last.offset = g.mppSize - 1 := by omega
        unfold memcpy at byte
        rw [if_neg (by omega), if_pos (by omega), place] at byte
        simp at byte
  · intro atFirst buffer spare
    refine wp_read_flaky width pos isBlock isPage holds begun fun state' => ?_
    obtain ⟨last, effect, -, same, -⟩ := arrives ⟨buffer, 0, spare⟩
    dsimp only
    rw [effect, same atFirst]
    rfl

/-! ## One error -/

/-- A device whose columns hold zeros. -/
def zeroFlash : Flaky where
  sim := { SimNand.init with simNand := fun _ _ => ⟨fun _ => 0, ⟨0, 0⟩, .programmed⟩ }
  attempts := 0
  corrected := false

/-- One plane of the first attempt is read as ones. -/
def oneError (wrongPlane : Nat) : ReadErrors := fun attempt plane =>
  if attempt = 0 ∧ plane = wrongPlane then .wrong (fun _ => 0xff) .ones else .right

theorem zeroFlash_holds : PageHolds simNand zeroFlash 0 0 ⟨fun _ => 0, ⟨0, 0⟩⟩ :=
  fun _ _ => ⟨rfl, rfl, fun _ _ => rfl⟩

theorem good_oneError (wrongPlane : Nat) :
    ∃ n < maxRetryTimes, AttemptGood simNand (oneError wrongPlane) n :=
  ⟨1, by decide, fun plane _ => by simp [oneError, ReadResult.good]⟩

/-- An error in the first plane is made good. -/
theorem readTransparent_firstPlane :
    ReadTransparent simNand (oneError 0) 1 0 0 zeroFlash ⟨fun _ => 0, ⟨0, 0⟩⟩ := by
  refine (readTransparent_iff (by decide) (by decide) (by decide) (by decide) zeroFlash_holds rfl
    (good_oneError 0)).mpr fun n _ bad => ?_
  rcases Nat.eq_zero_or_pos n with rfl | later
  · rfl
  · refine absurd (fun plane _ => ?_) (bad n (Nat.zero_le n) le_rfl)
    have notFirst : ¬ (n = 0 ∧ plane = 0) := fun wrong => later.ne' wrong.1
    rw [oneError, if_neg notFirst]
    rfl

/-- After an error in the second plane the read succeeds, with the bytes of the first plane in
the place of the second, and it overwrites the memory behind the page. -/
theorem read_overruns_memory :
    Code.wp (flakyMachine simNand (oneError 1)) (fun _ => True)
      (read simNand 1 0 0 (some fun _ => 1) none)
      (fun answer _ _ => answer.1 = .success ∧
        answer.2.1.map (fun memory => memory simNand.mppSize) = some 0) testReset zeroFlash := by
  refine wp_read_flaky (by decide) (by decide) (by decide) (by decide) zeroFlash_holds rfl
    fun _ => ?_
  decide

end OpenNfm.Mtd
