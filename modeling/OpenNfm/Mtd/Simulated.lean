import Mathlib.Tactic.IntervalCases
import OpenNfm.Mtd.Interface
import OpenNfm.Mtd.RowAddress

/-!
# The MTD layer on the simulated device

`SimHolds` says which columns of the device stand for which programmed pages.  The
functions of the MTD layer keep it and change exactly the columns of their block.
-/

namespace OpenNfm.Mtd

open OpenNfm.Program Geometry

variable {g : Geometry} {ram : MtdRam} {sim : SimNand}

/-! ## Calls of the driver -/

section Bus

theorem wp_selectChip {chip : Nat} {post : Unit → MtdRam → SimNand → Prop} :
    Code.wp (simMachine g) (fun _ => True) (nandSelectChip chip) post ram sim ↔
      post () ram { sim with chip := chip } := by
  refine (Code.wp_perform_of_step rfl).trans ?_
  simp only [true_and]

theorem wp_sendCmd {cmd : NandCmd} {post : Unit → MtdRam → SimNand → Prop} :
    Code.wp (simMachine g) (fun _ => True) (nandSendCmd cmd) post ram sim ↔
      post () ram (sim.sendCmd cmd) := by
  refine (Code.wp_perform_of_step rfl).trans ?_
  simp only [true_and]

theorem wp_waitRb {chip : Nat} {post : Unit → MtdRam → SimNand → Prop} :
    Code.wp (simMachine g) (fun _ => True) (nandWaitRb chip) post ram sim ↔
      post () ram sim := by
  refine (Code.wp_perform_of_step rfl).trans ?_
  simp only [true_and]

theorem wp_eccStatus {post : Bool → MtdRam → SimNand → Prop} :
    Code.wp (simMachine g) (fun _ => True) nandEccStatus post ram sim ↔
      post false ram sim := by
  refine (Code.wp_perform_of_step rfl).trans ?_
  simp only [true_and]

theorem wp_sendAddr {col row : Nat} {post : Unit → MtdRam → SimNand → Prop}
    (other : sim.state ≠ .erase) :
    Code.wp (simMachine g) (fun _ => True) (nandSendAddr col row) post ram sim ↔
      post () ram { sim with colAddr := col, rowAddr := row } := by
  have step : simMachine g sim (.sendAddr col row) =
      .ok ((), { sim with colAddr := col, rowAddr := row }) := if_neg other
  refine (Code.wp_perform_of_step step).trans ?_
  simp only [true_and]

theorem wp_sendAddr_erase {col row : Nat} {post : Unit → MtdRam → SimNand → Prop}
    (erasing : sim.state = .erase) (pages : g.pagePerPhyBlock < 2 ^ 8)
    (isChip : sim.chip < g.chipCount) (inRange : row + g.pagePerPhyBlock ≤ g.cfgNandRowCount) :
    Code.wp (simMachine g) (fun _ => True) (nandSendAddr col row) post ram sim ↔
      post () ram
        { sim with
          simNand := SimNand.clear sim.simNand sim.chip row g.pagePerPhyBlock
          colAddr := col
          rowAddr := row } := by
  have step : simMachine g sim (.sendAddr col row) =
      .ok ((),
        { sim with
          simNand := SimNand.clear sim.simNand sim.chip row g.pagePerPhyBlock
          colAddr := col
          rowAddr := row }) := by
    simp only [simMachine, erasing, if_true, pages.not_ge, if_false, isChip, inRange, and_self]
  refine (Code.wp_perform_of_step step).trans ?_
  simp only [true_and]

theorem wp_sendData {buffer : Option Memory} {spare : Option Spare}
    {post : Unit → MtdRam → SimNand → Prop} (programming : sim.state = .program)
    (asserted : sim.rowAddr < g.assertedRows) (isChip : sim.chip < g.chipCount)
    (inRange : sim.rowAddr < g.cfgNandRowCount)
    (erased : (sim.simNand sim.chip sim.rowAddr).state = .erased) :
    Code.wp (simMachine g) (fun _ => True) (nandSendData buffer spare) post ram
        sim ↔
      post () ram
        (sim.setColumn (SimNand.store g (sim.simNand sim.chip sim.rowAddr) buffer spare)) := by
  have step : simMachine g sim (.sendData buffer spare) =
      .ok ((), sim.setColumn
        (SimNand.store g (sim.simNand sim.chip sim.rowAddr) buffer spare)) := by
    simp only [simMachine, programming, asserted, isChip, inRange, erased, and_self, if_true]
  refine (Code.wp_perform_of_step step).trans ?_
  simp only [true_and]

theorem wp_receiveData {column : SimColumn}
    {post : Status × Memory × Spare → MtdRam → SimNand → Prop} (reading : sim.state = .read)
    (isChip : sim.chip < g.chipCount) (inRange : sim.rowAddr < g.cfgNandRowCount)
    (isColumn : sim.simNand sim.chip sim.rowAddr = column) :
    Code.wp (simMachine g) (fun _ => True) nandReceiveData post ram sim ↔
      post (if column.state = .erased then .failure else .success, column.mainData,
        column.spareData) ram sim := by
  have step : simMachine g sim .receiveData =
      .ok ((if column.state = .erased then .failure else .success, column.mainData,
        column.spareData), sim) := by
    simp only [simMachine, reading, isChip, inRange, isColumn, true_or, and_self, if_true]
    rw [← reading]
  refine (Code.wp_perform_of_step step).trans ?_
  simp only [true_and]

end Bus

/-! ## The status of a die -/

section Status

variable {block : Nat} {post : Status → MtdRam → SimNand → Prop}

/-- Without the test engine, every die is ready. -/
theorem wp_readStatus (isBlock : block < g.cfgLogBlockCount)
    (meets : post .success testReset
      { sim with chip := g.mtdChipNum block, state := .readStatus }) :
    Code.wp (simMachine g) (fun _ => True) (readStatus g block) post testReset sim := by
  have polled : { sim with chip := g.mtdChipNum block }.sendCmd (dieStatus g block) =
      { sim with chip := g.mtdChipNum block, state := .readStatus } := by
    unfold dieStatus
    split
    · rfl
    · split <;> rfl
  have answered : simMachine g { sim with chip := g.mtdChipNum block, state := .readStatus }
      (.receiveBytes 1) = .ok (fun _ => simNandStatus ||| nandStatusReadyBit,
        { sim with chip := g.mtdChipNum block, state := .readStatus }) := rfl
  have idle : ¬ (testReset.simTestCurrent = testReset.simTestTarget ∧
      (testReset.simTestMode = .plr ∨ testReset.simTestMode = .bbr)) := by decide
  have waiting : ¬ (testReset.simTestCurrent < testReset.simTestTarget ∧
      (testReset.simTestMode = .plr ∨ testReset.simTestMode = .bbr)) := by decide
  simp only [readStatus, readStatusByte, Code.wp_bind, Code.wp_assert, Code.wp_get, idle, waiting,
    if_false, wp_selectChip, wp_sendCmd, polled]
  refine ⟨isBlock, trivial, trivial, ?_⟩
  exact (Code.wp_perform_of_step answered).mpr ⟨trivial, trivial, trivial, trivial, meets⟩

theorem wp_waitReady {fuel : Nat} (pos : 0 < fuel) (isBlock : block < g.cfgLogBlockCount)
    (meets : post .success testReset
      { sim with chip := g.mtdChipNum block, state := .readStatus }) :
    Code.wp (simMachine g) (fun _ => True) (waitReady g fuel block) post testReset sim := by
  obtain ⟨fuel, rfl⟩ := Nat.exists_eq_succ_of_ne_zero pos.ne'
  simp only [waitReady, Code.wp_bind, Code.wp_assert]
  refine ⟨isBlock, trivial, wp_readStatus isBlock ?_⟩
  simp only [reduceCtorEq, if_false]
  exact ⟨trivial, meets⟩

end Status

/-! ## Pages and columns -/

/-- A column stands for its plane of a page. -/
def ColumnHolds (g : Geometry) (plane : Nat) (column : SimColumn) : Option (Page Memory) → Prop
  | none => column = .blank
  | some content =>
      column.state = .programmed ∧ column.spareData = content.spare ∧
        ∀ i < g.pageSize, column.mainData i = content.main (plane * g.pageSize + i)

/-- The columns stand for the programmed pages. -/
def SimHolds (g : Geometry) (columns : Nat → Nat → SimColumn) (nand : Nand Memory) : Prop :=
  ∀ block < g.cfgLogBlockCount, ∀ plane < g.planePerDie, ∀ page < g.pagePerPhyBlock,
    ColumnHolds g plane (columns (g.mtdChipNum block) (g.mtdRowAddress block plane page))
      (nand block page)

/-- The bits that the source takes for granted, and the values that its own checks
need. -/
structure SimFits (g : Geometry) : Prop where
  pages : g.pagePerBlockShift < 8
  planes : g.planePerDieShift ≤ 1
  width : g.rowWidth < 32
  chips : g.chipCountShift < 8
  total : g.rowWidth + g.chipCountShift < 32

namespace SimFits

variable (fits : SimFits g)
include fits

theorem pagePerPhyBlock_lt : g.pagePerPhyBlock < 2 ^ 8 :=
  Nat.pow_lt_pow_right (by decide) fits.pages

theorem planes_cases : g.planePerDie = 1 ∨ g.planePerDie = 2 := by
  have planes := fits.planes
  unfold Geometry.planePerDie
  interval_cases g.planePerDieShift
  · exact .inl rfl
  · exact .inr rfl

theorem isChip {block : Nat} : g.mtdChipNum block ≠ invalidChip := by
  have small :
      g.chipCount ≤ 2 ^ 7 := Nat.pow_le_pow_right (by decide) (Nat.le_of_lt_succ fits.chips)
  have lt := g.mtdChipNum_lt block
  unfold invalidChip
  omega

theorem assertedRows_eq : g.assertedRows = 2 ^ (g.rowWidth + g.chipCountShift) := by
  rw [Geometry.assertedRows, g.cfgNandRowCount_eq_pow, Geometry.chipCount, ← Nat.pow_add]
  exact Nat.mod_eq_of_lt (Nat.pow_lt_pow_right (by decide) fits.total)

theorem lt_assertedRows {row : Nat} (inRange : row < g.cfgNandRowCount) :
    row < g.assertedRows := by
  rw [fits.assertedRows_eq]
  rw [g.cfgNandRowCount_eq_pow] at inRange
  exact inRange.trans_le (Nat.pow_le_pow_right (by decide) (Nat.le_add_right _ _))

end SimFits

/-! ## Reading -/

section Reading

variable {block page : Nat} {column : SimColumn}
  {post : Status × ReadBuffers → MtdRam → SimNand → Prop}

/-- One round of the loop over the planes. -/
theorem wp_readPlanes_cons {plane : Nat} {rest : List Nat} {bufs : ReadBuffers}
    (inRange : g.mtdRowAddress block plane page < g.cfgNandRowCount)
    (isColumn : sim.simNand (g.mtdChipNum block) (g.mtdRowAddress block plane page) = column)
    (failed : column.state = .erased → ∀ sim', sim'.simNand = sim.simNand →
      post (.failure, bufs.receive g column.mainData column.spareData) ram sim')
    (received : column.state = .programmed → ∀ sim', sim'.simNand = sim.simNand →
      Code.wp (simMachine g) (fun _ => True) (readPlanes g block page rest
        ((bufs.receive g column.mainData column.spareData).advance g)) post ram sim') :
    Code.wp (simMachine g) (fun _ => True) (readPlanes g block page (plane :: rest) bufs) post ram
      sim := by
  simp only [readPlanes, Code.wp_bind, wp_selectChip, wp_sendCmd, SimNand.sendCmd]
  rw [wp_sendAddr (by simp)]
  simp only [wp_waitRb]
  rw [wp_receiveData rfl (g.mtdChipNum_lt block) inRange isColumn]
  cases state : column.state with
  | erased =>
      simp only [if_true, reduceCtorEq, if_false, Code.wp_bind, wp_eccStatus, Bool.false_eq_true]
      exact ⟨trivial, failed state _ rfl⟩
  | programmed =>
      simp only [reduceCtorEq, if_false, if_true]
      exact received state _ rfl

theorem memcpy_zero (memory source : Memory) (offset : Nat) :
    memcpy memory offset source 0 = memory := by
  funext i
  exact if_neg (by omega)

/-- Two copies one behind the other are one copy. -/
theorem memcpy_memcpy {memory first second whole : Memory} {offset n k : Nat}
    (isFirst : ∀ i < n, first i = whole i) (isSecond : ∀ i, second i = whole (n + i)) :
    memcpy (memcpy memory offset first n) (offset + n) second k =
      memcpy memory offset whole (n + k) := by
  funext i
  unfold memcpy
  by_cases inSecond : offset + n ≤ i ∧ i < offset + n + k
  · have place : n + (i - (offset + n)) = i - offset := by omega
    rw [if_pos inSecond, if_pos (by omega), isSecond, place]
  · rw [if_neg inSecond]
    by_cases inFirst : offset ≤ i ∧ i < offset + n
    · rw [if_pos inFirst, if_pos (by omega), isFirst _ (by omega)]
    · rw [if_neg inFirst, if_neg (by omega)]

/-- What the loop leaves in memory when every plane of the page is programmed. -/
def ReadBuffers.filled (g : Geometry) (bufs : ReadBuffers) (content : Page Memory) (count : Nat) :
    ReadBuffers where
  buffer := bufs.buffer.map fun memory =>
    memcpy memory bufs.offset (fun i => content.main (bufs.offset + i)) (count * g.pageSize)
  offset := bufs.offset + count * g.pageSize
  spare := bufs.spare.map fun spare => if count = 0 then spare else content.spare

theorem ReadBuffers.filled_zero (bufs : ReadBuffers) (content : Page Memory) :
    bufs.filled g content 0 = bufs := by
  obtain ⟨buffer, offset, spare⟩ := bufs
  cases buffer <;> cases spare <;> simp [filled, memcpy_zero]

/-- One plane and the planes behind it. -/
theorem ReadBuffers.filled_succ {bufs : ReadBuffers} {content : Page Memory} {plane count : Nat}
    (atPlane : bufs.offset = plane * g.pageSize)
    (holds : ColumnHolds g plane column (some content)) :
    ((bufs.receive g column.mainData column.spareData).advance g).filled g content count =
      bufs.filled g content (count + 1) := by
  obtain ⟨buffer, offset, spare⟩ := bufs
  obtain ⟨-, sameSpare, sameMain⟩ := holds
  change offset = plane * g.pageSize at atPlane
  have more : g.pageSize + count * g.pageSize = (count + 1) * g.pageSize := by
    rw [Nat.succ_mul, Nat.add_comm]
  have buffers : ∀ memory : Memory,
      memcpy (memcpy memory offset column.mainData g.pageSize) (offset + g.pageSize)
          (fun i => content.main (offset + (g.pageSize + i))) (count * g.pageSize) =
        memcpy memory offset (fun i => content.main (offset + i))
          (g.pageSize + count * g.pageSize) := by
    intro memory
    refine memcpy_memcpy (fun i inside => ?_) fun i => rfl
    rw [sameMain i inside, atPlane]
  cases buffer <;> cases spare <;>
    simp [receive, advance, filled, buffers, sameSpare, ← more, Nat.add_assoc]

/-- A programmed page is read from all its planes. -/
theorem wp_readPlanes {content : Page Memory} {plane count : Nat} {bufs : ReadBuffers}
    (width : g.rowWidth < 32) (isBlock : block < g.cfgLogBlockCount)
    (isPage : page < g.pagePerPhyBlock) (planes : plane + count ≤ g.planePerDie)
    (holds : ∀ other < g.planePerDie, ColumnHolds g other
      (sim.simNand (g.mtdChipNum block) (g.mtdRowAddress block other page)) (some content))
    (atPlane : bufs.offset = plane * g.pageSize)
    (meets : ∀ sim', sim'.simNand = sim.simNand →
      post (.success, bufs.filled g content count) ram sim') :
    Code.wp (simMachine g) (fun _ => True)
      (readPlanes g block page (List.range' plane count) bufs) post ram sim := by
  induction count generalizing plane bufs sim with
  | zero =>
      refine ⟨trivial, ?_⟩
      have finished := meets sim rfl
      rwa [ReadBuffers.filled_zero] at finished
  | succ count ih =>
      have column := holds plane (by omega)
      rw [List.range'_succ]
      refine wp_readPlanes_cons (mtdRowAddress_lt width isBlock (by omega) isPage) rfl ?_ ?_
      · intro erased
        rw [column.1] at erased
        simp at erased
      · intro _ sim' same
        have next : ((bufs.receive g
            (sim.simNand (g.mtdChipNum block) (g.mtdRowAddress block plane page)).mainData
            (sim.simNand (g.mtdChipNum block)
              (g.mtdRowAddress block plane page)).spareData).advance g).offset =
            (plane + 1) * g.pageSize := by
          rw [Nat.succ_mul, ← atPlane]
          rfl
        refine ih (by omega) (same ▸ holds) next fun sim₂ same₂ => ?_
        rw [ReadBuffers.filled_succ atPlane column]
        exact meets sim₂ (same₂.trans same)

theorem memcpy_again (memory source : Memory) (offset count : Nat) :
    memcpy (memcpy memory offset source count) offset source count =
      memcpy memory offset source count := by
  funext i
  unfold memcpy
  split <;> rfl

theorem ReadBuffers.receive_again (bufs : ReadBuffers) (mainData : Memory) (spareData : Spare) :
    (bufs.receive g mainData spareData).receive g mainData spareData =
      bufs.receive g mainData spareData := by
  obtain ⟨buffer, offset, spare⟩ := bufs
  cases buffer <;> cases spare <;> simp [receive, memcpy_again]

/-- What a failed read leaves in memory: the first plane as ones. -/
def ReadBuffers.failed (g : Geometry) (bufs : ReadBuffers) : ReadBuffers :=
  bufs.receive g SimColumn.blank.mainData SimColumn.blank.spareData

/-- A page that is not programmed fails in its first plane. -/
theorem wp_readPlanes_blank {bufs : ReadBuffers} (width : g.rowWidth < 32)
    (isBlock : block < g.cfgLogBlockCount) (isPage : page < g.pagePerPhyBlock)
    (holds : ∀ other < g.planePerDie, ColumnHolds g other
      (sim.simNand (g.mtdChipNum block) (g.mtdRowAddress block other page)) none)
    (meets : ∀ sim', sim'.simNand = sim.simNand → post (.failure, bufs.failed g) ram sim') :
    Code.wp (simMachine g) (fun _ => True)
      (readPlanes g block page (List.range g.planePerDie) bufs) post ram sim := by
  have planes : List.range g.planePerDie = 0 :: List.range' 1 (g.planePerDie - 1) := by
    obtain ⟨count, more⟩ := Nat.exists_eq_succ_of_ne_zero g.planePerDie_pos.ne'
    rw [more, List.range_eq_range', List.range'_succ, Nat.succ_sub_one]
  rw [planes]
  refine wp_readPlanes_cons (mtdRowAddress_lt width isBlock g.planePerDie_pos isPage)
    (holds 0 g.planePerDie_pos) (fun _ => meets) fun programmed => ?_
  simp [SimColumn.blank] at programmed

/-- Every attempt at such a page fails. -/
theorem wp_readAttempts_blank {left : Nat} {bufs : ReadBuffers} (width : g.rowWidth < 32)
    (isBlock : block < g.cfgLogBlockCount) (isPage : page < g.pagePerPhyBlock)
    (holds : ∀ other < g.planePerDie, ColumnHolds g other
      (sim.simNand (g.mtdChipNum block) (g.mtdRowAddress block other page)) none)
    (meets : ∀ sim', sim'.simNand = sim.simNand → post (.failure, bufs.failed g) ram sim') :
    Code.wp (simMachine g) (fun _ => True) (readAttempts g block page (left + 1) bufs) post ram
      sim := by
  induction left generalizing bufs sim with
  | zero =>
      rw [readAttempts, Code.wp_bind]
      refine wp_readPlanes_blank width isBlock isPage holds fun sim' same => ?_
      simp only [ne_eq, not_true_eq_false, and_false, if_false]
      exact ⟨trivial, meets sim' same⟩
  | succ left ih =>
      rw [readAttempts, Code.wp_bind]
      refine wp_readPlanes_blank width isBlock isPage holds fun sim' same => ?_
      simp only [ne_eq, Nat.succ_ne_zero, not_false_eq_true, and_self, if_true]
      refine ih (same ▸ holds) fun sim₂ same₂ => ?_
      rw [ReadBuffers.failed, ReadBuffers.failed, ReadBuffers.receive_again]
      exact meets sim₂ (same₂.trans same)

end Reading

/-- The answer to a read, for each page that the map knows and for each other
page. -/
def readAnswer (g : Geometry) (content : Option (Page Memory)) (buffer : Option Memory)
    (spare : Option Spare) : Status × Option Memory × Option Spare :=
  match content with
  | some content =>
      (.success, buffer.map fun memory => memcpy memory 0 content.main g.mppSize,
        spare.map fun _ => content.spare)
  | none =>
      (.failure, buffer.map fun memory => memcpy memory 0 (fun _ => 0xff) g.pageSize,
        spare.map fun _ => .ones)

theorem mppSize_eq (g : Geometry) : g.mppSize = g.planePerDie * g.pageSize := by
  rw [mppSize, planePerDie, pageSize, ← Nat.pow_add, mppSizeShift, sectorPerMppShift]
  congr 1
  omega

theorem wp_read {fuel block page : Nat} {buffer : Option Memory} {spare : Option Spare}
    {nand : Nand Memory}
    {post : Status × Option Memory × Option Spare → MtdRam → SimNand → Prop}
    (width : g.rowWidth < 32) (pos : 0 < fuel) (holds : SimHolds g sim.simNand nand)
    (isBlock : block < g.cfgLogBlockCount) (isPage : page < g.pagePerPhyBlock)
    (meets : ∀ sim', sim'.simNand = sim.simNand →
      post (readAnswer g (nand block page) buffer spare) testReset sim') :
    Code.wp (simMachine g) (fun _ => True) (read g fuel block page buffer spare) post testReset
      sim := by
  have columns := fun plane isPlane => holds block isBlock plane isPlane page isPage
  simp only [read, Code.wp_bind]
  refine wp_waitReady pos isBlock ?_
  cases isContent : nand block page with
  | none =>
      rw [isContent] at columns meets
      refine wp_readAttempts_blank width isBlock isPage columns fun sim' same => ?_
      exact ⟨trivial, meets sim' same⟩
  | some content =>
      rw [isContent] at columns meets
      rw [maxRetryTimes, readAttempts, Code.wp_bind, List.range_eq_range']
      refine wp_readPlanes width isBlock isPage (by omega) columns (Nat.zero_mul _).symm
        fun sim' same => ?_
      simp only [reduceCtorEq, false_and, if_false]
      refine ⟨trivial, trivial, ?_⟩
      have answer := meets sim' same
      simp only [readAnswer, mppSize_eq] at answer
      simpa only [ReadBuffers.filled, Nat.zero_add, g.planePerDie_pos.ne', if_false] using answer

/-! ## Programming -/

theorem setColumn_same (sim : SimNand) (column : SimColumn) :
    (sim.setColumn column).simNand sim.chip sim.rowAddr = column := by
  simp [SimNand.setColumn]

theorem setColumn_other (sim : SimNand) (column : SimColumn) {chip row : Nat}
    (different : row ≠ sim.rowAddr) :
    (sim.setColumn column).simNand chip row = sim.simNand chip row := by
  by_cases same : chip = sim.chip
  · subst same
    simp [SimNand.setColumn, different]
  · simp [SimNand.setColumn, same]

/-- The column that a program leaves in a plane. -/
def programmedColumn (g : Geometry) (main : Memory) (spare : Option Spare) (plane : Nat) :
    SimColumn :=
  SimNand.store g .blank (some fun i => main (i + plane * g.pageSize)) spare

theorem programmedColumn_holds (main : Memory) (spare : Option Spare) (plane : Nat) :
    ColumnHolds g plane (programmedColumn g main spare plane)
      (some ⟨main, spare.getD .ones⟩) := by
  refine ⟨rfl, rfl, fun i inside => ?_⟩
  simp only [programmedColumn, SimNand.store, memcpy]
  rw [if_pos (by omega), Nat.sub_zero, Nat.add_comm]

section Programming

variable {block page : Nat}

/-- The loop over the planes programs their columns. -/
theorem wp_programPlanes {main : Memory} {spare : Option Spare} {plane count : Nat}
    {post : Unit → MtdRam → SimNand → Prop} (fits : SimFits g)
    (isBlock : block < g.cfgLogBlockCount) (isPage : page < g.pagePerPhyBlock)
    (planes : plane + count = g.planePerDie)
    (selected : plane ≠ 0 → sim.chip = g.mtdChipNum block)
    (blank : ∀ other, plane ≤ other → other < g.planePerDie →
      sim.simNand (g.mtdChipNum block) (g.mtdRowAddress block other page) = .blank)
    (meets : ∀ sim',
      (∀ other, plane ≤ other → other < g.planePerDie →
        sim'.simNand (g.mtdChipNum block) (g.mtdRowAddress block other page) =
          programmedColumn g main spare other) →
      (∀ chip row, (∀ other, plane ≤ other → other < g.planePerDie →
          row ≠ g.mtdRowAddress block other page) →
        sim'.simNand chip row = sim.simNand chip row) →
      post () ram sim') :
    Code.wp (simMachine g) (fun _ => True)
      (programPlanes g block page (some main) spare (List.range' plane count)) post ram sim := by
  induction count generalizing plane sim with
  | zero =>
      refine ⟨trivial, meets sim ?_ fun _ _ _ => rfl⟩
      intro other first last
      omega
  | succ count ih =>
      have isPlane : plane < g.planePerDie := by omega
      have inRange := mtdRowAddress_lt fits.width isBlock isPlane isPage
      -- one plane is programmed, and the others are left to the rest of the loop
      have step : ∀ sim₁ : SimNand, sim₁.simNand = sim.simNand → sim₁.state = .program →
          sim₁.chip = g.mtdChipNum block → sim₁.rowAddr = g.mtdRowAddress block plane page →
          ∀ buffer, (buffer = fun i => main (i + plane * g.pageSize)) →
          Code.wp (simMachine g) (fun _ => True) (do
            nandSendData (some buffer) spare
            programPlanes g block page (some main) spare (List.range' (plane + 1) count))
            post ram sim₁ := by
        rintro sim₁ same programming chip row buffer rfl
        have isBlank : sim₁.simNand sim₁.chip sim₁.rowAddr = .blank := by
          rw [same, chip, row, blank plane le_rfl isPlane]
        rw [Code.wp_bind, wp_sendData programming (by rw [row]; exact fits.lt_assertedRows inRange)
          (by rw [chip]; exact g.mtdChipNum_lt block) (by rw [row]; exact inRange)
          (by rw [isBlank]; rfl), isBlank]
        refine ih (by omega) (fun _ => chip) ?_ ?_
        · intro other first last
          have apart : g.mtdRowAddress block other page ≠ sim₁.rowAddr := by
            rw [row]
            intro equal
            obtain ⟨-, samePlane, -⟩ :=
              mtdRowAddress_inj fits.width isBlock last isPage isBlock isPlane isPage equal
            omega
          rw [setColumn_other _ _ apart, same]
          exact blank other (by omega) last
        · intro sim₂ stored others
          refine meets sim₂ ?_ ?_
          · intro other first last
            by_cases here : other = plane
            · subst here
              rw [others, ← chip, ← row, setColumn_same]
              · rfl
              · intro behind after isBehind equal
                obtain ⟨-, samePlane, -⟩ :=
                  mtdRowAddress_inj fits.width isBlock isPlane isPage isBlock isBehind isPage equal
                omega
            · exact stored other (by omega) last
          · intro otherChip otherRow apart
            rw [others _ _ fun other first last => apart other (by omega) last,
              setColumn_other _ _ (by rw [row]; exact apart plane le_rfl isPlane), same]
      rw [List.range'_succ, programPlanes]
      by_cases first : plane = 0
      · subst first
        simp only [if_true, Code.wp_bind, wp_selectChip, wp_sendCmd, SimNand.sendCmd]
        rw [wp_sendAddr (by simp), ← Code.wp_bind]
        refine step _ ?_ ?_ ?_ ?_ _ ?_
        · rfl
        · rfl
        · rfl
        · rfl
        · simp only [Nat.zero_mul, Nat.add_zero]
      · have two : g.planePerDie = 2 := by
          have cases := fits.planes_cases
          omega
        have second : plane = 1 := by omega
        subst second
        simp only [first, if_false, Code.wp_bind, Code.wp_assert, wp_sendCmd, SimNand.sendCmd]
        refine ⟨two, trivial, ?_⟩
        rw [wp_sendAddr (by simp), ← Code.wp_bind]
        refine step _ ?_ ?_ ?_ ?_ _ ?_
        · rfl
        · rfl
        · exact selected first
        · rfl
        · simp only [Nat.one_mul]

/-- Programming an erased page enters it in the map. -/
theorem wp_program {main : Memory} {spare : Option Spare} {nand : Nand Memory}
    {post : Status → MtdRam → SimNand → Prop} (fits : SimFits g)
    (holds : SimHolds g sim.simNand nand) (isBlock : block < g.cfgLogBlockCount)
    (isPage : page < g.pagePerPhyBlock) (erased : nand block page = none)
    (meets : ∀ sim', SimHolds g sim'.simNand (nand.program block page ⟨main, spare.getD .ones⟩) →
      post .success ram sim') :
    Code.wp (simMachine g) (fun _ => True) (program g block page (some main) spare) post ram
      sim := by
  have blank : ∀ plane, 0 ≤ plane → plane < g.planePerDie →
      sim.simNand (g.mtdChipNum block) (g.mtdRowAddress block plane page) = .blank := by
    intro plane _ isPlane
    have column := holds block isBlock plane isPlane page isPage
    rwa [erased] at column
  rw [program, Code.wp_bind, List.range_eq_range']
  refine wp_programPlanes fits isBlock isPage (Nat.zero_add _)
    (fun impossible => (impossible rfl).elim) blank fun sim' stored others => ?_
  simp only [Code.wp_bind, wp_sendCmd, SimNand.sendCmd]
  refine ⟨trivial, meets _ ?_⟩
  intro otherBlock isOther plane isPlane otherPage isOtherPage
  by_cases same : otherBlock = block ∧ otherPage = page
  · obtain ⟨rfl, rfl⟩ := same
    rw [Nand.program_same, stored plane (Nat.zero_le _) isPlane]
    exact programmedColumn_holds main spare plane
  · have unchanged : (nand.program block page ⟨main, spare.getD .ones⟩) otherBlock otherPage =
        nand otherBlock otherPage := by
      by_cases sameBlock : otherBlock = block
      · subst sameBlock
        exact Nand.program_otherPage _ _ _ fun samePage => same ⟨rfl, samePage⟩
      · exact Nand.program_other _ _ _ _ sameBlock
    rw [unchanged, others]
    · exact holds otherBlock isOther plane isPlane otherPage isOtherPage
    · intro other _ isPlane' equal
      obtain ⟨sameBlock, -, samePage⟩ :=
        mtdRowAddress_inj fits.width isOther isPlane isOtherPage isBlock isPlane' isPage equal
      exact same ⟨sameBlock, samePage⟩

end Programming

/-! ## Erasing -/

/-- Clearing two ranges of rows, one behind the other, clears the rows of both. -/
theorem clear_clear (columns : Nat → Nat → SimColumn) (chip first n k : Nat) :
    SimNand.clear (SimNand.clear columns chip first n) chip (first + n) k =
      SimNand.clear columns chip first (n + k) := by
  funext other row
  unfold SimNand.clear
  by_cases second : other = chip ∧ first + n ≤ row ∧ row < first + n + k
  · rw [if_pos second, if_pos ⟨second.1, by omega, by omega⟩]
  · rw [if_neg second]
    by_cases inFirst : other = chip ∧ first ≤ row ∧ row < first + n
    · rw [if_pos inFirst, if_pos ⟨inFirst.1, by omega, by omega⟩]
    · rw [if_neg inFirst, if_neg (by omega)]

section Erasing

variable {block : Nat}

/-- The loop over the planes clears the rows of all of them. -/
theorem wp_erasePlanes {post : Unit → MtdRam → SimNand → Prop} (fits : SimFits g)
    (isBlock : block < g.cfgLogBlockCount)
    (meets : ∀ sim', sim'.simNand = SimNand.clear sim.simNand (g.mtdChipNum block)
        (g.blockRow block) (g.planePerDie * g.pagePerPhyBlock) → post () ram sim') :
    Code.wp (simMachine g) (fun _ => True) (erasePlanes g block (List.range g.planePerDie)) post
      ram sim := by
  have pages := g.pagePerPhyBlock_pos
  have isChip := g.mtdChipNum_lt block
  have last := blockRow_end_le isBlock
  have row : ∀ plane < g.planePerDie,
      g.mtdRowAddress block plane 0 = g.blockRow block + plane * g.pagePerPhyBlock := by
    intro plane isPlane
    rw [mtdRowAddress_eq fits.width isBlock isPlane pages, Nat.add_zero]
  rcases fits.planes_cases with one | two
  · have first := row 0 (by omega)
    rw [one, Nat.one_mul] at last meets
    rw [one, List.range_one]
    simp only [erasePlanes, if_true, Code.wp_bind, wp_selectChip, wp_sendCmd, SimNand.sendCmd]
    rw [wp_sendAddr_erase rfl fits.pagePerPhyBlock_lt isChip (by omega), first, Nat.zero_mul,
      Nat.add_zero]
    exact ⟨trivial, meets _ rfl⟩
  · have first := row 0 (by omega)
    have second := row 1 (by omega)
    rw [two, Nat.two_mul] at last meets
    rw [two]
    change Code.wp _ _ (erasePlanes g block [0, 1]) _ _ _
    simp only [erasePlanes, if_true, Code.wp_bind, wp_selectChip, wp_sendCmd, SimNand.sendCmd]
    rw [wp_sendAddr_erase rfl fits.pagePerPhyBlock_lt isChip (by omega), first, Nat.zero_mul,
      Nat.add_zero]
    simp only [Nat.one_ne_zero, if_false, Code.wp_bind, Code.wp_assert, wp_sendCmd,
      SimNand.sendCmd]
    refine ⟨two, trivial, ?_⟩
    rw [wp_sendAddr_erase rfl fits.pagePerPhyBlock_lt isChip (by omega), second, Nat.one_mul]
    refine ⟨trivial, meets _ ?_⟩
    exact clear_clear _ _ _ _ _

/-- Erasing clears the rows of the block and no others. -/
theorem wp_erase {post : Status → MtdRam → SimNand → Prop} (fits : SimFits g)
    (isBlock : block < g.cfgLogBlockCount)
    (meets : ∀ sim', sim'.simNand = SimNand.clear sim.simNand (g.mtdChipNum block)
        (g.blockRow block) (g.planePerDie * g.pagePerPhyBlock) →
      post .success testReset sim') :
    Code.wp (simMachine g) (fun _ => True) (erase g block) post testReset sim := by
  simp only [erase, maxRetryTimes, eraseAttempts, Code.wp_bind]
  refine wp_erasePlanes fits isBlock fun sim' cleared => ?_
  simp only [wp_sendCmd, SimNand.sendCmd, Code.wp_assert, wp_waitRb]
  refine ⟨fits.isChip, trivial, wp_readStatus isBlock ?_⟩
  simp only [if_true]
  exact ⟨trivial, meets _ cleared⟩

/-- The block leaves the map. -/
theorem SimHolds.clear {columns : Nat → Nat → SimColumn} {nand : Nand Memory}
    (holds : SimHolds g columns nand) (width : g.rowWidth < 32)
    (isBlock : block < g.cfgLogBlockCount) :
    SimHolds g
      (SimNand.clear columns (g.mtdChipNum block) (g.blockRow block)
        (g.planePerDie * g.pagePerPhyBlock)) (nand.erase block) := by
  intro other isOther plane isPlane page isPage
  unfold SimNand.clear
  by_cases same : other = block
  · subst same
    rw [Nand.erase_same, if_pos]
    · rfl
    · exact ⟨rfl, (inBlock_iff width isOther).mpr ⟨plane, isPlane, page, isPage, rfl⟩⟩
  · rw [Nand.erase_other _ _ same, if_neg]
    · exact holds other isOther plane isPlane page isPage
    · rintro ⟨-, inBlock⟩
      obtain ⟨plane', isPlane', page', isPage', equal⟩ := (inBlock_iff width isBlock).mp inBlock
      exact same (mtdRowAddress_inj width isOther isPlane isPage isBlock isPlane' isPage' equal).1

end Erasing

end OpenNfm.Mtd
