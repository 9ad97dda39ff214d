import OpenNfm.Mtd.Simulated

/-!
# The MTD layer as a map from pages to data

Sessions of calls on a blank simulated device answer like a map from block and page
to what was programmed.  `MtdRefines` collects this with the facts about rows and
erasing.  It holds of exactly those geometries whose chip numbers are bytes other
than the invalid one, and whose rows on all chips can be counted in a word.
-/

namespace OpenNfm.Mtd

open OpenNfm.Program Geometry

variable {g : Geometry}

/-! ## Calls and answers -/

/-- A call of the layer above. -/
inductive MtdCall where
  | erase (block : Nat)
  | program (block page : Nat) (buffer : Memory) (spare : Option Spare)
  | read (block page : Nat) (buffer : Option Memory) (spare : Option Spare)
  | waitReady (block : Nat)
  | readStatus (block : Nat)

/-- What a call answers: a status, or a status with what was read. -/
inductive MtdAnswer where
  | status (ret : Status)
  | page (ret : Status) (buffer : Option Memory) (spare : Option Spare)

/-- The call addresses the device, and it programs erased pages only. -/
def MtdCall.Fits (g : Geometry) (nand : Nand Memory) : MtdCall → Prop
  | .erase block => block < g.cfgLogBlockCount
  | .program block page _ _ =>
      block < g.cfgLogBlockCount ∧ page < g.pagePerPhyBlock ∧ nand block page = none
  | .read block page _ _ => block < g.cfgLogBlockCount ∧ page < g.pagePerPhyBlock
  | .waitReady block => block < g.cfgLogBlockCount
  | .readStatus block => block < g.cfgLogBlockCount

/-- What the call does to the map. -/
def MtdCall.next (nand : Nand Memory) : MtdCall → Nand Memory
  | .erase block => nand.erase block
  | .program block page buffer spare => nand.program block page ⟨buffer, spare.getD .ones⟩
  | _ => nand

/-- The answer of the map. -/
def MtdCall.answer (g : Geometry) (nand : Nand Memory) : MtdCall → MtdAnswer
  | .read block page buffer spare =>
      let (ret, buffer, spare) := readAnswer g (nand block page) buffer spare
      .page ret buffer spare
  | _ => .status .success

/-- Each call may be made where the calls before it have left the array. -/
def CallsFit (g : Geometry) : Nand Memory → List MtdCall → Prop
  | _, [] => True
  | nand, call :: rest => call.Fits g nand ∧ CallsFit g (call.next nand) rest

/-- The answers of the array to a list of calls. -/
def mtdAnswers (g : Geometry) : Nand Memory → List MtdCall → List MtdAnswer
  | _, [] => []
  | nand, call :: rest => call.answer g nand :: mtdAnswers g (call.next nand) rest

section Session

variable (g) (fuel : Nat)

/-- A call, as the code answers it. -/
def mtdCall : MtdCall → MtdApi MtdAnswer
  | .erase block => do
      let ret ← erase g block
      pure (.status ret)
  | .program block page buffer spare => do
      let ret ← program g block page (some buffer) spare
      pure (.status ret)
  | .read block page buffer spare => do
      let (ret, buffer, spare) ← read g fuel block page buffer spare
      pure (.page ret buffer spare)
  | .waitReady block => do
      let ret ← waitReady g fuel block
      pure (.status ret)
  | .readStatus block => do
      let ret ← readStatus g block
      pure (.status ret)

/-- A list of calls, as the code answers them. -/
def mtdCalls : List MtdCall → MtdApi (List MtdAnswer)
  | [] => pure []
  | call :: rest => do
      let answer ← mtdCall g fuel call
      let answers ← mtdCalls rest
      pure (answer :: answers)

end Session

/-- One call answers like the map and keeps the columns in step with it. -/
theorem wp_mtdCall {fuel : Nat} {sim : SimNand} {nand : Nand Memory} {call : MtdCall}
    {post : MtdAnswer → MtdRam → SimNand → Prop} (fits : SimFits g) (pos : 0 < fuel)
    (holds : SimHolds g sim.simNand nand) (fit : call.Fits g nand)
    (meets : ∀ sim', SimHolds g sim'.simNand (call.next nand) →
      post (call.answer g nand) testReset sim') :
    Code.wp (simMachine g) (fun _ => True) (mtdCall g fuel call) post testReset sim := by
  cases call with
  | erase block =>
      rw [mtdCall, Code.wp_bind]
      refine wp_erase fits fit fun sim' cleared => ?_
      exact ⟨trivial, meets sim' (cleared ▸ holds.clear fits.width fit)⟩
  | program block page buffer spare =>
      obtain ⟨isBlock, isPage, erased⟩ := fit
      rw [mtdCall, Code.wp_bind]
      refine wp_program fits holds isBlock isPage erased fun sim' holds' => ?_
      exact ⟨trivial, meets sim' holds'⟩
  | read block page buffer spare =>
      rw [mtdCall, Code.wp_bind]
      refine wp_read fits.width pos holds fit.1 fit.2 fun sim' same => ?_
      exact ⟨trivial, meets sim' (same ▸ holds)⟩
  | waitReady block =>
      rw [mtdCall, Code.wp_bind]
      exact wp_waitReady pos fit ⟨trivial, meets _ holds⟩
  | readStatus block =>
      rw [mtdCall, Code.wp_bind]
      exact wp_readStatus fit ⟨trivial, meets _ holds⟩

/-- A run of calls answers like the map. -/
theorem wp_mtdCalls {fuel : Nat} {sim : SimNand} {nand : Nand Memory} {calls : List MtdCall}
    {post : List MtdAnswer → MtdRam → SimNand → Prop} (fits : SimFits g) (pos : 0 < fuel)
    (holds : SimHolds g sim.simNand nand) (fit : CallsFit g nand calls)
    (meets : ∀ sim', post (mtdAnswers g nand calls) testReset sim') :
    Code.wp (simMachine g) (fun _ => True) (mtdCalls g fuel calls) post testReset sim := by
  induction calls generalizing nand sim post with
  | nil => exact ⟨trivial, meets sim⟩
  | cons call rest ih =>
      obtain ⟨fitsCall, fit⟩ := fit
      simp only [mtdCalls, Code.wp_bind]
      refine wp_mtdCall fits pos holds fitsCall fun sim' holds' => ?_
      exact ih holds' fit fun sim₂ => ⟨trivial, meets sim₂⟩

/-! ## The refinement -/

/-- Rows tell pages apart, an erase clears the pages of its block on all planes and
nothing else, and every session on a blank device answers like the map. -/
structure MtdRefines (g : Geometry) : Prop where
  inRange : ∀ block < g.cfgLogBlockCount, ∀ plane < g.planePerDie, ∀ page < g.pagePerPhyBlock,
    g.mtdChipNum block < g.chipCount ∧ g.mtdRowAddress block plane page < g.cfgNandRowCount
  distinct : ∀ block < g.cfgLogBlockCount, ∀ plane < g.planePerDie, ∀ page < g.pagePerPhyBlock,
    ∀ block' < g.cfgLogBlockCount, ∀ plane' < g.planePerDie, ∀ page' < g.pagePerPhyBlock,
      g.mtdRowAddress block plane page = g.mtdRowAddress block' plane' page' →
        block = block' ∧ plane = plane' ∧ page = page'
  erases : ∀ (sim : SimNand), ∀ block < g.cfgLogBlockCount, ∃ sim',
    ((erase g block).run testReset).exec (simMachine g) sim =
        .ok ((.success, testReset), sim') ∧
      (∀ plane < g.planePerDie, ∀ page < g.pagePerPhyBlock,
        sim'.simNand (g.mtdChipNum block) (g.mtdRowAddress block plane page) = .blank) ∧
      ∀ chip row, (chip = g.mtdChipNum block → ∀ plane < g.planePerDie,
          ∀ page < g.pagePerPhyBlock, row ≠ g.mtdRowAddress block plane page) →
        sim'.simNand chip row = sim.simNand chip row
  answers : ∀ (sim : SimNand) (fuel : Nat) (calls : List MtdCall),
    (∀ chip row, sim.simNand chip row = .blank) → 0 < fuel →
      CallsFit g (fun _ _ => none) calls → ∃ sim',
        ((mtdCalls g fuel calls).run testReset).exec (simMachine g) sim =
          .ok ((mtdAnswers g (fun _ _ => none) calls, testReset), sim')

theorem SimFits.refines (fits : SimFits g) : MtdRefines g where
  inRange block isBlock plane isPlane page isPage :=
    ⟨g.mtdChipNum_lt block, mtdRowAddress_lt fits.width isBlock isPlane isPage⟩
  distinct _ isBlock _ isPlane _ isPage _ isBlock' _ isPlane' _ isPage' equal :=
    mtdRowAddress_inj fits.width isBlock isPlane isPage isBlock' isPlane' isPage' equal
  erases sim block isBlock := by
    have run : Code.wp (simMachine g) (fun _ => True) (erase g block)
        (fun ret ram sim' => ret = .success ∧ ram = testReset ∧
          sim'.simNand = SimNand.clear sim.simNand (g.mtdChipNum block) (g.blockRow block)
            (g.planePerDie * g.pagePerPhyBlock)) testReset sim :=
      wp_erase fits isBlock fun sim' cleared => ⟨rfl, rfl, cleared⟩
    obtain ⟨⟨ret, ram⟩, sim', exec, rfl, rfl, cleared⟩ := Prog.exec_of_wp run
    refine ⟨sim', exec, ?_, ?_⟩
    · intro plane isPlane page isPage
      rw [cleared]
      exact if_pos ⟨rfl, (inBlock_iff fits.width isBlock).mpr ⟨plane, isPlane, page, isPage, rfl⟩⟩
    · intro chip row apart
      rw [cleared]
      refine if_neg ?_
      rintro ⟨isChip, inBlock⟩
      obtain ⟨plane, isPlane, page, isPage, equal⟩ := (inBlock_iff fits.width isBlock).mp inBlock
      exact apart isChip plane isPlane page isPage equal
  answers sim fuel calls blank pos fit := by
    have holds : SimHolds g sim.simNand fun _ _ => none :=
      fun _ _ _ _ _ _ => blank _ _
    have run : Code.wp (simMachine g) (fun _ => True) (mtdCalls g fuel calls)
        (fun answers ram _ => answers = mtdAnswers g (fun _ _ => none) calls ∧ ram = testReset)
        testReset sim :=
      wp_mtdCalls fits pos holds fit fun _ => ⟨rfl, rfl⟩
    obtain ⟨⟨answers, ram⟩, sim', exec, rfl, rfl⟩ := Prog.exec_of_wp run
    exact ⟨sim', exec⟩

/-! ## Geometries beyond the bounds -/

theorem wp_of_exec {α : Type} {code : MtdApi α} {sim sim' : SimNand} {value : α}
    {ram ram' : MtdRam}
    (exec : (code.run ram).exec (simMachine g) sim = .ok ((value, ram'), sim')) :
    Code.wp (simMachine g) (fun _ => True) code (fun _ _ _ => True) ram sim :=
  Prog.wp_mono (Prog.wp_of_exec exec) (fun _ _ _ => trivial) fun _ _ => trivial

/-- A run that needs a false assertion behind a first part does not return. -/
theorem not_wp_assert {α : Type} {first : MtdApi Unit} {cmd : NandCmd} {condition : Prop}
    [Decidable condition] {rest : Unit → MtdApi α} {post : α → MtdRam → SimNand → Prop}
    {ram : MtdRam} {sim : SimNand} (fails : ¬ condition) :
    ¬ Code.wp (simMachine g) (fun _ => True) (do
        first
        nandSendCmd cmd
        Code.assert condition >>= rest) post ram sim := by
  intro run
  rw [Code.wp_bind] at run
  obtain ⟨_, _, _, behind⟩ := Prog.exec_of_wp run
  rw [Code.wp_bind, wp_sendCmd, Code.wp_bind, Code.wp_assert] at behind
  exact fails behind.1

/-- With 256 chips, one of them has the number that names no chip, and its blocks
cannot be erased. -/
theorem not_refines_of_chips (chips : 8 ≤ g.chipCountShift) : ¬ MtdRefines g := by
  intro refines
  have many : 2 ^ 8 ≤ g.chipCount := Nat.pow_le_pow_right (by decide) chips
  have isBlock : 255 * 2 ^ g.diePerChipShift < g.cfgLogBlockCount := by
    have dies : 2 ^ g.diePerChipShift * 2 ^ g.chipCountShift ≤ g.cfgLogBlockCount := by
      rw [cfgLogBlockCount, ← Nat.pow_add]
      exact Nat.pow_le_pow_right (by decide) (by omega)
    have lower : 2 ^ g.diePerChipShift * 2 ^ 8 ≤ 2 ^ g.diePerChipShift * 2 ^ g.chipCountShift :=
      Nat.mul_le_mul_left _ many
    have pos := Nat.two_pow_pos g.diePerChipShift
    omega
  have isInvalid : g.mtdChipNum (255 * 2 ^ g.diePerChipShift) = invalidChip := by
    have shifted : (255 * 2 ^ g.diePerChipShift) >>> g.diePerChipShift = 255 := by
      rw [Nat.shiftRight_eq_div_pow, Nat.mul_div_cancel _ (Nat.two_pow_pos _)]
    have masked : 255 &&& (g.chipCount - 1) = 255 % g.chipCount :=
      Nat.and_two_pow_sub_one_eq_mod _ _
    rw [mtdChipNum, shifted, masked, Nat.mod_eq_of_lt (show 255 < g.chipCount by omega)]
    rfl
  obtain ⟨sim', exec, -⟩ := refines.erases .init _ isBlock
  have run := wp_of_exec exec
  rw [erase, maxRetryTimes, eraseAttempts] at run
  exact not_wp_assert (fun isChip => isChip isInvalid) run

/-- When the rows on all chips overflow a word, nothing can be programmed. -/
theorem not_refines_of_total (total : 32 ≤ g.rowWidth + g.chipCountShift) : ¬ MtdRefines g := by
  intro refines
  have noRows : g.assertedRows = 0 := by
    rw [assertedRows, cfgNandRowCount_eq_pow, chipCount, ← Nat.pow_add]
    exact Nat.mod_eq_zero_of_dvd (Nat.pow_dvd_pow 2 total)
  have isBlock : 0 < g.cfgLogBlockCount := Nat.two_pow_pos _
  have planes : List.range g.planePerDie = 0 :: List.range' 1 (g.planePerDie - 1) := by
    obtain ⟨count, more⟩ := Nat.exists_eq_succ_of_ne_zero g.planePerDie_pos.ne'
    rw [more, List.range_eq_range', List.range'_succ, Nat.succ_sub_one]
  obtain ⟨sim', exec⟩ := refines.answers .init 1 [.program 0 0 (fun _ => 0) none] (fun _ _ => rfl)
    Nat.one_pos ⟨⟨isBlock, g.pagePerPhyBlock_pos, rfl⟩, trivial⟩
  have run := wp_of_exec exec
  rw [mtdCalls, Code.wp_bind, mtdCall, Code.wp_bind, program, Code.wp_bind, planes] at run
  simp only [programPlanes, if_true, Code.wp_bind, wp_selectChip, wp_sendCmd,
    SimNand.sendCmd] at run
  rw [wp_sendAddr (by simp)] at run
  obtain ⟨_, _, _, step, _⟩ := Code.wp_perform.mp run
  simp [simMachine, noRows] at step

/-! ## Every geometry -/

/-- With rows of less than 32 bits, the layer refines the map exactly if there are
fewer than 256 chips and the rows on all chips fit a word. -/
theorem simulatedMtd_refines_iff (pages : g.pagePerBlockShift < 8) (planes : g.planePerDieShift ≤ 1)
    (width : g.rowWidth < 32) :
    MtdRefines g ↔ g.chipCountShift < 8 ∧ g.rowWidth + g.chipCountShift < 32 := by
  constructor
  · intro refines
    constructor
    · by_contra chips
      exact not_refines_of_chips (Nat.le_of_not_lt chips) refines
    · by_contra total
      exact not_refines_of_total (Nat.le_of_not_lt total) refines
  · rintro ⟨chips, total⟩
    exact (SimFits.mk pages planes width chips total).refines

/-- The simulated device that `cfg.h` selects. -/
theorem simulatedMtd_refines_simNand :
    MtdRefines simNand ↔ simNand.chipCountShift < 8 ∧
      simNand.rowWidth + simNand.chipCountShift < 32 :=
  simulatedMtd_refines_iff (by decide) (by decide) (by decide)

/-- The simulated device with 256 chips, which the comment on `CHIP_COUNT_SHIFT`
allows. -/
def manyChips : Geometry := { simNand with chipCountShift := 8 }

/-- The erase of a block on the last of 256 chips never ends. -/
theorem erase_halts_manyChips :
    (manyChips.pagePerBlockShift < 8 ∧ manyChips.planePerDieShift ≤ 1 ∧
        manyChips.rowWidth < 32 ∧ 510 < manyChips.cfgLogBlockCount) ∧
      ((erase manyChips 510).run testReset).exec (simMachine manyChips) .init =
        .error .assertion ∧
      ¬ MtdRefines manyChips :=
  ⟨by decide, rfl, not_refines_of_chips (by decide)⟩

end OpenNfm.Mtd
