import OpenNfm.Mtd.Api

/-!
# The factory markers

`MTD_CheckBlock` looks for the marker that a factory leaves in the first spare byte of a bad
block.  It is run on the simulated device with one change: a byte is read from the spare area
that the address selects, and not always as `0xff`.

The loop goes over two pages of each plane, but the row that it reads is the one of page 0
in both rounds.
-/

namespace OpenNfm

open OpenNfm.Program

/-- The first byte of a spare area. -/
def Spare.firstByte (spare : Spare) : UInt8 :=
  UInt8.ofNat spare.first

/-- The simulated device, with spare bytes that can be read. -/
def markedMachine (g : Geometry) : Machine NandOp NandAns SimNand
  | sim, .receiveBytes len =>
      if sim.state = .read ∧ sim.colAddr = g.pageSize then
        .ok (fun _ => (sim.simNand sim.chip sim.rowAddr).spareData.firstByte, sim)
      else simMachine g sim (.receiveBytes len)
  | sim, op => simMachine g sim op

namespace Mtd

section CheckFile

variable (g : Geometry)

/-- A round of the inner loop.  No row is read behind a marker. -/
def checkPage (block plane : Nat) (ret : Status) : MtdApi Status :=
  if ret = .success then do
    nandSelectChip (g.mtdChipNum block)
    nandSendCmd .read
    nandSendAddr 0 (g.mtdRowAddress block plane 0)
    nandSendCmd .readCommit
    nandWaitRb (g.mtdChipNum block)
    Code.assert (g.mtdRowAddress block plane 0 ≠ 0xff)
    -- the first byte in the spare area
    nandSendCmd .randomDataOut
    nandSendAddr g.pageSize (g.mtdRowAddress block plane 0)
    nandSendCmd .randomDataOutCommit
    let bytes ← nandReceiveBytes 1
    if bytes 0 ≠ 0xff then pure .badblock else pure ret
  else pure ret

/-- The loop over the first pages of a plane. -/
def checkPages (block plane : Nat) : List Nat → Status → MtdApi Status
  | [], ret => pure ret
  | _ :: rest, ret => do
      let ret ← checkPage g block plane ret
      checkPages block plane rest ret

/-- The loop of `MTD_CheckBlock` over the planes. -/
def checkPlanes (block : Nat) : List Nat → Status → MtdApi Status
  | [], ret => pure ret
  | plane :: rest, ret => do
      let ret ← checkPages g block plane [0, 1] ret
      checkPlanes block rest ret

/-- `MTD_CheckBlock` -/
def checkBlock (block : Nat) : MtdApi Status :=
  checkPlanes g block (List.range g.planePerDie) .success

end CheckFile

/-! ## What the check finds -/

section Check

variable {g : Geometry} {sim : SimNand} {ram : MtdRam} {block plane : Nat}

/-- The first spare byte of a page of a block. -/
def spareByte (g : Geometry) (sim : SimNand) (block plane page : Nat) : UInt8 :=
  (sim.simNand (g.mtdChipNum block) (g.mtdRowAddress block plane page)).spareData.firstByte

/-- The device after a row of a block has been looked at. -/
def probed (g : Geometry) (sim : SimNand) (block plane : Nat) : SimNand :=
  { sim with
    state := .read
    chip := g.mtdChipNum block
    colAddr := g.pageSize
    rowAddr := g.mtdRowAddress block plane 0 }

theorem exec_selectChip (chip : Nat) :
    ((nandSelectChip chip).run ram).exec (markedMachine g) sim =
      .ok (((), ram), { sim with chip := chip }) :=
  Code.exec_perform rfl

theorem exec_sendCmd (cmd : NandCmd) :
    ((nandSendCmd cmd).run ram).exec (markedMachine g) sim = .ok (((), ram), sim.sendCmd cmd) :=
  Code.exec_perform rfl

theorem exec_sendAddr {col row : Nat} (reading : sim.state = .read) :
    ((nandSendAddr col row).run ram).exec (markedMachine g) sim =
      .ok (((), ram), { sim with colAddr := col, rowAddr := row }) :=
  Code.exec_perform (if_neg (by rw [reading]; decide))

theorem exec_waitRb (chip : Nat) :
    ((nandWaitRb chip).run ram).exec (markedMachine g) sim = .ok (((), ram), sim) :=
  Code.exec_perform rfl

theorem exec_receiveSpare (reading : sim.state = .read) (spare : sim.colAddr = g.pageSize) :
    ((nandReceiveBytes 1).run ram).exec (markedMachine g) sim =
      .ok ((fun _ => (sim.simNand sim.chip sim.rowAddr).spareData.firstByte, ram), sim) :=
  Code.exec_perform (if_pos ⟨reading, spare⟩)

theorem exec_checkPage (isRow : g.mtdRowAddress block plane 0 ≠ 0xff) :
    ((checkPage g block plane .success).run ram).exec (markedMachine g) sim =
      .ok ((if spareByte g sim block plane 0 ≠ 0xff then .badblock else .success, ram),
        probed g sim block plane) := by
  unfold checkPage
  rw [if_pos rfl, Code.exec_bind_of_ok (exec_selectChip _), Code.exec_bind_of_ok (exec_sendCmd _),
    Code.exec_bind_of_ok (exec_sendAddr rfl), Code.exec_bind_of_ok (exec_sendCmd _),
    Code.exec_bind_of_ok (exec_waitRb _), Code.assert, if_pos isRow, pure_bind,
    Code.exec_bind_of_ok (exec_sendCmd _), Code.exec_bind_of_ok (exec_sendAddr rfl),
    Code.exec_bind_of_ok (exec_sendCmd _), Code.exec_bind_of_ok (exec_receiveSpare rfl rfl)]
  show ((if spareByte g sim block plane 0 ≠ 0xff then pure .badblock
    else pure .success : MtdApi Status).run ram).exec (markedMachine g)
      (probed g sim block plane) = _
  split <;> rfl

theorem exec_checkPages (isRow : g.mtdRowAddress block plane 0 ≠ 0xff) :
    ((checkPages g block plane [0, 1] .success).run ram).exec (markedMachine g) sim =
      .ok ((if spareByte g sim block plane 0 ≠ 0xff then .badblock else .success, ram),
        probed g sim block plane) := by
  unfold checkPages
  rw [Code.exec_bind_of_ok (exec_checkPage isRow)]
  split
  · rfl
  · rename_i unmarked
    unfold checkPages
    rw [Code.exec_bind_of_ok (exec_checkPage isRow)]
    have same : spareByte g (probed g sim block plane) block plane 0 =
      spareByte g sim block plane 0 := rfl
    rw [same, if_neg unmarked]
    rfl

theorem exec_checkPlanes_bad (planes : List Nat) :
    ((checkPlanes g block planes .badblock).run ram).exec (markedMachine g) sim =
      .ok ((.badblock, ram), sim) := by
  induction planes with
  | nil => rfl
  | cons plane rest ih => exact ih

/-- A plane shows a marker in page 0. -/
def marksFirstPage (g : Geometry) (sim : SimNand) (block : Nat) (planes : List Nat) : Bool :=
  planes.any fun plane => spareByte g sim block plane 0 ≠ 0xff

theorem exec_checkPlanes {planes : List Nat}
    (isRow : ∀ plane ∈ planes, g.mtdRowAddress block plane 0 ≠ 0xff) :
    ∃ after : SimNand, after.simNand = sim.simNand ∧
      ((checkPlanes g block planes .success).run ram).exec (markedMachine g) sim =
        .ok ((if marksFirstPage g sim block planes then .badblock else .success, ram), after) := by
  induction planes generalizing sim with
  | nil => exact ⟨sim, rfl, rfl⟩
  | cons plane rest ih =>
      unfold checkPlanes
      rw [Code.exec_bind_of_ok (exec_checkPages (isRow plane List.mem_cons_self))]
      by_cases marked : spareByte g sim block plane 0 ≠ 0xff
      · refine ⟨probed g sim block plane, rfl, ?_⟩
        rw [if_pos marked, exec_checkPlanes_bad]
        simp only [marksFirstPage, List.any_cons, decide_eq_true marked, Bool.true_or, if_true]
      · obtain ⟨after, kept, run⟩ := @ih (probed g sim block plane)
          fun plane inside => isRow plane (List.mem_cons_of_mem _ inside)
        refine ⟨after, kept, ?_⟩
        rw [if_neg marked, run]
        simp only [marksFirstPage, List.any_cons, decide_eq_false marked, Bool.false_or]
        rfl

/-- The check finds the markers in page 0 of some plane, and no others.  It changes no page. -/
theorem exec_checkBlock (pages : 0 < g.pagePerBlockShift) :
    ∃ after : SimNand, after.simNand = sim.simNand ∧
      ((checkBlock g block).run ram).exec (markedMachine g) sim =
        .ok ((if marksFirstPage g sim block (List.range g.planePerDie) then .badblock
          else .success, ram), after) := by
  refine exec_checkPlanes fun plane _ => ?_
  -- a row that begins a block is even
  have even : g.mtdRowAddress block plane 0 % 2 = 0 := by
    obtain ⟨shift, isShift⟩ : ∃ shift, g.pagePerBlockShift = shift + 1 :=
      ⟨g.pagePerBlockShift - 1, by omega⟩
    unfold Geometry.mtdRowAddress
    rw [isShift, Nat.shiftLeft_succ, Nat.add_zero, Nat.mod_mod_of_dvd _ ⟨2 ^ 31, by rfl⟩,
      Nat.mul_mod_right]
  intro same
  rw [same] at even
  exact absurd even (by decide)

end Check

end Mtd

end OpenNfm
