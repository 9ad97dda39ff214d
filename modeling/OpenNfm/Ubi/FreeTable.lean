import OpenNfm.Ubi.Anchor

/-!
# The free block table

The part of `ubi_index.c` that works on the free block table: blocks ordered
by erase count, lowest first, in an array of fixed length whose unused tail
is invalid.
-/

namespace OpenNfm

open OpenNfm.Program

section FreeTableFile

variable (g : Geometry) (fuel : Nat) {D : Type}

/-! ## The loops on the array -/

/-- Index of the first block of the table that is on the die; none when an
invalid entry comes first. -/
def freeBlockSearch (table : Nat → BlockEc) (die : Nat) : Option Nat :=
  match (List.range g.freeBlockCount).find? fun i =>
      (table i).block = invalidBlock ∨ (table i).block % g.totalDieCount = die with
  | some i => if (table i).block = invalidBlock then none else some i
  | none => none

/-- Move forward all entries behind index `i` and invalidate the last one. -/
def freeBlockRemove (table : Nat → BlockEc) (i : Nat) : Nat → BlockEc := fun j =>
  if j < i then table j
  else if j < g.freeBlockCount - 1 then table (j + 1)
  else if j = g.freeBlockCount - 1 then .invalid
  else table j

/-- Count down from `i` while the entry at the index has a larger erase
count. -/
def freeBlockScan (table : Nat → BlockEc) (ec : EraseCount) : Nat → Nat
  | 0 => 0
  | i + 1 => if (table (i + 1)).ec > ec then freeBlockScan table ec i else i + 1

/-- The index that a block with this erase count is inserted at, when the scan
starts at `i`. -/
def freeBlockPosition (table : Nat → BlockEc) (ec : EraseCount) (i : Nat) : Nat :=
  let stop := freeBlockScan table ec i
  if stop > 0 then stop + 1
  else if (table 0).ec > ec then 0
  else 1

/-- Insert an entry at `position`, moving backward the entries up to `last`. -/
def freeBlockInsert (table : Nat → BlockEc) (position last : Nat) (entry : BlockEc) :
    Nat → BlockEc := fun j =>
  if j < position then table j
  else if j = position then entry
  else if j ≤ last then table (j - 1)
  else table j

/-- Index of the last entry with a valid erase count, counting down from `i`
to zero. -/
def freeBlockLastValid (table : Nat → BlockEc) : Nat → Nat
  | 0 => 0
  | i + 1 => if (table (i + 1)).ec ≠ invalidEc then i + 1 else freeBlockLastValid table i

/-- `a` is larger than `b` by more than the threshold. -/
def ecExceeds (a b : EraseCount) (threshold : Nat) : Bool :=
  match a, b with
  | some a, some b => a > b ∧ a - b > threshold
  | _, _ => false

/-! ## The functions of the index -/

/-- The array after a block is put; the last entry is discarded. -/
def freeBlockPut (table : Nat → BlockEc) (block : Nat) (ec : EraseCount) : Nat → BlockEc :=
  freeBlockInsert table (freeBlockPosition table ec (g.freeBlockCount - 2))
    (g.freeBlockCount - 1) ⟨block, ec⟩

/-- A change of the free block table. -/
def setFree (change : (Nat → BlockEc) → Nat → BlockEc) : Ubi D Unit :=
  modify fun ram =>
    { ram with indexTable := { ram.indexTable with free := change ram.indexTable.free } }

/-- `INDEX_FreeBlock_Put` -/
def indexFreeBlockPut (dirtyBlock : Nat) (dirtyBlockEc : EraseCount) : Ubi D Unit :=
  setFree fun table => freeBlockPut g table dirtyBlock dirtyBlockEc

/-- One round after another of `INDEX_FreeBlock_Get`: take the first block on
the die, or else the first block, and erase it; a block that fails is logged
and dropped. -/
def indexFreeBlockGetLoop (die : Nat) : Nat → Ubi D (Status × BlockEc)
  | 0 => Code.halt .fuel
  | rounds + 1 => do
      let ram ← get
      let i := (freeBlockSearch g ram.indexTable.free die).getD 0
      let entry := ram.indexTable.free i
      let ret ←
        if entry.block ≠ invalidBlock then mtdErase entry.block else pure .toomanyBadblock
      if ret ≠ .success then anchorLogBadBlock g entry.block
      if ret ≠ .toomanyBadblock then setFree fun table => freeBlockRemove g table i
      if ret ≠ .success ∧ ret ≠ .toomanyBadblock ∧ ret ≠ .simulatedPowerLoss then
        indexFreeBlockGetLoop die rounds
      else pure (ret, ⟨entry.block, entry.ec.plus 1⟩)

/-- `INDEX_FreeBlock_Get` -/
def indexFreeBlockGet (die : Nat) : Ubi D (Status × BlockEc) :=
  indexFreeBlockGetLoop g (die % g.totalDieCount) fuel

/-- The last entry of the table with a valid erase count, when it is not the
first one. -/
def indexFreeBlockGetMaxEcBlock : Ubi D (Option BlockEc) := do
  let ram ← get
  let i := freeBlockLastValid ram.indexTable.free (g.freeBlockCount - 1)
  pure (if 0 < i then some (ram.indexTable.free i) else none)

/-- Replace the entry with the largest valid erase count by the given block,
at the place that its erase count asks for. -/
def indexFreeBlockSwapMaxEcBlock (minEcBlock : Nat) (minEc : EraseCount) : Ubi D Unit := do
  let ram ← get
  let i := freeBlockLastValid ram.indexTable.free (g.freeBlockCount - 1)
  if ecExceeds (ram.indexTable.free i).ec minEc g.staticWlThreshold then
    -- the scan starts at `i-1`, which is no index of the table when `i` is zero
    if i = 0 then Code.halt .undefined
    else setFree fun table =>
      freeBlockInsert table (freeBlockPosition table minEc (i - 1)) i ⟨minEcBlock, minEc⟩

end FreeTableFile

end OpenNfm
