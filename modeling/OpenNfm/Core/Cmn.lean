import Mathlib.Algebra.Group.Nat.Defs
import Mathlib.Algebra.Order.Monoid.Unbundled.WithTop
import Mathlib.Data.Nat.Notation

/-!
# Common types and the geometry of the device

`cmn.h` and `cfg.h` fix the geometry by compile-time shifts; every other size
of the project is derived from them.  Here the shifts are the fields of
`Geometry` and the derived macros are functions of it, so that a statement
can speak about every geometry and a concrete run can pick the one that
`cfg.h` selects.
-/

namespace OpenNfm

/-- Return codes that the modelled functions use. -/
inductive Status where
  | success
  | badblock
  | toomanyBadblock
  | ubiFormatError
  | dieBusy
  | simulatedPowerLoss
  | failure
  deriving DecidableEq, Repr

/-- The 32-bit word with all bits set; every `INVALID_` value but the erase
count is this word.  Block numbers, page offsets and area numbers are natural
numbers below it. -/
def allOnes : Nat := 0xffffffff

/-- `INVALID_BLOCK` -/
def invalidBlock : Nat := allOnes

/-- `INVALID_PAGE` -/
def invalidPage : Nat := allOnes

/-- `INVALID_AREA` -/
def invalidArea : Nat := allOnes

/-- Two words of meta data in the spare area of a page. -/
structure Spare where
  first : Nat
  second : Nat
  deriving DecidableEq, Repr

/-- The spare area of an erased page. -/
def Spare.ones : Spare := ⟨allOnes, allOnes⟩

/-! ## Erase counts -/

/-- An erase count.  The top element is `INVALID_EC`, the largest 32-bit word.
Proper counts are natural numbers.  No count of a run is larger than its erases
and the thresholds of its failed programs together, and while these stay below
`INVALID_EC`, sums and comparisons are those of the words (`WornBy.words`). -/
abbrev EraseCount := WithTop Nat

/-- `INVALID_EC`, which no count of a block reaches. -/
def invalidEc : EraseCount := ⊤

/-- Addition on erase counts.  The invalid count is the word before zero. -/
def EraseCount.plus : EraseCount → Nat → EraseCount
  | some count, n => ((count + n : Nat) : WithTop Nat)
  | none, n => ((n - 1 : Nat) : WithTop Nat)

@[simp]
theorem EraseCount.plus_coe (count n : Nat) :
    EraseCount.plus (count : WithTop Nat) n = ((count + n : Nat) : WithTop Nat) :=
  rfl

theorem EraseCount.plus_ne (count : EraseCount) (n : Nat) : count.plus n ≠ invalidEc := by
  cases count <;> exact WithTop.coe_ne_top

/-! ## Geometry -/

/-- The configuration macros of `cfg.h`. -/
structure Geometry where
  sectorSizeShift : Nat
  sectorPerPageShift : Nat
  pagePerBlockShift : Nat
  blockPerPlaneShift : Nat
  planePerDieShift : Nat
  diePerChipShift : Nat
  chipCountShift : Nat
  staticWlThreshold : Nat
  goodBlockPercent : Nat
  overProvisionRate : Nat
  pmtCacheCount : Nat
  deriving DecidableEq, Repr

/-- The simulated device, which `cfg.h` selects. -/
def simNand : Geometry where
  sectorSizeShift := 9
  sectorPerPageShift := 3
  pagePerBlockShift := 5
  blockPerPlaneShift := 7
  planePerDieShift := 1
  diePerChipShift := 1
  chipCountShift := 2
  staticWlThreshold := 1000
  goodBlockPercent := 98
  overProvisionRate := 3
  pmtCacheCount := 4

/-- The K9WAG08 chip. -/
def k9wag08 : Geometry :=
  { simNand with
    sectorPerPageShift := 2
    pagePerBlockShift := 6
    blockPerPlaneShift := 11
    diePerChipShift := 0
    chipCountShift := 0 }

/-- The K9MBG08 chip. -/
def k9mbg08 : Geometry :=
  { simNand with
    sectorPerPageShift := 2
    pagePerBlockShift := 7
    blockPerPlaneShift := 10
    chipCountShift := 0 }

namespace Geometry

variable (g : Geometry)

/-- `SECTOR_PER_MPP_SHIFT`: a multi-plane page has a page of every plane of a die. -/
def sectorPerMppShift : Nat := g.sectorPerPageShift + g.planePerDieShift

/-- `MPP_SIZE_SHIFT` -/
def mppSizeShift : Nat := g.sectorSizeShift + g.sectorPerMppShift

/-- Bytes in a multi-plane page. -/
def mppSize : Nat := 2 ^ g.mppSizeShift

/-- `PAGE_PER_PHY_BLOCK` -/
def pagePerPhyBlock : Nat := 2 ^ g.pagePerBlockShift

/-- `TOTAL_DIE_SHIFT` -/
def totalDieShift : Nat := g.diePerChipShift + g.chipCountShift

/-- `TOTAL_DIE_COUNT` -/
def totalDieCount : Nat := 2 ^ g.totalDieShift

/-- `CFG_LOG_BLOCK_COUNT`, the number of multi-plane blocks of all dice. -/
def cfgLogBlockCount : Nat :=
  2 ^ (g.blockPerPlaneShift + g.diePerChipShift + g.chipCountShift)

/-- Entries of an area table: half a page of block numbers and half a page of
erase counts. -/
def cfgPhyBlockPerArea : Nat := g.mppSize / 2 / 4

/-- `AREA_COUNT`, rounded up so that the areas cover every block. -/
def areaCount : Nat :=
  (g.cfgLogBlockCount + g.cfgPhyBlockPerArea - 1) / g.cfgPhyBlockPerArea

/-! ### Layout of the UBI layer -/

/-- `FREE_BLOCK_COUNT`, the slots of the free block table in a page. -/
def freeBlockCount : Nat := (g.mppSize / 4 - 12) / 4

/-- `REAL_FREE_BLOCK_COUNT`, the blocks that are kept for replacements. -/
def realFreeBlockCount : Nat :=
  g.cfgLogBlockCount / (100 / (100 - g.goodBlockPercent))

/-- `ANCHOR_BLOCK_COUNT`, the length of the anchor ring. -/
def anchorBlockCount : Nat :=
  g.cfgLogBlockCount * 2 * 2 / g.pagePerPhyBlock / g.pagePerPhyBlock + 2

/-- `ANCHOR_BADBLOCK_COUNT`, the slots of the bad block table in a page. -/
def anchorBadblockCount : Nat := g.mppSize / 4 - 11

/-- `ANCHOR_FIRST_BLOCK`.  Block 0 holds the code. -/
def anchorFirstBlock : Nat := 1

/-- `ANCHOR_LAST_BLOCK` -/
def anchorLastBlock : Nat := anchorFirstBlock + g.anchorBlockCount - 1

/-- `DATA_FIRST_BLOCK` -/
def dataFirstBlock : Nat := anchorFirstBlock + g.anchorBlockCount

/-- `DATA_BLOCK_COUNT` -/
def dataBlockCount : Nat :=
  g.cfgLogBlockCount - 1 - g.anchorBlockCount - 1 - g.realFreeBlockCount

/-- `AREA_INDEX` -/
def areaIndex (block : Nat) : Nat := block / g.cfgPhyBlockPerArea

/-- `BLOCK_OFFSET_AREA` -/
def blockOffsetArea (block : Nat) : Nat := block % g.cfgPhyBlockPerArea

/-- The block is one of the ring that holds the anchor. -/
def InRing (block : Nat) : Prop :=
  anchorFirstBlock ≤ block ∧ block ≤ g.anchorLastBlock

/-- The block behind this one in the ring. -/
def ringNext (block : Nat) : Nat :=
  if block + 1 > g.anchorLastBlock then anchorFirstBlock else block + 1

/-- The sizes that the layout of the UBI layer takes for granted: numbers that
fit their words, room for the reserved blocks, a free block table that can
list them, and one area table for each area that the format lays out. -/
structure Supported : Prop where
  pagesSmall : g.pagePerPhyBlock < allOnes
  blocksSmall : g.cfgLogBlockCount < allOnes
  entries : 0 < g.cfgPhyBlockPerArea
  data : g.dataFirstBlock < g.dataBlockCount
  reserve : g.dataBlockCount + g.realFreeBlockCount + g.anchorBlockCount + 2 =
    g.cfgLogBlockCount
  areas : (g.dataBlockCount - g.dataFirstBlock + g.cfgPhyBlockPerArea) /
    (g.cfgPhyBlockPerArea + 1) = g.areaCount
  freeFits : g.anchorBlockCount + g.realFreeBlockCount < g.freeBlockCount

/-- Whether a geometry is supported can be computed. -/
instance : Decidable g.Supported :=
  decidable_of_iff
    (g.pagePerPhyBlock < allOnes ∧ g.cfgLogBlockCount < allOnes ∧ 0 < g.cfgPhyBlockPerArea ∧
      g.dataFirstBlock < g.dataBlockCount ∧
      g.dataBlockCount + g.realFreeBlockCount + g.anchorBlockCount + 2 = g.cfgLogBlockCount ∧
      (g.dataBlockCount - g.dataFirstBlock + g.cfgPhyBlockPerArea) /
        (g.cfgPhyBlockPerArea + 1) = g.areaCount ∧
      g.anchorBlockCount + g.realFreeBlockCount < g.freeBlockCount)
    ⟨fun ⟨pages, blocks, entries, data, reserve, areas, free⟩ =>
        ⟨pages, blocks, entries, data, reserve, areas, free⟩,
      fun ⟨pages, blocks, entries, data, reserve, areas, free⟩ =>
        ⟨pages, blocks, entries, data, reserve, areas, free⟩⟩

theorem pagePerPhyBlock_pos : 0 < g.pagePerPhyBlock :=
  Nat.two_pow_pos _

theorem totalDieCount_pos : 0 < g.totalDieCount :=
  Nat.two_pow_pos _

theorem anchorLastBlock_eq : g.anchorLastBlock = g.anchorBlockCount := by
  simp [anchorLastBlock, anchorFirstBlock]

theorem two_le_anchorBlockCount : 2 ≤ g.anchorBlockCount :=
  Nat.le_add_left 2 _

theorem dataFirstBlock_eq : g.dataFirstBlock = g.anchorBlockCount + 1 :=
  Nat.add_comm _ _

variable {g}

theorem InRing.lt_data {block : Nat} (inRing : g.InRing block) :
    block < g.dataFirstBlock := by
  have := inRing.2
  rw [anchorLastBlock_eq] at this
  rw [dataFirstBlock_eq]
  omega

theorem InRing.lt_blocks {block : Nat} (inRing : g.InRing block) (supported : g.Supported) :
    block < g.cfgLogBlockCount := by
  have := inRing.lt_data
  have := supported.data
  have := supported.reserve
  omega

theorem InRing.next {block : Nat} (inRing : g.InRing block) : g.InRing (g.ringNext block) := by
  have := g.two_le_anchorBlockCount
  have := inRing
  simp only [InRing, ringNext, anchorLastBlock_eq, anchorFirstBlock] at this ⊢
  split <;> omega

theorem InRing.next_ne {block : Nat} (inRing : g.InRing block) : g.ringNext block ≠ block := by
  have := g.two_le_anchorBlockCount
  have := inRing
  simp only [InRing, ringNext, anchorLastBlock_eq, anchorFirstBlock] at this ⊢
  split <;> omega

end Geometry

/-- The three geometries of `cfg.h` are supported. -/
example : simNand.Supported ∧ k9wag08.Supported ∧ k9mbg08.Supported := by decide

end OpenNfm
