import Mathlib.Tactic.Ring
import OpenNfm.Mtd.Api

/-!
# Rows of the simulated device

The row of a page counts, in this order, the die, the block inside a plane, the
plane, and the page.  In this form rows are in range and tell pages apart, and the
rows of one block are the rows between two numbers.
-/

namespace OpenNfm

/-! ## Digits of a number -/

theorem digits_lt {high low bound base : Nat} (inBound : high < bound) (inBase : low < base) :
    high * base + low < bound * base := by
  have next : (high + 1) * base ≤ bound * base := Nat.mul_le_mul_right base inBound
  rw [Nat.succ_mul] at next
  omega

theorem digits_inj {high low high' low' base : Nat} (inBase : low < base) (inBase' : low' < base)
    (equal : high * base + low = high' * base + low') : high = high' ∧ low = low' := by
  have pos : 0 < base := Nat.zero_lt_of_lt inBase
  have high_eq := congrArg (· / base) equal
  have low_eq := congrArg (· % base) equal
  simp only [Nat.mul_comm _ base, Nat.mul_add_div pos, Nat.div_eq_of_lt inBase,
    Nat.div_eq_of_lt inBase', Nat.add_zero] at high_eq
  simp only [Nat.mul_comm _ base, Nat.mul_add_mod, Nat.mod_eq_of_lt inBase,
    Nat.mod_eq_of_lt inBase'] at low_eq
  exact ⟨high_eq, low_eq⟩

namespace Geometry

variable (g : Geometry)

/-- Bits of a row number. -/
def rowWidth : Nat := g.cfgPhyBlockCountShift + g.pagePerBlockShift

theorem planePerDie_pos : 0 < g.planePerDie :=
  Nat.two_pow_pos _

theorem cfgLogBlockCount_eq :
    g.cfgLogBlockCount = g.totalDieCount * 2 ^ g.blockPerPlaneShift := by
  rw [cfgLogBlockCount, totalDieCount, totalDieShift, ← Nat.pow_add]
  congr 1
  omega

theorem cfgNandRowCount_eq :
    g.cfgNandRowCount = g.cfgLogBlockCount * (g.planePerDie * g.pagePerPhyBlock) := by
  rw [cfgNandRowCount, cfgLogBlockCount, planePerDie, ← Nat.mul_assoc, ← Nat.pow_add]
  congr 2
  unfold cfgPhyBlockCountShift
  omega

theorem cfgNandRowCount_eq_pow : g.cfgNandRowCount = 2 ^ g.rowWidth := by
  rw [cfgNandRowCount, pagePerPhyBlock, ← Nat.pow_add, rowWidth]

theorem transPhyBlock_eq {block : Nat} (inRange : block < g.cfgLogBlockCount) :
    g.transPhyBlock block =
      block % g.totalDieCount * 2 ^ g.blockPerPlaneShift + block / g.totalDieCount := by
  have low : block / g.totalDieCount < 2 ^ g.blockPerPlaneShift := by
    rw [cfgLogBlockCount_eq, Nat.mul_comm] at inRange
    exact (Nat.div_lt_iff_lt_mul g.totalDieCount_pos).mpr inRange
  have shifted : block >>> g.totalDieShift = block / g.totalDieCount :=
    Nat.shiftRight_eq_div_pow _ _
  have masked : block &&& (g.totalDieCount - 1) = block % g.totalDieCount :=
    Nat.and_two_pow_sub_one_eq_mod _ _
  rw [transPhyBlock, shifted, masked, ← Nat.shiftLeft_add_eq_or_of_lt low, Nat.shiftLeft_eq]

theorem transPhyBlock_lt {block : Nat} (inRange : block < g.cfgLogBlockCount) :
    g.transPhyBlock block < g.cfgLogBlockCount := by
  rw [g.transPhyBlock_eq inRange, cfgLogBlockCount_eq]
  rw [cfgLogBlockCount_eq, Nat.mul_comm] at inRange
  exact digits_lt (Nat.mod_lt _ g.totalDieCount_pos)
    ((Nat.div_lt_iff_lt_mul g.totalDieCount_pos).mpr inRange)

theorem transPhyBlock_inj {block block' : Nat} (inRange : block < g.cfgLogBlockCount)
    (inRange' : block' < g.cfgLogBlockCount)
    (equal : g.transPhyBlock block = g.transPhyBlock block') : block = block' := by
  rw [g.transPhyBlock_eq inRange, g.transPhyBlock_eq inRange'] at equal
  rw [cfgLogBlockCount_eq, Nat.mul_comm] at inRange inRange'
  obtain ⟨die, offset⟩ := digits_inj
    ((Nat.div_lt_iff_lt_mul g.totalDieCount_pos).mpr inRange)
    ((Nat.div_lt_iff_lt_mul g.totalDieCount_pos).mpr inRange') equal
  rw [← Nat.div_add_mod block g.totalDieCount, ← Nat.div_add_mod block' g.totalDieCount, die,
    offset]

/-- The first row of a block. -/
def blockRow (block : Nat) : Nat :=
  g.transPhyBlock block * (g.planePerDie * g.pagePerPhyBlock)

variable {g}

/-- A row and what it counts. -/
theorem mtdRowAddress_eq {block plane page : Nat} (width : g.rowWidth < 32)
    (isBlock : block < g.cfgLogBlockCount) (isPlane : plane < g.planePerDie)
    (isPage : page < g.pagePerPhyBlock) :
    g.mtdRowAddress block plane page =
      g.blockRow block + (plane * g.pagePerPhyBlock + page) := by
  have unfolded : (g.mtdRealBlock block plane <<< g.pagePerBlockShift) + page =
      g.blockRow block + (plane * g.pagePerPhyBlock + page) := by
    rw [mtdRealBlock, Nat.shiftLeft_eq, Nat.shiftLeft_eq, blockRow, planePerDie,
      pagePerPhyBlock]
    ring
  have inBlock := digits_lt isPlane isPage
  have small : g.blockRow block + (plane * g.pagePerPhyBlock + page) < 2 ^ g.rowWidth := by
    rw [← g.cfgNandRowCount_eq_pow, cfgNandRowCount_eq]
    exact digits_lt (g.transPhyBlock_lt isBlock) inBlock
  rw [mtdRowAddress, unfolded, Nat.mod_eq_of_lt]
  exact small.trans_le (Nat.pow_le_pow_right (by decide) width.le)

theorem blockRow_end_le {block : Nat} (isBlock : block < g.cfgLogBlockCount) :
    g.blockRow block + g.planePerDie * g.pagePerPhyBlock ≤ g.cfgNandRowCount := by
  rw [cfgNandRowCount_eq, blockRow, ← Nat.succ_mul]
  exact Nat.mul_le_mul_right _ (g.transPhyBlock_lt isBlock)

theorem mtdRowAddress_lt {block plane page : Nat} (width : g.rowWidth < 32)
    (isBlock : block < g.cfgLogBlockCount) (isPlane : plane < g.planePerDie)
    (isPage : page < g.pagePerPhyBlock) : g.mtdRowAddress block plane page < g.cfgNandRowCount := by
  rw [mtdRowAddress_eq width isBlock isPlane isPage]
  have inBlock := digits_lt isPlane isPage
  have last := blockRow_end_le isBlock
  omega

/-- Different pages have different rows. -/
theorem mtdRowAddress_inj {block plane page block' plane' page' : Nat} (width : g.rowWidth < 32)
    (isBlock : block < g.cfgLogBlockCount) (isPlane : plane < g.planePerDie)
    (isPage : page < g.pagePerPhyBlock) (isBlock' : block' < g.cfgLogBlockCount)
    (isPlane' : plane' < g.planePerDie) (isPage' : page' < g.pagePerPhyBlock)
    (equal : g.mtdRowAddress block plane page = g.mtdRowAddress block' plane' page') :
    block = block' ∧ plane = plane' ∧ page = page' := by
  rw [mtdRowAddress_eq width isBlock isPlane isPage,
    mtdRowAddress_eq width isBlock' isPlane' isPage'] at equal
  obtain ⟨blocks, rest⟩ := digits_inj (digits_lt isPlane isPage) (digits_lt isPlane' isPage') equal
  exact ⟨g.transPhyBlock_inj isBlock isBlock' blocks, digits_inj isPage isPage' rest⟩

/-- The rows of a block are those of its planes and pages. -/
theorem inBlock_iff {block row : Nat} (width : g.rowWidth < 32)
    (isBlock : block < g.cfgLogBlockCount) :
    g.blockRow block ≤ row ∧ row < g.blockRow block + g.planePerDie * g.pagePerPhyBlock ↔
      ∃ plane < g.planePerDie, ∃ page < g.pagePerPhyBlock,
        row = g.mtdRowAddress block plane page := by
  constructor
  · rintro ⟨first, last⟩
    have pos := g.pagePerPhyBlock_pos
    have isPlane : (row - g.blockRow block) / g.pagePerPhyBlock < g.planePerDie :=
      (Nat.div_lt_iff_lt_mul pos).mpr (by omega)
    have isPage := Nat.mod_lt (row - g.blockRow block) pos
    refine ⟨_, isPlane, _, isPage, ?_⟩
    rw [mtdRowAddress_eq width isBlock isPlane isPage, Nat.div_add_mod']
    omega
  · rintro ⟨plane, isPlane, page, isPage, rfl⟩
    rw [mtdRowAddress_eq width isBlock isPlane isPage]
    have inBlock := digits_lt isPlane isPage
    omega

theorem mtdChipNum_lt (block : Nat) : g.mtdChipNum block < g.chipCount := by
  have masked : (block >>> g.diePerChipShift) &&& (g.chipCount - 1) =
      (block >>> g.diePerChipShift) % g.chipCount :=
    Nat.and_two_pow_sub_one_eq_mod _ _
  rw [mtdChipNum, masked]
  exact (Nat.mod_le _ _).trans_lt (Nat.mod_lt _ (Nat.two_pow_pos _))

end Geometry

end OpenNfm
