import Mathlib.Data.Finset.Card
import OpenNfm.Ubi.Anchor

/-!
# The bad block table

What `ANCHOR_LogBadBlock` and `ANCHOR_IsBadBlock` do to the table of the anchor.  The
table has a fixed number of slots; a block that finds none free is not entered.
-/

namespace OpenNfm

open OpenNfm.Program

variable {g : Geometry} {table : Nat → Nat} {block other : Nat}

/-- The number of free slots. -/
def badBlockRoom (g : Geometry) (table : Nat → Nat) : Nat :=
  ((Finset.range g.anchorBadblockCount).filter fun i => table i = invalidBlock).card

theorem isBadBlock_iff :
    isBadBlock g table block = true ↔ ∃ i < g.anchorBadblockCount, table i = block := by
  simp [isBadBlock]

/-- A block goes to a free slot, or the table stays as it is. -/
theorem logBadBlock_cases (g : Geometry) (table : Nat → Nat) (block : Nat) :
    (∃ i < g.anchorBadblockCount, table i = invalidBlock ∧
      logBadBlock g table block = Function.update table i block) ∨
    logBadBlock g table block = table ∧
      (isBadBlock g table block = true ∨ badBlockRoom g table = 0) := by
  unfold logBadBlock
  cases found : (List.range g.anchorBadblockCount).find? fun i =>
      table i = invalidBlock ∨ table i = block with
  | none =>
      have none := List.find?_eq_none.mp found
      refine .inr ⟨rfl, .inr ?_⟩
      rw [badBlockRoom, Finset.card_eq_zero, Finset.filter_eq_empty_iff]
      intro i inTable free
      exact none i (List.mem_range.mpr (Finset.mem_range.mp inTable)) (by simp [free])
  | some i =>
      have inTable := List.mem_range.mp (List.mem_of_find?_eq_some found)
      have slot := List.find?_some found
      rw [decide_eq_true_eq] at slot
      rcases slot with free | listed
      · exact .inl ⟨i, inTable, free, rfl⟩
      · refine .inr ⟨?_, .inl (isBadBlock_iff.mpr ⟨i, inTable, listed⟩)⟩
        dsimp only
        rw [← listed, Function.update_eq_self]

theorem isBadBlock_logBadBlock (room : 0 < badBlockRoom g table) :
    isBadBlock g (logBadBlock g table block) block = true := by
  rcases logBadBlock_cases g table block with ⟨i, inTable, -, entered⟩ | ⟨same, listed | full⟩
  · rw [entered, isBadBlock_iff]
    exact ⟨i, inTable, Function.update_self i block table⟩
  · rwa [same]
  · omega

/-- Nothing else is entered, and no block is dropped. -/
theorem isBadBlock_logBadBlock_other (different : other ≠ block) (valid : other ≠ invalidBlock) :
    isBadBlock g (logBadBlock g table block) other = isBadBlock g table other := by
  rcases logBadBlock_cases g table block with ⟨i, inTable, free, entered⟩ | ⟨same, -⟩
  · rw [entered, Bool.eq_iff_iff, isBadBlock_iff, isBadBlock_iff]
    refine exists_congr fun j => and_congr_right fun _ => ?_
    by_cases here : j = i
    · subst here
      rw [Function.update_self, free]
      exact iff_of_false different.symm valid.symm
    · rw [Function.update_of_ne here]
  · rw [same]

theorem isBadBlock_mono (valid : other ≠ invalidBlock) (listed : isBadBlock g table other = true) :
    isBadBlock g (logBadBlock g table block) other = true := by
  by_cases same : other = block
  · subst same
    rcases logBadBlock_cases g table other with ⟨i, inTable, -, entered⟩ | ⟨same, -⟩
    · rw [entered, isBadBlock_iff]
      exact ⟨i, inTable, Function.update_self i other table⟩
    · rwa [same]
  · rwa [isBadBlock_logBadBlock_other same valid]

/-- With every slot taken, a new block is not entered. -/
theorem logBadBlock_full (full : badBlockRoom g table = 0) : logBadBlock g table block = table := by
  rcases logBadBlock_cases g table block with ⟨i, inTable, free, -⟩ | ⟨same, -⟩
  · have none := Finset.filter_eq_empty_iff.mp (Finset.card_eq_zero.mp full)
    exact absurd free (none (Finset.mem_range.mpr inTable))
  · exact same

theorem badBlockRoom_update {i : Nat} (inTable : i < g.anchorBadblockCount)
    (free : table i = invalidBlock) (valid : block ≠ invalidBlock) :
    badBlockRoom g (Function.update table i block) = badBlockRoom g table - 1 := by
  have slots : ((Finset.range g.anchorBadblockCount).filter fun j =>
      Function.update table i block j = invalidBlock) =
      ((Finset.range g.anchorBadblockCount).filter fun j => table j = invalidBlock).erase i := by
    ext j
    by_cases here : j = i
    · subst here
      simp [valid]
    · simp [here]
  rw [badBlockRoom, slots, Finset.card_erase_of_mem, badBlockRoom]
  exact Finset.mem_filter.mpr ⟨Finset.mem_range.mpr inTable, free⟩

/-- A new block takes one slot. -/
theorem badBlockRoom_logBadBlock (valid : block ≠ invalidBlock)
    (unlisted : isBadBlock g table block = false) :
    badBlockRoom g (logBadBlock g table block) = badBlockRoom g table - 1 := by
  rcases logBadBlock_cases g table block with ⟨i, inTable, free, entered⟩ | ⟨same, listed | full⟩
  · rw [entered, badBlockRoom_update inTable free valid]
  · rw [unlisted] at listed
    exact absurd listed Bool.false_ne_true
  · rw [same, full]

theorem le_badBlockRoom_logBadBlock (valid : block ≠ invalidBlock) :
    badBlockRoom g table ≤ badBlockRoom g (logBadBlock g table block) + 1 := by
  rcases logBadBlock_cases g table block with ⟨i, inTable, free, entered⟩ | ⟨same, -⟩
  · rw [entered, badBlockRoom_update inTable free valid]
    omega
  · rw [same]
    omega

/-- The bad block table after some blocks are logged, one after another. -/
def logBadBlocks (g : Geometry) (table : Nat → Nat) (blocks : List Nat) : Nat → Nat :=
  blocks.foldl (logBadBlock g) table

theorem isBadBlock_logBadBlocks_of_listed {blocks : List Nat} (valid : other ≠ invalidBlock)
    (listed : isBadBlock g table other = true) :
    isBadBlock g (logBadBlocks g table blocks) other = true := by
  induction blocks generalizing table with
  | nil => exact listed
  | cons block rest ih => exact ih (isBadBlock_mono valid listed)

/-- With a free slot for each of them, all blocks are entered. -/
theorem isBadBlock_logBadBlocks {blocks : List Nat}
    (valid : ∀ block ∈ blocks, block ≠ invalidBlock)
    (room : blocks.length ≤ badBlockRoom g table) :
    ∀ block ∈ blocks, isBadBlock g (logBadBlocks g table blocks) block = true := by
  induction blocks generalizing table with
  | nil => exact fun block inside => absurd inside List.not_mem_nil
  | cons first rest ih =>
      have firstValid := valid first List.mem_cons_self
      have roomLeft := @le_badBlockRoom_logBadBlock g table _ firstValid
      rw [List.length_cons] at room
      intro block inside
      show isBadBlock g (logBadBlocks g (logBadBlock g table first) rest) block = true
      rcases List.mem_cons.mp inside with rfl | later
      · have entered : isBadBlock g (logBadBlock g table block) block = true :=
          isBadBlock_logBadBlock (by omega)
        exact isBadBlock_logBadBlocks_of_listed firstValid entered
      · exact ih (fun block inside => valid block (List.mem_cons_of_mem _ inside)) (by omega)
          block later

end OpenNfm
