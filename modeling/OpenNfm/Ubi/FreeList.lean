import Mathlib.Data.List.Perm.Basic
import Mathlib.Data.List.InsertIdx
import OpenNfm.Mtd.Rules
import OpenNfm.Ubi.FreeTable

/-!
# The free block table as a list

The array of free blocks is a list followed by invalid entries.  Putting a
block inserts it into the list, and getting one removes it, so that no block
of the table is lost or repeated.
-/

namespace OpenNfm

open OpenNfm.Program

variable {g : Geometry} {D : Type}

/-- The entries of the table are the listed ones, followed by invalid entries. -/
structure FreeEntries (g : Geometry) (table : Nat → BlockEc) (blocks : List BlockEc) : Prop where
  fits : blocks.length ≤ g.freeBlockCount
  entry : ∀ i < g.freeBlockCount, table i = (blocks[i]?).getD .invalid

namespace FreeEntries

variable {table : Nat → BlockEc} {blocks : List BlockEc}

theorem entry_of_lt (entries : FreeEntries g table blocks) {i : Nat} (inside : i < blocks.length) :
    table i = blocks[i] := by
  rw [entries.entry i (by have := entries.fits; omega), List.getElem?_eq_getElem inside]
  rfl

theorem entry_of_le (entries : FreeEntries g table blocks) {i : Nat} (outside : blocks.length ≤ i)
    (inTable : i < g.freeBlockCount) : table i = .invalid := by
  rw [entries.entry i inTable, List.getElem?_eq_none outside]
  rfl

theorem remove (entries : FreeEntries g table blocks) (i : Nat) :
    FreeEntries g (freeBlockRemove g table i) (blocks.eraseIdx i) where
  fits := (List.length_eraseIdx_le blocks i).trans entries.fits
  entry j inTable := by
    have fits := entries.fits
    unfold freeBlockRemove
    by_cases before : j < i
    · rw [if_pos before, List.getElem?_eraseIdx_of_lt before, entries.entry j inTable]
    · rw [if_neg before, List.getElem?_eraseIdx_of_ge (Nat.le_of_not_lt before)]
      by_cases last : j < g.freeBlockCount - 1
      · rw [if_pos last, entries.entry (j + 1) (by omega)]
      · rw [if_neg last, if_pos (by omega), List.getElem?_eq_none (by omega)]
        rfl

end FreeEntries

/-- The entries of the table are the listed blocks, followed by invalid
entries. -/
structure FreeList (g : Geometry) (table : Nat → BlockEc) (blocks : List BlockEc) : Prop where
  fits : blocks.length ≤ g.freeBlockCount
  entry : ∀ i < g.freeBlockCount, table i = (blocks[i]?).getD .invalid
  valid : ∀ entry ∈ blocks, entry.block ≠ invalidBlock ∧ entry.ec ≠ invalidEc

namespace FreeList

variable {table : Nat → BlockEc} {blocks : List BlockEc}

theorem entries (list : FreeList g table blocks) : FreeEntries g table blocks :=
  ⟨list.fits, list.entry⟩

theorem entry_of_lt (list : FreeList g table blocks) {i : Nat} (inside : i < blocks.length) :
    table i = blocks[i] :=
  list.entries.entry_of_lt inside

theorem entry_of_le (list : FreeList g table blocks) {i : Nat} (outside : blocks.length ≤ i)
    (inTable : i < g.freeBlockCount) : table i = .invalid :=
  list.entries.entry_of_le outside inTable

/-! ## Removing an entry -/

theorem remove (list : FreeList g table blocks) (i : Nat) :
    FreeList g (freeBlockRemove g table i) (blocks.eraseIdx i) where
  fits := (list.entries.remove i).fits
  entry := (list.entries.remove i).entry
  valid entry inside := list.valid entry (List.mem_of_mem_eraseIdx inside)

/-! ## Inserting an entry -/

theorem freeBlockScan_le (list : FreeList g table blocks) {ec : EraseCount}
    (proper : ec ≠ invalidEc) {i : Nat} (inTable : i < g.freeBlockCount) :
    freeBlockScan table ec i ≤ blocks.length - 1 := by
  induction i with
  | zero => exact Nat.zero_le _
  | succ i ih =>
      unfold freeBlockScan
      by_cases inside : i + 1 < blocks.length
      · split
        · exact ih (by omega)
        · omega
      · have larger : (table (i + 1)).ec > ec := by
          rw [list.entry_of_le (Nat.le_of_not_lt inside) inTable]
          exact lt_top_iff_ne_top.mpr proper
        rw [if_pos larger]
        exact ih (by omega)

theorem freeBlockPosition_le (list : FreeList g table blocks) {ec : EraseCount}
    (proper : ec ≠ invalidEc) {i : Nat}
    (inTable : i < g.freeBlockCount) :
    freeBlockPosition table ec i ≤ blocks.length := by
  have scanned := list.freeBlockScan_le proper inTable
  simp only [freeBlockPosition]
  split
  · omega
  · split
    · omega
    · rename_i small
      have some : blocks.length ≠ 0 := by
        intro empty
        apply small
        rw [list.entry_of_le (by omega) (by omega)]
        exact lt_top_iff_ne_top.mpr proper
      omega

theorem insert (list : FreeList g table blocks) (room : blocks.length < g.freeBlockCount)
    {position last : Nat} {entry : BlockEc} (inList : position ≤ blocks.length)
    (lastOk : blocks.length ≤ last)
    (proper : entry.block ≠ invalidBlock ∧ entry.ec ≠ invalidEc) :
    FreeList g (freeBlockInsert table position last entry) (blocks.insertIdx position entry) where
  fits := by
    rw [List.length_insertIdx_of_le_length inList]
    exact room
  entry j inTable := by
    unfold freeBlockInsert
    rw [List.getElem?_insertIdx]
    by_cases before : j < position
    · rw [if_pos before, if_pos before, list.entry j inTable]
    · rw [if_neg before, if_neg before]
      by_cases here : j = position
      · rw [if_pos here, if_pos here, if_pos (here ▸ inList)]
        rfl
      · rw [if_neg here, if_neg here]
        by_cases moved : j ≤ last
        · rw [if_pos moved, list.entry (j - 1) (by omega)]
        · rw [if_neg moved, list.entry_of_le (by omega) inTable,
            List.getElem?_eq_none (by omega)]
          rfl
  valid other inside := by
    rcases List.eq_or_mem_of_mem_insertIdx inside with rfl | old
    · exact proper
    · exact list.valid other old

/-- The list after `INDEX_FreeBlock_Put`. -/
theorem put (list : FreeList g table blocks) (room : blocks.length < g.freeBlockCount)
    {block : Nat} {ec : EraseCount} (proper : block ≠ invalidBlock ∧ ec ≠ invalidEc) :
    ∃ blocks', FreeList g (freeBlockPut g table block ec) blocks' ∧
      blocks'.Perm (⟨block, ec⟩ :: blocks) := by
  have inList := list.freeBlockPosition_le proper.2
    (show g.freeBlockCount - 2 < g.freeBlockCount by omega)
  exact ⟨_, list.insert room inList (by omega) proper, List.perm_insertIdx _ _ inList⟩

/-- The list after `INDEX_FreeBlock_Get` and `INDEX_FreeBlock_Put`: one block
leaves and another enters. -/
theorem exchange (list : FreeList g table blocks) {i : Nat} (inside : i < blocks.length)
    {block : Nat} {ec : EraseCount} (proper : block ≠ invalidBlock ∧ ec ≠ invalidEc) :
    ∃ blocks', FreeList g (freeBlockPut g (freeBlockRemove g table i) block ec) blocks' ∧
      (blocks'.map BlockEc.block).Perm
        (block :: (blocks.map BlockEc.block).erase blocks[i].block) := by
  have removed := list.remove i
  have shorter : (blocks.eraseIdx i).length < g.freeBlockCount := by
    rw [List.length_eraseIdx_of_lt inside]
    have := list.fits
    omega
  obtain ⟨blocks', list', perm⟩ := removed.put shorter proper
  have rest : (blocks.map BlockEc.block).Perm
      (blocks[i].block :: (blocks.eraseIdx i).map BlockEc.block) :=
    (List.getElem_cons_eraseIdx_perm inside).symm.map BlockEc.block
  have erased := rest.erase blocks[i].block
  rw [List.erase_cons_head] at erased
  exact ⟨blocks', list', (perm.map BlockEc.block).trans (erased.symm.cons block)⟩

/-! ## Replacing the most worn block -/

theorem freeBlockLastValid_eq (list : FreeList g table blocks) {i : Nat}
    (last : blocks.length - 1 ≤ i) (inTable : i < g.freeBlockCount) :
    freeBlockLastValid table i = blocks.length - 1 := by
  induction i with
  | zero => exact (Nat.le_zero.mp last).symm
  | succ i ih =>
      unfold freeBlockLastValid
      by_cases inside : i + 1 < blocks.length
      · have entry := list.entry_of_lt inside
        rw [entry, if_pos (list.valid _ (List.getElem_mem inside)).2]
        omega
      · have invalid : (table (i + 1)).ec = invalidEc := by
          rw [list.entry_of_le (Nat.le_of_not_lt inside) inTable]
          rfl
        rw [if_neg (not_not.mpr invalid)]
        exact ih (by omega) (by omega)

theorem freeBlockScan_le_start (table : Nat → BlockEc) (ec : EraseCount) (i : Nat) :
    freeBlockScan table ec i ≤ i := by
  induction i with
  | zero => exact Nat.le_refl 0
  | succ i ih =>
      unfold freeBlockScan
      split
      · exact Nat.le_succ_of_le ih
      · exact Nat.le_refl _

theorem freeBlockPosition_le_start (table : Nat → BlockEc) (ec : EraseCount) (i : Nat) :
    freeBlockPosition table ec i ≤ i + 1 := by
  have scanned := freeBlockScan_le_start table ec i
  simp only [freeBlockPosition]
  split
  · omega
  · split <;> omega

theorem congr {table' : Nat → BlockEc} (list : FreeList g table blocks)
    (same : ∀ i < g.freeBlockCount, table' i = table i) : FreeList g table' blocks where
  fits := list.fits
  entry i inTable := (same i inTable).trans (list.entry i inTable)
  valid := list.valid

/-- The list after `INDEX_FreeBlock_SwapMaxECBlock`: the last block leaves and another
enters. -/
theorem swap (list : FreeList g table blocks) (many : 1 < blocks.length) {block : Nat}
    {ec : EraseCount} (proper : block ≠ invalidBlock ∧ ec ≠ invalidEc) :
    ∃ blocks', FreeList g
        (freeBlockInsert table (freeBlockPosition table ec (blocks.length - 1 - 1))
          (blocks.length - 1) ⟨block, ec⟩) blocks' ∧
      (blocks'.map BlockEc.block).Perm
        (block :: (blocks.map BlockEc.block).erase (blocks[blocks.length - 1]).block) := by
  have inside : blocks.length - 1 < blocks.length := by omega
  have fits := list.fits
  have removed := list.remove (blocks.length - 1)
  have length : (blocks.eraseIdx (blocks.length - 1)).length = blocks.length - 1 :=
    List.length_eraseIdx_of_lt inside
  have position := freeBlockPosition_le_start table ec (blocks.length - 1 - 1)
  have inList : freeBlockPosition table ec (blocks.length - 1 - 1) ≤
      (blocks.eraseIdx (blocks.length - 1)).length := by omega
  have inserted := removed.insert (by omega) inList length.le
    (show (⟨block, ec⟩ : BlockEc).block ≠ invalidBlock ∧ _ from proper)
  refine ⟨_, inserted.congr fun i inTable => ?_, ?_⟩
  · unfold freeBlockInsert
    by_cases before : i < freeBlockPosition table ec (blocks.length - 1 - 1)
    · rw [if_pos before, if_pos before, freeBlockRemove, if_pos (by omega)]
    · rw [if_neg before, if_neg before]
      by_cases here : i = freeBlockPosition table ec (blocks.length - 1 - 1)
      · rw [if_pos here, if_pos here]
      · rw [if_neg here, if_neg here]
        by_cases moved : i ≤ blocks.length - 1
        · rw [if_pos moved, if_pos moved, freeBlockRemove, if_pos (by omega)]
        · rw [if_neg moved, if_neg moved, list.entry_of_le (by omega) inTable,
            removed.entry_of_le (by omega) inTable]
  · have entered := (List.perm_insertIdx (⟨block, ec⟩ : BlockEc) _ inList).map BlockEc.block
    have rest : (blocks.map BlockEc.block).Perm
        ((blocks[blocks.length - 1]).block ::
          (blocks.eraseIdx (blocks.length - 1)).map BlockEc.block) :=
      (List.getElem_cons_eraseIdx_perm inside).symm.map BlockEc.block
    have erased := rest.erase (blocks[blocks.length - 1]).block
    rw [List.erase_cons_head] at erased
    exact entered.trans (erased.symm.cons block)

/-! ## Choosing an entry -/

theorem freeBlockSearch_lt (list : FreeList g table blocks) {die i : Nat}
    (found : freeBlockSearch g table die = some i) : i < blocks.length := by
  unfold freeBlockSearch at found
  split at found
  · rename_i j first
    by_cases invalid : (table j).block = invalidBlock
    · simp [invalid] at found
    · rw [if_neg invalid, Option.some.injEq] at found
      subst found
      by_contra outside
      have inTable : j < g.freeBlockCount := List.mem_range.mp (List.mem_of_find?_eq_some first)
      exact invalid (by rw [list.entry_of_le (Nat.le_of_not_lt outside) inTable]; rfl)
  · simp at found

/-- The index that `INDEX_FreeBlock_Get` takes. -/
def chosen (g : Geometry) (table : Nat → BlockEc) (die : Nat) : Nat :=
  (freeBlockSearch g table (die % g.totalDieCount)).getD 0

theorem chosen_lt (list : FreeList g table blocks) (some : blocks ≠ []) (die : Nat) :
    chosen g table die < blocks.length := by
  have pos := List.length_pos_iff.mpr some
  unfold chosen
  cases found : freeBlockSearch g table (die % g.totalDieCount) with
  | none => exact pos
  | some i => exact list.freeBlockSearch_lt found

end FreeList

/-! ## The functions on the table -/

section Specs

variable {crash : Ideal (UbiBuffer D) → Prop} {ram : UbiRam D} {state : Ideal (UbiBuffer D)}

/-- The static variables after a change of the free block table. -/
def UbiRam.withFree (ram : UbiRam D) (free : Nat → BlockEc) : UbiRam D :=
  { ram with indexTable := { ram.indexTable with free := free } }

theorem wp_indexFreeBlockPut {block : Nat} {ec : EraseCount}
    {post : Unit → UbiRam D → Ideal (UbiBuffer D) → Prop} :
    Code.wp (idealMachine g) crash (indexFreeBlockPut g block ec) post ram state ↔
      crash state ∧
        post () (ram.withFree (freeBlockPut g ram.indexTable.free block ec)) state :=
  Iff.rfl

/-- With a free block left, `INDEX_FreeBlock_Get` erases the chosen one and
removes it from the table. -/
theorem wp_indexFreeBlockGet {blocks : List BlockEc} {fuel die : Nat}
    {post : Status × BlockEc → UbiRam D → Ideal (UbiBuffer D) → Prop}
    (list : FreeList g ram.indexTable.free blocks) (some : blocks ≠ []) (pos : 0 < fuel)
    (inRange : ∀ entry ∈ blocks, entry.block < g.cfgLogBlockCount)
    (safe : crash state)
    (safeErased : ∀ i (inside : i < blocks.length),
      i = FreeList.chosen g ram.indexTable.free die → crash (state.erase blocks[i].block))
    (meets : ∀ i (inside : i < blocks.length),
      i = FreeList.chosen g ram.indexTable.free die →
      post (.success, ⟨blocks[i].block, blocks[i].ec.plus 1⟩)
        (ram.withFree (freeBlockRemove g ram.indexTable.free i))
        (state.erase blocks[i].block)) :
    Code.wp (idealMachine g) crash (indexFreeBlockGet g fuel die) post ram state := by
  obtain ⟨rounds, rfl⟩ := Nat.exists_eq_succ_of_ne_zero pos.ne'
  have inside := list.chosen_lt some die
  have entry := list.entry_of_lt inside
  have mem : blocks[FreeList.chosen g ram.indexTable.free die] ∈ blocks :=
    List.getElem_mem inside
  have valid := (list.valid _ mem).1
  have chosen : (freeBlockSearch g ram.indexTable.free (die % g.totalDieCount)).getD 0 =
      FreeList.chosen g ram.indexTable.free die := rfl
  simp only [indexFreeBlockGet, indexFreeBlockGetLoop, Code.wp_bind, Code.wp_get, chosen, entry,
    ne_eq, valid, not_false_eq_true, if_true, wp_mtdErase (inRange _ mem)]
  simp only [not_true_eq_false, if_false, reduceCtorEq, not_false_eq_true, if_true, setFree,
    Code.wp_bind, Code.wp_modify, Code.wp_pure, false_and]
  have safeAfter := safeErased _ inside rfl
  exact ⟨safe, safe, safeAfter, safeAfter, safeAfter, meets _ inside rfl⟩

/-- With more than one free block, the most worn one is the last of the list. -/
theorem wp_indexFreeBlockGetMaxEcBlock {blocks : List BlockEc}
    {post : Option BlockEc → UbiRam D → Ideal (UbiBuffer D) → Prop}
    (list : FreeList g ram.indexTable.free blocks) (many : 1 < blocks.length) (safe : crash state)
    (meets : post (some (blocks[blocks.length - 1])) ram state) :
    Code.wp (idealMachine g) crash (indexFreeBlockGetMaxEcBlock g) post ram state := by
  have fits := list.fits
  have last := list.freeBlockLastValid_eq (show blocks.length - 1 ≤ g.freeBlockCount - 1 by omega)
    (by omega)
  have pos : 0 < blocks.length - 1 := by omega
  simp only [indexFreeBlockGetMaxEcBlock, Code.wp_bind, Code.wp_get, Code.wp_pure, last, pos,
    if_true, list.entry_of_lt (show blocks.length - 1 < blocks.length by omega)]
  exact ⟨safe, safe, meets⟩

/-- The free block table after `INDEX_FreeBlock_SwapMaxECBlock`. -/
def swappedFree (g : Geometry) (free : Nat → BlockEc) (min : BlockEc) : Nat → BlockEc :=
  let last := freeBlockLastValid free (g.freeBlockCount - 1)
  freeBlockInsert free (freeBlockPosition free min.ec (last - 1)) last min

theorem wp_indexFreeBlockSwapMaxEcBlock {blocks : List BlockEc} {block : Nat} {ec : EraseCount}
    {post : Unit → UbiRam D → Ideal (UbiBuffer D) → Prop}
    (list : FreeList g ram.indexTable.free blocks) (many : 1 < blocks.length)
    (exceeds : ecExceeds (blocks[blocks.length - 1]).ec ec g.staticWlThreshold = true)
    (safe : crash state)
    (meets : post () (ram.withFree (swappedFree g ram.indexTable.free ⟨block, ec⟩)) state) :
    Code.wp (idealMachine g) crash (indexFreeBlockSwapMaxEcBlock g block ec) post ram state := by
  have fits := list.fits
  have last := list.freeBlockLastValid_eq (show blocks.length - 1 ≤ g.freeBlockCount - 1 by omega)
    (by omega)
  have pos : blocks.length - 1 ≠ 0 := by omega
  simp only [swappedFree, last] at meets
  simp only [indexFreeBlockSwapMaxEcBlock, Code.wp_bind, Code.wp_get, last,
    list.entry_of_lt (show blocks.length - 1 < blocks.length by omega), exceeds, if_true, pos,
    if_false, setFree, Code.wp_modify]
  exact ⟨safe, safe, meets⟩

end Specs

end OpenNfm
