import OpenNfm.Mtd.Unreliable
import OpenNfm.Ubi.FreeList

/-!
# The free block table with discarded blocks

A block whose program has failed is put back with an invalid erase count, which makes it
the last entry of the table.  The blocks that can be used are the head of the table; the
entry right behind them is empty, so that a search never goes past them.
-/

namespace OpenNfm

open OpenNfm.Program

variable {g : Geometry} {D : Type}

/-- The head of the table holds the listed blocks; behind an empty entry there may be
discarded ones. -/
structure FreeHead (g : Geometry) (table : Nat → BlockEc) (blocks : List BlockEc) : Prop where
  room : blocks.length < g.freeBlockCount
  entry : ∀ i (inside : i < blocks.length), table i = blocks[i]
  gap : table blocks.length = .invalid
  parked : ∀ i, blocks.length < i → i < g.freeBlockCount → (table i).ec = invalidEc
  valid : ∀ entry ∈ blocks, entry.block ≠ invalidBlock ∧ entry.ec ≠ invalidEc

/-- A table without discarded blocks that is not full. -/
theorem FreeList.head {table : Nat → BlockEc} {blocks : List BlockEc}
    (list : FreeList g table blocks) (room : blocks.length < g.freeBlockCount) :
    FreeHead g table blocks where
  room := room
  entry _ inside := list.entry_of_lt inside
  gap := list.entry_of_le le_rfl room
  parked i behind inTable := by
    rw [list.entry_of_le behind.le inTable]
    rfl
  valid := list.valid

namespace FreeHead

variable {table : Nat → BlockEc} {blocks : List BlockEc}

theorem ec_of_le (head : FreeHead g table blocks) {i : Nat} (outside : blocks.length ≤ i)
    (inTable : i < g.freeBlockCount) : (table i).ec = invalidEc := by
  rcases Nat.lt_or_eq_of_le outside with behind | rfl
  · exact head.parked i behind inTable
  · rw [head.gap]
    rfl

/-! ## Getting -/

theorem freeBlockSearch_lt (head : FreeHead g table blocks) {die i : Nat}
    (found : freeBlockSearch g table die = some i) : i < blocks.length := by
  unfold freeBlockSearch at found
  split at found
  · rename_i j first
    by_cases invalid : (table j).block = invalidBlock
    · rw [if_pos invalid] at found
      exact absurd found.symm (Option.some_ne_none i)
    · rw [if_neg invalid, Option.some.injEq] at found
      subst found
      -- the search would have stopped at the empty entry
      by_contra outside
      rcases Nat.lt_or_eq_of_le (Nat.le_of_not_lt outside) with behind | here
      · have passed := (List.find?_range_eq_some.mp first).2.2 blocks.length behind
        rw [head.gap] at passed
        simp [BlockEc.invalid] at passed
      · rw [← here, head.gap] at invalid
        exact invalid rfl
  · exact absurd found.symm (Option.some_ne_none i)

theorem chosen_lt (head : FreeHead g table blocks) (some : blocks ≠ []) (die : Nat) :
    (freeBlockSearch g table die).getD 0 < blocks.length := by
  cases found : freeBlockSearch g table die with
  | none => exact List.length_pos_iff.mpr some
  | some i => exact head.freeBlockSearch_lt found

theorem chosen_nil (head : FreeHead g table []) (die : Nat) :
    table ((freeBlockSearch g table die).getD 0) = .invalid := by
  cases found : freeBlockSearch g table die with
  | none => exact head.gap
  | some i => exact absurd (head.freeBlockSearch_lt found) (Nat.not_lt_zero i)

theorem remove (head : FreeHead g table blocks) {i : Nat} (inside : i < blocks.length) :
    FreeHead g (freeBlockRemove g table i) (blocks.eraseIdx i) := by
  have room := head.room
  have length := List.length_eraseIdx_of_lt inside
  refine ⟨by omega, fun j inside' => ?_, ?_, fun j behind inTable => ?_, fun entry member =>
    head.valid entry (List.mem_of_mem_eraseIdx member)⟩
  · rw [length] at inside'
    unfold freeBlockRemove
    by_cases before : j < i
    · rw [if_pos before, List.getElem_eraseIdx_of_lt _ before, head.entry j (by omega)]
    · rw [if_neg before, if_pos (by omega), head.entry (j + 1) (by omega),
        List.getElem_eraseIdx_of_ge _ (by omega)]
  · unfold freeBlockRemove
    rw [length, if_neg (by omega), if_pos (by omega), Nat.sub_add_cancel (by omega)]
    exact head.gap
  · rw [length] at behind
    unfold freeBlockRemove
    rw [if_neg (by omega)]
    by_cases last : j < g.freeBlockCount - 1
    · rw [if_pos last]
      exact head.ec_of_le (by omega) (by omega)
    · rw [if_neg last, if_pos (by omega)]
      rfl

/-! ## Putting -/

theorem freeBlockScan_le (head : FreeHead g table blocks) {ec : EraseCount}
    (proper : ec ≠ invalidEc) {i : Nat} (inTable : i < g.freeBlockCount) :
    freeBlockScan table ec i ≤ blocks.length - 1 := by
  induction i with
  | zero => exact Nat.zero_le _
  | succ i ih =>
      unfold freeBlockScan
      by_cases inside : i + 1 < blocks.length
      · split
        · exact ih (by omega)
        · omega
      · have larger : (table (i + 1)).ec > ec := by
          rw [head.ec_of_le (Nat.le_of_not_lt inside) inTable]
          exact lt_top_iff_ne_top.mpr proper
        rw [if_pos larger]
        exact ih (by omega)

theorem freeBlockPosition_le (head : FreeHead g table blocks) {ec : EraseCount}
    (proper : ec ≠ invalidEc) {i : Nat} (inTable : i < g.freeBlockCount) :
    freeBlockPosition table ec i ≤ blocks.length := by
  have scanned := head.freeBlockScan_le proper inTable
  simp only [freeBlockPosition]
  split
  · omega
  · split
    · omega
    · rename_i small
      have some : blocks.length ≠ 0 := by
        intro empty
        apply small
        rw [head.ec_of_le (by omega) (by omega)]
        exact lt_top_iff_ne_top.mpr proper
      omega

/-- A block with a valid erase count goes to the head. -/
theorem put (head : FreeHead g table blocks) (room : blocks.length + 1 < g.freeBlockCount)
    {block : Nat} {ec : EraseCount} (proper : block ≠ invalidBlock ∧ ec ≠ invalidEc) :
    ∃ blocks', FreeHead g (freeBlockPut g table block ec) blocks' ∧
      blocks'.Perm (⟨block, ec⟩ :: blocks) := by
  have inList := head.freeBlockPosition_le proper.2
    (show g.freeBlockCount - 2 < g.freeBlockCount by omega)
  unfold freeBlockPut
  generalize freeBlockPosition table ec (g.freeBlockCount - 2) = position at inList
  have length : (blocks.insertIdx position ⟨block, ec⟩).length = blocks.length + 1 :=
    List.length_insertIdx_of_le_length inList _
  refine ⟨blocks.insertIdx position ⟨block, ec⟩, ⟨by omega, fun j inside => ?_, ?_,
    fun j behind inTable => ?_, fun other member => ?_⟩, List.perm_insertIdx _ _ inList⟩
  · rw [length] at inside
    unfold freeBlockInsert
    rw [List.getElem_insertIdx]
    by_cases before : j < position
    · rw [if_pos before, dif_pos before]
      exact head.entry j (by omega)
    · rw [if_neg before, dif_neg before]
      by_cases here : j = position
      · rw [if_pos here, dif_pos here]
      · rw [if_neg here, dif_neg here, if_pos (by omega)]
        exact head.entry (j - 1) (by omega)
  · rw [length]
    unfold freeBlockInsert
    rw [if_neg (by omega), if_neg (by omega), if_pos (by omega), Nat.add_sub_cancel]
    exact head.gap
  · rw [length] at behind
    unfold freeBlockInsert
    rw [if_neg (by omega), if_neg (by omega), if_pos (by omega)]
    exact head.ec_of_le (by omega) (by omega)
  · rcases List.eq_or_mem_of_mem_insertIdx member with rfl | old
    · exact proper
    · exact head.valid other old

theorem freeBlockPosition_invalid (table : Nat → BlockEc) (i : Nat) :
    freeBlockPosition table invalidEc i = i + 1 := by
  have scanned : freeBlockScan table invalidEc i = i := by
    cases i with
    | zero => rfl
    | succ i => exact if_neg not_top_lt
  unfold freeBlockPosition
  rw [scanned]
  dsimp only
  split
  · rfl
  · rename_i first
    rw [if_neg (show ¬ (table 0).ec > invalidEc from not_top_lt)]
    omega

/-- A block without a valid erase count becomes the last entry. -/
theorem park (head : FreeHead g table blocks) (room : blocks.length + 1 < g.freeBlockCount)
    (block : Nat) : FreeHead g (freeBlockPut g table block invalidEc) blocks := by
  have position := freeBlockPosition_invalid table (g.freeBlockCount - 2)
  have last : g.freeBlockCount - 2 + 1 = g.freeBlockCount - 1 := by omega
  rw [last] at position
  have same : ∀ i < g.freeBlockCount - 1, freeBlockPut g table block invalidEc i = table i := by
    intro i before
    unfold freeBlockPut freeBlockInsert
    rw [position, if_pos before]
  have placed : freeBlockPut g table block invalidEc (g.freeBlockCount - 1) =
      ⟨block, invalidEc⟩ := by
    unfold freeBlockPut freeBlockInsert
    rw [position, if_neg (Nat.lt_irrefl _), if_pos rfl]
  refine ⟨head.room, fun i inside => ?_, ?_, fun i behind inTable => ?_, head.valid⟩
  · rw [same i (by omega)]
    exact head.entry i inside
  · rw [same _ (by omega)]
    exact head.gap
  · by_cases before : i < g.freeBlockCount - 1
    · rw [same i before]
      exact head.parked i behind inTable
    · obtain rfl : i = g.freeBlockCount - 1 := by omega
      rw [placed]

end FreeHead

/-! ## The functions of the index on the device -/

section Specs

variable {pattern : FailurePattern} {halts : Prop} {ram : UbiRam D}
  {state : Unreliable (UbiBuffer D)}

/-- The memory with other free blocks and with other blocks listed bad. -/
def UbiRam.withFreeBad (ram : UbiRam D) (free : Nat → BlockEc) (table : Nat → Nat) : UbiRam D :=
  { ram with
    indexTable := { ram.indexTable with free := free }
    anchorTable := { ram.anchorTable with badBlockTable := table } }

/-- `INDEX_FreeBlock_Get` takes a block of the head and erases it, or none of them can be
erased. -/
theorem Unreliable.spec_indexFreeBlockGet {die rounds : Nat} {blocks : List BlockEc}
    {post : Status × BlockEc → UbiRam D → Unreliable (UbiBuffer D) → Prop}
    (head : FreeHead g ram.indexTable.free blocks) (enough : blocks.length < rounds)
    (isBlock : ∀ entry ∈ blocks, entry.block < g.cfgLogBlockCount)
    (found : ∀ entry rest free table after, List.Subperm (entry :: rest) blocks →
      FreeHead g free rest → BlankFrom after entry.block 0 →
      ChangedOnly (fun block => ∃ other ∈ blocks, other.block = block) state after →
      state.count ≤ after.count →
      post (.success, ⟨entry.block, entry.ec.plus 1⟩) (ram.withFreeBad free table) after)
    (none : ∀ entry ram' after, post (.toomanyBadblock, entry) ram' after) :
    Code.spec (unreliableMachine g pattern) (fun _ => True) halts
      (indexFreeBlockGetLoop g die rounds) post ram state := by
  induction rounds generalizing blocks ram state with
  | zero => exact absurd enough (Nat.not_lt_zero _)
  | succ rounds ih =>
      by_cases empty : blocks = []
      · subst empty
        simp only [indexFreeBlockGetLoop, Code.spec_bind, Code.spec_get, head.chosen_nil,
          BlockEc.invalid, ne_eq, not_true_eq_false, if_false, Code.spec_pure, reduceCtorEq,
          not_false_eq_true, if_true, anchorLogBadBlock, Code.spec_modify, and_false, false_and]
        exact ⟨trivial, trivial, trivial, trivial, none _ _ _⟩
      · have inside := head.chosen_lt empty die
        generalize index : (freeBlockSearch g ram.indexTable.free die).getD 0 = i at inside
        have entry := head.entry i inside
        have member := List.getElem_mem inside
        have proper := (head.valid _ member).1
        have removed := head.remove inside
        have subset : ∀ other, other = blocks[i].block → ∃ entry ∈ blocks, entry.block = other :=
          fun other same => ⟨_, member, same.symm⟩
        simp only [indexFreeBlockGetLoop, Code.spec_bind, Code.spec_get, index, entry, ne_eq,
          proper, not_false_eq_true, if_true]
        refine ⟨trivial, Unreliable.spec_mtdErase (isBlock _ member)
          (fun after blank changed count => ?_) fun after changed count => ?_⟩
        · simp only [not_true_eq_false, if_false, reduceCtorEq, not_false_eq_true, if_true, setFree,
            Code.spec_bind, Code.spec_modify, Code.spec_pure, false_and]
          exact ⟨trivial, trivial, found blocks[i] _ _ _ after
            (List.getElem_cons_eraseIdx_perm inside).subperm removed blank (changed.mono subset)
            (by omega)⟩
        · simp only [reduceCtorEq, not_false_eq_true, if_true, anchorLogBadBlock, setFree,
            Code.spec_bind, Code.spec_modify, and_self]
          have smaller := List.eraseIdx_sublist blocks i
          refine ⟨trivial, trivial, ih removed
            (by rw [List.length_eraseIdx_of_lt inside]; omega)
            (fun other left => isBlock other (List.mem_of_mem_eraseIdx left)) ?_⟩
          intro entry rest free table final sub head' blank changed' count'
          refine found entry rest free table final (sub.trans smaller.subperm) head' blank ?_
            (by omega)
          refine (changed.mono subset).trans (changed'.mono ?_)
          rintro block ⟨other, left, same⟩
          exact ⟨other, List.mem_of_mem_eraseIdx left, same⟩

end Specs

end OpenNfm
