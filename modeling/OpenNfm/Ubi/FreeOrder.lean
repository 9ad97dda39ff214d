import Mathlib.Data.Nat.Find
import OpenNfm.Ubi.FreeSorted
import OpenNfm.Ubi.FactoryFormat

/-!
# The order of the free block table

The format leaves the free block table sorted by erase count, `INDEX_FreeBlock_Get` keeps it
sorted whatever its erases answer, and `INDEX_FreeBlock_Put` inserts an entry where its
count belongs.  The invalid count is the largest one, and may also be put.
-/

namespace OpenNfm

open OpenNfm.Program OpenNfm.Program.Code

section FreeOrder

variable {g : Geometry} {D : Type}

/-- The erase counts do not decrease; invalid counts come last. -/
def FreeOrdered (g : Geometry) (table : Nat → BlockEc) : Prop :=
  ∀ i j, i ≤ j → j < g.freeBlockCount → (table i).ec ≤ (table j).ec

/-- An ordered table has some number of valid entries, and the invalid ones behind them. -/
theorem FreeOrdered.freeSorted {table : Nat → BlockEc} (ordered : FreeOrdered g table) :
    ∃ n, FreeSorted g table n := by
  have ends : ∃ n, n = g.freeBlockCount ∨ (table n).ec = invalidEc := ⟨_, .inl rfl⟩
  have fits : Nat.find ends ≤ g.freeBlockCount := Nat.find_min' ends (.inl rfl)
  refine ⟨Nat.find ends, fits, ordered, fun i inside isInvalid => ?_, fun i outside inTable => ?_⟩
  · exact Nat.find_min ends inside (.inr isInvalid)
  · have first : (table (Nat.find ends)).ec = invalidEc :=
      (Nat.find_spec ends).resolve_left (by omega)
    have le := ordered _ i outside inTable
    rw [first] at le
    exact top_le_iff.mp le

/-- An ordered table whose last entry is valid is full of valid entries. -/
theorem FreeOrdered.last_invalid {table : Nat → BlockEc} (ordered : FreeOrdered g table)
    (room : (tableEntries g table).countP (fun entry => decide (entry.ec ≠ invalidEc)) <
      g.freeBlockCount) : (table (g.freeBlockCount - 1)).ec = invalidEc := by
  by_contra isValid
  refine absurd room (Nat.not_lt.mpr ?_)
  rw [List.countP_eq_length.mpr, tableEntries_length]
  intro entry inside
  obtain ⟨i, inTable, rfl⟩ := List.mem_map.mp inside
  have inTable := List.mem_range.mp inTable
  have le := ordered i (g.freeBlockCount - 1) (by omega) (by omega)
  refine decide_eq_true fun isInvalid => isValid ?_
  rw [isInvalid] at le
  exact top_le_iff.mp le

/-! ## Put -/

/-- The table after a put: the entry is behind all entries but the last that are not larger,
the others keep their order, and the last one is gone. -/
structure PutsAt (g : Geometry) (table after : Nat → BlockEc) (entry : BlockEc) (position : Nat) :
    Prop where
  inTable : position ≤ g.freeBlockCount - 1
  before : ∀ i < position, (table i).ec ≤ entry.ec
  behind : ∀ i, position ≤ i → i < g.freeBlockCount - 1 → entry.ec < (table i).ec
  entries : tableEntries g after = (tableEntries g table).dropLast.insertIdx position entry
  array : ∀ i, g.freeBlockCount ≤ i → after i = table i

theorem FreeOrdered.putsAt {table : Nat → BlockEc} (ordered : FreeOrdered g table)
    (many : 2 ≤ g.freeBlockCount) (block : Nat) (ec : EraseCount) :
    PutsAt g table (freeBlockPut g table block ec) ⟨block, ec⟩
      (freeBlockPosition table ec (g.freeBlockCount - 2)) := by
  have position := FreeList.freeBlockPosition_le_start table ec (g.freeBlockCount - 2)
  obtain ⟨before, behind⟩ := freeBlockPosition_spec table ec (g.freeBlockCount - 2)
    fun i j le last => ordered i j le (by omega)
  refine ⟨by omega, before, fun i after inner => behind i after (by omega), ?_, fun i outside => ?_⟩
  · have last : (tableEntries g table).dropLast =
        (tableEntries g table).eraseIdx (g.freeBlockCount - 1) := by
      rw [← tableEntries_length (g := g) table, List.eraseIdx_length_sub_one]
    rw [last]
    exact tableEntries_freeBlockInsert (by omega) (by omega)
  · rw [freeBlockPut, freeBlockInsert, if_neg (by omega), if_neg (by omega), if_neg (by omega)]

theorem FreeOrdered.put {table : Nat → BlockEc} (ordered : FreeOrdered g table)
    (many : 2 ≤ g.freeBlockCount) (block : Nat) (ec : EraseCount) :
    FreeOrdered g (freeBlockPut g table block ec) := by
  have puts := ordered.putsAt many block ec
  exact freeBlockInsert_sorted ordered puts.before
    (fun i after inner => (puts.behind i after inner).le) fun i outside inTable => by omega

/-! ## Get -/

theorem FreeOrdered.remove {table : Nat → BlockEc} (ordered : FreeOrdered g table) (i : Nat) :
    FreeOrdered g (freeBlockRemove g table i) := by
  intro j k le inTable
  by_cases last : k < g.freeBlockCount - 1
  · unfold freeBlockRemove
    rw [if_pos last, if_pos (show j < g.freeBlockCount - 1 by omega)]
    split
    · split
      · exact ordered j k le inTable
      · exact ordered j (k + 1) (by omega) (by omega)
    · rw [if_neg (show ¬ k < i by omega)]
      exact ordered (j + 1) (k + 1) (by omega) (by omega)
  · by_cases before : k < i
    · rw [freeBlockRemove, if_pos (show j < i by omega), freeBlockRemove, if_pos before]
      exact ordered j k le inTable
    · have invalid : freeBlockRemove g table i k = .invalid := by
        rw [freeBlockRemove, if_neg before, if_neg last, if_pos (by omega)]
      rw [invalid]
      exact le_top

theorem freeBlockSearch_inTable (table : Nat → BlockEc) (array : 0 < g.freeBlockCount) (die : Nat) :
    (freeBlockSearch g table die).getD 0 < g.freeBlockCount := by
  unfold freeBlockSearch
  split
  · rename_i i found
    split
    · exact array
    · exact List.mem_range.mp (List.mem_of_find?_eq_some found)
  · exact array

/-- One entry less is left behind a removal. -/
theorem freeBlockRemove_invalid {table : Nat → BlockEc} {n i : Nat} (inside : i < n)
    (invalid : ∀ j, n ≤ j → j < g.freeBlockCount → table j = .invalid) (j : Nat)
    (outside : n - 1 ≤ j) (inTable : j < g.freeBlockCount) :
    freeBlockRemove g table i j = .invalid := by
  rw [freeBlockRemove, if_neg (by omega)]
  split
  · exact invalid (j + 1) (by omega) (by omega)
  · rw [if_pos (by omega)]

section Runs

variable {oracle : Oracle (MtdOp (UbiBuffer D)) (MtdAns (UbiBuffer D))} {halts : Prop}
  {ram : UbiRam D} {calls : List (Called (MtdOp (UbiBuffer D)) (MtdAns (UbiBuffer D)))}

/-- The search keeps the table ordered.  Each round takes an entry out of it, so that it ends
behind as many rounds as there are entries. -/
theorem spec_indexFreeBlockGetLoop_ordered (array : 0 < g.freeBlockCount) {die n rounds : Nat}
    (ordered : FreeOrdered g ram.indexTable.free)
    (invalid : ∀ j, n ≤ j → j < g.freeBlockCount → ram.indexTable.free j = .invalid)
    (enough : n < rounds ∨ halts) :
    Code.spec oracle.machine (fun _ => True) halts (indexFreeBlockGetLoop g die rounds)
      (fun _ ram' _ => FreeOrdered g ram'.indexTable.free) ram calls := by
  induction rounds generalizing n ram calls with
  | zero => exact Code.spec_halt.mpr ⟨trivial, enough.resolve_left (Nat.not_lt_zero n)⟩
  | succ rounds ih =>
      have inTable := freeBlockSearch_inTable ram.indexTable.free array die
      simp only [indexFreeBlockGetLoop, Code.spec_bind, Code.spec_get]
      generalize (freeBlockSearch g ram.indexTable.free die).getD 0 = i at inTable
      refine ⟨trivial, ?_⟩
      by_cases proper : (ram.indexTable.free i).block ≠ invalidBlock
      · rw [if_pos proper, Code.spec_bind]
        have inside : i < n := by
          by_contra outside
          exact proper (by rw [invalid i (Nat.le_of_not_lt outside) inTable]; rfl)
        have removed := freeBlockRemove_invalid inside invalid
        have still := ordered.remove i
        have erased :
            oracle.machine calls (.erase (ram.indexTable.free i).block) = .ok (_, _) := rfl
        refine (Code.spec_perform_of_step erased).mpr ⟨trivial, trivial, ?_⟩
        generalize oracle calls (.erase (ram.indexTable.free i).block) = ret
        by_cases success : ret = .success
        · subst success
          simp only [ne_eq, not_true_eq_false, if_false, reduceCtorEq, not_false_eq_true, if_true,
            false_and, Code.spec_pure, Code.spec_bind, setFree, Code.spec_modify]
          exact ⟨trivial, trivial, still⟩
        · by_cases many : ret = .toomanyBadblock
          · subst many
            simp only [ne_eq, not_true_eq_false, if_false, reduceCtorEq, not_false_eq_true,
              if_true, false_and, and_false, Code.spec_pure, Code.spec_bind, anchorLogBadBlock,
              Code.spec_modify]
            exact ⟨trivial, trivial, ordered⟩
          · simp only [ne_eq, success, many, not_false_eq_true, if_true, true_and,
              Code.spec_bind, anchorLogBadBlock, Code.spec_modify, setFree]
            split
            · exact ih still removed (enough.imp_left (by omega))
            · exact Code.spec_pure.mpr ⟨trivial, still⟩
      · rw [if_neg proper]
        simp only [ne_eq, not_true_eq_false, if_false, reduceCtorEq, not_false_eq_true, if_true,
          Code.spec_pure, Code.spec_bind, anchorLogBadBlock, Code.spec_modify]
        exact ⟨trivial, trivial, trivial, ordered⟩

theorem FreeOrdered.yields_get {fuel die : Nat} (array : 0 < g.freeBlockCount)
    (ordered : FreeOrdered g ram.indexTable.free) :
    Yields oracle (indexFreeBlockGet g fuel die)
      (fun _ ram' _ => FreeOrdered g ram'.indexTable.free) ram calls :=
  spec_indexFreeBlockGetLoop_ordered array ordered
    (fun _ outside inTable => absurd inTable (Nat.not_lt.mpr outside)) (.inr trivial)

/-- With a round for each entry and one more the search returns. -/
theorem FreeOrdered.exec_get {fuel : Nat} (array : 0 < g.freeBlockCount)
    (ordered : FreeOrdered g ram.indexTable.free) (enough : g.freeBlockCount < fuel) (die : Nat) :
    ∃ answer ram' calls', ((indexFreeBlockGet g fuel die).run ram).exec oracle.machine calls =
      .ok ((answer, ram'), calls') := by
  have whole : Code.spec oracle.machine (fun _ => True) False (indexFreeBlockGet g fuel die)
      (fun _ ram' _ => FreeOrdered g ram'.indexTable.free) ram calls :=
    spec_indexFreeBlockGetLoop_ordered array ordered
      (fun _ outside inTable => absurd inTable (Nat.not_lt.mpr outside)) (.inl enough)
  obtain ⟨answer, ram', calls', run, -⟩ := Code.exec_of_spec whole
  exact ⟨answer, ram', calls', run⟩

/-! ## The format -/

/-- The entries that the format has filled have the count zero. -/
theorem yields_indexFormatFill_zero {blocks : List Nat} {ret : Status} {indexBlock count : Nat}
    {free : Nat → BlockEc} (zero : ∀ i < count, (free i).ec = (0 : Nat)) :
    Yields oracle (indexFormatFill g blocks ret indexBlock count free)
      (fun result _ _ => ∀ i < result.2.2.1, (result.2.2.2 i).ec = (0 : Nat)) ram calls := by
  induction blocks generalizing ret indexBlock count free ram calls with
  | nil => exact Yields.pure.mpr zero
  | cons block rest ih =>
      have filled : ∀ i < count + 1,
          (Function.update free count (⟨block, (0 : Nat)⟩ : BlockEc) i).ec = (0 : Nat) := by
        intro i inside
        by_cases last : i = count
        · rw [last, Function.update_self]
        · rw [Function.update_of_ne last]
          exact zero i (by omega)
      unfold indexFormatFill
      simp only [anchorIsBadBlock, Yields.bind, Yields.get, Yields.pure]
      split
      · exact ih zero
      · simp only [mtdErase, Yields.bind, Yields.perform]
        generalize oracle calls (.erase block) = answer
        by_cases success : answer = .success
        · simp only [success, ne_eq, not_true_eq_false, if_false, pure_bind, if_true]
          split
          · exact ih zero
          · rw [Yields.bind, Yields.assert]
            exact fun _ => ih filled
        · simp only [ne_eq, success, not_false_eq_true, if_true, anchorLogBadBlock, pure_bind,
            if_false, Yields.bind, Yields.modifies]
          exact ih zero

theorem keeps_tableWrite_free {free : Nat → BlockEc} {block page : Nat} {table : UbiBuffer D} :
    Keeps oracle.machine (fun ram _ => ram.indexTable.free = free)
      (tableWrite block page table) := by
  unfold tableWrite
  refine Keeps.bind (.perform fun _ _ _ _ holds _ => holds) fun ret => ?_
  split
  · exact .perform fun _ _ _ _ holds _ => holds
  · exact .pure ret

/-- Writing the index block does not change the table in memory. -/
theorem keeps_indexFormatWrite {free : Nat → BlockEc} {indexBlock next : Nat} (ret : Status) :
    Keeps oracle.machine (fun ram _ => ram.indexTable.free = free)
      (indexFormatWrite g indexBlock next ret) := by
  have written : ∀ ret, Keeps oracle.machine (fun ram _ => ram.indexTable.free = free)
      (indexFormatEnd g indexBlock next ret) := by
    intro ret
    unfold indexFormatEnd
    split
    · exact .bind (.modifies fun _ _ holds => holds) fun _ => .pure next
    · exact .bind (.modifies fun _ _ holds => holds) fun _ => .pure invalidBlock
  have erased : ∀ ret, Keeps oracle.machine (fun ram _ => ram.indexTable.free = free) (do
      let ram ← get
      let ret ← if ret = .success then tableWrite indexBlock 0 (.index ram.indexTable) else pure ret
      indexFormatEnd g indexBlock next ret) := by
    refine fun ret => .bind .get fun ram => ?_
    split
    · exact .bind keeps_tableWrite_free written
    · exact .bind (.pure ret) written
  unfold indexFormatWrite
  split
  · exact .bind (.perform fun _ _ _ _ holds _ => holds) erased
  · exact .bind (.pure ret) erased

/-- Whatever the device answers, the format leaves an ordered table. -/
theorem yields_indexFormat_ordered {totalBlock fmtCurrentBlock : Nat} :
    Yields oracle (indexFormat g totalBlock fmtCurrentBlock)
      (fun _ ram' _ => FreeOrdered g ram'.indexTable.free) ram calls := by
  rw [indexFormat_eq]
  simp only [Yields.bind, Yields.modifies, Yields.get]
  refine Yields.mono (yields_indexFormatFill_zero fun i wrong =>
    absurd wrong (Nat.not_lt_zero i)) ?_
  rintro ⟨ret, indexBlock, count, free⟩ ram' calls' zero
  dsimp only at zero ⊢
  have ordered : FreeOrdered g fun i =>
      if count ≤ i ∧ i < g.freeBlockCount then .invalid else free i := by
    intro i j le inTable
    dsimp only
    by_cases filled : j < count
    · rw [if_neg (by omega), if_neg (by omega), zero i (by omega), zero j filled]
    · rw [if_pos (show count ≤ j ∧ j < g.freeBlockCount by omega)]
      exact le_top
  have checked : Keeps oracle.machine (fun (ram : UbiRam D) _ => ram.indexTable.free =
      fun i => if count ≤ i ∧ i < g.freeBlockCount then .invalid else free i) (do
      let ret ←
        if ret = .success then do
          let bad ← anchorIsBadBlock g indexBlock
          pure (if bad then .badblock else ret)
        else pure ret
      indexFormatWrite g indexBlock (max fmtCurrentBlock totalBlock) ret) := by
    split
    · exact .bind (.bind .get fun _ => .pure _) fun _ => .bind (.pure _) keeps_indexFormatWrite
    · exact .bind (.pure ret) keeps_indexFormatWrite
  have whole : ∀ after : UbiRam D, after.indexTable.free =
      (fun i => if count ≤ i ∧ i < g.freeBlockCount then .invalid else free i) →
      FreeOrdered g after.indexTable.free := fun after same => same ▸ ordered
  split
  · rw [Yields.bind, Yields.assert]
    exact fun _ => checked.yields rfl fun _ after _ same => whole after same
  · exact checked.yields rfl fun _ after _ same => whole after same

/-! ## Runs -/

/-- The free block table over a run: it is formatted, then blocks are put and gotten in any
order, whatever the device answers.  Other functions may run in between which leave the table
alone. -/
inductive FreeRun (g : Geometry) (oracle : Oracle (MtdOp (UbiBuffer D)) (MtdAns (UbiBuffer D))) :
    UbiRam D → List (Called (MtdOp (UbiBuffer D)) (MtdAns (UbiBuffer D))) → Prop
  | format {ram ram' : UbiRam D}
      {calls calls' : List (Called (MtdOp (UbiBuffer D)) (MtdAns (UbiBuffer D)))}
      {totalBlock fmtCurrentBlock block : Nat}
      (run : ((indexFormat g totalBlock fmtCurrentBlock).run ram).exec oracle.machine calls =
        .ok ((block, ram'), calls')) : FreeRun g oracle ram' calls'
  | put {ram ram' : UbiRam D}
      {calls calls' : List (Called (MtdOp (UbiBuffer D)) (MtdAns (UbiBuffer D)))} {block : Nat}
      {ec : EraseCount} (before : FreeRun g oracle ram calls)
      (run : ((indexFreeBlockPut g block ec).run ram).exec oracle.machine calls =
        .ok (((), ram'), calls')) : FreeRun g oracle ram' calls'
  | get {ram ram' : UbiRam D}
      {calls calls' : List (Called (MtdOp (UbiBuffer D)) (MtdAns (UbiBuffer D)))}
      {fuel die : Nat} {answer : Status × BlockEc} (before : FreeRun g oracle ram calls)
      (run : ((indexFreeBlockGet g fuel die).run ram).exec oracle.machine calls =
        .ok ((answer, ram'), calls')) : FreeRun g oracle ram' calls'
  | other {ram ram' : UbiRam D}
      {calls calls' : List (Called (MtdOp (UbiBuffer D)) (MtdAns (UbiBuffer D)))}
      (before : FreeRun g oracle ram calls)
      (same : ram'.indexTable.free = ram.indexTable.free) : FreeRun g oracle ram' calls'

theorem exec_indexFreeBlockPut (block : Nat) (ec : EraseCount) :
    ((indexFreeBlockPut g block ec).run ram).exec oracle.machine calls =
      .ok (((), ram.withFree (freeBlockPut g ram.indexTable.free block ec)), calls) :=
  rfl

theorem FreeRun.ordered (many : 2 ≤ g.freeBlockCount) (run : FreeRun g oracle ram calls) :
    FreeOrdered g ram.indexTable.free := by
  induction run with
  | format run => exact yields_indexFormat_ordered.of_run run
  | put before run ih =>
      rw [exec_indexFreeBlockPut] at run
      cases run
      exact ih.put many _ _
  | get before run ih => exact (ih.yields_get (by omega)).of_run run
  | other before same ih =>
      rw [same]
      exact ih

/-- Over every run the table stays sorted with the invalid entries last, every put inserts
its entry where the count belongs and drops the last entry only, which has no valid count
while an entry is invalid, and every search for a block returns. -/
theorem freeRun_sorted (many : 2 ≤ g.freeBlockCount) (run : FreeRun g oracle ram calls) :
    (∃ n, FreeSorted g ram.indexTable.free n) ∧
    (∀ block ec, ∃ free position,
      ((indexFreeBlockPut g block ec).run ram).exec oracle.machine calls =
        .ok (((), ram.withFree free), calls) ∧
      PutsAt g ram.indexTable.free free ⟨block, ec⟩ position) ∧
    ((tableEntries g ram.indexTable.free).countP (fun entry => decide (entry.ec ≠ invalidEc)) <
      g.freeBlockCount → (ram.indexTable.free (g.freeBlockCount - 1)).ec = invalidEc) ∧
    ∀ die fuel, g.freeBlockCount < fuel → ∃ answer ram' calls',
      ((indexFreeBlockGet g fuel die).run ram).exec oracle.machine calls =
        .ok ((answer, ram'), calls') := by
  have ordered := run.ordered many
  exact ⟨ordered.freeSorted, fun block ec => ⟨_, _, exec_indexFreeBlockPut block ec,
      ordered.putsAt many block ec⟩,
    ordered.last_invalid, fun die fuel enough => ordered.exec_get (by omega) enough die⟩

end Runs

/-- A device on which every other erase fails. -/
def everyOtherErase : Oracle (MtdOp (UbiBuffer Nat)) (MtdAns (UbiBuffer Nat))
  | _, .read _ _ => ⟨.failure, .ones, .ones⟩
  | calls, .erase _ => if calls.length % 2 = 0 then .success else .badblock
  | _, .program _ _ _ _ => .success
  | _, .waitReady _ => .success
  | _, .readStatus _ => .success
  | _, .checkBlock _ => .success
  | _, .bufFree _ => ()

/-- Blocks 896 to 904 are formatted, and one of them is put with the invalid count. -/
theorem freeRun_sorted_everyOtherErase :
    ∃ (ram : UbiRam Nat) (calls : List (Called (MtdOp (UbiBuffer Nat)) (MtdAns (UbiBuffer Nat)))),
      FreeRun simNand everyOtherErase ram calls ∧
      ∃ n, FreeSorted simNand ram.indexTable.free n := by
  have formats : Code.returns (((indexFormat simNand 905 896).run
      { UbiRam.reset Nat with anchorTable := .blank }).exec everyOtherErase.machine [])
      (fun _ _ _ => true) = true := by
    set_option maxRecDepth 100000 in decide +kernel
  obtain ⟨_, _, _, formatted, -⟩ := Code.returns_iff.mp formats
  have run := (FreeRun.format formatted).put (exec_indexFreeBlockPut 896 invalidEc)
  exact ⟨_, _, run, (freeRun_sorted (by decide) run).1⟩

end FreeOrder

end OpenNfm
