import Mathlib.Data.List.Find
import Mathlib.Data.List.TakeWhile
import OpenNfm.Program.Oracle
import OpenNfm.Ubi.BadBlockTable
import OpenNfm.Ubi.FreeList

/-!
# Getting a free block among bad ones

`INDEX_FreeBlock_Get` on a device on which the erase of some blocks fails.  It tries the
free blocks on the die in their order and then the others, until an erase succeeds; the
blocks that it has tried leave the table.
-/

namespace OpenNfm

open OpenNfm.Program

variable {g : Geometry} {D : Type}

/-! ## The order of the search -/

/-- The block of a slot is on the die. -/
def onDie (g : Geometry) (die : Nat) (entry : BlockEc) : Bool :=
  entry.block % g.totalDieCount = die % g.totalDieCount

/-- The free blocks in the order in which they are tried. -/
def tryOrder (g : Geometry) (die : Nat) (blocks : List BlockEc) : List BlockEc :=
  blocks.filter (onDie g die) ++ blocks.filter fun entry => !onDie g die entry

/-- The search in the array finds the first listed block on the die. -/
theorem freeBlockSearch_eq {table : Nat → BlockEc} {blocks : List BlockEc}
    (entries : FreeEntries g table blocks) (valid : ∀ entry ∈ blocks, entry.block ≠ invalidBlock)
    (die : Nat) :
    freeBlockSearch g table (die % g.totalDieCount) = blocks.findIdx? (onDie g die) := by
  unfold freeBlockSearch
  have listed : ∀ i (inside : i < blocks.length),
      ((table i).block = invalidBlock ∨ (table i).block % g.totalDieCount = die % g.totalDieCount) ↔
        onDie g die blocks[i] = true := by
    intro i inside
    rw [entries.entry_of_lt inside, onDie, decide_eq_true_eq]
    exact or_iff_right (valid _ (List.getElem_mem inside))
  cases found : blocks.findIdx? (onDie g die) with
  | some i =>
      obtain ⟨inside, here, before⟩ := List.findIdx?_eq_some_iff_getElem.mp found
      have first : ((List.range g.freeBlockCount).find? fun i =>
          (table i).block = invalidBlock ∨ (table i).block % g.totalDieCount =
            die % g.totalDieCount) = some i := by
        rw [List.find?_range_eq_some]
        refine ⟨by simpa [listed i inside] using here,
          List.mem_range.mpr (inside.trans_le entries.fits), fun j earlier => ?_⟩
        have notHere := before j earlier
        simpa [listed j (earlier.trans inside)] using notHere
      rw [first]
      have notInvalid := valid _ (List.getElem_mem inside)
      simp only [entries.entry_of_lt inside, if_neg notInvalid]
  | none =>
      have away := List.findIdx?_eq_none_iff.mp found
      split
      · rename_i i first
        obtain ⟨here, inTable, -⟩ := List.find?_range_eq_some.mp first
        rw [decide_eq_true_eq] at here
        by_cases inside : i < blocks.length
        · have wrong := away _ (List.getElem_mem inside)
          rw [(listed i inside).mp here] at wrong
          exact absurd wrong.symm Bool.false_ne_true
        · rw [entries.entry_of_le (Nat.le_of_not_lt inside) (List.mem_range.mp inTable)]
          exact if_pos rfl
      · rfl

/-- The entry that the search takes is the first in the order, and the order of the
others is kept. -/
theorem tryOrder_remove {blocks : List BlockEc} (some : blocks ≠ []) (die : Nat) :
    ∃ inside : (blocks.findIdx? (onDie g die)).getD 0 < blocks.length,
      tryOrder g die blocks = blocks[(blocks.findIdx? (onDie g die)).getD 0] ::
        tryOrder g die (blocks.eraseIdx ((blocks.findIdx? (onDie g die)).getD 0)) := by
  cases found : blocks.findIdx? (onDie g die) with
  | some i =>
      obtain ⟨inside, here, before⟩ := List.findIdx?_eq_some_iff_getElem.mp found
      have earlier : (blocks.take i).filter (onDie g die) = [] := by
        rw [List.filter_eq_nil_iff]
        intro entry inTake
        obtain ⟨j, short, rfl⟩ := List.mem_iff_getElem.mp inTake
        rw [List.length_take] at short
        rw [List.getElem_take]
        exact before j (by omega)
      refine ⟨inside, ?_⟩
      have parts : blocks = blocks.take i ++ blocks[i] :: blocks.drop (i + 1) := by
        rw [List.getElem_cons_drop, List.take_append_drop]
      simp only [Option.getD_some, tryOrder]
      rw [List.eraseIdx_eq_take_drop_succ]
      conv_lhs => rw [parts]
      simp only [List.filter_append, List.filter_cons, earlier, here, List.nil_append, if_true,
        Bool.not_true, Bool.false_eq_true, if_false, List.cons_append]
  | none =>
      have away := List.findIdx?_eq_none_iff.mp found
      obtain ⟨first, rest, rfl⟩ := List.exists_cons_of_ne_nil some
      refine ⟨Nat.succ_pos _, ?_⟩
      have none : ∀ entry ∈ rest, onDie g die entry = false := fun entry inside =>
        away entry (List.mem_cons_of_mem _ inside)
      have notFirst := away first List.mem_cons_self
      have near : rest.filter (onDie g die) = [] :=
        List.filter_eq_nil_iff.mpr fun entry inside => by simp [none entry inside]
      simp [tryOrder, notFirst, near]

theorem eraseIdx_eq_filter {blocks : List BlockEc} (distinct : blocks.Nodup) {i : Nat}
    (inside : i < blocks.length) :
    blocks.eraseIdx i = blocks.filter fun entry => entry ≠ blocks[i] := by
  rw [← List.erase_eq_eraseIdx_of_idxOf (distinct.idxOf_getElem i inside),
    distinct.erase_eq_filter]
  congr 1
  funext entry
  simp [bne, beq_eq_decide]

/-! ## The search -/

/-- The blocks whose erase has failed, when the search ends. -/
def failedTries (fails : Nat → Bool) (order : List BlockEc) : List BlockEc :=
  order.takeWhile fun entry => fails entry.block

/-- The block that the search ends with. -/
def firstGood (fails : Nat → Bool) (order : List BlockEc) : Option BlockEc :=
  order.find? fun entry => !fails entry.block

/-- What is left of the table when the search ends. -/
def leftFree (fails : Nat → Bool) (order blocks : List BlockEc) : List BlockEc :=
  blocks.filter fun entry => entry ∉ failedTries fails order ∧ some entry ≠ firstGood fails order

theorem failedTries_cons {fails : Nat → Bool} {entry : BlockEc} (failed : fails entry.block = true)
    (rest : List BlockEc) :
    failedTries fails (entry :: rest) = entry :: failedTries fails rest := by
  simp [failedTries, failed]

theorem firstGood_cons {fails : Nat → Bool} {entry : BlockEc} (failed : fails entry.block = true)
    (rest : List BlockEc) : firstGood fails (entry :: rest) = firstGood fails rest := by
  simp [firstGood, failed]

theorem failedTries_good {fails : Nat → Bool} {entry : BlockEc} (good : fails entry.block = false)
    (rest : List BlockEc) : failedTries fails (entry :: rest) = [] := by
  simp [failedTries, good]

theorem firstGood_good {fails : Nat → Bool} {entry : BlockEc} (good : fails entry.block = false)
    (rest : List BlockEc) : firstGood fails (entry :: rest) = some entry := by
  simp [firstGood, good]

theorem leftFree_cons {fails : Nat → Bool} {entry : BlockEc} (failed : fails entry.block = true)
    (rest blocks : List BlockEc) :
    leftFree fails (entry :: rest) blocks =
      leftFree fails rest (blocks.filter fun other => other ≠ entry) := by
  unfold leftFree
  rw [failedTries_cons failed, firstGood_cons failed, List.filter_filter]
  refine List.filter_congr fun other _ => ?_
  rw [Bool.eq_iff_iff]
  simp only [List.mem_cons, not_or, decide_eq_true_eq, Bool.and_eq_true]
  tauto

theorem leftFree_good {fails : Nat → Bool} {entry : BlockEc} (good : fails entry.block = false)
    (rest blocks : List BlockEc) :
    leftFree fails (entry :: rest) blocks = blocks.filter fun other => other ≠ entry := by
  unfold leftFree
  rw [failedTries_good good, firstGood_good good]
  simp

/-- The call that erases a block, with its answer. -/
def eraseCall (B : Type) (fails : Nat → Bool) (entry : BlockEc) : Called (MtdOp B) (MtdAns B) :=
  ⟨.erase entry.block, if fails entry.block then .badblock else .success⟩

/-- The calls of the search. -/
def searchCalls (B : Type) (fails : Nat → Bool) (order : List BlockEc) :
    List (Called (MtdOp B) (MtdAns B)) :=
  (failedTries fails order ++ (firstGood fails order).toList).map (eraseCall B fails)

/-- What the search hands back. -/
def searchAnswer (fails : Nat → Bool) (order : List BlockEc) : Status × BlockEc :=
  match firstGood fails order with
  | some entry => (.success, ⟨entry.block, entry.ec.plus 1⟩)
  | none => (.toomanyBadblock, ⟨invalidBlock, invalidEc.plus 1⟩)

/-- The memory when the search ends. -/
def UbiRam.searched (ram : UbiRam D) (g : Geometry) (fails : Nat → Bool)
    (order : List BlockEc) (free : Nat → BlockEc) : UbiRam D :=
  { ram with
    indexTable := { ram.indexTable with free := free }
    anchorTable := { ram.anchorTable with
      badBlockTable := logBadBlocks g ram.anchorTable.badBlockTable
        ((failedTries fails order).map BlockEc.block) } }

theorem logBadBlock_invalidBlock (g : Geometry) (table : Nat → Nat) :
    logBadBlock g table invalidBlock = table := by
  rcases logBadBlock_cases g table invalidBlock with ⟨i, -, free, entered⟩ | ⟨same, -⟩
  · rw [entered, ← free, Function.update_eq_self]
  · exact same

section Rounds

variable {oracle : Oracle (MtdOp (UbiBuffer D)) (MtdAns (UbiBuffer D))} {fails : Nat → Bool}
  {ram : UbiRam D} {calls : List (Called (MtdOp (UbiBuffer D)) (MtdAns (UbiBuffer D)))}

theorem spec_indexFreeBlockGetLoop_empty {die rounds : Nat}
    {post : Status × BlockEc → UbiRam D → List (Called (MtdOp (UbiBuffer D)) _) → Prop}
    (array : 0 < g.freeBlockCount) (entries : FreeEntries g ram.indexTable.free [])
    (meets : post (searchAnswer fails []) (ram.searched g fails [] ram.indexTable.free) calls) :
    Code.spec oracle.machine (fun _ => True) False
      (indexFreeBlockGetLoop g (die % g.totalDieCount) (rounds + 1)) post ram calls := by
  have none := freeBlockSearch_eq entries (fun _ inside => absurd inside List.not_mem_nil) die
  have first := entries.entry_of_le (Nat.le_refl 0) array
  have same : ram.searched g fails [] ram.indexTable.free =
      { ram with anchorTable := { ram.anchorTable with
        badBlockTable := logBadBlock g ram.anchorTable.badBlockTable invalidBlock } } := by
    rw [logBadBlock_invalidBlock]
    rfl
  rw [same] at meets
  simp only [indexFreeBlockGetLoop, Code.spec_bind, Code.spec_get, none, List.findIdx?_nil,
    Option.getD_none, first, BlockEc.invalid, ne_eq, not_true_eq_false, if_false, Code.spec_pure,
    reduceCtorEq, not_false_eq_true, if_true, anchorLogBadBlock, Code.spec_modify, and_false,
    false_and]
  exact ⟨trivial, trivial, trivial, trivial, meets⟩

/-- The rounds of `INDEX_FreeBlock_Get` go through the order of the search. -/
theorem spec_indexFreeBlockGetLoop
    (erases : ∀ calls block,
      oracle calls (.erase block) = if fails block then .badblock else .success)
    {die rounds : Nat} {blocks : List BlockEc}
    {post : Status × BlockEc → UbiRam D → List (Called (MtdOp (UbiBuffer D)) _) → Prop}
    (array : 0 < g.freeBlockCount)
    (entries : FreeEntries g ram.indexTable.free blocks) (distinct : blocks.Nodup)
    (valid : ∀ entry ∈ blocks, entry.block ≠ invalidBlock) (enough : blocks.length < rounds)
    (meets : ∀ free, FreeEntries g free (leftFree fails (tryOrder g die blocks) blocks) →
      post (searchAnswer fails (tryOrder g die blocks))
        (ram.searched g fails (tryOrder g die blocks) free)
        ((searchCalls (UbiBuffer D) fails (tryOrder g die blocks)).reverse ++ calls)) :
    Code.spec oracle.machine (fun _ => True) False
      (indexFreeBlockGetLoop g (die % g.totalDieCount) rounds) post ram calls := by
  induction rounds generalizing blocks ram calls with
  | zero => exact absurd enough (Nat.not_lt_zero _)
  | succ rounds ih =>
      by_cases empty : blocks = []
      · subst empty
        exact spec_indexFreeBlockGetLoop_empty array entries (meets _ entries)
      · obtain ⟨inside, order⟩ := tryOrder_remove (g := g) empty die
        have chosen := freeBlockSearch_eq entries valid die
        generalize index : (blocks.findIdx? (onDie g die)).getD 0 = i at inside order
        have entry := entries.entry_of_lt inside
        have proper := valid _ (List.getElem_mem inside)
        have removed := entries.remove i
        have rest := eraseIdx_eq_filter distinct inside
        simp only [indexFreeBlockGetLoop, Code.spec_bind, Code.spec_get, chosen, index, entry,
          ne_eq, proper, not_false_eq_true, if_true]
        refine ⟨trivial, (Code.spec_perform_of_step rfl).mpr ⟨trivial, trivial, ?_⟩⟩
        rw [erases]
        rw [order] at meets
        by_cases failed : fails blocks[i].block = true
        · simp only [failed, if_true, reduceCtorEq, not_false_eq_true, anchorLogBadBlock,
            Code.spec_bind, Code.spec_modify, setFree, and_self]
          refine ⟨trivial, trivial, ih removed (distinct.eraseIdx i)
            (fun other inside => valid other (List.mem_of_mem_eraseIdx inside))
            (by rw [List.length_eraseIdx_of_lt inside]; omega) fun free left => ?_⟩
          rw [rest, ← leftFree_cons failed, ← rest] at left
          have finish := meets free left
          simp only [searchAnswer, searchCalls, UbiRam.searched, firstGood_cons failed,
            failedTries_cons failed, List.map_cons, List.cons_append, List.reverse_cons,
            List.append_assoc, List.nil_append, eraseCall, failed, if_true] at finish
          exact finish
        · simp only [failed, Bool.false_eq_true, if_false, not_true_eq_false, Code.spec_bind,
            reduceCtorEq, not_false_eq_true, if_true, setFree, Code.spec_modify, false_and]
          have good : fails blocks[i].block = false := by simpa using failed
          have left : FreeEntries g (freeBlockRemove g ram.indexTable.free i) (leftFree fails
              (blocks[i] :: tryOrder g die (blocks.eraseIdx i)) blocks) := by
            rw [leftFree_good good, ← rest]
            exact removed
          have finish := meets _ left
          simp only [searchAnswer, searchCalls, UbiRam.searched, firstGood_good good,
            failedTries_good good, Option.toList_some, List.nil_append, List.map_cons, List.map_nil,
            List.reverse_singleton, List.singleton_append, eraseCall, good, Bool.false_eq_true,
            if_false] at finish
          exact ⟨trivial, trivial, finish⟩

theorem exec_indexFreeBlockGet
    (erases : ∀ calls block,
      oracle calls (.erase block) = if fails block then .badblock else .success)
    (die : Nat) (calls : List (Called (MtdOp (UbiBuffer D)) (MtdAns (UbiBuffer D))))
    {fuel : Nat} {blocks : List BlockEc} (array : 0 < g.freeBlockCount)
    (entries : FreeEntries g ram.indexTable.free blocks) (distinct : blocks.Nodup)
    (valid : ∀ entry ∈ blocks, entry.block ≠ invalidBlock) (enough : blocks.length < fuel) :
    ∃ free, FreeEntries g free (leftFree fails (tryOrder g die blocks) blocks) ∧
      ((indexFreeBlockGet g fuel die).run ram).exec oracle.machine calls =
        .ok ((searchAnswer fails (tryOrder g die blocks),
            ram.searched g fails (tryOrder g die blocks) free),
          (searchCalls (UbiBuffer D) fails (tryOrder g die blocks)).reverse ++ calls) := by
  have whole : Code.spec oracle.machine (fun _ => True) False (indexFreeBlockGet g fuel die)
      (fun answer ram' calls' => ∃ free,
        FreeEntries g free (leftFree fails (tryOrder g die blocks) blocks) ∧
        answer = searchAnswer fails (tryOrder g die blocks) ∧
        ram' = ram.searched g fails (tryOrder g die blocks) free ∧
        calls' = (searchCalls (UbiBuffer D) fails (tryOrder g die blocks)).reverse ++ calls)
      ram calls :=
    spec_indexFreeBlockGetLoop erases array entries distinct valid enough
      fun free left => ⟨free, left, rfl, rfl, rfl⟩
  obtain ⟨answer, ram', calls', run, free, left, rfl, rfl, rfl⟩ := Code.exec_of_spec whole
  exact ⟨free, left, run⟩

end Rounds

/-! ## The two phases -/

/-- The search ends with the first good block on the die, or else with the first good
block. -/
theorem firstGood_tryOrder (fails : Nat → Bool) (die : Nat) (blocks : List BlockEc) :
    firstGood fails (tryOrder g die blocks) =
      (blocks.find? fun entry => onDie g die entry && !fails entry.block).or
        (blocks.find? fun entry => !fails entry.block) := by
  unfold firstGood tryOrder
  rw [List.find?_append, List.find?_filter, List.find?_filter]
  simp only [← Bool.and_eq_true, Bool.decide_eq_true]
  cases near : blocks.find? fun entry => onDie g die entry && !fails entry.block with
  | some entry => rfl
  | none =>
      have away := List.find?_eq_none.mp near
      refine List.find?_congr fun entry inside => ?_
      have notNear := away entry inside
      cases here : onDie g die entry
      · rfl
      · simpa [here] using notNear

theorem mem_failedTries {fails : Nat → Bool} {die : Nat} {blocks : List BlockEc} {entry : BlockEc}
    (inside : entry ∈ failedTries fails (tryOrder g die blocks)) :
    entry ∈ blocks ∧ fails entry.block = true := by
  refine ⟨?_, List.all_eq_true.mp List.all_takeWhile entry inside⟩
  have inOrder := (List.takeWhile_sublist _).mem inside
  rw [tryOrder, List.mem_append, List.mem_filter, List.mem_filter] at inOrder
  exact inOrder.elim And.left And.left

/-- With no good block, all are tried. -/
theorem leftFree_eq_nil {fails : Nat → Bool} {die : Nat} {blocks : List BlockEc}
    (none : firstGood fails (tryOrder g die blocks) = none) :
    leftFree fails (tryOrder g die blocks) blocks = [] := by
  have bad := List.find?_eq_none.mp none
  have all : failedTries fails (tryOrder g die blocks) = tryOrder g die blocks :=
    List.takeWhile_eq_self_iff.mpr fun entry inside => by simpa using bad entry inside
  unfold leftFree
  rw [all, List.filter_eq_nil_iff]
  intro entry inside
  have member : entry ∈ tryOrder g die blocks := by
    rw [tryOrder, List.mem_append, List.mem_filter, List.mem_filter]
    cases onDie g die entry <;> simp [inside]
  simp [member]

/-- `INDEX_FreeBlock_Get` returns the first block on the die whose erase succeeds, or else
the first other one, or else it leaves the table empty.  The blocks that it has tried
leave the table, the others stay in their order, and those that failed are logged: all of
them are entered in the bad block table if it has the room. -/
theorem indexFreeBlockGet_search
    {oracle : Oracle (MtdOp (UbiBuffer D)) (MtdAns (UbiBuffer D))} {fails : Nat → Bool}
    (erases : ∀ calls block,
      oracle calls (.erase block) = if fails block then .badblock else .success)
    {die fuel : Nat} {blocks : List BlockEc} {ram : UbiRam D}
    {calls : List (Called (MtdOp (UbiBuffer D)) (MtdAns (UbiBuffer D)))}
    (array : 0 < g.freeBlockCount) (entries : FreeEntries g ram.indexTable.free blocks)
    (distinct : (blocks.map BlockEc.block).Nodup)
    (valid : ∀ entry ∈ blocks, entry.block ≠ invalidBlock) (enough : blocks.length < fuel) :
    ∃ answer ram' found failed,
      ((indexFreeBlockGet g fuel die).run ram).exec oracle.machine calls =
        .ok ((answer, ram'),
          ((failed ++ Option.toList found).map (eraseCall (UbiBuffer D) fails)).reverse ++ calls) ∧
      found = (blocks.find? fun entry => onDie g die entry && !fails entry.block).or
        (blocks.find? fun entry => !fails entry.block) ∧
      (∀ entry, found = some entry → answer = (.success, ⟨entry.block, entry.ec.plus 1⟩)) ∧
      (found = none →
        answer.1 = .toomanyBadblock ∧ FreeEntries g ram'.indexTable.free []) ∧
      FreeEntries g ram'.indexTable.free
        (blocks.filter fun entry => entry ∉ failed ∧ some entry ≠ found) ∧
      (∀ entry ∈ failed, entry ∈ blocks ∧ fails entry.block = true) ∧
      ram'.anchorTable.badBlockTable =
        logBadBlocks g ram.anchorTable.badBlockTable (failed.map BlockEc.block) ∧
      (failed.length ≤ badBlockRoom g ram.anchorTable.badBlockTable →
        ∀ entry ∈ failed, isBadBlock g ram'.anchorTable.badBlockTable entry.block = true) := by
  obtain ⟨free, left, run⟩ :=
    exec_indexFreeBlockGet erases die calls array entries distinct.of_map valid enough
  refine ⟨_, _, firstGood fails (tryOrder g die blocks), failedTries fails (tryOrder g die blocks),
    run, firstGood_tryOrder fails die blocks, fun entry found => ?_, fun none => ?_, left,
    fun entry inside => mem_failedTries inside, rfl, fun room entry inside => ?_⟩
  · rw [searchAnswer, found]
  · rw [leftFree_eq_nil none] at left
    rw [searchAnswer, none]
    exact ⟨rfl, left⟩
  · refine isBadBlock_logBadBlocks ?_ (by rwa [List.length_map]) _ (List.mem_map_of_mem inside)
    intro block logged
    obtain ⟨other, tried, rfl⟩ := List.mem_map.mp logged
    exact valid other (mem_failedTries tried).1

/-! ## A full bad block table -/

/-- The array that holds the listed entries. -/
def freeArray (blocks : List BlockEc) : Nat → BlockEc :=
  fun i => (blocks[i]?).getD .invalid

theorem freeEntries_freeArray {blocks : List BlockEc} (fits : blocks.length ≤ g.freeBlockCount) :
    FreeEntries g (freeArray blocks) blocks :=
  ⟨fits, fun _ _ => rfl⟩

/-- The device on which the erase of some blocks fails and nothing else does. -/
def erasingOracle {B : Type} [PageContent B] (fails : Nat → Bool) : Oracle (MtdOp B) (MtdAns B)
  | _, .read _ _ => ⟨.success, PageContent.ones, .ones⟩
  | _, .program _ _ _ _ => .success
  | _, .erase block => if fails block then .badblock else .success
  | _, .waitReady _ => .success
  | _, .readStatus _ => .success
  | _, .checkBlock _ => .success
  | _, .bufFree _ => ()

/-- Memory with two free blocks and with the given bad block table. -/
def twoFree (badBlocks : Nat → Nat) : UbiRam Unit :=
  let ram := UbiRam.reset Unit
  { ram with
    indexTable := { ram.indexTable with free := freeArray [⟨800, (3 : Nat)⟩, ⟨808, (5 : Nat)⟩] }
    anchorTable := { ram.anchorTable with badBlockTable := badBlocks } }

/-- The first free block fails; the table has the room to enter it. -/
theorem indexFreeBlockGet_search_twoFree :
    ∃ answer ram' found failed,
      ((indexFreeBlockGet simNand 3 0).run (twoFree fun _ => invalidBlock)).exec
        (erasingOracle fun block => block = 800).machine [] =
        .ok ((answer, ram'),
          ((failed ++ Option.toList found).map
            (eraseCall (UbiBuffer Unit) fun block => block = 800)).reverse ++ []) ∧
      found = some ⟨808, (5 : Nat)⟩ ∧ answer = (.success, ⟨808, (6 : Nat)⟩) := by
  have search := @indexFreeBlockGet_search simNand Unit (erasingOracle fun block => block = 800)
    (fun block => block = 800) (fun _ _ => rfl) 0 3 [⟨800, (3 : Nat)⟩, ⟨808, (5 : Nat)⟩]
    (twoFree fun _ => invalidBlock) [] (by decide) (freeEntries_freeArray (by decide)) (by decide)
    (by decide) (by decide)
  obtain ⟨answer, ram', found, failed, run, first, good, -⟩ := search
  have second : found = some ⟨808, (5 : Nat)⟩ := first.trans (by decide)
  exact ⟨answer, ram', found, failed, run, second, good _ second⟩

/-- A device of 1024 blocks with 501 slots for bad ones. -/
def fewSlots : Geometry := { simNand with sectorPerPageShift := 2, planePerDieShift := 0 }

/-- A bad block table that is full: the blocks from 100 on. -/
def badFrom100 (i : Nat) : Nat := 100 + i

/-- With no free slot in the bad block table, a block that fails is dropped and not entered. -/
theorem indexFreeBlockGet_drops_badBlock :
    ∃ ram',
      ((indexFreeBlockGet fewSlots 3 0).run (twoFree badFrom100)).exec
        (erasingOracle fun block => block = 800).machine [] =
        .ok (((.success, ⟨808, (6 : Nat)⟩), ram'),
          [⟨.erase 808, .success⟩, ⟨.erase 800, .badblock⟩]) ∧
      isBadBlock fewSlots ram'.anchorTable.badBlockTable 800 = false := by
  have entries : FreeEntries fewSlots (twoFree badFrom100).indexTable.free
      [⟨800, (3 : Nat)⟩, ⟨808, (5 : Nat)⟩] := freeEntries_freeArray (by decide)
  have search := @exec_indexFreeBlockGet fewSlots Unit (erasingOracle fun block => block = 800)
    (fun block => block = 800) (twoFree badFrom100) (fun _ _ => rfl) 0 [] 3 _ (by decide) entries
    (by decide) (by decide) (by decide)
  obtain ⟨free, -, run⟩ := search
  refine ⟨_, run, ?_⟩
  have full : badBlockRoom fewSlots badFrom100 = 0 := by
    set_option maxRecDepth 100000 in decide +kernel
  have dropped : logBadBlock fewSlots badFrom100 800 = badFrom100 := logBadBlock_full full
  have tried : (failedTries (fun block => block = 800)
      (tryOrder fewSlots 0 [⟨800, (3 : Nat)⟩, ⟨808, (5 : Nat)⟩])).map BlockEc.block = [800] := by
    decide
  simp only [UbiRam.searched, tried, logBadBlocks, List.foldl_cons, List.foldl_nil,
    twoFree, dropped]
  set_option maxRecDepth 100000 in decide +kernel

end OpenNfm
