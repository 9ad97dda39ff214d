import OpenNfm.Ubi.FreeList

/-!
# The free block table sorted by erase count

`INDEX_FreeBlock_GetMaxECBlock` and `INDEX_FreeBlock_SwapMaxECBlock` on a table that is
sorted by erase count.  Entries with the invalid count come last.  Both functions scan
from the end of the array and stop at index zero, whether or not the entry there is valid.
-/

namespace OpenNfm

open OpenNfm.Program

variable {g : Geometry} {D : Type}

/-- The entries of the array. -/
def tableEntries (g : Geometry) (table : Nat → BlockEc) : List BlockEc :=
  (List.range g.freeBlockCount).map table

/-- The first `n` entries have a valid erase count, and the table is sorted. -/
structure FreeSorted (g : Geometry) (table : Nat → BlockEc) (n : Nat) : Prop where
  fits : n ≤ g.freeBlockCount
  sorted : ∀ i j, i ≤ j → j < g.freeBlockCount → (table i).ec ≤ (table j).ec
  valid : ∀ i < n, (table i).ec ≠ invalidEc
  invalid : ∀ i, n ≤ i → i < g.freeBlockCount → (table i).ec = invalidEc

theorem tableEntries_getElem? (table : Nat → BlockEc) {i : Nat} (inTable : i < g.freeBlockCount) :
    (tableEntries g table)[i]? = some (table i) := by
  simp [tableEntries, inTable]

theorem tableEntries_length (table : Nat → BlockEc) :
    (tableEntries g table).length = g.freeBlockCount := by
  simp [tableEntries]

/-! ## The scans -/

theorem FreeSorted.lastValid {table : Nat → BlockEc} {n : Nat} (sorted : FreeSorted g table n)
    {i : Nat} (last : n - 1 ≤ i) (inTable : i < g.freeBlockCount) :
    freeBlockLastValid table i = n - 1 := by
  induction i with
  | zero => exact (Nat.le_zero.mp last).symm
  | succ i ih =>
      unfold freeBlockLastValid
      by_cases inside : i + 1 < n
      · rw [if_pos (sorted.valid _ inside)]
        omega
      · rw [if_neg (not_not.mpr (sorted.invalid _ (Nat.le_of_not_lt inside) inTable))]
        exact ih (by omega) (by omega)

/-- The scan stops at the last entry that is not larger, or at the first entry. -/
theorem freeBlockScan_spec (table : Nat → BlockEc) (ec : EraseCount) (i : Nat) :
    (freeBlockScan table ec i = 0 ∨ (table (freeBlockScan table ec i)).ec ≤ ec) ∧
      ∀ j, freeBlockScan table ec i < j → j ≤ i → ec < (table j).ec := by
  induction i with
  | zero => exact ⟨.inl rfl, fun j after before => absurd after (Nat.not_lt.mpr before)⟩
  | succ i ih =>
      unfold freeBlockScan
      by_cases larger : (table (i + 1)).ec > ec
      · rw [if_pos larger]
        refine ⟨ih.1, fun j after before => ?_⟩
        rcases Nat.le_succ_iff.mp before with earlier | rfl
        · exact ih.2 j after earlier
        · exact larger
      · rw [if_neg larger]
        exact ⟨.inr (le_of_not_gt larger), fun j after before =>
          absurd after (Nat.not_lt.mpr before)⟩

/-- The position that a new entry goes to: the entries before it are not larger, and those
behind it are. -/
theorem freeBlockPosition_spec (table : Nat → BlockEc) (ec : EraseCount) (i : Nat)
    (sorted : ∀ j k, j ≤ k → k ≤ i → (table j).ec ≤ (table k).ec) :
    (∀ j, j < freeBlockPosition table ec i → (table j).ec ≤ ec) ∧
      ∀ j, freeBlockPosition table ec i ≤ j → j ≤ i → ec < (table j).ec := by
  obtain ⟨stop, larger⟩ := freeBlockScan_spec table ec i
  have le := FreeList.freeBlockScan_le_start table ec i
  simp only [freeBlockPosition]
  by_cases inner : freeBlockScan table ec i > 0
  · rw [if_pos inner]
    refine ⟨fun j before => ?_, fun j after => larger j after⟩
    exact (sorted j _ (Nat.lt_succ_iff.mp before) le).trans (stop.resolve_left inner.ne')
  · have zero : freeBlockScan table ec i = 0 := Nat.eq_zero_of_not_pos inner
    rw [if_neg inner]
    rw [zero] at larger
    by_cases first : (table 0).ec > ec
    · rw [if_pos first]
      refine ⟨fun j before => absurd before (Nat.not_lt_zero j), fun j _ before => ?_⟩
      rcases Nat.eq_zero_or_pos j with rfl | pos
      · exact first
      · exact larger j pos before
    · rw [if_neg first]
      refine ⟨fun j before => ?_, fun j after => larger j after⟩
      rw [Nat.lt_one_iff.mp before]
      exact le_of_not_gt first

/-! ## Inserting an entry -/

section Insert

variable {table : Nat → BlockEc} {position last : Nat} {entry : BlockEc}

/-- An array stays sorted when an entry enters behind the ones that are not larger, and the
entry at `last` makes room for it. -/
theorem freeBlockInsert_sorted
    (sorted : ∀ i j, i ≤ j → j < g.freeBlockCount → (table i).ec ≤ (table j).ec)
    (before : ∀ i, i < position → (table i).ec ≤ entry.ec)
    (behind : ∀ i, position ≤ i → i < last → entry.ec ≤ (table i).ec)
    (tail : ∀ i, last < i → i < g.freeBlockCount → entry.ec ≤ (table i).ec) (i j : Nat)
    (le : i ≤ j) (inTable : j < g.freeBlockCount) :
    (freeBlockInsert table position last entry i).ec ≤
      (freeBlockInsert table position last entry j).ec := by
  unfold freeBlockInsert
  rcases Nat.lt_trichotomy j position with jBefore | jHere | jBehind
  · rw [if_pos jBefore, if_pos (by omega)]
    exact sorted i j le inTable
  · rw [if_neg (show ¬ j < position by omega), if_pos jHere]
    by_cases iBefore : i < position
    · rw [if_pos iBefore]
      exact before i iBefore
    · rw [if_neg iBefore, if_pos (show i = position by omega)]
  · rw [if_neg (show ¬ j < position by omega), if_neg (show ¬ j = position by omega)]
    rcases Nat.lt_trichotomy i position with iBefore | iHere | iBehind
    · rw [if_pos iBefore]
      split
      · exact sorted i (j - 1) (by omega) (by omega)
      · exact sorted i j le inTable
    · rw [if_neg (show ¬ i < position by omega), if_pos iHere]
      split
      · exact behind (j - 1) (by omega) (by omega)
      · exact tail j (by omega) inTable
    · rw [if_neg (show ¬ i < position by omega), if_neg (show ¬ i = position by omega)]
      split
      · split
        · exact sorted (i - 1) (j - 1) (by omega) (by omega)
        · exact sorted (i - 1) j (by omega) inTable
      · rw [if_neg (show ¬ j ≤ last by omega)]
        exact sorted i j le inTable

/-- The entry at `last` leaves the array, and the new entry enters at its position. -/
theorem tableEntries_freeBlockInsert (inside : position ≤ last)
    (inTable : last < g.freeBlockCount) :
    tableEntries g (freeBlockInsert table position last entry) =
      ((tableEntries g table).eraseIdx last).insertIdx position entry := by
  have length : ((tableEntries g table).eraseIdx last).length = g.freeBlockCount - 1 := by
    rw [List.length_eraseIdx_of_lt (by rw [tableEntries_length]; exact inTable),
      tableEntries_length]
  refine List.ext_getElem? fun i => ?_
  by_cases isEntry : i < g.freeBlockCount
  · rw [tableEntries_getElem? _ isEntry, List.getElem?_insertIdx, freeBlockInsert]
    split
    · rw [List.getElem?_eraseIdx_of_lt (by omega), tableEntries_getElem? _ isEntry]
    · split
      · rw [if_pos (by omega)]
      · split
        · rw [List.getElem?_eraseIdx_of_lt (by omega), tableEntries_getElem? _ (by omega)]
        · rw [List.getElem?_eraseIdx_of_ge (by omega), Nat.sub_add_cancel (by omega),
            tableEntries_getElem? _ isEntry]
  · rw [List.getElem?_eq_none (by rw [tableEntries_length]; omega), List.getElem?_eq_none]
    rw [List.length_insertIdx_of_le_length (by omega)]
    omega

end Insert

/-! ## The exchange -/

section Exchange

variable {table : Nat → BlockEc} {n : Nat} {min : BlockEc}

/-- The table after the exchange. -/
def exchangedFree (table : Nat → BlockEc) (n : Nat) (min : BlockEc) : Nat → BlockEc :=
  freeBlockInsert table (freeBlockPosition table min.ec (n - 1 - 1)) (n - 1) min

theorem FreeSorted.exchange (sorted : FreeSorted g table n) (many : 2 ≤ n)
    (less : min.ec < (table (n - 1)).ec) : FreeSorted g (exchangedFree table n min) n := by
  have fits := sorted.fits
  have position := FreeList.freeBlockPosition_le_start table min.ec (n - 1 - 1)
  obtain ⟨before, behind⟩ := freeBlockPosition_spec table min.ec (n - 1 - 1)
    fun j k le last => sorted.sorted j k le (by omega)
  unfold exchangedFree
  generalize freeBlockPosition table min.ec (n - 1 - 1) = p at position before behind
  refine ⟨fits, ?_, fun i inside => ?_, fun i outside inTable => ?_⟩
  · refine freeBlockInsert_sorted sorted.sorted before
      (fun i after inner => (behind i after (by omega)).le) fun i outside inTable => ?_
    rw [sorted.invalid i (by omega) inTable]
    exact le_top
  · unfold freeBlockInsert
    split
    · exact sorted.valid i inside
    · split
      · exact less.ne_top
      · rw [if_pos (by omega)]
        exact sorted.valid (i - 1) (by omega)
  · unfold freeBlockInsert
    rw [if_neg (by omega), if_neg (by omega), if_neg (by omega)]
    exact sorted.invalid i outside inTable

/-- The exchange takes the last valid entry out and puts the new one in. -/
theorem tableEntries_exchangedFree (sorted : FreeSorted g table n) (many : 2 ≤ n) :
    tableEntries g (exchangedFree table n min) =
      ((tableEntries g table).eraseIdx (n - 1)).insertIdx
        (freeBlockPosition table min.ec (n - 1 - 1)) min := by
  have fits := sorted.fits
  have position := FreeList.freeBlockPosition_le_start table min.ec (n - 1 - 1)
  exact tableEntries_freeBlockInsert (by omega) (by omega)

theorem perm_exchangedFree (sorted : FreeSorted g table n) (many : 2 ≤ n) :
    (tableEntries g (exchangedFree table n min)).Perm
      (min :: (tableEntries g table).eraseIdx (n - 1)) := by
  have fits := sorted.fits
  have position := FreeList.freeBlockPosition_le_start table min.ec (n - 1 - 1)
  rw [tableEntries_exchangedFree sorted many]
  refine List.perm_insertIdx _ _ ?_
  rw [List.length_eraseIdx_of_lt (by rw [tableEntries_length]; omega), tableEntries_length]
  omega

end Exchange

theorem lt_of_ecExceeds {a b : EraseCount} {threshold : Nat}
    (exceeds : ecExceeds a b threshold = true) : b < a := by
  cases a with
  | none => cases exceeds
  | some a =>
      cases b with
      | none => cases exceeds
      | some b =>
          simp only [ecExceeds, decide_eq_true_eq] at exceeds
          exact WithTop.coe_lt_coe.mpr exceeds.1

/-- What an exchange for wear levelling is meant to do to a free block table with `n` valid
entries: the last of them is found, and if its erase count is larger by more than the
threshold it leaves the table and the other block enters at its place. -/
structure ExchangesMax {E : Type} (g : Geometry)
    (machine : Machine (MtdOp (UbiBuffer D)) (MtdAns (UbiBuffer D)) E) (ram : UbiRam D) (state : E)
    (n : Nat) (min : BlockEc) : Prop where
  max : ((indexFreeBlockGetMaxEcBlock g).run ram).exec machine state =
    .ok ((some (ram.indexTable.free (n - 1)), ram), state)
  swap : ecExceeds (ram.indexTable.free (n - 1)).ec min.ec g.staticWlThreshold = true →
    ∃ free, ((indexFreeBlockSwapMaxEcBlock g min.block min.ec).run ram).exec machine state =
        .ok (((), ram.withFree free), state) ∧
      FreeSorted g free n ∧
      (tableEntries g free).Perm (min :: (tableEntries g ram.indexTable.free).eraseIdx (n - 1)) ∧
      ((tableEntries g ram.indexTable.free).eraseIdx (n - 1)).Sublist (tableEntries g free) ∧
      ∀ i, g.freeBlockCount ≤ i → free i = ram.indexTable.free i
  keep : ecExceeds (ram.indexTable.free (n - 1)).ec min.ec g.staticWlThreshold = false →
    ((indexFreeBlockSwapMaxEcBlock g min.block min.ec).run ram).exec machine state =
      .ok (((), ram), state)

section Runs

variable {E : Type} {machine : Machine (MtdOp (UbiBuffer D)) (MtdAns (UbiBuffer D)) E}
  {ram : UbiRam D} {state : E} {n : Nat}

theorem exec_indexFreeBlockGetMaxEcBlock :
    ((indexFreeBlockGetMaxEcBlock g).run ram).exec machine state =
      .ok ((if 0 < freeBlockLastValid ram.indexTable.free (g.freeBlockCount - 1) then
          some (ram.indexTable.free (freeBlockLastValid ram.indexTable.free (g.freeBlockCount - 1)))
        else none, ram), state) :=
  rfl

theorem exec_indexFreeBlockSwapMaxEcBlock
    (machine : Machine (MtdOp (UbiBuffer D)) (MtdAns (UbiBuffer D)) E) (ram : UbiRam D) (state : E)
    (min : BlockEc) :
    ((indexFreeBlockSwapMaxEcBlock g min.block min.ec).run ram).exec machine state =
      let last := freeBlockLastValid ram.indexTable.free (g.freeBlockCount - 1)
      if ecExceeds (ram.indexTable.free last).ec min.ec g.staticWlThreshold then
        if last = 0 then .error .undefined
        else .ok (((), ram.withFree (exchangedFree ram.indexTable.free (last + 1) min)), state)
      else .ok (((), ram), state) := by
  unfold indexFreeBlockSwapMaxEcBlock
  rw [Code.exec_bind_of_ok (Code.exec_get ram state)]
  dsimp only
  split
  · split <;> rfl
  · rfl

/-- The exchange is done right on every sorted table but the one with a single valid
entry, which is not found. -/
theorem exchangesMax_iff (min : BlockEc) (sorted : FreeSorted g ram.indexTable.free n)
    (some : 1 ≤ n) : ExchangesMax g machine ram state n min ↔ 2 ≤ n := by
  have fits := sorted.fits
  have last := sorted.lastValid (show n - 1 ≤ g.freeBlockCount - 1 by omega) (by omega)
  constructor
  · intro right
    have max := right.max
    rw [exec_indexFreeBlockGetMaxEcBlock, last] at max
    by_contra one
    rw [if_neg (by omega)] at max
    simp at max
  · intro many
    have swapped := exec_indexFreeBlockSwapMaxEcBlock (g := g) machine ram state min
    simp only [last, Nat.sub_add_cancel some, if_neg (show ¬ n - 1 = 0 by omega)] at swapped
    refine ⟨?_, fun exceeds => ?_, fun small => ?_⟩
    · rw [exec_indexFreeBlockGetMaxEcBlock, last, if_pos (by omega)]
    · rw [if_pos exceeds] at swapped
      refine ⟨exchangedFree ram.indexTable.free n min, swapped,
        sorted.exchange many (lt_of_ecExceeds exceeds), perm_exchangedFree sorted many, ?_,
        fun i outside => ?_⟩
      · rw [tableEntries_exchangedFree sorted many]
        exact List.sublist_insertIdx _ _ _
      · have position := FreeList.freeBlockPosition_le_start ram.indexTable.free min.ec (n - 1 - 1)
        rw [exchangedFree, freeBlockInsert, if_neg (by omega), if_neg (by omega),
          if_neg (by omega)]
    · rwa [small] at swapped

end Runs

/-! ## A table with one valid entry -/

/-- Memory whose free block table holds the listed entries. -/
def freeRam (blocks : List BlockEc) : UbiRam Unit :=
  (UbiRam.reset Unit).withFree fun i => (blocks[i]?).getD .invalid

theorem freeSorted_freeRam {blocks : List BlockEc} (fits : blocks.length ≤ g.freeBlockCount)
    (valid : ∀ entry ∈ blocks, entry.ec ≠ invalidEc)
    (sorted : blocks.Pairwise fun first second => first.ec ≤ second.ec) :
    FreeSorted g (freeRam blocks).indexTable.free blocks.length where
  fits := fits
  sorted i j le inTable := by
    simp only [freeRam, UbiRam.withFree]
    by_cases inside : j < blocks.length
    · rw [List.getElem?_eq_getElem inside, List.getElem?_eq_getElem (le.trans_lt inside)]
      rcases Nat.eq_or_lt_of_le le with rfl | less
      · exact le_rfl
      · exact List.pairwise_iff_getElem.mp sorted i j (le.trans_lt inside) inside less
    · rw [List.getElem?_eq_none (Nat.le_of_not_lt inside)]
      exact le_top
  valid i inside := by
    simp only [freeRam, UbiRam.withFree, List.getElem?_eq_getElem inside]
    exact valid _ (List.getElem_mem inside)
  invalid i outside _ := by
    simp only [freeRam, UbiRam.withFree, List.getElem?_eq_none outside]
    rfl

/-- With two valid entries the exchange is done right. -/
theorem exchangesMax_twoFree :
    ExchangesMax simNand (idealMachine simNand) (freeRam [⟨800, (3 : Nat)⟩, ⟨801, (2000 : Nat)⟩])
      ⟨fun _ _ => none, []⟩ 2 ⟨40, (5 : Nat)⟩ :=
  (exchangesMax_iff _ (freeSorted_freeRam (by decide) (by decide) (by decide)) (by decide)).mpr
    le_rfl

/-- A single valid entry is not found, and the exchange runs out of the array. -/
theorem indexFreeBlockSwapMaxEcBlock_leaves_array :
    FreeSorted simNand (freeRam [⟨801, (2000 : Nat)⟩]).indexTable.free 1 ∧
      ((indexFreeBlockGetMaxEcBlock simNand).run (freeRam [⟨801, (2000 : Nat)⟩])).exec
        (idealMachine simNand) ⟨fun _ _ => none, []⟩ =
          .ok ((none, freeRam [⟨801, (2000 : Nat)⟩]), ⟨fun _ _ => none, []⟩) ∧
      ((indexFreeBlockSwapMaxEcBlock simNand 40 (5 : Nat)).run
        (freeRam [⟨801, (2000 : Nat)⟩])).exec (idealMachine simNand) ⟨fun _ _ => none, []⟩ =
          .error .undefined := by
  have sorted : FreeSorted simNand (freeRam [⟨801, (2000 : Nat)⟩]).indexTable.free 1 :=
    freeSorted_freeRam (by decide) (by decide) (by decide)
  have last := sorted.lastValid (show 1 - 1 ≤ simNand.freeBlockCount - 1 by decide) (by decide)
  refine ⟨sorted, ?_, ?_⟩
  · rw [exec_indexFreeBlockGetMaxEcBlock, last]
    rfl
  · have swapped := exec_indexFreeBlockSwapMaxEcBlock (g := simNand) (idealMachine simNand)
      (freeRam [⟨801, (2000 : Nat)⟩]) ⟨fun _ _ => none, []⟩ ⟨40, (5 : Nat)⟩
    rw [last] at swapped
    exact swapped

end OpenNfm
