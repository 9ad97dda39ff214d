import OpenNfm.Ftl.DataWrites
import OpenNfm.Ftl.ReclaimSearch
import Mathlib.Order.Interval.Finset.Nat

/-!
# The search for dirty blocks

`data_find_dirty_blocks` collects the blocks with the largest dirty count, then those with the
next lower one, until it has a block for each die.  The journals of the other kind are left
out.  Because the logical pages are fewer than the pages of the blocks that are not journals,
enough of these have a dirty page, and the search ends before the count is zero.
-/

namespace OpenNfm.Ftl

open OpenNfm.Program

variable {l : Layout} {D : Type}

/-! ## One pass -/

/-- The block is a journal of the other kind. -/
def isOtherJournal (l : Layout) (hot : Bool) (ram : FtlRam) (block : Nat) : Bool :=
  (List.range l.journalBlockCount).any fun j => PmNode.block l.g (journal (!hot) ram j) = block

/-- The blocks that a pass goes through. -/
def candidates (l : Layout) (hot : Bool) (ram : FtlRam) : List Nat :=
  (List.range' l.dataStartBlock (l.capacity - l.dataStartBlock)).filter fun block =>
    !isOtherJournal l hot ram block

/-- The valid pages of blocks. -/
def validPages (l : Layout) (counts : Nat → Nat) (blocks : List Nat) : Nat :=
  (blocks.map fun block => l.maxDirtyPages - counts block).sum

section Pass

variable {hot : Bool} {ram : FtlRam} {target nextCount : Nat} {found : List Nat × Nat}
  {blocks : List Nat}

theorem validPages_append (counts : Nat → Nat) (first second : List Nat) :
    validPages l counts (first ++ second) =
      validPages l counts first + validPages l counts second := by
  rw [validPages, List.map_append, List.sum_append]
  rfl

/-- A pass has collected blocks with the target count, all of them if there are still too few. -/
structure PassFound (l : Layout) (counts : Nat → Nat) (target nextCount : Nat) (blocks : List Nat)
    (found : List Nat × Nat) (result : (List Nat × Nat) × Nat) : Prop where
  collected : ∃ more, List.IsPrefix more (withCount counts target blocks) ∧
    result.1 = (found.1 ++ more, found.2 + validPages l counts more)
  enough : result.1.1.length ≤ l.journalBlockCount
  all : result.1.1.length < l.journalBlockCount →
    result.1 = (found.1 ++ withCount counts target blocks,
      found.2 + validPages l counts (withCount counts target blocks)) ∧
    result.2 = nextBelow counts target blocks nextCount

section Steps

variable {i valid : Nat} {rest collected : List Nat} {counts : Nat → Nat}

theorem dataFindDirty_other (other : isOtherJournal l hot ram i = true) :
    dataFindDirty l hot ram target (i :: rest) (collected, valid) nextCount =
      dataFindDirty l hot ram target rest (collected, valid) nextCount :=
  if_pos other

theorem dataFindDirty_hit (mine : ¬ isOtherJournal l hot ram i = true)
    (hit : ram.blockDirtyTable i = target) :
    dataFindDirty l hot ram target (i :: rest) (collected, valid) nextCount =
      if (collected ++ [i]).length = l.journalBlockCount then
        ((collected ++ [i], valid + validPages l ram.blockDirtyTable [i]), nextCount)
      else dataFindDirty l hot ram target rest
        (collected ++ [i], valid + validPages l ram.blockDirtyTable [i]) nextCount :=
  (if_neg mine).trans (if_pos hit)

theorem dataFindDirty_miss (mine : ¬ isOtherJournal l hot ram i = true)
    (miss : ram.blockDirtyTable i ≠ target) :
    dataFindDirty l hot ram target (i :: rest) (collected, valid) nextCount =
      dataFindDirty l hot ram target rest (collected, valid)
        (if ram.blockDirtyTable i < target ∧ ram.blockDirtyTable i > nextCount then
          ram.blockDirtyTable i
        else nextCount) :=
  (if_neg mine).trans (if_neg miss)

theorem withCount_hit (hit : counts i = target) :
    withCount counts target (i :: rest) = i :: withCount counts target rest := by
  rw [withCount, List.filter_cons, if_pos (decide_eq_true hit)]
  rfl

theorem withCount_miss (miss : counts i ≠ target) :
    withCount counts target (i :: rest) = withCount counts target rest := by
  rw [withCount, List.filter_cons, if_neg (by rw [decide_eq_true_eq]; exact miss)]
  rfl

/-- A block with the target count, behind which the pass goes on. -/
theorem PassFound.hit {result : (List Nat × Nat) × Nat} (hit : counts i = target)
    (pass : PassFound l counts target nextCount rest
      (collected ++ [i], valid + validPages l counts [i]) result) :
    PassFound l counts target nextCount (i :: rest) (collected, valid) result := by
  have cons : ∀ more, (collected ++ [i] ++ more,
      valid + validPages l counts [i] + validPages l counts more) =
      (collected ++ i :: more, valid + validPages l counts (i :: more)) := fun more => by
    rw [List.append_assoc, Nat.add_assoc, ← validPages_append]
    rfl
  obtain ⟨⟨more, isPrefix, same⟩, enough, all⟩ := pass
  refine ⟨⟨i :: more, ?_, same.trans (cons more)⟩, enough, fun short => ?_⟩
  · rw [withCount_hit hit]
    exact (List.prefix_cons_inj i).mpr isPrefix
  · obtain ⟨same', next⟩ := all short
    rw [same', next, withCount_hit hit, nextBelow_cons, if_neg (by omega)]
    exact ⟨cons _, rfl⟩

theorem PassFound.miss {result : (List Nat × Nat) × Nat} (miss : counts i ≠ target)
    (pass : PassFound l counts target
      (if counts i < target ∧ counts i > nextCount then counts i else nextCount)
      rest found result) :
    PassFound l counts target nextCount (i :: rest) found result := by
  obtain ⟨collected, enough, all⟩ := pass
  rw [← withCount_miss (i := i) miss] at collected all
  exact ⟨collected, enough, all⟩

end Steps

/-- A pass over the blocks. -/
theorem dataFindDirty_passFound (short : found.1.length < l.journalBlockCount) :
    PassFound l ram.blockDirtyTable target nextCount
      (blocks.filter fun block => !isOtherJournal l hot ram block) found
      (dataFindDirty l hot ram target blocks found nextCount) := by
  induction blocks generalizing found nextCount with
  | nil =>
      refine ⟨⟨[], List.nil_prefix, ?_⟩, Nat.le_of_lt short, fun _ => ⟨?_, rfl⟩⟩
      · rw [List.append_nil]
        rfl
      · rw [List.filter_nil, withCount, List.filter_nil, List.append_nil]
        rfl
  | cons i rest ih =>
      obtain ⟨collected, valid⟩ := found
      by_cases other : isOtherJournal l hot ram i = true
      · rw [dataFindDirty_other other, List.filter_cons, if_neg (by rw [other]; decide)]
        exact ih short
      · have mine : (!isOtherJournal l hot ram i) = true := by
          rw [Bool.not_eq_true] at other
          rw [other]
          rfl
        rw [List.filter_cons, if_pos mine]
        by_cases hit : ram.blockDirtyTable i = target
        · rw [dataFindDirty_hit other hit]
          split
          · rename_i full
            refine ⟨⟨[i], ?_, rfl⟩, Nat.le_of_eq full, fun less => absurd full (Nat.ne_of_lt less)⟩
            rw [withCount_hit hit]
            exact List.prefix_iff_eq_append.mpr rfl
          · rename_i notFull
            refine (ih (Nat.lt_of_le_of_ne ?_ notFull)).hit hit
            rw [List.length_append, List.length_singleton]
            exact short
        · rw [dataFindDirty_miss other hit]
          exact (ih short).miss hit

end Pass

/-! ## The search -/

/-- What the search has so far: all blocks with a count above the target, and too few. -/
structure Collecting (l : Layout) (counts : Nat → Nat) (blocks : List Nat) (target : Nat)
    (found : List Nat × Nat) : Prop where
  nodup : found.1.Nodup
  mem : ∀ b, b ∈ found.1 ↔ b ∈ blocks ∧ target < counts b
  sorted : found.1.Pairwise fun first second => counts second ≤ counts first
  valid : found.2 = validPages l counts found.1
  short : found.1.length < l.journalBlockCount

/-- One dirty block for each die, the dirtiest first. -/
structure DirtyFound (l : Layout) (counts : Nat → Nat) (blocks : List Nat)
    (found : List Nat × Nat) :
    Prop where
  nodup : found.1.Nodup
  mem : ∀ b ∈ found.1, b ∈ blocks ∧ 0 < counts b
  sorted : found.1.Pairwise fun first second => counts second ≤ counts first
  valid : found.2 = validPages l counts found.1
  length : found.1.length = l.journalBlockCount

section Search

variable {counts : Nat → Nat} {blocks more : List Nat} {target : Nat} {found : List Nat × Nat}

/-- If there are enough blocks with a dirty page, the search does not come to clean ones. -/
theorem Collecting.target_pos (collecting : Collecting l counts blocks target found)
    (enough : l.journalBlockCount ≤ (blocks.toFinset.filter fun b => 0 < counts b).card) :
    0 < target := by
  by_contra atZero
  have subset : (blocks.toFinset.filter fun b => 0 < counts b) ⊆ found.1.toFinset := by
    intro b member
    obtain ⟨isBlock, positive⟩ := Finset.mem_filter.mp member
    rw [List.mem_toFinset, collecting.mem]
    exact ⟨List.mem_toFinset.mp isBlock, by omega⟩
  have few := (Finset.card_le_card subset).trans (List.toFinset_card_le _)
  have := collecting.short
  omega

/-- Blocks with the target count are added. -/
theorem Collecting.extend (collecting : Collecting l counts blocks target found)
    (nodup : blocks.Nodup) (isPrefix : List.IsPrefix more (withCount counts target blocks)) :
    (found.1 ++ more).Nodup ∧
      (found.1 ++ more).Pairwise (fun first second => counts second ≤ counts first) ∧
      found.2 + validPages l counts more = validPages l counts (found.1 ++ more) := by
  have atTarget : ∀ b ∈ more, b ∈ blocks ∧ counts b = target := fun b member =>
    mem_withCount.mp (isPrefix.subset member)
  refine ⟨List.nodup_append.mpr ⟨collecting.nodup, ?_, ?_⟩,
    List.pairwise_append.mpr ⟨collecting.sorted, ?_, ?_⟩, ?_⟩
  · exact (isPrefix.sublist.trans List.filter_sublist).nodup nodup
  · rintro b member _ member' rfl
    have above := ((collecting.mem b).mp member).2
    have same := (atTarget b member').2
    omega
  · refine List.pairwise_of_forall_sublist fun {first second} pair => ?_
    have isFirst := atTarget first (pair.subset List.mem_cons_self)
    have isSecond := atTarget second (pair.subset (List.mem_cons_of_mem _ List.mem_cons_self))
    rw [isFirst.2, isSecond.2]
  · intro first member second member'
    rw [(atTarget second member').2]
    exact Nat.le_of_lt ((collecting.mem first).mp member).2
  · rw [validPages_append, collecting.valid]

/-- A pass that has not found enough goes on with the next lower count. -/
theorem Collecting.next (collecting : Collecting l counts blocks target found)
    (nodup : blocks.Nodup) (positive : 0 < target)
    (short : (found.1 ++ withCount counts target blocks).length < l.journalBlockCount) :
    Collecting l counts blocks (nextBelow counts target blocks 0)
      (found.1 ++ withCount counts target blocks,
        found.2 + validPages l counts (withCount counts target blocks)) := by
  obtain ⟨nodup', sorted, valid⟩ := collecting.extend nodup (List.prefix_refl _)
  have below : nextBelow counts target blocks 0 < target := by
    have isCount : nextBelow counts target blocks 0 = 0 ∨ ∃ i ∈ blocks,
        counts i = nextBelow counts target blocks 0 ∧ counts i < target := nextBelow_mem
    rcases isCount with zero | ⟨i, _, same, less⟩
    · rw [zero]
      exact positive
    · rw [← same]
      exact less
  refine ⟨nodup', fun b => ?_, sorted, valid, short⟩
  dsimp only
  rw [List.mem_append, collecting.mem, mem_withCount, ← and_or_left]
  refine and_congr_right fun isBlock => ⟨?_, fun above => ?_⟩
  · rintro (above | same) <;> omega
  · by_contra neither
    have under : counts b < target := by omega
    have least : counts b ≤ nextBelow counts target blocks 0 := count_le_nextBelow isBlock under
    omega

variable {hot : Bool} {ram : FtlRam} {store : UbiStore D} {rounds : Nat}

/-- The search finds a dirty block for each die. -/
theorem onReturn_dataFindDirtyLoop {post : List Nat × Nat → FtlRam → UbiStore D → Prop}
    (collecting : Collecting l ram.blockDirtyTable (candidates l hot ram) target found)
    (enough : l.journalBlockCount ≤
      ((candidates l hot ram).toFinset.filter fun b => 0 < ram.blockDirtyTable b).card)
    (meets : ∀ found, DirtyFound l ram.blockDirtyTable (candidates l hot ram) found →
      post found ram store) :
    OnReturn l (dataFindDirtyLoop l hot rounds target found) post ram store := by
  have nodup : (candidates l hot ram).Nodup := (List.nodup_range' ..).filter _
  induction rounds generalizing target found with
  | zero => exact OnReturn.halt
  | succ rounds ih =>
      have positive := collecting.target_pos enough
      rw [dataFindDirtyLoop, if_neg (Nat.ne_of_lt collecting.short), OnReturn.bind, OnReturn.get]
      have pass : PassFound l ram.blockDirtyTable target 0 (candidates l hot ram) found _ :=
        dataFindDirty_passFound collecting.short
      generalize dataFindDirty l hot ram target _ found 0 = result at pass ⊢
      dsimp only
      by_cases short : result.1.1.length < l.journalBlockCount
      · obtain ⟨same, next⟩ := pass.all short
        rw [next, same]
        rw [same] at short
        exact ih (collecting.next nodup positive short)
      · obtain ⟨more, isPrefix, same⟩ := pass.collected
        obtain ⟨nodup', sorted, valid⟩ := collecting.extend nodup isPrefix
        have length : result.1.1.length = l.journalBlockCount :=
          Nat.le_antisymm pass.enough (Nat.not_lt.mp short)
        have isDirty : DirtyFound l ram.blockDirtyTable (candidates l hot ram) result.1 := by
          rw [same] at length ⊢
          refine ⟨nodup', fun b member => ?_, sorted, valid, length⟩
          rcases List.mem_append.mp member with earlier | now
          · have above := (collecting.mem b).mp earlier
            exact ⟨above.1, Nat.lt_of_le_of_lt (Nat.zero_le _) above.2⟩
          · have atTarget := mem_withCount.mp (isPrefix.subset now)
            exact ⟨atTarget.1, atTarget.2 ▸ positive⟩
        cases rounds with
        | zero => exact OnReturn.halt
        | succ rounds =>
            rw [dataFindDirtyLoop, if_pos length]
            exact OnReturn.pure.mpr (meets _ isDirty)

end Search

/-! ## The blocks that are found -/

/-- The journals in use while the journals of one kind are reclaimed and `i` of them have been
replaced. -/
def reclaimActive (l : Layout) (hot : Bool) (i : Nat) : Active := fun role j =>
  j < l.journalBlockCount ∧ (role = .write hot → j < i)

/-- The blocks that a reclaim has chosen: full blocks with stale pages, or blocks that were never
used. -/
structure DirtyBlocks (l : Layout) (hot : Bool) (log : PageLog D) (block : Role → Nat → Nat)
    (ram : FtlRam) (blocks : List Nat) : Prop where
  nodup : blocks.Nodup
  length : blocks.length = l.journalBlockCount
  isData : ∀ b ∈ blocks, IsDataBlock l b
  idle : ∀ b ∈ blocks, ∀ role j, reclaimActive l hot 0 role j → b ≠ block role j
  dirty : ∀ b ∈ blocks, 0 < ram.blockDirtyTable b
  sorted : blocks.Pairwise fun first second =>
    ram.blockDirtyTable second ≤ ram.blockDirtyTable first

section Blocks

variable {hot : Bool} {log : PageLog D} {block : Role → Nat → Nat} {maps : PageMap} {ram : FtlRam}
  {pages : Nand (FtlPage D)} {b : Nat}

/-- Full journals are closed blocks. -/
theorem DataKept.beginReclaim (kept : DataKept l (allActive l) log block maps ram pages)
    (full : ∀ j < l.journalBlockCount, log.fill (block (.write hot) j) = l.width) :
    DataKept l (reclaimActive l hot 0) log block maps ram pages where
  sound := kept.sound
  homes := kept.homes
  outside := kept.outside
  inArea role j isActive := kept.inArea role j isActive.1
  apart role j role' j' isActive isActive' := kept.apart role j role' j' isActive.1 isActive'.1
  words role j isActive := kept.words role j isActive.1
  rows hot' j isActive := kept.rows hot' j isActive.1
  onDevice := kept.onDevice
  counted role j isActive := kept.counted role j isActive.1
  closed b isData idle := by
    by_cases own : ∃ j < l.journalBlockCount, b = block (.write hot) j
    · obtain ⟨j, isJournal, rfl⟩ := own
      have counted := kept.counted (.write hot) j isJournal
      rw [full j isJournal] at counted
      exact ⟨counted, Or.inl (full j isJournal)⟩
    · refine kept.closed b isData fun role j isJournal same => ?_
      by_cases kind : role = .write hot
      · exact own ⟨j, isJournal, kind ▸ same⟩
      · exact idle role j ⟨isJournal, fun wrong => absurd wrong kind⟩ same

theorem DataKept.isOtherJournal_iff
    (kept : DataKept l (reclaimActive l hot 0) log block maps ram pages) (fit : l.DataFits) :
    isOtherJournal l hot ram b = true ↔
      ∃ j < l.journalBlockCount, b = block (.write (!hot)) j := by
  have onBlock : ∀ j < l.journalBlockCount,
      PmNode.block l.g (journal (!hot) ram j) = block (.write (!hot)) j := by
    intro j isJournal
    have isActive : reclaimActive l hot 0 (.write (!hot)) j :=
      ⟨isJournal, fun same => by cases hot <;> exact absurd (Role.write.inj same) (by decide)⟩
    exact kept.block_word fit isActive
  rw [isOtherJournal, List.any_eq_true]
  constructor
  · rintro ⟨j, member, same⟩
    have isJournal := List.mem_range.mp member
    exact ⟨j, isJournal, by rw [← onBlock j isJournal, of_decide_eq_true same]⟩
  · rintro ⟨j, isJournal, rfl⟩
    exact ⟨j, List.mem_range.mpr isJournal, decide_eq_true (onBlock j isJournal)⟩

theorem DataKept.mem_candidates (kept : DataKept l (reclaimActive l hot 0) log block maps ram pages)
    (fit : l.DataFits) : b ∈ candidates l hot ram ↔
      IsDataBlock l b ∧ ∀ j < l.journalBlockCount, b ≠ block (.write (!hot)) j := by
  have inCapacity := fit.inCapacity
  rw [candidates, List.mem_filter, List.mem_range'_1, Nat.add_sub_of_le inCapacity]
  refine and_congr Iff.rfl ?_
  rw [Bool.not_eq_true', ← Bool.not_eq_true, kept.isOtherJournal_iff fit]
  constructor
  · intro none j isJournal same
    exact none ⟨j, isJournal, same⟩
  · rintro none ⟨j, isJournal, same⟩
    exact none j isJournal same

/-- The logical pages fit into the data blocks without three journals for each die. -/
theorem ftlCapacity_le (fit : l.DataFits) : l.ftlCapacity + l.journalBlockCount * l.width ≤
    (l.capacity - l.dataStartBlock - 2 * l.journalBlockCount) * l.width := by
  have room := fit.room
  have blocks : l.capacity - 3 * l.journalBlockCount - l.pmtBlockCount - 6 + l.journalBlockCount =
      l.capacity - l.dataStartBlock - 2 * l.journalBlockCount := by
    unfold Layout.dataStartBlock Layout.pmtStartBlock at room ⊢
    omega
  rw [← blocks, Nat.add_mul]
  exact Nat.add_le_add_right (Nat.mul_le_mul_right _ (Nat.sub_le _ _)) _

/-- Enough of the candidates have stale pages. -/
theorem DataKept.enough (kept : DataKept l (reclaimActive l hot 0) log block maps ram pages)
    (fit : l.DataFits) : l.journalBlockCount ≤
      ((candidates l hot ram).toFinset.filter fun b => 0 < ram.blockDirtyTable b).card := by
  let reserved : Finset Nat := (Finset.range l.journalBlockCount).image (block (.write (!hot))) ∪
    (Finset.range l.journalBlockCount).image (block .reclaim)
  let closed : Finset Nat := Finset.Ico l.dataStartBlock l.capacity \ reserved
  have apart : ∀ b ∈ closed, IsDataBlock l b ∧
      (∀ j < l.journalBlockCount, b ≠ block (.write (!hot)) j) ∧
      ∀ j < l.journalBlockCount, b ≠ block .reclaim j := by
    intro b member
    obtain ⟨inArea, notReserved⟩ := Finset.mem_sdiff.mp member
    refine ⟨Finset.mem_Ico.mp inArea, fun j isJournal same => notReserved ?_,
      fun j isJournal same => notReserved ?_⟩
    · exact Finset.mem_union_left _
        (Finset.mem_image.mpr ⟨j, Finset.mem_range.mpr isJournal, same.symm⟩)
    · exact Finset.mem_union_right _
        (Finset.mem_image.mpr ⟨j, Finset.mem_range.mpr isJournal, same.symm⟩)
  have total : ∀ b ∈ closed,
      ram.blockDirtyTable b + live l.ftlCapacity log.home b = l.width := by
    intro b member
    obtain ⟨isData, notOther, notSpare⟩ := apart b member
    refine (kept.closed b isData ?_).1
    rintro (kind | _) j ⟨isJournal, own⟩
    · have other : kind = !hot := by
        cases hot <;> cases kind <;> first | rfl | exact absurd (own rfl) (Nat.not_lt_zero j)
      exact other ▸ notOther j isJournal
    · exact notSpare j isJournal
  have few : reserved.card ≤ 2 * l.journalBlockCount := by
    refine (Finset.card_union_le _ _).trans ?_
    have first := Finset.card_image_le (s := Finset.range l.journalBlockCount)
      (f := block (.write (!hot)))
    have second := Finset.card_image_le (s := Finset.range l.journalBlockCount)
      (f := block .reclaim)
    rw [Finset.card_range] at first second
    omega
  have many : l.capacity - l.dataStartBlock - 2 * l.journalBlockCount ≤ closed.card := by
    have size := Finset.le_card_sdiff reserved (Finset.Ico l.dataStartBlock l.capacity)
    rw [Nat.card_Ico] at size
    exact (Nat.sub_le_sub_left few _).trans size
  have stale := PageLog.le_card_stale fit.width_pos total
    ((ftlCapacity_le fit).trans (Nat.mul_le_mul_right _ many))
  refine stale.trans (Finset.card_le_card fun b member => ?_)
  obtain ⟨isClosed, dirty⟩ := Finset.mem_filter.mp member
  obtain ⟨isData, notOther, _⟩ := apart b isClosed
  exact Finset.mem_filter.mpr ⟨List.mem_toFinset.mpr ((kept.mem_candidates fit).mpr
    ⟨isData, notOther⟩), dirty⟩

/-- The search of a reclaim finds a block with stale pages for each die, and counts the valid
pages of these blocks. -/
theorem DataKept.onReturn_dataFindDirtyLoop {store : UbiStore D} {rounds : Nat}
    {post : List Nat × Nat → FtlRam → UbiStore D → Prop}
    (kept : DataKept l (reclaimActive l hot 0) log block maps ram pages) (fit : l.DataFits)
    (spare : ∀ j < l.journalBlockCount, log.fill (block .reclaim j) = 0)
    (meets : ∀ blocks, DirtyBlocks l hot log block ram blocks →
      post (blocks, (blocks.map fun b => live l.ftlCapacity log.home b).sum) ram store) :
    OnReturn l (dataFindDirtyLoop l hot rounds l.maxDirtyPages ([], 0)) post ram store := by
  have begins :
      Collecting l ram.blockDirtyTable (candidates l hot ram) l.maxDirtyPages ([], 0) := by
    refine ⟨List.nodup_nil, fun b => ?_, List.Pairwise.nil, rfl, fit.journals⟩
    refine iff_of_false List.not_mem_nil ?_
    rintro ⟨member, above⟩
    have bound := kept.count_le ((kept.mem_candidates fit).mp member).1
    unfold Layout.maxDirtyPages at above
    unfold Layout.width at bound
    omega
  refine Ftl.onReturn_dataFindDirtyLoop begins (kept.enough fit) fun found isDirty => ?_
  have idle : ∀ b ∈ found.1, ∀ role j, reclaimActive l hot 0 role j → b ≠ block role j := by
    rintro b member (kind | _) j ⟨isJournal, own⟩ same
    · have other : kind = !hot := by
        cases hot <;> cases kind <;> first | rfl | exact absurd (own rfl) (Nat.not_lt_zero j)
      exact ((kept.mem_candidates fit).mp (isDirty.mem b member).1).2 j isJournal (other ▸ same)
    · have counted := kept.counted .reclaim j ⟨isJournal, own⟩
      rw [spare j isJournal, ← same] at counted
      have dirty := (isDirty.mem b member).2
      omega
  have isData : ∀ b ∈ found.1, IsDataBlock l b := fun b member =>
    ((kept.mem_candidates fit).mp (isDirty.mem b member).1).1
  have valid : found.2 = (found.1.map fun b => live l.ftlCapacity log.home b).sum := by
    rw [isDirty.valid, validPages]
    refine congrArg List.sum (List.map_congr_left fun b member => ?_)
    have total := (kept.closed b (isData b member) (idle b member)).1
    unfold Layout.maxDirtyPages
    unfold Layout.width at total
    omega
  have result : found = (found.1, (found.1.map fun b => live l.ftlCapacity log.home b).sum) := by
    rw [← valid]
  rw [result]
  exact meets found.1 ⟨isDirty.nodup, isDirty.length, isData, idle,
    fun b member => (isDirty.mem b member).2, isDirty.sorted⟩

end Blocks

end OpenNfm.Ftl
