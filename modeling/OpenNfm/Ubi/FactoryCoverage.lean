import OpenNfm.Ubi.FactoryFormat

/-!
# What the format goes over

On a device that performs every program and every erase, the format leaves out a block only
because it is in the bad block table.  All other blocks behind the code block are erased, and
the first block of the ring is programmed in any case.
-/

namespace OpenNfm

open OpenNfm.Program

/-- No program and no erase fails. -/
structure Healthy {D : Type} (oracle : UbiOracle D) : Prop where
  erase : ∀ calls block, oracle calls (.erase block) = .success
  program : ∀ calls block page main spare, oracle calls (.program block page main spare) = .success
  waitReady : ∀ calls block, oracle calls (.waitReady block) = .success

section Coverage

variable {g : Geometry} {D : Type} {oracle : UbiOracle D} {ram : UbiRam D} {calls : UbiCalls D}
  {listed : Nat → Bool} {first last : Nat}

open Code

theorem Healthy.yields_erase (healthy : Healthy oracle) {block : Nat}
    {post : Status → UbiRam D → UbiCalls D → Prop}
    (meets : ∀ answer, post .success ram (⟨.erase block, answer⟩ :: calls)) :
    Yields oracle (mtdErase block) post ram calls := by
  refine Yields.perform.mpr ?_
  have met := meets (oracle calls (.erase block))
  rwa [← healthy.erase calls block] at met

/-- A table is written, by a program and a wait. -/
theorem Healthy.yields_tableWrite (healthy : Healthy oracle) {block page : Nat}
    {buffer : UbiBuffer D} {post : Status → UbiRam D → UbiCalls D → Prop}
    (meets : ∀ answer answer', post .success ram
      (⟨.waitReady block, answer'⟩ ::
        ⟨.program block page buffer (some ⟨0, 0⟩), answer⟩ :: calls)) :
    Yields oracle (tableWrite block page buffer) post ram calls := by
  unfold tableWrite
  rw [Yields.bind]
  refine Yields.perform.mpr ?_
  have programmed := healthy.program calls block page buffer (some ⟨0, 0⟩)
  rw [if_pos programmed]
  refine Yields.perform.mpr ?_
  have met := meets (oracle calls (.program block page buffer (some ⟨0, 0⟩)))
    (oracle (⟨.program block page buffer (some ⟨0, 0⟩), oracle calls _⟩ :: calls)
      (.waitReady block))
  rwa [← healthy.waitReady _ block] at met

/-- Each block of the range is in the bad block table or has been touched. -/
def Covered (listed : Nat → Bool) (first last : Nat) (calls : UbiCalls D) : Prop :=
  ∀ block, first ≤ block → block < last → listed block = true ∨ Touched calls block

theorem Covered.cons (covered : Covered listed first last calls)
    (call : Called (MtdOp (UbiBuffer D)) (MtdAns (UbiBuffer D))) :
    Covered listed first last (call :: calls) :=
  fun block lower upper => (covered block lower upper).imp_right
    fun ⟨other, inside, touches⟩ => ⟨other, List.mem_cons_of_mem _ inside, touches⟩

/-- The range is extended by one block. -/
theorem Covered.succ (covered : Covered listed first last calls)
    (here : listed last = true ∨ Touched calls last) : Covered listed first (last + 1) calls := by
  intro block lower upper
  by_cases same : block = last
  · subst same
    exact here
  · exact covered block lower (by omega)

theorem Covered.extend {more : Nat} (covered : Covered listed first last calls)
    (here : ∀ block, last ≤ block → block < more → listed block = true) :
    Covered listed first more calls := by
  intro block lower upper
  by_cases before : block < last
  · exact covered block lower before
  · exact .inl (here block (by omega) upper)

theorem Covered.le {less : Nat} (covered : Covered listed first last calls) (le : less ≤ last) :
    Covered listed first less calls :=
  fun block lower upper => covered block lower (by omega)

theorem touched_erase (block : Nat) (answer : Status) :
    Touched (⟨.erase block, answer⟩ :: calls) block :=
  ⟨_, List.mem_cons_self, rfl⟩

/-- The bad block table is this one. -/
def Lists (g : Geometry) (listed : Nat → Bool) (ram : UbiRam D) : Prop :=
  ∀ block, isBadBlock g ram.anchorTable.badBlockTable block = listed block

theorem Healthy.yields_areaFormatFill (healthy : Healthy oracle)
    {blockCount steps i fmtCurrentBlock : Nat} {ret : Status} {table : AreaTable}
    (lists : Lists g listed ram) (covered : Covered listed first fmtCurrentBlock calls)
    (after : first ≤ fmtCurrentBlock) (unfinished : ret ≠ .success → i < blockCount) :
    Yields oracle (areaFormatFill g blockCount steps i fmtCurrentBlock ret table)
      (fun result ram' calls' => Lists g listed ram' ∧ Covered listed first result.2.1 calls' ∧
        first ≤ result.2.1 ∧ (result.1 ≠ .success → g.cfgLogBlockCount ≤ result.2.1)) ram
          calls := by
  induction steps generalizing i fmtCurrentBlock ret table calls with
  | zero => exact Yields.halt
  | succ steps ih =>
      unfold areaFormatFill
      split
      · rename_i more
        split
        · simp only [anchorIsBadBlock, Yields.bind, Yields.get, Yields.pure, lists fmtCurrentBlock]
          split
          · rename_i bad
            exact ih (covered.succ (.inl bad)) (by omega) fun _ => more
          · rw [Yields.bind]
            refine healthy.yields_erase fun answer => ?_
            have next := (covered.cons ⟨.erase fmtCurrentBlock, answer⟩).succ
              (.inr (touched_erase fmtCurrentBlock answer))
            rw [if_neg (not_not.mpr rfl), pure_bind, if_pos rfl]
            exact ih next (by omega) fun wrong => absurd rfl wrong
        · rename_i behind
          exact Yields.pure.mpr ⟨lists, covered, after, fun _ => Nat.le_of_not_lt behind⟩
      · rename_i full
        exact Yields.pure.mpr ⟨lists, covered, after, fun wrong => absurd (unfinished wrong) full⟩

theorem Healthy.yields_areaFormatSkip {steps block : Nat}
    {post : Nat → UbiRam D → UbiCalls D → Prop} (lists : Lists g listed ram)
    (covered : Covered listed first block calls)
    (meets : ∀ other, block ≤ other → Covered listed first other calls → post other ram calls) :
    Yields oracle (areaFormatSkip g steps block) post ram calls := by
  induction steps generalizing block with
  | zero => exact Yields.halt
  | succ steps ih =>
      unfold areaFormatSkip
      simp only [anchorIsBadBlock, Yields.bind, Yields.get, Yields.pure, lists block]
      split
      · rename_i bad
        exact ih (covered.succ (.inl bad)) fun other later => meets other (by omega)
      · exact Yields.pure.mpr (meets block le_rfl covered)

/-- The bad block table has these blocks in front of a range. -/
def ListsBelow (g : Geometry) (listed : Nat → Bool) (first : Nat) (ram : UbiRam D) : Prop :=
  ∀ block < first, isBadBlock g ram.anchorTable.badBlockTable block = listed block

/-- A part of the format has gone over the range up to `next`, or has failed at its end. -/
structure Passed (g : Geometry) (listed : Nat → Bool) (first next : Nat) (ram : UbiRam D)
    (calls : UbiCalls D) : Prop where
  ring : ListsBelow g listed first ram
  goesOn : next ≠ invalidBlock →
    Lists g listed ram ∧ Covered listed first next calls ∧ first ≤ next
  failed : next = invalidBlock → Covered listed first g.cfgLogBlockCount calls

/-- Logging a block behind the ring changes nothing in front of it. -/
theorem Lists.log (supported : g.Supported) (lists : Lists g listed ram) {block : Nat}
    (behind : first ≤ block) (isFirst : first ≤ g.cfgLogBlockCount) :
    ListsBelow g listed first { ram with anchorTable :=
      { ram.anchorTable with
        badBlockTable := logBadBlock g ram.anchorTable.badBlockTable block } } := by
  intro other below
  have small := supported.blocksSmall
  have valid : other ≠ invalidBlock := by
    rw [invalidBlock]
    omega
  exact (isBadBlock_logBadBlock_other (by omega) valid).trans (lists other)

theorem Healthy.yields_areaFormat (supported : g.Supported) (healthy : Healthy oracle)
    {blockCount fmtCurrentBlock area : Nat} (isFirst : first ≤ g.cfgLogBlockCount)
    (lists : Lists g listed ram) (covered : Covered listed first fmtCurrentBlock calls)
    (after : first ≤ fmtCurrentBlock) :
    Yields oracle (areaFormat g blockCount fmtCurrentBlock area) (Passed g listed first) ram
      calls := by
  have small := supported.blocksSmall
  rw [areaFormat_eq]
  simp only [Yields.bind, Yields.modifies]
  refine Yields.mono (healthy.yields_areaFormatFill (by exact lists) covered after
    fun wrong => absurd rfl wrong) ?_
  rintro ⟨ret, next, table⟩ ram' calls' ⟨lists', covered', after', complete⟩
  unfold areaFormatWrite areaFormatEnd
  dsimp only at after' complete ⊢
  split
  · simp only [Yields.bind]
    refine Healthy.yields_areaFormatSkip (by exact lists') covered' fun block later covered'' => ?_
    refine healthy.yields_erase fun answer => ?_
    have erased := (covered''.cons ⟨.erase block, answer⟩).succ
      (.inr (touched_erase block answer))
    rw [Yields.pure, if_pos rfl, Yields.bind]
    refine healthy.yields_tableWrite fun answer answer' => ?_
    rw [if_pos rfl, Yields.bind]
    refine Yields.modifies.mpr (Yields.pure.mpr ⟨fun other _ => lists' other, fun _ => ⟨lists',
      (erased.cons _).cons _, by omega⟩, fun isInvalid => ?_⟩)
    refine ((erased.cons _).cons _).le ?_
    rw [isInvalid, invalidBlock]
    omega
  · rename_i wrong
    rw [pure_bind]
    dsimp only
    rw [if_neg wrong, pure_bind, if_neg wrong, Yields.bind]
    exact Yields.modifies.mpr (Yields.pure.mpr
      ⟨Lists.log supported (by exact lists') after' isFirst, fun proper => absurd rfl proper,
        fun _ => covered'.le (complete wrong)⟩)

theorem Healthy.yields_ubiFormatAreas (supported : g.Supported) (healthy : Healthy oracle)
    {rounds fmtCurrentBlock area totalDataBlock : Nat} (isFirst : first ≤ g.cfgLogBlockCount)
    (lists : Lists g listed ram) (covered : Covered listed first fmtCurrentBlock calls)
    (after : first ≤ fmtCurrentBlock) :
    Yields oracle (ubiFormatAreas g rounds fmtCurrentBlock area totalDataBlock)
      (fun result ram' calls' => Passed g listed first result.1 ram' calls') ram calls := by
  induction rounds generalizing fmtCurrentBlock area totalDataBlock ram calls with
  | zero => exact Yields.halt
  | succ rounds ih =>
      unfold ubiFormatAreas
      rw [Yields.bind, Yields.assert]
      intro _
      rw [Yields.bind]
      refine Yields.mono (healthy.yields_areaFormat supported isFirst lists covered after) ?_
      intro next ram' calls' passed
      split
      · rename_i proper
        obtain ⟨lists', covered', after'⟩ := passed.goesOn proper
        split
        · exact ih lists' covered' after'
        · exact Yields.pure.mpr passed
      · exact Yields.pure.mpr passed

theorem Healthy.yields_indexFormatFill (healthy : Healthy oracle) {start count : Nat}
    {ret : Status} {indexBlock free : Nat} {table : Nat → BlockEc}
    (lists : Lists g listed ram) (covered : Covered listed first start calls)
    (after : first ≤ start) (index : indexBlock = invalidBlock ∨ first ≤ indexBlock) :
    Yields oracle
      (indexFormatFill g (List.range' start count) ret indexBlock free table)
      (fun result ram' calls' => Lists g listed ram' ∧ Covered listed first (start + count) calls' ∧
        (result.2.1 = invalidBlock ∨ first ≤ result.2.1)) ram calls := by
  induction count generalizing start ret indexBlock free table calls with
  | zero => exact Yields.pure.mpr ⟨lists, covered, index⟩
  | succ count ih =>
      have next : start + 1 + count = start + (count + 1) := by omega
      rw [List.range'_succ]
      unfold indexFormatFill
      simp only [anchorIsBadBlock, Yields.bind, Yields.get, Yields.pure, lists start]
      rw [← next]
      split
      · rename_i bad
        exact ih (covered.succ (.inl bad)) (by omega) index
      · rw [Yields.bind]
        refine healthy.yields_erase fun answer => ?_
        have erased := (covered.cons ⟨.erase start, answer⟩).succ
          (.inr (touched_erase start answer))
        rw [if_neg (not_not.mpr rfl), pure_bind, if_pos rfl]
        split
        · exact ih erased (by omega) (.inr after)
        · rw [Yields.bind, Yields.assert]
          exact fun _ => ih erased (by omega) index

theorem Healthy.yields_indexFormatWrite (supported : g.Supported) (healthy : Healthy oracle)
    {indexBlock next : Nat} {ret : Status} (isFirst : first ≤ g.cfgLogBlockCount)
    (lists : Lists g listed ram) (covered : Covered listed first g.cfgLogBlockCount calls)
    (index : indexBlock = invalidBlock ∨ first ≤ indexBlock) :
    Yields oracle (indexFormatWrite g indexBlock next ret)
      (fun _ ram' calls' => ListsBelow g listed first ram' ∧
        Covered listed first g.cfgLogBlockCount calls') ram calls := by
  have behind : first ≤ indexBlock := by
    have := supported.blocksSmall
    rcases index with rfl | behind
    · rw [invalidBlock]
      omega
    · exact behind
  unfold indexFormatWrite indexFormatEnd
  split
  · rw [Yields.bind]
    refine healthy.yields_erase fun answer => ?_
    rw [Yields.bind, Yields.get, if_pos rfl, Yields.bind]
    refine healthy.yields_tableWrite fun answer answer' => ?_
    dsimp only
    rw [if_pos rfl, Yields.bind]
    exact Yields.modifies.mpr (Yields.pure.mpr ⟨fun other _ => lists other,
      ((covered.cons _).cons _).cons _⟩)
  · rename_i wrong
    rw [pure_bind, Yields.bind, Yields.get, if_neg wrong, pure_bind]
    dsimp only
    rw [if_neg wrong, Yields.bind]
    exact Yields.modifies.mpr (Yields.pure.mpr ⟨lists.log supported behind isFirst, covered⟩)

theorem Healthy.yields_indexFormat (supported : g.Supported) (healthy : Healthy oracle)
    {fmtCurrentBlock : Nat} (isFirst : first ≤ g.cfgLogBlockCount)
    (lists : Lists g listed ram) (covered : Covered listed first fmtCurrentBlock calls)
    (after : first ≤ fmtCurrentBlock) :
    Yields oracle (indexFormat g g.cfgLogBlockCount fmtCurrentBlock)
      (fun _ ram' calls' => ListsBelow g listed first ram' ∧
        Covered listed first g.cfgLogBlockCount calls') ram calls := by
  rw [indexFormat_eq]
  simp only [Yields.bind, Yields.modifies, Yields.get]
  refine Yields.mono (healthy.yields_indexFormatFill (by exact lists) covered after (.inl rfl)) ?_
  rintro ⟨ret, indexBlock, count, free⟩ ram' calls' ⟨lists', covered', index⟩
  dsimp only at index ⊢
  have whole : Covered listed first g.cfgLogBlockCount calls' := covered'.le (by omega)
  have checked : ∀ ret : Status, Yields oracle (do
      let ret ←
        if ret = .success then do
          let bad ← anchorIsBadBlock g indexBlock
          pure (if bad then .badblock else ret)
        else pure ret
      indexFormatWrite g indexBlock (max fmtCurrentBlock g.cfgLogBlockCount) ret)
      (fun _ ram' calls' => ListsBelow g listed first ram' ∧
        Covered listed first g.cfgLogBlockCount calls')
      { ram' with indexTable :=
        { ram'.indexTable with
          free := fun i => if count ≤ i ∧ i < g.freeBlockCount then .invalid else free i } }
      calls' := by
    intro ret
    split
    · simp only [anchorIsBadBlock, Yields.bind, Yields.get, Yields.pure]
      exact healthy.yields_indexFormatWrite supported isFirst (by exact lists') whole index
    · rw [pure_bind]
      exact healthy.yields_indexFormatWrite supported isFirst (by exact lists') whole index
  split
  · rw [Yields.bind, Yields.assert]
    exact fun _ => checked ret
  · exact checked ret

/-- The blocks of the ring are erased, as far as they are not in the bad block table. -/
theorem Healthy.yields_anchorFormatErase (healthy : Healthy oracle) {start count finish : Nat}
    (below : ListsBelow g listed finish ram) (ringEnd : start + count ≤ finish)
    (data : Covered listed finish last calls) (ring : Covered listed first start calls) :
    Yields oracle (anchorFormatErase g (List.range' start count))
      (fun _ ram' calls' => ram' = ram ∧ Covered listed finish last calls' ∧
        Covered listed first (start + count) calls') ram calls := by
  induction count generalizing start calls with
  | zero => exact Yields.pure.mpr ⟨rfl, data, ring⟩
  | succ count ih =>
      have next : start + 1 + count = start + (count + 1) := by omega
      rw [List.range'_succ, ← next]
      unfold anchorFormatErase
      simp only [anchorIsBadBlock, Yields.bind, Yields.get, Yields.pure, below start (by omega)]
      split
      · rw [Yields.bind]
        refine healthy.yields_erase fun answer => ?_
        rw [if_neg (not_not.mpr rfl)]
        exact ih (by omega) (data.cons _) ((ring.cons ⟨.erase start, answer⟩).succ
          (.inr (touched_erase start answer)))
      · rename_i bad
        exact ih (by omega) data (ring.succ (.inl (by simpa using bad)))

/-- The whole device is gone over, and the first block of the ring is programmed. -/
structure GoneOver (g : Geometry) (listed : Nat → Bool) (calls : UbiCalls D) : Prop where
  blocks : Covered listed Geometry.anchorFirstBlock g.cfgLogBlockCount calls
  anchor : Touched calls Geometry.anchorFirstBlock

theorem Healthy.yields_anchorFormat (healthy : Healthy oracle) {fuel totalDataBlock : Nat}
    (below : ListsBelow g listed g.dataFirstBlock ram)
    (covered : Covered listed g.dataFirstBlock g.cfgLogBlockCount calls) :
    Yields oracle (anchorFormat g fuel totalDataBlock)
      (fun _ _ calls' => GoneOver g listed calls') ram calls := by
  have ringEnd : Geometry.anchorFirstBlock + g.anchorBlockCount = g.dataFirstBlock := rfl
  unfold anchorFormat
  rw [Yields.bind, Yields.modifies, Yields.bind]
  have nothing : Covered listed Geometry.anchorFirstBlock Geometry.anchorFirstBlock calls :=
    fun block lower upper => by omega
  refine Yields.mono (healthy.yields_anchorFormatErase (by exact below) ringEnd.le covered
    nothing) ?_
  rintro _ _ calls' ⟨rfl, covered', ring⟩
  rw [ringEnd] at ring
  cases fuel with
  | zero => exact Yields.halt
  | succ rounds =>
      have empty : (0 : Nat) ≠ g.pagePerPhyBlock := g.pagePerPhyBlock_pos.ne
      unfold anchorUpdate
      rw [anchorUpdateLoop_eq, Yields.bind, Yields.get, if_neg empty, pure_bind]
      dsimp only
      rw [if_neg (not_not.mpr rfl)]
      unfold anchorUpdateWrite
      rw [Yields.bind, Yields.get, Yields.bind]
      refine healthy.yields_tableWrite fun answer answer' => ?_
      rw [if_pos rfl, if_neg Bool.false_ne_true, Yields.bind]
      refine Yields.modifies.mpr (Yields.pure.mpr ⟨?_, ?_⟩)
      · intro block lower upper
        by_cases inRing : block < g.dataFirstBlock
        · exact ((ring.cons _).cons _) block lower inRing
        · exact ((covered'.cons _).cons _) block (by omega) upper
      · exact ⟨_, List.mem_cons_of_mem _ List.mem_cons_self, rfl⟩

theorem Healthy.yields_ubiFormatLayout (supported : g.Supported) (healthy : Healthy oracle)
    {fuel : Nat} (lists : Lists g listed ram) :
    Yields oracle (ubiFormatLayout g fuel) (fun _ _ calls' => GoneOver g listed calls') ram
      calls := by
  have isFirst : g.dataFirstBlock ≤ g.cfgLogBlockCount := by
    have := supported.data
    have := supported.reserve
    omega
  have nothing : Covered listed g.dataFirstBlock g.dataFirstBlock calls :=
    fun block lower upper => by omega
  have fail : ∀ ram calls, ListsBelow g listed g.dataFirstBlock ram →
      Covered listed g.dataFirstBlock g.cfgLogBlockCount calls → Yields oracle (do
        let _ ← anchorFormat g fuel invalidBlock
        pure Status.ubiFormatError) (fun _ _ calls' => GoneOver g listed calls') ram calls := by
    intro ram calls below covered
    rw [Yields.bind]
    exact (healthy.yields_anchorFormat below covered).mono fun _ _ _ done => Yields.pure.mpr done
  unfold ubiFormatLayout
  rw [Yields.bind]
  refine Yields.mono (healthy.yields_ubiFormatAreas supported isFirst lists nothing le_rfl) ?_
  rintro ⟨next, total⟩ ram' calls' passed
  dsimp only at passed ⊢
  split
  · rename_i proper
    obtain ⟨lists', covered, after⟩ := passed.goesOn proper
    rw [Yields.bind]
    refine Yields.mono (healthy.yields_indexFormat supported isFirst lists' covered after) ?_
    rintro last ram' calls' ⟨below, whole⟩
    split
    · rw [Yields.bind, Yields.assert]
      exact fun _ => healthy.yields_anchorFormat below whole
    · exact fail ram' calls' below whole
  · rename_i wrong
    rw [pure_bind, if_neg wrong]
    exact fail ram' calls' passed.ring (passed.failed (not_not.mp wrong))

end Coverage

end OpenNfm
