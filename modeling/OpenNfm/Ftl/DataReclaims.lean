import OpenNfm.Ftl.DataCalls
import OpenNfm.Ftl.DataSwitch

/-!
# A reclaim, and the calls of the FTL

When the journals of one kind are full, the dirtiest blocks are found, their valid pages copied and
the journals replaced.  Each call of the FTL finds the reclaim journals unused and room in a journal
of each kind, and leaves them so.
-/

namespace OpenNfm.Ftl

open OpenNfm.Program

variable {l : Layout} {D : Type}

section Reclaim

variable {strict : Prop} {hot : Bool} {log : PageLog D} {block : Role → Nat → Nat} {maps : PageMap}
  {ram : FtlRam} {store : UbiStore D} {reclaim : FtlCode D Status} {fuel : Nat} {blocks : List Nat}
  {post : Status → FtlRam → UbiStore D → Prop}

/-! ## Dirty blocks -/

/-- A dirty block has a page that is not valid. -/
theorem DirtyBlocks.live_lt {pages : Nand (FtlPage D)} {b : Nat}
    (isDirty : DirtyBlocks l hot log block ram blocks)
    (kept : DataKept l (reclaimActive l hot 0) log block maps ram pages) (member : b ∈ blocks) :
    live l.ftlCapacity log.home b < l.width := by
  have total := (kept.closed b (isDirty.isData b member) (isDirty.idle b member)).1
  have dirty := isDirty.dirty b member
  omega

/-- If the dirty blocks have a valid page, the last of them is full: it has as few stale pages as
the block with the valid page. -/
theorem DirtyBlocks.last_full {pages : Nand (FtlPage D)} {b : Nat}
    (isDirty : DirtyBlocks l hot log block ram blocks)
    (kept : DataKept l (reclaimActive l hot 0) log block maps ram pages)
    (valid : (blocks.map fun c => live l.ftlCapacity log.home c).sum ≠ 0)
    (isLast : b ∈ blocks.getLast?) : log.fill b = l.width := by
  obtain ⟨c, member, positive⟩ : ∃ c ∈ blocks, live l.ftlCapacity log.home c ≠ 0 := by
    by_contra none
    refine valid (List.sum_eq_zero fun n member => ?_)
    obtain ⟨c, isBlock, rfl⟩ := List.mem_map.mp member
    by_contra positive
    exact none ⟨c, isBlock, positive⟩
  have isMember : b ∈ blocks := List.mem_of_getLast? isLast
  have less : ram.blockDirtyTable b ≤ ram.blockDirtyTable c := by
    obtain ⟨earlier, rfl⟩ := List.getLast?_eq_some_iff.mp (Option.mem_def.mp isLast)
    rcases List.mem_append.mp member with before | last
    · exact (List.pairwise_append.mp isDirty.sorted).2.2 c before b (List.mem_singleton_self b)
    · rw [List.mem_singleton.mp last]
  have total := (kept.closed c (isDirty.isData c member) (isDirty.idle c member)).1
  rcases (kept.closed b (isDirty.isData b isMember) (isDirty.idle b isMember)).2 with full | unused
  · exact full
  · have clean := unused.2
    omega

theorem DirtyBlocks.idleBlock {b : Nat} (isDirty : DirtyBlocks l hot log block ram blocks)
    (member : b ∈ blocks) : IdleBlock l hot block b :=
  ⟨isDirty.isData b member, isDirty.idle b member⟩

/-- The dirty blocks go to the unused reclaim journals. -/
theorem DirtyBlocks.toCopy {pages : Nand (FtlPage D)}
    (isDirty : DirtyBlocks l hot log block ram blocks)
    (kept : DataKept l (reclaimActive l hot 0) log block maps ram pages) (fit : l.DataFits)
    (spares : ∀ j < l.journalBlockCount, log.fill (block .reclaim j) = 0) :
    ToCopy l hot block log blocks 0 where
  nodup := isDirty.nodup
  inJournals := (Nat.zero_add _).trans isDirty.length
  idle b member := isDirty.idleBlock member
  stale b member := isDirty.live_lt kept member
  spare j _ isJournal := spares j isJournal
  room j isJournal := by
    rw [spares j isJournal]
    exact fit.width_pos

/-! ## The reclaim -/

/-- A reclaim begins to copy. -/
theorem FtlKept.beginReclaim (kept : FtlKept l strict (allActive l) log block maps ram store)
    (spares : ∀ j < l.journalBlockCount, log.fill (block .reclaim j) = 0)
    (full : ∀ j < l.journalBlockCount, log.fill (block (.write hot) j) = l.width) :
    DataCopying l strict hot log block maps ram store where
  kept := ⟨kept.powered, kept.inData, kept.data.beginReclaim full⟩
  rows j isJournal page isPage := by
    rw [spares j isJournal] at isPage
    exact absurd isPage (Nat.not_lt_zero page)
  fresh j isJournal := by
    have counted := kept.data.counted .reclaim j isJournal
    rw [spares j isJournal] at counted
    exact Nat.eq_zero_of_add_eq_zero_right counted

/-- The copies are done, and the dirty blocks can be erased. -/
theorem DataCopying.replacing {log' : PageLog D} {maps' : PageMap} {ram' : FtlRam}
    {after : UbiStore D} (copying : DataCopying l strict hot log' block maps' ram' after)
    (isDirty : DirtyBlocks l hot log block ram blocks)
    (all : CopiedAll l (block .reclaim) blocks log log') :
    Replacing l strict hot log block log' block maps' blocks 0 ram' after ∧
      WithCopies l hot log' block 0 ram' := by
  have apart : ∀ j < l.journalBlockCount, ∀ k < l.journalBlockCount,
      block (.write (!hot)) j ≠ block .reclaim k := by
    intro j isJournal k isJournal' same
    have roles := (copying.kept.data.apart _ _ _ _ (other_active isJournal)
      (reclaim_active isJournal') same).1
    cases roles
  have toErase : ToErase l hot block log' blocks 0 :=
    ⟨isDirty.nodup, (Nat.zero_add _).trans isDirty.length, isDirty.isData, isDirty.idle, all.empty⟩
  have same : SameData l hot log log' block block :=
    ⟨all.contents, fun _ _ => rfl, fun j isJournal => all.fills _ (apart j isJournal)⟩
  exact ⟨⟨copying.kept, toErase, same, fun j wrong => absurd wrong (Nat.not_lt_zero j),
      fun j wrong => absurd wrong (Nat.not_lt_zero j)⟩,
    ⟨fun j _ isJournal _ => copying.rows j isJournal, fun j _ => copying.fresh j,
      fun j _ => all.room j⟩⟩

/-- Blocks without valid pages can be erased at once. -/
theorem DataCopying.replacing_unused (copying : DataCopying l strict hot log block maps ram store)
    (isDirty : DirtyBlocks l hot log block ram blocks)
    (valid : (blocks.map fun b => live l.ftlCapacity log.home b).sum = 0) :
    Replacing l strict hot log block log block maps blocks 0 ram store := by
  have empty : ∀ b ∈ blocks, live l.ftlCapacity log.home b = 0 := fun b member =>
    List.sum_eq_zero_iff.mp valid _ (List.mem_map_of_mem member)
  exact ⟨copying.kept, ⟨isDirty.nodup, (Nat.zero_add _).trans isDirty.length, isDirty.isData,
      isDirty.idle, empty⟩, ⟨rfl, fun _ _ => rfl, fun _ _ => rfl⟩,
    fun j wrong => absurd wrong (Nat.not_lt_zero j),
      fun j wrong => absurd wrong (Nat.not_lt_zero j)⟩

/-- The valid pages of the dirty blocks are moved, and their journals replaced. -/
theorem DataCopying.onReturn_dataMoveBlocksWith
    (copying : DataCopying l strict hot log block maps ram store) (fit : l.DataFits)
    (three : ThreeTables l) (good : DataReclaim l strict reclaim)
    (spares : ∀ j < l.journalBlockCount, log.fill (block .reclaim j) = 0)
    (isDirty : DirtyBlocks l hot log block ram blocks)
    (meets : ∀ log' block' maps' ram' after,
      Reclaimed l strict hot log block log' block' maps' ram' after → post .success ram' after) :
    OnReturn l (dataMoveBlocksWith l reclaim hot blocks
      (blocks.map fun b => live l.ftlCapacity log.home b).sum) post ram store := by
  have nonempty : blocks ≠ [] := by
    rintro rfl
    exact absurd isDirty.length (Nat.ne_of_lt fit.journals)
  unfold dataMoveBlocksWith
  split
  · rename_i valid
    rw [OnReturn.bind]
    refine copying.onReturn_dataCopyBlocksWith fit three good
      (isDirty.toCopy copying.kept.data fit spares)
      (fun b => isDirty.last_full copying.kept.data valid) (fun none => absurd none nonempty)
      fun log' maps' ram' after copying' all => ?_
    rw [OnReturn.bind, OnReturn.assert]
    intro _
    obtain ⟨replacing, copies⟩ := copying'.replacing isDirty all
    exact replacing.onReturn_switch fit copies meets
  · rename_i none
    have replacing := copying.replacing_unused isDirty (Decidable.not_not.mp none)
    exact replacing.onReturn_restart fit spares meets

theorem FtlKept.setEdition {value : Nat}
    (kept : FtlKept l strict (allActive l) log block maps ram store) :
    FtlKept l strict (allActive l) log block maps (setEdition hot value ram) store := by
  refine kept.besides ?_ ?_ ?_
  · cases hot <;> exact ⟨rfl, rfl, fun _ _ => rfl, .refl _ store⟩
  · cases hot <;> rfl
  · cases hot <;> rfl

/-- `DATA_Reclaim` makes room in all journals of one kind, and no logical page loses its data. -/
theorem FtlKept.onReturn_dataReclaimWith
    (kept : FtlKept l strict (allActive l) log block maps ram store) (fit : l.DataFits)
    (three : ThreeTables l) (good : DataReclaim l strict reclaim)
    (spares : ∀ j < l.journalBlockCount, log.fill (block .reclaim j) = 0)
    (full : ∀ j < l.journalBlockCount, log.fill (block (.write hot) j) = l.width)
    (meets : ∀ log' block' maps' ram' after,
      Reclaimed l strict hot log block log' block' maps' ram' after → post .success ram' after) :
    OnReturn l (dataReclaimWith l reclaim fuel hot) post ram store := by
  have copying := kept.beginReclaim spares full
  rw [dataReclaimWith, OnReturn.bind, OnReturn.flush, onSuccess_success, OnReturn.bind]
  refine copying.kept.data.onReturn_dataFindDirtyLoop fit spares fun blocks isDirty => ?_
  dsimp only
  rw [OnReturn.bind]
  refine copying.onReturn_dataMoveBlocksWith fit three good spares isDirty
    fun log' block' maps' ram' after reclaimed => ?_
  rw [onSuccess_success, OnReturn.bind, OnReturn.modifies, OnReturn.pure]
  exact meets log' block' maps' _ after ⟨reclaimed.kept.setEdition, reclaimed.same,
    reclaimed.spares, reclaimed.room⟩

/-! ## The calls -/

/-- `DATA_IsFull` says that all journals of one kind are full. -/
theorem FtlKept.dataIsFull_iff (kept : FtlKept l strict (allActive l) log block maps ram store)
    (fit : l.DataFits) : dataIsFull l hot ram = true ↔
      ∀ j < l.journalBlockCount, log.fill (block (.write hot) j) = l.width := by
  rw [dataIsFull, List.all_eq_true]
  constructor
  · intro full j isJournal
    have isActive : allActive l (.write hot) j := isJournal
    have onPage : PmNode.page l.g (journal hot ram j) = log.fill (block (.write hot) j) :=
      kept.data.page_word fit isActive
    have behind := of_decide_eq_true (full j (List.mem_range.mpr isJournal))
    rw [onPage] at behind
    exact Nat.le_antisymm (kept.data.full_le _) (Nat.not_lt.mp behind)
  · intro full j member
    have isActive : allActive l (.write hot) j := List.mem_range.mp member
    have onPage : PmNode.page l.g (journal hot ram j) = log.fill (block (.write hot) j) :=
      kept.data.page_word fit isActive
    refine decide_eq_true ?_
    rw [onPage, full j isActive]
    exact Nat.lt_irrefl _

/-- Full journals are reclaimed and the tables committed, and there is room again. -/
theorem FtlKept.onReturn_reclaimIfFullWith
    (kept : FtlKept l strict (allActive l) log block maps ram store) (fit : l.DataFits)
    (three : ThreeTables l) (good : DataReclaim l strict reclaim)
    (spares : ∀ j < l.journalBlockCount, log.fill (block .reclaim j) = 0)
    (other : ∃ j < l.journalBlockCount, log.fill (block (.write (!hot)) j) < l.width)
    (meets : ∀ log' block' maps' ram' after, FtlReady l strict log' block' maps' ram' after →
      log'.contents = log.contents → post .success ram' after) :
    OnReturn l (reclaimIfFullWith l reclaim fuel hot .success) post ram store := by
  have kinds : ∀ kind, kind = hot ∨ kind = !hot := fun kind => by
    cases kind <;> cases hot <;> simp
  rw [reclaimIfFullWith, OnReturn.bind, OnReturn.get]
  split
  · rename_i isFull
    rw [OnReturn.bind]
    refine kept.onReturn_dataReclaimWith fit three good spares ((kept.dataIsFull_iff fit).mp isFull)
      fun log' block' maps' ram' after reclaimed => ?_
    rw [onSuccess_success]
    refine reclaimed.kept.onReturn_dataCommit fit three good fun ram'' after' kept' => ?_
    refine meets log' block' _ ram'' after' ⟨kept', reclaimed.spares, fun kind => ?_⟩
      reclaimed.same.contents
    rcases kinds kind with rfl | rfl
    · exact ⟨0, fit.journals, reclaimed.room 0 fit.journals⟩
    · obtain ⟨j, isJournal, room⟩ := other
      refine ⟨j, isJournal, ?_⟩
      rw [reclaimed.same.others j isJournal, reclaimed.same.fills j isJournal]
      exact room
  · rename_i notFull
    refine OnReturn.pure.mpr (meets log block maps ram store ⟨kept, spares, fun kind => ?_⟩ rfl)
    rcases kinds kind with rfl | rfl
    · by_contra none
      refine notFull ((kept.dataIsFull_iff fit).mpr fun j isJournal => ?_)
      by_contra different
      exact none ⟨j, isJournal, Nat.lt_of_le_of_ne (kept.data.full_le _) different⟩
    · exact other

/-- The table of hot data is besides the log. -/
theorem FtlReady.onReturn_hdiIsHotPage {addr : Nat} {post : Bool → FtlRam → UbiStore D → Prop}
    (ready : FtlReady l strict log block maps ram store)
    (meets : ∀ hot ram', FtlReady l strict log block maps ram' store → post hot ram' store) :
    OnReturn l (hdiIsHotPage l addr) post ram store := by
  have counted : ∀ table count, FtlReady l strict log block maps
      { ram with hdiHashTable := table, hdiCount := count } store := fun table count =>
    ⟨ready.kept.besides ⟨rfl, rfl, fun _ _ => rfl, .refl _ store⟩ rfl rfl, ready.spares, ready.room⟩
  rw [hdiIsHotPage, OnReturn.bind, OnReturn.get]
  dsimp only
  split
  · rw [OnReturn.bind, OnReturn.modifies, OnReturn.pure]
    exact meets _ _ (counted _ _)
  · rw [OnReturn.bind, OnReturn.modifies, OnReturn.pure]
    exact meets _ _ (counted _ _)

/-- `FTL_Write` changes the value of the logical page. -/
theorem FtlReady.onReturn_ftlWriteWith {addr : Nat} {buffer : Option D}
    (ready : FtlReady l strict log block maps ram store) (fit : l.DataFits) (three : ThreeTables l)
    (good : DataReclaim l strict reclaim) (isAddr : addr < l.ftlCapacity)
    (meets : ∀ log' block' maps' ram' after, FtlReady l strict log' block' maps' ram' after →
      log'.contents = Function.update log.contents addr buffer → post .success ram' after) :
    OnReturn l (ftlWriteWith l reclaim fuel addr buffer) post ram store := by
  rw [ftlWriteWith, OnReturn.bind]
  refine ready.onReturn_hdiIsHotPage fun hot ram₁ ready₁ => ?_
  rw [OnReturn.bind]
  refine ready₁.kept.onReturn_dataWriteWith fit three good isAddr (ready₁.room hot)
    fun j isJournal _ maps' ram' after kept => ?_
  have isActive : allActive l (.write hot) j := isJournal
  have contents : (PageLog.written log (block (.write hot) j) addr buffer).contents =
      Function.update log.contents addr buffer := contents_written ready₁.kept.data fit isActive
  have fills : ∀ b, b ≠ block (.write hot) j →
      (PageLog.written log (block (.write hot) j) addr buffer).fill b = log.fill b := by
    intro b different
    cases buffer with
    | some content => exact append_fill_block _ different
    | none => rfl
  have apart : ∀ role k, role ≠ .write hot → k < l.journalBlockCount →
      block role k ≠ block (.write hot) j := fun role k different isJournal' same =>
    different (kept.data.apart role k _ j isJournal' isActive same).1
  rw [onSuccess_success]
  refine kept.onReturn_reclaimIfFullWith fit three good (fun k isJournal' => ?_) ?_
    fun log' block' maps'' ram'' after' ready' same => ?_
  · rw [fills _ (apart .reclaim k (fun wrong => by cases wrong) isJournal')]
    exact ready₁.spares k isJournal'
  · obtain ⟨k, isJournal', room⟩ := ready₁.room (!hot)
    refine ⟨k, isJournal', ?_⟩
    rw [fills _ (apart _ k (fun wrong => write_not_ne (i := k) (by rw [wrong])) isJournal')]
    exact room
  · exact meets log' block' maps'' ram'' after' ready' (same.trans contents)

/-- `FTL_Trim` takes the values of the logical pages. -/
theorem FtlReady.onReturn_ftlTrimWith {count addr : Nat}
    (ready : FtlReady l strict log block maps ram store) (fit : l.DataFits) (three : ThreeTables l)
    (good : DataReclaim l strict reclaim) (inCapacity : addr + count ≤ l.ftlCapacity)
    (meets : ∀ log' block' maps' ram' after, FtlReady l strict log' block' maps' ram' after →
      (log'.contents = fun other => if addr ≤ other ∧ other < addr + count then none
        else log.contents other) → post .success ram' after) :
    OnReturn l (ftlTrimWith l reclaim fuel count addr) post ram store := by
  induction count generalizing log block maps ram store addr with
  | zero =>
      refine OnReturn.pure.mpr (meets log block maps ram store ready (funext fun other => ?_))
      rw [if_neg fun wrong => by omega]
  | succ count ih =>
      rw [ftlTrimWith, OnReturn.bind]
      refine ready.onReturn_ftlWriteWith fit three good (by omega)
        fun log₁ block₁ maps₁ ram₁ store₁ ready₁ first => ?_
      rw [onSuccess_success]
      refine ih ready₁ (by omega) fun log' block' maps' ram' after ready' rest => ?_
      refine meets log' block' maps' ram' after ready' (funext fun other => ?_)
      rw [rest, first]
      dsimp only
      by_cases same : other = addr
      · rw [same, Function.update_self, if_neg (fun wrong => by omega), if_pos (by omega)]
      · rw [Function.update_of_ne same]
        refine if_congr ?_ rfl rfl
        omega

/-- `FTL_Read` reads the value of the logical page. -/
theorem FtlReady.onReturn_ftlReadWith {addr : Nat} {zero : D}
    {post : Status × FtlPage D → FtlRam → UbiStore D → Prop}
    (ready : FtlReady l strict log block maps ram store) (fit : l.DataFits) (three : ThreeTables l)
    (good : DataReclaim l strict reclaim) (isAddr : addr < l.ftlCapacity)
    (meets : ∀ maps' ram' after, FtlReady l strict log block maps' ram' after →
      post (.success, .data ((log.contents addr).getD zero)) ram' after) :
    OnReturn l (ftlReadWith l reclaim zero addr) post ram store :=
  ready.kept.onReturn_ftlReadWith fit three good isAddr fun maps' ram' after kept =>
    meets maps' ram' after ⟨kept, ready.spares, ready.room⟩

/-- `FTL_Flush` changes no value. -/
theorem FtlReady.onReturn_ftlFlushWith (ready : FtlReady l strict log block maps ram store)
    (fit : l.DataFits) (three : ThreeTables l) (good : DataReclaim l strict reclaim)
    (meets : ∀ maps' ram' after, FtlReady l strict log block maps' ram' after →
      post .success ram' after) :
    OnReturn l (ftlFlushWith l reclaim) post ram store := by
  rw [ftlFlushWith, OnReturn.bind]
  refine ready.kept.onReturn_dataCommit fit three good fun ram' after kept => ?_
  rw [onSuccess_success, OnReturn.bind, OnReturn.flush, onSuccess_success, ubiSwl]
  exact (Code.spec_perform_of_step rfl).mpr
    ⟨trivial, trivial, meets _ ram' after ⟨kept, ready.spares, ready.room⟩⟩

end Reclaim

end OpenNfm.Ftl
