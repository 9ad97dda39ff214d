import OpenNfm.Ftl.RootLog

/-!
# Recovery of the tables

A root names the pages of the two other tables.  They are the tables that were committed
together with it, as long as no turn of their logs erases the named blocks: between two
roots `HDI_Commit` writes at most one entry, but `BDT_Commit` writes up to three, one in
the commit and two in a mount before it, because `HDI_Init` writes the dirty counts as
well.  So three tables have to fit in a block.
-/

namespace OpenNfm.Ftl

open OpenNfm.Program

variable {l : Layout} {D : Type}

/-- The tables that are committed together with a root. -/
structure LogTables where
  counts : Nat → Nat
  values : Nat → Nat

/-- The tables in the memory. -/
def FtlRam.tables (ram : FtlRam) : LogTables :=
  ⟨ram.blockDirtyTable, ram.hdiHashTable⟩

/-- The pages that a root names hold the tables. -/
structure NamesTables (l : Layout) (store : UbiStore D) (tables : LogTables) (root : Root)
    (hdiLast bdtLast : Nat) : Prop where
  hdi : Named store.pages l.pagePerPhyBlock 1 2 (hdiContent tables.values)
    (PmNode.block l.g root.hdiCurrentJournal) (PmNode.page l.g root.hdiCurrentJournal) hdiLast
  bdt : Named store.pages l.pagePerPhyBlock l.bdtPageCount 0 (bdtContent l tables.counts)
    (PmNode.block l.g root.bdtCurrentJournal) (PmNode.page l.g root.bdtCurrentJournal) bdtLast

/-- The blocks behind the tables, as far as a word can name them. -/
def BehindTables (l : Layout) (block : Nat) : Prop :=
  Layout.pmtStartBlock ≤ block ∧ block < l.capacity + 2

/-- The page mapping blocks of a root are behind the tables. -/
structure MapsBehind (l : Layout) (root : Root) : Prop where
  current : BehindTables l (PmNode.block l.g root.pmtCurrentBlock)
  reclaim : BehindTables l (PmNode.block l.g root.pmtReclaimBlock)

theorem pmtBlocks_behind (l : Layout) : PmtBlocks l (BehindTables l) where
  table _ first _ isBlock := ⟨first, by omega⟩
  small _ inside := inside.2

theorem not_behind {pair block : Nat} (inPair : InPair pair block) (isTable : pair < 3) :
    ¬ BehindTables l block := by
  rintro ⟨first, _⟩
  have same : block / 2 = pair := inPair
  rw [Layout.pmtStartBlock] at first
  omega

/-- What the device holds, whatever the memory is. -/
structure Image (l : Layout) (store : UbiStore D) (tables : LogTables) (start block next : Nat)
    (root : Root) (hdiLast bdtLast : Nat) : Prop where
  log : RootLog l store start block next root
  names : NamesTables l store tables root hdiLast bdtLast
  maps : MapsBehind l root

/-- The cursors of the memory.  The dirty counts may have moved on by `room` entries. -/
structure Cursors (l : Layout) (ram : FtlRam) (store : UbiStore D) (start block next : Nat)
    (root : Root) (hdiLast bdtLast room : Nat) : Prop where
  atRoot : AtRoot ram start block next
  hdiBlock : ram.hdiCurrentBlock = PmNode.block l.g root.hdiCurrentJournal
  hdiPage : ram.hdiCurrentPage = hdiLast
  bdt : Cursor store.pages l.pagePerPhyBlock l.bdtPageCount
    (PmNode.block l.g root.bdtCurrentJournal) bdtLast room ram.bdtCurrentBlock ram.bdtCurrentPage
  maps : MapsBehind l ram.rootTable

/-- The variables that say where the logs go on. -/
structure LogCursors where
  rootBlock : Nat
  rootPage : Nat
  rootEdition : Nat
  bdtBlock : Nat
  bdtPage : Nat
  hdiBlock : Nat
  hdiPage : Nat
  pmtCurrent : Nat
  pmtReclaim : Nat

/-- The variables that a mount finds again. -/
def FtlRam.logCursors (ram : FtlRam) : LogCursors where
  rootBlock := ram.rootCurrentBlock
  rootPage := ram.rootCurrentPage
  rootEdition := ram.rootEdition
  bdtBlock := ram.bdtCurrentBlock
  bdtPage := ram.bdtCurrentPage
  hdiBlock := ram.hdiCurrentBlock
  hdiPage := ram.hdiCurrentPage
  pmtCurrent := ram.rootTable.pmtCurrentBlock
  pmtReclaim := ram.rootTable.pmtReclaimBlock

theorem Cursors.congr {ram ram' : FtlRam} {store : UbiStore D}
    {start block next hdiLast bdtLast room : Nat} {root : Root}
    (cursors : Cursors l ram store start block next root hdiLast bdtLast room)
    (same : ram'.logCursors = ram.logCursors) :
    Cursors l ram' store start block next root hdiLast bdtLast room where
  atRoot :=
    { block := (congrArg LogCursors.rootBlock same).trans cursors.atRoot.block
      page := (congrArg LogCursors.rootPage same).trans cursors.atRoot.page
      edition := (congrArg LogCursors.rootEdition same).trans cursors.atRoot.edition }
  hdiBlock := (congrArg LogCursors.hdiBlock same).trans cursors.hdiBlock
  hdiPage := (congrArg LogCursors.hdiPage same).trans cursors.hdiPage
  bdt := by
    have onBlock : ram'.bdtCurrentBlock = ram.bdtCurrentBlock := congrArg LogCursors.bdtBlock same
    have onPage : ram'.bdtCurrentPage = ram.bdtCurrentPage := congrArg LogCursors.bdtPage same
    rw [onBlock, onPage]
    exact cursors.bdt
  maps := by
    have current : ram'.rootTable.pmtCurrentBlock = ram.rootTable.pmtCurrentBlock :=
      congrArg LogCursors.pmtCurrent same
    have reclaim : ram'.rootTable.pmtReclaimBlock = ram.rootTable.pmtReclaimBlock :=
      congrArg LogCursors.pmtReclaim same
    exact ⟨current ▸ cursors.maps.current, reclaim ▸ cursors.maps.reclaim⟩

/-- After a power failure. -/
def LogsLeft (l : Layout) (store : UbiStore D) (tables : LogTables) : Prop :=
  ∃ start block next root hdiLast bdtLast,
    Image l store tables start block next root hdiLast bdtLast

/-- While the device has power. -/
def LogsPowered (l : Layout) (ram : FtlRam) (store : UbiStore D) (tables : LogTables) : Prop :=
  ∃ start block next root hdiLast bdtLast,
    Image l store tables start block next root hdiLast bdtLast ∧
      Cursors l ram store start block next root hdiLast bdtLast 2

theorem LogsPowered.left {ram : FtlRam} {store : UbiStore D} {tables : LogTables}
    (powered : LogsPowered l ram store tables) : LogsLeft l store tables := by
  obtain ⟨start, block, next, root, hdiLast, bdtLast, image, _⟩ := powered
  exact ⟨start, block, next, root, hdiLast, bdtLast, image⟩

theorem LogsPowered.congr {ram ram' : FtlRam} {store : UbiStore D} {tables : LogTables}
    (powered : LogsPowered l ram store tables) (same : ram'.logCursors = ram.logCursors) :
    LogsPowered l ram' store tables := by
  obtain ⟨start, block, next, root, hdiLast, bdtLast, image, cursors⟩ := powered
  exact ⟨start, block, next, root, hdiLast, bdtLast, image, cursors.congr same⟩

/-! ## Frames -/

section Frames

variable {store after : UbiStore D} {tables : LogTables} {start block next hdiLast bdtLast : Nat}
  {root : Root} {inside : Nat → Prop}

theorem named_within {step pair block first last : Nat} {content : Nat → Page (FtlPage D)}
    (named : Named store.pages l.pagePerPhyBlock step pair content block first last)
    (within : WithinBlocks inside store after)
    (outside : ∀ block, InPair pair block → ¬ inside block) :
    Named after.pages l.pagePerPhyBlock step pair content block first last :=
  named.congr fun other inPair => within.pages other (outside other inPair)

theorem pairs_apart {pair other : Nat} (different : pair ≠ other) (block : Nat)
    (inPair : InPair pair block) : ¬ InPair other block :=
  fun inOther => different (inPair.symm.trans inOther)

/-- Nothing but the blocks behind the tables has changed. -/
theorem Image.behind (image : Image l store tables start block next root hdiLast bdtLast)
    (within : WithinBlocks (BehindTables l) store after) :
    Image l after tables start block next root hdiLast bdtLast where
  log := image.log.within within fun _ inPair => not_behind inPair (by omega)
  names :=
    { hdi := named_within image.names.hdi within fun _ inPair => not_behind inPair (by omega)
      bdt := named_within image.names.bdt within fun _ inPair => not_behind inPair (by omega) }
  maps := image.maps

/-- The hot data table has been written, in part or as a whole. -/
theorem Image.wroteHdi {n : Nat} {values : Nat → Nat}
    (image : Image l store tables start block next root hdiLast bdtLast)
    (wrote : LogWrote l 2 store (PmNode.block l.g root.hdiCurrentJournal) hdiLast
      (hdiContent values) n after) (le : n ≤ 1) :
    ∃ hdiLast', Image l after tables start block next root hdiLast' bdtLast := by
  obtain ⟨hdiLast', hdi, _⟩ := image.names.hdi.append (.here : Cursor _ _ _ _ _ 0 _ _)
    (one_dvd _) (Nat.succ_le_of_lt l.g.pagePerPhyBlock_pos) Nat.one_pos le wrote.step
  refine ⟨hdiLast', image.log.within wrote.within (pairs_apart (by omega)), ⟨hdi, ?_⟩, image.maps⟩
  exact named_within image.names.bdt wrote.within (pairs_apart (by omega))

/-- The dirty counts have been written, in part or as a whole. -/
theorem Image.wroteBdt {n room cursorBlock cursorPage : Nat} {counts : Nat → Nat}
    (image : Image l store tables start block next root hdiLast bdtLast)
    (cursor : Cursor store.pages l.pagePerPhyBlock l.bdtPageCount
      (PmNode.block l.g root.bdtCurrentJournal) bdtLast room cursorBlock cursorPage)
    (whole : l.bdtPageCount ∣ l.pagePerPhyBlock) (pos : 0 < l.bdtPageCount)
    (fits : (room + 1) * l.bdtPageCount ≤ l.pagePerPhyBlock)
    (wrote : LogWrote l 0 store cursorBlock cursorPage (bdtContent l counts) n after)
    (le : n ≤ l.bdtPageCount) :
    ∃ bdtLast', Image l after tables start block next root hdiLast bdtLast' ∧
      (n = l.bdtPageCount → Cursor after.pages l.pagePerPhyBlock l.bdtPageCount
        (PmNode.block l.g root.bdtCurrentJournal) bdtLast' (room + 1)
        (nextPlace l.pagePerPhyBlock cursorBlock cursorPage).1
        ((nextPlace l.pagePerPhyBlock cursorBlock cursorPage).2 + l.bdtPageCount)) := by
  obtain ⟨bdtLast', bdt, moved⟩ := image.names.bdt.append cursor whole fits pos le wrote.step
  refine ⟨bdtLast', ⟨image.log.within wrote.within (pairs_apart (by omega)), ⟨?_, bdt⟩,
    image.maps⟩, moved⟩
  exact named_within image.names.hdi wrote.within (pairs_apart (by omega))

end Frames

/-! ## Commits -/

/-- The number of pages of the dirty counts divides the block, and three tables fit in it. -/
structure ThreeTables (l : Layout) : Prop where
  pos : 0 < l.bdtPageCount
  whole : l.bdtPageCount ∣ l.pagePerPhyBlock
  fits : 3 * l.bdtPageCount ≤ l.pagePerPhyBlock

theorem ThreeTables.two (three : ThreeTables l) : 2 * l.bdtPageCount ≤ l.pagePerPhyBlock := by
  have := three.fits
  omega

theorem ThreeTables.one (three : ThreeTables l) : 1 * l.bdtPageCount ≤ l.pagePerPhyBlock := by
  have := three.fits
  omega

section Commits

variable {crash : UbiStore D → Prop} {ram : FtlRam} {store : UbiStore D}
  {tables : LogTables} {start block next hdiLast bdtLast : Nat} {root : Root} {fuel : Nat}

/-- The root log has turned to the other block. -/
theorem Image.turned (image : Image l store tables start block next root hdiLast bdtLast) :
    Image l (turned l block next store) tables start block next root hdiLast bdtLast := by
  have turn : LogWrote l 1 store block next (rootContent root) 0 (Ftl.turned l block next store) :=
    .turned image.log.inPair
  exact
    { log := image.log.turned
      names :=
        { hdi := named_within image.names.hdi turn.within (pairs_apart (by omega))
          bdt := named_within image.names.bdt turn.within (pairs_apart (by omega)) }
      maps := image.maps }

theorem rootWrites_turned (block page : Nat) (store : UbiStore D) :
    (turned l block page store).rootWrites = store.rootWrites := by
  unfold UbiStore.rootWrites turned
  split <;> rfl

/-- Once the root is written, it names the tables that the memory names. -/
theorem Image.withRoot {newTables : LogTables} {hdiLast' bdtLast' : Nat}
    (image : Image l store tables start block next root hdiLast bdtLast)
    (atRoot : AtRoot ram start block next)
    (names : NamesTables l store newTables ram.rootTable hdiLast' bdtLast')
    (maps : MapsBehind l ram.rootTable) :
    ∃ start' block' next',
      Image l (withRoot l ram store) newTables start' block' next' (sealedRoot l ram).rootTable
        hdiLast' bdtLast' ∧
      AtRoot (pastRoot l ram) start' block' next' := by
  obtain ⟨start', block', next', log, cursor⟩ := image.log.commit atRoot
  have wrote := wrote_withRoot l store (image.log.space atRoot).inPair
  refine ⟨start', block', next', ⟨log, ⟨?_, ?_⟩, ⟨maps.current, maps.reclaim⟩⟩, cursor⟩
  · exact named_within names.hdi wrote.within (pairs_apart (by omega))
  · exact named_within names.bdt wrote.within (pairs_apart (by omega))

/-- The word of a place names it. -/
theorem named_word {pages : Nand (FtlPage D)} {step pair block first last : Nat}
    {content : Nat → Page (FtlPage D)} (fits : l.Fits) (isTable : pair < 3)
    (named : Named pages l.pagePerPhyBlock step pair content block first last) :
    Named pages l.pagePerPhyBlock step pair content
        (PmNode.block l.g (PmNode.setBlockPage l.g block first))
        (PmNode.page l.g (PmNode.setBlockPage l.g block first)) last ∧
      PmNode.block l.g (PmNode.setBlockPage l.g block first) = block := by
  have isBlock : block < l.capacity + 2 :=
    Nat.lt_add_right 2 (InPair.isBlock named.inPair isTable fits)
  have isPage : first < l.g.pagePerPhyBlock := Nat.lt_of_lt_of_le named.chain.lt named.chain.le
  rw [fits.block_word isBlock isPage, fits.page_word isBlock isPage]
  exact ⟨named, rfl⟩

/-- The memory names a hot data table that has just been written. -/
structure NextHdi (l : Layout) (ram : FtlRam) (store : UbiStore D) (values : Nat → Nat) : Prop where
  named : Named store.pages l.pagePerPhyBlock 1 2 (hdiContent values)
    (PmNode.block l.g ram.rootTable.hdiCurrentJournal)
    (PmNode.page l.g ram.rootTable.hdiCurrentJournal) ram.hdiCurrentPage
  onBlock : ram.hdiCurrentBlock = PmNode.block l.g ram.rootTable.hdiCurrentJournal

/-- The memory names dirty counts that have just been written. -/
structure NextBdt (l : Layout) (ram : FtlRam) (store : UbiStore D) (counts : Nat → Nat) : Prop where
  named : Named store.pages l.pagePerPhyBlock l.bdtPageCount 0 (bdtContent l counts)
    (PmNode.block l.g ram.rootTable.bdtCurrentJournal)
    (PmNode.page l.g ram.rootTable.bdtCurrentJournal) ram.bdtCurrentPage
  onBlock : ram.bdtCurrentBlock = PmNode.block l.g ram.rootTable.bdtCurrentJournal

theorem nextHdi_wrote {after : UbiStore D} (fits : l.Fits)
    (space : Room store.pages l.pagePerPhyBlock 1 2 ram.hdiCurrentBlock ram.hdiCurrentPage)
    (wrote : LogWrote l 2 store ram.hdiCurrentBlock ram.hdiCurrentPage
      (hdiContent ram.hdiHashTable) 1 after) :
    NextHdi l (pastHdi l ram) after ram.hdiHashTable := by
  obtain ⟨named, onBlock⟩ := named_word fits (by omega)
    (space.named (one_dvd _) Nat.one_pos wrote.step)
  exact ⟨named, onBlock.symm⟩

theorem NextHdi.besides {ram' : FtlRam} {after : UbiStore D} {values : Nat → Nat}
    {inside : Nat → Prop} (nextHdi : NextHdi l ram store values)
    (same : ram'.besidesPmt = ram.besidesPmt) (within : WithinBlocks inside store after)
    (outside : ∀ block, InPair 2 block → ¬ inside block) : NextHdi l ram' after values := by
  have kept : NextHdi l ram.besidesPmt store values := ⟨nextHdi.named, nextHdi.onBlock⟩
  rw [← same] at kept
  exact ⟨named_within kept.named within outside, kept.onBlock⟩

theorem AtRoot.besides {ram' : FtlRam} (atRoot : AtRoot ram start block next)
    (same : ram'.besidesPmt = ram.besidesPmt) : AtRoot ram' start block next := by
  have kept : AtRoot ram.besidesPmt start block next := ⟨atRoot.block, atRoot.page, atRoot.edition⟩
  rw [← same] at kept
  exact ⟨kept.block, kept.page, kept.edition⟩

theorem nextBdt_wrote {after : UbiStore D} (fits : l.Fits) (pos : 0 < l.bdtPageCount)
    (whole : l.bdtPageCount ∣ l.pagePerPhyBlock)
    (space : Room store.pages l.pagePerPhyBlock l.bdtPageCount 0 ram.bdtCurrentBlock
      ram.bdtCurrentPage)
    (wrote : LogWrote l 0 store ram.bdtCurrentBlock ram.bdtCurrentPage
      (bdtContent l ram.blockDirtyTable) l.bdtPageCount after) :
    NextBdt l (pastBdt l ram) after ram.blockDirtyTable := by
  obtain ⟨named, onBlock⟩ := named_word fits (by omega) (space.named whole pos wrote.step)
  exact ⟨named, onBlock.symm⟩

/-- The blocks of the tables. -/
abbrev InTables (block : Nat) : Prop := block < Layout.pmtStartBlock

theorem WithinBlocks.inTables {pair : Nat} {before after : UbiStore D}
    (within : WithinBlocks (InPair pair) before after) (isTable : pair < 3) :
    WithinBlocks InTables before after :=
  within.mono fun block inPair => by
    have same : block / 2 = pair := inPair
    have start : Layout.pmtStartBlock = 6 := rfl
    omega

/-- The tables were written, and the root of the memory last. -/
structure RootWritten (before : UbiStore D) (ram : FtlRam) (after : UbiStore D) : Prop where
  within : WithinBlocks InTables before after
  last : after.lastRoot = some ram.rootTable
  roots : after.roots = before.roots + 1

/-- The last commit of `DATA_Commit`, when the other tables are written. -/
theorem spec_commitRoot {post : Status → FtlRam → UbiStore D → Prop} {crash : UbiStore D → Prop}
    {next' : LogTables} (fits : l.Fits)
    (image : Image l store tables start block next root hdiLast bdtLast)
    (atRoot : AtRoot ram start block next) (maps : MapsBehind l ram.rootTable)
    (nextHdi : NextHdi l ram store next'.values) (nextBdt : NextBdt l ram store next'.counts)
    (safe : ∀ after, (after.roots = store.roots → LogsLeft l after tables) → crash after)
    (meets : crash (withRoot l ram store) →
      LogsPowered l (pastRoot l ram) (withRoot l ram store) next' →
      RootWritten store (pastRoot l ram) (withRoot l ram store) →
      post .success (pastRoot l ram) (withRoot l ram store)) :
    Code.spec (storeMachine l.g l.capacity) crash True (rootCommit l) post ram store := by
  have space := image.log.space atRoot
  have turn := image.turned
  rw [← atRoot.block, ← atRoot.page] at turn
  have names : NamesTables l store next' ram.rootTable ram.hdiCurrentPage ram.bdtCurrentPage :=
    ⟨nextHdi.named, nextBdt.named⟩
  obtain ⟨_, _, _, image', atRoot'⟩ := image.withRoot atRoot names maps
  have safeEnd : crash (withRoot l ram store) := safe _ fun same => by
    rw [roots_withRoot space.target] at same
    exact absurd same (Nat.succ_ne_self _)
  refine spec_rootCommit fits space (safe _ fun _ => ⟨_, _, _, _, _, _, image⟩)
    (safe _ fun _ => ⟨_, _, _, _, _, _, turn⟩) safeEnd (meets safeEnd ?_ ?_)
  · exact ⟨_, _, _, _, _, _, image',
      { atRoot := atRoot'
        hdiBlock := nextHdi.onBlock
        hdiPage := rfl
        bdt := .of_eq nextBdt.onBlock rfl
        maps := ⟨maps.current, maps.reclaim⟩ }⟩
  · exact
      { within := (wrote_withRoot l _ space.inPair).within.inTables (by omega)
        last := lastRoot_withRoot space.target
        roots := roots_withRoot space.target }

/-- The last two commits of `DATA_Commit`. -/
theorem spec_commitCounts {post : Status → FtlRam → UbiStore D → Prop} {crash : UbiStore D → Prop}
    (fits : l.Fits) (three : ThreeTables l) {values : Nat → Nat}
    (image : Image l store tables start block next root hdiLast bdtLast)
    (atRoot : AtRoot ram start block next) (maps : MapsBehind l ram.rootTable)
    (nextHdi : NextHdi l ram store values)
    (cursor : Cursor store.pages l.pagePerPhyBlock l.bdtPageCount
      (PmNode.block l.g root.bdtCurrentJournal) bdtLast 2 ram.bdtCurrentBlock ram.bdtCurrentPage)
    (safe : ∀ after, (after.roots = store.roots → LogsLeft l after tables) → crash after)
    (meets : ∀ after, crash after →
      LogsPowered l (pastRoot l (pastBdt l ram)) after ⟨ram.blockDirtyTable, values⟩ →
      RootWritten store (pastRoot l (pastBdt l ram)) after →
      post .success (pastRoot l (pastBdt l ram)) after) :
    Code.spec (storeMachine l.g l.capacity) crash True (bdtCommit l) (fun ret ram' after =>
      Code.spec (storeMachine l.g l.capacity) crash True (onSuccess ret (rootCommit l)) post ram'
        after) ram store := by
  have space := cursor.hasRoom image.names.bdt three.fits three.pos
  refine spec_bdtCommit fits three.whole space (safe _ fun _ => ⟨_, _, _, _, _, _, image⟩) ?_ ?_
  · intro n le after wrote
    obtain ⟨_, image', _⟩ := image.wroteBdt cursor three.whole three.pos three.fits wrote le
    exact safe _ fun _ => ⟨_, _, _, _, _, _, image'⟩
  · intro after wrote
    obtain ⟨_, image', _⟩ :=
      image.wroteBdt cursor three.whole three.pos three.fits wrote (Nat.le_refl _)
    have nextHdi' : NextHdi l (pastBdt l ram) after values :=
      ⟨named_within nextHdi.named wrote.within (pairs_apart (by omega)), nextHdi.onBlock⟩
    have nextBdt := nextBdt_wrote fits three.pos three.whole space wrote
    have writes : after.roots = store.roots :=
      UbiStore.roots_within wrote.within (pairs_apart (by omega))
    have atRoot' : AtRoot (pastBdt l ram) start block next :=
      ⟨atRoot.block, atRoot.page, atRoot.edition⟩
    rw [onSuccess_success]
    refine spec_commitRoot fits image' atRoot' ⟨maps.current, maps.reclaim⟩ nextHdi' nextBdt
      (fun final kept => safe final fun same => kept (same.trans writes.symm))
      fun here powered written => meets _ here powered ?_
    exact
      { within := (wrote.within.inTables (by omega)).trans written.within
        last := written.last
        roots := by rw [written.roots, writes] }

/-- The memory after `DATA_Commit`, from the memory that `PMT_Commit` leaves. -/
def committed (l : Layout) (ram : FtlRam) : FtlRam :=
  { pastRoot l (pastBdt l ram) with editionInHotJournal := 0, editionInColdJournal := 0 }

/-- `PMT_Commit` has left the memory and the store, and `DATA_Commit` has written the other
tables behind it. -/
structure DataCommitted (l : Layout) (before : FtlRam) (first : UbiStore D) (ram : FtlRam)
    (store : UbiStore D) : Prop where
  memory : ram = committed l before
  written : RootWritten first ram store
  powered : LogsPowered l ram store ram.tables

/-- `DATA_Commit` with any reclaim that keeps to the page mapping table: what `PMT_Commit`
does, and then the other tables. -/
theorem spec_dataCommit_done {reclaim : FtlCode D Status}
    {post : Status → FtlRam → UbiStore D → Prop} {crash : UbiStore D → Prop}
    (done : Status → FtlRam → UbiStore D → Prop) (fits : l.Fits) (three : ThreeTables l)
    (powered : LogsPowered l ram store tables)
    (keeps : ∀ earlier before, KeepsPmt l (BehindTables l) earlier before reclaim)
    (commits : ∀ after, WithinBlocks InTables store after →
      Code.spec (storeMachine l.g l.capacity) (fun _ => True) True (pmtCommit l reclaim) done
        (pastHdi l ram) after)
    (safe : ∀ after, (after.roots = store.roots → LogsLeft l after tables) → crash after)
    (meets : ∀ ret ram₁ mid ram' after, done ret ram₁ mid → mid.roots = store.roots →
      (ret = .success → DataCommitted l ram₁ mid ram' after) → post ret ram' after) :
    Code.spec (storeMachine l.g l.capacity) crash True (dataCommit l reclaim) post ram store := by
  obtain ⟨start, block, next, root, hdiLast, bdtLast, image, cursors⟩ := powered
  have hdiCursor : Cursor store.pages l.pagePerPhyBlock 1
      (PmNode.block l.g root.hdiCurrentJournal) hdiLast 0 ram.hdiCurrentBlock ram.hdiCurrentPage :=
    .of_eq cursors.hdiBlock cursors.hdiPage
  have room := Nat.succ_le_of_lt l.g.pagePerPhyBlock_pos
  have space := hdiCursor.hasRoom image.names.hdi (by rw [Nat.zero_add, Nat.one_mul]; exact room)
    Nat.one_pos
  simp only [dataCommit, Code.spec_bind]
  refine spec_hdiCommit fits space (safe _ fun _ => ⟨_, _, _, _, _, _, image⟩) ?_ ?_
  · intro n le after wrote
    rw [cursors.hdiBlock, cursors.hdiPage] at wrote
    obtain ⟨_, image'⟩ := image.wroteHdi wrote le
    exact safe _ fun _ => ⟨_, _, _, _, _, _, image'⟩
  · intro after wrote
    have nextHdi := nextHdi_wrote fits space wrote
    have bdtCursor := cursors.bdt.congr image.names.bdt.inPair fun other inPair =>
      wrote.within.pages other (pairs_apart (by omega : 0 ≠ 2) other inPair)
    have writes : after.roots = store.roots :=
      UbiStore.roots_within wrote.within (pairs_apart (by omega))
    have commit := commits after (wrote.within.inTables (by omega))
    rw [cursors.hdiBlock, cursors.hdiPage] at wrote
    obtain ⟨_, image'⟩ := image.wroteHdi wrote (Nat.le_refl _)
    have behind : PmtWithin l (BehindTables l) (pastHdi l ram) after (pastHdi l ram) after :=
      ⟨rfl, .refl _ _, cursors.maps.current, cursors.maps.reclaim⟩
    rw [onSuccess_success]
    have keepsCommit := keeps_pmtCommit (pmtBlocks_behind l) fits (keeps (pastHdi l ram) after)
    refine Code.spec_mono (Code.spec_and (keepsCommit _ _ behind) commit) ?_ ?_
    · rintro ret ram' final ⟨kept, isDone⟩
      have here : crash final := safe _ fun _ => ⟨_, _, _, _, _, _, image'.behind kept.store⟩
      have writes' : final.roots = after.roots :=
        UbiStore.roots_within kept.store fun _ inPair => not_behind inPair (by omega)
      by_cases success : ret = .success
      · subst success
        have onBlock : ram'.bdtCurrentBlock = ram.bdtCurrentBlock :=
          have equal := congrArg FtlRam.bdtCurrentBlock kept.besides
          equal
        have onPage : ram'.bdtCurrentPage = ram.bdtCurrentPage :=
          have equal := congrArg FtlRam.bdtCurrentPage kept.besides
          equal
        have hashes : ram'.hdiHashTable = ram.hdiHashTable :=
          have equal := congrArg FtlRam.hdiHashTable kept.besides
          equal
        have moved := bdtCursor.congr image'.names.bdt.inPair fun other inPair =>
          kept.store.pages other (not_behind inPair (by omega))
        rw [← onBlock, ← onPage] at moved
        have atRoot : AtRoot (pastHdi l ram) start block next :=
          ⟨cursors.atRoot.block, cursors.atRoot.page, cursors.atRoot.edition⟩
        rw [onSuccess_success]
        refine spec_commitCounts fits three (image'.behind kept.store) (atRoot.besides kept.besides)
          ⟨kept.current, kept.reclaim⟩ (nextHdi.besides kept.besides kept.store fun _ inPair =>
            not_behind inPair (by omega)) moved
          (fun last same => safe last fun equal => same (equal.trans (writes'.trans writes).symm))
          fun last left powered written => ?_
        simp only [onSuccess_success, Code.spec_bind, Code.spec_modify, Code.spec_pure]
        rw [← hashes] at powered
        refine ⟨left, left, meets _ _ _ _ _ isDone (writes'.trans writes) fun _ => ?_⟩
        exact
          { memory := rfl
            written := ⟨written.within, written.last, written.roots⟩
            powered := powered.congr rfl }
      · simp only [onSuccess_other success, Code.spec_pure]
        exact ⟨here, here, here, meets _ _ _ _ _ isDone (writes'.trans writes) fun wrong =>
          absurd wrong success⟩
    · rintro final ⟨⟨ram', kept⟩, _⟩
      exact safe _ fun _ => ⟨_, _, _, _, _, _, image'.behind kept.store⟩

/-- `DATA_Commit` makes the tables in the memory those of the newest root. -/
theorem spec_dataCommit {post : Status → FtlRam → UbiStore D → Prop} {crash : UbiStore D → Prop}
    (fits : l.Fits) (three : ThreeTables l) (powered : LogsPowered l ram store tables)
    (safe : ∀ after, (after.roots = store.roots → LogsLeft l after tables) → crash after)
    (meets : ∀ ret ram' after, (ret = .success → LogsPowered l ram' after ram'.tables) →
      post ret ram' after) :
    Code.spec (storeMachine l.g l.capacity) crash True (dataCommit l (pmtReclaimBlocks l fuel)) post
      ram store := by
  have keeps : ∀ earlier (before : UbiStore D),
      KeepsPmt l (BehindTables l) earlier before (pmtReclaimBlocks l fuel) := fun earlier before =>
    keeps_pmtReclaimBlocks (pmtBlocks_behind l) fits
  exact spec_dataCommit_done _ fits three powered keeps (fun _ _ => Code.spec_true) safe
    fun ret ram₁ mid ram' after _ _ committed => meets ret ram' after fun success =>
      (committed success).powered

end Commits

end OpenNfm.Ftl
