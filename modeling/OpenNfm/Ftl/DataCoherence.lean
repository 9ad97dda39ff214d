import OpenNfm.Ftl.DataRuns
import OpenNfm.Ftl.NodeCoherence

/-!
# The mapping and the data blocks

Between two calls of a run, the page mapping, the journals in the root and the dirty counts say
what is on the data blocks: each logical page that has data is on a page of its own that names it,
each count is the number of stale pages, and there are pages to write to.
-/

namespace OpenNfm.Ftl

open OpenNfm.Program

variable {l : Layout} {D : Type}

/-! ## What the tables name -/

/-- The place that the page mapping has for a logical page. -/
def homeOf (l : Layout) (ram : FtlRam) (store : UbiStore D) (addr : Nat) : Place :=
  match visibleNode l ram store (clusterIndex l addr) with
  | some words => wordPlace l (words (pageInCluster l addr))
  | none => nowhere

/-- The block of a journal, and its next page. -/
def journalPlace (l : Layout) (ram : FtlRam) (role : Role) (j : Nat) : Place :=
  (PmNode.block l.g (role.word ram j), PmNode.page l.g (role.word ram j))

/-- The block is one of the journals. -/
def IsJournal (l : Layout) (ram : FtlRam) (block : Nat) : Prop :=
  ∃ role, ∃ j < l.journalBlockCount, block = (journalPlace l ram role j).1

/-- A page holds data of a logical page. -/
def Holds (store : UbiStore D) (place : Place) (addr : Nat) (content : D) : Prop :=
  ∃ number, store.pages place.1 place.2 = some ⟨.data content, ⟨addr, number⟩⟩

/-- The dirty count of a block is the number of its pages that hold data of no logical page.  The
journals that are written have counted the pages that are programmed, and the others all pages. -/
structure DataCountsExact (l : Layout) (ram : FtlRam) (store : UbiStore D) : Prop where
  journals : ∀ role, ∀ j < l.journalBlockCount,
    ram.blockDirtyTable (journalPlace l ram role j).1 +
      live l.ftlCapacity (homeOf l ram store) (journalPlace l ram role j).1 =
        (journalPlace l ram role j).2
  others : ∀ block, IsDataBlock l block → ¬ IsJournal l ram block →
    ram.blockDirtyTable block + live l.ftlCapacity (homeOf l ram store) block = l.width

/-- The logical pages are on the pages that the mapping has for them, and pages, directories and
the spare areas in memory name the same owners. -/
structure OwnersNamed (l : Layout) (ram : FtlRam) (store : UbiStore D) (pages : Nat → Option D) :
    Prop where
  mapped : ∀ addr < l.ftlCapacity, ∀ content, pages addr = some content →
    IsDataBlock l (homeOf l ram store addr).1 ∧ (homeOf l ram store addr).2 < l.width ∧
      Holds store (homeOf l ram store addr) addr content
  unmapped : ∀ addr < l.ftlCapacity, pages addr = none ↔ homeOf l ram store addr = nowhere
  apart : ∀ addr < l.ftlCapacity, ∀ other < l.ftlCapacity, homeOf l ram store addr ≠ nowhere →
    homeOf l ram store addr = homeOf l ram store other → addr = other
  directory : ∀ block, IsDataBlock l block → ∀ content, store.pages block l.width = some content →
    ∃ table, content.main = .spares table ∧
      ∀ page < l.width, ∃ value, Holds store (block, page) (table page).first value
  rows : ∀ hot, ∀ j < l.journalBlockCount, (journalPlace l ram (.write hot) j).2 < l.width →
    ∀ page < (journalPlace l ram (.write hot) j).2, ∃ value,
      Holds store ((journalPlace l ram (.write hot) j).1, page)
        (journalMeta hot ram j page).first value

/-- All journals have blocks of their own.  The pages in front of their next pages are programmed,
and the pages from there on are erased.  No page of a reclaim journal is in use, and for hot and
for cold data there is a journal with a page left. -/
structure JournalsReady (l : Layout) (ram : FtlRam) (store : UbiStore D) : Prop where
  inArea : ∀ role, ∀ j < l.journalBlockCount, IsDataBlock l (journalPlace l ram role j).1
  apart : ∀ role, ∀ j < l.journalBlockCount, ∀ role', ∀ j' < l.journalBlockCount,
    (journalPlace l ram role j).1 = (journalPlace l ram role' j').1 → role = role' ∧ j = j'
  programmed : ∀ role, ∀ j < l.journalBlockCount, ∀ page < l.pagePerPhyBlock,
    (∃ content, store.pages (journalPlace l ram role j).1 page = some content) ↔
      page < (journalPlace l ram role j).2 ∨ (journalPlace l ram role j).2 = l.width
  spares : ∀ j < l.journalBlockCount, (journalPlace l ram .reclaim j).2 = 0
  room : ∀ hot, ∃ j < l.journalBlockCount, (journalPlace l ram (.write hot) j).2 < l.width

/-! ## What is ready for a call -/

section Ready

variable {strict : Prop} {log : PageLog D} {block : Role → Nat → Nat} {maps : PageMap}
  {ram : FtlRam} {store : UbiStore D} {addr b page : Nat} {role : Role} {j : Nat}

theorem NodesPowered.visible (powered : NodesPowered l strict maps ram store) (fit : l.NodesFit)
    {cluster : Nat} (isCluster : cluster < pmtClusterCount l) :
    visibleNode l ram store cluster = some (maps.current cluster) := by
  obtain ⟨_, _, _, _, _, atRest⟩ := powered
  exact atRest.kept.visible fit isCluster

namespace FtlReady

theorem homeOf (ready : FtlReady l strict log block maps ram store) (fit : l.DataFits)
    (isAddr : addr < l.ftlCapacity) : homeOf l ram store addr = log.home addr := by
  have isCluster := clusterIndex_lt fit.toNodesFit isAddr
  rw [Ftl.homeOf, ready.kept.powered.visible fit.toNodesFit isCluster]
  exact ready.kept.data.homes addr isAddr

theorem live (ready : FtlReady l strict log block maps ram store) (fit : l.DataFits) :
    live l.ftlCapacity (Ftl.homeOf l ram store) b = live l.ftlCapacity log.home b := by
  unfold Program.live
  congr 1
  refine Finset.filter_congr fun addr member => ?_
  rw [ready.homeOf fit (Finset.mem_range.mp member)]

theorem journalPlace (ready : FtlReady l strict log block maps ram store) (fit : l.DataFits)
    (isJournal : j < l.journalBlockCount) :
    journalPlace l ram role j = (block role j, log.fill (block role j)) :=
  Prod.ext (ready.kept.data.block_word fit isJournal) (ready.kept.data.page_word fit isJournal)

/-- The pages of the log are on the device. -/
theorem holds (ready : FtlReady l strict log block maps ram store) (isData : IsDataBlock l b)
    {value : D} (here : log.pages b page = some (addr, value)) : Holds store (b, page) addr value :=
  (ready.kept.data.onDevice b isData).stored page (addr, value) here

theorem countsExact (ready : FtlReady l strict log block maps ram store) (fit : l.DataFits) :
    DataCountsExact l ram store := by
  constructor
  · intro role j isJournal
    rw [ready.journalPlace fit isJournal, ready.live fit]
    exact ready.kept.data.counted role j isJournal
  · intro b isData notJournal
    rw [ready.live fit]
    refine (ready.kept.data.closed b isData fun role j isJournal same => ?_).1
    refine notJournal ⟨role, j, isJournal, ?_⟩
    rw [ready.journalPlace fit isJournal]
    exact same

theorem ownersNamed (ready : FtlReady l strict log block maps ram store) (fit : l.DataFits) :
    OwnersNamed l ram store log.contents := by
  have data := ready.kept.data
  constructor
  · intro addr isAddr content isContent
    rw [ready.homeOf fit isAddr]
    rcases data.sound.home addr with lost | ⟨value, here⟩
    · rw [data.sound.contents_eq_none.mpr lost] at isContent
      exact absurd isContent.symm (Option.some_ne_none content)
    · have same : log.contents addr = some value := by
        rw [PageLog.contents, here]
        rfl
      obtain rfl : value = content := Option.some.inj (same.symm.trans isContent)
      have mapped : log.home addr ≠ nowhere := fun lost => by
        rw [data.sound.contents_eq_none.mpr lost] at isContent
        exact Option.some_ne_none value isContent.symm
      have less := (data.sound.programmed _ _).mp ⟨_, here⟩
      exact ⟨data.home_isData mapped, Nat.lt_of_lt_of_le less (data.full_le _),
        ready.holds (data.home_isData mapped) here⟩
  · intro addr isAddr
    rw [ready.homeOf fit isAddr]
    exact data.sound.contents_eq_none
  · intro addr isAddr other isOther mapped same
    rw [ready.homeOf fit isAddr] at mapped same
    rw [ready.homeOf fit isOther] at same
    exact data.sound.home_inj mapped same
  · intro b isData content programmed
    have onDevice := data.onDevice b isData
    have full : log.fill b = l.width := by
      refine Nat.le_antisymm (data.full_le b) (Nat.not_lt.mp fun notFull => ?_)
      rw [onDevice.noDirectory notFull] at programmed
      exact Option.some_ne_none content programmed.symm
    obtain ⟨table, spare, isTable, names⟩ := onDevice.directory full
    obtain rfl := Option.some.inj (isTable.symm.trans programmed)
    refine ⟨table, rfl, fun page isPage => ?_⟩
    obtain ⟨value, here⟩ := names page isPage
    exact ⟨value, ready.holds isData here⟩
  · intro hot j isJournal notFull page isPage
    rw [ready.journalPlace fit isJournal] at notFull isPage ⊢
    obtain ⟨value, here⟩ := data.rows hot j isJournal notFull page isPage
    exact ⟨value, ready.holds (data.inArea _ j isJournal) here⟩

theorem journalsReady (ready : FtlReady l strict log block maps ram store) (fit : l.DataFits) :
    JournalsReady l ram store := by
  have data := ready.kept.data
  constructor
  · intro role j isJournal
    rw [ready.journalPlace fit isJournal]
    exact data.inArea role j isJournal
  · intro role j isJournal role' j' isJournal' same
    rw [ready.journalPlace fit isJournal, ready.journalPlace fit isJournal'] at same
    exact data.apart role j role' j' isJournal isJournal' same
  · intro role j isJournal page isPage
    rw [ready.journalPlace fit isJournal]
    dsimp only
    have onDevice := data.onDevice _ (data.inArea role j isJournal)
    have bound := data.full_le (block role j)
    constructor
    · rintro ⟨content, programmed⟩
      by_contra neither
      obtain ⟨behind, notFull⟩ := not_or.mp neither
      rcases Nat.lt_or_ge page l.width with inside | last
      · rw [onDevice.blank page inside (Nat.not_lt.mp behind)] at programmed
        exact Option.some_ne_none content programmed.symm
      · obtain rfl : page = l.width := Nat.le_antisymm (Nat.le_sub_one_of_lt isPage) last
        rw [onDevice.noDirectory (Nat.lt_of_le_of_ne bound notFull)] at programmed
        exact Option.some_ne_none content programmed.symm
    · intro early
      by_cases inside : page < log.fill (block role j)
      · obtain ⟨entry, here⟩ := (data.sound.programmed _ _).mpr inside
        obtain ⟨number, programmed⟩ := onDevice.stored page entry here
        exact ⟨_, programmed⟩
      · have full := early.resolve_left inside
        obtain rfl : page = l.width :=
          Nat.le_antisymm (Nat.le_sub_one_of_lt isPage) (full ▸ Nat.not_lt.mp inside)
        obtain ⟨table, spare, programmed, _⟩ := onDevice.directory full
        exact ⟨_, programmed⟩
  · intro j isJournal
    rw [ready.journalPlace fit isJournal]
    exact ready.spares j isJournal
  · intro hot
    obtain ⟨j, isJournal, notFull⟩ := ready.room hot
    refine ⟨j, isJournal, ?_⟩
    rw [ready.journalPlace fit isJournal]
    exact notFull

end FtlReady

end Ready

/-! ## Between two calls -/

section Runs

variable {ram : FtlRam} {store : UbiStore D} {fuel : Nat} {zero : D} {pages : Nat → Option D}

/-- In such runs the dirty counts are exact: a block is worth reclaiming for what it has lost. -/
theorem ftlRun_countsExact (fit : l.DataFits) (three : ThreeTables l)
    (run : FtlRun l (freeReclaim l fuel) fuel zero ram store pages) :
    FtlRun l (pmtReclaimBlocks l fuel) fuel zero ram store pages ∧ DataCountsExact l ram store := by
  obtain ⟨log, block, maps, ready, _⟩ := run.ready fit three
  exact ⟨run.agrees agrees_reclaimWhere, ready.countsExact fit⟩

/-- In such runs each page with data of a logical page is the only one that the mapping has for
it, and the page names the logical page. -/
theorem ftlRun_ownersNamed (fit : l.DataFits) (three : ThreeTables l)
    (run : FtlRun l (freeReclaim l fuel) fuel zero ram store pages) :
    FtlRun l (pmtReclaimBlocks l fuel) fuel zero ram store pages ∧
      OwnersNamed l ram store pages := by
  obtain ⟨log, block, maps, ready, rfl⟩ := run.ready fit three
  exact ⟨run.agrees agrees_reclaimWhere, ready.ownersNamed fit⟩

/-- In such runs the next page of each journal is erased, and there is one for each kind of data. -/
theorem ftlRun_journalsReady (fit : l.DataFits) (three : ThreeTables l)
    (run : FtlRun l (freeReclaim l fuel) fuel zero ram store pages) :
    FtlRun l (pmtReclaimBlocks l fuel) fuel zero ram store pages ∧ JournalsReady l ram store := by
  obtain ⟨log, block, maps, ready, _⟩ := run.ready fit three
  exact ⟨run.agrees agrees_reclaimWhere, ready.journalsReady fit⟩

end Runs

/-- The counts are exact when the journal has been filled three times. -/
theorem ftlRun_countsExact_smallBlocks :
    ∃ (ram : FtlRam) (store : UbiStore Nat),
      FtlRun smallBlocks (pmtReclaimBlocks smallBlocks 4) 4 0 ram store journalPages ∧
        DataCountsExact smallBlocks ram store := by
  obtain ⟨ram, store, _, _, _, run, _⟩ := ftlRun_smallBlocks
  exact ⟨ram, store, ftlRun_countsExact dataFits_smallBlocks threeTables_smallBlocks run⟩

theorem ftlRun_ownersNamed_smallBlocks :
    ∃ (ram : FtlRam) (store : UbiStore Nat),
      FtlRun smallBlocks (pmtReclaimBlocks smallBlocks 4) 4 0 ram store journalPages ∧
        OwnersNamed smallBlocks ram store journalPages := by
  obtain ⟨ram, store, _, _, _, run, _⟩ := ftlRun_smallBlocks
  exact ⟨ram, store, ftlRun_ownersNamed dataFits_smallBlocks threeTables_smallBlocks run⟩

theorem ftlRun_journalsReady_smallBlocks :
    ∃ (ram : FtlRam) (store : UbiStore Nat),
      FtlRun smallBlocks (pmtReclaimBlocks smallBlocks 4) 4 0 ram store journalPages ∧
        JournalsReady smallBlocks ram store := by
  obtain ⟨ram, store, _, _, _, run, _⟩ := ftlRun_smallBlocks
  exact ⟨ram, store, ftlRun_journalsReady dataFits_smallBlocks threeTables_smallBlocks run⟩

end OpenNfm.Ftl
