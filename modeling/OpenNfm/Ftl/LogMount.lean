import OpenNfm.Ftl.LogRecovery

/-!
# Mounts and formats

A mount loads the newest root and the tables that it names, and writes a root and two
times the dirty counts.  The tables of the newest root stay the same.
-/

namespace OpenNfm.Ftl

open OpenNfm.Program

variable {l : Layout} {D : Type} {crash : UbiStore D → Prop} {halts : Prop} {ram : FtlRam}
  {store : UbiStore D} {tables : LogTables} {start block next hdiLast bdtLast : Nat} {root : Root}

/-- What `ROOT_Init` has found, and the rest of a mount keeps. -/
structure RootFound where
  block : Nat
  page : Nat
  edition : Nat
  journals : (Nat → Nat) × (Nat → Nat) × (Nat → Nat)
  nodes : Nat → Nat
  pmtCurrent : Nat
  pmtReclaim : Nat
  hdiWord : Nat
  metaData : Nat → Nat

/-- The variables that the search for the root table sets. -/
def FtlRam.rootFound (ram : FtlRam) : RootFound where
  block := ram.rootCurrentBlock
  page := ram.rootCurrentPage
  edition := ram.rootEdition
  journals := (ram.rootTable.hotJournal, ram.rootTable.coldJournal, ram.rootTable.reclaimJournal)
  nodes := ram.rootTable.pageMappingNodes
  pmtCurrent := ram.rootTable.pmtCurrentBlock
  pmtReclaim := ram.rootTable.pmtReclaimBlock
  hdiWord := ram.rootTable.hdiCurrentJournal
  metaData := ram.metaData

/-- The dirty counts of a table are in memory, as far as its pages reach. -/
def CountsLoaded (l : Layout) (counts : Nat → Nat) (ram : FtlRam) : Prop :=
  ∀ block < l.bdtPageCount * l.g.mppSize, ram.blockDirtyTable block = counts block

/-! ## The steps of a mount -/

theorem spec_bdtRead {first rounds i : Nat} {counts : Nat → Nat}
    {post : Unit → FtlRam → UbiStore D → Prop} (isBlock : ram.bdtCurrentBlock < l.capacity)
    (onPage : ram.bdtCurrentPage = first) (inBlock : first + l.bdtPageCount ≤ l.pagePerPhyBlock)
    (entry : ∀ i < l.bdtPageCount,
      store.pages ram.bdtCurrentBlock (first + i) = some (bdtContent l counts i))
    (total : i + rounds = l.bdtPageCount) (here : crash store)
    (before : ∀ k < i * l.g.mppSize, ram.blockDirtyTable k = counts k)
    (meets : ∀ loaded, CountsLoaded l counts { ram with blockDirtyTable := loaded } →
      post () { ram with blockDirtyTable := loaded } store) :
    Code.spec (storeMachine l.g l.capacity) crash halts (bdtRead l rounds i) post ram store := by
  induction rounds generalizing i ram with
  | zero =>
      obtain rfl : i = l.bdtPageCount := total
      exact Code.spec_pure.mpr ⟨here, meets ram.blockDirtyTable before⟩
  | succ rounds ih =>
      have isPage : first + i < l.g.pagePerPhyBlock := by
        rw [Layout.pagePerPhyBlock] at inBlock
        omega
      simp only [bdtRead, Code.spec_bind, Code.spec_get, onPage]
      refine ⟨here, ?_⟩
      rw [spec_ubiRead_some isBlock isPage (entry i (by omega))]
      simp only [bdtContent, loadDirtyCounts, Code.spec_pure, Code.spec_modify, Code.spec_assert]
      refine ⟨here, here, here, here, fun _ => ih isBlock onPage entry (by omega) ?_ meets,
        fun unmet => absurd trivial unmet⟩
      intro k inside
      dsimp only
      split
      · rename_i here
        rw [bdtPage, Nat.add_sub_cancel' here.1]
      · rename_i outside
        exact before k (by omega)

/-- `BDT_Init` loads the named counts, and writes them behind the last entry. -/
theorem spec_bdtInit {post : Status → FtlRam → UbiStore D → Prop} (fits : l.Fits)
    (three : ThreeTables l) (image : Image l store tables start block next root hdiLast bdtLast)
    (word : ram.rootTable.bdtCurrentJournal = root.bdtCurrentJournal)
    (safe : ∀ after bdtLast, Image l after tables start block next root hdiLast bdtLast →
      crash after)
    (meets : ∀ ram' after bdtLast, Image l after tables start block next root hdiLast bdtLast →
      Cursor after.pages l.pagePerPhyBlock l.bdtPageCount
        (PmNode.block l.g root.bdtCurrentJournal) bdtLast 1 ram'.bdtCurrentBlock
        ram'.bdtCurrentPage →
      ram'.rootFound = ram.rootFound → CountsLoaded l tables.counts ram' →
      WithinBlocks InTables store after → post .success ram' after) :
    Code.spec (storeMachine l.g l.capacity) crash halts (bdtInit l) post ram store := by
  have here : crash store := safe _ _ image
  have named := image.names.bdt
  have isBlock := InPair.isBlock named.inPair (by omega) fits
  have inBlock : PmNode.page l.g root.bdtCurrentJournal + l.bdtPageCount ≤ l.pagePerPhyBlock :=
    Nat.le_trans (step_le named.chain.first_dvd named.chain.last_dvd named.chain.lt)
      named.chain.le
  simp only [bdtInit, Code.spec_bind, Code.spec_modify, word]
  have start : ∀ k < 0 * l.g.mppSize, ram.blockDirtyTable k = tables.counts k := fun k wrong =>
    absurd wrong (by omega)
  refine ⟨here, spec_bdtRead isBlock rfl inBlock named.entry (Nat.zero_add _) here start
    fun counts loaded => ?_⟩
  rw [Code.spec_get]
  refine ⟨here, spec_firstErased named.chain isBlock three.pos
    (Nat.dvd_add named.chain.first_dvd (Nat.dvd_refl _)) (Nat.le_add_right _ _)
    (step_le named.chain.first_dvd named.chain.last_dvd named.chain.lt) ?_ here ?_⟩
  · have := named.chain.le
    dsimp only [setBdtCursor]
    omega
  · rw [if_pos named.chain.le]
    have cursor : Cursor store.pages l.pagePerPhyBlock l.bdtPageCount
        (PmNode.block l.g root.bdtCurrentJournal) bdtLast 0
        (PmNode.block l.g root.bdtCurrentJournal) bdtLast := .here
    have room := three.one
    have space := cursor.hasRoom named room three.pos
    simp only [Code.spec_bind, Code.spec_modify]
    refine ⟨here, spec_bdtCommit fits three.whole space here ?_ ?_⟩
    · intro n le after wrote
      obtain ⟨_, image', _⟩ := image.wroteBdt cursor three.whole three.pos room wrote le
      exact safe _ _ image'
    · intro after wrote
      obtain ⟨_, image', moved⟩ :=
        image.wroteBdt cursor three.whole three.pos room wrote (Nat.le_refl _)
      exact Code.spec_pure.mpr ⟨safe _ _ image', meets _ _ _ image' (moved rfl) rfl loaded
        (wrote.within.inTables (by omega))⟩

/-- `HDI_Init` loads the named table, and writes the dirty counts once more. -/
theorem spec_hdiInit {post : Status → FtlRam → UbiStore D → Prop} (fits : l.Fits)
    (three : ThreeTables l) (image : Image l store tables start block next root hdiLast bdtLast)
    (cursor : Cursor store.pages l.pagePerPhyBlock l.bdtPageCount
      (PmNode.block l.g root.bdtCurrentJournal) bdtLast 1 ram.bdtCurrentBlock ram.bdtCurrentPage)
    (word : ram.rootTable.hdiCurrentJournal = root.hdiCurrentJournal)
    (safe : ∀ after bdtLast, Image l after tables start block next root hdiLast bdtLast →
      crash after)
    (meets : ∀ ram' after bdtLast, Image l after tables start block next root hdiLast bdtLast →
      Cursor after.pages l.pagePerPhyBlock l.bdtPageCount
        (PmNode.block l.g root.bdtCurrentJournal) bdtLast 2 ram'.bdtCurrentBlock
        ram'.bdtCurrentPage →
      ram'.hdiCurrentBlock = PmNode.block l.g root.hdiCurrentJournal →
      ram'.hdiCurrentPage = hdiLast → ram'.rootFound = ram.rootFound →
      ram'.blockDirtyTable = ram.blockDirtyTable ∧ ram'.pmCacheCluster = ram.pmCacheCluster →
      WithinBlocks InTables store after → post .success ram' after) :
    Code.spec (storeMachine l.g l.capacity) crash halts (hdiInit l) post ram store := by
  have here : crash store := safe _ _ image
  have named := image.names.hdi
  have isBlock := InPair.isBlock named.inPair (by omega) fits
  have isPage : PmNode.page l.g root.hdiCurrentJournal < l.g.pagePerPhyBlock :=
    Nat.mod_lt _ l.g.pagePerPhyBlock_pos
  have programmed := named.entry 0 Nat.one_pos
  rw [Nat.add_zero] at programmed
  simp only [hdiInit, Code.spec_bind, Code.spec_modify, Code.spec_get, word]
  refine ⟨here, here, ?_⟩
  rw [setHdiCursor, spec_ubiRead_some isBlock isPage programmed]
  simp only [hdiContent, loadHotHash, Code.spec_pure, Code.spec_assert]
  refine ⟨here, here, here, here, fun _ => ?_, fun unmet => absurd trivial unmet⟩
  refine spec_firstErased named.chain isBlock Nat.one_pos (one_dvd _) (Nat.le_add_right _ _)
    (Nat.succ_le_of_lt named.chain.lt) ?_ here ?_
  · have := named.chain.le
    omega
  · have space := cursor.hasRoom image.names.bdt three.two three.pos
    refine ⟨here, spec_bdtCommit fits three.whole space here ?_ ?_⟩
    · intro n le after wrote
      obtain ⟨_, image', _⟩ := image.wroteBdt cursor three.whole three.pos three.two wrote le
      exact safe _ _ image'
    · intro after wrote
      obtain ⟨_, image', moved⟩ :=
        image.wroteBdt cursor three.whole three.pos three.two wrote (Nat.le_refl _)
      exact ⟨safe _ _ image', meets _ _ _ image' (moved rfl) rfl rfl rfl ⟨rfl, rfl⟩
        (wrote.within.inTables (by omega))⟩

/-- A mount has loaded the newest root and its dirty counts, and written them again. -/
structure TablesLoaded (l : Layout) (lost : FtlRam) (before : UbiStore D) (tables : LogTables)
    (root : Root) (ram : FtlRam) (store : UbiStore D) : Prop where
  found : before.lastRoot = some root
  last : ∃ word edition, store.lastRoot = some
    { root with rootCurrentJournal := word, rootEdition := edition }
  journals : ram.rootTable.hotJournal = root.hotJournal ∧
    ram.rootTable.coldJournal = root.coldJournal ∧ ram.rootTable.reclaimJournal =
      root.reclaimJournal
  nodes : ram.rootTable.pageMappingNodes = root.pageMappingNodes
  current : ram.rootTable.pmtCurrentBlock = root.pmtCurrentBlock
  reclaim : ram.rootTable.pmtReclaimBlock = root.pmtReclaimBlock
  metaData : ram.metaData = lost.metaData
  counts : CountsLoaded l tables.counts ram
  empty : ∀ k < pmtCacheCount l, ram.pmCacheCluster k = invalidCluster
  within : WithinBlocks InTables before store

/-- A mount loads the newest root. -/
theorem spec_ftlInitTables_mounted {lost : FtlRam} {post : Status → FtlRam → UbiStore D → Prop}
    (fits : l.Fits) (three : ThreeTables l) (left : LogsLeft l store tables)
    (ordered : RootsOrdered l store) (safe : ∀ after, LogsLeft l after tables → crash after)
    (meets : ∀ root ram' after, LogsPowered l ram' after tables →
      TablesLoaded l lost store tables root ram' after → post .success ram' after) :
    Code.spec (storeMachine l.g l.capacity) crash halts (ftlInitTables l) post lost store := by
  obtain ⟨start, block, next, root, hdiLast, bdtLast, image⟩ := left
  have atRoot : AtRoot (foundRoot lost start block next root) start block next := ⟨rfl, rfl, rfl⟩
  obtain ⟨start', block', next', image', atRoot'⟩ := image.withRoot atRoot image.names image.maps
  have safeEnd := safe _ ⟨_, _, _, _, _, _, image'⟩
  have rootWithin := (wrote_withRoot l store
    (image.log.space atRoot).inPair).within.inTables (by omega)
  simp only [ftlInitTables, Code.spec_bind]
  refine spec_rootInit image.log fits ordered (safe _ ⟨_, _, _, _, _, _, image⟩)
    (safe _ ⟨_, _, _, _, _, _, image.turned⟩) safeEnd ?_
  rw [onSuccess_success]
  refine spec_bdtInit fits three image' rfl (fun _ _ image => safe _ ⟨_, _, _, _, _, _, image⟩) ?_
  intro ram' after bdtLast' image' cursor same loaded within
  have here := safe _ ⟨_, _, _, _, _, _, image'⟩
  simp only [onSuccess_success, pmtInit, Code.spec_bind, Code.spec_modify, Code.spec_pure]
  refine ⟨here, here, ?_⟩
  refine spec_hdiInit fits three image' cursor (congrArg RootFound.hdiWord same)
    (fun _ _ image => safe _ ⟨_, _, _, _, _, _, image⟩) ?_
  intro final last bdtLast'' image'' cursor' hdiBlock hdiPage same' kept within'
  have found : final.rootFound = (pastRoot l (foundRoot lost start block next root)).rootFound :=
    same'.trans same
  have current : final.rootTable.pmtCurrentBlock = root.pmtCurrentBlock :=
    congrArg RootFound.pmtCurrent found
  have reclaim : final.rootTable.pmtReclaimBlock = root.pmtReclaimBlock :=
    congrArg RootFound.pmtReclaim found
  have journals : (final.rootTable.hotJournal, final.rootTable.coldJournal,
      final.rootTable.reclaimJournal) =
      (root.hotJournal, root.coldJournal, root.reclaimJournal) :=
    congrArg RootFound.journals found
  refine meets root final last ⟨_, _, _, _, _, _, image'', ?_⟩ ?_
  · exact
      { atRoot :=
          { block := (congrArg RootFound.block found).trans atRoot'.block
            page := (congrArg RootFound.page found).trans atRoot'.page
            edition := (congrArg RootFound.edition found).trans atRoot'.edition }
        hdiBlock := hdiBlock
        hdiPage := hdiPage
        bdt := cursor'
        maps := ⟨current ▸ image.maps.current, reclaim ▸ image.maps.reclaim⟩ }
  · exact
      { found := image.log.last
        last := ⟨_, _, image''.log.last⟩
        journals := ⟨congrArg Prod.fst journals, congrArg (fun words => words.2.1) journals,
          congrArg (fun words => words.2.2) journals⟩
        nodes := congrArg RootFound.nodes found
        current := current
        reclaim := reclaim
        metaData := congrArg RootFound.metaData found
        counts := fun block isBlock => (congrFun kept.1 block).trans (loaded block isBlock)
        empty := fun k isSlot => (congrFun kept.2 k).trans (if_pos isSlot)
        within := (rootWithin.trans within).trans within' }

theorem spec_ftlInitTables {lost : FtlRam} {post : Status → FtlRam → UbiStore D → Prop}
    (fits : l.Fits) (three : ThreeTables l) (left : LogsLeft l store tables)
    (ordered : RootsOrdered l store) (safe : ∀ after, LogsLeft l after tables → crash after)
    (meets : ∀ ram' after, LogsPowered l ram' after tables → post .success ram' after) :
    Code.spec (storeMachine l.g l.capacity) crash halts (ftlInitTables l) post lost store :=
  spec_ftlInitTables_mounted fits three left ordered safe fun _ ram' after powered _ =>
    meets ram' after powered

end OpenNfm.Ftl
