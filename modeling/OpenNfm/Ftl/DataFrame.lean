import OpenNfm.Ftl.DataCalls
import OpenNfm.Ftl.JournalReplay

/-!
# What the page mapping leaves to the data pages

Updates, searches and commits of the page mapping work on the tables: they leave the pages and
the dirty counts of the data blocks, the journals and the spare areas in memory alone.  The
one exception is the page that an update takes from a logical page, which is counted as dirty.
-/

namespace OpenNfm.Ftl

open OpenNfm.Program

variable {l : Layout} {D : Type}

/-! ## The dirty counts of the data blocks -/

/-- The data blocks have the given dirty counts.  The counts that the commit changes are those
of the tables: the nodes in the slots were loaded from there, and the reclaim block is one. -/
structure CountsWithin (l : Layout) (counts : Nat → Nat) (ram : FtlRam) : Prop where
  counts : ∀ block, ¬ InMeta l block → ram.blockDirtyTable block = counts block
  origins : ∀ i, Registered l ram i → InMeta l (PmNode.block l.g (ram.pmCacheOriginLocation i))
  reclaim : InMeta l (PmNode.block l.g ram.rootTable.pmtReclaimBlock)

/-- Code that counts stale pages in the blocks of the mapping only. -/
abbrev KeepsCounts (l : Layout) (counts : Nat → Nat) {α : Type} (code : FtlCode D α) : Prop :=
  Code.Keeps (storeMachine l.g l.capacity) (fun ram _ => CountsWithin l counts ram) code

section Counts

variable {counts : Nat → Nat} {ram : FtlRam} {block : Nat}

theorem keepsCounts_perform (op : UbiOp D) :
    KeepsCounts l counts (Code.perform op : FtlCode D (UbiAns D op)) :=
  .perform fun _ _ _ _ kept _ => kept

/-- Variables that the counts do not depend on. -/
theorem CountsWithin.congr {ram' : FtlRam} (kept : CountsWithin l counts ram)
    (sameCounts : ram'.blockDirtyTable = ram.blockDirtyTable)
    (sameOrigins : ram'.pmCacheOriginLocation = ram.pmCacheOriginLocation)
    (sameClusters : ram'.pmCacheCluster = ram.pmCacheCluster)
    (sameReclaim : ram'.rootTable.pmtReclaimBlock = ram.rootTable.pmtReclaimBlock) :
    CountsWithin l counts ram' where
  counts block outside := sameCounts ▸ kept.counts block outside
  origins i registered := by
    rw [sameOrigins]
    exact kept.origins i ⟨registered.1, sameClusters ▸ registered.2⟩
  reclaim := sameReclaim ▸ kept.reclaim

theorem CountsWithin.withCount {count : Nat} (kept : CountsWithin l counts ram)
    (inMeta : InMeta l block) : CountsWithin l counts (setDirtyCount block count ram) where
  counts other outside := by
    have different : other ≠ block := fun same => outside (same ▸ inMeta)
    rw [← kept.counts other outside]
    exact Function.update_of_ne different _ _
  origins := kept.origins
  reclaim := kept.reclaim

theorem keepsCounts_modify {change : FtlRam → FtlRam}
    (counts' : ∀ ram, (change ram).blockDirtyTable = ram.blockDirtyTable)
    (origins : ∀ ram, (change ram).pmCacheOriginLocation = ram.pmCacheOriginLocation)
    (clusters : ∀ ram, (change ram).pmCacheCluster = ram.pmCacheCluster)
    (reclaim : ∀ ram, (change ram).rootTable.pmtReclaimBlock = ram.rootTable.pmtReclaimBlock) :
    KeepsCounts (D := D) l counts (modify change) :=
  .modifies fun ram _ kept => kept.congr (counts' ram) (origins ram) (clusters ram) (reclaim ram)

theorem keepsCounts_rootNode (cluster : Nat) :
    KeepsCounts (D := D) l counts (rootNode l cluster) := by
  unfold rootNode
  apply Code.Keeps.bind Code.Keeps.get
  intro ram
  split
  · exact .pure _
  · exact .halt _

theorem keepsCounts_loadClusters (main : FtlPage D) : KeepsCounts l counts (loadClusters main) := by
  unfold loadClusters
  split
  · exact .pure _
  · exact .pure _
  · exact .halt _

/-! ### Reclaim -/

theorem keepsCounts_pmtValidNode (cluster : Nat) :
    KeepsCounts (D := D) l counts (pmtValidNode l cluster) := by
  unfold pmtValidNode
  apply Code.Keeps.bind (keepsCounts_rootNode cluster)
  intro node
  split
  · split
    · exact .pure _
    · apply Code.Keeps.bind Code.Keeps.get
      intro ram
      split
      · exact .pure _
      · exact .halt _
  · exact .pure _

/-- An empty slot has no origin that counts. -/
theorem CountsWithin.clearSlot (kept : CountsWithin l counts ram) (i : Nat) :
    CountsWithin l counts (clearSlot i ram) where
  counts := kept.counts
  origins k registered := by
    have different : k ≠ i := by
      rintro rfl
      exact registered.2 (Function.update_self _ _ _)
    have registered' : Registered l ram k := by
      refine ⟨registered.1, ?_⟩
      rw [← Function.update_of_ne different invalidCluster ram.pmCacheCluster]
      exact registered.2
    simp only [Ftl.clearSlot, Function.update_of_ne different]
    exact kept.origins k registered'
  reclaim := kept.reclaim

theorem keepsCounts_pmtCopyPage {cluster dirtyBlock page reclaimBlock reclaimPage : Nat}
    {cleared : Option Nat} :
    KeepsCounts (D := D) l counts (pmtCopyPage l cluster dirtyBlock page reclaimBlock reclaimPage
      cleared) := by
  refine .bind (keepsCounts_perform _) fun answer => keeps_onSuccess ?_
  refine .bind (keepsCounts_perform _) fun ret => keeps_onSuccess ?_
  refine .bind (.modifies fun ram _ kept => ?_) fun _ => .pure _
  cases cleared with
  | none => exact kept.congr rfl rfl rfl rfl
  | some i =>
      have moved : CountsWithin l counts (moveNode cluster
          (PmNode.setBlockPage l.g reclaimBlock reclaimPage) reclaimPage none ram) :=
        kept.congr rfl rfl rfl rfl
      exact moved.clearSlot i

theorem keepsCounts_pmtCopyPages {clusters : Nat → Nat}
    {dirtyBlock reclaimBlock rounds page reclaimPage : Nat} {ret : Status} :
    KeepsCounts (D := D) l counts (pmtCopyPages l clusters dirtyBlock reclaimBlock rounds page
      reclaimPage ret) := by
  induction rounds generalizing page reclaimPage ret with
  | zero => exact .pure _
  | succ rounds ih =>
      apply Code.Keeps.bind (keepsCounts_pmtValidNode _)
      rintro ⟨node, cleared⟩
      dsimp only
      split
      · exact .bind keepsCounts_pmtCopyPage fun ret => ih
      · exact ih

theorem keepsCounts_pmtCopyBlock (dirtyBlock reclaimBlock : Nat) :
    KeepsCounts (D := D) l counts (pmtCopyBlock l dirtyBlock reclaimBlock) := by
  apply Code.Keeps.bind (keepsCounts_perform _)
  intro answer
  split
  · exact .bind (keepsCounts_loadClusters _) fun clusters => keepsCounts_pmtCopyPages
  · exact .pure _

theorem keepsCounts_pmtReclaimBlock {i : Nat} (fit : l.NodesFit) (last : i < l.dataStartBlock) :
    KeepsCounts (D := D) l counts (pmtReclaimBlock l i) := by
  have isBlock : i < l.capacity + 2 := by
    have := fit.inCapacity
    omega
  have word : PmNode.block l.g (PmNode.setBlockPage l.g i 0) = i :=
    fit.block_word isBlock l.g.pagePerPhyBlock_pos
  intro ram store kept
  simp only [pmtReclaimBlock, Code.spec_bind, Code.spec_get]
  refine ⟨⟨ram, kept⟩, ?_⟩
  split
  · have reclaimInMeta := kept.reclaim
    generalize PmNode.block l.g ram.rootTable.pmtReclaimBlock = reclaimBlock at reclaimInMeta
    have switched : ∀ reclaimPage, KeepsCounts (D := D) l counts
        (pmtErase i (switchBlocks l i reclaimBlock reclaimPage)) := by
      intro reclaimPage
      refine .bind (keepsCounts_perform _) fun ret => keeps_onSuccess ?_
      refine .bind (.modifies fun ram' _ kept' => ?_) fun _ => .pure _
      have cleaned :
          CountsWithin l counts (setDirtyCount i 0 (setDirtyCount reclaimBlock 0 ram')) :=
        (kept'.withCount reclaimInMeta).withCount last
      exact ⟨cleaned.counts, cleaned.origins, (congrArg (InMeta l) word).mpr last⟩
    have copied : KeepsCounts (D := D) l counts (pmtCopyBlock l i reclaimBlock >>= fun found =>
        onSuccess found.2 (pmtErase i (switchBlocks l i reclaimBlock found.1))) :=
      .bind (keepsCounts_pmtCopyBlock _ _) fun found => keeps_onSuccess (switched found.1)
    exact copied ram store kept
  · have restarted : KeepsCounts (D := D) l counts (pmtErase i (restartBlock l i)) := by
      refine .bind (keepsCounts_perform _) fun ret => keeps_onSuccess ?_
      refine .bind (.modifies fun ram' _ kept' => ?_) fun _ => .pure _
      have cleaned : CountsWithin l counts (setDirtyCount i 0 ram') := kept'.withCount last
      exact ⟨cleaned.counts, cleaned.origins, cleaned.reclaim⟩
    exact restarted ram store kept

theorem keepsCounts_reclaimWhere {condition : Nat → FtlRam → Bool} {fuel : Nat} (fit : l.NodesFit) :
    KeepsCounts (D := D) l counts (reclaimWhere l condition fuel) := by
  intro ram store kept
  have begins : PmtWithin l (fun _ => True) ram store ram store :=
    ⟨rfl, .refl _ store, trivial, trivial⟩
  rw [reclaimWhere, Code.spec_bind]
  refine spec_pmtFindLoop begins (fun _ _ => ⟨ram, kept⟩) fun i after _ last _ => ?_
  have keeps : KeepsCounts l counts (do
      let ram ← get
      Code.assert (condition i ram = true)
      pmtReclaimBlock l i : FtlCode D Status) :=
    .bind .get fun _ => .bind (.assert _) fun _ => keepsCounts_pmtReclaimBlock fit last
  exact keeps ram after kept

/-! ### Commit -/

variable {reclaim : FtlCode D Status}

/-- One more dirty page in a block of the tables. -/
theorem keepsCounts_addDirty (inMeta : InMeta l block) :
    KeepsCounts (D := D) l counts (addDirty l block) :=
  .bind (.modifies fun _ _ kept => kept.withCount inMeta) fun _ => .bind .get fun _ => .assert _

theorem keepsCounts_pmtStoreNode {i : Nat} {store : UbiStore D} (kept : CountsWithin l counts ram)
    (registered : Registered l ram i) :
    Code.spec (storeMachine l.g l.capacity) (fun _ => ∃ ram', CountsWithin l counts ram') True
      (pmtStoreNode l i : FtlCode D Status) (fun _ ram' _ => CountsWithin l counts ram') ram
      store := by
  have origin := kept.origins i registered
  simp only [pmtStoreNode, Code.spec_bind, Code.spec_get]
  refine ⟨⟨ram, kept⟩, (keepsCounts_perform _).spec kept (fun ram' _ kept' => ⟨ram', kept'⟩) ?_⟩
  intro ret ram' after kept'
  refine (keeps_onSuccess (.bind (.modifies fun _ _ kept => kept.congr rfl rfl rfl rfl)
    fun _ => ?_)) ram' after kept'
  exact .bind (keepsCounts_addDirty origin) fun _ => .pure _

theorem keepsCounts_pmtNextBlock {ret : Status} (keeps : KeepsCounts l counts reclaim) :
    KeepsCounts l counts (pmtNextBlock l reclaim ret) := by
  apply Code.Keeps.bind Code.Keeps.get
  intro ram
  split
  · refine keeps_onSuccess (.bind .get fun _ => .bind (keepsCounts_perform _) fun ret => ?_)
    exact .bind (keeps_onSuccess (keepsCounts_perform _)) fun ret => keeps_onSuccess keeps
  · exact .pure _

theorem keepsCounts_pmtWriteSlot {i : Nat} {ret : Status} {store : UbiStore D}
    (kept : CountsWithin l counts ram) (registered : Registered l ram i) :
    Code.spec (storeMachine l.g l.capacity) (fun _ => ∃ ram', CountsWithin l counts ram') True
      (pmtWriteSlot l i ret : FtlCode D Status) (fun _ ram' _ => CountsWithin l counts ram') ram
      store := by
  simp only [pmtWriteSlot, Code.spec_bind, Code.spec_get]
  refine ⟨⟨ram, kept⟩, ?_⟩
  split
  · rw [Code.spec_bind, Code.spec_assert]
    refine ⟨⟨ram, kept⟩, fun _ => ?_, fun _ => trivial⟩
    unfold onSuccess
    split
    · exact keepsCounts_pmtStoreNode kept registered
    · exact Code.spec_pure.mpr ⟨⟨ram, kept⟩, kept⟩
  · exact Code.spec_pure.mpr ⟨⟨ram, kept⟩, kept⟩

theorem keepsCounts_pmtCommitSlots {rounds i : Nat} {ret : Status}
    (inCache : i + rounds ≤ pmtCacheCount l) (keeps : KeepsCounts l counts reclaim) :
    KeepsCounts l counts (pmtCommitSlots l reclaim rounds i ret) := by
  induction rounds generalizing i ret with
  | zero => exact .pure _
  | succ rounds ih =>
      have next : ∀ ret, KeepsCounts l counts (pmtCommitSlots l reclaim rounds (i + 1) ret) :=
        fun ret => ih (by omega)
      intro ram store kept
      simp only [pmtCommitSlots, Code.spec_bind, Code.spec_get]
      refine ⟨⟨ram, kept⟩, ?_⟩
      split
      · exact next ret ram store kept
      · rename_i used
        have registered : Registered l ram i := ⟨by omega, used⟩
        rw [Code.spec_bind, Code.spec_assert]
        refine ⟨⟨ram, kept⟩, fun _ => ?_, fun _ => trivial⟩
        split
        · refine (Code.Keeps.bind (.modifies fun _ _ kept => ?_) fun _ => next ret) ram store kept
          exact kept.congr rfl rfl rfl rfl
        · rw [Code.spec_bind]
          refine Code.spec_mono (keepsCounts_pmtWriteSlot kept registered) ?_ fun _ => id
          intro ret ram' after kept'
          exact (Code.Keeps.bind (keepsCounts_pmtNextBlock keeps) fun ret => next ret)
            ram' after kept'

theorem keepsCounts_pmtInit : KeepsCounts (D := D) l counts (pmtInit l) := by
  refine .bind (.modifies fun ram _ kept => ⟨kept.counts, fun i registered => ?_, kept.reclaim⟩)
    fun _ => .pure _
  have emptied := registered.2
  simp only [if_pos registered.1] at emptied
  exact absurd rfl emptied

theorem keepsCounts_turnLog {block page : Nat} {setCursor : Nat → Nat → FtlRam → FtlRam}
    (stable : ∀ block page, KeepsCounts (D := D) l counts (modify (setCursor block page))) :
    KeepsCounts (D := D) l counts (turnLog l block page setCursor) := by
  unfold turnLog
  split
  · exact .bind (keepsCounts_perform _) fun ret =>
      keeps_onSuccess (.bind (stable _ _) fun _ => .pure _)
  · exact .pure _

theorem keepsCounts_hdiCommit : KeepsCounts (D := D) l counts (hdiCommit l) := by
  refine .bind .get fun ram => .bind (keepsCounts_turnLog fun _ _ => ?_) fun ret =>
    keeps_onSuccess ?_
  · exact keepsCounts_modify (fun _ => rfl) (fun _ => rfl) (fun _ => rfl) fun _ => rfl
  · refine .bind .get fun ram => .bind (keepsCounts_perform _) fun ret => keeps_onSuccess ?_
    exact .bind (keepsCounts_modify (fun _ => rfl) (fun _ => rfl) (fun _ => rfl) fun _ => rfl)
      fun _ => .pure _

theorem keepsCounts_bdtWrite {rounds i : Nat} :
    KeepsCounts (D := D) l counts (bdtWrite l rounds i) := by
  induction rounds generalizing i with
  | zero => exact .pure _
  | succ rounds ih =>
      exact .bind .get fun ram => .bind (keepsCounts_perform _) fun ret => keeps_onSuccess ih

theorem keepsCounts_bdtCommit : KeepsCounts (D := D) l counts (bdtCommit l) := by
  refine .bind .get fun ram => .bind (keepsCounts_turnLog fun _ _ => ?_) fun ret =>
    keeps_onSuccess ?_
  · exact keepsCounts_modify (fun _ => rfl) (fun _ => rfl) (fun _ => rfl) fun _ => rfl
  · refine .bind keepsCounts_bdtWrite fun ret => keeps_onSuccess ?_
    exact .bind (keepsCounts_modify (fun _ => rfl) (fun _ => rfl) (fun _ => rfl) fun _ => rfl)
      fun _ => .pure _

theorem keepsCounts_rootCommit : KeepsCounts (D := D) l counts (rootCommit l) := by
  refine .bind .get fun ram => .bind (keepsCounts_turnLog fun _ _ => ?_) fun ret =>
    keeps_onSuccess ?_
  · exact keepsCounts_modify (fun _ => rfl) (fun _ => rfl) (fun _ => rfl) fun _ => rfl
  · refine .bind (keepsCounts_modify (fun _ => rfl) (fun _ => rfl) (fun _ => rfl) fun _ => rfl)
      fun _ => .bind .get fun ram => .bind (keepsCounts_perform _) fun ret => keeps_onSuccess ?_
    exact .bind (keepsCounts_modify (fun _ => rfl) (fun _ => rfl) (fun _ => rfl) fun _ => rfl)
      fun _ => .pure _

theorem keepsCounts_dataCommit (keeps : KeepsCounts l counts reclaim) :
    KeepsCounts l counts (dataCommit l reclaim) := by
  have slots : KeepsCounts l counts (pmtCommit l reclaim) :=
    .bind (keepsCounts_pmtCommitSlots (Nat.le_of_eq (Nat.zero_add _)) keeps) fun _ =>
      keeps_onSuccess keepsCounts_pmtInit
  refine .bind keepsCounts_hdiCommit fun ret => .bind (keeps_onSuccess slots) fun ret => ?_
  refine .bind (keeps_onSuccess keepsCounts_bdtCommit) fun ret => ?_
  refine .bind (keeps_onSuccess keepsCounts_rootCommit) fun ret => keeps_onSuccess ?_
  exact .bind (keepsCounts_modify (fun _ => rfl) (fun _ => rfl) (fun _ => rfl) fun _ => rfl)
    fun _ => .pure _

end Counts

/-! ## The frame -/

/-- What is the same behind code of the tables. -/
structure DataFrame (l : Layout) (earlier : FtlRam) (before : UbiStore D) (ram : FtlRam)
    (store : UbiStore D) : Prop where
  journals : ram.journalPart = earlier.journalPart
  counts : ∀ block, ¬ InMeta l block → ram.blockDirtyTable block = earlier.blockDirtyTable block
  within : WithinBlocks (InMeta l) before store

/-- A reclaim of the page mapping table that keeps the nodes and stays in the tables. -/
structure DataReclaim (l : Layout) (strict : Prop) (reclaim : FtlCode D Status) : Prop extends
    GoodReclaim l strict reclaim where
  inside : ∀ earlier before, KeepsPmt l (IsPmtBlock l) earlier before reclaim
  counts : ∀ counts, KeepsCounts l counts reclaim

section Frame

variable {strict : Prop} {maps : PageMap} {reclaim : FtlCode D Status} {earlier ram ram' : FtlRam}
  {before store after : UbiStore D}

theorem DataFrame.refl (ram : FtlRam) (store : UbiStore D) : DataFrame l ram store ram store :=
  ⟨rfl, fun _ _ => rfl, .refl _ store⟩

theorem DataFrame.trans (first : DataFrame l earlier before ram store)
    (second : DataFrame l ram store ram' after) : DataFrame l earlier before ram' after where
  journals := second.journals.trans first.journals
  counts block outside := (second.counts block outside).trans (first.counts block outside)
  within := first.within.trans second.within

/-- The store is the same, and no variable of the frame has changed. -/
theorem DataFrame.of_eq (journals : ram'.journalPart = ram.journalPart)
    (counts : ram'.blockDirtyTable = ram.blockDirtyTable) : DataFrame l ram store ram' store :=
  ⟨journals, fun block _ => congrFun counts block, .refl _ store⟩

theorem OnReturn.and {α : Type} {code : FtlCode D α} {post post' : α → FtlRam → UbiStore D → Prop}
    (first : OnReturn l code post ram store) (second : OnReturn l code post' ram store) :
    OnReturn l code (fun value ram' after => post value ram' after ∧ post' value ram' after) ram
      store :=
  Code.spec_mono (Code.spec_and first second) (fun _ _ _ => id) fun _ _ => trivial

theorem keepsMeta_dataCommitWith {journals : JournalPart} (fit : l.NodesFit)
    (good : DataReclaim l strict reclaim) :
    KeepsMeta l journals before (dataCommit l reclaim) := by
  have blocks := pmtBlocks_area fit.inCapacity
  refine .bind keepsMeta_hdiCommit fun ret => ?_
  refine .bind (keeps_onSuccess (keepsMeta_of_keepsPmt fun _ _ =>
    keeps_pmtCommit blocks fit.toFits (good.inside _ _))) fun ret => ?_
  refine .bind (keeps_onSuccess keepsMeta_bdtCommit) fun ret => ?_
  refine .bind (keeps_onSuccess keepsMeta_rootCommit) fun ret => keeps_onSuccess ?_
  refine .bind (.modifies fun ram store kept => ?_) fun _ => .pure _
  exact ⟨kept.journals, kept.store, { kept.cursors with }⟩

theorem NodesPowered.countsWithin (fit : l.NodesFit)
    (powered : NodesPowered l strict maps ram store) :
    CountsWithin l ram.blockDirtyTable ram := by
  have cursors := powered.cursorsInMeta fit
  obtain ⟨place, nodes, current, reclaimBlock, _, atRest⟩ := powered
  refine ⟨fun _ _ => rfl, fun i registered => ?_, cursors.reclaim.2⟩
  have holds := atRest.kept.cached.holds (Nat.zero_le i) registered
  have isCluster := (atRest.kept.cached.slot i (Nat.zero_le i) registered).1
  obtain ⟨inArea, inBlock⟩ := atRest.kept.placed.inArea _ isCluster
  rw [holds.origin, fit.block_place inArea (Nat.lt_trans inBlock fit.width_lt)]
  exact inArea.2

/-- `DATA_Commit` leaves the data pages alone. -/
theorem framed_dataCommit (fit : l.NodesFit) (good : DataReclaim l strict reclaim)
    (powered : NodesPowered l strict maps ram store) :
    OnReturn l (dataCommit l reclaim) (fun _ ram' after => DataFrame l ram store ram' after) ram
      store := by
  have tables : OnReturn l (dataCommit l reclaim)
      (fun _ ram' after => MetaWithin l ram.journalPart store ram' after) ram store :=
    Code.spec_mono (keepsMeta_dataCommitWith fit good ram store
      ⟨rfl, .refl _ store, powered.cursorsInMeta fit⟩) (fun _ _ _ => id) fun _ _ => trivial
  have counts : OnReturn l (dataCommit l reclaim)
      (fun _ ram' _ => CountsWithin l ram.blockDirtyTable ram') ram store :=
    Code.spec_mono (keepsCounts_dataCommit (good.counts _) ram store (powered.countsWithin fit))
      (fun _ _ _ => id) fun _ _ => trivial
  apply (tables.and counts).mono
  rintro _ ram' after ⟨inTables, counted⟩
  exact ⟨inTables.journals, counted.counts, inTables.store⟩

theorem framed_pmtFill {i block page cluster : Nat} (frame : DataFrame l earlier before ram store) :
    OnReturn l (pmtFill l i block page cluster)
      (fun _ ram' after => DataFrame l earlier before ram' after) ram store := by
  rw [pmtFill, OnReturn.bind]
  refine OnReturn.read fun _ _ => ?_
  generalize store.pages.answer block page = answer
  have read : DataFrame l earlier before ram store := frame
  rw [OnReturn.bind]
  have loaded : OnReturn l (loadNode answer.main)
      (fun _ ram' after => DataFrame l earlier before ram' after) ram store := by
    unfold loadNode
    split
    · exact OnReturn.pure.mpr read
    · exact OnReturn.pure.mpr read
    · exact OnReturn.halt
  refine loaded.mono fun words ram' after frame => ?_
  rw [OnReturn.bind, OnReturn.modifies]
  have filled : DataFrame l earlier before
      { ram' with pmNodeCaches := Function.update ram'.pmNodeCaches i words } after :=
    frame.trans (.of_eq rfl rfl)
  refine OnReturn.onSuccess (fun _ => ?_) fun _ => filled
  rw [OnReturn.bind, OnReturn.modifies, OnReturn.bind, OnReturn.assert]
  exact fun _ => OnReturn.pure.mpr (filled.trans (.of_eq rfl rfl))

theorem framed_pmtCached {cluster : Nat} (fit : l.NodesFit) (good : DataReclaim l strict reclaim)
    (powered : NodesPowered l strict maps ram store) :
    OnReturn l (pmtCached l reclaim cluster)
      (fun _ ram' after => DataFrame l ram store ram' after) ram store := by
  rw [pmtCached, OnReturn.bind]
  refine onReturn_rootNode fun _ => ?_
  split
  · rw [pmtLoad, OnReturn.bind, pmtMakeRoom, OnReturn.bind, OnReturn.get]
    have filled : ∀ ret i block page ram' after, DataFrame l ram store ram' after →
        OnReturn l (onSuccess ret (pmtFill l i block page cluster))
          (fun _ ram' after => DataFrame l ram store ram' after) ram' after :=
      fun ret i block page ram' after frame =>
        OnReturn.onSuccess (fun _ => framed_pmtFill frame) fun _ => frame
    split
    · exact OnReturn.pure.mpr (filled _ _ _ _ _ _ (.refl ram store))
    · rw [OnReturn.bind]
      refine (framed_dataCommit fit good powered).mono fun ret ram' after frame => ?_
      rw [OnReturn.bind, OnReturn.get]
      dsimp only
      split
      · exact OnReturn.pure.mpr (filled _ _ _ _ _ _ frame)
      · exact OnReturn.pure.mpr (filled _ _ _ _ _ _ frame)
  · exact OnReturn.pure.mpr (.refl ram store)

/-! ## Updates and searches -/

/-- The word of a logical page. -/
def PageMap.word (l : Layout) (maps : PageMap) (pageAddr : Nat) : Nat :=
  maps.current (clusterIndex l pageAddr) (pageInCluster l pageAddr)

/-- The counts when a logical page has left the page that the word names. -/
def dropCount (l : Layout) (word : Nat) (counts : Nat → Nat) : Nat → Nat :=
  if word ≠ PmNode.invalid then
    Function.update counts (PmNode.block l.g word) ((counts (PmNode.block l.g word) + 1) % 2 ^ 8)
  else counts

/-- What an update leaves behind in the data blocks. -/
structure PageUpdated (l : Layout) (word : Nat) (earlier : FtlRam) (before : UbiStore D)
    (ram : FtlRam) (store : UbiStore D) : Prop where
  journals : ram.journalPart = earlier.journalPart
  counts : ∀ block, ¬ InMeta l block →
    ram.blockDirtyTable block = dropCount l word earlier.blockDirtyTable block
  within : WithinBlocks (InMeta l) before store

theorem dropCount_congr {word block : Nat} {counts counts' : Nat → Nat}
    (same : ∀ block, ¬ InMeta l block → counts block = counts' block) (outside : ¬ InMeta l block) :
    dropCount l word counts block = dropCount l word counts' block := by
  unfold dropCount
  split
  · by_cases here : block = PmNode.block l.g word
    · rw [← here, Function.update_self, Function.update_self, same block outside]
    · rw [Function.update_of_ne here, Function.update_of_ne here, same block outside]
  · exact same block outside

/-- The page is counted, and nothing else happens to the data. -/
theorem updated_pmtDropPage {i pageAddr : Nat} {post : Unit → FtlRam → UbiStore D → Prop}
    (meets : ∀ ram', ram'.journalPart = ram.journalPart →
      ram'.blockDirtyTable = dropCount l (ram.pmNodeCaches i (pageInCluster l pageAddr))
        ram.blockDirtyTable → post () ram' store) :
    OnReturn l (pmtDropPage l i pageAddr) post ram store := by
  rw [pmtDropPage, OnReturn.bind, OnReturn.get]
  dsimp only
  unfold dropCount at meets
  by_cases mapped : ram.pmNodeCaches i (pageInCluster l pageAddr) ≠ PmNode.invalid
  · rw [if_pos mapped] at meets ⊢
    exact onReturn_addDirty (meets _ rfl rfl)
  · rw [if_neg mapped] at meets ⊢
    exact OnReturn.pure.mpr (meets ram rfl rfl)

/-- `PMT_Update` enters the word of the logical page, and counts the page that it leaves. -/
theorem updated_pmtUpdate {pageAddr block page : Nat}
    {post : Status → FtlRam → UbiStore D → Prop} (fit : l.NodesFit) (three : ThreeTables l)
    (good : DataReclaim l strict reclaim) (powered : NodesPowered l strict maps ram store)
    (inData : maps.InData l) (isCluster : clusterIndex l pageAddr < pmtClusterCount l)
    (meets : ∀ ram' after, NodesPowered l strict ((maps.onRoot store after).enter l pageAddr
      (pageWord l block page)) ram' after →
      PageUpdated l (maps.word l pageAddr) ram store ram' after → post .success ram' after) :
    OnReturn l (pmtUpdate l reclaim pageAddr block page) post ram store := by
  have entered : OnReturn l (pmtUpdate l reclaim pageAddr block page) (fun ret ram' after =>
      ret = .success ∧ NodesPowered l strict ((maps.onRoot store after).enter l pageAddr
        (pageWord l block page)) ram' after) ram store :=
    onReturn_pmtUpdate fit three good.toGoodReclaim powered inData isCluster
      fun _ _ powered' => ⟨rfl, powered'⟩
  have counted : OnReturn l (pmtUpdate l reclaim pageAddr block page) (fun _ ram' after =>
      PageUpdated l (maps.word l pageAddr) ram store ram' after) ram store := by
    obtain ⟨place, nodes, current, reclaimBlock, poweredAt⟩ := powered
    have cached : OnReturn l (pmtCached l reclaim (clusterIndex l pageAddr)) (fun ret ram' _ =>
        ret = .success ∧ ∃ k < pmtCacheCount l, slotAddress l k % 4 = 0 ∧ ∃ place nodes erased,
          InSlot l maps.current place nodes erased ram' (clusterIndex l pageAddr) k) ram store :=
      onReturn_pmtCached fit three good.toGoodReclaim poweredAt isCluster
        fun k _ _ _ _ ram' _ _ isSlot aligned inSlot => ⟨rfl, k, isSlot, aligned, _, _, _, inSlot⟩
    rw [pmtUpdate, OnReturn.bind]
    refine (cached.and (framed_pmtCached fit good ⟨_, _, _, _, poweredAt⟩)).mono ?_
    rintro ret ram₁ store₁ ⟨⟨rfl, k, isSlot, aligned, _, _, _, inSlot⟩, frame⟩
    rw [onSuccess_success, OnReturn.bind]
    refine onReturn_pmtSlot isSlot aligned inSlot ?_
    rw [OnReturn.bind]
    refine updated_pmtDropPage fun ram₂ journals counts => ?_
    rw [OnReturn.bind]
    refine onReturn_pmtWord ?_
    rw [OnReturn.bind, OnReturn.modifies, OnReturn.pure]
    refine ⟨journals.trans frame.journals, fun other outside => ?_, frame.within⟩
    have same : (enterWord l k pageAddr (pageWord l block page) ram₂).blockDirtyTable =
        ram₂.blockDirtyTable := rfl
    rw [same, counts, inSlot.words]
    exact dropCount_congr frame.counts outside
  apply (entered.and counted).mono
  rintro ret ram' after ⟨⟨rfl, powered'⟩, updated⟩
  exact meets ram' after powered' updated

/-- `PMT_Search` finds the place of the logical page, and leaves the data alone. -/
theorem framed_pmtSearch {pageAddr : Nat} {post : Status × Nat × Nat → FtlRam → UbiStore D → Prop}
    (fit : l.NodesFit) (three : ThreeTables l) (good : DataReclaim l strict reclaim)
    (powered : NodesPowered l strict maps ram store)
    (isCluster : clusterIndex l pageAddr < pmtClusterCount l)
    (meets : ∀ ram' after, NodesPowered l strict (maps.onRoot store after) ram' after →
      DataFrame l ram store ram' after →
      post (.success, wordPlace l (maps.word l pageAddr)) ram' after) :
    OnReturn l (pmtSearch l reclaim pageAddr) post ram store := by
  have found : OnReturn l (pmtSearch l reclaim pageAddr) (fun answer ram' after =>
      answer = (.success, wordPlace l (maps.word l pageAddr)) ∧
        NodesPowered l strict (maps.onRoot store after) ram' after) ram store :=
    onReturn_pmtSearch fit three good.toGoodReclaim powered isCluster
      fun _ _ powered' => ⟨rfl, powered'⟩
  have framed : OnReturn l (pmtSearch l reclaim pageAddr) (fun _ ram' after =>
      DataFrame l ram store ram' after) ram store := by
    rw [pmtSearch]
    dsimp only
    rw [OnReturn.bind]
    refine (framed_pmtCached fit good powered).mono fun ret ram₁ store₁ frame => ?_
    split
    · rw [OnReturn.bind]
      refine onReturn_rootNode fun _ => ?_
      rw [OnReturn.bind, OnReturn.assert]
      intro _
      rw [OnReturn.bind, OnReturn.assert]
      intro _
      rw [OnReturn.bind, pmtSlot, OnReturn.bind]
      refine onReturn_rootNode fun _ => ?_
      split
      · rw [OnReturn.pure, OnReturn.bind, OnReturn.get]
        split
        · exact OnReturn.pure.mpr frame
        · exact OnReturn.pure.mpr frame
      · exact OnReturn.halt
    · exact OnReturn.pure.mpr frame
  apply (found.and framed).mono
  rintro answer ram' after ⟨⟨rfl, powered'⟩, frame⟩
  exact meets ram' after powered' frame

end Frame

end OpenNfm.Ftl
