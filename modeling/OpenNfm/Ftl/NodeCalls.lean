import OpenNfm.Ftl.LogRecovery
import OpenNfm.Ftl.NodeCommit

/-!
# Updates, searches and commits

The nodes between two calls of the page mapping table: where the memory has them, and where
the newest root names them.  A commit makes the memory's nodes those of the root; a load
for an update or a search may need one.
-/

namespace OpenNfm.Ftl

open OpenNfm.Program

variable {l : Layout} {D : Type} {strict : Prop} {map nodes : Nat → Nat → Nat}
  {place : Nat → Place} {current : Place} {reclaimBlock : Nat} {ram : FtlRam} {store : UbiStore D}

/-! ## What the nodes depend on -/

theorem WithinBlocks.used {inside : Nat → Prop} {before after : UbiStore D} {block : Nat}
    (within : WithinBlocks inside before after) (outside : ¬ inside block)
    (used : after.Used block) : before.Used block := by
  obtain ⟨writes, history, all⟩ := within.writes
  obtain ⟨entry, member, rfl⟩ := used
  rw [history, List.mem_append] at member
  rcases member with new | old
  · exact absurd (all entry new) outside
  · exact ⟨entry, old, rfl⟩

theorem placed_within {inside : Nat → Prop} {before after : UbiStore D} {n : Nat}
    {values : Nat → Nat → Nat} {open_ : Option Place} {erased : Option Nat}
    (placed : Placed (nodeFormat l D) n place values open_ erased before.Used before.pages)
    (within : WithinBlocks inside before after)
    (outside : ∀ block, IsPmtBlock l block → ¬ inside block) :
    Placed (nodeFormat l D) n place values open_ erased after.Used after.pages :=
  placed.congr (fun block inArea => within.pages block (outside block inArea))
    fun block inArea => within.used (outside block inArea)

/-- Code of the other tables and of the data keeps the nodes. -/
theorem Working.frame {i : Nat} {ram' : FtlRam} {inside : Nat → Prop} {after : UbiStore D}
    (working : Working l strict i map place nodes current reclaimBlock ram store)
    (part : ram'.pmtPart = ram.pmtPart)
    (counts : ∀ block, IsPmtBlock l block → ram'.blockDirtyTable block = ram.blockDirtyTable block)
    (within : WithinBlocks inside store after)
    (outside : ∀ block, IsPmtBlock l block → ¬ inside block) :
    Working l strict i map place nodes current reclaimBlock ram' after := by
  obtain ⟨⟨placed, cached, tabled, entries⟩, counted, current, reclaim, exact⟩ := working
  have tables : ram'.metaData = ram.metaData := congrArg PmtPart.metaData part
  refine ⟨⟨placed_within placed within outside, ?_, ?_, ?_⟩, ?_, ?_, ?_, ?_⟩
  · exact cached.congr (congrArg PmtPart.nodes part) (congrArg PmtPart.clusters part)
      (congrArg PmtPart.origins part) (congrArg PmtPart.caches part)
  · rw [tables]
    exact tabled
  · rw [tables]
    exact entries
  · exact counted.congr fun block inArea _ => counts block inArea
  · exact (congrArg PmtPart.current part).trans current
  · exact (congrArg PmtPart.reclaim part).trans reclaim
  · refine fun strictly => ⟨(exact strictly).1, ?_⟩
    rw [counts reclaimBlock (placed.blank reclaimBlock rfl).1]
    exact (exact strictly).2

/-! ## The nodes that a root names -/

/-- The root names the places of the nodes, with the dirty counts that were committed with
it. -/
structure NamedNodes (l : Layout) (strict : Prop) (map : Nat → Nat → Nat) (place : Nat → Place)
    (current : Place) (reclaimBlock : Nat) (root : Root) (counts : Nat → Nat)
    (store : UbiStore D) : Prop where
  placed : Placed (nodeFormat l D) (pmtClusterCount l) place map (some current)
    (some reclaimBlock) store.Used store.pages
  words : ∀ cluster < pmtClusterCount l, root.pageMappingNodes cluster = placeWord l (place cluster)
  free : ∀ cluster < pmtClusterCount l, (place cluster).1 ≠ reclaimBlock
  counted : Counted (nodeFormat l D) (pmtClusterCount l) place (some current)
    (fun block => block = reclaimBlock) counts
  current : root.pmtCurrentBlock = placeWord l current
  reclaim : root.pmtReclaimBlock = placeWord l (reclaimBlock, 0)
  exact : strict → counts reclaimBlock = 0

/-- The newest root names the nodes. -/
def NodesRooted (l : Layout) (strict : Prop) (map : Nat → Nat → Nat) (counts : Nat → Nat)
    (store : UbiStore D) : Prop :=
  ∃ root place current reclaimBlock, store.lastRoot = some root ∧
    NamedNodes l strict map place current reclaimBlock root counts store

theorem NamedNodes.within {inside : Nat → Prop} {root : Root} {counts : Nat → Nat}
    {after : UbiStore D}
    (named : NamedNodes l strict map place current reclaimBlock root counts store)
    (within : WithinBlocks inside store after)
    (outside : ∀ block, IsPmtBlock l block → ¬ inside block) :
    NamedNodes l strict map place current reclaimBlock root counts after :=
  { named with placed := placed_within named.placed within outside }

/-- With an empty cache the root has the places of all nodes. -/
theorem Working.named (working : Working l strict 0 map place nodes current reclaimBlock ram store)
    (empty : EmptyCache l ram) (fit : l.NodesFit) :
    NamedNodes l strict map place current reclaimBlock ram.rootTable ram.blockDirtyTable store := by
  obtain ⟨⟨placed, cached, _, _⟩, counted, current, reclaim, exact⟩ := working
  have onPage : ∀ cluster < pmtClusterCount l,
      OnPage l map place nodes (some reclaimBlock) ram cluster := fun cluster isCluster =>
    empty.onPage cached fit isCluster
  exact
    { placed := placed.withValues fun cluster isCluster _ => (onPage cluster isCluster).node.symm
      words := fun cluster isCluster => (onPage cluster isCluster).word
      free := fun cluster isCluster here =>
        (onPage cluster isCluster).intact (congrArg some here.symm)
      counted := counted
      current := current
      reclaim := reclaim
      exact := fun strictly => (exact strictly).2 }

/-! ## Between two calls -/

/-- The words of the logical pages, by clusters: as the memory has them, and as of the newest
root. -/
structure PageMap where
  current : Nat → Nat → Nat
  durable : Nat → Nat → Nat

/-- While the device has power, with the places of the nodes. -/
structure PoweredAt (l : Layout) (strict : Prop) (maps : PageMap) (place : Nat → Place)
    (nodes : Nat → Nat → Nat) (current : Place) (reclaimBlock : Nat) (ram : FtlRam)
    (store : UbiStore D) : Prop where
  logs : ∃ tables, LogsPowered l ram store tables ∧
    NodesRooted l strict maps.durable tables.counts store
  atRest : AtRest l strict maps.current place nodes current reclaimBlock ram store

/-- While the device has power. -/
def NodesPowered (l : Layout) (strict : Prop) (maps : PageMap) (ram : FtlRam)
    (store : UbiStore D) : Prop :=
  ∃ place nodes current reclaimBlock,
    PoweredAt l strict maps place nodes current reclaimBlock ram store

/-- After a power failure. -/
def NodesLeft (l : Layout) (strict : Prop) (map : Nat → Nat → Nat) (store : UbiStore D) : Prop :=
  ∃ tables, LogsLeft l store tables ∧ NodesRooted l strict map tables.counts store

theorem NodesPowered.left {maps : PageMap} (powered : NodesPowered l strict maps ram store) :
    NodesLeft l strict maps.durable store := by
  obtain ⟨_, _, _, _, ⟨tables, logs, rooted⟩, _⟩ := powered
  exact ⟨tables, logs.left, rooted⟩

/-- The reclaim keeps to the page mapping table, and loses no node. -/
structure GoodReclaim (l : Layout) (strict : Prop) (reclaim : FtlCode D Status) : Prop where
  reclaims : Reclaims l strict reclaim
  keeps : ∀ earlier before, KeepsPmt l (BehindTables l) earlier before reclaim

section Calls

variable {reclaim : FtlCode D Status} {tables : LogTables}

theorem not_inTables {block : Nat} (inArea : IsPmtBlock l block) : ¬ InTables block :=
  Nat.not_lt.mpr inArea.1

/-- A commit makes the nodes in the memory those of the newest root. -/
theorem onReturn_dataCommit {maps : PageMap} {post : Status → FtlRam → UbiStore D → Prop}
    (fit : l.NodesFit) (three : ThreeTables l) (good : GoodReclaim l strict reclaim)
    (powered : PoweredAt l strict maps place nodes current reclaimBlock ram store)
    (meets : ∀ place' nodes' current' reclaimBlock' ram' after,
      PoweredAt l strict ⟨maps.current, maps.current⟩ place' nodes' current' reclaimBlock' ram'
        after →
      EmptyCache l ram' → after.roots = store.roots + 1 → post .success ram' after) :
    OnReturn l (dataCommit l reclaim) post ram store := by
  obtain ⟨⟨tables, logs, _⟩, atRest⟩ := powered
  refine spec_dataCommit_done (fun ret ram' after => ret = .success ∧ EmptyCache l ram' ∧
      ∃ place nodes current reclaimBlock,
        AtRest l strict maps.current place nodes current reclaimBlock ram' after)
    fit.toFits three logs good.keeps ?_ (fun _ _ => trivial) ?_
  · intro after within
    refine onReturn_pmtCommit (atRest.frame rfl (fun _ _ => rfl) within fun _ => not_inTables) fit
      good.reclaims ?_
    exact fun place' nodes' current' reclaimBlock' ram' last atRest' empty =>
      ⟨rfl, empty, place', nodes', current', reclaimBlock', atRest'⟩
  · rintro ret ram₁ mid ram' after ⟨rfl, empty, place', nodes', current', reclaimBlock', atRest'⟩
      roots whole
    obtain ⟨rfl, written, powered⟩ := whole rfl
    have atRest'' : AtRest l strict maps.current place' nodes' current' reclaimBlock'
        (committed l ram₁) after :=
      atRest'.frame rfl (fun _ _ => rfl) written.within fun _ => not_inTables
    refine meets _ _ _ _ _ _ ⟨⟨_, powered, _, _, _, _, written.last, atRest''.named empty fit⟩,
      atRest''⟩ empty ?_
    rw [written.roots, roots]

/-! ## Loads -/

/-- The maps after a call: if it has written a root, the nodes that the memory had are
durable. -/
def PageMap.onRoot (maps : PageMap) (before after : UbiStore D) : PageMap where
  current := maps.current
  durable := if after.roots = before.roots then maps.durable else maps.current

theorem PageMap.onRoot_same (maps : PageMap) (store : UbiStore D) :
    maps.onRoot store store = maps := by
  rw [PageMap.onRoot, if_pos rfl]

theorem PageMap.onRoot_next (maps : PageMap) {before after : UbiStore D}
    (next : after.roots = before.roots + 1) :
    maps.onRoot before after = ⟨maps.current, maps.current⟩ := by
  rw [PageMap.onRoot, if_neg (by omega)]

variable {maps : PageMap} {cluster k : Nat}

theorem freeSlot_some (found : freeSlot l ram = some k) :
    k < pmtCacheCount l ∧ ram.pmCacheOriginLocation k = PmNode.invalid := by
  unfold freeSlot at found
  have holds := List.find?_some
    (p := fun i => decide (ram.pmCacheOriginLocation i = PmNode.invalid)) found
  exact ⟨List.mem_range.mp (List.mem_of_find?_eq_some found), of_decide_eq_true holds⟩

theorem PoweredAt.same
    (powered : PoweredAt l strict maps place nodes current reclaimBlock ram store) :
    PoweredAt l strict (maps.onRoot store store) place nodes current reclaimBlock ram store := by
  rw [maps.onRoot_same]
  exact powered

/-- A slot without an origin holds no node. -/
theorem Working.not_registered
    (atRest : AtRest l strict map place nodes current reclaimBlock ram store)
    (free : ram.pmCacheOriginLocation k = PmNode.invalid) : ¬ Registered l ram k := by
  intro registered
  have origin := (atRest.kept.cached.holds (Nat.zero_le k) registered).origin
  rw [free] at origin
  exact placeWord_ne_invalid l _ origin.symm

/-- A cluster is on its page or in a slot. -/
theorem Working.cases (atRest : AtRest l strict map place nodes current reclaimBlock ram store)
    (fit : l.NodesFit) (isCluster : cluster < pmtClusterCount l) :
    OnPage l map place nodes (some reclaimBlock) ram cluster ∨
      ∃ k < pmtCacheCount l, slotAddress l k % 4 = 0 ∧
        InSlot l map place nodes (some reclaimBlock) ram cluster k := by
  refine (atRest.kept.cached.cluster cluster isCluster).imp_right
    fun ⟨k, behind, isSlot, inSlot⟩ => ?_
  have registered := Cached.registered fit isCluster isSlot inSlot.inSlot
  exact ⟨k, isSlot, (atRest.kept.cached.slot k behind registered).2.2, inSlot⟩

theorem onReturn_pmtMakeRoom {post : Status × Nat × Nat × Nat → FtlRam → UbiStore D → Prop}
    (fit : l.NodesFit) (three : ThreeTables l) (good : GoodReclaim l strict reclaim)
    (powered : PoweredAt l strict maps place nodes current reclaimBlock ram store)
    (isCluster : cluster < pmtClusterCount l)
    (onPage : OnPage l maps.current place nodes (some reclaimBlock) ram cluster)
    (meets : ∀ k place' nodes' current' reclaimBlock' ram' after,
      PoweredAt l strict (maps.onRoot store after) place' nodes' current' reclaimBlock' ram' after →
      k < pmtCacheCount l → ¬ Registered l ram' k →
      OnPage l maps.current place' nodes' (some reclaimBlock') ram' cluster →
      post (.success, k, (place' cluster).1, (place' cluster).2) ram' after) :
    OnReturn l (pmtMakeRoom l reclaim (place cluster).1 (place cluster).2 cluster) post ram
      store := by
  rw [pmtMakeRoom, OnReturn.bind, OnReturn.get]
  cases found : freeSlot l ram with
  | some k =>
      obtain ⟨isSlot, free⟩ := freeSlot_some found
      exact OnReturn.pure.mpr (meets k _ _ _ _ _ _ powered.same isSlot
        (powered.atRest.not_registered free) onPage)
  | none =>
      dsimp only
      rw [OnReturn.bind]
      refine onReturn_dataCommit fit three good powered ?_
      intro place' nodes' current' reclaimBlock' ram' after powered' empty next
      have onPage' := empty.onPage powered'.atRest.kept.cached fit isCluster
      obtain ⟨inArea, inBlock⟩ := powered'.atRest.kept.placed.inArea cluster isCluster
      have isPage := Nat.lt_trans inBlock fit.width_lt
      rw [OnReturn.bind, OnReturn.get, if_pos rfl, onPage'.word, fit.block_place inArea isPage,
        fit.page_place inArea isPage, OnReturn.pure]
      rw [← maps.onRoot_next next] at powered'
      exact meets 0 _ _ _ _ _ _ powered' fit.slots (empty 0) onPage'

/-- The memory when a node has been read into a slot. -/
def filledSlot (k : Nat) (words : Nat → Nat) (ram : FtlRam) : FtlRam :=
  { ram with pmNodeCaches := Function.update ram.pmNodeCaches k words }

theorem PoweredAt.load
    (powered : PoweredAt l strict maps place nodes current reclaimBlock ram store)
    (fit : l.NodesFit) (isCluster : cluster < pmtClusterCount l) (isSlot : k < pmtCacheCount l)
    (empty : ¬ Registered l ram k)
    (onPage : OnPage l maps.current place nodes (some reclaimBlock) ram cluster)
    (aligned : slotAddress l k % 4 = 0) :
    PoweredAt l strict maps place nodes current reclaimBlock
      (cacheNode l k (place cluster).1 (place cluster).2 cluster (filledSlot k (nodes cluster) ram))
      store := by
  obtain ⟨⟨tables, logs, rooted⟩, ⟨placed, cached, tabled, entries⟩, counted, current, reclaim,
    exact⟩ := powered
  have filled := cached.fill (nodes cluster) fit empty
  have loaded := filled.load fit isCluster isSlot empty onPage.word (Function.update_self _ _ _)
    aligned
  exact ⟨⟨tables, logs.congr rfl, rooted⟩, ⟨placed, loaded, tabled, entries⟩, counted, current,
    reclaim, exact⟩

theorem onReturn_pmtFill {post : Status → FtlRam → UbiStore D → Prop} (fit : l.NodesFit)
    (powered : PoweredAt l strict maps place nodes current reclaimBlock ram store)
    (isCluster : cluster < pmtClusterCount l) (isSlot : k < pmtCacheCount l)
    (empty : ¬ Registered l ram k)
    (onPage : OnPage l maps.current place nodes (some reclaimBlock) ram cluster)
    (meets : ∀ ram', PoweredAt l strict maps place nodes current reclaimBlock ram' store →
      slotAddress l k % 4 = 0 →
      InSlot l maps.current place nodes (some reclaimBlock) ram' cluster k →
      post .success ram' store) :
    OnReturn l (pmtFill l k (place cluster).1 (place cluster).2 cluster) post ram store := by
  obtain ⟨content, programmed, holds⟩ :=
    powered.atRest.kept.placed.stored cluster isCluster onPage.intact
  have main : content.main = .node (nodes cluster) := holds
  rw [pmtFill, OnReturn.bind]
  refine OnReturn.read fun _ _ => ?_
  rw [Nand.answer, programmed]
  dsimp only
  rw [main, OnReturn.bind, loadNode, OnReturn.pure, OnReturn.bind, OnReturn.modifies,
    onSuccess_success, OnReturn.bind, OnReturn.modifies, OnReturn.bind, OnReturn.assert]
  intro aligned
  have loaded := powered.load fit isCluster isSlot empty onPage aligned
  refine OnReturn.pure.mpr (meets _ loaded aligned ?_)
  have inSlot : (cacheNode l k (place cluster).1 (place cluster).2 cluster
      (filledSlot k (nodes cluster) ram)).pmCacheCluster k = cluster := Function.update_self _ _ _
  have registered := Cached.registered fit isCluster isSlot inSlot
  have holds := loaded.atRest.kept.cached.holds (Nat.zero_le k) registered
  rw [inSlot] at holds
  exact holds

/-- The node of a cluster is in a slot. -/
theorem onReturn_pmtCached {post : Status → FtlRam → UbiStore D → Prop}
    (fit : l.NodesFit) (three : ThreeTables l) (good : GoodReclaim l strict reclaim)
    (powered : PoweredAt l strict maps place nodes current reclaimBlock ram store)
    (isCluster : cluster < pmtClusterCount l)
    (meets : ∀ k place' nodes' current' reclaimBlock' ram' after,
      PoweredAt l strict (maps.onRoot store after) place' nodes' current' reclaimBlock' ram' after →
      k < pmtCacheCount l → slotAddress l k % 4 = 0 →
      InSlot l maps.current place' nodes' (some reclaimBlock') ram' cluster k →
      post .success ram' after) :
    OnReturn l (pmtCached l reclaim cluster) post ram store := by
  rw [pmtCached, OnReturn.bind]
  refine onReturn_rootNode fun _ => ?_
  rcases powered.atRest.cases fit isCluster with onPage | ⟨k, isSlot, aligned, inSlot⟩
  · obtain ⟨inArea, inBlock⟩ := powered.atRest.kept.placed.inArea cluster isCluster
    have isPage := Nat.lt_trans inBlock fit.width_lt
    rw [onPage.word, isCached_placeWord, if_pos rfl, fit.block_place inArea isPage,
      fit.page_place inArea isPage, pmtLoad, OnReturn.bind]
    refine onReturn_pmtMakeRoom fit three good powered isCluster onPage ?_
    intro k place' nodes' current' reclaimBlock' ram' after powered' isSlot empty onPage'
    dsimp only
    rw [onSuccess_success]
    exact onReturn_pmtFill fit powered' isCluster isSlot empty onPage' fun ram' powered'' aligned =>
      meets k _ _ _ _ ram' after powered'' isSlot aligned
  · have cached := inSlot.isSlotWord.isCached aligned
    rw [if_neg (cached ▸ Bool.noConfusion), OnReturn.pure]
    exact meets k _ _ _ _ _ _ powered.same isSlot aligned inSlot

theorem onReturn_pmtSlot {erased : Option Nat} {post : Nat → FtlRam → UbiStore D → Prop}
    (isSlot : k < pmtCacheCount l) (aligned : slotAddress l k % 4 = 0)
    (inSlot : InSlot l map place nodes erased ram cluster k) (meets : post k ram store) :
    OnReturn l (pmtSlot l cluster) post ram store := by
  rw [pmtSlot, OnReturn.bind]
  refine onReturn_rootNode fun _ => ?_
  rw [inSlot.isSlotWord.address aligned, slotAt_slotAddress isSlot]
  exact OnReturn.pure.mpr meets

/-! ## Updates and searches -/

/-- The word of a logical page is changed in memory. -/
def PageMap.enter (l : Layout) (maps : PageMap) (pageAddr word : Nat) : PageMap :=
  { maps with
    current := Function.update maps.current (clusterIndex l pageAddr)
      (Function.update (maps.current (clusterIndex l pageAddr)) (pageInCluster l pageAddr) word) }

/-- No word names a page of the page mapping table. -/
def OutsideTable (l : Layout) (word : Nat) : Prop :=
  word = PmNode.invalid ∨ ¬ IsPmtBlock l (PmNode.block l.g word)

/-- The words of all logical pages name data blocks. -/
def PageMap.InData (l : Layout) (maps : PageMap) : Prop :=
  ∀ cluster k, OutsideTable l (maps.current cluster k) ∧ OutsideTable l (maps.durable cluster k)

theorem PageMap.InData.onRoot {maps : PageMap} (inData : maps.InData l)
    (before after : UbiStore D) :
    (maps.onRoot before after).InData l := by
  refine fun cluster k => ⟨(inData cluster k).1, ?_⟩
  unfold PageMap.onRoot
  split
  · exact (inData cluster k).2
  · exact (inData cluster k).1

theorem PageMap.InData.enter {maps : PageMap} {pageAddr word : Nat} (inData : maps.InData l)
    (outside : OutsideTable l word) : (maps.enter l pageAddr word).InData l := by
  refine fun cluster k => ⟨?_, (inData cluster k).2⟩
  unfold PageMap.enter
  dsimp only
  by_cases same : cluster = clusterIndex l pageAddr
  · subst same
    rw [Function.update_self]
    by_cases here : k = pageInCluster l pageAddr
    · rw [here, Function.update_self]
      exact outside
    · rw [Function.update_of_ne here]
      exact (inData _ k).1
  · rw [Function.update_of_ne same]
    exact (inData cluster k).1

theorem PoweredAt.frame {ram' : FtlRam}
    (powered : PoweredAt l strict maps place nodes current reclaimBlock ram store)
    (cursors : ram'.logCursors = ram.logCursors) (part : ram'.pmtPart = ram.pmtPart)
    (counts : ∀ block, IsPmtBlock l block →
      ram'.blockDirtyTable block = ram.blockDirtyTable block) :
    PoweredAt l strict maps place nodes current reclaimBlock ram' store := by
  obtain ⟨⟨tables, logs, rooted⟩, atRest⟩ := powered
  have within : WithinBlocks (fun _ => False) store store := .refl _ store
  exact ⟨⟨tables, logs.congr cursors, rooted⟩, atRest.frame part counts within fun _ _ => id⟩

/-- The page that a logical page leaves is not in the page mapping table. -/
theorem onReturn_pmtDropPage {pageAddr : Nat} {post : Unit → FtlRam → UbiStore D → Prop}
    (powered : PoweredAt l strict maps place nodes current reclaimBlock ram store)
    (outside : OutsideTable l (ram.pmNodeCaches k (pageInCluster l pageAddr)))
    (meets : ∀ ram', PoweredAt l strict maps place nodes current reclaimBlock ram' store →
      ram'.pmtPart = ram.pmtPart → post () ram' store) :
    OnReturn l (pmtDropPage l k pageAddr) post ram store := by
  rw [pmtDropPage, OnReturn.bind, OnReturn.get]
  dsimp only
  by_cases mapped : ram.pmNodeCaches k (pageInCluster l pageAddr) ≠ PmNode.invalid
  · rw [if_pos mapped]
    refine onReturn_addDirty (meets _ (powered.frame rfl rfl fun block inArea => ?_) rfl)
    have different : block ≠ PmNode.block l.g (ram.pmNodeCaches k (pageInCluster l pageAddr)) :=
      fun same => outside.resolve_left mapped (same ▸ inArea)
    exact Function.update_of_ne different _ _
  · rw [if_neg mapped, OnReturn.pure]
    exact meets ram powered rfl

/-- The word that `PMT_Update` enters. -/
def pageWord (l : Layout) (block page : Nat) : Nat :=
  if block ≠ invalidBlock then PmNode.setBlockPage l.g block page else PmNode.invalid

theorem onReturn_pmtWord {block page : Nat} {post : Nat → FtlRam → UbiStore D → Prop}
    (meets : post (pageWord l block page) ram store) :
    OnReturn l (pmtWord l block page) post ram store := by
  unfold pageWord at meets
  unfold pmtWord
  split at meets
  · rename_i valid
    rw [if_pos valid, OnReturn.bind, OnReturn.assert]
    exact fun _ => OnReturn.pure.mpr meets
  · rename_i invalid
    rw [if_neg invalid, OnReturn.bind, OnReturn.assert]
    exact fun _ => OnReturn.pure.mpr meets

theorem PoweredAt.enter {pageAddr word : Nat}
    (powered : PoweredAt l strict maps place nodes current reclaimBlock ram store)
    (fit : l.NodesFit) (isCluster : clusterIndex l pageAddr < pmtClusterCount l)
    (isSlot : k < pmtCacheCount l)
    (inSlot : InSlot l maps.current place nodes (some reclaimBlock) ram
      (clusterIndex l pageAddr) k) :
    PoweredAt l strict (maps.enter l pageAddr word) place nodes current reclaimBlock
      (enterWord l k pageAddr word ram) store := by
  obtain ⟨⟨tables, logs, rooted⟩, ⟨placed, cached, tabled, entries⟩, counted, current, reclaim,
    exact⟩ := powered
  exact ⟨⟨tables, logs.congr rfl, rooted⟩,
    ⟨placed, cached.enter fit isCluster isSlot inSlot, tabled, entries⟩, counted, current, reclaim,
    exact⟩

/-- `PMT_Update` changes the word of the logical page. -/
theorem onReturn_pmtUpdate {pageAddr block page : Nat} {post : Status → FtlRam → UbiStore D → Prop}
    (fit : l.NodesFit) (three : ThreeTables l) (good : GoodReclaim l strict reclaim)
    (powered : NodesPowered l strict maps ram store) (inData : maps.InData l)
    (isCluster : clusterIndex l pageAddr < pmtClusterCount l)
    (meets : ∀ ram' after, NodesPowered l strict ((maps.onRoot store after).enter l pageAddr
      (pageWord l block page)) ram' after → post .success ram' after) :
    OnReturn l (pmtUpdate l reclaim pageAddr block page) post ram store := by
  obtain ⟨place, nodes, current, reclaimBlock, powered⟩ := powered
  rw [pmtUpdate, OnReturn.bind]
  refine onReturn_pmtCached fit three good powered isCluster ?_
  intro k place' nodes' current' reclaimBlock' ram' after powered' isSlot aligned inSlot
  have outside : OutsideTable l (ram'.pmNodeCaches k (pageInCluster l pageAddr)) := by
    rw [inSlot.words]
    exact (inData _ _).1
  rw [onSuccess_success, OnReturn.bind]
  refine onReturn_pmtSlot isSlot aligned inSlot ?_
  rw [OnReturn.bind]
  refine onReturn_pmtDropPage powered' outside fun ram'' powered'' part => ?_
  rw [OnReturn.bind]
  refine onReturn_pmtWord ?_
  rw [OnReturn.bind, OnReturn.modifies, OnReturn.pure]
  have nodesSame : ram''.rootTable.pageMappingNodes = ram'.rootTable.pageMappingNodes :=
    congrArg PmtPart.nodes part
  have inSlot' : InSlot l (maps.onRoot store after).current place' nodes' (some reclaimBlock') ram''
      (clusterIndex l pageAddr) k :=
    { inSlot := (congrFun (congrArg PmtPart.clusters part) k).trans inSlot.inSlot
      origin := (congrFun (congrArg PmtPart.origins part) k).trans inSlot.origin
      words := (congrFun (congrArg PmtPart.caches part) k).trans inSlot.words
      state := nodesSame ▸ inSlot.state }
  exact meets _ _ ⟨_, _, _, _, powered''.enter fit isCluster isSlot inSlot'⟩

/-- The block and page that a word names. -/
def wordPlace (l : Layout) (word : Nat) : Nat × Nat :=
  if word ≠ PmNode.invalid then (PmNode.block l.g word, PmNode.page l.g word)
  else (invalidBlock, invalidPage)

/-- `PMT_Search` finds the place that the word of the logical page names. -/
theorem onReturn_pmtSearch {pageAddr : Nat} {post : Status × Nat × Nat → FtlRam → UbiStore D → Prop}
    (fit : l.NodesFit) (three : ThreeTables l) (good : GoodReclaim l strict reclaim)
    (powered : NodesPowered l strict maps ram store)
    (isCluster : clusterIndex l pageAddr < pmtClusterCount l)
    (meets : ∀ ram' after, NodesPowered l strict (maps.onRoot store after) ram' after →
      post (.success, wordPlace l (maps.current (clusterIndex l pageAddr)
        (pageInCluster l pageAddr))) ram' after) :
    OnReturn l (pmtSearch l reclaim pageAddr) post ram store := by
  obtain ⟨place, nodes, current, reclaimBlock, powered⟩ := powered
  rw [pmtSearch]
  dsimp only
  rw [OnReturn.bind]
  refine onReturn_pmtCached fit three good powered isCluster ?_
  intro k place' nodes' current' reclaimBlock' ram' after powered' isSlot aligned inSlot
  rw [if_pos rfl, OnReturn.bind]
  refine onReturn_rootNode fun _ => ?_
  rw [OnReturn.bind, OnReturn.assert]
  intro _
  rw [OnReturn.bind, OnReturn.assert]
  intro _
  rw [OnReturn.bind]
  refine onReturn_pmtSlot isSlot aligned inSlot ?_
  rw [OnReturn.bind, OnReturn.get, inSlot.words]
  have met := meets ram' after ⟨_, _, _, _, powered'⟩
  unfold wordPlace at met
  split at met
  · rename_i mapped
    rw [if_pos mapped, OnReturn.pure]
    exact met
  · rename_i trimmed
    rw [if_neg trimmed, OnReturn.pure]
    exact met

end Calls

end OpenNfm.Ftl
