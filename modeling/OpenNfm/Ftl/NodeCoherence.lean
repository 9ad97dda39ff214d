import OpenNfm.Ftl.NodeCounts
import OpenNfm.Ftl.ReclaimCalls

/-!
# The cache and the device

For each cluster the root has the address of the one slot that holds its node, or names the
page that does, and every root that was written names pages.  A reclaim changes where the
nodes are, but not what a search finds.
-/

namespace OpenNfm.Ftl

open OpenNfm.Program

variable {l : Layout} {D : Type}

/-! ## What a search finds -/

/-- The node on the page that a word names. -/
def nodeOn (l : Layout) (store : UbiStore D) (word : Nat) : Option (Nat → Nat) :=
  match store.pages (PmNode.block l.g word) (PmNode.page l.g word) with
  | some ⟨.node words, _⟩ => some words
  | _ => none

/-- The node of a cluster that `PMT_Search` uses: in the slot that the root has the address
of, or on the page that it names. -/
def visibleNode (l : Layout) (ram : FtlRam) (store : UbiStore D) (cluster : Nat) :
    Option (Nat → Nat) :=
  if PmNode.isCached (ram.rootTable.pageMappingNodes cluster) then
    (slotAt l (PmNode.address (ram.rootTable.pageMappingNodes cluster))).map ram.pmNodeCaches
  else nodeOn l store (ram.rootTable.pageMappingNodes cluster)

/-- The root has the address of the only slot of the cluster, which holds its newest node.
If the slot is clean, so does the page that it was loaded from. -/
structure CoherentSlot (l : Layout) (maps : PageMap) (ram : FtlRam) (store : UbiStore D)
    (cluster i : Nat) : Prop where
  isSlot : i < pmtCacheCount l
  inSlot : ram.pmCacheCluster i = cluster
  only : ∀ k < pmtCacheCount l, ram.pmCacheCluster k = cluster → k = i
  word : IsSlotWord l i (ram.rootTable.pageMappingNodes cluster)
  newest : ram.pmNodeCaches i = maps.current cluster
  clean : PmNode.isDirty (ram.rootTable.pageMappingNodes cluster) = false →
    nodeOn l store (ram.pmCacheOriginLocation i) = some (ram.pmNodeCaches i)

/-- A word names a page with a node. -/
def OnDevice (l : Layout) (store : UbiStore D) (word : Nat) (node : Nat → Nat) : Prop :=
  PmNode.isCached word = false ∧ nodeOn l store word = some node

/-- The root, the cache and the device agree on the newest node of each cluster. -/
structure CacheCoherent (l : Layout) (maps : PageMap) (ram : FtlRam) (store : UbiStore D) :
    Prop where
  cluster : ∀ cluster < pmtClusterCount l, (∃ i, CoherentSlot l maps ram store cluster i) ∨
    OnDevice l store (ram.rootTable.pageMappingNodes cluster) (maps.current cluster)
  once : ∀ cluster < pmtClusterCount l, ∀ other < pmtClusterCount l,
    PmNode.isCached (ram.rootTable.pageMappingNodes cluster) = true →
    PmNode.isCached (ram.rootTable.pageMappingNodes other) = true →
    PmNode.address (ram.rootTable.pageMappingNodes cluster) =
      PmNode.address (ram.rootTable.pageMappingNodes other) → cluster = other

/-- The newest root on the device names only pages, with the nodes that were the newest ones
when it was written. -/
def RootCoherent (l : Layout) (maps : PageMap) (store : UbiStore D) : Prop :=
  ∃ root, store.lastRoot = some root ∧ ∀ cluster < pmtClusterCount l,
    OnDevice l store (root.pageMappingNodes cluster) (maps.durable cluster)

/-- The meta page of a full block has the clusters of the nodes in it. -/
def MetaNames (l : Layout) (ram : FtlRam) (store : UbiStore D) : Prop :=
  ∀ cluster < pmtClusterCount l, ∀ content,
    store.pages (nodePlace l ram cluster).1 (l.pagePerPhyBlock - 1) = some content →
    ∃ table, content.main = .clusters table ∧ table (nodePlace l ram cluster).2 = cluster

section Coherent

variable {strict : Prop} {map nodes : Nat → Nat → Nat} {place : Nat → Place} {current : Place}
  {reclaimBlock i cluster : Nat} {ram : FtlRam} {store : UbiStore D} {maps : PageMap}

theorem nodeOn_place {open_ : Option Place} {erased : Option Nat} {used : Nat → Prop}
    {values : Nat → Nat → Nat} (fit : l.NodesFit)
    (placed : Placed (nodeFormat l D) (pmtClusterCount l) place values open_ erased used
      store.pages)
    (isCluster : cluster < pmtClusterCount l) (intact : erased ≠ some (place cluster).1) :
    nodeOn l store (placeWord l (place cluster)) = some (values cluster) := by
  obtain ⟨inArea, inBlock⟩ := placed.inArea cluster isCluster
  have isPage := Nat.lt_trans inBlock fit.width_lt
  obtain ⟨⟨main, spare⟩, programmed, holds⟩ := placed.stored cluster isCluster intact
  obtain rfl : main = .node (values cluster) := holds
  rw [nodeOn, fit.block_place inArea isPage, fit.page_place inArea isPage, programmed]

theorem NodesKept.visible {open_ : Option Place} {erased : Option Nat}
    (kept : NodesKept l i map place nodes open_ erased ram store) (fit : l.NodesFit)
    (isCluster : cluster < pmtClusterCount l) :
    visibleNode l ram store cluster = some (map cluster) := by
  unfold visibleNode
  rcases kept.cached.cluster cluster isCluster with onPage | ⟨k, behind, isSlot, inSlot⟩
  · rw [onPage.word, isCached_placeWord, if_neg Bool.false_ne_true,
      nodeOn_place fit kept.placed isCluster onPage.intact, onPage.node]
  · have registered := Cached.registered fit isCluster isSlot inSlot.inSlot
    have aligned := (kept.cached.slot k behind registered).2.2
    rw [if_pos (inSlot.isSlotWord.isCached aligned), inSlot.isSlotWord.address aligned,
      slotAt_slotAddress isSlot, Option.map_some, inSlot.words]

theorem NodesKept.metaNames {open_ : Option Place}
    (kept : NodesKept l i map place nodes open_ (some reclaimBlock) ram store) (fit : l.NodesFit) :
    MetaNames l ram store := by
  intro cluster isCluster content programmed
  have here : nodePlace l ram cluster = place cluster :=
    nodePlace_eq fit kept.placed.inArea (fun _ => kept.cached.nodeWord_eq fit) isCluster
  rw [here] at programmed ⊢
  have width : (nodeFormat l D).width = l.pagePerPhyBlock - 1 := rfl
  have intact : some reclaimBlock ≠ some (place cluster).1 := by
    intro same
    have blank := (kept.placed.blank _ same).2 _ (Nat.le_refl _)
    rw [width, programmed] at blank
    exact Option.some_ne_none _ blank
  have closed : ¬ IsOpen open_ (place cluster).1 := by
    rintro ⟨page, isOpen⟩
    obtain ⟨_, le, _, _, behind⟩ := kept.placed.atEnd _ _ isOpen
    have blank := behind _ le (Nat.le_refl _)
    rw [width, programmed] at blank
    exact Option.some_ne_none _ blank
  obtain ⟨content', programmed', named⟩ := kept.placed.named cluster isCluster intact closed
  rw [width, programmed] at programmed'
  rw [Option.some.inj programmed']
  exact named

/-! ## Between two calls -/

theorem NamedNodes.onDevice {root : Root} {counts : Nat → Nat}
    (named : NamedNodes l strict map place current reclaimBlock root counts store)
    (fit : l.NodesFit) (isCluster : cluster < pmtClusterCount l) :
    OnDevice l store (root.pageMappingNodes cluster) (map cluster) := by
  have intact : some reclaimBlock ≠ some (place cluster).1 := fun same =>
    named.free cluster isCluster (Option.some.inj same).symm
  rw [named.words cluster isCluster]
  exact ⟨isCached_placeWord l _, nodeOn_place fit named.placed isCluster intact⟩

theorem NodesLeft.rootCoherent (fit : l.NodesFit) (left : NodesLeft l strict maps.durable store) :
    RootCoherent l maps store := by
  obtain ⟨tables, _, root, place, current, reclaimBlock, last, named⟩ := left
  exact ⟨root, last, fun cluster isCluster => named.onDevice fit isCluster⟩

theorem Working.coherentSlot
    (atRest : AtRest l strict maps.current place nodes current reclaimBlock ram store)
    (fit : l.NodesFit) (isCluster : cluster < pmtClusterCount l) (isSlot : i < pmtCacheCount l)
    (inSlot : InSlot l maps.current place nodes (some reclaimBlock) ram cluster i) :
    CoherentSlot l maps ram store cluster i := by
  have cached := atRest.kept.cached
  have registered := Cached.registered fit isCluster isSlot inSlot.inSlot
  have aligned := (cached.slot i (Nat.zero_le i) registered).2.2
  refine ⟨isSlot, inSlot.inSlot, fun k isSlot' same => ?_, inSlot.isSlotWord, inSlot.words,
    fun clean => ?_⟩
  · have registered' := Cached.registered fit isCluster isSlot' same
    exact cached.once k i registered' registered (same.trans inSlot.inSlot.symm)
  · rcases inSlot.state with ⟨_, node, intact⟩ | dirty
    · rw [inSlot.origin, nodeOn_place fit atRest.kept.placed isCluster intact, node, inSlot.words]
    · rw [dirty, isDirty_setDirty aligned] at clean
      exact absurd clean.symm Bool.false_ne_true

theorem NodesPowered.coherent (fit : l.NodesFit) (powered : NodesPowered l strict maps ram store) :
    CacheCoherent l maps ram store := by
  obtain ⟨place, nodes, current, reclaimBlock, _, atRest⟩ := powered
  have inSlots : ∀ cluster < pmtClusterCount l,
      PmNode.isCached (ram.rootTable.pageMappingNodes cluster) = true →
      ∃ k < pmtCacheCount l, slotAddress l k % 4 = 0 ∧
        InSlot l maps.current place nodes (some reclaimBlock) ram cluster k := by
    intro cluster isCluster isCached
    rcases atRest.cases fit isCluster with onPage | inSlot
    · rw [onPage.word, isCached_placeWord] at isCached
      exact absurd isCached Bool.false_ne_true
    · exact inSlot
  constructor
  · intro cluster isCluster
    rcases atRest.cases fit isCluster with onPage | ⟨k, isSlot, _, inSlot⟩
    · refine Or.inr ?_
      rw [onPage.word]
      refine ⟨isCached_placeWord l _, ?_⟩
      rw [nodeOn_place fit atRest.kept.placed isCluster onPage.intact, onPage.node]
    · exact Or.inl ⟨k, atRest.coherentSlot fit isCluster isSlot inSlot⟩
  · intro cluster isCluster other isOther isCached isCached' same
    obtain ⟨k, _, aligned, inSlot⟩ := inSlots cluster isCluster isCached
    obtain ⟨j, _, aligned', inSlot'⟩ := inSlots other isOther isCached'
    rw [inSlot.isSlotWord.address aligned, inSlot'.isSlotWord.address aligned'] at same
    rw [← inSlot.inSlot, ← inSlot'.inSlot, slotAddress_inj same]

theorem NamedNodes.coherent
    (named : NamedNodes l strict maps.current place current reclaimBlock ram.rootTable
      ram.blockDirtyTable store) (fit : l.NodesFit) : CacheCoherent l maps ram store := by
  refine ⟨fun cluster isCluster => Or.inr (named.onDevice fit isCluster), ?_⟩
  intro cluster isCluster _ _ isCached
  rw [(named.onDevice fit isCluster).1] at isCached
  exact absurd isCached Bool.false_ne_true

/-- In a run whose reclaims are not given the reclaim block itself and do not copy to a block
that a slot still to be written was loaded from, and whose mounts know the clusters in the
current block, the cache and the newest root are coherent between all calls. -/
theorem nodeRun_coherent {fuel : Nat} {memory : Memory} (fit : l.NodesFit) (three : ThreeTables l)
    (run : NodeRun l (reclaimWhere l (targetIsFree l) fuel) (MetaKnown l) memory store maps) :
    NodeRun l (pmtReclaimBlocks l fuel) (MetaKnown l) memory store maps ∧
      RootCoherent l maps store ∧ ∀ ram, memory.Has ram → CacheCoherent l maps ram store := by
  have hold := (run.hold fit three (good_targetIsFree fit)).2
  refine ⟨run.agrees agrees_reclaimWhere, hold.left.rootCoherent fit, fun ram has => ?_⟩
  rcases has with rfl | rfl
  · obtain ⟨_, _, place, current, reclaimBlock, named⟩ := hold
    exact named.coherent fit
  · exact NodesPowered.coherent fit hold

theorem keptRun_targetIsFree :
    keptRun (reclaimWhere (simLayout 0x10000) (targetIsFree (simLayout 0x10000)) 4) = true := by
  set_option maxRecDepth 100000 in decide +kernel

/-- The cache and the newest root are coherent behind commits, two mounts and a reclaim. -/
theorem nodeRun_coherent_simLayout :
    ∃ (ram : FtlRam) (store : UbiStore Nat) (maps : PageMap),
      NodeRun (simLayout 0x10000) (pmtReclaimBlocks (simLayout 0x10000) 4)
        (MetaKnown (simLayout 0x10000)) (.mounted ram) store maps ∧
        (RootCoherent (simLayout 0x10000) maps store ∧
          ∀ ram', Memory.Has (.mounted ram) ram' →
            CacheCoherent (simLayout 0x10000) maps ram' store) ∧
        pmtTarget (simLayout 0x10000) ram = 6 := by
  obtain ⟨ram, store, maps, run, target⟩ := nodeRun_simLayout keptRun_targetIsFree
  obtain ⟨ofCode, coherent⟩ := nodeRun_coherent nodesFit_simLayout threeTables_simLayout run
  exact ⟨ram, store, maps, ofCode, coherent, target⟩

/-- The block that was filled across a loss of power is erased with nodes that the root names. -/
theorem pmtCommit_loses_coherence :
    ∃ (ram : FtlRam) (store : UbiStore Nat) (maps : PageMap),
      NodeRun (simLayout 0x10000) (pmtReclaimBlocks (simLayout 0x10000) 4) (fun _ _ => True)
        (.mounted ram) store maps ∧ ¬ CacheCoherent (simLayout 0x10000) maps ram store := by
  have run : lossyRun (fillingCalls ++ [.commit]) (fun ram store =>
      decide (ram.rootTable.pageMappingNodes 4 % 4 = 1) &&
        (nodeOn (simLayout 0x10000) store (ram.rootTable.pageMappingNodes 4)).isNone) = true := by
    set_option maxRecDepth 100000 in decide +kernel
  obtain ⟨ram, store, maps, run, facts⟩ := of_lossyRun good_fillingCalls_commit run
  obtain ⟨modulus, blank⟩ := Bool.and_eq_true_iff.mp facts
  have onNand := of_decide_eq_true modulus
  refine ⟨ram, store, maps, run, fun coherent => ?_⟩
  rcases coherent.cluster 4 (by decide) with ⟨i, inSlot⟩ | ⟨_, onPage⟩
  · have aligned : slotAddress (simLayout 0x10000) i % 4 = 0 := by
      have size : (simLayout 0x10000).g.mppSize = 4 * 2048 := by decide
      have start : (simLayout 0x10000).nodeCaches = 0x10000 := rfl
      rw [slotAddress, size, start]
      omega
    rcases inSlot.word.mod aligned with ⟨wrong, _⟩ | ⟨wrong, _⟩ <;> omega
  · rw [onPage] at blank
    exact absurd blank Bool.false_ne_true

/-! ## Reclaims -/

/-- The calls of the reclaim in a commit: the meta pages have the clusters of the nodes, and
the reclaim changes nothing that a search finds. -/
def ReclaimsKeepNodes (l : Layout) (reclaim : FtlCode D Status) (maps : PageMap) (ram : FtlRam)
    (store : UbiStore D) : Prop :=
  ∀ i ram₁ mid, ((commitUpTo l reclaim i).run ram).exec (storeMachine l.g l.capacity) store =
      .ok ((.success, ram₁), mid) →
    MetaNames l ram₁ mid ∧
      ∀ ret ram' after, (reclaim.run ram₁).exec (storeMachine l.g l.capacity) mid =
          .ok ((ret, ram'), after) →
        ∀ cluster < pmtClusterCount l,
          visibleNode l ram' after cluster = visibleNode l ram₁ mid cluster ∧
            visibleNode l ram' after cluster = some (maps.current cluster)

/-- In such a run, no reclaim loses a node. -/
theorem nodeRun_reclaimsKeepNodes {fuel : Nat} (fit : l.NodesFit) (three : ThreeTables l)
    (run : NodeRun l (reclaimWhere l (targetIsFree l) fuel) (MetaKnown l) (.mounted ram)
      store maps) :
    NodeRun l (pmtReclaimBlocks l fuel) (MetaKnown l) (.mounted ram) store maps ∧
      MetaNames l ram store ∧
        ReclaimsKeepNodes l (reclaimWhere l (targetIsFree l) fuel) maps ram store := by
  have good : GoodReclaim (D := D) l False (reclaimWhere l (targetIsFree l) fuel) :=
    good_targetIsFree fit
  have powered : NodesPowered l False maps ram store := (run.hold fit three good).2
  refine ⟨run.agrees agrees_reclaimWhere, ?_, fun i ram₁ mid call => ?_⟩
  · obtain ⟨_, _, _, _, _, atRest⟩ := powered
    exact atRest.kept.metaNames fit
  · have found : OnReturn l (commitUpTo l (reclaimWhere l (targetIsFree l) fuel) i)
        (fun _ ram₁ mid => ∃ place nodes reclaimBlock,
          Closed l False (i + 1) maps.current place nodes reclaimBlock ram₁ mid) ram store :=
      onReturn_commitUpTo fit good powered fun _ _ _ _ _ closed => ⟨_, _, _, closed⟩
    obtain ⟨place, nodes, reclaimBlock, closed⟩ := found.of_run call
    refine ⟨closed.kept.metaNames fit, fun ret ram' after reclaims cluster isCluster => ?_⟩
    obtain ⟨_, _, _, _, working⟩ := (good.reclaims _ _ _ _ _ _ _ closed).of_run reclaims
    rw [working.kept.visible fit isCluster, closed.kept.visible fit isCluster]
    exact ⟨rfl, rfl⟩

/-- No reclaim loses a node behind commits, two mounts and an earlier reclaim. -/
theorem nodeRun_reclaimsKeepNodes_simLayout :
    ∃ (ram : FtlRam) (store : UbiStore Nat) (maps : PageMap),
      NodeRun (simLayout 0x10000) (pmtReclaimBlocks (simLayout 0x10000) 4)
        (MetaKnown (simLayout 0x10000)) (.mounted ram) store maps ∧
        (MetaNames (simLayout 0x10000) ram store ∧
          ReclaimsKeepNodes (simLayout 0x10000) (reclaimWhere (simLayout 0x10000)
            (targetIsFree (simLayout 0x10000)) 4) maps ram store) ∧
        pmtTarget (simLayout 0x10000) ram = 6 := by
  obtain ⟨ram, store, maps, run, target⟩ := nodeRun_simLayout keptRun_targetIsFree
  obtain ⟨ofCode, keeps⟩ :=
    nodeRun_reclaimsKeepNodes nodesFit_simLayout threeTables_simLayout run
  exact ⟨ram, store, maps, ofCode, keeps, target⟩

/-- The reclaim behind the third slot of the commit erases the node of the fifth cluster. -/
theorem pmtReclaim_loses_node :
    ∃ (ram : FtlRam) (store : UbiStore Nat) (maps : PageMap),
      NodeRun (simLayout 0x10000) (pmtReclaimBlocks (simLayout 0x10000) 4) (fun _ _ => True)
        (.mounted ram) store maps ∧
      ∃ (ram₁ ram₂ : FtlRam) (mid after : UbiStore Nat),
        ((commitUpTo (simLayout 0x10000) (pmtReclaimBlocks (simLayout 0x10000) 4) 2).run ram).exec
          (storeMachine (simLayout 0x10000).g (simLayout 0x10000).capacity) store =
            .ok ((.success, ram₁), mid) ∧
        ((pmtReclaimBlocks (simLayout 0x10000) 4).run ram₁).exec
          (storeMachine (simLayout 0x10000).g (simLayout 0x10000).capacity) mid =
            .ok ((.success, ram₂), after) ∧
        (visibleNode (simLayout 0x10000) ram₁ mid 4).isSome = true ∧
        (visibleNode (simLayout 0x10000) ram₂ after 4).isNone = true := by
  have run : lossyRun fillingCalls (fun ram store =>
      Code.returns (((commitUpTo (simLayout 0x10000) (pmtReclaimBlocks (simLayout 0x10000) 4)
        2).run ram).exec (storeMachine (simLayout 0x10000).g (simLayout 0x10000).capacity) store)
        fun ret ram₁ mid => decide (ret = .success) &&
      Code.returns (((pmtReclaimBlocks (simLayout 0x10000) 4).run ram₁).exec
        (storeMachine (simLayout 0x10000).g (simLayout 0x10000).capacity) mid)
        fun ret ram₂ after => decide (ret = .success) &&
          ((visibleNode (simLayout 0x10000) ram₁ mid 4).isSome &&
            (visibleNode (simLayout 0x10000) ram₂ after 4).isNone)) = true := by
    set_option maxRecDepth 100000 in decide +kernel
  obtain ⟨ram, store, maps, run, test⟩ := of_lossyRun good_fillingCalls run
  obtain ⟨_, ram₁, mid, call, test₁⟩ := Code.returns_iff.mp test
  obtain ⟨success, test₂⟩ := Bool.and_eq_true_iff.mp test₁
  obtain rfl := of_decide_eq_true success
  obtain ⟨_, ram₂, after, reclaim, test₃⟩ := Code.returns_iff.mp test₂
  obtain ⟨success', test₄⟩ := Bool.and_eq_true_iff.mp test₃
  obtain rfl := of_decide_eq_true success'
  obtain ⟨before, behind⟩ := Bool.and_eq_true_iff.mp test₄
  exact ⟨ram, store, maps, run, ram₁, ram₂, mid, after, call, reclaim, before, behind⟩

end Coherent

end OpenNfm.Ftl
