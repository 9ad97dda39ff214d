import OpenNfm.Ftl.LogFormat
import OpenNfm.Ftl.NodeCalls

/-!
# The nodes across mounts and formats

A mount finds the nodes that the newest root names.  It does not read the clusters of the
pages in the current block again, so the meta data in memory has to be right already.  A
format writes a node for each cluster.
-/

namespace OpenNfm.Ftl

open OpenNfm.Program

variable {l : Layout} {D : Type} {strict : Prop} {map : Nat → Nat → Nat} {place : Nat → Place}
  {current : Place} {reclaimBlock : Nat} {ram : FtlRam} {store : UbiStore D}

/-! ## Mounts -/

/-- The meta data in memory names the clusters in the current block, and only clusters. -/
structure MetaKnown (l : Layout) (root : Root) (ram : FtlRam) : Prop where
  names : ∀ cluster < pmtClusterCount l,
    PmNode.block l.g (root.pageMappingNodes cluster) = PmNode.block l.g root.pmtCurrentBlock →
    ram.metaData (PmNode.page l.g (root.pageMappingNodes cluster)) = cluster
  entries : ∀ page < l.pagePerPhyBlock - 1, ram.metaData page < pmtClusterCount l

theorem NamedNodes.mounted {root : Root} {lost : FtlRam} {after : UbiStore D} {tables : LogTables}
    (named : NamedNodes l strict map place current reclaimBlock root tables.counts store)
    (fit : l.NodesFit) (loaded : TablesLoaded l lost store tables root ram after)
    (known : MetaKnown l root lost) :
    AtRest l strict map place map current reclaimBlock ram after := by
  have placed := placed_within named.placed loaded.within fun _ => not_inTables
  have empty : EmptyCache l ram := fun k registered =>
    registered.2 (loaded.empty k registered.1)
  have counts : ∀ block, IsPmtBlock l block → ram.blockDirtyTable block = tables.counts block := by
    intro block inArea
    have := inArea.2
    have := fit.counts
    exact loaded.counts block (by omega)
  refine ⟨⟨placed, ?_, ?_, ?_⟩, ?_, loaded.current.trans named.current,
    loaded.reclaim.trans named.reclaim, fun strictly => ⟨named.free, ?_⟩⟩
  · refine ⟨fun cluster isCluster => ?_, fun k _ registered => absurd registered (empty k),
      fun k _ registered => absurd registered (empty k)⟩
    refine Or.inl ⟨?_, rfl, fun same => named.free cluster isCluster (Option.some.inj same).symm⟩
    rw [loaded.nodes]
    exact named.words cluster isCluster
  · intro cluster isCluster isOpen
    obtain ⟨inArea, inBlock⟩ := placed.inArea cluster isCluster
    have isPage := Nat.lt_trans inBlock fit.width_lt
    obtain ⟨currentArea, le, _⟩ := placed.atEnd current.1 current.2 rfl
    have names := known.names cluster isCluster
    rw [named.words cluster isCluster, named.current, fit.block_place inArea isPage,
      fit.page_place inArea isPage,
      fit.block_place currentArea (Nat.lt_of_le_of_lt le fit.width_lt)] at names
    rw [loaded.metaData]
    exact names (isOpen_some.mp isOpen)
  · intro page isPage
    rw [loaded.metaData]
    exact known.entries page isPage
  · exact named.counted.congr fun block inArea _ => counts block inArea
  · rw [counts reclaimBlock (placed.blank reclaimBlock rfl).1]
    exact named.exact strictly

/-- A mount loads the nodes that the newest root names. -/
theorem onReturn_ftlInitTables {lost : FtlRam} {post : Status → FtlRam → UbiStore D → Prop}
    (fit : l.NodesFit) (three : ThreeTables l) (left : NodesLeft l strict map store)
    (ordered : RootsOrdered l store)
    (known : ∀ root, store.lastRoot = some root → MetaKnown l root lost)
    (meets : ∀ ram' after, NodesPowered l strict ⟨map, map⟩ ram' after → post .success ram' after) :
    OnReturn l (ftlInitTables l) post lost store := by
  obtain ⟨tables, logs, root, place, current, reclaimBlock, last, named⟩ := left
  refine spec_ftlInitTables_mounted fit.toFits three logs ordered (fun _ _ => trivial) ?_
  intro root' ram' after powered loaded
  obtain rfl : root' = root := Option.some.inj (loaded.found.symm.trans last)
  obtain ⟨word, edition, last'⟩ := loaded.last
  have atRest := named.mounted fit loaded (known root' last)
  have named' : NamedNodes l strict map place current reclaimBlock
      { root' with rootCurrentJournal := word, rootEdition := edition } tables.counts after :=
    { named with placed := placed_within named.placed loaded.within fun _ => not_inTables }
  exact meets ram' after ⟨_, _, _, _, ⟨tables, powered, _, _, _, _, last', named'⟩, atRest⟩

/-! ## Formats -/

/-- The nodes of all clusters fill at most a fifth of the table, and one more block. -/
theorem clusters_fit (fit : l.NodesFit) :
    pmtClusterCount l / (l.pagePerPhyBlock - 1) + 2 ≤ l.pmtBlockCount := by
  have perNode := fit.perNode
  have two := fit.two
  have blocks := fit.blocks
  obtain ⟨k, count⟩ : ∃ k, (l.g.cfgLogBlockCount + l.pmPerNode - 1) / l.pmPerNode = k := ⟨_, rfl⟩
  have capacity : l.g.cfgLogBlockCount ≤ k * l.pmPerNode := by
    have := Nat.lt_mul_div_succ (l.g.cfgLogBlockCount + l.pmPerNode - 1) perNode
    rw [count, Nat.mul_succ, Nat.mul_comm] at this
    omega
  have positive : 0 < k := by
    rcases Nat.eq_zero_or_pos k with rfl | positive
    · omega
    · exact positive
  have pages : l.ftlCapacity ≤ k * l.pmPerNode * (l.pagePerPhyBlock - 1) := by
    refine Nat.le_trans (Nat.mul_le_mul_right _ ?_) (Nat.mul_le_mul_right _ capacity)
    have : l.capacity - 3 * l.journalBlockCount - l.pmtBlockCount - 6 ≤ l.capacity := by omega
    omega
  have clusters : pmtClusterCount l ≤ k * (l.pagePerPhyBlock - 1) := by
    refine Nat.le_of_lt_succ ((Nat.div_lt_iff_lt_mul perNode).mpr ?_)
    rw [Nat.succ_mul, Nat.mul_right_comm]
    omega
  have total : pmtClusterCount l / (l.pagePerPhyBlock - 1) ≤ k := by
    refine Nat.div_le_of_le_mul ?_
    rw [Nat.mul_comm]
    exact clusters
  rw [Layout.pmtBlockCount, count]
  omega

/-- The first clusters have got their nodes.  The block behind the current one is blank. -/
structure Formatting (l : Layout) (count block page : Nat) (place : Nat → Place) (ram : FtlRam)
    (store : UbiStore D) : Prop where
  placed : Placed (nodeFormat l D) count place (fun _ _ => PmNode.invalid) (some (block, page))
    (some (block + 1)) store.Used store.pages
  words : ∀ cluster < count, ram.rootTable.pageMappingNodes cluster = placeWord l (place cluster)
  low : ∀ cluster < count, (place cluster).1 ≤ block
  tabled : ∀ cluster < count, (place cluster).1 = block → ram.metaData (place cluster).2 = cluster
  entries : ∀ before < page, ram.metaData before < pmtClusterCount l
  counted : Counted (nodeFormat l D) count place none
    (fun other => other = block + 1 ∨ other = block) ram.blockDirtyTable
  all : live count place block = page
  blank : ∀ other > block, IsPmtBlock l other → ∀ page, store.pages other page = none
  position : count = (block - Layout.pmtStartBlock) * (l.pagePerPhyBlock - 1) + page
  behind : Layout.pmtStartBlock ≤ block

section Format

variable {count block page : Nat}

/-- The block behind the current one is in the table. -/
theorem Formatting.next_inArea (formatting : Formatting l count block page place ram store)
    (fit : l.NodesFit) (le : count ≤ pmtClusterCount l) : IsPmtBlock l (block + 1) := by
  have fits := clusters_fit fit
  have behind := formatting.behind
  have two := fit.two
  have full : block - Layout.pmtStartBlock ≤ count / (l.pagePerPhyBlock - 1) := by
    rw [Nat.le_div_iff_mul_le (by omega), formatting.position]
    omega
  have more := Nat.div_le_div_right (c := l.pagePerPhyBlock - 1) le
  refine ⟨by omega, ?_⟩
  rw [Layout.dataStartBlock]
  omega

/-- The node of the next cluster is written. -/
theorem Formatting.node (formatting : Formatting l count block page place ram store)
    (spare : Spare) (room : page < l.pagePerPhyBlock - 1) (less : count < pmtClusterCount l) :
    Formatting l (count + 1) block (page + 1) (Function.update place count (block, page))
      (setNode { ram with metaData := Function.update ram.metaData page count } count
        (PmNode.setBlockPage l.g block page))
      (store.write block page ⟨.node fun _ => PmNode.invalid, spare⟩) := by
  obtain ⟨placed, words, low, tabled, entries, counted, all, blank, position, behind⟩ := formatting
  have placeHere : Function.update place count (block, page) count = (block, page) :=
    Function.update_self _ _ _
  have placeOther :
      ∀ other < count, Function.update place count (block, page) other = place other :=
    fun other isOther => Function.update_of_ne (Nat.ne_of_lt isOther) _ _
  have cases : ∀ {other : Nat}, other < count + 1 → other = count ∨ other < count :=
    fun isOther => by omega
  have written : Placed (nodeFormat l D) (count + 1) (Function.update place count (block, page))
      (Function.update (fun _ _ => PmNode.invalid) count fun _ => PmNode.invalid)
      (some (block, page + 1)) (some (block + 1))
      (store.write block page ⟨.node fun _ => PmNode.invalid, spare⟩).Used
      (programPage store.pages block page ⟨.node fun _ => PmNode.invalid, spare⟩) :=
    placed.writeItem room (fun _ => cases) rfl fun _ => used_write.mp
  rw [Function.update_eq_self] at written
  refine ⟨written, fun cluster isCluster => ?_, fun cluster isCluster => ?_,
    fun cluster isCluster here => ?_, fun before isBefore => ?_, ?_, ?_,
      fun other later inArea => ?_,
    by omega, behind⟩
  · rcases cases isCluster with rfl | isCluster
    · rw [placeHere]
      exact Function.update_self _ _ _
    · rw [placeOther cluster isCluster, ← words cluster isCluster]
      exact Function.update_of_ne (Nat.ne_of_lt isCluster) _ _
  · rcases cases isCluster with rfl | isCluster
    · rw [placeHere]
    · rw [placeOther cluster isCluster]
      exact low cluster isCluster
  · rcases cases isCluster with rfl | isCluster
    · rw [placeHere]
      exact Function.update_self _ _ _
    · rw [placeOther cluster isCluster] at here ⊢
      have intact : some (block + 1) ≠ some (place cluster).1 := fun same => by
        have := Option.some.inj same
        omega
      have blankHere := (placed.atEnd block page rfl).2.2.2.2 page (Nat.le_refl _)
        (Nat.le_of_lt room)
      have different := placed.place_ne isCluster intact blankHere
      refine (Function.update_of_ne (fun same => different (Prod.ext here same)) _ _).trans ?_
      exact tabled cluster isCluster here
  · by_cases same : before = page
    · rw [same]
      exact Nat.lt_of_le_of_lt (Nat.le_of_eq (Function.update_self _ _ _)) less
    · exact Nat.lt_of_le_of_lt (Nat.le_of_eq (Function.update_of_ne same _ _))
        (entries before (by omega))
  · intro other inArea kept
    have before := counted other inArea kept
    have different : (Function.update place count (block, page) count).1 ≠ other := by
      rw [placeHere]
      exact fun same => kept (Or.inr same.symm)
    rw [live_succ, if_neg different, Nat.add_zero,
      live_congr fun item isItem => congrArg Prod.fst (placeOther item isItem)]
    exact before
  · rw [live_succ, placeHere, if_pos rfl,
      live_congr fun item isItem => congrArg Prod.fst (placeOther item isItem), all]
  · intro otherPage
    have different : other ≠ block := by omega
    have same : (store.write block page ⟨.node fun _ => PmNode.invalid, spare⟩).pages other =
        store.pages other := programPage_block different
    rw [same]
    exact blank other later inArea otherPage

/-- The meta page of a full block is written, and the next block is the current one. -/
theorem Formatting.close
    (formatting : Formatting l count block (l.pagePerPhyBlock - 1) place ram store)
    (fit : l.NodesFit) (le : count ≤ pmtClusterCount l) :
    Formatting l count (block + 1) 0 place (setDirtyCount block 0 ram)
      (store.write block (l.pagePerPhyBlock - 1) ⟨.clusters ram.metaData, .ones⟩) := by
  have next := formatting.next_inArea fit le
  have fits := clusters_fit fit
  have two := fit.two
  obtain ⟨placed, words, low, tabled, entries, counted, all, blank, position, behind⟩ := formatting
  have unused : ∀ cluster < count, (place cluster).1 ≠ block + 1 := fun cluster isCluster here => by
    have := low cluster isCluster
    omega
  have same : ∀ {other : Nat}, other ≠ block →
      (store.write block (l.pagePerPhyBlock - 1) ⟨.clusters ram.metaData, .ones⟩).pages other =
        store.pages other := fun different => programPage_block different
  have closed : Placed (nodeFormat l D) count place (fun _ _ => PmNode.invalid) none
      (some (block + 1))
      (store.write block (l.pagePerPhyBlock - 1) ⟨.clusters ram.metaData, .ones⟩).Used
      (store.write block (l.pagePerPhyBlock - 1) ⟨.clusters ram.metaData, .ones⟩).pages :=
    placed.close _ _
      (fun cluster isCluster here => ⟨ram.metaData, rfl, tabled cluster isCluster here⟩)
      (fun page cluster isPage ⟨table, main, named⟩ => by
        rw [← named, ← FtlPage.clusters.inj main]
        exact entries page isPage)
      fun _ => used_write.mp
  have nextNext : IsPmtBlock l (block + 2) := by
    have full : block - Layout.pmtStartBlock + 1 ≤ count / (l.pagePerPhyBlock - 1) := by
      rw [Nat.le_div_iff_mul_le (by omega), Nat.succ_mul, position]
    have more := Nat.div_le_div_right (c := l.pagePerPhyBlock - 1) le
    refine ⟨by omega, ?_⟩
    rw [Layout.dataStartBlock]
    omega
  refine ⟨(closed.openErased unused).withErased nextNext (by omega) fun page _ => ?_, words,
    fun cluster isCluster => Nat.le_succ_of_le (low cluster isCluster),
    fun cluster isCluster here => absurd here (unused cluster isCluster),
    fun before wrong => absurd wrong (Nat.not_lt_zero _), ?_, live_eq_zero.mpr unused,
    fun other later inArea page => ?_, ?_, by omega⟩
  · rw [same (by omega)]
    exact blank _ (by omega) nextNext page
  · intro other inArea kept
    by_cases here : other = block
    · rw [here]
      have counts : (setDirtyCount block 0 ram).blockDirtyTable block = 0 :=
        Function.update_self _ _ _
      rw [counts, all, Nat.zero_add]
      rfl
    · have counts : (setDirtyCount block 0 ram).blockDirtyTable other = ram.blockDirtyTable other :=
        Function.update_of_ne here _ _
      rw [counts]
      exact counted other inArea fun isEither => isEither.elim (fun same => kept (Or.inr same)) here
  · rw [same (by omega)]
    exact blank other (by omega) inArea page
  · have shift : block + 1 - Layout.pmtStartBlock = block - Layout.pmtStartBlock + 1 := by omega
    rw [shift, Nat.succ_mul, position, Nat.add_zero]

theorem onReturn_pmtFormatClusters_nodes {rounds : Nat}
    {post : Status × Nat × Nat → FtlRam → UbiStore D → Prop} (fit : l.NodesFit)
    (formatting : Formatting l count block page place ram store)
    (room : page < l.pagePerPhyBlock - 1) (total : count + rounds = pmtClusterCount l)
    (meets : ∀ block' page' place' ram' after, page' < l.pagePerPhyBlock - 1 →
      Formatting l (pmtClusterCount l) block' page' place' ram' after →
      post (.success, block', page') ram' after) :
    OnReturn l (pmtFormatClusters l rounds count block page) post ram store := by
  induction rounds generalizing count block page place ram store with
  | zero =>
      obtain rfl : count = pmtClusterCount l := total
      exact OnReturn.pure.mpr (meets _ _ _ _ _ room formatting)
  | succ rounds ih =>
      have two := fit.two
      rw [pmtFormatClusters, OnReturn.bind, pmtFormatNode, OnReturn.bind]
      refine OnReturn.write fun _ _ _ => ?_
      have written := formatting.node ⟨count, 0⟩ room (by omega)
      rw [onSuccess_success, OnReturn.bind, OnReturn.modifies, OnReturn.pure]
      dsimp only
      rw [if_pos room, if_neg fun wrong => wrong rfl]
      by_cases full : page + 1 = l.pagePerPhyBlock - 1
      · have notMore : ¬ page + 1 ≠ l.pagePerPhyBlock - 1 := fun wrong => wrong full
        rw [full] at written
        rw [if_neg notMore, OnReturn.bind, pmtFormatMeta, OnReturn.bind, OnReturn.get,
          OnReturn.bind]
        refine OnReturn.write fun _ _ _ => ?_
        rw [onSuccess_success, OnReturn.bind, OnReturn.modifies, OnReturn.pure,
          if_neg fun wrong => wrong rfl]
        exact ih (written.close fit (by omega)) (by omega) (by omega)
      · rw [if_pos full]
        exact ih written (by omega) (by omega)

/-- The memory names all nodes. -/
theorem Formatting.named {strict : Prop}
    (formatting : Formatting l (pmtClusterCount l) block page place ram store) :
    NamedNodes l strict (fun _ _ => PmNode.invalid) place (block, page) (block + 1)
      (startBlocks l block page ram).rootTable (startBlocks l block page ram).blockDirtyTable
      store where
  placed := formatting.placed
  words := formatting.words
  free cluster isCluster here := by
    have := formatting.low cluster isCluster
    omega
  counted := formatting.counted.switch formatting.all
  current := rfl
  reclaim := rfl
  exact _ := Function.update_self _ _ _

/-- `PMT_Format` writes a node for each cluster in a blank table. -/
theorem onReturn_pmtFormat_nodes {post : Status → FtlRam → UbiStore D → Prop} (fit : l.NodesFit)
    (counts : ∀ block < l.dataStartBlock, block < l.g.cfgLogBlockCount →
      ram.blockDirtyTable block = l.maxDirtyPages)
    (blank : ∀ block, IsPmtBlock l block → ∀ page, store.pages block page = none)
    (unused : ∀ block, IsPmtBlock l block → ¬ store.Used block)
    (meets : ∀ place block page ram' after, page < l.pagePerPhyBlock - 1 → (∀ strict, NamedNodes l
      strict (fun _ _ => PmNode.invalid) place (block, page) (block + 1) ram'.rootTable
      ram'.blockDirtyTable after) → post .success ram' after) :
    OnReturn l (pmtFormat l) post ram store := by
  have fits : 2 ≤ l.pmtBlockCount := Nat.le_trans (Nat.le_add_left 2 _) (clusters_fit fit)
  have two := fit.two
  have first : IsPmtBlock l Layout.pmtStartBlock := by
    refine ⟨Nat.le_refl _, ?_⟩
    rw [Layout.dataStartBlock]
    omega
  have second : IsPmtBlock l (Layout.pmtStartBlock + 1) := by
    refine ⟨Nat.le_succ _, ?_⟩
    rw [Layout.dataStartBlock]
    omega
  have start : Formatting l 0 Layout.pmtStartBlock 0 (fun _ => (0, 0)) ram store := by
    refine ⟨.start first second (by omega) blank unused, ?_, ?_, ?_, ?_, ?_, rfl, ?_, ?_,
      Nat.le_refl _⟩
    · exact fun _ wrong => absurd wrong (Nat.not_lt_zero _)
    · exact fun _ wrong => absurd wrong (Nat.not_lt_zero _)
    · exact fun _ wrong => absurd wrong (Nat.not_lt_zero _)
    · exact fun _ wrong => absurd wrong (Nat.not_lt_zero _)
    · intro block inArea _
      have isBlock := fit.isBlock inArea
      have within := fit.blocks
      rw [counts block inArea.2 (by omega), live_zero]
      rfl
    · exact fun other _ inArea page => blank other inArea page
    · rw [Nat.sub_self, Nat.zero_mul]
  rw [pmtFormat, OnReturn.bind, OnReturn.assert]
  intro _
  rw [OnReturn.bind]
  refine onReturn_pmtFormatClusters_nodes fit start (by omega) (Nat.zero_add _) ?_
  intro block page place ram' after room formatting
  dsimp only
  rw [onSuccess_success, OnReturn.bind, OnReturn.modifies, OnReturn.pure]
  exact meets place block page _ after room fun strict => formatting.named

end Format

/-- A format of a blank device leaves the nodes of logical pages that were never written. -/
theorem onReturn_ftlFormat_nodes {post : Status → FtlRam → UbiStore D → Prop}
    (fit : l.NodesFit) (three : ThreeTables l)
    (blank : ∀ block page, store.pages block page = none) (unwritten : store.history = [])
    (meets : ∀ ret ram' after, (ret = .success → ∀ strict, NodesLeft l strict
      (fun _ _ => PmNode.invalid) after ∧ after.lastRoot = some ram'.rootTable ∧
      ∃ place current reclaimBlock, NamedNodes l strict (fun _ _ => PmNode.invalid) place current
        reclaimBlock ram'.rootTable ram'.blockDirtyTable after) → post ret ram' after) :
    OnReturn l (ftlFormat l) post ram store := by
  have unused : ∀ block, ¬ store.Used block := by
    rintro block ⟨entry, member, _⟩
    rw [unwritten] at member
    exact absurd member List.not_mem_nil
  have rootWrites : store.rootWrites = [] := by
    rw [UbiStore.rootWrites, unwritten]
    rfl
  have besides : ∀ block, IsPmtBlock l block → ¬ BesidesMaps l block := by
    rintro block ⟨first, last⟩ (inTables | fromData)
    · exact Nat.not_lt.mpr first inTables
    · exact Nat.not_le.mpr last fromData
  refine onReturn_ftlFormat_done (fun ret ram' after => ret = .success →
    ∃ place block page, ∀ strict, NamedNodes l strict (fun _ _ => PmNode.invalid) place
      (block, page) (block + 1) ram'.rootTable ram'.blockDirtyTable after) fit.toFits three
    (fun pair _ block _ page => blank block page) rootWrites ?_ ?_
  · intro ram' after counts within
    refine onReturn_pmtFormat_nodes fit counts (fun block inArea page => ?_)
      (fun block inArea used => unused block (within.used (besides block inArea) used)) ?_
    · rw [within.pages block (besides block inArea)]
      exact blank block page
    · exact fun place block page ram'' after'' _ named _ => ⟨place, block, page, named⟩
  · intro ret ram₁ mid ram' after isDone whole
    refine meets ret ram' after fun success strict => ?_
    obtain ⟨place, block, page, named⟩ := isDone success
    obtain ⟨part, counts, written, powered⟩ := whole success
    have named := named strict
    have sameNodes : ram'.rootTable.pageMappingNodes = ram₁.rootTable.pageMappingNodes :=
      congrArg PmtPart.nodes part
    have final : NamedNodes l strict (fun _ _ => PmNode.invalid) place (block, page) (block + 1)
        ram'.rootTable ram'.blockDirtyTable after :=
      { placed := placed_within named.placed written.within fun _ => not_inTables
        words := sameNodes ▸ named.words
        free := named.free
        counted := counts ▸ named.counted
        current := (congrArg PmtPart.current part).trans named.current
        reclaim := (congrArg PmtPart.reclaim part).trans named.reclaim
        exact := counts ▸ named.exact }
    exact ⟨⟨ram'.tables, powered.left, _, _, _, _, written.last, final⟩, written.last, _,
      _, _, final⟩

end OpenNfm.Ftl
