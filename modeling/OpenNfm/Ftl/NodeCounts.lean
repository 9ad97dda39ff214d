import OpenNfm.Ftl.NodeRuns

/-!
# The dirty counts of the nodes

The dirty count of a block of the page mapping table and the nodes that are valid in it make
up the pages that are programmed with nodes.  It stays so in every run whose reclaims take
neither the reclaim block nor a block that a slot still to be written was loaded from, and
whose mounts know the clusters in the current block.
-/

namespace OpenNfm.Ftl

open OpenNfm.Program

variable {l : Layout} {D : Type}

/-! ## The nodes on the device -/

/-- Where the node of a cluster is on the device: the word of the root, or the origin of the
slot that the node was loaded to. -/
def nodeWord (l : Layout) (ram : FtlRam) (cluster : Nat) : Nat :=
  if PmNode.isCached (ram.rootTable.pageMappingNodes cluster) then
    (slotOfCluster l ram cluster).elim PmNode.invalid ram.pmCacheOriginLocation
  else ram.rootTable.pageMappingNodes cluster

/-- The page that the directory names for a cluster. -/
def nodePlace (l : Layout) (ram : FtlRam) (cluster : Nat) : Place :=
  (PmNode.block l.g (nodeWord l ram cluster), PmNode.page l.g (nodeWord l ram cluster))

/-- The number of clusters whose node is in a block. -/
def nodesIn (l : Layout) (ram : FtlRam) (block : Nat) : Nat :=
  live (pmtClusterCount l) (nodePlace l ram) block

/-- The number of node pages that were programmed in a block since it was erased. -/
def programmedNodes (l : Layout) (store : UbiStore D) (block : Nat) : Nat :=
  (nodeFormat l D).programmed store.pages block

/-- The code of the page mapping table has written or erased the block: a block that it
erases is the current block or the reclaim block until it is written. -/
def Touched (l : Layout) (ram : FtlRam) (store : UbiStore D) (block : Nat) : Prop :=
  store.Used block ∨ block = pmtCurrentBlock l ram ∨ block = pmtTarget l ram

/-- The counts of the blocks that were ever written or erased are exact. -/
structure CountsExact (l : Layout) (ram : FtlRam) (store : UbiStore D) : Prop where
  blocks : ∀ block, IsPmtBlock l block → Touched l ram store block →
    ram.blockDirtyTable block + nodesIn l ram block = programmedNodes l store block
  reclaim : ram.blockDirtyTable (pmtTarget l ram) = 0
  fresh : pmtCurrentPage l ram = 0 → ram.blockDirtyTable (pmtCurrentBlock l ram) = 0

section Exact

variable {strict : Prop} {map nodes : Nat → Nat → Nat} {place : Nat → Place} {current : Place}
  {reclaimBlock i cluster : Nat} {ram : FtlRam} {store : UbiStore D} {maps : PageMap}

/-- The root and the slots name the places. -/
theorem Cached.nodeWord_eq {erased : Option Nat} (cached : Cached l i map place nodes erased ram)
    (fit : l.NodesFit) (isCluster : cluster < pmtClusterCount l) :
    nodeWord l ram cluster = placeWord l (place cluster) := by
  unfold nodeWord
  rcases cached.cluster cluster isCluster with onPage | ⟨k, behind, isSlot, inSlot⟩
  · rw [onPage.word, isCached_placeWord, if_neg Bool.false_ne_true]
  · have registered := Cached.registered fit isCluster isSlot inSlot.inSlot
    have aligned := (cached.slot k behind registered).2.2
    rw [if_pos (inSlot.isSlotWord.isCached aligned)]
    cases found : slotOfCluster l ram cluster with
    | none =>
        have missing := List.find?_eq_none.mp found k (List.mem_range.mpr isSlot)
        exact absurd (decide_eq_true inSlot.inSlot) missing
    | some j =>
        obtain ⟨isSlot', inSlot'⟩ := slotOfCluster_some found
        have registered' := Cached.registered fit isCluster isSlot' inSlot'
        obtain rfl := cached.once k j registered registered' (inSlot.inSlot.trans inSlot'.symm)
        exact inSlot.origin

theorem nodePlace_eq (fit : l.NodesFit)
    (placed : ∀ cluster < pmtClusterCount l, IsPmtBlock l (place cluster).1 ∧
      (place cluster).2 < l.pagePerPhyBlock - 1)
    (words : ∀ cluster < pmtClusterCount l, nodeWord l ram cluster = placeWord l (place cluster))
    (isCluster : cluster < pmtClusterCount l) : nodePlace l ram cluster = place cluster := by
  obtain ⟨inArea, inBlock⟩ := placed cluster isCluster
  have isPage := Nat.lt_trans inBlock fit.width_lt
  rw [nodePlace, words cluster isCluster, fit.block_place inArea isPage,
    fit.page_place inArea isPage]

/-- Counts that are exact for the places are exact for the root and the slots. -/
theorem countsExact_of_places {values : Nat → Nat → Nat} (fit : l.NodesFit)
    (placed : Placed (nodeFormat l D) (pmtClusterCount l) place values (some current)
      (some reclaimBlock) store.Used store.pages)
    (counted : Counted (nodeFormat l D) (pmtClusterCount l) place (some current)
      (fun block => block = reclaimBlock) ram.blockDirtyTable)
    (words : ∀ cluster < pmtClusterCount l, nodeWord l ram cluster = placeWord l (place cluster))
    (isCurrent : ram.rootTable.pmtCurrentBlock = placeWord l current)
    (isReclaim : ram.rootTable.pmtReclaimBlock = placeWord l (reclaimBlock, 0))
    (free : ∀ cluster < pmtClusterCount l, (place cluster).1 ≠ reclaimBlock)
    (zero : ram.blockDirtyTable reclaimBlock = 0) : CountsExact l ram store := by
  obtain ⟨block, page⟩ := current
  obtain ⟨inArea, le, intact, _⟩ := placed.atEnd block page rfl
  have isPage : page < l.pagePerPhyBlock := Nat.lt_of_le_of_lt le fit.width_lt
  have target : pmtTarget l ram = reclaimBlock := by
    rw [pmtTarget, isReclaim]
    exact fit.block_place (placed.blank reclaimBlock rfl).1 (Layout.NodesFit.positive l)
  have currentBlock : pmtCurrentBlock l ram = block := by
    rw [pmtCurrentBlock, isCurrent]
    exact fit.block_place inArea isPage
  have currentPage : pmtCurrentPage l ram = page := by
    rw [pmtCurrentPage, isCurrent]
    exact fit.page_place inArea isPage
  have sameLive : ∀ other, nodesIn l ram other = live (pmtClusterCount l) place other :=
    fun other => live_congr fun cluster isCluster =>
      congrArg Prod.fst (nodePlace_eq fit placed.inArea words isCluster)
  have notReclaim : block ≠ reclaimBlock := fun same => intact (congrArg some same.symm)
  refine ⟨fun other inArea' touched => ?_, target.symm ▸ zero, fun first => ?_⟩
  · rw [sameLive]
    by_cases isReclaim : other = reclaimBlock
    · subst isReclaim
      rw [zero, live_eq_zero.mpr free]
      exact placed.programmed_erased.symm
    · rw [counted other inArea' isReclaim]
      refine (placed.programmed_filled inArea' (fun same => isReclaim (Option.some.inj same).symm)
        ?_).symm
      rcases touched with used | isCurrent | isTarget
      · exact Or.inl used
      · exact Or.inr (isCurrent.trans currentBlock)
      · exact absurd (isTarget.trans target) isReclaim
  · have total := counted block inArea notReclaim
    simp only [ItemFormat.filled, if_true] at total
    rw [currentBlock]
    rw [currentPage] at first
    omega

theorem NodesPowered.countsExact (fit : l.NodesFit) (powered : NodesPowered l True maps ram store) :
    CountsExact l ram store := by
  obtain ⟨place, nodes, current, reclaimBlock, _, atRest⟩ := powered
  obtain ⟨free, zero⟩ := atRest.exact trivial
  exact countsExact_of_places fit atRest.kept.placed atRest.counted
    (fun cluster isCluster => atRest.kept.cached.nodeWord_eq fit isCluster) atRest.current
    atRest.reclaim free zero

theorem NamedNodes.countsExact (fit : l.NodesFit)
    (named : NamedNodes l True map place current reclaimBlock ram.rootTable ram.blockDirtyTable
      store) : CountsExact l ram store := by
  refine countsExact_of_places fit named.placed named.counted (fun cluster isCluster => ?_)
    named.current named.reclaim named.free (named.exact trivial)
  rw [nodeWord, named.words cluster isCluster, isCached_placeWord, if_neg Bool.false_ne_true]

/-- Whether the power is on with a memory, as a format or a mount has left it. -/
def Memory.Has (memory : Memory) (ram : FtlRam) : Prop :=
  memory = .formatted ram ∨ memory = .mounted ram

/-- In a run whose reclaims take a free block, and whose mounts know the clusters in the
current block, the counts are exact between all calls.  It is a run of the code itself. -/
theorem nodeRun_countsExact {fuel : Nat} {memory : Memory} (fit : l.NodesFit)
    (three : ThreeTables l)
    (run : NodeRun l (reclaimWhere l (victimIsFree l) fuel) (MetaKnown l) memory store maps)
    (has : memory.Has ram) :
    NodeRun l (pmtReclaimBlocks l fuel) (MetaKnown l) memory store maps ∧
      CountsExact l ram store := by
  refine ⟨run.agrees agrees_reclaimWhere, ?_⟩
  have hold := (run.hold fit three (good_victimIsFree fit)).2
  rcases has with rfl | rfl
  · obtain ⟨_, _, place, current, reclaimBlock, named⟩ := hold
    exact named.countsExact fit
  · exact NodesPowered.countsExact fit hold

end Exact

/-! ## Runs of the simulated device -/

theorem nodesFit_simLayout : (simLayout 0x10000).NodesFit where
  toFits := ⟨by decide, by decide, by decide⟩
  pages := by decide
  two := by decide
  inCapacity := by decide
  clusters := by decide
  valid := by decide
  slots := by decide
  counts := by decide
  perNode := by decide

theorem threeTables_simLayout : ThreeTables (simLayout 0x10000) :=
  ⟨by decide, by decide, by decide⟩

/-- The test of `MetaKnown`. -/
def metaKnown (l : Layout) (root : Root) (ram : FtlRam) : Bool :=
  ((List.range (pmtClusterCount l)).all fun cluster =>
    decide (PmNode.block l.g (root.pageMappingNodes cluster) =
      PmNode.block l.g root.pmtCurrentBlock →
      ram.metaData (PmNode.page l.g (root.pageMappingNodes cluster)) = cluster)) &&
    (List.range (l.pagePerPhyBlock - 1)).all fun page =>
      decide (ram.metaData page < pmtClusterCount l)

theorem metaKnown_eq_true {root : Root} {ram : FtlRam} (test : metaKnown l root ram = true) :
    MetaKnown l root ram := by
  obtain ⟨names, entries⟩ := Bool.and_eq_true_iff.mp test
  refine ⟨fun cluster isCluster => ?_, fun page isPage => ?_⟩
  · exact of_decide_eq_true (List.all_eq_true.mp names cluster (List.mem_range.mpr isCluster))
  · exact of_decide_eq_true (List.all_eq_true.mp entries page (List.mem_range.mpr isPage))

/-- A call of the page mapping table. -/
inductive NodeCall where
  | update (pageAddr block page : Nat)
  | commit

/-- The code of a call. -/
def NodeCall.run (l : Layout) (reclaim : FtlCode D Status) : NodeCall → FtlCode D Status
  | .update pageAddr block page => pmtUpdate l reclaim pageAddr block page
  | .commit => dataCommit l reclaim

/-- The arguments of a call are right. -/
def NodeCall.IsGood (l : Layout) : NodeCall → Prop
  | .update pageAddr block page => pageAddr < l.ftlCapacity ∧ IsDataPlace l block page
  | .commit => True

/-- Calls, as long as they succeed. -/
def nodeCalls (l : Layout) (reclaim : FtlCode D Status) : List NodeCall → FtlCode D Status
  | [] => pure .success
  | call :: rest => do
      let ret ← call.run l reclaim
      onSuccess ret (nodeCalls l reclaim rest)

theorem NodeRun.call {reclaim : FtlCode D Status} {known : Root → FtlRam → Prop} {call : NodeCall}
    {ram ram' : FtlRam} {store after : UbiStore D} {maps : PageMap} {ret : Status}
    (earlier : NodeRun l reclaim known (.mounted ram) store maps) (good : call.IsGood l)
    (run : ((call.run l reclaim).run ram).exec (storeMachine l.g l.capacity) store =
      .ok ((ret, ram'), after)) :
    ∃ maps', NodeRun l reclaim known (.mounted ram') after maps' := by
  cases call with
  | update pageAddr block page => exact ⟨_, earlier.update good.1 good.2 run⟩
  | commit => exact ⟨_, earlier.commit run⟩

theorem NodeRun.calls {reclaim : FtlCode D Status} {known : Root → FtlRam → Prop}
    {calls : List NodeCall} {ram ram' : FtlRam} {store after : UbiStore D} {maps : PageMap}
    {ret : Status} (earlier : NodeRun l reclaim known (.mounted ram) store maps)
    (good : ∀ call ∈ calls, call.IsGood l)
    (run : ((nodeCalls l reclaim calls).run ram).exec (storeMachine l.g l.capacity) store =
      .ok ((ret, ram'), after)) :
    ∃ maps', NodeRun l reclaim known (.mounted ram') after maps' := by
  induction calls generalizing ram store maps with
  | nil =>
      obtain ⟨same, rfl⟩ := Prod.mk.inj (Except.ok.inj run)
      obtain ⟨_, rfl⟩ := Prod.mk.inj same
      exact ⟨maps, earlier⟩
  | cons call rest ih =>
      obtain ⟨ret', ram₁, store₁, first, others⟩ := Code.exec_bind_eq_ok.mp run
      obtain ⟨maps₁, next⟩ := earlier.call (good call List.mem_cons_self) first
      by_cases success : ret' = .success
      · rw [success, onSuccess_success] at others
        exact ih next (fun call member => good call (List.mem_cons_of_mem _ member)) others
      · rw [onSuccess_other success] at others
        obtain ⟨same, rfl⟩ := Prod.mk.inj (Except.ok.inj others)
        obtain ⟨_, rfl⟩ := Prod.mk.inj same
        exact ⟨maps₁, next⟩

/-- An erased device, three dice of which will be busy. -/
def busyStore : UbiStore Nat where
  pages _ _ := none
  history := []
  polls := [.dieBusy, .dieBusy, .dieBusy]

/-- A page of each of the first four clusters is trimmed. -/
def trimFour : List NodeCall :=
  [0, 2048, 4096, 6144].map fun pageAddr => .update pageAddr invalidBlock invalidPage

/-- Fifteen nodes, which fill the block. -/
def fillingCalls : List NodeCall :=
  trimFour ++ .commit :: trimFour ++ .commit :: trimFour ++ .commit :: trimFour.take 3

theorem good_fillingCalls : ∀ call ∈ fillingCalls, call.IsGood (simLayout 0x10000) := by
  have trims : ∀ call ∈ trimFour, call.IsGood (simLayout 0x10000) := by
    intro call member
    obtain ⟨pageAddr, isOne, rfl⟩ := List.mem_map.mp member
    have all : ∀ pageAddr ∈ [0, 2048, 4096, 6144], pageAddr < (simLayout 0x10000).ftlCapacity := by
      decide
    exact ⟨all pageAddr isOne, Or.inr ⟨rfl, rfl⟩⟩
  intro call member
  simp only [fillingCalls, List.mem_append, List.mem_cons] at member
  rcases member with ((member | rfl | member) | rfl | member) | rfl | member
  · exact trims call member
  · trivial
  · exact trims call member
  · trivial
  · exact trims call member
  · trivial
  · exact trims call (List.mem_of_mem_take member)

theorem good_fillingCalls_commit :
    ∀ call ∈ fillingCalls ++ [NodeCall.commit], call.IsGood (simLayout 0x10000) := by
  intro call member
  rcases List.mem_append.mp member with member | member
  · exact good_fillingCalls call member
  · rw [List.mem_singleton.mp member]
    trivial

/-- The fifth cluster is mapped and the first one again, each with a commit. -/
def mapTwice : List NodeCall :=
  [.update 8192 11 0, .commit, .update 0 11 1, .commit]

theorem good_mapTwice : ∀ call ∈ mapTwice, call.IsGood (simLayout 0x10000) := by
  intro call member
  simp only [mapTwice, List.mem_cons, List.not_mem_nil, or_false] at member
  rcases member with rfl | rfl | rfl | rfl
  · exact ⟨by decide, Or.inl ⟨by decide, by decide, by decide⟩⟩
  · trivial
  · exact ⟨by decide, Or.inl ⟨by decide, by decide, by decide⟩⟩
  · trivial

/-- Format, mount, calls with commits up to the last page of the block, and with the same memory a
second mount, behind which the first commit reclaims the block. -/
def keptRun (reclaim : FtlCode Nat Status) : Bool :=
  let l := simLayout 0x10000
  let machine := storeMachine (D := Nat) l.g l.capacity
  Code.returns (((ftlFormat l).run .reset).exec machine busyStore) fun ret ram store =>
    decide (ret = .success ∧ store.roots ≤ 2 ^ 32) &&
      (store.lastRoot.all fun root => metaKnown l root ram) &&
      Code.returns (((ftlInitTables l).run ram).exec machine store) fun _ ram store =>
    Code.returns (((nodeCalls l reclaim (fillingCalls ++ [.commit])).run ram).exec machine store)
      fun _ ram store => decide (store.roots ≤ 2 ^ 32) &&
      (store.lastRoot.all fun root => metaKnown l root ram) &&
      Code.returns (((ftlInitTables l).run ram).exec machine store) fun _ ram store =>
    Code.returns (((nodeCalls l reclaim mapTwice).run ram).exec machine store)
      fun ret ram _ => decide (ret = .success ∧ pmtTarget l ram = 6)

/-- A run with commits, two mounts and a reclaim, behind which the block that was reclaimed is the
reclaim block. -/
theorem nodeRun_simLayout {reclaim : FtlCode Nat Status} (holds : keptRun reclaim = true) :
    ∃ ram store maps, NodeRun (simLayout 0x10000) reclaim (MetaKnown (simLayout 0x10000))
      (.mounted ram) store maps ∧ pmtTarget (simLayout 0x10000) ram = 6 := by
  rw [keptRun] at holds
  obtain ⟨_, ram, store, format, test⟩ := Code.returns_iff.mp holds
  obtain ⟨facts, mounts⟩ := Bool.and_eq_true_iff.mp test
  obtain ⟨success, known⟩ := Bool.and_eq_true_iff.mp facts
  obtain ⟨rfl, few⟩ := of_decide_eq_true success
  obtain ⟨_, ram₁, store₁, mount, fills⟩ := Code.returns_iff.mp mounts
  obtain ⟨_, ram₂, store₂, filled, test₁⟩ := Code.returns_iff.mp fills
  obtain ⟨facts₁, mounts₁⟩ := Bool.and_eq_true_iff.mp test₁
  obtain ⟨few₁, known₁⟩ := Bool.and_eq_true_iff.mp facts₁
  obtain ⟨_, ram₃, store₃, mount₁, maps⟩ := Code.returns_iff.mp mounts₁
  obtain ⟨_, ram₄, store₄, mapped, last⟩ := Code.returns_iff.mp maps
  obtain ⟨rfl, target⟩ := of_decide_eq_true last
  have formatted : NodeRun (simLayout 0x10000) reclaim (MetaKnown (simLayout 0x10000)) _ _ _ :=
    .format ⟨fun _ _ => rfl, rfl⟩ format
  have mounted := formatted.mount (.inr (.inl few)) (fun root last => by
    rw [last] at known
    exact metaKnown_eq_true known) mount
  obtain ⟨_, filled⟩ := mounted.calls good_fillingCalls_commit filled
  have mounted₁ := filled.mount (.inr (.inl (of_decide_eq_true few₁))) (fun root last => by
    rw [last] at known₁
    exact metaKnown_eq_true known₁) mount₁
  obtain ⟨maps, mapped⟩ := mounted₁.calls good_mapTwice mapped
  exact ⟨ram₄, store₄, maps, mapped, target⟩

/-- The counts are exact behind commits, two mounts and a reclaim. -/
theorem nodeRun_countsExact_simLayout :
    ∃ (ram : FtlRam) (store : UbiStore Nat) (maps : PageMap),
      NodeRun (simLayout 0x10000) (pmtReclaimBlocks (simLayout 0x10000) 4)
        (MetaKnown (simLayout 0x10000)) (.mounted ram) store maps ∧
        CountsExact (simLayout 0x10000) ram store ∧ pmtTarget (simLayout 0x10000) ram = 6 := by
  have holds : keptRun (reclaimWhere (simLayout 0x10000) (victimIsFree (simLayout 0x10000)) 4) =
      true := by
    set_option maxRecDepth 100000 in decide +kernel
  obtain ⟨ram, store, maps, run, target⟩ := nodeRun_simLayout holds
  obtain ⟨ofCode, exact⟩ :=
    nodeRun_countsExact nodesFit_simLayout threeTables_simLayout run (Or.inr rfl)
  exact ⟨ram, store, maps, ofCode, exact, target⟩

/-! ## A run that loses nodes -/

/-- Format, mount, one page of the fifth cluster is mapped, the power is lost, and behind the
next mount there are other calls.  The test is made at the end. -/
def lossyRun (calls : List NodeCall) (test : FtlRam → UbiStore Nat → Bool) : Bool :=
  let l := simLayout 0x10000
  let machine := storeMachine (D := Nat) l.g l.capacity
  Code.returns (((ftlFormat l).run .reset).exec machine busyStore) fun ret _ store =>
    decide (ret = .success ∧ store.roots ≤ 2 ^ 32) &&
      Code.returns (((ftlInitTables l).run .reset).exec machine store) fun _ ram store =>
    Code.returns (((nodeCalls l (pmtReclaimBlocks l 4) [.update 8192 11 0, .commit]).run ram).exec
        machine store) fun ret _ store =>
    decide (ret = .success ∧ store.roots ≤ 2 ^ 32) &&
      Code.returns (((ftlInitTables l).run .reset).exec machine store) fun _ ram store =>
    Code.returns (((nodeCalls l (pmtReclaimBlocks l 4) calls).run ram).exec machine store)
      fun ret ram store => decide (ret = .success) && test ram store

theorem of_lossyRun {calls : List NodeCall} {test : FtlRam → UbiStore Nat → Bool}
    (good : ∀ call ∈ calls, call.IsGood (simLayout 0x10000))
    (holds : lossyRun calls test = true) :
    ∃ ram store maps, NodeRun (simLayout 0x10000) (pmtReclaimBlocks (simLayout 0x10000) 4)
      (fun _ _ => True) (.mounted ram) store maps ∧ test ram store = true := by
  rw [lossyRun] at holds
  obtain ⟨_, _, _, format, test₁⟩ := Code.returns_iff.mp holds
  obtain ⟨facts, mounts⟩ := Bool.and_eq_true_iff.mp test₁
  obtain ⟨rfl, few⟩ := of_decide_eq_true facts
  obtain ⟨_, _, _, mount, maps⟩ := Code.returns_iff.mp mounts
  obtain ⟨_, _, _, mapped, test₂⟩ := Code.returns_iff.mp maps
  obtain ⟨facts, mounts'⟩ := Bool.and_eq_true_iff.mp test₂
  obtain ⟨rfl, few'⟩ := of_decide_eq_true facts
  obtain ⟨_, _, _, mount', fills⟩ := Code.returns_iff.mp mounts'
  obtain ⟨_, ram, store, filled, last⟩ := Code.returns_iff.mp fills
  have formatted : NodeRun (simLayout 0x10000) (pmtReclaimBlocks (simLayout 0x10000) 4)
    (fun _ _ => True) _ _ _ := .format ⟨fun _ _ => rfl, rfl⟩ format
  have mounted := formatted.powerOff.mount (.inr (.inl few)) (fun _ _ => trivial) mount
  have isGood : ∀ call ∈ [NodeCall.update 8192 11 0, .commit], call.IsGood (simLayout 0x10000) := by
    intro call member
    rcases List.mem_cons.mp member with rfl | member
    · exact ⟨by decide, Or.inl ⟨by decide, by decide, by decide⟩⟩
    · rw [List.mem_singleton.mp member]
      trivial
  obtain ⟨_, named⟩ := mounted.calls isGood mapped
  obtain ⟨maps, filled⟩ := (named.powerOff.mount (.inr (.inl few')) (fun _ _ => trivial)
    mount').calls good filled
  exact ⟨ram, store, maps, filled, (Bool.and_eq_true_iff.mp last).2⟩

/-- The reclaim behind the last of these nodes takes the block that was filled across the loss
of power, and erases nodes that the root still names. -/
theorem pmtReclaim_miscounts :
    ∃ (ram : FtlRam) (store : UbiStore Nat) (maps : PageMap),
      NodeRun (simLayout 0x10000) (pmtReclaimBlocks (simLayout 0x10000) 4) (fun _ _ => True)
        (.mounted ram) store maps ∧ ¬ CountsExact (simLayout 0x10000) ram store := by
  have run : lossyRun (fillingCalls ++ [.commit]) (fun ram store =>
      decide (pmtTarget (simLayout 0x10000) ram = 6 ∧ ram.blockDirtyTable 6 +
        nodesIn (simLayout 0x10000) ram 6 ≠ programmedNodes (simLayout 0x10000) store 6)) =
          true := by
    set_option maxRecDepth 100000 in decide +kernel
  obtain ⟨ram, store, maps, run, facts⟩ := of_lossyRun good_fillingCalls_commit run
  obtain ⟨target, wrong⟩ := of_decide_eq_true facts
  exact ⟨ram, store, maps, run, fun counts =>
    wrong (counts.blocks 6 ⟨by decide, by decide⟩ (Or.inr (Or.inr target.symm)))⟩

end OpenNfm.Ftl
