import OpenNfm.Ftl.NodeTable

/-!
# The reclaim of a block of nodes

The valid pages of a block are copied to the reclaim block, which becomes the current one,
and the block is erased.  Nodes that the commit has still to write back stay behind: the
block may be erased under them.
-/

namespace OpenNfm.Ftl

open OpenNfm.Program

variable {l : Layout} {D : Type} {strict : Prop} {i : Nat} {map nodes : Nat → Nat → Nat}
  {place : Nat → Place} {ram : FtlRam} {store : UbiStore D}

/-! ## The nodes on the device and in memory -/

/-- The nodes on the device, the cache and the meta data in memory fit together. -/
structure NodesKept (l : Layout) (i : Nat) (map : Nat → Nat → Nat) (place : Nat → Place)
    (nodes : Nat → Nat → Nat) (current : Option Place) (erased : Option Nat) (ram : FtlRam)
    (store : UbiStore D) : Prop where
  placed : Placed (nodeFormat l D) (pmtClusterCount l) place nodes current erased store.Used
    store.pages
  cached : Cached l i map place nodes erased ram
  tabled : ∀ cluster < pmtClusterCount l, IsOpen current (place cluster).1 →
    ram.metaData (place cluster).2 = cluster
  entries : ∀ page < l.pagePerPhyBlock - 1, ram.metaData page < pmtClusterCount l

/-- Some pages of the victim have been copied to the reclaim block.  What is left behind are
nodes that the commit has still to write back. -/
structure Copying (l : Layout) (strict : Prop) (i : Nat) (map : Nat → Nat → Nat)
    (place : Nat → Place) (nodes : Nat → Nat → Nat) (victim reclaimBlock page reclaimPage : Nat)
    (ram : FtlRam) (store : UbiStore D) : Prop where
  kept : NodesKept l i map place nodes (some (reclaimBlock, reclaimPage)) none ram store
  counted : Counted (nodeFormat l D) (pmtClusterCount l) place none
    (fun block => block = victim ∨ block = reclaimBlock) ram.blockDirtyTable
  all : live (pmtClusterCount l) place reclaimBlock = reclaimPage
  passed : ∀ cluster < pmtClusterCount l, (place cluster).1 = victim →
    (place cluster).2 < page → Pending ram cluster
  safe : strict → ∀ cluster < pmtClusterCount l, (place cluster).1 = victim → ¬ Pending ram cluster
  le : reclaimPage ≤ page
  apart : victim ≠ reclaimBlock
  inArea : IsPmtBlock l victim

section Copy

variable {victim reclaimBlock page reclaimPage cluster : Nat}

theorem onReturn_rootNode {post : Nat → FtlRam → UbiStore D → Prop}
    (meets : cluster < l.maxPmClusters → post (ram.rootTable.pageMappingNodes cluster) ram store) :
    OnReturn l (rootNode l cluster) post ram store := by
  rw [rootNode, OnReturn.bind, OnReturn.get]
  split
  · rename_i isCluster
    exact OnReturn.pure.mpr (meets isCluster)
  · exact OnReturn.halt

theorem completes_rootNode {post : Nat → FtlRam → UbiStore D → Prop}
    (isCluster : cluster < l.maxPmClusters) :
    Completes l (rootNode l cluster) post ram store ↔
      post (ram.rootTable.pageMappingNodes cluster) ram store := by
  rw [rootNode, Completes.bind, Completes.get, if_pos isCluster, Completes.pure]

/-- Where a node is valid: nowhere if it is pending, and else at its place. -/
theorem completes_pmtValidNode {erased : Option Nat}
    {post : Nat × Option Nat → FtlRam → UbiStore D → Prop}
    (cached : Cached l i map place nodes erased ram) (fit : l.NodesFit)
    (isCluster : cluster < pmtClusterCount l)
    (pending : Pending ram cluster → post (PmNode.invalid, none) ram store)
    (valid : ¬ Pending ram cluster → ∀ cleared,
      (∀ k, i ≤ k → k < pmtCacheCount l → ram.pmCacheCluster k = cluster → cleared = some k) →
      (∀ k, cleared = some k → ram.pmCacheCluster k = cluster) →
      post (placeWord l (place cluster), cleared) ram store) :
    Completes l (pmtValidNode l cluster) post ram store := by
  rw [pmtValidNode, Completes.bind, completes_rootNode (Nat.lt_of_lt_of_le isCluster fit.clusters)]
  rcases cached.cluster cluster isCluster with onPage | ⟨k, behind, isSlot, inSlot⟩
  · have uncached : ¬ PmNode.isCached (ram.rootTable.pageMappingNodes cluster) = true := by
      rw [onPage.word, isCached_placeWord]
      exact Bool.false_ne_true
    rw [if_neg uncached, Completes.pure, onPage.word]
    refine valid onPage.not_pending none (fun k behind isSlot inSlot => ?_)
      fun k wrong => absurd wrong.symm (Option.some_ne_none k)
    have registered := Cached.registered fit isCluster isSlot inSlot
    obtain ⟨_, isSlotWord, aligned⟩ := cached.slot k behind registered
    rw [slotWord, inSlot, onPage.word] at isSlotWord
    exact absurd rfl (isSlotWord.ne_place aligned (place cluster))
  · have registered := Cached.registered fit isCluster isSlot inSlot.inSlot
    have aligned := (cached.slot k behind registered).2.2
    have isCached := inSlot.isSlotWord.isCached aligned
    rw [if_pos isCached]
    rcases inSlot.state with ⟨clean, _⟩ | dirty
    · have notDirty : ¬ PmNode.isDirty (ram.rootTable.pageMappingNodes cluster) = true := by
        rw [clean, isDirty_clean aligned]
        exact Bool.false_ne_true
      rw [if_neg notDirty, Completes.bind, Completes.get]
      cases found : slotOfCluster l ram cluster with
      | none =>
          have missing := List.find?_eq_none.mp found k (List.mem_range.mpr isSlot)
          exact absurd (decide_eq_true inSlot.inSlot) missing
      | some j =>
          obtain ⟨isSlot', inSlot'⟩ := slotOfCluster_some found
          have registered' := Cached.registered fit isCluster isSlot' inSlot'
          obtain rfl := cached.once k j registered registered' (inSlot.inSlot.trans inSlot'.symm)
          rw [Completes.pure, inSlot.origin]
          refine valid (fun wrong => notDirty wrong.2) (some k) (fun m _ isSlot'' inSlot'' => ?_)
            fun m same => ?_
          · have registered'' := Cached.registered fit isCluster isSlot'' inSlot''
            rw [cached.once k m registered registered'' (inSlot.inSlot.trans inSlot''.symm)]
          · rw [← Option.some.inj same]
            exact inSlot.inSlot
    · have isDirty : PmNode.isDirty (ram.rootTable.pageMappingNodes cluster) = true := by
        rw [dirty]
        exact isDirty_setDirty aligned
      rw [if_pos isDirty, Completes.pure]
      exact pending ⟨isCached, isDirty⟩

/-! ### One page -/

section MoveNode

variable {word : Nat} {cleared : Option Nat}

theorem moveNode_words : (moveNode cluster word page cleared ram).rootTable.pageMappingNodes =
    Function.update ram.rootTable.pageMappingNodes cluster word := by
  cases cleared <;> rfl

theorem moveNode_metaData : (moveNode cluster word page cleared ram).metaData =
    Function.update ram.metaData page cluster := by
  cases cleared <;> rfl

theorem moveNode_counts :
    (moveNode cluster word page cleared ram).blockDirtyTable = ram.blockDirtyTable := by
  cases cleared <;> rfl

theorem moveNode_cluster (k : Nat) : (moveNode cluster word page cleared ram).pmCacheCluster k =
    if cleared = some k then invalidCluster else ram.pmCacheCluster k := by
  cases cleared with
  | none => rfl
  | some j =>
      by_cases same : j = k
      · rw [same, if_pos rfl]
        exact Function.update_self _ _ _
      · rw [if_neg fun wrong => same (Option.some.inj wrong)]
        exact Function.update_of_ne (Ne.symm same) _ _

theorem moveNode_origin {k : Nat} (other : cleared ≠ some k) :
    (moveNode cluster word page cleared ram).pmCacheOriginLocation k =
      ram.pmCacheOriginLocation k := by
  cases cleared with
  | none => rfl
  | some j => exact Function.update_of_ne (fun same => other (congrArg some same.symm)) _ _

theorem moveNode_caches {k : Nat} (other : cleared ≠ some k) :
    (moveNode cluster word page cleared ram).pmNodeCaches k = ram.pmNodeCaches k := by
  cases cleared with
  | none => rfl
  | some j => exact Function.update_of_ne (fun same => other (congrArg some same.symm)) _ _

end MoveNode

theorem Pending.congr {ram' : FtlRam}
    (same : ram'.rootTable.pageMappingNodes cluster = ram.rootTable.pageMappingNodes cluster) :
    Pending ram' cluster ↔ Pending ram cluster := by
  rw [Pending, Pending, same]

theorem Copying.copyPage {cleared : Option Nat} {spare : Spare} (fit : l.NodesFit)
    (copying : Copying l strict i map place nodes victim reclaimBlock page reclaimPage ram store)
    (isCluster : cluster < pmtClusterCount l) (here : place cluster = (victim, page))
    (isPage : page < l.pagePerPhyBlock - 1) (valid : ¬ Pending ram cluster)
    (slots : ∀ k, i ≤ k → k < pmtCacheCount l → ram.pmCacheCluster k = cluster → cleared = some k)
    (clears : ∀ k, cleared = some k → ram.pmCacheCluster k = cluster) :
    Copying l strict i map (Function.update place cluster (reclaimBlock, reclaimPage)) nodes victim
      reclaimBlock (page + 1) (reclaimPage + 1)
      (moveNode cluster (placeWord l (reclaimBlock, reclaimPage)) reclaimPage cleared ram)
      (store.write reclaimBlock reclaimPage ⟨.node (nodes cluster), spare⟩) := by
  obtain ⟨⟨placed, cached, tabled, entries⟩, counted, all, passed, safe, le, apart,
    inArea⟩ := copying
  have room : reclaimPage < (nodeFormat l D).width := Nat.lt_of_le_of_lt le isPage
  have placeHere : Function.update place cluster (reclaimBlock, reclaimPage) cluster =
      (reclaimBlock, reclaimPage) := Function.update_self _ _ _
  have placeOther : ∀ other, other ≠ cluster →
      Function.update place cluster (reclaimBlock, reclaimPage) other = place other :=
    fun other different => Function.update_of_ne different _ _
  have pendingOther : ∀ other, other ≠ cluster →
      (Pending (moveNode cluster (placeWord l (reclaimBlock, reclaimPage)) reclaimPage cleared ram)
        other ↔ Pending ram other) := fun other different =>
    Pending.congr (by rw [moveNode_words, Function.update_of_ne different])
  have stays :
      ∀ other, (Function.update place cluster (reclaimBlock, reclaimPage) other).1 = victim →
      other ≠ cluster := by
    rintro other inVictim rfl
    rw [placeHere] at inVictim
    exact apart inVictim.symm
  have written : Placed (nodeFormat l D) (pmtClusterCount l)
      (Function.update place cluster (reclaimBlock, reclaimPage))
      (Function.update nodes cluster (nodes cluster)) (some (reclaimBlock, reclaimPage + 1)) none
      (store.write reclaimBlock reclaimPage ⟨.node (nodes cluster), spare⟩).Used
      (programPage store.pages reclaimBlock reclaimPage ⟨.node (nodes cluster), spare⟩) :=
    placed.writeItem room (fun other isOther => Or.inr isOther) rfl fun _ => used_write.mp
  rw [Function.update_eq_self] at written
  refine ⟨⟨written, ?_, ?_, ?_⟩, ?_, ?_, ?_, ?_, Nat.succ_le_succ le, apart, inArea⟩
  · refine cached.move fit isCluster valid slots clears moveNode_words moveNode_cluster
      (fun _ => moveNode_origin) (fun _ => moveNode_caches) placeOther ?_
        (Option.some_ne_none _).symm
    rw [placeHere]
  · intro other isOther isOpen
    rw [isOpen_some] at isOpen
    rw [moveNode_metaData]
    by_cases same : other = cluster
    · rw [same, placeHere, Function.update_self]
    · rw [placeOther other same] at isOpen ⊢
      have blank := (placed.atEnd _ _ rfl).2.2.2.2 reclaimPage (Nat.le_refl _) (Nat.le_of_lt room)
      have different := placed.place_ne isOther (Option.some_ne_none _).symm blank
      rw [Function.update_of_ne fun equal => different (Prod.ext isOpen equal)]
      exact tabled other isOther (isOpen_some.mpr isOpen)
  · intro other isOther
    rw [moveNode_metaData]
    by_cases same : other = reclaimPage
    · rw [same, Function.update_self]
      exact isCluster
    · rw [Function.update_of_ne same]
      exact entries other isOther
  · rw [moveNode_counts]
    exact counted.moveSkipped isCluster (Or.inl (congrArg Prod.fst here)) (Or.inr rfl)
  · have moved := live_update place isCluster (reclaimBlock, reclaimPage) reclaimBlock
    rw [here, if_neg apart, if_pos rfl, all] at moved
    exact moved
  · intro other isOther inVictim before
    have different := stays other inVictim
    rw [placeOther other different] at inVictim before
    rw [pendingOther other different]
    rcases Nat.lt_succ_iff_lt_or_eq.mp before with before | last
    · exact passed other isOther inVictim before
    · have same : place other = place cluster :=
        (Prod.ext inVictim last : place other = _).trans here.symm
      exact absurd (placed.distinct other isOther cluster isCluster same) different
  · intro strictly other isOther inVictim
    have different := stays other inVictim
    rw [placeOther other different] at inVictim
    rw [pendingOther other different]
    exact safe strictly other isOther inVictim

/-- A page is not copied because it is not valid. -/
theorem Copying.passPage
    (copying : Copying l strict i map place nodes victim reclaimBlock page reclaimPage ram store)
    (invalid : ∀ cluster < pmtClusterCount l, place cluster = (victim, page) →
      Pending ram cluster) :
    Copying l strict i map place nodes victim reclaimBlock (page + 1) reclaimPage ram store where
  kept := copying.kept
  counted := copying.counted
  all := copying.all
  passed other isOther inVictim before := by
    rcases Nat.lt_succ_iff_lt_or_eq.mp before with before | last
    · exact copying.passed other isOther inVictim before
    · exact invalid other isOther (Prod.ext inVictim last)
  safe := copying.safe
  le := Nat.le_succ_of_le copying.le
  apart := copying.apart
  inArea := copying.inArea

/-! ### All pages -/

/-- There are no more copies than nodes in the block. -/
theorem completes_pmtCopyPages {clusters : Nat → Nat} {rounds most : Nat}
    {post : Nat × Status → FtlRam → UbiStore D → Prop} (fit : l.NodesFit)
    (copying : Copying l strict i map place nodes victim reclaimBlock page reclaimPage ram store)
    (names : ∀ cluster < pmtClusterCount l, (place cluster).1 = victim →
      clusters (place cluster).2 = cluster)
    (entries : ∀ page < l.pagePerPhyBlock - 1, clusters page < pmtClusterCount l)
    (total : page + rounds = l.pagePerPhyBlock - 1)
    (few : live (pmtClusterCount l) place victim + reclaimPage ≤ most)
    (meets : ∀ place' reclaimPage' ram' after, reclaimPage' ≤ most →
      Copying l strict i map place' nodes victim reclaimBlock (l.pagePerPhyBlock - 1) reclaimPage'
        ram' after → post (reclaimPage', .success) ram' after) :
    Completes l (pmtCopyPages l clusters victim reclaimBlock rounds page reclaimPage .success) post
      ram store := by
  induction rounds generalizing place page reclaimPage ram store with
  | zero =>
      obtain rfl : page = l.pagePerPhyBlock - 1 := total
      exact Completes.pure.mpr (meets _ _ _ _ (by omega) copying)
  | succ rounds ih =>
      have isPage : page < l.pagePerPhyBlock - 1 := by omega
      have isCluster := entries page isPage
      have onPage : ∀ cluster < pmtClusterCount l, place cluster = (victim, page) →
          cluster = clusters page := by
        intro cluster isCluster here
        have named := names cluster isCluster (congrArg Prod.fst here)
        rw [here] at named
        exact named.symm
      rw [pmtCopyPages, Completes.bind]
      refine completes_pmtValidNode copying.kept.cached fit isCluster ?_ ?_
      · intro pending
        have notCopied : ¬ (PmNode.invalid ≠ PmNode.invalid ∧
            PmNode.block l.g PmNode.invalid = victim ∧ PmNode.page l.g PmNode.invalid = page) :=
          fun wrong => wrong.1 rfl
        dsimp only
        rw [if_neg notCopied]
        refine ih (copying.passPage fun cluster isCluster' here => ?_) names (by omega) few
        rw [onPage cluster isCluster' here]
        exact pending
      · intro valid cleared slots clears
        obtain ⟨inArea, inBlock⟩ := copying.kept.placed.inArea _ isCluster
        have inBlock' : (place (clusters page)).2 < l.pagePerPhyBlock :=
          Nat.lt_trans inBlock fit.width_lt
        dsimp only
        rw [fit.block_place inArea inBlock', fit.page_place inArea inBlock']
        by_cases here : place (clusters page) = (victim, page)
        · have copied : placeWord l (place (clusters page)) ≠ PmNode.invalid ∧
              (place (clusters page)).1 = victim ∧ (place (clusters page)).2 = page := by
            rw [here]
            exact ⟨placeWord_ne_invalid l _, rfl, rfl⟩
          rw [if_pos copied, Completes.bind, pmtCopyPage, Completes.bind]
          obtain ⟨content, programmed, holds⟩ :=
            copying.kept.placed.stored _ isCluster (Option.some_ne_none _).symm
          rw [here] at programmed
          obtain ⟨reclaimArea, inWidth, _, _, behind⟩ := copying.kept.placed.atEnd _ _ rfl
          have width_lt := fit.width_lt
          have blank := behind reclaimPage (Nat.le_refl _) inWidth
          have isPage' : reclaimPage < l.g.pagePerPhyBlock := Nat.lt_of_le_of_lt inWidth width_lt
          rw [Completes.read (fit.isBlock copying.inArea) (Nat.lt_trans isPage width_lt) programmed,
            onSuccess_success, Completes.bind,
            Completes.write (fit.isBlock reclaimArea) isPage' blank,
            onSuccess_success, Completes.bind, Completes.modifies, Completes.pure, if_pos rfl]
          have main : content.main = .node (nodes (clusters page)) := holds
          rw [main]
          have moved := live_update place isCluster (reclaimBlock, reclaimPage) victim
          rw [here, if_pos rfl, if_neg copying.apart.symm] at moved
          refine ih (copying.copyPage fit isCluster here isPage valid slots clears) ?_ (by omega)
            (by omega)
          intro cluster isCluster' inVictim
          have different : cluster ≠ clusters page := by
            rintro rfl
            rw [Function.update_self] at inVictim
            exact copying.apart inVictim.symm
          rw [Function.update_of_ne different] at inVictim ⊢
          exact names cluster isCluster' inVictim
        · have notCopied : ¬ (placeWord l (place (clusters page)) ≠ PmNode.invalid ∧
              (place (clusters page)).1 = victim ∧ (place (clusters page)).2 = page) :=
            fun wrong => here (Prod.ext wrong.2.1 wrong.2.2)
          rw [if_neg notCopied]
          refine ih (copying.passPage fun cluster isCluster' here' => ?_) names (by omega) few
          rw [onPage cluster isCluster' here'] at here'
          exact absurd here' here

end Copy

/-! ## The whole reclaim -/

/-- While the commit goes through the slots, a block is open and another one erased.  If
strict counts are kept, nothing is left in the erased block. -/
structure Working (l : Layout) (strict : Prop) (i : Nat) (map : Nat → Nat → Nat)
    (place : Nat → Place) (nodes : Nat → Nat → Nat) (current : Place) (reclaimBlock : Nat)
    (ram : FtlRam) (store : UbiStore D) : Prop where
  kept : NodesKept l i map place nodes (some current) (some reclaimBlock) ram store
  counted : Counted (nodeFormat l D) (pmtClusterCount l) place (some current)
    (fun block => block = reclaimBlock) ram.blockDirtyTable
  current : ram.rootTable.pmtCurrentBlock = placeWord l current
  reclaim : ram.rootTable.pmtReclaimBlock = placeWord l (reclaimBlock, 0)
  exact : strict → (∀ cluster < pmtClusterCount l, (place cluster).1 ≠ reclaimBlock) ∧
    ram.blockDirtyTable reclaimBlock = 0

/-- The open block is full, and its meta page is written. -/
structure Closed (l : Layout) (strict : Prop) (i : Nat) (map : Nat → Nat → Nat)
    (place : Nat → Place) (nodes : Nat → Nat → Nat) (reclaimBlock : Nat)
    (ram : FtlRam) (store : UbiStore D) : Prop where
  kept : NodesKept l i map place nodes none (some reclaimBlock) ram store
  counted : Counted (nodeFormat l D) (pmtClusterCount l) place none
    (fun block => block = reclaimBlock) ram.blockDirtyTable
  reclaim : ram.rootTable.pmtReclaimBlock = placeWord l (reclaimBlock, 0)
  exact : strict → (∀ cluster < pmtClusterCount l, (place cluster).1 ≠ reclaimBlock) ∧
    ram.blockDirtyTable reclaimBlock = 0

section Reclaim

variable {victim reclaimBlock reclaimPage : Nat}

theorem Layout.NodesFit.positive (l : Layout) : 0 < l.pagePerPhyBlock :=
  l.g.pagePerPhyBlock_pos

/-- Nothing has been copied yet. -/
theorem Closed.copying (closed : Closed l strict i map place nodes reclaimBlock ram store)
    (fit : l.NodesFit) (inArea : IsPmtBlock l victim) (other : victim ≠ reclaimBlock)
    (free : ∀ cluster < pmtClusterCount l, (place cluster).1 ≠ reclaimBlock)
    (safe : strict → ∀ cluster < pmtClusterCount l, (place cluster).1 = victim →
      ¬ Pending ram cluster) :
    Copying l strict i map place nodes victim reclaimBlock 0 0 ram store where
  kept :=
    { placed := closed.kept.placed.openErased free
      cached := closed.kept.cached.withErased fit fun _ _ _ => (Option.some_ne_none _).symm
      tabled := fun cluster isCluster isOpen =>
        absurd (isOpen_some.mp isOpen) (free cluster isCluster)
      entries := closed.kept.entries }
  counted := closed.counted.mono fun _ => Or.inr
  all := live_eq_zero.mpr free
  passed _ _ _ before := absurd before (Nat.not_lt_zero _)
  safe := safe
  le := Nat.le_refl _
  apart := other
  inArea := inArea

/-- Everything valid has been copied, and the block is erased. -/
theorem Copying.working (fit : l.NodesFit)
    (copying : Copying l strict i map place nodes victim reclaimBlock (l.pagePerPhyBlock - 1)
      reclaimPage ram store) :
    Working l strict i map place nodes (reclaimBlock, reclaimPage) victim
      (switchBlocks l victim reclaimBlock reclaimPage ram) (store.erase victim) := by
  obtain ⟨⟨placed, cached, tabled, entries⟩, counted, all, passed, safe, _, apart,
    inArea⟩ := copying
  have left : ∀ cluster < pmtClusterCount l, (place cluster).1 = victim → Pending ram cluster :=
    fun cluster isCluster inVictim =>
      passed cluster isCluster inVictim (placed.inArea cluster isCluster).2
  refine ⟨⟨placed.erase inArea apart, ?_, tabled, entries⟩, counted.switch all, rfl, rfl, ?_⟩
  · refine (cached.withErased fit fun cluster isCluster valid same => ?_).congr rfl rfl rfl rfl
    exact valid (left cluster isCluster (Option.some.inj same).symm)
  · refine fun strictly => ⟨fun cluster isCluster inVictim => ?_, Function.update_self _ _ _⟩
    exact safe strictly cluster isCluster inVictim (left cluster isCluster inVictim)

/-- A block without valid pages is erased, and becomes the current one. -/
theorem Closed.restart (closed : Closed l strict i map place nodes reclaimBlock ram store)
    (inArea : IsPmtBlock l victim) (other : victim ≠ reclaimBlock)
    (unused : live (pmtClusterCount l) place victim = 0) :
    Working l strict i map place nodes (victim, 0) reclaimBlock (restartBlock l victim ram)
      (store.erase victim) := by
  obtain ⟨⟨placed, cached, _, entries⟩, counted, reclaim, exact⟩ := closed
  have empty := live_eq_zero.mp unused
  refine ⟨⟨placed.restart inArea (fun same => other (Option.some.inj same).symm) empty,
    cached.congr rfl rfl rfl rfl, fun cluster isCluster isOpen => ?_, entries⟩,
    counted.restart unused, rfl, reclaim, fun strictly => ?_⟩
  · exact absurd (isOpen_some.mp isOpen) (empty cluster isCluster)
  · obtain ⟨free, zero⟩ := exact strictly
    exact ⟨free, (Function.update_of_ne (Ne.symm other) _ _).trans zero⟩

/-- A reclaim of a block other than the erased one loses no node, and frees the pages that
were dirty. -/
theorem completes_pmtReclaimBlock {post : Status → FtlRam → UbiStore D → Prop}
    (fit : l.NodesFit) (closed : Closed l strict i map place nodes reclaimBlock ram store)
    (inArea : IsPmtBlock l victim) (other : victim ≠ reclaimBlock)
    (free : ∀ cluster < pmtClusterCount l, (place cluster).1 ≠ reclaimBlock)
    (safe : strict → ∀ cluster < pmtClusterCount l, (place cluster).1 = victim →
      ¬ Pending ram cluster)
    (meets : ∀ place' current reclaimBlock' ram' after,
      current.2 + ram.blockDirtyTable victim ≤ l.pagePerPhyBlock - 1 →
      Working l strict i map place' nodes current reclaimBlock' ram' after →
      post .success ram' after) :
    Completes l (pmtReclaimBlock l victim) post ram store := by
  have total : ram.blockDirtyTable victim + live (pmtClusterCount l) place victim =
      l.pagePerPhyBlock - 1 := closed.counted victim inArea other
  have reclaimArea := (closed.kept.placed.blank reclaimBlock rfl).1
  have reclaimHere : PmNode.block l.g ram.rootTable.pmtReclaimBlock = reclaimBlock := by
    rw [closed.reclaim]
    exact fit.block_place reclaimArea (Layout.NodesFit.positive l)
  rw [pmtReclaimBlock, Completes.bind, Completes.get, reclaimHere]
  by_cases valid : l.maxDirtyPages - ram.blockDirtyTable victim ≠ 0
  · rw [if_pos valid, Completes.bind, pmtCopyBlock, Completes.bind]
    have some : ¬ live (pmtClusterCount l) place victim = 0 := by
      rw [Layout.maxDirtyPages] at valid
      omega
    rw [live_eq_zero] at some
    push Not at some
    obtain ⟨first, isFirst, inVictim⟩ := some
    have intact : Option.some reclaimBlock ≠ Option.some victim :=
      fun same => other (Option.some.inj same).symm
    obtain ⟨content, programmed, table, main, _⟩ :=
      closed.kept.placed.named first isFirst (inVictim ▸ intact) not_isOpen_none
    rw [inVictim] at programmed
    have width : (nodeFormat l D).width = l.pagePerPhyBlock - 1 := rfl
    rw [width] at programmed
    rw [Completes.read (fit.isBlock inArea) fit.width_lt programmed, if_pos rfl, main,
      Completes.bind, loadClusters, Completes.pure]
    refine completes_pmtCopyPages fit (closed.copying fit inArea other free safe) ?_ ?_
      (Nat.zero_add _) (Nat.le_refl _) ?_
    · intro cluster isCluster inVictim'
      obtain ⟨content', programmed', table', main', named⟩ :=
        closed.kept.placed.named cluster isCluster (inVictim' ▸ intact) not_isOpen_none
      rw [inVictim', width, programmed] at programmed'
      obtain rfl := Option.some.inj programmed'
      rw [main] at main'
      rw [FtlPage.clusters.inj main']
      exact named
    · intro page isPage
      exact closed.kept.placed.entries victim content page (table page) inArea programmed isPage
        ⟨table, main, rfl⟩
    · intro place' reclaimPage' ram' after few copying
      dsimp only
      rw [onSuccess_success, pmtErase, Completes.bind, Completes.erase (fit.isBlock inArea),
        onSuccess_success, Completes.bind, Completes.modifies, Completes.pure]
      exact meets _ _ _ _ _ (by dsimp only; omega) (copying.working fit)
  · rw [if_neg valid, pmtErase, Completes.bind, Completes.erase (fit.isBlock inArea),
      onSuccess_success, Completes.bind, Completes.modifies, Completes.pure]
    have unused : live (pmtClusterCount l) place victim = 0 := by
      rw [Layout.maxDirtyPages] at valid
      omega
    exact meets _ _ _ _ _ (by dsimp only; omega) (closed.restart inArea other unused)

end Reclaim

end OpenNfm.Ftl
