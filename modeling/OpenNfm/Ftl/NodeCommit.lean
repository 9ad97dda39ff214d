import OpenNfm.Ftl.NodeReclaim

/-!
# The commit of the nodes

`PMT_Commit` goes through the slots of the cache.  A clean slot gives its cluster the page
back that the slot was loaded from, a dirty slot is written to the current page, and a
full block gets its meta page and makes room for another one.  The reclaim in the middle
is right as long as it takes neither the reclaim block nor, for the counts to be exact, a
block that a dirty slot was loaded from.
-/

namespace OpenNfm.Ftl

open OpenNfm.Program

variable {l : Layout} {D : Type} {strict : Prop} {i : Nat} {map nodes : Nat → Nat → Nat}
  {place : Nat → Place} {ram : FtlRam} {store : UbiStore D}

/-! ## The search for a block -/

section Search

variable {target nextCount rounds fuel : Nat}

theorem onReturn_pmtFindDirty {blocks : List Nat}
    {post : Option Nat × Nat → FtlRam → UbiStore D → Prop}
    (meets : ∀ found count polls, (∀ i, found = some i → i ∈ blocks) →
      post (found, count) ram { store with polls := polls }) :
    OnReturn l (pmtFindDirty target blocks nextCount) post ram store := by
  induction blocks generalizing nextCount store with
  | nil =>
      refine OnReturn.pure.mpr (meets none nextCount store.polls fun i same => ?_)
      exact absurd same.symm (Option.some_ne_none i)
  | cons block rest ih =>
      have later : ∀ count polls, OnReturn l (pmtFindDirty target rest count) post ram
          { store with polls := polls } := fun count polls =>
        ih fun found count polls member => meets found count polls fun i same =>
          List.mem_cons_of_mem _ (member i same)
      rw [pmtFindDirty, OnReturn.bind, OnReturn.get]
      split
      · rw [OnReturn.bind]
        refine OnReturn.readStatus fun ret polls => ?_
        split
        · refine OnReturn.pure.mpr (meets _ _ polls fun i same => ?_)
          rw [← Option.some.inj same]
          exact List.mem_cons_self
        · exact later _ polls
      · exact later _ store.polls

/-- The search changes nothing, and ends at a block of the page mapping table. -/
theorem onReturn_pmtFindLoop {post : Nat → FtlRam → UbiStore D → Prop}
    (meets : ∀ i polls, IsPmtBlock l i → post i ram { store with polls := polls }) :
    OnReturn l (pmtFindLoop l rounds target nextCount) post ram store := by
  induction rounds generalizing target nextCount store with
  | zero => exact OnReturn.halt
  | succ rounds ih =>
      rw [pmtFindLoop, OnReturn.bind]
      refine onReturn_pmtFindDirty fun found count polls member => ?_
      cases found with
      | none => exact ih meets
      | some i => exact OnReturn.pure.mpr (meets i polls (List.mem_range'_1.mp (member i rfl)))

end Search

/-! ## Reclaims that are right -/

/-- A slot that the commit has still to write back was loaded from a block. -/
def pendingIn (l : Layout) (ram : FtlRam) (block : Nat) : Bool :=
  (List.range (pmtCacheCount l)).any fun k =>
    decide (Registered l ram k) && PmNode.isCached (slotWord ram k) &&
      PmNode.isDirty (slotWord ram k) &&
      decide (PmNode.block l.g (ram.pmCacheOriginLocation k) = block)

/-- The reclaim block, to which the nodes are copied. -/
def pmtTarget (l : Layout) (ram : FtlRam) : Nat := PmNode.block l.g ram.rootTable.pmtReclaimBlock

/-- The block to reclaim is not the reclaim block, and no slot that the commit has still to
write back was loaded from the reclaim block. -/
def targetIsFree (l : Layout) (block : Nat) (ram : FtlRam) : Bool :=
  decide (block ≠ pmtTarget l ram) && !pendingIn l ram (pmtTarget l ram)

/-- The block to reclaim is not the reclaim block, and no slot that the commit has still to
write back was loaded from it. -/
def victimIsFree (l : Layout) (block : Nat) (ram : FtlRam) : Bool :=
  decide (block ≠ pmtTarget l ram) && !pendingIn l ram block

/-- `pmt_reclaim_blocks`, which stops unless a condition holds of the block that it finds. -/
def reclaimWhere (l : Layout) (condition : Nat → FtlRam → Bool) (fuel : Nat) :
    FtlCode D Status := do
  let i ← pmtFindLoop l fuel l.maxDirtyPages 0
  let ram ← get
  Code.assert (condition i ram = true)
  pmtReclaimBlock l i

/-- A reclaim loses no node, and leaves a block open for the next ones. -/
def Reclaims (l : Layout) (strict : Prop) (reclaim : FtlCode D Status) : Prop :=
  ∀ i map place nodes reclaimBlock ram store,
    Closed l strict i map place nodes reclaimBlock ram store →
    OnReturn l reclaim (fun ret ram' after => ret = .success ∧
      ∃ place' current reclaimBlock', Working l strict i map place' nodes current reclaimBlock' ram'
        after) ram store

section Reclaims

variable {erased : Option Nat} {block cluster reclaimBlock fuel : Nat}

/-- If no slot to be written was loaded from a block, the nodes in it are not pending. -/
theorem Cached.not_pending_in (cached : Cached l i map place nodes erased ram) (fit : l.NodesFit)
    (isCluster : cluster < pmtClusterCount l) (inArea : IsPmtBlock l (place cluster).1)
    (isPage : (place cluster).2 < l.pagePerPhyBlock)
    (free : pendingIn l ram (place cluster).1 = false) : ¬ Pending ram cluster := by
  intro pending
  rcases cached.cluster cluster isCluster with onPage | ⟨k, behind, isSlot, inSlot⟩
  · exact onPage.not_pending pending
  · have registered := Cached.registered fit isCluster isSlot inSlot.inSlot
    have origin : PmNode.block l.g (ram.pmCacheOriginLocation k) = (place cluster).1 := by
      rw [inSlot.origin]
      exact fit.block_place inArea isPage
    have word : slotWord ram k = ram.rootTable.pageMappingNodes cluster := by
      rw [slotWord, inSlot.inSlot]
    have found := List.any_eq_false.mp free k (List.mem_range.mpr isSlot)
    refine found ?_
    rw [word, pending.1, pending.2, origin]
    simp [registered]

theorem Closed.target (closed : Closed l strict i map place nodes reclaimBlock ram store)
    (fit : l.NodesFit) : pmtTarget l ram = reclaimBlock := by
  rw [pmtTarget, closed.reclaim]
  exact fit.block_place (closed.kept.placed.blank reclaimBlock rfl).1
    (Layout.NodesFit.positive l)

theorem Closed.not_pending_in (closed : Closed l strict i map place nodes reclaimBlock ram store)
    (fit : l.NodesFit) (free : pendingIn l ram block = false) :
    ∀ cluster < pmtClusterCount l, (place cluster).1 = block → ¬ Pending ram cluster := by
  intro cluster isCluster here
  obtain ⟨inArea, inBlock⟩ := closed.kept.placed.inArea cluster isCluster
  refine closed.kept.cached.not_pending_in fit isCluster inArea
    (Nat.lt_trans inBlock fit.width_lt) ?_
  rw [here]
  exact free

theorem Closed.withPolls (closed : Closed l strict i map place nodes reclaimBlock ram store)
    (polls : List Status) :
    Closed l strict i map place nodes reclaimBlock ram { store with polls := polls } :=
  ⟨⟨closed.kept.placed, closed.kept.cached, closed.kept.tabled, closed.kept.entries⟩,
    closed.counted, closed.reclaim, closed.exact⟩

/-- If no slot to be written was loaded from the reclaim block, no node is in it. -/
theorem Closed.target_free (closed : Closed l strict i map place nodes reclaimBlock ram store)
    (fit : l.NodesFit) (free : pendingIn l ram (pmtTarget l ram) = false) :
    ∀ cluster < pmtClusterCount l, (place cluster).1 ≠ reclaimBlock := by
  intro cluster isCluster here
  rw [closed.target fit] at free
  have notPending := closed.not_pending_in fit free cluster isCluster here
  exact (closed.kept.cached.stored fit isCluster notPending).2 (congrArg some here.symm)

theorem reclaims_where {condition : Nat → FtlRam → Bool} (fit : l.NodesFit)
    (right : ∀ i map place nodes reclaimBlock ram (store : UbiStore D) victim,
      Closed l strict i map place nodes reclaimBlock ram store → condition victim ram = true →
      victim ≠ reclaimBlock ∧ (∀ cluster < pmtClusterCount l, (place cluster).1 ≠ reclaimBlock) ∧
        (strict → ∀ cluster < pmtClusterCount l, (place cluster).1 = victim →
          ¬ Pending ram cluster)) :
    Reclaims (D := D) l strict (reclaimWhere l condition fuel) := by
  intro i map place nodes reclaimBlock ram store closed
  rw [reclaimWhere, OnReturn.bind]
  refine onReturn_pmtFindLoop fun victim polls inArea => ?_
  rw [OnReturn.bind, OnReturn.get, OnReturn.bind, OnReturn.assert]
  intro holds
  obtain ⟨other, free, safe⟩ := right _ _ _ _ _ _ _ victim closed holds
  refine (completes_pmtReclaimBlock fit (closed.withPolls polls) inArea other free safe ?_).spec
  exact fun place' current reclaimBlock' _ _ _ working =>
    ⟨rfl, place', current, reclaimBlock', working⟩

/-- No node is lost if no slot to be written was loaded from the reclaim block. -/
theorem reclaims_targetIsFree (fit : l.NodesFit) :
    Reclaims (D := D) l False (reclaimWhere l (targetIsFree l) fuel) := by
  refine reclaims_where fit fun i map place nodes reclaimBlock ram store victim closed holds => ?_
  obtain ⟨other, free⟩ := Bool.and_eq_true_iff.mp holds
  rw [closed.target fit] at other
  exact ⟨of_decide_eq_true other, closed.target_free fit (Bool.not_eq_true' _ ▸ free),
    fun wrong => wrong.elim⟩

/-- The counts stay exact if no slot to be written was loaded from the block. -/
theorem reclaims_victimIsFree (fit : l.NodesFit) :
    Reclaims (D := D) l True (reclaimWhere l (victimIsFree l) fuel) := by
  refine reclaims_where fit fun i map place nodes reclaimBlock ram store victim closed holds => ?_
  obtain ⟨other, free⟩ := Bool.and_eq_true_iff.mp holds
  rw [closed.target fit] at other
  exact ⟨of_decide_eq_true other, (closed.exact trivial).1,
    fun _ => closed.not_pending_in fit (Bool.not_eq_true' _ ▸ free)⟩

end Reclaims

/-! ## One slot -/

section Slot

variable {current : Place} {block page reclaimBlock : Nat} {reclaim : FtlCode D Status}

/-- The memory after one more dirty page in a block. -/
def countDirty (block : Nat) (ram : FtlRam) : FtlRam :=
  setDirtyCount block ((ram.blockDirtyTable block + 1) % 2 ^ 8) ram

theorem onReturn_addDirty {post : Unit → FtlRam → UbiStore D → Prop}
    (meets : post () (countDirty block ram) store) :
    OnReturn l (addDirty l block) post ram store := by
  rw [addDirty, OnReturn.bind, OnReturn.modifies, OnReturn.bind, OnReturn.get, OnReturn.assert]
  exact fun _ => meets

theorem Working.current_block (working : Working l strict i map place nodes current reclaimBlock
    ram store) (fit : l.NodesFit) : pmtCurrentBlock l ram = current.1 := by
  obtain ⟨inArea, le, _⟩ := working.kept.placed.atEnd current.1 current.2 rfl
  rw [pmtCurrentBlock, working.current]
  exact fit.block_place inArea (Nat.lt_of_le_of_lt le fit.width_lt)

theorem Working.current_page (working : Working l strict i map place nodes current reclaimBlock
    ram store) (fit : l.NodesFit) : pmtCurrentPage l ram = current.2 := by
  obtain ⟨inArea, le, _⟩ := working.kept.placed.atEnd current.1 current.2 rfl
  rw [pmtCurrentPage, working.current]
  exact fit.page_place inArea (Nat.lt_of_le_of_lt le fit.width_lt)

theorem Working.skip (working : Working l strict i map place nodes current reclaimBlock ram store)
    (fit : l.NodesFit) (empty : ram.pmCacheCluster i = invalidCluster) :
    Working l strict (i + 1) map place nodes current reclaimBlock ram store :=
  { working with
    kept := { working.kept with cached := working.kept.cached.skip fit empty } }

/-- A clean slot gives its cluster the page back. -/
theorem Working.giveBack (working : Working l strict i map place nodes current reclaimBlock ram
      store) (fit : l.NodesFit) (registered : Registered l ram i)
        (clean : slotWord ram i = slotAddress l i) :
    Working l strict (i + 1) map place nodes current reclaimBlock
      (setNode ram (ram.pmCacheCluster i) (ram.pmCacheOriginLocation i)) store := by
  obtain ⟨⟨placed, cached, tabled, entries⟩, counted, current, reclaim, exact⟩ := working
  have inSlot := cached.holds (Nat.le_refl i) registered
  have stored := cached.stored fit (cached.slot i (Nat.le_refl i) registered).1
    (cached.not_pending (Nat.le_refl i) registered clean)
  exact
    { kept :=
        { placed := placed
          cached := cached.past registered rfl rfl rfl rfl (fun _ _ => rfl) (fun _ _ => rfl)
            inSlot.origin stored.1 stored.2
          tabled := tabled
          entries := entries }
      counted := counted
      current := current
      reclaim := reclaim
      exact := exact }

/-- A dirty slot is written to the current page. -/
theorem Working.storeNode {spare : Spare}
    (working : Working l strict i map place nodes (block, page)
      reclaimBlock ram store) (fit : l.NodesFit) (registered : Registered l ram i)
    (room : page < l.pagePerPhyBlock - 1) :
    Working l strict (i + 1) map (Function.update place (ram.pmCacheCluster i) (block, page))
      (Function.update nodes (ram.pmCacheCluster i) (map (ram.pmCacheCluster i))) (block, page + 1)
      reclaimBlock
      (countDirty (place (ram.pmCacheCluster i)).1 (storedNode l i block page ram))
      (store.write block page ⟨.node (ram.pmNodeCaches i), spare⟩) := by
  obtain ⟨⟨placed, cached, tabled, entries⟩, counted, current, reclaim, exact⟩ := working
  have inSlot := cached.holds (Nat.le_refl i) registered
  have isCluster := (cached.slot i (Nat.le_refl i) registered).1
  obtain ⟨isArea, le, notErased, _, behind⟩ := placed.atEnd block page rfl
  have placeHere : ∀ c, Function.update place c (block, page) c = (block, page) := fun c =>
    Function.update_self _ _ _
  have placeOther : ∀ c other, other ≠ c →
      Function.update place c (block, page) other = place other :=
    fun c other different => Function.update_of_ne different _ _
  have holds : (nodeFormat l D).holds (map (ram.pmCacheCluster i))
      ⟨.node (ram.pmNodeCaches i), spare⟩ := congrArg FtlPage.node inSlot.words
  have blank := behind page (Nat.le_refl _) (Nat.le_of_lt room)
  refine ⟨⟨placed.writeItem room (fun _ => Or.inr) holds fun _ => used_write.mp, ?_, ?_, ?_⟩,
    ?_, rfl, reclaim, ?_⟩
  · refine cached.past registered rfl rfl rfl rfl (placeOther _)
      (fun _ different => Function.update_of_ne different _ _) ?_ (Function.update_self _ _ _) ?_
    · rw [placeHere]
      rfl
    · rw [placeHere]
      exact notErased
  · intro other isOther isOpen
    rw [isOpen_some] at isOpen
    have tables : (countDirty (place (ram.pmCacheCluster i)).1
        (storedNode l i block page ram)).metaData =
      Function.update ram.metaData page (ram.pmCacheCluster i) := rfl
    rw [tables]
    by_cases same : other = ram.pmCacheCluster i
    · rw [same, placeHere, Function.update_self]
    · rw [placeOther _ other same] at isOpen ⊢
      have different := placed.place_ne isOther (isOpen ▸ notErased) blank
      rw [Function.update_of_ne fun equal => different (Prod.ext isOpen equal)]
      exact tabled other isOther (isOpen_some.mpr isOpen)
  · intro other isOther
    have tables : (countDirty (place (ram.pmCacheCluster i)).1
        (storedNode l i block page ram)).metaData =
      Function.update ram.metaData page (ram.pmCacheCluster i) := rfl
    rw [tables]
    by_cases same : other = page
    · rw [same, Function.update_self]
      exact isCluster
    · rw [Function.update_of_ne same]
      exact entries other isOther
  · refine (counted.moveItem isCluster).congr fun other inArea kept => ?_
    by_cases same : other = (place (ram.pmCacheCluster i)).1
    · subst same
      have small := counted.lt_width isCluster inArea kept
      have bound : (nodeFormat l D).filled (some (block, page)) (place (ram.pmCacheCluster i)).1 ≤
          (nodeFormat l D).width := filled_le le _
      have width : (nodeFormat l D).width = l.pagePerPhyBlock - 1 := rfl
      have pages := fit.pages
      rw [Function.update_self]
      refine (Function.update_self _ _ _).trans (Nat.mod_eq_of_lt ?_)
      have same : (storedNode l i block page ram).blockDirtyTable = ram.blockDirtyTable := rfl
      rw [same]
      omega
    · rw [Function.update_of_ne same]
      exact Function.update_of_ne same _ _
  · intro strictly
    obtain ⟨free, zero⟩ := exact strictly
    refine ⟨fun other isOther => ?_, ?_⟩
    · by_cases same : other = ram.pmCacheCluster i
      · rw [same, placeHere]
        exact fun here => notErased (congrArg some here.symm)
      · rw [placeOther _ other same]
        exact free other isOther
    · refine (Function.update_of_ne ?_ _ _).trans zero
      exact (free _ isCluster).symm

theorem onReturn_pmtWriteSlot {post : Status → FtlRam → UbiStore D → Prop}
    (working : Working l strict i map place nodes current reclaimBlock ram store)
    (fit : l.NodesFit) (registered : Registered l ram i)
    (meets : ∀ place' nodes' current' ram' after,
      Working l strict (i + 1) map place' nodes' current' reclaimBlock ram' after →
      post .success ram' after) :
    OnReturn l (pmtWriteSlot l i .success) post ram store := by
  obtain ⟨block, page⟩ := current
  have inSlot := working.kept.cached.holds (Nat.le_refl i) registered
  obtain ⟨inArea, inBlock⟩ := working.kept.placed.inArea _
    (working.kept.cached.slot i (Nat.le_refl i) registered).1
  have le := (working.kept.placed.atEnd block page rfl).2.1
  have width : (nodeFormat l D).width = l.pagePerPhyBlock - 1 := rfl
  have two := fit.two
  have inPages : pmtCurrentPage l ram ≠ l.pagePerPhyBlock := by
    rw [working.current_page fit]
    dsimp only
    omega
  rw [pmtWriteSlot, OnReturn.bind, OnReturn.get, if_pos inPages, OnReturn.bind, OnReturn.assert,
    working.current_page fit]
  intro notLast
  have room : page < l.pagePerPhyBlock - 1 := by
    dsimp only at notLast
    omega
  rw [onSuccess_success, pmtStoreNode, OnReturn.bind, OnReturn.get, OnReturn.bind,
    working.current_block fit, working.current_page fit, inSlot.origin,
    fit.block_place inArea (Nat.lt_trans inBlock fit.width_lt)]
  refine OnReturn.write fun _ _ _ => ?_
  rw [onSuccess_success, OnReturn.bind, OnReturn.modifies, OnReturn.bind]
  exact onReturn_addDirty (OnReturn.pure.mpr
    (meets _ _ _ _ _ (working.storeNode fit registered room)))

/-- The meta page of the full block is written. -/
theorem Working.close (working : Working l strict i map place nodes
      (block, l.pagePerPhyBlock - 1) reclaimBlock ram store) :
    Closed l strict i map place nodes reclaimBlock ram
      (store.write block (l.pagePerPhyBlock - 1) ⟨.clusters ram.metaData, .ones⟩) := by
  obtain ⟨⟨placed, cached, tabled, entries⟩, counted, _, reclaim, exact⟩ := working
  have closed := placed.close ⟨.clusters ram.metaData, .ones⟩
    (store.write block (l.pagePerPhyBlock - 1) ⟨.clusters ram.metaData, .ones⟩).Used
    (fun cluster isCluster here =>
      ⟨ram.metaData, rfl, tabled cluster isCluster (isOpen_some.mpr here)⟩)
    (fun page cluster isPage ⟨table, main, named⟩ => by
      rw [← named, ← FtlPage.clusters.inj main]
      exact entries page isPage)
    fun _ => used_write.mp
  exact ⟨⟨closed, cached, fun _ _ isOpen => absurd isOpen not_isOpen_none, entries⟩, counted.close,
    reclaim, exact⟩

theorem onReturn_pmtNextBlock {post : Status → FtlRam → UbiStore D → Prop}
    (working : Working l strict i map place nodes current reclaimBlock ram store)
    (fit : l.NodesFit) (reclaims : Reclaims l strict reclaim)
    (meets : ∀ place' current' reclaimBlock' ram' after,
      Working l strict i map place' nodes current' reclaimBlock' ram' after →
      post .success ram' after) :
    OnReturn l (pmtNextBlock l reclaim .success) post ram store := by
  obtain ⟨block, page⟩ := current
  rw [pmtNextBlock, OnReturn.bind, OnReturn.get, working.current_page fit]
  by_cases full : page = l.pagePerPhyBlock - 1
  · subst full
    rw [if_pos rfl, onSuccess_success, pmtFinishBlock, OnReturn.bind, OnReturn.get, OnReturn.bind,
      working.current_block fit, working.current_page fit]
    refine OnReturn.write fun _ _ _ => ?_
    rw [onSuccess_success, OnReturn.bind, OnReturn.flush, onSuccess_success]
    refine (reclaims _ _ _ _ _ _ _ working.close).mono fun ret ram' after result => ?_
    obtain ⟨rfl, place', current', reclaimBlock', working'⟩ := result
    exact meets _ _ _ _ _ working'
  · rw [if_neg full, OnReturn.pure]
    exact meets _ _ _ _ _ working

end Slot

/-! ## The commit -/

section Commit

variable {current : Place} {reclaimBlock : Nat} {reclaim : FtlCode D Status}

theorem onReturn_pmtCommitSlots {rounds last : Nat} {post : Status → FtlRam → UbiStore D → Prop}
    (working : Working l strict i map place nodes current reclaimBlock ram store)
    (fit : l.NodesFit) (reclaims : Reclaims l strict reclaim) (total : i + rounds = last)
    (le : last ≤ pmtCacheCount l)
    (meets : ∀ place' nodes' current' reclaimBlock' ram' after,
      Working l strict last map place' nodes' current' reclaimBlock' ram' after →
      post .success ram' after) :
    OnReturn l (pmtCommitSlots l reclaim rounds i .success) post ram store := by
  induction rounds generalizing i place nodes current reclaimBlock ram store with
  | zero =>
      obtain rfl : i = last := total
      exact OnReturn.pure.mpr (meets _ _ _ _ _ _ working)
  | succ rounds ih =>
      have isSlot : i < pmtCacheCount l := by omega
      rw [pmtCommitSlots, OnReturn.bind, OnReturn.get]
      by_cases empty : ram.pmCacheCluster i = invalidCluster
      · rw [if_pos empty]
        exact ih (working.skip fit empty) (by omega)
      · have registered : Registered l ram i := ⟨isSlot, empty⟩
        obtain ⟨_, isSlotWord, aligned⟩ := working.kept.cached.slot i (Nat.le_refl i) registered
        rw [if_neg empty]
        dsimp only
        rw [OnReturn.bind, OnReturn.assert]
        intro _
        rcases isSlotWord with clean | dirty
        · have notDirty : PmNode.isDirty (ram.rootTable.pageMappingNodes (ram.pmCacheCluster i)) =
              false := (congrArg PmNode.isDirty clean).trans (isDirty_clean aligned)
          rw [if_pos notDirty, OnReturn.bind, OnReturn.modifies]
          exact ih (working.giveBack fit registered clean) (by omega)
        · have isDirty : PmNode.isDirty (ram.rootTable.pageMappingNodes (ram.pmCacheCluster i)) =
              true := (congrArg PmNode.isDirty dirty).trans (isDirty_setDirty aligned)
          rw [if_neg (isDirty ▸ Bool.noConfusion), OnReturn.bind]
          refine onReturn_pmtWriteSlot working fit registered
            fun place' nodes' current' ram' after working' => ?_
          rw [OnReturn.bind]
          refine onReturn_pmtNextBlock working' fit reclaims
            fun place' current' reclaimBlock' ram' after working' => ?_
          exact ih working' (by omega)

/-- Between two commits of the nodes. -/
abbrev AtRest (l : Layout) (strict : Prop) (map : Nat → Nat → Nat) (place : Nat → Place)
    (nodes : Nat → Nat → Nat) (current : Place) (reclaimBlock : Nat) (ram : FtlRam)
    (store : UbiStore D) : Prop :=
  Working l strict 0 map place nodes current reclaimBlock ram store

/-- No slot holds a node. -/
def EmptyCache (l : Layout) (ram : FtlRam) : Prop := ∀ k, ¬ Registered l ram k

theorem EmptyCache.onPage {erased : Option Nat} {cluster : Nat} (empty : EmptyCache l ram)
    (cached : Cached l i map place nodes erased ram) (fit : l.NodesFit)
    (isCluster : cluster < pmtClusterCount l) : OnPage l map place nodes erased ram cluster := by
  rcases cached.cluster cluster isCluster with onPage | ⟨k, _, isSlot, inSlot⟩
  · exact onPage
  · exact absurd (Cached.registered fit isCluster isSlot inSlot.inSlot) (empty k)

/-- `PMT_Init` empties the cache, which has been written back. -/
theorem onReturn_pmtInit {post : Status → FtlRam → UbiStore D → Prop}
    (working : Working l strict (pmtCacheCount l) map place nodes current reclaimBlock ram store)
    (meets : ∀ ram', AtRest l strict map place nodes current reclaimBlock ram' store →
      EmptyCache l ram' → post .success ram' store) :
    OnReturn l (pmtInit l) post ram store := by
  obtain ⟨⟨placed, cached, tabled, entries⟩, counted, current, reclaim, exact⟩ := working
  rw [pmtInit, OnReturn.bind, OnReturn.modifies, OnReturn.pure]
  have empty : ∀ k, ¬ Registered l
      { ram with
        pmNodeCaches := fun i k => if i < pmtCacheCount l then 0 else ram.pmNodeCaches i k
        pmCacheOriginLocation := fun i =>
          if i < pmtCacheCount l then PmNode.invalid else ram.pmCacheOriginLocation i
        pmCacheCluster := fun i =>
          if i < pmtCacheCount l then invalidCluster else ram.pmCacheCluster i } k :=
    fun k registered => registered.2 (if_pos registered.1)
  refine meets _ ⟨⟨placed, ?_, tabled, entries⟩, counted, current, reclaim, exact⟩ empty
  refine ⟨fun cluster isCluster => ?_, fun k _ registered => absurd registered (empty k),
    fun k _ registered => absurd registered (empty k)⟩
  rcases cached.cluster cluster isCluster with onPage | ⟨k, behind, isSlot, _⟩
  · exact Or.inl ⟨onPage.word, onPage.node, onPage.intact⟩
  · exact absurd isSlot (Nat.not_lt.mpr behind)

/-- A commit writes all nodes back, and loses none. -/
theorem onReturn_pmtCommit {post : Status → FtlRam → UbiStore D → Prop}
    (atRest : AtRest l strict map place nodes current reclaimBlock ram store)
    (fit : l.NodesFit) (reclaims : Reclaims l strict reclaim)
    (meets : ∀ place' nodes' current' reclaimBlock' ram' after,
      AtRest l strict map place' nodes' current' reclaimBlock' ram' after → EmptyCache l ram' →
      post .success ram' after) :
    OnReturn l (pmtCommit l reclaim) post ram store := by
  rw [pmtCommit, OnReturn.bind]
  refine onReturn_pmtCommitSlots atRest fit reclaims (Nat.zero_add _) (Nat.le_refl _)
    fun place' nodes' current' reclaimBlock' ram' after working => ?_
  rw [onSuccess_success]
  exact onReturn_pmtInit working fun ram' => meets _ _ _ _ ram' after

end Commit

end OpenNfm.Ftl
